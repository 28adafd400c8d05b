/-
Running blocks and setting up the program, `machine.c`.

`machine_step` runs blocks until one ends with an environment call.  Its loop is
given the number of rounds it may make besides the number of instructions it may
execute; a round executes an instruction at least, so one round more than there are
instructions is never the limit that is met.

The stack, the argument strings and the heap all come from `mmu_alloc`.
-/
import Rvemu.Interp
import Rvemu.Mmu

namespace Rvemu

section

variable (fpu : HostFpu)

/-- The loop of `machine_step`, allowed `rounds` rounds and `budget` instructions. -/
def machineRounds : Nat → Nat → Machine → Except Stop (Loop Machine)
  | 0, _, m => .ok (.running m)
  | rounds + 1, budget, m => do
      let s := { m.state with exitReason := .none }
      match ← execBlockInterp fpu budget s m.inst with
      | .running (s, inst) => .ok (.running { m with state := s, inst := inst })
      | .left budget (s, inst) => do
          assertThat (s.exitReason != .none) "machine->state.exit_reason != none"
          if s.exitReason = .directBranch ∨ s.exitReason = .indirectBranch then
            machineRounds rounds budget
              { m with state := { s with pc := s.reenterPc }, inst := inst }
          else do
            let s := { s with pc := s.reenterPc }
            assertThat (s.exitReason == .ecall) "machine->state.exit_reason == ecall"
            .ok (.left budget { m with state := s, inst := inst })

/-- `machine_step`, allowed `budget` instructions; it returns `ecall` when it returns. -/
def machineStep (budget : Nat) (m : Machine) : Except Stop (Loop Machine) :=
  machineRounds fpu (budget + 1) budget m

end

section

variable (os : Os)

/-- `machine_load_program`, for the outcome of opening the file. -/
def machineLoadProgram (prog : Reply (List (BitVec 8))) (phdr : List (BitVec 8)) (m : Machine) :
    Except Stop Machine :=
  match prog with
  | .fail errno => .error (.fatal (os.strerror errno))
  | .ok file => do
      let (w, mmu) ← mmuLoadElf os phdr m.state.world m.mmu file
      .ok { m with state := { m.state with world := w, pc := mmu.entry }, mmu := mmu }

/-- The 32 MB of the guest's stack. -/
def stackSize : Word := 32 * 1024 * 1024

/-- Copy the strings into guest memory, the last first, and push their addresses. -/
def pushArgs : List (List (BitVec 8)) → World → Mmu → Word → Except Stop (World × Mmu × Word)
  | [], w, mmu, sp => .ok (w, mmu, sp)
  | arg :: rest, w, mmu, sp => do
      let (w, mmu, sp) ← pushArgs rest w mmu sp
      let len := BitVec.ofNat 64 arg.length
      let (addr, w, mmu) ← mmuAlloc os w mmu (len + 1)
      let w ← mmuWrite w addr arg
      let sp := sp - 8
      let w ← mmuWrite w sp (wordBytes addr)
      .ok (w, mmu, sp)
where
  /-- The eight bytes of a word in memory. -/
  wordBytes (x : Word) : List (BitVec 8) := (List.range 8).map fun k => x.extractLsb' (8 * k) 8

/-- `machine_setup`.  Eight bytes are copied from the four of `argc`; `pad` is what lies
behind it. -/
def machineSetup (argv : List (List (BitVec 8))) (pad : BitVec 32) (m : Machine) :
    Except Stop Machine := do
  let (addr, w, mmu) ← mmuAlloc os m.state.world m.mmu stackSize
  let sp := addr + stackSize
  let sp := sp - 8 -- auxv
  let sp := sp - 8 -- envp
  let sp := sp - 8 -- argv end
  let (w, mmu, sp) ← pushArgs os argv.tail w mmu sp
  let sp := sp - 8 -- argc
  let w ← mmuWrite w sp (pushArgs.wordBytes (pad ++ BitVec.ofNat 32 argv.length))
  .ok { m with state := { m.state with world := w }.setGp Reg.sp sp, mmu := mmu }

end

end Rvemu
