/-
The main program, `rvemu.c`.

`boot` is what happens before the main loop, `mainLoop` the loop: run until an
environment call, answer it, put the answer into `a0`.  The loop ends only with the
process; within a budget of instructions it has either ended so or is still
running.
-/
import Rvemu.Syscall

namespace Rvemu

variable (fpu : HostFpu) (os : Os)

/-- `machine_t machine = { 0 }` in a process with the given world. -/
def initialMachine (w : World) : Machine where
  state := {
    exitReason := .none
    reenterPc := 0
    gpRegs := fun _ => 0
    fpRegs := fun _ => { v := 0 }
    pc := 0
    world := w }
  mmu := { entry := 0, hostAlloc := 0, guestAlloc := 0, base := 0 }
  inst := {}

/-- `main` up to its loop.  `prog` is the outcome of opening the file named by the first
argument; `phdr` and `pad` are indeterminate bytes of the stack. -/
def boot (prog : Reply (List (BitVec 8))) (phdr : List (BitVec 8)) (pad : BitVec 32)
    (argv : List (List (BitVec 8))) (w : World) : Except Stop Machine := do
  assertThat (1 < argv.length) "argc > 1"
  let m ← machineLoadProgram os prog phdr (initialMachine w)
  machineSetup os argv pad m

/-- One answered environment call. -/
def handleSyscall (m : Machine) : Except Stop Machine := do
  let syscallId := m.state.gp Reg.a7
  let (syscallRet, m) ← doSyscall os m syscallId
  .ok { m with state := m.state.setGp Reg.a0 syscallRet }

/-- The loop of `main`, allowed `rounds` rounds and `budget` instructions. -/
def mainRounds : Nat → Nat → Machine → Except Stop Machine
  | 0, _, m => .ok m
  | rounds + 1, budget, m => do
      match ← machineStep fpu budget m with
      | .running m => .ok m
      | .left budget m => do
          let m ← handleSyscall os m
          mainRounds rounds budget m

/-- The loop of `main`, allowed `budget` instructions. -/
def mainLoop (budget : Nat) (m : Machine) : Except Stop Machine :=
  mainRounds fpu os (budget + 1) budget m

end Rvemu
