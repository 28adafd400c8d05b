/-
The flat execution loop.

Fetch, decode, execute, move the program counter: to the target of a jump or of a
branch that is taken, and otherwise past the instruction.  There are no blocks here
and no exit reasons, each instruction is decoded into a fresh record, and where it
goes is read off the instruction and the registers before it, not off what a
handler left behind.  Registers and memory are whatever the handlers make of them.
-/
import Rvemu.Interp

namespace Rvemu.Spec

/-- The part of the state that a program can observe, and the world. -/
structure Flat where
  gpRegs : RegNo → Word
  fpRegs : RegNo → FpReg
  pc : Word
  world : World

/-- The same with the control variables of the emulator cleared. -/
def Flat.toState (f : Flat) : State where
  exitReason := .none
  reenterPc := 0
  gpRegs := f.gpRegs
  fpRegs := f.fpRegs
  pc := f.pc
  world := f.world

/-- Whether a branch on these two values is taken. -/
def branchTaken (t : InstType) (a b : Word) : Bool :=
  match t with
  | .beq => a == b
  | .bne => a != b
  | .blt => decide (a.toInt < b.toInt)
  | .bge => !decide (a.toInt < b.toInt)
  | .bltu => decide (a.toNat < b.toNat)
  | .bgeu => !decide (a.toNat < b.toNat)
  | _ => false

/-- The address of the instruction that follows in the order of execution. -/
def nextPc (i : Inst) (gpRegs : RegNo → Word) (pc : Word) : Word :=
  match i.type with
  | .jal => pc + i.imm.signExtend 64
  | .jalr => (gpRegs i.rs1 + i.imm.signExtend 64) &&& ~~~1
  | t =>
    if branchTaken t (gpRegs i.rs1) (gpRegs i.rs2) then pc + i.imm.signExtend 64
    else pc + i.length

variable (fpu : HostFpu)

/-- One instruction: which it was, and what it leaves. -/
def flatStep (f : Flat) : Except Stop (Inst × Flat) := do
  let rawData ← f.toState.load f.pc 4
  let inst ← decodeInst {} rawData
  let (s, _) ← func fpu inst.type f.toState inst
  .ok (inst, {
    gpRegs := Function.update s.gpRegs Reg.zero 0
    fpRegs := s.fpRegs
    pc := nextPc inst f.gpRegs f.pc
    world := s.world })

/-- Instructions up to the first environment call, `budget` of them at most. -/
def flatLoop : Nat → Flat → Except Stop (Loop Flat)
  | 0, f => .ok (.running f)
  | budget + 1, f => do
      let (inst, f) ← flatStep fpu f
      if inst.type = .ecall then .ok (.left budget f) else flatLoop budget f

end Rvemu.Spec
