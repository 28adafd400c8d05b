/-
The RV64I base instructions, as the RISC-V user-level specification defines them.

An architectural state is the integer registers, the memory of the program and the
program counter.  `exec` is one instruction: the next state, or `none` where the
instruction accesses memory it may not access.  Values are stated as the
specification states them, comparisons by the numbers compared and the word forms
on the low halves, without regard to how the emulator computes them.
-/
import Rvemu.Spec.Encoding

namespace Rvemu.Spec

open Memory

/-- The architectural state of one hart. -/
@[ext] structure Arch where
  x : BitVec 5 → Word
  mem : Mem 64
  pc : Word

namespace Arch

/-- `x0` reads as zero. -/
def get (a : Arch) (r : BitVec 5) : Word := if r = 0 then 0 else a.x r

/-- Writes to `x0` are ignored. -/
def set (a : Arch) (r : BitVec 5) (v : Word) : Arch :=
  if r = 0 then a else { a with x := Function.update a.x r v }

/-- Go on with the next 32-bit instruction. -/
def next (a : Arch) : Arch := { a with pc := a.pc + 4 }

/-- Write a result and go on. -/
def result (a : Arch) (rd : BitVec 5) (v : Word) : Arch := (a.set rd v).next

/-- Load `n` bytes, little-endian. -/
def load (a : Arch) (addr : Word) (n : Nat) : Option (BitVec (8 * n)) :=
  (a.mem.load addr n).toOption

/-- Store `n` bytes, little-endian, and go on. -/
def store (a : Arch) (addr : Word) (n : Nat) (v : BitVec (8 * n)) : Option Arch :=
  (a.mem.store addr n v).toOption.map fun m => { a with mem := m }.next

end Arch

/-! ### Immediates -/

namespace Operands

def immI (o : Operands) : Word := o.imm12.signExtend 64
def immS (o : Operands) : Word := o.imm12.signExtend 64
def immB (o : Operands) : Word := o.imm12.signExtend 64 <<< 1
def immU (o : Operands) : Word := (o.imm20 ++ 0#12).signExtend 64
def immJ (o : Operands) : Word := o.imm20.signExtend 64 <<< 1

end Operands

/-! ### Values -/

/-- One or zero, as a comparison comes out. -/
def flag (p : Prop) [Decidable p] : Word := if p then 1 else 0

/-- A result of the low 32 bits, sign extended. -/
def word (x : BitVec 32) : Word := x.signExtend 64

/-- The low half of a register. -/
def low (x : Word) : BitVec 32 := x.extractLsb' 0 32

/-- The shift amount a register holds, for a shift of the whole register. -/
def amount6 (x : Word) : Nat := (x.extractLsb' 0 6).toNat

/-- The shift amount a register holds, for a shift of its low half. -/
def amount5 (x : Word) : Nat := (x.extractLsb' 0 5).toNat

/-- The base instructions. -/
def isRv64i (t : InstType) : Bool :=
  t matches .lui | .auipc | .jal | .jalr | .beq | .bne | .blt | .bge | .bltu | .bgeu
    | .lb | .lh | .lw | .ld | .lbu | .lhu | .lwu | .sb | .sh | .sw | .sd
    | .addi | .slti | .sltiu | .xori | .ori | .andi | .slli | .srli | .srai
    | .add | .sub | .sll | .slt | .sltu | .xor | .srl | .sra | .or | .and
    | .addiw | .slliw | .srliw | .sraiw | .addw | .subw | .sllw | .srlw | .sraw
    | .fence | .fence_i

/-- One instruction of the base set. -/
def exec (t : InstType) (o : Operands) (a : Arch) : Option Arch :=
  let rs1 := a.get o.rs1
  let rs2 := a.get o.rs2
  let branch (p : Prop) [Decidable p] : Option Arch :=
    some (if p then { a with pc := a.pc + o.immB } else a.next)
  let load (n : Nat) (extend : BitVec (8 * n) → Word) : Option Arch :=
    (a.load (rs1 + o.immI) n).map fun v => a.result o.rd (extend v)
  let store (n : Nat) : Option Arch := a.store (rs1 + o.immS) n (rs2.extractLsb' 0 (8 * n))
  let alu (v : Word) : Option Arch := some (a.result o.rd v)
  match t with
  | .lui => alu o.immU
  | .auipc => alu (a.pc + o.immU)
  | .jal => some { a.set o.rd (a.pc + 4) with pc := a.pc + o.immJ }
  | .jalr => some { a.set o.rd (a.pc + 4) with pc := (rs1 + o.immI) &&& ~~~1 }
  | .beq => branch (rs1 = rs2)
  | .bne => branch (rs1 ≠ rs2)
  | .blt => branch (rs1.toInt < rs2.toInt)
  | .bge => branch (rs2.toInt ≤ rs1.toInt)
  | .bltu => branch (rs1.toNat < rs2.toNat)
  | .bgeu => branch (rs2.toNat ≤ rs1.toNat)
  | .lb => load 1 fun v => v.signExtend 64
  | .lh => load 2 fun v => v.signExtend 64
  | .lw => load 4 fun v => v.signExtend 64
  | .ld => load 8 fun v => v
  | .lbu => load 1 fun v => v.setWidth 64
  | .lhu => load 2 fun v => v.setWidth 64
  | .lwu => load 4 fun v => v.setWidth 64
  | .sb => store 1
  | .sh => store 2
  | .sw => store 4
  | .sd => store 8
  | .addi => alu (rs1 + o.immI)
  | .slti => alu (flag (rs1.toInt < o.immI.toInt))
  | .sltiu => alu (flag (rs1.toNat < o.immI.toNat))
  | .xori => alu (rs1 ^^^ o.immI)
  | .ori => alu (rs1 ||| o.immI)
  | .andi => alu (rs1 &&& o.immI)
  | .slli => alu (rs1 <<< o.shamt.toNat)
  | .srli => alu (rs1 >>> o.shamt.toNat)
  | .srai => alu (rs1.sshiftRight o.shamt.toNat)
  | .add => alu (rs1 + rs2)
  | .sub => alu (rs1 - rs2)
  | .sll => alu (rs1 <<< amount6 rs2)
  | .slt => alu (flag (rs1.toInt < rs2.toInt))
  | .sltu => alu (flag (rs1.toNat < rs2.toNat))
  | .xor => alu (rs1 ^^^ rs2)
  | .srl => alu (rs1 >>> amount6 rs2)
  | .sra => alu (rs1.sshiftRight (amount6 rs2))
  | .or => alu (rs1 ||| rs2)
  | .and => alu (rs1 &&& rs2)
  | .addiw => alu (word (low rs1 + low o.immI))
  | .slliw => alu (word (low rs1 <<< (o.shamt.extractLsb' 0 5).toNat))
  | .srliw => alu (word (low rs1 >>> (o.shamt.extractLsb' 0 5).toNat))
  | .sraiw => alu (word ((low rs1).sshiftRight (o.shamt.extractLsb' 0 5).toNat))
  | .addw => alu (word (low rs1 + low rs2))
  | .subw => alu (word (low rs1 - low rs2))
  | .sllw => alu (word (low rs1 <<< amount5 rs2))
  | .srlw => alu (word (low rs1 >>> amount5 rs2))
  | .sraw => alu (word ((low rs1).sshiftRight (amount5 rs2)))
  | .fence => some a.next
  | .fence_i => some a.next
  -- not a base instruction
  | _ => none

end Rvemu.Spec
