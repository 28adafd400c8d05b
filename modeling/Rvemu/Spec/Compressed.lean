/-
The C extension, as the RISC-V user-level specification defines it for RV64.

A compressed instruction is a 16-bit form that stands for a 32-bit instruction.
`Legal` says when a half word is an encoding of a form: its fixed fields have the
specification's values and no operand pattern that the specification reserves is
used.  `expand` is the instruction it stands for.  `c.ebreak` is left out, as the
enumeration has no instruction for it to expand to.

The immediates are scattered over the half word.  A layout lists the pieces as the
specification's tables do: `(hi, lo, pos)` stands for `imm[hi:lo]`, found from bit
`pos` of the half word on.
-/
import Rvemu.Spec.Encoding

namespace Rvemu.Spec

open BitField

/-- The immediate scattered over `c` as `layout` says, from its bit `base` on. -/
def gather (base n : Nat) : List (Nat × Nat × Nat) → BitVec 16 → BitVec n
  | [], _ => 0
  | [(hi, lo, pos)], c => place (c.extractLsb' pos (hi - lo + 1)) (lo - base)
  | (hi, lo, pos) :: layout, c =>
      place (c.extractLsb' pos (hi - lo + 1)) (lo - base) ||| gather base n layout c

/-- The register named by a three-bit field: `x8` to `x15`. -/
def creg (r : BitVec 3) : BitVec 5 := 0b01#2 ++ r

/-- The compressed forms; `c.nop` is an `addi`. -/
inductive CForm
  | addi4spn | fld | lw | ld | fsd | sw | sd
  | addi | addiw | li | addi16sp | lui | srli | srai | andi
  | sub | xor | or | and | subw | addw | j | beqz | bnez
  | slli | fldsp | lwsp | ldsp | jr | mv | jalr | add | fsdsp | swsp | sdsp
  deriving DecidableEq, Repr

namespace CForm

/-- The two fields every form fixes: the quadrant and funct3. -/
def Major (op : BitVec 2) (f3 : BitVec 3) (c : BitVec 16) : Prop :=
  c.extractLsb' 0 2 = op ∧ c.extractLsb' 13 3 = f3

/-- The register-register operations on `x8` to `x15`. -/
def Arith (bit12 : BitVec 1) (f2 : BitVec 2) (c : BitVec 16) : Prop :=
  Major 0b01 0b100 c ∧ c.extractLsb' 10 2 = 0b11 ∧ c.extractLsb' 12 1 = bit12 ∧
    c.extractLsb' 5 2 = f2

/-- The six immediate bits of the CI format are not all zero. -/
def NonzeroImm (c : BitVec 16) : Prop := ¬(c.extractLsb' 12 1 = 0 ∧ c.extractLsb' 2 5 = 0)

/-- `c` is an encoding of the form. -/
def Legal : CForm → BitVec 16 → Prop
  | addi4spn, c => Major 0b00 0b000 c ∧ c.extractLsb' 5 8 ≠ 0
  | fld, c => Major 0b00 0b001 c
  | lw, c => Major 0b00 0b010 c
  | ld, c => Major 0b00 0b011 c
  | fsd, c => Major 0b00 0b101 c
  | sw, c => Major 0b00 0b110 c
  | sd, c => Major 0b00 0b111 c
  | addi, c => Major 0b01 0b000 c
  | addiw, c => Major 0b01 0b001 c ∧ c.extractLsb' 7 5 ≠ 0
  | li, c => Major 0b01 0b010 c
  | addi16sp, c => Major 0b01 0b011 c ∧ c.extractLsb' 7 5 = 2 ∧ NonzeroImm c
  | lui, c => Major 0b01 0b011 c ∧ c.extractLsb' 7 5 ≠ 2 ∧ NonzeroImm c
  | srli, c => Major 0b01 0b100 c ∧ c.extractLsb' 10 2 = 0b00
  | srai, c => Major 0b01 0b100 c ∧ c.extractLsb' 10 2 = 0b01
  | andi, c => Major 0b01 0b100 c ∧ c.extractLsb' 10 2 = 0b10
  | sub, c => Arith 0 0b00 c
  | xor, c => Arith 0 0b01 c
  | or, c => Arith 0 0b10 c
  | and, c => Arith 0 0b11 c
  | subw, c => Arith 1 0b00 c
  | addw, c => Arith 1 0b01 c
  | j, c => Major 0b01 0b101 c
  | beqz, c => Major 0b01 0b110 c
  | bnez, c => Major 0b01 0b111 c
  | slli, c => Major 0b10 0b000 c
  | fldsp, c => Major 0b10 0b001 c
  | lwsp, c => Major 0b10 0b010 c ∧ c.extractLsb' 7 5 ≠ 0
  | ldsp, c => Major 0b10 0b011 c ∧ c.extractLsb' 7 5 ≠ 0
  | jr, c => Major 0b10 0b100 c ∧ c.extractLsb' 12 1 = 0 ∧ c.extractLsb' 7 5 ≠ 0 ∧
      c.extractLsb' 2 5 = 0
  | mv, c => Major 0b10 0b100 c ∧ c.extractLsb' 12 1 = 0 ∧ c.extractLsb' 2 5 ≠ 0
  | jalr, c => Major 0b10 0b100 c ∧ c.extractLsb' 12 1 = 1 ∧ c.extractLsb' 7 5 ≠ 0 ∧
      c.extractLsb' 2 5 = 0
  | add, c => Major 0b10 0b100 c ∧ c.extractLsb' 12 1 = 1 ∧ c.extractLsb' 2 5 ≠ 0
  | fsdsp, c => Major 0b10 0b101 c
  | swsp, c => Major 0b10 0b110 c
  | sdsp, c => Major 0b10 0b111 c

/-! ### The immediates -/

/-- The six bits of the CI format, and of the shifts and `c.andi`. -/
def imm6 : BitVec 16 → BitVec 6 := gather 0 6 [(5, 5, 12), (4, 0, 2)]

def addi4spnImm : BitVec 16 → BitVec 12 := gather 0 12 [(5, 4, 11), (9, 6, 7), (2, 2, 6), (3, 3, 5)]

/-- Offsets of the loads and stores of a word and of a double word. -/
def wordOffset : BitVec 16 → BitVec 12 := gather 0 12 [(5, 3, 10), (2, 2, 6), (6, 6, 5)]

def doubleOffset : BitVec 16 → BitVec 12 := gather 0 12 [(5, 3, 10), (7, 6, 5)]

/-- The same relative to the stack pointer, for loads and for stores. -/
def lwspOffset : BitVec 16 → BitVec 12 := gather 0 12 [(5, 5, 12), (4, 2, 4), (7, 6, 2)]

def ldspOffset : BitVec 16 → BitVec 12 := gather 0 12 [(5, 5, 12), (4, 3, 5), (8, 6, 2)]

def swspOffset : BitVec 16 → BitVec 12 := gather 0 12 [(5, 2, 9), (7, 6, 7)]

def sdspOffset : BitVec 16 → BitVec 12 := gather 0 12 [(5, 3, 10), (8, 6, 7)]

def addi16spImm : BitVec 16 → BitVec 10 :=
  gather 0 10 [(9, 9, 12), (4, 4, 6), (6, 6, 5), (8, 7, 3), (5, 5, 2)]

/-- Bits 17 to 12 of the constant `c.lui` loads. -/
def luiImm : BitVec 16 → BitVec 6 := gather 12 6 [(17, 17, 12), (16, 12, 2)]

/-- Bits 11 to 1 of the jump offset. -/
def jOffset : BitVec 16 → BitVec 11 :=
  gather 1 11 [(11, 11, 12), (4, 4, 11), (9, 8, 9), (10, 10, 8), (6, 6, 7), (7, 7, 6), (3, 1, 3),
    (5, 5, 2)]

/-- Bits 8 to 1 of the branch offset. -/
def bOffset : BitVec 16 → BitVec 8 :=
  gather 1 8 [(8, 8, 12), (4, 3, 10), (7, 6, 5), (2, 1, 3), (5, 5, 2)]

/-! ### What the forms stand for

The operands of the expansions, by format, and then the expansions.
-/

def loadOperands (offset : BitVec 16 → BitVec 12) (c : BitVec 16) : Operands :=
  { rd := creg (c.extractLsb' 2 3), rs1 := creg (c.extractLsb' 7 3), imm12 := offset c }

def storeOperands (offset : BitVec 16 → BitVec 12) (c : BitVec 16) : Operands :=
  { rs1 := creg (c.extractLsb' 7 3), rs2 := creg (c.extractLsb' 2 3), imm12 := offset c }

def spLoadOperands (offset : BitVec 16 → BitVec 12) (c : BitVec 16) : Operands :=
  { rd := c.extractLsb' 7 5, rs1 := 2, imm12 := offset c }

def spStoreOperands (offset : BitVec 16 → BitVec 12) (c : BitVec 16) : Operands :=
  { rs1 := 2, rs2 := c.extractLsb' 2 5, imm12 := offset c }

def branchOperands (c : BitVec 16) : Operands :=
  { rs1 := creg (c.extractLsb' 7 3), rs2 := 0, imm12 := (bOffset c).signExtend 12 }

/-- The first of the two registers is also the destination. -/
def arithOperands (c : BitVec 16) : Operands :=
  { rd := creg (c.extractLsb' 7 3), rs1 := creg (c.extractLsb' 7 3),
    rs2 := creg (c.extractLsb' 2 3) }

/-- A shift or `c.andi` of one of `x8` to `x15`; the other operand is the immediate. -/
def immOperands (c : BitVec 16) : Operands :=
  { rd := creg (c.extractLsb' 7 3), rs1 := creg (c.extractLsb' 7 3),
    shamt := imm6 c, imm12 := (imm6 c).signExtend 12 }

/-- The same for any register. -/
def ciOperands (c : BitVec 16) : Operands :=
  { rd := c.extractLsb' 7 5, rs1 := c.extractLsb' 7 5,
    shamt := imm6 c, imm12 := (imm6 c).signExtend 12 }

/-- The 32-bit instruction that a half word of this form stands for. -/
def expand : CForm → BitVec 16 → InstType × Operands
  | addi4spn, c => (.addi, { rd := creg (c.extractLsb' 2 3), rs1 := 2, imm12 := addi4spnImm c })
  | fld, c => (.fld, loadOperands doubleOffset c)
  | lw, c => (.lw, loadOperands wordOffset c)
  | ld, c => (.ld, loadOperands doubleOffset c)
  | fsd, c => (.fsd, storeOperands doubleOffset c)
  | sw, c => (.sw, storeOperands wordOffset c)
  | sd, c => (.sd, storeOperands doubleOffset c)
  | addi, c => (.addi, ciOperands c)
  | addiw, c => (.addiw, ciOperands c)
  | li, c => (.addi, { ciOperands c with rs1 := 0 })
  | addi16sp, c => (.addi, { rd := 2, rs1 := 2, imm12 := (addi16spImm c).signExtend 12 })
  | lui, c => (.lui, { rd := c.extractLsb' 7 5, imm20 := (luiImm c).signExtend 20 })
  | srli, c => (.srli, immOperands c)
  | srai, c => (.srai, immOperands c)
  | andi, c => (.andi, immOperands c)
  | sub, c => (.sub, arithOperands c)
  | xor, c => (.xor, arithOperands c)
  | or, c => (.or, arithOperands c)
  | and, c => (.and, arithOperands c)
  | subw, c => (.subw, arithOperands c)
  | addw, c => (.addw, arithOperands c)
  | j, c => (.jal, { rd := 0, imm20 := (jOffset c).signExtend 20 })
  | beqz, c => (.beq, branchOperands c)
  | bnez, c => (.bne, branchOperands c)
  | slli, c => (.slli, ciOperands c)
  | fldsp, c => (.fld, spLoadOperands ldspOffset c)
  | lwsp, c => (.lw, spLoadOperands lwspOffset c)
  | ldsp, c => (.ld, spLoadOperands ldspOffset c)
  | jr, c => (.jalr, { rd := 0, rs1 := c.extractLsb' 7 5, imm12 := 0 })
  | mv, c => (.add, { rd := c.extractLsb' 7 5, rs1 := 0, rs2 := c.extractLsb' 2 5 })
  | jalr, c => (.jalr, { rd := 1, rs1 := c.extractLsb' 7 5, imm12 := 0 })
  | add, c => (.add, { ciOperands c with rs2 := c.extractLsb' 2 5 })
  | fsdsp, c => (.fsd, spStoreOperands sdspOffset c)
  | swsp, c => (.sw, spStoreOperands swspOffset c)
  | sdsp, c => (.sd, spStoreOperands sdspOffset c)

/-- The word encoding the instruction that `c` stands for. -/
def expansion (f : CForm) (c : BitVec 16) : BitVec 32 := encode (f.expand c).1 (f.expand c).2

end CForm

/-- The word, or its lower half when it does not end in `11`, is an encoding of an
instruction of type `t`. -/
def Encodes (t : InstType) (w : BitVec 32) : Prop :=
  if w.extractLsb' 0 2 = 0b11 then (format t).Fixed w
  else ∃ f : CForm, f.Legal (w.setWidth 16) ∧ (f.expand (w.setWidth 16)).1 = t

end Rvemu.Spec
