/-
Programs of RV64IMC, as the RISC-V user-level specification defines them.

The base instructions, multiplication and division, each in its 32-bit form or, where
it has one, in its compressed form.  A compressed instruction does what its expansion
does, but is two bytes long: the next instruction is two bytes on, and that is what a
jump links.

What a program does between two environment calls is a number of instructions one
after the other, and ends with the next call or with an access it may not make.
-/
import Rvemu.Spec.Compressed
import Rvemu.Spec.Flat
import Rvemu.Spec.Rv64m

namespace Rvemu.Spec

/-- The multiplication instructions. -/
def isMultiplication (t : InstType) : Bool := t matches .mul | .mulh | .mulhsu | .mulhu | .mulw

/-- What a multiplication instruction writes, for the values of its two operands: a part of
the exact product. -/
def multiplication (t : InstType) (a b : Word) : Word :=
  match t with
  | .mul => BitVec.ofInt 64 (a.toInt * b.toInt)
  | .mulh => BitVec.ofInt 64 (a.toInt * b.toInt / 2 ^ 64)
  | .mulhsu => BitVec.ofInt 64 (a.toInt * b.toNat / 2 ^ 64)
  | .mulhu => BitVec.ofNat 64 (a.toNat * b.toNat / 2 ^ 64)
  | .mulw => word (BitVec.ofInt 32 ((low a).toInt * (low b).toInt))
  -- no multiplication
  | _ => 0

/-- The instructions of RV64IM. -/
def isRv64im (t : InstType) : Bool := isRv64i t || isMultiplication t || isDivision t

/-- One instruction of RV64IM that takes up `len` bytes. -/
def execute (len : Word) (t : InstType) (o : Operands) (a : Arch) : Option Arch :=
  let rs1 := a.get o.rs1
  let rs2 := a.get o.rs2
  let result (v : Word) : Option Arch := some { a.set o.rd v with pc := a.pc + len }
  match t with
  | .jal => some { a.set o.rd (a.pc + len) with pc := a.pc + o.immJ }
  | .jalr => some { a.set o.rd (a.pc + len) with pc := (rs1 + o.immI) &&& ~~~1 }
  | .beq | .bne | .blt | .bge | .bltu | .bgeu =>
      some { a with pc := if branchTaken t rs1 rs2 then a.pc + o.immB else a.pc + len }
  | .mul | .mulh | .mulhsu | .mulhu | .mulw => result (multiplication t rs1 rs2)
  | .div | .divu | .rem | .remu | .divw | .divuw | .remw | .remuw => result (division t rs1 rs2)
  | _ => (exec t o a).map fun a' => { a' with pc := a.pc + len }

/-- The instruction in front of a program, and how many bytes it takes up. -/
inductive Holds (a : Arch) : InstType → Operands → Word → Prop
  | word {t : InstType} {o : Operands} (h : a.load a.pc 4 = some (encode t o)) : Holds a t o 4
  | half {f : CForm} {c : BitVec 16} (h : a.load a.pc 2 = some c) (hc : f.Legal c) :
      Holds a (f.expand c).1 (f.expand c).2 2

/-- One instruction leads from `a` to `a'`. -/
def Next (a a' : Arch) : Prop :=
  ∃ t o len, Holds a t o len ∧ isRv64im t = true ∧ execute len t o a = some a'

/-- The instruction accesses memory it may not access. -/
def Faults (a : Arch) : Prop :=
  ∃ t o len, Holds a t o len ∧ isRv64im t = true ∧ execute len t o a = none

/-- The environment call is in front of the program. -/
def AtCall (a : Arch) : Prop := a.load a.pc 4 = some 0x73

/-- How a program ends that is allowed so many instructions. -/
inductive End
  /-- It is still running. -/
  | running (a : Arch)
  /-- It has made an environment call, with so many of the instructions left. -/
  | called (left : Nat) (a : Arch)
  | faulted

/-- What `n` instructions from a state on come to, up to the first environment call.  `P`
holds wherever an instruction is executed. -/
inductive Behaves (P : Arch → Prop) : Nat → Arch → End → Prop
  | running (a : Arch) : Behaves P 0 a (.running a)
  | step {n : Nat} {a a' : Arch} {e : End} (hP : P a) (hs : Next a a') (h : Behaves P n a' e) :
      Behaves P (n + 1) a e
  | called {n : Nat} {a : Arch} (h : AtCall a) :
      Behaves P (n + 1) a (.called n { a with pc := a.pc + 4 })
  | faulted {n : Nat} {a : Arch} (hP : P a) (h : Faults a) : Behaves P (n + 1) a .faulted

end Rvemu.Spec
