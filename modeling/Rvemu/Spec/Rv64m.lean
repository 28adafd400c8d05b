/-
The division instructions of RV64M, as the RISC-V user-level specification defines
them.

Division never traps.  A zero divisor gives a quotient of all ones and the dividend
as the remainder; the one signed quotient that does not fit, that of the least
number by -1, gives the least number and the remainder zero.  The word forms divide
the low halves of their operands and extend the sign of the result.
-/
import Rvemu.Spec.Rv64i

namespace Rvemu.Spec

/-- The signed quotient, rounded towards zero. -/
def quotS {w : Nat} (a b : BitVec w) : BitVec w :=
  if b = 0 then BitVec.allOnes w
  else if a = BitVec.intMin w ∧ b = BitVec.allOnes w then BitVec.intMin w
  else BitVec.ofInt w (a.toInt.tdiv b.toInt)

/-- The signed remainder, with the sign of the dividend. -/
def remS {w : Nat} (a b : BitVec w) : BitVec w :=
  if b = 0 then a
  else if a = BitVec.intMin w ∧ b = BitVec.allOnes w then 0
  else BitVec.ofInt w (a.toInt.tmod b.toInt)

/-- The unsigned quotient. -/
def quotU {w : Nat} (a b : BitVec w) : BitVec w :=
  if b = 0 then BitVec.allOnes w else BitVec.ofNat w (a.toNat / b.toNat)

/-- The unsigned remainder. -/
def remU {w : Nat} (a b : BitVec w) : BitVec w :=
  if b = 0 then a else BitVec.ofNat w (a.toNat % b.toNat)

/-- The division instructions on the low halves. -/
def isWordDivision (t : InstType) : Bool := t matches .divw | .divuw | .remw | .remuw

/-- The division instructions. -/
def isDivision (t : InstType) : Bool :=
  (t matches .div | .divu | .rem | .remu) || isWordDivision t

/-- What a division instruction writes, for the values of its two operands. -/
def division (t : InstType) (a b : Word) : Word :=
  match t with
  | .div => quotS a b
  | .divu => quotU a b
  | .rem => remS a b
  | .remu => remU a b
  | .divw => word (quotS (low a) (low b))
  | .divuw => word (quotU (low a) (low b))
  | .remw => word (remS (low a) (low b))
  | .remuw => word (remU (low a) (low b))
  -- no division
  | _ => 0

end Rvemu.Spec
