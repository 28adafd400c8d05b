/-
Signed arithmetic that stops where C leaves the result undefined.

An operator of C on a signed type gives the exact result if the type has it, and
nothing that could be relied on if not.  Here it gives `none`; machine arithmetic,
which wraps, agrees wherever there is a result.
-/
import Mathlib.Algebra.Group.Int.Defs
import Mathlib.Algebra.Group.Nat.Defs

namespace Checked

variable {w : Nat}

/-- The numbers a signed type of `w` bits has. -/
def Fits (w : Nat) (n : Int) : Prop := -2 ^ (w - 1) ≤ n ∧ n < 2 ^ (w - 1)

instance (w : Nat) (n : Int) : Decidable (Fits w n) := inferInstanceAs (Decidable (_ ∧ _))

/-- The exact result of an operation, if the type has it. -/
def ofInt (w : Nat) (n : Int) : Option (BitVec w) :=
  if Fits w n then some (BitVec.ofInt w n) else none

def neg (x : BitVec w) : Option (BitVec w) := ofInt w (-x.toInt)

def mul (x y : BitVec w) : Option (BitVec w) := ofInt w (x.toInt * y.toInt)

theorem ofInt_isSome_iff (w : Nat) (n : Int) : (ofInt w n).isSome = true ↔ Fits w n := by
  unfold ofInt
  by_cases h : Fits w n
  · simp [h]
  · simp [h]

theorem ofInt_some {n : Int} {r : BitVec w} (h : ofInt w n = some r) : r = BitVec.ofInt w n := by
  unfold ofInt at h
  split at h
  · exact (Option.some.inj h).symm
  · cases h

/-- Where there is a result it is the wrapped one. -/
theorem neg_some {x r : BitVec w} (h : neg x = some r) : r = -x := by
  rw [ofInt_some h, BitVec.ofInt_neg, BitVec.ofInt_toInt]

theorem mul_some {x y r : BitVec w} (h : mul x y = some r) : r = x * y := by
  rw [ofInt_some h, BitVec.ofInt_mul, BitVec.ofInt_toInt, BitVec.ofInt_toInt]

/-- Only the least number has no negation. -/
theorem neg_isSome_iff (hw : 0 < w) (x : BitVec w) :
    (neg x).isSome = true ↔ x ≠ BitVec.intMin w := by
  have hlo := BitVec.le_toInt x
  have hhi := BitVec.toInt_lt (x := x)
  have hmin := BitVec.toInt_intMin_of_pos hw
  rw [neg, ofInt_isSome_iff, Fits]
  constructor
  · rintro ⟨-, hfit⟩ rfl
    omega
  · intro hne
    have hint : x.toInt ≠ (BitVec.intMin w).toInt := fun h => hne (BitVec.eq_of_toInt_eq h)
    omega

theorem mul_isSome_iff (x y : BitVec w) :
    (mul x y).isSome = true ↔ Fits w (x.toInt * y.toInt) :=
  ofInt_isSome_iff w _

end Checked
