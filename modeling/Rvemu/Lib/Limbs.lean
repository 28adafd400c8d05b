/-
Products of two-limb numbers.

In base `B` a number below `B * B` has two limbs.  The high part of the product of
two such numbers is obtained from the four products of limbs by carrying twice, and
none of the sums on the way reaches `B * B`.  The high part of a negated product is
the complement of the high part of the product, one more if there is nothing below
it: this is what rounding down asks for.
-/
import Mathlib.Algebra.Order.Ring.Nat
import Mathlib.Data.Int.Basic
import Mathlib.Tactic.Linarith
import Mathlib.Tactic.Ring

namespace Limbs

section

variable {B a b c d : Nat}

/-- A product of limbs and two limbs more still fit in two limbs. -/
theorem mul_add_add_lt (ha : a < B) (hb : b < B) (hc : c < B) (hd : d < B) :
    a * b + c + d < B * B := by
  obtain ⟨k, rfl⟩ := Nat.exists_eq_add_of_lt ha
  nlinarith

theorem mul_add_lt (ha : a < B) (hb : b < B) (hc : c < B) : a * b + c < B * B := by
  have h := mul_add_add_lt ha hb hc (by omega : 0 < B)
  omega

/-- The carry out of a product of limbs is a limb. -/
theorem carry_lt (ha : a < B) (hb : b < B) : a * b / B < B := by
  rw [Nat.div_lt_iff_lt_mul (by omega)]
  exact Nat.mul_lt_mul'' ha hb

end

/-! ### The carries -/

section

variable (B a₀ a₁ b₀ b₁ : Nat)

/-- The first cross product, with the carry out of the product of the low limbs. -/
def cross₁ : Nat := a₁ * b₀ + a₀ * b₀ / B

/-- The second cross product, with the low limb of the first. -/
def cross₂ : Nat := a₀ * b₁ + cross₁ B a₀ a₁ b₀ % B

/-- The product of the high limbs, with what both cross products carry. -/
def top : Nat := a₁ * b₁ + cross₁ B a₀ a₁ b₀ / B + cross₂ B a₀ a₁ b₀ b₁ / B

variable {B}

/-- The last of the three sums is the high part of the product. -/
theorem top_eq (hB : 0 < B) :
    top B a₀ a₁ b₀ b₁ = (a₁ * B + a₀) * (b₁ * B + b₀) / (B * B) := by
  have hprod : (a₁ * B + a₀) * (b₁ * B + b₀) =
      a₀ * b₀ + (a₁ * b₁ * B + a₀ * b₁ + a₁ * b₀) * B := by ring
  have hcross : a₀ * b₀ / B + (a₁ * b₁ * B + a₀ * b₁ + a₁ * b₀) =
      cross₂ B a₀ a₁ b₀ b₁ + (a₁ * b₁ + cross₁ B a₀ a₁ b₀ / B) * B := by
    have hdiv := Nat.mod_add_div (cross₁ B a₀ a₁ b₀) B
    have hexp : (a₁ * b₁ + cross₁ B a₀ a₁ b₀ / B) * B =
        a₁ * b₁ * B + B * (cross₁ B a₀ a₁ b₀ / B) := by ring
    have hone : cross₁ B a₀ a₁ b₀ = a₁ * b₀ + a₀ * b₀ / B := rfl
    rw [hexp, cross₂]
    omega
  rw [hprod, ← Nat.div_div_eq_div_mul, Nat.add_mul_div_right _ _ hB, hcross,
    Nat.add_mul_div_right _ _ hB, top]
  omega

variable {a₀ a₁ b₀ b₁}

theorem cross₁_lt (ha₀ : a₀ < B) (ha₁ : a₁ < B) (hb₀ : b₀ < B) : cross₁ B a₀ a₁ b₀ < B * B :=
  mul_add_lt ha₁ hb₀ (carry_lt ha₀ hb₀)

end

/-! ### Negation -/

/-- Rounding a negated number down. -/
theorem neg_floor {M : Nat} (hM : 0 < M) (p : Nat) :
    -(p : Int) / (M : Int) = -((p / M : Nat) : Int) - 1 + if p % M = 0 then 1 else 0 := by
  have hp : (p : Int) = M * (p / M : Nat) + (p % M : Nat) := by
    exact_mod_cast (Nat.div_add_mod p M).symm
  have hlt : p % M < M := Nat.mod_lt p hM
  generalize hq : p / M = q at hp
  generalize hr : p % M = r at hp hlt
  by_cases h0 : r = 0
  · have hsum : -(p : Int) = -q * M := by
      rw [hp, h0]
      push_cast
      ring
    rw [if_pos h0, hsum, Int.mul_ediv_cancel _ (by omega)]
    omega
  · have hsum : -(p : Int) = ((M - r : Nat) : Int) + (-q - 1) * M := by
      rw [hp, Nat.cast_sub hlt.le]
      ring
    rw [if_neg h0, hsum, Int.add_mul_ediv_right _ _ (by omega),
      Int.ediv_eq_zero_of_lt (by omega) (by omega)]
    omega

end Limbs
