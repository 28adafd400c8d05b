/-
Rounding a number to an integer, and fitting an integer into a range.

To the nearest integer, the even one of two, and toward zero.  What nearest means
is said apart from how it is found, so that a rounding given some other way can be
recognised; the two ways of rounding differ by at most one.
-/
import Mathlib.Algebra.Order.Floor.Ring
import Mathlib.Algebra.Order.Round
import Mathlib.Algebra.Group.Int.Even
import Mathlib.Tactic.Linarith
import Mathlib.Tactic.Ring

namespace Rounding

variable {K : Type*} [Field K] [LinearOrder K] [IsStrictOrderedRing K] [FloorRing K]

/-! ### To the nearest integer -/

/-- `n` is the integer nearest to `x`, or the even one of the two nearest. -/
def IsNearestEven (x : K) (n : ℤ) : Prop := |x - n| < 1 / 2 ∨ |x - n| = 1 / 2 ∧ Even n

def roundEven (x : K) : ℤ :=
  if Int.fract x < 1 / 2 then ⌊x⌋
  else if 1 / 2 < Int.fract x then ⌊x⌋ + 1
  else if Even ⌊x⌋ then ⌊x⌋
  else ⌊x⌋ + 1

theorem roundEven_isNearestEven (x : K) : IsNearestEven x (roundEven x) := by
  have hnonneg := Int.fract_nonneg x
  have hlt := Int.fract_lt_one x
  have hdown : |x - (⌊x⌋ : K)| = Int.fract x := by
    rw [Int.self_sub_floor, abs_of_nonneg hnonneg]
  have hup : |x - ((⌊x⌋ + 1 : ℤ) : K)| = 1 - Int.fract x := by
    rw [show x - ((⌊x⌋ + 1 : ℤ) : K) = -(1 - Int.fract x) by
      rw [← Int.self_sub_floor]; push_cast; ring, abs_neg, abs_of_nonneg (by linarith)]
  unfold roundEven
  split
  · rename_i h
    exact .inl (by rw [hdown]; exact h)
  split
  · rename_i h
    exact .inl (by rw [hup]; linarith)
  have hhalf : Int.fract x = 1 / 2 := le_antisymm (by linarith) (by linarith)
  split
  · rename_i heven
    exact .inr ⟨by rw [hdown, hhalf], heven⟩
  · rename_i heven
    exact .inr ⟨by rw [hup, hhalf]; norm_num, by rw [Int.even_add_one]; exact heven⟩

/-- There is one such integer. -/
theorem IsNearestEven.unique {x : K} {m n : ℤ} (hm : IsNearestEven x m) (hn : IsNearestEven x n) :
    m = n := by
  have near {k : ℤ} (h : IsNearestEven x k) : |x - k| ≤ 1 / 2 := by
    rcases h with h | ⟨h, -⟩
    · exact h.le
    · exact h.le
  have hcast : |((m - n : ℤ) : K)| ≤ |x - m| + |x - n| := by
    rw [show ((m - n : ℤ) : K) = (x - n) - (x - m) by push_cast; ring, add_comm]
    exact abs_sub _ _
  by_contra hne
  have hone : (1 : K) ≤ |((m - n : ℤ) : K)| := by
    rw [← Int.cast_abs]
    exact_mod_cast Int.one_le_abs (sub_ne_zero.mpr hne)
  -- both are half a unit away, and then both are even
  have hnn := near hn
  obtain ⟨hm', hmeven⟩ : |x - m| = 1 / 2 ∧ Even m := by
    rcases hm with h | h
    · linarith
    · exact h
  obtain ⟨hn', hneven⟩ : |x - n| = 1 / 2 ∧ Even n := by
    rcases hn with h | h
    · linarith
    · exact h
  have hle : |m - n| ≤ 1 := by
    have : |((m - n : ℤ) : K)| ≤ 1 := by linarith
    rw [← Int.cast_abs] at this
    exact_mod_cast this
  obtain ⟨a, ha⟩ := hmeven
  obtain ⟨b, hb⟩ := hneven
  rw [abs_le] at hle
  omega

theorem roundEven_eq_iff {x : K} {n : ℤ} : roundEven x = n ↔ IsNearestEven x n := by
  constructor
  · rintro rfl
    exact roundEven_isNearestEven x
  · exact fun h => (roundEven_isNearestEven x).unique h

/-! ### Toward zero -/

def truncate (x : K) : ℤ := if 0 ≤ x then ⌊x⌋ else ⌈x⌉

theorem abs_sub_truncate_lt (x : K) : |x - truncate x| < 1 := by
  unfold truncate
  split
  · rw [Int.self_sub_floor, abs_of_nonneg (Int.fract_nonneg x)]
    exact Int.fract_lt_one x
  · rw [abs_lt]
    exact ⟨by linarith [Int.ceil_lt_add_one x], by linarith [Int.le_ceil x]⟩

/-- The two roundings are at most one apart. -/
theorem abs_roundEven_sub_truncate_le (x : K) : |roundEven x - truncate x| ≤ 1 := by
  have hround : |x - roundEven x| ≤ 1 / 2 := by
    rcases roundEven_isNearestEven x with h | ⟨h, -⟩
    · exact h.le
    · exact h.le
  have htrunc := abs_sub_truncate_lt x
  have hlt : |((roundEven x - truncate x : ℤ) : K)| < 2 := by
    rw [show ((roundEven x - truncate x : ℤ) : K) = (x - truncate x) - (x - roundEven x) by
      push_cast; ring]
    have := abs_sub (x - (truncate x : K)) (x - roundEven x)
    linarith
  rw [← Int.cast_abs] at hlt
  have : |roundEven x - truncate x| < 2 := by exact_mod_cast hlt
  omega

/-! ### Into a range -/

/-- The member of the range from `lo` to `hi` that is nearest to `n`. -/
def saturate (lo hi n : ℤ) : ℤ := max lo (min hi n)

theorem saturate_of_le {lo hi n : ℤ} (hlo : lo ≤ n) (hhi : n ≤ hi) : saturate lo hi n = n := by
  rw [saturate, min_eq_right hhi, max_eq_right hlo]

theorem saturate_of_lt {lo hi n : ℤ} (h : lo ≤ hi) (hn : n < lo) : saturate lo hi n = lo := by
  rw [saturate, min_eq_right (hn.le.trans h), max_eq_left hn.le]

theorem saturate_of_gt {lo hi n : ℤ} (h : lo ≤ hi) (hn : hi < n) : saturate lo hi n = hi := by
  rw [saturate, min_eq_left hn.le, max_eq_right h]

end Rounding
