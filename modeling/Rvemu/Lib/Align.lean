/-
Rounding machine words to a power of two.

A word is rounded down by masking and up by masking what lies just short of one
unit further.  The unit is a power of two; the mask is its negation.  Read as
numbers the two are the multiples below and above, as long as rounding up does not
run past the last word; and both commute with the addition of a multiple, whether
that runs past the last word or not.
-/
import Mathlib.Data.Nat.Bitwise

namespace Align

/-- The largest multiple of `2 ^ p` up to `n`. -/
def floor (p n : Nat) : Nat := n / 2 ^ p * 2 ^ p

/-- The least multiple of `2 ^ p` from `n` on. -/
def ceil (p n : Nat) : Nat := floor p (n + 2 ^ p - 1)

theorem floor_le (p n : Nat) : floor p n ≤ n := Nat.div_mul_le_self n (2 ^ p)

theorem dvd_floor (p n : Nat) : 2 ^ p ∣ floor p n := Nat.dvd_mul_left _ _

theorem floor_eq_of_dvd {p n : Nat} (h : 2 ^ p ∣ n) : floor p n = n := Nat.div_mul_cancel h

theorem floor_add_mod (p n : Nat) : floor p n + n % 2 ^ p = n := Nat.div_add_mod' n (2 ^ p)

/-- Rounding down commutes with adding a multiple. -/
theorem floor_add_left {p m : Nat} (hm : 2 ^ p ∣ m) (n : Nat) : floor p (m + n) = m + floor p n := by
  obtain ⟨c, rfl⟩ := hm
  unfold floor
  rw [Nat.mul_add_div (Nat.two_pow_pos p), Nat.add_mul, Nat.mul_comm c]

theorem dvd_ceil (p n : Nat) : 2 ^ p ∣ ceil p n := dvd_floor p _

theorem lt_floor_add (p n : Nat) : n < floor p n + 2 ^ p := by
  have hdiv : 2 ^ p * (n / 2 ^ p) + n % 2 ^ p = n := Nat.div_add_mod n (2 ^ p)
  unfold floor
  rw [Nat.mul_comm]
  omega

theorem le_ceil (p n : Nat) : n ≤ ceil p n := by
  have h := lt_floor_add p (n + 2 ^ p - 1)
  unfold ceil
  omega

theorem ceil_lt (p n : Nat) : ceil p n < n + 2 ^ p := by
  have h := floor_le p (n + 2 ^ p - 1)
  have hpos := Nat.two_pow_pos p
  unfold ceil
  omega

/-- A multiple above `n` is above what `n` is rounded up to. -/
theorem ceil_le_of_dvd {p n m : Nat} (h : n ≤ m) (hm : 2 ^ p ∣ m) : ceil p n ≤ m := by
  have hlt := ceil_lt p n
  have hdvd : 2 ^ p ∣ ceil p n := dvd_ceil p n
  by_contra hgt
  have hsub : 2 ^ p ∣ ceil p n - m := Nat.dvd_sub hdvd hm
  have hle := Nat.le_of_dvd (by omega) hsub
  omega

theorem ceil_mono (p : Nat) {m n : Nat} (h : m ≤ n) : ceil p m ≤ ceil p n :=
  ceil_le_of_dvd (h.trans (le_ceil p n)) (dvd_ceil p n)

/-- The unit a number lies in starts below what any larger number is rounded up to. -/
theorem floor_add_le_ceil {p m n : Nat} (h : m < n) : floor p m + 2 ^ p ≤ ceil p n := by
  have hceil := le_ceil p n
  have hfloor := floor_le p m
  obtain ⟨c, hc⟩ := dvd_floor p m
  obtain ⟨d, hd⟩ := dvd_ceil p n
  have hlt : c < d := by
    by_contra hge
    have := Nat.mul_le_mul_left (2 ^ p) (Nat.le_of_not_lt hge)
    omega
  have hle := Nat.mul_le_mul_left (2 ^ p) hlt
  rw [Nat.mul_succ] at hle
  omega

theorem ceil_add_mul (p n k : Nat) : 2 ^ p ∣ ceil p n + k * 2 ^ p :=
  Nat.dvd_add (dvd_ceil p n) (Nat.dvd_mul_left _ _)

/-- Two parts rounded up one by one take a unit more than their sum at most. -/
theorem ceil_add_ceil (p m n : Nat) :
    ceil p m + ceil p n = ceil p (m + n) ∨ ceil p m + ceil p n = ceil p (m + n) + 2 ^ p := by
  have hm := ceil_lt p m
  have hn := ceil_lt p n
  have hsum := le_ceil p (m + n)
  have hle : ceil p (m + n) ≤ ceil p m + ceil p n :=
    ceil_le_of_dvd (Nat.add_le_add (le_ceil p m) (le_ceil p n))
      (Nat.dvd_add (dvd_ceil p m) (dvd_ceil p n))
  obtain ⟨d, hd⟩ : 2 ^ p ∣ ceil p m + ceil p n - ceil p (m + n) :=
    Nat.dvd_sub (Nat.dvd_add (dvd_ceil p m) (dvd_ceil p n)) (dvd_ceil p (m + n))
  have hlt : d < 2 := Nat.lt_of_mul_lt_mul_left (a := 2 ^ p) (by omega)
  obtain rfl | rfl : d = 0 ∨ d = 1 := by omega
  · exact .inl (by omega)
  · exact .inr (by omega)

variable {w : Nat}

/-- Clear the low bits. -/
def down (x k : BitVec w) : BitVec w := x &&& -k

/-- Clear the low bits of what lies just short of one unit further. -/
def up (x k : BitVec w) : BitVec w := (x + k - 1) &&& -k

/-- The unit `2 ^ p`, as a word. -/
def unit (w p : Nat) : BitVec w := BitVec.ofNat w (2 ^ p)

theorem unit_toNat {p : Nat} (hp : p < w) : (unit w p).toNat = 2 ^ p := by
  unfold unit
  rw [BitVec.toNat_ofNat, Nat.mod_eq_of_lt (Nat.pow_lt_pow_right (by omega) hp)]

/-- The mask has the bits from `p` on. -/
theorem getLsbD_neg_unit {p : Nat} (hp : p < w) {k : Nat} (hk : k < w) :
    (-unit w p).getLsbD k = decide (p ≤ k) := by
  have hlt : 2 ^ p < 2 ^ w := Nat.pow_lt_pow_right (by omega) hp
  have hpos := Nat.two_pow_pos p
  have hone : (1#w).toNat = 1 := by
    rw [BitVec.toNat_ofNat, Nat.mod_eq_of_lt (by omega)]
  have hneg : -unit w p = ~~~(unit w p - 1#w) := by
    rw [BitVec.not_eq_neg_add, BitVec.neg_sub]
    grind
  have hsub : (unit w p - 1#w).toNat = 2 ^ p - 1 := by
    rw [BitVec.toNat_sub_of_le, unit_toNat hp, hone]
    rw [BitVec.le_def, unit_toNat hp, hone]
    omega
  rw [hneg, BitVec.getLsbD_not, BitVec.getLsbD, hsub, Nat.testBit_two_pow_sub_one]
  by_cases h : k < p
  · simp [hk, h, Nat.not_le.mpr h]
  · simp [hk, h, Nat.le_of_not_lt h]

/-- **Rounding down is rounding down.** -/
theorem down_toNat {p : Nat} (hp : p < w) (x : BitVec w) :
    (down x (unit w p)).toNat = floor p x.toNat := by
  apply Nat.eq_of_testBit_eq
  intro k
  unfold down floor
  rw [Nat.testBit_mul_two_pow, Nat.testBit_div_two_pow]
  show (x &&& -unit w p).getLsbD k = _
  by_cases hk : k < w
  · rw [BitVec.getLsbD_and, getLsbD_neg_unit hp hk, Bool.and_comm]
    by_cases h : p ≤ k
    · simp [h, BitVec.getLsbD]
    · simp [h]
  · rw [BitVec.getLsbD_of_ge _ _ (Nat.le_of_not_lt hk)]
    by_cases h : p ≤ k
    · simp [h, Nat.testBit_lt_two_pow (lt_of_lt_of_le x.isLt (Nat.pow_le_pow_right (by omega)
        (Nat.le_of_not_lt hk)))]
    · simp [h]

/-- Rounding down commutes with adding a multiple, also where the sum wraps. -/
theorem down_add {p : Nat} (hp : p < w) {b : BitVec w} (hb : 2 ^ p ∣ b.toNat) (x : BitVec w) :
    down (b + x) (unit w p) = b + down x (unit w p) := by
  obtain ⟨c, hc⟩ := hb
  obtain ⟨d, rfl⟩ : ∃ d, w = p + d := ⟨w - p, by omega⟩
  apply BitVec.eq_of_toNat_eq
  rw [BitVec.toNat_add, down_toNat hp, down_toNat hp, BitVec.toNat_add, hc]
  unfold floor
  have hdiv : (2 ^ p * c + x.toNat) % 2 ^ (p + d) / 2 ^ p = (c + x.toNat / 2 ^ p) % 2 ^ d := by
    rw [Nat.pow_add, Nat.mod_mul_right_div_self, Nat.mul_add_div (Nat.two_pow_pos p)]
  rw [hdiv, Nat.mul_comm (x.toNat / 2 ^ p), ← Nat.mul_add, Nat.pow_add, Nat.mul_mod_mul_left,
    Nat.mul_comm]

/-- Rounding up commutes with adding a multiple, also where the sum wraps. -/
theorem up_add {p : Nat} (hp : p < w) {b : BitVec w} (hb : 2 ^ p ∣ b.toNat) (x : BitVec w) :
    up (b + x) (unit w p) = b + up x (unit w p) := by
  have hassoc : b + x + unit w p - 1 = b + (x + unit w p - 1) := by grind
  show down (b + x + unit w p - 1) (unit w p) = b + down (x + unit w p - 1) (unit w p)
  rw [hassoc, down_add hp hb]

/-- **Rounding up is rounding up**, short of the last word. -/
theorem up_toNat {p : Nat} (hp : p < w) {x : BitVec w} (hx : x.toNat + 2 ^ p ≤ 2 ^ w) :
    (up x (unit w p)).toNat = ceil p x.toNat := by
  have hpos := Nat.two_pow_pos p
  have hlt : 2 ^ p < 2 ^ w := Nat.pow_lt_pow_right (by omega) hp
  have hsum : (x + unit w p - 1).toNat = x.toNat + 2 ^ p - 1 := by
    have hone : (1 : BitVec w).toNat = 1 := by
      show (BitVec.ofNat w 1).toNat = 1
      rw [BitVec.toNat_ofNat, Nat.mod_eq_of_lt (by omega)]
    rw [BitVec.toNat_sub, BitVec.toNat_add, unit_toNat hp, hone]
    rcases Nat.lt_or_ge (x.toNat + 2 ^ p) (2 ^ w) with h | h
    · rw [Nat.mod_eq_of_lt h, show 2 ^ w - 1 + (x.toNat + 2 ^ p) = x.toNat + 2 ^ p - 1 + 2 ^ w by
        omega, Nat.add_mod_right, Nat.mod_eq_of_lt (by omega)]
    · rw [show x.toNat + 2 ^ p = 2 ^ w by omega, Nat.mod_self, Nat.add_zero,
        Nat.mod_eq_of_lt (by omega)]
  show (down (x + unit w p - 1) (unit w p)).toNat = floor p (x.toNat + 2 ^ p - 1)
  rw [down_toNat hp, hsum]

/-- Rounding up runs past the last word only to zero. -/
theorem le_up {p : Nat} (hp : p < w) {x : BitVec w} (hup : up x (unit w p) ≠ 0) :
    x.toNat ≤ (up x (unit w p)).toNat := by
  rcases Nat.lt_or_ge (2 ^ w) (x.toNat + 2 ^ p) with h | h
  · refine absurd ?_ hup
    have hlt : 2 ^ p < 2 ^ w := Nat.pow_lt_pow_right (by omega) hp
    have hsum : (x + unit w p - 1).toNat = x.toNat + 2 ^ p - 1 - 2 ^ w := by
      have hone : (1 : BitVec w).toNat = 1 := by
        show (BitVec.ofNat w 1).toNat = 1
        rw [BitVec.toNat_ofNat, Nat.mod_eq_of_lt (by omega)]
      have hmod : (x.toNat + 2 ^ p) % 2 ^ w = x.toNat + 2 ^ p - 2 ^ w := by
        rw [Nat.mod_eq_sub_mod (by omega), Nat.mod_eq_of_lt (by omega)]
      rw [BitVec.toNat_sub, BitVec.toNat_add, unit_toNat hp, hone, hmod,
        show 2 ^ w - 1 + (x.toNat + 2 ^ p - 2 ^ w) = x.toNat + 2 ^ p - 1 - 2 ^ w + 2 ^ w by omega,
        Nat.add_mod_right, Nat.mod_eq_of_lt (by omega)]
    apply BitVec.eq_of_toNat_eq
    show (down (x + unit w p - 1) (unit w p)).toNat = _
    rw [down_toNat hp, hsum]
    simp [floor, Nat.div_eq_of_lt (show x.toNat + 2 ^ p - 1 - 2 ^ w < 2 ^ p by omega)]
  · rw [up_toNat hp h]
    exact le_ceil p x.toNat

/-- A multiple is its own rounding up. -/
theorem up_eq_of_dvd {p : Nat} (hp : p < w) {x : BitVec w} (hx : 2 ^ p ∣ x.toNat) :
    up x (unit w p) = x := by
  have hzero : up (0 : BitVec w) (unit w p) = 0 := by
    apply BitVec.eq_of_toNat_eq
    have hlt : 2 ^ p < 2 ^ w := Nat.pow_lt_pow_right (by omega) hp
    rw [up_toNat hp (by simp; omega)]
    simp [ceil, floor, Nat.div_eq_of_lt (show 2 ^ p - 1 < 2 ^ p by have := Nat.two_pow_pos p; omega)]
  have h := up_add hp hx 0
  rw [hzero] at h
  simpa using h

/-- What is rounded up is a multiple, also where that wraps. -/
theorem dvd_up {p : Nat} (hp : p < w) (x : BitVec w) : 2 ^ p ∣ (up x (unit w p)).toNat := by
  show 2 ^ p ∣ (down (x + unit w p - 1) (unit w p)).toNat
  rw [down_toNat hp]
  exact dvd_floor p _

/-- A sum of multiples is a multiple, also where it wraps. -/
theorem dvd_add {p : Nat} (hp : p ≤ w) {x y : BitVec w} (hx : 2 ^ p ∣ x.toNat)
    (hy : 2 ^ p ∣ y.toNat) : 2 ^ p ∣ (x + y).toNat := by
  rw [BitVec.toNat_add]
  exact (Nat.dvd_mod_iff (Nat.pow_dvd_pow 2 hp)).mpr (Nat.dvd_add hx hy)

theorem dvd_sub {p : Nat} (hp : p ≤ w) {x y : BitVec w} (hx : 2 ^ p ∣ x.toNat)
    (hy : 2 ^ p ∣ y.toNat) : 2 ^ p ∣ (x - y).toNat := by
  rw [BitVec.toNat_sub]
  have hw : 2 ^ p ∣ 2 ^ w := Nat.pow_dvd_pow 2 hp
  exact (Nat.dvd_mod_iff hw).mpr (Nat.dvd_add (Nat.dvd_sub hw hy) hx)

end Align
