/-
Fields of machine words.

An instruction word is a union of fields, each a short bit vector placed at its
own position; a decoder shifts and masks them out again, and glues the pieces of
a scattered immediate back together.  The two directions meet in three facts
proved here for every width: reading a placed field gives it back, reading past
it gives zeros, and two placed pieces that are adjacent in a number and in the
word merge into one.

`place` is the encoder's side, `extractLsb'` the decoder's.  Masking is stated
for the masks `2 ^ n - 1` decoders use, and the left-then-right shift that sign
extends a field in place is shown to be `signExtend`.
-/
import Mathlib.Tactic.IntervalCases

namespace BitField

variable {w n : Nat}

/-- The `w`-bit word holding `x` at bit `k` and zeros elsewhere. -/
def place (x : BitVec n) (k : Nat) : BitVec w := x.setWidth w <<< k

theorem getLsbD_place (x : BitVec n) (k i : Nat) :
    (place x k : BitVec w).getLsbD i = (decide (i < w) && (decide (k ≤ i) && x.getLsbD (i - k))) := by
  simp only [place, BitVec.getLsbD_shiftLeft, BitVec.getLsbD_setWidth]
  by_cases hi : i < w
  · by_cases hk : k ≤ i
    · simp [hi, hk, show i - k < w by omega]
    · simp [hi, hk, Nat.lt_of_not_le hk]
  · simp [hi]

/-! ### Reading a placed field -/

theorem extract_or (x y : BitVec w) (s l : Nat) :
    (x ||| y).extractLsb' s l = x.extractLsb' s l ||| y.extractLsb' s l := by
  apply BitVec.eq_of_getLsbD_eq
  intro i hi
  simp [hi]

theorem extract_place_self (x : BitVec n) (k : Nat) (h : k + n ≤ w) :
    (place x k : BitVec w).extractLsb' k n = x := by
  apply BitVec.eq_of_getLsbD_eq
  intro i hi
  simp only [BitVec.getLsbD_extractLsb', getLsbD_place, hi, decide_true, Bool.true_and]
  simp [show k + i < w by omega]

theorem extract_place_disjoint (x : BitVec n) (k s l : Nat) (h : s + l ≤ k ∨ k + n ≤ s) :
    (place x k : BitVec w).extractLsb' s l = 0#l := by
  apply BitVec.eq_of_getLsbD_eq
  intro i hi
  simp only [BitVec.getLsbD_extractLsb', getLsbD_place, hi, decide_true, Bool.true_and,
    BitVec.getLsbD_zero]
  rcases h with h | h
  · simp [show ¬ k ≤ s + i by omega]
  · rw [BitVec.getLsbD_of_ge _ _ (show n ≤ s + i - k by omega)]
    simp

/-- A field read out of a wider copy of a word is that field of the word. -/
theorem extract_setWidth {v : Nat} (x : BitVec n) (s l : Nat) (h : s + l ≤ v) :
    (x.setWidth v).extractLsb' s l = x.extractLsb' s l := by
  apply BitVec.eq_of_getLsbD_eq
  intro i hi
  simp [hi, show s + i < v by omega]

/-- Sign extension leaves the fields of the number alone. -/
theorem extract_signExtend {v : Nat} (x : BitVec n) (s l : Nat) (h : s + l ≤ n) (hv : n ≤ v) :
    (x.signExtend v).extractLsb' s l = x.extractLsb' s l := by
  apply BitVec.eq_of_getLsbD_eq
  intro i hi
  simp only [BitVec.getLsbD_extractLsb', BitVec.getLsbD_signExtend, hi, decide_true,
    Bool.true_and]
  simp [show s + i < n by omega, show s + i < v by omega]

/-- A field of a field. -/
theorem extract_extract (x : BitVec n) (s l t m : Nat) (h : t + m ≤ l) :
    (x.extractLsb' s l).extractLsb' t m = x.extractLsb' (s + t) m := by
  apply BitVec.eq_of_getLsbD_eq
  intro i hi
  simp [hi, show t + i < l by omega, Nat.add_assoc]

theorem extract_full (x : BitVec n) : x.extractLsb' 0 n = x := by
  apply BitVec.eq_of_getLsbD_eq
  intro i hi
  simp [hi]

/-! ### Gluing pieces together -/

/-- Two pieces of `x` that touch, placed so that they touch, are one piece. -/
theorem place_merge (x : BitVec n) (s l m k : Nat) :
    (place (x.extractLsb' (s + l) m) (k + l) : BitVec w) ||| place (x.extractLsb' s l) k
      = place (x.extractLsb' s (m + l)) k := by
  apply BitVec.eq_of_getLsbD_eq
  intro i hi
  simp only [BitVec.getLsbD_or, getLsbD_place, BitVec.getLsbD_extractLsb', hi, decide_true,
    Bool.true_and]
  by_cases hk : k ≤ i
  · by_cases hl : k + l ≤ i
    · have hsplit : s + l + (i - (k + l)) = s + (i - k) := by omega
      have hlt : (i - (k + l) < m) ↔ (i - k < m + l) := by omega
      simp [hk, hl, hsplit, hlt, show ¬ i - k < l by omega]
    · simp [hk, hl, show i - k < l by omega, show i - k < m + l by omega]
  · simp [hk, show ¬ k + l ≤ i by omega]

/-- A number's field, taken whole. -/
theorem place_full (x : BitVec n) (k : Nat) :
    (place (x.extractLsb' 0 n) k : BitVec w) = place x k := by
  rw [extract_full]

theorem place_zero (x : BitVec n) : (place x 0 : BitVec w) = x.setWidth w := by
  simp [place]

theorem place_or (x y : BitVec n) (k : Nat) :
    (place (x ||| y) k : BitVec w) = place x k ||| place y k := by
  rw [place, BitVec.setWidth_or, BitVec.shiftLeft_or_distrib, place, place]

theorem place_of_zero (k : Nat) : (place (0#n) k : BitVec w) = 0#w := by
  simp [place]

/-- A field of a field, placed. -/
theorem place_place {v : Nat} (x : BitVec n) (j k : Nat) (h : j + n ≤ v) :
    (place (place x j : BitVec v) k : BitVec w) = place x (j + k) := by
  apply BitVec.eq_of_getLsbD_eq
  intro i hi
  simp only [getLsbD_place, hi, decide_true, Bool.true_and]
  by_cases hk : j + k ≤ i
  · by_cases hv : i - k < v
    · simp [hk, hv, show k ≤ i by omega, show j ≤ i - k by omega,
        show i - k - j = i - (j + k) by omega]
    · rw [BitVec.getLsbD_of_ge x (i - (j + k)) (by omega)]
      simp [hv]
  · by_cases hj : k ≤ i
    · simp [hk, show ¬ j ≤ i - k by omega]
    · simp [hk, hj]

/-- A field below the sign bit is not changed by sign extension. -/
theorem signExtend_place {v : Nat} (x : BitVec n) (k : Nat) (h : k + n < w) :
    (place x k : BitVec w).signExtend v = place x k := by
  have hmsb : (place x k : BitVec w).msb = false := by
    rw [BitVec.msb_eq_getLsbD_last, getLsbD_place, BitVec.getLsbD_of_ge x _ (by omega)]
    simp
  rw [BitVec.signExtend_eq_setWidth_of_msb_false hmsb, ← place_zero, place_place x k 0 (by omega),
    Nat.add_zero]

/-! ### Shifting and masking -/

/-- Masking a shifted word leaves the field that the shift brought down. -/
theorem shift_mask (x : BitVec w) (k n : Nat) (h : n ≤ w) :
    (x >>> k) &&& BitVec.ofNat w (2 ^ n - 1) = (x.extractLsb' k n).setWidth w := by
  apply BitVec.eq_of_toNat_eq
  have hle : 2 ^ n ≤ 2 ^ w := Nat.pow_le_pow_right (by decide) h
  have hpos : 0 < 2 ^ n := Nat.two_pow_pos n
  have hlt : x.toNat >>> k % 2 ^ n < 2 ^ w :=
    Nat.lt_of_lt_of_le (Nat.mod_lt _ hpos) hle
  rw [BitVec.toNat_and, BitVec.toNat_ofNat, Nat.mod_eq_of_lt (by omega),
    Nat.and_two_pow_sub_one_eq_mod, BitVec.toNat_setWidth, BitVec.extractLsb'_toNat,
    BitVec.toNat_ushiftRight, Nat.mod_eq_of_lt hlt]

/-- The bits under a mask, where they are. -/
theorem and_mask_toNat (x : BitVec w) {k n : Nat} (h : k + n ≤ w) :
    (x &&& BitVec.ofNat w ((2 ^ n - 1) * 2 ^ k)).toNat = x.toNat / 2 ^ k % 2 ^ n * 2 ^ k := by
  have hle : 2 ^ n * 2 ^ k ≤ 2 ^ w := by
    rw [← Nat.pow_add, Nat.add_comm n]
    exact Nat.pow_le_pow_right Nat.two_pos h
  have hlt : (2 ^ n - 1) * 2 ^ k < 2 ^ w :=
    (Nat.mul_lt_mul_of_pos_right (Nat.sub_lt (Nat.two_pow_pos n) Nat.one_pos)
      (Nat.two_pow_pos k)).trans_le hle
  rw [BitVec.toNat_and, BitVec.toNat_ofNat, Nat.mod_eq_of_lt hlt]
  apply Nat.eq_of_testBit_eq
  intro i
  simp only [Nat.testBit_and, Nat.testBit_mul_two_pow, Nat.testBit_two_pow_sub_one,
    Nat.testBit_mod_two_pow, Nat.testBit_div_two_pow]
  by_cases hk : k ≤ i
  · rw [Nat.sub_add_cancel hk, decide_eq_true hk, Bool.true_and, Bool.true_and, Bool.and_comm]
  · simp [hk]

/-- Comparing the bits under a mask. -/
theorem and_mask_eq_iff (x : BitVec w) {k n c : Nat} (h : k + n ≤ w) (hc : c < 2 ^ n) :
    x &&& BitVec.ofNat w ((2 ^ n - 1) * 2 ^ k) = BitVec.ofNat w (c * 2 ^ k) ↔
      x.toNat / 2 ^ k % 2 ^ n = c := by
  have hle : 2 ^ n * 2 ^ k ≤ 2 ^ w := by
    rw [← Nat.pow_add, Nat.add_comm n]
    exact Nat.pow_le_pow_right Nat.two_pos h
  have hlt : c * 2 ^ k < 2 ^ w :=
    (Nat.mul_lt_mul_of_pos_right hc (Nat.two_pow_pos k)).trans_le hle
  rw [← BitVec.toNat_inj, and_mask_toNat x h, BitVec.toNat_ofNat, Nat.mod_eq_of_lt hlt]
  exact Nat.mul_left_inj (Nat.two_pow_pos k).ne'

/-- A complement has no bits under a mask exactly if the word has all of them. -/
theorem not_and_eq_zero_iff (x m : BitVec w) : ~~~x &&& m = 0 ↔ x &&& m = m := by
  constructor
  · intro h
    apply BitVec.eq_of_getLsbD_eq
    intro i hi
    have hbit := congrArg (fun y => y.getLsbD i) h
    simp only [BitVec.getLsbD_and, BitVec.getLsbD_not, hi, decide_true, Bool.true_and] at hbit ⊢
    cases hx : x.getLsbD i
    · rw [hx] at hbit
      simpa using hbit.symm
    · rfl
  · intro h
    rw [← h]
    apply BitVec.eq_of_getLsbD_eq
    intro i hi
    simp only [BitVec.getLsbD_and, BitVec.getLsbD_not]
    cases x.getLsbD i <;> simp

/-- Shifting a field up to the sign bit and back down arithmetically sign extends it. -/
theorem shift_up_down (x : BitVec n) (h : n ≤ w) (hpos : 0 < n) :
    ((x.setWidth w) <<< (w - n)).sshiftRight (w - n) = x.signExtend w := by
  apply BitVec.eq_of_getLsbD_eq
  intro i hi
  have hmsb : ((x.setWidth w) <<< (w - n)).msb = x.msb := by
    rw [BitVec.msb_eq_getLsbD_last, BitVec.msb_eq_getLsbD_last, BitVec.getLsbD_shiftLeft,
      BitVec.getLsbD_setWidth, show w - 1 - (w - n) = n - 1 by omega]
    simp [show w - 1 < w by omega, show ¬ w - 1 < w - n by omega, show n - 1 < w by omega]
  rw [BitVec.getLsbD_sshiftRight, BitVec.getLsbD_signExtend, hmsb]
  by_cases hn : i < n
  · simp [hi, hn, show w - n + i < w by omega, show ¬ w - n + i < w - n by omega]
  · simp [hi, hn, show ¬ w - n + i < w by omega]

/-- Sign extension commutes with scaling, so long as the scaled number still fits. -/
theorem signExtend_shift (x : BitVec n) (m : Nat) (h : n + m ≤ w) (hpos : 0 < n) :
    (place x m : BitVec (n + m)).signExtend w = x.signExtend w <<< m := by
  apply BitVec.eq_of_getLsbD_eq
  intro i hi
  have hmsb : (place x m : BitVec (n + m)).msb = x.msb := by
    rw [BitVec.msb_eq_getLsbD_last, BitVec.msb_eq_getLsbD_last, getLsbD_place]
    simp [show n + m - 1 < n + m by omega, show m ≤ n + m - 1 by omega,
      show n + m - 1 - m = n - 1 by omega]
  rw [BitVec.getLsbD_signExtend, BitVec.getLsbD_shiftLeft, hmsb, getLsbD_place]
  by_cases hm : i < m
  · simp [hi, hm, show i < n + m by omega, show ¬ m ≤ i by omega]
  · rw [BitVec.getLsbD_signExtend]
    by_cases hn : i < n + m
    · simp [hi, hm, hn, show m ≤ i by omega, show i - m < n by omega, show i - m < w by omega]
    · simp [hi, hm, hn, show ¬ i - m < n by omega, show i - m < w by omega]

/-- A scaled field shifted up to the sign bit and back down is sign extended, then scaled. -/
theorem place_up_down (x : BitVec n) (m d : Nat) (h : n + m + d = w) (hpos : 0 < n) :
    ((place x m : BitVec w) <<< d).sshiftRight d = x.signExtend w <<< m := by
  have hcopy : (place x m : BitVec w) = (place x m : BitVec (n + m)).setWidth w := by
    apply BitVec.eq_of_getLsbD_eq
    intro i hi
    rw [BitVec.getLsbD_setWidth, getLsbD_place, getLsbD_place]
    by_cases hn : i < n + m
    · simp [hi, hn]
    · rw [BitVec.getLsbD_of_ge x _ (show n ≤ i - m by omega)]
      simp
  have hd : d = w - (n + m) := by omega
  rw [hcopy, hd, shift_up_down _ (by omega) (by omega), signExtend_shift x m (by omega) hpos]

/-- An arithmetic shift right sign extends the field that it brings down. -/
theorem sshiftRight_eq (x : BitVec w) (k : Nat) (h : k < w) :
    x.sshiftRight k = (x.extractLsb' k (w - k)).signExtend w := by
  apply BitVec.eq_of_getLsbD_eq
  intro i hi
  have hmsb : (x.extractLsb' k (w - k)).msb = x.msb := by
    rw [BitVec.msb_eq_getLsbD_last, BitVec.msb_eq_getLsbD_last, BitVec.getLsbD_extractLsb',
      show k + (w - k - 1) = w - 1 by omega]
    simp [show w - k - 1 < w - k by omega]
  rw [BitVec.getLsbD_sshiftRight, BitVec.getLsbD_signExtend, hmsb, BitVec.getLsbD_extractLsb']
  by_cases hk : i < w - k
  · simp [hi, hk, show k + i < w by omega]
  · simp [hi, hk, show ¬ k + i < w by omega]

/-- Sign extending in two steps is sign extending once. -/
theorem signExtend_signExtend {v : Nat} (x : BitVec n) (h : n ≤ w) (hv : w ≤ v) :
    (x.signExtend w).signExtend v = x.signExtend v := by
  apply BitVec.eq_of_toInt_eq
  rw [BitVec.toInt_signExtend_of_le hv, BitVec.toInt_signExtend_of_le h,
    BitVec.toInt_signExtend_of_le (Nat.le_trans h hv)]

/-! ### When a number is zero -/

theorem place_eq_zero_iff (x : BitVec n) (k : Nat) (h : k + n ≤ w) :
    (place x k : BitVec w) = 0#w ↔ x = 0#n := by
  constructor
  · intro hz
    rw [← extract_place_self (w := w) x k h, hz]
    exact BitVec.extractLsb'_zero
  · rintro rfl
    exact place_of_zero k

/-- A number is still there after it has been sign extended and scaled. -/
theorem extract_signExtend_shift (x : BitVec n) (k : Nat) (h : k + n ≤ w) :
    (x.signExtend w <<< k).extractLsb' k n = x := by
  apply BitVec.eq_of_getLsbD_eq
  intro i hi
  simp only [BitVec.getLsbD_extractLsb', BitVec.getLsbD_shiftLeft, BitVec.getLsbD_signExtend, hi,
    decide_true, Bool.true_and]
  simp [hi, show k + i < w by omega, show i < w by omega]

theorem signExtend_shift_eq_zero_iff (x : BitVec n) (k : Nat) (h : k + n ≤ w) :
    x.signExtend w <<< k = 0#w ↔ x = 0#n := by
  constructor
  · intro hz
    rw [← extract_signExtend_shift (w := w) x k h, hz]
    exact BitVec.extractLsb'_zero
  · rintro rfl
    apply BitVec.eq_of_getLsbD_eq
    intro i _
    simp [BitVec.getLsbD_signExtend, BitVec.msb_eq_getLsbD_last]

/-- A field is zero when both its parts are. -/
theorem extract_eq_zero_iff (x : BitVec w) (s l m : Nat) :
    x.extractLsb' s (l + m) = 0 ↔ x.extractLsb' (s + l) m = 0 ∧ x.extractLsb' s l = 0 := by
  constructor
  · intro hz
    have hhi := extract_extract x s (l + m) l m (by omega)
    have hlo := extract_extract x s (l + m) 0 l (by omega)
    rw [hz] at hhi hlo
    exact ⟨hhi ▸ BitVec.extractLsb'_zero, hlo ▸ BitVec.extractLsb'_zero⟩
  · rintro ⟨hhi, hlo⟩
    apply BitVec.eq_of_getLsbD_eq
    intro i hi
    by_cases hl : i < l
    · have hbit := congrArg (BitVec.getLsbD · i) hlo
      simpa [hi, hl] using hbit
    · have hbit := congrArg (BitVec.getLsbD · (i - l)) hhi
      simpa [hi, show i - l < m by omega, show s + l + (i - l) = s + i by omega] using hbit

end BitField
