/-
Classification and sign injection, against the specification.

Both classifiers are one and the same function of the format: they compare the
exponent with its two extremes and the fraction with zero, and recognise what is not
a number by masks of its own.  Read as fields of the pattern these are the conditions
that make up its class, so exactly one bit of the mask is set, and it is the right
one.

Sign injection replaces the sign and nothing else.  With the complement of a number's
own sign it negates the number, which turns the first eight classes round.
-/
import Rvemu.InterpUtil
import Rvemu.Lib.BitField
import Rvemu.Spec.Float

namespace Rvemu

open Spec
open Ieee (IsNan NumberClass classOf sign body exponent fraction maxExponent binary32 binary64)

variable {F : Ieee.Format}

/-! ### The classifiers -/

/-- What `f32_classify` and `f64_classify` compute, for any format. -/
def classify (ui : F.Bits) : BitVec 16 :=
  let exp (x : F.Bits) := (x >>> F.frac) &&& BitVec.ofNat _ (2 ^ F.exp - 1)
  let frac (x : F.Bits) := x &&& BitVec.ofNat _ (2 ^ F.frac - 1)
  let infOrNaN := exp ui == BitVec.ofNat _ (2 ^ F.exp - 1)
  let subnormalOrZero := exp ui == 0
  let sign := (ui >>> (F.exp + F.frac)) != 0
  let fracZero := frac ui == 0
  let isNaN := (~~~ui &&& BitVec.ofNat _ ((2 ^ F.exp - 1) * 2 ^ F.frac)) == 0 && frac ui != 0
  let isSNaN := (ui &&& BitVec.ofNat _ ((2 ^ (F.exp + 1) - 1) * 2 ^ (F.frac - 1))) ==
      BitVec.ofNat _ ((2 ^ (F.exp + 1) - 2) * 2 ^ (F.frac - 1)) &&
    (ui &&& BitVec.ofNat _ (2 ^ (F.frac - 1) - 1)) != 0
  classMask sign infOrNaN subnormalOrZero fracZero isNaN isSNaN

theorem f32Classify_eq (ui : F32) : f32Classify ui = classify (F := binary32) ui := rfl

theorem f64Classify_eq (ui : F64) : f64Classify ui = classify (F := binary64) ui := rfl

/-! The conditions, as conditions on the fields. -/

theorem exp_eq_iff (x : F.Bits) {c : Nat} (hc : c < 2 ^ F.exp) :
    (x >>> F.frac) &&& BitVec.ofNat _ (2 ^ F.exp - 1) = BitVec.ofNat _ c ↔ exponent x = c := by
  have h := BitField.and_mask_eq_iff (x >>> F.frac) (k := 0) (n := F.exp) (by omega) hc
  rw [Nat.pow_zero, Nat.mul_one, Nat.mul_one, Nat.div_one, BitVec.toNat_ushiftRight,
    Nat.shiftRight_eq_div_pow] at h
  rw [h, Ieee.exponent_eq]

theorem frac_eq_zero_iff (x : F.Bits) {n : Nat} (hn : n ≤ F.frac) :
    x &&& BitVec.ofNat _ (2 ^ n - 1) = 0 ↔ fraction x % 2 ^ n = 0 := by
  have h := BitField.and_mask_eq_iff x (k := 0) (n := n) (c := 0) (by omega) (Nat.two_pow_pos _)
  rw [Nat.pow_zero, Nat.mul_one, Nat.mul_one, Nat.div_one] at h
  rw [Ieee.fraction_eq, Nat.mod_mod_of_dvd _ (Nat.pow_dvd_pow 2 hn)]
  exact h

theorem sign_ne_zero_iff (x : F.Bits) : x >>> (F.exp + F.frac) ≠ 0 ↔ sign x = true := by
  have hx := Ieee.toNat_eq x
  have hbody := Ieee.body_lt x
  rw [Ne, ← BitVec.toNat_inj, BitVec.toNat_ushiftRight, Nat.shiftRight_eq_div_pow, hx]
  show ¬_ / _ = 0 ↔ _
  rw [Nat.div_eq_zero_iff]
  cases sign x
  · simp [hbody]
  · simp

/-- The test for what is not a number looks at the same fields. -/
theorem nan_eq_zero_iff (x : F.Bits) :
    ~~~x &&& BitVec.ofNat _ ((2 ^ F.exp - 1) * 2 ^ F.frac) = 0 ↔ exponent x = maxExponent F := by
  have hmax : maxExponent F < 2 ^ F.exp := Nat.sub_lt (Nat.two_pow_pos _) Nat.one_pos
  rw [BitField.not_and_eq_zero_iff, Ieee.exponent_eq]
  exact BitField.and_mask_eq_iff x (c := maxExponent F) (by omega) hmax

/-- The test for a signaling one looks at the first bit of the fraction with the exponent. -/
theorem signaling_eq_iff (x : F.Bits) :
    x &&& BitVec.ofNat _ ((2 ^ (F.exp + 1) - 1) * 2 ^ (F.frac - 1)) =
        BitVec.ofNat _ ((2 ^ (F.exp + 1) - 2) * 2 ^ (F.frac - 1)) ↔
      exponent x = maxExponent F ∧ fraction x < 2 ^ (F.frac - 1) := by
  have hfrac := F.frac_pos
  have hpow : 2 ^ (F.exp + 1) = 2 * 2 ^ F.exp := Nat.pow_succ'
  have hsplit : 2 ^ F.frac = 2 ^ (F.frac - 1) * 2 := by
    rw [← Nat.pow_succ, Nat.succ_eq_add_one, Nat.sub_add_cancel hfrac]
  have hhigh : x.toNat / 2 ^ (F.frac - 1) % 2 ^ (F.exp + 1) =
      x.toNat / 2 ^ (F.frac - 1) % 2 + 2 * exponent x := by
    rw [Ieee.exponent_eq, hpow, Nat.mod_mul, hsplit, Nat.div_div_eq_div_mul]
  have hlow : fraction x < 2 ^ (F.frac - 1) ↔ x.toNat / 2 ^ (F.frac - 1) % 2 = 0 := by
    have hmod := Nat.mod_lt x.toNat (Nat.two_pow_pos (F.frac - 1))
    rw [Ieee.fraction_eq, hsplit, Nat.mod_mul]
    rcases Nat.mod_two_eq_zero_or_one (x.toNat / 2 ^ (F.frac - 1)) with h | h
    · simp [h, hmod]
    · simp [h]
  rw [BitField.and_mask_eq_iff x (by omega) (Nat.sub_lt (Nat.two_pow_pos _) Nat.two_pos), hhigh,
    hlow, maxExponent]
  omega

theorem beq_of_iff {w : Nat} {x y : BitVec w} {P : Prop} [Decidable P] (h : x = y ↔ P) :
    (x == y) = decide P := by
  rw [Bool.eq_iff_iff, beq_iff_eq, decide_eq_true_iff]
  exact h

/-- The conditions on the fields are what the mask is made of. -/
theorem classify_fields (ui : F.Bits) :
    classify ui = classMask (sign ui) (exponent ui = maxExponent F) (exponent ui = 0)
      (fraction ui = 0) (decide (exponent ui = maxExponent F) && !decide (fraction ui = 0))
      (decide (exponent ui = maxExponent F ∧ fraction ui < 2 ^ (F.frac - 1)) &&
        !decide (fraction ui % 2 ^ (F.frac - 1) = 0)) := by
  have hmax : maxExponent F < 2 ^ F.exp := Nat.sub_lt (Nat.two_pow_pos _) Nat.one_pos
  have hfrac : fraction ui % 2 ^ F.frac = fraction ui := Nat.mod_mod _ _
  have hsign : (ui >>> (F.exp + F.frac) != 0) = sign ui := by
    rw [Bool.eq_iff_iff, bne_iff_ne]
    exact sign_ne_zero_iff ui
  have hinf := beq_of_iff (exp_eq_iff ui hmax)
  have hsub := beq_of_iff (exp_eq_iff ui (c := 0) (Nat.two_pow_pos _))
  have hzero := beq_of_iff (frac_eq_zero_iff ui (Nat.le_refl F.frac))
  have hhalf := beq_of_iff (frac_eq_zero_iff ui (Nat.sub_le F.frac 1))
  have hnan := beq_of_iff (nan_eq_zero_iff ui)
  have hsnan := beq_of_iff (signaling_eq_iff ui)
  simp only [hfrac] at hzero
  unfold classify
  dsimp only
  rw [hsign, bne, bne, hnan, hsnan, hzero, hhalf]
  exact congrArg₂ (fun p q => classMask (sign ui) p q _ _ _) hinf hsub

/-- **One bit is set, that of the class.** -/
theorem classify_eq (ui : F.Bits) : classify ui = fclassMask (classOf ui) := by
  have hne : maxExponent F ≠ 0 := by
    have htwo : 2 ^ 1 < 2 ^ F.exp := Nat.pow_lt_pow_right Nat.one_lt_two F.two_le_exp
    rw [maxExponent]
    omega
  rw [classify_fields, Ieee.classOf_eq]
  by_cases hmax : exponent ui = maxExponent F
  · by_cases hfrac : fraction ui = 0
    · simp only [hmax, hne, hfrac]
      cases sign ui <;> simp <;> decide
    · by_cases hhalf : fraction ui < 2 ^ (F.frac - 1)
      · simp only [hmax, hne, hfrac, hhalf, Nat.mod_eq_of_lt hhalf]
        cases sign ui <;> simp <;> decide
      · simp only [hmax, hne, hfrac, hhalf]
        cases sign ui <;> simp <;> decide
  · by_cases hzero : exponent ui = 0
    · by_cases hfrac : fraction ui = 0
      · simp only [hzero, hne.symm, hfrac]
        cases sign ui <;> simp <;> decide
      · simp only [hzero, hne.symm, hfrac]
        cases sign ui <;> simp <;> decide
    · simp only [hmax, hzero]
      cases sign ui <;> cases decide (fraction ui = 0) <;> simp <;> decide

/-! ### Sign injection -/

/-- All bits but the sign are kept. -/
theorem fsgnj_getLsbD {w k : Nat} (hk : k < w) (a b : BitVec w) (n x : Bool) (i : Nat) :
    (fsgnj (BitVec.twoPow w k) a b n x).getLsbD i =
      if i = k then (if x then a.getLsbD k else n) ^^ b.getLsbD k else a.getLsbD i := by
  have hbit : (BitVec.twoPow w k).getLsbD i = decide (i = k) := by
    rw [BitVec.getLsbD_twoPow, decide_eq_true hk, Bool.true_and]
    exact decide_eq_decide.mpr eq_comm
  unfold fsgnj
  simp only [BitVec.getLsbD_or, BitVec.getLsbD_and, BitVec.getLsbD_not, BitVec.getLsbD_xor, hbit]
  by_cases h : i = k
  · subst h
    rw [if_pos rfl]
    cases x with
    | true => simp [hk]
    | false =>
        cases n with
        | true => simp [hk]
        | false => simp [hk]
  · rw [if_neg h, decide_eq_false h, Bool.and_false, Bool.or_false, Bool.not_false, Bool.and_true]
    by_cases hi : i < w
    · rw [decide_eq_true hi, Bool.and_true]
    · rw [BitVec.getLsbD_of_ge a i (Nat.not_lt.mp hi), Bool.false_and]

theorem sign_getLsbD (x : F.Bits) : sign x = x.getLsbD (F.exp + F.frac) := by
  have hlast : 1 + F.exp + F.frac - 1 = F.exp + F.frac := by omega
  exact (BitVec.msb_eq_getLsbD_last x).trans (congrArg x.getLsbD hlast)

/-- Patterns with the same bits but for the sign. -/
theorem body_congr {x y : F.Bits} (h : ∀ i < F.exp + F.frac, x.getLsbD i = y.getLsbD i) :
    body x = body y := by
  apply Nat.eq_of_testBit_eq
  intro i
  unfold body
  rw [Nat.testBit_mod_two_pow, Nat.testBit_mod_two_pow]
  by_cases hi : i < F.exp + F.frac
  · rw [← BitVec.getLsbD, ← BitVec.getLsbD, h i hi]
  · simp [hi]

/-- What is asked of the two functions of a format. -/
structure Classifies (F : Ieee.Format) (classify : F.Bits → BitVec 16)
    (fsgnj : F.Bits → F.Bits → Bool → Bool → F.Bits) : Prop where
  bit : ∀ v k, (classify v).getLsbD k = decide (k = fclassBit (classOf v))
  kept : ∀ a b n x i, i ≠ F.exp + F.frac → (fsgnj a b n x).getLsbD i = a.getLsbD i
  sgnj : ∀ a b, sign (fsgnj a b false false) = sign b
  sgnjn : ∀ a b, sign (fsgnj a b true false) = !sign b
  sgnjx : ∀ a b, sign (fsgnj a b false true) = (sign a ^^ sign b)
  mirror : ∀ v, ¬IsNan v → ∀ k, (classify v).getLsbD k = true →
    k < 8 ∧ classify (fsgnj v v true false) = BitVec.twoPow 16 (7 - k)
  nan : ∀ v, IsNan v → classify (fsgnj v v true false) = classify v

theorem fclassMask_getLsbD (c : NumberClass) (k : Nat) :
    (fclassMask c).getLsbD k = decide (k = fclassBit c) := by
  have hbit : fclassBit c < 16 := by cases c <;> decide
  have hmask := BitVec.getLsbD_twoPow (w := 16) (fclassBit c) k
  rw [decide_eq_true hbit, Bool.true_and] at hmask
  exact hmask.trans (decide_eq_decide.mpr eq_comm)

/-- The negated class is the mirrored one, but for what is not a number. -/
theorem fclassBit_negate {c : NumberClass} (h : ¬(c = .signalingNan ∨ c = .quietNan)) :
    fclassBit c < 8 ∧ fclassBit c.negate = 7 - fclassBit c := by
  cases c <;> first | decide | exact absurd (by decide) h

theorem classify_classifies (F : Ieee.Format) :
    Classifies F classify (fsgnj (BitVec.twoPow _ (F.exp + F.frac))) := by
  have hk : F.exp + F.frac < 1 + F.exp + F.frac := by omega
  have hsign (a b : F.Bits) (n x : Bool) :
      sign (fsgnj (BitVec.twoPow _ (F.exp + F.frac)) a b n x) = ((if x then sign a else n) ^^ sign b) := by
    simp only [sign_getLsbD]
    rw [fsgnj_getLsbD hk, if_pos rfl]
  have hnegate (v : F.Bits) :
      classOf (fsgnj (BitVec.twoPow _ (F.exp + F.frac)) v v true false) = (classOf v).negate := by
    refine Ieee.classOf_of_body ((hsign v v true false).trans (Bool.true_xor _)) (body_congr fun i hi => ?_)
    rw [fsgnj_getLsbD hk, if_neg (by omega)]
  constructor
  case bit =>
    intro v k
    rw [classify_eq, fclassMask_getLsbD]
  case kept =>
    intro a b n x i hi
    rw [fsgnj_getLsbD hk, if_neg hi]
  case sgnj =>
    intro a b
    rw [hsign]
    exact Bool.false_xor _
  case sgnjn =>
    intro a b
    rw [hsign]
    exact Bool.true_xor _
  case sgnjx =>
    intro a b
    exact hsign a b false true
  case mirror =>
    intro v hv k hbit
    rw [classify_eq, fclassMask_getLsbD, decide_eq_true_iff] at hbit
    obtain ⟨hlt, hmirror⟩ := fclassBit_negate (mt (Ieee.isNan_iff_classOf v).mpr hv)
    rw [hbit, classify_eq, hnegate, fclassMask, hmirror]
    exact ⟨hlt, rfl⟩
  case nan =>
    intro v hv
    rw [classify_eq, classify_eq, hnegate]
    rcases (Ieee.isNan_iff_classOf v).mp hv with h | h
    · rw [h]
      rfl
    · rw [h]
      rfl

/-- **Classification and sign injection are right**, in both precisions. -/
theorem classify_fsgnj :
    Classifies binary32 f32Classify fsgnj32 ∧ Classifies binary64 f64Classify fsgnj64 := by
  have h32 : f32Classify = classify (F := binary32) := funext f32Classify_eq
  have h64 : f64Classify = classify (F := binary64) := funext f64Classify_eq
  rw [h32, h64]
  exact ⟨classify_classifies binary32, classify_classifies binary64⟩

end Rvemu
