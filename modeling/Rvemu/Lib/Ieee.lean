/-
Binary floating-point formats, read from their bit patterns.

A pattern has a sign, a biased exponent and a fraction.  What it stands for is a
rational number, an infinity or nothing at all.  The patterns of one sign are
ordered as the numbers are: below the sign bit a greater pattern is a greater
magnitude, with the infinity above all numbers.  So the order of the data is that
of the patterns as signed magnitudes, and two patterns that are not below one
another either way are equal or are the two zeros.
-/
import Mathlib.Algebra.Order.Field.Rat
import Mathlib.Algebra.Order.Ring.Rat
import Mathlib.Order.Monotone.Basic
import Mathlib.Tactic.Linarith
import Mathlib.Tactic.Positivity
import Mathlib.Tactic.Ring

namespace Ieee

/-- How many bits the exponent and the fraction have. -/
structure Format where
  exp : Nat
  frac : Nat
  two_le_exp : 2 ≤ exp := by decide
  frac_pos : 0 < frac := by decide

abbrev binary32 : Format where
  exp := 8
  frac := 23

abbrev binary64 : Format where
  exp := 11
  frac := 52

/-- The bit patterns of a format. -/
abbrev Format.Bits (F : Format) := BitVec (1 + F.exp + F.frac)

variable {F : Format}

/-! ### The fields -/

def sign (x : F.Bits) : Bool := x.msb

/-- All bits but the sign. -/
def body (x : F.Bits) : Nat := x.toNat % 2 ^ (F.exp + F.frac)

def exponent (x : F.Bits) : Nat := body x / 2 ^ F.frac

def fraction (x : F.Bits) : Nat := body x % 2 ^ F.frac

/-- The exponent of the infinities and of what is not a number. -/
def maxExponent (F : Format) : Nat := 2 ^ F.exp - 1

/-! ### What a pattern stands for -/

/-- The magnitude of a number, counted in units of the least positive one. -/
def magnitude (x : F.Bits) : Nat :=
  if exponent x = 0 then fraction x
  else (2 ^ F.frac + fraction x) * 2 ^ (exponent x - 1)

/-- The least positive number. -/
def leastPos (F : Format) : ℚ := 1 / 2 ^ (2 ^ (F.exp - 1) - 2 + F.frac)

inductive Datum
  | nan
  | inf (neg : Bool)
  | finite (q : ℚ)
  deriving DecidableEq

def signed (neg : Bool) (q : ℚ) : ℚ := if neg then -q else q

def datum (x : F.Bits) : Datum :=
  if exponent x = maxExponent F then
    if fraction x = 0 then .inf (sign x) else .nan
  else .finite (signed (sign x) (magnitude x * leastPos F))

def IsNan (x : F.Bits) : Prop := datum x = .nan

def IsZero (x : F.Bits) : Prop := datum x = .finite 0

/-- The quiet one with a positive sign and nothing else in its fraction. -/
def canonicalNan (F : Format) : F.Bits :=
  BitVec.ofNat _ (maxExponent F * 2 ^ F.frac + 2 ^ (F.frac - 1))

/-- The classes of the standard. -/
inductive NumberClass
  | signalingNan
  | quietNan
  | negInf
  | negNormal
  | negSubnormal
  | negZero
  | posZero
  | posSubnormal
  | posNormal
  | posInf
  deriving DecidableEq, Repr

/-- The least positive number with a full fraction. -/
def leastNormal (F : Format) : ℚ := 2 ^ F.frac * leastPos F

/-- The class of what a pattern stands for. -/
def classOf (x : F.Bits) : NumberClass :=
  match datum x with
  | .nan => if fraction x < 2 ^ (F.frac - 1) then .signalingNan else .quietNan
  | .inf neg => if neg then .negInf else .posInf
  | .finite q =>
    if q = 0 then if sign x then .negZero else .posZero
    else if |q| < leastNormal F then if sign x then .negSubnormal else .posSubnormal
    else if sign x then .negNormal else .posNormal

/-- The class of the negated datum. -/
def NumberClass.negate : NumberClass → NumberClass
  | signalingNan => signalingNan
  | quietNan => quietNan
  | negInf => posInf
  | negNormal => posNormal
  | negSubnormal => posSubnormal
  | negZero => posZero
  | posZero => negZero
  | posSubnormal => negSubnormal
  | posNormal => negNormal
  | posInf => negInf

instance (x : F.Bits) : Decidable (IsNan x) := inferInstanceAs (Decidable (_ = _))

instance (x : F.Bits) : Decidable (IsZero x) := inferInstanceAs (Decidable (_ = _))

/-- The order of the numbers and the infinities; what is not a number is not in it. -/
def Datum.Less : Datum → Datum → Prop
  | .finite p, .finite q => p < q
  | .finite _, .inf neg => neg = false
  | .inf neg, .finite _ => neg = true
  | .inf neg, .inf neg' => neg = true ∧ neg' = false
  | .nan, _ => False
  | _, .nan => False

instance : (a b : Datum) → Decidable (a.Less b)
  | .finite p, .finite q => inferInstanceAs (Decidable (p < q))
  | .finite _, .inf neg => inferInstanceAs (Decidable (neg = false))
  | .inf neg, .finite _ => inferInstanceAs (Decidable (neg = true))
  | .inf neg, .inf neg' => inferInstanceAs (Decidable (neg = true ∧ neg' = false))
  | .nan, _ => .isFalse nofun
  | .finite _, .nan => .isFalse nofun
  | .inf _, .nan => .isFalse nofun

/-! ### The magnitude grows with the pattern -/

/-- The magnitude as a function of the bits below the sign. -/
def scale (frac n : Nat) : Nat :=
  if n / 2 ^ frac = 0 then n % 2 ^ frac
  else (2 ^ frac + n % 2 ^ frac) * 2 ^ (n / 2 ^ frac - 1)

theorem magnitude_eq (x : F.Bits) : magnitude x = scale F.frac (body x) := rfl

theorem scale_strictMono (frac : Nat) : StrictMono (scale frac) := by
  refine strictMono_nat_of_lt_succ fun n => ?_
  have hpos : 0 < 2 ^ frac := Nat.two_pow_pos frac
  have hn := Nat.div_add_mod n (2 ^ frac)
  have hmod := Nat.mod_lt n hpos
  by_cases hcarry : n % 2 ^ frac + 1 < 2 ^ frac
  · -- the exponent stays
    have hdiv : (n + 1) / 2 ^ frac = n / 2 ^ frac := by
      rw [show n + 1 = 2 ^ frac * (n / 2 ^ frac) + (n % 2 ^ frac + 1) by omega,
        Nat.mul_add_div hpos, Nat.div_eq_of_lt hcarry, Nat.add_zero]
    have hrem : (n + 1) % 2 ^ frac = n % 2 ^ frac + 1 := by
      rw [show n + 1 = 2 ^ frac * (n / 2 ^ frac) + (n % 2 ^ frac + 1) by omega,
        Nat.mul_add_mod, Nat.mod_eq_of_lt hcarry]
    unfold scale
    rw [hdiv, hrem]
    split
    · omega
    · exact Nat.mul_lt_mul_of_pos_right (by omega) (Nat.two_pow_pos _)
  · -- the fraction starts again from zero, one exponent up
    have hnext : n + 1 = 2 ^ frac * (n / 2 ^ frac + 1) := by
      rw [Nat.mul_add, Nat.mul_one]
      omega
    have hdiv : (n + 1) / 2 ^ frac = n / 2 ^ frac + 1 := by
      rw [hnext, Nat.mul_div_cancel_left _ hpos]
    have hrem : (n + 1) % 2 ^ frac = 0 := by
      rw [hnext, Nat.mul_mod_right]
    unfold scale
    rw [hdiv, hrem, if_neg (Nat.succ_ne_zero _), Nat.add_zero, Nat.add_sub_cancel]
    split
    · rename_i hzero
      rw [hzero, Nat.pow_zero, Nat.mul_one]
      exact hmod
    · rename_i hne
      obtain ⟨e, he⟩ := Nat.exists_eq_succ_of_ne_zero hne
      rw [he, Nat.succ_eq_add_one, Nat.add_sub_cancel, Nat.pow_succ', ← Nat.mul_assoc]
      exact Nat.mul_lt_mul_of_pos_right (by omega) (Nat.two_pow_pos e)

theorem leastPos_pos (F : Format) : 0 < leastPos F := by
  unfold leastPos
  positivity

/-! ### The order of the patterns -/

theorem body_lt (x : F.Bits) : body x < 2 ^ (F.exp + F.frac) := Nat.mod_lt _ (Nat.two_pow_pos _)

theorem toNat_eq (x : F.Bits) :
    x.toNat = (if sign x then 2 ^ (F.exp + F.frac) else 0) + body x := by
  have hpow : 2 ^ (1 + F.exp + F.frac) = 2 * 2 ^ (F.exp + F.frac) := by
    rw [Nat.add_assoc, Nat.add_comm 1, Nat.pow_succ']
  have hmsb := BitVec.msb_eq_decide x
  rw [show 1 + F.exp + F.frac - 1 = F.exp + F.frac by omega] at hmsb
  unfold sign body
  rw [hmsb]
  by_cases h : 2 ^ (F.exp + F.frac) ≤ x.toNat
  · rw [decide_eq_true h, if_pos rfl, Nat.mod_eq_sub_mod h, Nat.mod_eq_of_lt (by omega)]
    omega
  · rw [decide_eq_false h, if_neg Bool.false_ne_true, Nat.mod_eq_of_lt (by omega), Nat.zero_add]

/-- The sign and the rest make up the pattern. -/
theorem ext_fields {x y : F.Bits} (hs : sign x = sign y) (hb : body x = body y) : x = y := by
  apply BitVec.eq_of_toNat_eq
  rw [toNat_eq, toNat_eq, hs, hb]

/-- The bits of an infinity below its sign. -/
def infBody (F : Format) : Nat := maxExponent F * 2 ^ F.frac

theorem infBody_pos (F : Format) : 0 < infBody F := by
  have hexp : 2 ^ 1 < 2 ^ F.exp := Nat.pow_lt_pow_right Nat.one_lt_two F.two_le_exp
  exact Nat.mul_pos (by rw [maxExponent]; omega) (Nat.two_pow_pos F.frac)

theorem exponent_eq_max_iff (x : F.Bits) : exponent x = maxExponent F ↔ infBody F ≤ body x := by
  have hpos := Nat.two_pow_pos F.frac
  have hle : exponent x ≤ maxExponent F := by
    have hlt : exponent x < 2 ^ F.exp := by
      rw [exponent, Nat.div_lt_iff_lt_mul hpos, ← Nat.pow_add]
      exact body_lt x
    exact Nat.le_sub_one_of_lt hlt
  rw [infBody, ← Nat.le_div_iff_mul_le hpos]
  exact ⟨fun h => h.ge, fun h => Nat.le_antisymm hle h⟩

theorem datum_finite {x : F.Bits} (h : body x < infBody F) :
    datum x = .finite (signed (sign x) (magnitude x * leastPos F)) := by
  rw [datum, if_neg fun he => Nat.not_le.mpr h ((exponent_eq_max_iff x).mp he)]

theorem datum_inf {x : F.Bits} (h : body x = infBody F) : datum x = .inf (sign x) := by
  have hfrac : fraction x = 0 := by rw [fraction, h, infBody, Nat.mul_mod_left]
  rw [datum, if_pos ((exponent_eq_max_iff x).mpr h.ge), if_pos hfrac]

theorem datum_nan {x : F.Bits} (h : infBody F < body x) : datum x = .nan := by
  have hexp := (exponent_eq_max_iff x).mpr h.le
  have hfrac : fraction x ≠ 0 := by
    intro hz
    have hbody := Nat.div_add_mod (body x) (2 ^ F.frac)
    rw [show body x / 2 ^ F.frac = maxExponent F from hexp,
      show body x % 2 ^ F.frac = 0 from hz, Nat.add_zero, Nat.mul_comm] at hbody
    exact Nat.ne_of_lt h hbody
  rw [datum, if_pos hexp, if_neg hfrac]

theorem isNan_iff (x : F.Bits) : IsNan x ↔ infBody F < body x := by
  refine ⟨fun h => ?_, datum_nan⟩
  rcases Nat.lt_trichotomy (body x) (infBody F) with hlt | heq | hgt
  · cases (datum_finite hlt).symm.trans h
  · cases (datum_inf heq).symm.trans h
  · exact hgt

theorem canonicalNan_isNan (F : Format) : IsNan (canonicalNan F) := by
  have hfrac : 2 ^ F.frac = 2 * 2 ^ (F.frac - 1) := by
    rw [← Nat.pow_succ', Nat.succ_eq_add_one, Nat.sub_add_cancel F.frac_pos]
  have hhalf := Nat.two_pow_pos (F.frac - 1)
  have hexp : (maxExponent F + 1) * 2 ^ F.frac = 2 ^ (F.exp + F.frac) := by
    rw [maxExponent, Nat.sub_add_cancel (Nat.two_pow_pos F.exp), Nat.pow_add]
  rw [Nat.add_mul, Nat.one_mul] at hexp
  have hbody : body (canonicalNan F) = infBody F + 2 ^ (F.frac - 1) := by
    have hle : 2 ^ (F.exp + F.frac) ≤ 2 ^ (1 + F.exp + F.frac) :=
      Nat.pow_le_pow_right Nat.two_pos (by omega)
    have hlt : infBody F + 2 ^ (F.frac - 1) < 2 ^ (F.exp + F.frac) := by
      rw [infBody]
      omega
    rw [body, canonicalNan, BitVec.toNat_ofNat, ← infBody, Nat.mod_eq_of_lt (hlt.trans_le hle),
      Nat.mod_eq_of_lt hlt]
  rw [isNan_iff, hbody]
  omega

/-- A magnitude with a sign, as an integer. -/
def signedInt (neg : Bool) (n : Nat) : ℤ := if neg then -(n : ℤ) else n

/-- The pattern as a signed magnitude. -/
def key (x : F.Bits) : ℤ := signedInt (sign x) (body x)

theorem signed_eq (neg : Bool) (n : Nat) (u : ℚ) : signed neg (n * u) = signedInt neg n * u := by
  cases neg
  · simp [signed, signedInt]
  · simp [signed, signedInt]

theorem scale_eq_zero_iff (frac n : Nat) : scale frac n = 0 ↔ n = 0 := by
  have hzero : scale frac 0 = 0 := by simp [scale]
  rw [← (scale_strictMono frac).injective.eq_iff (a := n), hzero]

theorem isZero_iff (x : F.Bits) : IsZero x ↔ body x = 0 := by
  constructor
  · intro h
    rcases Nat.lt_trichotomy (body x) (infBody F) with hlt | heq | hgt
    · have hq := Datum.finite.inj ((datum_finite hlt).symm.trans h)
      rw [signed_eq, mul_eq_zero, Int.cast_eq_zero] at hq
      rw [← scale_eq_zero_iff F.frac, ← magnitude_eq]
      rcases hq with hq | hq
      · unfold signedInt at hq
        split at hq <;> omega
      · exact absurd hq (leastPos_pos F).ne'
    · cases (datum_inf heq).symm.trans h
    · cases (datum_nan hgt).symm.trans h
  · intro h
    have hlt : body x < infBody F := by rw [h]; exact infBody_pos F
    have hmag : magnitude x = 0 := by rw [magnitude_eq, h, scale_eq_zero_iff]
    rw [IsZero, datum_finite hlt, hmag]
    simp [signed]

/-- Growing with the pattern goes over to signed magnitudes. -/
theorem signedInt_scale_lt (frac : Nat) (s t : Bool) (m n : Nat) :
    signedInt s (scale frac m) < signedInt t (scale frac n) ↔ signedInt s m < signedInt t n := by
  have hlt := (scale_strictMono frac).lt_iff_lt (a := m) (b := n)
  have hgt := (scale_strictMono frac).lt_iff_lt (a := n) (b := m)
  have hm := scale_eq_zero_iff frac m
  cases s <;> cases t <;> simp only [signedInt] <;> simp <;> omega

/-- The order of the data is that of the patterns as signed magnitudes. -/
theorem less_iff_key {x y : F.Bits} (hx : ¬IsNan x) (hy : ¬IsNan y) :
    (datum x).Less (datum y) ↔ key x < key y := by
  have hx' := Nat.not_lt.mp fun h => hx ((isNan_iff x).mpr h)
  have hy' := Nat.not_lt.mp fun h => hy ((isNan_iff y).mpr h)
  unfold key
  rcases Nat.lt_or_eq_of_le hx' with hx' | hx' <;> rcases Nat.lt_or_eq_of_le hy' with hy' | hy'
  · rw [datum_finite hx', datum_finite hy']
    show signed _ _ < signed _ _ ↔ _
    rw [signed_eq, signed_eq, mul_lt_mul_iff_left₀ (leastPos_pos F), Int.cast_lt, magnitude_eq,
      magnitude_eq, signedInt_scale_lt]
  · rw [datum_finite hx', datum_inf hy']
    show sign y = false ↔ _
    cases sign x <;> cases sign y <;> simp [signedInt] <;> omega
  · rw [datum_inf hx', datum_finite hy']
    show sign x = true ↔ _
    cases sign x <;> cases sign y <;> simp [signedInt] <;> omega
  · have hpos := infBody_pos F
    rw [datum_inf hx', datum_inf hy']
    show sign x = true ∧ sign y = false ↔ _
    cases sign x <;> cases sign y <;> simp [signedInt] <;> omega

/-- Patterns with the same signed magnitude are equal, or are the two zeros. -/
theorem eq_of_key {x y : F.Bits} (h : key x = key y) : x = y ∨ body x = 0 ∧ body y = 0 := by
  unfold key at h
  by_cases hs : sign x = sign y
  · refine .inl (ext_fields hs ?_)
    rw [hs] at h
    cases hy : sign y <;> rw [hy] at h <;> simp [signedInt] at h <;> omega
  · refine .inr ?_
    cases hx : sign x <;> cases hy : sign y <;> rw [hx, hy] at h hs <;> simp [signedInt] at h hs <;>
      omega

/-! ### The classes, by their fields -/

theorem exponent_eq (x : F.Bits) : exponent x = x.toNat / 2 ^ F.frac % 2 ^ F.exp := by
  rw [exponent, body, Nat.add_comm F.exp, Nat.pow_add, Nat.mod_mul_right_div_self]

theorem fraction_eq (x : F.Bits) : fraction x = x.toNat % 2 ^ F.frac := by
  rw [fraction, body]
  exact Nat.mod_mod_of_dvd _ (Nat.pow_dvd_pow 2 (Nat.le_add_left _ _))

/-- Below the least normal number the exponent is zero. -/
theorem magnitude_lt_iff (x : F.Bits) : magnitude x < 2 ^ F.frac ↔ exponent x = 0 := by
  have hfrac : fraction x < 2 ^ F.frac := Nat.mod_lt _ (Nat.two_pow_pos _)
  unfold magnitude
  by_cases h : exponent x = 0
  · rw [if_pos h]
    exact ⟨fun _ => h, fun _ => hfrac⟩
  · rw [if_neg h]
    refine ⟨fun hlt => absurd hlt (Nat.not_lt.mpr ?_), fun hz => absurd hz h⟩
    calc 2 ^ F.frac ≤ 2 ^ F.frac + fraction x := Nat.le_add_right _ _
      _ ≤ (2 ^ F.frac + fraction x) * 2 ^ (exponent x - 1) :=
        Nat.le_mul_of_pos_right _ (Nat.two_pow_pos _)

theorem magnitude_eq_zero_iff (x : F.Bits) :
    magnitude x = 0 ↔ exponent x = 0 ∧ fraction x = 0 := by
  constructor
  · intro h
    have hexp := (magnitude_lt_iff x).mp (by rw [h]; exact Nat.two_pow_pos _)
    rw [magnitude, if_pos hexp] at h
    exact ⟨hexp, h⟩
  · rintro ⟨hexp, hfrac⟩
    rw [magnitude, if_pos hexp, hfrac]

/-- The class, read from the exponent and the fraction. -/
theorem classOf_eq (x : F.Bits) :
    classOf x =
      if exponent x = maxExponent F then
        if fraction x = 0 then if sign x then .negInf else .posInf
        else if fraction x < 2 ^ (F.frac - 1) then .signalingNan else .quietNan
      else if exponent x = 0 then
        if fraction x = 0 then if sign x then .negZero else .posZero
        else if sign x then .negSubnormal else .posSubnormal
      else if sign x then .negNormal else .posNormal := by
  have hpos := leastPos_pos F
  unfold classOf datum
  by_cases hmax : exponent x = maxExponent F
  · rw [if_pos hmax, if_pos hmax]
    by_cases hfrac : fraction x = 0
    · rw [if_pos hfrac, if_pos hfrac]
    · rw [if_neg hfrac, if_neg hfrac]
  · rw [if_neg hmax, if_neg hmax]
    have hzero : signed (sign x) (magnitude x * leastPos F) = 0 ↔ exponent x = 0 ∧ fraction x = 0 := by
      rw [← magnitude_eq_zero_iff]
      cases sign x <;> simp [signed, hpos.ne']
    have hsub : |signed (sign x) (magnitude x * leastPos F)| < leastNormal F ↔ exponent x = 0 := by
      have habs : |signed (sign x) (magnitude x * leastPos F)| = magnitude x * leastPos F := by
        have hnonneg : 0 ≤ (magnitude x : ℚ) * leastPos F := by positivity
        cases sign x
        · exact abs_of_nonneg hnonneg
        · exact (abs_neg _).trans (abs_of_nonneg hnonneg)
      rw [habs, leastNormal, mul_lt_mul_iff_left₀ hpos, ← magnitude_lt_iff]
      exact_mod_cast Iff.rfl
    dsimp only
    simp only [hzero, hsub]
    by_cases hexp : exponent x = 0
    · simp [hexp]
    · simp [hexp]

/-- The classes of what is not a number. -/
theorem isNan_iff_classOf (x : F.Bits) :
    IsNan x ↔ classOf x = .signalingNan ∨ classOf x = .quietNan := by
  unfold IsNan classOf
  cases datum x with
  | nan => by_cases h : fraction x < 2 ^ (F.frac - 1) <;> simp [h]
  | inf neg => cases neg <;> simp
  | finite q =>
      by_cases hz : q = 0 <;> by_cases hlt : |q| < leastNormal F <;> cases sign x <;> simp [hz, hlt]

/-- Another sign on the same bits is the class of the negated datum. -/
theorem classOf_of_body {x y : F.Bits} (hs : sign y = !sign x) (hb : body y = body x) :
    classOf y = (classOf x).negate := by
  have hexp : exponent y = exponent x := congrArg (· / 2 ^ F.frac) hb
  have hfrac : fraction y = fraction x := congrArg (· % 2 ^ F.frac) hb
  rw [classOf_eq, classOf_eq, hexp, hfrac, hs]
  simp only [apply_ite NumberClass.negate]
  cases sign x <;> rfl

end Ieee
