/-
Multiplication, against the exact product.

`mulhu` multiplies by 32-bit halves in 64-bit words.  None of its sums runs past
the word, so what it returns is the high half of the exact product.  The two signed
forms multiply magnitudes and complement the result where the product is negative;
the one they add when the low half of the product is zero makes this rounding down.
Together with `mul`, which keeps the low half, each of the three gives the product
of two registers in full.
-/
import Rvemu.Lib.Limbs
import Rvemu.Proofs.Handlers

namespace Rvemu

/-! ### The unsigned product -/

/-- `(uint32_t)x`, widened again. -/
def lo32 (x : Word) : Word := (x.setWidth 32).setWidth 64

/-- `x >> 32`. -/
def hi32 (x : Word) : Word := x >>> 32

theorem lo32_toNat (x : Word) : (lo32 x).toNat = x.toNat % 2 ^ 32 := by
  simp only [lo32, BitVec.toNat_setWidth]
  omega

theorem hi32_toNat (x : Word) : (hi32 x).toNat = x.toNat / 2 ^ 32 := by
  rw [hi32, BitVec.toNat_ushiftRight, Nat.shiftRight_eq_div_pow]

theorem lo32_lt (x : Word) : (lo32 x).toNat < 2 ^ 32 := by
  rw [lo32_toNat]
  exact Nat.mod_lt _ (by decide)

theorem hi32_lt (x : Word) : (hi32 x).toNat < 2 ^ 32 := by
  rw [hi32_toNat]
  omega

theorem halves_toNat (x : Word) : (hi32 x).toNat * 2 ^ 32 + (lo32 x).toNat = x.toNat := by
  rw [hi32_toNat, lo32_toNat]
  omega

/-- Putting the halves back together. -/
theorem halves_eq (x : Word) :
    ((((x >>> 32).setWidth 32).setWidth 64 : Word) <<< 32) |||
      ((x.setWidth 32).setWidth 64 : Word) = x := by
  apply BitVec.eq_of_getLsbD_eq
  intro i hi
  simp only [BitVec.getLsbD_or, BitVec.getLsbD_shiftLeft, BitVec.getLsbD_setWidth,
    BitVec.getLsbD_ushiftRight]
  by_cases h : i < 32
  · simp [h, hi]
  · simp [h, hi, show i - 32 < 32 by omega, show i - 32 < 64 by omega,
      show 32 + (i - 32) = i by omega]

section

variable (a b : Word)

/-- The values `t` takes in `mulhu`. -/
def mulhuT₁ : Word := hi32 a * lo32 b + ((lo32 a * lo32 b) >>> 32)
def mulhuT₂ : Word := lo32 a * hi32 b + lo32 (mulhuT₁ a b)
def mulhuT₃ : Word := hi32 a * hi32 b + hi32 (mulhuT₁ a b) + hi32 (mulhuT₂ a b)

/-- The last of them is returned, cut in halves and put together again. -/
theorem mulhu_eq : mulhu a b = mulhuT₃ a b := by
  have hmid : (((mulhuT₁ a b >>> 32).setWidth 32).setWidth 64 : Word) = hi32 (mulhuT₁ a b) := by
    apply BitVec.eq_of_toNat_eq
    have h := hi32_lt (mulhuT₁ a b)
    simp only [BitVec.toNat_setWidth]
    rw [show (mulhuT₁ a b >>> 32).toNat = (hi32 (mulhuT₁ a b)).toNat from rfl]
    omega
  have hall : mulhu a b =
      ((((hi32 a * hi32 b + ((mulhuT₁ a b >>> 32).setWidth 32).setWidth 64 +
          hi32 (mulhuT₂ a b)) >>> 32).setWidth 32).setWidth 64 : Word) <<< 32 |||
        (((hi32 a * hi32 b + ((mulhuT₁ a b >>> 32).setWidth 32).setWidth 64 +
          hi32 (mulhuT₂ a b)).setWidth 32).setWidth 64 : Word) := rfl
  rw [hall, hmid, halves_eq, mulhuT₃]

/-! Each is the sum it is meant to be: nothing is carried out of the word. -/

/-- A product of halves is exact. -/
theorem mul_halves_toNat {x y : Word} (hx : x.toNat < 2 ^ 32) (hy : y.toNat < 2 ^ 32) :
    (x * y).toNat = x.toNat * y.toNat := by
  have h : x.toNat * y.toNat < 2 ^ 32 * 2 ^ 32 := Nat.mul_lt_mul'' hx hy
  rw [BitVec.toNat_mul]
  exact Nat.mod_eq_of_lt h

theorem mulhuT₁_toNat :
    (mulhuT₁ a b).toNat =
      (hi32 a).toNat * (lo32 b).toNat + (lo32 a).toNat * (lo32 b).toNat / 2 ^ 32 := by
  have hlt := Limbs.cross₁_lt (lo32_lt a) (hi32_lt a) (lo32_lt b)
  rw [mulhuT₁, BitVec.toNat_add, BitVec.toNat_ushiftRight, Nat.shiftRight_eq_div_pow,
    mul_halves_toNat (hi32_lt a) (lo32_lt b), mul_halves_toNat (lo32_lt a) (lo32_lt b)]
  exact Nat.mod_eq_of_lt hlt

theorem mulhuT₁_eq_cross :
    (mulhuT₁ a b).toNat =
      Limbs.cross₁ (2 ^ 32) (lo32 a).toNat (hi32 a).toNat (lo32 b).toNat :=
  mulhuT₁_toNat a b

theorem mulhuT₂_toNat :
    (mulhuT₂ a b).toNat = (lo32 a).toNat * (hi32 b).toNat + (lo32 (mulhuT₁ a b)).toNat := by
  rw [mulhuT₂, BitVec.toNat_add, mul_halves_toNat (lo32_lt a) (hi32_lt b)]
  exact Nat.mod_eq_of_lt (Limbs.mul_add_lt (lo32_lt a) (hi32_lt b) (lo32_lt _))

theorem mulhuT₂_eq_cross :
    (mulhuT₂ a b).toNat =
      Limbs.cross₂ (2 ^ 32) (lo32 a).toNat (hi32 a).toNat (lo32 b).toNat (hi32 b).toNat := by
  rw [mulhuT₂_toNat, lo32_toNat (mulhuT₁ a b), mulhuT₁_eq_cross]
  rfl

theorem mulhuT₃_toNat :
    (mulhuT₃ a b).toNat =
      (hi32 a).toNat * (hi32 b).toNat + (hi32 (mulhuT₁ a b)).toNat +
        (hi32 (mulhuT₂ a b)).toNat := by
  have hlt := Limbs.mul_add_add_lt (hi32_lt a) (hi32_lt b) (hi32_lt (mulhuT₁ a b))
    (hi32_lt (mulhuT₂ a b))
  rw [mulhuT₃, BitVec.toNat_add, BitVec.toNat_add, mul_halves_toNat (hi32_lt a) (hi32_lt b),
    Nat.mod_add_mod]
  exact Nat.mod_eq_of_lt hlt

theorem mulhuT₃_eq_top :
    (mulhuT₃ a b).toNat =
      Limbs.top (2 ^ 32) (lo32 a).toNat (hi32 a).toNat (lo32 b).toNat (hi32 b).toNat := by
  rw [mulhuT₃_toNat, hi32_toNat (mulhuT₁ a b), hi32_toNat (mulhuT₂ a b), mulhuT₁_eq_cross,
    mulhuT₂_eq_cross]
  rfl

/-- `mulhu` is the high half of the unsigned product. -/
theorem mulhu_toNat : (mulhu a b).toNat = a.toNat * b.toNat / 2 ^ 64 := by
  rw [mulhu_eq, mulhuT₃_eq_top, Limbs.top_eq _ _ _ _ (by decide), halves_toNat, halves_toNat,
    ← pow_add]

end

/-! ### The signed products -/

/-- `x < 0 ? -x : x`. -/
def magnitude (x : Word) : Word := if x.slt 0 then -x else x

theorem slt_zero_iff (x : Word) : x.slt 0 = true ↔ x.toInt < 0 := by
  rw [BitVec.slt_iff_toInt_lt]
  rfl

/-- The magnitude is right also for the least number. -/
theorem magnitude_toNat (x : Word) : (magnitude x).toNat = x.toInt.natAbs := by
  have hcond := BitVec.toInt_eq_toNat_cond x
  unfold magnitude
  by_cases hx : x.toInt < 0
  · rw [if_pos ((slt_zero_iff x).mpr hx), BitVec.toNat_neg]
    split at hcond <;> omega
  · rw [if_neg (mt (slt_zero_iff x).mp hx)]
    split at hcond <;> omega

theorem magnitude_le (x : Word) : (magnitude x).toNat ≤ 2 ^ 63 := by
  have hmin := BitVec.le_toInt x
  have hmax := BitVec.toInt_lt (x := x)
  rw [magnitude_toNat]
  omega

theorem magnitude_mul_eq_zero (x y : Word) : magnitude x * y = 0 ↔ x * y = 0 := by
  unfold magnitude
  split
  · rw [BitVec.neg_mul]
    exact BitVec.neg_eq_zero_iff
  · rfl

/-- The product of two words is zero if that of the numbers has nothing below the word. -/
theorem mul_eq_zero_iff (x y : Word) : x * y = 0 ↔ x.toNat * y.toNat % 2 ^ 64 = 0 := by
  rw [← BitVec.toNat_inj, BitVec.toNat_mul]
  rfl

/-- The sign put back. -/
theorem signed_magnitude (x : Word) :
    (if x.slt 0 then -((magnitude x).toNat : Int) else ((magnitude x).toNat : Int)) = x.toInt := by
  rw [magnitude_toNat]
  by_cases hx : x.toInt < 0
  · rw [if_pos ((slt_zero_iff x).mpr hx)]
    omega
  · rw [if_neg (mt (slt_zero_iff x).mp hx)]
    omega

theorem toInt_of_lt {x : Word} (h : x.toNat < 2 ^ 63) : x.toInt = x.toNat := by
  rw [BitVec.toInt_eq_toNat_cond, if_pos (by omega)]

/-- Complementing, and adding one if nothing lies below, is negating and rounding down. -/
theorem negated_toInt {x y low : Word} (hfit : x.toNat * y.toNat / 2 ^ 64 < 2 ^ 63)
    (hlow : low = 0 ↔ x * y = 0) :
    (~~~mulhu x y + cbool (low == 0)).toInt = -((x.toNat * y.toNat : Nat) : Int) / 2 ^ 64 := by
  have hhigh := mulhu_toNat x y
  have hfloor := Limbs.neg_floor (M := 2 ^ 64) (by decide) (x.toNat * y.toNat)
  rw [show -((x.toNat * y.toNat : Nat) : Int) / 2 ^ 64 =
    -((x.toNat * y.toNat : Nat) : Int) / ((2 ^ 64 : Nat) : Int) from rfl, hfloor]
  generalize x.toNat * y.toNat / 2 ^ 64 = q at *
  have hbit : (cbool (low == 0)).toNat = if x.toNat * y.toNat % 2 ^ 64 = 0 then 1 else 0 := by
    by_cases h : low = 0
    · rw [if_pos ((mul_eq_zero_iff x y).mp (hlow.mp h)), h]
      rfl
    · rw [if_neg (mt (mul_eq_zero_iff x y).mpr (mt hlow.mpr h)), cbool, beq_false_of_ne h]
      rfl
  rw [BitVec.toInt_eq_toNat_cond, BitVec.toNat_add, BitVec.toNat_not, hbit, hhigh]
  by_cases h : x.toNat * y.toNat % 2 ^ 64 = 0
  · rw [if_pos h, if_pos h]
    split <;> omega
  · rw [if_neg h, if_neg h]
    split <;> omega

/-- What both signed forms do with the high half of a product of magnitudes. -/
theorem signedHigh_toInt {x y low : Word} (neg : Bool)
    (hfit : x.toNat * y.toNat / 2 ^ 64 < 2 ^ 63) (hlow : low = 0 ↔ x * y = 0) :
    (if neg then ~~~mulhu x y + cbool (low == 0) else mulhu x y).toInt =
      (if neg then -((x.toNat * y.toNat : Nat) : Int) else ((x.toNat * y.toNat : Nat) : Int)) /
        2 ^ 64 := by
  cases neg with
  | true => exact negated_toInt hfit hlow
  | false =>
    have hhigh := mulhu_toNat x y
    rw [if_neg nofun, if_neg nofun, toInt_of_lt (by omega), hhigh]
    rfl

section

variable (a b : Word)

/-- `mulh` is the high half of the signed product. -/
theorem mulh_toInt : (mulh a b).toInt = a.toInt * b.toInt / 2 ^ 64 := by
  have hfit : (magnitude a).toNat * (magnitude b).toNat / 2 ^ 64 < 2 ^ 63 := by
    have h := Nat.mul_le_mul (magnitude_le a) (magnitude_le b)
    omega
  have hlow : a * b = 0 ↔ magnitude a * magnitude b = 0 := by
    rw [magnitude_mul_eq_zero, BitVec.mul_comm, ← magnitude_mul_eq_zero, BitVec.mul_comm]
  have h := signedHigh_toInt (a.slt 0 != b.slt 0) hfit hlow
  refine h.trans (congrArg (· / 2 ^ 64) ?_)
  have ha := signed_magnitude a
  have hb := signed_magnitude b
  rw [← ha, ← hb, Nat.cast_mul]
  cases a.slt 0 <;> cases b.slt 0 <;> simp

/-- `mulhsu` is the high half of the product of a signed and an unsigned number. -/
theorem mulhsu_toInt : (mulhsu a b).toInt = a.toInt * b.toNat / 2 ^ 64 := by
  have hfit : (magnitude a).toNat * b.toNat / 2 ^ 64 < 2 ^ 63 := by
    have h := Nat.mul_le_mul (magnitude_le a) (Nat.le_of_lt_succ b.isLt)
    omega
  have h := signedHigh_toInt (a.slt 0) hfit (magnitude_mul_eq_zero a b).symm
  refine h.trans (congrArg (· / 2 ^ 64) ?_)
  have ha := signed_magnitude a
  rw [← ha, Nat.cast_mul]
  cases a.slt 0 <;> simp

end

/-! ### Both halves -/

theorem toInt_emod (x : Word) : x.toInt % 2 ^ 64 = x.toNat := by
  rw [BitVec.toInt_eq_toNat_cond]
  split <;> omega

theorem toNat_emod (x : Word) : (x.toNat : Int) % 2 ^ 64 = x.toNat := by
  omega

/-- `mul` is the low half of the product, however the operands are read. -/
theorem low_half {a b : Word} {x y : Int} (hx : x % 2 ^ 64 = a.toNat) (hy : y % 2 ^ 64 = b.toNat) :
    ((a * b).toNat : Int) = x * y % 2 ^ 64 := by
  rw [Int.mul_emod, hx, hy, BitVec.toNat_mul]
  rfl

/-- The two halves of a signed product. -/
theorem append_toInt {h l : Word} {p : Int} (hh : h.toInt = p / 2 ^ 64)
    (hl : (l.toNat : Int) = p % 2 ^ 64) : (h ++ l).toInt = p := by
  rw [BitVec.toInt_append, if_neg (by decide), hh, hl]
  exact Int.mul_ediv_add_emod p (2 ^ 64)

/-- The two halves of an unsigned product. -/
theorem append_toNat {h l : Word} {p : Nat} (hh : h.toNat = p / 2 ^ 64)
    (hl : l.toNat = p % 2 ^ 64) : (h ++ l).toNat = p := by
  rw [BitVec.toNat_append, ← Nat.shiftLeft_add_eq_or_of_lt l.isLt, Nat.shiftLeft_eq, hh, hl]
  exact Nat.div_add_mod' p (2 ^ 64)

/-- What `MUL` and the three forms for the high half write, for the same operands. -/
structure Products (a b h hsu hu l : Word) : Prop where
  signed : (h ++ l).toInt = a.toInt * b.toInt
  mixed : (hsu ++ l).toInt = a.toInt * b.toNat
  unsigned : (hu ++ l).toNat = a.toNat * b.toNat

theorem products (a b : Word) : Products a b (mulh a b) (mulhsu a b) (mulhu a b) (a * b) where
  signed := append_toInt (mulh_toInt a b) (low_half (toInt_emod a) (toInt_emod b))
  mixed := append_toInt (mulhsu_toInt a b) (low_half (toInt_emod a) (toNat_emod b))
  unsigned := append_toNat (mulhu_toNat a b) (BitVec.toNat_mul a b)

/-- **Multiplication is exact.**  The three functions round the exact product down to its high
half; the words `mulhu` adds up are the sums of the numbers they stand for, with nothing carried
out; and what the instructions for the two halves write is the whole product. -/
theorem multiplication_exact (a b : Word) (fpu : HostFpu) (s : State) (i : Inst) :
    ((mulhu a b).toNat = a.toNat * b.toNat / 2 ^ 64 ∧
      (mulh a b).toInt = a.toInt * b.toInt / 2 ^ 64 ∧
      (mulhsu a b).toInt = a.toInt * b.toNat / 2 ^ 64) ∧
    (mulhu a b = mulhuT₃ a b ∧
      (mulhuT₁ a b).toNat =
        (hi32 a).toNat * (lo32 b).toNat + (lo32 a).toNat * (lo32 b).toNat / 2 ^ 32 ∧
      (mulhuT₂ a b).toNat = (lo32 a).toNat * (hi32 b).toNat + (lo32 (mulhuT₁ a b)).toNat ∧
      (mulhuT₃ a b).toNat = (hi32 a).toNat * (hi32 b).toNat + (hi32 (mulhuT₁ a b)).toNat +
        (hi32 (mulhuT₂ a b)).toNat) ∧
    ∃ h hsu hu l,
      func fpu .mulh s i = .ok (s.setGp i.rd h, i) ∧
      func fpu .mulhsu s i = .ok (s.setGp i.rd hsu, i) ∧
      func fpu .mulhu s i = .ok (s.setGp i.rd hu, i) ∧
      func fpu .mul s i = .ok (s.setGp i.rd l, i) ∧
      Products (s.gp i.rs1) (s.gp i.rs2) h hsu hu l := by
  refine ⟨⟨mulhu_toNat a b, mulh_toInt a b, mulhsu_toInt a b⟩,
    ⟨mulhu_eq a b, mulhuT₁_toNat a b, mulhuT₂_toNat a b, mulhuT₃_toNat a b⟩, ?_⟩
  simp only [func_eq_handler]
  exact ⟨_, _, _, _, rfl, rfl, rfl, rfl, products (s.gp i.rs1) (s.gp i.rs2)⟩

end Rvemu
