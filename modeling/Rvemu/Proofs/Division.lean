/-
Division, against the specification.

The handlers test the divisor before they divide.  The four that divide whole
registers meet the specification on every pair of operands.  The four word forms
divide the low halves but test the whole register: a divisor that is not zero and
has a zero low half passes the test, and the host divides by zero.  On all other
operands they meet the specification too; their signed division is made in 64 bits,
where the quotient always fits.
-/
import Mathlib.Data.BitVec
import Rvemu.Proofs.Rv64i
import Rvemu.Spec.Rv64m

namespace Rvemu

open Spec

/-! ### The host's division -/

theorem sdiv_eq_ofInt {w : Nat} (a b : BitVec w) :
    a.sdiv b = BitVec.ofInt w (a.toInt.tdiv b.toInt) := by
  apply BitVec.eq_of_toInt_eq
  rw [BitVec.toInt_sdiv, BitVec.toInt_ofInt]

theorem srem_eq_ofInt {w : Nat} (a b : BitVec w) :
    a.srem b = BitVec.ofInt w (a.toInt.tmod b.toInt) := by
  rw [← BitVec.toInt_srem, BitVec.ofInt_toInt]

/-- The quotient that does not fit wraps to what the specification says. -/
theorem quotS_eq {w : Nat} {a b : BitVec w} (hb : b ≠ 0) :
    quotS a b = BitVec.ofInt w (a.toInt.tdiv b.toInt) := by
  unfold quotS
  rw [if_neg hb]
  split
  · rename_i h
    rw [h.1, h.2, ← sdiv_eq_ofInt, ← BitVec.neg_one_eq_allOnes, BitVec.intMin_sdiv_neg_one]
  · rfl

/-- And its remainder is zero. -/
theorem remS_eq {w : Nat} {a b : BitVec w} (hb : b ≠ 0) :
    remS a b = BitVec.ofInt w (a.toInt.tmod b.toInt) := by
  unfold remS
  rw [if_neg hb]
  split
  · rename_i h
    have hw : 0 < w := by
      by_contra hw
      obtain rfl : w = 0 := by omega
      exact hb BitVec.of_length_zero
    rw [h.2, BitVec.toInt_allOnes, if_pos hw, Int.tmod_neg, Int.tmod_one]
    rfl
  · rfl

/-- The low half of a number. -/
theorem low_ofInt (z : Int) : sext32 (BitVec.ofInt 64 z) = word (BitVec.ofInt 32 z) := by
  have hlow : (BitVec.ofInt 64 z).setWidth 32 = BitVec.ofInt 32 z := by
    apply BitVec.eq_of_toNat_eq
    simp only [BitVec.toNat_setWidth, BitVec.toNat_ofInt]
    omega
  rw [sext32, hlow, word]

theorem toInt_sext32 (x : Word) : (sext32 x).toInt = (low x).toInt := by
  rw [sext32, low_eq]
  exact BitVec.toInt_signExtend_of_le (by decide)

theorem sext32_eq_zero_iff (x : Word) : sext32 x = 0 ↔ low x = 0 := by
  rw [← BitVec.toInt_inj, toInt_sext32, ← BitVec.toInt_inj]
  rfl

/-- No word is the least number of 64 bits. -/
theorem sext32_ne_intMin (x : Word) : sext32 x ≠ BitVec.intMin 64 := by
  intro h
  have hx := congrArg BitVec.toInt h
  rw [toInt_sext32] at hx
  have hlow := BitVec.le_toInt (low x)
  have hmin : (BitVec.intMin 64).toInt = -2 ^ 63 := by decide
  omega

/-! ### The tests of the divisor -/

/-- A division of whole registers behind its test. -/
theorem guard_whole {b v₀ v : Word} {x : Except Stop Word} (hzero : b = 0 → v₀ = v)
    (hok : b ≠ 0 → x = .ok v) : (if b = 0 then .ok v₀ else x) = .ok v := by
  by_cases hb : b = 0
  · rw [if_pos hb, hzero hb]
  · rw [if_neg hb, hok hb]

/-- A division of low halves behind a test of the whole register. -/
theorem guard_word {b v₀ v : Word} {x : Except Stop Word} (hzero : b = 0 → v₀ = v)
    (htrap : low b = 0 → x = .error .fpe) (hok : low b ≠ 0 → x = .ok v) :
    (if b = 0 then .ok v₀ else x) = if low b = 0 → b = 0 then .ok v else .error .fpe := by
  by_cases hb : b = 0
  · rw [if_pos hb, if_pos fun _ => hb, hzero hb]
  · by_cases hlow : low b = 0
    · rw [if_neg hb, if_neg fun h => hb (h hlow), htrap hlow]
    · rw [if_neg hb, if_pos fun h => absurd h hlow, hok hlow]

section

variable (a b : Word)

theorem div_expr :
    (if b = 0 then .ok (-1)
      else if a = BitVec.intMin 64 ∧ b = -1 then .ok (BitVec.intMin 64)
      else hostSdiv a b) = .ok (quotS a b) := by
  refine guard_whole (fun hb => ?_) fun hb => ?_
  · rw [quotS, if_pos hb]
    rfl
  · by_cases ho : a = BitVec.intMin 64 ∧ b = -1
    · rw [if_pos ho, quotS, if_neg hb]
      exact congrArg Except.ok (if_pos ho).symm
    · rw [if_neg ho, hostSdiv, if_neg (by tauto), quotS_eq hb, sdiv_eq_ofInt]

theorem rem_expr :
    (if b = 0 then .ok a
      else if a = BitVec.intMin 64 ∧ b = -1 then .ok 0
      else hostSrem a b) = .ok (remS a b) := by
  refine guard_whole (fun hb => ?_) fun hb => ?_
  · rw [remS, if_pos hb]
  · by_cases ho : a = BitVec.intMin 64 ∧ b = -1
    · rw [if_pos ho, remS, if_neg hb]
      exact congrArg Except.ok (if_pos ho).symm
    · rw [if_neg ho, hostSrem, if_neg (by tauto), remS_eq hb, srem_eq_ofInt]

theorem divu_expr : (if b = 0 then .ok (-1) else hostUdiv a b) = .ok (quotU a b) := by
  refine guard_whole (fun hb => ?_) fun hb => ?_
  · rw [quotU, if_pos hb]
    rfl
  · rw [hostUdiv, if_neg hb, quotU, if_neg hb, BitVec.udiv_def]

theorem remu_expr : (if b = 0 then .ok a else hostUrem a b) = .ok (remU a b) := by
  refine guard_whole (fun hb => ?_) fun hb => ?_
  · rw [remU, if_pos hb]
  · rw [hostUrem, if_neg hb, remU, if_neg hb, BitVec.umod_def]

/-- The signed division of two words is made in 64 bits and does not overflow there. -/
theorem word_test (ha : low b ≠ 0) :
    ¬(sext32 b = 0 ∨ sext32 a = BitVec.intMin 64 ∧ sext32 b = -1) := by
  rintro (hb | ⟨hmin, -⟩)
  · exact ha ((sext32_eq_zero_iff b).mp hb)
  · exact sext32_ne_intMin a hmin

theorem divw_expr :
    (if b = 0 then .ok (-1) else hostSdiv (sext32 a) (sext32 b) >>= fun q => .ok (sext32 q)) =
      if low b = 0 → b = 0 then .ok (word (quotS (low a) (low b))) else .error .fpe := by
  refine guard_word (fun hb => ?_) (fun hlow => ?_) fun hlow => ?_
  · rw [quotS, if_pos (by rw [hb]; rfl)]
    rfl
  · rw [hostSdiv, if_pos (.inl ((sext32_eq_zero_iff b).mpr hlow))]
    rfl
  · rw [hostSdiv, if_neg (word_test a b hlow), quotS_eq hlow, ok_bind, sdiv_eq_ofInt, low_ofInt,
      toInt_sext32, toInt_sext32]

theorem remw_expr :
    (if b = 0 then .ok (sext32 a)
      else hostSrem (sext32 a) (sext32 b) >>= fun r => .ok (sext32 r)) =
      if low b = 0 → b = 0 then .ok (word (remS (low a) (low b))) else .error .fpe := by
  refine guard_word (fun hb => ?_) (fun hlow => ?_) fun hlow => ?_
  · rw [remS, if_pos (by rw [hb]; rfl)]
    rw [sext32, low_eq, word]
  · rw [hostSrem, if_pos (.inl ((sext32_eq_zero_iff b).mpr hlow))]
    rfl
  · rw [hostSrem, if_neg (word_test a b hlow), remS_eq hlow, ok_bind, srem_eq_ofInt, low_ofInt,
      toInt_sext32, toInt_sext32]

theorem divuw_expr :
    (if b = 0 then .ok (-1)
      else hostUdiv (a.setWidth 32) (b.setWidth 32) >>= fun q => .ok (q.signExtend 64)) =
      if low b = 0 → b = 0 then .ok (word (quotU (low a) (low b))) else .error .fpe := by
  rw [low_eq, low_eq]
  refine guard_word (fun hb => ?_) (fun hlow => ?_) fun hlow => ?_
  · rw [quotU, if_pos (by rw [hb]; rfl)]
    rfl
  · rw [hostUdiv, if_pos hlow]
    rfl
  · rw [hostUdiv, if_neg hlow, quotU, if_neg hlow, ok_bind, BitVec.udiv_def, word]

theorem remuw_expr :
    (if b = 0 then .ok (sext32 a)
      else hostUrem (a.setWidth 32) (b.setWidth 32) >>= fun r => .ok (r.signExtend 64)) =
      if low b = 0 → b = 0 then .ok (word (remU (low a) (low b))) else .error .fpe := by
  rw [low_eq, low_eq]
  refine guard_word (fun hb => ?_) (fun hlow => ?_) fun hlow => ?_
  · rw [remU, if_pos (by rw [hb]; rfl)]
    rw [sext32, low_eq, word]
  · rw [hostUrem, if_pos hlow]
    rfl
  · rw [hostUrem, if_neg hlow, remU, if_neg hlow, ok_bind, BitVec.umod_def, word]

end

/-! ### The handlers -/

/-- The test of the divisor sees what the division divides by. -/
def TestsDivisor (t : InstType) (b : Word) : Prop := isWordDivision t = true → low b = 0 → b = 0

instance (t : InstType) (b : Word) : Decidable (TestsDivisor t b) :=
  inferInstanceAs (Decidable (_ → _ → _))

theorem trapAluFunc_of {expr : Word → Word → Except Stop Word} {s : State} {i : Inst} {v : Word}
    {c : Prop} [Decidable c]
    (h : expr (s.gp i.rs1) (s.gp i.rs2) = if c then .ok v else .error .fpe) :
    trapAluFunc expr s i = if c then .ok (s.setGp i.rd v, i) else .error .fpe := by
  unfold trapAluFunc
  dsimp only
  rw [h]
  by_cases hc : c
  · rw [if_pos hc, if_pos hc]
    rfl
  · rw [if_neg hc, if_neg hc]
    rfl

/-- A division writes what the specification says, or the host divides by zero. -/
theorem handler_division (fpu : HostFpu) {t : InstType} (ht : isDivision t = true) (s : State)
    (i : Inst) :
    handler fpu t s i =
      if TestsDivisor t (s.gp i.rs2) then
        .ok (s.setGp i.rd (division t (s.gp i.rs1) (s.gp i.rs2)), i)
      else .error .fpe := by
  have hwhole {t : InstType} (hw : isWordDivision t = false) : TestsDivisor t (s.gp i.rs2) :=
    fun h => absurd h (by rw [hw]; nofun)
  have hword {t : InstType} (hw : isWordDivision t = true) :
      (low (s.gp i.rs2) = 0 → s.gp i.rs2 = 0) ↔ TestsDivisor t (s.gp i.rs2) :=
    ⟨fun h _ => h, fun h => h hw⟩
  cases t <;> try cases ht
  all_goals
    rw [handler, division]
    refine trapAluFunc_of (c := TestsDivisor _ _) ?_
  case div => exact (div_expr _ _).trans (if_pos (hwhole rfl)).symm
  case divu => exact (divu_expr _ _).trans (if_pos (hwhole rfl)).symm
  case rem => exact (rem_expr _ _).trans (if_pos (hwhole rfl)).symm
  case remu => exact (remu_expr _ _).trans (if_pos (hwhole rfl)).symm
  case divw => exact (divw_expr _ _).trans (if_congr (hword rfl) rfl rfl)
  case divuw => exact (divuw_expr _ _).trans (if_congr (hword rfl) rfl rfl)
  case remw => exact (remw_expr _ _).trans (if_congr (hword rfl) rfl rfl)
  case remuw => exact (remuw_expr _ _).trans (if_congr (hword rfl) rfl rfl)

/-- **Division, exactly where it is right.**  For every pair of operands the handler writes the
result of the specification, and nothing else, exactly if the low half of the divisor is not
zero in a divisor that is not, or the form is not a word form; else the process dies. -/
theorem handler_division_iff (fpu : HostFpu) {t : InstType} (ht : isDivision t = true) (s : State)
    (i : Inst) :
    (handler fpu t s i = .ok (s.setGp i.rd (division t (s.gp i.rs1) (s.gp i.rs2)), i) ↔
      (isWordDivision t = true → low (s.gp i.rs2) = 0 → s.gp i.rs2 = 0)) ∧
    (handler fpu t s i ≠ .error .fpe ↔
      (isWordDivision t = true → low (s.gp i.rs2) = 0 → s.gp i.rs2 = 0)) := by
  rw [handler_division fpu ht]
  by_cases hc : TestsDivisor t (s.gp i.rs2)
  · rw [if_pos hc]
    exact ⟨⟨fun _ => hc, fun _ => rfl⟩, ⟨fun _ => hc, fun _ => nofun⟩⟩
  · rw [if_neg hc]
    exact ⟨⟨nofun, fun h => absurd h hc⟩, ⟨fun h => absurd rfl h, fun h => absurd h hc⟩⟩

/-- A state with these values in `x1` and `x2`. -/
def dividing (a b : Word) : State := ((default : State).setGp 1 a).setGp 2 b

/-- `div x3, x1, x2` and such. -/
def divideInst : Inst := { rs1 := 1, rs2 := 2, rd := 3 }

theorem handler_division_iff_min :
    handler default .div (dividing (BitVec.intMin 64) (-1)) divideInst =
      .ok ((dividing (BitVec.intMin 64) (-1)).setGp 3 (BitVec.intMin 64), divideInst) := by
  have hv : division .div ((dividing (BitVec.intMin 64) (-1)).gp 1)
      ((dividing (BitVec.intMin 64) (-1)).gp 2) = BitVec.intMin 64 := by decide
  have h := (handler_division_iff default (t := .div) rfl (dividing (BitVec.intMin 64) (-1))
    divideInst).1.mpr nofun
  rw [show divideInst.rs1 = 1 from rfl, show divideInst.rs2 = 2 from rfl, hv] at h
  exact h

/-- `divw` of 1 by 2^32 divides by the low half, which is zero, where the result is all ones. -/
theorem divw_traps :
    handler default .divw (dividing 1 (2 ^ 32)) divideInst = .error .fpe ∧
      division .divw ((dividing 1 (2 ^ 32)).gp 1) ((dividing 1 (2 ^ 32)).gp 2) = -1 := by
  constructor
  · rfl
  · decide

end Rvemu
