/-
Where the signed arithmetic of the wide multiplications is defined.

Both signed forms negate a negative operand, which `int64_t` cannot do to its least
number.  `mulh` also multiplies the operands as they are, where their signs differ, to
see whether the low half of the product is zero; that product is one of `int64_t` and
is defined only if it fits.  `mulhsu` multiplies in `uint64_t`, where nothing can go
wrong.
-/
import Rvemu.Proofs.Multiply

namespace Rvemu

/-! ### Operands -/

theorem absChecked_some {a x : Word} (h : absChecked a = some x) : x = magnitude a := by
  unfold absChecked at h
  unfold magnitude
  by_cases ha : a.slt 0 = true
  · rw [if_pos ha] at h ⊢
    exact Checked.neg_some h
  · rw [if_neg ha] at h ⊢
    exact (Option.some.inj h).symm

/-- Every number but the least has a magnitude. -/
theorem absChecked_isSome_iff (a : Word) : (absChecked a).isSome = true ↔ a ≠ BitVec.intMin 64 := by
  unfold absChecked
  by_cases ha : a.slt 0 = true
  · rw [if_pos ha]
    exact Checked.neg_isSome_iff (by decide) a
  · rw [if_neg ha]
    refine ⟨fun _ hmin => ha ?_, fun _ => rfl⟩
    rw [hmin]
    decide

/-- A product of numbers with different signs is too small if it does not fit. -/
theorem fits_of_signs {a b : Word} (hsign : (a.slt 0 != b.slt 0) = true) :
    Checked.Fits 64 (a.toInt * b.toInt) ↔ a.toInt.natAbs * b.toInt.natAbs ≤ 2 ^ 63 := by
  have ha := slt_zero_iff a
  have hb := slt_zero_iff b
  have hneg : a.toInt * b.toInt ≤ 0 := by
    rcases Int.lt_or_le a.toInt 0 with hlt | hle
    · rw [ha.mpr hlt] at hsign
      have hbpos : ¬b.toInt < 0 := fun h => by
        rw [hb.mpr h] at hsign
        cases hsign
      exact Int.mul_nonpos_of_nonpos_of_nonneg (Int.le_of_lt hlt) (Int.not_lt.mp hbpos)
    · rw [Bool.eq_false_iff.mpr (mt ha.mp (Int.not_lt.mpr hle)), Bool.false_bne] at hsign
      exact Int.mul_nonpos_of_nonneg_of_nonpos hle (Int.le_of_lt (hb.mp hsign))
  rw [Checked.Fits, ← Int.natAbs_mul]
  generalize a.toInt * b.toInt = p at hneg
  omega

/-! ### Both forms -/

/-- What `mulh` returns under the rules of C is what it returns. -/
theorem mulhChecked_some {a b r : Word} (h : mulhChecked a b = some r) : r = mulh a b := by
  obtain ⟨x, hx, h⟩ := Option.bind_eq_some_iff.mp h
  obtain ⟨y, hy, h⟩ := Option.bind_eq_some_iff.mp h
  obtain rfl := absChecked_some hx
  obtain rfl := absChecked_some hy
  unfold mulh
  by_cases hneg : (a.slt 0 != b.slt 0) = true
  · rw [if_pos hneg] at h ⊢
    obtain ⟨product, hproduct, rfl⟩ := Option.map_eq_some_iff.mp h
    rw [Checked.mul_some hproduct]
    rfl
  · rw [if_neg hneg] at h ⊢
    exact (Option.some.inj h).symm

theorem mulhsuChecked_some {a b r : Word} (h : mulhsuChecked a b = some r) : r = mulhsu a b := by
  obtain ⟨x, hx, h⟩ := Option.bind_eq_some_iff.mp h
  obtain rfl := absChecked_some hx
  exact (Option.some.inj h).symm

/-- The operands of `mulh` for which nothing overflows. -/
def MulhDefined (a b : Word) : Prop :=
  a ≠ BitVec.intMin 64 ∧ b ≠ BitVec.intMin 64 ∧
    (a.slt 0 ≠ b.slt 0 → a.toInt.natAbs * b.toInt.natAbs ≤ 2 ^ 63)

theorem mulhChecked_isSome_iff (a b : Word) : (mulhChecked a b).isSome = true ↔ MulhDefined a b := by
  unfold MulhDefined mulhChecked
  rw [← absChecked_isSome_iff a, ← absChecked_isSome_iff b]
  cases hx : absChecked a with
  | none => simp
  | some x =>
      cases hy : absChecked b with
      | none => simp
      | some y =>
          show (if _ then _ else _ : Option Word).isSome = true ↔
            (some x).isSome = true ∧ (some y).isSome = true ∧ _
          by_cases hneg : (a.slt 0 != b.slt 0) = true
          · rw [if_pos hneg, Option.isSome_map, Checked.mul_isSome_iff, fits_of_signs hneg]
            exact ⟨fun h => ⟨rfl, rfl, fun _ => h⟩, fun h => h.2.2 (bne_iff_ne.mp hneg)⟩
          · rw [if_neg hneg]
            exact ⟨fun _ => ⟨rfl, rfl, fun h => absurd (bne_iff_ne.mpr h) hneg⟩, fun _ => rfl⟩

theorem mulhsuChecked_isSome_iff (a b : Word) :
    (mulhsuChecked a b).isSome = true ↔ a ≠ BitVec.intMin 64 := by
  rw [← absChecked_isSome_iff]
  unfold mulhsuChecked
  cases absChecked a with
  | none => simp
  | some x => simp

/-- **Where nothing overflows.**  `mulh` is defined unless one of its operands is the least number
or their signs differ and their product is below that; `mulhsu` unless its first operand is the
least number.  Where they are defined both return what wrapping arithmetic returns. -/
theorem mulh_defined_iff (a b : Word) :
    ((mulhChecked a b).isSome = true ↔ MulhDefined a b) ∧
      (∀ r, mulhChecked a b = some r → r = mulh a b) ∧
      ((mulhsuChecked a b).isSome = true ↔ a ≠ BitVec.intMin 64) ∧
      (∀ r, mulhsuChecked a b = some r → r = mulhsu a b) := by
  refine ⟨mulhChecked_isSome_iff a b, ?_, mulhsuChecked_isSome_iff a b, ?_⟩
  · intro r h
    exact mulhChecked_some h
  · intro r h
    exact mulhsuChecked_some h

/-- The least number times one, in both forms, and 2^40 times -2^40 in `mulh`. -/
theorem mulh_overflows :
    mulhChecked 0x8000000000000000 1 = none ∧ mulhsuChecked 0x8000000000000000 1 = none ∧
      mulhChecked 0x10000000000 0xffffff0000000000 = none :=
  ⟨by decide, by decide, by decide⟩

end Rvemu
