/-
Minimum and maximum, against the specification.

Each of the four handlers is one comparison: the first operand if it is below the
second, or above it, and the second if not.  Where the comparison is false both ways
the second operand is taken, whatever it is.  That is wrong for a second operand
that is not a number, unless it is the canonical NaN and the first is none either,
and for the two zeros in one of their orders.
-/
import Rvemu.Proofs.Handlers
import Rvemu.Spec.Float

namespace Rvemu

open Spec
open Ieee (Datum datum IsNan IsZero sign body key canonicalNan binary32 binary64)

variable {F : Ieee.Format}

/-! ### Comparisons -/

theorem not_less_of_nan {x y : F.Bits} (h : IsNan x ∨ IsNan y) : ¬(datum x).Less (datum y) := by
  rcases h with h | h
  · rw [show datum x = .nan from h]
    exact id
  · rw [show datum y = .nan from h]
    cases datum x <;> exact id

theorem not_nan_of_zero {x : F.Bits} (h : IsZero x) : ¬IsNan x := by
  intro hn
  cases h.symm.trans hn

theorem zeroBelow_incomparable {x y : F.Bits} (h : ZeroBelow x y) :
    ¬(datum x).Less (datum y) ∧ ¬(datum y).Less (datum x) := by
  rw [show datum x = .finite 0 from h.1, show datum y = .finite 0 from h.2.1]
  exact ⟨lt_irrefl 0, lt_irrefl 0⟩

theorem zeroBelow_ne {x y : F.Bits} (h : ZeroBelow x y) : x ≠ y := by
  rintro rfl
  cases h.2.2.1.symm.trans h.2.2.2

/-- Of two different numbers one is below the other, if they are not the two zeros. -/
theorem less_or_zeros {x y : F.Bits} (hx : ¬IsNan x) (hy : ¬IsNan y) (hne : x ≠ y) :
    (datum x).Less (datum y) ∨ (datum y).Less (datum x) ∨ ZeroBelow x y ∨ ZeroBelow y x := by
  rw [Ieee.less_iff_key hx hy, Ieee.less_iff_key hy hx]
  rcases lt_trichotomy (key x) (key y) with h | h | h
  · exact .inl h
  · obtain ⟨hbx, hby⟩ := (Ieee.eq_of_key h).resolve_left hne
    have hsign : sign x ≠ sign y := fun hs => hne (Ieee.ext_fields hs (hbx.trans hby.symm))
    have hzx := (Ieee.isZero_iff x).mpr hbx
    have hzy := (Ieee.isZero_iff y).mpr hby
    cases hsx : sign x <;> cases hsy : sign y
    · exact absurd (hsx.trans hsy.symm) hsign
    · exact .inr (.inr (.inr ⟨hzy, hzx, hsy, hsx⟩))
    · exact .inr (.inr (.inl ⟨hzx, hzy, hsx, hsy⟩))
    · exact absurd (hsx.trans hsy.symm) hsign
  · exact .inr (.inl h)

theorem not_less_both {x y : F.Bits} (h : (datum x).Less (datum y)) :
    ¬(datum y).Less (datum x) := by
  have hx : ¬IsNan x := fun hn => not_less_of_nan (.inl hn) h
  have hy : ¬IsNan y := fun hn => not_less_of_nan (.inr hn) h
  rw [Ieee.less_iff_key hx hy] at h
  rw [Ieee.less_iff_key hy hx]
  omega

/-- The comparison that makes `x` the one of two numbers to take. -/
def Before (e : Extremum) (x y : F.Bits) : Prop :=
  match e with
  | .min => (datum x).Less (datum y)
  | .max => (datum y).Less (datum x)

instance : (e : Extremum) → (x y : F.Bits) → Decidable (Before e x y)
  | .min, x, y => inferInstanceAs (Decidable ((datum x).Less (datum y)))
  | .max, x, y => inferInstanceAs (Decidable ((datum y).Less (datum x)))

/-- The two zeros, in the order in which an extremum takes the first. -/
def ZerosBefore (e : Extremum) (x y : F.Bits) : Prop :=
  match e with
  | .min => ZeroBelow x y
  | .max => ZeroBelow y x

/-! ### The comparison against the specification -/

/-- The second operand is a number, or the canonical NaN with no number before it; and the
operands are not the two zeros in the order in which the first is to be taken. -/
def Agrees (e : Extremum) (x y : F.Bits) : Prop :=
  (IsNan y → IsNan x ∧ y = canonicalNan F) ∧ ¬ZerosBefore e x y

theorem ite_eq_select_iff {x y : F.Bits} {less zeros : Prop} [Decidable less] [Decidable zeros]
    (hnan : IsNan x ∨ IsNan y → ¬less) (hzeros : zeros → ¬IsNan x ∧ ¬IsNan y ∧ ¬less ∧ x ≠ y) :
    (if less then x else y) = select (less ∨ zeros) x y ↔
      (IsNan y → IsNan x ∧ y = canonicalNan F) ∧ ¬zeros := by
  unfold select
  by_cases hx : IsNan x
  · have hz : ¬zeros := fun h => (hzeros h).1 hx
    rw [if_neg (hnan (.inl hx)), if_pos hx]
    by_cases hy : IsNan y
    · simp [hx, hy, hz]
    · simp [hy, hz]
  by_cases hy : IsNan y
  · -- the number is wanted, and the other is taken
    rw [if_neg (hnan (.inr hy)), if_neg hx, if_pos hy]
    refine ⟨fun h => absurd (h ▸ hy) hx, fun h => absurd (h.1 hy).1 hx⟩
  rw [if_neg hx, if_neg hy]
  by_cases hless : less
  · have hz : ¬zeros := fun h => (hzeros h).2.2.1 hless
    simp [hless, hy, hz]
  · by_cases hz : zeros
    · simp [hless, hz, (hzeros hz).2.2.2.symm]
    · simp [hless, hz, hy]

theorem ite_eq_number_iff (e : Extremum) (x y : F.Bits) :
    (if Before e x y then x else y) = e.number x y ↔ Agrees e x y := by
  cases e with
  | min =>
      exact ite_eq_select_iff not_less_of_nan fun h =>
        ⟨not_nan_of_zero h.1, not_nan_of_zero h.2.1, (zeroBelow_incomparable h).1, zeroBelow_ne h⟩
  | max =>
      exact ite_eq_select_iff (fun h => not_less_of_nan h.symm) fun h =>
        ⟨not_nan_of_zero h.2.1, not_nan_of_zero h.1, (zeroBelow_incomparable h).1,
          (zeroBelow_ne h).symm⟩

/-- In which order the operands stand matters for the two zeros and for nothing else that is a
number. -/
theorem ite_swap_iff (e : Extremum) {x y : F.Bits} (hx : ¬IsNan x) (hy : ¬IsNan y) :
    (if Before e x y then x else y) = (if Before e y x then y else x) ↔
      ¬(ZeroBelow x y ∨ ZeroBelow y x) := by
  have hlow : ZeroBelow x y ∨ ZeroBelow y x → ¬Before e x y ∧ ¬Before e y x := by
    intro h
    have hxy : ¬(datum x).Less (datum y) ∧ ¬(datum y).Less (datum x) := by
      rcases h with h | h
      · exact zeroBelow_incomparable h
      · exact (zeroBelow_incomparable h).symm
    cases e
    · exact hxy
    · exact hxy.symm
  constructor
  · intro heq h
    obtain ⟨hxy, hyx⟩ := hlow h
    rw [if_neg hxy, if_neg hyx] at heq
    rcases h with h | h
    · exact zeroBelow_ne h heq.symm
    · exact zeroBelow_ne h heq
  · intro h
    by_cases hne : x = y
    · rw [hne]
    have hone : Before e x y ∧ ¬Before e y x ∨ ¬Before e x y ∧ Before e y x := by
      rcases less_or_zeros hx hy hne with hl | hl | hz
      · cases e
        · exact .inl ⟨hl, not_less_both hl⟩
        · exact .inr ⟨not_less_both hl, hl⟩
      · cases e
        · exact .inr ⟨not_less_both hl, hl⟩
        · exact .inl ⟨hl, not_less_both hl⟩
      · exact absurd hz h
    rcases hone with ⟨hxy, hyx⟩ | ⟨hxy, hyx⟩
    · rw [if_pos hxy, if_neg hyx]
    · rw [if_neg hxy, if_pos hyx]

/-- With the zeros told apart, one of two different numbers is below the other. -/
theorem below_or {x y : F.Bits} (hx : ¬IsNan x) (hy : ¬IsNan y) (hne : x ≠ y) :
    Below x y ∧ ¬Below y x ∨ Below y x ∧ ¬Below x y := by
  have hnot {u v : F.Bits} (h : Below u v) : ¬Below v u := by
    rintro (hl | hz)
    · rcases h with h | h
      · exact not_less_both h hl
      · exact (zeroBelow_incomparable h).2 hl
    · rcases h with h | h
      · exact (zeroBelow_incomparable hz).2 h
      · cases h.2.2.1.symm.trans hz.2.2.2
  rcases less_or_zeros hx hy hne with h | h | h | h
  · exact .inl ⟨.inl h, hnot (.inl h)⟩
  · exact .inr ⟨.inl h, hnot (.inl h)⟩
  · exact .inl ⟨.inr h, hnot (.inr h)⟩
  · exact .inr ⟨.inr h, hnot (.inr h)⟩

/-- The extrema of the specification do not depend on the order of their operands. -/
theorem number_comm (e : Extremum) (x y : F.Bits) : e.number x y = e.number y x := by
  by_cases hne : x = y
  · rw [hne]
  by_cases hx : IsNan x <;> by_cases hy : IsNan y
  · cases e <;> simp [Extremum.number, minimumNumber, maximumNumber, select, hx, hy]
  · cases e <;> simp [Extremum.number, minimumNumber, maximumNumber, select, hx, hy]
  · cases e <;> simp [Extremum.number, minimumNumber, maximumNumber, select, hx, hy]
  · rcases below_or hx hy hne with ⟨h, h'⟩ | ⟨h, h'⟩ <;> cases e <;>
      simp [Extremum.number, minimumNumber, maximumNumber, select, hx, hy, h, h']

/-- There is no number to take exactly if neither operand is one. -/
theorem number_isNan_iff (e : Extremum) (x y : F.Bits) :
    IsNan (e.number x y) ↔ IsNan x ∧ IsNan y := by
  have hselect (first : Prop) [Decidable first] :
      IsNan (select first x y) ↔ IsNan x ∧ IsNan y := by
    unfold select
    by_cases hx : IsNan x <;> by_cases hy : IsNan y
    · simp [hx, hy, Ieee.canonicalNan_isNan]
    · simp [hx, hy]
    · simp [hx, hy]
    · rw [if_neg hx, if_neg hy]
      by_cases hf : first
      · simp [hf, hx, hy]
      · simp [hf, hx, hy]
  cases e
  · exact hselect _
  · exact hselect _

/-! ### The handlers -/

/-- The host's `<` and `>` are the comparisons of the standard. -/
structure HostFpu.ComparesIeee (fpu : HostFpu) : Prop where
  lt32 : ∀ x y : F32, fpu.lt32 x y = true ↔ (datum (F := binary32) x).Less (datum (F := binary32) y)
  gt32 : ∀ x y : F32, fpu.gt32 x y = true ↔ (datum (F := binary32) y).Less (datum (F := binary32) x)
  lt64 : ∀ x y : F64, fpu.lt64 x y = true ↔ (datum (F := binary64) x).Less (datum (F := binary64) y)
  gt64 : ∀ x y : F64, fpu.gt64 x y = true ↔ (datum (F := binary64) y).Less (datum (F := binary64) x)

/-- What an instruction leaves in its destination, as bits of its precision. -/
def fminmaxResult (fpu : HostFpu) (p : Precision) (e : Extremum) (s : State) (i : Inst) :
    Except Stop p.ieee.Bits :=
  (handler fpu (fminmax p e) s i).map fun r => operand p (r.1.fp i.rd)

theorem setFp_fp (s : State) (r : RegNo) (v : FpReg) : (s.setFp r v).fp r = v :=
  Function.update_self ..

theorem setF_f (r : FpReg) (x : F32) : (r.setF x).f = x := by
  unfold FpReg.setF FpReg.f
  exact BitVec.setWidth_append_eq_right

theorem fp32Func_result (expr : F32 → F32 → F32) (s : State) (i : Inst) :
    (fp32Func expr s i).map (fun r => (r.1.fp i.rd).f) =
      .ok (expr (s.fp i.rs1).f (s.fp i.rs2).f) := by
  unfold fp32Func
  simp only [Except.map, setFp_fp, setF_f]

theorem fp64Func_result (expr : F64 → F64 → F64) (s : State) (i : Inst) :
    (fp64Func expr s i).map (fun r => (r.1.fp i.rd).d) =
      .ok (expr (s.fp i.rs1).d (s.fp i.rs2).d) := by
  unfold fp64Func
  simp only [Except.map, setFp_fp, FpReg.setD, FpReg.d]

theorem fminmaxResult_eq {fpu : HostFpu} (hfpu : fpu.ComparesIeee) (p : Precision) (e : Extremum)
    (s : State) (i : Inst) :
    fminmaxResult fpu p e s i =
      .ok (if Before e (operand p (s.fp i.rs1)) (operand p (s.fp i.rs2))
        then operand p (s.fp i.rs1) else operand p (s.fp i.rs2)) := by
  cases p <;> cases e
  · refine (fp32Func_result _ s i).trans (congrArg _ ?_)
    simp only [hfpu.lt32]
    rfl
  · refine (fp32Func_result _ s i).trans (congrArg _ ?_)
    simp only [hfpu.gt32]
    rfl
  · refine (fp64Func_result _ s i).trans (congrArg _ ?_)
    simp only [hfpu.lt64]
    rfl
  · refine (fp64Func_result _ s i).trans (congrArg _ ?_)
    simp only [hfpu.gt64]
    rfl

/-- The same instruction with its operands in the other order. -/
def Inst.swapped (i : Inst) : Inst := { i with rs1 := i.rs2, rs2 := i.rs1 }

/-- **An extremum is the number the specification names exactly if its operands are not among the
exceptions**, and two numbers may be exchanged exactly if they are not the two zeros. -/
theorem fminmax_iff {fpu : HostFpu} (hfpu : fpu.ComparesIeee) (p : Precision) (e : Extremum)
    (s : State) (i : Inst) :
    let x := operand p (s.fp i.rs1)
    let y := operand p (s.fp i.rs2)
    (fminmaxResult fpu p e s i = .ok (e.number x y) ↔ Agrees e x y) ∧
      (¬IsNan x → ¬IsNan y →
        (fminmaxResult fpu p e s i = fminmaxResult fpu p e s i.swapped ↔
          ¬(ZeroBelow x y ∨ ZeroBelow y x))) := by
  intro x y
  have hswap : fminmaxResult fpu p e s i.swapped = .ok (if Before e y x then y else x) :=
    fminmaxResult_eq hfpu p e s i.swapped
  rw [hswap, fminmaxResult_eq hfpu, Except.ok.injEq, Except.ok.injEq]
  exact ⟨ite_eq_number_iff e x y, fun hx hy => ite_swap_iff e hx hy⟩

/-! ### A host that compares so -/

def ieeeFpu : HostFpu :=
  { (default : HostFpu) with
    lt32 := fun x y => decide ((datum (F := binary32) x).Less (datum (F := binary32) y))
    gt32 := fun x y => decide ((datum (F := binary32) y).Less (datum (F := binary32) x))
    lt64 := fun x y => decide ((datum (F := binary64) x).Less (datum (F := binary64) y))
    gt64 := fun x y => decide ((datum (F := binary64) y).Less (datum (F := binary64) x)) }

theorem ieeeFpu_compares : ieeeFpu.ComparesIeee where
  lt32 _ _ := decide_eq_true_iff
  gt32 _ _ := decide_eq_true_iff
  lt64 _ _ := decide_eq_true_iff
  gt64 _ _ := decide_eq_true_iff

/-- A state with floating-point values in `f1` and `f2`. -/
def operands (v w : Word) : State := ((default : State).setFp 1 { v := v }).setFp 2 { v := w }

/-- `f3` from `f1` and `f2`. -/
def ofBoth : Inst := { rd := 3, rs1 := 1, rs2 := 2 }

/-- `fmin.d` of 1 and 1.5. -/
theorem fminmax_iff_numbers :
    let s := operands 0x3ff0000000000000 0x3ff8000000000000
    let x := operand .double (s.fp 1)
    let y := operand .double (s.fp 2)
    (fminmaxResult ieeeFpu .double .min s ofBoth = .ok (Extremum.min.number x y) ↔
        Agrees .min x y) ∧
      (¬IsNan x → ¬IsNan y →
        (fminmaxResult ieeeFpu .double .min s ofBoth =
            fminmaxResult ieeeFpu .double .min s ofBoth.swapped ↔
          ¬(ZeroBelow x y ∨ ZeroBelow y x))) :=
  fminmax_iff ieeeFpu_compares .double .min (operands 0x3ff0000000000000 0x3ff8000000000000) ofBoth

/-- `fmin.s` of 1 and a NaN gives the NaN, and of the two zeros gives the second. -/
theorem fminS_takes_second :
    ieeeFpu.ComparesIeee ∧
      fminmaxResult ieeeFpu .single .min (operands 0x3f800000 0x7fc00000) ofBoth =
        .ok 0x7fc00000#32 ∧
      minimumNumber (F := binary32) 0x3f800000#32 0x7fc00000#32 = 0x3f800000#32 ∧
      fminmaxResult ieeeFpu .single .min (operands 0x80000000 0) ofBoth = .ok 0#32 ∧
      minimumNumber (F := binary32) 0x80000000#32 0#32 = 0x80000000#32 ∧
      fminmaxResult ieeeFpu .single .min (operands 0x80000000 0) ofBoth.swapped =
        .ok 0x80000000#32 := by
  refine ⟨ieeeFpu_compares, ?_, ?_, ?_, ?_, ?_⟩
  all_goals decide +kernel

end Rvemu
