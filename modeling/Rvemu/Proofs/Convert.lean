/-
Conversions from floating point to integers, against the specification.

The eight handlers ask the host for the nearest integer as an `int64_t` and narrow
it.  Of the host only this is known: it answers with the nearest integer where that
is an `int64_t`, and with anything at all where it is not.

So a result is right if the nearest integer fits the target type, and for what does
not fit only by coincidence: nothing is saturated, and the low bits of the nearest
integer are those of the bound it lies beyond on one input in 2^32.

The rounding mode of the instruction word is not kept in the record.  A conversion
toward zero is therefore right if truncating the value rounds it to nearest as well.
-/
import Rvemu.Proofs.Handlers
import Rvemu.Proofs.Decode32
import Rvemu.Spec.Float

namespace Rvemu

open BitField Spec Rounding
open Ieee (Datum datum binary32 binary64)

/-! ### The host -/

/-- The nearest integer is an `int64_t`. -/
def InInt64 (n : ℤ) : Prop := -2 ^ 63 ≤ n ∧ n < 2 ^ 63

instance (n : ℤ) : Decidable (InInt64 n) := inferInstanceAs (Decidable (_ ∧ _))

/-- `llrintf` or `llrint`. -/
def HostFpu.llrintOf (fpu : HostFpu) : (p : Precision) → p.ieee.Bits → Word
  | .single => fpu.llrintf
  | .double => fpu.llrint

/-- What is known of `llrintf` and `llrint`. -/
def HostFpu.RoundsEven (fpu : HostFpu) : Prop :=
  ∀ (p : Precision) (x : p.ieee.Bits) (q : ℚ), datum x = .finite q → InInt64 (roundEven q) →
    (fpu.llrintOf p x).toInt = roundEven q

/-- The nearest integer where it is an `int64_t`, and `other` where it is not. -/
def nearestOr (other : Word) : Datum → Word
  | .finite q => if InInt64 (roundEven q) then BitVec.ofInt 64 (roundEven q) else other
  | _ => other

/-- A host that answers so. -/
def nearestFpu (other : Word) : HostFpu :=
  { (default : HostFpu) with
    llrintf := fun x => nearestOr other (datum (F := binary32) x)
    llrint := fun x => nearestOr other (datum (F := binary64) x) }

theorem nearestFpu_llrintOf (other : Word) (p : Precision) (x : p.ieee.Bits) :
    (nearestFpu other).llrintOf p x = nearestOr other (datum x) := by
  cases p <;> rfl

theorem nearestFpu_roundsEven (other : Word) : (nearestFpu other).RoundsEven := by
  intro p x q hq hin
  rw [nearestFpu_llrintOf, hq, nearestOr, if_pos hin]
  exact BitVec.toInt_ofInt_eq_self (by decide) hin.1 hin.2

/-! ### The handlers -/

/-- All eight handlers narrow what the host answers and extend its sign. -/
theorem handler_fcvt (fpu : HostFpu) (p : Precision) (t : IntType) (s : State) (i : Inst) :
    handler fpu (fcvt p t) s i = .ok (s.setGp i.rd
      (((fpu.llrintOf p (operand p (s.fp i.rs1))).setWidth t.bits).signExtend 64), i) := by
  cases t
  case w | wu => cases p <;> rfl
  case l | lu =>
    have hwide (x : Word) : (x.setWidth 64).signExtend 64 = x := by simp
    show _ = Except.ok (s.setGp i.rd ((BitVec.setWidth 64 _).signExtend 64), i)
    rw [hwide]
    cases p <;> rfl

/-- Which words narrow to the register of an integer. -/
theorem narrow_eq_word_iff (t : IntType) (w : Word) (n : ℤ) :
    (w.setWidth t.bits).signExtend 64 = t.word n ↔ w.toInt % 2 ^ t.bits = n % 2 ^ t.bits := by
  have hle : t.bits ≤ 64 := by cases t <;> decide
  have hcast : (2 ^ t.bits : ℤ) = ((2 ^ t.bits : ℕ) : ℤ) := by push_cast; rfl
  rw [← BitVec.toInt_inj, IntType.word, BitVec.toInt_signExtend_of_le hle,
    BitVec.toInt_signExtend_of_le hle, ← BitVec.signExtend_eq_setWidth_of_le _ hle,
    BitVec.toInt_signExtend_eq_toInt_bmod_of_le _ hle, BitVec.toInt_ofInt, hcast]
  constructor
  · intro h
    rw [← Int.bmod_emod (x := w.toInt), h, Int.bmod_emod]
  · intro h
    rw [← Int.emod_bmod w.toInt, h, Int.emod_bmod]

theorem setGp_inj {s : State} {r : RegNo} {v v' : Word} : s.setGp r v = s.setGp r v' ↔ v = v' := by
  refine ⟨fun h => ?_, fun h => by rw [h]⟩
  simpa using congrArg (fun u : State => u.gp r) h

/-- A handler writes a given integer exactly if what the host answers has its low bits. -/
theorem handler_fcvt_eq_iff (fpu : HostFpu) (p : Precision) (t : IntType) (s : State) (i : Inst)
    (n : ℤ) : handler fpu (fcvt p t) s i = .ok (s.setGp i.rd (t.word n), i) ↔
      (fpu.llrintOf p (operand p (s.fp i.rs1))).toInt % 2 ^ t.bits = n % 2 ^ t.bits := by
  rw [handler_fcvt, ← narrow_eq_word_iff, ← setGp_inj (s := s) (r := i.rd)]
  simp

/-! ### What every host gets right -/

theorem toInt_ofInt_emod (t : IntType) (n : ℤ) :
    (BitVec.ofInt 64 n).toInt % 2 ^ t.bits = n % 2 ^ t.bits := by
  have hdvd : (2 ^ t.bits : ℤ) ∣ 2 ^ 64 := pow_dvd_pow 2 (by cases t <;> decide)
  rw [BitVec.toInt_ofInt, ← Int.emod_emod_of_dvd _ hdvd, ← Int.emod_emod_of_dvd n hdvd]
  exact congrArg (· % _) Int.bmod_emod

theorem succ_emod_ne (t : IntType) (n : ℤ) : (n + 1) % 2 ^ t.bits ≠ n % 2 ^ t.bits := by
  cases t <;> simp only [IntType.bits] <;> omega

/-- Whatever the host does where nothing is known of it, its answer has the low bits of `m`: that
is so if the nearest integer is an `int64_t` and has them. -/
theorem llrintOf_emod_iff (p : Precision) (t : IntType) (x : p.ieee.Bits) (m : ℤ) :
    (∀ fpu : HostFpu, fpu.RoundsEven →
        (fpu.llrintOf p x).toInt % 2 ^ t.bits = m % 2 ^ t.bits) ↔
      ∃ q, datum x = .finite q ∧ InInt64 (roundEven q) ∧
        roundEven q % 2 ^ t.bits = m % 2 ^ t.bits := by
  constructor
  · intro h
    -- a host that is wrong wherever it may be
    have hwrong := h (nearestFpu (BitVec.ofInt 64 (m + 1))) (nearestFpu_roundsEven _)
    rw [nearestFpu_llrintOf] at hwrong
    cases hx : datum x with
    | finite q =>
        by_cases hin : InInt64 (roundEven q)
        · rw [hx, nearestOr, if_pos hin, toInt_ofInt_emod] at hwrong
          exact ⟨q, rfl, hin, hwrong⟩
        · rw [hx, nearestOr, if_neg hin, toInt_ofInt_emod] at hwrong
          exact absurd hwrong (succ_emod_ne t m)
    | nan | inf =>
        rw [hx, nearestOr, toInt_ofInt_emod] at hwrong
        · exact absurd hwrong (succ_emod_ne t m)
        · nofun
  · rintro ⟨q, hq, hin, hmod⟩ fpu hfpu
    rw [hfpu p x q hq hin, hmod]

/-! ### To the nearest integer -/

/-- The nearest integer is an `int64_t`, and it fits the target type or has the low bits of the
bound that it lies beyond. -/
def NarrowsTo (t : IntType) (d : Datum) : Prop :=
  ∃ q, d = .finite q ∧ InInt64 (roundEven q) ∧
    (t.Fits (roundEven q) ∨
      t.max < roundEven q ∧ roundEven q % 2 ^ t.bits = t.max % 2 ^ t.bits ∨
      roundEven q < t.min ∧ roundEven q % 2 ^ t.bits = t.min % 2 ^ t.bits)

theorem min_le_max (t : IntType) : t.min ≤ t.max := by
  cases t <;> decide

theorem saturate_emod_iff (t : IntType) (n : ℤ) :
    n % 2 ^ t.bits = saturate t.min t.max n % 2 ^ t.bits ↔
      t.Fits n ∨ t.max < n ∧ n % 2 ^ t.bits = t.max % 2 ^ t.bits ∨
        n < t.min ∧ n % 2 ^ t.bits = t.min % 2 ^ t.bits := by
  have hle := min_le_max t
  unfold IntType.Fits
  rcases lt_or_ge n t.min with hlow | hlow
  · rw [saturate_of_lt hle hlow]
    constructor
    · exact fun h => .inr (.inr ⟨hlow, h⟩)
    · rintro (h | h | h)
      · omega
      · omega
      · exact h.2
  rcases lt_or_ge t.max n with hhigh | hhigh
  · rw [saturate_of_gt hle hhigh]
    constructor
    · exact fun h => .inr (.inl ⟨hhigh, h⟩)
    · rintro (h | h | h)
      · omega
      · exact h.2
      · omega
  · rw [saturate_of_le hlow hhigh]
    exact ⟨fun _ => .inl ⟨hlow, hhigh⟩, fun _ => rfl⟩

/-- **A conversion writes what the specification says, whatever is not known of the host, exactly
if the nearest integer survives the narrowing.** -/
theorem fcvt_nearest_iff (p : Precision) (t : IntType) (s : State) (i : Inst) :
    (∀ fpu : HostFpu, fpu.RoundsEven → handler fpu (fcvt p t) s i =
        .ok (s.setGp i.rd (t.word (t.convert roundEven (datum (operand p (s.fp i.rs1))))), i)) ↔
      NarrowsTo t (datum (operand p (s.fp i.rs1))) := by
  simp only [handler_fcvt_eq_iff]
  rw [llrintOf_emod_iff, NarrowsTo]
  refine exists_congr fun q => and_congr_right fun hq => and_congr_right fun _ => ?_
  rw [hq, ← saturate_emod_iff]
  rfl

/-- A state with a floating-point value in `f1`. -/
def floating (v : Word) : State := (default : State).setFp 1 { v := v }

/-- `fcvt.w.d x10, f1`. -/
def convertWD : Inst := { rd := 10, rs1 := 1 }

/-- 3e9 is no `int32_t`; its low bits are written, not the greatest one. -/
theorem fcvtWD_wraps :
    (nearestFpu 0).RoundsEven ∧
      (handler (nearestFpu 0) .fcvt_w_d (floating 0x41e65a0bc0000000) convertWD).map
        (fun r => r.1.gp 10) = .ok 0xffffffffb2d05e00 ∧
      IntType.w.word (IntType.w.convert roundEven
        (datum (operand .double ((floating 0x41e65a0bc0000000).fp 1)))) = 0x7fffffff ∧
      ¬∀ fpu : HostFpu, fpu.RoundsEven →
        handler fpu .fcvt_w_d (floating 0x41e65a0bc0000000) convertWD =
          .ok ((floating 0x41e65a0bc0000000).setGp 10 0x7fffffff, convertWD) := by
  have hgot : (handler (nearestFpu 0) .fcvt_w_d (floating 0x41e65a0bc0000000) convertWD).map
      (fun r => r.1.gp 10) = .ok 0xffffffffb2d05e00 := by decide +kernel
  refine ⟨nearestFpu_roundsEven 0, hgot, by decide +kernel, fun h => ?_⟩
  rw [h _ (nearestFpu_roundsEven 0)] at hgot
  revert hgot
  decide +kernel

/-! ### Toward zero -/

theorem reader_rm (f : Format) (o : Operands) (m : BitVec 3) :
    reader f (f.assemble { o with rm := m }) = reader f (f.assemble o) := by
  cases f with
  | rRm op f7 =>
      simp (disch := decide) [reader, instRtypeRead, Format.assemble, extract_or,
        extract_place_self, extract_place_disjoint]
  | rUnaryRm op f7 sel =>
      simp (disch := decide) [reader, instRtypeRead, Format.assemble, extract_or,
        extract_place_self, extract_place_disjoint]
  | r4 op f2 =>
      simp (disch := decide) [reader, instFprtypeRead, Format.assemble, extract_or,
        extract_place_self, extract_place_disjoint]
  | _ => rfl

/-- The rounding mode of no instruction reaches the record. -/
theorem decodeInst_rm (t : InstType) (o : Operands) (m : BitVec 3) (prev : Inst) :
    decodeInst prev (encode t { o with rm := m }) = decodeInst prev (encode t o) := by
  by_cases ht : t = .ecall
  · rw [ht]
    rfl
  · rw [decodeInst_of_fixed (fixed_encode t _) ht, decodeInst_of_fixed (fixed_encode t _) ht]
    unfold decoded
    rw [show reader (format t) (encode t { o with rm := m }) = reader (format t) (encode t o) from
      reader_rm (format t) o m]

theorem fcvt_carries {p : Precision} {t : IntType} {o : Operands} {i : Inst}
    (h : CarriesOperands (format (fcvt p t)) o i) : i.rd = o.rd ∧ i.rs1 = o.rs1 := by
  cases p <;> cases t <;> exact h

/-- The word of a conversion decodes to a record with its registers. -/
theorem decodeInst_fcvt (p : Precision) (t : IntType) (o : Operands) (prev : Inst) :
    ∃ i, decodeInst prev (encode (fcvt p t) o) = .ok i ∧ i.type = fcvt p t ∧
      i.rd = o.rd ∧ i.rs1 = o.rs1 := by
  have hne : fcvt p t ≠ .ecall := by cases p <;> cases t <;> decide
  refine ⟨_, decodeInst_of_fixed (fixed_encode (fcvt p t) o) hne prev, rfl, ?_⟩
  exact fcvt_carries ((carries_withType _ _ _ _ _).mpr (carries_reader (format (fcvt p t)) o))

/-- What truncation and the nearest integer have in common, for a truncated value that fits. -/
theorem truncates_iff {t : IntType} {q : ℚ} (hfit : t.Fits (truncate q)) :
    (InInt64 (roundEven q) ∧ roundEven q % 2 ^ t.bits = truncate q % 2 ^ t.bits) ↔
      IsNearestEven q (truncate q) ∧ truncate q < 2 ^ 63 := by
  have hnear := abs_roundEven_sub_truncate_le q
  rw [abs_le] at hnear
  rw [← roundEven_eq_iff]
  constructor
  · rintro ⟨hin, hmod⟩
    have heq : roundEven q = truncate q := by
      cases t <;> simp only [IntType.bits] at hmod <;> omega
    exact ⟨heq, heq ▸ hin.2⟩
  · rintro ⟨heq, hlt⟩
    have hmin : -2 ^ 63 ≤ t.min := by cases t <;> decide
    rw [heq]
    exact ⟨⟨hmin.trans hfit.1, hlt⟩, rfl⟩

/-- **A conversion toward zero writes the truncated value exactly if that is the nearest integer
as well, and an `int64_t`.**  The word is decoded to a record that is executed, whatever the host
does where nothing is known of it. -/
theorem fcvt_rtz_iff (p : Precision) (t : IntType) (o : Operands) (prev : Inst) (s : State)
    {q : ℚ} (hq : datum (operand p (s.fp o.rs1)) = .finite q) (hfit : t.Fits (truncate q)) :
    ∃ i, decodeInst prev (encode (fcvt p t) { o with rm := rtz }) = .ok i ∧
      ((∀ fpu : HostFpu, fpu.RoundsEven →
          func fpu i.type s i = .ok (s.setGp o.rd (t.word (truncate q)), i)) ↔
        IsNearestEven q (truncate q) ∧ truncate q < 2 ^ 63) := by
  obtain ⟨i, hdec, htype, hrd, hrs1⟩ := decodeInst_fcvt p t { o with rm := rtz } prev
  refine ⟨i, hdec, ?_⟩
  rw [← truncates_iff hfit, htype, ← show i.rd = o.rd from hrd]
  rw [← show i.rs1 = o.rs1 from hrs1] at hq
  simp only [func_eq_handler, handler_fcvt_eq_iff]
  rw [llrintOf_emod_iff, hq]
  constructor
  · rintro ⟨_, ⟨⟩, h⟩
    exact h
  · exact fun h => ⟨q, rfl, h⟩

/-- `fcvt.w.d x10, f1, rtz` of 2.25. -/
theorem fcvt_rtz_iff_twoAndAQuarter :
    ∃ i, decodeInst {} (encode .fcvt_w_d { rd := 10, rs1 := 1, rm := rtz }) = .ok i ∧
      ((∀ fpu : HostFpu, fpu.RoundsEven → func fpu i.type (floating 0x4002000000000000) i =
          .ok ((floating 0x4002000000000000).setGp 10 (IntType.w.word (truncate (9 / 4 : ℚ))), i)) ↔
        IsNearestEven (9 / 4 : ℚ) (truncate (9 / 4 : ℚ)) ∧ truncate (9 / 4 : ℚ) < 2 ^ 63) :=
  fcvt_rtz_iff .double .w { rd := 10, rs1 := 1 } {} (floating 0x4002000000000000)
    (by decide +kernel) (by decide +kernel)

/-- The same instruction of 2.75 writes 3. -/
theorem fcvt_rtz_rounds :
    (nearestFpu 0).RoundsEven ∧
      datum (operand .double ((floating 0x4006000000000000).fp 1)) = .finite (11 / 4) ∧
      truncate (11 / 4 : ℚ) = 2 ∧
      (decodeInst {} (encode .fcvt_w_d { rd := 10, rs1 := 1, rm := rtz }) >>= fun i =>
        (func (nearestFpu 0) i.type (floating 0x4006000000000000) i).map fun r => r.1.gp 10) =
        .ok 3 :=
  ⟨nearestFpu_roundsEven 0, by decide +kernel, by decide +kernel, by decide +kernel⟩

end Rvemu
