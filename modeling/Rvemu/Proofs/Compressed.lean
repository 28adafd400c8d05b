/-
The compressed half of the decoder, against the specification's expansions.

A half word of a legal form decodes, whatever the upper half of the fetched word
is, to the record of the 32-bit instruction it stands for, marked as compressed.
The one field in which the two can differ is the immediate of a shift, of which
the handlers use the low six bits and of which those agree.  Conversely a word
outside quadrant 3 that decodes has a legal form in its lower half.

The layouts of the immediates are met one by one; what the decoder glues together
is what the specification gathers.
-/
import Rvemu.Proofs.Decode32

namespace Rvemu

open BitField Spec Spec.CForm

/-! ### The layouts, written out -/

theorem imm6_eq (c : BitVec 16) :
    imm6 c = (place (c.extractLsb' 12 1) 5 ||| place (c.extractLsb' 2 5) 0) := rfl

theorem addi4spnImm_eq (c : BitVec 16) :
    addi4spnImm c = (place (c.extractLsb' 11 2) 4 ||| (place (c.extractLsb' 7 4) 6 |||
      (place (c.extractLsb' 6 1) 2 ||| place (c.extractLsb' 5 1) 3))) := rfl

theorem wordOffset_eq (c : BitVec 16) :
    wordOffset c = (place (c.extractLsb' 10 3) 3 ||| (place (c.extractLsb' 6 1) 2 |||
      place (c.extractLsb' 5 1) 6)) := rfl

theorem doubleOffset_eq (c : BitVec 16) :
    doubleOffset c = (place (c.extractLsb' 10 3) 3 ||| place (c.extractLsb' 5 2) 6) := rfl

theorem lwspOffset_eq (c : BitVec 16) :
    lwspOffset c = (place (c.extractLsb' 12 1) 5 ||| (place (c.extractLsb' 4 3) 2 |||
      place (c.extractLsb' 2 2) 6)) := rfl

theorem ldspOffset_eq (c : BitVec 16) :
    ldspOffset c = (place (c.extractLsb' 12 1) 5 ||| (place (c.extractLsb' 5 2) 3 |||
      place (c.extractLsb' 2 3) 6)) := rfl

theorem swspOffset_eq (c : BitVec 16) :
    swspOffset c = (place (c.extractLsb' 9 4) 2 ||| place (c.extractLsb' 7 2) 6) := rfl

theorem sdspOffset_eq (c : BitVec 16) :
    sdspOffset c = (place (c.extractLsb' 10 3) 3 ||| place (c.extractLsb' 7 3) 6) := rfl

theorem addi16spImm_eq (c : BitVec 16) :
    addi16spImm c = (place (c.extractLsb' 12 1) 9 ||| (place (c.extractLsb' 6 1) 4 |||
      (place (c.extractLsb' 5 1) 6 ||| (place (c.extractLsb' 3 2) 7 |||
        place (c.extractLsb' 2 1) 5)))) := rfl

theorem luiImm_eq (c : BitVec 16) :
    luiImm c = (place (c.extractLsb' 12 1) 5 ||| place (c.extractLsb' 2 5) 0) := rfl

theorem jOffset_eq (c : BitVec 16) :
    jOffset c = (place (c.extractLsb' 12 1) 10 ||| (place (c.extractLsb' 11 1) 3 |||
      (place (c.extractLsb' 9 2) 7 ||| (place (c.extractLsb' 8 1) 9 |||
        (place (c.extractLsb' 7 1) 5 ||| (place (c.extractLsb' 6 1) 6 |||
          (place (c.extractLsb' 3 3) 0 ||| place (c.extractLsb' 2 1) 4))))))) := rfl

theorem bOffset_eq (c : BitVec 16) :
    bOffset c = (place (c.extractLsb' 12 1) 7 ||| (place (c.extractLsb' 10 2) 2 |||
      (place (c.extractLsb' 5 2) 5 ||| (place (c.extractLsb' 3 2) 0 |||
        place (c.extractLsb' 2 1) 4)))) := rfl

/-! ### The immediates the compressed readers find -/

/-- The reader's side: the pieces, placed in a 32-bit word. -/
theorem place_def {n : Nat} (x : BitVec n) (k : Nat) :
    x.setWidth 32 <<< k = (place x k : BitVec 32) := rfl

theorem citype_imm (c : BitVec 16) : (instCitypeRead c).imm = (imm6 c).signExtend 32 := by
  have h := place_up_down (w := 32) (imm6 c) 0 26 (by decide) (by decide)
  rw [BitVec.shiftLeft_zero] at h
  rw [← h]
  simp (disch := decide) only [instCitypeRead, field_masks, extract_setWidth, imm6_eq, place_or,
    place_place, place_def, Nat.reduceAdd]
  rw [place_zero]

theorem cbtype2_imm (c : BitVec 16) : (instCbtypeRead2 c).imm = (imm6 c).signExtend 32 :=
  citype_imm c

theorem citype2_imm (c : BitVec 16) :
    (instCitypeRead2 c).imm = (ldspOffset c).signExtend 32 := by
  simp (disch := decide) only [instCitypeRead2, field_masks, extract_setWidth, ldspOffset_eq,
    BitVec.signExtend_or, signExtend_place, place_def]
  ac_rfl

theorem citype3_imm (c : BitVec 16) :
    (instCitypeRead3 c).imm = (addi16spImm c).signExtend 32 := by
  have h := place_up_down (w := 32) (addi16spImm c) 0 22 (by decide) (by decide)
  rw [BitVec.shiftLeft_zero] at h
  rw [← h]
  simp (disch := decide) only [instCitypeRead3, field_masks, extract_setWidth, addi16spImm_eq,
    place_or, place_place, place_def, Nat.reduceAdd]
  ac_rfl

theorem citype4_imm (c : BitVec 16) :
    (instCitypeRead4 c).imm = (lwspOffset c).signExtend 32 := by
  simp (disch := decide) only [instCitypeRead4, field_masks, extract_setWidth, lwspOffset_eq,
    BitVec.signExtend_or, signExtend_place, place_def]
  ac_rfl

theorem citype5_imm (c : BitVec 16) :
    (instCitypeRead5 c).imm = (luiImm c).signExtend 32 <<< 12 := by
  rw [← place_up_down (w := 32) (luiImm c) 12 14 (by decide) (by decide)]
  simp (disch := decide) only [instCitypeRead5, field_masks, extract_setWidth, luiImm_eq,
    place_or, place_place, place_def, Nat.reduceAdd]
  rw [BitVec.or_comm]

theorem cbtype_imm (c : BitVec 16) :
    (instCbtypeRead c).imm = (bOffset c).signExtend 32 <<< 1 := by
  rw [← place_up_down (w := 32) (bOffset c) 1 23 (by decide) (by decide)]
  simp (disch := decide) only [instCbtypeRead, field_masks, extract_setWidth, bOffset_eq,
    place_or, place_place, place_def, Nat.reduceAdd]
  ac_rfl

theorem cjtype_imm (c : BitVec 16) :
    (instCjtypeRead c).imm = (jOffset c).signExtend 32 <<< 1 := by
  rw [← place_up_down (w := 32) (jOffset c) 1 20 (by decide) (by decide)]
  simp (disch := decide) only [instCjtypeRead, field_masks, extract_setWidth, jOffset_eq,
    place_or, place_place, place_def, Nat.reduceAdd]
  ac_rfl

theorem cstype_imm (c : BitVec 16) :
    (instCstypeRead c).imm = (doubleOffset c).signExtend 32 := by
  simp (disch := decide) only [instCstypeRead, field_masks, extract_setWidth, doubleOffset_eq,
    BitVec.signExtend_or, signExtend_place, place_def]
  ac_rfl

theorem cstype2_imm (c : BitVec 16) :
    (instCstypeRead2 c).imm = (wordOffset c).signExtend 32 := by
  simp (disch := decide) only [instCstypeRead2, field_masks, extract_setWidth, wordOffset_eq,
    BitVec.signExtend_or, signExtend_place, place_def]
  ac_rfl

theorem cltype_imm (c : BitVec 16) : (instCltypeRead c).imm = (wordOffset c).signExtend 32 :=
  cstype2_imm c

theorem cltype2_imm (c : BitVec 16) : (instCltypeRead2 c).imm = (doubleOffset c).signExtend 32 :=
  cstype_imm c

theorem csstype_imm (c : BitVec 16) :
    (instCsstypeRead c).imm = (sdspOffset c).signExtend 32 := by
  simp (disch := decide) only [instCsstypeRead, field_masks, extract_setWidth, sdspOffset_eq,
    BitVec.signExtend_or, signExtend_place, place_def]
  ac_rfl

theorem csstype2_imm (c : BitVec 16) :
    (instCsstypeRead2 c).imm = (swspOffset c).signExtend 32 := by
  simp (disch := decide) only [instCsstypeRead2, field_masks, extract_setWidth, swspOffset_eq,
    BitVec.signExtend_or, signExtend_place, place_def]
  ac_rfl

theorem ciwtype_imm (c : BitVec 16) :
    (instCiwtypeRead c).imm = (addi4spnImm c).signExtend 32 := by
  simp (disch := decide) only [instCiwtypeRead, field_masks, extract_setWidth, addi4spnImm_eq,
    BitVec.signExtend_or, signExtend_place, place_def]
  ac_rfl

/-! ### The records the compressed readers make -/

theorem catype_eq (c : BitVec 16) : instCatypeRead c =
    { rd := creg (c.extractLsb' 7 3), rs2 := creg (c.extractLsb' 2 3), rvc := true } := by
  rw [← regNo_rp1, ← regNo_rp2]
  rfl

theorem crtype_eq (c : BitVec 16) : instCrtypeRead c =
    { rs1 := c.extractLsb' 7 5, rs2 := c.extractLsb' 2 5, rvc := true } := by
  rw [← regNo_rc1, ← regNo_rc2]
  rfl

theorem citype_eq (c : BitVec 16) : instCitypeRead c =
    { rd := c.extractLsb' 7 5, imm := (imm6 c).signExtend 32, rvc := true } := by
  rw [← citype_imm, ← regNo_rc1]
  rfl

theorem citype2_eq (c : BitVec 16) : instCitypeRead2 c =
    { rd := c.extractLsb' 7 5, imm := (ldspOffset c).signExtend 32, rvc := true } := by
  rw [← citype2_imm, ← regNo_rc1]
  rfl

theorem citype3_eq (c : BitVec 16) : instCitypeRead3 c =
    { rd := c.extractLsb' 7 5, imm := (addi16spImm c).signExtend 32, rvc := true } := by
  rw [← citype3_imm, ← regNo_rc1]
  rfl

theorem citype4_eq (c : BitVec 16) : instCitypeRead4 c =
    { rd := c.extractLsb' 7 5, imm := (lwspOffset c).signExtend 32, rvc := true } := by
  rw [← citype4_imm, ← regNo_rc1]
  rfl

theorem citype5_eq (c : BitVec 16) : instCitypeRead5 c =
    { rd := c.extractLsb' 7 5, imm := (luiImm c).signExtend 32 <<< 12, rvc := true } := by
  rw [← citype5_imm, ← regNo_rc1]
  rfl

theorem cbtype_eq (c : BitVec 16) : instCbtypeRead c =
    { rs1 := creg (c.extractLsb' 7 3), imm := (bOffset c).signExtend 32 <<< 1, rvc := true } := by
  rw [← cbtype_imm, ← regNo_rp1]
  rfl

theorem cbtype2_eq (c : BitVec 16) : instCbtypeRead2 c =
    { rd := creg (c.extractLsb' 7 3), imm := (imm6 c).signExtend 32, rvc := true } := by
  rw [← cbtype2_imm, ← regNo_rp1]
  rfl

theorem cstype_eq (c : BitVec 16) : instCstypeRead c =
    { rs1 := creg (c.extractLsb' 7 3), rs2 := creg (c.extractLsb' 2 3),
      imm := (doubleOffset c).signExtend 32, rvc := true } := by
  rw [← cstype_imm, ← regNo_rp1, ← regNo_rp2]
  rfl

theorem cstype2_eq (c : BitVec 16) : instCstypeRead2 c =
    { rs1 := creg (c.extractLsb' 7 3), rs2 := creg (c.extractLsb' 2 3),
      imm := (wordOffset c).signExtend 32, rvc := true } := by
  rw [← cstype2_imm, ← regNo_rp1, ← regNo_rp2]
  rfl

theorem cjtype_eq (c : BitVec 16) : instCjtypeRead c =
    { imm := (jOffset c).signExtend 32 <<< 1, rvc := true } := by
  rw [← cjtype_imm]
  rfl

theorem cltype_eq (c : BitVec 16) : instCltypeRead c =
    { rd := creg (c.extractLsb' 2 3), rs1 := creg (c.extractLsb' 7 3),
      imm := (wordOffset c).signExtend 32, rvc := true } := by
  rw [← cltype_imm, ← regNo_rp1, ← regNo_rp2]
  rfl

theorem cltype2_eq (c : BitVec 16) : instCltypeRead2 c =
    { rd := creg (c.extractLsb' 2 3), rs1 := creg (c.extractLsb' 7 3),
      imm := (doubleOffset c).signExtend 32, rvc := true } := by
  rw [← cltype2_imm, ← regNo_rp1, ← regNo_rp2]
  rfl

theorem csstype_eq (c : BitVec 16) : instCsstypeRead c =
    { rs2 := c.extractLsb' 2 5, imm := (sdspOffset c).signExtend 32, rvc := true } := by
  rw [← csstype_imm, ← regNo_rc2]
  rfl

theorem csstype2_eq (c : BitVec 16) : instCsstypeRead2 c =
    { rs2 := c.extractLsb' 2 5, imm := (swspOffset c).signExtend 32, rvc := true } := by
  rw [← csstype2_imm, ← regNo_rc2]
  rfl

theorem ciwtype_eq (c : BitVec 16) : instCiwtypeRead c =
    { rd := creg (c.extractLsb' 2 3), imm := (addi4spnImm c).signExtend 32, rvc := true } := by
  rw [← ciwtype_imm, ← regNo_rp2]
  rfl

/-! ### The record of the instruction a form stands for -/

/-- The record of an instruction with the given operands, by format: only the fields
the format has are set.  The formats that no compressed form expands to are left out. -/
def record : Format → Operands → Inst
  | .r .., o => { rd := o.rd, rs1 := o.rs1, rs2 := o.rs2 }
  | .shift op f3 f6, o =>
      { rd := o.rd, rs1 := o.rs1,
        imm := (instItypeRead ((Format.shift op f3 f6).assemble o)).imm }
  | .i .., o => { rd := o.rd, rs1 := o.rs1, imm := o.imm12.signExtend 32 }
  | .s .., o => { rs1 := o.rs1, rs2 := o.rs2, imm := o.imm12.signExtend 32 }
  | .b .., o => { rs1 := o.rs1, rs2 := o.rs2, imm := o.imm12.signExtend 32 <<< 1 }
  | .u .., o => { rd := o.rd, imm := o.imm20.setWidth 32 <<< 12 }
  | .j .., o => { rd := o.rd, imm := o.imm20.signExtend 32 <<< 1 }
  | f, o => reader f (f.assemble o)

theorem reader_assemble (f : Format) (o : Operands) : reader f (f.assemble o) = record f o := by
  have h := carries_reader f o
  cases f with
  | r op f3 f7 =>
      obtain ⟨h1, h2, h3⟩ := h
      rw [record, ← h1, ← h2, ← h3]
      rfl
  | shift op f3 f6 =>
      rw [record]
      generalize (Format.shift op f3 f6).assemble o = w at h ⊢
      obtain ⟨h1, h2, -⟩ := h
      rw [← h1, ← h2]
      rfl
  | i op f3 =>
      obtain ⟨h1, h2, h3⟩ := h
      rw [record, ← h1, ← h2, ← h3]
      rfl
  | s op f3 =>
      obtain ⟨h1, h2, h3⟩ := h
      rw [record, ← h1, ← h2, ← h3]
      rfl
  | b op f3 =>
      obtain ⟨h1, h2, h3⟩ := h
      rw [record, ← h1, ← h2, ← h3]
      rfl
  | u op =>
      obtain ⟨h1, h2⟩ := h
      rw [record, ← h1, ← h2]
      rfl
  | j op =>
      obtain ⟨h1, h2⟩ := h
      rw [record, ← h1, ← h2]
      rfl
  | _ => rfl

theorem decoded_encode (t : InstType) (o : Operands) :
    decoded t (encode t o) =
      { record (format t) o with type := t, continueExec := t.isJump } := by
  rw [decoded, encode, reader_assemble]

/-! ### Legal forms -/

/-- The record a half word of form `f` decodes to. -/
def cdecoded (f : CForm) (c : BitVec 16) : Inst :=
  match f with
  -- the six bits are sign extended here, where the expansion has zeros and its funct6
  | .slli | .srli | .srai =>
      { decoded (f.expand c).1 (f.expansion c) with
        imm := (imm6 c).signExtend 32, rvc := true }
  | _ => { decoded (f.expand c).1 (f.expansion c) with rvc := true }

/-- The scaled constant of `c.lui` in the two ways it is extended. -/
theorem lui_imm (x : BitVec 6) :
    (x.signExtend 20).setWidth 32 <<< 12 = x.signExtend 32 <<< 12 := by
  revert x
  decide

theorem addi4spnImm_eq_zero_iff (c : BitVec 16) :
    (addi4spnImm c).signExtend 32 = 0#32 ↔ c.extractLsb' 5 8 = 0 := by
  have h := signExtend_shift_eq_zero_iff (w := 32) (addi4spnImm c) 0 (by decide)
  rw [BitVec.shiftLeft_zero] at h
  rw [h, addi4spnImm_eq, extract_eq_zero_iff c 5 6 2, extract_eq_zero_iff c 5 2 4,
    extract_eq_zero_iff c 5 1 1]
  simp (disch := decide) only [BitVec.or_eq_zero_iff, place_eq_zero_iff]
  rfl

theorem addi16spImm_eq_zero_iff (c : BitVec 16) :
    (addi16spImm c).signExtend 32 = 0#32 ↔ ¬NonzeroImm c := by
  have h := signExtend_shift_eq_zero_iff (w := 32) (addi16spImm c) 0 (by decide)
  rw [BitVec.shiftLeft_zero] at h
  rw [h, addi16spImm_eq, NonzeroImm, not_not, extract_eq_zero_iff c 2 4 1,
    extract_eq_zero_iff c 2 3 1, extract_eq_zero_iff c 2 1 2]
  simp (disch := decide) only [BitVec.or_eq_zero_iff, place_eq_zero_iff]
  tauto

theorem luiImm_eq_zero_iff (c : BitVec 16) :
    (luiImm c).signExtend 32 <<< 12 = 0#32 ↔ ¬NonzeroImm c := by
  rw [signExtend_shift_eq_zero_iff _ _ (by decide), luiImm_eq, NonzeroImm, not_not]
  simp (disch := decide) only [BitVec.or_eq_zero_iff, place_eq_zero_iff]
  rfl

/-- `c.addi16sp` and `c.lui` are told apart by the destination. -/
theorem rc1_eq_two_iff (w : BitVec 32) : rc1 w = 2#32 ↔ (w.setWidth 16).extractLsb' 7 5 = 2 := by
  rw [rc1_eq]
  constructor
  · intro h
    exact eq_of_setWidth (by decide) (congrArg BitVec.toNat h)
  · intro h
    rw [h]
    rfl

/-- A half word of a legal form decodes to the record of what it stands for. -/
theorem decodeInst_of_legal {f : CForm} {c : BitVec 16} (h : f.Legal c) {w : BitVec 32}
    (hw : w.setWidth 16 = c) (prev : Inst) : decodeInst prev w = .ok (cdecoded f c) := by
  cases f <;> simp only [Legal, Major, Arith] at h
  case addi4spn =>
    have himm : ((addi4spnImm c).signExtend 32 != 0#32) = true :=
      bne_iff_ne.mpr fun hz => h.2 ((addi4spnImm_eq_zero_iff c).mp hz)
    simp [decodeInst, quadrant_half, decodeQuadrant0, copcode_toNat, hw, h, ciwtype_eq, himm,
      assertThat_true, ok_bind, cdecoded, expansion, decoded_encode, expand, format, record,
      InstType.isJump, Reg.sp]
  case addi16sp =>
    have himm : ((addi16spImm c).signExtend 32 != 0#32) = true :=
      bne_iff_ne.mpr fun hz => (addi16spImm_eq_zero_iff c).mp hz h.2.2
    simp [decodeInst, quadrant_half, decodeQuadrant1, copcode_toNat, rc1_eq_two_iff, hw, h,
      citype3_eq, himm, assertThat_true, ok_bind, cdecoded, expansion, decoded_encode, expand,
      format, record, signExtend_signExtend, InstType.isJump]
  case lui =>
    have hsp : ¬c.extractLsb' 7 5 = 2#5 := h.2.1
    have himm : ((luiImm c).signExtend 32 <<< 12 != 0#32) = true :=
      bne_iff_ne.mpr fun hz => (luiImm_eq_zero_iff c).mp hz h.2.2
    simp [decodeInst, quadrant_half, decodeQuadrant1, copcode_toNat, rc1_eq_two_iff, hw, h, hsp,
      citype5_eq, himm, assertThat_true, ok_bind, cdecoded, expansion, decoded_encode, expand,
      format, record, lui_imm, InstType.isJump]
  case addiw | lwsp | ldsp =>
    have hrd : (c.extractLsb' 7 5 != 0#5) = true := bne_iff_ne.mpr h.2
    simp (disch := decide) [decodeInst, quadrant_half, decodeQuadrant1, decodeQuadrant2,
      copcode_toNat, hw, h, hrd, citype_eq, citype2_eq, citype4_eq, assertThat_true, ok_bind,
      cdecoded, expansion, decoded_encode, expand, format, record, ciOperands, spLoadOperands,
      signExtend_signExtend, InstType.isJump, Reg.sp]
  case jr =>
    have hrs1 : (c.extractLsb' 7 5 != 0#5) = true := bne_iff_ne.mpr h.2.2.1
    simp [decodeInst, quadrant_half, decodeQuadrant2, decodeCJump, copcode_toNat, cfunct1_toNat,
      hw, h, hrs1, crtype_eq, assertThat_true, ok_bind, cdecoded, expansion, decoded_encode,
      expand, format, record, InstType.isJump, Reg.zero]
  case mv | add =>
    have hrs2 : ¬c.extractLsb' 2 5 = 0#5 := h.2.2
    simp [decodeInst, quadrant_half, decodeQuadrant2, decodeCJump, copcode_toNat, cfunct1_toNat,
      hw, h, hrs2, crtype_eq, cdecoded, expansion, decoded_encode, expand, format, record,
      ciOperands, InstType.isJump, Reg.zero]
  case jalr =>
    have hrs1 : ¬c.extractLsb' 7 5 = 0#5 := h.2.2.1
    simp [decodeInst, quadrant_half, decodeQuadrant2, decodeCJump, copcode_toNat, cfunct1_toNat,
      hw, h, hrs1, crtype_eq, cdecoded, expansion, decoded_encode, expand, format, record,
      InstType.isJump, Reg.ra]
  all_goals
    simp (disch := decide) [decodeInst, quadrant_half, decodeQuadrant0, decodeQuadrant1,
      decodeQuadrant2, copcode_toNat, decodeCAlu, cfunct1_toNat, cfunct2high_toNat,
      cfunct2low_toNat, hw, h, catype_eq, citype_eq, citype2_eq, cbtype_eq, cbtype2_eq,
      cstype_eq, cstype2_eq, cjtype_eq, cltype_eq, cltype2_eq, csstype_eq, csstype2_eq, cdecoded,
      expansion, decoded_encode, expand, format, record, loadOperands, storeOperands,
      spLoadOperands, spStoreOperands, branchOperands, arithOperands, immOperands, ciOperands,
      signExtend_signExtend, InstType.isJump, Reg.sp, Reg.zero]

/-! ### Words of quadrants 0, 1 and 2 that decode -/

/-- The lower half of `w` is a legal form that stands for an instruction of type `t`. -/
def HoldsForm (w : BitVec 32) (t : InstType) : Prop :=
  ∃ f : CForm, f.Legal (w.setWidth 16) ∧ (f.expand (w.setWidth 16)).1 = t

/-- A field of the word that has a value has it in the lower half. -/
theorem half_of {w field : BitVec 32} {pos n k : Nat}
    (hfield : field.toNat = ((w.setWidth 16).extractLsb' pos n).toNat) (h : field.toNat = k) :
    (w.setWidth 16).extractLsb' pos n = BitVec.ofNat n k := by
  apply BitVec.eq_of_toNat_eq
  rw [BitVec.toNat_ofNat, ← h, hfield, Nat.mod_eq_of_lt (BitVec.isLt _)]

theorem major_of {w : BitVec 32} {q k : Nat} (hq : (quadrant w).toNat = q)
    (hc : (copcode w).toNat = k) :
    Major (BitVec.ofNat 2 q) (BitVec.ofNat 3 k) (w.setWidth 16) :=
  ⟨half_of (quadrant_half w) hq, half_of (copcode_toNat w) hc⟩

theorem decodeQuadrant0_inv {w : BitVec 32} {i : Inst} (hq : (quadrant w).toNat = 0)
    (h : decodeQuadrant0 w = .ok i) : HoldsForm w i.type := by
  unfold decodeQuadrant0 at h
  split at h
  case h_1 hc =>
    obtain ⟨himm, h⟩ := assertThat_inv h
    cases h
    refine ⟨.addi4spn, ⟨major_of hq hc, fun hz => ?_⟩, rfl⟩
    have hne := bne_iff_ne.mp himm
    rw [ciwtype_eq] at hne
    exact hne ((addi4spnImm_eq_zero_iff _).mpr hz)
  case h_2 hc => cases h; exact ⟨.fld, major_of hq hc, rfl⟩
  case h_3 hc => cases h; exact ⟨.lw, major_of hq hc, rfl⟩
  case h_4 hc => cases h; exact ⟨.ld, major_of hq hc, rfl⟩
  case h_5 hc => cases h; exact ⟨.fsd, major_of hq hc, rfl⟩
  case h_6 hc => cases h; exact ⟨.sw, major_of hq hc, rfl⟩
  case h_7 hc => cases h; exact ⟨.sd, major_of hq hc, rfl⟩
  case h_8 => cases h

theorem decodeCAlu_inv {w : BitVec 32} {i : Inst} (hm : Major 0b01 0b100 (w.setWidth 16))
    (h : decodeCAlu w = .ok i) : HoldsForm w i.type := by
  unfold decodeCAlu at h
  split at h
  case h_1 h2 => cases h; exact ⟨.srli, ⟨hm, half_of (cfunct2high_toNat w) h2⟩, rfl⟩
  case h_2 h2 => cases h; exact ⟨.srai, ⟨hm, half_of (cfunct2high_toNat w) h2⟩, rfl⟩
  case h_3 h2 => cases h; exact ⟨.andi, ⟨hm, half_of (cfunct2high_toNat w) h2⟩, rfl⟩
  case h_4 h2 =>
    have hh := half_of (cfunct2high_toNat w) h2
    have hlow {k : Nat} (hl : (cfunct2low w).toNat = k) := half_of (cfunct2low_toNat w) hl
    split at h
    case h_1 h1 =>
      have hb := half_of (cfunct1_toNat w) h1
      split at h
      case h_1 hl => cases h; exact ⟨.sub, ⟨hm, hh, hb, hlow hl⟩, rfl⟩
      case h_2 hl => cases h; exact ⟨.xor, ⟨hm, hh, hb, hlow hl⟩, rfl⟩
      case h_3 hl => cases h; exact ⟨.or, ⟨hm, hh, hb, hlow hl⟩, rfl⟩
      case h_4 hl => cases h; exact ⟨.and, ⟨hm, hh, hb, hlow hl⟩, rfl⟩
      case h_5 => cases h
    case h_2 h1 =>
      have hb := half_of (cfunct1_toNat w) h1
      split at h
      case h_1 hl => cases h; exact ⟨.subw, ⟨hm, hh, hb, hlow hl⟩, rfl⟩
      case h_2 hl => cases h; exact ⟨.addw, ⟨hm, hh, hb, hlow hl⟩, rfl⟩
      case h_3 => cases h
    case h_3 => cases h
  case h_5 => cases h

/-- What the assertion on the destination says. -/
theorem citype_rd_ne {c : BitVec 16} (h : ((instCitypeRead c).rd != 0) = true) :
    c.extractLsb' 7 5 ≠ 0 := by
  rw [citype_eq] at h
  exact bne_iff_ne.mp h

theorem decodeQuadrant1_inv {w : BitVec 32} {i : Inst} (hq : (quadrant w).toNat = 1)
    (h : decodeQuadrant1 w = .ok i) : HoldsForm w i.type := by
  unfold decodeQuadrant1 at h
  split at h
  case h_1 hc => cases h; exact ⟨.addi, major_of hq hc, rfl⟩
  case h_2 hc =>
    obtain ⟨hrd, h⟩ := assertThat_inv h
    cases h
    exact ⟨.addiw, ⟨major_of hq hc, citype_rd_ne hrd⟩, rfl⟩
  case h_3 hc => cases h; exact ⟨.li, major_of hq hc, rfl⟩
  case h_4 hc =>
    have hm : Major 0b01 0b011 (w.setWidth 16) := major_of hq hc
    split at h
    next h2 =>
      obtain ⟨himm, h⟩ := assertThat_inv h
      cases h
      have hne := bne_iff_ne.mp himm
      rw [citype3_eq] at hne
      exact ⟨.addi16sp, ⟨hm, (rc1_eq_two_iff w).mp h2,
        not_not.mp fun hz => hne ((addi16spImm_eq_zero_iff _).mpr hz)⟩, rfl⟩
    next h2 =>
      obtain ⟨himm, h⟩ := assertThat_inv h
      cases h
      have hne := bne_iff_ne.mp himm
      rw [citype5_eq] at hne
      exact ⟨.lui, ⟨hm, fun hsp => h2 ((rc1_eq_two_iff w).mpr hsp),
        not_not.mp fun hz => hne ((luiImm_eq_zero_iff _).mpr hz)⟩, rfl⟩
  case h_5 hc => exact decodeCAlu_inv (major_of hq hc) h
  case h_6 hc => cases h; exact ⟨.j, major_of hq hc, rfl⟩
  case h_7 hc => cases h; exact ⟨.beqz, major_of hq hc, rfl⟩
  case h_8 hc => cases h; exact ⟨.bnez, major_of hq hc, rfl⟩
  case h_9 => cases h

theorem decodeCJump_inv {w : BitVec 32} {i : Inst} (hm : Major 0b10 0b100 (w.setWidth 16))
    (h : decodeCJump w = .ok i) : HoldsForm w i.type := by
  simp only [decodeCJump, crtype_eq] at h
  split at h
  case h_1 h1 =>
    have hb := half_of (cfunct1_toNat w) h1
    split at h
    next h2 =>
      obtain ⟨hrs1, h⟩ := assertThat_inv h
      cases h
      exact ⟨.jr, ⟨hm, hb, bne_iff_ne.mp hrs1, h2⟩, rfl⟩
    next h2 =>
      cases h
      exact ⟨.mv, ⟨hm, hb, h2⟩, rfl⟩
  case h_2 h1 =>
    have hb := half_of (cfunct1_toNat w) h1
    split at h
    next => cases h
    next hboth =>
      split at h
      next h2 =>
        cases h
        exact ⟨.jalr, ⟨hm, hb, fun hrs1 => hboth ⟨hrs1, h2⟩, h2⟩, rfl⟩
      next h2 =>
        cases h
        exact ⟨.add, ⟨hm, hb, h2⟩, rfl⟩
  case h_3 => cases h

theorem decodeQuadrant2_inv {w : BitVec 32} {i : Inst} (hq : (quadrant w).toNat = 2)
    (h : decodeQuadrant2 w = .ok i) : HoldsForm w i.type := by
  unfold decodeQuadrant2 at h
  split at h
  case h_1 hc => cases h; exact ⟨.slli, major_of hq hc, rfl⟩
  case h_2 hc => cases h; exact ⟨.fldsp, major_of hq hc, rfl⟩
  case h_3 hc =>
    obtain ⟨hrd, h⟩ := assertThat_inv h
    cases h
    rw [citype4_eq] at hrd
    exact ⟨.lwsp, ⟨major_of hq hc, bne_iff_ne.mp hrd⟩, rfl⟩
  case h_4 hc =>
    obtain ⟨hrd, h⟩ := assertThat_inv h
    cases h
    rw [citype2_eq] at hrd
    exact ⟨.ldsp, ⟨major_of hq hc, bne_iff_ne.mp hrd⟩, rfl⟩
  case h_5 hc => exact decodeCJump_inv (major_of hq hc) h
  case h_6 hc => cases h; exact ⟨.fsdsp, major_of hq hc, rfl⟩
  case h_7 hc => cases h; exact ⟨.swsp, major_of hq hc, rfl⟩
  case h_8 hc => cases h; exact ⟨.sdsp, major_of hq hc, rfl⟩
  case h_9 => cases h

end Rvemu
