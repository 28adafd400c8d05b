/-
The 32-bit half of the decoder, against the specification's table.

Everything known about decoding a 32-bit word is one equation and its converse.  A
word with the fixed fields of instruction `t` decodes to `decoded t`: the record
read by the reader of `t`'s format, with the type set.  Conversely a word that
decodes has the fixed fields of the type it decodes to, except that nothing looks
at the `funct3` field of `jalr`.

What a reader makes of the operands is proved format by format, so an instruction
contributes nothing but its row in the two tables.
-/
import Rvemu.Spec.Encoding
import Rvemu.Proofs.Fields

namespace Rvemu

open BitField Spec

/-- The reader `decode_inst` uses for a format; the fences use none. -/
def reader : Format → BitVec 32 → Inst
  | .r .. | .rRm .. | .rUnary .. | .rUnaryRm .. => instRtypeRead
  | .r4 .. => instFprtypeRead
  | .i .. | .shift .. | .shiftW .. => instItypeRead
  | .s .. => instStypeRead
  | .b .. => instBtypeRead
  | .u .. => instUtypeRead
  | .j .. => instJtypeRead
  | .csr .. => instCsrtypeRead
  | .fence .. | .word _ => fun _ => {}

/-- The two unconditional jumps. -/
def InstType.isJump (t : InstType) : Bool := t == .jal || t == .jalr

/-- The record for a 32-bit word that encodes instruction `t`. -/
def decoded (t : InstType) (w : BitVec 32) : Inst :=
  { reader (format t) w with type := t, continueExec := t.isJump }

@[simp] theorem decoded_type (t : InstType) (w : BitVec 32) : (decoded t w).type = t := rfl

@[simp] theorem decoded_continueExec (t : InstType) (w : BitVec 32) :
    (decoded t w).continueExec = t.isJump := rfl

theorem reader_rvc (f : Format) (w : BitVec 32) : (reader f w).rvc = false := by
  cases f <;> rfl

@[simp] theorem decoded_rvc (t : InstType) (w : BitVec 32) : (decoded t w).rvc = false :=
  reader_rvc _ _

/-! ### The operands a reader finds -/

/-- The record holds the operands that the format has. -/
def CarriesOperands : Format → Operands → Inst → Prop
  | .r .., o, i => i.rd = o.rd ∧ i.rs1 = o.rs1 ∧ i.rs2 = o.rs2
  | .rRm .., o, i => i.rd = o.rd ∧ i.rs1 = o.rs1 ∧ i.rs2 = o.rs2
  | .rUnary .., o, i => i.rd = o.rd ∧ i.rs1 = o.rs1
  | .rUnaryRm .., o, i => i.rd = o.rd ∧ i.rs1 = o.rs1
  | .r4 .., o, i => i.rd = o.rd ∧ i.rs1 = o.rs1 ∧ i.rs2 = o.rs2 ∧ i.rs3 = o.rs3
  | .i .., o, i => i.rd = o.rd ∧ i.rs1 = o.rs1 ∧ i.imm = o.imm12.signExtend 32
  | .shift .., o, i => i.rd = o.rd ∧ i.rs1 = o.rs1 ∧ i.imm.extractLsb' 0 6 = o.shamt
  | .shiftW .., o, i =>
      i.rd = o.rd ∧ i.rs1 = o.rs1 ∧ i.imm.extractLsb' 0 5 = o.shamt.extractLsb' 0 5
  | .s .., o, i => i.rs1 = o.rs1 ∧ i.rs2 = o.rs2 ∧ i.imm = o.imm12.signExtend 32
  | .b .., o, i => i.rs1 = o.rs1 ∧ i.rs2 = o.rs2 ∧ i.imm = o.imm12.signExtend 32 <<< 1
  | .u .., o, i => i.rd = o.rd ∧ i.imm = o.imm20.setWidth 32 <<< 12
  | .j .., o, i => i.rd = o.rd ∧ i.imm = o.imm20.signExtend 32 <<< 1
  | .csr .., o, i => i.rd = o.rd ∧ i.rs1 = o.rs1 ∧ i.csr = o.csr.setWidth 16
  | .fence .., _, i => i.rd = 0 ∧ i.rs1 = 0 ∧ i.rs2 = 0 ∧ i.imm = 0
  | .word _, _, _ => True

/-- The operands do not depend on the type and on how the block goes on. -/
theorem carries_withType (f : Format) (o : Operands) (i : Inst) (t : InstType) (c : Bool) :
    CarriesOperands f o { i with type := t, continueExec := c } ↔ CarriesOperands f o i := by
  cases f <;> rfl

theorem rtype_regs (w : BitVec 32) :
    (instRtypeRead w).rd = w.extractLsb' 7 5 ∧ (instRtypeRead w).rs1 = w.extractLsb' 15 5 ∧
      (instRtypeRead w).rs2 = w.extractLsb' 20 5 := by
  simp [instRtypeRead]

theorem fprtype_regs (w : BitVec 32) :
    (instFprtypeRead w).rd = w.extractLsb' 7 5 ∧ (instFprtypeRead w).rs1 = w.extractLsb' 15 5 ∧
      (instFprtypeRead w).rs2 = w.extractLsb' 20 5 ∧ (instFprtypeRead w).rs3 = w.extractLsb' 27 5 := by
  simp [instFprtypeRead]

theorem itype_regs (w : BitVec 32) :
    (instItypeRead w).rd = w.extractLsb' 7 5 ∧ (instItypeRead w).rs1 = w.extractLsb' 15 5 := by
  simp [instItypeRead]

theorem stype_regs (w : BitVec 32) :
    (instStypeRead w).rs1 = w.extractLsb' 15 5 ∧ (instStypeRead w).rs2 = w.extractLsb' 20 5 := by
  simp [instStypeRead]

theorem btype_regs (w : BitVec 32) :
    (instBtypeRead w).rs1 = w.extractLsb' 15 5 ∧ (instBtypeRead w).rs2 = w.extractLsb' 20 5 := by
  simp [instBtypeRead]

theorem utype_regs (w : BitVec 32) : (instUtypeRead w).rd = w.extractLsb' 7 5 := by
  simp [instUtypeRead]

theorem jtype_regs (w : BitVec 32) : (instJtypeRead w).rd = w.extractLsb' 7 5 := by
  simp [instJtypeRead]

theorem csrtype_regs (w : BitVec 32) :
    (instCsrtypeRead w).rd = w.extractLsb' 7 5 ∧ (instCsrtypeRead w).rs1 = w.extractLsb' 15 5 := by
  simp [instCsrtypeRead]

theorem itype_imm (w : BitVec 32) :
    (instItypeRead w).imm = (w.extractLsb' 20 12).signExtend 32 :=
  sshiftRight_eq w 20 (by decide)

theorem utype_imm (w : BitVec 32) :
    (instUtypeRead w).imm = place (w.extractLsb' 12 20) 12 := by
  apply BitVec.eq_of_getLsbD_eq
  intro i hi
  simp only [instUtypeRead, BitVec.getLsbD_and, getLsbD_place, BitVec.getLsbD_extractLsb', hi,
    decide_true, Bool.true_and]
  have hmask : (0xfffff000 : BitVec 32).getLsbD i = decide (12 ≤ i) := by
    interval_cases i <;> rfl
  rw [hmask]
  by_cases h : 12 ≤ i
  · simp [h, show i - 12 < 20 by omega, show 12 + (i - 12) = i by omega]
  · simp [h]

theorem stype_imm (w : BitVec 32) :
    (instStypeRead w).imm =
      ((place (w.extractLsb' 25 7) 5 ||| place (w.extractLsb' 7 5) 0) <<< 20).sshiftRight 20 := by
  simp only [instStypeRead, field_masks, place, BitVec.shiftLeft_zero]

theorem btype_imm (w : BitVec 32) :
    (instBtypeRead w).imm =
      ((place (w.extractLsb' 31 1) 12 ||| place (w.extractLsb' 7 1) 11 |||
        place (w.extractLsb' 25 6) 5 ||| place (w.extractLsb' 8 4) 1) <<< 19).sshiftRight 19 := by
  simp only [instBtypeRead, field_masks, place]

theorem jtype_imm (w : BitVec 32) :
    (instJtypeRead w).imm =
      ((place (w.extractLsb' 31 1) 20 ||| place (w.extractLsb' 12 8) 12 |||
        place (w.extractLsb' 20 1) 11 ||| place (w.extractLsb' 21 10) 1) <<< 11).sshiftRight 11 := by
  simp only [instJtypeRead, field_masks, place]

theorem csrtype_csr (w : BitVec 32) :
    (instCsrtypeRead w).csr = (w.extractLsb' 20 12).setWidth 16 := by
  apply BitVec.eq_of_getLsbD_eq
  intro i hi
  simp only [instCsrtypeRead, BitVec.getLsbD_setWidth, BitVec.getLsbD_ushiftRight,
    BitVec.getLsbD_extractLsb', hi, decide_true, Bool.true_and]
  by_cases h : i < 12
  · simp [h]
  · rw [BitVec.getLsbD_of_ge _ _ (by omega)]
    simp [h]

/-- The reader of a format finds the operands that the format encodes. -/
theorem carries_reader (f : Format) (o : Operands) :
    CarriesOperands f o (reader f (f.assemble o)) := by
  cases f with
  | r op f3 f7 =>
      simp (disch := decide) [CarriesOperands, reader, rtype_regs, Format.assemble, extract_or,
        extract_place_self, extract_place_disjoint]
  | rRm op f7 =>
      simp (disch := decide) [CarriesOperands, reader, rtype_regs, Format.assemble, extract_or,
        extract_place_self, extract_place_disjoint]
  | rUnary op f3 f7 sel =>
      simp (disch := decide) [CarriesOperands, reader, rtype_regs, Format.assemble, extract_or,
        extract_place_self, extract_place_disjoint]
  | rUnaryRm op f7 sel =>
      simp (disch := decide) [CarriesOperands, reader, rtype_regs, Format.assemble, extract_or,
        extract_place_self, extract_place_disjoint]
  | r4 op f2 =>
      simp (disch := decide) [CarriesOperands, reader, fprtype_regs, Format.assemble, extract_or,
        extract_place_self, extract_place_disjoint]
  | i op f3 =>
      simp (disch := decide) [CarriesOperands, reader, itype_regs, itype_imm, Format.assemble,
        extract_or, extract_place_self, extract_place_disjoint]
  | shift op f3 f6 =>
      simp (disch := decide) [CarriesOperands, reader, itype_regs, itype_imm, Format.assemble,
        extract_signExtend, extract_extract, extract_or, extract_place_self,
        extract_place_disjoint]
  | shiftW op f3 f7 =>
      simp (disch := decide) [CarriesOperands, reader, itype_regs, itype_imm, Format.assemble,
        extract_signExtend, extract_extract, extract_or, extract_place_self,
        extract_place_disjoint]
  | s op f3 =>
      simp (disch := decide) only [CarriesOperands, reader, stype_regs, stype_imm, Format.assemble,
        extract_or, extract_place_self, extract_place_disjoint, BitVec.zero_or, BitVec.or_zero,
        true_and]
      rw [place_merge o.imm12 0 5 7 0, place_full, place_up_down _ _ _ (by decide) (by decide),
        BitVec.shiftLeft_zero]
  | b op f3 =>
      simp (disch := decide) only [CarriesOperands, reader, btype_regs, btype_imm, Format.assemble,
        extract_or, extract_place_self, extract_place_disjoint, BitVec.zero_or, BitVec.or_zero,
        true_and]
      rw [place_merge o.imm12 10 1 1 11, place_merge o.imm12 4 6 2 5, place_merge o.imm12 0 4 8 1,
        place_full, place_up_down _ _ _ (by decide) (by decide)]
  | u op =>
      simp (disch := decide) only [CarriesOperands, reader, utype_regs, utype_imm, Format.assemble,
        extract_or, extract_place_self, extract_place_disjoint, BitVec.zero_or, BitVec.or_zero,
        true_and]
      rfl
  | j op =>
      simp (disch := decide) only [CarriesOperands, reader, jtype_regs, jtype_imm, Format.assemble,
        extract_or, extract_place_self, extract_place_disjoint, BitVec.zero_or, BitVec.or_zero,
        true_and]
      rw [place_merge o.imm20 11 8 1 12, place_merge o.imm20 10 1 9 11,
        place_merge o.imm20 0 10 10 1, place_full, place_up_down _ _ _ (by decide) (by decide)]
  | csr op f3 =>
      simp (disch := decide) [CarriesOperands, reader, csrtype_regs, csrtype_csr, Format.assemble,
        extract_or, extract_place_self, extract_place_disjoint]
  | fence op f3 => exact ⟨rfl, rfl, rfl, rfl⟩
  | word w => trivial

/-! ### Words with the fixed fields of an instruction -/

/-- What the encoder writes has the fixed fields of the format. -/
theorem fixed_assemble (f : Format) (o : Operands) : f.Fixed (f.assemble o) := by
  cases f <;>
    simp (disch := decide) [Format.Fixed, Format.assemble, extract_or, extract_place_self,
      extract_place_disjoint]

theorem fixed_encode (t : InstType) (o : Operands) : (format t).Fixed (encode t o) :=
  fixed_assemble _ _

theorem assertThat_true (e : String) : assertThat true e = .ok () := rfl

theorem ok_bind {α β : Type} (a : α) (f : α → Except Stop β) : (Except.ok a >>= f) = f a := rfl

/-- A CSR instruction is not the environment call. -/
theorem ne_ecall_of_funct3 {w : BitVec 32} {f3 : BitVec 3} (h : w.extractLsb' 12 3 = f3)
    (hf : f3 ≠ 0) : w ≠ 0x73 := by
  rintro rfl
  exact hf (by rw [← h]; decide)

/-- What the square roots assert about the operand they do not have. -/
theorem rtype_rs2_isZero (w : BitVec 32) :
    ((instRtypeRead w).rs2 == 0#5) = (w.extractLsb' 20 5 == 0#5) := by
  rw [(rtype_regs w).2.2]

/-- A word with the fixed fields of an instruction decodes to that instruction. -/
theorem decodeInst_of_fixed {t : InstType} {w : BitVec 32} (h : (format t).Fixed w)
    (ht : t ≠ .ecall) (prev : Inst) : decodeInst prev w = .ok (decoded t w) := by
  cases t <;> simp only [format, Format.Fixed] at h
  case ecall => exact absurd rfl ht
  -- the test for the environment call comes before these
  case csrrc | csrrci | csrrs | csrrsi | csrrw | csrrwi =>
    have hne : w ≠ 0x73#32 := ne_ecall_of_funct3 h.2 (by decide)
    simp [decodeInst, quadrant_eq_op, decodeQuadrant3, opcode_eq_op, decodeSystem, hne, funct3_eq,
      h]
    rfl
  all_goals
    simp [decodeInst, quadrant_eq_op, decodeQuadrant3, opcode_eq_op, decodeLoad,
      decodeLoadFp, decodeMiscMem, decodeOpImm, decodeOpImm32, decodeStore, decodeStoreFp,
      decodeOp, decodeOp32, decodeFma, decodeOpFp, decodeFunct3, decodeFunct3Pair, decodeFcvt,
      decodeBranch, funct3_eq, funct7_eq, funct2_eq, rs2_eq, imm116_eq,
      rtype_rs2_isZero, h, assertThat_true, ok_bind]
    rfl

/-- The record `ecall` leaves: all but two fields are those of the previous record. -/
def ecallRecord (prev : Inst) : Inst := { prev with type := .ecall, continueExec := true }

theorem decodeInst_ecall (prev : Inst) : decodeInst prev 0x73 = .ok (ecallRecord prev) := rfl

/-- Decoding undoes encoding, whatever the record held before: the type, the operands
that the format has, and which of the instructions end a block. -/
theorem decodeInst_encode (t : InstType) (o : Operands) (prev : Inst) :
    ∃ i, decodeInst prev (encode t o) = .ok i ∧ i.type = t ∧
      i.continueExec = (t.isJump || t == .ecall) ∧
        (t ≠ .ecall → i.rvc = false ∧ CarriesOperands (format t) o i) := by
  by_cases ht : t = .ecall
  · subst ht
    exact ⟨ecallRecord prev, decodeInst_ecall prev, rfl, rfl, fun h => absurd rfl h⟩
  · refine ⟨decoded t (encode t o), decodeInst_of_fixed (fixed_encode t o) ht prev, rfl, ?_,
      fun _ => ⟨decoded_rvc _ _, ?_⟩⟩
    · simp [ht]
    · exact (carries_withType _ _ _ _ _).mpr (carries_reader (format t) o)

/-! ### Words that decode -/

/-- `i` is the record of an instruction whose fixed fields `w` has. -/
def Faithful (w : BitVec 32) (i : Inst) : Prop := (format i.type).Fixed w ∧ i = decoded i.type w

/-- An assertion that let execution pass held. -/
theorem assertThat_inv {α : Type} {c : Bool} {e : String} {f : Except Stop α} {a : α}
    (h : (assertThat c e >>= fun _ => f) = .ok a) : c = true ∧ f = .ok a := by
  cases c with
  | true => exact ⟨rfl, h⟩
  | false => cases h

theorem decodeLoad_inv {w : BitVec 32} {i : Inst} (hop : w.extractLsb' 0 7 = 0b0000011)
    (h : decodeLoad w = .ok i) : Faithful w i := by
  unfold decodeLoad at h
  split at h <;> cases h
  all_goals exact ⟨⟨hop, funct3_of ‹_›⟩, rfl⟩

theorem decodeLoadFp_inv {w : BitVec 32} {i : Inst} (hop : w.extractLsb' 0 7 = 0b0000111)
    (h : decodeLoadFp w = .ok i) : Faithful w i := by
  unfold decodeLoadFp at h
  split at h <;> cases h
  all_goals exact ⟨⟨hop, funct3_of ‹_›⟩, rfl⟩

theorem decodeMiscMem_inv {w : BitVec 32} {i : Inst} (hop : w.extractLsb' 0 7 = 0b0001111)
    (h : decodeMiscMem w = .ok i) : Faithful w i := by
  unfold decodeMiscMem at h
  split at h <;> cases h
  all_goals exact ⟨⟨hop, funct3_of ‹_›⟩, rfl⟩

theorem decodeStore_inv {w : BitVec 32} {i : Inst} (hop : w.extractLsb' 0 7 = 0b0100011)
    (h : decodeStore w = .ok i) : Faithful w i := by
  unfold decodeStore at h
  split at h <;> cases h
  all_goals exact ⟨⟨hop, funct3_of ‹_›⟩, rfl⟩

theorem decodeStoreFp_inv {w : BitVec 32} {i : Inst} (hop : w.extractLsb' 0 7 = 0b0100111)
    (h : decodeStoreFp w = .ok i) : Faithful w i := by
  unfold decodeStoreFp at h
  split at h <;> cases h
  all_goals exact ⟨⟨hop, funct3_of ‹_›⟩, rfl⟩

theorem decodeBranch_inv {w : BitVec 32} {i : Inst} (hop : w.extractLsb' 0 7 = 0b1100011)
    (h : decodeBranch w = .ok i) : Faithful w i := by
  unfold decodeBranch at h
  split at h <;> cases h
  all_goals exact ⟨⟨hop, funct3_of ‹_›⟩, rfl⟩

/-- A shift immediate carries a funct6 above its shift amount. -/
theorem decodeOpImm_inv {w : BitVec 32} {i : Inst} (hop : w.extractLsb' 0 7 = 0b0010011)
    (h : decodeOpImm w = .ok i) : Faithful w i := by
  unfold decodeOpImm at h
  split at h
  case h_2 h3 =>
    split at h <;> cases h
    next h6 => exact ⟨⟨hop, funct3_of h3, imm116_of (congrArg BitVec.toNat h6)⟩, rfl⟩
  case h_6 h3 =>
    split at h
    next h6 =>
      cases h
      exact ⟨⟨hop, funct3_of h3, imm116_of (congrArg BitVec.toNat h6)⟩, rfl⟩
    next =>
      split at h <;> cases h
      next h6 => exact ⟨⟨hop, funct3_of h3, imm116_of (congrArg BitVec.toNat h6)⟩, rfl⟩
  all_goals cases h
  all_goals exact ⟨⟨hop, funct3_of ‹_›⟩, rfl⟩

theorem decodeOpImm32_inv {w : BitVec 32} {i : Inst} (hop : w.extractLsb' 0 7 = 0b0011011)
    (h : decodeOpImm32 w = .ok i) : Faithful w i := by
  unfold decodeOpImm32 at h
  split at h
  case h_1 h3 =>
    cases h
    exact ⟨⟨hop, funct3_of h3⟩, rfl⟩
  case h_2 h3 =>
    obtain ⟨h7, h⟩ := assertThat_inv h
    cases h
    exact ⟨⟨hop, funct3_of h3, funct7_of (congrArg BitVec.toNat (eq_of_beq h7))⟩, rfl⟩
  case h_3 h3 =>
    split at h <;> cases h
    all_goals exact ⟨⟨hop, funct3_of h3, funct7_of ‹_›⟩, rfl⟩
  case h_4 => cases h

theorem decodeOp_inv {w : BitVec 32} {i : Inst} (hop : w.extractLsb' 0 7 = 0b0110011)
    (h : decodeOp w = .ok i) : Faithful w i := by
  unfold decodeOp at h
  split at h
  case h_4 => cases h
  all_goals
    next h7 =>
      split at h <;> cases h
      all_goals exact ⟨⟨hop, funct3_of ‹_›, funct7_of h7⟩, rfl⟩

theorem decodeOp32_inv {w : BitVec 32} {i : Inst} (hop : w.extractLsb' 0 7 = 0b0111011)
    (h : decodeOp32 w = .ok i) : Faithful w i := by
  unfold decodeOp32 at h
  split at h
  case h_4 => cases h
  all_goals
    next h7 =>
      split at h <;> cases h
      all_goals exact ⟨⟨hop, funct3_of ‹_›, funct7_of h7⟩, rfl⟩

/-- The four fused operations take their precision from funct2. -/
theorem decodeFma_inv {w : BitVec 32} {i : Inst} {single double : InstType}
    (h : decodeFma single double w = .ok i) :
    (w.extractLsb' 25 2 = 0 ∧ i = { instFprtypeRead w with type := single }) ∨
      (w.extractLsb' 25 2 = 1 ∧ i = { instFprtypeRead w with type := double }) := by
  unfold decodeFma at h
  split at h <;> cases h
  · exact .inl ⟨funct2_of ‹_›, rfl⟩
  · exact .inr ⟨funct2_of ‹_›, rfl⟩

theorem decodeFunct3_inv {inst i : Inst} {w : BitVec 32} {t0 t1 t2 : InstType}
    (h : decodeFunct3 inst w t0 t1 t2 = .ok i) :
    (w.extractLsb' 12 3 = 0 ∧ i = { inst with type := t0 }) ∨
      (w.extractLsb' 12 3 = 1 ∧ i = { inst with type := t1 }) ∨
        (w.extractLsb' 12 3 = 2 ∧ i = { inst with type := t2 }) := by
  unfold decodeFunct3 at h
  split at h <;> cases h
  · exact .inl ⟨funct3_of ‹_›, rfl⟩
  · exact .inr (.inl ⟨funct3_of ‹_›, rfl⟩)
  · exact .inr (.inr ⟨funct3_of ‹_›, rfl⟩)

theorem decodeFunct3Pair_inv {inst i : Inst} {w : BitVec 32} {t0 t1 : InstType}
    (h : decodeFunct3Pair inst w t0 t1 = .ok i) :
    (w.extractLsb' 12 3 = 0 ∧ i = { inst with type := t0 }) ∨
      (w.extractLsb' 12 3 = 1 ∧ i = { inst with type := t1 }) := by
  unfold decodeFunct3Pair at h
  split at h <;> cases h
  · exact .inl ⟨funct3_of ‹_›, rfl⟩
  · exact .inr ⟨funct3_of ‹_›, rfl⟩

theorem decodeFcvt_inv {inst i : Inst} {w : BitVec 32} {t0 t1 t2 t3 : InstType}
    (h : decodeFcvt inst w t0 t1 t2 t3 = .ok i) :
    (w.extractLsb' 20 5 = 0 ∧ i = { inst with type := t0 }) ∨
      (w.extractLsb' 20 5 = 1 ∧ i = { inst with type := t1 }) ∨
        (w.extractLsb' 20 5 = 2 ∧ i = { inst with type := t2 }) ∨
          (w.extractLsb' 20 5 = 3 ∧ i = { inst with type := t3 }) := by
  unfold decodeFcvt at h
  split at h <;> cases h
  · exact .inl ⟨rs2_of ‹_›, rfl⟩
  · exact .inr (.inl ⟨rs2_of ‹_›, rfl⟩)
  · exact .inr (.inr (.inl ⟨rs2_of ‹_›, rfl⟩))
  · exact .inr (.inr (.inr ⟨rs2_of ‹_›, rfl⟩))

/-- What an assertion on the rs2 field says. -/
theorem rs2_of_beq {w : BitVec 32} {k : BitVec 32} (h : (rs2 w == k) = true) :
    w.extractLsb' 20 5 = BitVec.ofNat 5 k.toNat :=
  rs2_of (congrArg BitVec.toNat (eq_of_beq h))

theorem decodeOpFp_inv {w : BitVec 32} {i : Inst} (hop : w.extractLsb' 0 7 = 0b1010011)
    (h : decodeOpFp w = .ok i) : Faithful w i := by
  unfold decodeOpFp at h
  split at h
  -- the arithmetic operations are picked by funct7 alone
  case h_1 h7 | h_2 h7 | h_3 h7 | h_4 h7 | h_5 h7 | h_6 h7 | h_7 h7 | h_8 h7 =>
    cases h
    exact ⟨⟨hop, funct7_of h7⟩, rfl⟩
  -- the sign injections and the comparisons
  case h_9 h7 | h_10 h7 | h_17 h7 | h_18 h7 =>
    rcases decodeFunct3_inv h with ⟨h3, rfl⟩ | ⟨h3, rfl⟩ | ⟨h3, rfl⟩
    all_goals exact ⟨⟨hop, h3, funct7_of h7⟩, rfl⟩
  -- minimum and maximum
  case h_11 h7 | h_12 h7 =>
    rcases decodeFunct3Pair_inv h with ⟨h3, rfl⟩ | ⟨h3, rfl⟩
    all_goals exact ⟨⟨hop, h3, funct7_of h7⟩, rfl⟩
  -- the conversions between the two precisions
  case h_13 h7 | h_14 h7 =>
    obtain ⟨h2, h⟩ := assertThat_inv h
    cases h
    exact ⟨⟨hop, funct7_of h7, rs2_of_beq h2⟩, rfl⟩
  -- the square roots
  case h_15 h7 | h_16 h7 =>
    obtain ⟨h2, h⟩ := assertThat_inv h
    cases h
    exact ⟨⟨hop, funct7_of h7, (rtype_regs w).2.2 ▸ eq_of_beq h2⟩, rfl⟩
  -- the conversions to and from integers
  case h_19 h7 | h_20 h7 | h_21 h7 | h_22 h7 =>
    rcases decodeFcvt_inv h with ⟨h2, rfl⟩ | ⟨h2, rfl⟩ | ⟨h2, rfl⟩ | ⟨h2, rfl⟩
    all_goals exact ⟨⟨hop, funct7_of h7, h2⟩, rfl⟩
  -- the moves to integer registers and the classifications
  case h_23 h7 | h_24 h7 =>
    obtain ⟨h2, h⟩ := assertThat_inv h
    rcases decodeFunct3Pair_inv h with ⟨h3, rfl⟩ | ⟨h3, rfl⟩
    all_goals exact ⟨⟨hop, h3, funct7_of h7, rs2_of_beq h2⟩, rfl⟩
  -- the moves from integer registers
  case h_25 h7 | h_26 h7 =>
    obtain ⟨hc, h⟩ := assertThat_inv h
    obtain ⟨h2, h3⟩ := Bool.and_eq_true_iff.mp hc
    cases h
    exact ⟨⟨hop, funct3_of (congrArg BitVec.toNat (eq_of_beq h3)), funct7_of h7, rs2_of_beq h2⟩,
      rfl⟩
  case h_27 => cases h

theorem decodeSystem_inv {w : BitVec 32} {prev i : Inst} (hop : w.extractLsb' 0 7 = 0b1110011)
    (h : decodeSystem prev w = .ok i) :
    Faithful w i ∨ (w = 0x73 ∧ i = ecallRecord prev) := by
  unfold decodeSystem at h
  split at h
  next hw =>
    cases h
    exact .inr ⟨hw, rfl⟩
  next =>
    left
    split at h <;> cases h
    all_goals exact ⟨⟨hop, funct3_of ‹_›⟩, rfl⟩

/-- A word of quadrant 3 that decodes has the fixed fields of the instruction it
decodes to, or is the environment call, or has the opcode of `jalr`. -/
theorem decodeQuadrant3_inv {w : BitVec 32} {prev i : Inst} (hq : (quadrant w).toNat = 3)
    (h : decodeQuadrant3 prev w = .ok i) :
    Faithful w i ∨ (w = 0x73 ∧ i = ecallRecord prev) ∨
      (w.extractLsb' 0 7 = 0b1100111 ∧ i = decoded .jalr w) := by
  unfold decodeQuadrant3 at h
  split at h
  case h_1 ho => exact .inl (decodeLoad_inv (op_of hq ho) h)
  case h_2 ho => exact .inl (decodeLoadFp_inv (op_of hq ho) h)
  case h_3 ho => exact .inl (decodeMiscMem_inv (op_of hq ho) h)
  case h_4 ho => exact .inl (decodeOpImm_inv (op_of hq ho) h)
  case h_6 ho => exact .inl (decodeOpImm32_inv (op_of hq ho) h)
  case h_7 ho => exact .inl (decodeStore_inv (op_of hq ho) h)
  case h_8 ho => exact .inl (decodeStoreFp_inv (op_of hq ho) h)
  case h_9 ho => exact .inl (decodeOp_inv (op_of hq ho) h)
  case h_11 ho => exact .inl (decodeOp32_inv (op_of hq ho) h)
  case h_16 ho => exact .inl (decodeOpFp_inv (op_of hq ho) h)
  case h_17 ho => exact .inl (decodeBranch_inv (op_of hq ho) h)
  case h_12 ho | h_13 ho | h_14 ho | h_15 ho =>
    rcases decodeFma_inv h with ⟨h2, rfl⟩ | ⟨h2, rfl⟩
    all_goals exact .inl ⟨⟨op_of hq ho, h2⟩, rfl⟩
  case h_5 ho | h_10 ho | h_19 ho =>
    cases h
    exact .inl ⟨op_of hq ho, rfl⟩
  case h_18 ho =>
    cases h
    exact .inr (.inr ⟨op_of hq ho, rfl⟩)
  case h_20 ho => exact (decodeSystem_inv (op_of hq ho) h).imp id .inl
  case h_21 => cases h

end Rvemu
