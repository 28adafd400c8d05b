/-
What the decoder accepts.

A word that decodes is an encoding of the type it decodes to, of the 32-bit or of
the compressed kind, with one exception: the case of `jalr` is entered on the
opcode alone, and nothing tests funct3.  The seven reserved values of that field
are exactly the words on which the decoder and the specification disagree.
-/
import Rvemu.Proofs.Compressed

namespace Rvemu

open Spec

theorem quadrant_eq_three_iff (w : BitVec 32) :
    (quadrant w).toNat = 3 ↔ w.extractLsb' 0 2 = 0b11 := by
  rw [quadrant_toNat]
  constructor
  · intro h
    exact BitVec.eq_of_toNat_eq h
  · intro h
    rw [h]
    rfl

/-- Outside quadrant 3 nothing but legal forms decodes. -/
theorem decodeInst_compressed {w : BitVec 32} {prev i : Inst} (hq : (quadrant w).toNat ≠ 3)
    (h : decodeInst prev w = .ok i) : HoldsForm w i.type := by
  unfold decodeInst at h
  split at h
  case h_1 h0 => exact decodeQuadrant0_inv h0 h
  case h_2 h1 => exact decodeQuadrant1_inv h1 h
  case h_3 h2 => exact decodeQuadrant2_inv h2 h
  case h_4 h3 => exact absurd h3 hq
  case h_5 => cases h

theorem decodeInst_quadrant3 {w : BitVec 32} (hq : (quadrant w).toNat = 3) (prev : Inst) :
    decodeInst prev w = decodeQuadrant3 prev w := by
  simp only [decodeInst, hq]

/-- A word that decodes encodes the type it decodes to, unless it has the opcode of
`jalr` and is none. -/
theorem encodes_of_decodeInst {w : BitVec 32} {prev i : Inst} (h : decodeInst prev w = .ok i) :
    Encodes i.type w ∨ (w.extractLsb' 0 7 = 0b1100111 ∧ i.type = .jalr) := by
  by_cases hq : (quadrant w).toNat = 3
  · rw [decodeInst_quadrant3 hq] at h
    have hop := (quadrant_eq_three_iff w).mp hq
    rcases decodeQuadrant3_inv hq h with hf | ⟨rfl, rfl⟩ | ⟨hj, rfl⟩
    · left
      rw [Encodes, if_pos hop]
      exact hf.1
    · left
      rw [Encodes, if_pos hop]
      rfl
    · exact .inr ⟨hj, rfl⟩
  · left
    rw [Encodes, if_neg fun hop => hq ((quadrant_eq_three_iff w).mpr hop)]
    exact decodeInst_compressed hq h

/-- The opcode of `jalr` is enough for the decoder. -/
theorem decodeInst_jalr {w : BitVec 32} (h : w.extractLsb' 0 7 = 0b1100111) (prev : Inst) :
    decodeInst prev w = .ok (decoded .jalr w) := by
  simp [decodeInst, quadrant_eq_op, decodeQuadrant3, opcode_eq_op, h]
  rfl

/-- What has the opcode of `jalr` encodes `jalr` when its funct3 is zero. -/
theorem encodes_jalr_iff {w : BitVec 32} (h : w.extractLsb' 0 7 = 0b1100111) :
    Encodes .jalr w ↔ w.extractLsb' 12 3 = 0 := by
  have hop : w.extractLsb' 0 2 = 0b11 := by
    rw [← quadrant_eq_three_iff, quadrant_eq_op, h]
    rfl
  rw [Encodes, if_pos hop]
  exact ⟨fun hf => hf.2, fun h3 => ⟨h, h3⟩⟩

/-- The decoder accepts nothing but encodings of the type it returns, except where the
opcode is that of `jalr` and funct3 is not zero. -/
theorem decodeInst_sound_iff (w : BitVec 32) (prev : Inst) :
    (∀ i, decodeInst prev w = .ok i → Encodes i.type w) ↔
      ¬(w.extractLsb' 0 7 = 0b1100111 ∧ w.extractLsb' 12 3 ≠ 0) := by
  constructor
  · rintro h ⟨hop, h3⟩
    exact h3 ((encodes_jalr_iff hop).mp (h _ (decodeInst_jalr hop prev)))
  · intro hn i h
    rcases encodes_of_decodeInst h with he | ⟨hop, ht⟩
    · exact he
    · rw [ht]
      exact (encodes_jalr_iff hop).mpr (not_not.mp fun h3 => hn ⟨hop, h3⟩)

/-- `jalr x0, 0(x1)` with funct3 one is executed as `jalr`. -/
theorem decodeInst_accepts_reserved_jalr :
    ∃ i, decodeInst {} 0x00009067 = .ok i ∧ i.type = .jalr ∧ ¬Encodes i.type 0x00009067 :=
  ⟨decoded .jalr 0x00009067, decodeInst_jalr (by decide) {}, rfl,
    fun h => absurd ((encodes_jalr_iff (w := 0x00009067) (by decide)).mp h) (by decide)⟩

end Rvemu
