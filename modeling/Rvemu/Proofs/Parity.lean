/-
Even addresses.

An instruction is fetched from an even address if the program starts at one: every
offset the decoder reads for a branch or a jump is even, `jalr` clears the lowest
bit of its target, and an instruction that transfers no control is followed by one
two or four bytes further, as the lowest two bits of its word say.

The length is taken from the record, which an environment call does not set; but an
environment call is followed by the address it leaves for re-entry.
-/
import Rvemu.Lib.Align
import Rvemu.Proofs.Boot

namespace Rvemu

open BitField Spec Steps

/-- The address of a half word. -/
def IsEven (x : Word) : Prop := 2 ∣ x.toNat

theorem isEven_iff (x : Word) : IsEven x ↔ x.getLsbD 0 = false := by
  unfold IsEven
  rw [BitVec.getLsbD, Nat.testBit_zero, decide_eq_false_iff_not]
  omega

theorem IsEven.add {x y : Word} (hx : IsEven x) (hy : IsEven y) : IsEven (x + y) :=
  Align.dvd_add (p := 1) (by decide) hx hy

/-- A sign-extended offset is even if the offset is. -/
theorem isEven_signExtend {imm : BitVec 32} (h : imm.getLsbD 0 = false) :
    IsEven (imm.signExtend 64) := by
  rw [isEven_iff, BitVec.getLsbD_signExtend]
  simpa using h

theorem isEven_length (i : Inst) : IsEven i.length := by
  unfold Inst.length IsEven
  split <;> decide

/-! ### The offsets the decoder reads -/

/-- The instructions with an offset to jump by. -/
def InstType.isRelative (t : InstType) : Bool :=
  t matches .beq | .bne | .blt | .bge | .bltu | .bgeu | .jal

/-- A number shifted up and down again keeps its lowest bit. -/
theorem sshiftRight_shiftLeft_even (x : BitVec 32) {k : Nat} (hk : k < 32)
    (h : x.getLsbD 0 = false) : ((x <<< k).sshiftRight k).getLsbD 0 = false := by
  rw [BitVec.getLsbD_sshiftRight]
  simpa [hk] using h

theorem btype_even (w : BitVec 32) : (instBtypeRead w).imm.getLsbD 0 = false := by
  rw [btype_imm]
  refine sshiftRight_shiftLeft_even _ (by decide) ?_
  simp [place]

theorem jtype_even (w : BitVec 32) : (instJtypeRead w).imm.getLsbD 0 = false := by
  rw [jtype_imm]
  refine sshiftRight_shiftLeft_even _ (by decide) ?_
  simp [place]

/-- The record of a 32-bit word has an even offset. -/
theorem decoded_even {t : InstType} (ht : t.isRelative = true) (w : BitVec 32) :
    (decoded t w).imm.getLsbD 0 = false := by
  cases t <;> try cases ht
  case jal => exact jtype_even w
  all_goals exact btype_even w

/-- So has the record of a compressed one. -/
theorem cdecoded_even {f : CForm} {c : BitVec 16} (ht : (cdecoded f c).type.isRelative = true) :
    (cdecoded f c).imm.getLsbD 0 = false := by
  have htype : (cdecoded f c).type = (f.expand c).1 := by cases f <;> rfl
  have himm : (cdecoded f c).imm = (decoded (f.expand c).1 (f.expansion c)).imm := by
    cases f
    case slli | srli | srai => cases ht
    all_goals rfl
  rw [himm]
  exact decoded_even (htype ▸ ht) _

/-- Every branch and every `jal` the decoder returns has an even offset. -/
theorem decodeInst_even {w : BitVec 32} {prev i : Inst} (h : decodeInst prev w = .ok i)
    (ht : i.type.isRelative = true) : i.imm.getLsbD 0 = false := by
  by_cases hq : (quadrant w).toNat = 3
  · have hw : w ≠ 0x73 := by
      rintro rfl
      rw [decodeInst_ecall] at h
      cases h
      cases ht
    rw [(decodeInst_decoded hq hw h).1]
    exact decoded_even ht w
  · obtain ⟨f, hf, -⟩ := decodeInst_compressed hq h
    rw [decodeInst_of_legal hf rfl] at h
    cases h
    exact cdecoded_even ht

/-! ### The lengths the decoder sets -/

/-- The length of the instruction in a word, by its lowest two bits. -/
def wordLength (w : BitVec 32) : Word := if w.extractLsb' 0 2 = 0b11 then 4 else 2

theorem cdecoded_rvc (f : CForm) (c : BitVec 16) : (cdecoded f c).rvc = true := by
  cases f <;> rfl

/-- A record decoded afresh has the length of its word. -/
theorem decodeInst_length {w : BitVec 32} {i : Inst} (h : decodeInst {} w = .ok i) :
    i.length = wordLength w := by
  unfold Inst.length wordLength
  by_cases hq : (quadrant w).toNat = 3
  · have hrvc : i.rvc = false := by
      by_cases hw : w = 0x73
      · rw [hw, decodeInst_ecall] at h
        cases h
        rfl
      · rw [(decodeInst_decoded hq hw h).1, decoded_rvc]
    rw [hrvc, if_pos ((quadrant_eq_three_iff w).mp hq)]
    rfl
  · obtain ⟨f, hf, -⟩ := decodeInst_compressed hq h
    rw [decodeInst_of_legal hf rfl] at h
    cases h
    rw [cdecoded_rvc, if_neg fun h3 => hq ((quadrant_eq_three_iff w).mpr h3)]
    rfl

/-- Where a decoded instruction leads from an even address is even. -/
theorem nextPc_even {w : BitVec 32} {prev i : Inst} (h : decodeInst prev w = .ok i)
    (gpRegs : RegNo → Word) {pc : Word} (hpc : IsEven pc) : IsEven (nextPc i gpRegs pc) := by
  unfold nextPc
  split
  · rename_i hty
    exact hpc.add (isEven_signExtend (decodeInst_even h (by rw [hty]; rfl)))
  · rw [isEven_iff, BitVec.getLsbD_and]
    simp
  · split
    · rename_i htaken
      refine hpc.add (isEven_signExtend (decodeInst_even h ?_))
      revert htaken
      generalize i.type = t
      cases t <;> simp [branchTaken, InstType.isRelative]
    · exact hpc.add (isEven_length i)

/-! ### One step -/

/-- The control of one step: `i` is the instruction, decoded afresh. -/
structure Controls (m : Machine) (i : Inst) (m' : Machine) : Prop where
  decodes : ∃ raw, m.state.load m.state.pc 4 = .ok raw ∧ decodeInst {} raw = .ok i
  pc : m'.state.pc = nextPc i m.state.gpRegs m.state.pc
  reenterPc : m'.state.reenterPc = m.state.reenterPc ∨
    m'.state.reenterPc = nextPc i m.state.gpRegs m.state.pc

theorem handleSyscall_pc {os : Os} {m m' : Machine} (h : handleSyscall os m = .ok m') :
    m'.state.pc = m.state.pc ∧ m'.state.reenterPc = m.state.reenterPc := by
  obtain ⟨v, m₁, hdo, rfl⟩ := handleSyscall_inv h
  rcases doSyscall_cases hdo with hmap | ⟨-, hbrk⟩
  · exact ⟨hmap.pc, hmap.reenterPc⟩
  · exact ⟨(sysBrk_frame hbrk).pc, (sysBrk_frame hbrk).reenterPc⟩

theorem emuStep_controls {fpu : HostFpu} {os : Os} {m m' : Machine}
    (h : emuStep fpu os m = .ok m') : ∃ i, Controls m i m' := by
  obtain ⟨⟨s, i'⟩, hiter, h⟩ := bind_ok_inv h
  obtain ⟨raw, hload, hiter⟩ := bind_ok_inv hiter
  obtain ⟨r, hdec, hiter⟩ := bind_ok_inv hiter
  obtain ⟨⟨s₁, i₁⟩, hrun, hiter⟩ := bind_ok_inv hiter
  cases hiter
  rw [func_eq_handler] at hrun
  obtain ⟨i, hi, hfresh⟩ := decodeInst_fresh hdec
  have hcont := decodeInst_continueExec hdec
  have hout := handler_outcome hfresh hcont hrun
  suffices hctl : m'.state.pc = nextPc i m.state.gpRegs m.state.pc ∧
      (m'.state.reenterPc = m.state.reenterPc ∨
        m'.state.reenterPc = nextPc i m.state.gpRegs m.state.pc) from
    ⟨i, ⟨raw, hload, hi⟩, hctl.1, hctl.2⟩
  dsimp only at h
  cases hout with
  | falls hl hc he hpc =>
      rw [if_neg (by rw [hc]; nofun)] at h
      cases h
      obtain ⟨rfl, -⟩ := hfresh.resolve_right fun hecall =>
        hl (.inr (.inl (by rw [hecall.1]; rfl)))
      exact ⟨hpc, .inl (handler_keepsControl hrun hl).2.2⟩
  | leaves hl hc he hpc =>
      rw [if_pos hc] at h
      by_cases hbranch : s₁.exitReason = .directBranch ∨ s₁.exitReason = .indirectBranch
      · rw [leaveBlock_branch (m := m.withRun (s₁.setGp Reg.zero 0) i') hbranch] at h
        cases h
        exact ⟨hpc, .inr hpc⟩
      · rw [leaveBlock_call (m := m.withRun (s₁.setGp Reg.zero 0) i') hbranch] at h
        obtain ⟨m₂, hcall, rfl⟩ := map_ok_inv h
        obtain ⟨hpc', hre'⟩ := handleSyscall_pc hcall
        exact ⟨hpc'.trans hpc, .inr (hre'.trans hpc)⟩

theorem emuStep_even {fpu : HostFpu} {os : Os} {m m' : Machine}
    (hm : IsEven m.state.pc ∧ IsEven m.state.reenterPc) (h : emuStep fpu os m = .ok m') :
    IsEven m'.state.pc ∧ IsEven m'.state.reenterPc := by
  obtain ⟨i, ⟨raw, -, hi⟩, hpc, hre⟩ := emuStep_controls h
  have hnext := nextPc_even hi m.state.gpRegs hm.1
  refine ⟨by rw [hpc]; exact hnext, ?_⟩
  rcases hre with hre | hre
  · rw [hre]
    exact hm.2
  · rw [hre]
    exact hnext

/-! ### Runs -/

/-- An instruction that transfers no control is followed by the next one. -/
theorem nextPc_of_not_leaves {i : Inst} {gpRegs : RegNo → Word} (h : ¬Leaves i gpRegs)
    (pc : Word) : nextPc i gpRegs pc = pc + i.length := by
  unfold Leaves at h
  simp only [not_or] at h
  unfold nextPc
  split
  · rename_i hty
    exact absurd (by rw [hty]; rfl) h.1
  · rename_i hty
    exact absurd (by rw [hty]; rfl) h.1
  · rw [if_neg h.2.2]

/-- The entry point is where the header says, and the first block starts there. -/
theorem boot_pc {os : Os} {file : List (BitVec 8)} {phdr : List (BitVec 8)} {pad : BitVec 32}
    {argv : List (List (BitVec 8))} {w : World} {m : Machine}
    (h : boot os (.ok file) phdr pad argv w = .ok m) :
    m.state.pc = (Elf64Ehdr.ofBytes file).entry ∧ m.state.reenterPc = 0 := by
  obtain ⟨m₁, hload, hsetup⟩ := boot_inv h
  obtain ⟨file', hfile, hphdrs, hm₁⟩ := machineLoadProgram_inv hload
  cases hfile
  have hentry : m₁.mmu.entry = (Elf64Ehdr.ofBytes file).entry := loadPhdrs_entry hphdrs
  obtain ⟨⟨addr, w₁, mmu₁⟩, -, hsetup⟩ := bind_ok_inv hsetup
  obtain ⟨⟨w₂, mmu₂, sp⟩, -, hsetup⟩ := bind_ok_inv hsetup
  obtain ⟨w₃, -, hsetup⟩ := bind_ok_inv hsetup
  cases hsetup
  rw [← hentry]
  exact ⟨congrArg (fun m => m.state.pc) hm₁, congrArg (fun m => m.state.reenterPc) hm₁⟩

/-- **A program that starts at an even address stays at even addresses.**  And where it goes
straight on, it goes on by the length that the lowest two bits of the word say. -/
theorem mainLoop_even {fpu : HostFpu} {os : Os} {file : List (BitVec 8)} {phdr : List (BitVec 8)}
    {pad : BitVec 32} {argv : List (List (BitVec 8))} {w : World} {m₀ m : Machine} {n : Nat}
    (hboot : boot os (.ok file) phdr pad argv w = .ok m₀)
    (heven : IsEven (Elf64Ehdr.ofBytes file).entry) (h : mainLoop fpu os n m₀ = .ok m) :
    IsEven m.state.pc ∧ IsEven m.state.reenterPc ∧
      ∀ raw i m', m.state.load m.state.pc 4 = .ok raw → decodeInst {} raw = .ok i →
        ¬Leaves i m.state.gpRegs → mainLoop fpu os (n + 1) m₀ = .ok m' →
        m'.state.pc = m.state.pc + wordLength raw := by
  obtain ⟨hpc, hre⟩ := boot_pc hboot
  rw [mainLoop_eq_iter] at h
  have hm : IsEven m.state.pc ∧ IsEven m.state.reenterPc := by
    refine iter_invariant (I := fun m => IsEven m.state.pc ∧ IsEven m.state.reenterPc)
      (fun hI hs => emuStep_even hI hs) ⟨?_, ?_⟩ h
    · show IsEven m₀.state.pc
      rw [hpc]
      exact heven
    · show IsEven m₀.state.reenterPc
      rw [hre]
      exact Nat.dvd_zero 2
  refine ⟨hm.1, hm.2, fun raw i m' hload hi hl h' => ?_⟩
  rw [mainLoop_eq_iter] at h'
  obtain ⟨i', ⟨raw', hload', hi'⟩, hnext, -⟩ := emuStep_controls (iter_last h h')
  rw [hload] at hload'
  cases hload'
  rw [hi] at hi'
  cases hi'
  rw [hnext, nextPc_of_not_leaves hl, decodeInst_length hi]

/-- `beq x0, x0, 8` is taken, and a compressed `nop` follows at the target. -/
theorem mainLoop_even_taken :
    ∃ m₀ m m', mainLoop default grantingOs 1 m₀ = .ok m ∧ m.state.pc = 0x10080 ∧
      IsEven m.state.pc ∧ IsEven m.state.reenterPc ∧ mainLoop default grantingOs 2 m₀ = .ok m' ∧
      m'.state.pc = m.state.pc + 2 := by
  have hok : (bootCode grantingOs [0x63, 0x04, 0x00, 0x00, 0x13, 0x00, 0x00, 0x00, 0x01, 0x00] >>=
      fun m₀ => mainLoop default grantingOs 1 m₀ >>= fun m =>
        (mainLoop default grantingOs 2 m₀).map fun _ =>
          (m.state.pc, m.state.load m.state.pc 4)) = .ok (0x10080, .ok 1) := by
    decide +kernel
  obtain ⟨m₀, hboot, h⟩ := bind_ok_inv hok
  obtain ⟨m, hrun, h⟩ := bind_ok_inv h
  obtain ⟨m', hrun', h⟩ := map_ok_inv h
  obtain ⟨htarget, hload⟩ := Prod.mk.inj h
  have heven : IsEven (Elf64Ehdr.ofBytes (elfImage
      [0x63, 0x04, 0x00, 0x00, 0x13, 0x00, 0x00, 0x00, 0x01, 0x00])).entry := by
    unfold IsEven
    decide +kernel
  obtain ⟨hpc, hre, hnext⟩ := mainLoop_even hboot heven hrun
  have hnop : decodeInst {} 1 = .ok { type := .addi, rvc := true } := by decide
  have hstays : ¬Leaves { type := .addi, rvc := true } m.state.gpRegs := by
    rintro (hleaves | hleaves | hleaves) <;> cases hleaves
  exact ⟨m₀, m, m', hrun, htarget, hpc, hre, hrun', hnext 1 _ m' hload hnop hstays hrun'⟩

end Rvemu
