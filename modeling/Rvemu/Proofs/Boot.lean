/-
From the file to the first instruction.

Loading leaves the allocator at the end of the last segment, with nothing allocated
behind it.  If enough of the addresses from there on are free (`Room`), the stack and
the argument strings go where the allocator believes them to be, and `machine_setup`
ends with the heap in order.  A file without a segment leaves the allocator at zero; then
nothing is mapped where the stack should be and `machine_setup` faults.
-/
import Rvemu.Proofs.Heap

namespace Rvemu

open Memory

section

variable {os : Os} {top : Nat}

/-! ### Loading -/

/-- The state right after a segment was loaded. -/
def AfterSegment (os : Os) (w : World) (mmu : Mmu) : Prop :=
  ∃ w₀ mmu₀ phdr file, mmuLoadSegment os w₀ mmu₀ phdr file = .ok (w, mmu)

/-- One program header: it loads a segment, or it does nothing. -/
theorem loadPhdrs_succ_inv {ehdr : Elf64Ehdr} {file : List (BitVec 8)} {n i : Nat}
    {phdr : List (BitVec 8)} {w w' : World} {mmu mmu' : Mmu}
    (h : loadPhdrs os ehdr file i (n + 1) phdr w mmu = .ok (w', mmu')) :
    ∃ phdr₁ w₁ mmu₁, loadPhdr phdr ehdr i file = .ok phdr₁ ∧
      loadPhdrs os ehdr file (i + 1) n phdr₁ w₁ mmu₁ = .ok (w', mmu') ∧
      ((Elf64Phdr.ofBytes phdr₁).type = ptLoad ∧
          mmuLoadSegment os w mmu (Elf64Phdr.ofBytes phdr₁) file = .ok (w₁, mmu₁) ∨
        (Elf64Phdr.ofBytes phdr₁).type ≠ ptLoad ∧ w₁ = w ∧ mmu₁ = mmu) := by
  obtain ⟨phdr₁, hread, h⟩ := bind_ok_inv h
  dsimp only at h
  by_cases ht : (Elf64Phdr.ofBytes phdr₁).type = ptLoad
  · rw [if_pos ht] at h
    obtain ⟨⟨w₁, mmu₁⟩, hseg, h⟩ := bind_ok_inv h
    exact ⟨phdr₁, w₁, mmu₁, hread, h, .inl ⟨ht, hseg⟩⟩
  · rw [if_neg ht] at h
    exact ⟨phdr₁, w, mmu, hread, h, .inr ⟨ht, rfl, rfl⟩⟩

/-- The program headers load no segment, or they leave the state of the last one. -/
theorem loadPhdrs_cases {ehdr : Elf64Ehdr} {file : List (BitVec 8)} {n i : Nat}
    {phdr : List (BitVec 8)} {w w' : World} {mmu mmu' : Mmu}
    (h : loadPhdrs os ehdr file i n phdr w mmu = .ok (w', mmu')) :
    w' = w ∧ mmu' = mmu ∨ AfterSegment os w' mmu' := by
  induction n generalizing i phdr w mmu with
  | zero =>
      cases h
      exact .inl ⟨rfl, rfl⟩
  | succ n ih =>
      obtain ⟨phdr₁, w₁, mmu₁, -, h, hstep⟩ := loadPhdrs_succ_inv h
      rcases ih h with ⟨rfl, rfl⟩ | hafter
      · rcases hstep with ⟨-, hseg⟩ | ⟨-, hsame⟩
        · exact .inr ⟨w, mmu, _, file, hseg⟩
        · exact .inl hsame
      · exact .inr hafter

/-- What every segment keeps holds after all of them. -/
theorem loadPhdrs_invariant {I : World → Mmu → Prop}
    (hstep : ∀ {w w' mmu mmu' phdr file}, I w mmu →
      mmuLoadSegment os w mmu phdr file = .ok (w', mmu') → I w' mmu')
    {ehdr : Elf64Ehdr} {file : List (BitVec 8)} {n i : Nat} {phdr : List (BitVec 8)}
    {w w' : World} {mmu mmu' : Mmu} (h₀ : I w mmu)
    (h : loadPhdrs os ehdr file i n phdr w mmu = .ok (w', mmu')) : I w' mmu' := by
  induction n generalizing i phdr w mmu with
  | zero =>
      cases h
      exact h₀
  | succ n ih =>
      obtain ⟨phdr₁, w₁, mmu₁, -, hrest, ⟨-, hseg⟩ | ⟨-, rfl, rfl⟩⟩ := loadPhdrs_succ_inv h
      · exact ih (hstep h₀ hseg) hrest
      · exact ih h₀ hrest

/-- The entry point is set before. -/
theorem loadPhdrs_entry {ehdr : Elf64Ehdr} {file : List (BitVec 8)} {n i : Nat}
    {phdr : List (BitVec 8)} {w w' : World} {mmu mmu' : Mmu}
    (h : loadPhdrs os ehdr file i n phdr w mmu = .ok (w', mmu')) : mmu'.entry = mmu.entry := by
  refine loadPhdrs_invariant (I := fun _ mmu₁ => mmu₁.entry = mmu.entry) (fun hI hseg => ?_) rfl h
  obtain ⟨-, hmmu, -⟩ := mmuLoadSegment_inv hseg
  rw [hmmu, withEnd_entry]
  exact hI

/-- Loading a file is reading its program headers. -/
theorem mmuLoadElf_inv {phdr file : List (BitVec 8)} {w w' : World} {mmu mmu' : Mmu}
    (h : mmuLoadElf os phdr w mmu file = .ok (w', mmu')) :
    loadPhdrs os (Elf64Ehdr.ofBytes file) file 0 (Elf64Ehdr.ofBytes file).phnum.toNat phdr w
      { mmu with entry := (Elf64Ehdr.ofBytes file).entry } = .ok (w', mmu') := by
  unfold mmuLoadElf at h
  split at h
  · cases h
  · dsimp only at h
    split at h
    · cases h
    · split at h
      · cases h
      · exact h

/-- Loading a program into a fresh machine. -/
theorem machineLoadProgram_inv {prog : Reply (List (BitVec 8))} {phdr : List (BitVec 8)}
    {w : World} {m : Machine} (h : machineLoadProgram os prog phdr (initialMachine w) = .ok m) :
    ∃ file, prog = .ok file ∧
      loadPhdrs os (Elf64Ehdr.ofBytes file) file 0 (Elf64Ehdr.ofBytes file).phnum.toNat phdr w
        (Mmu.start (Elf64Ehdr.ofBytes file).entry) = .ok (m.state.world, m.mmu) ∧
      m = { initialMachine w with
        state := { (initialMachine w).state with world := m.state.world, pc := m.mmu.entry }
        mmu := m.mmu } := by
  cases prog with
  | fail errno => cases h
  | ok file =>
      obtain ⟨⟨w', mmu⟩, hload, h⟩ := bind_ok_inv h
      cases h
      exact ⟨file, rfl, mmuLoadElf_inv hload, rfl⟩

/-- Where the file's pages and the segment end, when the host maps them. -/
theorem segment_fits (hc : MmapContract os top) {w w' : World} {mmu mmu' : Mmu}
    {phdr : Elf64Phdr} {file : List (BitVec 8)}
    (h : mmuLoadSegment os w mmu phdr file = .ok (w', mmu')) :
    (fileEnd os phdr).toNat = (pageBase os phdr).toNat +
        (roundUp (fromPageBase os phdr phdr.filesz) os.pageSize).toNat ∧
      (fromPageBase os phdr phdr.filesz).toNat ≤
        (roundUp (fromPageBase os phdr phdr.filesz) os.pageSize).toNat ∧
      0 < (fileEnd os phdr).toNat ∧
      (segmentEnd os phdr).toNat = (fileEnd os phdr).toNat + (bssLength os phdr).toNat ∧
      (segmentEnd os phdr).toNat ≤ top := by
  have htop := hc.top_le
  obtain ⟨hfile, -, hbss⟩ := mmuLoadSegment_inv h
  obtain ⟨-, hpos, hfits⟩ := hc.fixed_fits hfile
  have hself := Align.le_ceil os.pageShift (fromPageBase os phdr phdr.filesz).toNat
  unfold pageCeil at hfits
  have hround : (roundUp (fromPageBase os phdr phdr.filesz) os.pageSize).toNat =
      Align.ceil os.pageShift (fromPageBase os phdr phdr.filesz).toNat :=
    roundUp_toNat (by omega)
  have hend : (fileEnd os phdr).toNat = (pageBase os phdr).toNat +
      (roundUp (fromPageBase os phdr phdr.filesz) os.pageSize).toNat := by
    unfold fileEnd
    rw [BitVec.toNat_add, Nat.mod_eq_of_lt (by omega)]
  have hseg := segmentEnd_eq os phdr
  rcases hbss with ⟨hzero, -⟩ | ⟨-, -, hmap⟩
  · rw [hzero, show fileEnd os phdr + 0 = fileEnd os phdr from BitVec.add_zero _] at hseg
    rw [hseg, hzero]
    exact ⟨hend, by omega, by omega, by simp, by omega⟩
  · obtain ⟨-, -, hfits'⟩ := hc.fixed_fits hmap
    have hself' := Align.le_ceil os.pageShift (bssLength os phdr).toNat
    unfold pageCeil at hfits'
    have hsum : (segmentEnd os phdr).toNat = (fileEnd os phdr).toNat + (bssLength os phdr).toNat := by
      rw [hseg, BitVec.toNat_add, Nat.mod_eq_of_lt (by omega)]
    exact ⟨hend, by omega, by omega, hsum, by omega⟩

/-- The allocator behind the last segment, with nothing allocated yet. -/
structure Loaded (os : Os) (top : Nat) (mmu : Mmu) : Prop where
  pos : 0 < mmu.hostAlloc.toNat
  page : PageStart os mmu.hostAlloc
  fits : mmu.hostAlloc.toNat ≤ top
  base : mmu.base = toGuest mmu.hostAlloc
  guest : mmu.guestAlloc = toGuest mmu.hostAlloc

theorem Loaded.segment (hc : MmapContract os top) {w w' : World} {mmu mmu' : Mmu}
    {phdr : Elf64Phdr} {file : List (BitVec 8)}
    (hmmu : (∃ entry, mmu = Mmu.start entry) ∨ Loaded os top mmu)
    (h : mmuLoadSegment os w mmu phdr file = .ok (w', mmu')) : Loaded os top mmu' := by
  obtain ⟨-, -, hpos, hsum, htop⟩ := segment_fits hc h
  obtain ⟨hend, hkind⟩ := mmuLoadSegment_end h
  have hbase : mmu'.base = toGuest mmu'.hostAlloc := congrArg Mmu.base hend
  have hguest : mmu'.guestAlloc = toGuest mmu'.hostAlloc := congrArg Mmu.guestAlloc hend
  rcases hkind with ⟨hsame, hlt⟩ | hseg
  · rcases hmmu with ⟨entry, rfl⟩ | hloaded
    · exact absurd hlt (Nat.not_lt_zero _)
    · rw [hsame] at hbase hguest
      refine ⟨?_, ?_, ?_, ?_, ?_⟩ <;> rw [hsame]
      · exact hloaded.pos
      · exact hloaded.page
      · exact hloaded.fits
      · exact hbase
      · exact hguest
  · rw [hseg] at hbase hguest
    refine ⟨?_, ?_, ?_, ?_, ?_⟩ <;> rw [hseg]
    · omega
    · exact pageStart_segmentEnd phdr
    · exact htop
    · exact hbase
    · exact hguest

/-- What loading leaves: the allocator at zero, if the file has no segment, or behind the last. -/
theorem machineLoadProgram_loaded (hc : MmapContract os top) {prog : Reply (List (BitVec 8))}
    {phdr : List (BitVec 8)} {w : World} {m : Machine}
    (h : machineLoadProgram os prog phdr (initialMachine w) = .ok m) :
    (∃ entry, m.mmu = Mmu.start entry) ∨ Loaded os top m.mmu := by
  obtain ⟨file, -, hload, -⟩ := machineLoadProgram_inv h
  refine loadPhdrs_invariant
    (I := fun _ mmu => (∃ entry, mmu = Mmu.start entry) ∨ Loaded os top mmu)
    (fun hok hseg => .inr (Loaded.segment hc hok hseg)) ?_ hload
  exact .inl ⟨_, rfl⟩

/-- A segment maps nothing behind the end it leaves. -/
theorem mmuLoadSegment_behind (hc : MmapContract os top) {w w' : World} {mmu mmu' : Mmu}
    {phdr : Elf64Phdr} {file : List (BitVec 8)}
    (h : mmuLoadSegment os w mmu phdr file = .ok (w', mmu')) :
    mmu.hostAlloc.toNat ≤ mmu'.hostAlloc.toNat ∧
      ∀ x : Word, mmu'.hostAlloc.toNat ≤ x.toNat → w'.mem.prot x = w.mem.prot x := by
  obtain ⟨hfileEnd, -, -, hsum, -⟩ := segment_fits hc h
  obtain ⟨-, hmmu, hw⟩ := mmuLoadSegment_inv h
  have hend : mmu.hostAlloc.toNat ≤ mmu'.hostAlloc.toNat ∧
      (segmentEnd os phdr).toNat ≤ mmu'.hostAlloc.toNat := by
    rw [hmmu]
    obtain ⟨hle, hseg, -⟩ := laterEnd_max mmu phdr
    exact ⟨hle, hseg⟩
  refine ⟨hend.1, fun x hx => ?_⟩
  have hfile : (fileMapped os w phdr file).mem.prot x = w.mem.prot x :=
    if_neg fun hin => by have := hin.2; omega
  rcases hw with ⟨-, rfl⟩ | ⟨-, rfl, -⟩
  · exact hfile
  · exact (if_neg fun hin => by have := hin.2; omega).trans hfile

/-- Loading maps nothing behind the image. -/
theorem machineLoadProgram_behind (hc : MmapContract os top) {prog : Reply (List (BitVec 8))}
    {phdr : List (BitVec 8)} {w : World} {m : Machine}
    (h : machineLoadProgram os prog phdr (initialMachine w) = .ok m) {x : Word}
    (hx : m.mmu.hostAlloc.toNat ≤ x.toNat) : m.state.world.mem.prot x = w.mem.prot x := by
  obtain ⟨file, -, hload, -⟩ := machineLoadProgram_inv h
  refine loadPhdrs_invariant
    (I := fun w₁ mmu => ∀ x : Word, mmu.hostAlloc.toNat ≤ x.toNat → w₁.mem.prot x = w.mem.prot x)
    (fun hI hseg x hx => ?_) (fun _ _ => rfl) hload x hx
  obtain ⟨hend, hsame⟩ := mmuLoadSegment_behind hc hseg
  exact (hsame x hx).trans (hI x (by omega))

/-- A segment lies in user space. -/
theorem mmuLoadSegment_userSpace (hc : MmapContract os top) {w w' : World} {mmu mmu' : Mmu}
    {phdr : Elf64Phdr} {file : List (BitVec 8)} (huser : UserSpace top w.mem.prot)
    (h : mmuLoadSegment os w mmu phdr file = .ok (w', mmu')) : UserSpace top w'.mem.prot := by
  obtain ⟨hfileEnd, -, -, hsum, htop⟩ := segment_fits hc h
  obtain ⟨-, -, hw⟩ := mmuLoadSegment_inv h
  have hfile : UserSpace top (fileMapped os w phdr file).mem.prot := huser.map (by omega) _ _ _
  rcases hw with ⟨-, rfl⟩ | ⟨-, rfl, -⟩
  · exact hfile
  · exact hfile.map (by omega) _ _ _

/-- So does a program. -/
theorem machineLoadProgram_userSpace (hc : MmapContract os top) {prog : Reply (List (BitVec 8))}
    {phdr : List (BitVec 8)} {w : World} {m : Machine} (huser : UserSpace top w.mem.prot)
    (h : machineLoadProgram os prog phdr (initialMachine w) = .ok m) :
    UserSpace top m.state.world.mem.prot := by
  obtain ⟨file, -, hload, -⟩ := machineLoadProgram_inv h
  exact loadPhdrs_invariant (I := fun w _ => UserSpace top w.mem.prot)
    (fun hI hseg => mmuLoadSegment_userSpace hc hI hseg) huser hload

/-! ### The stack and the arguments -/

/-- Nothing is mapped from an address on. -/
def FreeFrom (prot : Word → Option Prot) (n : Nat) : Prop := ∀ x : Word, n ≤ x.toNat → prot x = none

/-- The heap in order, and room for `n` bytes behind it. -/
structure Room (os : Os) (top : Nat) (w : World) (mmu : Mmu) (n : Nat) : Prop where
  heap : HeapOk os top w.mem.prot mmu
  free : w.mem.FreeRange mmu.hostAlloc n

/-- What `machine_setup` finds and keeps: the heap in order, and free addresses behind it. -/
structure SetupOk (os : Os) (top : Nat) (w : World) (mmu : Mmu) : Prop where
  heap : HeapOk os top w.mem.prot mmu
  free : FreeFrom w.mem.prot mmu.hostAlloc.toNat

/-- That is room for any number of bytes. -/
theorem setupOk_iff {w : World} {mmu : Mmu} :
    SetupOk os top w mmu ↔ ∀ n, Room os top w mmu n := by
  constructor
  · intro hok n
    exact ⟨hok.heap, fun x hx => hok.free x hx.1⟩
  · intro hroom
    refine ⟨(hroom 0).heap, fun x hx => ?_⟩
    exact (hroom (x.toNat + 1)).free x ⟨hx, by omega⟩

/-- More memory that fits into the room is put at the end of what is mapped. -/
theorem Room.placed (hc : MmapContract os top) {w : World} {mmu : Mmu} {len addr : Word} {n : Nat}
    (hok : Room os top w mmu n) (hlen : len.toNat ≤ n)
    (hmap : os.mmapAnon w.clock w.mem mmu.hostAlloc len = .ok addr) : addr = mmu.hostAlloc := by
  have hne : mmu.hostAlloc ≠ 0 := by
    intro hz
    have hpos := hok.heap.pos
    have hinside := hok.heap.inside
    rw [hz] at hinside
    simp at hinside
    omega
  refine hc.anon_hint hmap hne hok.heap.endPage fun x hx => hok.free x ⟨hx.1, ?_⟩
  have hhi := hx.2
  omega

/-- An allocation that fits into the room. -/
theorem Room.alloc (hc : MmapContract os top) {w w' : World} {mmu mmu' : Mmu} {size b : Word}
    {n : Nat} (hok : Room os top w mmu (pageCeil os size.toNat + n)) (hsize : size.toNat < 2 ^ 63)
    (h : mmuAlloc os w mmu size = .ok (b, w', mmu')) : Room os top w' mmu' n := by
  obtain ⟨-, -, hle, hkind⟩ := mmuAlloc_inv h
  have hsub : mmu.guestAlloc + size - mmu.guestAlloc = size := add_sub_cancel_left _ _
  have hround : (roundUp size os.pageSize).toNat = pageCeil os size.toNat :=
    roundUp_toNat (Nat.le_of_lt hsize)
  have hsafe : BrkSafe os w mmu (mmu.guestAlloc + size) := by
    refine ⟨.inr (by rw [hsub]; exact hsize), fun _ _ => .inl fun x hx => ?_⟩
    rw [hsub, hround] at hx
    exact hok.free x ⟨hx.1, by have := hx.2; omega⟩
  refine ⟨hok.heap.step hc hle hsafe (by rw [hsub]; exact hkind), ?_⟩
  cases hkind with
  | @grows hpos hend addr hmap =>
      have haddr := hok.placed hc (by omega) hmap
      have hfits := hc.anon_fits hmap
      have htop := hc.top_le
      rw [haddr] at hfits ⊢
      intro x hx
      have hsum : (mmu.hostAlloc + roundUp size os.pageSize).toNat =
          mmu.hostAlloc.toNat + (roundUp size os.pageSize).toNat := by
        rw [BitVec.toNat_add, Nat.mod_eq_of_lt (by omega)]
      obtain ⟨hlo, hhi⟩ := hx
      change (mmu.hostAlloc + roundUp size os.pageSize).toNat ≤ x.toNat at hlo
      change x.toNat < (mmu.hostAlloc + roundUp size os.pageSize).toNat + n at hhi
      show (if _ then _ else _) = none
      rw [if_neg fun hin : Mem.InRange mmu.hostAlloc (roundUp size os.pageSize).toNat x => by
        have := hin.2; omega]
      exact hok.free x ⟨by omega, by omega⟩
  | shrinks hneg hend hlen hunmap => omega
  | stays hgrow hshrink =>
      intro x hx
      obtain ⟨hlo, hhi⟩ := hx
      change x.toNat < mmu.hostAlloc.toNat + n at hhi
      exact hok.free x ⟨hlo, by omega⟩

/-- An allocation of a positive number of bytes, where everything behind is free. -/
theorem SetupOk.alloc (hc : MmapContract os top) {w w' : World} {mmu mmu' : Mmu} {size b : Word}
    (hok : SetupOk os top w mmu) (hsize : size.toNat < 2 ^ 63)
    (h : mmuAlloc os w mmu size = .ok (b, w', mmu')) : SetupOk os top w' mmu' :=
  setupOk_iff.mpr fun _ => (setupOk_iff.mp hok _).alloc hc hsize h

theorem mmuWrite_prot {w w' : World} {a : Word} {bs : List (BitVec 8)}
    (h : mmuWrite w a bs = .ok w') : w'.mem.prot = w.mem.prot := by
  unfold mmuWrite at h
  split at h
  · rename_i mem hmem
    cases h
    exact Mem.storeList_prot hmem
  · cases h

/-- What is written can be written. -/
theorem mmuWrite_writable {w w' : World} {a : Word} {bs : List (BitVec 8)}
    (h : mmuWrite w a bs = .ok w') {i : Nat} (hi : i < bs.length) :
    w.mem.writable (toHost a + BitVec.ofNat 64 i) = true := by
  unfold mmuWrite at h
  split at h
  · rename_i mem hmem
    exact Mem.storeList_writable hmem hi
  · cases h

/-- A write that succeeds went into user space, so it is shorter than that. -/
theorem mmuWrite_length {w w' : World} {a : Word} {bs : List (BitVec 8)} (htop : top < 2 ^ 64)
    (hu : UserSpace top w.mem.prot) (h : mmuWrite w a bs = .ok w') : bs.length ≤ top := by
  by_contra hgt
  have h₀ := hu.lt (mmuWrite_writable h (i := 0) (by omega))
  have hn := hu.lt (mmuWrite_writable h (i := top - (toHost a).toNat) (by omega))
  simp only [BitVec.add_zero] at h₀
  rw [BitVec.toNat_add, BitVec.toNat_ofNat, Nat.mod_eq_of_lt (b := 2 ^ 64) (by omega),
    Nat.mod_eq_of_lt (by omega)] at hn
  omega

/-- The size of an argument string. -/
theorem argSize_eq (arg : List (BitVec 8)) (h : arg.length < 2 ^ 63) :
    (BitVec.ofNat 64 arg.length + 1 : Word).toNat = arg.length + 1 := by
  rw [BitVec.toNat_add, BitVec.toNat_ofNat]
  simp
  omega

/-- A string that was written takes its length and one byte more. -/
theorem argSize_toNat (hc : MmapContract os top) {w w' : World} {a : Word} {arg : List (BitVec 8)}
    (hu : UserSpace top w.mem.prot) (h : mmuWrite w a arg = .ok w') :
    (BitVec.ofNat 64 arg.length + 1 : Word).toNat = arg.length + 1 ∧ arg.length + 1 < 2 ^ 63 := by
  have htop := hc.top_le
  have hlen := mmuWrite_length (by omega) hu h
  exact ⟨argSize_eq arg (by omega), by omega⟩

/-- Pushing an argument, taken apart: the ones behind it, its place, its bytes, its address. -/
theorem pushArgs_cons_inv {arg : List (BitVec 8)} {rest : List (List (BitVec 8))} {w w' : World}
    {mmu mmu' : Mmu} {sp sp' : Word} (h : pushArgs os (arg :: rest) w mmu sp = .ok (w', mmu', sp')) :
    ∃ w₁ mmu₁ sp₁ w₂ w₃, pushArgs os rest w mmu sp = .ok (w₁, mmu₁, sp₁) ∧
      mmuAlloc os w₁ mmu₁ (BitVec.ofNat 64 arg.length + 1) = .ok (mmu₁.guestAlloc, w₂, mmu') ∧
      mmuWrite w₂ mmu₁.guestAlloc arg = .ok w₃ ∧
      mmuWrite w₃ (sp₁ - 8) (pushArgs.wordBytes mmu₁.guestAlloc) = .ok w' ∧ sp' = sp₁ - 8 := by
  obtain ⟨⟨w₁, mmu₁, sp₁⟩, hrest, h⟩ := bind_ok_inv h
  obtain ⟨⟨addr, w₂, mmu₂⟩, halloc, h⟩ := bind_ok_inv h
  obtain ⟨w₃, hwrite, h⟩ := bind_ok_inv h
  obtain ⟨w₄, hpush, h⟩ := bind_ok_inv h
  cases h
  obtain ⟨rfl, -⟩ := mmuAlloc_inv halloc
  exact ⟨w₁, mmu₁, sp₁, w₂, w₃, hrest, halloc, hwrite, hpush, rfl⟩

/-- The pages the argument strings may take. -/
def argRoom (os : Os) : List (List (BitVec 8)) → Nat
  | [] => 0
  | arg :: rest => pageCeil os (arg.length + 1) + argRoom os rest

/-- The argument strings, allocated and pushed one after the other. -/
theorem Room.pushArgs (hc : MmapContract os top) {args : List (List (BitVec 8))} {w w' : World}
    {mmu mmu' : Mmu} {sp sp' : Word} {n : Nat} (hok : Room os top w mmu (argRoom os args + n))
    (h : pushArgs os args w mmu sp = .ok (w', mmu', sp')) : Room os top w' mmu' n := by
  induction args generalizing w' mmu' sp' n with
  | nil =>
      cases h
      rwa [argRoom, Nat.zero_add] at hok
  | cons arg rest ih =>
      obtain ⟨w₁, mmu₁, sp₁, w₂, w₃, hrest, halloc, hwrite, hpush, -⟩ := pushArgs_cons_inv h
      rw [argRoom, Nat.add_comm (pageCeil os _), Nat.add_assoc] at hok
      have hok₁ := ih hok hrest
      have huser := (mmuAlloc_inv halloc).2.2.2.userSpace hc hok₁.heap.user
      obtain ⟨hsize, hlt⟩ := argSize_toNat hc huser hwrite
      rw [← hsize] at hok₁ hlt
      have hok₂ := hok₁.alloc hc hlt halloc
      have hprot : w'.mem.prot = w₂.mem.prot := (mmuWrite_prot hpush).trans (mmuWrite_prot hwrite)
      refine ⟨by rw [hprot]; exact hok₂.heap, fun x hx => ?_⟩
      rw [hprot]
      exact hok₂.free x hx

theorem SetupOk.pushArgs (hc : MmapContract os top) {args : List (List (BitVec 8))} {w w' : World}
    {mmu mmu' : Mmu} {sp sp' : Word} (hok : SetupOk os top w mmu)
    (h : pushArgs os args w mmu sp = .ok (w', mmu', sp')) : SetupOk os top w' mmu' :=
  setupOk_iff.mpr fun _ => (setupOk_iff.mp hok _).pushArgs hc h

/-- The setup, taken apart: the stack, the arguments, their number. -/
theorem machineSetup_inv {argv : List (List (BitVec 8))} {pad : BitVec 32} {m m' : Machine}
    (h : machineSetup os argv pad m = .ok m') :
    ∃ addr w₁ mmu₁ w₂ sp, mmuAlloc os m.state.world m.mmu stackSize = .ok (addr, w₁, mmu₁) ∧
      pushArgs os argv.tail w₁ mmu₁ (addr + stackSize - 8 - 8 - 8) = .ok (w₂, m'.mmu, sp) ∧
      mmuWrite w₂ (sp - 8) (pushArgs.wordBytes (pad ++ BitVec.ofNat 32 argv.length)) =
        .ok m'.state.world ∧
      m'.state.gp Reg.sp = sp - 8 := by
  obtain ⟨⟨addr, w₁, mmu₁⟩, halloc, h⟩ := bind_ok_inv h
  obtain ⟨⟨w₂, mmu₂, sp⟩, hpush, h⟩ := bind_ok_inv h
  obtain ⟨w₃, hwrite, h⟩ := bind_ok_inv h
  cases h
  exact ⟨addr, w₁, mmu₁, w₂, sp, halloc, hpush, hwrite, gp_setGp_self ..⟩

/-- The stack and the arguments leave the base where it is and the break above it. -/
theorem pushArgs_base {args : List (List (BitVec 8))} {w w' : World} {mmu mmu' : Mmu}
    {sp sp' : Word} (hbase : mmu.base.toNat ≤ mmu.guestAlloc.toNat)
    (h : pushArgs os args w mmu sp = .ok (w', mmu', sp')) :
    mmu'.base = mmu.base ∧ mmu'.base.toNat ≤ mmu'.guestAlloc.toNat := by
  induction args generalizing w' mmu' sp' with
  | nil =>
      cases h
      exact ⟨rfl, hbase⟩
  | cons arg rest ih =>
      obtain ⟨w₁, mmu₁, sp₁, w₂, w₃, hrest, halloc, -⟩ := pushArgs_cons_inv h
      obtain ⟨-, -, hle, hkind⟩ := mmuAlloc_inv halloc
      obtain ⟨hsame, hbreak⟩ := hkind.moves
      rw [hsame, hbreak]
      exact ⟨(ih hrest).1, hle⟩

/-- `machine_setup` leaves the base where it is and the break above it. -/
theorem machineSetup_base {argv : List (List (BitVec 8))} {pad : BitVec 32} {m m' : Machine}
    (h : machineSetup os argv pad m = .ok m') :
    m'.mmu.base = m.mmu.base ∧ m'.mmu.base.toNat ≤ m'.mmu.guestAlloc.toNat := by
  obtain ⟨addr, w₁, mmu₁, w₂, sp, halloc, hpush, -⟩ := machineSetup_inv h
  obtain ⟨-, -, hle, hkind⟩ := mmuAlloc_inv halloc
  obtain ⟨hsame, hbreak⟩ := hkind.moves
  obtain ⟨hbase, habove⟩ := pushArgs_base (by rw [hsame, hbreak]; exact hle) hpush
  exact ⟨hbase.trans hsame, habove⟩

/-! ### The states of the allocator -/

theorem pushArgs_reachable {args : List (List (BitVec 8))} {w w' : World} {mmu mmu' : Mmu}
    {sp sp' : Word} (hmmu : MmuReachable os mmu)
    (h : pushArgs os args w mmu sp = .ok (w', mmu', sp')) : MmuReachable os mmu' := by
  induction args generalizing w' mmu' sp' with
  | nil =>
      cases h
      exact hmmu
  | cons arg rest ih =>
      obtain ⟨w₁, mmu₁, sp₁, w₂, w₃, hrest, halloc, -⟩ := pushArgs_cons_inv h
      exact .alloc (ih hrest) halloc

/-- Loading and the setup lead from one state of the allocator to the next. -/
theorem machineSetup_reachable {prog : Reply (List (BitVec 8))} {phdr : List (BitVec 8)}
    {argv : List (List (BitVec 8))} {pad : BitVec 32} {w : World} {m₁ m : Machine}
    (hload : machineLoadProgram os prog phdr (initialMachine w) = .ok m₁)
    (h : machineSetup os argv pad m₁ = .ok m) : MmuReachable os m.mmu := by
  obtain ⟨file, -, hphdrs, -⟩ := machineLoadProgram_inv hload
  have hmmu : MmuReachable os m₁.mmu :=
    loadPhdrs_invariant (I := fun _ mmu => MmuReachable os mmu)
      (fun hreach hseg => .segment hreach hseg) (.start _) hphdrs
  obtain ⟨addr, w₁, mmu₁, w₂, sp, halloc, hpush, -⟩ := machineSetup_inv h
  exact pushArgs_reachable (.alloc hmmu halloc) hpush

/-- So does every step of a run. -/
theorem emuStep_reachable {fpu : HostFpu} {m m' : Machine} (hmmu : MmuReachable os m.mmu)
    (h : emuStep fpu os m = .ok m') : MmuReachable os m'.mmu := by
  obtain ⟨s, i, r, -, -, -, hkind⟩ := emuStep_inv h
  cases hkind with
  | quiet hsame hprot =>
      rw [hsame]
      exact hmmu
  | @brk hat hnum r m₂ m₃ hbrk ha0 hworld hmmu₂ hworld' hmmu' =>
      obtain ⟨-, -, hbrk⟩ := bind_ok_inv hbrk
      obtain ⟨⟨b, w, mmu⟩, halloc, hbrk⟩ := bind_ok_inv hbrk
      cases hbrk
      rw [hmmu']
      exact .alloc (by rw [hmmu₂]; exact hmmu) halloc

/-! ### A file without a segment -/

theorem wordBytes_pos (x : Word) : 0 < (pushArgs.wordBytes x).length := by
  simp [pushArgs.wordBytes]

/-- Nothing can be written where nothing is mapped. -/
theorem mmuWrite_unmapped {w w' : World} {a : Word} {bs : List (BitVec 8)} (hbs : 0 < bs.length)
    (hfree : w.mem.prot (toHost a) = none) (h : mmuWrite w a bs = .ok w') : False := by
  have hw := mmuWrite_writable h hbs
  unfold Mem.writable at hw
  rw [BitVec.add_zero, hfree] at hw
  cases hw

/-- With the end of what is mapped at zero, an allocation maps nothing. -/
theorem mmuAlloc_unmapped {w w' : World} {mmu mmu' : Mmu} {size b x : Word}
    (hzero : mmu.hostAlloc = 0) (hguest : mmu.guestAlloc.toNat ≤ stackSize.toNat)
    (hfree : w.mem.prot x = none) (h : mmuAlloc os w mmu size = .ok (b, w', mmu')) :
    w'.mem.prot x = none := by
  have hend : (toGuest mmu.hostAlloc).toNat = 2 ^ 64 - guestMemoryOffset.toNat := by
    rw [hzero]
    decide
  have hoff : guestMemoryOffset.toNat < 2 ^ 62 := by decide
  have hstack : stackSize.toNat < 2 ^ 62 := by decide
  obtain ⟨-, -, -, hkind⟩ := mmuAlloc_inv h
  cases hkind with
  | grows hpos hgrow hmap =>
      rw [hend, BitVec.toNat_add, Nat.mod_eq_of_lt (by omega)] at hgrow
      omega
  | @shrinks hneg hshrink len hlen hunmap =>
      show (if _ then _ else _) = none
      rw [hfree, ite_self]
  | stays hgrow hshrink => exact hfree

/-- Then there is no place for an argument's address. -/
theorem pushArgs_unmapped {args : List (List (BitVec 8))} {w w' : World} {mmu mmu' : Mmu}
    {sp sp' : Word} (hzero : mmu.hostAlloc = 0) (hguest : mmu.guestAlloc.toNat ≤ stackSize.toNat)
    (hfree : w.mem.prot (toHost (sp - 8)) = none)
    (h : pushArgs os args w mmu sp = .ok (w', mmu', sp')) : args = [] := by
  induction args generalizing w' mmu' sp' with
  | nil => rfl
  | cons arg rest ih =>
      exfalso
      obtain ⟨w₁, mmu₁, sp₁, w₂, w₃, hrest, halloc, hwrite, hpush, -⟩ := pushArgs_cons_inv h
      rw [ih hrest] at hrest
      cases hrest
      have hfree₂ := mmuAlloc_unmapped hzero hguest hfree halloc
      refine mmuWrite_unmapped (wordBytes_pos mmu.guestAlloc) ?_ hpush
      rw [mmuWrite_prot hwrite]
      exact hfree₂

/-- `machine_setup` faults if the file has no segment and nothing is mapped where the stack
should end. -/
theorem machineSetup_unmapped {argv : List (List (BitVec 8))} {pad : BitVec 32} {m m' : Machine}
    {entry : Word} (hmmu : m.mmu = Mmu.start entry)
    (hfree : m.state.world.mem.prot (toHost (stackSize - 32)) = none)
    (h : machineSetup os argv pad m = .ok m') : False := by
  obtain ⟨addr, w₁, mmu₁, w₂, sp, halloc, hpush, hwrite, -⟩ := machineSetup_inv h
  obtain ⟨haddr, -, -, hkind⟩ := mmuAlloc_inv halloc
  rw [hmmu] at halloc hkind haddr
  have hfree₁ := mmuAlloc_unmapped rfl (Nat.zero_le _) hfree halloc
  have hfirst : addr + stackSize - 8 - 8 - 8 - 8 = stackSize - 32 := by
    rw [haddr]
    show (0 : Word) + stackSize - 8 - 8 - 8 - 8 = _
    decide
  rw [← hfirst] at hfree₁
  have hsum : (Mmu.start entry).guestAlloc + stackSize = stackSize := BitVec.zero_add stackSize
  have hstart : mmu₁.hostAlloc = 0 ∧ mmu₁.guestAlloc.toNat ≤ stackSize.toNat := by
    cases hkind with
    | grows hpos hend hmap =>
        have hlt : stackSize.toNat < (toGuest 0).toNat := by decide
        rw [hsum] at hend
        exact absurd hend (Nat.not_lt.mpr (Nat.le_of_lt hlt))
    | shrinks hneg hend hlen hunmap => exact absurd hneg (by decide)
    | stays hgrow hshrink => exact ⟨rfl, Nat.le_of_eq (congrArg BitVec.toNat hsum)⟩
  have hargs := pushArgs_unmapped hstart.1 hstart.2 hfree₁ hpush
  rw [hargs] at hpush
  cases hpush
  exact mmuWrite_unmapped (wordBytes_pos _) hfree₁ hwrite

/-! ### The heap after the setup -/

/-- Behind an image the heap is empty and in order. -/
theorem Loaded.heapOk {prot : Word → Option Prot} {mmu : Mmu} (h : Loaded os top mmu)
    (huser : UserSpace top prot) : HeapOk os top prot mmu := by
  have hbase : toHost mmu.base = mmu.hostAlloc := by
    rw [h.base]
    exact toHost_toGuest _
  refine ⟨huser, ?_, ?_, h.page, ?_, ?_, h.fits, fun x hlo hhi => ?_⟩
  · rw [hbase]
    exact h.pos
  · rw [hbase]
    exact h.page
  · rw [h.base, h.guest]
  · rw [hbase, h.base, h.guest]
    omega
  · rw [hbase] at hlo
    omega

theorem Loaded.setupOk {w : World} {mmu : Mmu} (h : Loaded os top mmu)
    (hfree : FreeFrom w.mem.prot mmu.hostAlloc.toNat) : SetupOk os top w mmu := by
  have hfits := h.fits
  refine ⟨h.heapOk fun x p hx _ => ?_, hfree⟩
  by_contra hge
  rw [hfree x (by omega)] at hx
  cases hx

/-- **The setup leaves the heap in order**, if the addresses behind the image are free. -/
theorem machineSetup_ok (hc : MmapContract os top) {prog : Reply (List (BitVec 8))}
    {phdr : List (BitVec 8)} {argv : List (List (BitVec 8))} {pad : BitVec 32} {w : World}
    {m₁ m : Machine} (hload : machineLoadProgram os prog phdr (initialMachine w) = .ok m₁)
    (hfree : FreeFrom m₁.state.world.mem.prot m₁.mmu.hostAlloc.toNat)
    (h : machineSetup os argv pad m₁ = .ok m) : SetupOk os top m.state.world m.mmu := by
  rcases machineLoadProgram_loaded hc hload with ⟨entry, hstart⟩ | hloaded
  · rw [hstart] at hfree
    exact (machineSetup_unmapped hstart (hfree _ (Nat.zero_le _)) h).elim
  · obtain ⟨addr, w₁, mmu₁, w₂, sp, halloc, hpush, hwrite, -⟩ := machineSetup_inv h
    have hok := (hloaded.setupOk hfree).alloc hc (by decide) halloc
    have hok' := hok.pushArgs hc hpush
    have hprot := mmuWrite_prot hwrite
    exact ⟨by rw [hprot]; exact hok'.heap, by rw [hprot]; exact hok'.free⟩

/-- The bytes behind the image that the stack and the argument strings may take. -/
def setupRoom (os : Os) (args : List (List (BitVec 8))) : Nat :=
  pageCeil os stackSize.toNat + argRoom os args

/-- If they are free, a setup that succeeds was that of a program with a segment. -/
theorem machineSetup_loaded (hc : MmapContract os top) {prog : Reply (List (BitVec 8))}
    {phdr : List (BitVec 8)} {argv : List (List (BitVec 8))} {pad : BitVec 32} {w : World}
    {m₁ m : Machine} (hload : machineLoadProgram os prog phdr (initialMachine w) = .ok m₁)
    (hfree : m₁.state.world.mem.FreeRange (toHost m₁.mmu.guestAlloc) (setupRoom os argv.tail))
    (h : machineSetup os argv pad m₁ = .ok m) : Loaded os top m₁.mmu := by
  rcases machineLoadProgram_loaded hc hload with ⟨entry, hstart⟩ | hloaded
  · have hsize : stackSize.toNat ≤ pageCeil os stackSize.toNat := Align.le_ceil _ _
    have hlow : (toHost (Mmu.start entry).guestAlloc).toNat ≤ (toHost (stackSize - 32)).toNat := by
      show (toHost 0).toNat ≤ _
      decide
    have hhigh : (toHost (stackSize - 32)).toNat <
        (toHost (Mmu.start entry).guestAlloc).toNat + stackSize.toNat := by
      show _ < (toHost 0).toNat + _
      decide
    rw [hstart] at hfree
    refine (machineSetup_unmapped hstart (hfree _ ⟨hlow, ?_⟩) h).elim
    unfold setupRoom
    omega
  · exact hloaded

/-- Behind the image, what is free is room for the heap. -/
theorem Loaded.room {w : World} {mmu : Mmu} {n : Nat} (h : Loaded os top mmu)
    (huser : UserSpace top w.mem.prot) (hfree : w.mem.FreeRange (toHost mmu.guestAlloc) n) :
    Room os top w mmu n := by
  rw [h.guest, toHost_toGuest] at hfree
  exact ⟨h.heapOk huser, hfree⟩

/-- **The bound of the break is the end of the image.**  Whatever is requested after the setup,
the base is the one the loader fixed, the break is not below it, and it is where the last
request that was not a question put it. -/
theorem brkRun_break {P : World → Mmu → Word → Prop} {argv : List (List (BitVec 8))}
    {pad : BitVec 32} {m₁ m m' : Machine} {as : List Word}
    (hsetup : machineSetup os argv pad m₁ = .ok m) (hrun : BrkRun os P m as m') :
    m'.mmu.base = m₁.mmu.base ∧ m₁.mmu.base.toNat ≤ m'.mmu.guestAlloc.toNat ∧
      m'.mmu.guestAlloc = (as.filter (· ≠ 0)).getLastD m.mmu.guestAlloc := by
  obtain ⟨hbase, habove⟩ := machineSetup_base hsetup
  rw [hbase] at habove
  obtain ⟨hbase', habove', hbreak⟩ := hrun.break_eq (by rw [hbase]; exact habove)
  rw [hbase] at hbase' habove'
  exact ⟨hbase', habove', hbreak⟩

end

/-! ### A program to try it on -/

/-- Where the user space of the sample hosts ends. -/
def userTop : Nat := 2 ^ 47

/-- A host that grants everything, if it is in user space. -/
def grantingOs : Os where
  pageShift := 12
  pageShift_lt := (failingOs 0).pageShift_lt
  strerror _ := "failed"
  mmapAnon _ _ hint _ := .ok hint
  mmapFixed _ _ addr len :=
    if 2 ^ 12 ∣ addr.toNat ∧ 0 < len.toNat ∧ addr.toNat + Align.ceil 12 len.toNat ≤ userTop then
      .ok ()
    else .fail 22
  munmap _ _ _ _ := .ok ()
  close _ _ := .ok 0
  write _ _ _ _ len := .ok (.ok len)
  read _ _ _ _ _ := .ok []
  openPath _ _ _ _ _ := .ok 3
  openat _ _ _ _ _ _ := .ok 3
  lseek _ _ _ _ := .ok 0
  fstat _ _ _ _ := .ok []
  gettimeofday _ _ _ _ := .ok ([], [])
  aside _ mem := mem

/-- The `n` lowest bytes of a number. -/
def littleEndian (n x : Nat) : List (BitVec 8) :=
  (List.range n).map fun k => BitVec.ofNat 8 (x >>> (8 * k))

/-- An ELF file of one segment, a page at 0x10000 that is mapped for everything; the code is
entered behind the headers, at 0x10078. -/
def elfImage (code : List (BitVec 8)) : List (BitVec 8) :=
  [0x7f, 0x45, 0x4c, 0x46, 2, 1, 1] ++ littleEndian 9 0 ++ -- e_ident
  littleEndian 2 2 ++ littleEndian 2 243 ++ littleEndian 4 1 ++ -- e_type, e_machine, e_version
  littleEndian 8 0x10078 ++ littleEndian 8 64 ++ littleEndian 8 0 ++ -- e_entry, e_phoff, e_shoff
  littleEndian 4 0 ++ littleEndian 2 64 ++ -- e_flags, e_ehsize
  littleEndian 2 56 ++ littleEndian 2 1 ++ littleEndian 6 0 ++ -- e_phentsize, e_phnum
  littleEndian 4 1 ++ littleEndian 4 7 ++ littleEndian 8 0 ++ -- p_type, p_flags, p_offset
  littleEndian 8 0x10000 ++ littleEndian 8 0x10000 ++ -- p_vaddr, p_paddr
  littleEndian 8 0x1000 ++ littleEndian 8 0x1000 ++ littleEndian 8 0x1000 ++ -- sizes, p_align
  code

/-- The command line: the emulator's name and the program's. -/
def sampleArgv : List (List (BitVec 8)) := [[0x65], [0x70]]

/-- The machine that runs the code, with one argument. -/
def bootCode (os : Os) (code : List (BitVec 8)) : Except Stop Machine :=
  boot os (.ok (elfImage code)) [] 0 sampleArgv default

theorem boot_inv {os : Os} {prog : Reply (List (BitVec 8))} {phdr : List (BitVec 8)}
    {pad : BitVec 32} {argv : List (List (BitVec 8))} {w : World} {m : Machine}
    (h : boot os prog phdr pad argv w = .ok m) :
    ∃ m₁, machineLoadProgram os prog phdr (initialMachine w) = .ok m₁ ∧
      machineSetup os argv pad m₁ = .ok m := by
  obtain ⟨-, -, h⟩ := bind_ok_inv h
  obtain ⟨m₁, hload, h⟩ := bind_ok_inv h
  exact ⟨m₁, hload, h⟩

/-- The machine whose program asks for the break `a`. -/
def Machine.asking (m : Machine) (a : Word) : Machine :=
  { m with state := m.state.setGp Reg.a0 a }

/-- One request after the other. -/
def requests (os : Os) : List Word → Machine → Except Stop Machine
  | [], m => .ok m
  | a :: as, m => do
      let (_, m) ← sysBrk os (m.asking a)
      requests os as m

theorem asking_gp (m : Machine) (a : Word) : (m.asking a).state.gp Reg.a0 = a :=
  gp_setGp_self _ _ _

/-- Requests that are accepted are a history. -/
theorem requests_brkRun {os : Os} {as : List Word} {m m' : Machine}
    (h : requests os as m = .ok m') : BrkRun os (fun _ _ _ => True) m as m' := by
  induction as generalizing m with
  | nil =>
      cases h
      exact .done _
  | cons a as ih =>
      obtain ⟨⟨r, m₁⟩, hbrk, h⟩ := bind_ok_inv h
      have hrun := BrkRun.brk hbrk trivial (ih h)
      rw [asking_gp] at hrun
      refine .guest ?_ ?_ hrun <;> rfl

theorem brkRun_break_sample :
    ∃ m₁ m m', machineSetup grantingOs sampleArgv 0 m₁ = .ok m ∧
      BrkRun grantingOs (fun _ _ _ => True) m [0x3000000, 0] m' ∧
      m'.mmu.base = m₁.mmu.base ∧ m₁.mmu.base.toNat ≤ m'.mmu.guestAlloc.toNat ∧
      m'.mmu.guestAlloc = ([0x3000000, 0].filter (· ≠ 0)).getLastD m.mmu.guestAlloc := by
  have hok : (bootCode grantingOs [] >>= requests grantingOs [0x3000000, 0]).map (fun _ => ()) =
      .ok () := by decide +kernel
  obtain ⟨m', h, -⟩ := map_ok_inv hok
  obtain ⟨m, hboot, hreq⟩ := bind_ok_inv h
  obtain ⟨m₁, -, hsetup⟩ := boot_inv hboot
  have hrun := requests_brkRun hreq
  exact ⟨m₁, m, m', hsetup, hrun, brkRun_break hsetup hrun⟩

/-- A program may sink the break to the end of its image, below the 32 MB of its stack and the
arguments, and the break it had when it started. -/
theorem brk_releases_stack :
    ∃ m m', bootCode grantingOs [] = .ok m ∧
      BrkRun grantingOs (fun _ _ _ => True) m [0x11000] m' ∧
      m'.mmu.guestAlloc.toNat + stackSize.toNat < m.mmu.guestAlloc.toNat := by
  have hok : (bootCode grantingOs [] >>= fun m => (requests grantingOs [0x11000] m).map
      fun m' => (m.mmu.guestAlloc, m'.mmu.guestAlloc)) = .ok (0x2011002, 0x11000) := by
    decide +kernel
  obtain ⟨m, hboot, h⟩ := bind_ok_inv hok
  obtain ⟨m', hreq, hbreak⟩ := map_ok_inv h
  obtain ⟨hold, hnew⟩ := Prod.mk.inj hbreak
  refine ⟨m, m', hboot, requests_brkRun hreq, ?_⟩
  rw [hold, hnew]
  decide

end Rvemu
