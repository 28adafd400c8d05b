/-
What `brk` answers, and how far down the break can go.

In every state the allocator can be in, the end of what is mapped is the start of a
page.  That is what makes the rounding in `mmu_alloc` come out right: a request
within reach is granted, with the break inside what is mapped, or ends the process
because the host refused; there is no third answer.

The lower bound of the break is the base, which the loader fixes and nothing moves.
What `machine_setup` allocates lies above it, so the bound does not protect it.
-/
import Rvemu.Proofs.Alloc

namespace Rvemu

open Memory

/-! ### The states of the allocator -/

/-- The allocator, as the loader finds it. -/
def Mmu.start (entry : Word) : Mmu := { entry := entry, hostAlloc := 0, guestAlloc := 0, base := 0 }

/-- The states the allocator can be in, whatever the host and the guest do. -/
inductive MmuReachable (os : Os) : Mmu → Prop
  | start (entry : Word) : MmuReachable os (Mmu.start entry)
  | segment {w w' : World} {mmu mmu' : Mmu} {phdr : Elf64Phdr} {file : List (BitVec 8)}
      (h : MmuReachable os mmu) (hload : mmuLoadSegment os w mmu phdr file = .ok (w', mmu')) :
      MmuReachable os mmu'
  | alloc {w w' : World} {mmu mmu' : Mmu} {size b : Word} (h : MmuReachable os mmu)
      (halloc : mmuAlloc os w mmu size = .ok (b, w', mmu')) : MmuReachable os mmu'

section

variable {os : Os}

theorem pageStart_roundDown (x : Word) : PageStart os (roundDown x os.pageSize) := by
  show 2 ^ os.pageShift ∣ (Align.down x (Align.unit 64 os.pageShift)).toNat
  rw [Align.down_toNat (pageShift_lt os)]
  exact Align.dvd_floor _ _

/-- Where the pages of a segment start, as a host address. -/
def pageBase (os : Os) (phdr : Elf64Phdr) : Word := roundDown (toHost phdr.vaddr) os.pageSize

/-- The length of a segment's part, from the start of its first page on. -/
def fromPageBase (os : Os) (phdr : Elf64Phdr) (size : Word) : Word :=
  size + (toHost phdr.vaddr - pageBase os phdr)

/-- Where the pages that come from the file end. -/
def fileEnd (os : Os) (phdr : Elf64Phdr) : Word :=
  pageBase os phdr + roundUp (fromPageBase os phdr phdr.filesz) os.pageSize

/-- Where a segment ends: at the start of a page. -/
def segmentEnd (os : Os) (phdr : Elf64Phdr) : Word :=
  pageBase os phdr + roundUp (fromPageBase os phdr phdr.memsz) os.pageSize

theorem pageStart_fileEnd (phdr : Elf64Phdr) : PageStart os (fileEnd os phdr) :=
  (pageStart_roundDown _).add (pageStart_roundUp _)

theorem pageStart_segmentEnd (phdr : Elf64Phdr) : PageStart os (segmentEnd os phdr) :=
  (pageStart_roundDown _).add (pageStart_roundUp _)

/-- The length of the pages behind those of the file. -/
def bssLength (os : Os) (phdr : Elf64Phdr) : Word :=
  roundUp (fromPageBase os phdr phdr.memsz) os.pageSize -
    roundUp (fromPageBase os phdr phdr.filesz) os.pageSize

theorem segmentEnd_eq (os : Os) (phdr : Elf64Phdr) :
    segmentEnd os phdr = fileEnd os phdr + bssLength os phdr := by
  unfold segmentEnd fileEnd bssLength
  rw [add_assoc, add_sub_cancel]

/-- Whether the file ends before the page that has the `j`-th byte of a segment's pages. -/
def pastFile (os : Os) (phdr : Elf64Phdr) (file : List (BitVec 8)) (j : Nat) : Bool :=
  file.length ≤
    (roundDown phdr.offset os.pageSize).toNat + j / os.pageSize.toNat * os.pageSize.toNat

/-- The world once the pages of the file are mapped. -/
def fileMapped (os : Os) (w : World) (phdr : Elf64Phdr) (file : List (BitVec 8)) : World :=
  (w.withMem (w.mem.map (pageBase os phdr)
    (roundUp (fromPageBase os phdr phdr.filesz) os.pageSize).toNat (flagsToMmapProt phdr.flags)
    (fun j => file.getD ((roundDown phdr.offset os.pageSize).toNat + j) 0)
    (pastFile os phdr file))).tick

/-- The world once the pages behind them are mapped. -/
def bssMapped (os : Os) (w : World) (phdr : Elf64Phdr) : World :=
  (w.withMem (w.mem.map (fileEnd os phdr) (bssLength os phdr).toNat (flagsToMmapProt phdr.flags)
    fun _ => 0)).tick

/-- The allocator after a segment that ends at `e`. -/
def Mmu.withEnd (mmu : Mmu) (e : Word) : Mmu :=
  { mmu with hostAlloc := e, guestAlloc := toGuest e, base := toGuest e }

@[simp] theorem withEnd_entry (mmu : Mmu) (e : Word) : (mmu.withEnd e).entry = mmu.entry := rfl

/-- Where the allocator's memory starts after a segment: behind the last one. -/
def laterEnd (os : Os) (mmu : Mmu) (phdr : Elf64Phdr) : Word :=
  if (segmentEnd os phdr).ult mmu.hostAlloc then mmu.hostAlloc else segmentEnd os phdr

/-- It is the later of the two. -/
theorem laterEnd_max (mmu : Mmu) (phdr : Elf64Phdr) :
    mmu.hostAlloc.toNat ≤ (laterEnd os mmu phdr).toNat ∧
      (segmentEnd os phdr).toNat ≤ (laterEnd os mmu phdr).toNat ∧
      (laterEnd os mmu phdr = mmu.hostAlloc ∨ laterEnd os mmu phdr = segmentEnd os phdr) := by
  unfold laterEnd
  by_cases hmax : (segmentEnd os phdr).ult mmu.hostAlloc = true
  · rw [if_pos hmax]
    rw [ult_iff] at hmax
    exact ⟨by omega, by omega, .inl rfl⟩
  · rw [if_neg hmax]
    rw [ult_iff] at hmax
    exact ⟨by omega, by omega, .inr rfl⟩

/-- Loading a segment, in these terms. -/
theorem mmuLoadSegment_eq (w : World) (mmu : Mmu) (phdr : Elf64Phdr) (file : List (BitVec 8)) :
    mmuLoadSegment os w mmu phdr file =
      match os.mmapFixed w.clock w.mem (pageBase os phdr) (fromPageBase os phdr phdr.filesz) with
      | .fail _ => .error (.assertFail "addr == aligned_vaddr")
      | .ok () =>
        if bssLength os phdr = 0 then
          .ok (fileMapped os w phdr file, mmu.withEnd (laterEnd os mmu phdr))
        else
          match os.mmapFixed (fileMapped os w phdr file).clock (fileMapped os w phdr file).mem
            (fileEnd os phdr) (bssLength os phdr) with
          | .fail _ => .error (.assertFail "addr == aligned_vaddr + ROUNDUP(filesz, page_size)")
          | .ok () => .ok (bssMapped os (fileMapped os w phdr file) phdr,
              mmu.withEnd (laterEnd os mmu phdr)) := by
  unfold mmuLoadSegment fileMapped pastFile bssMapped laterEnd Mmu.withEnd fileEnd segmentEnd
    bssLength fromPageBase pageBase
  dsimp only
  generalize roundDown (toHost phdr.vaddr) os.pageSize = base
  generalize roundUp (phdr.filesz + (toHost phdr.vaddr - base)) os.pageSize = fileLen
  generalize roundUp (phdr.memsz + (toHost phdr.vaddr - base)) os.pageSize = memLen
  generalize phdr.filesz + (toHost phdr.vaddr - base) = filesz
  generalize os.mmapFixed w.clock w.mem base filesz = r
  cases r with
  | fail errno => rfl
  | ok u =>
      rw [ok_bind]
      by_cases hlen : memLen - fileLen = 0
      · rw [if_pos hlen, if_pos hlen]
        rfl
      · rw [if_neg hlen, if_neg hlen]
        generalize os.mmapFixed _ _ _ _ = r
        cases r <;> rfl

/-- **Loading a segment, taken apart.**  The pages of the file are mapped, and then those behind
them, unless there are none. -/
theorem mmuLoadSegment_inv {w w' : World} {mmu mmu' : Mmu} {phdr : Elf64Phdr}
    {file : List (BitVec 8)} (h : mmuLoadSegment os w mmu phdr file = .ok (w', mmu')) :
    os.mmapFixed w.clock w.mem (pageBase os phdr) (fromPageBase os phdr phdr.filesz) = .ok () ∧
      mmu' = mmu.withEnd (laterEnd os mmu phdr) ∧
      (bssLength os phdr = 0 ∧ w' = fileMapped os w phdr file ∨
        bssLength os phdr ≠ 0 ∧ w' = bssMapped os (fileMapped os w phdr file) phdr ∧
          os.mmapFixed (fileMapped os w phdr file).clock (fileMapped os w phdr file).mem
            (fileEnd os phdr) (bssLength os phdr) = .ok ()) := by
  rw [mmuLoadSegment_eq] at h
  split at h
  · cases h
  · rename_i hfile
    split at h
    · rename_i hlen
      cases h
      exact ⟨hfile, rfl, .inl ⟨hlen, rfl⟩⟩
    · rename_i hlen
      split at h
      · cases h
      · rename_i hbss
        cases h
        exact ⟨hfile, rfl, .inr ⟨hlen, rfl, hbss⟩⟩

/-- The end of what is mapped after a segment: as it was, or the end of the segment. -/
theorem mmuLoadSegment_end {w w' : World} {mmu mmu' : Mmu} {phdr : Elf64Phdr}
    {file : List (BitVec 8)} (h : mmuLoadSegment os w mmu phdr file = .ok (w', mmu')) :
    mmu' = mmu.withEnd mmu'.hostAlloc ∧
      (mmu'.hostAlloc = mmu.hostAlloc ∧ (segmentEnd os phdr).toNat < mmu.hostAlloc.toNat ∨
        mmu'.hostAlloc = segmentEnd os phdr) := by
  obtain ⟨-, hmmu, -⟩ := mmuLoadSegment_inv h
  rw [hmmu]
  refine ⟨rfl, ?_⟩
  by_cases hmax : (segmentEnd os phdr).ult mmu.hostAlloc = true
  · exact .inl ⟨if_pos hmax, (ult_iff _ _).mp hmax⟩
  · exact .inr (if_neg hmax)

/-- The end of what is mapped is the start of a page. -/
theorem MmuReachable.pageStart {mmu : Mmu} (h : MmuReachable os mmu) :
    PageStart os mmu.hostAlloc := by
  induction h with
  | start entry => exact Nat.dvd_zero _
  | segment _ hload ih =>
      rcases (mmuLoadSegment_end hload).2 with ⟨hsame, -⟩ | hend
      · rw [hsame]
        exact ih
      · rw [hend]
        exact pageStart_segmentEnd _
  | alloc _ halloc ih =>
      obtain ⟨-, -, -, hkind⟩ := mmuAlloc_inv halloc
      cases hkind with
      | grows hpos hend hmap => exact ih.add (pageStart_roundUp _)
      | shrinks hneg hend hlen hunmap =>
          rw [hlen]
          exact ih.sub ((pageStart_toGuest ih).sub (pageStart_roundUp _))
      | stays hgrow hshrink => exact ih

/-! ### The answers of `brk` -/

/-- A request that does not lie 2^63 or more above the break, and whose growth, in whole pages,
fits into the guest's addresses. -/
def InReach (os : Os) (mmu : Mmu) (a : Word) : Prop :=
  mmu.guestAlloc.toNat < a.toNat →
    (a - mmu.guestAlloc).toNat < 2 ^ 63 ∧
      ((toGuest mmu.hostAlloc).toNat < a.toNat →
        (toGuest mmu.hostAlloc).toNat +
          (roundUp (a - mmu.guestAlloc) os.pageSize).toNat < 2 ^ 64)

/-- Rounding up a break below the end of what is mapped does not wrap. -/
theorem le_roundUp {a b : Word} (hb : PageStart os b) (h : a.toNat ≤ b.toNat) :
    a.toNat ≤ (roundUp a os.pageSize).toNat := by
  have hfit : b.toNat + 2 ^ os.pageShift ≤ 2 ^ 64 := by
    have hdvd : 2 ^ os.pageShift ∣ 2 ^ 64 - b.toNat :=
      Nat.dvd_sub (Nat.pow_dvd_pow 2 (Nat.le_of_lt (pageShift_lt os))) hb
    have := Nat.le_of_dvd (by omega) hdvd
    omega
  have hup : (roundUp a os.pageSize).toNat = pageCeil os a.toNat :=
    Align.up_toNat (pageShift_lt os) (by omega)
  rw [hup]
  exact Align.le_ceil _ _

/-- A request within reach leaves the break inside what is mapped. -/
theorem AllocKind.mapped {w w' : World} {mmu mmu' : Mmu} {a : Word}
    (hpage : PageStart os mmu.hostAlloc) (hreach : InReach os mmu a)
    (hend : mmu.guestAlloc.toNat ≤ (toGuest mmu.hostAlloc).toNat)
    (h : AllocKind os w mmu (a - mmu.guestAlloc) w' mmu') :
    a.toNat ≤ (toGuest mmu'.hostAlloc).toNat := by
  have ha : mmu.guestAlloc + (a - mmu.guestAlloc) = a := add_sub_cancel _ _
  have hsub := BitVec.toNat_sub a mmu.guestAlloc
  cases h with
  | grows hpos hgrow hmap =>
      rw [ha] at hgrow
      obtain ⟨hsmall, hfit⟩ := hreach (by omega)
      have hceil : (roundUp (a - mmu.guestAlloc) os.pageSize).toNat ≥ (a - mmu.guestAlloc).toNat := by
        rw [roundUp_toNat (Nat.le_of_lt hsmall)]
        exact Align.le_ceil _ _
      have hmove : toGuest (mmu.hostAlloc + roundUp (a - mmu.guestAlloc) os.pageSize) =
          toGuest mmu.hostAlloc + roundUp (a - mmu.guestAlloc) os.pageSize := by
        unfold toGuest
        grind
      show a.toNat ≤ (toGuest (mmu.hostAlloc + roundUp (a - mmu.guestAlloc) os.pageSize)).toNat
      rw [hmove, BitVec.toNat_add, Nat.mod_eq_of_lt (hfit hgrow)]
      omega
  | @shrinks hneg hshrink len hlen hunmap =>
      rw [ha] at hlen
      have hle : a.toNat ≤ mmu.guestAlloc.toNat := by
        by_contra hgt
        have := (hreach (by omega)).1
        omega
      have hmove : toGuest (mmu.hostAlloc - len) = roundUp a os.pageSize := by
        rw [hlen]
        unfold toGuest
        grind
      show a.toNat ≤ (toGuest (mmu.hostAlloc - len)).toNat
      rw [hmove]
      exact le_roundUp (pageStart_toGuest hpage) (hle.trans hend)
  | stays hgrow hshrink =>
      rw [ha] at hgrow
      show a.toNat ≤ (toGuest mmu.hostAlloc).toNat
      by_cases hup : mmu.guestAlloc.toNat < a.toNat
      · exact hgrow (by omega) (hreach hup).1
      · omega

/-- A request from the base on is an allocation. -/
theorem sysBrk_eq {m : Machine} (h₀ : m.state.gp Reg.a0 ≠ 0)
    (hle : m.mmu.base.toNat ≤ (m.state.gp Reg.a0).toNat) :
    sysBrk os m =
      (mmuAlloc os m.state.world m.mmu (m.state.gp Reg.a0 - m.mmu.guestAlloc)).map
        fun p => (m.state.gp Reg.a0, { m.withWorld p.2.1 with mmu := p.2.2 }) := by
  unfold sysBrk
  simp only [if_neg h₀, (ule_iff _ _).mpr hle, assertThat, if_true, bind, Except.bind]
  cases mmuAlloc os m.state.world m.mmu (m.state.gp Reg.a0 - m.mmu.guestAlloc) <;> rfl

/-- **The answers of `brk`.**  Zero asks for the break and gets it; a request below the base
aborts the process; a request within reach is granted, with the break inside what is mapped,
unless the host refuses the memory it needs or gives back, which ends the process. -/
theorem sysBrk_answers {m : Machine} (hreach : MmuReachable os m.mmu)
    (hbase : m.mmu.base.toNat ≤ m.mmu.guestAlloc.toNat)
    (hend : m.mmu.guestAlloc.toNat ≤ (toGuest m.mmu.hostAlloc).toNat) :
    (m.state.gp Reg.a0 = 0 → sysBrk os m = .ok (m.mmu.guestAlloc, m)) ∧
      (m.state.gp Reg.a0 ≠ 0 → (m.state.gp Reg.a0).toNat < m.mmu.base.toNat →
        sysBrk os m = .error (.assertFail "addr >= m->mmu.base")) ∧
      (m.state.gp Reg.a0 ≠ 0 → m.mmu.base.toNat ≤ (m.state.gp Reg.a0).toNat →
        InReach os m.mmu (m.state.gp Reg.a0) →
        (∃ msg, HostRefuses os m.state.world m.mmu (m.state.gp Reg.a0 - m.mmu.guestAlloc) msg ∧
            sysBrk os m = .error (.fatal msg)) ∨
          ∃ m', sysBrk os m = .ok (m.state.gp Reg.a0, m') ∧
            m'.mmu.guestAlloc = m.state.gp Reg.a0 ∧ m'.mmu.base = m.mmu.base ∧
            m'.mmu.base.toNat ≤ m'.mmu.guestAlloc.toNat ∧
            m'.mmu.guestAlloc.toNat ≤ (toGuest m'.mmu.hostAlloc).toNat) := by
  refine ⟨fun h => sysBrk_zero h hbase, sysBrk_below, fun h₀ hle hin => ?_⟩
  have ha : m.mmu.guestAlloc + (m.state.gp Reg.a0 - m.mmu.guestAlloc) = m.state.gp Reg.a0 :=
    add_sub_cancel _ _
  have hrun : sysBrk os m = _ := sysBrk_eq h₀ hle
  rcases mmuAlloc_total os m.state.world hbase (by rw [ha]; exact hle) with
    ⟨msg, hrefuses, hfatal⟩ | ⟨w', mmu', hok⟩
  · exact .inl ⟨msg, hrefuses, by rw [hrun, hfatal]; rfl⟩
  · obtain ⟨-, -, -, hkind⟩ := mmuAlloc_inv hok
    obtain ⟨hbase', hbreak⟩ := hkind.target
    refine .inr ⟨{ m.withWorld w' with mmu := mmu' }, by rw [hrun, hok]; rfl, hbreak, hbase', ?_, ?_⟩
    · show mmu'.base.toNat ≤ mmu'.guestAlloc.toNat
      rw [hbase', hbreak]
      exact hle
    · show mmu'.guestAlloc.toNat ≤ (toGuest mmu'.hostAlloc).toNat
      rw [hbreak]
      exact hkind.mapped hreach.pageStart hin hend

end

/-- A host that maps what it is asked to, and fails otherwise. -/
def mappingOs : Os :=
  { failingOs 12 with
    mmapFixed := fun _ _ _ _ => .ok ()
    mmapAnon := fun _ _ hint _ => .ok hint }

/-- A page at 0x10000. -/
def samplePhdr : Elf64Phdr :=
  { type := ptLoad, flags := 7, offset := 0, vaddr := 0x10000, filesz := 0x1000, memsz := 0x1000 }

/-- A machine with that page loaded, asking for a break. -/
def askingAfterPage (a0 : Word) : Machine :=
  { initialMachine default with
    state := (initialMachine default).state.setGp Reg.a0 a0
    mmu := ⟨0, 0x88800011000, 0x11000, 0x11000⟩ }

theorem askingAfterPage_reachable (a0 : Word) :
    MmuReachable mappingOs (askingAfterPage a0).mmu := by
  have hload : (mmuLoadSegment mappingOs default (Mmu.start 0) samplePhdr []).map Prod.snd =
      .ok ⟨0, 0x88800011000, 0x11000, 0x11000⟩ := by decide +kernel
  obtain ⟨⟨w, mmu⟩, hseg, rfl⟩ := map_ok_inv hload
  exact .segment (.start 0) hseg

theorem sysBrk_answers_page :
    InReach mappingOs (askingAfterPage 0x12001).mmu 0x12001 ∧
      ∃ m', sysBrk mappingOs (askingAfterPage 0x12001) = .ok (0x12001, m') ∧
        m'.mmu.guestAlloc = 0x12001 ∧ m'.mmu.base = 0x11000 ∧
        m'.mmu.base.toNat ≤ m'.mmu.guestAlloc.toNat ∧
        m'.mmu.guestAlloc.toNat ≤ (toGuest m'.mmu.hostAlloc).toNat := by
  have hin : InReach mappingOs (askingAfterPage 0x12001).mmu 0x12001 :=
    fun _ => ⟨by decide, fun _ => by decide⟩
  obtain ⟨-, -, hgrant⟩ := sysBrk_answers (askingAfterPage_reachable 0x12001) (by decide)
    (by decide)
  refine ⟨hin, (hgrant (by decide) (by decide) hin).resolve_left ?_⟩
  rintro ⟨msg, hrefuses, -⟩
  cases hrefuses with
  | mmap hpos hend h => cases h
  | munmap hneg hend h => exact absurd hneg (by decide)

/-- A request below the base ends the process; it is not refused. -/
theorem brk_below_aborts :
    MmuReachable mappingOs (askingAfterPage 1).mmu ∧
      (askingAfterPage 1).mmu.base.toNat ≤ (askingAfterPage 1).mmu.guestAlloc.toNat ∧
      (askingAfterPage 1).mmu.guestAlloc.toNat ≤
        (toGuest (askingAfterPage 1).mmu.hostAlloc).toNat ∧
      (sysBrk mappingOs (askingAfterPage 1)).map Prod.fst =
        .error (.assertFail "addr >= m->mmu.base") :=
  ⟨askingAfterPage_reachable 1, by decide, by decide, by decide⟩

end Rvemu
