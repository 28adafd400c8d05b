/-
The image of a program of several segments.

Segments are loaded one after the other, each over whatever is there.  What a segment
touches are its pages; so if no two segments share a page, none disturbs another, and
each is in memory at the end as it was when it was loaded.  The allocator keeps the
largest of their ends.  Neither depends on the order.

That a segment occupies a range of pages says that these do not come round to the
first one; a length that does is taken for a short one.
-/
import Rvemu.Proofs.Headers
import Rvemu.Proofs.Segment

namespace Rvemu

open Memory

/-! ### Segments and their pages -/

/-- The program headers of a file, in the order of the table. -/
def phdrs (file : List (BitVec 8)) : List Elf64Phdr :=
  (List.range (Elf64Ehdr.ofBytes file).phnum.toNat).map fun i =>
    phdrEntry (Elf64Ehdr.ofBytes file) i file

/-- The headers of segments to load. -/
def segments (file : List (BitVec 8)) : List Elf64Phdr :=
  (phdrs file).filter fun p => p.type = ptLoad

/-- The guest address lies on a page of the segment. -/
def OnPage (os : Os) (p : Elf64Phdr) (x : Word) : Prop :=
  ∃ k < p.memsz.toNat, roundDown (p.vaddr + BitVec.ofNat 64 k) os.pageSize = roundDown x os.pageSize

/-- A segment that can be placed: it has bytes in the file, the file and the memory agree on
where a page starts, and it occupies a range of pages, which is no longer than the address space. -/
structure Placeable (os : Os) (p : Elf64Phdr) : Prop where
  pos : 0 < p.filesz.toNat
  le : p.filesz.toNat ≤ p.memsz.toNat
  cong : p.offset.toNat % 2 ^ os.pageShift = p.vaddr.toNat % 2 ^ os.pageShift
  isRange : pageOffset os p + p.memsz.toNat ≤ 2 ^ 64

/-- No page belongs to both. -/
def Apart (os : Os) (p q : Elf64Phdr) : Prop := ∀ x, ¬(OnPage os p x ∧ OnPage os q x)

theorem Apart.symm {os : Os} {p q : Elf64Phdr} (h : Apart os p q) : Apart os q p :=
  fun x hx => h x hx.symm

/-- Where a segment's memory ends, on the host's side, at the next page. -/
def hostEnd (os : Os) (p : Elf64Phdr) : Word := roundUp (toHost (p.vaddr + p.memsz)) os.pageSize

section

variable {os : Os} {top : Nat}

/-- It is what the loader computes from the start of the first page on. -/
theorem hostEnd_eq (os : Os) (p : Elf64Phdr) : hostEnd os p = segmentEnd os p := by
  have hsum : toHost (p.vaddr + p.memsz) = pageBase os p + fromPageBase os p p.memsz := by
    unfold fromPageBase
    rw [toHost_add]
    grind
  have hbase : PageStart os (pageBase os p) := pageStart_roundDown _
  unfold hostEnd segmentEnd
  rw [hsum, roundUp_add hbase]

/-- Pages on the guest's side are pages on the host's. -/
theorem roundDown_toHost (os : Os) (x : Word) :
    roundDown (toHost x) os.pageSize = toHost (roundDown x os.pageSize) := by
  unfold toHost
  rw [BitVec.add_comm x, BitVec.add_comm (roundDown x os.pageSize)]
  exact Align.down_add (pageShift_lt os) pageStart_offset x

theorem roundDown_inj {x y : Word} :
    roundDown x os.pageSize = roundDown y os.pageSize ↔
      Align.floor os.pageShift (toHost x).toNat = Align.floor os.pageShift (toHost y).toNat := by
  have hdown (z : Word) : (roundDown z os.pageSize).toNat = Align.floor os.pageShift z.toNat :=
    Align.down_toNat (pageShift_lt os) z
  rw [← hdown, ← hdown, BitVec.toNat_inj, roundDown_toHost, roundDown_toHost]
  exact (BitVec.add_left_inj guestMemoryOffset).symm

/-! ### One segment -/

/-- A segment that loads has its pages below the end of user space, the last one short of a
whole turn. -/
theorem Placeable.range (hc : MmapContract os top) {w w' : World} {mmu mmu' : Mmu} {p : Elf64Phdr}
    {file : List (BitVec 8)} (hp : Placeable os p)
    (h : mmuLoadSegment os w mmu p file = .ok (w', mmu')) :
    pageOffset os p + p.memsz.toNat < 2 ^ 64 ∧
      (pageBase os p).toNat + pageCeil os (pageOffset os p + p.memsz.toNat) ≤ top ∧
      (fileEnd os p).toNat + (bssLength os p).toNat =
        (pageBase os p).toNat + pageCeil os (pageOffset os p + p.memsz.toNat) := by
  have htop := hc.top_le
  obtain ⟨hend, hself, hpos, hsum, hfits⟩ := segment_fits hc h
  have hfit : pageOffset os p + p.memsz.toNat < 2 ^ 64 := by
    refine Nat.lt_of_le_of_ne hp.isRange fun hturn => ?_
    -- a whole turn leaves no length, and a length of bss that no host maps
    have hzero : fromPageBase os p p.memsz = 0 := by
      have hv := toHost_vaddr os p
      apply BitVec.eq_of_toNat_eq
      unfold fromPageBase
      rw [BitVec.toNat_add, BitVec.toNat_sub_of_le (by rw [BitVec.le_def]; omega), hv,
        Nat.add_sub_cancel_left, Nat.add_comm, hturn]
      rfl
    have hround : roundUp (0 : Word) os.pageSize = 0 :=
      Align.up_eq_of_dvd (pageShift_lt os) (Nat.dvd_zero _)
    have hbss := BitVec.toNat_sub (roundUp (fromPageBase os p p.memsz) os.pageSize)
      (roundUp (fromPageBase os p p.filesz) os.pageSize)
    obtain ⟨hmap, -, -⟩ := mmuLoadSegment_inv h
    obtain ⟨-, hfilesz, -⟩ := hc.fixed_fits hmap
    change (bssLength os p).toNat = _ at hbss
    rw [hzero, hround, show (0 : Word).toNat = 0 from rfl, Nat.add_zero,
      Nat.mod_eq_of_lt (by omega)] at hbss
    omega
  obtain ⟨-, hreach, -⟩ := segment_layout hc hp.le hfit h
  have hmemsz := fromPageBase_toNat hfit
  have hround : (roundUp (fromPageBase os p p.memsz) os.pageSize).toNat =
      pageCeil os (fromPageBase os p p.memsz).toNat := roundUp_toNat (by omega)
  have hseg : (segmentEnd os p).toNat = ((pageBase os p).toNat +
      (roundUp (fromPageBase os p p.memsz) os.pageSize).toNat) % 2 ^ 64 := BitVec.toNat_add _ _
  have hlt := Align.ceil_lt os.pageShift (pageOffset os p + p.memsz.toNat)
  have hpage : 2 ^ os.pageShift < 2 ^ 31 := Nat.pow_lt_pow_right (by decide) os.pageShift_lt
  rw [hround, hmemsz, Nat.mod_eq_of_lt (by unfold pageCeil; omega)] at hseg
  exact ⟨hfit, by omega, by omega⟩

/-- The host addresses of a segment's pages. -/
def HostPages (os : Os) (p : Elf64Phdr) (x : Word) : Prop :=
  Mem.InRange (pageBase os p) (pageCeil os (pageOffset os p + p.memsz.toNat)) x

theorem pageBase_dvd (os : Os) (p : Elf64Phdr) : 2 ^ os.pageShift ∣ (pageBase os p).toNat :=
  pageStart_roundDown _

theorem pageOffset_lt (os : Os) (p : Elf64Phdr) : pageOffset os p < 2 ^ os.pageShift :=
  Nat.mod_lt _ (Nat.two_pow_pos _)

/-- The `k`-th byte of a segment that ends in user space. -/
theorem toHost_byte (hc : MmapContract os top) {p : Elf64Phdr}
    (hfits : (pageBase os p).toNat + pageCeil os (pageOffset os p + p.memsz.toNat) ≤ top)
    {k : Nat} (hk : k < p.memsz.toNat) :
    (toHost (p.vaddr + BitVec.ofNat 64 k)).toNat =
      (pageBase os p).toNat + (pageOffset os p + k) := by
  have htop := hc.top_le
  have hceil := Align.le_ceil os.pageShift (pageOffset os p + p.memsz.toNat)
  unfold pageCeil at hfits
  rw [toHost_add, BitVec.toNat_add, toHost_vaddr os p, BitVec.toNat_ofNat,
    Nat.mod_eq_of_lt (b := 2 ^ 64) (a := k) (by omega), Nat.mod_eq_of_lt (by omega), Nat.add_assoc]

/-- The pages of a segment, on either side. -/
theorem onPage_iff (hc : MmapContract os top) {p : Elf64Phdr} (hpos : 0 < p.memsz.toNat)
    (hfits : (pageBase os p).toNat + pageCeil os (pageOffset os p + p.memsz.toNat) ≤ top)
    (x : Word) : OnPage os p x ↔ HostPages os p (toHost x) := by
  have hbase := pageBase_dvd os p
  have hoff := pageOffset_lt os p
  constructor
  · rintro ⟨k, hk, hpage⟩
    rw [roundDown_inj, toHost_byte hc hfits hk, Align.floor_add_left hbase] at hpage
    have hle := Align.floor_le os.pageShift (toHost x).toNat
    have hlt := Align.lt_floor_add os.pageShift (toHost x).toNat
    have hceil : Align.floor os.pageShift (pageOffset os p + k) + 2 ^ os.pageShift ≤
        pageCeil os (pageOffset os p + p.memsz.toNat) := Align.floor_add_le_ceil (by omega)
    exact ⟨by omega, by omega⟩
  · rintro ⟨hlo, hhi⟩
    -- the first byte of the segment on the page of `x`
    obtain ⟨j, hj⟩ := Nat.exists_eq_add_of_le hlo
    have hle := Align.floor_le os.pageShift j
    obtain ⟨c, hcpage⟩ := Align.dvd_floor os.pageShift j
    have hlast : Align.floor os.pageShift j < pageOffset os p + p.memsz.toNat := by
      by_contra hge
      have hup : pageCeil os (pageOffset os p + p.memsz.toNat) ≤ Align.floor os.pageShift j :=
        Align.ceil_le_of_dvd (Nat.le_of_not_lt hge) (Align.dvd_floor _ _)
      omega
    refine ⟨Align.floor os.pageShift j - pageOffset os p, by omega, ?_⟩
    rw [roundDown_inj, toHost_byte hc hfits (by omega), hj, Align.floor_add_left hbase,
      Align.floor_add_left hbase]
    refine congrArg ((pageBase os p).toNat + ·) ?_
    rcases Nat.lt_or_ge (Align.floor os.pageShift j) (pageOffset os p) with hfirst | hlater
    · -- it lies on the first page, before which the segment may not reach
      have hc0 : c = 0 := by
        by_contra hne
        have := Nat.le_mul_of_pos_right (2 ^ os.pageShift) (Nat.pos_of_ne_zero hne)
        omega
      rw [Nat.sub_eq_zero_of_le (Nat.le_of_lt hfirst), hcpage, hc0]
      unfold Align.floor
      rw [Nat.add_zero, Nat.div_eq_of_lt hoff, Nat.zero_mul, Nat.mul_zero]
    · rw [Nat.add_sub_cancel' hlater]
      exact Align.floor_eq_of_dvd (Align.dvd_floor _ _)

/-- Loading a segment gives its pages its protection and leaves all others alone. -/
theorem segment_pages (hc : MmapContract os top) {w w' : World} {mmu mmu' : Mmu} {p : Elf64Phdr}
    {file : List (BitVec 8)} (hp : Placeable os p)
    (h : mmuLoadSegment os w mmu p file = .ok (w', mmu')) (x : Word) :
    (HostPages os p x → w'.mem.prot x = some (flagsToMmapProt p.flags)) ∧
      (¬HostPages os p x → Mem.SameAt x w.mem w'.mem) := by
  obtain ⟨-, -, hsum⟩ := hp.range hc h
  obtain ⟨hend, -, -, -, -⟩ := segment_fits hc h
  obtain ⟨-, -, hw⟩ := mmuLoadSegment_inv h
  -- what is behind the pages of the file is in the range behind them
  have hsplit : HostPages os p x ↔
      Mem.InRange (pageBase os p) (roundUp (fromPageBase os p p.filesz) os.pageSize).toNat x ∨
        Mem.InRange (fileEnd os p) (bssLength os p).toNat x := by
    unfold HostPages Mem.InRange
    omega
  rw [hsplit]
  by_cases hbss : Mem.InRange (fileEnd os p) (bssLength os p).toNat x
  · rcases hw with ⟨hzero, -⟩ | ⟨-, rfl, -⟩
    · have hlt := hbss.2
      rw [hzero, show (0 : Word).toNat = 0 from rfl] at hlt
      have := hbss.1
      omega
    · exact ⟨fun _ => if_pos hbss, fun hno => absurd (.inr hbss) hno⟩
  · have hsame : Mem.SameAt x (fileMapped os w p file).mem w'.mem := by
      rcases hw with ⟨-, rfl⟩ | ⟨-, rfl, -⟩
      · exact .rfl
      · exact bssMapped_sameAt hbss
    refine ⟨fun hin => hsame.prot.trans (if_pos (hin.resolve_right hbss)), fun hno => ?_⟩
    rw [not_or] at hno
    exact (fileMapped_sameAt hno.1).trans hsame

/-- Guest memory holds a segment: its pages are mapped as it asks, and the bytes it has in the
file are in place. -/
structure InMemory (os : Os) (w : World) (p : Elf64Phdr) (file : List (BitVec 8)) : Prop where
  mapped : ∀ x, OnPage os p x → w.mem.prot (toHost x) = some (flagsToMmapProt p.flags)
  backed : ∀ k < p.filesz.toNat, p.offset.toNat + k < file.length →
    w.mem.unbacked (toHost (p.vaddr + BitVec.ofNat 64 k)) = false
  data : ∀ k < p.filesz.toNat, ∀ b, file[p.offset.toNat + k]? = some b →
    w.mem.byte (toHost (p.vaddr + BitVec.ofNat 64 k)) = b

theorem segment_inMemory (hc : MmapContract os top) {w w' : World} {mmu mmu' : Mmu} {p : Elf64Phdr}
    {file : List (BitVec 8)} (hp : Placeable os p)
    (h : mmuLoadSegment os w mmu p file = .ok (w', mmu')) : InMemory os w' p file := by
  obtain ⟨hfit, hfits, -⟩ := hp.range hc h
  have hpos := hp.pos
  have hle := hp.le
  have hholds {k : Nat} (hk : k < p.filesz.toNat) (hlen : p.offset.toNat + k < file.length) :=
    mmuLoadSegment_byte hc hle hp.cong hfit h (by omega : k < p.memsz.toNat)
      fun _ => Nat.lt_of_le_of_lt (Align.floor_le os.pageShift _) hlen
  constructor
  · intro x hx
    exact (segment_pages hc hp h (toHost x)).1 ((onPage_iff hc (by omega) hfits x).mp hx)
  · intro k hk hlen
    exact (hholds hk hlen).backed
  · intro k hk b hb
    have hbyte := (hholds hk (List.getElem?_eq_some_iff.mp hb).1).byte
    have hself : pageOffset os p + k < pageCeil os (pageOffset os p + p.filesz.toNat) :=
      Nat.lt_of_lt_of_le (by omega) (Align.le_ceil os.pageShift _)
    rwa [if_pos hself, List.getD_eq_getElem?_getD, hb] at hbyte

/-- A segment whose pages are as they were is in memory if it was. -/
theorem InMemory.same {w w' : World} {p : Elf64Phdr} {file : List (BitVec 8)}
    (hin : InMemory os w p file) (hle : p.filesz.toNat ≤ p.memsz.toNat)
    (h : ∀ y, OnPage os p y → Mem.SameAt (toHost y) w.mem w'.mem) : InMemory os w' p file where
  mapped y hy := by
    rw [(h y hy).prot]
    exact hin.mapped y hy
  backed k hk hlen := by
    rw [(h _ ⟨k, by omega, rfl⟩).unbacked]
    exact hin.backed k hk hlen
  data k hk b hb := by
    rw [(h _ ⟨k, by omega, rfl⟩).byte]
    exact hin.data k hk b hb

/-- A segment on other pages is not disturbed. -/
theorem InMemory.keep (hc : MmapContract os top) {w w' : World} {mmu mmu' : Mmu} {p q : Elf64Phdr}
    {file file' : List (BitVec 8)} (hin : InMemory os w q file') (hp : Placeable os p)
    (hq : q.filesz.toNat ≤ q.memsz.toNat) (hapart : Apart os q p)
    (h : mmuLoadSegment os w mmu p file = .ok (w', mmu')) : InMemory os w' q file' := by
  obtain ⟨-, hfits, -⟩ := hp.range hc h
  have hpos := hp.pos
  have hle := hp.le
  exact hin.same hq fun x hx => (segment_pages hc hp h (toHost x)).2
    fun hon => hapart x ⟨hx, (onPage_iff hc (by omega) hfits x).mpr hon⟩

/-! ### All segments -/

/-- The segments of a list are loaded, one after the other. -/
inductive LoadRun (os : Os) (file : List (BitVec 8)) :
    List Elf64Phdr → World → Mmu → World → Mmu → Prop
  | nil (w : World) (mmu : Mmu) : LoadRun os file [] w mmu w mmu
  | cons {p : Elf64Phdr} {ps : List Elf64Phdr} {w w₁ w' : World} {mmu mmu₁ mmu' : Mmu}
      (h : mmuLoadSegment os w mmu p file = .ok (w₁, mmu₁))
      (hrest : LoadRun os file ps w₁ mmu₁ w' mmu') : LoadRun os file (p :: ps) w mmu w' mmu'

/-- The loop over the program headers, when they have the size of the variable. -/
theorem loadPhdrs_run {file : List (BitVec 8)}
    (hsize : (Elf64Ehdr.ofBytes file).phentsize.toNat = sizeofElf64Phdr) {n i : Nat}
    {phdr : List (BitVec 8)} {w w' : World} {mmu mmu' : Mmu} (hphdr : phdr.length = sizeofElf64Phdr)
    (h : loadPhdrs os (Elf64Ehdr.ofBytes file) file i n phdr w mmu = .ok (w', mmu')) :
    LoadRun os file (((List.range' i n).map fun j =>
      phdrEntry (Elf64Ehdr.ofBytes file) j file).filter fun p => p.type = ptLoad) w mmu w' mmu' := by
  induction n generalizing i phdr w mmu with
  | zero =>
      cases h
      exact .nil _ _
  | succ n ih =>
      obtain ⟨phdr₁, w₁, mmu₁, hread, hrest, hstep⟩ := loadPhdrs_succ_inv h
      obtain ⟨hbytes, hlen⟩ := loadPhdr_full hsize hphdr hread
      have hentry : Elf64Phdr.ofBytes phdr₁ = phdrEntry (Elf64Ehdr.ofBytes file) i file := by
        rw [hbytes]
        rfl
      have hrun := ih hlen hrest
      rw [hentry] at hstep
      rw [List.range'_succ, List.map_cons]
      rcases hstep with ⟨htype, hload⟩ | ⟨htype, rfl, rfl⟩
      · rw [List.filter_cons_of_pos (by simpa using htype)]
        exact .cons hload hrun
      · rw [List.filter_cons_of_neg (by simpa using htype)]
        exact hrun

section

variable {file : List (BitVec 8)} {ps : List Elf64Phdr} {w w' : World} {mmu mmu' : Mmu}

/-- What is in memory stays there while segments on other pages are loaded. -/
theorem LoadRun.keep (hc : MmapContract os top) (h : LoadRun os file ps w mmu w' mmu')
    (hps : ∀ p ∈ ps, Placeable os p) {q : Elf64Phdr} {file' : List (BitVec 8)}
    (hq : q.filesz.toNat ≤ q.memsz.toNat) (hapart : ∀ p ∈ ps, Apart os q p)
    (hin : InMemory os w q file') : InMemory os w' q file' := by
  induction h with
  | nil => exact hin
  | cons hload _ ih =>
      have hkept := hin.keep hc (hps _ (List.mem_cons_self ..)) hq (hapart _ (List.mem_cons_self ..))
        hload
      exact ih (fun p hp => hps p (List.mem_cons_of_mem _ hp))
        (fun p hp => hapart p (List.mem_cons_of_mem _ hp)) hkept

/-- At the end every segment is in memory. -/
theorem LoadRun.inMemory (hc : MmapContract os top) (h : LoadRun os file ps w mmu w' mmu')
    (hps : ∀ p ∈ ps, Placeable os p) (hapart : ps.Pairwise (Apart os)) :
    ∀ p ∈ ps, InMemory os w' p file := by
  induction h with
  | nil => nofun
  | @cons p ps w w₁ w' mmu mmu₁ mmu' hload hrest ih =>
      obtain ⟨hhead, htail⟩ := List.pairwise_cons.mp hapart
      have hrest' : ∀ q ∈ ps, Placeable os q := fun q hq => hps q (List.mem_cons_of_mem _ hq)
      have hp := hps p (List.mem_cons_self ..)
      intro q hq
      rcases List.mem_cons.mp hq with rfl | hq
      · exact hrest.keep hc hrest' hp.le hhead (segment_inMemory hc hp hload)
      · exact ih hrest' htail q hq

/-- The end of what is mapped is the largest end of a segment, or what it was. -/
theorem LoadRun.hostAlloc (h : LoadRun os file ps w mmu w' mmu') :
    mmu.hostAlloc.toNat ≤ mmu'.hostAlloc.toNat ∧
      (∀ p ∈ ps, (hostEnd os p).toNat ≤ mmu'.hostAlloc.toNat) ∧
      (mmu'.hostAlloc = mmu.hostAlloc ∨ ∃ p ∈ ps, mmu'.hostAlloc = hostEnd os p) := by
  induction h with
  | nil => exact ⟨Nat.le_refl _, nofun, .inl rfl⟩
  | @cons p ps w w₁ w' mmu mmu₁ mmu' hload hrest ih =>
      obtain ⟨hle, hends, hkind⟩ := ih
      have hfirst : mmu.hostAlloc.toNat ≤ mmu₁.hostAlloc.toNat ∧
          (hostEnd os p).toNat ≤ mmu₁.hostAlloc.toNat ∧
          (mmu₁.hostAlloc = mmu.hostAlloc ∨ mmu₁.hostAlloc = hostEnd os p) := by
        rw [hostEnd_eq, (mmuLoadSegment_inv hload).2.1]
        show _ ≤ (laterEnd os mmu p).toNat ∧ _ ≤ (laterEnd os mmu p).toNat ∧
          (laterEnd os mmu p = _ ∨ laterEnd os mmu p = _)
        exact laterEnd_max mmu p
      refine ⟨by omega, fun q hq => ?_, ?_⟩
      · rcases List.mem_cons.mp hq with rfl | hq
        · omega
        · exact hends q hq
      · rcases hkind with hsame | ⟨q, hq, hlast⟩
        · rw [hsame]
          rcases hfirst.2.2 with hmmu | hmmu
          · exact .inl hmmu
          · exact .inr ⟨p, List.mem_cons_self .., hmmu⟩
        · exact .inr ⟨q, List.mem_cons_of_mem _ hq, hlast⟩

/-- The bounds of the heap start there. -/
theorem LoadRun.bounds (h : LoadRun os file ps w mmu w' mmu') (hne : ps ≠ []) :
    mmu'.base = toGuest mmu'.hostAlloc ∧ mmu'.guestAlloc = toGuest mmu'.hostAlloc := by
  induction h with
  | nil => exact absurd rfl hne
  | @cons p ps w w₁ w' mmu mmu₁ mmu' hload hrest ih =>
      cases hrest with
      | nil =>
          rw [(mmuLoadSegment_inv hload).2.1]
          exact ⟨rfl, rfl⟩
      | cons hload' hrest' => exact ih (List.cons_ne_nil _ _)

end

/-! ### The image -/

/-- What `mmu_load_elf` leaves: every segment in memory, and the allocator at the largest of
their ends. -/
structure Image (os : Os) (file : List (BitVec 8)) (w : World) (mmu : Mmu) : Prop where
  inMemory : ∀ p ∈ segments file, InMemory os w p file
  upper : ∀ p ∈ segments file, (hostEnd os p).toNat ≤ mmu.hostAlloc.toNat
  attained : ∃ p ∈ segments file, mmu.hostAlloc = hostEnd os p
  base : mmu.base = toGuest mmu.hostAlloc
  guestAlloc : mmu.guestAlloc = toGuest mmu.hostAlloc

/-- The files whose segments can be loaded side by side. -/
structure FileOk (os : Os) (file : List (BitVec 8)) : Prop where
  phentsize : (Elf64Ehdr.ofBytes file).phentsize.toNat = sizeofElf64Phdr
  nonempty : segments file ≠ []
  placeable : ∀ p ∈ segments file, Placeable os p
  apart : (segments file).Pairwise (Apart os)

section

variable {file phdr : List (BitVec 8)} {w w' : World} {mmu mmu' : Mmu}

theorem mmuLoadElf_run (hok : FileOk os file) (hphdr : phdr.length = sizeofElf64Phdr)
    (h : mmuLoadElf os phdr w mmu file = .ok (w', mmu')) :
    LoadRun os file (segments file) w { mmu with entry := (Elf64Ehdr.ofBytes file).entry } w'
      mmu' := by
  have hrun := loadPhdrs_run hok.phentsize hphdr (mmuLoadElf_inv h)
  rw [← List.range_eq_range'] at hrun
  exact hrun

theorem mmuLoadElf_image (hc : MmapContract os top) (hok : FileOk os file)
    (hphdr : phdr.length = sizeofElf64Phdr)
    (h : mmuLoadElf os phdr w (Mmu.start 0) file = .ok (w', mmu')) : Image os file w' mmu' := by
  have hrun := mmuLoadElf_run hok hphdr h
  obtain ⟨-, hupper, hkind⟩ := hrun.hostAlloc
  obtain ⟨hbase, hguest⟩ := hrun.bounds hok.nonempty
  refine ⟨hrun.inMemory hc hok.placeable hok.apart, hupper, ?_, hbase, hguest⟩
  rcases hkind with hzero | hattained
  · -- nothing is above zero, so every end is zero
    obtain ⟨p, hp⟩ := List.exists_mem_of_ne_nil _ hok.nonempty
    refine ⟨p, hp, BitVec.eq_of_toNat_eq ?_⟩
    have hle := hupper p hp
    rw [hzero] at hle ⊢
    exact (Nat.le_zero.mp hle).symm
  · exact hattained

end

/-- The same headers in another order. -/
theorem FileOk.perm {file file' : List (BitVec 8)} (hok : FileOk os file)
    (hsize : (Elf64Ehdr.ofBytes file').phentsize.toNat = sizeofElf64Phdr)
    (hperm : (phdrs file').Perm (phdrs file)) : FileOk os file' := by
  have hsegs : (segments file').Perm (segments file) := hperm.filter _
  refine ⟨hsize, fun hnil => ?_, fun p hp => hok.placeable p (hsegs.mem_iff.mp hp), ?_⟩
  · rw [hnil] at hsegs
    exact hok.nonempty hsegs.nil_eq.symm
  · exact (hsegs.pairwise_iff fun h => h.symm).mpr hok.apart

/-- The largest end is one and the same. -/
theorem Image.hostAlloc_eq {file file' : List (BitVec 8)} {w w' : World} {mmu mmu' : Mmu}
    (h : Image os file w mmu) (h' : Image os file' w' mmu')
    (hperm : (phdrs file').Perm (phdrs file)) : mmu'.hostAlloc = mmu.hostAlloc := by
  have hsegs : (segments file').Perm (segments file) := hperm.filter _
  obtain ⟨p, hp, hend⟩ := h.attained
  obtain ⟨p', hp', hend'⟩ := h'.attained
  have hle := h'.upper p (hsegs.mem_iff.mpr hp)
  have hle' := h.upper p' (hsegs.mem_iff.mp hp')
  rw [← hend] at hle
  rw [← hend'] at hle'
  exact BitVec.eq_of_toNat_eq (Nat.le_antisymm hle' hle)

/-! ### The load returns -/

/-- The host maps what it is asked for at a fixed address, if that is whole pages in user space. -/
def GrantsBelow (os : Os) (top : Nat) : Prop :=
  ∀ clock mem addr len, PageStart os addr → 0 < len.toNat →
    addr.toNat + pageCeil os len.toNat ≤ top → os.mmapFixed clock mem addr len = .ok ()

/-- The pages of a segment lie in user space. -/
def Fits (os : Os) (top : Nat) (p : Elf64Phdr) : Prop :=
  (pageBase os p).toNat + pageCeil os (pageOffset os p + p.memsz.toNat) ≤ top

/-- Where the parts of a segment in user space are: the pages of the file, and those behind. -/
structure Parts (os : Os) (p : Elf64Phdr) : Prop where
  filesz : (fromPageBase os p p.filesz).toNat = pageOffset os p + p.filesz.toNat
  filePages : (roundUp (fromPageBase os p p.filesz) os.pageSize).toNat =
    pageCeil os (pageOffset os p + p.filesz.toNat)
  fileEnd : (fileEnd os p).toNat =
    (pageBase os p).toNat + pageCeil os (pageOffset os p + p.filesz.toNat)
  bss : (bssLength os p).toNat = pageCeil os (pageOffset os p + p.memsz.toNat) -
    pageCeil os (pageOffset os p + p.filesz.toNat)
  le : pageCeil os (pageOffset os p + p.filesz.toNat) ≤
    pageCeil os (pageOffset os p + p.memsz.toNat)

theorem Placeable.parts (htop : top ≤ 2 ^ 62) {p : Elf64Phdr} (hp : Placeable os p)
    (hfits : Fits os top p) : Parts os p := by
  have hpos := hp.pos
  have hle := hp.le
  have hself := Align.le_ceil os.pageShift (pageOffset os p + p.memsz.toNat)
  have hmono : pageCeil os (pageOffset os p + p.filesz.toNat) ≤
      pageCeil os (pageOffset os p + p.memsz.toNat) := Align.ceil_mono _ (by omega)
  unfold Fits at hfits
  unfold pageCeil at hfits hmono
  have hfilesz : (fromPageBase os p p.filesz).toNat = pageOffset os p + p.filesz.toNat :=
    fromPageBase_toNat (by omega)
  have hmemsz : (fromPageBase os p p.memsz).toNat = pageOffset os p + p.memsz.toNat :=
    fromPageBase_toNat (by omega)
  have hfile : (roundUp (fromPageBase os p p.filesz) os.pageSize).toNat =
      Align.ceil os.pageShift (pageOffset os p + p.filesz.toNat) := by
    rw [roundUp_toNat (by omega), hfilesz, pageCeil]
  have hmem : (roundUp (fromPageBase os p p.memsz) os.pageSize).toNat =
      Align.ceil os.pageShift (pageOffset os p + p.memsz.toNat) := by
    rw [roundUp_toNat (by omega), hmemsz, pageCeil]
  refine ⟨hfilesz, hfile, ?_, ?_, hmono⟩
  · unfold Rvemu.fileEnd
    rw [BitVec.toNat_add, hfile, Nat.mod_eq_of_lt (by omega), pageCeil]
  · unfold bssLength
    rw [BitVec.toNat_sub_of_le (by rw [BitVec.le_def]; omega), hfile, hmem, pageCeil, pageCeil]

/-- A segment whose pages lie in user space loads. -/
theorem mmuLoadSegment_loads (hgrants : GrantsBelow os top) (htop : top ≤ 2 ^ 62) {p : Elf64Phdr}
    (hp : Placeable os p) (hfits : Fits os top p) (w : World) (mmu : Mmu)
    (file : List (BitVec 8)) : ∃ w' mmu', mmuLoadSegment os w mmu p file = .ok (w', mmu') := by
  have hpos := hp.pos
  have hparts := hp.parts htop hfits
  have hle := hparts.le
  unfold Fits at hfits
  have hfirst {clock : Nat} {mem : Mem 64} :
      os.mmapFixed clock mem (pageBase os p) (fromPageBase os p p.filesz) = .ok () := by
    have hfilesz := hparts.filesz
    refine hgrants _ _ _ _ (pageStart_roundDown _) (by omega) ?_
    rw [hfilesz]
    omega
  rw [mmuLoadSegment_eq, hfirst]
  dsimp only
  by_cases hbss : bssLength os p = 0
  · rw [if_pos hbss]
    exact ⟨_, _, rfl⟩
  · -- the pages behind those of the file end with the segment's
    have hend := hparts.fileEnd
    have hlen := hparts.bss
    have hwhole : pageCeil os (bssLength os p).toNat ≤ (bssLength os p).toNat := by
      refine Align.ceil_le_of_dvd (Nat.le_refl _) ?_
      rw [hlen]
      exact Nat.dvd_sub (Align.dvd_ceil _ _) (Align.dvd_ceil _ _)
    have hsecond {clock : Nat} {mem : Mem 64} :
        os.mmapFixed clock mem (fileEnd os p) (bssLength os p) = .ok () := by
      refine hgrants _ _ _ _ (pageStart_fileEnd _) ?_ (by omega)
      exact Nat.pos_of_ne_zero fun hz => hbss (BitVec.eq_of_toNat_eq hz)
    rw [if_neg hbss, hsecond]
    exact ⟨_, _, rfl⟩

/-- The loop over the program headers returns if every header can be read and every segment
loads. -/
theorem loadPhdrs_returns {file : List (BitVec 8)}
    (hsize : (Elf64Ehdr.ofBytes file).phentsize.toNat = sizeofElf64Phdr)
    (hseg : ∀ p ∈ segments file, ∀ w mmu, ∃ w' mmu', mmuLoadSegment os w mmu p file = .ok (w', mmu'))
    (hread : ∀ j < (Elf64Ehdr.ofBytes file).phnum.toNat,
      EntryReadable (Elf64Ehdr.ofBytes file) j file) {n i : Nat}
    (hn : i + n = (Elf64Ehdr.ofBytes file).phnum.toNat) {phdr : List (BitVec 8)}
    (hphdr : phdr.length = sizeofElf64Phdr) (w : World) (mmu : Mmu) :
    ∃ w' mmu', loadPhdrs os (Elf64Ehdr.ofBytes file) file i n phdr w mmu = .ok (w', mmu') := by
  induction n generalizing i phdr w mmu with
  | zero => exact ⟨w, mmu, rfl⟩
  | succ n ih =>
      have hload : loadPhdr phdr (Elf64Ehdr.ofBytes file) i file = _ :=
        loadPhdr_eq (hread i (by omega))
      obtain ⟨hbytes, hlen⟩ := loadPhdr_full hsize hphdr hload
      have hentry : phdrEntry (Elf64Ehdr.ofBytes file) i file ∈ phdrs file :=
        List.mem_map.mpr ⟨i, List.mem_range.mpr (by omega), rfl⟩
      unfold loadPhdrs
      rw [hload, hbytes, ok_bind]
      rw [hbytes] at hlen
      dsimp only
      rw [show Elf64Phdr.ofBytes (entryBytes (Elf64Ehdr.ofBytes file) i file) =
        phdrEntry (Elf64Ehdr.ofBytes file) i file from rfl]
      split
      · rename_i htype
        obtain ⟨w₁, mmu₁, hstep⟩ := hseg _ (List.mem_filter.mpr ⟨hentry, by simpa using htype⟩) w mmu
        rw [hstep]
        exact ih (by omega) hlen w₁ mmu₁
      · exact ih (by omega) hlen w mmu

/-- A file that passes the checks, whose headers can be read and whose segments fit, is loaded. -/
theorem mmuLoadElf_loads (hgrants : GrantsBelow os top) (htop : top ≤ 2 ^ 62)
    {file phdr : List (BitVec 8)} (hheader : ElfHeaderOk file) (hok : FileOk os file)
    (hread : ∀ j < (Elf64Ehdr.ofBytes file).phnum.toNat,
      EntryReadable (Elf64Ehdr.ofBytes file) j file)
    (hfits : ∀ p ∈ segments file, Fits os top p) (hphdr : phdr.length = sizeofElf64Phdr)
    (w : World) (mmu : Mmu) : ∃ w' mmu', mmuLoadElf os phdr w mmu file = .ok (w', mmu') := by
  have hload := loadPhdrs_returns hok.phentsize
    (fun p hp w mmu =>
      mmuLoadSegment_loads hgrants htop (hok.placeable p hp) (hfits p hp) w mmu file)
    hread (Nat.zero_add _) hphdr w { mmu with entry := (Elf64Ehdr.ofBytes file).entry }
  unfold mmuLoadElf
  rw [if_neg (Nat.not_lt.mpr hheader.length)]
  dsimp only
  rw [if_neg (not_not.mpr hheader.magic), if_neg]
  · exact hload
  · rw [not_or, not_not, not_not]
    exact ⟨hheader.machine, hheader.elfClass⟩

/-! ### The result -/

/-- **Loading a program of several segments.**  If the segments share no page, each is in memory
and all their pages are mapped, the allocator is at the largest of their ends, and the program
headers in any other order lead to the same. -/
theorem mmuLoadElf_image_perm (hc : MmapContract os top) {file phdr : List (BitVec 8)}
    {w w' : World} {mmu' : Mmu} (hok : FileOk os file) (hphdr : phdr.length = sizeofElf64Phdr)
    (h : mmuLoadElf os phdr w (Mmu.start 0) file = .ok (w', mmu')) :
    Image os file w' mmu' ∧
      ∀ {file₂ phdr₂ : List (BitVec 8)} {w₂ w₂' : World} {mmu₂' : Mmu},
        (phdrs file₂).Perm (phdrs file) →
        (Elf64Ehdr.ofBytes file₂).phentsize.toNat = sizeofElf64Phdr →
        phdr₂.length = sizeofElf64Phdr →
        mmuLoadElf os phdr₂ w₂ (Mmu.start 0) file₂ = .ok (w₂', mmu₂') →
        Image os file₂ w₂' mmu₂' ∧ mmu₂'.hostAlloc = mmu'.hostAlloc ∧ mmu₂'.base = mmu'.base ∧
          mmu₂'.guestAlloc = mmu'.guestAlloc := by
  have himage := mmuLoadElf_image hc hok hphdr h
  refine ⟨himage, fun hperm hsize hphdr₂ h₂ => ?_⟩
  have himage₂ := mmuLoadElf_image hc (hok.perm hsize hperm) hphdr₂ h₂
  have hend := himage.hostAlloc_eq himage₂ hperm
  refine ⟨himage₂, hend, ?_, ?_⟩
  · rw [himage₂.base, himage.base, hend]
  · rw [himage₂.guestAlloc, himage.guestAlloc, hend]

end

/-! ### Two segments -/

theorem apart_of_le {os : Os} {top : Nat} (hc : MmapContract os top) {p q : Elf64Phdr}
    (hp : 0 < p.memsz.toNat) (hq : 0 < q.memsz.toNat)
    (hle : (pageBase os p).toNat + pageCeil os (pageOffset os p + p.memsz.toNat) ≤
      (pageBase os q).toNat)
    (hfits : (pageBase os q).toNat + pageCeil os (pageOffset os q + q.memsz.toNat) ≤ top) :
    Apart os p q := by
  rintro x ⟨hxp, hxq⟩
  have hin := ((onPage_iff hc hp (by omega) x).mp hxp).2
  have hin' := ((onPage_iff hc hq hfits x).mp hxq).1
  omega

/-- A header that loads a byte of the file to `vaddr`, and a page and a byte of zeros behind. -/
def smallSegment (vaddr : Nat) : List (BitVec 8) :=
  littleEndian 4 1 ++ littleEndian 4 6 ++ littleEndian 8 0 ++ -- p_type, p_flags, p_offset
  littleEndian 8 vaddr ++ littleEndian 8 vaddr ++ -- p_vaddr, p_paddr
  littleEndian 8 1 ++ littleEndian 8 0x1002 ++ littleEndian 8 0x1000 -- sizes, p_align

def upwards : List (BitVec 8) :=
  elfFile 56 2 (smallSegment 0x10000 ++ smallSegment 0x20000)

def downwards : List (BitVec 8) :=
  elfFile 56 2 (smallSegment 0x20000 ++ smallSegment 0x10000)

def smallPhdr (vaddr : Word) : Elf64Phdr :=
  { type := ptLoad, flags := 6, offset := 0, vaddr := vaddr, filesz := 1, memsz := 0x1002 }

theorem upwards_phdrs : phdrs upwards = [smallPhdr 0x10000, smallPhdr 0x20000] := by decide +kernel

theorem downwards_phdrs : phdrs downwards = [smallPhdr 0x20000, smallPhdr 0x10000] := by
  decide +kernel

theorem upwards_ok : FileOk pagingOs upwards := by
  have hsegs : segments upwards = [smallPhdr 0x10000, smallPhdr 0x20000] := by
    unfold segments
    rw [upwards_phdrs]
    rfl
  refine ⟨by decide +kernel, by rw [hsegs]; nofun, fun p hp => ?_, ?_⟩
  · rw [hsegs] at hp
    rcases List.mem_cons.mp hp with rfl | hp
    · exact ⟨by decide, by decide, by decide, by decide⟩
    · rw [List.mem_singleton.mp hp]
      exact ⟨by decide, by decide, by decide, by decide⟩
  · rw [hsegs, List.pairwise_pair]
    exact apart_of_le pagingOs_contract (by decide) (by decide) (by decide) (by decide)

theorem mmuLoadElf_paging (phdr : List (BitVec 8)) (w : World) (mmu : Mmu)
    (file : List (BitVec 8)) :
    mmuLoadElf pagingOs phdr w mmu file = mmuLoadElf grantingOs phdr w mmu file := by
  simp only [mmuLoadElf, loadPhdrs_paging]

theorem loads_paging (file : List (BitVec 8))
    (h : (mmuLoadElf grantingOs (List.replicate 56 0) default (Mmu.start 0) file).map
      (fun _ => ()) = .ok ()) :
    ∃ w mmu, mmuLoadElf pagingOs (List.replicate 56 0) default (Mmu.start 0) file = .ok (w, mmu) := by
  obtain ⟨⟨w, mmu⟩, hload, -⟩ := map_ok_inv h
  exact ⟨w, mmu, by rw [mmuLoadElf_paging, hload]⟩

theorem mmuLoadElf_image_perm_sample :
    ∃ w mmu w₂ mmu₂,
      mmuLoadElf pagingOs (List.replicate 56 0) default (Mmu.start 0) upwards = .ok (w, mmu) ∧
      mmuLoadElf pagingOs (List.replicate 56 0) default (Mmu.start 0) downwards = .ok (w₂, mmu₂) ∧
      Image pagingOs upwards w mmu ∧ Image pagingOs downwards w₂ mmu₂ ∧
      mmu₂.hostAlloc = mmu.hostAlloc := by
  obtain ⟨w, mmu, h⟩ := loads_paging upwards (by decide +kernel)
  obtain ⟨w₂, mmu₂, h₂⟩ := loads_paging downwards (by decide +kernel)
  have hperm : (phdrs downwards).Perm (phdrs upwards) := by
    rw [upwards_phdrs, downwards_phdrs]
    exact .swap ..
  obtain ⟨himage, hall⟩ := mmuLoadElf_image_perm pagingOs_contract upwards_ok rfl h
  obtain ⟨himage₂, hend, -⟩ := hall hperm (by decide +kernel) rfl h₂
  exact ⟨w, mmu, w₂, mmu₂, h, h₂, himage, himage₂, hend⟩

end Rvemu
