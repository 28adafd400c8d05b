/-
What a loaded segment holds.

The file is mapped in whole pages, and whole pages of zeros behind it.  So the bytes
of the file arrive where they belong; but what the file has behind them, up to the
end of their last page, arrives as well, where the segment should be zero.  Nothing
clears it: the segment is right exactly if the file has only zeros there, or ends.

A segment whose length runs past the last address together with its offset in the
page is taken for a short one, and is never right.

A header that ELF allows loads if the host maps what it is asked for.  The exception
is a segment of zeros alone that starts with its page: the pages of the file are asked
for first, with no length, and the host refuses.
-/
import Rvemu.Proofs.Hole

namespace Rvemu

open Memory

section

variable {os : Os} {top : Nat}

/-- Guest memory is mapped at an address, and holds a byte there. -/
structure Holds (w : World) (a : Word) (b : BitVec 8) : Prop where
  mapped : (w.mem.prot (toHost a)).isSome = true
  backed : w.mem.unbacked (toHost a) = false
  byte : w.mem.byte (toHost a) = b

/-- Guest memory holds a segment: the bytes of the file, and zeros behind them. -/
structure SegmentLoaded (w : World) (phdr : Elf64Phdr) (file : List (BitVec 8)) : Prop where
  data : ∀ k, k < phdr.filesz.toNat → ∀ b, file[phdr.offset.toNat + k]? = some b →
    Holds w (phdr.vaddr + BitVec.ofNat 64 k) b
  bss : ∀ k, phdr.filesz.toNat ≤ k → k < phdr.memsz.toNat →
    Holds w (phdr.vaddr + BitVec.ofNat 64 k) 0

/-- Where in its first page a segment starts. -/
def pageOffset (os : Os) (phdr : Elf64Phdr) : Nat := phdr.vaddr.toNat % 2 ^ os.pageShift

/-- The file has only zeros where the segment should be zero and shares the last page of the
file's bytes, or ends before. -/
def TailClear (os : Os) (phdr : Elf64Phdr) (file : List (BitVec 8)) : Prop :=
  ∀ k b, phdr.filesz.toNat ≤ k → k < phdr.memsz.toNat →
    pageOffset os phdr + k < pageCeil os (pageOffset os phdr + phdr.filesz.toNat) →
    file[phdr.offset.toNat + k]? = some b → b = 0

/-! ### Where the bytes go -/

/-- The start of the segment, from the start of its first page on. -/
theorem toHost_vaddr (os : Os) (phdr : Elf64Phdr) :
    (toHost phdr.vaddr).toNat = (pageBase os phdr).toNat + pageOffset os phdr := by
  have hbase : (pageBase os phdr).toNat = Align.floor os.pageShift (toHost phdr.vaddr).toNat :=
    Align.down_toNat (pageShift_lt os) _
  have hmod : (toHost phdr.vaddr).toNat % 2 ^ os.pageShift = pageOffset os phdr := by
    have hdvd : 2 ^ os.pageShift ∣ 2 ^ 64 := Nat.pow_dvd_pow 2 (Nat.le_of_lt (pageShift_lt os))
    obtain ⟨c, hc⟩ : 2 ^ os.pageShift ∣ guestMemoryOffset.toNat := pageStart_offset
    unfold toHost pageOffset
    rw [BitVec.toNat_add, Nat.mod_mod_of_dvd _ hdvd, hc, Nat.add_mul_mod_self_left]
  rw [hbase, ← hmod, Align.floor_add_mod]

/-- The pages of the file are the first mapping, the pages behind them the second. -/
theorem fileMapped_sameAt {w : World} {phdr : Elf64Phdr} {file : List (BitVec 8)} {x : Word}
    (hx : ¬Mem.InRange (pageBase os phdr)
      (roundUp (fromPageBase os phdr phdr.filesz) os.pageSize).toNat x) :
    Mem.SameAt x w.mem (fileMapped os w phdr file).mem :=
  ⟨if_neg hx, if_neg hx, if_neg hx⟩

theorem bssMapped_sameAt {w : World} {phdr : Elf64Phdr} {x : Word}
    (hx : ¬Mem.InRange (fileEnd os phdr) (bssLength os phdr).toNat x) :
    Mem.SameAt x w.mem (bssMapped os w phdr).mem :=
  ⟨if_neg hx, if_neg hx, if_neg hx⟩

/-- Where in the file the first page of the segment starts. -/
theorem roundDown_offset {phdr : Elf64Phdr}
    (hcong : phdr.offset.toNat % 2 ^ os.pageShift = phdr.vaddr.toNat % 2 ^ os.pageShift) :
    (roundDown phdr.offset os.pageSize).toNat + pageOffset os phdr = phdr.offset.toNat := by
  have hdown : (roundDown phdr.offset os.pageSize).toNat =
      Align.floor os.pageShift phdr.offset.toNat := Align.down_toNat (pageShift_lt os) _
  rw [hdown, pageOffset, ← hcong, Align.floor_add_mod]

/-- The file ends before the page of a byte if it ends before the page of that byte in the
file. -/
theorem pastFile_iff {phdr : Elf64Phdr} {file : List (BitVec 8)}
    (hcong : phdr.offset.toNat % 2 ^ os.pageShift = phdr.vaddr.toNat % 2 ^ os.pageShift) (k : Nat) :
    pastFile os phdr file (pageOffset os phdr + k) = true ↔
      file.length ≤ Align.floor os.pageShift (phdr.offset.toNat + k) := by
  have hsize : os.pageSize.toNat = 2 ^ os.pageShift := Align.unit_toNat (pageShift_lt os)
  have hdvd : 2 ^ os.pageShift ∣ (roundDown phdr.offset os.pageSize).toNat := pageStart_roundDown _
  unfold pastFile
  rw [decide_eq_true_iff, hsize, ← roundDown_offset hcong, Nat.add_assoc,
    Align.floor_add_left hdvd]
  rfl

/-- A file that has the segment's bytes reaches every page that they are on. -/
theorem floor_lt_length {phdr : Elf64Phdr} {file : List (BitVec 8)}
    (hcong : phdr.offset.toNat % 2 ^ os.pageShift = phdr.vaddr.toNat % 2 ^ os.pageShift)
    (hcover : phdr.offset.toNat + phdr.filesz.toNat ≤ file.length) {k : Nat}
    (hk : pageOffset os phdr + k < pageCeil os (pageOffset os phdr + phdr.filesz.toNat)) :
    Align.floor os.pageShift (phdr.offset.toNat + k) < file.length := by
  have hoffset := roundDown_offset hcong
  have hdvd : 2 ^ os.pageShift ∣ (roundDown phdr.offset os.pageSize).toNat := pageStart_roundDown _
  -- the page starts before the last of the bytes
  have hlt : Align.floor os.pageShift (pageOffset os phdr + k) <
      pageOffset os phdr + phdr.filesz.toNat := by
    by_contra hge
    have hceil : pageCeil os (pageOffset os phdr + phdr.filesz.toNat) ≤
        Align.floor os.pageShift (pageOffset os phdr + k) :=
      Align.ceil_le_of_dvd (Nat.le_of_not_lt hge) (Align.dvd_floor _ _)
    have hfloor := Align.floor_le os.pageShift (pageOffset os phdr + k)
    omega
  rw [← hoffset, Nat.add_assoc, Align.floor_add_left hdvd]
  omega

/-- The part of a segment that is `size` long, from the start of its first page on. -/
theorem fromPageBase_toNat {phdr : Elf64Phdr} {size : Word}
    (h : pageOffset os phdr + size.toNat < 2 ^ 64) :
    (fromPageBase os phdr size).toNat = pageOffset os phdr + size.toNat := by
  have hv := toHost_vaddr os phdr
  unfold fromPageBase
  rw [BitVec.toNat_add, BitVec.toNat_sub_of_le (by rw [BitVec.le_def]; omega)]
  omega

/-- A loaded segment, laid out: it starts in its first page, the file's pages end where the
file's bytes do, rounded up, and the pages of the segment reach past its last byte. -/
theorem segment_layout (hc : MmapContract os top) {w w' : World} {mmu mmu' : Mmu}
    {phdr : Elf64Phdr} {file : List (BitVec 8)} (hle : phdr.filesz.toNat ≤ phdr.memsz.toNat)
    (hfit : pageOffset os phdr + phdr.memsz.toNat < 2 ^ 64)
    (h : mmuLoadSegment os w mmu phdr file = .ok (w', mmu')) :
    (fileEnd os phdr).toNat = (pageBase os phdr).toNat +
        pageCeil os (pageOffset os phdr + phdr.filesz.toNat) ∧
      (pageBase os phdr).toNat + pageOffset os phdr + phdr.memsz.toNat ≤
        (fileEnd os phdr).toNat + (bssLength os phdr).toNat ∧
      (fileEnd os phdr).toNat + (bssLength os phdr).toNat ≤ top := by
  have htop := hc.top_le
  obtain ⟨hend, hself, -, hsum, hfits⟩ := segment_fits hc h
  obtain ⟨hmap, -, -⟩ := mmuLoadSegment_inv h
  obtain ⟨-, hpos, -⟩ := hc.fixed_fits hmap
  have hfilesz : (fromPageBase os phdr phdr.filesz).toNat =
      pageOffset os phdr + phdr.filesz.toNat := fromPageBase_toNat (by omega)
  have hmemsz := fromPageBase_toNat hfit
  have hround : (roundUp (fromPageBase os phdr phdr.filesz) os.pageSize).toNat =
      pageCeil os (fromPageBase os phdr phdr.filesz).toNat := roundUp_toNat (by omega)
  refine ⟨by rw [hend, hround, hfilesz], ?_, by omega⟩
  -- the end of the segment lies behind its start, so rounding up its length has not wrapped
  have hseg : (segmentEnd os phdr).toNat = ((pageBase os phdr).toNat +
      (roundUp (fromPageBase os phdr phdr.memsz) os.pageSize).toNat) % 2 ^ 64 :=
    BitVec.toNat_add _ _
  have hup : (fromPageBase os phdr phdr.memsz).toNat ≤
      (roundUp (fromPageBase os phdr phdr.memsz) os.pageSize).toNat := by
    refine Align.le_up (pageShift_lt os) fun hzero => ?_
    have hzero' : (roundUp (fromPageBase os phdr phdr.memsz) os.pageSize).toNat = 0 :=
      congrArg BitVec.toNat hzero
    rw [hzero', Nat.add_zero, Nat.mod_eq_of_lt (by omega)] at hseg
    omega
  omega

/-- What lies at the `k`-th byte of a loaded segment: on the pages of the file its bytes, if it
reaches them, and zeros behind. -/
theorem mmuLoadSegment_byte (hc : MmapContract os top) {w w' : World} {mmu mmu' : Mmu}
    {phdr : Elf64Phdr} {file : List (BitVec 8)} (hle : phdr.filesz.toNat ≤ phdr.memsz.toNat)
    (hcong : phdr.offset.toNat % 2 ^ os.pageShift = phdr.vaddr.toNat % 2 ^ os.pageShift)
    (hfit : pageOffset os phdr + phdr.memsz.toNat < 2 ^ 64)
    (h : mmuLoadSegment os w mmu phdr file = .ok (w', mmu')) {k : Nat}
    (hk : k < phdr.memsz.toNat)
    (hback : pageOffset os phdr + k < pageCeil os (pageOffset os phdr + phdr.filesz.toNat) →
      Align.floor os.pageShift (phdr.offset.toNat + k) < file.length) :
    Holds w' (phdr.vaddr + BitVec.ofNat 64 k)
      (if pageOffset os phdr + k < pageCeil os (pageOffset os phdr + phdr.filesz.toNat) then
        file.getD (phdr.offset.toNat + k) 0 else 0) := by
  have htop := hc.top_le
  obtain ⟨hend, hreach, hfits⟩ := segment_layout hc hle hfit h
  obtain ⟨hend', -, -, -, -⟩ := segment_fits hc h
  obtain ⟨-, -, hw⟩ := mmuLoadSegment_inv h
  have hx : (toHost (phdr.vaddr + BitVec.ofNat 64 k)).toNat =
      (pageBase os phdr).toNat + (pageOffset os phdr + k) := by
    have hmove : toHost (phdr.vaddr + BitVec.ofNat 64 k) = toHost phdr.vaddr + BitVec.ofNat 64 k := by
      unfold toHost
      grind
    have hk' : (BitVec.ofNat 64 k).toNat = k := by
      rw [BitVec.toNat_ofNat, Nat.mod_eq_of_lt (by omega)]
    rw [hmove, BitVec.toNat_add, toHost_vaddr os phdr, hk', Nat.mod_eq_of_lt (by omega)]
    omega
  have hoffset := roundDown_offset hcong
  by_cases hin : pageOffset os phdr + k < pageCeil os (pageOffset os phdr + phdr.filesz.toNat)
  · rw [if_pos hin]
    -- on the file's pages, which the pages behind them leave alone
    have hrange : Mem.InRange (pageBase os phdr)
        (roundUp (fromPageBase os phdr phdr.filesz) os.pageSize).toNat
        (toHost (phdr.vaddr + BitVec.ofNat 64 k)) := ⟨by omega, by omega⟩
    have hfile : Holds (fileMapped os w phdr file) (phdr.vaddr + BitVec.ofNat 64 k)
        (file.getD (phdr.offset.toNat + k) 0) := by
      constructor
      · exact congrArg Option.isSome (if_pos hrange)
      · refine (if_pos hrange).trans ?_
        rw [hx, Nat.add_sub_cancel_left]
        refine Bool.eq_false_iff.mpr fun hpast => ?_
        exact Nat.not_le.mpr (hback hin) ((pastFile_iff hcong k).mp hpast)
      · refine (if_pos hrange).trans ?_
        rw [hx, Nat.add_sub_cancel_left, ← Nat.add_assoc, hoffset]
    rcases hw with ⟨-, rfl⟩ | ⟨-, rfl, -⟩
    · exact hfile
    · have hnot : ¬Mem.InRange (fileEnd os phdr) (bssLength os phdr).toNat
          (toHost (phdr.vaddr + BitVec.ofNat 64 k)) := fun hin' => by have := hin'.1; omega
      have hsame := bssMapped_sameAt (w := fileMapped os w phdr file) hnot
      constructor
      · exact (congrArg Option.isSome hsame.prot).trans hfile.mapped
      · exact hsame.unbacked.trans hfile.backed
      · exact hsame.byte.trans hfile.byte
  · rw [if_neg hin]
    have hrange : Mem.InRange (fileEnd os phdr) (bssLength os phdr).toNat
        (toHost (phdr.vaddr + BitVec.ofNat 64 k)) := ⟨by omega, by omega⟩
    rcases hw with ⟨hzero, -⟩ | ⟨-, rfl, -⟩
    · rw [hzero] at hrange
      have := hrange.1
      have hlt : _ < _ + 0 := hrange.2
      omega
    · constructor
      · exact congrArg Option.isSome (if_pos hrange)
      · exact if_pos hrange
      · exact if_pos hrange

/-- A segment whose length wraps with the offset in its page claims an address behind user
space, which is not mapped. -/
theorem not_loaded_of_wrap (hc : MmapContract os top) {w w' : World} {mmu mmu' : Mmu}
    {phdr : Elf64Phdr} {file : List (BitVec 8)} (hfree : FreeFrom w.mem.prot top)
    (hcover : phdr.offset.toNat + phdr.filesz.toNat ≤ file.length)
    (hwrap : 2 ^ 64 ≤ pageOffset os phdr + phdr.memsz.toNat)
    (h : mmuLoadSegment os w mmu phdr file = .ok (w', mmu')) : ¬SegmentLoaded w' phdr file := by
  intro hloaded
  have htop := hc.top_le
  obtain ⟨hend, hself, -, hsum, hfits⟩ := segment_fits hc h
  obtain ⟨hmap, -, hw⟩ := mmuLoadSegment_inv h
  obtain ⟨-, hpos, -⟩ := hc.fixed_fits hmap
  have hv := toHost_vaddr os phdr
  have hoff : pageOffset os phdr < 2 ^ os.pageShift := Nat.mod_lt _ (Nat.two_pow_pos _)
  -- the file's part takes a page at least
  have hle : 2 ^ os.pageShift ≤ (roundUp (fromPageBase os phdr phdr.filesz) os.pageSize).toNat :=
    Nat.le_of_dvd (by omega) (pageStart_roundUp _)
  have hk : top - (toHost phdr.vaddr).toNat < phdr.memsz.toNat := by omega
  have hx : (toHost (phdr.vaddr + BitVec.ofNat 64 (top - (toHost phdr.vaddr).toNat))).toNat =
      top := by
    have hmove : toHost (phdr.vaddr + BitVec.ofNat 64 (top - (toHost phdr.vaddr).toNat)) =
        toHost phdr.vaddr + BitVec.ofNat 64 (top - (toHost phdr.vaddr).toNat) := by
      unfold toHost
      grind
    rw [hmove, BitVec.toNat_add, BitVec.toNat_ofNat, Nat.mod_eq_of_lt (b := 2 ^ 64) (by omega),
      Nat.mod_eq_of_lt (by omega)]
    omega
  generalize top - (toHost phdr.vaddr).toNat = k at hk hx
  have hmapped : (w'.mem.prot (toHost (phdr.vaddr + BitVec.ofNat 64 k))).isSome = true := by
    by_cases hdata : k < phdr.filesz.toNat
    · exact (hloaded.data k hdata _ (List.getElem?_eq_getElem (by omega))).mapped
    · exact (hloaded.bss k (by omega) hk).mapped
  have hfile : (fileMapped os w phdr file).mem.prot (toHost (phdr.vaddr + BitVec.ofNat 64 k)) =
      none := (if_neg fun hin => by have := hin.2; omega).trans (hfree _ (by omega))
  have hnone : w'.mem.prot (toHost (phdr.vaddr + BitVec.ofNat 64 k)) = none := by
    rcases hw with ⟨-, rfl⟩ | ⟨-, rfl, -⟩
    · exact hfile
    · exact (if_neg fun hin => by have := hin.2; omega).trans hfile
  rw [hnone] at hmapped
  cases hmapped

/-- **When a segment is loaded right.**  Exactly if its length does not wrap and the file has
only zeros, or nothing, where its last page goes on into the part that should be zero. -/
theorem mmuLoadSegment_loaded_iff (hc : MmapContract os top) {w w' : World} {mmu mmu' : Mmu}
    {phdr : Elf64Phdr} {file : List (BitVec 8)} (hfree : FreeFrom w.mem.prot top)
    (hle : phdr.filesz.toNat ≤ phdr.memsz.toNat)
    (hcong : phdr.offset.toNat % 2 ^ os.pageShift = phdr.vaddr.toNat % 2 ^ os.pageShift)
    (hcover : phdr.offset.toNat + phdr.filesz.toNat ≤ file.length)
    (h : mmuLoadSegment os w mmu phdr file = .ok (w', mmu')) :
    SegmentLoaded w' phdr file ↔
      pageOffset os phdr + phdr.memsz.toNat < 2 ^ 64 ∧ TailClear os phdr file := by
  constructor
  · intro hloaded
    have hfit : pageOffset os phdr + phdr.memsz.toNat < 2 ^ 64 :=
      Nat.lt_of_not_le fun hwrap => not_loaded_of_wrap hc hfree hcover hwrap h hloaded
    refine ⟨hfit, fun k b hlo hhi hpage hb => ?_⟩
    have hbyte :=
      (mmuLoadSegment_byte hc hle hcong hfit h hhi fun hin => floor_lt_length hcong hcover hin).byte
    rw [if_pos hpage, (hloaded.bss k hlo hhi).byte, List.getD_eq_getElem?_getD, hb] at hbyte
    exact hbyte.symm
  · rintro ⟨hfit, hclear⟩
    have hholds (k : Nat) (hk : k < phdr.memsz.toNat) :=
      mmuLoadSegment_byte hc hle hcong hfit h hk fun hin => floor_lt_length hcong hcover hin
    refine ⟨fun k hk b hb => ?_, fun k hlo hhi => ?_⟩
    · have hself : pageOffset os phdr + k < pageCeil os (pageOffset os phdr + phdr.filesz.toNat) :=
        Nat.lt_of_lt_of_le (by omega) (Align.le_ceil os.pageShift _)
      have hk' := hholds k (by omega)
      rw [if_pos hself, List.getD_eq_getElem?_getD, hb] at hk'
      exact hk'
    · have hk' := hholds k hhi
      by_cases hpage : pageOffset os phdr + k <
          pageCeil os (pageOffset os phdr + phdr.filesz.toNat)
      · rw [if_pos hpage, List.getD_eq_getElem?_getD] at hk'
        cases hb : file[phdr.offset.toNat + k]? with
        | none =>
            rw [hb] at hk'
            exact hk'
        | some b =>
            rw [hb, hclear k b hlo hhi hpage hb] at hk'
            exact hk'
      · rw [if_neg hpage] at hk'
        exact hk'

end

/-- A segment of two bytes, the first of them from the file. -/
def twoBytes : Elf64Phdr :=
  { type := ptLoad, flags := 6, offset := 0, vaddr := 0x10000, filesz := 1, memsz := 2 }

theorem twoBytes_loads (file : List (BitVec 8)) :
    ∃ w mmu, mmuLoadSegment pagingOs default (Mmu.start 0x10000) twoBytes file = .ok (w, mmu) := by
  have hok : (mmuLoadSegment pagingOs default (Mmu.start 0x10000) twoBytes file).map
      (fun _ => ()) = .ok () := rfl
  obtain ⟨⟨w, mmu⟩, h, -⟩ := map_ok_inv hok
  exact ⟨w, mmu, h⟩

theorem mmuLoadSegment_loaded_iff_sample :
    ∃ w mmu, mmuLoadSegment pagingOs default (Mmu.start 0x10000) twoBytes [1] = .ok (w, mmu) ∧
      (SegmentLoaded w twoBytes [1] ↔
        pageOffset pagingOs twoBytes + twoBytes.memsz.toNat < 2 ^ 64 ∧
          TailClear pagingOs twoBytes [1]) := by
  obtain ⟨w, mmu, h⟩ := twoBytes_loads [1]
  refine ⟨w, mmu, h, ?_⟩
  exact mmuLoadSegment_loaded_iff pagingOs_contract (fun _ _ => rfl) (by decide) (by decide)
    (by decide) h

/-- What the file has behind the segment's bytes is in memory where a zero should be. -/
theorem bss_not_cleared :
    ∃ w mmu, mmuLoadSegment pagingOs default (Mmu.start 0x10000) twoBytes [1, 2] = .ok (w, mmu) ∧
      ¬SegmentLoaded w twoBytes [1, 2] := by
  obtain ⟨w, mmu, h⟩ := twoBytes_loads [1, 2]
  refine ⟨w, mmu, h, fun hloaded => ?_⟩
  have hbyte := (mmuLoadSegment_byte pagingOs_contract (by decide) (by decide) (by decide) h
    (k := 1) (by decide) fun _ => by decide).byte
  have hpage : pageOffset pagingOs twoBytes + 1 <
      pageCeil pagingOs (pageOffset pagingOs twoBytes + twoBytes.filesz.toNat) := by decide
  rw [if_pos hpage, (hloaded.bss 1 (by decide) (by decide)).byte] at hbyte
  cases hbyte

/-! ### Which segments load -/

/-- A header of a segment that ELF allows, with addresses that do not wrap on either side. -/
structure LegalPhdr (os : Os) (phdr : Elf64Phdr) : Prop where
  le : phdr.filesz.toNat ≤ phdr.memsz.toNat
  pos : 0 < phdr.memsz.toNat
  cong : phdr.offset.toNat % 2 ^ os.pageShift = phdr.vaddr.toNat % 2 ^ os.pageShift
  noWrap : phdr.vaddr.toNat + guestMemoryOffset.toNat + phdr.memsz.toNat ≤ 2 ^ 64

/-- A host that maps every length but none at all. -/
def GrantsFixed (os : Os) : Prop :=
  ∀ clock mem addr len, os.mmapFixed clock mem addr len = .ok () ↔ 0 < len.toNat

/-- The lengths that a segment asks the host to map, one after the other as long as it does. -/
def mmapLengths (os : Os) (phdr : Elf64Phdr) : List Word :=
  fromPageBase os phdr phdr.filesz ::
    if bssLength os phdr = 0 then [] else [bssLength os phdr]

/-- The pages of the file are no more than those of the segment. -/
def BssNotNegative (os : Os) (phdr : Elf64Phdr) : Prop :=
  (roundUp (fromPageBase os phdr phdr.filesz) os.pageSize).toNat ≤
    (roundUp (fromPageBase os phdr phdr.memsz) os.pageSize).toNat

section

variable {os : Os} {phdr : Elf64Phdr}

/-- A part of a legal segment, and the pages it takes. -/
theorem LegalPhdr.part (hl : LegalPhdr os phdr) {size : Word} (hsize : size.toNat ≤ phdr.memsz.toNat) :
    (fromPageBase os phdr size).toNat = pageOffset os phdr + size.toNat ∧
      (roundUp (fromPageBase os phdr size) os.pageSize).toNat =
        pageCeil os (pageOffset os phdr + size.toNat) := by
  have hoff : pageOffset os phdr ≤ phdr.vaddr.toNat := Nat.mod_le _ _
  have hgap : 2 ^ 40 ≤ guestMemoryOffset.toNat := by decide
  have hpage : 2 ^ os.pageShift < 2 ^ 31 := Nat.pow_lt_pow_right (by decide) os.pageShift_lt
  have hnoWrap := hl.noWrap
  have hpart : (fromPageBase os phdr size).toNat = pageOffset os phdr + size.toNat :=
    fromPageBase_toNat (by omega)
  refine ⟨hpart, ?_⟩
  rw [← hpart]
  exact Align.up_toNat (pageShift_lt os) (by omega)

theorem LegalPhdr.bssNotNegative (hl : LegalPhdr os phdr) : BssNotNegative os phdr := by
  unfold BssNotNegative
  rw [(hl.part hl.le).2, (hl.part (Nat.le_refl _)).2]
  exact Align.ceil_mono _ (Nat.add_le_add_left hl.le _)

/-- The length of the first call is zero for zeros alone that start with their page. -/
theorem LegalPhdr.firstLength (hl : LegalPhdr os phdr) :
    fromPageBase os phdr phdr.filesz = 0 ↔ phdr.filesz = 0 ∧ pageOffset os phdr = 0 := by
  rw [← BitVec.toNat_inj, (hl.part hl.le).1, ← BitVec.toNat_inj (x := phdr.filesz)]
  show _ + _ = 0 ↔ _ = 0 ∧ _
  omega

/-- **Which legal segments load.**  On a host that maps every positive length, a legal segment
loads, with no call for a length of zero and no negative rest, unless it has no bytes in the file
and starts with its page. -/
theorem mmuLoadSegment_ok_iff (hgrants : GrantsFixed os) (hl : LegalPhdr os phdr) (w : World)
    (mmu : Mmu) (file : List (BitVec 8)) :
    ((∀ len ∈ mmapLengths os phdr, len ≠ 0) ∧ BssNotNegative os phdr ∧
        ∃ w' mmu', mmuLoadSegment os w mmu phdr file = .ok (w', mmu')) ↔
      ¬(phdr.filesz = 0 ∧ pageOffset os phdr = 0) := by
  rw [← hl.firstLength]
  constructor
  · rintro ⟨hlengths, -, -⟩
    exact hlengths _ (List.mem_cons_self ..)
  · intro hfirst
    have hlengths : ∀ len ∈ mmapLengths os phdr, len ≠ 0 := by
      intro len hlen
      rcases List.mem_cons.mp hlen with rfl | hbss
      · exact hfirst
      · split at hbss
        · cases hbss
        · rename_i hne
          rw [List.mem_singleton.mp hbss]
          exact hne
    have hgrant {clock : Nat} {mem : Mem 64} {addr len : Word} (hlen : len ≠ 0) :
        os.mmapFixed clock mem addr len = .ok () :=
      (hgrants ..).mpr (Nat.pos_of_ne_zero fun hz => hlen (BitVec.eq_of_toNat_eq hz))
    refine ⟨hlengths, hl.bssNotNegative, ?_⟩
    rw [mmuLoadSegment_eq, hgrant hfirst]
    dsimp only
    by_cases hbss : bssLength os phdr = 0
    · rw [if_pos hbss]
      exact ⟨_, _, rfl⟩
    · rw [if_neg hbss, hgrant hbss]
      exact ⟨_, _, rfl⟩

end

/-- A host that maps every length but none at all. -/
def eagerOs : Os :=
  { grantingOs with mmapFixed := fun _ _ _ len => if 0 < len.toNat then .ok () else .fail 22 }

theorem eagerOs_grants : GrantsFixed eagerOs := by
  intro clock mem addr len
  dsimp only [eagerOs]
  split
  · rename_i hlen
    exact ⟨fun _ => hlen, fun _ => rfl⟩
  · rename_i hlen
    exact ⟨nofun, fun h => absurd h hlen⟩

/-- A page of zeros. -/
def zeroPage : Elf64Phdr :=
  { type := ptLoad, flags := 6, offset := 0, vaddr := 0x10000, filesz := 0, memsz := 0x1000 }

theorem zeroPage_legal : LegalPhdr eagerOs zeroPage :=
  ⟨by decide, by decide, by decide, by decide⟩

theorem twoBytes_legal : LegalPhdr eagerOs twoBytes :=
  ⟨by decide, by decide, by decide, by decide⟩

theorem mmuLoadSegment_ok_iff_twoBytes :
    (∀ len ∈ mmapLengths eagerOs twoBytes, len ≠ 0) ∧ BssNotNegative eagerOs twoBytes ∧
      ∃ w' mmu', mmuLoadSegment eagerOs default (Mmu.start 0) twoBytes [1] = .ok (w', mmu') :=
  (mmuLoadSegment_ok_iff eagerOs_grants twoBytes_legal default (Mmu.start 0) [1]).mpr (by decide)

/-- A segment of zeros that starts with its page aborts the process. -/
theorem zeroPage_aborts :
    LegalPhdr eagerOs zeroPage ∧ GrantsFixed eagerOs ∧ 0 ∈ mmapLengths eagerOs zeroPage ∧
      mmuLoadSegment eagerOs default (Mmu.start 0) zeroPage [] =
        .error (.assertFail "addr == aligned_vaddr") :=
  ⟨zeroPage_legal, eagerOs_grants, by decide, rfl⟩

end Rvemu
