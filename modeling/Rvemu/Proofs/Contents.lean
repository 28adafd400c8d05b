/-
What loading leaves at every address.

Segments may share pages.  Each is mapped over what is there, whole pages at a time,
so an address belongs to the last segment in the table that has it on one of its
pages, and neither the protection nor the byte of any earlier one is left.  On the
pages that come from the file the byte is the file's, also before the segment starts
and behind where it ends; on the pages behind them it is zero.  A page that starts past
the end of the file is mapped like the others, and has nothing behind it.
-/
import Rvemu.Proofs.Image

namespace Rvemu

open Memory

/-- The host address is on a page that comes from the file. -/
def OnFilePage (os : Os) (p : Elf64Phdr) (x : Word) : Prop :=
  Mem.InRange (pageBase os p) (roundUp (fromPageBase os p p.filesz) os.pageSize).toNat x

/-- The host address is on a page behind those. -/
def OnBssPage (os : Os) (p : Elf64Phdr) (x : Word) : Prop :=
  Mem.InRange (fileEnd os p) (bssLength os p).toNat x

/-- Loading the segment maps the host address. -/
def Covers (os : Os) (p : Elf64Phdr) (x : Word) : Prop := OnFilePage os p x ∨ OnBssPage os p x

instance (os : Os) (p : Elf64Phdr) (x : Word) : Decidable (OnBssPage os p x) :=
  inferInstanceAs (Decidable (Mem.InRange ..))

instance (os : Os) (p : Elf64Phdr) (x : Word) : Decidable (Covers os p x) :=
  inferInstanceAs (Decidable (Mem.InRange .. ∨ Mem.InRange ..))

/-- The byte that loading the segment leaves at a host address it maps. -/
def segmentByte (os : Os) (p : Elf64Phdr) (file : List (BitVec 8)) (x : Word) : BitVec 8 :=
  if OnBssPage os p x then 0
  else file.getD ((roundDown p.offset os.pageSize).toNat + (x.toNat - (pageBase os p).toNat)) 0

/-- Whether it leaves nothing behind that address. -/
def segmentHole (os : Os) (p : Elf64Phdr) (file : List (BitVec 8)) (x : Word) : Bool :=
  if OnBssPage os p x then false else pastFile os p file (x.toNat - (pageBase os p).toNat)

/-- A segment is at a host address: its protection and its byte, if there is one. -/
structure SegmentAt (os : Os) (file : List (BitVec 8)) (p : Elf64Phdr) (x : Word) (w : World) :
    Prop where
  prot : w.mem.prot x = some (flagsToMmapProt p.flags)
  byte : w.mem.byte x = segmentByte os p file x
  unbacked : w.mem.unbacked x = segmentHole os p file x

theorem SegmentAt.same {os : Os} {file : List (BitVec 8)} {p : Elf64Phdr} {x : Word} {w w' : World}
    (h : SegmentAt os file p x w) (hsame : Mem.SameAt x w.mem w'.mem) :
    SegmentAt os file p x w' :=
  ⟨hsame.prot.trans h.prot, hsame.byte.trans h.byte, hsame.unbacked.trans h.unbacked⟩

/-- What is at a host address after the segments of a list were loaded in order. -/
structure LeftAt (os : Os) (file : List (BitVec 8)) (ps : List Elf64Phdr) (x : Word)
    (w w' : World) : Prop where
  covered : ∀ p, ps.reverse.find? (fun p => Covers os p x) = some p → SegmentAt os file p x w'
  clear : ps.reverse.find? (fun p => Covers os p x) = none → Mem.SameAt x w.mem w'.mem

section

variable {os : Os} {file : List (BitVec 8)} {w w' : World} {mmu mmu' : Mmu}

/-- One segment. -/
theorem mmuLoadSegment_contents {p : Elf64Phdr}
    (h : mmuLoadSegment os w mmu p file = .ok (w', mmu')) (x : Word) :
    (Covers os p x → SegmentAt os file p x w') ∧ (¬Covers os p x → Mem.SameAt x w.mem w'.mem) := by
  obtain ⟨-, -, hw⟩ := mmuLoadSegment_inv h
  by_cases hbss : OnBssPage os p x
  · -- the later of the two mappings
    refine ⟨fun _ => ?_, fun hno => absurd (.inr hbss) hno⟩
    rcases hw with ⟨hzero, -⟩ | ⟨-, rfl, -⟩
    · have hlo := hbss.1
      have hhi := hbss.2
      rw [hzero, show (0 : Word).toNat = 0 from rfl] at hhi
      omega
    · exact ⟨if_pos hbss, (if_pos hbss).trans (if_pos hbss).symm,
        (if_pos hbss).trans (if_pos hbss).symm⟩
  · have hsame : Mem.SameAt x (fileMapped os w p file).mem w'.mem := by
      rcases hw with ⟨-, rfl⟩ | ⟨-, rfl, -⟩
      · exact .rfl
      · exact bssMapped_sameAt hbss
    constructor
    · intro hin
      have hfile := hin.resolve_right hbss
      have hat : SegmentAt os file p x (fileMapped os w p file) :=
        ⟨if_pos hfile, (if_pos hfile).trans (if_neg hbss).symm,
          (if_pos hfile).trans (if_neg hbss).symm⟩
      exact hat.same hsame
    · intro hno
      exact (fileMapped_sameAt fun hfile => hno (.inl hfile)).trans hsame

/-- One after the other. -/
theorem LoadRun.contents {ps : List Elf64Phdr} (h : LoadRun os file ps w mmu w' mmu') (x : Word) :
    LeftAt os file ps x w w' := by
  induction h with
  | nil => exact ⟨nofun, fun _ => .rfl⟩
  | @cons p ps w w₁ w' mmu mmu₁ mmu' hload hrest ih =>
      obtain ⟨hcov, hclear⟩ := mmuLoadSegment_contents hload x
      have hfind : (p :: ps).reverse.find? (fun p => Covers os p x) =
          (ps.reverse.find? fun p => Covers os p x).or
            (if Covers os p x then some p else none) := by
        rw [List.reverse_cons, List.find?_append, List.find?_singleton]
        simp
      constructor
      · intro q hq
        rw [hfind] at hq
        cases hlast : ps.reverse.find? (fun p => Covers os p x) with
        | some p' =>
            rw [hlast] at hq
            cases hq
            exact ih.covered _ hlast
        | none =>
            -- no later segment has the address
            rw [hlast, Option.none_or] at hq
            split at hq
            · rename_i hin
              cases hq
              exact (hcov hin).same (ih.clear hlast)
            · cases hq
      · intro hnone
        rw [hfind, Option.or_eq_none_iff] at hnone
        obtain ⟨hlast, hfirst⟩ := hnone
        refine (hclear fun hin => ?_).trans (ih.clear hlast)
        rw [if_pos hin] at hfirst
        cases hfirst

/-- **The last segment wins.**  Whatever segments a file has, overlapping or not, after a load
every address that one of them covers is mapped as the last of these asks and has the byte it
brings, or nothing behind it where the file ends before its page; all other addresses are as
they were. -/
theorem mmuLoadElf_contents {phdr : List (BitVec 8)}
    (hsize : (Elf64Ehdr.ofBytes file).phentsize.toNat = sizeofElf64Phdr)
    (hphdr : phdr.length = sizeofElf64Phdr)
    (h : mmuLoadElf os phdr w mmu file = .ok (w', mmu')) (x : Word) :
    LeftAt os file (segments file) x w w' := by
  have hrun := loadPhdrs_run hsize hphdr (mmuLoadElf_inv h)
  rw [← List.range_eq_range'] at hrun
  exact hrun.contents x

end

/-- Two segments that share a page: the second starts where the first has its zeros. -/
def overlapping : List (BitVec 8) := elfFile 56 2 (smallSegment 0x10000 ++ smallSegment 0x11000)

theorem mmuLoadElf_contents_overlapping :
    ∃ w mmu, mmuLoadElf grantingOs (List.replicate 56 0) default (Mmu.start 0) overlapping =
        .ok (w, mmu) ∧
      w.mem.byte (toHost 0x11000) = 0x7f ∧
      LeftAt grantingOs overlapping (segments overlapping) (toHost 0x11000) default w := by
  have hok : (mmuLoadElf grantingOs (List.replicate 56 0) default (Mmu.start 0) overlapping).map
      (fun p => p.1.mem.byte (toHost 0x11000)) = .ok 0x7f := by decide +kernel
  obtain ⟨⟨w, mmu⟩, hload, hbyte⟩ := map_ok_inv hok
  exact ⟨w, mmu, hload, hbyte, mmuLoadElf_contents (by decide +kernel) rfl hload _⟩

end Rvemu
