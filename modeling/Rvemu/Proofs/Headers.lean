/-
Reading the program headers.

The loader reads each header into one and the same variable, as many bytes as the
file says a header has.  If that is the size of the variable, it holds the bytes of
the file after each read and nothing else.  If it is less, the rest is what was there
before, at first what the stack happened to hold; if it is more, the bytes run past
its end.  Nothing compares the two sizes.
-/
import Rvemu.Proofs.Boot

namespace Rvemu

open Memory

/-- The bytes of a field. -/
theorem field_byte (buf : List (BitVec 8)) {off n k : Nat} (hk : k < n) :
    (field buf off n).extractLsb' (8 * k) 8 = buf.getD (off + k) 0 := by
  induction n generalizing off k with
  | zero => omega
  | succ n ih =>
      apply BitVec.eq_of_getLsbD_eq
      intro j hj
      rw [field, BitVec.getLsbD_extractLsb', decide_eq_true hj, Bool.true_and,
        BitVec.getLsbD_append]
      cases k with
      | zero => simp [hj]
      | succ k =>
          have hbit := congrArg (fun b => b.getLsbD j) (@ih (off + 1) k (by omega))
          rw [BitVec.getLsbD_extractLsb', decide_eq_true hj, Bool.true_and, Nat.add_assoc,
            Nat.add_comm 1] at hbit
          rw [if_neg (by omega), show 8 * (k + 1) + j - 8 = 8 * k + j by omega]
          exact hbit

/-- `sizeof(elf64_phdr_t)`. -/
def sizeofElf64Phdr : Nat := 56

/-- Where entry `i` of the table starts. -/
def entryPos (ehdr : Elf64Ehdr) (i : Nat) : Word :=
  ehdr.phoff + ehdr.phentsize.setWidth 64 * BitVec.ofNat 64 i

/-- The bytes of the file that the variable should hold. -/
def entryBytes (ehdr : Elf64Ehdr) (i : Nat) (file : List (BitVec 8)) : List (BitVec 8) :=
  (file.drop (entryPos ehdr i).toNat).take sizeofElf64Phdr

/-- The program header that entry `i` is. -/
def phdrEntry (ehdr : Elf64Ehdr) (i : Nat) (file : List (BitVec 8)) : Elf64Phdr :=
  Elf64Phdr.ofBytes (entryBytes ehdr i file)

/-- An entry can be read: its offset is none that a seek refuses, and the file does not end
before it. -/
def EntryReadable (ehdr : Elf64Ehdr) (i : Nat) (file : List (BitVec 8)) : Prop :=
  (entryPos ehdr i).toNat < 2 ^ 63 ∧
    ehdr.phentsize.toNat ≤ (file.drop (entryPos ehdr i).toNat).length

section

variable {ehdr : Elf64Ehdr} {i : Nat} {file phdr phdr' : List (BitVec 8)}

/-- A read takes the entry's bytes, and leaves what is behind them in the variable. -/
theorem loadPhdr_eq (hread : EntryReadable ehdr i file) :
    loadPhdr phdr ehdr i file =
      .ok ((file.drop (entryPos ehdr i).toNat).take ehdr.phentsize.toNat ++
        phdr.drop ehdr.phentsize.toNat) := by
  have hpos : ¬(entryPos ehdr i).slt 0 = true := by
    rw [neg_iff]
    have := hread.1
    omega
  have hlen : ((file.drop (entryPos ehdr i).toNat).take ehdr.phentsize.toNat).length =
      ehdr.phentsize.toNat := by
    rw [List.length_take]
    exact Nat.min_eq_left hread.2
  unfold loadPhdr
  rw [show ehdr.phoff + ehdr.phentsize.setWidth 64 * BitVec.ofNat 64 i = entryPos ehdr i from rfl]
  dsimp only
  rw [if_neg hpos, if_neg (fun h => h hlen), hlen]

/-- A read that returns could be made. -/
theorem loadPhdr_readable (h : loadPhdr phdr ehdr i file = .ok phdr') :
    EntryReadable ehdr i file := by
  unfold loadPhdr at h
  rw [show ehdr.phoff + ehdr.phentsize.setWidth 64 * BitVec.ofNat 64 i = entryPos ehdr i from rfl]
    at h
  dsimp only at h
  split at h
  · cases h
  · rename_i hpos
    split at h
    · cases h
    · rename_i hlen
      rw [neg_iff] at hpos
      rw [not_not, List.length_take] at hlen
      exact ⟨by omega, by omega⟩

/-- Reading entries of the right size. -/
theorem loadPhdr_full (hsize : ehdr.phentsize.toNat = sizeofElf64Phdr)
    (hphdr : phdr.length = sizeofElf64Phdr) (h : loadPhdr phdr ehdr i file = .ok phdr') :
    phdr' = entryBytes ehdr i file ∧ phdr'.length = sizeofElf64Phdr := by
  have hread := loadPhdr_readable h
  have hlen := hread.2
  rw [loadPhdr_eq hread, hsize, List.drop_eq_nil_of_le (Nat.le_of_eq hphdr), List.append_nil] at h
  cases h
  refine ⟨rfl, ?_⟩
  rw [List.length_take]
  omega

end

/-! ### The calls of a load -/

/-- The checks of `mmu_load_elf` on the header of the file. -/
structure ElfHeaderOk (file : List (BitVec 8)) : Prop where
  length : sizeofElf64Ehdr ≤ file.length
  magic : (Elf64Ehdr.ofBytes file).magic = elfMag
  machine : (Elf64Ehdr.ofBytes file).machine = emRiscv
  elfClass : (Elf64Ehdr.ofBytes file).elfClass = elfClass64

/-- The loop over the program headers comes to entry `i` with these bytes in the variable. -/
inductive ReadsEntry (os : Os) (file phdr : List (BitVec 8)) (w : World) (mmu : Mmu) :
    Nat → List (BitVec 8) → World → Mmu → Prop
  | start (h : ElfHeaderOk file) :
      ReadsEntry os file phdr w mmu 0 phdr w { mmu with entry := (Elf64Ehdr.ofBytes file).entry }
  | next {i : Nat} {buf buf' : List (BitVec 8)} {w₁ w₂ : World} {mmu₁ mmu₂ : Mmu}
      (h : ReadsEntry os file phdr w mmu i buf w₁ mmu₁)
      (hread : loadPhdr buf (Elf64Ehdr.ofBytes file) i file = .ok buf')
      (hload : (if (Elf64Phdr.ofBytes buf').type = ptLoad then
          mmuLoadSegment os w₁ mmu₁ (Elf64Phdr.ofBytes buf') file
        else .ok (w₁, mmu₁)) = .ok (w₂, mmu₂)) :
      ReadsEntry os file phdr w mmu (i + 1) buf' w₂ mmu₂

/-- A call of `load_phdr` stops with an error, or the variable holds the bytes of the file
afterwards, all of them and no more. -/
def FillsPhdr (buf : List (BitVec 8)) (ehdr : Elf64Ehdr) (i : Nat) (file : List (BitVec 8)) : Prop :=
  ∀ buf', loadPhdr buf ehdr i file = .ok buf' →
    buf' = entryBytes ehdr i file ∧ buf'.length = sizeofElf64Phdr

/-- Bytes of which none is the file's. -/
def otherBytes (ehdr : Elf64Ehdr) (i : Nat) (file : List (BitVec 8)) : List (BitVec 8) :=
  (List.range sizeofElf64Phdr).map fun k => ~~~(entryBytes ehdr i file).getD k 0

theorem otherBytes_length (ehdr : Elf64Ehdr) (i : Nat) (file : List (BitVec 8)) :
    (otherBytes ehdr i file).length = sizeofElf64Phdr := by
  rw [otherBytes, List.length_map, List.length_range]

/-- A short read leaves a byte that is not the file's, a long one runs past the end. -/
theorem not_fillsPhdr {ehdr : Elf64Ehdr} {i : Nat} {file : List (BitVec 8)}
    (hread : EntryReadable ehdr i file) (hsize : ehdr.phentsize.toNat ≠ sizeofElf64Phdr) :
    ¬FillsPhdr (otherBytes ehdr i file) ehdr i file := by
  intro hfills
  obtain ⟨hbytes, hlen⟩ := hfills _ (loadPhdr_eq hread)
  have hread' := hread.2
  have hdata : ((file.drop (entryPos ehdr i).toNat).take ehdr.phentsize.toNat).length =
      ehdr.phentsize.toNat := by
    rw [List.length_take]
    omega
  rcases Nat.lt_or_gt_of_ne hsize with hshort | hlong
  · -- the first byte that the read leaves as it was
    have hbyte := congrArg (fun l : List (BitVec 8) => l.getD ehdr.phentsize.toNat 0) hbytes
    simp only [List.getD_eq_getElem?_getD] at hbyte
    rw [List.getElem?_append_right (Nat.le_of_eq hdata), hdata, Nat.sub_self,
      List.getElem?_drop, Nat.add_zero, otherBytes, List.getElem?_map,
      List.getElem?_range hshort, Option.map_some, Option.getD_some,
      ← List.getD_eq_getElem?_getD] at hbyte
    exact BitVec.not_self_ne (by decide) hbyte
  · rw [List.length_append, hdata] at hlen
    omega

section

variable {os : Os} {file phdr : List (BitVec 8)} {w w' : World} {mmu mmu' : Mmu} {i : Nat}
  {buf : List (BitVec 8)}

/-- As long as entries have the right size, the variable keeps its own. -/
theorem ReadsEntry.length (h : ReadsEntry os file phdr w mmu i buf w' mmu')
    (hphdr : phdr.length = sizeofElf64Phdr)
    (hsize : (Elf64Ehdr.ofBytes file).phentsize.toNat = sizeofElf64Phdr) :
    buf.length = sizeofElf64Phdr := by
  induction h with
  | start _ => exact hphdr
  | next _ hread _ ih => exact (loadPhdr_full hsize ih hread).2

/-- The loop goes on only if the first entry could be read. -/
theorem ReadsEntry.first (h : ReadsEntry os file phdr w mmu i buf w' mmu') :
    i = 0 ∨ EntryReadable (Elf64Ehdr.ofBytes file) 0 file := by
  induction h with
  | start _ => exact .inl rfl
  | next _ hread _ ih =>
      rcases ih with rfl | hfirst
      · exact .inr (loadPhdr_readable hread)
      · exact .inr hfirst

/-- **When every header is read in full.**  Whatever the variable held before, every call of
`load_phdr` in a load leaves the bytes of the file in it exactly if headers have its size, or
none is read because there is none or the first cannot be. -/
theorem reads_fill_iff (hfile : ElfHeaderOk file) (w : World) (mmu : Mmu) :
    (∀ phdr, phdr.length = sizeofElf64Phdr → ∀ i buf w' mmu',
        i < (Elf64Ehdr.ofBytes file).phnum.toNat → ReadsEntry os file phdr w mmu i buf w' mmu' →
        FillsPhdr buf (Elf64Ehdr.ofBytes file) i file) ↔
      ((Elf64Ehdr.ofBytes file).phentsize.toNat = sizeofElf64Phdr ∨
        (Elf64Ehdr.ofBytes file).phnum.toNat = 0 ∨
        ¬EntryReadable (Elf64Ehdr.ofBytes file) 0 file) := by
  constructor
  · intro hall
    by_contra hno
    simp only [not_or, not_not] at hno
    obtain ⟨hsize, hnum, hread⟩ := hno
    refine not_fillsPhdr hread hsize ?_
    exact hall _ (otherBytes_length _ _ _) 0 _ w _ (Nat.pos_of_ne_zero hnum) (.start hfile)
  · intro hok phdr hphdr i buf w' mmu' hi hreads buf' hload
    rcases hok with hsize | hnum | hread
    · exact loadPhdr_full hsize (hreads.length hphdr hsize) hload
    · omega
    · rcases hreads.first with rfl | hfirst
      · exact absurd (loadPhdr_readable hload) hread
      · exact absurd hfirst hread

end

/-- An ELF file with a table behind its header, of which it says that it has `count` entries of
`size` bytes. -/
def elfFile (size count : Nat) (table : List (BitVec 8)) : List (BitVec 8) :=
  [0x7f, 0x45, 0x4c, 0x46, 2, 1, 1] ++ littleEndian 9 0 ++ -- e_ident
  littleEndian 2 2 ++ littleEndian 2 243 ++ littleEndian 4 1 ++ -- e_type, e_machine, e_version
  littleEndian 8 0 ++ littleEndian 8 64 ++ littleEndian 8 0 ++ -- e_entry, e_phoff, e_shoff
  littleEndian 4 0 ++ littleEndian 2 64 ++ -- e_flags, e_ehsize
  littleEndian 2 size ++ littleEndian 2 count ++ littleEndian 6 0 ++ -- e_phentsize, e_phnum
  table

/-- A file of one header, whose size it gives as `n`. -/
def sizedFile (n : Nat) : List (BitVec 8) := elfFile n 1 (List.replicate 64 0)

theorem sizedFile_ok_56 : ElfHeaderOk (sizedFile 56) := by
  constructor <;> decide +kernel

theorem reads_fill_iff_sample :
    0 < (Elf64Ehdr.ofBytes (sizedFile 56)).phnum.toNat ∧
      FillsPhdr (List.replicate 56 0) (Elf64Ehdr.ofBytes (sizedFile 56)) 0 (sizedFile 56) :=
  have hnum : 0 < (Elf64Ehdr.ofBytes (sizedFile 56)).phnum.toNat := by decide +kernel
  have hstart : ReadsEntry grantingOs (sizedFile 56) (List.replicate 56 0) default (Mmu.start 0) 0
      _ _ _ := .start sizedFile_ok_56
  ⟨hnum, (reads_fill_iff sizedFile_ok_56 default (Mmu.start 0)).mpr (.inl (by decide +kernel)) _
    rfl 0 _ _ _ hnum hstart⟩

/-- A header of 64 bytes is read in full, eight bytes past the end of the variable. -/
theorem header_overruns :
    ElfHeaderOk (sizedFile 64) ∧ 0 < (Elf64Ehdr.ofBytes (sizedFile 64)).phnum.toNat ∧
      (loadPhdr (List.replicate 56 0) (Elf64Ehdr.ofBytes (sizedFile 64)) 0 (sizedFile 64)).map
          List.length = .ok 64 ∧
      ¬FillsPhdr (List.replicate 56 0) (Elf64Ehdr.ofBytes (sizedFile 64)) 0 (sizedFile 64) := by
  have hlen : (loadPhdr (List.replicate 56 0) (Elf64Ehdr.ofBytes (sizedFile 64)) 0
      (sizedFile 64)).map List.length = .ok 64 := by decide +kernel
  refine ⟨by constructor <;> decide +kernel, by decide +kernel, hlen, fun hfills => ?_⟩
  obtain ⟨buf, hload, hbuf⟩ := map_ok_inv hlen
  have hsize := (hfills buf hload).2
  rw [hbuf] at hsize
  exact absurd hsize (by decide)

end Rvemu
