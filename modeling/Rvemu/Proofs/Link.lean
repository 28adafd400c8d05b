/-
A program in a file, and the file in memory.

Reading the headers of a linked file gives the headers that were written, and behind
them the file has the pages of the segments.  The loader maps these pages where the
headers say.  If no two segments share a page and all of them lie in user space, the
load succeeds, and guest memory is the program: the bytes of every segment at their
addresses, zeros on what is left of its pages, and nothing else has changed.
-/
import Mathlib.Data.List.Forall2
import Mathlib.Data.List.Pairwise
import Rvemu.Proofs.Contents
import Rvemu.Spec.Link

namespace Rvemu

open Memory Spec

/-! ### Fields of concatenated buffers -/

theorem bytesOf_getD {n : Nat} (v : BitVec (8 * n)) {k : Nat} (hk : k < n) :
    (bytesOf n v).getD k 0 = v.extractLsb' (8 * k) 8 := by
  rw [List.getD_eq_getElem _ _ (by rwa [bytesOf_length]), bytesOf_getElem]

/-- A field behind the first piece. -/
theorem field_skip {a b : List (BitVec 8)} {off n : Nat} (h : a.length ≤ off) :
    field (a ++ b) off n = field b (off - a.length) n := by
  refine Mem.eq_of_bytes fun k hk => ?_
  rw [field_byte _ hk, field_byte _ hk, List.getD_append_right _ _ _ _ (by omega)]
  congr 1
  omega

/-- A field that is the first piece. -/
theorem field_head {n : Nat} (v : BitVec (8 * n)) (rest : List (BitVec 8)) :
    field (bytesOf n v ++ rest) 0 n = v := by
  refine Mem.eq_of_bytes fun k hk => ?_
  rw [field_byte _ hk, Nat.zero_add, List.getD_append _ _ _ _ (by rw [bytesOf_length]; exact hk),
    bytesOf_getD v hk]

/-! ### Headers -/

@[simp] theorem ehdrBytes_length (entry : Word) (n : Nat) : (ehdrBytes entry n).length = 64 := by
  simp [ehdrBytes]

@[simp] theorem phdrBytes_length (shift : Nat) (p : Elf64Phdr) :
    (phdrBytes shift p).length = 56 := by
  simp [phdrBytes]

/-- A program header that was written is read back. -/
theorem ofBytes_phdrBytes (shift : Nat) (p : Elf64Phdr) (rest : List (BitVec 8)) :
    Elf64Phdr.ofBytes (phdrBytes shift p ++ rest) = p := by
  simp [Elf64Phdr.ofBytes, phdrBytes, field_skip, field_head]

/-- So is a header. -/
theorem ofBytes_ehdrBytes (entry : Word) (n : Nat) (rest : List (BitVec 8)) :
    Elf64Ehdr.ofBytes (ehdrBytes entry n ++ rest) =
      { magic := elfMag, elfClass := elfClass64, machine := emRiscv, entry := entry, phoff := 64
        phentsize := 56, phnum := BitVec.ofNat 16 n } := by
  simp [Elf64Ehdr.ofBytes, ehdrBytes, field_skip, field_head]

/-! ### The table -/

/-- An entry of a table of pieces of one length. -/
theorem flatMap_entry {α β : Type} {f : α → List β} {c : Nat} (hf : ∀ a, (f a).length = c)
    (l : List α) (rest : List β) {i : Nat} (hi : i < l.length) :
    ∃ tail, (l.flatMap f ++ rest).drop (c * i) = f l[i] ++ tail := by
  induction l generalizing i with
  | nil => exact absurd hi (Nat.not_lt_zero i)
  | cons a l ih =>
      rw [List.flatMap_cons, List.append_assoc]
      cases i with
      | zero => exact ⟨_, rfl⟩
      | succ i =>
          have hdrop : (f a ++ (l.flatMap f ++ rest)).drop (c * (i + 1)) =
              (l.flatMap f ++ rest).drop (c * i) := by
            rw [Nat.mul_succ, Nat.add_comm, ← List.drop_drop, ← hf a, List.drop_left]
          rw [hdrop]
          exact ih (Nat.lt_of_succ_lt_succ hi)

theorem layout_length (shift start : Nat) (segs : List Seg) :
    (layout shift start segs).length = segs.length := by
  induction segs generalizing start with
  | nil => rfl
  | cons s segs ih => rw [layout, List.length_cons, ih, List.length_cons]

section

variable {shift : Nat} {entry : Word} {segs : List Seg}

/-- The header of a linked file. -/
theorem link_ehdr (shift : Nat) (entry : Word) (segs : List Seg) :
    Elf64Ehdr.ofBytes (link shift entry segs) =
      { magic := elfMag, elfClass := elfClass64, machine := emRiscv, entry := entry, phoff := 64
        phentsize := 56, phnum := BitVec.ofNat 16 segs.length } :=
  ofBytes_ehdrBytes entry segs.length _

theorem link_phnum (hcount : segs.length < 2 ^ 16) :
    (Elf64Ehdr.ofBytes (link shift entry segs)).phnum.toNat = segs.length := by
  rw [link_ehdr, BitVec.toNat_ofNat, Nat.mod_eq_of_lt hcount]

/-- Where an entry of its table is. -/
theorem link_entryPos {i : Nat} (hi : i < 2 ^ 16) :
    (entryPos (Elf64Ehdr.ofBytes (link shift entry segs)) i).toNat = 64 + 56 * i := by
  rw [link_ehdr]
  unfold entryPos
  rw [BitVec.toNat_add, BitVec.toNat_mul, BitVec.toNat_ofNat]
  simp
  omega

/-- What is there. -/
theorem link_entry (entry : Word) {i : Nat} (hi : i < (layout shift (pagesStart shift segs.length) segs).length)
    (hcount : segs.length < 2 ^ 16) :
    ∃ tail, (link shift entry segs).drop
        (entryPos (Elf64Ehdr.ofBytes (link shift entry segs)) i).toNat =
      phdrBytes shift (layout shift (pagesStart shift segs.length) segs)[i] ++ tail := by
  have hlen := layout_length shift (pagesStart shift segs.length) segs
  obtain ⟨tail, htail⟩ := flatMap_entry (phdrBytes_length shift) _
    (List.replicate (pagesStart shift segs.length - (64 + 56 * segs.length)) 0 ++
      segs.flatMap (Seg.pages shift)) hi
  refine ⟨tail, ?_⟩
  rw [link_entryPos (by omega), ← htail, ← List.drop_drop, link, ← ehdrBytes_length entry
    segs.length, List.drop_left]

/-- The headers that are read are those that were written. -/
theorem phdrs_link (hcount : segs.length < 2 ^ 16) :
    phdrs (link shift entry segs) = layout shift (pagesStart shift segs.length) segs := by
  have hlen := layout_length shift (pagesStart shift segs.length) segs
  unfold phdrs
  rw [link_phnum hcount]
  refine List.ext_getElem (by simp [hlen]) fun i hi hi' => ?_
  obtain ⟨tail, htail⟩ := link_entry entry hi' hcount
  rw [List.getElem_map, List.getElem_range, phdrEntry, entryBytes, htail]
  have htake : (phdrBytes shift (layout shift (pagesStart shift segs.length) segs)[i] ++ tail).take
      sizeofElf64Phdr = phdrBytes shift (layout shift (pagesStart shift segs.length) segs)[i] :=
    List.take_left' (phdrBytes_length shift _)
  rw [htake, ← List.append_nil (phdrBytes shift _), ofBytes_phdrBytes]

/-! ### The pages -/

/-- The header says where the pages of the segment are in the file. -/
structure Placed (shift : Nat) (file : List (BitVec 8)) (s : Seg) (p : Elf64Phdr) (start : Nat) :
    Prop where
  phdr : p = s.phdr shift start
  page : 2 ^ shift ∣ start
  inFile : start + s.span shift ≤ file.length
  bytes : ∀ j < s.span shift, file.getD (start + j) 0 = (s.pages shift).getD j 0

theorem span_le (shift : Nat) (s : Seg) : s.lead shift + s.data.length ≤ s.span shift :=
  Align.le_ceil _ _

theorem pages_length (shift : Nat) (s : Seg) : (s.pages shift).length = s.span shift := by
  have hle := span_le shift s
  unfold Seg.pages
  simp only [List.length_append, List.length_replicate]
  omega

/-- A byte of the pages: what the segment has there, and zero where it has none. -/
theorem pages_getD (shift : Nat) (s : Seg) (j : Nat) :
    (s.pages shift).getD j 0 =
      if j < s.lead shift then 0 else s.data.getD (j - s.lead shift) 0 := by
  have hzero (n k : Nat) : (List.replicate n (0 : BitVec 8)).getD k 0 = 0 := by
    rw [List.getD_eq_getElem?_getD, List.getElem?_replicate]
    split <;> rfl
  unfold Seg.pages
  split
  · rename_i hlt
    rw [List.getD_append _ _ _ _ (by simpa using hlt)]
    exact hzero _ _
  · rename_i hge
    rw [List.getD_append_right _ _ _ _ (by simpa using Nat.le_of_not_lt hge),
      List.length_replicate]
    rcases Nat.lt_or_ge (j - s.lead shift) s.data.length with hlt | hge'
    · rw [List.getD_append _ _ _ _ hlt]
    · rw [List.getD_append_right _ _ _ _ hge', hzero, List.getD_eq_default _ _ hge']

/-- The headers and the pages match, segment by segment. -/
theorem layout_placed {file : List (BitVec 8)} {start : Nat} (hpage : 2 ^ shift ∣ start)
    (hle : start ≤ file.length) (hdrop : file.drop start = segs.flatMap (Seg.pages shift)) :
    List.Forall₂ (fun s p => ∃ q, Placed shift file s p q) segs (layout shift start segs) := by
  induction segs generalizing start with
  | nil => exact .nil
  | cons s segs ih =>
      rw [List.flatMap_cons] at hdrop
      have hlen := congrArg List.length hdrop
      rw [List.length_drop, List.length_append, pages_length] at hlen
      refine .cons ⟨start, rfl, hpage, by omega, fun j hj => ?_⟩ (ih ?_ (by omega) ?_)
      · have hbyte := congrArg (fun l : List (BitVec 8) => l.getD j 0) hdrop
        rw [List.getD_append _ _ _ _ (by rw [pages_length]; exact hj)] at hbyte
        rw [← hbyte, List.getD_eq_getElem?_getD, List.getD_eq_getElem?_getD, List.getElem?_drop]
      · exact Nat.dvd_add hpage (Align.dvd_ceil _ _)
      · rw [← List.drop_drop, hdrop, ← pages_length shift s, List.drop_left]

/-- The pages of the segments are at the end of the file. -/
theorem link_pages (shift : Nat) (entry : Word) (segs : List Seg) :
    pagesStart shift segs.length ≤ (link shift entry segs).length ∧
      (link shift entry segs).drop (pagesStart shift segs.length) =
        segs.flatMap (Seg.pages shift) := by
  have hstart : 64 + 56 * segs.length ≤ pagesStart shift segs.length := Align.le_ceil _ _
  have htable : ((layout shift (pagesStart shift segs.length) segs).flatMap
      (phdrBytes shift)).length = 56 * segs.length := by
    rw [List.length_flatMap]
    simp [layout_length, Nat.mul_comm]
  generalize hpre : ehdrBytes entry segs.length ++
    ((layout shift (pagesStart shift segs.length) segs).flatMap (phdrBytes shift) ++
      List.replicate (pagesStart shift segs.length - (64 + 56 * segs.length)) 0) = pre
  have hlen : pre.length = pagesStart shift segs.length := by
    rw [← hpre, List.length_append, List.length_append, ehdrBytes_length, htable,
      List.length_replicate]
    omega
  have hfile : link shift entry segs = pre ++ segs.flatMap (Seg.pages shift) := by
    rw [← hpre, link]
    simp only [List.append_assoc]
  rw [hfile, ← hlen, List.drop_left, List.length_append]
  exact ⟨Nat.le_add_right _ _, rfl⟩

end

/-! ### Programs -/

section

variable {os : Os} {top : Nat}

/-- The guest address lies on a page of the segment. -/
def Spec.Seg.OnPage (os : Os) (s : Seg) (g : Word) : Prop :=
  ∃ k < s.memsz.toNat, roundDown (s.vaddr + BitVec.ofNat 64 k) os.pageSize = roundDown g os.pageSize

/-- A program whose segments lie side by side in user space. -/
structure ProgramFits (os : Os) (top : Nat) (prog : Program os.pageShift) : Prop where
  /-- A segment's pages lie in user space, on the host's side. -/
  fits : ∀ s ∈ prog.segs, (roundDown (toHost s.vaddr) os.pageSize).toNat +
    pageCeil os (s.lead os.pageShift + s.memsz.toNat) ≤ top
  /-- No two share a page. -/
  apart : prog.segs.Pairwise fun s t => ∀ g, ¬(s.OnPage os g ∧ t.OnPage os g)

/-- Guest memory holds the program: on the pages of a segment its bytes at their addresses and
zeros elsewhere, protected as its flags say, and what was there before on all other pages. -/
structure ProgramInPlace (os : Os) (segs : List Seg) (w w' : World) : Prop where
  prot : ∀ s ∈ segs, ∀ g, s.OnPage os g →
    w'.mem.prot (toHost g) = some (flagsToMmapProt s.flags)
  backed : ∀ s ∈ segs, ∀ g, s.OnPage os g → w'.mem.unbacked (toHost g) = false
  byte : ∀ s ∈ segs, ∀ g, s.OnPage os g →
    w'.mem.byte (toHost g) = s.data.getD (g - s.vaddr).toNat 0
  rest : ∀ g, (∀ s ∈ segs, ¬s.OnPage os g) → Mem.SameAt (toHost g) w.mem w'.mem

/-- The header of a segment that is in a file. -/
theorem Placed.filesz {file : List (BitVec 8)} {shift q : Nat} {s : Seg} {p : Elf64Phdr}
    (h : Placed shift file s p q) : p.filesz.toNat = s.data.length := by
  have hle := s.le
  rw [h.phdr]
  show (BitVec.ofNat 64 s.data.length).toNat = _
  rw [BitVec.toNat_ofNat, Nat.mod_eq_of_lt (by omega)]

theorem Placed.offset {file : List (BitVec 8)} {shift q : Nat} {s : Seg} {p : Elf64Phdr}
    (h : Placed shift file s p q) (hsize : file.length < 2 ^ 63) :
    p.offset.toNat = q + s.lead shift := by
  have hin := h.inFile
  have hspan := span_le shift s
  rw [h.phdr]
  show (BitVec.ofNat 64 (q + s.lead shift)).toNat = _
  rw [BitVec.toNat_ofNat, Nat.mod_eq_of_lt (by omega)]

theorem Placed.vaddr {file : List (BitVec 8)} {shift q : Nat} {s : Seg} {p : Elf64Phdr}
    (h : Placed shift file s p q) : p.vaddr = s.vaddr := by
  rw [h.phdr]
  rfl

theorem Placed.memsz {file : List (BitVec 8)} {shift q : Nat} {s : Seg} {p : Elf64Phdr}
    (h : Placed shift file s p q) : p.memsz = s.memsz := by
  rw [h.phdr]
  rfl

theorem Placed.lead {file : List (BitVec 8)} {q : Nat} {s : Seg} {p : Elf64Phdr}
    (h : Placed os.pageShift file s p q) : pageOffset os p = s.lead os.pageShift := by
  unfold pageOffset Seg.lead
  rw [h.vaddr]

/-- The page of the file that the loader maps first is the segment's first. -/
theorem Placed.firstPage {file : List (BitVec 8)} {q : Nat} {s : Seg} {p : Elf64Phdr}
    (h : Placed os.pageShift file s p q) (hsize : file.length < 2 ^ 63) :
    (roundDown p.offset os.pageSize).toNat = q := by
  have hfloor : (roundDown p.offset os.pageSize).toNat =
      Align.floor os.pageShift p.offset.toNat := Align.down_toNat (pageShift_lt os) _
  have hsmall : s.lead os.pageShift < 2 ^ os.pageShift := Nat.mod_lt _ (Nat.two_pow_pos _)
  rw [hfloor, h.offset hsize, Align.floor_add_left h.page]
  unfold Align.floor
  rw [Nat.div_eq_of_lt hsmall, Nat.zero_mul, Nat.add_zero]

theorem Placed.placeable {file : List (BitVec 8)} {q : Nat} {s : Seg} {p : Elf64Phdr}
    (h : Placed os.pageShift file s p q) (hsize : file.length < 2 ^ 63) (htop : top ≤ 2 ^ 62)
    (hfits : (roundDown (toHost s.vaddr) os.pageSize).toNat +
      pageCeil os (s.lead os.pageShift + s.memsz.toNat) ≤ top) :
    Placeable os p ∧ Fits os top p := by
  have hpos := s.pos
  have hle := s.le
  have hfilesz := h.filesz
  have hoffset := h.offset hsize
  have hself := Align.le_ceil os.pageShift (s.lead os.pageShift + s.memsz.toNat)
  unfold pageCeil at hfits
  refine ⟨⟨by omega, by rw [h.memsz]; omega, ?_, by rw [h.lead, h.memsz]; omega⟩, ?_⟩
  · obtain ⟨c, hc⟩ := h.page
    rw [hoffset, h.vaddr, hc, Nat.mul_add_mod]
    exact Nat.mod_eq_of_lt (Nat.mod_lt _ (Nat.two_pow_pos _))
  · unfold Fits pageCeil pageBase
    rw [h.lead, h.memsz, h.vaddr]
    exact hfits

/-- The host pages of a segment are those that a load of it maps. -/
theorem covers_iff {p : Elf64Phdr} (hparts : Parts os p) (x : Word) :
    Covers os p x ↔ HostPages os p x := by
  have hfile := hparts.filePages
  have hend := hparts.fileEnd
  have hbss := hparts.bss
  have hle := hparts.le
  unfold Covers OnFilePage OnBssPage HostPages Mem.InRange
  omega

/-- How far an address of its pages is behind a segment's start; before the start it is further
than any byte. -/
theorem distance_eq {p : Elf64Phdr} {g : Word} {j : Nat}
    (hj : (toHost g).toNat = (pageBase os p).toNat + j) (hlt : j < 2 ^ 64) :
    (g - p.vaddr).toNat =
      if j < pageOffset os p then 2 ^ 64 - (pageOffset os p - j) else j - pageOffset os p := by
  have hv := toHost_vaddr os p
  have hoff := pageOffset_lt os p
  have hpage : 2 ^ os.pageShift < 2 ^ 31 := Nat.pow_lt_pow_right (by decide) os.pageShift_lt
  have hdiff : g - p.vaddr = toHost g - toHost p.vaddr := by
    unfold toHost
    grind
  rw [hdiff, BitVec.toNat_sub, hj, hv]
  split <;> omega

theorem Placed.span {file : List (BitVec 8)} {q : Nat} {s : Seg} {p : Elf64Phdr}
    (h : Placed os.pageShift file s p q) :
    pageCeil os (pageOffset os p + p.filesz.toNat) = s.span os.pageShift := by
  rw [h.lead, h.filesz]
  rfl

/-- What is not behind the pages of the file is on them. -/
theorem Placed.onFile {file : List (BitVec 8)} {q : Nat} {s : Seg} {p : Elf64Phdr}
    (h : Placed os.pageShift file s p q) (hparts : Parts os p) {x : Word} {j : Nat}
    (hj : x.toNat = (pageBase os p).toNat + j) (hin : HostPages os p x)
    (hbss : ¬OnBssPage os p x) : j < s.span os.pageShift := by
  by_contra hge
  have hend := hparts.fileEnd
  have hlen := hparts.bss
  have hmono := hparts.le
  have hhi := hin.2
  rw [h.span] at hend hlen hmono
  exact hbss ⟨by omega, by omega⟩

/-- The file reaches all of its pages. -/
theorem Placed.backed {file : List (BitVec 8)} {q : Nat} {s : Seg} {p : Elf64Phdr}
    (h : Placed os.pageShift file s p q) (hsize : file.length < 2 ^ 63) (hparts : Parts os p)
    {x : Word} (hin : HostPages os p x) : segmentHole os p file x = false := by
  obtain ⟨j, hj⟩ : ∃ j, x.toNat = (pageBase os p).toNat + j := Nat.exists_eq_add_of_le hin.1
  unfold segmentHole
  split
  · rfl
  · rename_i hbss
    have hfile := h.onFile hparts hj hin hbss
    have hreach := h.inFile
    have hpage := Nat.div_mul_le_self j os.pageSize.toNat
    rw [hj, Nat.add_sub_cancel_left, pastFile, h.firstPage hsize, decide_eq_false_iff_not]
    omega

/-- The byte a load leaves on the pages of a segment that is in the file. -/
theorem Placed.byte {file : List (BitVec 8)} {q : Nat} {s : Seg} {p : Elf64Phdr}
    (h : Placed os.pageShift file s p q) (hsize : file.length < 2 ^ 63) (hparts : Parts os p)
    {g : Word} (hin : HostPages os p (toHost g)) :
    segmentByte os p file (toHost g) = s.data.getD (g - s.vaddr).toNat 0 := by
  obtain ⟨j, hj⟩ : ∃ j, (toHost g).toNat = (pageBase os p).toNat + j :=
    Nat.exists_eq_add_of_le hin.1
  have hlt := (toHost g).isLt
  have hdist := distance_eq hj (by omega)
  rw [h.vaddr] at hdist
  have hself := span_le os.pageShift s
  have hoff := pageOffset_lt os p
  have hpage : 2 ^ os.pageShift < 2 ^ 31 := Nat.pow_lt_pow_right (by decide) os.pageShift_lt
  have hlead := h.lead
  have hend := hparts.fileEnd
  rw [h.span] at hend
  unfold segmentByte
  by_cases hbss : OnBssPage os p (toHost g)
  · -- behind the pages of the file, so behind the bytes
    have hlo := hbss.1
    rw [if_pos hbss, List.getD_eq_default]
    rw [hdist]
    split <;> omega
  · have hfile := h.onFile hparts hj hin hbss
    rw [if_neg hbss, h.firstPage hsize, hj, Nat.add_sub_cancel_left, h.bytes j hfile, pages_getD,
      hdist, hlead]
    split
    · rw [List.getD_eq_default]
      omega
    · rfl

/-! ### Loading a program -/

theorem forall₂_left {α β : Type} {R : α → β → Prop} {l : List α} {l' : List β}
    (h : List.Forall₂ R l l') : ∀ a ∈ l, ∃ b ∈ l', R a b := by
  induction h with
  | nil => exact fun a ha => absurd ha List.not_mem_nil
  | cons hab _ ih =>
      intro a ha
      rcases List.mem_cons.mp ha with rfl | ha
      · exact ⟨_, List.mem_cons_self .., hab⟩
      · obtain ⟨b, hb, hr⟩ := ih a ha
        exact ⟨b, List.mem_cons_of_mem _ hb, hr⟩

/-- What holds between any two of a list holds between their counterparts. -/
theorem forall₂_pairwise {α β : Type} {R : α → β → Prop} {S : α → α → Prop} {T : β → β → Prop}
    {l : List α} {l' : List β} (h : List.Forall₂ R l l')
    (hST : ∀ {a a' b b'}, R a b → R a' b' → S a a' → T b b') (hl : l.Pairwise S) :
    l'.Pairwise T := by
  induction h with
  | nil => exact .nil
  | cons hab hrest ih =>
      obtain ⟨hhead, htail⟩ := List.pairwise_cons.mp hl
      refine List.pairwise_cons.mpr ⟨fun b hb => ?_, ih htail⟩
      obtain ⟨a, ha, hr⟩ := forall₂_left hrest.flip b hb
      exact hST hab hr (hhead a ha)

/-- The only element with a property is the last one with it. -/
theorem find_last {α : Type} {P : α → Prop} [DecidablePred P] {l : List α} {a : α} (ha : a ∈ l)
    (hP : P a) (hone : ∀ b ∈ l, P b → b = a) : l.reverse.find? (fun b => P b) = some a := by
  have hsome : (l.reverse.find? fun b => P b).isSome = true := by
    rw [List.find?_isSome]
    exact ⟨a, List.mem_reverse.mpr ha, by simpa using hP⟩
  obtain ⟨b, hb⟩ := Option.isSome_iff_exists.mp hsome
  rw [hb, hone b (List.mem_reverse.mp (List.mem_of_find?_eq_some hb))]
  simpa using List.find?_some hb

instance (os : Os) : Std.Symm (Apart os) := ⟨fun _ _ h => h.symm⟩

/-- The segments of a linked file, each with its header. -/
theorem file_segments (prog : Program os.pageShift) :
    List.Forall₂ (fun s p => ∃ q, Placed os.pageShift prog.file s p q) prog.segs
      (segments prog.file) := by
  obtain ⟨hle, hdrop⟩ := link_pages os.pageShift prog.entry prog.segs
  have hmatch := layout_placed (Align.dvd_ceil _ _) hle hdrop
  have hall : segments prog.file = layout os.pageShift
      (pagesStart os.pageShift prog.segs.length) prog.segs := by
    unfold segments Program.file
    rw [phdrs_link prog.count, List.filter_eq_self]
    intro p hp
    obtain ⟨s, -, q, hplaced⟩ := forall₂_left hmatch.flip p hp
    rw [hplaced.phdr]
    rfl
  rw [hall]
  exact hmatch

/-- Its header passes the checks, and its table can be read. -/
theorem file_readable (prog : Program os.pageShift) :
    ElfHeaderOk prog.file ∧ ∀ j < (Elf64Ehdr.ofBytes prog.file).phnum.toNat,
      EntryReadable (Elf64Ehdr.ofBytes prog.file) j prog.file := by
  have hehdr := link_ehdr os.pageShift prog.entry prog.segs
  constructor
  · have hle := (link_pages os.pageShift prog.entry prog.segs).1
    have hstart : 64 + 56 * prog.segs.length ≤ pagesStart os.pageShift prog.segs.length :=
      Align.le_ceil _ _
    refine ⟨?_, ?_, ?_, ?_⟩
    · show 64 ≤ (link ..).length
      omega
    all_goals
      unfold Program.file
      rw [hehdr]
  · intro j hj
    have hcount := prog.count
    have hlen := layout_length os.pageShift (pagesStart os.pageShift prog.segs.length) prog.segs
    rw [Program.file, link_phnum prog.count] at hj
    obtain ⟨tail, htail⟩ := link_entry prog.entry (hlen ▸ hj) prog.count
    refine ⟨?_, ?_⟩
    · rw [Program.file, link_entryPos (by omega)]
      omega
    · rw [Program.file, htail, hehdr, List.length_append, phdrBytes_length]
      exact Nat.le_add_right 56 _

/-- The header of a segment, of a program that fits. -/
theorem ProgramFits.placeable (hc : MmapContract os top) {prog : Program os.pageShift}
    (hfits : ProgramFits os top prog) {s : Seg} (hs : s ∈ prog.segs) {p : Elf64Phdr} {q : Nat}
    (h : Placed os.pageShift prog.file s p q) : Placeable os p ∧ Fits os top p :=
  h.placeable prog.size hc.top_le (hfits.fits s hs)

/-- Its segments can be loaded side by side. -/
theorem ProgramFits.fileOk (hc : MmapContract os top) {prog : Program os.pageShift}
    (hfits : ProgramFits os top prog) : FileOk os prog.file := by
  have hmatch := file_segments prog
  refine ⟨?_, fun hnil => ?_, fun p hp => ?_, ?_⟩
  · rw [Program.file, link_ehdr]
    rfl
  · have hlen := hmatch.length_eq
    rw [hnil] at hlen
    exact prog.nonempty (List.length_eq_zero_iff.mp hlen)
  · obtain ⟨s, hs, q, h⟩ := forall₂_left hmatch.flip p hp
    exact (hfits.placeable hc hs h).1
  · refine forall₂_pairwise hmatch ?_ hfits.apart
    rintro s t p p' ⟨q, h⟩ ⟨q', h'⟩ hst x
    rw [h.phdr, h'.phdr]
    exact hst x

/-- Every segment of the file comes from one of the program, and can be placed. -/
theorem ProgramFits.origin (hc : MmapContract os top) {prog : Program os.pageShift}
    (hfits : ProgramFits os top prog) {p : Elf64Phdr} (hp : p ∈ segments prog.file) :
    ∃ s ∈ prog.segs, ∃ q, Placed os.pageShift prog.file s p q ∧ Placeable os p ∧ Fits os top p := by
  obtain ⟨s, hs, q, hplaced⟩ := forall₂_left (file_segments prog).flip p hp
  exact ⟨s, hs, q, hplaced, hfits.placeable hc hs hplaced⟩

/-- It is loaded. -/
theorem ProgramFits.loads (hc : MmapContract os top) (hgrants : GrantsBelow os top)
    {prog : Program os.pageShift} (hfits : ProgramFits os top prog) {phdr : List (BitVec 8)}
    (hphdr : phdr.length = sizeofElf64Phdr) (w : World) :
    ∃ w' mmu', mmuLoadElf os phdr w (Mmu.start 0) prog.file = .ok (w', mmu') ∧
      mmu'.entry = prog.entry := by
  obtain ⟨hheader, hread⟩ := file_readable prog
  obtain ⟨w', mmu', h⟩ := mmuLoadElf_loads hgrants hc.top_le hheader (hfits.fileOk hc) hread
    (fun p hp => by
      obtain ⟨-, -, -, -, -, hfit⟩ := hfits.origin hc hp
      exact hfit) hphdr w (Mmu.start 0)
  refine ⟨w', mmu', h, ?_⟩
  rw [loadPhdrs_entry (mmuLoadElf_inv h), Program.file, link_ehdr]

/-- An address of a segment's pages is covered by its header. -/
theorem ProgramFits.covers_onPage (hc : MmapContract os top) {prog : Program os.pageShift}
    (hfits : ProgramFits os top prog) {p : Elf64Phdr} (hp : p ∈ segments prog.file) (g : Word) :
    Covers os p (toHost g) ↔ OnPage os p g := by
  obtain ⟨-, -, -, -, hplaceable, hfit⟩ := hfits.origin hc hp
  have hpos := hplaceable.pos
  have hle := hplaceable.le
  rw [covers_iff (hplaceable.parts hc.top_le hfit), onPage_iff hc (by omega) hfit]

/-- And by no other, so that it is this one that a load leaves there. -/
theorem ProgramFits.last (hc : MmapContract os top) {prog : Program os.pageShift}
    (hfits : ProgramFits os top prog) {p : Elf64Phdr} (hp : p ∈ segments prog.file) {g : Word}
    (hg : OnPage os p g) :
    (segments prog.file).reverse.find? (fun p => Covers os p (toHost g)) = some p := by
  refine find_last hp ((hfits.covers_onPage hc hp g).mpr hg) fun p' hp' hcover => ?_
  by_contra hne
  exact (hfits.fileOk hc).apart.forall hp' hp hne g ⟨(hfits.covers_onPage hc hp' g).mp hcover, hg⟩

/-- A load of its segments puts each of them in its place, and changes nothing else. -/
theorem ProgramFits.inPlace (hc : MmapContract os top) {prog : Program os.pageShift}
    (hfits : ProgramFits os top prog) {w w' : World} {mmu mmu' : Mmu}
    (h : LoadRun os prog.file (segments prog.file) w mmu w' mmu') :
    ProgramInPlace os prog.segs w w' := by
  have hown (s : Seg) (hs : s ∈ prog.segs) (g : Word) (hg : s.OnPage os g) :
      w'.mem.prot (toHost g) = some (flagsToMmapProt s.flags) ∧
        w'.mem.unbacked (toHost g) = false ∧
        w'.mem.byte (toHost g) = s.data.getD (g - s.vaddr).toNat 0 := by
    obtain ⟨p, hp, q, hplaced⟩ := forall₂_left (file_segments prog) s hs
    obtain ⟨hplaceable, hfit⟩ := hfits.placeable hc hs hplaced
    have hparts := hplaceable.parts hc.top_le hfit
    have hpage : OnPage os p g := by
      rw [hplaced.phdr]
      exact hg
    have hpages := (covers_iff hparts _).mp ((hfits.covers_onPage hc hp g).mpr hpage)
    have hat := (h.contents (toHost g)).covered p (hfits.last hc hp hpage)
    refine ⟨?_, ?_, ?_⟩
    · rw [hat.prot, hplaced.phdr]
      rfl
    · rw [hat.unbacked, hplaced.backed prog.size hparts hpages]
    · rw [hat.byte, hplaced.byte prog.size hparts hpages]
  refine ⟨fun s hs g hg => (hown s hs g hg).1, fun s hs g hg => (hown s hs g hg).2.1,
    fun s hs g hg => (hown s hs g hg).2.2, fun g hg => (h.contents (toHost g)).clear ?_⟩
  rw [List.find?_eq_none]
  intro p hp hcover
  have hp' := List.mem_reverse.mp hp
  obtain ⟨s, hs, q, hplaced, -, -⟩ := hfits.origin hc hp'
  have hpage := (hfits.covers_onPage hc hp' g).mp (by simpa using hcover)
  rw [hplaced.phdr] at hpage
  exact hg s hs hpage

end

/-! ### Two segments -/

theorem pagingOs_grants : GrantsBelow pagingOs userTop :=
  fun _ _ _ _ hpage hpos hfits => if_pos ⟨hpage, hpos, hfits⟩

/-- `li a0, 42`. -/
def codeSeg : Seg :=
  { vaddr := 0x10000, memsz := 4, flags := 5, data := [0x13, 0x05, 0xa0, 0x02]
    pos := by decide, le := by decide }

/-- Two bytes in the middle of a page, and zeros to the end of the next page but one. -/
def dataSeg : Seg :=
  { vaddr := 0x20010, memsz := 0x1ff0, flags := 6, data := [1, 2]
    pos := by decide, le := by decide }

def codeAndData : Program 12 :=
  { entry := 0x10000, segs := [codeSeg, dataSeg], nonempty := List.cons_ne_nil _ _
    count := by decide, size := by decide +kernel }

theorem codeAndData_fits : ProgramFits pagingOs userTop codeAndData := by
  constructor
  · refine List.forall_mem_cons.mpr ⟨?_, List.forall_mem_singleton.mpr ?_⟩ <;> decide
  · show List.Pairwise _ [codeSeg, dataSeg]
    rw [List.pairwise_pair]
    exact apart_of_le (p := codeSeg.phdr 12 0) (q := dataSeg.phdr 12 0) pagingOs_contract
      (by decide) (by decide) (by decide) (by decide)

end Rvemu
