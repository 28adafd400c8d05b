/-
Programs, and the files that hold them.

A program is an entry point and a list of segments, each of them some bytes from an
address on, and zeros behind them.  `link` writes it to a file as a linker would: the
header, the table of program headers, and then every segment on pages of the file
that it shares with nothing, at the same place in its first page as in memory.
-/
import Rvemu.Lib.Align
import Rvemu.Lib.Layout
import Rvemu.Mmu

namespace Rvemu.Spec

open Memory

/-! ### Segments -/

/-- A segment of a program. -/
structure Seg where
  vaddr : Word
  memsz : Word
  flags : BitVec 32
  /-- The bytes it starts with. -/
  data : List (BitVec 8)
  pos : 0 < data.length
  le : data.length ≤ memsz.toNat

section

variable (shift : Nat) (s : Seg)

/-- Where it starts in its first page. -/
def Seg.lead : Nat := s.vaddr.toNat % 2 ^ shift

/-- How many bytes of the file its pages take. -/
def Seg.span : Nat := Align.ceil shift (s.lead shift + s.data.length)

/-- Its pages in the file. -/
def Seg.pages : List (BitVec 8) :=
  List.replicate (s.lead shift) 0 ++
    (s.data ++ List.replicate (s.span shift - (s.lead shift + s.data.length)) 0)

/-- Its header, if its pages start at `start` in the file. -/
def Seg.phdr (start : Nat) : Elf64Phdr where
  type := ptLoad
  flags := s.flags
  offset := BitVec.ofNat 64 (start + s.lead shift)
  vaddr := s.vaddr
  filesz := BitVec.ofNat 64 s.data.length
  memsz := s.memsz

end

/-- The headers of segments whose pages follow each other in the file. -/
def layout (shift : Nat) : Nat → List Seg → List Elf64Phdr
  | _, [] => []
  | start, s :: rest => s.phdr shift start :: layout shift (start + s.span shift) rest

/-! ### Files -/

/-- An `elf64_ehdr_t`, of a file with `n` program headers right behind it. -/
def ehdrBytes (entry : Word) (n : Nat) : List (BitVec 8) :=
  bytesOf 4 elfMag ++ (bytesOf 1 elfClass64 ++ (bytesOf 11 0x0101 ++ -- e_ident
  (bytesOf 2 2 ++ (bytesOf 2 emRiscv ++ (bytesOf 4 1 ++ -- e_type, e_machine, e_version
  (bytesOf 8 entry ++ (bytesOf 8 64 ++ (bytesOf 8 0 ++ -- e_entry, e_phoff, e_shoff
  (bytesOf 4 0 ++ (bytesOf 2 64 ++ -- e_flags, e_ehsize
  (bytesOf 2 56 ++ (bytesOf 2 (BitVec.ofNat 16 n) ++ -- e_phentsize, e_phnum
  bytesOf 6 0)))))))))))) -- e_shentsize, e_shnum, e_shstrndx

/-- An `elf64_phdr_t`, aligned to pages. -/
def phdrBytes (shift : Nat) (p : Elf64Phdr) : List (BitVec 8) :=
  bytesOf 4 p.type ++ (bytesOf 4 p.flags ++ (bytesOf 8 p.offset ++ (bytesOf 8 p.vaddr ++
  (bytesOf 8 p.vaddr ++ -- p_paddr
  (bytesOf 8 p.filesz ++ (bytesOf 8 p.memsz ++
  bytesOf 8 (BitVec.ofNat 64 (2 ^ shift)))))))) -- p_align

/-- Where the pages of `n` segments start, behind their headers. -/
def pagesStart (shift n : Nat) : Nat := Align.ceil shift (64 + 56 * n)

/-- The file. -/
def link (shift : Nat) (entry : Word) (segs : List Seg) : List (BitVec 8) :=
  ehdrBytes entry segs.length ++
    ((layout shift (pagesStart shift segs.length) segs).flatMap (phdrBytes shift) ++
      (List.replicate (pagesStart shift segs.length - (64 + 56 * segs.length)) 0 ++
        segs.flatMap (Seg.pages shift)))

/-- A program that fits into a file. -/
structure Program (shift : Nat) where
  entry : Word
  segs : List Seg
  nonempty : segs ≠ []
  /-- The number of segments is a `uint16_t`. -/
  count : segs.length < 2 ^ 16
  size : (link shift entry segs).length < 2 ^ 63

/-- Its file. -/
def Program.file {shift : Nat} (prog : Program shift) : List (BitVec 8) :=
  link shift prog.entry prog.segs

end Rvemu.Spec
