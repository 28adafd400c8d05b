/-
Loading the program and growing its memory, `mmu.c`.

A file is its bytes.  The loader reads the ELF header, then one program header
after the other into one and the same variable, and maps each loadable segment
where the program wants it, seen through `TO_HOST`.

`mmu_alloc` moves the guest's program break.  It asks the host for memory near the
end of what is mapped and does not look at where the host put it; and when the
break sinks it unmaps the range that starts at that end.
-/
import Rvemu.Host

namespace Rvemu

open Memory

/-! ### The ELF file -/

/-- The little-endian number in `n` bytes of a buffer from `off` on. -/
def field (buf : List (BitVec 8)) (off : Nat) : (n : Nat) → BitVec (8 * n)
  | 0 => 0#0
  | n + 1 => field buf (off + 1) n ++ buf.getD off 0

/-- The fields of `elf64_ehdr_t` that the loader reads. -/
structure Elf64Ehdr where
  magic : BitVec 32
  elfClass : BitVec 8
  machine : BitVec 16
  entry : Word
  phoff : Word
  phentsize : BitVec 16
  phnum : BitVec 16
  deriving DecidableEq, Repr

/-- `sizeof(elf64_ehdr_t)`. -/
def sizeofElf64Ehdr : Nat := 64

/-- The header at the start of a buffer. -/
def Elf64Ehdr.ofBytes (buf : List (BitVec 8)) : Elf64Ehdr where
  magic := field buf 0 4
  elfClass := field buf 4 1
  machine := field buf 18 2
  entry := field buf 24 8
  phoff := field buf 32 8
  phentsize := field buf 54 2
  phnum := field buf 56 2

/-- The fields of `elf64_phdr_t` that the loader reads. -/
structure Elf64Phdr where
  type : BitVec 32
  flags : BitVec 32
  offset : Word
  vaddr : Word
  filesz : Word
  memsz : Word
  deriving DecidableEq, Repr

/-- The program header at the start of a buffer. -/
def Elf64Phdr.ofBytes (buf : List (BitVec 8)) : Elf64Phdr where
  type := field buf 0 4
  flags := field buf 4 4
  offset := field buf 8 8
  vaddr := field buf 16 8
  filesz := field buf 32 8
  memsz := field buf 40 8

/-- `ELFMAG`, as a number. -/
def elfMag : BitVec 32 := 0x464c457f

def emRiscv : BitVec 16 := 243
def elfClass64 : BitVec 8 := 2
def ptLoad : BitVec 32 := 1

/-- `load_phdr`: the variable `phdr` after reading entry `i`, from what it held before.
A short entry leaves the rest as it was. -/
def loadPhdr (phdr : List (BitVec 8)) (ehdr : Elf64Ehdr) (i : Nat) (file : List (BitVec 8)) :
    Except Stop (List (BitVec 8)) :=
  let pos := ehdr.phoff + ehdr.phentsize.setWidth 64 * BitVec.ofNat 64 i
  -- seeking past the end of a file is no error, seeking to a negative offset is
  if pos.slt 0 then .error (.fatal "file too small")
  else
    let data := (file.drop pos.toNat).take ehdr.phentsize.toNat
    if data.length ≠ ehdr.phentsize.toNat then .error (.fatal "file too small")
    else .ok (data ++ phdr.drop data.length)

/-- `flags_to_mmap_prot`. -/
def flagsToMmapProt (flags : BitVec 32) : Prot :=
  { read := flags &&& 4 != 0, write := flags &&& 2 != 0, exec := flags &&& 1 != 0 }

variable (os : Os)

/-- `mmu_load_segment`. -/
def mmuLoadSegment (w : World) (mmu : Mmu) (phdr : Elf64Phdr) (file : List (BitVec 8)) :
    Except Stop (World × Mmu) := do
  let pageSize := os.pageSize
  let guestInHostVaddr := toHost phdr.vaddr
  let alignedVaddr := roundDown guestInHostVaddr pageSize
  let filesz := phdr.filesz + (guestInHostVaddr - alignedVaddr)
  let memsz := phdr.memsz + (guestInHostVaddr - alignedVaddr)
  let prot := flagsToMmapProt phdr.flags
  let offset := roundDown phdr.offset pageSize
  let w ← match os.mmapFixed w.clock w.mem alignedVaddr filesz with
    | .fail _ => .error (.assertFail "addr == aligned_vaddr")
    | .ok () => .ok (w.withMem (w.mem.map alignedVaddr (roundUp filesz pageSize).toNat prot
        (fun j => file.getD (offset.toNat + j) 0)
        -- there is nothing behind a page that starts past the end of the file
        fun j => file.length ≤ offset.toNat + j / pageSize.toNat * pageSize.toNat)).tick
  let remainingBssSize := roundUp memsz pageSize - roundUp filesz pageSize
  let bss := alignedVaddr + roundUp filesz pageSize
  let w ← if remainingBssSize = 0 then .ok w
    else match os.mmapFixed w.clock w.mem bss remainingBssSize with
    | .fail _ => .error (.assertFail "addr == aligned_vaddr + ROUNDUP(filesz, page_size)")
    | .ok () => .ok (w.withMem (w.mem.map bss remainingBssSize.toNat prot fun _ => 0)).tick
  let segmentEnd := alignedVaddr + roundUp memsz pageSize
  let hostAlloc := if segmentEnd.ult mmu.hostAlloc then mmu.hostAlloc else segmentEnd
  .ok (w, { mmu with
    hostAlloc := hostAlloc, guestAlloc := toGuest hostAlloc, base := toGuest hostAlloc })

/-- The loop over the program headers, from entry `i` on, with `n` entries to go. -/
def loadPhdrs (ehdr : Elf64Ehdr) (file : List (BitVec 8)) :
    Nat → Nat → List (BitVec 8) → World → Mmu → Except Stop (World × Mmu)
  | _, 0, _, w, mmu => .ok (w, mmu)
  | i, n + 1, phdr, w, mmu => do
      let phdr ← loadPhdr phdr ehdr i file
      let (w, mmu) ←
        if (Elf64Phdr.ofBytes phdr).type = ptLoad then
          mmuLoadSegment os w mmu (Elf64Phdr.ofBytes phdr) file
        else .ok (w, mmu)
      loadPhdrs ehdr file (i + 1) n phdr w mmu

/-- `mmu_load_elf`; `phdr` is what the uninitialised variable of that name holds. -/
def mmuLoadElf (phdr : List (BitVec 8)) (w : World) (mmu : Mmu) (file : List (BitVec 8)) :
    Except Stop (World × Mmu) :=
  if file.length < sizeofElf64Ehdr then .error (.fatal "file too small")
  else
    let ehdr := Elf64Ehdr.ofBytes file
    if ehdr.magic ≠ elfMag then .error (.fatal "bad elfmag")
    else if ehdr.machine ≠ emRiscv ∨ ehdr.elfClass ≠ elfClass64 then
      .error (.fatal "only RISCV64 elf support")
    else loadPhdrs os ehdr file 0 ehdr.phnum.toNat phdr w { mmu with entry := ehdr.entry }

/-! ### The program break -/

/-- `mmu_alloc`: the old break, and the world and the allocator after the call. -/
def mmuAlloc (w : World) (mmu : Mmu) (size : Word) : Except Stop (Word × World × Mmu) := do
  let pageSize := os.pageSize
  let base := mmu.guestAlloc
  assertThat (mmu.base.ule base) "base >= mmu->base"
  let mmu := { mmu with guestAlloc := mmu.guestAlloc + size }
  assertThat (mmu.base.ule mmu.guestAlloc) "mmu->guest_alloc >= mmu->base"
  if (0 : Word).slt size && (toGuest mmu.hostAlloc).ult mmu.guestAlloc then
    let allocSize := roundUp size pageSize
    match os.mmapAnon w.clock w.mem mmu.hostAlloc allocSize with
    | .fail _ => .error (.fatal "mmap failed in mmu alloc")
    | .ok addr =>
      -- the address is not compared with the hint
      .ok (base, (w.withMem (w.mem.map addr allocSize.toNat Prot.rw fun _ => 0)).tick,
        { mmu with hostAlloc := mmu.hostAlloc + allocSize })
  else if size.slt 0 && (roundUp mmu.guestAlloc pageSize).ult (toGuest mmu.hostAlloc) then
    let munmapSize := toGuest mmu.hostAlloc - roundUp mmu.guestAlloc pageSize
    match os.munmap w.clock w.mem mmu.hostAlloc munmapSize with
    | .fail errno => .error (.fatal (os.strerror errno))
    | .ok () =>
      .ok (base, (w.withMem (w.mem.unmap mmu.hostAlloc munmapSize.toNat)).tick,
        { mmu with hostAlloc := mmu.hostAlloc - munmapSize })
  else .ok (base, w, mmu)

/-- `mmu_write`. -/
def mmuWrite (w : World) (guestAddr : Word) (data : List (BitVec 8)) : Except Stop World :=
  match w.mem.storeList (toHost guestAddr) data with
  | .ok mem => .ok (w.withMem mem)
  | .error a => .error (.segv a)

end Rvemu
