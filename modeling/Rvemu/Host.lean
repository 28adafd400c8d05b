/-
The host system the emulator runs on.

`Os` is what the emulator asks of it: the page size, the memory calls and the file
calls it forwards for the guest.  Nothing is assumed of the answers here.  An
answer may depend on the arguments, on the address space of the process and, for
everything the model does not show, on the number of calls answered so far.

A wrapper of the C library that fails returns -1 and leaves the reason in `errno`;
`Reply` keeps both outcomes apart until the caller converts them to the return
type.
-/
import Rvemu.Types

namespace Rvemu

open Memory

/-- How a call to the host ended. -/
inductive Reply (α : Type)
  | ok (a : α)
  | fail (errno : BitVec 32)
  deriving DecidableEq, Repr

namespace Reply

/-- An `int` that a library wrapper returned, assigned to a `uint64_t`. -/
def int : Reply (BitVec 32) → Word
  | .ok v => v.signExtend 64
  | .fail _ => -1

/-- A `ssize_t` or `off_t` that a library wrapper returned, assigned to a `uint64_t`. -/
def long : Reply Word → Word
  | .ok v => v
  | .fail _ => -1

end Reply

/-- The host. -/
structure Os where
  /-- `getpagesize()` is two to this power. -/
  pageShift : Nat
  /-- The page size is an `int`. -/
  pageShift_lt : pageShift < 31
  strerror : BitVec 32 → String
  /-- `mmap` of anonymous memory near a hint, for a length: where it was placed. -/
  mmapAnon : Nat → Mem 64 → Word → Word → Reply Word
  /-- `mmap` with `MAP_FIXED` at an address, for a length. -/
  mmapFixed : Nat → Mem 64 → Word → Word → Reply Unit
  /-- `munmap` of an address, for a length. -/
  munmap : Nat → Mem 64 → Word → Word → Reply Unit
  close : Nat → BitVec 32 → Reply (BitVec 32)
  /-- `write` of a descriptor, from an address, up to a count; or the signal that ends the
  process, as on a pipe that nobody reads. -/
  write : Nat → Mem 64 → BitVec 32 → Word → Word → Except (BitVec 32) (Reply Word)
  /-- `read` of a descriptor, to an address, up to a count: the bytes delivered. -/
  read : Nat → Mem 64 → BitVec 32 → Word → Word → Reply (List (BitVec 8))
  /-- `open` of the path at an address, with flags and mode. -/
  openPath : Nat → Mem 64 → Word → BitVec 32 → BitVec 32 → Reply (BitVec 32)
  openat : Nat → Mem 64 → BitVec 32 → Word → BitVec 32 → BitVec 32 → Reply (BitVec 32)
  lseek : Nat → BitVec 32 → Word → BitVec 32 → Reply Word
  /-- `fstat` of a descriptor, to an address: the `struct stat`. -/
  fstat : Nat → Mem 64 → BitVec 32 → Word → Reply (List (BitVec 8))
  /-- `gettimeofday` to two addresses: the time and the time zone. -/
  gettimeofday : Nat → Mem 64 → Word → Word → Reply (List (BitVec 8) × List (BitVec 8))
  /-- What the address space is after a call that delivers nothing.  A call that failed may have
  delivered a part; and a file that is mapped changes with what is written to it. -/
  aside : Nat → Mem 64 → Mem 64

/-- `getpagesize()`. -/
def Os.pageSize (os : Os) : Word := BitVec.ofNat 64 (2 ^ os.pageShift)

/-- `ROUNDDOWN`. -/
def roundDown (x k : Word) : Word := x &&& -k

/-- `ROUNDUP`. -/
def roundUp (x k : Word) : Word := (x + k - 1) &&& -k

namespace World

/-- The world after one more answer of the host. -/
def tick (w : World) : World := { w with clock := w.clock + 1 }

/-- The same with another address space. -/
def withMem (w : World) (mem : Mem 64) : World := { w with mem := mem }

/-- The world after a call that delivered nothing: pages stay mapped as they are. -/
def settled (os : Os) (w : World) : World :=
  (w.withMem { os.aside w.clock w.mem with prot := w.mem.prot }).tick

end World

end Rvemu
