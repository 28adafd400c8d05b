/-
The record of a file's status, on both sides.

Linux has no one `struct stat`: each architecture lays its fields out in its own way.
`HostStat` is the 144 bytes an x86-64 host fills; `GuestStat` is what a RISC-V program
reads out of the 128 bytes it has room for.  The two agree on where the sizes and the
blocks are.
-/
import Rvemu.Lib.Layout
import Rvemu.Types

namespace Rvemu

open Memory

/-- `struct stat` of the host; the three time stamps are 16 bytes each. -/
structure HostStat where
  dev : BitVec 64
  ino : BitVec 64
  nlink : BitVec 64
  mode : BitVec 32
  uid : BitVec 32
  gid : BitVec 32
  pad0 : BitVec 32
  rdev : BitVec 64
  size : BitVec 64
  blksize : BitVec 64
  blocks : BitVec 64
  atim : BitVec 128
  mtim : BitVec 128
  ctim : BitVec 128
  reserved : BitVec 192
  deriving DecidableEq, Repr

/-- Its bytes, the fields in order. -/
def HostStat.bytes (s : HostStat) : List (BitVec 8) :=
  bytesOf 8 s.dev ++ (bytesOf 8 s.ino ++ (bytesOf 8 s.nlink ++ (bytesOf 4 s.mode ++
    (bytesOf 4 s.uid ++ (bytesOf 4 s.gid ++ (bytesOf 4 s.pad0 ++ (bytesOf 8 s.rdev ++
    (bytesOf 8 s.size ++ (bytesOf 8 s.blksize ++ (bytesOf 8 s.blocks ++ (bytesOf 16 s.atim ++
    (bytesOf 16 s.mtim ++ (bytesOf 16 s.ctim ++ bytesOf 24 s.reserved)))))))))))))

/-- How many bytes a RISC-V program has for a `struct stat`. -/
def sizeofGuestStat : Nat := 128

/-- The fields of the guest's `struct stat` that say what the file is. -/
structure GuestStat where
  mode : BitVec 32
  nlink : BitVec 32
  uid : BitVec 32
  gid : BitVec 32
  rdev : BitVec 64
  size : BitVec 64
  blksize : BitVec 32
  blocks : BitVec 64
  deriving DecidableEq, Repr

/-- What a RISC-V program reads from a record at the host address `a`. -/
def GuestStat.read (mem : Mem 64) (a : Word) : GuestStat where
  mode := mem.get (a + 16) 4
  nlink := mem.get (a + 20) 4
  uid := mem.get (a + 24) 4
  gid := mem.get (a + 28) 4
  rdev := mem.get (a + 32) 8
  size := mem.get (a + 48) 8
  blksize := mem.get (a + 56) 4
  blocks := mem.get (a + 64) 8

/-- The guest is told what the host knows; block sizes are signed on both sides. -/
structure GuestStat.Describes (g : GuestStat) (s : HostStat) : Prop where
  mode : g.mode = s.mode
  nlink : g.nlink.toNat = s.nlink.toNat
  uid : g.uid = s.uid
  gid : g.gid = s.gid
  rdev : g.rdev = s.rdev
  size : g.size = s.size
  blksize : g.blksize.toInt = s.blksize.toInt
  blocks : g.blocks = s.blocks

end Rvemu
