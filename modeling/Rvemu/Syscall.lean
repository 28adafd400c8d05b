/-
The system calls of the guest, `syscall.c`.

A handler takes the machine and returns the value for the guest together with the
machine as it leaves it.  What a library wrapper of the host returns is passed on
as it is.
-/
import Rvemu.Machine

namespace Rvemu

open Memory

/-- `syscall_t`. -/
abbrev Syscall := Machine → Except Stop (Word × Machine)

/-- The machine in another world. -/
def Machine.withWorld (m : Machine) (w : World) : Machine :=
  { m with state := { m.state with world := w } }

/-- The machine after one more answer of the host. -/
def Machine.tick (m : Machine) : Machine := m.withWorld m.state.world.tick

/-- The machine after the host put bytes into its memory. -/
def Machine.deliver (m : Machine) (addr : Word) (bytes : List (BitVec 8)) : Machine :=
  m.withWorld (m.state.world.withMem (m.state.world.mem.putList addr bytes))

/-- What the C library stores through a pointer, unless it is null. -/
def storeThrough (ptr : Word) (bytes : List (BitVec 8)) (mem : Mem 64) : Except Stop (Mem 64) :=
  if ptr = 0 then .ok mem else (mem.storeList ptr bytes).mapError .segv

section

variable (os : Os)

/-- The machine after a call that delivered nothing. -/
def Machine.settled (m : Machine) : Machine := m.withWorld (m.state.world.settled os)

/-- The world after a call to open a file: it may have taken the place of standard error. -/
def World.opened (w : World) (flags : BitVec 32) (r : Reply (BitVec 32)) : World :=
  -- the access modes 1 and 2 let the process write
  if r = .ok 2 ∧ (flags &&& 3 = 1 ∨ flags &&& 3 = 2) then { w with stderrShut := false } else w

def sysUnimplemented : Syscall := fun m =>
  .error (.fatal ("unimplemented syscall: " ++ toString (m.state.gp Reg.a7).toNat))

def sysExit : Syscall := fun m =>
  let code := m.state.gp Reg.a0
  .error (.exit (code.setWidth 32))

def sysClose : Syscall := fun m =>
  let fd := m.state.gp Reg.a0
  let w := m.state.world
  if (2 : Word).ult fd then
    .ok ((os.close w.clock (fd.setWidth 32)).int,
      m.withWorld { w.settled os with
        closed := w.closed ++ [fd.setWidth 32]
        stderrShut := w.stderrShut || fd.setWidth 32 == 2#32 })
  else .ok (0, m)

def sysWrite : Syscall := fun m =>
  let fd := m.state.gp Reg.a0
  let ptr := m.state.gp Reg.a1
  let len := m.state.gp Reg.a2
  let w := m.state.world
  match os.write w.clock w.mem (fd.setWidth 32) (toHost ptr) len with
  | .error no => .error (.signal no)
  | .ok r =>
    let out := match r with
      | .ok n => w.out ++ [{ fd := fd.setWidth 32, bytes := w.mem.getList (toHost ptr) n.toNat }]
      | .fail _ => w.out
    .ok (r.long, m.withWorld { w.settled os with out := out })

def sysFstat : Syscall := fun m =>
  let fd := m.state.gp Reg.a0
  let addr := m.state.gp Reg.a1
  let w := m.state.world
  match os.fstat w.clock w.mem (fd.setWidth 32) (toHost addr) with
  | .ok stat => .ok (0, (m.deliver (toHost addr) stat).tick)
  | .fail _ => .ok (-1, m.settled os)

def sysGettimeofday : Syscall := fun m =>
  let tvAddr := m.state.gp Reg.a0
  let tzAddr := m.state.gp Reg.a1
  let w := m.state.world
  let tz := if tzAddr ≠ 0 then toHost tzAddr else 0
  match os.gettimeofday w.clock w.mem (toHost tvAddr) tz with
  | .ok (time, zone) => do
    -- the C library stores them, so that a bad address faults
    let mem ← storeThrough (toHost tvAddr) time w.mem
    let mem ← storeThrough tz zone mem
    .ok (0, m.withWorld (w.withMem mem).tick)
  | .fail _ => .ok (-1, m.settled os)

def sysBrk : Syscall := fun m => do
  let addr := m.state.gp Reg.a0
  let addr := if addr = 0 then m.mmu.guestAlloc else addr
  assertThat (m.mmu.base.ule addr) "addr >= m->mmu.base"
  let incr := addr - m.mmu.guestAlloc
  let (_, w, mmu) ← mmuAlloc os m.state.world m.mmu incr
  .ok (addr, { m.withWorld w with mmu := mmu })

/-- `convert_flags`: newlib's open flags as those of Linux, in the order of the source. -/
def convertFlags (flags : BitVec 32) : BitVec 32 :=
  let rewriteFlag (newlib host hostflags : BitVec 32) : BitVec 32 :=
    if flags &&& newlib ≠ 0 then hostflags ||| host else hostflags
  let hostflags := rewriteFlag 0x0 0x0 0 -- O_RDONLY
  let hostflags := rewriteFlag 0x1 0x1 hostflags -- O_WRONLY
  let hostflags := rewriteFlag 0x2 0x2 hostflags -- O_RDWR
  let hostflags := rewriteFlag 0x8 0x400 hostflags -- O_APPEND
  let hostflags := rewriteFlag 0x200 0x40 hostflags -- O_CREAT
  let hostflags := rewriteFlag 0x400 0x200 hostflags -- O_TRUNC
  rewriteFlag 0x800 0x80 hostflags -- O_EXCL

def sysOpenat : Syscall := fun m =>
  let dirfd := m.state.gp Reg.a0
  let nameptr := m.state.gp Reg.a1
  let flags := m.state.gp Reg.a2
  let mode := m.state.gp Reg.a3
  let w := m.state.world
  let flags := convertFlags (flags.setWidth 32)
  let r := os.openat w.clock w.mem (dirfd.setWidth 32) (toHost nameptr) flags (mode.setWidth 32)
  .ok (r.int, m.withWorld ((w.settled os).opened flags r))

def sysOpen : Syscall := fun m =>
  let nameptr := m.state.gp Reg.a0
  let flags := m.state.gp Reg.a1
  let mode := m.state.gp Reg.a2
  let w := m.state.world
  let flags := convertFlags (flags.setWidth 32)
  let r := os.openPath w.clock w.mem (toHost nameptr) flags (mode.setWidth 32)
  .ok (r.int, m.withWorld ((w.settled os).opened flags r))

def sysLseek : Syscall := fun m =>
  let fd := m.state.gp Reg.a0
  let offset := m.state.gp Reg.a1
  let whence := m.state.gp Reg.a2
  .ok ((os.lseek m.state.world.clock (fd.setWidth 32) offset (whence.setWidth 32)).long,
    m.settled os)

def sysRead : Syscall := fun m =>
  let fd := m.state.gp Reg.a0
  let bufptr := m.state.gp Reg.a1
  let count := m.state.gp Reg.a2
  let w := m.state.world
  match os.read w.clock w.mem (fd.setWidth 32) (toHost bufptr) count with
  | .ok bytes => .ok (BitVec.ofNat 64 bytes.length, (m.deliver (toHost bufptr) bytes).tick)
  | .fail _ => .ok (-1, m.settled os)

/-! ### The tables -/

/-- `syscall_table`; an index that is not listed holds a null pointer. -/
def syscallTable : List (Nat × Syscall) := [
  (93, sysExit), -- exit
  (94, sysExit), -- exit_group
  (63, sysRead os), -- read
  (67, sysUnimplemented), -- pread
  (64, sysWrite os), -- write
  (56, sysOpenat os), -- openat
  (57, sysClose os), -- close
  (80, sysFstat os), -- fstat
  (291, sysUnimplemented), -- statx
  (62, sysLseek os), -- lseek
  (79, sysUnimplemented), -- fstatat
  (37, sysUnimplemented), -- linkat
  (35, sysUnimplemented), -- unlinkat
  (34, sysUnimplemented), -- mkdirat
  (38, sysUnimplemented), -- renameat
  (17, sysUnimplemented), -- getcwd
  (214, sysBrk os), -- brk
  (160, sysUnimplemented), -- uname
  (172, sysUnimplemented), -- getpid
  (174, sysUnimplemented), -- getuid
  (175, sysUnimplemented), -- geteuid
  (176, sysUnimplemented), -- getgid
  (177, sysUnimplemented), -- getegid
  (178, sysUnimplemented), -- gettid
  (131, sysUnimplemented), -- tgkill
  (222, sysUnimplemented), -- mmap
  (215, sysUnimplemented), -- munmap
  (216, sysUnimplemented), -- mremap
  (226, sysUnimplemented), -- mprotect
  (134, sysUnimplemented), -- rt_sigaction
  (169, sysGettimeofday os), -- gettimeofday
  (153, sysUnimplemented), -- times
  (66, sysUnimplemented), -- writev
  (48, sysUnimplemented), -- faccessat
  (25, sysUnimplemented), -- fcntl
  (46, sysUnimplemented), -- ftruncate
  (61, sysUnimplemented), -- getdents
  (23, sysUnimplemented), -- dup
  (24, sysUnimplemented), -- dup3
  (135, sysUnimplemented), -- rt_sigprocmask
  (113, sysUnimplemented), -- clock_gettime
  (49, sysUnimplemented)] -- chdir

/-- `OLD_SYSCALL_THRESHOLD`. -/
def oldSyscallThreshold : Word := 1024

/-- `old_syscall_table`, by the distance from the threshold. -/
def oldSyscallTable : List (Nat × Syscall) := [
  (0, sysOpen os), -- open
  (1, sysUnimplemented), -- link
  (2, sysUnimplemented), -- unlink
  (6, sysUnimplemented), -- mkdir
  (9, sysUnimplemented), -- access
  (14, sysUnimplemented), -- stat
  (15, sysUnimplemented), -- lstat
  (38, sysUnimplemented)] -- time

/-- `do_syscall`. -/
def doSyscall (m : Machine) (n : Word) : Except Stop (Word × Machine) :=
  let f :=
    if n.ult 292 then (syscallTable os).lookup n.toNat
    else if (n - oldSyscallThreshold).ult 39 then
      (oldSyscallTable os).lookup (n - oldSyscallThreshold).toNat
    else none
  match f with
  | none => .error (.fatal "unknown syscall")
  | some f => f m

end

end Rvemu
