/-
What a system call answers, and what it leaves alone.

Every call but `brk` leaves the allocator and the mappings alone, and none touches
the floating-point registers.  The table is read once for that.

The calls that are handed to the host put into `a0` what the C library's wrapper
returned: the result, or -1.  `hostAnswer` says which calls these are and what the
host has to say; the number of the error does not get past the wrapper.
-/
import Rvemu.Main
import Rvemu.Proofs.Handlers

namespace Rvemu

open Memory

/-! ### Which calls change what -/

/-- The machine after a call that leaves alone what only the program or `brk` may change. -/
structure SameFrame (m m' : Machine) : Prop where
  gpRegs : m'.state.gpRegs = m.state.gpRegs
  fpRegs : m'.state.fpRegs = m.state.fpRegs
  pc : m'.state.pc = m.state.pc
  reenterPc : m'.state.reenterPc = m.state.reenterPc
  inst : m'.inst = m.inst

/-- The same, and the allocator and the mappings. -/
structure SameMap (m m' : Machine) : Prop extends SameFrame m m' where
  mmu : m'.mmu = m.mmu
  prot : m'.state.world.mem.prot = m.state.world.mem.prot

/-- A call that can leave no other machine than one with the same mappings. -/
def Quiet (f : Syscall) : Prop :=
  ∀ (m : Machine) (r : Word) (m' : Machine), f m = .ok (r, m') → SameMap m m'

theorem SameMap.refl (m : Machine) : SameMap m m := ⟨⟨rfl, rfl, rfl, rfl, rfl⟩, rfl, rfl⟩

/-- A change of the world that keeps the mappings. -/
theorem SameMap.withWorld {m m' : Machine} (h : SameMap m m') {w : World}
    (hw : w.mem.prot = m'.state.world.mem.prot) : SameMap m (m'.withWorld w) where
  gpRegs := h.gpRegs
  fpRegs := h.fpRegs
  pc := h.pc
  reenterPc := h.reenterPc
  inst := h.inst
  mmu := h.mmu
  prot := hw.trans h.prot

theorem SameMap.tick {m m' : Machine} (h : SameMap m m') : SameMap m m'.tick :=
  h.withWorld (w := m'.state.world.tick) rfl

theorem SameMap.deliver {m m' : Machine} (h : SameMap m m') (a : Word)
    (bytes : List (BitVec 8)) : SameMap m (m'.deliver a bytes) :=
  h.withWorld (w := m'.state.world.withMem (m'.state.world.mem.putList a bytes)) rfl

variable {os : Os}

theorem SameMap.settled {m m' : Machine} (h : SameMap m m') : SameMap m (m'.settled os) :=
  h.withWorld (w := m'.state.world.settled os) rfl

theorem opened_mem (w : World) (flags : BitVec 32) (r : Reply (BitVec 32)) :
    (w.opened flags r).mem = w.mem := by
  unfold World.opened
  split <;> rfl

theorem SameMap.opened {m m' : Machine} (h : SameMap m m') (flags : BitVec 32)
    (r : Reply (BitVec 32)) :
    SameMap m (m'.withWorld ((m'.state.world.settled os).opened flags r)) := by
  refine h.withWorld ?_
  rw [opened_mem]
  rfl

/-- A store through a pointer: nothing without one, or all of the bytes. -/
theorem storeThrough_ok_iff {ptr : Word} {bytes : List (BitVec 8)} {mem mem' : Mem 64} :
    storeThrough ptr bytes mem = .ok mem' ↔
      ptr = 0 ∧ mem' = mem ∨
        ptr ≠ 0 ∧ (∀ i < bytes.length, mem.writable (ptr + BitVec.ofNat 64 i) = true) ∧
          mem' = mem.putList ptr bytes := by
  rw [← Mem.storeList_ok_iff]
  unfold storeThrough
  by_cases hptr : ptr = 0
  · rw [if_pos hptr]
    constructor
    · rintro ⟨⟩
      exact .inl ⟨hptr, rfl⟩
    · rintro (⟨-, rfl⟩ | ⟨hne, -⟩)
      · rfl
      · exact absurd hptr hne
  · rw [if_neg hptr, mapError_ok_iff]
    exact ⟨fun h => .inr ⟨hptr, h⟩, fun h => (h.resolve_left fun hz => hptr hz.1).2⟩

theorem storeThrough_error_iff {ptr : Word} {bytes : List (BitVec 8)} {mem : Mem 64} {e : Stop} :
    storeThrough ptr bytes mem = .error e ↔
      ptr ≠ 0 ∧ ∃ bad, e = .segv bad ∧ Mem.FirstBad mem.writable bytes.length ptr bad := by
  simp only [← Mem.storeList_error_iff]
  unfold storeThrough
  by_cases hptr : ptr = 0
  · rw [if_pos hptr]
    exact ⟨nofun, fun h => absurd hptr h.1⟩
  · rw [if_neg hptr, mapError_error_iff]
    exact (and_iff_right hptr).symm

/-- What is mapped, and what can be written, does not change with it. -/
theorem storeThrough_prot {ptr : Word} {bytes : List (BitVec 8)} {mem mem' : Mem 64}
    (h : storeThrough ptr bytes mem = .ok mem') : mem'.prot = mem.prot := by
  rcases storeThrough_ok_iff.mp h with ⟨-, rfl⟩ | ⟨-, -, rfl⟩ <;> rfl

theorem storeThrough_writable {ptr : Word} {bytes : List (BitVec 8)} {mem mem' : Mem 64}
    (h : storeThrough ptr bytes mem = .ok mem') : mem'.writable = mem.writable := by
  rcases storeThrough_ok_iff.mp h with ⟨-, rfl⟩ | ⟨-, -, rfl⟩ <;> rfl

/-- Where the guest wants the time zone, as a host address. -/
def Machine.zonePtr (m : Machine) : Word :=
  if m.state.gp Reg.a1 ≠ 0 then toHost (m.state.gp Reg.a1) else 0

/-- The time and the time zone are stored one after the other, or the host has neither. -/
theorem sysGettimeofday_eq (m : Machine) :
    sysGettimeofday os m =
      match os.gettimeofday m.state.world.clock m.state.world.mem (toHost (m.state.gp Reg.a0))
        m.zonePtr with
      | .ok (time, zone) =>
        (storeThrough (toHost (m.state.gp Reg.a0)) time m.state.world.mem >>=
          storeThrough m.zonePtr zone).map fun mem =>
            (0, m.withWorld (m.state.world.withMem mem).tick)
      | .fail _ => .ok (-1, m.settled os) := by
  unfold sysGettimeofday Machine.zonePtr
  dsimp only
  generalize (if m.state.gp Reg.a1 ≠ 0 then toHost (m.state.gp Reg.a1) else 0) = tz
  cases os.gettimeofday m.state.world.clock m.state.world.mem (toHost (m.state.gp Reg.a0)) tz with
  | fail errno => rfl
  | ok p =>
      obtain ⟨time, zone⟩ := p
      dsimp only
      cases storeThrough (toHost (m.state.gp Reg.a0)) time m.state.world.mem with
      | error e => rfl
      | ok mem =>
          show (storeThrough tz zone mem >>= _) = (storeThrough tz zone mem).map _
          cases storeThrough tz zone mem <;> rfl

/-- A call for the time of day that returned: both stores were made, or the host failed it. -/
inductive TimeCall (os : Os) (m : Machine) : Word → Machine → Prop
  | told {time zone : List (BitVec 8)} {mem₁ mem₂ : Mem 64}
      (hreply : os.gettimeofday m.state.world.clock m.state.world.mem
        (toHost (m.state.gp Reg.a0)) m.zonePtr = .ok (time, zone))
      (htime : storeThrough (toHost (m.state.gp Reg.a0)) time m.state.world.mem = .ok mem₁)
      (hzone : storeThrough m.zonePtr zone mem₁ = .ok mem₂) :
      TimeCall os m 0 (m.withWorld (m.state.world.withMem mem₂).tick)
  | fails {errno : BitVec 32}
      (hreply : os.gettimeofday m.state.world.clock m.state.world.mem
        (toHost (m.state.gp Reg.a0)) m.zonePtr = .fail errno) :
      TimeCall os m (-1) (m.settled os)

theorem sysGettimeofday_inv {m m' : Machine} {r : Word}
    (h : sysGettimeofday os m = .ok (r, m')) : TimeCall os m r m' := by
  rw [sysGettimeofday_eq] at h
  split at h
  · rename_i hreply
    obtain ⟨mem₂, hstored, h⟩ := map_ok_inv h
    obtain ⟨mem₁, htime, hzone⟩ := bind_ok_inv hstored
    cases h
    exact .told hreply htime hzone
  · rename_i hreply
    cases h
    exact .fails hreply

theorem sysUnimplemented_quiet : Quiet sysUnimplemented := fun _ _ _ h => by cases h

theorem sysExit_quiet : Quiet sysExit := fun _ _ _ h => by cases h

theorem sysClose_quiet : Quiet (sysClose os) := by
  intro m r m' h
  unfold sysClose at h
  dsimp only at h
  split at h <;> cases h
  · exact (SameMap.refl m).withWorld rfl
  · exact .refl m

theorem sysWrite_quiet : Quiet (sysWrite os) := by
  intro m r m' h
  unfold sysWrite at h
  dsimp only at h
  split at h <;> cases h
  exact (SameMap.refl m).withWorld rfl

theorem sysFstat_quiet : Quiet (sysFstat os) := by
  intro m r m' h
  unfold sysFstat at h
  dsimp only at h
  split at h <;> cases h
  · exact ((SameMap.refl m).deliver _ _).tick
  · exact (SameMap.refl m).settled

theorem sysGettimeofday_quiet : Quiet (sysGettimeofday os) := by
  intro m r m' h
  cases sysGettimeofday_inv h with
  | told hreply htime hzone =>
      exact (SameMap.refl m).withWorld
        ((storeThrough_prot hzone).trans (storeThrough_prot htime))
  | fails hreply => exact (SameMap.refl m).settled

theorem sysOpenat_quiet : Quiet (sysOpenat os) := by
  intro m r m' h
  cases h
  exact (SameMap.refl m).opened _ _

theorem sysOpen_quiet : Quiet (sysOpen os) := by
  intro m r m' h
  cases h
  exact (SameMap.refl m).opened _ _

theorem sysLseek_quiet : Quiet (sysLseek os) := by
  intro m r m' h
  cases h
  exact (SameMap.refl m).settled

theorem sysRead_quiet : Quiet (sysRead os) := by
  intro m r m' h
  unfold sysRead at h
  dsimp only at h
  split at h <;> cases h
  · exact ((SameMap.refl m).deliver _ _).tick
  · exact (SameMap.refl m).settled

/-- The number of `brk`. -/
def sysBrkNumber : Word := 214

/-- What the table holds is quiet, but for `brk` at its number. -/
theorem syscallTable_quiet {n : Nat} {f : Syscall} (h : (syscallTable os).lookup n = some f) :
    Quiet f ∨ n = sysBrkNumber.toNat ∧ f = sysBrk os := by
  obtain ⟨l₁, l₂, htable, -⟩ := List.lookup_eq_some_iff.mp h
  have hall : ∀ p ∈ syscallTable os, Quiet p.2 ∨ p.1 = sysBrkNumber.toNat ∧ p.2 = sysBrk os := by
    simp only [syscallTable, List.forall_mem_cons, List.not_mem_nil, false_implies, implies_true,
      and_true, sysUnimplemented_quiet, sysExit_quiet, sysClose_quiet, sysWrite_quiet,
      sysFstat_quiet, sysGettimeofday_quiet, sysOpenat_quiet, sysLseek_quiet, sysRead_quiet,
      true_or, true_and]
    exact .inr rfl
  exact hall (n, f) (by rw [htable]; simp)

theorem oldSyscallTable_quiet {n : Nat} {f : Syscall}
    (h : (oldSyscallTable os).lookup n = some f) : Quiet f := by
  obtain ⟨l₁, l₂, htable, -⟩ := List.lookup_eq_some_iff.mp h
  have hall : ∀ p ∈ oldSyscallTable os, Quiet p.2 := by
    simp only [oldSyscallTable, List.forall_mem_cons, List.not_mem_nil, false_implies,
      implies_true, and_true, sysUnimplemented_quiet, sysOpen_quiet]
  exact hall (n, f) (by rw [htable]; simp)

/-- `brk` changes the world and the allocator. -/
theorem sysBrk_frame {m m' : Machine} {r : Word} (h : sysBrk os m = .ok (r, m')) :
    SameFrame m m' := by
  unfold sysBrk at h
  obtain ⟨-, -, h⟩ := bind_ok_inv h
  obtain ⟨⟨b, w, mmu⟩, -, h⟩ := bind_ok_inv h
  cases h
  exact ⟨rfl, rfl, rfl, rfl, rfl⟩

/-- **Only `brk` changes the allocator and the mappings.** -/
theorem doSyscall_cases {m m' : Machine} {n r : Word} (h : doSyscall os m n = .ok (r, m')) :
    SameMap m m' ∨ n = sysBrkNumber ∧ sysBrk os m = .ok (r, m') := by
  unfold doSyscall at h
  dsimp only at h
  split at h
  · cases h
  · rename_i f hf
    split at hf
    · rcases syscallTable_quiet hf with hquiet | ⟨hn, rfl⟩
      · exact .inl (hquiet m r m' h)
      · exact .inr ⟨BitVec.eq_of_toNat_eq hn, h⟩
    · split at hf
      · exact .inl (oldSyscallTable_quiet hf m r m' h)
      · cases hf

/-! ### What the guest is told -/

/-- The reply with its value converted. -/
def Reply.map {α β : Type} (g : α → β) : Reply α → Reply β
  | .ok a => .ok (g a)
  | .fail errno => .fail errno

/-- The value the kernel's convention has for a reply: the error number, negated. -/
def Reply.kernel : Reply Word → Word
  | .ok v => v
  | .fail errno => -errno.setWidth 64

/-- What `gettimeofday` answers, if what the host says can be stored. -/
def timeAnswer (os : Os) (m : Machine) : Option (Reply Word) :=
  let w := m.state.world
  let tv := toHost (m.state.gp Reg.a0)
  match os.gettimeofday w.clock w.mem tv m.zonePtr with
  | .ok (time, zone) =>
    (storeThrough tv time w.mem >>= storeThrough m.zonePtr zone).toOption.map fun _ => .ok 0
  | .fail errno => some (.fail errno)

/-- What the host answers to the call the machine is about to make, in 64 bits, if the call
is one that is handed to the host and it returns. -/
def hostAnswer (os : Os) (m : Machine) : Option (Reply Word) :=
  let w := m.state.world
  let a0 := m.state.gp Reg.a0
  let a1 := m.state.gp Reg.a1
  let a2 := m.state.gp Reg.a2
  let a3 := m.state.gp Reg.a3
  match (m.state.gp Reg.a7).toNat with
  | 57 => if (2 : Word).ult a0 then
      some ((os.close w.clock (a0.setWidth 32)).map (BitVec.signExtend 64)) else none
  | 63 => some ((os.read w.clock w.mem (a0.setWidth 32) (toHost a1) a2).map
      fun bytes => BitVec.ofNat 64 bytes.length)
  | 64 => (os.write w.clock w.mem (a0.setWidth 32) (toHost a1) a2).toOption
  | 56 => some ((os.openat w.clock w.mem (a0.setWidth 32) (toHost a1)
      (convertFlags (a2.setWidth 32)) (a3.setWidth 32)).map (BitVec.signExtend 64))
  | 1024 => some ((os.openPath w.clock w.mem (toHost a0) (convertFlags (a1.setWidth 32))
      (a2.setWidth 32)).map (BitVec.signExtend 64))
  | 62 => some (os.lseek w.clock (a0.setWidth 32) a1 (a2.setWidth 32))
  | 80 => some ((os.fstat w.clock w.mem (a0.setWidth 32) (toHost a1)).map fun _ => 0)
  | 169 => timeAnswer os m
  | _ => none

theorem Reply.long_map_signExtend (r : Reply (BitVec 32)) :
    (r.map (BitVec.signExtend 64)).long = r.int := by
  cases r <;> rfl

/-- The two conventions differ on every error but number 1. -/
theorem Reply.long_eq_kernel_iff (r : Reply Word) :
    r.long = r.kernel ↔ ∀ errno, r = .fail errno → errno = 1 := by
  cases r with
  | ok v => simp [Reply.long, Reply.kernel]
  | fail errno =>
      have hinj : (-1 : Word) = -errno.setWidth 64 ↔ errno = 1 := by
        constructor
        · intro h
          have h' : errno.setWidth 64 = (1 : Word) := by
            have := congrArg (fun x : Word => -x) h
            simpa using this.symm
          have := congrArg (BitVec.setWidth 32) h'
          simpa using this
        · rintro rfl
          decide
      simp only [Reply.long, Reply.kernel, hinj, Reply.fail.injEq]
      exact ⟨fun h _ he => he ▸ h, fun h => h errno rfl⟩

theorem doSyscall_table {m : Machine} {n : Word} {k : Nat} {f : Syscall} (hn : n.toNat = k)
    (hk : k < 292) (hf : (syscallTable os).lookup k = some f) : doSyscall os m n = f m := by
  have hlt : n.ult 292 = true := by
    rw [BitVec.ult_eq_decide]
    exact decide_eq_true (by rw [hn]; exact hk)
  unfold doSyscall
  simp only [hlt, if_true, hn, hf]

theorem doSyscall_old {m : Machine} {n : Word} {k : Nat} {f : Syscall} (hn : n.toNat = 1024 + k)
    (hk : k < 39) (hf : (oldSyscallTable os).lookup k = some f) : doSyscall os m n = f m := by
  have hge : n.ult 292 = false := by
    rw [BitVec.ult_eq_decide]
    exact decide_eq_false (by simp; omega)
  have hsub : (n - oldSyscallThreshold).toNat = k := by
    simp only [oldSyscallThreshold, BitVec.toNat_sub, BitVec.reduceToNat]
    omega
  have hlt : (n - oldSyscallThreshold).ult 39 = true := by
    rw [BitVec.ult_eq_decide, hsub]
    exact decide_eq_true hk
  unfold doSyscall
  simp only [hge, hlt, if_true, hsub, hf]
  rfl

theorem sysGettimeofday_answer {m : Machine} {r : Reply Word} (h : timeAnswer os m = some r) :
    ∃ m', sysGettimeofday os m = .ok (r.long, m') := by
  rw [sysGettimeofday_eq]
  unfold timeAnswer at h
  dsimp only at h
  split at h
  · rename_i time zone hr
    cases hstored : storeThrough (toHost (m.state.gp Reg.a0)) time m.state.world.mem >>=
      storeThrough m.zonePtr zone with
    | error e =>
        rw [hstored] at h
        cases h
    | ok mem =>
        rw [hstored] at h
        cases h
        exact ⟨_, rfl⟩
  · cases h
    exact ⟨_, rfl⟩

/-- What a call that is handed to the host answers. -/
theorem doSyscall_answer {m : Machine} {r : Reply Word} (h : hostAnswer os m = some r) :
    ∃ m', doSyscall os m (m.state.gp Reg.a7) = .ok (r.long, m') := by
  unfold hostAnswer at h
  dsimp only at h
  split at h
  · rename_i hn
    rw [doSyscall_table hn (by decide) rfl]
    split at h
    · rename_i hfd
      cases h
      exact ⟨_, by simp only [sysClose, hfd, if_true, Reply.long_map_signExtend]; rfl⟩
    · cases h
  · rename_i hn
    rw [doSyscall_table hn (by decide) rfl]
    cases h
    unfold sysRead
    dsimp only
    split
    · rename_i bytes hr
      exact ⟨_, by rw [hr]; rfl⟩
    · rename_i errno hr
      exact ⟨_, by rw [hr]; rfl⟩
  · rename_i hn
    rw [doSyscall_table hn (by decide) rfl]
    unfold sysWrite
    dsimp only
    split
    · rename_i no hr
      rw [hr] at h
      cases h
    · rename_i r' hr
      rw [hr] at h
      cases h
      exact ⟨_, rfl⟩
  · rename_i hn
    rw [doSyscall_table hn (by decide) rfl]
    cases h
    exact ⟨_, by simp only [sysOpenat, Reply.long_map_signExtend]; rfl⟩
  · rename_i hn
    rw [doSyscall_old (k := 0) hn (by decide) rfl]
    cases h
    exact ⟨_, by simp only [sysOpen, Reply.long_map_signExtend]; rfl⟩
  · rename_i hn
    rw [doSyscall_table hn (by decide) rfl]
    cases h
    exact ⟨m.settled os, rfl⟩
  · rename_i hn
    rw [doSyscall_table hn (by decide) rfl]
    cases h
    unfold sysFstat
    dsimp only
    split
    · rename_i stat hr
      exact ⟨_, by rw [hr]; rfl⟩
    · rename_i errno hr
      exact ⟨_, by rw [hr]; rfl⟩
  · rename_i hn
    rw [doSyscall_table hn (by decide) rfl]
    exact sysGettimeofday_answer h
  · cases h

theorem handleSyscall_of {m m' : Machine} {r : Word}
    (h : doSyscall os m (m.state.gp Reg.a7) = .ok (r, m')) :
    handleSyscall os m = .ok { m' with state := m'.state.setGp Reg.a0 r } := by
  unfold handleSyscall
  dsimp only
  rw [h]
  rfl

/-- **The wrapper's value is what the guest sees.**  A call that is handed to the host puts its
result into `a0` when it succeeds and -1 when it fails, whatever the error; that is the
kernel's convention exactly when there was no error other than number 1.  No other register of
either file changes. -/
theorem handleSyscall_answer {m : Machine} {r : Reply Word} (h : hostAnswer os m = some r) :
    ∃ m', handleSyscall os m = .ok m' ∧
      (∀ v, r = .ok v → m'.state.gp Reg.a0 = v) ∧
      (∀ errno, r = .fail errno → m'.state.gp Reg.a0 = -1) ∧
      (m'.state.gp Reg.a0 = r.kernel ↔ ∀ errno, r = .fail errno → errno = 1) ∧
      (∀ x, x ≠ Reg.a0 → m'.state.gp x = m.state.gp x) ∧
      (∀ x, m'.state.fp x = m.state.fp x) ∧ m'.mmu = m.mmu := by
  obtain ⟨m', hm'⟩ := doSyscall_answer h
  have ha0 : (m'.state.setGp Reg.a0 r.long).gp Reg.a0 = r.long := by
    simp [State.gp, State.setGp]
  have hmap : SameMap m m' := by
    rcases doSyscall_cases hm' with hmap | ⟨hbrk, -⟩
    · exact hmap
    · unfold hostAnswer at h
      rw [hbrk] at h
      cases h
  refine ⟨_, handleSyscall_of hm', ?_, ?_, ?_, ?_, fun x => congrFun hmap.fpRegs x, hmap.mmu⟩
  · rintro v rfl
    exact ha0
  · rintro errno rfl
    exact ha0
  · rw [← Reply.long_eq_kernel_iff, ha0]
  · intro x hx
    show Function.update m'.state.gpRegs Reg.a0 r.long x = m.state.gp x
    rw [Function.update_of_ne hx, hmap.gpRegs]
    rfl

/-- A host on which every call fails with the same error. -/
def failingOs (errno : BitVec 32) : Os where
  pageShift := 12
  pageShift_lt := by decide
  strerror _ := "failed"
  mmapAnon _ _ _ _ := .fail errno
  mmapFixed _ _ _ _ := .fail errno
  munmap _ _ _ _ := .fail errno
  close _ _ := .fail errno
  write _ _ _ _ _ := .ok (.fail errno)
  read _ _ _ _ _ := .fail errno
  openPath _ _ _ _ _ := .fail errno
  openat _ _ _ _ _ _ := .fail errno
  lseek _ _ _ _ := .fail errno
  fstat _ _ _ _ := .fail errno
  gettimeofday _ _ _ _ := .fail errno
  aside _ mem := mem

/-- The machine about to close the descriptor `fd`. -/
def closing (fd : Word) : Machine :=
  let m := initialMachine default
  { m with state := (m.state.setGp Reg.a7 57).setGp Reg.a0 fd }

theorem handleSyscall_answer_close :
    ∃ m', handleSyscall (failingOs 9) (closing 5) = .ok m' ∧
      (∀ v, (Reply.fail 9 : Reply Word) = .ok v → m'.state.gp Reg.a0 = v) ∧
      (∀ errno, (Reply.fail 9 : Reply Word) = .fail errno → m'.state.gp Reg.a0 = -1) ∧
      (m'.state.gp Reg.a0 = (Reply.fail 9).kernel ↔
        ∀ errno, (Reply.fail 9 : Reply Word) = .fail errno → errno = 1) ∧
      (∀ x, x ≠ Reg.a0 → m'.state.gp x = (closing 5).state.gp x) ∧
      (∀ x, m'.state.fp x = (closing 5).state.fp x) ∧ m'.mmu = (closing 5).mmu :=
  handleSyscall_answer (m := closing 5) (r := .fail 9) rfl

/-- Closing a descriptor that is not open, error 9, leaves -1 in `a0` where the kernel's
convention has -9. -/
theorem close_loses_errno :
    hostAnswer (failingOs 9) (closing 5) = some (.fail 9) ∧
      (handleSyscall (failingOs 9) (closing 5)).map (fun m => m.state.gp Reg.a0) = .ok (-1) ∧
      (-1 : Word) ≠ (Reply.fail 9).kernel :=
  ⟨rfl, rfl, by decide⟩

end Rvemu
