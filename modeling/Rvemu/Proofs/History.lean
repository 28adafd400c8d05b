/-
Memory as the history of a run.

What a step does to the contents of memory can be read off the machine before it: the
bytes that an instruction stores, the bytes that the host delivers for a call, and the
pages that the host maps afresh for a request of the program break.  The contents
after a run are the contents before it and these events replayed over it, in order;
nothing else has ever touched memory, if no call did so on the side.
-/
import Rvemu.Proofs.Footprint
import Rvemu.Proofs.Output

namespace Rvemu

open Memory Spec Steps

/-! ### The events of a step -/

/-- A store, as an event of the host's memory. -/
def storeEvent (s : State) (i : Inst) : Event 64 :=
  let x := storeWrite i.type s i
  .write { addr := toHost x.addr, width := x.width, value := x.value }

section

variable (os : Os)

/-- What the instruction in front of the machine stores. -/
def Machine.storeEvents (m : Machine) : List (Event 64) :=
  match m.state.load m.state.pc 4 with
  | .ok raw =>
    match decodeInst {} raw with
    | .ok i => if isStore i.type then [storeEvent m.state i] else []
    | .error _ => []
  | .error _ => []

/-- What `read` delivers. -/
def Machine.readEvents (m : Machine) : List (Event 64) :=
  let w := m.state.world
  let bufptr := toHost (m.state.gp Reg.a1)
  match os.read w.clock w.mem ((m.state.gp Reg.a0).setWidth 32) bufptr (m.state.gp Reg.a2) with
  | .ok bytes => [.deliver bufptr bytes]
  | .fail _ => []

/-- What `fstat` delivers. -/
def Machine.fstatEvents (m : Machine) : List (Event 64) :=
  let w := m.state.world
  let addr := toHost (m.state.gp Reg.a1)
  match os.fstat w.clock w.mem ((m.state.gp Reg.a0).setWidth 32) addr with
  | .ok stat => [.deliver addr stat]
  | .fail _ => []

/-- What is delivered through a pointer, unless it is null. -/
def throughEvents (ptr : Word) (bytes : List (BitVec 8)) : List (Event 64) :=
  if ptr = 0 then [] else [.deliver ptr bytes]

/-- What `gettimeofday` delivers. -/
def Machine.timeEvents (m : Machine) : List (Event 64) :=
  let w := m.state.world
  let tv := toHost (m.state.gp Reg.a0)
  match os.gettimeofday w.clock w.mem tv m.zonePtr with
  | .ok (time, zone) => throughEvents tv time ++ throughEvents m.zonePtr zone
  | .fail _ => []

/-- What `brk` maps. -/
def Machine.brkEvents (m : Machine) : List (Event 64) :=
  let w := m.state.world
  let brk := m.mmu.guestAlloc
  let size := brkTarget m.mmu (m.state.gp Reg.a0) - brk
  let allocSize := roundUp size os.pageSize
  if (0 : Word).slt size && (toGuest m.mmu.hostAlloc).ult (brk + size) then
    match os.mmapAnon w.clock w.mem m.mmu.hostAlloc allocSize with
    | .ok addr => [.clear addr allocSize.toNat]
    | .fail _ => []
  else []

/-- What a call does to the contents of memory. -/
def Machine.callEvents (m : Machine) : List (Event 64) :=
  match (m.state.gp Reg.a7).toNat with
  | 63 => m.readEvents os
  | 80 => m.fstatEvents os
  | 169 => m.timeEvents os
  | 214 => m.brkEvents os
  | _ => []

/-- What the step in front of the machine does to the contents of memory. -/
def Machine.events (m : Machine) : List (Event 64) :=
  if m.AtEcall then m.callEvents os else m.storeEvents

/-- The call that is next, if it delivers nothing, leaves memory alone: nothing was delivered
before it failed, and what it writes is not in a file that is mapped. -/
def Machine.Undisturbed (m : Machine) : Prop :=
  m.AtEcall → m.state.world.settled os = m.state.world.tick

end

section Step

variable {fpu : HostFpu} {os : Os} {m m' : Machine} {r : Word}

/-- The second memory has the contents of the first with the events replayed over them, and is
backed as before wherever they do not reach. -/
def Replays (es : List (Event 64)) (mem mem' : Mem 64) : Prop :=
  ∀ x, mem'.byte x = replay (mem.byte x) es x ∧
    ((∀ e ∈ es, e.effect x = none) → mem'.unbacked x = mem.unbacked x)

theorem Replays.of_eq {mem mem' : Mem 64} (h : mem' = mem) : Replays [] mem mem' := by
  intro x
  rw [h]
  exact ⟨rfl, fun _ => rfl⟩

theorem Replays.append {es es' : List (Event 64)} {mem mem₁ mem₂ : Mem 64}
    (h : Replays es mem mem₁) (h' : Replays es' mem₁ mem₂) : Replays (es ++ es') mem mem₂ := by
  intro x
  obtain ⟨hbyte, hback⟩ := h x
  obtain ⟨hbyte', hback'⟩ := h' x
  refine ⟨by rw [hbyte', hbyte, replay_append], fun hnone => ?_⟩
  rw [List.forall_mem_append] at hnone
  rw [hback' hnone.2, hback hnone.1]

theorem putList_replays (mem : Mem 64) (a : Word) (bytes : List (BitVec 8)) :
    Replays [.deliver a bytes] mem (mem.putList a bytes) :=
  fun x => ⟨Mem.putList_event mem a bytes x, fun _ => rfl⟩

theorem settled_mem (hside : m.state.world.settled os = m.state.world.tick) :
    (m.state.world.settled os).mem = m.state.world.mem := by
  rw [hside]
  rfl

/-- An instruction stores what it stores. -/
theorem handler_replays {s s' : State} {i i' : Inst}
    (h : handler fpu i.type s i = .ok (s', i')) :
    Replays (if isStore i.type then [storeEvent s i] else []) s.world.mem s'.world.mem := by
  by_cases ht : isStore i.type = true
  · rw [if_pos ht, handler_store ht h]
    intro x
    refine ⟨?_, fun _ => rfl⟩
    exact Mem.put_event s.world.mem
      { addr := toHost (storeWrite i.type s i).addr
        width := (storeWrite i.type s i).width
        value := (storeWrite i.type s i).value } x
  · rw [if_neg ht]
    exact .of_eq (handler_mem (by simpa using ht) h)

theorem sysRead_replays (hside : m.state.world.settled os = m.state.world.tick)
    (h : sysRead os m = .ok (r, m')) :
    Replays (m.readEvents os) m.state.world.mem m'.state.world.mem := by
  revert h
  unfold sysRead Machine.readEvents
  dsimp only
  cases os.read m.state.world.clock m.state.world.mem ((m.state.gp Reg.a0).setWidth 32)
      (toHost (m.state.gp Reg.a1)) (m.state.gp Reg.a2) with
  | ok bytes =>
      intro h
      cases h
      exact putList_replays _ _ _
  | fail errno =>
      intro h
      cases h
      exact .of_eq (settled_mem hside)

theorem sysFstat_replays (hside : m.state.world.settled os = m.state.world.tick)
    (h : sysFstat os m = .ok (r, m')) :
    Replays (m.fstatEvents os) m.state.world.mem m'.state.world.mem := by
  revert h
  unfold sysFstat Machine.fstatEvents
  dsimp only
  cases os.fstat m.state.world.clock m.state.world.mem ((m.state.gp Reg.a0).setWidth 32)
      (toHost (m.state.gp Reg.a1)) with
  | ok stat =>
      intro h
      cases h
      exact putList_replays _ _ _
  | fail errno =>
      intro h
      cases h
      exact .of_eq (settled_mem hside)

theorem storeThrough_replays {ptr : Word} {bytes : List (BitVec 8)} {mem mem' : Mem 64}
    (h : storeThrough ptr bytes mem = .ok mem') : Replays (throughEvents ptr bytes) mem mem' := by
  unfold throughEvents
  rcases storeThrough_ok_iff.mp h with ⟨hptr, rfl⟩ | ⟨hptr, -, rfl⟩
  · rw [if_pos hptr]
    exact .of_eq rfl
  · rw [if_neg hptr]
    exact putList_replays mem ptr bytes

theorem sysGettimeofday_replays (hside : m.state.world.settled os = m.state.world.tick)
    (h : sysGettimeofday os m = .ok (r, m')) :
    Replays (m.timeEvents os) m.state.world.mem m'.state.world.mem := by
  unfold Machine.timeEvents
  dsimp only
  cases sysGettimeofday_inv h with
  | told hreply htime hzone =>
      rw [hreply]
      exact (storeThrough_replays htime).append (storeThrough_replays hzone)
  | fails hreply =>
      rw [hreply]
      exact .of_eq (settled_mem hside)

theorem sysBrk_replays (h : sysBrk os m = .ok (r, m')) :
    Replays (m.brkEvents os) m.state.world.mem m'.state.world.mem := by
  obtain ⟨rfl, -, -, w, mmu, rfl, hkind⟩ := sysBrk_inv h
  unfold Machine.brkEvents
  dsimp only
  generalize brkTarget m.mmu (m.state.gp Reg.a0) - m.mmu.guestAlloc = size at hkind ⊢
  have hcond : ((0 : Word).slt size && (toGuest m.mmu.hostAlloc).ult (m.mmu.guestAlloc + size)) =
      true ↔ (0 < size.toNat ∧ size.toNat < 2 ^ 63) ∧
        (toGuest m.mmu.hostAlloc).toNat < (m.mmu.guestAlloc + size).toNat := by
    rw [Bool.and_eq_true, pos_iff, ult_iff]
  cases hkind with
  | @grows hpos hend addr hmap =>
      rw [if_pos (hcond.mpr ⟨hpos, hend⟩), hmap]
      refine fun x => ⟨Mem.map_event _ _ _ _ _, fun hnone => if_neg fun hin => ?_⟩
      have hclear := hnone _ (List.mem_singleton_self _)
      rw [Event.effect, if_pos hin] at hclear
      cases hclear
  | shrinks hneg hend hlen hunmap =>
      rw [if_neg fun hc => by have := (hcond.mp hc).1; omega]
      exact fun x => ⟨rfl, fun _ => rfl⟩
  | stays hgrow hshrink =>
      rw [if_neg fun hc => by have := hcond.mp hc; have := hgrow this.1.1 this.1.2; omega]
      exact .of_eq rfl

/-! ### Calls -/

/-- The calls that leave memory alone, but for what they do to it on the side. -/
def KeepsMem (os : Os) (f : Syscall) : Prop :=
  ∀ m r m', m.state.world.settled os = m.state.world.tick → f m = .ok (r, m') →
    m'.state.world.mem = m.state.world.mem

theorem sysClose_keepsMem : KeepsMem os (sysClose os) := by
  intro m r m' hside h
  unfold sysClose at h
  dsimp only at h
  split at h <;> cases h
  · exact settled_mem hside
  · rfl

theorem sysWrite_keepsMem : KeepsMem os (sysWrite os) := by
  intro m r m' hside h
  unfold sysWrite at h
  dsimp only at h
  split at h <;> cases h
  exact settled_mem hside

theorem sysOpenat_keepsMem : KeepsMem os (sysOpenat os) := by
  intro m r m' hside h
  cases h
  exact (opened_mem ..).trans (settled_mem hside)

theorem sysOpen_keepsMem : KeepsMem os (sysOpen os) := by
  intro m r m' hside h
  cases h
  exact (opened_mem ..).trans (settled_mem hside)

theorem sysLseek_keepsMem : KeepsMem os (sysLseek os) := by
  intro m r m' hside h
  cases h
  exact settled_mem hside

/-- The calls at their numbers: those that change the contents of memory, and the others. -/
theorem syscallTable_mem {n : Nat} {f : Syscall} (h : (syscallTable os).lookup n = some f) :
    KeepsMem os f ∨ n = 63 ∧ f = sysRead os ∨ n = 80 ∧ f = sysFstat os ∨
      n = 169 ∧ f = sysGettimeofday os ∨ n = 214 ∧ f = sysBrk os := by
  obtain ⟨l₁, l₂, htable, -⟩ := List.lookup_eq_some_iff.mp h
  have hun : KeepsMem os sysUnimplemented := fun _ _ _ _ h => by cases h
  have hexit : KeepsMem os sysExit := fun _ _ _ _ h => by cases h
  have hall : ∀ p ∈ syscallTable os, KeepsMem os p.2 ∨ p.1 = 63 ∧ p.2 = sysRead os ∨
      p.1 = 80 ∧ p.2 = sysFstat os ∨ p.1 = 169 ∧ p.2 = sysGettimeofday os ∨
        p.1 = 214 ∧ p.2 = sysBrk os := by
    simp only [syscallTable, List.forall_mem_cons, List.not_mem_nil, false_implies, implies_true,
      and_true, hun, hexit, sysWrite_keepsMem, sysOpenat_keepsMem, sysLseek_keepsMem,
      sysClose_keepsMem, true_or, or_true]
  exact hall (n, f) (by rw [htable]; simp)

theorem oldSyscallTable_mem {n : Nat} {f : Syscall} (h : (oldSyscallTable os).lookup n = some f) :
    KeepsMem os f := by
  obtain ⟨l₁, l₂, htable, -⟩ := List.lookup_eq_some_iff.mp h
  have hun : KeepsMem os sysUnimplemented := fun _ _ _ _ h => by cases h
  have hall : ∀ p ∈ oldSyscallTable os, KeepsMem os p.2 := by
    simp only [oldSyscallTable, List.forall_mem_cons, List.not_mem_nil, false_implies,
      implies_true, and_true, hun, sysOpen_keepsMem]
  exact hall (n, f) (by rw [htable]; simp)

/-- What an answered call does to memory. -/
theorem doSyscall_replays (hside : m.state.world.settled os = m.state.world.tick)
    (h : doSyscall os m (m.state.gp Reg.a7) = .ok (r, m')) :
    Replays (m.callEvents os) m.state.world.mem m'.state.world.mem := by
  unfold Machine.callEvents
  split
  · rename_i hn
    rw [doSyscall_table hn (by decide) rfl] at h
    exact sysRead_replays hside h
  · rename_i hn
    rw [doSyscall_table hn (by decide) rfl] at h
    exact sysFstat_replays hside h
  · rename_i hn
    rw [doSyscall_table hn (by decide) rfl] at h
    exact sysGettimeofday_replays hside h
  · rename_i hn
    rw [doSyscall_table hn (by decide) rfl] at h
    exact sysBrk_replays h
  · rename_i hread hfstat htime hbrk
    refine .of_eq ?_
    unfold doSyscall at h
    dsimp only at h
    split at h
    · cases h
    · rename_i f hf
      split at hf
      · rcases syscallTable_mem hf with hkeeps | ⟨hn, -⟩ | ⟨hn, -⟩ | ⟨hn, -⟩ | ⟨hn, -⟩
        · exact hkeeps m r m' hside h
        · exact absurd hn hread
        · exact absurd hn hfstat
        · exact absurd hn htime
        · exact absurd hn hbrk
      · split at hf
        · exact oldSyscallTable_mem hf m r m' hside h
        · cases hf

/-! ### Steps and runs -/

/-- **What a step does to memory.** -/
theorem emuStep_replays (hzero : m.state.gp Reg.zero = 0) (hside : m.Undisturbed os)
    (h : emuStep fpu os m = .ok m') :
    Replays (m.events os) m.state.world.mem m'.state.world.mem := by
  unfold Machine.events
  by_cases hat : m.AtEcall
  · rw [if_pos hat]
    rw [emuStep_ecall hzero hat] at h
    obtain ⟨m₁, hcall, rfl⟩ := map_ok_inv h
    obtain ⟨r, m₂, hdo, rfl⟩ := handleSyscall_inv hcall
    have hreplays : Replays (m.callEvents os) m.calling.state.world.mem m₂.state.world.mem :=
      doSyscall_replays (m := m.calling) (hside hat) hdo
    exact hreplays
  · rw [if_neg hat]
    obtain ⟨raw, i, s, i', hload, hdec, hrun, hworld, -⟩ := emuStep_plain hat h
    rw [hworld]
    unfold Machine.storeEvents
    rw [hload]
    dsimp only
    rw [hdec]
    exact handler_replays hrun

end Step

/-- **Memory is its history.**  After a run whose calls do nothing to memory on the side, the
contents of memory are those it started with and what the steps stored, delivered and mapped,
replayed over them in order. -/
theorem mainLoop_history {fpu : HostFpu} {os : Os} {prog : Reply (List (BitVec 8))}
    {phdr : List (BitVec 8)} {pad : BitVec 32} {argv : List (List (BitVec 8))} {w : World}
    {m₀ m : Machine} {n : Nat} (hboot : boot os prog phdr pad argv w = .ok m₀)
    (hside : ∀ k < n, ∀ t, mainLoop fpu os k m₀ = .ok t → t.Undisturbed os)
    (h : mainLoop fpu os n m₀ = .ok m) (x : Word) :
    m.state.world.mem.byte x =
      replay (m₀.state.world.mem.byte x)
        (collect (emuStep fpu os) (fun m _ => m.events os) n m₀.enter) x := by
  simp only [mainLoop_eq_iter] at hside h
  have hzero : m₀.enter.state.gp Reg.zero = 0 := boot_gp hboot (by decide)
  exact iter_foldl (I := fun m => m.state.gp Reg.zero = 0)
    (f := fun m => m.state.world.mem.byte x)
    (fun hI hG hs => ⟨emuStep_zero hs, (emuStep_replays hI hG hs x).1⟩) hzero hside h

/-- `li a0, 42` and `sb a0, 0(sp)`: the history has one store, and memory has its byte. -/
theorem mainLoop_history_store :
    ∃ m₀ m, mainLoop default grantingOs 2 m₀ = .ok m ∧
      m.state.world.mem.byte (toHost (m₀.state.gp Reg.sp)) = 42 ∧
      m.state.world.mem.byte (toHost (m₀.state.gp Reg.sp)) =
        replay (m₀.state.world.mem.byte (toHost (m₀.state.gp Reg.sp)))
          (collect (emuStep default grantingOs) (fun m _ => m.events grantingOs) 2 m₀.enter)
          (toHost (m₀.state.gp Reg.sp)) := by
  have hok : (bootCode grantingOs [0x13, 0x05, 0xa0, 0x02, 0x23, 0x00, 0xa1, 0x00] >>= fun m₀ =>
      (mainLoop default grantingOs 2 m₀).map fun m =>
        m.state.world.mem.byte (toHost (m₀.state.gp Reg.sp))) = .ok 42 := by
    decide +kernel
  obtain ⟨m₀, hboot, h⟩ := bind_ok_inv hok
  obtain ⟨m, hrun, hbyte⟩ := map_ok_inv h
  exact ⟨m₀, m, hrun, hbyte, mainLoop_history hboot (fun _ _ _ _ _ => rfl) hrun _⟩

end Rvemu
