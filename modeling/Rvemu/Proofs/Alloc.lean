/-
The program break.

`mmu_alloc` does one of three things to the mappings: it asks for more at the end of
what is mapped, it gives something back, or it leaves them alone.  `AllocKind` says
which and when; everything that is proved about it and about `brk` goes through that
case distinction.

`BrkRun` is a history of requests: between two of them the guest may do anything that
keeps the allocator and the mappings, which by `StepKind` is all that it can do.
-/
import Mathlib.Data.BitVec
import Rvemu.Lib.Align
import Rvemu.Proofs.Run

namespace Rvemu

open Memory

/-! ### Signs and pages -/

theorem pos_iff (x : Word) : (0 : Word).slt x = true ↔ 0 < x.toNat ∧ x.toNat < 2 ^ 63 := by
  have hx := BitVec.toInt_eq_toNat_cond x
  rw [BitVec.slt_eq_decide, decide_eq_true_iff, show (0 : Word).toInt = 0 from rfl, hx]
  split <;> omega

theorem neg_iff (x : Word) : x.slt 0 = true ↔ 2 ^ 63 ≤ x.toNat := by
  have hx := BitVec.toInt_eq_toNat_cond x
  rw [BitVec.slt_eq_decide, decide_eq_true_iff, show (0 : Word).toInt = 0 from rfl, hx]
  split <;> omega

theorem ult_iff (x y : Word) : x.ult y = true ↔ x.toNat < y.toNat := by
  rw [BitVec.ult_eq_decide, decide_eq_true_iff]

theorem ule_iff (x y : Word) : x.ule y = true ↔ x.toNat ≤ y.toNat := by
  rw [BitVec.ule_eq_decide, decide_eq_true_iff]

section Pages

variable (os : Os)

theorem pageShift_lt : os.pageShift < 64 := Nat.lt_trans os.pageShift_lt (by decide)

/-- An address where a page starts. -/
def PageStart (x : Word) : Prop := 2 ^ os.pageShift ∣ x.toNat

/-- The multiple of the page size at or above a number. -/
def pageCeil (n : Nat) : Nat := Align.ceil os.pageShift n

variable {os}

theorem roundUp_toNat {x : Word} (hx : x.toNat ≤ 2 ^ 63) :
    (roundUp x os.pageSize).toNat = pageCeil os x.toNat := by
  have hpage : 2 ^ os.pageShift ≤ 2 ^ 31 :=
    Nat.pow_le_pow_right (by decide) (Nat.le_of_lt os.pageShift_lt)
  exact Align.up_toNat (pageShift_lt os) (by omega)

theorem roundUp_add {b : Word} (hb : PageStart os b) (x : Word) :
    roundUp (b + x) os.pageSize = b + roundUp x os.pageSize :=
  Align.up_add (pageShift_lt os) hb x

theorem pageStart_roundUp (x : Word) : PageStart os (roundUp x os.pageSize) :=
  Align.dvd_up (pageShift_lt os) x

theorem PageStart.add {x y : Word} (hx : PageStart os x) (hy : PageStart os y) :
    PageStart os (x + y) :=
  Align.dvd_add (Nat.le_of_lt (pageShift_lt os)) hx hy

theorem PageStart.sub {x y : Word} (hx : PageStart os x) (hy : PageStart os y) :
    PageStart os (x - y) :=
  Align.dvd_sub (Nat.le_of_lt (pageShift_lt os)) hx hy

/-- The distance between the guest's addresses and the host's is a number of pages. -/
theorem pageStart_offset : PageStart os guestMemoryOffset := by
  have h : 2 ^ 31 ∣ guestMemoryOffset.toNat := by decide
  exact Nat.dvd_trans (Nat.pow_dvd_pow 2 (Nat.le_of_lt os.pageShift_lt)) h

theorem pageStart_toGuest {x : Word} (hx : PageStart os x) : PageStart os (toGuest x) :=
  hx.sub pageStart_offset

theorem toHost_toGuest (x : Word) : toHost (toGuest x) = x := sub_add_cancel x guestMemoryOffset

theorem toGuest_toHost (x : Word) : toGuest (toHost x) = x :=
  add_sub_cancel_right x guestMemoryOffset

end Pages

/-! ### One allocation -/

/-- What `mmu_alloc` does to the world and to the allocator, when it returns. -/
inductive AllocKind (os : Os) (w : World) (mmu : Mmu) (size : Word) : World → Mmu → Prop
  /-- The break rises past the end of what is mapped. -/
  | grows (hpos : 0 < size.toNat ∧ size.toNat < 2 ^ 63)
      (hend : (toGuest mmu.hostAlloc).toNat < (mmu.guestAlloc + size).toNat) {addr : Word}
      (hmap : os.mmapAnon w.clock w.mem mmu.hostAlloc (roundUp size os.pageSize) = .ok addr) :
      AllocKind os w mmu size
        (w.withMem (w.mem.map addr (roundUp size os.pageSize).toNat Prot.rw fun _ => 0)).tick
        { mmu with
          guestAlloc := mmu.guestAlloc + size
          hostAlloc := mmu.hostAlloc + roundUp size os.pageSize }
  /-- The break sinks by a page or more below the end of what is mapped. -/
  | shrinks (hneg : 2 ^ 63 ≤ size.toNat)
      (hend : (roundUp (mmu.guestAlloc + size) os.pageSize).toNat < (toGuest mmu.hostAlloc).toNat)
      {len : Word} (hlen : len = toGuest mmu.hostAlloc - roundUp (mmu.guestAlloc + size) os.pageSize)
      (hunmap : os.munmap w.clock w.mem mmu.hostAlloc len = .ok ()) :
      AllocKind os w mmu size
        (w.withMem (w.mem.unmap mmu.hostAlloc len.toNat)).tick
        { mmu with guestAlloc := mmu.guestAlloc + size, hostAlloc := mmu.hostAlloc - len }
  /-- The break moves within what is mapped, or so it seems. -/
  | stays
      (hgrow : 0 < size.toNat → size.toNat < 2 ^ 63 →
        (mmu.guestAlloc + size).toNat ≤ (toGuest mmu.hostAlloc).toNat)
      (hshrink : 2 ^ 63 ≤ size.toNat → (toGuest mmu.hostAlloc).toNat ≤
        (roundUp (mmu.guestAlloc + size) os.pageSize).toNat) :
      AllocKind os w mmu size w { mmu with guestAlloc := mmu.guestAlloc + size }

/-- The end of what is mapped moves by what the size is rounded up to, at most. -/
theorem AllocKind.end_le {os : Os} {w w' : World} {mmu mmu' : Mmu} {size : Word}
    (h : AllocKind os w mmu size w' mmu') (hsize : size.toNat < 2 ^ 63) :
    mmu'.hostAlloc.toNat ≤ mmu.hostAlloc.toNat + pageCeil os size.toNat := by
  cases h with
  | grows hpos hend hmap =>
      show (mmu.hostAlloc + roundUp size os.pageSize).toNat ≤ _
      rw [BitVec.toNat_add, roundUp_toNat (Nat.le_of_lt hsize)]
      exact Nat.mod_le _ _
  | shrinks hneg hend hlen hunmap => omega
  | stays hgrow hshrink => exact Nat.le_add_right _ _

/-- The host refuses what an allocation asks of it, with what the emulator says then. -/
inductive HostRefuses (os : Os) (w : World) (mmu : Mmu) (size : Word) : String → Prop
  /-- It has no memory. -/
  | mmap (hpos : 0 < size.toNat ∧ size.toNat < 2 ^ 63)
      (hend : (toGuest mmu.hostAlloc).toNat < (mmu.guestAlloc + size).toNat) {errno : BitVec 32}
      (h : os.mmapAnon w.clock w.mem mmu.hostAlloc (roundUp size os.pageSize) = .fail errno) :
      HostRefuses os w mmu size "mmap failed in mmu alloc"
  /-- It does not take memory back. -/
  | munmap (hneg : 2 ^ 63 ≤ size.toNat)
      (hend : (roundUp (mmu.guestAlloc + size) os.pageSize).toNat < (toGuest mmu.hostAlloc).toNat)
      {errno : BitVec 32}
      (h : os.munmap w.clock w.mem mmu.hostAlloc
        (toGuest mmu.hostAlloc - roundUp (mmu.guestAlloc + size) os.pageSize) = .fail errno) :
      HostRefuses os w mmu size (os.strerror errno)

section Alloc

variable {os : Os} {w w' : World} {mmu mmu' : Mmu} {size b : Word}

theorem assertThat_iff (c : Bool) (expr : String) : assertThat c expr = .ok () ↔ c = true := by
  cases c <;> simp [assertThat]

/-- **An allocation, taken apart.** -/
theorem mmuAlloc_inv (h : mmuAlloc os w mmu size = .ok (b, w', mmu')) :
    b = mmu.guestAlloc ∧ mmu.base.toNat ≤ mmu.guestAlloc.toNat ∧
      mmu.base.toNat ≤ (mmu.guestAlloc + size).toNat ∧ AllocKind os w mmu size w' mmu' := by
  obtain ⟨_, hbase, h⟩ := bind_ok_inv h
  obtain ⟨_, hsize, h⟩ := bind_ok_inv h
  rw [assertThat_iff, ule_iff] at hbase hsize
  dsimp only at h hsize
  by_cases hgrow : ((0 : Word).slt size &&
      (toGuest mmu.hostAlloc).ult (mmu.guestAlloc + size)) = true
  · rw [if_pos hgrow] at h
    rw [Bool.and_eq_true, pos_iff, ult_iff] at hgrow
    cases hmap : os.mmapAnon w.clock w.mem mmu.hostAlloc (roundUp size os.pageSize) with
    | fail errno =>
        rw [hmap] at h
        cases h
    | ok addr =>
        rw [hmap] at h
        cases h
        exact ⟨rfl, hbase, hsize, .grows hgrow.1 hgrow.2 hmap⟩
  · rw [if_neg hgrow] at h
    rw [Bool.and_eq_true, pos_iff, ult_iff] at hgrow
    by_cases hshrink : (size.slt 0 && (roundUp (mmu.guestAlloc + size) os.pageSize).ult
        (toGuest mmu.hostAlloc)) = true
    · rw [if_pos hshrink] at h
      rw [Bool.and_eq_true, neg_iff, ult_iff] at hshrink
      split at h
      · cases h
      · rename_i hunmap
        cases h
        exact ⟨rfl, hbase, hsize, .shrinks hshrink.1 hshrink.2 rfl hunmap⟩
    · rw [if_neg hshrink] at h
      rw [Bool.and_eq_true, neg_iff, ult_iff] at hshrink
      cases h
      refine ⟨rfl, hbase, hsize, .stays (fun hpos hlt => ?_) fun hneg => ?_⟩
      · exact Nat.le_of_not_lt fun hend => hgrow ⟨⟨hpos, hlt⟩, hend⟩
      · exact Nat.le_of_not_lt fun hend => hshrink ⟨hneg, hend⟩

/-- Where the break stays above the base, an allocation succeeds or the host refuses it. -/
theorem mmuAlloc_total (os : Os) (w : World) {mmu : Mmu} {size : Word}
    (hbase : mmu.base.toNat ≤ mmu.guestAlloc.toNat)
    (hsize : mmu.base.toNat ≤ (mmu.guestAlloc + size).toNat) :
    (∃ msg, HostRefuses os w mmu size msg ∧ mmuAlloc os w mmu size = .error (.fatal msg)) ∨
      ∃ w' mmu', mmuAlloc os w mmu size = .ok (mmu.guestAlloc, w', mmu') := by
  unfold mmuAlloc
  simp only [(ule_iff _ _).mpr hbase, (ule_iff _ _).mpr hsize, assertThat, if_true, bind,
    Except.bind]
  split
  · rename_i hgrow
    rw [Bool.and_eq_true, pos_iff, ult_iff] at hgrow
    split
    · rename_i hmap
      exact .inl ⟨_, .mmap hgrow.1 hgrow.2 hmap, rfl⟩
    · exact .inr ⟨_, _, rfl⟩
  · split
    · rename_i hshrink
      rw [Bool.and_eq_true, neg_iff, ult_iff] at hshrink
      split
      · rename_i hunmap
        exact .inl ⟨_, .munmap hshrink.1 hshrink.2 hunmap, rfl⟩
      · exact .inr ⟨_, _, rfl⟩
    · exact .inr ⟨_, _, rfl⟩

/-- What the host refuses ends the process. -/
theorem HostRefuses.stops {msg : String} (hbase : mmu.base.toNat ≤ mmu.guestAlloc.toNat)
    (hsize : mmu.base.toNat ≤ (mmu.guestAlloc + size).toNat) (h : HostRefuses os w mmu size msg) :
    mmuAlloc os w mmu size = .error (.fatal msg) := by
  unfold mmuAlloc
  cases h with
  | mmap hpos hend h =>
      have hgrow : ((0 : Word).slt size &&
          (toGuest mmu.hostAlloc).ult (mmu.guestAlloc + size)) = true := by
        rw [Bool.and_eq_true, pos_iff, ult_iff]
        exact ⟨hpos, hend⟩
      simp only [(ule_iff _ _).mpr hbase, (ule_iff _ _).mpr hsize, assertThat, if_true, bind,
        Except.bind, if_pos hgrow, h]
  | munmap hneg hend h =>
      have hgrow : ¬((0 : Word).slt size &&
          (toGuest mmu.hostAlloc).ult (mmu.guestAlloc + size)) = true := by
        rw [Bool.and_eq_true, pos_iff]
        omega
      have hshrink : (size.slt 0 && (roundUp (mmu.guestAlloc + size) os.pageSize).ult
          (toGuest mmu.hostAlloc)) = true := by
        rw [Bool.and_eq_true, neg_iff, ult_iff]
        exact ⟨hneg, hend⟩
      simp only [(ule_iff _ _).mpr hbase, (ule_iff _ _).mpr hsize, assertThat, if_true, bind,
        Except.bind, if_neg hgrow, if_pos hshrink, h]

/-- An allocation moves the break and leaves the base. -/
theorem AllocKind.moves (h : AllocKind os w mmu size w' mmu') :
    mmu'.base = mmu.base ∧ mmu'.guestAlloc = mmu.guestAlloc + size := by
  cases h <;> exact ⟨rfl, rfl⟩

end Alloc

/-! ### One request -/

/-- The break a request asks for; zero asks where it is. -/
def brkTarget (mmu : Mmu) (a0 : Word) : Word := if a0 = 0 then mmu.guestAlloc else a0

section Brk

variable {os : Os} {m m' : Machine}

/-- **A request that is accepted, taken apart.** -/
theorem sysBrk_inv {r : Word} (h : sysBrk os m = .ok (r, m')) :
    r = brkTarget m.mmu (m.state.gp Reg.a0) ∧ m.mmu.base.toNat ≤ r.toNat ∧
      m.mmu.base.toNat ≤ m.mmu.guestAlloc.toNat ∧
      ∃ w mmu, m' = { m.withWorld w with mmu := mmu } ∧
        AllocKind os m.state.world m.mmu (r - m.mmu.guestAlloc) w mmu := by
  obtain ⟨_, hassert, h⟩ := bind_ok_inv h
  obtain ⟨⟨b, w, mmu⟩, halloc, h⟩ := bind_ok_inv h
  cases h
  rw [assertThat_iff, ule_iff] at hassert
  obtain ⟨-, hbase, -, hkind⟩ := mmuAlloc_inv halloc
  exact ⟨rfl, hassert, hbase, w, mmu, rfl, hkind⟩

/-- After the request the break is where it asked for. -/
theorem AllocKind.target {w w' : World} {mmu mmu' : Mmu} {a : Word}
    (h : AllocKind os w mmu (a - mmu.guestAlloc) w' mmu') :
    mmu'.base = mmu.base ∧ mmu'.guestAlloc = a := by
  obtain ⟨hbase, hbreak⟩ := h.moves
  exact ⟨hbase, hbreak.trans (add_sub_cancel mmu.guestAlloc a)⟩

/-- A request that asks where the break is changes nothing. -/
theorem sysBrk_zero (h : m.state.gp Reg.a0 = 0) (hbase : m.mmu.base.toNat ≤ m.mmu.guestAlloc.toNat) :
    sysBrk os m = .ok (m.mmu.guestAlloc, m) := by
  have hule := (ule_iff _ _).mpr hbase
  unfold sysBrk mmuAlloc
  simp only [h, if_true, BitVec.sub_self, BitVec.add_zero, hule, assertThat, bind, Except.bind]
  rfl

/-- A request below the base aborts the process. -/
theorem sysBrk_below (h₀ : m.state.gp Reg.a0 ≠ 0)
    (h : (m.state.gp Reg.a0).toNat < m.mmu.base.toNat) :
    sysBrk os m = .error (.assertFail "addr >= m->mmu.base") := by
  have hule : m.mmu.base.ule (m.state.gp Reg.a0) = false := by
    rw [BitVec.ule_eq_decide, decide_eq_false_iff_not]
    omega
  unfold sysBrk
  simp only [if_neg h₀, hule, assertThat]
  rfl

end Brk

/-! ### Histories of requests -/

/-- A history: the requests in order, each accepted, under `P` of the world, the allocator and
the break that is asked for; and in between whatever the guest does. -/
inductive BrkRun (os : Os) (P : World → Mmu → Word → Prop) : Machine → List Word → Machine → Prop
  | done (m : Machine) : BrkRun os P m [] m
  | guest {m m₁ m' : Machine} {as : List Word} (hmmu : m₁.mmu = m.mmu)
      (hprot : m₁.state.world.mem.prot = m.state.world.mem.prot) (h : BrkRun os P m₁ as m') :
      BrkRun os P m as m'
  | brk {m m₁ m' : Machine} {as : List Word} {r : Word} (hbrk : sysBrk os m = .ok (r, m₁))
      (hP : P m.state.world m.mmu (brkTarget m.mmu (m.state.gp Reg.a0)))
      (h : BrkRun os P m₁ as m') : BrkRun os P m (m.state.gp Reg.a0 :: as) m'

section Runs

variable {os : Os} {P : World → Mmu → Word → Prop}

/-- What every accepted request keeps holds after all of them, if it is about the allocator and
the mappings. -/
theorem BrkRun.invariant {I : (Word → Option Prot) → Mmu → Prop}
    (hbrk : ∀ {w w' mmu mmu' a}, I w.mem.prot mmu → mmu.base.toNat ≤ a.toNat → P w mmu a →
      AllocKind os w mmu (a - mmu.guestAlloc) w' mmu' → I w'.mem.prot mmu')
    {m m' : Machine} {as : List Word} (h : BrkRun os P m as m')
    (h₀ : I m.state.world.mem.prot m.mmu) : I m'.state.world.mem.prot m'.mmu := by
  induction h with
  | done m => exact h₀
  | guest hmmu hprot _ ih =>
      rw [← hmmu, ← hprot] at h₀
      exact ih h₀
  | brk hcall hP _ ih =>
      obtain ⟨rfl, hbase, -, w, mmu, rfl, hkind⟩ := sysBrk_inv hcall
      exact ih (hbrk h₀ hbase hP hkind)

/-- **The runs of the emulator are such histories**, if the condition holds at every request. -/
theorem iter_brkRun {fpu : HostFpu} {n : Nat} {m m' : Machine}
    (hP : ∀ k < n, ∀ t, Steps.iter (emuStep fpu os) k m = .ok t → t.AtEcall →
      t.state.gp Reg.a7 = sysBrkNumber →
      P t.state.world t.mmu (brkTarget t.mmu (t.state.gp Reg.a0)))
    (h : Steps.iter (emuStep fpu os) n m = .ok m') : ∃ as, BrkRun os P m as m' := by
  induction n generalizing m with
  | zero =>
      cases h
      exact ⟨[], .done _⟩
  | succ n ih =>
      obtain ⟨m₁, hs, h⟩ := Steps.iter_succ_inv h
      obtain ⟨as, hrun⟩ := ih (fun k hk t ht => hP (k + 1) (by omega) t
        (by rw [Steps.iter_succ hs]; exact ht)) h
      obtain ⟨s, i, r, -, -, -, hkind⟩ := emuStep_inv hs
      cases hkind with
      | quiet hmmu hprot => exact ⟨as, .guest hmmu hprot hrun⟩
      | @brk hat hnum r m₂ m₃ hbrk ha0 hworld hmmu hworld' hmmu' =>
          have hcond := hP 0 (Nat.succ_pos n) m rfl hat hnum
          rw [← ha0, ← hworld, ← hmmu] at hcond
          refine ⟨_, .guest hmmu (congrArg (fun w : World => w.mem.prot) hworld)
            (.brk hbrk hcond (.guest hmmu' ?_ hrun))⟩
          exact congrArg (fun w : World => w.mem.prot) hworld'

/-- The base stays, the break stays above it, and it is where the last request that was not a
question put it. -/
theorem BrkRun.break_eq {m m' : Machine} {as : List Word} (h : BrkRun os P m as m')
    (hbase : m.mmu.base.toNat ≤ m.mmu.guestAlloc.toNat) :
    m'.mmu.base = m.mmu.base ∧ m.mmu.base.toNat ≤ m'.mmu.guestAlloc.toNat ∧
      m'.mmu.guestAlloc = (as.filter (· ≠ 0)).getLastD m.mmu.guestAlloc := by
  induction h with
  | done m => exact ⟨rfl, hbase, rfl⟩
  | guest hmmu _ _ ih =>
      rw [← hmmu] at hbase ⊢
      exact ih hbase
  | @brk m m₁ m' as r hcall hP _ ih =>
      obtain ⟨rfl, hle, -, w, mmu, rfl, hkind⟩ := sysBrk_inv hcall
      obtain ⟨hbase', hbreak⟩ := hkind.target
      obtain ⟨h₁, h₂, h₃⟩ := ih (by
        show mmu.base.toNat ≤ mmu.guestAlloc.toNat
        rw [hbase', hbreak]
        exact hle)
      have h₁' : m'.mmu.base = m.mmu.base := h₁.trans hbase'
      refine ⟨h₁', by rw [← hbase']; exact h₂, h₃.trans ?_⟩
      show (as.filter (· ≠ 0)).getLastD mmu.guestAlloc = _
      rw [hbreak]
      unfold brkTarget
      by_cases hz : m.state.gp Reg.a0 = 0
      · rw [if_pos hz, List.filter_cons_of_neg (by simpa using hz)]
      · rw [if_neg hz, List.filter_cons_of_pos (by simpa using hz), List.getLastD_cons]

end Runs

end Rvemu
