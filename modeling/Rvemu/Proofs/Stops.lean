/-
How the emulator ends.

The main loop goes on until the process ends, and the process ends in many ways: the
guest asks for it, a host instruction traps, an assertion or a check of the source
fails.  `Dies` lists them, each by what the machine is about to do: fetch what cannot
be read, decode what is no instruction, access what may not be accessed, divide, ask
for a register or a call there is none of, or ask the host for memory in vain.

The list is complete and every entry of it is met: a run ends with a reason exactly if
it has come to a machine that dies of it.  What is not on the list cannot happen.
-/
import Rvemu.Proofs.Boot
import Rvemu.Proofs.Division
import Rvemu.Proofs.Fetch

namespace Rvemu

open Memory Spec Steps

/-! ### Words that are no instruction -/

/-- A computation that stops only because the source says so, with a message or with a failed
assertion. -/
def Rejects {α : Type} (r : Except Stop α) : Prop :=
  ∀ e, r = .error e → (∃ msg, e = .fatal msg) ∨ ∃ expr, e = .assertFail expr

theorem Rejects.ok {α : Type} (a : α) : Rejects (.ok a) := nofun

theorem Rejects.fatal {α : Type} (msg : String) : Rejects (α := α) (.error (.fatal msg)) := by
  rintro _ ⟨⟩
  exact .inl ⟨msg, rfl⟩

theorem Rejects.unreachable {α : Type} : Rejects (unreachable (α := α)) := .fatal _

theorem Rejects.assert {α : Type} {r : Except Stop α} {cond : Bool} {expr : String}
    (h : Rejects r) : Rejects (assertThat cond expr >>= fun _ => r) := by
  cases cond with
  | true => exact h
  | false =>
      rintro _ ⟨⟩
      exact .inr ⟨expr, rfl⟩

theorem Rejects.ite {α : Type} {r r' : Except Stop α} {p : Prop} [Decidable p] (h : Rejects r)
    (h' : Rejects r') : Rejects (if p then r else r') := by
  split <;> assumption

theorem decodeQuadrant0_rejects (w : BitVec 32) : Rejects (decodeQuadrant0 w) := by
  unfold decodeQuadrant0
  dsimp only
  split <;> first | exact .ok _ | exact .fatal _ | exact .assert (.ok _)

theorem decodeCAlu_rejects (w : BitVec 32) : Rejects (decodeCAlu w) := by
  unfold decodeCAlu
  dsimp only
  repeat' split
  all_goals first | exact .ok _ | exact .unreachable

theorem decodeQuadrant1_rejects (w : BitVec 32) : Rejects (decodeQuadrant1 w) := by
  unfold decodeQuadrant1
  dsimp only
  split
  case h_5 => exact decodeCAlu_rejects w
  case h_4 => exact .ite (.assert (.ok _)) (.assert (.ok _))
  all_goals first | exact .ok _ | exact .fatal _ | exact .assert (.ok _)

theorem decodeCJump_rejects (w : BitVec 32) : Rejects (decodeCJump w) := by
  unfold decodeCJump
  dsimp only
  split
  · exact .ite (.assert (.ok _)) (.ok _)
  · exact .ite (.fatal _) (.ite (.ok _) (.ok _))
  · exact .unreachable

theorem decodeQuadrant2_rejects (w : BitVec 32) : Rejects (decodeQuadrant2 w) := by
  unfold decodeQuadrant2
  dsimp only
  split
  case h_5 => exact decodeCJump_rejects w
  all_goals first | exact .ok _ | exact .fatal _ | exact .assert (.ok _)

theorem decodeFunct3_rejects (i : Inst) (w : BitVec 32) (t0 t1 t2 : InstType) :
    Rejects (decodeFunct3 i w t0 t1 t2) := by
  unfold decodeFunct3
  split <;> first | exact .ok _ | exact .unreachable

theorem decodeFunct3Pair_rejects (i : Inst) (w : BitVec 32) (t0 t1 : InstType) :
    Rejects (decodeFunct3Pair i w t0 t1) := by
  unfold decodeFunct3Pair
  split <;> first | exact .ok _ | exact .unreachable

theorem decodeFcvt_rejects (i : Inst) (w : BitVec 32) (t0 t1 t2 t3 : InstType) :
    Rejects (decodeFcvt i w t0 t1 t2 t3) := by
  unfold decodeFcvt
  split <;> first | exact .ok _ | exact .unreachable

theorem decodeOpFp_rejects (w : BitVec 32) : Rejects (decodeOpFp w) := by
  unfold decodeOpFp
  dsimp only
  split
  all_goals first
    | exact .ok _ | exact .unreachable | exact .assert (.ok _)
    | exact decodeFunct3_rejects _ _ _ _ _ | exact decodeFunct3Pair_rejects _ _ _ _
    | exact decodeFcvt_rejects _ _ _ _ _ _ | exact .assert (decodeFunct3Pair_rejects _ _ _ _)

/-- The opcodes whose cases pick a type and do nothing else. -/
theorem decodeByField_rejects (w : BitVec 32) :
    Rejects (decodeLoad w) ∧ Rejects (decodeLoadFp w) ∧ Rejects (decodeMiscMem w) ∧
      Rejects (decodeStore w) ∧ Rejects (decodeStoreFp w) ∧ Rejects (decodeOp w) ∧
      Rejects (decodeOp32 w) ∧ Rejects (decodeBranch w) ∧
      ∀ t t', Rejects (decodeFma t t' w) := by
  unfold decodeLoad decodeLoadFp decodeMiscMem decodeStore decodeStoreFp decodeOp decodeOp32
    decodeBranch decodeFma
  refine ⟨?_, ?_, ?_, ?_, ?_, ?_, ?_, ?_, fun t t' => ?_⟩
  all_goals try dsimp only
  all_goals repeat' split
  all_goals first | exact .ok _ | exact .unreachable

theorem decodeOpImm_rejects (w : BitVec 32) : Rejects (decodeOpImm w) := by
  unfold decodeOpImm
  dsimp only
  repeat' split
  all_goals first | exact .ok _ | exact .unreachable | exact .fatal _

theorem decodeOpImm32_rejects (w : BitVec 32) : Rejects (decodeOpImm32 w) := by
  unfold decodeOpImm32
  dsimp only
  repeat' split
  all_goals first | exact .ok _ | exact .unreachable | exact .fatal _ | exact .assert (.ok _)

theorem decodeSystem_rejects (i : Inst) (w : BitVec 32) : Rejects (decodeSystem i w) := by
  unfold decodeSystem
  dsimp only
  repeat' split
  all_goals first | exact .ok _ | exact .unreachable

/-- The decoder stops with a message or with an assertion, never otherwise. -/
theorem decodeInst_rejects (i : Inst) (w : BitVec 32) : Rejects (decodeInst i w) := by
  obtain ⟨hload, hloadFp, hmisc, hstore, hstoreFp, hop, hop32, hbranch, hfma⟩ :=
    decodeByField_rejects w
  have hquadrant3 : Rejects (decodeQuadrant3 i w) := by
    unfold decodeQuadrant3
    split
    all_goals first
      | exact .ok _ | exact .unreachable | assumption | exact hfma _ _ | exact decodeOpImm_rejects w
      | exact decodeOpImm32_rejects w | exact decodeOpFp_rejects w | exact decodeSystem_rejects i w
  unfold decodeInst
  split
  · exact decodeQuadrant0_rejects w
  · exact decodeQuadrant1_rejects w
  · exact decodeQuadrant2_rejects w
  · exact hquadrant3
  · exact .unreachable

/-! ### Instructions that die -/

/-- The instructions that access a control register. -/
def isCsr (t : InstType) : Bool :=
  t matches .csrrw | .csrrs | .csrrc | .csrrwi | .csrrsi | .csrrci

/-- The instruction `i` stops the emulator. -/
inductive Fails (s : State) (i : Inst) : Stop → Prop
  /-- A load of bytes that cannot be read. -/
  | load (ht : isLoad i.type = true) {bad : Word}
      (h : Mem.FirstBad s.world.mem.readable (accessWidth i.type) (toHost (accessAddr s i)) bad) :
      Fails s i (.segv bad)
  /-- A store to bytes that cannot be written. -/
  | store (ht : isStore i.type = true) {bad : Word}
      (h : Mem.FirstBad s.world.mem.writable (accessWidth i.type) (toHost (accessAddr s i)) bad) :
      Fails s i (.segv bad)
  /-- A division of low halves by a number that is zero in its low half only. -/
  | divide (ht : isWordDivision i.type = true) (hlow : low (s.gp i.rs2) = 0)
      (hb : s.gp i.rs2 ≠ 0) : Fails s i .fpe
  /-- A control register other than `fflags`, `frm` and `fcsr`. -/
  | csr (ht : isCsr i.type = true) (h : i.csr.toNat ∉ [1, 2, 3]) :
      Fails s i (.fatal "unsupported csr")

theorem load_error {s : State} {a : Word} {n : Nat} {e : Stop} :
    s.load a n = .error e ↔
      ∃ bad, e = .segv bad ∧ Mem.FirstBad s.world.mem.readable n (toHost a) bad := by
  unfold State.load
  simp only [mapError_error_iff, Mem.load_error_iff]

theorem bind_error {α β : Type} {x : Except Stop α} {f : α → β} {e : Stop} :
    (x >>= fun a => .ok (f a)) = .error e ↔ x = .error e := by
  cases x with
  | ok a => exact ⟨nofun, nofun⟩
  | error e' =>
      constructor
      · rintro ⟨⟩
        rfl
      · rintro ⟨⟩
        rfl

theorem store_error {s : State} {a : Word} {n : Nat} {v : BitVec (8 * n)} {e : Stop} :
    s.store a n v = .error e ↔
      ∃ bad, e = .segv bad ∧ Mem.FirstBad s.world.mem.writable n (toHost a) bad := by
  rw [store_eq, bind_error]
  simp only [mapError_error_iff, Mem.store_error_iff]

theorem handler_load_error (fpu : HostFpu) {t : InstType} (ht : isLoad t = true) {s : State}
    {i : Inst} {e : Stop} :
    handler fpu t s i = .error e ↔ s.load (accessAddr s i) (accessWidth t) = .error e := by
  cases t <;> cases ht
  all_goals exact bind_error

theorem handler_store_error (fpu : HostFpu) {t : InstType} (ht : isStore t = true) {s : State}
    {i : Inst} {e : Stop} :
    handler fpu t s i = .error e ↔
      s.store (accessAddr s i) (accessWidth t) ((storedValue t s i).setWidth _) = .error e := by
  cases t <;> cases ht
  all_goals exact bind_error

theorem handler_csr_error (fpu : HostFpu) {t : InstType} (ht : isCsr t = true) {s : State}
    {i : Inst} {e : Stop} :
    handler fpu t s i = .error e ↔ i.csr.toNat ∉ [1, 2, 3] ∧ e = .fatal "unsupported csr" := by
  have hcsr : csrFunc s i = .error e ↔
      i.csr.toNat ∉ [1, 2, 3] ∧ e = .fatal "unsupported csr" := by
    unfold csrFunc
    rcases i.csr.toNat with _ | _ | _ | _ | n
    all_goals simp [eq_comm]
  cases t <;> cases ht
  all_goals exact hcsr

/-- The other instructions come to an end, and so does a jump that could be fetched. -/
theorem handler_total (fpu : HostFpu) {t : InstType} (hload : isLoad t = false)
    (hstore : isStore t = false) (hdiv : isDivision t = false) (hcsr : isCsr t = false) {s : State}
    {i : Inst} {w : BitVec 32} (hfetch : s.load s.pc 4 = .ok w) :
    ∃ r, handler fpu t s i = .ok r := by
  have hbranch (ht : t.isControl ≠ false) (hjump : ¬t.isJump = true) (hecall : t ≠ .ecall) :
      ∃ r, handler fpu t s i = .ok r := by
    rw [handler_branch fpu ht hjump hecall]
    exact ⟨_, branchFunc_eq _ s i⟩
  cases t <;> try cases hload
  all_goals try cases hstore
  all_goals try cases hdiv
  all_goals try cases hcsr
  case jalr =>
    refine ⟨(jalrState s i (if i.jalrTarget s = 0 then jalrReport s i w else []), i), ?_⟩
    show funcJalr s i = _
    rw [funcJalr_eq]
    by_cases hz : i.jalrTarget s = 0
    · rw [if_pos hz, if_pos hz, hfetch]
      rfl
    · rw [if_neg hz, if_neg hz]
  case beq | bne | blt | bge | bltu | bgeu => exact hbranch nofun nofun nofun
  all_goals exact ⟨_, rfl⟩

/-- **An instruction that has been fetched and decoded stops the emulator in four ways.** -/
theorem handler_error (fpu : HostFpu) {s : State} {i : Inst} {w : BitVec 32}
    (hfetch : s.load s.pc 4 = .ok w) {e : Stop} :
    handler fpu i.type s i = .error e ↔ Fails s i e := by
  constructor
  · intro h
    by_cases hload : isLoad i.type = true
    · obtain ⟨bad, rfl, hbad⟩ := load_error.mp ((handler_load_error fpu hload).mp h)
      exact .load hload hbad
    by_cases hstore : isStore i.type = true
    · obtain ⟨bad, rfl, hbad⟩ := store_error.mp ((handler_store_error fpu hstore).mp h)
      exact .store hstore hbad
    by_cases hdiv : isDivision i.type = true
    · rw [handler_division fpu hdiv] at h
      split at h
      · cases h
      · rename_i htests
        cases h
        unfold TestsDivisor at htests
        simp only [Classical.not_imp] at htests
        exact .divide htests.1 htests.2.1 htests.2.2
    by_cases hcsr : isCsr i.type = true
    · obtain ⟨hi, rfl⟩ := (handler_csr_error fpu hcsr).mp h
      exact .csr hcsr hi
    rw [Bool.not_eq_true] at hload hstore hdiv hcsr
    obtain ⟨r, hr⟩ := handler_total fpu hload hstore hdiv hcsr (i := i) hfetch
    rw [hr] at h
    cases h
  · intro h
    cases h with
    | load ht hbad => exact (handler_load_error fpu ht).mpr (load_error.mpr ⟨_, rfl, hbad⟩)
    | store ht hbad => exact (handler_store_error fpu ht).mpr (store_error.mpr ⟨_, rfl, hbad⟩)
    | divide ht hlow hb =>
        have hdiv : isDivision i.type = true := by simp [isDivision, ht]
        rw [handler_division fpu hdiv, if_neg fun htests => hb (htests ht hlow)]
    | csr ht hi => exact (handler_csr_error fpu ht).mpr ⟨hi, rfl⟩

/-! ### Calls that are not answered -/

/-- The calls that the tables implement: `exit`, `exit_group`, `read`, `write`, `openat`,
`close`, `fstat`, `lseek`, `brk`, `gettimeofday` and `open`. -/
def implementedNumbers : List Nat := [93, 94, 63, 64, 56, 57, 80, 62, 214, 169, 1024]

/-- The entries of the two tables that are listed and left unimplemented. -/
def unimplementedEntries : List Nat :=
  [67, 291, 79, 37, 35, 34, 38, 17, 160, 172, 174, 175, 176, 177, 178, 131, 222, 215, 216, 226,
    134, 153, 66, 48, 25, 46, 61, 23, 24, 135, 113, 49]

def unimplementedOldEntries : List Nat := [1, 2, 6, 9, 14, 15, 38]

/-- The calls of these entries. -/
def unimplementedNumbers : List Nat :=
  unimplementedEntries ++ unimplementedOldEntries.map (1024 + ·)

/-- An allocation that stops the emulator. -/
inductive AllocFails (os : Os) (w : World) (mmu : Mmu) (size : Word) : Stop → Prop
  /-- The break is below the base already. -/
  | lost (hb : mmu.guestAlloc.toNat < mmu.base.toNat) :
      AllocFails os w mmu size (.assertFail "base >= mmu->base")
  /-- It would sink below the base. -/
  | sinks (hb : mmu.base.toNat ≤ mmu.guestAlloc.toNat)
      (hs : (mmu.guestAlloc + size).toNat < mmu.base.toNat) :
      AllocFails os w mmu size (.assertFail "mmu->guest_alloc >= mmu->base")
  /-- The host has no memory, or does not take memory back. -/
  | refused (hb : mmu.base.toNat ≤ mmu.guestAlloc.toNat)
      (hs : mmu.base.toNat ≤ (mmu.guestAlloc + size).toNat) {msg : String}
      (h : HostRefuses os w mmu size msg) : AllocFails os w mmu size (.fatal msg)

/-- A request for the break `a` that stops the emulator. -/
inductive BrkFails (os : Os) (w : World) (mmu : Mmu) (a : Word) : Stop → Prop
  | below (h : a.toNat < mmu.base.toNat) : BrkFails os w mmu a (.assertFail "addr >= m->mmu.base")
  | alloc (h : mmu.base.toNat ≤ a.toNat) {e : Stop}
      (hfails : AllocFails os w mmu (a - mmu.guestAlloc) e) : BrkFails os w mmu a e

/-- The host knows the time, and the time or the time zone cannot be stored where it should. -/
inductive TimeFaults (os : Os) (w : World) (tv tz bad : Word) : Prop
  | time {time zone : List (BitVec 8)} (h : os.gettimeofday w.clock w.mem tv tz = .ok (time, zone))
      (hptr : tv ≠ 0) (hbad : Mem.FirstBad w.mem.writable time.length tv bad)
  | zone {time zone : List (BitVec 8)} (h : os.gettimeofday w.clock w.mem tv tz = .ok (time, zone))
      (htime : tv ≠ 0 → ∀ i < time.length, w.mem.writable (tv + BitVec.ofNat 64 i) = true)
      (hptr : tz ≠ 0) (hbad : Mem.FirstBad w.mem.writable zone.length tz bad)

/-- A call that stops the emulator. -/
inductive Refuses (os : Os) (m : Machine) : Stop → Prop
  | exit (hn : (m.state.gp Reg.a7).toNat = 93 ∨ (m.state.gp Reg.a7).toNat = 94) :
      Refuses os m (.exit ((m.state.gp Reg.a0).setWidth 32))
  | unimplemented (hn : (m.state.gp Reg.a7).toNat ∈ unimplementedNumbers) :
      Refuses os m
        (.fatal ("unimplemented syscall: " ++ toString (m.state.gp Reg.a7).toNat))
  | unknown (hn : (m.state.gp Reg.a7).toNat ∉ implementedNumbers ++ unimplementedNumbers) :
      Refuses os m (.fatal "unknown syscall")
  | brk (hn : m.state.gp Reg.a7 = sysBrkNumber) {e : Stop}
      (h : BrkFails os m.state.world m.mmu (brkTarget m.mmu (m.state.gp Reg.a0)) e) :
      Refuses os m e
  /-- The host sends a signal, as for a write to a pipe that nobody reads. -/
  | write (hn : (m.state.gp Reg.a7).toNat = 64) {no : BitVec 32}
      (h : os.write m.state.world.clock m.state.world.mem ((m.state.gp Reg.a0).setWidth 32)
        (toHost (m.state.gp Reg.a1)) (m.state.gp Reg.a2) = .error no) : Refuses os m (.signal no)
  | time (hn : (m.state.gp Reg.a7).toNat = 169) {bad : Word}
      (h : TimeFaults os m.state.world (toHost (m.state.gp Reg.a0)) m.zonePtr bad) :
      Refuses os m (.segv bad)

section Calls

variable {os : Os} {m : Machine} {e : Stop}

theorem assertThat_false {c : Bool} {expr : String} (h : c = false) :
    assertThat c expr = .error (.assertFail expr) := by
  rw [h]
  rfl

theorem ule_false {x y : Word} (h : y.toNat < x.toNat) : x.ule y = false := by
  rw [BitVec.ule_eq_decide, decide_eq_false_iff_not]
  omega

theorem mmuAlloc_error {w : World} {mmu : Mmu} {size : Word} :
    mmuAlloc os w mmu size = .error e ↔ AllocFails os w mmu size e := by
  constructor
  · intro h
    by_cases hb : mmu.base.toNat ≤ mmu.guestAlloc.toNat
    · by_cases hs : mmu.base.toNat ≤ (mmu.guestAlloc + size).toNat
      · rcases mmuAlloc_total os w hb hs with ⟨msg, hrefuses, hfatal⟩ | ⟨w', mmu', hok⟩
        · rw [hfatal] at h
          cases h
          exact .refused hb hs hrefuses
        · rw [hok] at h
          cases h
      · have hsinks : (mmu.guestAlloc + size).toNat < mmu.base.toNat := by omega
        simp only [mmuAlloc, (ule_iff _ _).mpr hb, ule_false hsinks, assertThat, bind,
          Except.bind] at h
        cases h
        exact .sinks hb hsinks
    · have hlost : mmu.guestAlloc.toNat < mmu.base.toNat := by omega
      simp only [mmuAlloc, ule_false hlost, assertThat, bind, Except.bind] at h
      cases h
      exact .lost hlost
  · intro h
    cases h with
    | lost hb => simp [mmuAlloc, ule_false hb, assertThat, bind, Except.bind]
    | sinks hb hs =>
        simp [mmuAlloc, (ule_iff _ _).mpr hb, ule_false hs, assertThat, bind, Except.bind]
    | refused hb hs h => exact h.stops hb hs

theorem sysBrk_error :
    sysBrk os m = .error e ↔
      BrkFails os m.state.world m.mmu (brkTarget m.mmu (m.state.gp Reg.a0)) e := by
  have hbrk : sysBrk os m =
      (assertThat (m.mmu.base.ule (brkTarget m.mmu (m.state.gp Reg.a0))) "addr >= m->mmu.base" >>=
        fun _ => (mmuAlloc os m.state.world m.mmu
          (brkTarget m.mmu (m.state.gp Reg.a0) - m.mmu.guestAlloc)).map fun p =>
            (brkTarget m.mmu (m.state.gp Reg.a0), { m.withWorld p.2.1 with mmu := p.2.2 })) := by
    unfold sysBrk
    dsimp only
    show (assertThat (m.mmu.base.ule (brkTarget m.mmu (m.state.gp Reg.a0))) _ >>= fun _ =>
      mmuAlloc os m.state.world m.mmu (brkTarget m.mmu (m.state.gp Reg.a0) - m.mmu.guestAlloc) >>=
        _) = _
    cases mmuAlloc os m.state.world m.mmu
      (brkTarget m.mmu (m.state.gp Reg.a0) - m.mmu.guestAlloc) <;> rfl
  rw [hbrk]
  generalize brkTarget m.mmu (m.state.gp Reg.a0) = a
  by_cases ha : m.mmu.base.toNat ≤ a.toNat
  · rw [(assertThat_iff _ _).mpr ((ule_iff _ _).mpr ha), ok_bind]
    constructor
    · intro h
      cases halloc : mmuAlloc os m.state.world m.mmu (a - m.mmu.guestAlloc) with
      | ok p =>
          rw [halloc] at h
          cases h
      | error e' =>
          rw [halloc] at h
          cases h
          exact .alloc ha (mmuAlloc_error.mp halloc)
    · intro h
      cases h with
      | below h => omega
      | alloc _ h =>
          rw [mmuAlloc_error.mpr h]
          rfl
  · have hbelow : a.toNat < m.mmu.base.toNat := by omega
    rw [assertThat_false (ule_false hbelow)]
    constructor
    · rintro ⟨⟩
      exact .below hbelow
    · intro h
      cases h with
      | below _ => rfl
      | alloc h _ => omega

/-- The other implemented calls are always answered. -/
def Answers (f : Syscall) : Prop := ∀ m, ∃ r, f m = .ok r

theorem sysClose_answers : Answers (sysClose os) := by
  intro m
  unfold sysClose
  dsimp only
  split <;> exact ⟨_, rfl⟩

theorem sysFstat_answers : Answers (sysFstat os) := by
  intro m
  unfold sysFstat
  dsimp only
  split <;> exact ⟨_, rfl⟩

theorem sysRead_answers : Answers (sysRead os) := by
  intro m
  unfold sysRead
  dsimp only
  split <;> exact ⟨_, rfl⟩

/-- A write stops the emulator with the signal that the host sends. -/
theorem sysWrite_error :
    sysWrite os m = .error e ↔
      ∃ no, os.write m.state.world.clock m.state.world.mem ((m.state.gp Reg.a0).setWidth 32)
        (toHost (m.state.gp Reg.a1)) (m.state.gp Reg.a2) = .error no ∧ e = .signal no := by
  unfold sysWrite
  dsimp only
  split
  · rename_i no hno
    rw [hno]
    constructor
    · rintro ⟨⟩
      exact ⟨no, rfl, rfl⟩
    · rintro ⟨_, ⟨⟩, rfl⟩
      rfl
  · rename_i r hr
    rw [hr]
    exact ⟨nofun, nofun⟩

/-- The time of day stops it where it cannot be stored. -/
theorem sysGettimeofday_error :
    sysGettimeofday os m = .error e ↔
      ∃ bad, TimeFaults os m.state.world (toHost (m.state.gp Reg.a0)) m.zonePtr bad ∧
        e = .segv bad := by
  rw [sysGettimeofday_eq]
  generalize toHost (m.state.gp Reg.a0) = tv
  generalize m.zonePtr = tz
  constructor
  · intro h
    split at h
    · rename_i time zone hreply
      cases htime : storeThrough tv time m.state.world.mem with
      | error e' =>
          rw [htime] at h
          cases h
          obtain ⟨hptr, bad, rfl, hbad⟩ := storeThrough_error_iff.mp htime
          exact ⟨bad, .time hreply hptr hbad, rfl⟩
      | ok mem =>
          have hsame := storeThrough_writable htime
          rw [htime, ok_bind] at h
          cases hzone : storeThrough tz zone mem with
          | ok mem' =>
              rw [hzone] at h
              cases h
          | error e' =>
              rw [hzone] at h
              cases h
              obtain ⟨hptr, bad, rfl, hbad⟩ := storeThrough_error_iff.mp hzone
              rw [hsame] at hbad
              refine ⟨bad, .zone hreply (fun htv => ?_) hptr hbad, rfl⟩
              rcases storeThrough_ok_iff.mp htime with ⟨hz, -⟩ | ⟨-, hall, -⟩
              · exact absurd hz htv
              · exact hall
    · cases h
  · rintro ⟨bad, hfaults, rfl⟩
    cases hfaults with
    | time hreply hptr hbad =>
        rw [hreply]
        dsimp only
        rw [storeThrough_error_iff.mpr ⟨hptr, bad, rfl, hbad⟩]
        rfl
    | @zone time zone hreply htime hptr hbad =>
        rw [hreply]
        dsimp only
        obtain ⟨mem, hmem⟩ : ∃ mem, storeThrough tv time m.state.world.mem = .ok mem := by
          by_cases htv : tv = 0
          · exact ⟨_, storeThrough_ok_iff.mpr (.inl ⟨htv, rfl⟩)⟩
          · exact ⟨_, storeThrough_ok_iff.mpr (.inr ⟨htv, htime htv, rfl⟩)⟩
        rw [← storeThrough_writable hmem] at hbad
        rw [hmem, ok_bind, storeThrough_error_iff.mpr ⟨hptr, bad, rfl, hbad⟩]
        rfl

theorem syscallTable_unimplemented :
    ∀ k ∈ unimplementedEntries, k < 292 ∧ (syscallTable os).lookup k = some sysUnimplemented := by
  simp only [unimplementedEntries, List.forall_mem_cons, List.not_mem_nil, false_implies,
    implies_true, and_true]
  and_intros
  all_goals first | decide | rfl

theorem oldSyscallTable_unimplemented : ∀ k ∈ unimplementedOldEntries,
    k < 39 ∧ (oldSyscallTable os).lookup k = some sysUnimplemented := by
  simp only [unimplementedOldEntries, List.forall_mem_cons, List.not_mem_nil, false_implies,
    implies_true, and_true]
  and_intros
  all_goals first | decide | rfl

theorem doSyscall_unimplemented {n : Word} (hn : n.toNat ∈ unimplementedNumbers) :
    doSyscall os m n = sysUnimplemented m := by
  rw [unimplementedNumbers, List.mem_append, List.mem_map] at hn
  rcases hn with hn | ⟨k, hk, heq⟩
  · obtain ⟨hlt, hlookup⟩ := syscallTable_unimplemented n.toNat hn
    exact doSyscall_table rfl hlt hlookup
  · obtain ⟨hlt, hlookup⟩ := oldSyscallTable_unimplemented k hk
    exact doSyscall_old heq.symm hlt hlookup

/-- The numbers are all there are. -/
theorem syscallTable_numbers :
    ∀ p ∈ syscallTable os, p.1 ∈ implementedNumbers ++ unimplementedNumbers := by
  simp only [syscallTable, List.forall_mem_cons, List.not_mem_nil, false_implies, implies_true,
    and_true]
  and_intros
  all_goals decide

theorem oldSyscallTable_numbers :
    ∀ p ∈ oldSyscallTable os, 1024 + p.1 ∈ implementedNumbers ++ unimplementedNumbers := by
  simp only [oldSyscallTable, List.forall_mem_cons, List.not_mem_nil, false_implies, implies_true,
    and_true]
  and_intros
  all_goals decide

theorem doSyscall_unknown {n : Word}
    (hn : n.toNat ∉ implementedNumbers ++ unimplementedNumbers) :
    doSyscall os m n = .error (.fatal "unknown syscall") := by
  have htable : (syscallTable os).lookup n.toNat = none := by
    rw [List.lookup_eq_none_iff]
    intro p hp
    rw [bne_iff_ne]
    intro heq
    exact hn (heq ▸ syscallTable_numbers p hp)
  unfold doSyscall
  simp only [htable]
  by_cases hlt : n.ult 292 = true
  · rw [if_pos hlt]
  · rw [if_neg hlt]
    by_cases hold : (n - oldSyscallThreshold).ult 39 = true
    · have hnone : (oldSyscallTable os).lookup (n - oldSyscallThreshold).toNat = none := by
        rw [List.lookup_eq_none_iff]
        intro p hp
        rw [bne_iff_ne]
        intro heq
        have hnum : n.toNat = 1024 + p.1 := by
          rw [ult_iff] at hlt hold
          simp only [oldSyscallThreshold, BitVec.toNat_sub, BitVec.reduceToNat] at hlt hold heq
          omega
        exact hn (hnum ▸ oldSyscallTable_numbers p hp)
      rw [if_pos hold, hnone]
    · rw [if_neg hold]

/-- **The calls that stop the emulator.** -/
theorem doSyscall_error : doSyscall os m (m.state.gp Reg.a7) = .error e ↔ Refuses os m e := by
  constructor
  · intro h
    by_cases hun : (m.state.gp Reg.a7).toNat ∈ unimplementedNumbers
    · rw [doSyscall_unimplemented hun] at h
      cases h
      exact .unimplemented hun
    by_cases him : (m.state.gp Reg.a7).toNat ∈ implementedNumbers
    · have hanswers {f : Syscall} (hf : Answers f) {k : Nat} (hk : k < 292)
          (hlookup : (syscallTable os).lookup k = some f)
          (hn : (m.state.gp Reg.a7).toNat = k) : Refuses os m e := by
        obtain ⟨r, hr⟩ := hf m
        rw [doSyscall_table hn hk hlookup, hr] at h
        cases h
      simp only [implementedNumbers, List.mem_cons, List.not_mem_nil, or_false] at him
      rcases him with hn | hn | hn | hn | hn | hn | hn | hn | hn | hn | hn
      · rw [doSyscall_table hn (by decide) rfl] at h
        cases h
        exact .exit (.inl hn)
      · rw [doSyscall_table hn (by decide) rfl] at h
        cases h
        exact .exit (.inr hn)
      · exact hanswers sysRead_answers (by decide) rfl hn
      · rw [doSyscall_table hn (by decide) rfl] at h
        obtain ⟨no, hno, rfl⟩ := sysWrite_error.mp h
        exact .write hn hno
      · exact hanswers (f := sysOpenat os) (fun m => ⟨_, rfl⟩) (by decide) rfl hn
      · exact hanswers sysClose_answers (by decide) rfl hn
      · exact hanswers sysFstat_answers (by decide) rfl hn
      · exact hanswers (f := sysLseek os) (fun m => ⟨_, rfl⟩) (by decide) rfl hn
      · rw [doSyscall_table hn (by decide) rfl] at h
        exact .brk (BitVec.eq_of_toNat_eq hn) (sysBrk_error.mp h)
      · rw [doSyscall_table hn (by decide) rfl] at h
        obtain ⟨bad, hfaults, rfl⟩ := sysGettimeofday_error.mp h
        exact .time hn hfaults
      · rw [doSyscall_old (k := 0) hn (by decide) rfl] at h
        cases h
    · have hn : (m.state.gp Reg.a7).toNat ∉ implementedNumbers ++ unimplementedNumbers := by
        rw [List.mem_append]
        exact fun h => h.elim him hun
      rw [doSyscall_unknown hn] at h
      cases h
      exact .unknown hn
  · intro h
    cases h with
    | exit hn =>
        rcases hn with hn | hn
        · exact doSyscall_table hn (by decide) rfl
        · exact doSyscall_table hn (by decide) rfl
    | unimplemented hn => exact doSyscall_unimplemented hn
    | unknown hn => exact doSyscall_unknown hn
    | brk hn h =>
        have hnum : (m.state.gp Reg.a7).toNat = 214 := by rw [hn]; rfl
        rw [doSyscall_table hnum (by decide) rfl]
        exact sysBrk_error.mpr h
    | write hn h =>
        rw [doSyscall_table hn (by decide) rfl]
        exact sysWrite_error.mpr ⟨_, h, rfl⟩
    | time hn h =>
        rw [doSyscall_table hn (by decide) rfl]
        exact sysGettimeofday_error.mpr ⟨_, h, rfl⟩

theorem handleSyscall_error : handleSyscall os m = .error e ↔ Refuses os m e := by
  rw [← doSyscall_error]
  exact bind_error

/-- What a call is refused for does not depend on where it is made from. -/
theorem Refuses.congr {m' : Machine} (hgp : ∀ r, r ≠ Reg.zero → m'.state.gp r = m.state.gp r)
    (hworld : m'.state.world = m.state.world) (hmmu : m'.mmu = m.mmu) (h : Refuses os m e) :
    Refuses os m' e := by
  have ha7 := hgp Reg.a7 (by decide)
  have ha0 := hgp Reg.a0 (by decide)
  have ha1 := hgp Reg.a1 (by decide)
  have hzone : m'.zonePtr = m.zonePtr := by
    rw [Machine.zonePtr, ha1]
    rfl
  cases h with
  | exit hn =>
      rw [← ha0]
      exact .exit (by rw [ha7]; exact hn)
  | unimplemented hn =>
      rw [← ha7]
      exact .unimplemented (by rw [ha7]; exact hn)
  | unknown hn => exact .unknown (by rw [ha7]; exact hn)
  | brk hn h => exact .brk (by rw [ha7]; exact hn) (by rw [hworld, hmmu, ha0]; exact h)
  | write hn h =>
      refine .write (by rw [ha7]; exact hn) ?_
      rw [hworld, ha0, ha1, hgp Reg.a2 (by decide)]
      exact h
  | time hn h => exact .time (by rw [ha7]; exact hn) (by rw [hworld, ha0, hzone]; exact h)

end Calls

/-! ### One step -/

/-- What the machine is about to do stops the emulator. -/
inductive Dies (os : Os) (m : Machine) : Stop → Prop
  /-- The instruction cannot be read. -/
  | fetch {bad : Word} (h : Mem.FirstBad m.state.world.mem.readable 4 (toHost m.state.pc) bad) :
      Dies os m (.segv bad)
  /-- It is none. -/
  | decode {w : BitVec 32} (hload : m.state.load m.state.pc 4 = .ok w) {e : Stop}
      (hdec : decodeInst {} w = .error e) : Dies os m e
  | inst {w : BitVec 32} (hload : m.state.load m.state.pc 4 = .ok w) {i : Inst}
      (hdec : decodeInst {} w = .ok i) {e : Stop} (h : Fails m.state i e) : Dies os m e
  | call (hat : m.AtEcall) {e : Stop} (h : Refuses os m e) : Dies os m e

section Step

variable {fpu : HostFpu} {os : Os} {m : Machine} {e : Stop}

theorem Fails.type_ne {s : State} {i : Inst} (h : Fails s i e) : i.type ≠ .ecall := by
  intro hty
  cases h with
  | load ht _ => rw [hty] at ht; cases ht
  | store ht _ => rw [hty] at ht; cases ht
  | divide ht _ _ => rw [hty] at ht; cases ht
  | csr ht _ => rw [hty] at ht; cases ht

/-- A pass through the loop body that does not come to its end. -/
theorem execIter_error :
    execIter fpu m.state m.inst = .error e ↔
      (∃ bad, e = .segv bad ∧
        Mem.FirstBad m.state.world.mem.readable 4 (toHost m.state.pc) bad) ∨
      ∃ w, m.state.load m.state.pc 4 = .ok w ∧
        (decodeInst {} w = .error e ∨ ∃ i, decodeInst {} w = .ok i ∧ Fails m.state i e) := by
  rw [← load_error]
  unfold execIter
  cases hload : m.state.load m.state.pc 4 with
  | error e' =>
      constructor
      · rintro ⟨⟩
        exact .inl rfl
      · rintro (⟨⟨⟩⟩ | ⟨w, hw, -⟩)
        · rfl
        · cases hw
  | ok w =>
      rw [ok_bind]
      have hword : execWord fpu w m.state m.inst = .error e ↔
          decodeInst {} w = .error e ∨ ∃ i, decodeInst {} w = .ok i ∧ Fails m.state i e := by
        by_cases hw : w = 0x73
        · subst hw
          constructor
          · intro h
            cases h
          · rintro (h | ⟨i, hdec, hfails⟩)
            · cases h
            · cases hdec
              exact absurd rfl hfails.type_ne
        · unfold execWord
          rw [decodeInst_prev hw m.inst {}]
          cases hdec : decodeInst {} w with
          | error e' =>
              constructor
              · rintro ⟨⟩
                exact .inl rfl
              · rintro (⟨⟨⟩⟩ | ⟨i, hi, -⟩)
                · rfl
                · cases hi
          | ok i =>
              rw [ok_bind, func_eq_handler]
              rw [show (handler fpu i.type m.state i >>= fun p =>
                .ok (p.1.setGp Reg.zero 0, p.2) : Except Stop (State × Inst)) = .error e ↔
                  handler fpu i.type m.state i = .error e from bind_error, handler_error fpu hload]
              constructor
              · intro h
                exact .inr ⟨i, rfl, h⟩
              · rintro (⟨⟨⟩⟩ | ⟨j, hj, h⟩)
                cases hj
                exact h
      rw [hword]
      constructor
      · intro h
        exact .inr ⟨w, rfl, h⟩
      · rintro (h | ⟨w', hw', h⟩)
        · cases h
        · cases hw'
          exact h

/-- **What stops a step.** -/
theorem emuStep_error : emuStep fpu os m = .error e ↔ Dies os m e := by
  have hstop (h : execIter fpu m.state m.inst = .error e) : emuStep fpu os m = .error e := by
    unfold emuStep
    rw [h]
    rfl
  have hcall {s : State} {i : Inst} : (handleSyscall os
      { m.withRun s i with state := (m.withRun s i).state.reenter }).map Machine.enter =
        .error e ↔ Refuses os { m.withRun s i with state := s.reenter } e := by
    rw [← handleSyscall_error]
    exact bind_error
  constructor
  · intro h
    cases hiter : execIter fpu m.state m.inst with
    | error e' =>
        rw [emuStep, hiter] at h
        cases h
        rcases execIter_error.mp hiter with ⟨bad, rfl, hbad⟩ | ⟨w, hload, hdec | ⟨i, hdec, hfails⟩⟩
        · exact .fetch hbad
        · exact .decode hload hdec
        · exact .inst hload hdec hfails
    | ok p =>
        obtain ⟨s, i⟩ := p
        rw [emuStep, hiter, ok_bind] at h
        dsimp only at h
        by_cases hc : i.continueExec = true
        · rw [if_pos hc] at h
          by_cases hbranch : s.exitReason = .directBranch ∨ s.exitReason = .indirectBranch
          · rw [leaveBlock_branch (m := m.withRun s i) hbranch] at h
            cases h
          · rw [leaveBlock_call (m := m.withRun s i) hbranch, hcall] at h
            obtain ⟨hat, hgp, hworld⟩ := execIter_ecall hiter hc hbranch
            have hregs (r : RegNo) (hr : r ≠ Reg.zero) : m.state.gp r = s.reenter.gp r := by
              show m.state.gpRegs r = s.gpRegs r
              rw [hgp, Function.update_of_ne hr]
            refine .call hat (Refuses.congr ?_ ?_ ?_ h)
            · exact hregs
            · exact hworld.symm
            · rfl
        · rw [if_neg hc] at h
          cases h
  · intro h
    cases h with
    | fetch hbad => exact hstop (execIter_error.mpr (.inl ⟨_, rfl, hbad⟩))
    | decode hload hdec => exact hstop (execIter_error.mpr (.inr ⟨_, hload, .inl hdec⟩))
    | inst hload hdec hfails =>
        exact hstop (execIter_error.mpr (.inr ⟨_, hload, .inr ⟨_, hdec, hfails⟩⟩))
    | call hat h =>
        rw [emuStep, execIter_call hat, ok_bind]
        refine hcall.mpr (Refuses.congr ?_ ?_ ?_ h)
        · exact fun r hr => Function.update_of_ne hr 0 m.state.gpRegs
        · rfl
        · rfl

end Step

/-! ### Runs -/

/-- A run ends in the first step that fails. -/
theorem mainLoop_fails_iff (fpu : HostFpu) (os : Os) (n : Nat) (m : Machine) (e : Stop) :
    mainLoop fpu os n m = .error e ↔
      ∃ k < n, ∃ m', mainLoop fpu os k m = .ok m' ∧ emuStep fpu os m' = .error e := by
  simp only [mainLoop_eq_iter]
  exact iter_error_iff

/-- **How a run ends.**  It ends for a reason exactly if it has come to a machine that dies of
it. -/
theorem mainLoop_error_iff (fpu : HostFpu) (os : Os) (n : Nat) (m : Machine) (e : Stop) :
    mainLoop fpu os n m = .error e ↔
      ∃ k < n, ∃ m', mainLoop fpu os k m = .ok m' ∧ Dies os m' e := by
  rw [mainLoop_fails_iff]
  simp only [emuStep_error]

/-- What an allocation, the decoder or an instruction stops with is no exit code. -/
theorem Dies.exit {os : Os} {m : Machine} {code : BitVec 32} (h : Dies os m (.exit code)) :
    m.AtEcall ∧ ((m.state.gp Reg.a7).toNat = 93 ∨ (m.state.gp Reg.a7).toNat = 94) ∧
      code = (m.state.gp Reg.a0).setWidth 32 := by
  cases h with
  | decode hload hdec =>
      rcases decodeInst_rejects _ _ _ hdec with ⟨msg, h⟩ | ⟨expr, h⟩ <;> cases h
  | inst hload hdec h => cases h
  | call hat h =>
      cases h with
      | exit hn => exact ⟨hat, hn, rfl⟩
      | brk hn h =>
          cases h with
          | alloc h hfails => cases hfails

/-- **The exit code.**  The process exits with a code exactly if the guest has come to an
environment call for `exit` or `exit_group`, and with the code the guest gave. -/
theorem mainLoop_exit_iff (fpu : HostFpu) (os : Os) (n : Nat) (m : Machine) (code : BitVec 32) :
    mainLoop fpu os n m = .error (.exit code) ↔
      ∃ k < n, ∃ m', mainLoop fpu os k m = .ok m' ∧ m'.AtEcall ∧
        ((m'.state.gp Reg.a7).toNat = 93 ∨ (m'.state.gp Reg.a7).toNat = 94) ∧
        code = (m'.state.gp Reg.a0).setWidth 32 := by
  rw [mainLoop_fails_iff]
  simp only [emuStep_error]
  constructor
  · rintro ⟨k, hk, m', hrun, hdies⟩
    exact ⟨k, hk, m', hrun, hdies.exit⟩
  · rintro ⟨k, hk, m', hrun, hat, hn, rfl⟩
    exact ⟨k, hk, m', hrun, .call hat (.exit hn)⟩

/-- The break is never below the base. -/
theorem MmuReachable.base_le {os : Os} {mmu : Mmu} (h : MmuReachable os mmu) :
    mmu.base.toNat ≤ mmu.guestAlloc.toNat := by
  induction h with
  | start entry => exact Nat.le_refl _
  | segment _ hload _ =>
      rw [(mmuLoadSegment_end hload).1]
      exact Nat.le_refl _
  | alloc _ halloc _ =>
      obtain ⟨-, -, hle, hkind⟩ := mmuAlloc_inv halloc
      rw [hkind.moves.1, hkind.moves.2]
      exact hle

theorem mainLoop_reachable {fpu : HostFpu} {os : Os} {n : Nat} {m₀ m : Machine}
    (h₀ : MmuReachable os m₀.mmu) (h : mainLoop fpu os n m₀ = .ok m) : MmuReachable os m.mmu := by
  rw [mainLoop_eq_iter] at h
  exact iter_invariant (I := fun m => MmuReachable os m.mmu) emuStep_reachable h₀ h

/-- The word in front of the machine fails an assertion of the decoder. -/
def Machine.AtAssert (m : Machine) (expr : String) : Prop :=
  ∃ w, m.state.load m.state.pc 4 = .ok w ∧ decodeInst {} w = .error (.assertFail expr)

/-- The guest asks for a break below the base. -/
def Machine.AsksBelow (m : Machine) : Prop :=
  m.AtEcall ∧ m.state.gp Reg.a7 = sysBrkNumber ∧ m.state.gp Reg.a0 ≠ 0 ∧
    (m.state.gp Reg.a0).toNat < m.mmu.base.toNat

theorem dies_assert_iff {os : Os} {m : Machine} (hbase : m.mmu.base.toNat ≤ m.mmu.guestAlloc.toNat)
    {expr : String} :
    Dies os m (.assertFail expr) ↔
      m.AtAssert expr ∨ m.AsksBelow ∧ expr = "addr >= m->mmu.base" := by
  constructor
  · intro h
    cases h with
    | decode hload hdec => exact .inl ⟨_, hload, hdec⟩
    | inst hload hdec h => cases h
    | call hat h =>
        cases h with
        | brk hn h =>
            unfold brkTarget at h
            cases h with
            | below h =>
                by_cases hz : m.state.gp Reg.a0 = 0
                · rw [if_pos hz] at h
                  omega
                · rw [if_neg hz] at h
                  exact .inr ⟨⟨hat, hn, hz, h⟩, rfl⟩
            | alloc h hfails =>
                -- the break that is asked for is above the base, and so is the one there is
                cases hfails with
                | lost hb => omega
                | sinks _ hs =>
                    rw [add_sub_cancel] at hs
                    omega
  · rintro (⟨w, hload, hdec⟩ | ⟨⟨hat, hn, hz, hlt⟩, rfl⟩)
    · exact .decode hload hdec
    · refine .call hat (.brk hn (.below ?_))
      rw [brkTarget, if_neg hz]
      exact hlt

/-- **Failed assertions.**  Of the assertions that a run can meet, those of `machine_step` and of
the allocator never fail: what fails is one of the decoder's, or the one that `sys_brk` makes of
the address it is given. -/
theorem mainLoop_assert_iff {fpu : HostFpu} {os : Os} {prog : Reply (List (BitVec 8))}
    {phdr : List (BitVec 8)} {pad : BitVec 32} {argv : List (List (BitVec 8))} {w : World}
    {m₀ : Machine} (hboot : boot os prog phdr pad argv w = .ok m₀) (n : Nat) (expr : String) :
    mainLoop fpu os n m₀ = .error (.assertFail expr) ↔
      ∃ k < n, ∃ m, mainLoop fpu os k m₀ = .ok m ∧
        (m.AtAssert expr ∨ m.AsksBelow ∧ expr = "addr >= m->mmu.base") := by
  obtain ⟨m₁, hload, hsetup⟩ := boot_inv hboot
  have h₀ : MmuReachable os m₀.mmu := machineSetup_reachable hload hsetup
  have hbase {k : Nat} {m : Machine} (hrun : mainLoop fpu os k m₀ = .ok m) :
      m.mmu.base.toNat ≤ m.mmu.guestAlloc.toNat := (mainLoop_reachable h₀ hrun).base_le
  rw [mainLoop_fails_iff]
  simp only [emuStep_error]
  constructor
  · rintro ⟨k, hk, m, hrun, h⟩
    exact ⟨k, hk, m, hrun, (dies_assert_iff (hbase hrun)).mp h⟩
  · rintro ⟨k, hk, m, hrun, h⟩
    exact ⟨k, hk, m, hrun, (dies_assert_iff (hbase hrun)).mpr h⟩

/-- The program is the half word zero. -/
theorem mainLoop_assert_iff_zero :
    ∃ m₀, bootCode grantingOs [] = .ok m₀ ∧
      (mainLoop default grantingOs 1 m₀ = .error (.assertFail "inst->imm != 0") ↔
        ∃ k < 1, ∃ m, mainLoop default grantingOs k m₀ = .ok m ∧
          (m.AtAssert "inst->imm != 0" ∨
            m.AsksBelow ∧ "inst->imm != 0" = "addr >= m->mmu.base")) := by
  have hok : (bootCode grantingOs []).map (fun _ => ()) = .ok () := by decide +kernel
  obtain ⟨m₀, hboot, -⟩ := map_ok_inv hok
  exact ⟨m₀, hboot, mainLoop_assert_iff hboot 1 _⟩

end Rvemu
