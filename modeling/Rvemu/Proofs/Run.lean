/-
The emulator, one instruction at a time.

The main loop nests three loops: instructions in a block, blocks between two
environment calls, environment calls.  `emuStep` is one instruction of it, with what
follows: leaving the block if there is cause to, and answering the call if it was
one.  The main loop within a budget is that many steps, so that a property of every
run is a property that a step keeps.

What a step can do is then said once.  An instruction other than an environment
call changes registers and the contents of memory; a call may besides that change
what is mapped and the allocator, and only `brk` does.
-/
import Rvemu.Main
import Rvemu.Lib.Steps
import Rvemu.Proofs.Blocks
import Rvemu.Proofs.Frames
import Rvemu.Proofs.Syscalls

namespace Rvemu

open Steps

section

variable (fpu : HostFpu) (os : Os)

/-- The machine with another state and another instruction record. -/
def Machine.withRun (m : Machine) (s : State) (i : Inst) : Machine :=
  { m with state := s, inst := i }

/-- The machine as a block finds it. -/
def Machine.enter (m : Machine) : Machine :=
  { m with state := { m.state with exitReason := .none } }

/-- What follows a block: the next one, after the answer to an environment call. -/
def leaveBlock (m : Machine) : Except Stop Machine :=
  let m' := { m with state := m.state.reenter }
  if m.state.exitReason = .directBranch ∨ m.state.exitReason = .indirectBranch then .ok m'.enter
  else (handleSyscall os m').map Machine.enter

/-- One instruction of the main loop and what follows it. -/
def emuStep (m : Machine) : Except Stop Machine := do
  let (s, inst) ← execIter fpu m.state m.inst
  if inst.continueExec then leaveBlock os (m.withRun s inst)
  else .ok (m.withRun { s with pc := s.pc + inst.length } inst)

end

variable {fpu : HostFpu} {os : Os}

theorem leaveBlock_branch {m : Machine}
    (h : m.state.exitReason = .directBranch ∨ m.state.exitReason = .indirectBranch) :
    leaveBlock os m = .ok { m with state := m.state.reenter : Machine }.enter := if_pos h

theorem leaveBlock_call {m : Machine}
    (h : ¬(m.state.exitReason = .directBranch ∨ m.state.exitReason = .indirectBranch)) :
    leaveBlock os m =
      (handleSyscall os { m with state := m.state.reenter }).map Machine.enter := if_neg h

/-! ### The main loop, flattened -/

/-- Many steps from the middle of a block: the rest of the block, and what follows it. -/
theorem iter_block (n : Nat) (m : Machine) (s : State) (i : Inst) :
    iter (emuStep fpu os) n (m.withRun s i) =
      execBlockInterp fpu n s i >>= fun
        | .running (s, i) => .ok (m.withRun s i)
        | .left b (s, i) => leaveBlock os (m.withRun s i) >>= iter (emuStep fpu os) b := by
  induction n generalizing s i with
  | zero => rfl
  | succ n ih =>
      rw [iter, emuStep, execBlockInterp]
      show (execIter fpu s i >>= _) >>= _ = _
      cases execIter fpu s i with
      | error e => rfl
      | ok p =>
          obtain ⟨s', i'⟩ := p
          simp only [bind, Except.bind]
          by_cases hc : i'.continueExec = true
          · rw [if_pos hc, if_pos hc]
            rfl
          · rw [if_neg hc, if_neg hc]
            exact ih _ i'

/-- What is left of a budget is less than it was. -/
theorem bareRounds_left_lt {rounds n b : Nat} {m m' : Machine}
    (h : bareRounds fpu rounds n m = .ok (.left b m')) : b < n := by
  induction rounds generalizing n m with
  | zero => cases h
  | succ rounds ih =>
      have hrun := execBlockInterp_run fpu n { m.state with exitReason := .none } m.inst
      rw [bareRounds] at h
      generalize execBlockInterp fpu n { m.state with exitReason := .none } m.inst = r at hrun h
      cases hrun with
      | running hs => cases h
      | stops hk hs he => cases h
      | @left k b' f₀ i i' s hk hs hl he =>
          simp only [bind, Except.bind] at h
          split at h
          · exact (ih h).trans (by omega)
          · cases h
            omega

/-- Many steps from the start of a block: the rounds of `machine_step`, and the answer. -/
theorem iter_bareRounds {rounds n : Nat} (hlt : n < rounds) (m : Machine) :
    iter (emuStep fpu os) n m.enter =
      bareRounds fpu rounds n m >>= fun
        | .running m => .ok m
        | .left b m => (handleSyscall os m).map Machine.enter >>= iter (emuStep fpu os) b := by
  induction rounds generalizing n m with
  | zero => omega
  | succ rounds ih =>
      have hrun := execBlockInterp_run fpu n { m.state with exitReason := .none } m.inst
      rw [bareRounds, show m.enter = m.withRun { m.state with exitReason := .none } m.inst from rfl,
        iter_block]
      generalize execBlockInterp fpu n { m.state with exitReason := .none } m.inst = r at hrun ⊢
      cases hrun with
      | running h => rfl
      | stops hk h hs => rfl
      | @left k b f₀ i i' s hk h hs hl he =>
          simp only [bind, Except.bind]
          by_cases hbranch : s.exitReason = .directBranch ∨ s.exitReason = .indirectBranch
          · rw [if_pos hbranch, leaveBlock_branch (m := m.withRun s i') hbranch]
            exact ih (by omega) _
          · rw [if_neg hbranch, leaveBlock_call (m := m.withRun s i') hbranch]
            rfl

/-- More rounds than instructions are never the limit. -/
theorem mainRounds_eq_iter (fpu : HostFpu) (os : Os) {rounds n : Nat} (m : Machine)
    (hlt : n < rounds) : mainRounds fpu os rounds n m = iter (emuStep fpu os) n m.enter := by
  induction rounds generalizing n m with
  | zero => omega
  | succ rounds ih =>
      rw [mainRounds, machineStep, machineRounds_bare, iter_bareRounds (Nat.lt_succ_self n)]
      cases hr : bareRounds fpu (n + 1) n m with
      | error e => rfl
      | ok r =>
          cases r with
          | running m' => rfl
          | left b m' =>
              have hb : b < n := bareRounds_left_lt hr
              simp only [bind, Except.bind]
              cases handleSyscall os m' with
              | error e => rfl
              | ok m₁ => exact ih m₁ (by omega)

/-- **The main loop is its steps.**  Within a budget of `n` instructions it makes `n` of them. -/
theorem mainLoop_eq_iter (fpu : HostFpu) (os : Os) (n : Nat) (m : Machine) :
    mainLoop fpu os n m = iter (emuStep fpu os) n m.enter :=
  mainRounds_eq_iter fpu os m (Nat.lt_succ_self n)

/-! ### What a step can do -/

/-- What one pass through the loop body does: `r` is the instruction it executes. -/
structure Executes (s : State) (prev : Inst) (s' : State) (i : Inst) (r : Inst) : Prop where
  decodes : ∃ raw, s.load s.pc 4 = .ok raw ∧ decodeInst prev raw = .ok r
  type : i.type = r.type
  rd : i.rd = r.rd
  prot : s'.world.mem.prot = s.world.mem.prot
  fpRegs : ∃ v, r.type.fpEffect.Allows (s.fp r.rd) v ∧
    s'.fpRegs = Function.update s.fpRegs r.rd v

theorem execIter_executes {s s' : State} {prev i : Inst}
    (h : execIter fpu s prev = .ok (s', i)) : ∃ r, Executes s prev s' i r := by
  obtain ⟨raw, hload, h⟩ := bind_ok_inv h
  obtain ⟨r, hdec, h⟩ := bind_ok_inv h
  obtain ⟨⟨s₁, i₁⟩, hrun, h⟩ := bind_ok_inv h
  cases h
  rw [func_eq_handler] at hrun
  have hw := handler_writes fpu r.type
  obtain ⟨htype, hrd⟩ := hw.record hrun
  have hprot := hw.prot hrun
  have hfp := hw.fpRegs hrun
  exact ⟨r, ⟨raw, hload, hdec⟩, htype, hrd, hprot, hfp⟩

/-- The instruction in front of the machine is the environment call. -/
def Machine.AtEcall (m : Machine) : Prop := m.state.load m.state.pc 4 = .ok 0x73

/-- The pass that executes an environment call. -/
theorem execIter_call {m : Machine} (hat : m.AtEcall) :
    execIter fpu m.state m.inst =
      .ok (({ m.state with exitReason := .ecall, reenterPc := m.state.pc + 4 } : State).setGp
        Reg.zero 0, ecallRecord m.inst) := by
  unfold execIter execWord
  rw [hat, ok_bind, decodeInst_ecall, ok_bind, func_eq_handler]
  rfl

/-- A pass that ends with the exit reason of an environment call executed one. -/
theorem execIter_ecall {s s' : State} {prev i : Inst} (h : execIter fpu s prev = .ok (s', i))
    (hc : i.continueExec = true)
    (he : ¬(s'.exitReason = .directBranch ∨ s'.exitReason = .indirectBranch)) :
    s.load s.pc 4 = .ok 0x73 ∧ s'.gpRegs = Function.update s.gpRegs Reg.zero 0 ∧
      s'.world = s.world := by
  obtain ⟨raw, hload, h⟩ := bind_ok_inv h
  obtain ⟨r, hdec, h⟩ := bind_ok_inv h
  obtain ⟨⟨s₁, i₁⟩, hrun, h⟩ := bind_ok_inv h
  cases h
  rw [func_eq_handler] at hrun
  obtain ⟨i₀, -, hfresh⟩ := decodeInst_fresh hdec
  have hty : r.type = .ecall := by
    rw [← hfresh.type]
    cases handler_outcome hfresh (decodeInst_continueExec hdec) hrun with
    | falls hl hc' => rw [hc'] at hc; cases hc
    | leaves hl hc' hfor =>
        rcases hfor with ⟨-, hty⟩ | ⟨hbranch, -⟩
        · exact hty
        · exact absurd hbranch he
  have hraw : raw = 0x73 := by
    by_contra hne
    exact decodeInst_type_ne hne hdec hty
  rw [hty] at hrun
  cases hrun
  exact ⟨by rw [hload, hraw], rfl, rfl⟩

/-- An answered call, taken apart. -/
theorem handleSyscall_inv {m m' : Machine} (h : handleSyscall os m = .ok m') :
    ∃ r m₁, doSyscall os m (m.state.gp Reg.a7) = .ok (r, m₁) ∧
      m' = { m₁ with state := m₁.state.setGp Reg.a0 r } := by
  obtain ⟨⟨r, m₁⟩, hdo, h⟩ := bind_ok_inv h
  exact ⟨r, m₁, hdo, (Except.ok.inj h).symm⟩

/-- What a step of the emulator does to the mappings. -/
inductive StepKind (os : Os) (m m' : Machine) : Prop
  /-- Nothing: an instruction that calls for nothing, or a call other than `brk`. -/
  | quiet (hmmu : m'.mmu = m.mmu) (hprot : m'.state.world.mem.prot = m.state.world.mem.prot)
  /-- What `brk` does: a request to move the program break. -/
  | brk (hat : m.AtEcall) (hnum : m.state.gp Reg.a7 = sysBrkNumber)
      {r : Word} {m₁ m₂ : Machine} (hbrk : sysBrk os m₁ = .ok (r, m₂))
      (ha0 : m₁.state.gp Reg.a0 = m.state.gp Reg.a0)
      (hworld : m₁.state.world = m.state.world) (hmmu : m₁.mmu = m.mmu)
      (hworld' : m'.state.world = m₂.state.world) (hmmu' : m'.mmu = m₂.mmu)

/-- What follows a block that an environment call ended. -/
theorem call_inv {m m₁ m' : Machine} (hat : m.AtEcall)
    (hgp : m₁.state.gpRegs = Function.update m.state.gpRegs Reg.zero 0)
    (hworld : m₁.state.world = m.state.world) (hmmu : m₁.mmu = m.mmu)
    (h : (handleSyscall os m₁).map Machine.enter = .ok m') :
    m'.state.fpRegs = m₁.state.fpRegs ∧ m'.inst = m₁.inst ∧ StepKind os m m' := by
  cases hcall : handleSyscall os m₁ with
  | error e =>
      rw [hcall] at h
      cases h
  | ok m₂ =>
      rw [hcall] at h
      cases h
      obtain ⟨r, m₃, hdo, rfl⟩ := handleSyscall_inv hcall
      have hgp' : ∀ x, x ≠ Reg.zero → m₁.state.gp x = m.state.gp x := by
        intro x hx
        show m₁.state.gpRegs x = m.state.gpRegs x
        rw [hgp, Function.update_of_ne hx]
      rcases doSyscall_cases hdo with hsame | ⟨hnum, hbrk⟩
      · refine ⟨hsame.fpRegs, hsame.inst, .quiet (hsame.mmu.trans hmmu) ?_⟩
        exact hsame.prot.trans (congrArg (fun w : World => w.mem.prot) hworld)
      · have hframe := sysBrk_frame hbrk
        refine ⟨hframe.fpRegs, hframe.inst, .brk hat ?_ hbrk ?_ hworld hmmu rfl rfl⟩
        · rw [← hgp' Reg.a7 (by decide), hnum]
        · exact hgp' Reg.a0 (by decide)

/-- **A step, taken apart.**  It executes one instruction; the floating-point registers and the
record are what that leaves; and only an accepted `brk` changes the mappings. -/
theorem emuStep_inv {m m' : Machine} (h : emuStep fpu os m = .ok m') :
    ∃ s i r, Executes m.state m.inst s i r ∧ m'.state.fpRegs = s.fpRegs ∧ m'.inst = i ∧
      StepKind os m m' := by
  obtain ⟨⟨s, i⟩, hiter, h⟩ := bind_ok_inv h
  obtain ⟨r, hexec⟩ := execIter_executes hiter
  refine ⟨s, i, r, hexec, ?_⟩
  dsimp only at h
  by_cases hc : i.continueExec = true
  · rw [if_pos hc] at h
    by_cases hbranch : s.exitReason = .directBranch ∨ s.exitReason = .indirectBranch
    · rw [leaveBlock_branch (m := m.withRun s i) hbranch] at h
      cases h
      exact ⟨rfl, rfl, .quiet rfl hexec.prot⟩
    · obtain ⟨hat, hgp, hworld⟩ := execIter_ecall hiter hc hbranch
      rw [leaveBlock_call (m := m.withRun s i) hbranch] at h
      refine call_inv hat ?_ ?_ ?_ h
      · exact hgp
      · exact hworld
      · rfl
  · rw [if_neg hc] at h
    cases h
    exact ⟨rfl, rfl, .quiet rfl hexec.prot⟩

end Rvemu
