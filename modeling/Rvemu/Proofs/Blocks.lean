/-
Executing by blocks is executing instruction by instruction.

The control state of the emulator is spread over the record's `continueExec`, the
exit reason, the re-entry address and the program counter, and three places write
it.  `Outcome` says what they hold after one instruction: either the block goes on,
nothing has been touched and the next address is past the instruction, or the block
is left, by an instruction that transfers control, with a reason and with the
address where the flat loop goes on.

From the single step follows the block, by induction on the budget, and from the
block `machine_step`, by induction on the rounds.
-/
import Rvemu.Proofs.Decode
import Rvemu.Proofs.Handlers
import Rvemu.Spec.Flat
import Rvemu.Machine

namespace Rvemu

open Spec

/-! ### What the previous record can change -/

/-- Only `ecall` keeps anything of the record it is decoded into. -/
theorem decodeInst_prev {w : BitVec 32} (hw : w ≠ 0x73) (prev prev' : Inst) :
    decodeInst prev w = decodeInst prev' w := by
  have hsystem : decodeSystem prev w = decodeSystem prev' w := by
    unfold decodeSystem
    rw [if_neg hw, if_neg hw]
  unfold decodeInst decodeQuadrant3
  rw [hsystem]

/-- A 32-bit instruction other than the environment call. -/
theorem decodeInst_decoded {w : BitVec 32} {prev i : Inst} (hq : (quadrant w).toNat = 3)
    (hw : w ≠ 0x73) (h : decodeInst prev w = .ok i) : i = decoded i.type w ∧ i.type ≠ .ecall := by
  rw [decodeInst_quadrant3 hq] at h
  rcases decodeQuadrant3_inv hq h with ⟨hf, hi⟩ | ⟨hecall, -⟩ | ⟨-, hi⟩
  · refine ⟨hi, fun ht => hw ?_⟩
    rw [ht] at hf
    exact hf
  · exact absurd hecall hw
  · rw [hi]
    exact ⟨rfl, nofun⟩

/-- One word alone is decoded as an environment call. -/
theorem decodeInst_type_ne {w : BitVec 32} {prev i : Inst} (hw : w ≠ 0x73)
    (h : decodeInst prev w = .ok i) : i.type ≠ .ecall := by
  by_cases hq : (quadrant w).toNat = 3
  · exact (decodeInst_decoded hq hw h).2
  · obtain ⟨f, hf, -⟩ := decodeInst_compressed hq h
    rw [decodeInst_of_legal hf rfl] at h
    cases h
    cases f <;> nofun

/-- The decoder marks the jumps and the environment call as ending a block. -/
theorem decodeInst_continueExec {w : BitVec 32} {prev i : Inst} (h : decodeInst prev w = .ok i) :
    i.continueExec = (i.type.isJump || i.type == .ecall) := by
  by_cases hw : w = 0x73
  · rw [hw, decodeInst_ecall] at h
    cases h
    rfl
  · by_cases hq : (quadrant w).toNat = 3
    · obtain ⟨hi, ht⟩ := decodeInst_decoded hq hw h
      have hcont : i.continueExec = i.type.isJump := congrArg Inst.continueExec hi
      rw [hcont, beq_false_of_ne ht, Bool.or_false]
    · obtain ⟨f, hf, -⟩ := decodeInst_compressed hq h
      rw [decodeInst_of_legal hf rfl] at h
      cases h
      cases f <;> rfl

/-- `i` is the record of a fresh decoding where `r` is that of any: the same, but for the
environment call. -/
def Fresh (i r : Inst) : Prop :=
  i = r ∧ r.type ≠ .ecall ∨ i = ecallRecord {} ∧ r.type = .ecall

theorem Fresh.type {i r : Inst} (h : Fresh i r) : i.type = r.type := by
  rcases h with ⟨rfl, -⟩ | ⟨rfl, ht⟩
  · rfl
  · exact ht.symm

theorem decodeInst_fresh {w : BitVec 32} {prev r : Inst} (h : decodeInst prev w = .ok r) :
    ∃ i, decodeInst {} w = .ok i ∧ Fresh i r := by
  by_cases hw : w = 0x73
  · rw [hw, decodeInst_ecall] at h
    cases h
    exact ⟨ecallRecord {}, by rw [hw, decodeInst_ecall], .inr ⟨rfl, rfl⟩⟩
  · exact ⟨r, by rw [← h]; exact decodeInst_prev hw _ _, .inl ⟨rfl, decodeInst_type_ne hw h⟩⟩

/-! ### What the control variables can change -/

/-- What a program can observe of the state. -/
def State.flat (s : State) : Flat where
  gpRegs := s.gpRegs
  fpRegs := s.fpRegs
  pc := s.pc
  world := s.world

/-- Two results with the same registers and the same world. -/
def SameRegs (r r' : State × Inst) : Prop :=
  r.1.gpRegs = r'.1.gpRegs ∧ r.1.fpRegs = r'.1.fpRegs ∧ r.1.world = r'.1.world

theorem branchFunc_control (expr : Word → Word → Bool) (s : State) (i : Inst) (e : ExitReason)
    (p : Word) : Agree SameRegs (branchFunc expr s i) (branchFunc expr (s.withControl e p) i) := by
  rw [branchFunc_eq, branchFunc_eq]
  show SameRegs (if expr (s.gp i.rs1) (s.gp i.rs2) then _ else _)
    (if expr (s.gp i.rs1) (s.gp i.rs2) then _ else _)
  cases expr (s.gp i.rs1) (s.gp i.rs2) <;> exact ⟨rfl, rfl, rfl⟩

/-- The registers and the world do not depend on the control variables. -/
theorem handler_control (fpu : HostFpu) (t : InstType) (s : State) (i : Inst) (e : ExitReason)
    (p : Word) :
    Agree SameRegs (handler fpu t s i) (handler fpu t (s.withControl e p) i) := by
  by_cases ht : t.isControl = false
  · have hplain := func_plain fpu ht
    rw [← func_eq_handler, hplain.controlBlind]
    cases func fpu t s i with
    | error err => rfl
    | ok q => exact ⟨rfl, rfl, rfl⟩
  · cases t <;> try exact absurd rfl ht
    case beq | bne | blt | bge | bltu | bgeu =>
      simp only [handler]
      exact branchFunc_control _ s i e p
    case jal => exact ⟨rfl, rfl, rfl⟩
    case ecall => exact ⟨rfl, rfl, rfl⟩
    case jalr =>
      simp only [handler, funcJalr_eq]
      show Agree SameRegs _ (if i.jalrTarget s = 0 then
        (s.load s.pc 4).map fun w => (jalrState (s.withControl e p) i (jalrReport s i w), i)
        else .ok (jalrState (s.withControl e p) i [], i))
      by_cases hz : i.jalrTarget s = 0
      · rw [if_pos hz, if_pos hz]
        cases s.load s.pc 4 with
        | error err => rfl
        | ok w => exact ⟨rfl, rfl, rfl⟩
      · rw [if_neg hz, if_neg hz]
        exact ⟨rfl, rfl, rfl⟩

/-! ### One instruction -/

/-- The instruction transfers control: a jump, the environment call, or a branch taken. -/
def Leaves (i : Inst) (gpRegs : RegNo → Word) : Prop :=
  i.type.isJump = true ∨ i.type = .ecall ∨
    branchTaken i.type (gpRegs i.rs1) (gpRegs i.rs2) = true

/-- The rest of what transfers control are the branches. -/
theorem handler_branch (fpu : HostFpu) {t : InstType} (ht : t.isControl ≠ false)
    (hjump : ¬t.isJump = true) (hecall : t ≠ .ecall) :
    handler fpu t = branchFunc (branchTaken t) := by
  cases t <;> try exact absurd rfl ht
  case jal | jalr => exact absurd rfl hjump
  case ecall => exact absurd rfl hecall
  all_goals rfl

/-- A branch that is not taken changes nothing. -/
theorem branch_not_taken {expr : Word → Word → Bool} {s s' : State} {i i' : Inst}
    (h : branchFunc expr s i = .ok (s', i')) (hexpr : ¬expr (s.gp i.rs1) (s.gp i.rs2) = true) :
    s' = s := by
  rw [branchFunc_eq, if_neg hexpr] at h
  cases h
  rfl

/-- Only what leaves the block writes the control variables. -/
theorem handler_keepsControl {fpu : HostFpu} {s s' : State} {i i' : Inst}
    (h : handler fpu i.type s i = .ok (s', i')) (hstays : ¬Leaves i s.gpRegs) :
    s'.pc = s.pc ∧ s'.exitReason = s.exitReason ∧ s'.reenterPc = s.reenterPc := by
  by_cases ht : i.type.isControl = false
  · rw [← func_eq_handler] at h
    exact ((func_plain fpu ht).keeps h).2
  · unfold Leaves at hstays
    simp only [not_or] at hstays
    obtain ⟨hjump, hecall, htaken⟩ := hstays
    rw [handler_branch fpu ht hjump hecall] at h
    rw [branch_not_taken h htaken]
    exact ⟨rfl, rfl, rfl⟩

/-- The reason for which an instruction leaves its block. -/
def LeavesFor (i : Inst) (e : ExitReason) : Prop :=
  e = .ecall ∧ i.type = .ecall ∨
    (e = .directBranch ∨ e = .indirectBranch) ∧ i.type ≠ .ecall

/-- What the control variables hold after `i` was executed in state `s`. -/
inductive Outcome (s : State) (i : Inst) (s' : State) (i' : Inst) : Prop
  | falls (h : ¬Leaves i s.gpRegs) (hc : i'.continueExec = false)
      (he : s'.exitReason = s.exitReason) (hpc : s'.pc + i'.length = nextPc i s.gpRegs s.pc)
  | leaves (h : Leaves i s.gpRegs) (hc : i'.continueExec = true)
      (he : LeavesFor i s'.exitReason) (hpc : s'.reenterPc = nextPc i s.gpRegs s.pc)

/-- An instruction that stays in its block and moves nothing. -/
theorem outcome_falls {s s' : State} {i : Inst}
    (hcont : i.continueExec = (i.type.isJump || i.type == .ecall)) (h : ¬Leaves i s.gpRegs)
    (he : s'.exitReason = s.exitReason) (hpc : s'.pc = s.pc) : Outcome s i s' i := by
  unfold Leaves at h
  simp only [not_or, Bool.not_eq_true] at h
  obtain ⟨hj, hecall, htaken⟩ := h
  refine .falls (by simp [Leaves, hj, hecall, htaken]) (by simp [hcont, hj, hecall]) he ?_
  rw [hpc]
  unfold nextPc
  split
  · rename_i hty
    rw [hty] at hj
    cases hj
  · rename_i hty
    rw [hty] at hj
    cases hj
  · rw [htaken]
    rfl

theorem branchFunc_outcome {expr : Word → Word → Bool} {s s' : State} {i i' : Inst}
    (hcont : i.continueExec = (i.type.isJump || i.type == .ecall))
    (hexpr : branchTaken i.type = expr) (hj : i.type.isJump = false) (he : i.type ≠ .ecall)
    (h : branchFunc expr s i = .ok (s', i')) : Outcome s i s' i' := by
  rw [branchFunc_eq, ← hexpr] at h
  have h' := Except.ok.inj h
  by_cases htaken : branchTaken i.type (s.gpRegs i.rs1) (s.gpRegs i.rs2) = true
  · have hnext : nextPc i s.gpRegs s.pc = s.pc + i.imm.signExtend 64 := by
      unfold nextPc
      split
      · rfl
      · rename_i hty
        rw [hty] at hj
        cases hj
      · rw [if_pos htaken]
    rw [if_pos (show branchTaken i.type (s.gp i.rs1) (s.gp i.rs2) = true from htaken)] at h'
    cases h'
    exact .leaves (.inr (.inr htaken)) rfl (.inr ⟨.inl rfl, he⟩) hnext.symm
  · rw [if_neg (show ¬branchTaken i.type (s.gp i.rs1) (s.gp i.rs2) = true from htaken)] at h'
    cases h'
    refine outcome_falls hcont ?_ rfl rfl
    rintro (hjump | hecall | htaken')
    · rw [hj] at hjump
      cases hjump
    · exact he hecall
    · exact htaken htaken'

/-- An instruction that is not one of control stays in its block. -/
theorem not_leaves_of_plain {i : Inst} (ht : i.type.isControl = false) (gpRegs : RegNo → Word) :
    ¬Leaves i gpRegs := by
  unfold Leaves
  generalize i.type = t at ht ⊢
  cases t
  case beq | bne | blt | bge | bltu | bgeu | jalr | jal | ecall => cases ht
  all_goals simp [InstType.isJump, branchTaken]

theorem funcJal_outcome {s s' : State} {i i' : Inst} (hty : i.type = .jal)
    (hcont : i.continueExec = true) (h : funcJal s i = .ok (s', i')) : Outcome s i s' i' := by
  have hnext : nextPc i s.gpRegs s.pc = s.pc + i.imm.signExtend 64 := by
    unfold nextPc
    rw [hty]
  rw [funcJal_eq] at h
  cases h
  exact .leaves (.inl (by rw [hty]; rfl)) hcont (.inr ⟨.inl rfl, by rw [hty]; nofun⟩) hnext.symm

theorem funcJalr_outcome {s s' : State} {i i' : Inst} (hty : i.type = .jalr)
    (hcont : i.continueExec = true) (h : funcJalr s i = .ok (s', i')) : Outcome s i s' i' := by
  have hnext : nextPc i s.gpRegs s.pc = i.jalrTarget s := by
    unfold nextPc
    rw [hty]
    rfl
  obtain ⟨rfl, lines, rfl⟩ := funcJalr_inv h
  exact .leaves (.inl (by rw [hty]; rfl)) hcont (.inr ⟨.inr rfl, by rw [hty]; nofun⟩) hnext.symm

/-- The record of an environment call may be stale, but for its type; `i` is a fresh one. -/
theorem funcEcall_outcome {s s' : State} {i r r' : Inst} (hty : i.type = .ecall)
    (hlen : i.rvc = false) (hcont : r.continueExec = true) (h : funcEcall s r = .ok (s', r')) :
    Outcome s i s' r' := by
  have hnext : nextPc i s.gpRegs s.pc = s.pc + 4 := by
    unfold nextPc Inst.length
    rw [hty, hlen]
    rfl
  rw [funcEcall_eq] at h
  cases h
  exact .leaves (.inr (.inl hty)) hcont (.inl ⟨rfl, hty⟩) hnext.symm

/-- What the control variables hold after any handler. -/
theorem handler_outcome {fpu : HostFpu} {s s' : State} {i r r' : Inst} (hfresh : Fresh i r)
    (hcont : r.continueExec = (r.type.isJump || r.type == .ecall))
    (h : handler fpu r.type s r = .ok (s', r')) : Outcome s i s' r' := by
  rcases hfresh with ⟨rfl, hecall⟩ | ⟨rfl, hecall⟩
  · by_cases ht : i.type.isControl = false
    · rw [← func_eq_handler] at h
      obtain ⟨rfl, hpc, he, -⟩ := (func_plain fpu ht).keeps h
      exact outcome_falls hcont (not_leaves_of_plain ht _) he hpc
    · cases hi : i.type <;> rw [hi] at ht hecall <;> try exact absurd rfl ht
      all_goals rw [hi] at h; simp only [handler] at h
      case beq | bne | blt | bge | bltu | bgeu =>
        exact branchFunc_outcome hcont (by rw [hi]; rfl) (by rw [hi]; rfl) (by rw [hi]; decide) h
      case jalr => exact funcJalr_outcome hi (by rw [hcont, hi]; rfl) h
      case jal => exact funcJal_outcome hi (by rw [hcont, hi]; rfl) h
      case ecall => exact absurd rfl hecall
  · rw [hecall] at h
    simp only [handler] at h
    exact funcEcall_outcome rfl rfl (by rw [hcont, hecall]; rfl) h

/-- Resetting `x0` touches no control variable. -/
theorem Outcome.setGp {s s' : State} {i i' : Inst} (h : Outcome s i s' i') (r : RegNo) (v : Word) :
    Outcome s i (s'.setGp r v) i' := by
  cases h with
  | falls h hc he hpc => exact .falls h hc he hpc
  | leaves h hc he hpc => exact .leaves h hc he hpc

/-- The registers and the world depend neither on the control variables nor on what a record
is decoded into. -/
theorem handler_flat (fpu : HostFpu) {i r : Inst} (h : Fresh i r) (s : State) :
    Agree SameRegs (handler fpu r.type s r) (handler fpu i.type s.flat.toState i) := by
  rcases h with ⟨rfl, -⟩ | ⟨rfl, ht⟩
  · exact handler_control fpu i.type s i .none 0
  · rw [ht]
    exact ⟨rfl, rfl, rfl⟩

/-- One pass through the loop body beside one step of the flat loop. -/
def PassMatches (s : State) (p : State × Inst) (q : Inst × Flat) : Prop :=
  p.1.gpRegs = q.2.gpRegs ∧ p.1.fpRegs = q.2.fpRegs ∧ p.1.world = q.2.world ∧
    q.2.pc = nextPc q.1 s.gpRegs s.pc ∧ Outcome s q.1 p.1 p.2

/-- A pass through the loop body does what the flat step does, whatever it found in the
control variables and in the record. -/
theorem execIter_flatStep (fpu : HostFpu) (s : State) (prev : Inst) :
    Agree (PassMatches s) (execIter fpu s prev) (flatStep fpu s.flat) := by
  have hload : s.flat.toState.load s.flat.pc 4 = s.load s.pc 4 := rfl
  unfold execIter execWord flatStep
  rw [hload]
  cases s.load s.pc 4 with
  | error e => rfl
  | ok raw =>
      simp only [bind, Except.bind]
      cases hr : decodeInst prev raw with
      | error e =>
          have hraw : raw ≠ 0x73 := by
            rintro rfl
            rw [decodeInst_ecall] at hr
            cases hr
          rw [decodeInst_prev hraw {} prev, hr]
          rfl
      | ok r =>
          obtain ⟨i, hi, hfresh⟩ := decodeInst_fresh hr
          simp only [hi, func_eq_handler]
          rcases (handler_flat fpu hfresh s).cases with
            ⟨e, hrun, hrun'⟩ | ⟨p, q, hrun, hrun', hgp, hfp, hworld⟩
          · rw [hrun, hrun']
            rfl
          · have hout := handler_outcome hfresh (decodeInst_continueExec hr) hrun
            rw [hrun, hrun']
            refine ⟨?_, hfp, hworld, rfl, hout.setGp _ _⟩
            show Function.update p.1.gpRegs Reg.zero 0 = Function.update q.1.gpRegs Reg.zero 0
            rw [hgp]

/-! ### One block -/

/-- `k` instructions lead from `f` to `f'`, none of which transfers control. -/
inductive Straight (fpu : HostFpu) : Nat → Flat → Flat → Prop
  | refl (f : Flat) : Straight fpu 0 f f
  | step {k : Nat} {i : Inst} {f f₁ f' : Flat} (hs : flatStep fpu f = .ok (i, f₁))
      (hl : ¬Leaves i f.gpRegs) (h : Straight fpu k f₁ f') : Straight fpu (k + 1) f f'

/-- The flat loop goes through a straight run without a stop. -/
theorem Straight.flatLoop_eq {fpu : HostFpu} {k : Nat} {f f' : Flat} (h : Straight fpu k f f')
    (n : Nat) : flatLoop fpu (k + n) f = flatLoop fpu n f' := by
  induction h with
  | refl f => rw [Nat.zero_add]
  | @step k i f f₁ f' hs hl _ ih =>
      have hty : i.type ≠ .ecall := fun ht => hl (.inr (.inl ht))
      rw [← ih, Nat.add_right_comm, flatLoop, hs]
      simp only [bind, Except.bind, if_neg hty]

/-- Where `machine_step` goes on after a block. -/
def State.reenter (s : State) : State := { s with pc := s.reenterPc }

/-- What a block of at most `n` instructions from `f` comes to, in terms of the flat loop. -/
inductive BlockRun (fpu : HostFpu) (n : Nat) (f : Flat) : Except Stop (Loop (State × Inst)) → Prop
  /-- The budget is spent in the middle of the block. -/
  | running {s : State} {i : Inst} (h : Straight fpu n f s.flat) :
      BlockRun fpu n f (.ok (.running (s, i)))
  /-- The block is left right after an instruction that transfers control. -/
  | left {k b : Nat} {f₀ : Flat} {i i' : Inst} {s : State} (hk : k + 1 + b = n)
      (h : Straight fpu k f f₀) (hs : flatStep fpu f₀ = .ok (i, s.reenter.flat))
      (hl : Leaves i f₀.gpRegs) (he : LeavesFor i s.exitReason) :
      BlockRun fpu n f (.ok (.left b (s, i')))
  /-- The emulator stops at an instruction. -/
  | stops {k : Nat} {f₀ : Flat} {e : Stop} (hk : k < n) (h : Straight fpu k f f₀)
      (hs : flatStep fpu f₀ = .error e) : BlockRun fpu n f (.error e)

theorem BlockRun.step {fpu : HostFpu} {n : Nat} {f f₁ : Flat} {i : Inst}
    {r : Except Stop (Loop (State × Inst))} (hs : flatStep fpu f = .ok (i, f₁))
    (hl : ¬Leaves i f.gpRegs) (h : BlockRun fpu n f₁ r) : BlockRun fpu (n + 1) f r := by
  cases h with
  | running h => exact .running (.step hs hl h)
  | left hk h hs' hl' he => exact .left (by omega) (.step hs hl h) hs' hl' he
  | stops hk h hs' => exact .stops (by omega) (.step hs hl h) hs'

/-- A block is a straight run and the instruction that ends it. -/
theorem execBlockInterp_run (fpu : HostFpu) (n : Nat) (s : State) (prev : Inst) :
    BlockRun fpu n s.flat (execBlockInterp fpu n s prev) := by
  induction n generalizing s prev with
  | zero => exact .running (.refl _)
  | succ n ih =>
      rw [execBlockInterp]
      rcases (execIter_flatStep fpu s prev).cases with
        ⟨e, hiter, hflat⟩ | ⟨⟨s', i'⟩, ⟨i, f'⟩, hiter, hflat, hgp, hfp, hworld, hnext, hout⟩
      · rw [hiter]
        exact .stops (Nat.succ_pos n) (.refl _) hflat
      · rw [hiter]
        simp only [bind, Except.bind]
        cases hout with
        | falls hl hc he hpc =>
            have hf : { s' with pc := s'.pc + i'.length : State }.flat = f' := by
              cases f'
              simp_all [State.flat]
            rw [hc, if_neg nofun]
            refine .step hflat hl ?_
            rw [← hf]
            exact ih _ i'
        | leaves hl hc he hpc =>
            have hf : s'.reenter.flat = f' := by
              cases f'
              simp_all [State.flat, State.reenter]
            rw [hc, if_pos rfl]
            exact .left (by omega) (.refl _) (by rw [hf]; exact hflat) hl he

/-! ### Blocks after blocks -/

/-- The loop of `machine_step` without its assertions. -/
def bareRounds (fpu : HostFpu) : Nat → Nat → Machine → Except Stop (Loop Machine)
  | 0, _, m => .ok (.running m)
  | rounds + 1, budget, m => do
      let s := { m.state with exitReason := .none }
      match ← execBlockInterp fpu budget s m.inst with
      | .running (s, inst) => .ok (.running { m with state := s, inst := inst })
      | .left budget (s, inst) =>
          if s.exitReason = .directBranch ∨ s.exitReason = .indirectBranch then
            bareRounds fpu rounds budget { m with state := s.reenter, inst := inst }
          else .ok (.left budget { m with state := s.reenter, inst := inst })

/-- The flat loop stops where the block does. -/
theorem flatLoop_stops {fpu : HostFpu} {k n : Nat} {f f₀ : Flat} {e : Stop} (hk : k < n)
    (h : Straight fpu k f f₀) (hs : flatStep fpu f₀ = .error e) :
    flatLoop fpu n f = .error e := by
  obtain ⟨d, rfl⟩ : ∃ d, n = k + (d + 1) := ⟨n - k - 1, by omega⟩
  rw [h.flatLoop_eq, flatLoop, hs]
  rfl

/-- The flat loop goes on where the block is left, unless at an environment call. -/
theorem flatLoop_left {fpu : HostFpu} {k b n : Nat} {f f₀ f₁ : Flat} {i : Inst}
    (hk : k + 1 + b = n) (h : Straight fpu k f f₀) (hs : flatStep fpu f₀ = .ok (i, f₁)) :
    flatLoop fpu n f = if i.type = .ecall then .ok (.left b f₁) else flatLoop fpu b f₁ := by
  rw [← hk, show k + 1 + b = k + (b + 1) by omega, h.flatLoop_eq, flatLoop, hs]
  rfl

/-- The reasons a block is left for are those the assertions allow. -/
theorem LeavesFor.asserts {i : Inst} {e : ExitReason} (h : LeavesFor i e) :
    e ≠ .none ∧ (¬(e = .directBranch ∨ e = .indirectBranch) → e = .ecall) := by
  rcases h with ⟨rfl, -⟩ | ⟨rfl | rfl, -⟩ <;> simp

/-- The assertions of `machine_step` never fail: it does the same without them. -/
theorem machineRounds_bare (fpu : HostFpu) (rounds budget : Nat) (m : Machine) :
    machineRounds fpu rounds budget m = bareRounds fpu rounds budget m := by
  induction rounds generalizing budget m with
  | zero => rfl
  | succ rounds ih =>
      have hrun := execBlockInterp_run fpu budget { m.state with exitReason := .none } m.inst
      rw [machineRounds, bareRounds]
      generalize execBlockInterp fpu budget { m.state with exitReason := .none } m.inst = r at hrun ⊢
      cases hrun with
      | running h => rfl
      | stops hk h hs => rfl
      | @left k b f₀ i i' s hk h hs hl he =>
          obtain ⟨hne, hecall⟩ := he.asserts
          simp only [bind, Except.bind, assertThat, bne_iff_ne.mpr hne, if_true]
          by_cases hbranch : s.exitReason = .directBranch ∨ s.exitReason = .indirectBranch
          · rw [if_pos hbranch, if_pos hbranch]
            exact ih b _
          · rw [if_neg hbranch, if_neg hbranch]
            simp only [beq_iff_eq.mpr (hecall hbranch), if_true]
            rfl

/-- Apply a function to the state a loop ended in. -/
def Loop.map {α β : Type} (g : α → β) : Loop α → Loop β
  | .running a => .running (g a)
  | .left b a => .left b (g a)

/-- What a program can observe of the machine. -/
def Machine.flat (m : Machine) : Flat := m.state.flat

/-- Rounds enough: the rounds and the flat loop end alike. -/
theorem bareRounds_flatLoop (fpu : HostFpu) {rounds budget : Nat} (hlt : budget < rounds)
    (m : Machine) :
    (bareRounds fpu rounds budget m).map (Loop.map Machine.flat) = flatLoop fpu budget m.flat := by
  induction rounds generalizing budget m with
  | zero => omega
  | succ rounds ih =>
      have hrun := execBlockInterp_run fpu budget { m.state with exitReason := .none } m.inst
      rw [bareRounds]
      generalize execBlockInterp fpu budget { m.state with exitReason := .none } m.inst = r at hrun ⊢
      cases hrun with
      | running h => exact (h.flatLoop_eq 0).symm
      | stops hk h hs => exact (flatLoop_stops hk h hs).symm
      | @left k b f₀ i i' s hk h hs hl he =>
          have hflat := flatLoop_left hk h hs
          simp only [bind, Except.bind]
          rcases he with ⟨hecall, hty⟩ | ⟨hbranch, hty⟩
          · rw [if_pos hty] at hflat
            rw [hecall, if_neg (by simp)]
            exact hflat.symm
          · rw [if_neg hty] at hflat
            rw [if_pos hbranch]
            exact (ih (by omega) _).trans hflat.symm

/-- What `machine_step` comes to, in terms of the flat loop. -/
theorem machineStep_flatLoop (fpu : HostFpu) (n : Nat) (m : Machine) :
    (machineStep fpu n m).map (Loop.map Machine.flat) = flatLoop fpu n m.flat := by
  rw [machineStep, machineRounds_bare]
  exact bareRounds_flatLoop fpu (Nat.lt_succ_self n) m

/-- The flat loop is left right past an environment call, the first one. -/
theorem flatLoop_left_inv {fpu : HostFpu} {n b : Nat} {f f' : Flat}
    (h : flatLoop fpu n f = .ok (.left b f')) :
    ∃ k f₀ i, k + 1 + b = n ∧ flatLoop fpu k f = .ok (.running f₀) ∧
      flatStep fpu f₀ = .ok (i, f') ∧ i.type = .ecall := by
  induction n generalizing f with
  | zero => cases h
  | succ n ih =>
      rw [flatLoop] at h
      obtain ⟨⟨i, f₁⟩, hs, h⟩ := bind_ok_inv h
      dsimp only at h
      by_cases hty : i.type = .ecall
      · rw [if_pos hty] at h
        cases h
        exact ⟨0, f, i, by omega, rfl, hs, hty⟩
      · rw [if_neg hty] at h
        obtain ⟨k, f₀, i₀, hk, hrun, hs₀, hty₀⟩ := ih h
        refine ⟨k + 1, f₀, i₀, by omega, ?_, hs₀, hty₀⟩
        rw [flatLoop, hs]
        simp only [bind, Except.bind, if_neg hty]
        exact hrun

/-- What follows an environment call is four bytes on. -/
theorem flatStep_ecall_pc {fpu : HostFpu} {f f' : Flat} {i : Inst}
    (h : flatStep fpu f = .ok (i, f')) (hty : i.type = .ecall) : f'.pc = f.pc + 4 := by
  rw [flatStep] at h
  obtain ⟨raw, -, h⟩ := bind_ok_inv h
  obtain ⟨i₁, hdec, h⟩ := bind_ok_inv h
  obtain ⟨⟨s, r⟩, -, h⟩ := bind_ok_inv h
  cases h
  have hraw : raw = 0x73 := by
    by_contra hne
    exact decodeInst_type_ne hne hdec hty
  rw [hraw, decodeInst_ecall] at hdec
  cases hdec
  rfl

/-- Where `machine_step` returns: past the first environment call. -/
theorem machineStep_left {fpu : HostFpu} {n b : Nat} {m m' : Machine}
    (h : machineStep fpu n m = .ok (.left b m')) :
    ∃ k f₀ i, k + 1 + b = n ∧ flatLoop fpu k m.flat = .ok (.running f₀) ∧
      flatStep fpu f₀ = .ok (i, m'.flat) ∧ i.type = .ecall ∧ m'.state.pc = f₀.pc + 4 := by
  have hflat := machineStep_flatLoop fpu n m
  rw [h] at hflat
  obtain ⟨k, f₀, i, hk, hrun, hs, hty⟩ := flatLoop_left_inv hflat.symm
  exact ⟨k, f₀, i, hk, hrun, hs, hty, flatStep_ecall_pc hs hty⟩

/-- **Running by blocks is running flat.**  For every number of instructions the two end
alike; the assertions could be left out; every block is a straight run and the instruction
that leaves it, with a reason and with the address the flat loop goes on from; and
`machine_step` returns past the first environment call. -/
theorem machineStep_refines_flat (fpu : HostFpu) (n : Nat) (m : Machine) :
    (machineStep fpu n m).map (Loop.map Machine.flat) = flatLoop fpu n m.flat ∧
      machineStep fpu n m = bareRounds fpu (n + 1) n m ∧
      (∀ (s : State) (prev : Inst), BlockRun fpu n s.flat (execBlockInterp fpu n s prev)) ∧
      ∀ b m', machineStep fpu n m = .ok (.left b m') →
        ∃ k f₀ i, k + 1 + b = n ∧ flatLoop fpu k m.flat = .ok (.running f₀) ∧
          flatStep fpu f₀ = .ok (i, m'.flat) ∧ i.type = .ecall ∧ m'.state.pc = f₀.pc + 4 :=
  ⟨machineStep_flatLoop fpu n m, machineRounds_bare fpu (n + 1) n m, execBlockInterp_run fpu n,
    fun _ _ h => machineStep_left h⟩

end Rvemu
