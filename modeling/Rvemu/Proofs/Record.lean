/-
The record left by the last instruction.

`exec_block_interp` keeps its instruction record in a static variable, and
`decode_inst` gets it to write into.  All of its paths build the record anew but
that of the environment call, which sets the type and the mark that ends a block
and leaves the rest as it was.  That rest is not read: the handler looks at no
operand, and a block that is left advances by no length.

So nothing is carried from one instruction to the next, and a block and
`machine_step` come to the same whatever they find in the record.
-/
import Rvemu.Proofs.Blocks

namespace Rvemu

/-- The state in which the loop goes on, or with which it is left. -/
def afterPass (p : State × Inst) : State :=
  if p.2.continueExec then p.1 else { p.1 with pc := p.1.pc + p.2.length }

/-- The same decision to stay in the block or to leave it, and the same next state. -/
def SamePass (p q : State × Inst) : Prop :=
  p.2.continueExec = q.2.continueExec ∧ afterPass p = afterPass q

/-- The same next state after a block, and the same budget left. -/
def SameBlock : Loop (State × Inst) → Loop (State × Inst) → Prop
  | .running p, .running q => p.1 = q.1
  | .left b p, .left b' q => b = b' ∧ p.1 = q.1
  | _, _ => False

/-- The same for the machine, but for the record. -/
def SameRound : Loop Machine → Loop Machine → Prop
  | .running m, .running m' => m.state = m'.state ∧ m.mmu = m'.mmu
  | .left b m, .left b' m' => b = b' ∧ m.state = m'.state ∧ m.mmu = m'.mmu
  | _, _ => False

variable (fpu : HostFpu)

theorem Agree.refl {α : Type} {R : α → α → Prop} (hR : ∀ a, R a a) (x : Except Stop α) :
    Agree R x x := by
  cases x with
  | error e => rfl
  | ok a => exact hR a

/-- One word, decoded and executed. -/
theorem execWord_record (raw : BitVec 32) (s : State) (prev prev' : Inst) :
    Agree SamePass (execWord fpu raw s prev) (execWord fpu raw s prev') := by
  by_cases hraw : raw = 0x73
  · -- the handler returns the record it is given, and the mark is set
    subst hraw
    unfold execWord
    rw [decodeInst_ecall, decodeInst_ecall, ok_bind, ok_bind, func_eq_handler, func_eq_handler]
    exact ⟨rfl, rfl⟩
  · unfold execWord
    rw [decodeInst_prev hraw prev prev']
    exact .refl (fun _ => ⟨rfl, rfl⟩) _

/-- One pass through the loop body. -/
theorem execIter_record (s : State) (prev prev' : Inst) :
    Agree SamePass (execIter fpu s prev) (execIter fpu s prev') := by
  unfold execIter
  cases s.load s.pc 4 with
  | error e => rfl
  | ok raw => exact execWord_record fpu raw s prev prev'

/-- One block. -/
theorem execBlockInterp_record (n : Nat) (s : State) (prev prev' : Inst) :
    Agree SameBlock (execBlockInterp fpu n s prev) (execBlockInterp fpu n s prev') := by
  induction n generalizing s prev prev' with
  | zero => rfl
  | succ n ih =>
      rw [execBlockInterp, execBlockInterp]
      rcases (execIter_record fpu s prev prev').cases with
        ⟨e, h, h'⟩ | ⟨⟨s₁, i⟩, ⟨s₂, i'⟩, h, h', hcont, hnext⟩
      · rw [h, h']
        rfl
      · rw [h, h', ok_bind, ok_bind]
        dsimp only at hcont ⊢
        unfold afterPass at hnext
        dsimp only at hnext
        rw [← hcont] at hnext ⊢
        by_cases hc : i.continueExec = true
        · rw [if_pos hc, if_pos hc] at hnext ⊢
          exact ⟨rfl, hnext⟩
        · rw [if_neg hc, if_neg hc] at hnext ⊢
          rw [hnext]
          exact ih _ i i'

/-- The rounds of `machine_step`. -/
theorem bareRounds_record (rounds n : Nat) (m : Machine) (i i' : Inst) :
    Agree SameRound (bareRounds fpu rounds n { m with inst := i })
      (bareRounds fpu rounds n { m with inst := i' }) := by
  induction rounds generalizing n m i i' with
  | zero => exact ⟨rfl, rfl⟩
  | succ rounds ih =>
      rw [bareRounds, bareRounds]
      dsimp only
      rcases (execBlockInterp_record fpu n { m.state with exitReason := .none } i i').cases with
        ⟨e, h, h'⟩ | ⟨r, r', h, h', hsame⟩
      · rw [h, h']
        rfl
      · rw [h, h', ok_bind, ok_bind]
        cases r with
        | running p =>
            cases r' with
            | running q => exact ⟨hsame, rfl⟩
            | left b q => exact hsame.elim
        | left b p =>
            cases r' with
            | running q => exact hsame.elim
            | left b' q =>
                obtain ⟨s₁, i₁⟩ := p
                obtain ⟨s₂, i₂⟩ := q
                obtain ⟨rfl, rfl⟩ : b = b' ∧ s₁ = s₂ := hsame
                dsimp only
                by_cases hbranch : s₁.exitReason = .directBranch ∨ s₁.exitReason = .indirectBranch
                · rw [if_pos hbranch, if_pos hbranch]
                  exact ih b { m with state := s₁.reenter } i₁ i₂
                · rw [if_neg hbranch, if_neg hbranch]
                  exact ⟨rfl, rfl, rfl⟩

/-- **The record carries nothing over.**  For every word and every state, an instruction has
the same effect whatever the record held before it, or is rejected with the same error; and so
have a whole block and a whole `machine_step`. -/
theorem machineStep_record (m : Machine) (i i' : Inst) :
    (∀ raw, Agree SamePass (execWord fpu raw m.state i) (execWord fpu raw m.state i')) ∧
      (∀ n, Agree SameBlock (execBlockInterp fpu n m.state i)
        (execBlockInterp fpu n m.state i')) ∧
      ∀ n, Agree SameRound (machineStep fpu n { m with inst := i })
        (machineStep fpu n { m with inst := i' }) := by
  refine ⟨fun raw => execWord_record fpu raw m.state i i',
    fun n => execBlockInterp_record fpu n m.state i i', fun n => ?_⟩
  rw [machineStep, machineStep, machineRounds_bare, machineRounds_bare]
  exact bareRounds_record fpu (n + 1) n m i i'

end Rvemu
