/-
Execution in a larger memory.

What instructions do depends on the memory they touch and on no other.  If more is
mapped, where nothing was mapped before, an execution that does not fault goes on
as it did: the same instructions in the same order, the same registers, the same
output, the same end; and what was added is left alone.

Only a fault can turn out differently, since the address that faults may be one of
those that were added.  So `Survives` relates a computation to what becomes of it in
the larger memory, unless it faults, and everything up to the loop of `machine_step`
is put together from computations that survive.
-/
import Rvemu.Proofs.Footprint

namespace Rvemu

open Memory Spec

/-- `y` is what becomes of `x`, unless `x` faults. -/
def Survives {α β : Type} (f : α → β) (x : Except Stop α) (y : Except Stop β) : Prop :=
  (∃ bad, x = .error (.segv bad)) ∨ y = x.map f

theorem Survives.bind {α β γ δ : Type} {f : α → β} {g : γ → δ} {x : Except Stop α}
    {y : Except Stop β} {k : α → Except Stop γ} {k' : β → Except Stop δ} (h : Survives f x y)
    (hk : ∀ a, Survives g (k a) (k' (f a))) : Survives g (x >>= k) (y >>= k') := by
  rcases h with ⟨bad, rfl⟩ | rfl
  · exact .inl ⟨bad, rfl⟩
  · cases x with
    | error e => exact .inr rfl
    | ok a => exact hk a

/-- A computation that does not look at memory. -/
theorem Survives.same {α : Type} (x : Except Stop α) : Survives id x x := by
  right
  cases x <;> rfl

theorem Survives.ok {α β : Type} {f : α → β} {a : α} {b : β} (h : b = f a) :
    Survives f (.ok a) (.ok b) := by
  rw [h]
  exact .inr rfl

section

variable (r : Mem 64)

/-- The state in a larger memory. -/
def State.framed (s : State) : State :=
  { s with world := s.world.withMem (s.world.mem.union r) }

/-- The machine in a larger memory. -/
def Machine.framed (m : Machine) : Machine := { m with state := m.state.framed r }

/-- A state and an instruction record, in a larger memory. -/
def framedRun (p : State × Inst) : State × Inst := (p.1.framed r, p.2)

theorem load_survives (s : State) (a : Word) (n : Nat) :
    Survives id (s.load a n) ((s.framed r).load a n) := by
  unfold State.load
  cases h : s.world.mem.load (toHost a) n with
  | error bad => exact .inl ⟨bad, rfl⟩
  | ok v =>
      right
      rw [show (s.framed r).world.mem.load (toHost a) n = .ok v from Mem.load_union h r]
      rfl

theorem store_survives (s : State) (a : Word) (n : Nat) (v : BitVec (8 * n)) :
    Survives (State.framed r) (s.store a n v) ((s.framed r).store a n v) := by
  unfold State.store
  cases h : s.world.mem.store (toHost a) n v with
  | error bad => exact .inl ⟨bad, rfl⟩
  | ok m =>
      right
      rw [show (s.framed r).world.mem.store (toHost a) n v = .ok (m.union r) from
        Mem.store_union h r]
      rfl

theorem debug_framed (s : State) (c : Bool) (text : String) :
    (s.framed r).debug c text = (s.debug c text).framed r := by
  cases c <;> rfl

theorem foldl_eprint_framed (lines : List String) (s : State) :
    lines.foldl State.eprint (s.framed r) = (lines.foldl State.eprint s).framed r := by
  induction lines generalizing s with
  | nil => rfl
  | cons l rest ih => exact ih (s.eprint l)

end

/-! ### Handlers -/

/-- A handler that does in a larger memory what it does. -/
def Local (h : Handler) : Prop :=
  ∀ (r : Mem 64) (s : State) (i : Inst), Survives (framedRun r) (h s i) (h (s.framed r) i)

/-- One update, which may fail. -/
theorem local_of_bind {α : Type} {h : Handler} (pre : State → Inst → Except Stop α)
    (upd : State → Inst → α → State) (hh : ∀ s i, h s i = pre s i >>= fun a => .ok (upd s i a, i))
    (hpre : ∀ r s i, Survives id (pre s i) (pre (s.framed r) i))
    (hupd : ∀ r s i a, upd (s.framed r) i a = (upd s i a).framed r) : Local h := by
  intro r s i
  rw [hh, hh]
  refine (hpre r s i).bind fun a => .ok ?_
  rw [id, hupd]
  rfl

/-- One update that cannot fail. -/
theorem local_of_update {h : Handler} (upd : State → Inst → State × Inst)
    (hh : ∀ s i, h s i = .ok (upd s i))
    (hupd : ∀ r s i, upd (s.framed r) i = framedRun r (upd s i)) : Local h := by
  intro r s i
  rw [hh, hh]
  exact .ok (hupd r s i)

theorem loadFunc_local (n : Nat) (conv : BitVec (8 * n) → Word) : Local (loadFunc n conv) := by
  refine local_of_bind _ _ (fun _ _ => rfl) (fun r s i => load_survives r s _ n) ?_
  intro r s i a
  exact debug_framed r (s.setGp i.rd (conv a)) _ _

theorem aluImmFunc_local (expr : Word → Word → Word) : Local (aluImmFunc expr) := by
  refine local_of_update _ (fun _ _ => rfl) fun r s i => ?_
  refine congrArg (fun t => (t, i)) ?_
  exact debug_framed r (s.setGp i.rd (expr (s.gp i.rs1) (i.imm.signExtend 64))) _ _

theorem storeFunc_local (n : Nat) : Local (storeFunc n) := by
  intro r s i
  refine (store_survives r s _ n _).bind fun s₁ => .ok ?_
  exact congrArg (fun t => (t, i)) (debug_framed r s₁ _ _)

theorem storeFpFunc_local (n : Nat) : Local (storeFpFunc n) := by
  intro r s i
  exact (store_survives r s _ n _).bind fun s₁ => .ok rfl

theorem branchFunc_local (expr : Word → Word → Bool) : Local (branchFunc expr) := by
  refine local_of_update _ (branchFunc_eq expr) fun r s i => ?_
  show (if expr (s.gp i.rs1) (s.gp i.rs2) then _ else _) = framedRun r (if _ then _ else _)
  split <;> rfl

theorem jalrState_framed (r : Mem 64) (s : State) (i : Inst) (lines : List String) :
    jalrState (s.framed r) i lines = (jalrState s i lines).framed r := by
  unfold jalrState
  rw [foldl_eprint_framed]
  rfl

theorem funcJalr_local : Local funcJalr := by
  intro r s i
  rw [funcJalr_eq, funcJalr_eq]
  show Survives _ (if i.jalrTarget s = 0 then _ else _) (if i.jalrTarget s = 0 then _ else _)
  split
  · have hbind (s : State) : ((s.load s.pc 4).map fun p => (jalrState s i (jalrReport s i p), i)) =
        s.load s.pc 4 >>= fun p => .ok (jalrState s i (jalrReport s i p), i) := by
      cases s.load s.pc 4 <;> rfl
    rw [hbind, hbind]
    refine (load_survives r s s.pc 4).bind fun p => .ok ?_
    rw [jalrState_framed]
    rfl
  · refine .ok ?_
    rw [jalrState_framed]
    rfl

/-- Every handler is local. -/
theorem handler_local (fpu : HostFpu) (t : InstType) : Local (handler fpu t) := by
  cases t
  all_goals simp only [handler]
  case lb | lh | lw | ld | lbu | lhu | lwu => exact loadFunc_local _ _
  case flw | fld =>
    refine local_of_bind _ _ (fun _ _ => rfl) (fun r s i => load_survives r s _ _) ?_
    exact fun _ _ _ _ => rfl
  case addi | slli | slti | sltiu | xori | srli | srai | ori | andi | addiw | slliw | srliw
      | sraiw =>
    exact aluImmFunc_local _
  case sb | sh | sw | sd => exact storeFunc_local _
  case fsw | fsd => exact storeFpFunc_local _
  case beq | bne | blt | bge | bltu | bgeu => exact branchFunc_local _
  case jalr => exact funcJalr_local
  case div | divu | rem | remu | divw | divuw | remw | remuw =>
    exact local_of_bind _ _ (fun _ _ => rfl) (fun _ _ _ => .same _) fun _ _ _ _ => rfl
  case csrrc | csrrci | csrrs | csrrsi | csrrw | csrrwi =>
    exact local_of_bind _ _ csrFunc_eq (fun _ _ _ => .same _) fun _ _ _ _ => rfl
  -- the others set a register, or the control variables, or do nothing
  all_goals exact local_of_update _ (fun _ _ => rfl) fun _ _ _ => rfl

/-! ### Blocks -/

section

variable {fpu : HostFpu} (r : Mem 64)

theorem execIter_survives (s : State) (i : Inst) :
    Survives (framedRun r) (execIter fpu s i) (execIter fpu (s.framed r) i) := by
  refine (load_survives r s s.pc 4).bind fun raw => ?_
  refine (Survives.same (decodeInst i raw)).bind fun i₁ => ?_
  rw [id, func_eq_handler]
  exact (handler_local fpu i₁.type r s i₁).bind fun p => .ok rfl

theorem execBlockInterp_survives (n : Nat) (s : State) (i : Inst) :
    Survives (Loop.map (framedRun r)) (execBlockInterp fpu n s i)
      (execBlockInterp fpu n (s.framed r) i) := by
  induction n generalizing s i with
  | zero => exact .ok rfl
  | succ n ih =>
      refine (execIter_survives r s i).bind fun p => ?_
      obtain ⟨s₁, i₁⟩ := p
      dsimp only [framedRun]
      split
      · exact .ok rfl
      · exact ih _ i₁

theorem machineRounds_survives (rounds n : Nat) (m : Machine) :
    Survives (Loop.map (Machine.framed r)) (machineRounds fpu rounds n m)
      (machineRounds fpu rounds n (m.framed r)) := by
  induction rounds generalizing n m with
  | zero => exact .ok rfl
  | succ rounds ih =>
      refine (execBlockInterp_survives r n { m.state with exitReason := .none } m.inst).bind ?_
      rintro (⟨s₁, i₁⟩ | ⟨b, s₁, i₁⟩)
      · exact .ok rfl
      · refine (Survives.same (assertThat (s₁.exitReason != .none)
          "machine->state.exit_reason != none")).bind fun _ => ?_
        show Survives _ (if s₁.exitReason = .directBranch ∨ s₁.exitReason = .indirectBranch then _
          else _) (if s₁.exitReason = .directBranch ∨ s₁.exitReason = .indirectBranch then _ else _)
        split
        · exact ih b _
        · exact (Survives.same _).bind fun _ => .ok rfl

/-- **The frame of `machine_step`.**  Whatever is mapped besides, where nothing was mapped, an
execution up to the next environment call that does not fault is the same in the larger memory:
it stops for the same reason, or it ends in the same state, and what was added has stayed as it
was. -/
theorem machineStep_frame (n : Nat) (m : Machine) :
    (∃ bad, machineStep fpu n m = .error (.segv bad)) ∨
      machineStep fpu n (m.framed r) = (machineStep fpu n m).map (Loop.map (Machine.framed r)) :=
  machineRounds_survives r (n + 1) n m

end

end Rvemu
