/-
Live registers.

A register is live where some later instruction may read it before it is written
again.  `Inst.live` goes back over one instruction: what it reads is live before it,
and what is live after it, unless it writes that.  `Machine.liveBefore` goes back over
a run.

Registers that are not live do not matter: two machines that differ in nothing else
go side by side, and stop after the same number of steps for the same reason, or come
to machines that agree on what was live at the end.

A few entries are not those of the architecture.  `jalr` may print the stack pointer;
a single-precision result leaves the upper half of its destination alone, so the old
value lives on; and of the eight argument registers a call looks at five.
-/
import Rvemu.Proofs.Footprint
import Rvemu.Proofs.Run

namespace Rvemu

open Steps

/-! ### What an instruction reads and writes -/

/-- A register of either file. -/
inductive Loc
  | gp (r : RegNo)
  | fp (r : RegNo)
  deriving DecidableEq, Repr

/-- The registers an instruction looks at. -/
def InstType.reads (t : InstType) (i : Inst) : Finset Loc :=
  match t with
  | .fence | .fence_i | .auipc | .lui | .jal
  | .csrrc | .csrrci | .csrrs | .csrrsi | .csrrw | .csrrwi => ∅
  | .lb | .lh | .lw | .ld | .lbu | .lhu | .lwu | .flw | .fld
  | .addi | .slli | .slti | .sltiu | .xori | .srli | .srai | .ori | .andi
  | .addiw | .slliw | .srliw | .sraiw
  | .fcvt_d_w | .fcvt_d_wu | .fcvt_d_l | .fcvt_d_lu | .fmv_d_x => {.gp i.rs1}
  | .sb | .sh | .sw | .sd
  | .add | .sll | .slt | .sltu | .xor | .srl | .or | .and
  | .mul | .mulh | .mulhsu | .mulhu | .div | .divu | .rem | .remu | .sub | .sra
  | .addw | .sllw | .srlw | .mulw | .divw | .divuw | .remw | .remuw | .subw | .sraw
  | .beq | .bne | .blt | .bge | .bltu | .bgeu => {.gp i.rs1, .gp i.rs2}
  | .jalr => {.gp i.rs1, .gp Reg.sp}
  | .ecall => {.gp Reg.a0, .gp Reg.a1, .gp Reg.a2, .gp Reg.a3, .gp Reg.a7}
  | .fsw | .fsd => {.gp i.rs1, .fp i.rs2}
  | .fmadd_s | .fmsub_s | .fnmsub_s | .fnmadd_s => {.fp i.rs1, .fp i.rs2, .fp i.rs3, .fp i.rd}
  | .fmadd_d | .fmsub_d | .fnmsub_d | .fnmadd_d => {.fp i.rs1, .fp i.rs2, .fp i.rs3}
  | .fadd_s | .fsub_s | .fmul_s | .fdiv_s | .fmin_s | .fmax_s =>
    {.fp i.rs1, .fp i.rs2, .fp i.rd}
  | .fsgnj_s | .fsgnjn_s | .fsgnjx_s | .fsgnj_d | .fsgnjn_d | .fsgnjx_d
  | .fadd_d | .fsub_d | .fmul_d | .fdiv_d | .fmin_d | .fmax_d
  | .feq_s | .flt_s | .fle_s | .feq_d | .flt_d | .fle_d => {.fp i.rs1, .fp i.rs2}
  | .fsqrt_s | .fcvt_s_d => {.fp i.rs1, .fp i.rd}
  | .fcvt_s_w | .fcvt_s_wu | .fcvt_s_l | .fcvt_s_lu | .fmv_w_x => {.gp i.rs1, .fp i.rd}
  | .fsqrt_d | .fcvt_d_s
  | .fcvt_w_s | .fcvt_wu_s | .fcvt_l_s | .fcvt_lu_s | .fmv_x_w | .fclass_s
  | .fcvt_w_d | .fcvt_wu_d | .fcvt_l_d | .fcvt_lu_d | .fmv_x_d | .fclass_d => {.fp i.rs1}

/-- The register an instruction sets. -/
def InstType.writes (t : InstType) (i : Inst) : Finset Loc :=
  match t.dest with
  | .none => ∅
  | .gp => {.gp i.rd}
  | .fp => {.fp i.rd}

/-- The registers that are set once the loop body is through: the destination, `x0`, and what
the answer to a call is put into. -/
def Inst.kills (i : Inst) : Finset Loc :=
  i.type.writes i ∪ {.gp Reg.zero} ∪ if i.type = .ecall then {.gp Reg.a0} else ∅

/-- What is live before an instruction, for what is live after it. -/
def Inst.live (i : Inst) (after : Finset Loc) : Finset Loc :=
  i.type.reads i ∪ (after \ i.kills)

/-- What is live before the next instruction of a machine. -/
def Machine.live (m : Machine) (after : Finset Loc) : Finset Loc :=
  match m.state.load m.state.pc 4 >>= decodeInst m.inst with
  | .ok i => i.live after
  | .error _ => ∅

/-- What is live before `n` instructions of a run. -/
def Machine.liveBefore (fpu : HostFpu) (os : Os) (n : Nat) (after : Finset Loc) (m : Machine) :
    Finset Loc :=
  before (emuStep fpu os) Machine.live n after m

/-! ### States that agree on some registers -/

/-- The same but for registers outside `L`. -/
structure SameUpTo (L : Finset Loc) (s t : State) : Prop where
  world : t.world = s.world
  pc : t.pc = s.pc
  exitReason : t.exitReason = s.exitReason
  reenterPc : t.reenterPc = s.reenterPc
  gp : ∀ r, Loc.gp r ∈ L → t.gp r = s.gp r
  fp : ∀ r, Loc.fp r ∈ L → t.fp r = s.fp r

/-- The same record, and states that agree. -/
def SameRun (L : Finset Loc) (p q : State × Inst) : Prop := q.2 = p.2 ∧ SameUpTo L p.1 q.1

namespace SameUpTo

variable {L L' : Finset Loc} {s t : State}

theorem mono (h : SameUpTo L s t) (hL : L' ⊆ L) : SameUpTo L' s t :=
  { h with
    gp := fun r hr => h.gp r (hL hr)
    fp := fun r hr => h.fp r (hL hr) }

theorem load (h : SameUpTo L s t) (a : Word) (n : Nat) : t.load a n = s.load a n := by
  unfold State.load
  rw [h.world]

/-- Other control variables. -/
theorem control (h : SameUpTo L s t) (e : ExitReason) (p q : Word) :
    SameUpTo L { s with exitReason := e, reenterPc := p, pc := q }
      { t with exitReason := e, reenterPc := p, pc := q } :=
  { h with pc := rfl, exitReason := rfl, reenterPc := rfl }

theorem setGp (h : SameUpTo L s t) (r : RegNo) (v : Word) :
    SameUpTo (L ∪ {.gp r}) (s.setGp r v) (t.setGp r v) :=
  { h with
    gp := by
      intro x hx
      show Function.update t.gpRegs r v x = Function.update s.gpRegs r v x
      by_cases hxr : x = r
      · rw [hxr, Function.update_self, Function.update_self]
      · rw [Function.update_of_ne hxr, Function.update_of_ne hxr]
        exact h.gp x (by simpa [hxr] using hx)
    fp := fun x hx => h.fp x (by simpa using hx) }

theorem setFp (h : SameUpTo L s t) (r : RegNo) (v : FpReg) :
    SameUpTo (L ∪ {.fp r}) (s.setFp r v) (t.setFp r v) :=
  { h with
    gp := fun x hx => h.gp x (by simpa using hx)
    fp := by
      intro x hx
      show Function.update t.fpRegs r v x = Function.update s.fpRegs r v x
      by_cases hxr : x = r
      · rw [hxr, Function.update_self, Function.update_self]
      · rw [Function.update_of_ne hxr, Function.update_of_ne hxr]
        exact h.fp x (by simpa [hxr] using hx) }

/-- The same change of the world. -/
theorem withWorld (h : SameUpTo L s t) (w : World) :
    SameUpTo L { s with world := w } { t with world := w } :=
  { h with world := rfl }

theorem eprint (h : SameUpTo L s t) (text : String) :
    SameUpTo L (s.eprint text) (t.eprint text) := by
  unfold State.eprint
  rw [h.world]
  exact h.withWorld _

theorem foldl_eprint (h : SameUpTo L s t) (lines : List String) :
    SameUpTo L (lines.foldl State.eprint s) (lines.foldl State.eprint t) := by
  induction lines generalizing s t with
  | nil => exact h
  | cons l rest ih => exact ih (h.eprint l)

theorem debug (h : SameUpTo L s t) (c : Bool) (text : String) :
    SameUpTo L (s.debug c text) (t.debug c text) := by
  cases c with
  | false => exact h
  | true => exact h.eprint text

theorem store (h : SameUpTo L s t) (a : Word) (n : Nat) (v : BitVec (8 * n)) :
    Alike (SameUpTo L) (s.store a n v) (t.store a n v) := by
  unfold State.store
  rw [h.world]
  cases s.world.mem.store (toHost a) n v with
  | error bad => exact .stops (Stop.segv bad)
  | ok m => exact .goes (h.withWorld _)

end SameUpTo

/-! ### Handlers -/

/-- A handler that looks at no registers but `reads`, and sets `writes`. -/
def Sees (h : Handler) (reads writes : Inst → Finset Loc) : Prop :=
  ∀ ⦃L : Finset Loc⦄ ⦃s t : State⦄ ⦃i : Inst⦄, reads i ⊆ L → SameUpTo L s t →
    Alike (SameRun (L ∪ writes i)) (h s i) (h t i)

section

variable {h : Handler} {reads : Inst → Finset Loc}

/-- What is computed from registers that agree. -/
def Determined {α : Type} (reads : Inst → Finset Loc) (f : State → Inst → α) : Prop :=
  ∀ ⦃L : Finset Loc⦄ ⦃s t : State⦄ ⦃i : Inst⦄, reads i ⊆ L → SameUpTo L s t → f t i = f s i

theorem sees_of_setGp (pre : State → Inst → Except Stop Word)
    (hh : ∀ s i, h s i = pre s i >>= fun v => .ok (s.setGp i.rd v, i))
    (hpre : Determined reads pre) : Sees h reads fun i => {.gp i.rd} := by
  intro L s t i hL hst
  rw [hh, hh, hpre hL hst]
  cases pre s i with
  | error e => exact .stops e
  | ok v => exact .goes ⟨rfl, hst.setGp i.rd v⟩

end

theorem loadFunc_sees (n : Nat) (conv : BitVec (8 * n) → Word) :
    Sees (loadFunc n conv) (fun i => {.gp i.rs1}) fun i => {.gp i.rd} := by
  intro L s t i hL hst
  have hrs1 : t.gp i.rs1 = s.gp i.rs1 := hst.gp _ (hL (by simp))
  unfold loadFunc
  dsimp only [setGp_pc]
  rw [hrs1, hst.load, hst.pc]
  cases s.load (s.gp i.rs1 + i.imm.signExtend 64) n with
  | error e => exact .stops e
  | ok raw => exact .goes ⟨rfl, (hst.setGp i.rd (conv raw)).debug _ _⟩

theorem aluImmFunc_sees (expr : Word → Word → Word) :
    Sees (aluImmFunc expr) (fun i => {.gp i.rs1}) fun i => {.gp i.rd} := by
  intro L s t i hL hst
  have hrs1 : t.gp i.rs1 = s.gp i.rs1 := hst.gp _ (hL (by simp))
  unfold aluImmFunc
  dsimp only [setGp_pc]
  rw [hrs1, hst.pc]
  exact .goes ⟨rfl, (hst.setGp i.rd _).debug _ _⟩

theorem storeFunc_sees (n : Nat) :
    Sees (storeFunc n) (fun i => {.gp i.rs1, .gp i.rs2}) fun _ => ∅ := by
  intro L s t i hL hst
  have hrs1 : t.gp i.rs1 = s.gp i.rs1 := hst.gp _ (hL (by simp))
  have hrs2 : t.gp i.rs2 = s.gp i.rs2 := hst.gp _ (hL (by simp))
  unfold storeFunc
  rw [hrs1, hrs2]
  refine (hst.store _ n _).bind fun {s₁ t₁} hst₁ => ?_
  rw [hst₁.pc, Finset.union_empty]
  exact .goes ⟨rfl, hst₁.debug _ _⟩

theorem storeFpFunc_sees (n : Nat) :
    Sees (storeFpFunc n) (fun i => {.gp i.rs1, .fp i.rs2}) fun _ => ∅ := by
  intro L s t i hL hst
  have hrs1 : t.gp i.rs1 = s.gp i.rs1 := hst.gp _ (hL (by simp))
  have hrs2 : t.fp i.rs2 = s.fp i.rs2 := hst.fp _ (hL (by simp))
  unfold storeFpFunc
  rw [hrs1, hrs2, Finset.union_empty]
  exact (hst.store _ n _).bind fun hst₁ => .goes ⟨rfl, hst₁⟩

theorem trapAluFunc_sees (expr : Word → Word → Except Stop Word) :
    Sees (trapAluFunc expr) (fun i => {.gp i.rs1, .gp i.rs2}) fun i => {.gp i.rd} := by
  refine sees_of_setGp _ (fun _ _ => rfl) fun L s t i hL hst => ?_
  have hrs1 : t.gp i.rs1 = s.gp i.rs1 := hst.gp _ (hL (by simp))
  have hrs2 : t.gp i.rs2 = s.gp i.rs2 := hst.gp _ (hL (by simp))
  rw [hrs1, hrs2]

theorem aluFunc_sees (expr : Word → Word → Word) :
    Sees (aluFunc expr) (fun i => {.gp i.rs1, .gp i.rs2}) fun i => {.gp i.rd} :=
  trapAluFunc_sees fun rs1 rs2 => .ok (expr rs1 rs2)

theorem funcAuipc_sees : Sees funcAuipc (fun _ => ∅) fun i => {.gp i.rd} := by
  refine sees_of_setGp (fun s i => .ok (s.pc + i.imm.signExtend 64)) (fun _ _ => rfl) ?_
  intro L s t i hL hst
  exact congrArg (fun pc => Except.ok (pc + i.imm.signExtend 64)) hst.pc

theorem funcLui_sees : Sees funcLui (fun _ => ∅) fun i => {.gp i.rd} :=
  sees_of_setGp (fun _ i => .ok (i.imm.signExtend 64)) (fun _ _ => rfl) fun _ _ _ _ _ _ => rfl

theorem branchFunc_sees (expr : Word → Word → Bool) :
    Sees (branchFunc expr) (fun i => {.gp i.rs1, .gp i.rs2}) fun _ => ∅ := by
  intro L s t i hL hst
  rw [branchFunc_eq, branchFunc_eq, hst.gp i.rs1 (hL (by simp)), hst.gp i.rs2 (hL (by simp)),
    hst.pc, Finset.union_empty]
  split
  · exact .goes ⟨rfl, hst.control _ _ _⟩
  · exact .goes ⟨rfl, hst⟩

theorem funcJal_sees : Sees funcJal (fun _ => ∅) fun i => {.gp i.rd} := by
  intro L s t i hL hst
  rw [funcJal_eq, funcJal_eq, Inst.link, Inst.link, hst.pc]
  exact .goes ⟨rfl, (hst.setGp i.rd _).control _ _ _⟩

theorem funcJalr_sees :
    Sees funcJalr (fun i => {.gp i.rs1, .gp Reg.sp}) fun i => {.gp i.rd} := by
  intro L s t i hL hst
  have hrs1 : t.gp i.rs1 = s.gp i.rs1 := hst.gp _ (hL (by simp))
  have hlink : i.link t = i.link s := by
    rw [Inst.link, Inst.link, hst.pc]
  have htarget : i.jalrTarget t = i.jalrTarget s := by
    rw [Inst.jalrTarget, Inst.jalrTarget, hrs1]
  have hstate (lines : List String) :
      SameUpTo (L ∪ {.gp i.rd}) (jalrState s i lines) (jalrState t i lines) := by
    unfold jalrState
    rw [hlink, htarget]
    exact { ((hst.foldl_eprint lines).setGp i.rd (i.link s)) with
      exitReason := rfl, reenterPc := rfl }
  have hreport (p : BitVec 32) : jalrReport t i p = jalrReport s i p := by
    -- the stack pointer is printed as the jump leaves it
    have hsp : ((t.setGp i.rd (i.link s)).gp 2) = (s.setGp i.rd (i.link s)).gp 2 :=
      (hst.setGp i.rd (i.link s)).gp 2 (Finset.mem_union_left _ (hL (by simp [Reg.sp])))
    unfold jalrReport
    rw [hlink, hsp, hrs1, hst.pc]
  rw [funcJalr_eq, funcJalr_eq, htarget]
  split
  · rw [hst.pc, hst.load]
    cases s.load s.pc 4 with
    | error e => exact .stops e
    | ok p =>
        show Alike _ (.ok (jalrState s i (jalrReport s i p), i))
          (.ok (jalrState t i (jalrReport t i p), i))
        rw [hreport]
        exact .goes ⟨rfl, hstate _⟩
  · exact .goes ⟨rfl, hstate _⟩

theorem funcEcall_sees (reads : Inst → Finset Loc) : Sees funcEcall reads fun _ => ∅ := by
  intro L s t i hL hst
  rw [funcEcall_eq, funcEcall_eq, hst.pc, Finset.union_empty]
  exact .goes ⟨rfl, hst.control _ _ _⟩

theorem csrFunc_sees : Sees csrFunc (fun _ => ∅) fun i => {.gp i.rd} :=
  sees_of_setGp (fun _ i => csrValue i) csrFunc_eq fun _ _ _ _ _ _ => rfl

theorem funcEmpty_sees : Sees funcEmpty (fun _ => ∅) fun _ => ∅ := by
  intro L s t i hL hst
  rw [Finset.union_empty]
  exact .goes ⟨rfl, hst⟩

/-! ### Floating-point handlers -/

/-- A load into a floating-point register. -/
theorem fpLoad_sees {h : Handler} {n : Nat} (val : BitVec (8 * n) → FpReg)
    (hh : ∀ s i, h s i = s.load (s.gp i.rs1 + i.imm.signExtend 64) n >>= fun raw =>
      .ok (s.setFp i.rd (val raw), i)) : Sees h (fun i => {.gp i.rs1}) fun i => {.fp i.rd} := by
  intro L s t i hL hst
  rw [hh, hh, hst.gp i.rs1 (hL (by simp)), hst.load]
  cases s.load (s.gp i.rs1 + i.imm.signExtend 64) n with
  | error e => exact .stops e
  | ok raw => exact .goes ⟨rfl, hst.setFp i.rd (val raw)⟩

/-- A result in a floating-point register. -/
theorem fpResult_sees {h : Handler} {reads : Inst → Finset Loc} (val : State → Inst → FpReg)
    (hh : ∀ s i, h s i = .ok (s.setFp i.rd (val s i), i)) (hval : Determined reads val) :
    Sees h reads fun i => {.fp i.rd} := by
  intro L s t i hL hst
  rw [hh, hh, hval hL hst]
  exact .goes ⟨rfl, hst.setFp i.rd (val s i)⟩

/-- A result in a general register, from floating-point registers. -/
theorem gpResult_sees {h : Handler} {reads : Inst → Finset Loc} (val : State → Inst → Word)
    (hh : ∀ s i, h s i = .ok (s.setGp i.rd (val s i), i)) (hval : Determined reads val) :
    Sees h reads fun i => {.gp i.rd} := by
  refine sees_of_setGp (fun s i => .ok (val s i)) hh ?_
  intro L s t i hL hst
  exact congrArg Except.ok (hval hL hst)

/-- **What an instruction depends on.**  Every handler does the same in two states that agree on
the registers it reads, and sets the registers it writes to the same values. -/
theorem handler_sees (fpu : HostFpu) (t : InstType) : Sees (handler fpu t) t.reads t.writes := by
  cases t
  all_goals simp only [handler]
  case lb | lh | lw | ld | lbu | lhu | lwu => exact loadFunc_sees _ _
  case fence | fence_i => exact funcEmpty_sees
  case addi | slli | slti | sltiu | xori | srli | srai | ori | andi | addiw | slliw | srliw
      | sraiw =>
    exact aluImmFunc_sees _
  case auipc => exact funcAuipc_sees
  case lui => exact funcLui_sees
  case sb | sh | sw | sd => exact storeFunc_sees _
  case add | sll | slt | sltu | xor | srl | or | and | mul | mulh | mulhsu | mulhu | sub | sra
      | addw | sllw | srlw | mulw | subw | sraw =>
    exact aluFunc_sees _
  case div | divu | rem | remu | divw | divuw | remw | remuw => exact trapAluFunc_sees _
  case beq | bne | blt | bge | bltu | bgeu => exact branchFunc_sees _
  case jalr => exact funcJalr_sees
  case jal => exact funcJal_sees
  case ecall => exact funcEcall_sees _
  case csrrc | csrrci | csrrs | csrrsi | csrrw | csrrwi => exact csrFunc_sees
  case flw | fld => exact fpLoad_sees _ fun _ _ => rfl
  case fsw | fsd => exact storeFpFunc_sees _
  case fcvt_w_s | fcvt_wu_s | fcvt_l_s | fcvt_lu_s | fmv_x_w | fclass_s | fcvt_w_d | fcvt_wu_d
      | fcvt_l_d | fcvt_lu_d | fmv_x_d | fclass_d | feq_s | flt_s | fle_s | feq_d | flt_d
      | fle_d =>
    refine gpResult_sees _ (fun _ _ => rfl) fun L s t i hL hst => ?_
    simp only [InstType.reads, Finset.insert_subset_iff, Finset.singleton_subset_iff] at hL
    simp only [hst.fp, hL]
  -- the others compute a floating-point register
  all_goals
    refine fpResult_sees _ (fun _ _ => rfl) fun L s t i hL hst => ?_
    simp only [InstType.reads, Finset.insert_subset_iff, Finset.singleton_subset_iff] at hL
    simp only [hst.gp, hst.fp, hL, FpReg.setD, FpReg.setV]

/-! ### Environment calls -/

/-- Machines that differ in registers outside `L` alone. -/
structure SameMachine (L : Finset Loc) (m t : Machine) : Prop where
  state : SameUpTo L m.state t.state
  mmu : t.mmu = m.mmu
  inst : t.inst = m.inst

namespace SameMachine

variable {L L' : Finset Loc} {m t : Machine}

theorem mono (h : SameMachine L m t) (hL : L' ⊆ L) : SameMachine L' m t :=
  { h with state := h.state.mono hL }

theorem withWorld (h : SameMachine L m t) (w : World) :
    SameMachine L (m.withWorld w) (t.withWorld w) :=
  { h with state := h.state.withWorld w }

theorem tick (h : SameMachine L m t) : SameMachine L m.tick t.tick := by
  unfold Machine.tick
  rw [h.state.world]
  exact h.withWorld _

theorem settled (h : SameMachine L m t) (os : Os) :
    SameMachine L (m.settled os) (t.settled os) := by
  unfold Machine.settled
  rw [h.state.world]
  exact h.withWorld _

theorem deliver (h : SameMachine L m t) (a : Word) (bytes : List (BitVec 8)) :
    SameMachine L (m.deliver a bytes) (t.deliver a bytes) := by
  unfold Machine.deliver
  rw [h.state.world]
  exact h.withWorld _

end SameMachine

/-- A call that looks at no registers but those an environment call reads. -/
def SeesArgs (f : Syscall) : Prop :=
  ∀ ⦃L : Finset Loc⦄ ⦃m t : Machine⦄, InstType.ecall.reads {} ⊆ L → SameMachine L m t →
    Alike (fun p q => q.1 = p.1 ∧ SameMachine L p.2 q.2) (f m) (f t)

/-- The arguments and the number of a call. -/
theorem SameMachine.args {L : Finset Loc} {m t : Machine} (h : SameMachine L m t)
    (hL : InstType.ecall.reads {} ⊆ L) :
    t.state.gp Reg.a0 = m.state.gp Reg.a0 ∧ t.state.gp Reg.a1 = m.state.gp Reg.a1 ∧
      t.state.gp Reg.a2 = m.state.gp Reg.a2 ∧ t.state.gp Reg.a3 = m.state.gp Reg.a3 ∧
      t.state.gp Reg.a7 = m.state.gp Reg.a7 := by
  simp only [InstType.reads, Finset.insert_subset_iff, Finset.singleton_subset_iff] at hL
  simp only [h.state.gp, hL, and_self]

section

variable {os : Os}

theorem sysUnimplemented_sees : SeesArgs sysUnimplemented := by
  intro L m t hL h
  obtain ⟨-, -, -, -, ha7⟩ := h.args hL
  unfold sysUnimplemented
  rw [ha7]
  exact .stops _

theorem sysExit_sees : SeesArgs sysExit := by
  intro L m t hL h
  obtain ⟨ha0, -⟩ := h.args hL
  unfold sysExit
  rw [ha0]
  exact .stops _

theorem sysClose_sees : SeesArgs (sysClose os) := by
  intro L m t hL h
  obtain ⟨ha0, -⟩ := h.args hL
  unfold sysClose
  rw [ha0, h.state.world]
  dsimp only
  split
  · exact .goes ⟨rfl, h.withWorld _⟩
  · exact .goes ⟨rfl, h⟩

theorem sysWrite_sees : SeesArgs (sysWrite os) := by
  intro L m t hL h
  obtain ⟨ha0, ha1, ha2, -⟩ := h.args hL
  unfold sysWrite
  rw [ha0, ha1, ha2, h.state.world]
  dsimp only
  split
  · exact .stops _
  · exact .goes ⟨rfl, h.withWorld _⟩

theorem sysFstat_sees : SeesArgs (sysFstat os) := by
  intro L m t hL h
  obtain ⟨ha0, ha1, -⟩ := h.args hL
  unfold sysFstat
  rw [ha0, ha1, h.state.world]
  dsimp only
  split
  · exact .goes ⟨rfl, (h.deliver _ _).tick⟩
  · exact .goes ⟨rfl, h.settled os⟩

theorem sysGettimeofday_sees : SeesArgs (sysGettimeofday os) := by
  intro L m t hL h
  obtain ⟨ha0, ha1, -⟩ := h.args hL
  have hzone : t.zonePtr = m.zonePtr := by
    rw [Machine.zonePtr, ha1]
    rfl
  rw [sysGettimeofday_eq, sysGettimeofday_eq, ha0, hzone, h.state.world]
  split
  · cases storeThrough (toHost (m.state.gp Reg.a0)) _ m.state.world.mem >>=
      storeThrough m.zonePtr _ with
    | error e => exact .stops e
    | ok mem => exact .goes ⟨rfl, h.withWorld _⟩
  · exact .goes ⟨rfl, h.settled os⟩

theorem sysBrk_sees : SeesArgs (sysBrk os) := by
  intro L m t hL h
  obtain ⟨ha0, -⟩ := h.args hL
  unfold sysBrk
  rw [ha0, h.state.world, h.mmu]
  dsimp only
  generalize (if m.state.gp Reg.a0 = 0 then m.mmu.guestAlloc else m.state.gp Reg.a0) = addr
  cases assertThat (m.mmu.base.ule addr) "addr >= m->mmu.base" with
  | error e => exact .stops e
  | ok _ =>
      cases mmuAlloc os m.state.world m.mmu (addr - m.mmu.guestAlloc) with
      | error e => exact .stops e
      | ok p =>
          obtain ⟨a, w, mmu⟩ := p
          exact .goes ⟨rfl, { h.withWorld w with mmu := rfl }⟩

theorem sysOpenat_sees : SeesArgs (sysOpenat os) := by
  intro L m t hL h
  obtain ⟨ha0, ha1, ha2, ha3, -⟩ := h.args hL
  unfold sysOpenat
  rw [ha0, ha1, ha2, ha3, h.state.world]
  exact .goes ⟨rfl, h.withWorld _⟩

theorem sysOpen_sees : SeesArgs (sysOpen os) := by
  intro L m t hL h
  obtain ⟨ha0, ha1, ha2, -⟩ := h.args hL
  unfold sysOpen
  rw [ha0, ha1, ha2, h.state.world]
  exact .goes ⟨rfl, h.withWorld _⟩

theorem sysLseek_sees : SeesArgs (sysLseek os) := by
  intro L m t hL h
  obtain ⟨ha0, ha1, ha2, -⟩ := h.args hL
  unfold sysLseek
  rw [ha0, ha1, ha2, h.state.world]
  exact .goes ⟨rfl, h.settled os⟩

theorem sysRead_sees : SeesArgs (sysRead os) := by
  intro L m t hL h
  obtain ⟨ha0, ha1, ha2, -⟩ := h.args hL
  unfold sysRead
  rw [ha0, ha1, ha2, h.state.world]
  dsimp only
  split
  · exact .goes ⟨rfl, (h.deliver _ _).tick⟩
  · exact .goes ⟨rfl, h.settled os⟩

theorem syscallTable_sees {n : Nat} {f : Syscall} (h : (syscallTable os).lookup n = some f) :
    SeesArgs f := by
  obtain ⟨l₁, l₂, htable, -⟩ := List.lookup_eq_some_iff.mp h
  have hall : ∀ p ∈ syscallTable os, SeesArgs p.2 := by
    simp only [syscallTable, List.forall_mem_cons, List.not_mem_nil, false_implies, implies_true,
      and_true, sysUnimplemented_sees, sysExit_sees, sysClose_sees, sysWrite_sees, sysFstat_sees,
      sysGettimeofday_sees, sysBrk_sees, sysOpenat_sees, sysLseek_sees, sysRead_sees]
  exact hall (n, f) (by rw [htable]; simp)

theorem oldSyscallTable_sees {n : Nat} {f : Syscall}
    (h : (oldSyscallTable os).lookup n = some f) : SeesArgs f := by
  obtain ⟨l₁, l₂, htable, -⟩ := List.lookup_eq_some_iff.mp h
  have hall : ∀ p ∈ oldSyscallTable os, SeesArgs p.2 := by
    simp only [oldSyscallTable, List.forall_mem_cons, List.not_mem_nil, false_implies,
      implies_true, and_true, sysUnimplemented_sees, sysOpen_sees]
  exact hall (n, f) (by rw [htable]; simp)

theorem doSyscall_sees (n : Word) : SeesArgs fun m => doSyscall os m n := by
  intro L m t hL h
  unfold doSyscall
  dsimp only
  split
  · exact .stops _
  · rename_i f hf
    split at hf
    · exact syscallTable_sees hf hL h
    · split at hf
      · exact oldSyscallTable_sees hf hL h
      · cases hf

theorem handleSyscall_alike {L : Finset Loc} {m t : Machine} (hL : InstType.ecall.reads {} ⊆ L)
    (h : SameMachine L m t) :
    Alike (SameMachine (L ∪ {.gp Reg.a0})) (handleSyscall os m) (handleSyscall os t) := by
  obtain ⟨-, -, -, -, ha7⟩ := h.args hL
  unfold handleSyscall
  rw [ha7]
  refine (doSyscall_sees (m.state.gp Reg.a7) hL h).bind ?_
  rintro ⟨r, m₁⟩ ⟨r', t₁⟩ ⟨rfl, h₁⟩
  exact .goes { h₁ with state := h₁.state.setGp Reg.a0 r' }

end

/-! ### Steps and runs -/

theorem subset_live (i : Inst) (after : Finset Loc) : after ⊆ i.live after ∪ i.kills := by
  intro l hl
  by_cases hk : l ∈ i.kills
  · exact Finset.mem_union_right _ hk
  · exact Finset.mem_union_left _ (Finset.mem_union_right _ (Finset.mem_sdiff.mpr ⟨hl, hk⟩))

section

variable {fpu : HostFpu} {os : Os} {L after : Finset Loc}

/-- One pass through the loop body, where what the instruction reads agrees. -/
theorem execIter_alike {s t : State} {prev : Inst}
    (hL : ∀ i, s.load s.pc 4 >>= decodeInst prev = .ok i → i.type.reads i ⊆ L)
    (h : SameUpTo L s t) :
    Alike (fun p q => ∃ i, s.load s.pc 4 >>= decodeInst prev = .ok i ∧
        SameRun (L ∪ (i.type.writes i ∪ {.gp Reg.zero})) p q)
      (execIter fpu s prev) (execIter fpu t prev) := by
  have hload : t.load t.pc 4 = s.load s.pc 4 := by
    rw [h.pc, h.load]
  unfold execIter execWord
  rw [hload]
  cases hraw : s.load s.pc 4 with
  | error e => exact .stops e
  | ok raw =>
      rw [hraw] at hL
      simp only [ok_bind] at hL ⊢
      cases hdec : decodeInst prev raw with
      | error e => exact .stops e
      | ok i =>
          simp only [ok_bind, func_eq_handler]
          refine (handler_sees fpu i.type (hL i hdec) h).bind ?_
          rintro ⟨s₁, i₁⟩ ⟨t₁, j₁⟩ ⟨rfl, h₁⟩
          refine .goes ⟨i, rfl, rfl, ?_⟩
          rw [← Finset.union_assoc]
          exact h₁.setGp Reg.zero 0

/-- The machine in front of an environment call, as `do_syscall` finds it. -/
theorem emuStep_call {m : Machine} (hat : m.AtEcall) :
    emuStep fpu os m =
      (handleSyscall os { m.calling with state := m.calling.state.setGp Reg.zero 0 }).map
        Machine.enter := by
  rw [emuStep, execIter_call hat, ok_bind]
  rfl

theorem SameMachine.calling {m t : Machine} (h : SameMachine L m t) :
    SameMachine L m.calling t.calling where
  state := by
    unfold Machine.calling
    rw [h.state.pc]
    exact h.state.control _ _ _
  mmu := h.mmu
  inst := congrArg ecallRecord h.inst

theorem SameMachine.enter {m t : Machine} (h : SameMachine L m t) :
    SameMachine L m.enter t.enter :=
  { h with state := { h.state with exitReason := rfl } }

/-- What is live after an instruction other than a call, taken apart. -/
theorem subset_live_of_ne {i : Inst} (hne : i.type ≠ .ecall) (after : Finset Loc) :
    after ⊆ i.live after ∪ (i.type.writes i ∪ {.gp Reg.zero}) := by
  intro l hl
  have hmem := subset_live i after hl
  rwa [Inst.kills, if_neg hne, Finset.union_empty] at hmem

/-- The rest of a step, where the instruction was not a call. -/
theorem emuStep_rest {m t : Machine} {s s' : State} {i : Inst} (hmmu : t.mmu = m.mmu)
    (hleaves : i.continueExec = true →
      s.exitReason = .directBranch ∨ s.exitReason = .indirectBranch)
    (h : SameUpTo L s s') :
    Alike (SameMachine L)
      (if i.continueExec then leaveBlock os (m.withRun s i)
        else .ok (m.withRun { s with pc := s.pc + i.length } i))
      (if i.continueExec then leaveBlock os (t.withRun s' i)
        else .ok (t.withRun { s' with pc := s'.pc + i.length } i)) := by
  by_cases hc : i.continueExec = true
  · have hbranch := hleaves hc
    have hbranch' : s'.exitReason = .directBranch ∨ s'.exitReason = .indirectBranch := by
      rw [h.exitReason]
      exact hbranch
    rw [if_pos hc, if_pos hc, leaveBlock_branch (m := m.withRun s i) hbranch,
      leaveBlock_branch (m := t.withRun s' i) hbranch']
    exact .goes ⟨{ h with pc := h.reenterPc, exitReason := rfl }, hmmu, rfl⟩
  · rw [if_neg hc, if_neg hc]
    refine .goes ⟨{ h with pc := ?_ }, hmmu, rfl⟩
    exact congrArg (fun pc => pc + i.length) h.pc

/-- A step that answers a call: the arguments are live, and `x0` and `a0` are set. -/
theorem emuStep_alike_call {m t : Machine} (hat : m.AtEcall)
    (h : SameMachine ((ecallRecord m.inst).live after) m t) :
    Alike (SameMachine after) (emuStep fpu os m) (emuStep fpu os t) := by
  have hat' : t.AtEcall := by
    rw [Machine.AtEcall, h.state.pc, h.state.load]
    exact hat
  have hreads : InstType.ecall.reads {} ⊆ (ecallRecord m.inst).live after :=
    Finset.subset_union_left
  have hargs : InstType.ecall.reads {} ⊆ (ecallRecord m.inst).live after ∪ {.gp Reg.zero} :=
    hreads.trans Finset.subset_union_left
  have hcall : SameMachine ((ecallRecord m.inst).live after ∪ {.gp Reg.zero})
      { m.calling with state := m.calling.state.setGp Reg.zero 0 }
      { t.calling with state := t.calling.state.setGp Reg.zero 0 } :=
    ⟨h.calling.state.setGp Reg.zero 0, h.mmu, h.calling.inst⟩
  rw [emuStep_call hat, emuStep_call hat']
  refine (handleSyscall_alike hargs hcall).bind fun {m₁ t₁} h₁ => .goes (h₁.enter.mono ?_)
  intro l hl
  simpa [Inst.kills, InstType.writes, InstType.dest, ecallRecord, or_assoc] using
    subset_live (ecallRecord m.inst) after hl

/-- **What is live before a step decides what is live after it.** -/
theorem emuStep_alike {m t : Machine} (h : SameMachine (m.live after) m t) :
    Alike (SameMachine after) (emuStep fpu os m) (emuStep fpu os t) := by
  by_cases hat : m.AtEcall
  · refine emuStep_alike_call hat ?_
    rwa [Machine.live, hat, ok_bind, decodeInst_ecall] at h
  · have hnext {i : Inst} (hi : m.state.load m.state.pc 4 >>= decodeInst m.inst = .ok i) :
        m.live after = i.live after ∧ i.type ≠ .ecall := by
      obtain ⟨raw, hraw, hdec⟩ := bind_ok_inv hi
      refine ⟨?_, decodeInst_type_ne (fun hw => hat (by rw [Machine.AtEcall, hraw, hw])) hdec⟩
      rw [Machine.live, hi]
    have hreads (i : Inst) (hi : m.state.load m.state.pc 4 >>= decodeInst m.inst = .ok i) :
        i.type.reads i ⊆ m.live after := by
      rw [(hnext hi).1]
      exact Finset.subset_union_left
    have hexec := @execIter_alike fpu _ _ _ _ hreads h.state
    unfold emuStep
    rw [h.inst]
    cases hs : execIter fpu m.state m.inst with
    | error e =>
        rw [hexec.of_error hs]
        exact .stops e
    | ok p =>
        obtain ⟨s₁, i₁⟩ := p
        obtain ⟨⟨t₁, j₁⟩, ht, i, hi, rfl, h₁⟩ := hexec.of_ok hs
        obtain ⟨hlive, hne⟩ := hnext hi
        rw [hlive] at h₁
        rw [ht]
        refine emuStep_rest h.mmu (fun hc => ?_) (h₁.mono (subset_live_of_ne hne after))
        by_contra hbranch
        exact hat (execIter_ecall hs hc hbranch).1

/-- **Registers that are not live do not matter.**  Two machines that differ in nothing but
registers that are not live go side by side.  After every number of steps both have stopped for
the same reason, or they have come to machines that agree on what is live there; everything else
is the same, also what they have written. -/
theorem mainLoop_live {n k : Nat} (hk : k ≤ n) {m t : Machine}
    (h : SameMachine (m.enter.liveBefore fpu os n after) m t) :
    Alike (fun m' t' => SameMachine (m'.liveBefore fpu os (n - k) after) m' t')
      (mainLoop fpu os k m) (mainLoop fpu os k t) := by
  rw [mainLoop_eq_iter, mainLoop_eq_iter]
  have hlive : SameMachine (before (emuStep fpu os) Machine.live n after m.enter) m.enter t.enter :=
    h.enter
  exact iter_before emuStep_alike hk hlive

end

/-- `li t0, 7` and `addi t1, t0, 1`: what `t0` held before does not matter. -/
theorem mainLoop_live_overwritten :
    ∃ m₀ m t, mainLoop default grantingOs 2 m₀ = .ok m ∧
      mainLoop default grantingOs 2 { m₀ with state := m₀.state.setGp 5 99 } = .ok t ∧
      m.state.gp 6 = 8 ∧ SameMachine {.gp 6} m t := by
  have hok : (bootCode grantingOs [0x93, 0x02, 0x70, 0x00, 0x13, 0x83, 0x12, 0x00] >>= fun m₀ =>
      (mainLoop default grantingOs 2 m₀).map fun m =>
        (m₀.enter.liveBefore default grantingOs 2 {.gp 6}, m.state.gp 6)) =
          .ok ({.gp Reg.zero}, 8) := by
    decide +kernel
  obtain ⟨m₀, -, h⟩ := bind_ok_inv hok
  obtain ⟨m, hrun, h⟩ := map_ok_inv h
  obtain ⟨hlive, hvalue⟩ := Prod.mk.inj h
  have hsame : SameMachine (m₀.enter.liveBefore default grantingOs 2 {.gp 6}) m₀
      { m₀ with state := m₀.state.setGp 5 99 } := by
    rw [hlive]
    refine ⟨⟨rfl, rfl, rfl, rfl, fun r hr => ?_, fun _ _ => rfl⟩, rfl, rfl⟩
    have hzero : r = Reg.zero := by simpa using hr
    rw [hzero]
    exact Function.update_of_ne (show Reg.zero ≠ 5 by decide) 99 m₀.state.gpRegs
  obtain ⟨t, hrun', ht⟩ := (mainLoop_live (Nat.le_refl 2) hsame).of_ok hrun
  exact ⟨m₀, m, t, hrun, hrun', hvalue, ht⟩

end Rvemu
