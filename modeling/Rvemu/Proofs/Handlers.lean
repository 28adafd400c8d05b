/-
What a handler can touch.

Most handlers compute a register or a memory cell and nothing else.  `Plain` says
so once: such a handler returns the record it was given, leaves the program
counter, the exit reason and the re-entry address alone, and does not ask whether
the instruction was compressed.  It is proved for each family of handlers and
then read off the table for every instruction that does not transfer control.

What the branches, the jumps and the environment call do is stated exactly.
-/
import Rvemu.Interp

namespace Rvemu

/-- The instructions that may change the flow of control. -/
def InstType.isControl (t : InstType) : Bool :=
  t matches .beq | .bne | .blt | .bge | .bltu | .bgeu | .jalr | .jal | .ecall

/-- The record marked as compressed or not. -/
def Inst.withRvc (i : Inst) (b : Bool) : Inst := { i with rvc := b }

/-- The state with other control variables. -/
def State.withControl (s : State) (e : ExitReason) (p : Word) : State :=
  { s with exitReason := e, reenterPc := p }

/-- The handler transfers no control, and looks neither at the length nor at the control
variables. -/
structure Plain (h : Handler) : Prop where
  keeps : ∀ {s s' : State} {i i' : Inst}, h s i = .ok (s', i') →
    i' = i ∧ s'.pc = s.pc ∧ s'.exitReason = s.exitReason ∧ s'.reenterPc = s.reenterPc
  blind : ∀ (s : State) (i : Inst) (b : Bool),
    h s (i.withRvc b) = (h s i).map fun p => (p.1, p.2.withRvc b)
  controlBlind : ∀ (s : State) (i : Inst) (e : ExitReason) (p : Word),
    h (s.withControl e p) i = (h s i).map fun q => (q.1.withControl e p, q.2)

/-! ### Updates and the parts they leave alone -/

section Frame

variable (s : State) (r : RegNo)

@[simp] theorem setGp_pc (v : Word) : (s.setGp r v).pc = s.pc := rfl
@[simp] theorem setGp_exitReason (v : Word) : (s.setGp r v).exitReason = s.exitReason := rfl
@[simp] theorem setGp_reenterPc (v : Word) : (s.setGp r v).reenterPc = s.reenterPc := rfl
@[simp] theorem setGp_fpRegs (v : Word) : (s.setGp r v).fpRegs = s.fpRegs := rfl
@[simp] theorem setGp_world (v : Word) : (s.setGp r v).world = s.world := rfl
@[simp] theorem gp_setGp_self (v : Word) : (s.setGp r v).gp r = v := by
  simp [State.gp, State.setGp]
@[simp] theorem setFp_pc (v : FpReg) : (s.setFp r v).pc = s.pc := rfl
@[simp] theorem setFp_exitReason (v : FpReg) : (s.setFp r v).exitReason = s.exitReason := rfl
@[simp] theorem setFp_reenterPc (v : FpReg) : (s.setFp r v).reenterPc = s.reenterPc := rfl
@[simp] theorem setFp_gpRegs (v : FpReg) : (s.setFp r v).gpRegs = s.gpRegs := rfl
@[simp] theorem setFp_world (v : FpReg) : (s.setFp r v).world = s.world := rfl

@[simp] theorem debug_withControl (c : Bool) (t : String) (e : ExitReason) (p : Word) :
    (s.withControl e p).debug c t = (s.debug c t).withControl e p := by
  cases c <;> rfl

@[simp] theorem debug_pc (c : Bool) (t : String) : (s.debug c t).pc = s.pc := by
  cases c <;> rfl

@[simp] theorem debug_exitReason (c : Bool) (t : String) :
    (s.debug c t).exitReason = s.exitReason := by
  cases c <;> rfl

@[simp] theorem debug_reenterPc (c : Bool) (t : String) :
    (s.debug c t).reenterPc = s.reenterPc := by
  cases c <;> rfl

@[simp] theorem debug_gpRegs (c : Bool) (t : String) : (s.debug c t).gpRegs = s.gpRegs := by
  cases c <;> rfl

@[simp] theorem debug_fpRegs (c : Bool) (t : String) : (s.debug c t).fpRegs = s.fpRegs := by
  cases c <;> rfl

@[simp] theorem debug_mem (c : Bool) (t : String) :
    (s.debug c t).world.mem = s.world.mem := by
  cases c <;> rfl

end Frame

theorem toHost_add (a d : Word) : toHost (a + d) = toHost a + d := by
  unfold toHost
  ac_rfl

theorem toHost_sub (a d : Word) : toHost (a - d) = toHost a - d := by
  unfold toHost
  grind

/-- The state with another memory. -/
def State.withMem (s : State) (m : Memory.Mem 64) : State :=
  { s with world := { s.world with mem := m } }

/-- A store changes the memory and nothing else. -/
theorem store_inv {s s' : State} {a : Word} {n : Nat} {v : BitVec (8 * n)}
    (h : s.store a n v = .ok s') :
    ∃ m, s.world.mem.store (toHost a) n v = .ok m ∧ s' = s.withMem m := by
  unfold State.store at h
  split at h
  next m hm =>
    cases h
    exact ⟨m, hm, rfl⟩
  next => cases h

/-- What a fallible step followed by a pure one returns. -/
theorem bind_ok_inv {α β : Type} {x : Except Stop α} {f : α → Except Stop β} {b : β}
    (h : (x >>= f) = .ok b) : ∃ a, x = .ok a ∧ f a = .ok b := by
  cases x with
  | error e => cases h
  | ok a => exact ⟨a, rfl, h⟩

theorem map_ok_inv {α β : Type} {x : Except Stop α} {f : α → β} {b : β}
    (h : x.map f = .ok b) : ∃ a, x = .ok a ∧ f a = b := by
  cases x with
  | error e => cases h
  | ok a => exact ⟨a, rfl, Except.ok.inj h⟩

/-- Another reason for a failure leaves the results. -/
theorem mapError_ok_iff {ε ε' α : Type} {f : ε → ε'} {x : Except ε α} {a : α} :
    x.mapError f = .ok a ↔ x = .ok a := by
  cases x with
  | ok b => exact ⟨fun h => congrArg Except.ok (Except.ok.inj h), fun h =>
      congrArg Except.ok (Except.ok.inj h)⟩
  | error e => exact ⟨nofun, nofun⟩

theorem mapError_error_iff {ε ε' α : Type} {f : ε → ε'} {x : Except ε α} {e' : ε'} :
    x.mapError f = .error e' ↔ ∃ e, e' = f e ∧ x = .error e := by
  cases x with
  | ok b => exact ⟨nofun, nofun⟩
  | error e =>
      constructor
      · rintro ⟨⟩
        exact ⟨e, rfl, rfl⟩
      · rintro ⟨_, rfl, ⟨⟩⟩
        rfl

/-- Two computations that fail in the same way or succeed with related results. -/
def Agree {α β : Type} (R : α → β → Prop) : Except Stop α → Except Stop β → Prop
  | .ok a, .ok b => R a b
  | .error e, .error e' => e = e'
  | _, _ => False

theorem Agree.cases {α β : Type} {R : α → β → Prop} {x : Except Stop α} {y : Except Stop β}
    (h : Agree R x y) :
    (∃ e, x = .error e ∧ y = .error e) ∨ ∃ a b, x = .ok a ∧ y = .ok b ∧ R a b := by
  cases x with
  | error e =>
      cases y with
      | error e' => exact .inl ⟨e, rfl, congrArg _ (Eq.symm h)⟩
      | ok b => exact h.elim
  | ok a =>
      cases y with
      | error e' => exact h.elim
      | ok b => exact .inr ⟨a, b, rfl, rfl, h⟩

/-! ### The families of handlers -/

/-- A handler that updates the state in one way, whatever the length and the control
variables. -/
theorem plain_of_update {h : Handler} (upd : State → Inst → State)
    (hh : ∀ s i, h s i = .ok (upd s i, i))
    (hk : ∀ s i, (upd s i).pc = s.pc ∧ (upd s i).exitReason = s.exitReason ∧
      (upd s i).reenterPc = s.reenterPc)
    (hb : ∀ s i b, upd s (i.withRvc b) = upd s i)
    (hc : ∀ s i e p, upd (s.withControl e p) i = (upd s i).withControl e p) : Plain h where
  keeps := by
    intro s s' i i' hs
    rw [hh] at hs
    cases hs
    exact ⟨rfl, hk s i⟩
  blind := by
    intro s i b
    rw [hh, hh, hb]
    rfl
  controlBlind := by
    intro s i e p
    rw [hh, hh, hc]
    rfl

/-- The same for a handler whose update may fail before anything has changed. -/
theorem plain_of_bind {α : Type} {h : Handler} (pre : State → Inst → Except Stop α)
    (upd : State → Inst → α → State) (hh : ∀ s i, h s i = pre s i >>= fun a => .ok (upd s i a, i))
    (hk : ∀ s i a, (upd s i a).pc = s.pc ∧ (upd s i a).exitReason = s.exitReason ∧
      (upd s i a).reenterPc = s.reenterPc)
    (hp : ∀ s i b e p, pre (s.withControl e p) (i.withRvc b) = pre s i)
    (hb : ∀ s i b a, upd s (i.withRvc b) a = upd s i a)
    (hc : ∀ s i e p a, upd (s.withControl e p) i a = (upd s i a).withControl e p) : Plain h where
  keeps := by
    intro s s' i i' hs
    rw [hh] at hs
    obtain ⟨a, ha, hs⟩ := bind_ok_inv hs
    cases hs
    exact ⟨rfl, hk s i a⟩
  blind := by
    intro s i b
    rw [hh, hh, show pre s (i.withRvc b) = pre s i from hp s i b s.exitReason s.reenterPc]
    cases pre s i with
    | error e => rfl
    | ok a =>
        show Except.ok (upd s (i.withRvc b) a, i.withRvc b) = _
        rw [hb]
        rfl
  controlBlind := by
    intro s i e p
    rw [hh, hh, show pre (s.withControl e p) i = pre s i from hp s i i.rvc e p]
    cases pre s i with
    | error e => rfl
    | ok a =>
        show Except.ok (upd (s.withControl e p) i a, i) = _
        rw [hc]
        rfl

theorem funcEmpty_plain : Plain funcEmpty :=
  plain_of_update (fun s _ => s) (fun _ _ => rfl) (fun _ _ => ⟨rfl, rfl, rfl⟩) (fun _ _ _ => rfl)
    fun _ _ _ _ => rfl

theorem loadFunc_plain (n : Nat) (conv : BitVec (8 * n) → Word) : Plain (loadFunc n conv) :=
  plain_of_bind _ _ (fun _ _ => rfl) (fun _ _ _ => by simp) (fun _ _ _ _ _ => rfl)
    (fun _ _ _ _ => rfl) fun s i e p a => debug_withControl (s.setGp i.rd (conv a)) _ _ e p

theorem aluImmFunc_plain (expr : Word → Word → Word) : Plain (aluImmFunc expr) :=
  plain_of_update _ (fun _ _ => rfl) (fun _ _ => by simp) (fun _ _ _ => rfl) fun s i e p =>
    debug_withControl (s.setGp i.rd (expr (s.gp i.rs1) (i.imm.signExtend 64))) _ _ e p

theorem funcAuipc_plain : Plain funcAuipc :=
  plain_of_update _ (fun _ _ => rfl) (fun _ _ => by simp) (fun _ _ _ => rfl) fun _ _ _ _ => rfl

/-- A store, as a computation of the new memory. -/
theorem store_eq (s : State) (a : Word) (n : Nat) (v : BitVec (8 * n)) :
    s.store a n v =
      (s.world.mem.store (toHost a) n v).mapError .segv >>= fun m => .ok (s.withMem m) := by
  unfold State.store
  cases s.world.mem.store (toHost a) n v <;> rfl

theorem storeFunc_plain (n : Nat) : Plain (storeFunc n) := by
  refine plain_of_bind (fun s i => (s.world.mem.store (toHost (s.gp i.rs1 + i.imm.signExtend 64)) n
      ((s.gp i.rs2).setWidth (8 * n))).mapError .segv)
    (fun s i m => (s.withMem m).debug (s.gp i.rs1 + i.imm.signExtend 64 == 0x201bc30)
      ("DEBUG: store to " ++ hex (s.gp i.rs1 + i.imm.signExtend 64) ++ " val=" ++
        hex (s.gp i.rs2) ++ " at pc=" ++ hex s.pc ++ "\n"))
    (fun s i => ?_) (fun _ _ _ => by simp [State.withMem]) (fun _ _ _ _ _ => rfl)
    (fun _ _ _ _ => rfl) fun s _ e p m => debug_withControl (s.withMem m) _ _ e p
  simp only [storeFunc, store_eq, bind_assoc]
  rfl

theorem aluFunc_plain (expr : Word → Word → Word) : Plain (aluFunc expr) :=
  plain_of_update _ (fun _ _ => rfl) (fun _ _ => by simp) (fun _ _ _ => rfl) fun _ _ _ _ => rfl

theorem trapAluFunc_plain (expr : Word → Word → Except Stop Word) : Plain (trapAluFunc expr) :=
  plain_of_bind _ _ (fun _ _ => rfl) (fun _ _ _ => by simp) (fun _ _ _ _ _ => rfl)
    (fun _ _ _ _ => rfl) fun _ _ _ _ _ => rfl

theorem funcLui_plain : Plain funcLui :=
  plain_of_update _ (fun _ _ => rfl) (fun _ _ => by simp) (fun _ _ _ => rfl) fun _ _ _ _ => rfl

/-- The three registers the CSR instructions know read as zero. -/
def csrValue (i : Inst) : Except Stop Word :=
  match i.csr.toNat with
  | 0x001 => .ok 0
  | 0x002 => .ok 0
  | 0x003 => .ok 0
  | _ => .error (.fatal "unsupported csr")

theorem csrFunc_eq (s : State) (i : Inst) :
    csrFunc s i = csrValue i >>= fun v => .ok (s.setGp i.rd v, i) := by
  unfold csrFunc csrValue
  rcases i.csr.toNat with _ | _ | _ | _ | n <;> rfl

theorem csrFunc_plain : Plain csrFunc :=
  plain_of_bind _ _ csrFunc_eq (fun _ _ _ => by simp) (fun _ _ _ _ _ => rfl)
    (fun _ _ _ _ => rfl) fun _ _ _ _ _ => rfl

theorem funcFlw_plain : Plain funcFlw :=
  plain_of_bind _ _ (fun _ _ => rfl) (fun _ _ _ => by simp) (fun _ _ _ _ _ => rfl)
    (fun _ _ _ _ => rfl) fun _ _ _ _ _ => rfl

theorem funcFld_plain : Plain funcFld :=
  plain_of_bind _ _ (fun _ _ => rfl) (fun _ _ _ => by simp) (fun _ _ _ _ _ => rfl)
    (fun _ _ _ _ => rfl) fun _ _ _ _ _ => rfl

theorem storeFpFunc_plain (n : Nat) : Plain (storeFpFunc n) := by
  refine plain_of_bind (fun s i => (s.world.mem.store (toHost (s.gp i.rs1 + i.imm.signExtend 64)) n
      ((s.fp i.rs2).v.setWidth (8 * n))).mapError .segv)
    (fun s _ m => s.withMem m) (fun s i => ?_) (fun _ _ _ => ⟨rfl, rfl, rfl⟩)
    (fun _ _ _ _ _ => rfl) (fun _ _ _ _ => rfl) fun _ _ _ _ _ => rfl
  simp only [storeFpFunc, store_eq, bind_assoc]
  rfl

theorem fma32Func_plain (expr : F32 → F32 → F32 → F32) : Plain (fma32Func expr) :=
  plain_of_update _ (fun _ _ => rfl) (fun _ _ => by simp) (fun _ _ _ => rfl) fun _ _ _ _ => rfl

theorem fma64Func_plain (expr : F64 → F64 → F64 → F64) : Plain (fma64Func expr) :=
  plain_of_update _ (fun _ _ => rfl) (fun _ _ => by simp) (fun _ _ _ => rfl) fun _ _ _ _ => rfl

theorem fp32Func_plain (expr : F32 → F32 → F32) : Plain (fp32Func expr) :=
  plain_of_update _ (fun _ _ => rfl) (fun _ _ => by simp) (fun _ _ _ => rfl) fun _ _ _ _ => rfl

theorem fp64Func_plain (expr : F64 → F64 → F64) : Plain (fp64Func expr) :=
  plain_of_update _ (fun _ _ => rfl) (fun _ _ => by simp) (fun _ _ _ => rfl) fun _ _ _ _ => rfl

theorem fsgnj32Func_plain (n x : Bool) : Plain (fsgnj32Func n x) :=
  plain_of_update _ (fun _ _ => rfl) (fun _ _ => by simp) (fun _ _ _ => rfl) fun _ _ _ _ => rfl

theorem fsgnj64Func_plain (n x : Bool) : Plain (fsgnj64Func n x) :=
  plain_of_update _ (fun _ _ => rfl) (fun _ _ => by simp) (fun _ _ _ => rfl) fun _ _ _ _ => rfl

theorem fpToGpFunc_plain (expr : FpReg → Word) : Plain (fpToGpFunc expr) :=
  plain_of_update _ (fun _ _ => rfl) (fun _ _ => by simp) (fun _ _ _ => rfl) fun _ _ _ _ => rfl

theorem gpToF32Func_plain (expr : Word → F32) : Plain (gpToF32Func expr) :=
  plain_of_update _ (fun _ _ => rfl) (fun _ _ => by simp) (fun _ _ _ => rfl) fun _ _ _ _ => rfl

theorem gpToF64Func_plain (expr : Word → F64) : Plain (gpToF64Func expr) :=
  plain_of_update _ (fun _ _ => rfl) (fun _ _ => by simp) (fun _ _ _ => rfl) fun _ _ _ _ => rfl

theorem funcFmvWX_plain : Plain funcFmvWX :=
  plain_of_update _ (fun _ _ => rfl) (fun _ _ => by simp) (fun _ _ _ => rfl) fun _ _ _ _ => rfl

theorem funcFmvDX_plain : Plain funcFmvDX :=
  plain_of_update _ (fun _ _ => rfl) (fun _ _ => by simp) (fun _ _ _ => rfl) fun _ _ _ _ => rfl

theorem fcmp32Func_plain (expr : F32 → F32 → Bool) : Plain (fcmp32Func expr) :=
  plain_of_update _ (fun _ _ => rfl) (fun _ _ => by simp) (fun _ _ _ => rfl) fun _ _ _ _ => rfl

theorem fcmp64Func_plain (expr : F64 → F64 → Bool) : Plain (fcmp64Func expr) :=
  plain_of_update _ (fun _ _ => rfl) (fun _ _ => by simp) (fun _ _ _ => rfl) fun _ _ _ _ => rfl

variable (fpu : HostFpu)

theorem funcFcvtSD_plain : Plain (funcFcvtSD fpu) :=
  plain_of_update _ (fun _ _ => rfl) (fun _ _ => by simp) (fun _ _ _ => rfl) fun _ _ _ _ => rfl

theorem funcFcvtDS_plain : Plain (funcFcvtDS fpu) :=
  plain_of_update _ (fun _ _ => rfl) (fun _ _ => by simp) (fun _ _ _ => rfl) fun _ _ _ _ => rfl

/-! ### The table -/

/-- The handler of each instruction, by name. -/
def handler : InstType → Handler
  | .lb => funcLb
  | .lh => funcLh
  | .lw => funcLw
  | .ld => funcLd
  | .lbu => funcLbu
  | .lhu => funcLhu
  | .lwu => funcLwu
  | .fence => funcEmpty
  | .fence_i => funcEmpty
  | .addi => funcAddi
  | .slli => funcSlli
  | .slti => funcSlti
  | .sltiu => funcSltiu
  | .xori => funcXori
  | .srli => funcSrli
  | .srai => funcSrai
  | .ori => funcOri
  | .andi => funcAndi
  | .auipc => funcAuipc
  | .addiw => funcAddiw
  | .slliw => funcSlliw
  | .srliw => funcSrliw
  | .sraiw => funcSraiw
  | .sb => funcSb
  | .sh => funcSh
  | .sw => funcSw
  | .sd => funcSd
  | .add => funcAdd
  | .sll => funcSll
  | .slt => funcSlt
  | .sltu => funcSltu
  | .xor => funcXor
  | .srl => funcSrl
  | .or => funcOr
  | .and => funcAnd
  | .mul => funcMul
  | .mulh => funcMulh
  | .mulhsu => funcMulhsu
  | .mulhu => funcMulhu
  | .div => funcDiv
  | .divu => funcDivu
  | .rem => funcRem
  | .remu => funcRemu
  | .sub => funcSub
  | .sra => funcSra
  | .lui => funcLui
  | .addw => funcAddw
  | .sllw => funcSllw
  | .srlw => funcSrlw
  | .mulw => funcMulw
  | .divw => funcDivw
  | .divuw => funcDivuw
  | .remw => funcRemw
  | .remuw => funcRemuw
  | .subw => funcSubw
  | .sraw => funcSraw
  | .beq => funcBeq
  | .bne => funcBne
  | .blt => funcBlt
  | .bge => funcBge
  | .bltu => funcBltu
  | .bgeu => funcBgeu
  | .jalr => funcJalr
  | .jal => funcJal
  | .ecall => funcEcall
  | .csrrc => funcCsrrc
  | .csrrci => funcCsrrci
  | .csrrs => funcCsrrs
  | .csrrsi => funcCsrrsi
  | .csrrw => funcCsrrw
  | .csrrwi => funcCsrrwi
  | .flw => funcFlw
  | .fsw => funcFsw
  | .fmadd_s => funcFmaddS fpu
  | .fmsub_s => funcFmsubS fpu
  | .fnmsub_s => funcFnmsubS fpu
  | .fnmadd_s => funcFnmaddS fpu
  | .fadd_s => funcFaddS fpu
  | .fsub_s => funcFsubS fpu
  | .fmul_s => funcFmulS fpu
  | .fdiv_s => funcFdivS fpu
  | .fsqrt_s => funcFsqrtS fpu
  | .fsgnj_s => funcFsgnjS
  | .fsgnjn_s => funcFsgnjnS
  | .fsgnjx_s => funcFsgnjxS
  | .fmin_s => funcFminS fpu
  | .fmax_s => funcFmaxS fpu
  | .fcvt_w_s => funcFcvtWS fpu
  | .fcvt_wu_s => funcFcvtWuS fpu
  | .fmv_x_w => funcFmvXW
  | .feq_s => funcFeqS fpu
  | .flt_s => funcFltS fpu
  | .fle_s => funcFleS fpu
  | .fclass_s => funcFclassS
  | .fcvt_s_w => funcFcvtSW fpu
  | .fcvt_s_wu => funcFcvtSWu fpu
  | .fmv_w_x => funcFmvWX
  | .fcvt_l_s => funcFcvtLS fpu
  | .fcvt_lu_s => funcFcvtLuS fpu
  | .fcvt_s_l => funcFcvtSL fpu
  | .fcvt_s_lu => funcFcvtSLu fpu
  | .fld => funcFld
  | .fsd => funcFsd
  | .fmadd_d => funcFmaddD fpu
  | .fmsub_d => funcFmsubD fpu
  | .fnmsub_d => funcFnmsubD fpu
  | .fnmadd_d => funcFnmaddD fpu
  | .fadd_d => funcFaddD fpu
  | .fsub_d => funcFsubD fpu
  | .fmul_d => funcFmulD fpu
  | .fdiv_d => funcFdivD fpu
  | .fsqrt_d => funcFsqrtD fpu
  | .fsgnj_d => funcFsgnjD
  | .fsgnjn_d => funcFsgnjnD
  | .fsgnjx_d => funcFsgnjxD
  | .fmin_d => funcFminD fpu
  | .fmax_d => funcFmaxD fpu
  | .fcvt_s_d => funcFcvtSD fpu
  | .fcvt_d_s => funcFcvtDS fpu
  | .feq_d => funcFeqD fpu
  | .flt_d => funcFltD fpu
  | .fle_d => funcFleD fpu
  | .fclass_d => funcFclassD
  | .fcvt_w_d => funcFcvtWD fpu
  | .fcvt_wu_d => funcFcvtWuD fpu
  | .fcvt_d_w => funcFcvtDW fpu
  | .fcvt_d_wu => funcFcvtDWu fpu
  | .fcvt_l_d => funcFcvtLD fpu
  | .fcvt_lu_d => funcFcvtLuD fpu
  | .fmv_x_d => funcFmvXD
  | .fcvt_d_l => funcFcvtDL fpu
  | .fcvt_d_lu => funcFcvtDLu fpu
  | .fmv_d_x => funcFmvDX

/-- The table holds every handler at its own instruction's place, but that the six CSR
handlers, which are one and the same, are permuted. -/
theorem func_eq_handler (t : InstType) : func fpu t = handler fpu t := by
  cases t <;> rfl

/-- Every handler in the table is plain, but for those that transfer control. -/
theorem func_plain {t : InstType} (ht : t.isControl = false) : Plain (func fpu t) := by
  rw [func_eq_handler]
  cases t
  case beq | bne | blt | bge | bltu | bgeu | jalr | jal | ecall => cases ht
  all_goals simp only [handler]
  case lb | lh | lw | ld | lbu | lhu | lwu => exact loadFunc_plain _ _
  case fence | fence_i => exact funcEmpty_plain
  case addi | slli | slti | sltiu | xori | srli | srai | ori | andi | addiw | slliw | srliw
      | sraiw =>
    exact aluImmFunc_plain _
  case auipc => exact funcAuipc_plain
  case sb | sh | sw | sd => exact storeFunc_plain _
  case add | sll | slt | sltu | xor | srl | or | and | mul | mulh | mulhsu | mulhu | sub | sra
      | addw | sllw | srlw | mulw | subw | sraw =>
    exact aluFunc_plain _
  case div | divu | rem | remu | divw | divuw | remw | remuw => exact trapAluFunc_plain _
  case lui => exact funcLui_plain
  case csrrc | csrrci | csrrs | csrrsi | csrrw | csrrwi => exact csrFunc_plain
  case flw => exact funcFlw_plain
  case fld => exact funcFld_plain
  case fsw | fsd => exact storeFpFunc_plain _
  case fmadd_s | fmsub_s | fnmsub_s | fnmadd_s => exact fma32Func_plain _
  case fmadd_d | fmsub_d | fnmsub_d | fnmadd_d => exact fma64Func_plain _
  case fadd_s | fsub_s | fmul_s | fdiv_s | fsqrt_s | fmin_s | fmax_s => exact fp32Func_plain _
  case fadd_d | fsub_d | fmul_d | fdiv_d | fsqrt_d | fmin_d | fmax_d => exact fp64Func_plain _
  case fsgnj_s | fsgnjn_s | fsgnjx_s => exact fsgnj32Func_plain _ _
  case fsgnj_d | fsgnjn_d | fsgnjx_d => exact fsgnj64Func_plain _ _
  case fcvt_w_s | fcvt_wu_s | fcvt_l_s | fcvt_lu_s | fmv_x_w | fclass_s | fcvt_w_d | fcvt_wu_d
      | fcvt_l_d | fcvt_lu_d | fmv_x_d | fclass_d =>
    exact fpToGpFunc_plain _
  case fcvt_s_w | fcvt_s_wu | fcvt_s_l | fcvt_s_lu => exact gpToF32Func_plain _
  case fcvt_d_w | fcvt_d_wu | fcvt_d_l | fcvt_d_lu => exact gpToF64Func_plain _
  case fmv_w_x => exact funcFmvWX_plain
  case fmv_d_x => exact funcFmvDX_plain
  case feq_s | flt_s | fle_s => exact fcmp32Func_plain _
  case feq_d | flt_d | fle_d => exact fcmp64Func_plain _
  case fcvt_s_d => exact funcFcvtSD_plain fpu
  case fcvt_d_s => exact funcFcvtDS_plain fpu

/-! ### Branches and jumps -/

/-- A branch that is taken. -/
def State.takeBranch (s : State) (target : Word) : State :=
  { s with reenterPc := target, pc := target, exitReason := .directBranch }

theorem branchFunc_eq (expr : Word → Word → Bool) (s : State) (i : Inst) :
    branchFunc expr s i =
      .ok (if expr (s.gp i.rs1) (s.gp i.rs2)
        then (s.takeBranch (s.pc + i.imm.signExtend 64), { i with continueExec := true })
        else (s, i)) := by
  unfold branchFunc
  cases h : expr (s.gp i.rs1) (s.gp i.rs2) <;> simp [h, State.takeBranch]

/-- The address a jump leaves in its link register. -/
def Inst.link (i : Inst) (s : State) : Word := s.pc + i.length

theorem funcJal_eq (s : State) (i : Inst) :
    funcJal s i =
      .ok ((s.setGp i.rd (i.link s)).takeBranch (s.pc + i.imm.signExtend 64), i) := rfl

/-- Where `jalr` goes. -/
def Inst.jalrTarget (i : Inst) (s : State) : Word :=
  (s.gp i.rs1 + i.imm.signExtend 64) &&& ~~~1

/-- What `jalr` prints when it jumps to address zero. -/
def jalrReport (s : State) (i : Inst) (p : BitVec 32) : List String :=
  ["DEBUG: jalr to 0 at pc=" ++ hex s.pc ++ ". rs1_reg=" ++ toString i.rs1.toNat ++ " rs1_val=" ++
      hex (s.gp i.rs1) ++ ", imm=" ++ toString i.imm.toInt ++ ", sp=" ++
      hex ((s.setGp i.rd (i.link s)).gp 2) ++ "\n",
    "Inst bytes: " ++ hexByte (p.extractLsb' 0 8) ++ " " ++ hexByte (p.extractLsb' 8 8) ++ " " ++
      hexByte (p.extractLsb' 16 8) ++ " " ++ hexByte (p.extractLsb' 24 8) ++ "\n"]

/-- The state `jalr` leaves, after it has printed `lines`. -/
def jalrState (s : State) (i : Inst) (lines : List String) : State :=
  { (lines.foldl State.eprint s).setGp i.rd (i.link s) with
    exitReason := .indirectBranch, reenterPc := i.jalrTarget s }

theorem funcJalr_eq (s : State) (i : Inst) :
    funcJalr s i =
      if i.jalrTarget s = 0 then
        (s.load s.pc 4).map fun p => (jalrState s i (jalrReport s i p), i)
      else .ok (jalrState s i [], i) := by
  by_cases h : i.jalrTarget s = 0
  · rw [if_pos h]
    simp only [Inst.jalrTarget] at h
    simp only [funcJalr, if_pos h]
    show (s.load s.pc 4 >>= _) = _
    cases s.load s.pc 4 <;> rfl
  · rw [if_neg h]
    simp only [Inst.jalrTarget] at h
    simp only [funcJalr, if_neg h]
    rfl

theorem funcJalr_inv {s s' : State} {i i' : Inst} (h : funcJalr s i = .ok (s', i')) :
    i' = i ∧ ∃ lines, s' = jalrState s i lines := by
  rw [funcJalr_eq] at h
  split at h
  · cases hload : s.load s.pc 4 with
    | error e =>
        rw [hload] at h
        cases h
    | ok p =>
        rw [hload] at h
        cases h
        exact ⟨rfl, _, rfl⟩
  · cases h
    exact ⟨rfl, _, rfl⟩

/-- Printing changes the world and nothing else. -/
theorem foldl_eprint (lines : List String) (s : State) :
    lines.foldl State.eprint s = { s with world := (lines.foldl State.eprint s).world } := by
  induction lines generalizing s with
  | nil => rfl
  | cons l rest ih =>
      rw [List.foldl_cons, ih (s.eprint l)]
      rfl

theorem foldl_eprint_mem (lines : List String) (s : State) :
    (lines.foldl State.eprint s).world.mem = s.world.mem := by
  induction lines generalizing s with
  | nil => rfl
  | cons l rest ih => exact ih (s.eprint l)

theorem funcEcall_eq (s : State) (i : Inst) :
    funcEcall s i = .ok ({ s with exitReason := .ecall, reenterPc := s.pc + 4 }, i) := rfl

end Rvemu
