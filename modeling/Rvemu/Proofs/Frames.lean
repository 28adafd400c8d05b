/-
What an instruction leaves alone.

No instruction changes what is mapped, and an instruction touches one floating-point
register at most, its destination.  `FpEffect` says how: the instructions with a
single-precision result come in two kinds, those that write all eight bytes of the
register and those that assign the lower four through a member of the union.

Every handler is an update of the state, possibly after a computation that may fail,
so the facts are about the update.
-/
import Rvemu.Proofs.Handlers

namespace Rvemu

/-- How an instruction writes its floating-point destination. -/
inductive FpEffect
  /-- It has none. -/
  | untouched
  /-- All eight bytes, the upper four of them ones. -/
  | boxed
  /-- The lower four bytes. -/
  | lowHalf
  /-- All eight bytes. -/
  | whole
  deriving DecidableEq, Repr

/-- The upper four bytes of a floating-point register. -/
def FpReg.upper (r : FpReg) : BitVec 32 := r.v.extractLsb' 32 32

/-- What may become of the old contents of the destination. -/
def FpEffect.Allows : FpEffect → FpReg → FpReg → Prop
  | .untouched, old, new => new = old
  | .boxed, _, new => new.upper = BitVec.allOnes 32
  | .lowHalf, old, new => new.upper = old.upper
  | .whole, _, _ => True

/-- How each instruction writes its floating-point destination. -/
def InstType.fpEffect : InstType → FpEffect
  | .flw | .fsgnj_s | .fsgnjn_s | .fsgnjx_s => .boxed
  | .fmadd_s | .fmsub_s | .fnmsub_s | .fnmadd_s
  | .fadd_s | .fsub_s | .fmul_s | .fdiv_s | .fsqrt_s | .fmin_s | .fmax_s
  | .fcvt_s_w | .fcvt_s_wu | .fcvt_s_l | .fcvt_s_lu | .fcvt_s_d | .fmv_w_x => .lowHalf
  | .fld
  | .fmadd_d | .fmsub_d | .fnmsub_d | .fnmadd_d
  | .fadd_d | .fsub_d | .fmul_d | .fdiv_d | .fsqrt_d | .fmin_d | .fmax_d
  | .fsgnj_d | .fsgnjn_d | .fsgnjx_d
  | .fcvt_d_w | .fcvt_d_wu | .fcvt_d_l | .fcvt_d_lu | .fcvt_d_s | .fmv_d_x => .whole
  | _ => .untouched

/-- A handler that changes no protection, of the floating-point registers the destination
alone, in the way `e` allows, and of the record perhaps the mark that ends a block. -/
structure Writes (e : FpEffect) (h : Handler) : Prop where
  prot : ∀ {s s' : State} {i i' : Inst}, h s i = .ok (s', i') →
    s'.world.mem.prot = s.world.mem.prot
  fpRegs : ∀ {s s' : State} {i i' : Inst}, h s i = .ok (s', i') →
    ∃ v, e.Allows (s.fp i.rd) v ∧ s'.fpRegs = Function.update s.fpRegs i.rd v
  record : ∀ {s s' : State} {i i' : Inst}, h s i = .ok (s', i') → i'.type = i.type ∧ i'.rd = i.rd

/-- The three facts at once, where the states are at hand. -/
theorem writes_of {e : FpEffect} {h : Handler}
    (hw : ∀ {s s' : State} {i i' : Inst}, h s i = .ok (s', i') →
      s'.world.mem.prot = s.world.mem.prot ∧
        (∃ v, e.Allows (s.fp i.rd) v ∧ s'.fpRegs = Function.update s.fpRegs i.rd v) ∧
        i'.type = i.type ∧ i'.rd = i.rd) : Writes e h :=
  ⟨fun hs => (hw hs).1, fun hs => (hw hs).2.1, fun hs => (hw hs).2.2⟩

/-! ### The two shapes of a handler -/

theorem writes_of_update {e : FpEffect} {h : Handler} (upd : State → Inst → State)
    (hh : ∀ s i, h s i = .ok (upd s i, i))
    (hp : ∀ s i, (upd s i).world.mem.prot = s.world.mem.prot)
    (hf : ∀ s i, ∃ v, e.Allows (s.fp i.rd) v ∧
      (upd s i).fpRegs = Function.update s.fpRegs i.rd v) : Writes e h := by
  refine writes_of fun {s s' i i'} hs => ?_
  rw [hh] at hs
  cases hs
  exact ⟨hp s i, hf s i, rfl, rfl⟩

/-- An update of the floating-point destination and of nothing else. -/
theorem writes_of_setFp {e : FpEffect} {h : Handler} (val : State → Inst → FpReg)
    (hh : ∀ s i, h s i = .ok (s.setFp i.rd (val s i), i))
    (hv : ∀ s i, e.Allows (s.fp i.rd) (val s i)) : Writes e h :=
  writes_of_update _ hh (fun _ _ => rfl) fun s i => ⟨val s i, hv s i, rfl⟩

/-- A computation that may fail, and then an update. -/
theorem writes_of_bind {α : Type} {e : FpEffect} {h : Handler}
    (pre : State → Inst → Except Stop α) (upd : State → Inst → α → State)
    (hh : ∀ s i, h s i = pre s i >>= fun a => .ok (upd s i a, i))
    (hp : ∀ s i a, pre s i = .ok a → (upd s i a).world.mem.prot = s.world.mem.prot)
    (hf : ∀ s i a, ∃ v, e.Allows (s.fp i.rd) v ∧
      (upd s i a).fpRegs = Function.update s.fpRegs i.rd v) : Writes e h := by
  refine writes_of fun {s s' i i'} hs => ?_
  rw [hh] at hs
  obtain ⟨a, ha, hs⟩ := bind_ok_inv hs
  cases hs
  exact ⟨hp s i a ha, hf s i a, rfl, rfl⟩

/-- What leaves the registers alone leaves the destination alone. -/
theorem untouched_of_eq {s s' : State} (r : RegNo) (h : s'.fpRegs = s.fpRegs) :
    ∃ v, FpEffect.untouched.Allows (s.fp r) v ∧ s'.fpRegs = Function.update s.fpRegs r v :=
  ⟨s.fp r, rfl, by rw [h]; exact (Function.update_eq_self r s.fpRegs).symm⟩

/-! ### The families -/

theorem funcEmpty_writes : Writes .untouched funcEmpty :=
  writes_of_update (fun s _ => s) (fun _ _ => rfl) (fun _ _ => rfl) fun _ _ =>
    untouched_of_eq _ rfl

theorem loadFunc_writes (n : Nat) (conv : BitVec (8 * n) → Word) :
    Writes .untouched (loadFunc n conv) :=
  writes_of_bind _ _ (fun _ _ => rfl) (fun _ _ _ _ => by simp) fun _ _ _ =>
    untouched_of_eq _ (by simp)

theorem aluImmFunc_writes (expr : Word → Word → Word) : Writes .untouched (aluImmFunc expr) :=
  writes_of_update _ (fun _ _ => rfl) (fun _ _ => by simp) fun _ _ => untouched_of_eq _ (by simp)

theorem funcAuipc_writes : Writes .untouched funcAuipc :=
  writes_of_update _ (fun _ _ => rfl) (fun _ _ => rfl) fun _ _ => untouched_of_eq _ rfl

theorem aluFunc_writes (expr : Word → Word → Word) : Writes .untouched (aluFunc expr) :=
  writes_of_update _ (fun _ _ => rfl) (fun _ _ => rfl) fun _ _ => untouched_of_eq _ rfl

theorem trapAluFunc_writes (expr : Word → Word → Except Stop Word) :
    Writes .untouched (trapAluFunc expr) :=
  writes_of_bind _ _ (fun _ _ => rfl) (fun _ _ _ _ => rfl) fun _ _ _ => untouched_of_eq _ rfl

theorem funcLui_writes : Writes .untouched funcLui :=
  writes_of_update _ (fun _ _ => rfl) (fun _ _ => rfl) fun _ _ => untouched_of_eq _ rfl

/-- A store changes bytes and no protection. -/
theorem state_store_prot {s s' : State} {a : Word} {n : Nat} {v : BitVec (8 * n)}
    (h : s.store a n v = .ok s') :
    s'.world.mem.prot = s.world.mem.prot ∧ s'.fpRegs = s.fpRegs := by
  obtain ⟨m, hm, rfl⟩ := store_inv h
  exact ⟨Memory.Mem.store_prot hm, rfl⟩

theorem storeFunc_writes (n : Nat) : Writes .untouched (storeFunc n) := by
  refine writes_of fun {s s' i i'} h => ?_
  obtain ⟨s₁, hs₁, h⟩ := bind_ok_inv h
  cases h
  obtain ⟨hprot, hfp⟩ := state_store_prot hs₁
  exact ⟨by simp [hprot], untouched_of_eq _ (by simp [hfp]), rfl, rfl⟩

theorem storeFpFunc_writes (n : Nat) : Writes .untouched (storeFpFunc n) := by
  refine writes_of fun {s s' i i'} h => ?_
  obtain ⟨s₁, hs₁, h⟩ := bind_ok_inv h
  cases h
  obtain ⟨hprot, hfp⟩ := state_store_prot hs₁
  exact ⟨hprot, untouched_of_eq _ hfp, rfl, rfl⟩

theorem csrFunc_writes : Writes .untouched csrFunc :=
  writes_of_bind _ _ csrFunc_eq (fun _ _ _ _ => rfl) fun _ _ _ => untouched_of_eq _ rfl

theorem fpToGpFunc_writes (expr : FpReg → Word) : Writes .untouched (fpToGpFunc expr) :=
  writes_of_update _ (fun _ _ => rfl) (fun _ _ => rfl) fun _ _ => untouched_of_eq _ rfl

theorem fcmp32Func_writes (expr : F32 → F32 → Bool) : Writes .untouched (fcmp32Func expr) :=
  writes_of_update _ (fun _ _ => rfl) (fun _ _ => rfl) fun _ _ => untouched_of_eq _ rfl

theorem fcmp64Func_writes (expr : F64 → F64 → Bool) : Writes .untouched (fcmp64Func expr) :=
  writes_of_update _ (fun _ _ => rfl) (fun _ _ => rfl) fun _ _ => untouched_of_eq _ rfl

/-- A value or-ed with ones in its upper half is boxed. -/
theorem boxed_upper (r : FpReg) (x : BitVec 32) :
    (r.setV (x.setWidth 64 ||| upperOnes)).upper = BitVec.allOnes 32 := by
  have hones : upperOnes.extractLsb' 32 32 = BitVec.allOnes 32 := by decide
  have hzero : (x.setWidth 64).extractLsb' 32 32 = 0#32 := by
    apply BitVec.eq_of_getLsbD_eq
    intro k hk
    simp
  show (x.setWidth 64 ||| upperOnes).extractLsb' 32 32 = _
  rw [BitVec.extractLsb'_or, hones, hzero, BitVec.zero_or]

theorem setF_upper (r : FpReg) (x : F32) : (r.setF x).upper = r.upper := by
  show (r.v.extractLsb' 32 32 ++ x).extractLsb' 32 32 = _
  rw [BitVec.extractLsb'_append_eq_left]
  rfl

theorem setW_upper (r : FpReg) (x : BitVec 32) : (r.setW x).upper = r.upper := setF_upper r x

theorem funcFlw_writes : Writes .boxed funcFlw :=
  writes_of_bind _ _ (fun _ _ => rfl) (fun _ _ _ _ => rfl) fun _ _ _ => ⟨_, boxed_upper _ _, rfl⟩

theorem funcFld_writes : Writes .whole funcFld :=
  writes_of_bind _ _ (fun _ _ => rfl) (fun _ _ _ _ => rfl) fun _ _ _ => ⟨_, trivial, rfl⟩

theorem fma32Func_writes (expr : F32 → F32 → F32 → F32) : Writes .lowHalf (fma32Func expr) :=
  writes_of_setFp _ (fun _ _ => rfl) fun _ _ => setF_upper _ _

theorem fma64Func_writes (expr : F64 → F64 → F64 → F64) : Writes .whole (fma64Func expr) :=
  writes_of_setFp _ (fun _ _ => rfl) fun _ _ => trivial

theorem fp32Func_writes (expr : F32 → F32 → F32) : Writes .lowHalf (fp32Func expr) :=
  writes_of_setFp _ (fun _ _ => rfl) fun _ _ => setF_upper _ _

theorem fp64Func_writes (expr : F64 → F64 → F64) : Writes .whole (fp64Func expr) :=
  writes_of_setFp _ (fun _ _ => rfl) fun _ _ => trivial

theorem fsgnj32Func_writes (n x : Bool) : Writes .boxed (fsgnj32Func n x) :=
  writes_of_setFp _ (fun _ _ => rfl) fun _ _ => boxed_upper _ _

theorem fsgnj64Func_writes (n x : Bool) : Writes .whole (fsgnj64Func n x) :=
  writes_of_setFp _ (fun _ _ => rfl) fun _ _ => trivial

theorem gpToF32Func_writes (expr : Word → F32) : Writes .lowHalf (gpToF32Func expr) :=
  writes_of_setFp _ (fun _ _ => rfl) fun _ _ => setF_upper _ _

theorem gpToF64Func_writes (expr : Word → F64) : Writes .whole (gpToF64Func expr) :=
  writes_of_setFp _ (fun _ _ => rfl) fun _ _ => trivial

theorem funcFmvWX_writes : Writes .lowHalf funcFmvWX :=
  writes_of_setFp _ (fun _ _ => rfl) fun _ _ => setW_upper _ _

theorem funcFmvDX_writes : Writes .whole funcFmvDX :=
  writes_of_setFp _ (fun _ _ => rfl) fun _ _ => trivial

variable (fpu : HostFpu)

theorem funcFcvtSD_writes : Writes .lowHalf (funcFcvtSD fpu) :=
  writes_of_setFp _ (fun _ _ => rfl) fun _ _ => setF_upper _ _

theorem funcFcvtDS_writes : Writes .whole (funcFcvtDS fpu) :=
  writes_of_setFp _ (fun _ _ => rfl) fun _ _ => trivial

theorem branchFunc_writes (expr : Word → Word → Bool) : Writes .untouched (branchFunc expr) := by
  refine writes_of fun {s s' i i'} h => ?_
  rw [branchFunc_eq] at h
  have h' := Except.ok.inj h
  split at h' <;> cases h'
  · exact ⟨rfl, untouched_of_eq _ rfl, rfl, rfl⟩
  · exact ⟨rfl, untouched_of_eq _ rfl, rfl, rfl⟩

theorem funcJal_writes : Writes .untouched funcJal :=
  writes_of_update _ (fun _ _ => rfl) (fun _ _ => rfl) fun _ _ => untouched_of_eq _ rfl

theorem funcEcall_writes : Writes .untouched funcEcall :=
  writes_of_update _ (fun _ _ => rfl) (fun _ _ => rfl) fun _ _ => untouched_of_eq _ rfl

theorem jalrState_frame (s : State) (i : Inst) (lines : List String) :
    (jalrState s i lines).world.mem.prot = s.world.mem.prot ∧
      (jalrState s i lines).fpRegs = s.fpRegs := by
  refine ⟨congrArg Memory.Mem.prot (foldl_eprint_mem lines s), ?_⟩
  show (lines.foldl State.eprint s).fpRegs = s.fpRegs
  rw [foldl_eprint]

theorem funcJalr_writes : Writes .untouched funcJalr := by
  refine writes_of fun {s s' i i'} h => ?_
  obtain ⟨rfl, lines, rfl⟩ := funcJalr_inv h
  obtain ⟨hprot, hfp⟩ := jalrState_frame s i' lines
  exact ⟨hprot, untouched_of_eq _ hfp, rfl, rfl⟩

/-- No handler changes what is mapped, and each writes its floating-point destination as the
table of effects says. -/
theorem handler_writes (t : InstType) : Writes t.fpEffect (handler fpu t) := by
  cases t
  all_goals simp only [handler, InstType.fpEffect]
  case lb | lh | lw | ld | lbu | lhu | lwu => exact loadFunc_writes _ _
  case fence | fence_i => exact funcEmpty_writes
  case addi | slli | slti | sltiu | xori | srli | srai | ori | andi | addiw | slliw | srliw
      | sraiw =>
    exact aluImmFunc_writes _
  case auipc => exact funcAuipc_writes
  case sb | sh | sw | sd => exact storeFunc_writes _
  case add | sll | slt | sltu | xor | srl | or | and | mul | mulh | mulhsu | mulhu | sub | sra
      | addw | sllw | srlw | mulw | subw | sraw =>
    exact aluFunc_writes _
  case div | divu | rem | remu | divw | divuw | remw | remuw => exact trapAluFunc_writes _
  case lui => exact funcLui_writes
  case beq | bne | blt | bge | bltu | bgeu => exact branchFunc_writes _
  case jalr => exact funcJalr_writes
  case jal => exact funcJal_writes
  case ecall => exact funcEcall_writes
  case csrrc | csrrci | csrrs | csrrsi | csrrw | csrrwi => exact csrFunc_writes
  case flw => exact funcFlw_writes
  case fld => exact funcFld_writes
  case fsw | fsd => exact storeFpFunc_writes _
  case fmadd_s | fmsub_s | fnmsub_s | fnmadd_s => exact fma32Func_writes _
  case fmadd_d | fmsub_d | fnmsub_d | fnmadd_d => exact fma64Func_writes _
  case fadd_s | fsub_s | fmul_s | fdiv_s | fsqrt_s | fmin_s | fmax_s => exact fp32Func_writes _
  case fadd_d | fsub_d | fmul_d | fdiv_d | fsqrt_d | fmin_d | fmax_d => exact fp64Func_writes _
  case fsgnj_s | fsgnjn_s | fsgnjx_s => exact fsgnj32Func_writes _ _
  case fsgnj_d | fsgnjn_d | fsgnjx_d => exact fsgnj64Func_writes _ _
  case fcvt_w_s | fcvt_wu_s | fcvt_l_s | fcvt_lu_s | fmv_x_w | fclass_s | fcvt_w_d | fcvt_wu_d
      | fcvt_l_d | fcvt_lu_d | fmv_x_d | fclass_d =>
    exact fpToGpFunc_writes _
  case fcvt_s_w | fcvt_s_wu | fcvt_s_l | fcvt_s_lu => exact gpToF32Func_writes _
  case fcvt_d_w | fcvt_d_wu | fcvt_d_l | fcvt_d_lu => exact gpToF64Func_writes _
  case fmv_w_x => exact funcFmvWX_writes
  case fmv_d_x => exact funcFmvDX_writes
  case feq_s | flt_s | fle_s => exact fcmp32Func_writes _
  case feq_d | flt_d | fle_d => exact fcmp64Func_writes _
  case fcvt_s_d => exact funcFcvtSD_writes fpu
  case fcvt_d_s => exact funcFcvtDS_writes fpu

end Rvemu
