/-
The zero register.

`x0` is an ordinary cell of the register file: a handler that has it for a
destination writes it, and the loop body sets it back to zero afterwards.  So it is
zero wherever an instruction or an environment call starts, and a handler that reads
it reads zero, as long as it does not read what it has written itself.

That it does not is said by sending the write elsewhere: with another destination
the handler does the same, but that the other register gets what `x0` would have got.
The handlers look at the destination in one other way, to see whether it is `ra`, and
`jalr` prints `sp` after its write, so these two are not taken for the other register.
-/
import Rvemu.Proofs.Boot

namespace Rvemu

open Steps

/-! ### What a handler writes -/

/-- The instructions whose destination is a general register. -/
def InstType.writesGp (t : InstType) : Bool :=
  t matches .lb | .lh | .lw | .ld | .lbu | .lhu | .lwu
    | .addi | .slli | .slti | .sltiu | .xori | .srli | .srai | .ori | .andi
    | .auipc | .addiw | .slliw | .srliw | .sraiw
    | .add | .sll | .slt | .sltu | .xor | .srl | .or | .and
    | .mul | .mulh | .mulhsu | .mulhu | .div | .divu | .rem | .remu
    | .sub | .sra | .lui
    | .addw | .sllw | .srlw | .mulw | .divw | .divuw | .remw | .remuw | .subw | .sraw
    | .jalr | .jal
    | .csrrc | .csrrci | .csrrs | .csrrsi | .csrrw | .csrrwi
    | .fcvt_w_s | .fcvt_wu_s | .fmv_x_w | .feq_s | .flt_s | .fle_s | .fclass_s
    | .fcvt_l_s | .fcvt_lu_s
    | .feq_d | .flt_d | .fle_d | .fclass_d
    | .fcvt_w_d | .fcvt_wu_d | .fcvt_l_d | .fcvt_lu_d | .fmv_x_d

/-- The record with another destination. -/
def Inst.withRd (i : Inst) (d : RegNo) : Inst := { i with rd := d }

/-- The second result is the first, but that `d` got what `x0` got there. -/
structure Redirected (s : State) (d : RegNo) (p q : State × Inst) : Prop where
  zero : p.1.gpRegs = Function.update s.gpRegs Reg.zero (p.1.gp Reg.zero)
  other : q.1.gpRegs = Function.update s.gpRegs d (p.1.gp Reg.zero)
  rest : { q.1 with gpRegs := p.1.gpRegs } = p.1
  record : q.2 = p.2.withRd d

/-- A register that is not looked at in another way than as a destination. -/
def Scratch (d : RegNo) : Prop := d ≠ Reg.zero ∧ d ≠ Reg.ra ∧ d ≠ Reg.sp

/-- A handler that does not see what it writes to `x0`. -/
def BlindToZero (h : Handler) : Prop :=
  ∀ (s : State) (i : Inst) (d : RegNo), i.rd = Reg.zero → Scratch d →
    Agree (Redirected s d) (h s i) (h s (i.withRd d))

/-- A handler that writes no general register. -/
def KeepsGp (h : Handler) : Prop :=
  ∀ (s s' : State) (i i' : Inst), h s i = .ok (s', i') → s'.gpRegs = s.gpRegs

/-- A register written, and then things that are no register. -/
theorem redirected_setGp {s : State} {i : Inst} {d : RegNo} (hrd : i.rd = Reg.zero) (v : Word)
    (post : State → State) (hgp : ∀ s, (post s).gpRegs = s.gpRegs)
    (hpost : ∀ (s : State) gpRegs, post { s with gpRegs := gpRegs } =
      { post s with gpRegs := gpRegs }) :
    Redirected s d (post (s.setGp i.rd v), i) (post (s.setGp d v), i.withRd d) := by
  have hv : (post (s.setGp i.rd v)).gp Reg.zero = v := by
    show (post (s.setGp i.rd v)).gpRegs Reg.zero = v
    rw [hgp, hrd]
    show Function.update s.gpRegs Reg.zero v Reg.zero = v
    rw [Function.update_self]
  refine ⟨?_, ?_, ?_, rfl⟩
  · rw [hv, ← hrd]
    exact hgp _
  · rw [hv]
    exact hgp _
  · rw [← hpost, hgp]
    rfl

theorem blind_of_setGp {h : Handler} (val : State → Inst → Except Stop Word)
    (hh : ∀ s i, h s i = val s i >>= fun v => .ok (s.setGp i.rd v, i))
    (hval : ∀ s i d, val s (i.withRd d) = val s i) : BlindToZero h := by
  intro s i d hrd _
  rw [hh, hh, hval]
  cases val s i with
  | error e => rfl
  | ok v => exact redirected_setGp hrd v id (fun _ => rfl) fun _ _ => rfl

/-- The same where the handler reports a zero written to `ra`. -/
theorem blind_of_debug {h : Handler} (val : State → Inst → Except Stop Word)
    (text : State → Inst → String)
    (hh : ∀ s i, h s i = val s i >>= fun v =>
      .ok ((s.setGp i.rd v).debug (i.rd == 1 && v == 0) (text s i), i))
    (hval : ∀ s i d, val s (i.withRd d) = val s i) : BlindToZero h := by
  intro s i d hrd hd
  have hzero : (i.rd == 1) = false := by
    rw [hrd]
    rfl
  have hother : ((i.withRd d).rd == 1) = false := beq_false_of_ne hd.2.1
  rw [hh, hh, hval]
  cases val s i with
  | error e => rfl
  | ok v =>
      simp only [bind, Except.bind, hzero, hother, Bool.false_and]
      exact redirected_setGp hrd v id (fun _ => rfl) fun _ _ => rfl

theorem loadFunc_blind (n : Nat) (conv : BitVec (8 * n) → Word) : BlindToZero (loadFunc n conv) := by
  refine blind_of_debug (fun s i => (s.load (s.gp i.rs1 + i.imm.signExtend 64) n).map conv)
    (fun s i => "DEBUG: ra loaded with 0 from addr " ++ hex (s.gp i.rs1 + i.imm.signExtend 64) ++
      " (pc=" ++ hex s.pc ++ ")\n") (fun s i => ?_) fun _ _ _ => rfl
  unfold loadFunc
  dsimp only
  cases s.load (s.gp i.rs1 + i.imm.signExtend 64) n <;> rfl

theorem aluImmFunc_blind (expr : Word → Word → Word) : BlindToZero (aluImmFunc expr) :=
  blind_of_debug (fun s i => .ok (expr (s.gp i.rs1) (i.imm.signExtend 64)))
    (fun s _ => "DEBUG: ra set to 0 by ALU at pc=" ++ hex s.pc ++ "\n") (fun _ _ => rfl)
    fun _ _ _ => rfl

theorem funcAuipc_blind : BlindToZero funcAuipc :=
  blind_of_setGp (fun s i => .ok (s.pc + i.imm.signExtend 64)) (fun _ _ => rfl) fun _ _ _ => rfl

theorem aluFunc_blind (expr : Word → Word → Word) : BlindToZero (aluFunc expr) :=
  blind_of_setGp (fun s i => .ok (expr (s.gp i.rs1) (s.gp i.rs2))) (fun _ _ => rfl)
    fun _ _ _ => rfl

theorem trapAluFunc_blind (expr : Word → Word → Except Stop Word) :
    BlindToZero (trapAluFunc expr) :=
  blind_of_setGp (fun s i => expr (s.gp i.rs1) (s.gp i.rs2)) (fun _ _ => rfl) fun _ _ _ => rfl

theorem funcLui_blind : BlindToZero funcLui :=
  blind_of_setGp (fun _ i => .ok (i.imm.signExtend 64)) (fun _ _ => rfl) fun _ _ _ => rfl

theorem csrFunc_blind : BlindToZero csrFunc :=
  blind_of_setGp (fun _ i => csrValue i) csrFunc_eq fun _ _ _ => rfl

theorem fpToGpFunc_blind (expr : FpReg → Word) : BlindToZero (fpToGpFunc expr) :=
  blind_of_setGp (fun s i => .ok (expr (s.fp i.rs1))) (fun _ _ => rfl) fun _ _ _ => rfl

theorem fcmp32Func_blind (expr : F32 → F32 → Bool) : BlindToZero (fcmp32Func expr) :=
  blind_of_setGp (fun s i => .ok (cbool (expr (s.fp i.rs1).f (s.fp i.rs2).f))) (fun _ _ => rfl)
    fun _ _ _ => rfl

theorem fcmp64Func_blind (expr : F64 → F64 → Bool) : BlindToZero (fcmp64Func expr) :=
  blind_of_setGp (fun s i => .ok (cbool (expr (s.fp i.rs1).d (s.fp i.rs2).d))) (fun _ _ => rfl)
    fun _ _ _ => rfl

theorem funcJal_blind : BlindToZero funcJal := by
  intro s i d hrd _
  rw [funcJal_eq, funcJal_eq]
  exact redirected_setGp hrd (i.link s) (fun t => t.takeBranch (s.pc + i.imm.signExtend 64))
    (fun _ => rfl) fun _ _ => rfl

/-- Printing does not look at the registers. -/
theorem foldl_eprint_gpRegs (lines : List String) (s : State) (gpRegs : RegNo → Word) :
    lines.foldl State.eprint { s with gpRegs := gpRegs } =
      { lines.foldl State.eprint s with gpRegs := gpRegs } := by
  induction lines generalizing s with
  | nil => rfl
  | cons l rest ih => exact ih (s.eprint l)

/-- `jalr` after it has printed: the write of the link, and then no register. -/
theorem jalrState_redirected {s : State} {i : Inst} {d : RegNo} (hrd : i.rd = Reg.zero)
    (lines : List String) :
    Redirected s d (jalrState s i lines, i) (jalrState s (i.withRd d) lines, i.withRd d) := by
  have hpost (r : RegNo) : jalrState s (i.withRd r) lines =
      { lines.foldl State.eprint (s.setGp r (i.link s)) with
        exitReason := .indirectBranch, reenterPc := i.jalrTarget s } := by
    rw [show s.setGp r (i.link s) = { s with gpRegs := Function.update s.gpRegs r (i.link s) } from
      rfl, foldl_eprint_gpRegs]
    unfold jalrState
    rw [foldl_eprint]
    rfl
  have hzero := hpost i.rd
  rw [show i.withRd i.rd = i from rfl] at hzero
  rw [hzero, hpost d]
  refine redirected_setGp hrd (i.link s) (fun t =>
    { lines.foldl State.eprint t with exitReason := .indirectBranch, reenterPc := i.jalrTarget s })
    (fun t => ?_) fun t gpRegs => ?_
  · show (lines.foldl State.eprint t).gpRegs = t.gpRegs
    rw [foldl_eprint]
  · dsimp only
    rw [foldl_eprint_gpRegs]

theorem funcJalr_blind : BlindToZero funcJalr := by
  intro s i d hrd hd
  have hreport (p : BitVec 32) : jalrReport s (i.withRd d) p = jalrReport s i p := by
    have hsp (r : RegNo) (hr : r ≠ Reg.sp) : (s.setGp r (i.link s)).gp 2 = s.gp 2 :=
      Function.update_of_ne (Ne.symm hr) _ _
    have hzero := hsp i.rd (by rw [hrd]; decide)
    unfold jalrReport
    rw [hzero]
    show ["DEBUG: jalr to 0 at pc=" ++ hex s.pc ++ ". rs1_reg=" ++ toString i.rs1.toNat ++
      " rs1_val=" ++ hex (s.gp i.rs1) ++ ", imm=" ++ toString i.imm.toInt ++ ", sp=" ++
      hex ((s.setGp d (i.link s)).gp 2) ++ "\n", _] = _
    rw [hsp d hd.2.2]
  rw [funcJalr_eq, funcJalr_eq]
  show Agree _ _ (if i.jalrTarget s = 0 then _ else _)
  by_cases hz : i.jalrTarget s = 0
  · rw [if_pos hz, if_pos hz]
    cases s.load s.pc 4 with
    | error e => rfl
    | ok p =>
        show Redirected s d _ (jalrState s (i.withRd d) (jalrReport s (i.withRd d) p), _)
        rw [hreport]
        exact jalrState_redirected hrd _
  · rw [if_neg hz, if_neg hz]
    exact jalrState_redirected hrd []

/-! ### The table -/

/-- No handler sees what it writes to `x0`. -/
theorem handler_blind (fpu : HostFpu) {t : InstType} (ht : t.writesGp = true) :
    BlindToZero (handler fpu t) := by
  cases t <;> try cases ht
  all_goals simp only [handler]
  case lb | lh | lw | ld | lbu | lhu | lwu => exact loadFunc_blind _ _
  case addi | slli | slti | sltiu | xori | srli | srai | ori | andi | addiw | slliw | srliw
      | sraiw =>
    exact aluImmFunc_blind _
  case auipc => exact funcAuipc_blind
  case add | sll | slt | sltu | xor | srl | or | and | mul | mulh | mulhsu | mulhu | sub | sra
      | addw | sllw | srlw | mulw | subw | sraw =>
    exact aluFunc_blind _
  case div | divu | rem | remu | divw | divuw | remw | remuw => exact trapAluFunc_blind _
  case lui => exact funcLui_blind
  case jalr => exact funcJalr_blind
  case jal => exact funcJal_blind
  case csrrc | csrrci | csrrs | csrrsi | csrrw | csrrwi => exact csrFunc_blind
  case fcvt_w_s | fcvt_wu_s | fcvt_l_s | fcvt_lu_s | fmv_x_w | fclass_s | fcvt_w_d | fcvt_wu_d
      | fcvt_l_d | fcvt_lu_d | fmv_x_d | fclass_d =>
    exact fpToGpFunc_blind _
  case feq_s | flt_s | fle_s => exact fcmp32Func_blind _
  case feq_d | flt_d | fle_d => exact fcmp64Func_blind _

/-- An update of the state that is no register, after a computation that may fail. -/
theorem keepsGp_of_bind {α : Type} {h : Handler} (pre : State → Inst → Except Stop α)
    (upd : State → Inst → α → State)
    (hh : ∀ s i, h s i = pre s i >>= fun a => .ok (upd s i a, i))
    (hgp : ∀ s i a, pre s i = .ok a → (upd s i a).gpRegs = s.gpRegs) : KeepsGp h := by
  intro s s' i i' hs
  rw [hh] at hs
  obtain ⟨a, ha, hs⟩ := bind_ok_inv hs
  cases hs
  exact hgp s i a ha

theorem store_gpRegs {s s' : State} {a : Word} {n : Nat} {v : BitVec (8 * n)}
    (h : s.store a n v = .ok s') : s'.gpRegs = s.gpRegs := by
  obtain ⟨m, -, rfl⟩ := store_inv h
  rfl

theorem storeFunc_keepsGp (n : Nat) : KeepsGp (storeFunc n) :=
  keepsGp_of_bind _ _ (fun _ _ => rfl) fun _ _ _ h => by
    rw [debug_gpRegs]
    exact store_gpRegs h

theorem storeFpFunc_keepsGp (n : Nat) : KeepsGp (storeFpFunc n) :=
  keepsGp_of_bind _ _ (fun _ _ => rfl) fun _ _ _ h => store_gpRegs h

theorem funcFlw_keepsGp : KeepsGp funcFlw :=
  keepsGp_of_bind _ _ (fun _ _ => rfl) fun _ _ _ _ => rfl

theorem funcFld_keepsGp : KeepsGp funcFld :=
  keepsGp_of_bind _ _ (fun _ _ => rfl) fun _ _ _ _ => rfl

theorem branchFunc_keepsGp (expr : Word → Word → Bool) : KeepsGp (branchFunc expr) := by
  intro s s' i i' h
  rw [branchFunc_eq] at h
  have h' := Except.ok.inj h
  split at h' <;> cases h' <;> rfl

/-- The other handlers leave the general registers alone. -/
theorem handler_keepsGp (fpu : HostFpu) {t : InstType} (ht : t.writesGp = false) :
    KeepsGp (handler fpu t) := by
  cases t <;> try cases ht
  all_goals simp only [handler]
  case sb | sh | sw | sd => exact storeFunc_keepsGp _
  case fsw | fsd => exact storeFpFunc_keepsGp _
  case flw => exact funcFlw_keepsGp
  case fld => exact funcFld_keepsGp
  case beq | bne | blt | bge | bltu | bgeu => exact branchFunc_keepsGp _
  all_goals
    intro s s' i i' h
    cases h
    rfl

/-! ### Runs -/

/-- A pass through the loop body ends with `x0` at zero. -/
theorem execIter_zero {fpu : HostFpu} {s s' : State} {prev i : Inst}
    (h : execIter fpu s prev = .ok (s', i)) : s'.gp Reg.zero = 0 := by
  obtain ⟨raw, -, h⟩ := bind_ok_inv h
  obtain ⟨r, -, h⟩ := bind_ok_inv h
  obtain ⟨⟨s₁, i₁⟩, -, h⟩ := bind_ok_inv h
  cases h
  show Function.update s₁.gpRegs Reg.zero 0 Reg.zero = 0
  rw [Function.update_self]

/-- An answered call writes `a0`. -/
theorem handleSyscall_gp {os : Os} {m m' : Machine} (h : handleSyscall os m = .ok m') {r : RegNo}
    (hr : r ≠ Reg.a0) : m'.state.gp r = m.state.gp r := by
  obtain ⟨v, m₁, hdo, rfl⟩ := handleSyscall_inv h
  have hgp : m₁.state.gpRegs = m.state.gpRegs := by
    rcases doSyscall_cases hdo with hmap | ⟨-, hbrk⟩
    · exact hmap.gpRegs
    · exact (sysBrk_frame hbrk).gpRegs
  show Function.update m₁.state.gpRegs Reg.a0 v r = _
  rw [Function.update_of_ne hr, hgp]
  rfl

theorem emuStep_zero {fpu : HostFpu} {os : Os} {m m' : Machine} (h : emuStep fpu os m = .ok m') :
    m'.state.gp Reg.zero = 0 := by
  obtain ⟨⟨s, i⟩, hiter, h⟩ := bind_ok_inv h
  have hzero := execIter_zero hiter
  dsimp only at h
  by_cases hc : i.continueExec = true
  · rw [if_pos hc] at h
    by_cases hbranch : s.exitReason = .directBranch ∨ s.exitReason = .indirectBranch
    · rw [leaveBlock_branch (m := m.withRun s i) hbranch] at h
      cases h
      exact hzero
    · rw [leaveBlock_call (m := m.withRun s i) hbranch] at h
      obtain ⟨m₂, hcall, rfl⟩ := map_ok_inv h
      exact (handleSyscall_gp hcall (by decide)).trans hzero
  · rw [if_neg hc] at h
    cases h
    exact hzero

/-- A block is left with `x0` at zero. -/
theorem execBlockInterp_zero {fpu : HostFpu} {n b : Nat} {s s' : State} {prev i : Inst}
    (h : execBlockInterp fpu n s prev = .ok (.left b (s', i))) : s'.gp Reg.zero = 0 := by
  induction n generalizing s prev with
  | zero => cases h
  | succ n ih =>
      obtain ⟨⟨s₁, i₁⟩, hiter, h⟩ := bind_ok_inv h
      dsimp only at h
      split at h
      · cases h
        exact execIter_zero hiter
      · exact ih h

/-- So is `machine_step`: an environment call finds `x0` at zero. -/
theorem machineStep_zero {fpu : HostFpu} {n b : Nat} {m m' : Machine}
    (h : machineStep fpu n m = .ok (.left b m')) : m'.state.gp Reg.zero = 0 := by
  suffices hrounds : ∀ rounds n m, bareRounds fpu rounds n m = .ok (.left b m') →
      m'.state.gp Reg.zero = 0 by
    rw [machineStep, machineRounds_bare] at h
    exact hrounds _ _ _ h
  intro rounds
  induction rounds with
  | zero =>
      intro n m h
      cases h
  | succ rounds ih =>
      intro n m h
      rw [bareRounds] at h
      obtain ⟨r, hblock, h⟩ := bind_ok_inv h
      cases r with
      | running p => cases h
      | left b' p =>
          dsimp only at h
          split at h
          · exact ih _ _ h
          · obtain ⟨s, i⟩ := p
            cases h
            have hzero := execBlockInterp_zero hblock
            exact hzero

/-- The registers at the start: zero, but for the stack pointer. -/
theorem boot_gp {os : Os} {prog : Reply (List (BitVec 8))} {phdr : List (BitVec 8)}
    {pad : BitVec 32} {argv : List (List (BitVec 8))} {w : World} {m : Machine}
    (h : boot os prog phdr pad argv w = .ok m) {r : RegNo} (hr : r ≠ Reg.sp) :
    m.state.gp r = 0 := by
  obtain ⟨m₁, hload, hsetup⟩ := boot_inv h
  obtain ⟨-, -, -, hm₁⟩ := machineLoadProgram_inv hload
  obtain ⟨⟨addr, w₁, mmu₁⟩, -, hsetup⟩ := bind_ok_inv hsetup
  obtain ⟨⟨w₂, mmu₂, sp⟩, -, hsetup⟩ := bind_ok_inv hsetup
  obtain ⟨w₃, -, hsetup⟩ := bind_ok_inv hsetup
  cases hsetup
  show Function.update m₁.state.gpRegs Reg.sp (sp - 8) r = 0
  rw [Function.update_of_ne hr, hm₁]
  rfl

/-- Every state a run passes through has `x0` at zero. -/
theorem mainLoop_gp_zero {fpu : HostFpu} {os : Os} {prog : Reply (List (BitVec 8))}
    {phdr : List (BitVec 8)} {pad : BitVec 32} {argv : List (List (BitVec 8))} {w : World}
    {m₀ m : Machine} {n : Nat} (hboot : boot os prog phdr pad argv w = .ok m₀)
    (h : mainLoop fpu os n m₀ = .ok m) : m.state.gp Reg.zero = 0 := by
  rw [mainLoop_eq_iter] at h
  refine iter_invariant (I := fun m => m.state.gp Reg.zero = 0) (fun _ hs => emuStep_zero hs) ?_ h
  exact boot_gp hboot (by decide)

/-- **`x0` reads as zero.**  In every run it is zero where an instruction starts and where an
environment call is answered; and the handler of the next instruction does not see what it
writes there itself. -/
theorem mainLoop_zero {fpu : HostFpu} {os : Os} {prog : Reply (List (BitVec 8))}
    {phdr : List (BitVec 8)} {pad : BitVec 32} {argv : List (List (BitVec 8))} {w : World}
    {m₀ m : Machine} {n : Nat} (hboot : boot os prog phdr pad argv w = .ok m₀)
    (h : mainLoop fpu os n m₀ = .ok m) :
    m.state.gp Reg.zero = 0 ∧
      (∀ b b' m', machineStep fpu b m = .ok (.left b' m') → m'.state.gp Reg.zero = 0) ∧
      ∀ raw i, m.state.load m.state.pc 4 = .ok raw → decodeInst m.inst raw = .ok i →
        (i.type.writesGp = true → i.rd = Reg.zero → ∀ d, Scratch d →
          Agree (Redirected m.state d) (func fpu i.type m.state i)
            (func fpu i.type m.state (i.withRd d))) ∧
        (i.type.writesGp = false → ∀ s i', func fpu i.type m.state i = .ok (s, i') →
          s.gpRegs = m.state.gpRegs) := by
  refine ⟨mainLoop_gp_zero hboot h, fun _ _ _ hs => machineStep_zero hs, fun raw i _ _ => ?_⟩
  rw [func_eq_handler]
  exact ⟨fun ht hrd d hd => handler_blind fpu ht _ _ d hrd hd,
    fun ht s i' hs => handler_keepsGp fpu ht _ _ _ _ hs⟩

theorem mainLoop_zero_addi :
    ∃ m₀ m, bootCode grantingOs [0x13, 0x00, 0x50, 0x00] = .ok m₀ ∧
      mainLoop default grantingOs 1 m₀ = .ok m ∧ m.state.gp Reg.zero = 0 := by
  have hok : (bootCode grantingOs [0x13, 0x00, 0x50, 0x00] >>= mainLoop default grantingOs 1).map
      (fun _ => ()) = .ok () := by decide +kernel
  obtain ⟨m, h, -⟩ := map_ok_inv hok
  obtain ⟨m₀, hboot, hrun⟩ := bind_ok_inv h
  exact ⟨m₀, m, hboot, hrun, (mainLoop_zero hboot hrun).1⟩

/-! ### Environment calls -/

/-- The machine as `do_syscall` finds it. -/
def Machine.calling (m : Machine) : Machine :=
  { m with
    state := { m.state with
      exitReason := .ecall
      reenterPc := m.state.pc + 4
      pc := m.state.pc + 4 }
    inst := ecallRecord m.inst }

/-- One step, where the instruction is an environment call. -/
theorem emuStep_ecall {fpu : HostFpu} {os : Os} {m : Machine} (hzero : m.state.gp Reg.zero = 0)
    (hat : m.AtEcall) : emuStep fpu os m = (handleSyscall os m.calling).map Machine.enter := by
  have hupd : Function.update m.state.gpRegs Reg.zero 0 = m.state.gpRegs := by
    rw [← hzero]
    exact Function.update_eq_self Reg.zero m.state.gpRegs
  have hiter : execIter fpu m.state m.inst =
      .ok ({ m.state with exitReason := .ecall, reenterPc := m.state.pc + 4 },
        ecallRecord m.inst) := by
    unfold execIter execWord
    rw [hat, ok_bind, decodeInst_ecall, ok_bind, func_eq_handler]
    show Except.ok ({ m.state with
      exitReason := .ecall
      reenterPc := m.state.pc + 4
      gpRegs := Function.update m.state.gpRegs Reg.zero 0 }, ecallRecord m.inst) = _
    rw [hupd]
  unfold emuStep
  rw [hiter, ok_bind]
  rfl

theorem AllocKind.entry {os : Os} {w w' : World} {mmu mmu' : Mmu} {size : Word}
    (h : AllocKind os w mmu size w' mmu') : mmu'.entry = mmu.entry := by
  cases h <;> rfl

/-- **An environment call, seen by the guest.**  It resumes four bytes further, with the answer
in `a0` and everything else as it was; only `brk` moves the break and the end of what is
mapped. -/
theorem mainLoop_ecall {fpu : HostFpu} {os : Os} {prog : Reply (List (BitVec 8))}
    {phdr : List (BitVec 8)} {pad : BitVec 32} {argv : List (List (BitVec 8))} {w : World}
    {m₀ m m' : Machine} {n : Nat} (hboot : boot os prog phdr pad argv w = .ok m₀)
    (h : mainLoop fpu os n m₀ = .ok m) (hat : m.AtEcall)
    (h' : mainLoop fpu os (n + 1) m₀ = .ok m') :
    m'.state.pc = m.state.pc + 4 ∧
      (∃ m₁, doSyscall os m.calling (m.state.gp Reg.a7) = .ok (m'.state.gp Reg.a0, m₁)) ∧
      (∀ r, r ≠ Reg.a0 → m'.state.gp r = m.state.gp r) ∧ m'.state.fpRegs = m.state.fpRegs ∧
      m'.mmu.entry = m.mmu.entry ∧ m'.mmu.base = m.mmu.base ∧
      (m.state.gp Reg.a7 ≠ sysBrkNumber →
        m'.mmu.guestAlloc = m.mmu.guestAlloc ∧ m'.mmu.hostAlloc = m.mmu.hostAlloc) := by
  have hzero := mainLoop_gp_zero hboot h
  rw [mainLoop_eq_iter] at h h'
  have hstep := iter_last h h'
  rw [emuStep_ecall hzero hat] at hstep
  obtain ⟨m₂, hcall, rfl⟩ := map_ok_inv hstep
  have hothers (r : RegNo) (hr : r ≠ Reg.a0) : m₂.state.gp r = m.state.gp r :=
    handleSyscall_gp hcall hr
  obtain ⟨v, m₁, hdo, rfl⟩ := handleSyscall_inv hcall
  have ha0 : (m₁.state.setGp Reg.a0 v).gp Reg.a0 = v := by
    show Function.update m₁.state.gpRegs Reg.a0 v Reg.a0 = v
    rw [Function.update_self]
  have hframe : SameFrame m.calling m₁ ∧ m₁.mmu.entry = m.mmu.entry ∧
      m₁.mmu.base = m.mmu.base ∧ (m.state.gp Reg.a7 ≠ sysBrkNumber → m₁.mmu = m.mmu) := by
    rcases doSyscall_cases hdo with hmap | ⟨hnum, hbrk⟩
    · exact ⟨hmap.toSameFrame, congrArg Mmu.entry hmap.mmu, congrArg Mmu.base hmap.mmu,
        fun _ => hmap.mmu⟩
    · obtain ⟨-, -, -, w', mmu', hm₁, hkind⟩ := sysBrk_inv hbrk
      have hmmu : m₁.mmu = mmu' := congrArg Machine.mmu hm₁
      rw [hmmu]
      exact ⟨sysBrk_frame hbrk, hkind.entry, hkind.moves.1, fun hne => absurd hnum hne⟩
  obtain ⟨hsame, hentry, hbase, hmmu⟩ := hframe
  refine ⟨hsame.pc, ⟨m₁, hdo.trans ?_⟩, hothers, hsame.fpRegs, hentry, hbase, fun hne => ?_⟩
  · exact congrArg (fun x => Except.ok (x, m₁)) ha0.symm
  · exact ⟨congrArg Mmu.guestAlloc (hmmu hne), congrArg Mmu.hostAlloc (hmmu hne)⟩

theorem mainLoop_ecall_close :
    ∃ m₀ m m', mainLoop default grantingOs 1 m₀ = .ok m ∧
      mainLoop default grantingOs 2 m₀ = .ok m' ∧ m.state.gp Reg.a7 = 57 ∧
      m'.state.pc = m.state.pc + 4 ∧
      ∃ m₁, doSyscall grantingOs m.calling (m.state.gp Reg.a7) =
        .ok (m'.state.gp Reg.a0, m₁) := by
  -- `li a7, 57` and `ecall`
  have hok : (bootCode grantingOs [0x93, 0x08, 0x90, 0x03, 0x73, 0x00, 0x00, 0x00] >>= fun m₀ =>
      mainLoop default grantingOs 1 m₀ >>= fun m => (mainLoop default grantingOs 2 m₀).map
        fun _ => (m.state.gp Reg.a7, m.state.load m.state.pc 4)) = .ok (57, .ok 0x73) := by
    decide +kernel
  obtain ⟨m₀, hboot, h⟩ := bind_ok_inv hok
  obtain ⟨m, hrun, h⟩ := bind_ok_inv h
  obtain ⟨m', hrun', h⟩ := map_ok_inv h
  obtain ⟨ha7, hat⟩ := Prod.mk.inj h
  obtain ⟨hpc, hanswer, -⟩ := mainLoop_ecall hboot hrun hat hrun'
  exact ⟨m₀, m, m', hrun, hrun', ha7, hpc, hanswer⟩

end Rvemu
