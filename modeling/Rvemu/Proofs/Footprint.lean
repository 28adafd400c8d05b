/-
The footprint of an instruction.

An instruction writes one register at most, its destination, and `InstType.dest`
says in which file; a store writes the bytes it covers; and the control variables
are written by jumps, by environment calls and by branches that are taken.  What is
not written keeps its value.

The floating-point unit of the host is arbitrary here, and so is the record: a field
the decoder leaves as it was names no register that is written.
-/
import Rvemu.Proofs.Bytes
import Rvemu.Proofs.Zero

namespace Rvemu

open Memory Spec

/-! ### Destinations -/

/-- The register file that holds an instruction's destination. -/
inductive Dest
  | none
  | gp
  | fp
  deriving DecidableEq, Repr

/-- Where each instruction writes its result. -/
def InstType.dest : InstType → Dest
  | .sb | .sh | .sw | .sd | .fsw | .fsd
  | .beq | .bne | .blt | .bge | .bltu | .bgeu
  | .fence | .fence_i | .ecall => .none
  | .flw | .fld
  | .fmadd_s | .fmsub_s | .fnmsub_s | .fnmadd_s
  | .fadd_s | .fsub_s | .fmul_s | .fdiv_s | .fsqrt_s
  | .fsgnj_s | .fsgnjn_s | .fsgnjx_s | .fmin_s | .fmax_s
  | .fcvt_s_w | .fcvt_s_wu | .fcvt_s_l | .fcvt_s_lu | .fmv_w_x
  | .fmadd_d | .fmsub_d | .fnmsub_d | .fnmadd_d
  | .fadd_d | .fsub_d | .fmul_d | .fdiv_d | .fsqrt_d
  | .fsgnj_d | .fsgnjn_d | .fsgnjx_d | .fmin_d | .fmax_d
  | .fcvt_s_d | .fcvt_d_s
  | .fcvt_d_w | .fcvt_d_wu | .fcvt_d_l | .fcvt_d_lu | .fmv_d_x => .fp
  | _ => .gp

theorem dest_gp_iff (t : InstType) : t.dest = .gp ↔ t.writesGp = true := by
  cases t <;> decide

theorem dest_fp_iff (t : InstType) : t.dest = .fp ↔ t.fpEffect ≠ .untouched := by
  cases t <;> decide

/-! ### General registers and memory -/

/-- A handler that writes its general destination and no memory. -/
def WritesRd (h : Handler) : Prop :=
  ∀ (s s' : State) (i i' : Inst), h s i = .ok (s', i') →
    (∃ v, s'.gpRegs = Function.update s.gpRegs i.rd v) ∧ s'.world.mem = s.world.mem

theorem writesRd_of_setGp {h : Handler} (val : State → Inst → Except Stop Word)
    (hh : ∀ s i, h s i = val s i >>= fun v => .ok (s.setGp i.rd v, i)) : WritesRd h := by
  intro s s' i i' hs
  rw [hh] at hs
  obtain ⟨v, -, hs⟩ := bind_ok_inv hs
  cases hs
  exact ⟨⟨v, rfl⟩, rfl⟩

theorem loadFunc_writesRd (n : Nat) (conv : BitVec (8 * n) → Word) :
    WritesRd (loadFunc n conv) := by
  intro s s' i i' h
  obtain ⟨raw, -, h⟩ := bind_ok_inv h
  cases h
  exact ⟨⟨conv raw, debug_gpRegs _ _ _⟩, debug_mem _ _ _⟩

theorem aluImmFunc_writesRd (expr : Word → Word → Word) : WritesRd (aluImmFunc expr) := by
  intro s s' i i' h
  cases h
  exact ⟨⟨_, debug_gpRegs _ _ _⟩, debug_mem _ _ _⟩

theorem csrFunc_writesRd : WritesRd csrFunc :=
  writesRd_of_setGp (fun _ i => csrValue i) csrFunc_eq

theorem funcJalr_writesRd : WritesRd funcJalr := by
  intro s s' i i' h
  obtain ⟨rfl, lines, rfl⟩ := funcJalr_inv h
  refine ⟨⟨i'.link s, ?_⟩, foldl_eprint_mem lines s⟩
  show Function.update (lines.foldl State.eprint s).gpRegs _ _ = _
  rw [foldl_eprint]

/-- The instructions with a general destination write nothing else. -/
theorem handler_writesRd (fpu : HostFpu) {t : InstType} (ht : t.writesGp = true) :
    WritesRd (handler fpu t) := by
  cases t <;> try cases ht
  all_goals simp only [handler]
  case lb | lh | lw | ld | lbu | lhu | lwu => exact loadFunc_writesRd _ _
  case addi | slli | slti | sltiu | xori | srli | srai | ori | andi | addiw | slliw | srliw
      | sraiw =>
    exact aluImmFunc_writesRd _
  case div | divu | rem | remu | divw | divuw | remw | remuw =>
    exact writesRd_of_setGp _ fun _ _ => rfl
  case jalr => exact funcJalr_writesRd
  case csrrc | csrrci | csrrs | csrrsi | csrrw | csrrwi => exact csrFunc_writesRd
  -- the others set one register and are done
  all_goals
    intro s s' i i' h
    cases h
    exact ⟨⟨_, rfl⟩, rfl⟩

/-- The instructions that neither store nor have a general destination leave memory alone. -/
theorem handler_keepsMem {fpu : HostFpu} {t : InstType} (hgp : t.writesGp = false)
    (hst : isStore t = false) {s s' : State} {i i' : Inst}
    (h : handler fpu t s i = .ok (s', i')) : s'.world.mem = s.world.mem := by
  cases t <;> first | cases hgp; done | cases hst; done | skip
  all_goals simp only [handler] at h
  case flw | fld =>
    obtain ⟨raw, -, h⟩ := bind_ok_inv h
    cases h
    rfl
  case beq | bne | blt | bge | bltu | bgeu =>
    simp only [funcBeq, funcBne, funcBlt, funcBge, funcBltu, funcBgeu, branchFunc_eq] at h
    have h' := Except.ok.inj h
    split at h' <;> cases h' <;> rfl
  all_goals
    cases h
    rfl

/-- Only stores change memory. -/
theorem handler_mem {fpu : HostFpu} {t : InstType} (hst : isStore t = false) {s s' : State}
    {i i' : Inst} (h : handler fpu t s i = .ok (s', i')) : s'.world.mem = s.world.mem := by
  cases ht : t.writesGp with
  | true => exact (handler_writesRd fpu ht s s' i i' h).2
  | false => exact handler_keepsMem ht hst h

/-! ### The footprint -/

/-- What an instruction that leads from `s` to `s'` leaves alone. -/
structure Footprint (i : Inst) (s s' : State) : Prop where
  gp : ∀ r, (i.type.dest = .gp → r ≠ i.rd) → s'.gp r = s.gp r
  fp : ∀ r, (i.type.dest = .fp → r ≠ i.rd) → s'.fp r = s.fp r
  byte : ∀ a, (isStore i.type = true →
      accessWidth i.type ≤ (a - (s.gp i.rs1 + i.imm.signExtend 64)).toNat) → s'.byte a = s.byte a
  prot : s'.world.mem.prot = s.world.mem.prot
  control : ¬(i.type.isJump = true ∨ i.type = .ecall ∨
      branchTaken i.type (s.gp i.rs1) (s.gp i.rs2) = true) →
    s'.pc = s.pc ∧ s'.exitReason = s.exitReason ∧ s'.reenterPc = s.reenterPc

theorem handler_footprint {fpu : HostFpu} {s s' : State} {i i' : Inst}
    (h : handler fpu i.type s i = .ok (s', i')) : Footprint i s s' where
  gp r hr := by
    cases ht : i.type.writesGp with
    | true =>
        obtain ⟨⟨v, hv⟩, -⟩ := handler_writesRd fpu ht s s' i i' h
        show s'.gpRegs r = s.gpRegs r
        rw [hv, Function.update_of_ne (hr ((dest_gp_iff _).mpr ht))]
    | false => exact congrFun (handler_keepsGp fpu ht s s' i i' h) r
  fp r hr := by
    obtain ⟨v, hallows, hv⟩ := (handler_writes fpu i.type).fpRegs h
    show s'.fpRegs r = s.fpRegs r
    rw [hv]
    by_cases he : i.type.fpEffect = .untouched
    · rw [he] at hallows
      rw [show v = s.fpRegs i.rd from hallows, Function.update_eq_self]
    · exact Function.update_of_ne (hr ((dest_fp_iff _).mpr he)) _ _
  byte a ha := by
    cases hst : isStore i.type with
    | true =>
        rw [store_byte hst h]
        exact if_neg (Nat.not_lt.mpr (ha hst))
    | false =>
        exact congrArg (fun m : Mem 64 => m.byte (toHost a)) (handler_mem hst h)
  prot := (handler_writes fpu i.type).prot h
  control := handler_keepsControl h

/-- **The frame of one instruction.**  Whatever word the decoder accepts, executing it writes its
destination, the bytes it stores and, where control is transferred, the control variables; all
else keeps its value.  The loop body then resets `x0`. -/
theorem execWord_footprint {fpu : HostFpu} {raw : BitVec 32} {s s' : State} {prev i i' : Inst}
    (hdec : decodeInst prev raw = .ok i) (h : func fpu i.type s i = .ok (s', i')) :
    Footprint i s s' ∧ execWord fpu raw s prev = .ok (s'.setGp Reg.zero 0, i') := by
  constructor
  · rw [func_eq_handler] at h
    exact handler_footprint h
  · unfold execWord
    rw [hdec, ok_bind, h]
    rfl

/-- `addi x1, x0, 1`. -/
theorem execWord_footprint_addi :
    ∃ i s', decodeInst {} 0x00100093 = .ok i ∧ Footprint i default s' ∧
      execWord default 0x00100093 default {} = .ok (s'.setGp Reg.zero 0, i) := by
  have hdec : decodeInst {} 0x00100093 = .ok { rd := 1, imm := 1, type := .addi } := by decide
  exact ⟨_, (default : State).setGp 1 1, hdec, execWord_footprint hdec rfl⟩

end Rvemu
