/-
Executing a compressed instruction and executing what it stands for.

Both words are taken through the same loop body in the same state.  They end in
the same way, and where they end well the two states agree in everything but what
depends on the length of the instruction: the fall-through address, and the
link register of `c.jalr`.

The decoder's part is `decodeInst_of_legal`: the two records differ in the length
mark and in the unused bits of a shift amount.  The handlers' part is `Plain`, and
the equations of the branches and jumps.
-/
import Rvemu.Proofs.Compressed
import Rvemu.Proofs.Handlers

namespace Rvemu

open BitField Spec Spec.CForm

/-- `r` and `e` are what the compressed form `f` and its expansion make of state `s`. -/
structure SameEffect (f : CForm) (s : State) (r e : State × Inst) : Prop where
  /-- The integer registers agree, but for the link register of `c.jalr`. -/
  gp : ∀ x, f ≠ .jalr ∨ x ≠ Reg.ra → r.1.gp x = e.1.gp x
  link : f = .jalr → r.1.gp Reg.ra = s.pc + 2 ∧ e.1.gp Reg.ra = s.pc + 4
  fp : r.1.fpRegs = e.1.fpRegs
  /-- Memory, and what has been printed. -/
  world : r.1.world = e.1.world
  /-- Whether the block is left, why, and where it is left to. -/
  leaves : r.2.continueExec = e.2.continueExec
  target : r.1.exitReason = e.1.exitReason ∧ r.1.reenterPc = e.1.reenterPc ∧ r.1.pc = e.1.pc
  fallThrough : r.2.continueExec = false →
    r.1.pc + r.2.length = s.pc + 2 ∧ e.1.pc + e.2.length = s.pc + 4

/-- Equal states and records of the two lengths are all a form other than `c.jalr` needs. -/
theorem SameEffect.of_eq {f : CForm} {s s' : State} {i i' : Inst} (hf : f ≠ .jalr)
    (hi : i.rvc = true) (hi' : i'.rvc = false) (hc : i.continueExec = i'.continueExec)
    (hpc : i.continueExec = false → s'.pc = s.pc) : SameEffect f s (s', i) (s', i') where
  gp _ _ := rfl
  link h := absurd h hf
  fp := rfl
  world := rfl
  leaves := hc
  target := ⟨rfl, rfl, rfl⟩
  fallThrough h := by
    show s'.pc + i.length = _ ∧ s'.pc + i'.length = _
    rw [hpc h, Inst.length, Inst.length, hi, hi']
    exact ⟨rfl, rfl⟩

/-! ### The loop body, with the record known -/

/-- What is left of the loop body once the word has been decoded. -/
def runRecord (fpu : HostFpu) (s : State) (i : Inst) : Except Stop (State × Inst) :=
  (func fpu i.type s i).map fun p => (p.1.setGp Reg.zero 0, p.2)

theorem execWord_of_decode {fpu : HostFpu} {w : BitVec 32} {prev i : Inst}
    (h : decodeInst prev w = .ok i) (s : State) : execWord fpu w s prev = runRecord fpu s i := by
  unfold execWord
  rw [h]
  show (func fpu i.type s i >>= _) = _
  unfold runRecord
  cases func fpu i.type s i <;> rfl

/-- The record of the instruction that a form stands for. -/
def expanded (f : CForm) (c : BitVec 16) : Inst := decoded (f.expand c).1 (f.expansion c)

/-- No compressed form stands for the environment call. -/
theorem expand_ne_ecall (f : CForm) (c : BitVec 16) : (f.expand c).1 ≠ .ecall := by
  intro h
  cases f <;> cases h

theorem decodeInst_expansion (f : CForm) (c : BitVec 16) (prev : Inst) :
    decodeInst prev (f.expansion c) = .ok (expanded f c) :=
  decodeInst_of_fixed (fixed_encode _ _) (expand_ne_ecall f c) prev

/-! ### Instructions that transfer no control -/

/-- A plain handler does the same to a record that is marked compressed. -/
theorem runRecord_withRvc (fpu : HostFpu) {f : CForm} (hf : f ≠ .jalr) {i : Inst}
    (hi : i.rvc = false) (ht : i.type.isControl = false) (s : State) :
    Agree (SameEffect f s) (runRecord fpu s (i.withRvc true)) (runRecord fpu s i) := by
  have hplain := func_plain fpu ht
  have hblind : func fpu (i.withRvc true).type s (i.withRvc true) = _ := hplain.blind s i true
  unfold runRecord
  rw [hblind]
  cases hfun : func fpu i.type s i with
  | error e => rfl
  | ok p =>
      obtain ⟨s', i'⟩ := p
      obtain ⟨rfl, hpc, -, -⟩ := hplain.keeps hfun
      exact .of_eq hf rfl hi rfl fun _ => hpc

/-- The six bits of a shift amount that the handlers use. -/
theorem shift_amount {a b : BitVec 32} (h : a.extractLsb' 0 6 = b.extractLsb' 0 6) :
    a.signExtend 64 &&& 0x3f = b.signExtend 64 &&& 0x3f := by
  have hmask (x : BitVec 32) :
      x.signExtend 64 &&& 0x3f = (x.extractLsb' 0 6).setWidth 64 := by
    have hx := shift_mask (x.signExtend 64) 0 6 (by decide)
    rw [BitVec.ushiftRight_zero, extract_signExtend x 0 6 (by decide) (by decide)] at hx
    exact hx
  rw [hmask, hmask, h]

/-- The record with another immediate. -/
def Inst.withImm (i : Inst) (x : BitVec 32) : Inst := { i with imm := x }

/-- What the expression does not see of the immediate, the handler does not. -/
theorem aluImmFunc_imm (expr : Word → Word → Word) {i : Inst} {x : BitVec 32}
    (h : ∀ a, expr a (x.signExtend 64) = expr a (i.imm.signExtend 64)) (s : State) :
    aluImmFunc expr s (i.withImm x) =
      (aluImmFunc expr s i).map fun p => (p.1, p.2.withImm x) := by
  simp only [aluImmFunc, Inst.withImm]
  rw [h]
  rfl

/-- A shift looks at no other bit of its immediate. -/
theorem runRecord_shift {fpu : HostFpu} {i : Inst} {x : BitVec 32}
    (ht : i.type = .slli ∨ i.type = .srli ∨ i.type = .srai)
    (h : x.extractLsb' 0 6 = i.imm.extractLsb' 0 6) (s : State) :
    runRecord fpu s (i.withImm x) = (runRecord fpu s i).map fun p => (p.1, p.2.withImm x) := by
  have hx := shift_amount h
  have hfun : func fpu i.type s (i.withImm x) =
      (func fpu i.type s i).map fun p => (p.1, p.2.withImm x) := by
    rw [func_eq_handler]
    rcases ht with ht | ht | ht <;> rw [ht]
    · exact aluImmFunc_imm (fun rs1 imm => rs1 <<< (imm &&& 0x3f)) (fun a => by rw [hx]) s
    · exact aluImmFunc_imm (fun rs1 imm => rs1 >>> (imm &&& 0x3f)) (fun a => by rw [hx]) s
    · exact aluImmFunc_imm (fun rs1 imm => rs1.sshiftRight (imm &&& 0x3f).toNat)
        (fun a => by rw [hx]) s
  unfold runRecord
  show (func fpu i.type s (i.withImm x)).map _ = _
  rw [hfun]
  cases func fpu i.type s i <;> rfl

/-- The sign-extended shift amount of a compressed shift has the bits of the real one. -/
theorem expanded_shift_amount {f : CForm} (hf : f = .slli ∨ f = .srli ∨ f = .srai)
    (c : BitVec 16) :
    ((imm6 c).signExtend 32).extractLsb' 0 6 = (expanded f c).imm.extractLsb' 0 6 := by
  have hc := carries_reader (format (f.expand c).1) (f.expand c).2
  have hcompressed : ((imm6 c).signExtend 32).extractLsb' 0 6 = imm6 c := by
    rw [extract_signExtend _ 0 6 (by decide) (by decide), extract_full]
  rw [hcompressed]
  rcases hf with rfl | rfl | rfl
  all_goals exact hc.2.2.symm

/-- The bits of the immediate a shift does not use are not part of its effect. -/
theorem SameEffect.of_withImm {f : CForm} {s : State} {r e : State × Inst} {x : BitVec 32}
    (h : SameEffect f s r (e.1, e.2.withImm x)) : SameEffect f s r e :=
  ⟨h.gp, h.link, h.fp, h.world, h.leaves, h.target, h.fallThrough⟩

theorem agree_shift {fpu : HostFpu} {f : CForm} (hf : f = .slli ∨ f = .srli ∨ f = .srai)
    (c : BitVec 16) (s : State) :
    Agree (SameEffect f s) (runRecord fpu s (cdecoded f c)) (runRecord fpu s (expanded f c)) := by
  have hjalr : f ≠ .jalr := by rcases hf with rfl | rfl | rfl <;> decide
  have ht : (expanded f c).type = .slli ∨ (expanded f c).type = .srli ∨
      (expanded f c).type = .srai := by
    rcases hf with rfl | rfl | rfl
    · exact .inl rfl
    · exact .inr (.inl rfl)
    · exact .inr (.inr rfl)
  have hplain : (expanded f c).type.isControl = false := by
    rcases ht with ht | ht | ht <;> rw [ht] <;> rfl
  have hrec : cdecoded f c =
      ((expanded f c).withImm ((imm6 c).signExtend 32)).withRvc true := by
    rcases hf with rfl | rfl | rfl <;> rfl
  have hsame := runRecord_withRvc fpu hjalr
    (i := (expanded f c).withImm ((imm6 c).signExtend 32)) (decoded_rvc _ _) hplain s
  rw [← hrec, runRecord_shift ht (expanded_shift_amount hf c)] at hsame
  cases hc : runRecord fpu s (cdecoded f c) with
  | error e =>
      rw [hc] at hsame
      cases he : runRecord fpu s (expanded f c) with
      | error e' =>
          rw [he] at hsame
          exact hsame
      | ok p =>
          rw [he] at hsame
          exact hsame.elim
  | ok r =>
      rw [hc] at hsame
      cases he : runRecord fpu s (expanded f c) with
      | error e' =>
          rw [he] at hsame
          exact hsame.elim
      | ok p =>
          rw [he] at hsame
          exact SameEffect.of_withImm hsame

/-! ### Branches and jumps -/

theorem runRecord_branch {fpu : HostFpu} {i : Inst} {expr : Word → Word → Bool}
    (hi : func fpu i.type = branchFunc expr) (s : State) :
    runRecord fpu s i =
      .ok (if expr (s.gp i.rs1) (s.gp i.rs2)
        then ((s.takeBranch (s.pc + i.imm.signExtend 64)).setGp Reg.zero 0,
          { i with continueExec := true })
        else (s.setGp Reg.zero 0, i)) := by
  unfold runRecord
  rw [hi, branchFunc_eq]
  cases expr (s.gp i.rs1) (s.gp i.rs2) <;> rfl

theorem agree_branch {fpu : HostFpu} {f : CForm} (hf : f ≠ .jalr) {i : Inst}
    {expr : Word → Word → Bool} (hfun : func fpu i.type = branchFunc expr)
    (hi : i.rvc = false) (s : State) :
    Agree (SameEffect f s) (runRecord fpu s (i.withRvc true)) (runRecord fpu s i) := by
  rw [runRecord_branch hfun, runRecord_branch (i := i.withRvc true) hfun]
  show SameEffect f s _ _
  show SameEffect f s (if expr (s.gp i.rs1) (s.gp i.rs2) then _ else _) _
  cases expr (s.gp i.rs1) (s.gp i.rs2) with
  | true => exact .of_eq hf rfl hi rfl fun h => by cases h
  | false => exact .of_eq hf rfl hi rfl fun _ => rfl

/-- Writing `x0` hides what a jump linked there. -/
theorem setGp_zero_hides (s : State) (v : Word) :
    (s.setGp 0 v).setGp 0 0 = s.setGp 0 0 := by
  simp [State.setGp]

theorem agree_j {fpu : HostFpu} (c : BitVec 16) (s : State) :
    Agree (SameEffect .j s) (runRecord fpu s (cdecoded .j c)) (runRecord fpu s (expanded .j c)) := by
  have hrd : (expanded .j c).rd = 0 := (carries_reader (format .jal) (CForm.j.expand c).2).1
  have hrun (i : Inst) (ht : i.type = .jal) (hi : i.rd = 0) : runRecord fpu s i =
      .ok ((s.takeBranch (s.pc + i.imm.signExtend 64)).setGp 0 0, i) := by
    unfold runRecord
    rw [ht, func_eq_handler]
    simp only [handler, funcJal_eq, hi]
    show Except.ok ((((s.takeBranch _).setGp 0 _).setGp 0 0), i) = _
    rw [setGp_zero_hides]
  rw [hrun _ rfl hrd, hrun (cdecoded .j c) rfl hrd]
  exact .of_eq (by decide) rfl (decoded_rvc _ _) rfl fun h => by cases h

/-- The report of a jump to zero does not mention the link, unless that is `sp`. -/
theorem jalrReport_withRvc (s : State) {i : Inst} (hrd : i.rd ≠ 2) (b : Bool) (p : BitVec 32) :
    jalrReport s (i.withRvc b) p = jalrReport s i p := by
  have hsp (v : Word) : (s.setGp i.rd v).gp 2 = s.gp 2 := Function.update_of_ne (Ne.symm hrd) _ _
  have hl : (s.setGp (i.withRvc b).rd ((i.withRvc b).link s)).gp 2 = s.gp 2 := hsp _
  unfold jalrReport
  rw [hl, hsp]
  rfl

/-- The registers after a jump register and the reset of `x0`. -/
theorem jalrState_gp (s : State) (i : Inst) (lines : List String) (x : RegNo) :
    ((jalrState s i lines).setGp Reg.zero 0).gp x =
      if x = 0 then 0 else if x = i.rd then i.link s else s.gp x := by
  have hgp : (lines.foldl State.eprint s).gpRegs = s.gpRegs := by rw [foldl_eprint]
  show Function.update (Function.update (lines.foldl State.eprint s).gpRegs i.rd _) _ _ x = _
  rw [hgp, Function.update_apply, Function.update_apply]
  rfl

/-- The two states a jump register leaves, for either destination. -/
theorem sameEffect_jalrState {f : CForm} {s : State} {i : Inst} {lines : List String}
    (hi : i.rvc = false) (hc : i.continueExec = true)
    (hrd : f = .jalr ∧ i.rd = Reg.ra ∨ f ≠ .jalr ∧ i.rd = 0) :
    SameEffect f s ((jalrState s (i.withRvc true) lines).setGp Reg.zero 0, i.withRvc true)
      ((jalrState s i lines).setGp Reg.zero 0, i) where
  gp x hx := by
    rw [jalrState_gp, jalrState_gp]
    by_cases hx0 : x = 0
    · rw [if_pos hx0, if_pos hx0]
    · have hne : x ≠ i.rd := by
        rcases hrd with ⟨hf, hra⟩ | ⟨-, h0⟩
        · rw [hra]
          exact hx.resolve_left fun h => h hf
        · rw [h0]
          exact hx0
      rw [if_neg hx0, if_neg hx0, if_neg hne, if_neg (show x ≠ (i.withRvc true).rd from hne)]
  link hf := by
    rcases hrd with ⟨-, hra⟩ | ⟨hne, -⟩
    · have hra0 : ¬Reg.ra = 0 := by decide
      have hra' : Reg.ra = (i.withRvc true).rd := hra.symm
      rw [jalrState_gp, jalrState_gp, if_neg hra0, if_neg hra0, if_pos hra', if_pos hra.symm,
        Inst.link, Inst.link, Inst.length, Inst.length, hi]
      exact ⟨rfl, rfl⟩
    · exact absurd hf hne
  fp := rfl
  world := rfl
  leaves := rfl
  target := ⟨rfl, rfl, rfl⟩
  fallThrough h := by
    rw [show (i.withRvc true).continueExec = true from hc] at h
    cases h

theorem agree_jalr {fpu : HostFpu} {f : CForm} (s : State) {i : Inst} (ht : i.type = .jalr)
    (hi : i.rvc = false) (hc : i.continueExec = true)
    (hrd : f = .jalr ∧ i.rd = Reg.ra ∨ f ≠ .jalr ∧ i.rd = 0) :
    Agree (SameEffect f s) (runRecord fpu s (i.withRvc true)) (runRecord fpu s i) := by
  have hsp : i.rd ≠ 2 := by
    rcases hrd with ⟨-, h⟩ | ⟨-, h⟩ <;> rw [h] <;> decide
  have hfun : func fpu i.type = funcJalr := by
    rw [ht, func_eq_handler]
    rfl
  have hfun' : func fpu (i.withRvc true).type = funcJalr := hfun
  unfold runRecord
  rw [hfun, hfun', funcJalr_eq, funcJalr_eq]
  show Agree _ (Except.map _ (if i.jalrTarget s = 0 then _ else _)) _
  by_cases hz : i.jalrTarget s = 0
  · rw [if_pos hz, if_pos hz]
    cases s.load s.pc 4 with
    | error e => rfl
    | ok p =>
        show SameEffect f s ((jalrState s _ (jalrReport s (i.withRvc true) p)).setGp _ _, _) _
        rw [jalrReport_withRvc s hsp]
        exact sameEffect_jalrState hi hc hrd
  · rw [if_neg hz, if_neg hz]
    exact sameEffect_jalrState hi hc hrd

/-! ### The refinement -/

/-- For every legal compressed instruction, whatever follows it in the fetched word and
whatever the state: the loop body does what it does for the instruction's expansion. -/
theorem execWord_compressed (fpu : HostFpu) (f : CForm) (c : BitVec 16) (hc : f.Legal c)
    (w : BitVec 32) (hw : w.setWidth 16 = c) (prev prev' : Inst) (s : State) :
    Agree (SameEffect f s) (execWord fpu w s prev) (execWord fpu (f.expansion c) s prev') := by
  rw [execWord_of_decode (decodeInst_of_legal hc hw prev),
    execWord_of_decode (decodeInst_expansion f c prev')]
  have hrvc : (expanded f c).rvc = false := decoded_rvc _ _
  cases f
  case slli => exact agree_shift (.inl rfl) c s
  case srli => exact agree_shift (.inr (.inl rfl)) c s
  case srai => exact agree_shift (.inr (.inr rfl)) c s
  case beqz | bnez => exact agree_branch (by decide) (func_eq_handler fpu _) hrvc s
  case j => exact agree_j c s
  case jr =>
    exact agree_jalr s rfl hrvc rfl
      (.inr ⟨by decide, (carries_reader (format .jalr) (CForm.jr.expand c).2).1⟩)
  case jalr =>
    exact agree_jalr s rfl hrvc rfl
      (.inl ⟨rfl, (carries_reader (format .jalr) (CForm.jalr.expand c).2).1⟩)
  all_goals exact runRecord_withRvc fpu (by decide) hrvc rfl s

/-- `c.addi x10, 1` below an upper half of all ones. -/
theorem execWord_compressed_addi :
    Agree (SameEffect .addi default) (execWord default 0xffff0505 default {})
      (execWord default (CForm.addi.expansion 0x0505) default {}) :=
  execWord_compressed default .addi 0x0505 ⟨by decide, by decide⟩ 0xffff0505 (by decide) {} {}
    default

end Rvemu
