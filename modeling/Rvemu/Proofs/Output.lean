/-
What the process writes and closes.

The world keeps a log of what was written to each descriptor and of the descriptors
that were closed.  Two system calls add to it, `write` and `close`, and so do the
handlers that print: a load or an operation with an immediate that leaves zero in
`ra`, a store to one fixed address, and a jump through `jalr` to address zero.  What
they print is lost once the guest has closed standard error.

`stepOutput` says what one step writes, from the state before it and the value left
in `ra`; what a run writes is that of its steps, in order.
-/
import Rvemu.Proofs.Zero

namespace Rvemu

open Steps

/-! ### What an instruction prints -/

/-- A line on standard error. -/
def onStderr (text : String) : Output :=
  { fd := 2, bytes := text.toList.map fun c => BitVec.ofNat 8 c.toNat }

/-- A load into `ra`, by the value it leaves there. -/
def loadLines (s : State) (i : Inst) (ra : Word) : List String :=
  if i.rd = Reg.ra ∧ ra = 0 then
    ["DEBUG: ra loaded with 0 from addr " ++ hex (s.gp i.rs1 + i.imm.signExtend 64) ++ " (pc=" ++
      hex s.pc ++ ")\n"]
  else []

/-- An operation with an immediate, by the value it leaves in `ra`. -/
def aluImmLines (s : State) (i : Inst) (ra : Word) : List String :=
  if i.rd = Reg.ra ∧ ra = 0 then ["DEBUG: ra set to 0 by ALU at pc=" ++ hex s.pc ++ "\n"] else []

/-- A store of a general register. -/
def storeLines (s : State) (i : Inst) (_ : Word) : List String :=
  if s.gp i.rs1 + i.imm.signExtend 64 = 0x201bc30 then
    ["DEBUG: store to " ++ hex (s.gp i.rs1 + i.imm.signExtend 64) ++ " val=" ++ hex (s.gp i.rs2) ++
      " at pc=" ++ hex s.pc ++ "\n"]
  else []

/-- A jump to an address in a register. -/
def jalrLines (s : State) (i : Inst) (_ : Word) : List String :=
  if i.jalrTarget s = 0 then
    match s.load s.pc 4 with
    | .ok p => jalrReport s i p
    | .error _ => []
  else []

/-- What each instruction prints, from the state before it and the value it leaves in `ra`. -/
def InstType.prints : InstType → State → Inst → Word → List String
  | .lb | .lh | .lw | .ld | .lbu | .lhu | .lwu => loadLines
  | .addi | .slli | .slti | .sltiu | .xori | .srli | .srai | .ori | .andi
  | .addiw | .slliw | .srliw | .sraiw => aluImmLines
  | .sb | .sh | .sw | .sd => storeLines
  | .jalr => jalrLines
  | _ => fun _ _ _ => []

/-- What is written when lines are printed on standard error. -/
def World.printed (w : World) (lines : List String) : List Output :=
  if w.stderrShut then [] else lines.map onStderr

@[simp] theorem printed_nil (w : World) : w.printed [] = [] := by
  unfold World.printed
  split <;> rfl

/-- The world after some lines were printed, and nothing else was written or closed. -/
structure Said (w w' : World) (lines : List String) : Prop where
  out : w'.out = w.out ++ w.printed lines
  closed : w'.closed = w.closed
  shut : w'.stderrShut = w.stderrShut

/-- One line. -/
theorem said_eprint (s : State) (text : String) : Said s.world (s.eprint text).world [text] where
  out := by
    unfold State.eprint World.printed
    dsimp only
    split
    · exact (List.append_nil _).symm
    · rfl
  closed := rfl
  shut := rfl

/-- Lines, and more lines. -/
theorem Said.append {w w₁ w' : World} {lines lines' : List String} (h : Said w w₁ lines)
    (h' : Said w₁ w' lines') : Said w w' (lines ++ lines') where
  out := by
    rw [h'.out, h.out, List.append_assoc]
    refine congrArg (w.out ++ ·) ?_
    unfold World.printed
    rw [h.shut]
    split <;> simp
  closed := h'.closed.trans h.closed
  shut := h'.shut.trans h.shut

/-- A handler that closes nothing and prints these lines. -/
def Says (lines : State → Inst → Word → List String) (h : Handler) : Prop :=
  ∀ (s s' : State) (i i' : Inst), h s i = .ok (s', i') →
    Said s.world s'.world (lines s i (s'.gp Reg.ra))

/-- A handler that prints nothing. -/
abbrev Silent (h : Handler) : Prop := Says (fun _ _ _ => []) h

theorem silent_of {h : Handler}
    (hw : ∀ (s s' : State) (i i' : Inst), h s i = .ok (s', i') →
      s'.world.out = s.world.out ∧ s'.world.closed = s.world.closed ∧
        s'.world.stderrShut = s.world.stderrShut) : Silent h := by
  intro s s' i i' hs
  obtain ⟨hout, hclosed, hshut⟩ := hw s s' i i' hs
  exact ⟨by rw [hout]; simp, hclosed, hshut⟩

/-- A computation that may fail, and then an update that is no change of the world. -/
theorem silent_of_bind {α : Type} {h : Handler} (pre : State → Inst → Except Stop α)
    (upd : State → Inst → α → State)
    (hh : ∀ s i, h s i = pre s i >>= fun a => .ok (upd s i a, i))
    (hupd : ∀ s i a, (upd s i a).world = s.world) : Silent h := by
  refine silent_of fun s s' i i' hs => ?_
  rw [hh] at hs
  obtain ⟨a, -, hs⟩ := bind_ok_inv hs
  cases hs
  rw [hupd]
  exact ⟨rfl, rfl, rfl⟩

/-- The debug output, when it is made and when not. -/
theorem debug_log (s : State) (c : Bool) (text : String) :
    Said s.world (s.debug c text).world (if c then [text] else []) := by
  cases c
  · exact ⟨by simp [State.debug], rfl, rfl⟩
  · exact said_eprint s text

/-- The debug output of a register that is looked at when it is `ra`. -/
theorem debug_ra (s : State) (rd : RegNo) (v : Word) (text : String) {s' : State}
    (hs' : s' = (s.setGp rd v).debug (rd == 1 && v == 0) text) :
    Said s.world s'.world (if rd = Reg.ra ∧ s'.gp Reg.ra = 0 then [text] else []) := by
  have hgp : s'.gp Reg.ra = Function.update s.gpRegs rd v Reg.ra := by
    rw [hs']
    show ((s.setGp rd v).debug _ text).gpRegs Reg.ra = _
    rw [debug_gpRegs]
    rfl
  have hcond : (rd == 1 && v == 0) = decide (rd = Reg.ra ∧ s'.gp Reg.ra = 0) := by
    rw [Bool.eq_iff_iff, Bool.and_eq_true, beq_iff_eq, beq_iff_eq, decide_eq_true_iff]
    refine and_congr_right fun hrd => ?_
    rw [hgp, hrd]
    show v = 0 ↔ Function.update s.gpRegs Reg.ra v Reg.ra = 0
    rw [Function.update_self]
  have hlog := debug_log (s.setGp rd v) (rd == 1 && v == 0) text
  rw [← hs', hcond] at hlog
  simp only [decide_eq_true_eq] at hlog
  exact hlog

theorem loadFunc_says (n : Nat) (conv : BitVec (8 * n) → Word) :
    Says loadLines (loadFunc n conv) := by
  intro s s' i i' h
  obtain ⟨raw, -, h⟩ := bind_ok_inv h
  cases h
  exact debug_ra s i.rd (conv raw) _ rfl

theorem aluImmFunc_says (expr : Word → Word → Word) : Says aluImmLines (aluImmFunc expr) := by
  intro s s' i i' h
  cases h
  exact debug_ra s i.rd (expr (s.gp i.rs1) (i.imm.signExtend 64)) _ rfl

theorem storeFunc_says (n : Nat) : Says storeLines (storeFunc n) := by
  intro s s' i i' h
  obtain ⟨s₁, hstore, h⟩ := bind_ok_inv h
  cases h
  obtain ⟨m, -, rfl⟩ := store_inv hstore
  have hlog := debug_log (s.withMem m) (s.gp i.rs1 + i.imm.signExtend 64 == 0x201bc30)
    ("DEBUG: store to " ++ hex (s.gp i.rs1 + i.imm.signExtend 64) ++ " val=" ++ hex (s.gp i.rs2) ++
      " at pc=" ++ hex s.pc ++ "\n")
  simp only [beq_iff_eq] at hlog
  exact ⟨hlog.out, hlog.closed, hlog.shut⟩

theorem storeFpFunc_silent (n : Nat) : Silent (storeFpFunc n) := by
  refine silent_of fun s s' i i' h => ?_
  obtain ⟨s₁, hstore, h⟩ := bind_ok_inv h
  cases h
  obtain ⟨m, -, rfl⟩ := store_inv hstore
  exact ⟨rfl, rfl, rfl⟩

/-- Lines printed one after the other. -/
theorem foldl_eprint_log (lines : List String) (s : State) :
    Said s.world (lines.foldl State.eprint s).world lines := by
  induction lines generalizing s with
  | nil => exact ⟨by simp, rfl, rfl⟩
  | cons l rest ih => exact (said_eprint s l).append (ih (s.eprint l))

theorem funcJalr_says : Says jalrLines funcJalr := by
  intro s s' i i' h
  rw [funcJalr_eq] at h
  unfold jalrLines
  by_cases hz : i.jalrTarget s = 0
  · rw [if_pos hz] at h ⊢
    obtain ⟨p, hload, h⟩ := map_ok_inv h
    rw [hload]
    cases h
    exact foldl_eprint_log (jalrReport s i p) s
  · rw [if_neg hz] at h ⊢
    cases h
    exact foldl_eprint_log [] s

theorem funcFlw_silent : Silent funcFlw := silent_of_bind _ _ (fun _ _ => rfl) fun _ _ _ => rfl

theorem funcFld_silent : Silent funcFld := silent_of_bind _ _ (fun _ _ => rfl) fun _ _ _ => rfl

theorem trapAluFunc_silent (expr : Word → Word → Except Stop Word) : Silent (trapAluFunc expr) :=
  silent_of_bind _ _ (fun _ _ => rfl) fun _ _ _ => rfl

theorem csrFunc_silent : Silent csrFunc :=
  silent_of_bind _ _ csrFunc_eq fun _ _ _ => rfl

theorem branchFunc_silent (expr : Word → Word → Bool) : Silent (branchFunc expr) := by
  refine silent_of fun s s' i i' h => ?_
  rw [branchFunc_eq] at h
  have h' := Except.ok.inj h
  split at h' <;> cases h' <;> exact ⟨rfl, rfl, rfl⟩

/-- Every handler prints what the table says, and closes nothing. -/
theorem handler_says (fpu : HostFpu) (t : InstType) : Says t.prints (handler fpu t) := by
  cases t
  all_goals simp only [handler, InstType.prints]
  case lb | lh | lw | ld | lbu | lhu | lwu => exact loadFunc_says _ _
  case addi | slli | slti | sltiu | xori | srli | srai | ori | andi | addiw | slliw | srliw
      | sraiw =>
    exact aluImmFunc_says _
  case sb | sh | sw | sd => exact storeFunc_says _
  case fsw | fsd => exact storeFpFunc_silent _
  case jalr => exact funcJalr_says
  case div | divu | rem | remu | divw | divuw | remw | remuw => exact trapAluFunc_silent _
  case beq | bne | blt | bge | bltu | bgeu => exact branchFunc_silent _
  case csrrc | csrrci | csrrs | csrrsi | csrrw | csrrwi => exact csrFunc_silent
  case flw => exact funcFlw_silent
  case fld => exact funcFld_silent
  all_goals
    refine silent_of fun s s' i i' h => ?_
    cases h
    exact ⟨rfl, rfl, rfl⟩

/-! ### What a system call writes and closes -/

/-- The world after something that wrote to no descriptor and closed none. -/
structure SameLog (w w' : World) : Prop where
  out : w'.out = w.out
  closed : w'.closed = w.closed
  shut : w'.stderrShut = true → w.stderrShut = true

theorem SameLog.refl (w : World) : SameLog w w := ⟨rfl, rfl, id⟩

theorem SameLog.trans {w w₁ w' : World} (h : SameLog w w₁) (h' : SameLog w₁ w') :
    SameLog w w' where
  out := h'.out.trans h.out
  closed := h'.closed.trans h.closed
  shut hw := h.shut (h'.shut hw)

theorem SameLog.tick {w w' : World} (h : SameLog w w') : SameLog w w'.tick where
  out := h.out
  closed := h.closed
  shut := h.shut

theorem SameLog.withMem {w w' : World} (h : SameLog w w') (mem : Memory.Mem 64) :
    SameLog w (w'.withMem mem) where
  out := h.out
  closed := h.closed
  shut := h.shut

theorem SameLog.settled {w w' : World} (h : SameLog w w') (os : Os) :
    SameLog w (w'.settled os) := (h.withMem _).tick

/-- A file that is opened may become standard error again. -/
theorem SameLog.opened {w w' : World} (h : SameLog w w') (flags : BitVec 32)
    (r : Reply (BitVec 32)) : SameLog w (w'.opened flags r) := by
  unfold World.opened
  split
  · exact ⟨h.out, h.closed, nofun⟩
  · exact h

/-- A call that writes to no descriptor and closes none. -/
def Logless (f : Syscall) : Prop :=
  ∀ (m : Machine) (r : Word) (m' : Machine), f m = .ok (r, m') →
    SameLog m.state.world m'.state.world

variable {os : Os}

theorem sysUnimplemented_logless : Logless sysUnimplemented := fun _ _ _ h => by cases h

theorem sysExit_logless : Logless sysExit := fun _ _ _ h => by cases h

theorem sysFstat_logless : Logless (sysFstat os) := by
  intro m r m' h
  unfold sysFstat at h
  dsimp only at h
  split at h <;> cases h
  · exact ((SameLog.refl m.state.world).withMem _).tick
  · exact (SameLog.refl m.state.world).settled os

theorem sysGettimeofday_logless : Logless (sysGettimeofday os) := by
  intro m r m' h
  cases sysGettimeofday_inv h with
  | told hreply htime hzone => exact ((SameLog.refl m.state.world).withMem _).tick
  | fails hreply => exact (SameLog.refl m.state.world).settled os

theorem sysOpenat_logless : Logless (sysOpenat os) := by
  intro m r m' h
  cases h
  exact ((SameLog.refl m.state.world).settled os).opened _ _

theorem sysOpen_logless : Logless (sysOpen os) := by
  intro m r m' h
  cases h
  exact ((SameLog.refl m.state.world).settled os).opened _ _

theorem sysLseek_logless : Logless (sysLseek os) := by
  intro m r m' h
  cases h
  exact (SameLog.refl m.state.world).settled os

theorem sysRead_logless : Logless (sysRead os) := by
  intro m r m' h
  unfold sysRead at h
  dsimp only at h
  split at h <;> cases h
  · exact ((SameLog.refl m.state.world).withMem _).tick
  · exact (SameLog.refl m.state.world).settled os

theorem AllocKind.log {w w' : World} {mmu mmu' : Mmu} {size : Word}
    (h : AllocKind os w mmu size w' mmu') : SameLog w w' := by
  cases h with
  | grows => exact ((SameLog.refl w).withMem _).tick
  | shrinks => exact ((SameLog.refl w).withMem _).tick
  | stays => exact .refl w

theorem sysBrk_logless : Logless (sysBrk os) := by
  intro m r m' h
  obtain ⟨-, -, -, w, mmu, rfl, hkind⟩ := sysBrk_inv h
  exact hkind.log

/-- The numbers of `write` and `close`. -/
def sysWriteNumber : Word := 64
def sysCloseNumber : Word := 57

/-- What the table holds is silent, but for `write` and `close` at their numbers. -/
theorem syscallTable_logless {n : Nat} {f : Syscall} (h : (syscallTable os).lookup n = some f) :
    Logless f ∨ n = sysWriteNumber.toNat ∧ f = sysWrite os ∨
      n = sysCloseNumber.toNat ∧ f = sysClose os := by
  obtain ⟨l₁, l₂, htable, -⟩ := List.lookup_eq_some_iff.mp h
  have hall : ∀ p ∈ syscallTable os, Logless p.2 ∨ p.1 = sysWriteNumber.toNat ∧ p.2 = sysWrite os ∨
      p.1 = sysCloseNumber.toNat ∧ p.2 = sysClose os := by
    simp only [syscallTable, List.forall_mem_cons, List.not_mem_nil, false_implies, implies_true,
      and_true, sysUnimplemented_logless, sysExit_logless, sysFstat_logless,
      sysGettimeofday_logless, sysOpenat_logless, sysLseek_logless, sysRead_logless,
      sysBrk_logless, true_or, true_and]
    exact ⟨.inr (.inl rfl), .inr (.inr rfl)⟩
  exact hall (n, f) (by rw [htable]; simp)

theorem oldSyscallTable_logless {n : Nat} {f : Syscall}
    (h : (oldSyscallTable os).lookup n = some f) : Logless f := by
  obtain ⟨l₁, l₂, htable, -⟩ := List.lookup_eq_some_iff.mp h
  have hall : ∀ p ∈ oldSyscallTable os, Logless p.2 := by
    simp only [oldSyscallTable, List.forall_mem_cons, List.not_mem_nil, false_implies,
      implies_true, and_true, sysUnimplemented_logless, sysOpen_logless]
  exact hall (n, f) (by rw [htable]; simp)

/-- What `write` writes: as many bytes as the host says it took. -/
def written (os : Os) (m : Machine) : List Output :=
  let w := m.state.world
  let fd := (m.state.gp Reg.a0).setWidth 32
  let buf := toHost (m.state.gp Reg.a1)
  match os.write w.clock w.mem fd buf (m.state.gp Reg.a2) with
  | .ok (.ok n) => [{ fd := fd, bytes := w.mem.getList buf n.toNat }]
  | _ => []

/-- What is added to the log.  Standard error is shut only by closing its descriptor. -/
structure Logs (w w' : World) (outs : List Output) (fds : List (BitVec 32)) : Prop where
  out : w'.out = w.out ++ outs
  closed : w'.closed = w.closed ++ fds
  shut : w'.stderrShut = true → w.stderrShut = true ∨ 2 ∈ fds

theorem sysWrite_log {m m' : Machine} {r : Word} (h : sysWrite os m = .ok (r, m')) :
    Logs m.state.world m'.state.world (written os m) [] := by
  unfold sysWrite at h
  dsimp only at h
  unfold written
  dsimp only
  cases hreply : os.write m.state.world.clock m.state.world.mem
      ((m.state.gp Reg.a0).setWidth 32) (toHost (m.state.gp Reg.a1)) (m.state.gp Reg.a2) with
  | error no =>
      rw [hreply] at h
      cases h
  | ok reply =>
      rw [hreply] at h
      cases h
      refine ⟨?_, (List.append_nil _).symm, .inl⟩
      cases reply with
      | ok n => rfl
      | fail errno => exact (List.append_nil _).symm

/-- The descriptor that `close` asks the host to close. -/
def asksToClose (m : Machine) : List (BitVec 32) :=
  if (2 : Word).ult (m.state.gp Reg.a0) then [(m.state.gp Reg.a0).setWidth 32] else []

theorem sysClose_log {m m' : Machine} {r : Word} (h : sysClose os m = .ok (r, m')) :
    Logs m.state.world m'.state.world [] (asksToClose m) := by
  unfold sysClose at h
  dsimp only at h
  unfold asksToClose
  split at h
  · rename_i hfd
    cases h
    rw [if_pos hfd]
    refine ⟨(List.append_nil _).symm, rfl, fun hshut => ?_⟩
    rw [List.mem_singleton]
    exact (Bool.or_eq_true ..).mp hshut |>.imp_right fun h => (beq_iff_eq.mp h).symm
  · rename_i hfd
    cases h
    rw [if_neg hfd]
    exact ⟨(List.append_nil _).symm, (List.append_nil _).symm, .inl⟩

/-- Only `write` and `close` add to the log. -/
theorem doSyscall_log {m m' : Machine} {n r : Word} (h : doSyscall os m n = .ok (r, m')) :
    SameLog m.state.world m'.state.world ∧ n ≠ sysWriteNumber ∧ n ≠ sysCloseNumber ∨
      n = sysWriteNumber ∧ sysWrite os m = .ok (r, m') ∨
      n = sysCloseNumber ∧ sysClose os m = .ok (r, m') := by
  by_cases hwrite : n = sysWriteNumber
  · refine .inr (.inl ⟨hwrite, ?_⟩)
    rw [← h, hwrite]
    exact (doSyscall_table (k := 64) rfl (by decide) rfl).symm
  by_cases hclose : n = sysCloseNumber
  · refine .inr (.inr ⟨hclose, ?_⟩)
    rw [← h, hclose]
    exact (doSyscall_table (k := 57) rfl (by decide) rfl).symm
  refine .inl ⟨?_, hwrite, hclose⟩
  unfold doSyscall at h
  dsimp only at h
  split at h
  · cases h
  · rename_i f hf
    split at hf
    · rcases syscallTable_logless hf with hlogless | ⟨hn, -⟩ | ⟨hn, -⟩
      · exact hlogless m r m' h
      · exact absurd (BitVec.eq_of_toNat_eq hn) hwrite
      · exact absurd (BitVec.eq_of_toNat_eq hn) hclose
    · split at hf
      · exact oldSyscallTable_logless hf m r m' h
      · cases hf

/-! ### What a step writes and closes -/

instance (m : Machine) : Decidable m.AtEcall :=
  inferInstanceAs (Decidable (m.state.load m.state.pc 4 = .ok 0x73))

/-- What the guest writes with the instruction it is about to execute. -/
def Machine.guestWrite (os : Os) (m : Machine) : List Output :=
  if m.AtEcall ∧ m.state.gp Reg.a7 = sysWriteNumber then written os m else []

/-- The descriptor that the instruction asks the host to close. -/
def Machine.guestClose (m : Machine) : List (BitVec 32) :=
  if m.AtEcall ∧ m.state.gp Reg.a7 = sysCloseNumber then asksToClose m else []

/-- What the instruction itself prints in a step to `m'`. -/
def Machine.instPrints (m m' : Machine) : List Output :=
  match m.state.load m.state.pc 4 with
  | .ok raw =>
    match decodeInst {} raw with
    | .ok i => m.state.world.printed (i.type.prints m.state i (m'.state.gp Reg.ra))
    | .error _ => []
  | .error _ => []

/-- All that is written in a step from `m` to `m'`. -/
def stepOutput (os : Os) (m m' : Machine) : List Output := m.guestWrite os ++ m.instPrints m'

theorem instPrints_ecall {m : Machine} (hat : m.AtEcall) (m' : Machine) :
    m.instPrints m' = [] := by
  unfold Machine.instPrints
  rw [hat]
  exact printed_nil _

theorem guestWrite_else {m : Machine} (h : ¬(m.AtEcall ∧ m.state.gp Reg.a7 = sysWriteNumber)) :
    m.guestWrite os = [] := if_neg h

theorem guestClose_else {m : Machine} (h : ¬(m.AtEcall ∧ m.state.gp Reg.a7 = sysCloseNumber)) :
    m.guestClose = [] := if_neg h

/-- A step that is no environment call is its handler, as far as the world is concerned. -/
theorem emuStep_plain {fpu : HostFpu} {m m' : Machine} (hat : ¬m.AtEcall)
    (h : emuStep fpu os m = .ok m') :
    ∃ raw i s i', m.state.load m.state.pc 4 = .ok raw ∧ decodeInst {} raw = .ok i ∧
      handler fpu i.type m.state i = .ok (s, i') ∧ m'.state.world = s.world ∧
      ∀ r, r ≠ Reg.zero → m'.state.gp r = s.gp r := by
  obtain ⟨⟨s, i'⟩, hiter, h⟩ := bind_ok_inv h
  have hecall := execIter_ecall hiter
  obtain ⟨raw, hload, hiter⟩ := bind_ok_inv hiter
  obtain ⟨i, hdec, hiter⟩ := bind_ok_inv hiter
  obtain ⟨⟨s₁, i₁⟩, hrun, hiter⟩ := bind_ok_inv hiter
  cases hiter
  rw [func_eq_handler] at hrun
  have hraw : raw ≠ 0x73 := by
    rintro rfl
    exact hat hload
  rw [decodeInst_prev hraw m.inst {}] at hdec
  have hgp (r : RegNo) (hr : r ≠ Reg.zero) : (s₁.setGp Reg.zero 0).gp r = s₁.gp r :=
    Function.update_of_ne hr _ _
  suffices hsame : m'.state.world = s₁.world ∧
      m'.state.gpRegs = (s₁.setGp Reg.zero 0).gpRegs by
    refine ⟨raw, i, s₁, i', hload, hdec, hrun, hsame.1, fun r hr => ?_⟩
    rw [← hgp r hr]
    exact congrFun hsame.2 r
  dsimp only at h
  by_cases hc : i'.continueExec = true
  · rw [if_pos hc] at h
    by_cases hbranch : s₁.exitReason = .directBranch ∨ s₁.exitReason = .indirectBranch
    · rw [leaveBlock_branch (m := m.withRun (s₁.setGp Reg.zero 0) i') hbranch] at h
      cases h
      exact ⟨rfl, rfl⟩
    · exact absurd (hecall hc hbranch).1 hat
  · rw [if_neg hc] at h
    cases h
    exact ⟨rfl, rfl⟩

/-- What an answered call adds to the log. -/
theorem calling_log {m m₁ : Machine} {r : Word} (hat : m.AtEcall)
    (h : doSyscall os m.calling (m.state.gp Reg.a7) = .ok (r, m₁)) :
    Logs m.state.world m₁.state.world (m.guestWrite os) m.guestClose := by
  unfold Machine.guestWrite Machine.guestClose
  rcases doSyscall_log h with ⟨hsame, hwrite, hclose⟩ | ⟨hnum, hwrite⟩ | ⟨hnum, hclose⟩
  · rw [if_neg fun hc => hwrite hc.2, if_neg fun hc => hclose hc.2]
    exact ⟨hsame.out.trans (List.append_nil _).symm, hsame.closed.trans (List.append_nil _).symm,
      fun h => .inl (hsame.shut h)⟩
  · rw [if_pos ⟨hat, hnum⟩, if_neg fun hc => absurd (hnum.symm.trans hc.2) (by decide)]
    have hlog := sysWrite_log hwrite
    exact ⟨hlog.out, hlog.closed, hlog.shut⟩
  · rw [if_neg fun hc => absurd (hnum.symm.trans hc.2) (by decide), if_pos ⟨hat, hnum⟩]
    have hlog := sysClose_log hclose
    exact ⟨hlog.out, hlog.closed, hlog.shut⟩

/-- **What one step writes and closes.** -/
theorem emuStep_log {fpu : HostFpu} {m m' : Machine} (hzero : m.state.gp Reg.zero = 0)
    (h : emuStep fpu os m = .ok m') :
    Logs m.state.world m'.state.world (stepOutput os m m') m.guestClose := by
  unfold stepOutput
  by_cases hat : m.AtEcall
  · rw [emuStep_ecall hzero hat] at h
    obtain ⟨m₁, hcall, rfl⟩ := map_ok_inv h
    obtain ⟨r, m₂, hdo, rfl⟩ := handleSyscall_inv hcall
    rw [instPrints_ecall hat, List.append_nil]
    have hlog := calling_log hat hdo
    exact ⟨hlog.out, hlog.closed, hlog.shut⟩
  · obtain ⟨raw, i, s, i', hload, hdec, hrun, hworld, hgp⟩ := emuStep_plain hat h
    obtain ⟨hout, hclosed, hshut⟩ := handler_says fpu i.type _ _ _ _ hrun
    rw [guestWrite_else fun hc => hat hc.1, guestClose_else fun hc => hat hc.1, List.nil_append,
      hworld]
    unfold Machine.instPrints
    rw [hload]
    dsimp only
    rw [hdec]
    dsimp only
    rw [hgp Reg.ra (by decide)]
    exact ⟨hout, hclosed.trans (List.append_nil _).symm, fun h => .inl (hshut ▸ h)⟩

/-! ### Before the main loop -/

theorem mmuLoadSegment_log {w w' : World} {mmu mmu' : Mmu} {phdr : Elf64Phdr}
    {file : List (BitVec 8)} (h : mmuLoadSegment os w mmu phdr file = .ok (w', mmu')) :
    SameLog w w' := by
  have hfile : SameLog w (fileMapped os w phdr file) := ((SameLog.refl w).withMem _).tick
  obtain ⟨-, -, ⟨-, rfl⟩ | ⟨-, rfl, -⟩⟩ := mmuLoadSegment_inv h
  · exact hfile
  · exact (hfile.withMem _).tick

theorem mmuWrite_log {w w' : World} {a : Word} {bs : List (BitVec 8)}
    (h : mmuWrite w a bs = .ok w') : SameLog w w' := by
  unfold mmuWrite at h
  split at h
  · cases h
    exact (SameLog.refl w).withMem _
  · cases h

theorem mmuAlloc_log {w w' : World} {mmu mmu' : Mmu} {size b : Word}
    (h : mmuAlloc os w mmu size = .ok (b, w', mmu')) : SameLog w w' :=
  (mmuAlloc_inv h).2.2.2.log

theorem pushArgs_log {args : List (List (BitVec 8))} {w w' : World} {mmu mmu' : Mmu}
    {sp sp' : Word} (h : pushArgs os args w mmu sp = .ok (w', mmu', sp')) : SameLog w w' := by
  induction args generalizing w' mmu' sp' with
  | nil =>
      cases h
      exact .refl w
  | cons arg rest ih =>
      obtain ⟨⟨w₁, mmu₁, sp₁⟩, hrest, h⟩ := bind_ok_inv h
      obtain ⟨⟨addr, w₂, mmu₂⟩, halloc, h⟩ := bind_ok_inv h
      obtain ⟨w₃, hwrite, h⟩ := bind_ok_inv h
      obtain ⟨w₄, hpush, h⟩ := bind_ok_inv h
      cases h
      exact (ih hrest).trans <| (mmuAlloc_log halloc).trans <|
        (mmuWrite_log hwrite).trans (mmuWrite_log hpush)

/-- Loading and the setup write nothing and close nothing. -/
theorem boot_log {prog : Reply (List (BitVec 8))} {phdr : List (BitVec 8)} {pad : BitVec 32}
    {argv : List (List (BitVec 8))} {w : World} {m : Machine}
    (h : boot os prog phdr pad argv w = .ok m) : SameLog w m.state.world := by
  obtain ⟨m₁, hload, hsetup⟩ := boot_inv h
  obtain ⟨file, -, hphdrs, -⟩ := machineLoadProgram_inv hload
  have hloaded : SameLog w m₁.state.world :=
    loadPhdrs_invariant (I := fun w₁ _ => SameLog w w₁)
      (fun hI hseg => hI.trans (mmuLoadSegment_log hseg)) (.refl w) hphdrs
  obtain ⟨addr, w₁, mmu₁, w₂, sp, halloc, hpush, hwrite, -⟩ := machineSetup_inv hsetup
  exact hloaded.trans <| (mmuAlloc_log halloc).trans <|
    (pushArgs_log hpush).trans (mmuWrite_log hwrite)

/-! ### What a run writes -/

/-- A step with `x0` at zero leaves it there. -/
theorem emuStep_written {fpu : HostFpu} {m m' : Machine} (hzero : m.state.gp Reg.zero = 0)
    (h : emuStep fpu os m = .ok m') :
    m'.state.gp Reg.zero = 0 ∧ m'.state.world.out = m.state.world.out ++ stepOutput os m m' :=
  ⟨emuStep_zero h, (emuStep_log hzero h).out⟩

/-- What an instruction prints goes to standard error. -/
theorem instPrints_fd {m m' : Machine} {o : Output} (h : o ∈ m.instPrints m') : o.fd = 2 := by
  unfold Machine.instPrints at h
  split at h
  · split at h
    · unfold World.printed at h
      split at h
      · cases h
      · obtain ⟨text, -, rfl⟩ := List.mem_map.mp h
        rfl
    · cases h
  · cases h

/-- On the other descriptors there is what the guest writes. -/
theorem stepOutput_filter (os : Os) (m m' : Machine) :
    (stepOutput os m m').filter (·.fd ≠ 2) = (m.guestWrite os).filter (·.fd ≠ 2) := by
  have hprints : (m.instPrints m').filter (·.fd ≠ 2) = [] :=
    List.filter_eq_nil_iff.mpr fun o ho => by simp [instPrints_fd ho]
  rw [stepOutput, List.filter_append, hprints, List.append_nil]

/-- Standard error was shut from the start, or the guest has closed it. -/
def ShutByClose (w : World) (m : Machine) : Prop :=
  m.state.world.stderrShut = true → w.stderrShut = true ∨ 2 ∈ m.state.world.closed

theorem emuStep_shut {fpu : HostFpu} {w : World} {m m' : Machine} (hzero : m.state.gp Reg.zero = 0)
    (hI : ShutByClose w m) (h : emuStep fpu os m = .ok m') : ShutByClose w m' := by
  have hlog := emuStep_log hzero h
  intro hshut
  rw [hlog.closed, List.mem_append]
  rcases hlog.shut hshut with hbefore | hcloses
  · exact (hI hbefore).imp_right .inl
  · exact .inr (.inr hcloses)

/-- **What a run writes.**  The log is what the process had written before, and then what the
steps write, in order: what the guest writes with a call and the host takes, and the lines that
single instructions print, which go to standard error, or nowhere once that is shut.  On every
other descriptor there is nothing but what the guest writes; and standard error is not shut
unless it was from the start or the guest has closed it. -/
theorem mainLoop_out {fpu : HostFpu} {prog : Reply (List (BitVec 8))} {phdr : List (BitVec 8)}
    {pad : BitVec 32} {argv : List (List (BitVec 8))} {w : World} {m₀ m : Machine} {n : Nat}
    (hboot : boot os prog phdr pad argv w = .ok m₀) (h : mainLoop fpu os n m₀ = .ok m) :
    m.state.world.out =
        w.out ++ collect (emuStep fpu os) (fun m m' => m.guestWrite os ++ m.instPrints m') n
          m₀.enter ∧
      m.state.world.out.filter (·.fd ≠ 2) =
        w.out.filter (·.fd ≠ 2) ++
          collect (emuStep fpu os) (fun m _ => (m.guestWrite os).filter (·.fd ≠ 2)) n m₀.enter ∧
      ShutByClose w m := by
  rw [mainLoop_eq_iter] at h
  have hzero : m₀.enter.state.gp Reg.zero = 0 := boot_gp hboot (by decide)
  have hbooted := boot_log hboot
  have hstart : m₀.enter.state.world.out = w.out := hbooted.out
  refine ⟨?_, ?_, ?_⟩
  · rw [← hstart]
    exact iter_log (I := fun m => m.state.gp Reg.zero = 0) (f := fun m => m.state.world.out)
      (fun hI hs => emuStep_written hI hs) hzero h
  · rw [← hstart]
    refine iter_log (I := fun m => m.state.gp Reg.zero = 0)
      (f := fun m => m.state.world.out.filter (·.fd ≠ 2)) (fun hI hs => ?_) hzero h
    obtain ⟨hI', hout⟩ := emuStep_written hI hs
    refine ⟨hI', ?_⟩
    rw [hout, List.filter_append, stepOutput_filter]
  · have hshut : ShutByClose w m₀.enter := fun h => .inl (hbooted.shut h)
    exact (iter_invariant (I := fun m => m.state.gp Reg.zero = 0 ∧ ShutByClose w m)
      (fun hI hs => ⟨emuStep_zero hs, emuStep_shut hI.1 hI.2 hs⟩) ⟨hzero, hshut⟩ h).2

theorem mainLoop_out_write :
    ∃ m₀ m, mainLoop default grantingOs 5 m₀ = .ok m ∧
      m.state.world.out = [{ fd := 1, bytes := [0x7f, 0x45] }] ∧
      m.state.world.out = [] ++ collect (emuStep default grantingOs)
        (fun m m' => m.guestWrite grantingOs ++ m.instPrints m') 5 m₀.enter := by
  -- `li a0, 1`, `lui a1, 0x10`, `li a2, 2`, `li a7, 64` and `ecall`
  have hok : (bootCode grantingOs [0x13, 0x05, 0x10, 0x00, 0xb7, 0x05, 0x01, 0x00,
      0x13, 0x06, 0x20, 0x00, 0x93, 0x08, 0x00, 0x04, 0x73, 0x00, 0x00, 0x00] >>=
      mainLoop default grantingOs 5).map (fun m => m.state.world.out) =
        .ok [{ fd := 1, bytes := [0x7f, 0x45] }] := by
    decide +kernel
  obtain ⟨m, h, hout⟩ := map_ok_inv hok
  obtain ⟨m₀, hboot, hrun⟩ := bind_ok_inv h
  exact ⟨m₀, m, hrun, hout, (mainLoop_out hboot hrun).1⟩

/-- `li ra, 0` prints a line on standard error, and the guest has written nothing. -/
theorem alu_prints :
    ∃ m₀ m, bootCode grantingOs [0x93, 0x00, 0x00, 0x00] = .ok m₀ ∧
      mainLoop default grantingOs 1 m₀ = .ok m ∧
      m.state.world.out = [onStderr "DEBUG: ra set to 0 by ALU at pc=10078\n"] ∧
      collect (emuStep default grantingOs) (fun m _ => m.guestWrite grantingOs) 1 m₀.enter = [] := by
  have hok : (bootCode grantingOs [0x93, 0x00, 0x00, 0x00] >>= fun m₀ =>
      (mainLoop default grantingOs 1 m₀).map fun m => (m.state.world.out,
        collect (emuStep default grantingOs) (fun m _ => m.guestWrite grantingOs) 1 m₀.enter)) =
      .ok ([onStderr "DEBUG: ra set to 0 by ALU at pc=10078\n"], []) := by
    decide +kernel
  obtain ⟨m₀, hboot, h⟩ := bind_ok_inv hok
  obtain ⟨m, hrun, h⟩ := map_ok_inv h
  obtain ⟨hout, hnone⟩ := Prod.mk.inj h
  exact ⟨m₀, m, hboot, hrun, hout, hnone⟩

/-! ### What a run closes -/

/-- Standard input, output and error. -/
def standardFds : List (BitVec 32) := [0, 1, 2]

/-- The host was not asked to close one of the emulator's own descriptors. -/
def StandardOpen (m : Machine) : Prop := ∀ fd ∈ m.state.world.closed, fd ∉ standardFds

/-- The call that is next, if it is `close` with a value that is let through, does not have one
of the emulator's own descriptors in the lower half of it. -/
def SparesStandard (m : Machine) : Prop :=
  m.AtEcall → m.state.gp Reg.a7 = sysCloseNumber → (2 : Word).ult (m.state.gp Reg.a0) = true →
    (m.state.gp Reg.a0).setWidth 32 ∉ standardFds

instance (m : Machine) : Decidable (SparesStandard m) :=
  inferInstanceAs (Decidable (m.state.load m.state.pc 4 = .ok 0x73 → _ → _ → _))

theorem emuStep_closed {fpu : HostFpu} {m m' : Machine}
    (hI : m.state.gp Reg.zero = 0 ∧ StandardOpen m) (h : emuStep fpu os m = .ok m') :
    SparesStandard m ↔ m'.state.gp Reg.zero = 0 ∧ StandardOpen m' := by
  obtain ⟨hzero, hopen⟩ := hI
  have hclosed := (emuStep_log hzero h).closed
  have hnew : StandardOpen m' ↔ ∀ fd ∈ m.guestClose, fd ∉ standardFds := by
    unfold StandardOpen
    rw [hclosed, List.forall_mem_append]
    exact and_iff_right hopen
  rw [hnew, and_iff_right (emuStep_zero h)]
  unfold SparesStandard Machine.guestClose asksToClose
  by_cases hcall : m.AtEcall ∧ m.state.gp Reg.a7 = sysCloseNumber
  · rw [if_pos hcall]
    by_cases hfd : (2 : Word).ult (m.state.gp Reg.a0) = true
    · rw [if_pos hfd, List.forall_mem_singleton]
      exact ⟨fun hs => hs hcall.1 hcall.2 hfd, fun hs _ _ _ => hs⟩
    · rw [if_neg hfd]
      exact ⟨fun _ _ hmem => absurd hmem List.not_mem_nil, fun _ _ _ h => absurd h hfd⟩
  · rw [if_neg hcall]
    exact ⟨fun _ _ hmem => absurd hmem List.not_mem_nil,
      fun _ hat hnum _ => absurd ⟨hat, hnum⟩ hcall⟩

/-- **The emulator's own descriptors.**  They stay open throughout a run exactly if no call on
the way is `close` with a value above 2 whose lower half is 0, 1 or 2: the guard looks at 64
bits and the host at 32. -/
theorem mainLoop_closed {fpu : HostFpu} {prog : Reply (List (BitVec 8))} {phdr : List (BitVec 8)}
    {pad : BitVec 32} {argv : List (List (BitVec 8))} {w : World} {m₀ m : Machine} {n : Nat}
    (hboot : boot os prog phdr pad argv w = .ok m₀) (hw : w.closed = [])
    (h : mainLoop fpu os n m₀ = .ok m) :
    (∀ k < n, ∀ t, mainLoop fpu os k m₀ = .ok t → SparesStandard t) ↔
      ∀ k ≤ n, ∀ t, mainLoop fpu os k m₀ = .ok t → StandardOpen t := by
  have hzero (k : Nat) (t : Machine) (ht : mainLoop fpu os k m₀ = .ok t) :
      t.state.gp Reg.zero = 0 := mainLoop_gp_zero hboot ht
  have hstart : m₀.enter.state.gp Reg.zero = 0 ∧ StandardOpen m₀.enter := by
    refine ⟨boot_gp hboot (by decide), ?_⟩
    unfold StandardOpen
    rw [show m₀.enter.state.world.closed = w.closed from (boot_log hboot).closed, hw]
    exact fun fd hfd => absurd hfd List.not_mem_nil
  simp only [mainLoop_eq_iter] at h hzero ⊢
  rw [iter_iff (fun hI hs => emuStep_closed hI hs) hstart h]
  refine forall_congr' fun k => forall_congr' fun _ => forall_congr' fun t => ?_
  exact forall_congr' fun ht => and_iff_right (hzero k t ht)

/-- `li a0, 5`, `li a7, 57` and `ecall`: the program closes a descriptor of its own. -/
theorem mainLoop_closed_sample :
    ∃ m₀ m, mainLoop default grantingOs 3 m₀ = .ok m ∧ m.state.world.closed = [5] ∧
      ∀ k ≤ 3, ∀ t, mainLoop default grantingOs k m₀ = .ok t → StandardOpen t := by
  have hok : (bootCode grantingOs [0x13, 0x05, 0x50, 0x00, 0x93, 0x08, 0x90, 0x03,
      0x73, 0x00, 0x00, 0x00] >>= fun m₀ => (mainLoop default grantingOs 3 m₀).map fun m =>
        (m.state.world.closed, guarded (emuStep default grantingOs) SparesStandard 3 m₀.enter)) =
      .ok ([5], true) := by decide +kernel
  obtain ⟨m₀, hboot, h⟩ := bind_ok_inv hok
  obtain ⟨m, hrun, h⟩ := map_ok_inv h
  obtain ⟨hclosed, hspares⟩ := Prod.mk.inj h
  refine ⟨m₀, m, hrun, hclosed, (mainLoop_closed hboot rfl hrun).mp fun k hk t ht => ?_⟩
  rw [mainLoop_eq_iter] at ht
  exact guarded_iff.mp hspares k hk t ht

/-- A program that closes 2^32: `li a0, 1`, `slli a0, a0, 32`, `li a7, 57` and `ecall`. -/
def closingStandard : List (BitVec 8) :=
  [0x13, 0x05, 0x10, 0x00, 0x13, 0x15, 0x05, 0x02, 0x93, 0x08, 0x90, 0x03, 0x73, 0x00, 0x00, 0x00]

/-- The guard lets 2^32 pass, and the host is asked to close descriptor 0. -/
theorem close_truncates :
    ∃ m₀ m, bootCode grantingOs closingStandard = .ok m₀ ∧
      mainLoop default grantingOs 4 m₀ = .ok m ∧ ¬StandardOpen m := by
  have hok : (bootCode grantingOs closingStandard >>= fun m₀ =>
      (mainLoop default grantingOs 4 m₀).map fun m => m.state.world.closed) = .ok [0] := by
    decide +kernel
  obtain ⟨m₀, hboot, h⟩ := bind_ok_inv hok
  obtain ⟨m, hrun, hclosed⟩ := map_ok_inv h
  refine ⟨m₀, m, hboot, hrun, fun hopen => ?_⟩
  unfold StandardOpen at hopen
  rw [hclosed] at hopen
  exact hopen 0 (List.mem_singleton.mpr rfl) (by decide)

end Rvemu
