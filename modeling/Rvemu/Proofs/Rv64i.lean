/-
The base instructions, against the specification.

One pass through the block loop and the update of the program counter that follows
it take the emulator from a state to the state the specification says, whatever
the operands: the same registers, the same memory seen through `TO_HOST`, the same
next address.  An access the specification does not allow ends the emulator
process, and nothing else does.

The proof goes by family of handlers.  A family's lemma leaves one equation of
machine words for each instruction: that the expression the handler computes is
the value the specification names.
-/
import Rvemu.Proofs.Expansion
import Rvemu.Spec.Rv64i

namespace Rvemu

open Memory BitField Spec

/-- The program counter after the loop body: past the instruction, or where the block
is re-entered. -/
def advance (s : State) (inst : Inst) : State :=
  { s with pc := if inst.continueExec then s.reenterPc else s.pc + inst.length }

/-- One iteration of the block loop, with the update of the program counter. -/
def instrStep (fpu : HostFpu) (s : State) (inst : Inst) : Except Stop (State × Inst) :=
  (execIter fpu s inst).map fun p => (advance p.1 p.2, p.2)

/-- What the program sees of the state. -/
def State.arch (s : State) : Arch where
  x := s.gpRegs
  mem := s.world.mem.shift guestMemoryOffset
  pc := s.pc

/-- The emulator ends in the state the specification says, or faults where it says so. -/
def Refines : Except Stop (State × Inst) → Option Arch → Prop
  | .ok (s, _), some a => s.arch = a
  | .error (.segv _), none => True
  | _, _ => False

/-- What is left of the step after the handler. -/
def finish (r : Except Stop (State × Inst)) : Except Stop (State × Inst) :=
  r.map fun p => (advance (p.1.setGp Reg.zero 0) p.2, p.2)

theorem instrStep_of_decode {fpu : HostFpu} {s : State} {prev i : Inst} {w : BitVec 32}
    (hfetch : s.load s.pc 4 = .ok w) (hdec : decodeInst prev w = .ok i) :
    instrStep fpu s prev = finish (handler fpu i.type s i) := by
  unfold instrStep execIter
  rw [hfetch]
  show (execWord fpu w s prev).map _ = _
  rw [execWord_of_decode hdec, runRecord, func_eq_handler]
  unfold finish
  cases handler fpu i.type s i <;> rfl

/-! ### Registers and memory -/

section Frame

variable {s : State} (hx0 : s.gp 0 = 0)
include hx0

theorem arch_get (r : RegNo) : s.arch.get r = s.gp r := by
  unfold Arch.get
  by_cases h : r = 0
  · rw [if_pos h, h, hx0]
  · rw [if_neg h]
    rfl

/-- Resetting `x0` after a write is ignoring writes to `x0`. -/
theorem reset_setGp (r : RegNo) (v : Word) :
    ((s.setGp r v).setGp Reg.zero 0).gpRegs = (s.arch.set r v).x := by
  have hreset : Function.update s.gpRegs 0 0 = s.gpRegs := by
    have h := Function.update_eq_self (0 : RegNo) s.gpRegs
    rwa [show s.gpRegs 0 = 0 from hx0] at h
  show Function.update (Function.update s.gpRegs r v) 0 0 = _
  unfold Arch.set
  by_cases h : r = 0
  · rw [if_pos h, h, Function.update_idem]
    exact hreset
  · rw [if_neg h, Function.update_comm h, hreset]
    rfl

end Frame

@[simp] theorem set_mem (a : Arch) (r : BitVec 5) (v : Word) : (a.set r v).mem = a.mem := by
  unfold Arch.set
  split <;> rfl

@[simp] theorem set_pc (a : Arch) (r : BitVec 5) (v : Word) : (a.set r v).pc = a.pc := by
  unfold Arch.set
  split <;> rfl

/-- A result written, and on to the next instruction. -/
theorem refines_result {s s' : State} (hx0 : s.gp 0 = 0) {i : Inst} {rd : RegNo} {v : Word}
    (hrvc : i.rvc = false) (hcont : i.continueExec = false) (hrd : i.rd = rd)
    (hgp : s'.gpRegs = (s.setGp i.rd v).gpRegs) (hmem : s'.world.mem = s.world.mem)
    (hpc : s'.pc = s.pc) : Refines (finish (.ok (s', i))) (some (s.arch.result rd v)) := by
  show (advance (s'.setGp Reg.zero 0) i).arch = _
  apply Arch.ext
  · show Function.update s'.gpRegs Reg.zero 0 = (s.arch.set rd v).x
    rw [hgp, hrd]
    exact reset_setGp hx0 rd v
  · show s'.world.mem.shift _ = (s.arch.set rd v).mem
    rw [hmem, set_mem]
    rfl
  · show (if i.continueExec then s'.reenterPc else s'.pc + i.length) = (s.arch.set rd v).pc + 4
    rw [hcont, set_pc, hpc, Inst.length, hrvc]
    rfl

/-- A new memory, and on to the next instruction. -/
theorem refines_next {s s' : State} (hx0 : s.gp 0 = 0) {i : Inst} (hrvc : i.rvc = false)
    (hcont : i.continueExec = false) {m : Mem 64} (hgp : s'.gpRegs = s.gpRegs)
    (hmem : s'.world.mem = m) (hpc : s'.pc = s.pc) :
    Refines (finish (.ok (s', i)))
      (some { s.arch with mem := m.shift guestMemoryOffset }.next) := by
  subst hmem
  show (advance (s'.setGp Reg.zero 0) i).arch = _
  apply Arch.ext
  · show Function.update s'.gpRegs 0 0 = s.gpRegs
    rw [hgp]
    have h := Function.update_eq_self (0 : RegNo) s.gpRegs
    rwa [show s.gpRegs 0 = 0 from hx0] at h
  · rfl
  · show (if i.continueExec then s'.reenterPc else s'.pc + i.length) = s.pc + 4
    rw [hcont, hpc, Inst.length, hrvc]
    rfl

/-- The program's memory stores where the emulator's does, and the same. -/
theorem store_arch (s : State) (addr : Word) (n : Nat) (v : BitVec (8 * n)) :
    (∃ a, s.store addr n v = .error (.segv a) ∧ s.arch.store addr n v = none) ∨
      ∃ m, s.store addr n v = .ok (s.withMem m) ∧
        s.arch.store addr n v =
          some { s.arch with mem := m.shift guestMemoryOffset }.next := by
  have h := Mem.store_shift s.world.mem guestMemoryOffset addr n v
  have harch : s.arch.store addr n v =
      ((s.world.mem.shift guestMemoryOffset).store addr n v).toOption.map fun m =>
        { s.arch with mem := m }.next := rfl
  rw [harch]
  unfold State.store
  rw [show toHost addr = addr + guestMemoryOffset from rfl]
  cases hs : s.world.mem.store (addr + guestMemoryOffset) n v with
  | error a =>
      left
      rw [hs] at h
      cases hg : (s.world.mem.shift guestMemoryOffset).store addr n v with
      | error b => exact ⟨a, rfl, rfl⟩
      | ok m =>
          rw [hg] at h
          cases h
  | ok m =>
      right
      rw [hs] at h
      cases hg : (s.world.mem.shift guestMemoryOffset).store addr n v with
      | error b =>
          rw [hg] at h
          cases h
      | ok m' =>
          rw [hg] at h
          have hm : m' = m.shift guestMemoryOffset := Except.ok.inj h
          subst hm
          exact ⟨m, rfl, rfl⟩

/-! ### The families -/

section Families

variable {s : State} (hx0 : s.gp 0 = 0) {i : Inst} {o : Operands} (hrvc : i.rvc = false)
  (hcont : i.continueExec = false)
include hx0 hrvc hcont

theorem aluImmFunc_refines {expr : Word → Word → Word} {v : Word} (hrd : i.rd = o.rd)
    (hv : expr (s.gp i.rs1) (i.imm.signExtend 64) = v) :
    Refines (finish (aluImmFunc expr s i)) (some (s.arch.result o.rd v)) := by
  subst hv
  exact refines_result hx0 hrvc hcont hrd (debug_gpRegs _ _ _) (debug_mem _ _ _) (debug_pc _ _ _)

theorem aluFunc_refines {expr : Word → Word → Word} {v : Word} (hrd : i.rd = o.rd)
    (hv : expr (s.gp i.rs1) (s.gp i.rs2) = v) :
    Refines (finish (aluFunc expr s i)) (some (s.arch.result o.rd v)) := by
  subst hv
  exact refines_result hx0 hrvc hcont hrd rfl rfl rfl

/-- A load through `TO_HOST` is a load of the program's memory. -/
theorem loadFunc_refines {n : Nat} {conv : BitVec (8 * n) → Word} {addr : Word}
    (hrd : i.rd = o.rd) (haddr : s.gp i.rs1 + i.imm.signExtend 64 = addr) :
    Refines (finish (loadFunc n conv s i))
      ((s.arch.load addr n).map fun v => s.arch.result o.rd (conv v)) := by
  have hload := Mem.load_shift s.world.mem guestMemoryOffset addr n
  unfold loadFunc State.load Arch.load
  rw [haddr]
  show Refines (finish (((s.world.mem.load (addr + guestMemoryOffset) n).mapError _) >>= _)) _
  rw [← hload]
  show Refines _ ((((s.world.mem.shift guestMemoryOffset).load addr n).toOption).map _)
  cases (s.world.mem.shift guestMemoryOffset).load addr n with
  | error a => trivial
  | ok v =>
      exact refines_result hx0 hrvc hcont hrd (debug_gpRegs _ _ _) (debug_mem _ _ _)
        (debug_pc _ _ _)

/-- A store through `TO_HOST` is a store to the program's memory. -/
theorem storeFunc_refines {n : Nat} {addr : Word} {v : BitVec (8 * n)}
    (haddr : s.gp i.rs1 + i.imm.signExtend 64 = addr)
    (hv : (s.gp i.rs2).setWidth (8 * n) = v) :
    Refines (finish (storeFunc n s i)) (s.arch.store addr n v) := by
  subst hv haddr
  show Refines (finish (s.store (s.gp i.rs1 + i.imm.signExtend 64) n
    ((s.gp i.rs2).setWidth (8 * n)) >>= _)) _
  rcases store_arch s (s.gp i.rs1 + i.imm.signExtend 64) n ((s.gp i.rs2).setWidth (8 * n)) with
    ⟨a, hs, hg⟩ | ⟨m, hs, hg⟩
  · rw [hs, hg]
    trivial
  · rw [hs, hg]
    exact refines_next hx0 hrvc hcont (debug_gpRegs _ _ _) (debug_mem _ _ _) (debug_pc _ _ _)

theorem branchFunc_refines {expr : Word → Word → Bool} {p : Prop} [Decidable p]
    (himm : i.imm.signExtend 64 = o.immB) (hp : expr (s.gp i.rs1) (s.gp i.rs2) = decide p) :
    Refines (finish (branchFunc expr s i))
      (some (if p then { s.arch with pc := s.arch.pc + o.immB } else s.arch.next)) := by
  rw [branchFunc_eq, hp, himm]
  by_cases h : p
  · rw [if_pos h, decide_eq_true h]
    apply Arch.ext
    · have hself := Function.update_eq_self (0 : RegNo) s.gpRegs
      rwa [show s.gpRegs 0 = 0 from hx0] at hself
    · rfl
    · rfl
  · rw [if_neg h, decide_eq_false h]
    exact refines_next hx0 hrvc hcont rfl rfl rfl

end Families

/-- Both fences leave everything as it is. -/
theorem funcEmpty_refines {s : State} (hx0 : s.gp 0 = 0) {i : Inst} (hrvc : i.rvc = false)
    (hcont : i.continueExec = false) : Refines (finish (funcEmpty s i)) (some s.arch.next) :=
  refines_next hx0 hrvc hcont rfl rfl rfl

/-! ### Jumps -/

theorem funcJal_refines {s : State} (hx0 : s.gp 0 = 0) {i : Inst} {o : Operands}
    (hrvc : i.rvc = false) (hcont : i.continueExec = true) (hrd : i.rd = o.rd)
    (himm : i.imm.signExtend 64 = o.immJ) :
    Refines (finish (funcJal s i))
      (some { s.arch.set o.rd (s.arch.pc + 4) with pc := s.arch.pc + o.immJ }) := by
  rw [funcJal_eq, himm]
  apply Arch.ext
  · show Function.update (Function.update s.gpRegs i.rd (i.link s)) 0 0 = _
    rw [hrd, Inst.link, Inst.length, hrvc]
    exact reset_setGp hx0 o.rd (s.pc + 4)
  · show s.world.mem.shift _ = (s.arch.set o.rd _).mem
    rw [set_mem]
    rfl
  · show (if i.continueExec then _ else _) = _
    rw [hcont]
    rfl

theorem funcJalr_refines {s : State} (hx0 : s.gp 0 = 0) {i : Inst} {o : Operands}
    (hrvc : i.rvc = false) (hcont : i.continueExec = true) (hrd : i.rd = o.rd) {w : BitVec 32}
    (hfetch : s.load s.pc 4 = .ok w) {target : Word} (htarget : i.jalrTarget s = target) :
    Refines (finish (funcJalr s i))
      (some { s.arch.set o.rd (s.arch.pc + 4) with pc := target }) := by
  have hstate (lines : List String) : Refines (finish (.ok (jalrState s i lines, i)))
      (some { s.arch.set o.rd (s.arch.pc + 4) with pc := target }) := by
    have hlines := foldl_eprint lines s
    apply Arch.ext
    · show Function.update (Function.update (lines.foldl State.eprint s).gpRegs i.rd
        (i.link s)) 0 0 = _
      rw [hlines, hrd, Inst.link, Inst.length, hrvc]
      exact reset_setGp hx0 o.rd (s.pc + 4)
    · show (lines.foldl State.eprint s).world.mem.shift _ = (s.arch.set o.rd _).mem
      rw [set_mem, foldl_eprint_mem]
      rfl
    · show (if i.continueExec then _ else _) = _
      rw [hcont]
      exact htarget
  rw [funcJalr_eq]
  by_cases hz : i.jalrTarget s = 0
  · rw [if_pos hz, hfetch]
    exact hstate _
  · rw [if_neg hz]
    exact hstate []

/-! ### Immediates and values -/

theorem immI_eq (o : Operands) : (o.imm12.signExtend 32).signExtend 64 = o.immI :=
  signExtend_signExtend _ (by decide) (by decide)

/-- A scaled offset, extended in two steps. -/
theorem scaled_signExtend {n : Nat} (x : BitVec n) (hn : n + 1 ≤ 32) (hpos : 0 < n) :
    (x.signExtend 32 <<< 1).signExtend 64 = x.signExtend 64 <<< 1 := by
  rw [← signExtend_shift x 1 hn hpos, signExtend_signExtend _ hn (by decide),
    signExtend_shift x 1 (by omega) hpos]

theorem immB_eq (o : Operands) : (o.imm12.signExtend 32 <<< 1).signExtend 64 = o.immB :=
  scaled_signExtend _ (by decide) (by decide)

theorem immJ_eq (o : Operands) : (o.imm20.signExtend 32 <<< 1).signExtend 64 = o.immJ :=
  scaled_signExtend _ (by decide) (by decide)

theorem immU_eq (o : Operands) : (o.imm20.setWidth 32 <<< 12).signExtend 64 = o.immU := by
  have h : o.imm20.setWidth 32 <<< 12 = o.imm20 ++ 0#12 := by
    apply BitVec.eq_of_getLsbD_eq
    intro i hi
    simp only [BitVec.getLsbD_shiftLeft, BitVec.getLsbD_setWidth, BitVec.getLsbD_append,
      BitVec.getLsbD_zero]
    by_cases h12 : i < 12
    · simp [h12]
    · simp [h12, hi, show i - 12 < 32 by omega]
  rw [h]
  rfl

theorem cbool_slt (x y : Word) : cbool (x.slt y) = flag (x.toInt < y.toInt) := by
  by_cases h : x.toInt < y.toInt <;> simp [cbool, flag, BitVec.slt, h]

theorem cbool_ult (x y : Word) : cbool (x.ult y) = flag (x.toNat < y.toNat) := by
  by_cases h : x.toNat < y.toNat <;> simp [cbool, flag, BitVec.ult, h]

theorem low_eq (x : Word) : x.setWidth 32 = low x := BitVec.setWidth_eq_extractLsb' (by decide)

/-- Truncation to the low half, for the operations it commutes with. -/
theorem low_add (x y : Word) : sext32 (x + y) = word (low x + low y) := by
  rw [sext32, word, ← low_eq, ← low_eq, BitVec.setWidth_add _ _ (by decide)]

theorem low_sub (x y : Word) : sext32 (x - y) = word (low x - low y) := by
  rw [sext32, word, ← low_eq, ← low_eq, BitVec.sub_eq_add_neg, BitVec.sub_eq_add_neg,
    BitVec.setWidth_add _ _ (by decide), BitVec.setWidth_neg_of_le (by decide)]

theorem low_shiftLeft (x : Word) (k : Nat) : sext32 (x <<< k) = word (low x <<< k) := by
  rw [sext32, word, ← low_eq, BitVec.setWidth_shiftLeft_of_le (by decide)]

/-- A shift amount, as the handlers mask it out. -/
theorem mask_toNat (n : Nat) (mask : Word) (h : n ≤ 64 ∧ mask = BitVec.ofNat 64 (2 ^ n - 1))
    (x : Word) : (x &&& mask).toNat = (x.extractLsb' 0 n).toNat := by
  obtain ⟨hn, rfl⟩ := h
  have hmask := shift_mask x 0 n hn
  rw [BitVec.ushiftRight_zero] at hmask
  rw [hmask, BitVec.toNat_setWidth]
  exact Nat.mod_eq_of_lt (Nat.lt_of_lt_of_le (BitVec.isLt _) (Nat.pow_le_pow_right (by decide) hn))

/-- That of an immediate. -/
theorem imm_mask {n : Nat} {imm : BitVec 32} {shamt : BitVec n} (mask : Word)
    (h : n ≤ 32 ∧ mask = BitVec.ofNat 64 (2 ^ n - 1)) (hshamt : imm.extractLsb' 0 n = shamt) :
    (imm.signExtend 64 &&& mask).toNat = shamt.toNat := by
  rw [mask_toNat n mask ⟨by omega, h.2⟩, extract_signExtend _ _ _ (by omega) (by decide),
    hshamt]

/-! ### The base instruction set -/

/-- Every handler of the base set computes what the specification says. -/
theorem handler_refines (fpu : HostFpu) {t : InstType} (ht : isRv64i t = true) {o : Operands}
    {s : State} (hx0 : s.gp 0 = 0) {w : BitVec 32} (hfetch : s.load s.pc 4 = .ok w) {i : Inst}
    (hc : CarriesOperands (format t) o i) (hrvc : i.rvc = false)
    (hcont : i.continueExec = t.isJump) :
    Refines (finish (handler fpu t s i)) (exec t o s.arch) := by
  cases t <;> cases ht
  all_goals simp only [handler, exec, arch_get hx0]
  case fence | fence_i => exact funcEmpty_refines hx0 hrvc hcont
  case lui =>
    obtain ⟨hrd, himm⟩ := hc
    refine refines_result hx0 hrvc hcont hrd ?_ rfl rfl
    rw [himm, immU_eq]
  case auipc =>
    obtain ⟨hrd, himm⟩ := hc
    refine refines_result hx0 hrvc hcont hrd ?_ rfl rfl
    rw [himm, immU_eq]
    rfl
  case jal =>
    obtain ⟨hrd, himm⟩ := hc
    exact funcJal_refines hx0 hrvc hcont hrd (by rw [himm, immJ_eq])
  case jalr =>
    obtain ⟨hrd, hrs1, himm⟩ := hc
    exact funcJalr_refines hx0 hrvc hcont hrd hfetch (by rw [Inst.jalrTarget, hrs1, himm, immI_eq])
  -- the six conditions
  case beq =>
    obtain ⟨hrs1, hrs2, himm⟩ := hc
    refine branchFunc_refines hx0 hrvc hcont (by rw [himm, immB_eq]) ?_
    rw [hrs1, hrs2]
    rfl
  case bne =>
    obtain ⟨hrs1, hrs2, himm⟩ := hc
    refine branchFunc_refines hx0 hrvc hcont (by rw [himm, immB_eq]) ?_
    rw [hrs1, hrs2]
    exact (decide_not).symm
  case blt =>
    obtain ⟨hrs1, hrs2, himm⟩ := hc
    refine branchFunc_refines hx0 hrvc hcont (by rw [himm, immB_eq]) ?_
    rw [hrs1, hrs2]
    rfl
  case bge =>
    obtain ⟨hrs1, hrs2, himm⟩ := hc
    refine branchFunc_refines hx0 hrvc hcont (by rw [himm, immB_eq]) ?_
    rw [hrs1, hrs2, BitVec.slt, ← decide_not]
    exact decide_eq_decide.mpr Int.not_lt
  case bltu =>
    obtain ⟨hrs1, hrs2, himm⟩ := hc
    refine branchFunc_refines hx0 hrvc hcont (by rw [himm, immB_eq]) ?_
    rw [hrs1, hrs2]
    rfl
  case bgeu =>
    obtain ⟨hrs1, hrs2, himm⟩ := hc
    refine branchFunc_refines hx0 hrvc hcont (by rw [himm, immB_eq]) ?_
    rw [hrs1, hrs2, BitVec.ult, ← decide_not]
    exact decide_eq_decide.mpr Nat.not_lt
  case lb | lh | lw | ld | lbu | lhu | lwu =>
    obtain ⟨hrd, hrs1, himm⟩ := hc
    exact loadFunc_refines hx0 hrvc hcont hrd (by rw [hrs1, himm, immI_eq])
  case sb | sh | sw | sd =>
    obtain ⟨hrs1, hrs2, himm⟩ := hc
    refine storeFunc_refines hx0 hrvc hcont (by rw [hrs1, himm]; exact congrArg _ (immI_eq o)) ?_
    rw [hrs2]
    exact BitVec.setWidth_eq_extractLsb' (by decide)
  -- register and immediate
  case addi | xori | ori | andi =>
    obtain ⟨hrd, hrs1, himm⟩ := hc
    exact aluImmFunc_refines hx0 hrvc hcont hrd (by rw [hrs1, himm, immI_eq])
  case slti =>
    obtain ⟨hrd, hrs1, himm⟩ := hc
    exact aluImmFunc_refines hx0 hrvc hcont hrd (by rw [hrs1, himm, immI_eq, cbool_slt])
  case sltiu =>
    obtain ⟨hrd, hrs1, himm⟩ := hc
    exact aluImmFunc_refines hx0 hrvc hcont hrd (by rw [hrs1, himm, immI_eq, cbool_ult])
  case slli =>
    obtain ⟨hrd, hrs1, hshamt⟩ := hc
    refine aluImmFunc_refines hx0 hrvc hcont hrd ?_
    rw [hrs1, BitVec.shiftLeft_eq', imm_mask 0x3f (by decide) hshamt]
  case srli =>
    obtain ⟨hrd, hrs1, hshamt⟩ := hc
    refine aluImmFunc_refines hx0 hrvc hcont hrd ?_
    rw [hrs1, BitVec.ushiftRight_eq', imm_mask 0x3f (by decide) hshamt]
  case srai =>
    obtain ⟨hrd, hrs1, hshamt⟩ := hc
    refine aluImmFunc_refines hx0 hrvc hcont hrd ?_
    rw [hrs1, imm_mask 0x3f (by decide) hshamt]
  case addiw =>
    obtain ⟨hrd, hrs1, himm⟩ := hc
    exact aluImmFunc_refines hx0 hrvc hcont hrd (by rw [hrs1, himm, immI_eq, low_add])
  case slliw =>
    obtain ⟨hrd, hrs1, hshamt⟩ := hc
    refine aluImmFunc_refines hx0 hrvc hcont hrd ?_
    rw [hrs1, BitVec.shiftLeft_eq', imm_mask 0x1f (by decide) hshamt, low_shiftLeft]
  case srliw =>
    obtain ⟨hrd, hrs1, hshamt⟩ := hc
    refine aluImmFunc_refines hx0 hrvc hcont hrd ?_
    rw [hrs1, BitVec.ushiftRight_eq', imm_mask 0x1f (by decide) hshamt, low_eq, word]
  case sraiw =>
    obtain ⟨hrd, hrs1, hshamt⟩ := hc
    refine aluImmFunc_refines hx0 hrvc hcont hrd ?_
    rw [hrs1, imm_mask 0x1f (by decide) hshamt, low_eq, word]
  -- two registers
  case add | sub | xor | or | and =>
    obtain ⟨hrd, hrs1, hrs2⟩ := hc
    exact aluFunc_refines hx0 hrvc hcont hrd (by rw [hrs1, hrs2])
  case sll =>
    obtain ⟨hrd, hrs1, hrs2⟩ := hc
    refine aluFunc_refines hx0 hrvc hcont hrd ?_
    rw [hrs1, hrs2, BitVec.shiftLeft_eq', mask_toNat 6 0x3f (by decide), ← amount6]
  case slt =>
    obtain ⟨hrd, hrs1, hrs2⟩ := hc
    exact aluFunc_refines hx0 hrvc hcont hrd (by rw [hrs1, hrs2, cbool_slt])
  case sltu =>
    obtain ⟨hrd, hrs1, hrs2⟩ := hc
    exact aluFunc_refines hx0 hrvc hcont hrd (by rw [hrs1, hrs2, cbool_ult])
  case srl =>
    obtain ⟨hrd, hrs1, hrs2⟩ := hc
    refine aluFunc_refines hx0 hrvc hcont hrd ?_
    rw [hrs1, hrs2, BitVec.ushiftRight_eq', mask_toNat 6 0x3f (by decide), ← amount6]
  case sra =>
    obtain ⟨hrd, hrs1, hrs2⟩ := hc
    refine aluFunc_refines hx0 hrvc hcont hrd ?_
    rw [hrs1, hrs2, mask_toNat 6 0x3f (by decide), ← amount6]
  case addw =>
    obtain ⟨hrd, hrs1, hrs2⟩ := hc
    exact aluFunc_refines hx0 hrvc hcont hrd (by rw [hrs1, hrs2, low_add])
  case subw =>
    obtain ⟨hrd, hrs1, hrs2⟩ := hc
    exact aluFunc_refines hx0 hrvc hcont hrd (by rw [hrs1, hrs2, low_sub])
  case sllw =>
    obtain ⟨hrd, hrs1, hrs2⟩ := hc
    refine aluFunc_refines hx0 hrvc hcont hrd ?_
    rw [hrs1, hrs2, BitVec.shiftLeft_eq', mask_toNat 5 0x1f (by decide), ← amount5, low_shiftLeft]
  case srlw =>
    obtain ⟨hrd, hrs1, hrs2⟩ := hc
    refine aluFunc_refines hx0 hrvc hcont hrd ?_
    rw [hrs1, hrs2, BitVec.ushiftRight_eq', mask_toNat 5 0x1f (by decide), ← amount5, low_eq, word]
  case sraw =>
    obtain ⟨hrd, hrs1, hrs2⟩ := hc
    refine aluFunc_refines hx0 hrvc hcont hrd ?_
    rw [hrs1, hrs2, mask_toNat 5 0x1f (by decide), ← amount5, low_eq, word]

/-- One pass through the block loop and the update of the program counter are the
specification's step, for every base instruction and every choice of operands. -/
theorem instrStep_rv64i (fpu : HostFpu) {t : InstType} (ht : isRv64i t = true) (o : Operands)
    {s : State} (hx0 : s.gp 0 = 0) (hfetch : s.load s.pc 4 = .ok (encode t o)) (prev : Inst) :
    Refines (instrStep fpu s prev) (exec t o s.arch) := by
  have hne : t ≠ .ecall := by
    rintro rfl
    cases ht
  rw [instrStep_of_decode hfetch (decodeInst_of_fixed (fixed_encode t o) hne prev)]
  exact handler_refines fpu ht hx0 hfetch
    ((carries_withType _ _ _ _ _).mpr (carries_reader (format t) o)) (decoded_rvc _ _) rfl

/-- A state about to execute the word `w`, at guest address zero. -/
def stateWith (w : BitVec 32) : State :=
  let mem : Mem 64 := { byte := fun _ => 0, prot := fun _ => some Prot.rw }
  { (default : State) with
    world := { (default : World) with mem := mem.put guestMemoryOffset 4 w } }

/-- `addi x1, x1, -1`. -/
theorem instrStep_rv64i_addi :
    let o : Operands := { rd := 1, rs1 := 1, imm12 := -1 }
    Refines (instrStep default (stateWith (encode .addi o)) {})
      (exec .addi o (stateWith (encode .addi o)).arch) :=
  instrStep_rv64i default rfl { rd := 1, rs1 := 1, imm12 := -1 } rfl rfl {}

end Rvemu
