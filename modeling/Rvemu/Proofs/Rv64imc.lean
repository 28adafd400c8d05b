/-
Programs of RV64IMC, against the specification.

The flat loop takes the emulator through the states the specification goes through,
compressed instructions, multiplications and divisions included, and so does
`machine_step`, whose blocks do not show.  Where the specification has no next state
because an access is not allowed, the emulator dies of it.

Two things the emulator does differently bound this: it fetches four bytes also for
an instruction of two, and it tests the whole divisor of a division of low halves.
`Supported` is a state where neither shows.
-/
import Rvemu.Proofs.Division
import Rvemu.Proofs.Fetch
import Rvemu.Proofs.Multiply
import Rvemu.Proofs.Parity
import Rvemu.Spec.Rv64imc

namespace Rvemu

open Memory Spec

/-- Of four bytes, an instruction of the base set takes up what the base set says. -/
theorem execute_four {t : InstType} (ht : isRv64i t = true) (o : Operands) (a : Arch) :
    execute 4 t o a = exec t o a := by
  have hload (n : Nat) (addr : Word) (v : BitVec (8 * n) → Word) :
      (((a.load addr n).map fun x => a.result o.rd (v x)).map fun a' =>
        { a' with pc := a.pc + 4 }) = (a.load addr n).map fun x => a.result o.rd (v x) := by
    cases a.load addr n <;> simp [Arch.result, Arch.next]
  have hstore (n : Nat) (addr : Word) (v : BitVec (8 * n)) :
      (a.store addr n v).map (fun a' => { a' with pc := a.pc + 4 }) = a.store addr n v := by
    unfold Arch.store
    cases a.mem.store addr n v <;> simp [Except.toOption, Arch.next]
  cases t <;> cases ht
  case lb | lh | lw | ld | lbu | lhu | lwu => exact hload _ _ _
  case sb | sh | sw | sd => exact hstore _ _ _
  case beq | bne | blt | bge | bltu | bgeu =>
    simp only [execute, exec, branchTaken, Arch.next, beq_iff_eq, bne_iff_ne, ne_eq,
      decide_eq_true_eq, Bool.not_eq_true', decide_eq_false_iff_not, Int.not_lt, Nat.not_lt]
    split <;> rfl
  all_goals simp [execute, exec, Arch.result, Arch.next]

/-! ### Products -/

theorem mul_product (a b : Word) : a * b = BitVec.ofInt 64 (a.toInt * b.toInt) := by
  rw [BitVec.ofInt_mul, BitVec.ofInt_toInt, BitVec.ofInt_toInt]

theorem mulw_product (a b : Word) : sext32 (a * b) = multiplication .mulw a b := by
  have hlow : (a * b).setWidth 32 = low a * low b := by
    rw [BitVec.setWidth_mul _ _ (by decide), low_eq, low_eq]
  show ((a * b).setWidth 32).signExtend 64 = word _
  rw [hlow, BitVec.ofInt_mul, BitVec.ofInt_toInt, BitVec.ofInt_toInt]
  rfl

theorem mulh_product (a b : Word) : mulh a b = multiplication .mulh a b := by
  show _ = BitVec.ofInt 64 (a.toInt * b.toInt / 2 ^ 64)
  rw [← mulh_toInt, BitVec.ofInt_toInt]

theorem mulhsu_product (a b : Word) : mulhsu a b = multiplication .mulhsu a b := by
  show _ = BitVec.ofInt 64 (a.toInt * b.toNat / 2 ^ 64)
  rw [← mulhsu_toInt, BitVec.ofInt_toInt]

theorem mulhu_product (a b : Word) : mulhu a b = multiplication .mulhu a b := by
  show _ = BitVec.ofNat 64 (a.toNat * b.toNat / 2 ^ 64)
  rw [← mulhu_toNat, BitVec.ofNat_toNat, BitVec.setWidth_eq]

/-- A multiplication writes its part of the product. -/
theorem handler_multiplication (fpu : HostFpu) {t : InstType} (ht : isMultiplication t = true)
    (s : State) (i : Inst) :
    handler fpu t s i =
      .ok (s.setGp i.rd (multiplication t (s.gp i.rs1) (s.gp i.rs2)), i) := by
  have halu {expr : Word → Word → Word} (h : ∀ a b, expr a b = multiplication t a b) :
      aluFunc expr s i =
        .ok (s.setGp i.rd (multiplication t (s.gp i.rs1) (s.gp i.rs2)), i) := by
    rw [← h]
    rfl
  cases t <;> cases ht
  case mul => exact halu mul_product
  case mulh => exact halu mulh_product
  case mulhsu => exact halu mulhsu_product
  case mulhu => exact halu mulhu_product
  case mulw => exact halu mulw_product

/-! ### One instruction -/

/-- What a program sees of the flat state. -/
def Spec.Flat.arch (f : Flat) : Arch := f.toState.arch

/-- The step executes an instruction of the set and ends in the state the specification
says, or dies where it says none; the floating-point registers stay as they are. -/
def Lands (f : Flat) : Except Stop (Inst × Flat) → Option Arch → Prop
  | .ok (i, f'), some a => isRv64im i.type = true ∧ f'.arch = a ∧ f'.fpRegs = f.fpRegs
  | .error (.segv _), none => True
  | _, _ => False

section Step

variable {fpu : HostFpu} {f : Flat} {w : BitVec 32} {i : Inst}

theorem flatStep_of_decode (hload : f.toState.load f.pc 4 = .ok w)
    (hdec : decodeInst {} w = .ok i) :
    flatStep fpu f = (handler fpu i.type f.toState i).map fun p => (i, {
      gpRegs := Function.update p.1.gpRegs Reg.zero 0
      fpRegs := p.1.fpRegs
      pc := nextPc i f.gpRegs f.pc
      world := p.1.world }) := by
  unfold flatStep
  rw [hload, ok_bind, hdec, ok_bind, func_eq_handler]
  cases handler fpu i.type f.toState i <;> rfl

theorem untouched_of_rv64im {t : InstType} (ht : isRv64im t = true) :
    t.fpEffect = .untouched := by
  cases t <;> first | rfl | cases ht

/-- The handler's registers and memory, and the next address. -/
theorem lands_ok (hload : f.toState.load f.pc 4 = .ok w) (hdec : decodeInst {} w = .ok i)
    (ht : isRv64im i.type = true) {s' : State} {i' : Inst}
    (hrun : handler fpu i.type f.toState i = .ok (s', i')) {a : Arch}
    (hx : Function.update s'.gpRegs 0 0 = a.x)
    (hmem : s'.world.mem.shift guestMemoryOffset = a.mem)
    (hpc : nextPc i f.gpRegs f.pc = a.pc) : Lands f (flatStep fpu f) (some a) := by
  obtain ⟨v, hallows, hfp⟩ := (handler_writes fpu i.type).fpRegs hrun
  rw [untouched_of_rv64im ht] at hallows
  rw [show v = f.toState.fpRegs i.rd from hallows, Function.update_eq_self] at hfp
  rw [flatStep_of_decode hload hdec, hrun]
  exact ⟨ht, Arch.ext hx hmem hpc, hfp⟩

/-- The operands do not depend on the length. -/
theorem carries_withRvc (f : Format) (o : Operands) (i : Inst) (b : Bool) :
    CarriesOperands f o (i.withRvc b) ↔ CarriesOperands f o i := by
  cases f <;> rfl

/-- An instruction of the base set that transfers no control, of either length. -/
theorem flatStep_plain (hload : f.toState.load f.pc 4 = .ok w) (hdec : decodeInst {} w = .ok i)
    (hx0 : f.gpRegs 0 = 0) (ht : isRv64i i.type = true) (hplain : i.type.isControl = false)
    {o : Operands} (hc : CarriesOperands (format i.type) o i) :
    Lands f (flatStep fpu f)
      ((exec i.type o f.arch).map fun a => { a with pc := f.arch.pc + i.length }) := by
  have him : isRv64im i.type = true := by simp [isRv64im, ht]
  have hcont : (i.withRvc false).continueExec = i.type.isJump := by
    have h := decodeInst_continueExec hdec
    show i.continueExec = _
    rw [h]
    generalize i.type = t at hplain
    cases t <;> first | rfl | cases hplain
  have href := handler_refines fpu ht (s := f.toState) hx0 hload
    ((carries_withRvc _ _ _ false).mpr hc) rfl hcont
  have hblind := (func_plain fpu hplain).blind f.toState i false
  rw [func_eq_handler] at hblind
  rw [hblind] at href
  cases hrun : handler fpu i.type f.toState i with
  | error e =>
      rw [hrun] at href
      rw [flatStep_of_decode hload hdec, hrun]
      change Refines (.error e) (exec i.type o f.arch) at href
      cases hexec : exec i.type o f.arch with
      | some a =>
          rw [hexec] at href
          cases e <;> exact href.elim
      | none =>
          rw [hexec] at href
          cases e <;> first | exact trivial | exact href.elim
  | ok p =>
      obtain ⟨s', i'⟩ := p
      have hkeeps := func_plain fpu hplain
      rw [hrun] at href
      change Refines (.ok (advance (s'.setGp Reg.zero 0) (i'.withRvc false), i'.withRvc false))
        (exec i.type o f.arch) at href
      cases hexec : exec i.type o f.arch with
      | none =>
          rw [hexec] at href
          exact href.elim
      | some a =>
          rw [hexec] at href
          have ha : (advance (s'.setGp Reg.zero 0) (i'.withRvc false)).arch = a := href
          have hleaves : ¬Leaves i f.gpRegs := not_leaves_of_plain hplain _
          refine lands_ok hload hdec him hrun ?_ ?_ (nextPc_of_not_leaves hleaves f.pc)
          · show _ = a.x
            rw [← ha]
            rfl
          · show _ = a.mem
            rw [← ha]
            rfl

/-- A multiplication or a division that the emulator survives. -/
theorem flatStep_result (hload : f.toState.load f.pc 4 = .ok w)
    (hdec : decodeInst {} w = .ok i) (hx0 : f.gpRegs 0 = 0) (ht : isRv64im i.type = true)
    (hplain : i.type.isControl = false) {o : Operands} (hrd : i.rd = o.rd) {v : Word}
    (hrun : handler fpu i.type f.toState i = .ok (f.toState.setGp i.rd v, i)) :
    Lands f (flatStep fpu f)
      (some { f.arch.set o.rd v with pc := f.arch.pc + i.length }) := by
  have hleaves : ¬Leaves i f.gpRegs := not_leaves_of_plain hplain _
  refine lands_ok hload hdec ht hrun ?_ ?_ (nextPc_of_not_leaves hleaves f.pc)
  · rw [← hrd]
    exact reset_setGp (s := f.toState) hx0 i.rd v
  · exact (set_mem f.arch o.rd v).symm

/-- `x0` holds zero already. -/
theorem reset_zero (hx0 : f.gpRegs 0 = 0) : Function.update f.gpRegs 0 0 = f.gpRegs := by
  have h := Function.update_eq_self (0 : RegNo) f.gpRegs
  rwa [hx0] at h

theorem flatStep_branch (hload : f.toState.load f.pc 4 = .ok w)
    (hdec : decodeInst {} w = .ok i) (hx0 : f.gpRegs 0 = 0) (ht : isRv64im i.type = true)
    {expr : Word → Word → Bool} (hrun : handler fpu i.type = branchFunc expr) {pc : Word}
    (hpc : nextPc i f.gpRegs f.pc = pc) :
    Lands f (flatStep fpu f) (some { f.arch with pc := pc }) := by
  have hok := branchFunc_eq expr f.toState i
  rw [← hrun] at hok
  by_cases htaken : expr (f.toState.gp i.rs1) (f.toState.gp i.rs2) = true
  · rw [if_pos htaken] at hok
    exact lands_ok hload hdec ht hok (reset_zero hx0) rfl hpc
  · rw [if_neg htaken] at hok
    exact lands_ok hload hdec ht hok (reset_zero hx0) rfl hpc

/-- A jump, with the address it links. -/
theorem flatStep_jump (hload : f.toState.load f.pc 4 = .ok w) (hdec : decodeInst {} w = .ok i)
    (hx0 : f.gpRegs 0 = 0) (ht : i.type = .jal ∨ i.type = .jalr) {o : Operands}
    (hrd : i.rd = o.rd) {pc : Word} (hpc : nextPc i f.gpRegs f.pc = pc) :
    Lands f (flatStep fpu f)
      (some { f.arch.set o.rd (f.arch.pc + i.length) with pc := pc }) := by
  have him : isRv64im i.type = true := by
    rcases ht with ht | ht <;> rw [ht] <;> rfl
  have hx : Function.update (Function.update f.gpRegs i.rd (i.link f.toState)) 0 0 =
      (f.arch.set o.rd (f.arch.pc + i.length)).x := by
    rw [← hrd]
    exact reset_setGp (s := f.toState) hx0 i.rd _
  have hmem : f.arch.mem = (f.arch.set o.rd (f.arch.pc + i.length)).mem := by rw [set_mem]
  rcases ht with ht | ht
  · have hrun : handler fpu i.type f.toState i = funcJal f.toState i := by
      rw [ht]
      rfl
    rw [funcJal_eq] at hrun
    exact lands_ok hload hdec him hrun hx hmem hpc
  · have hstate (lines : List String)
        (hrun : handler fpu i.type f.toState i = .ok (jalrState f.toState i lines, i)) :
        Lands f (flatStep fpu f)
          (some { f.arch.set o.rd (f.arch.pc + i.length) with pc := pc }) := by
      have hlines := foldl_eprint lines f.toState
      refine lands_ok hload hdec him hrun ?_ ?_ hpc
      · show Function.update (Function.update (lines.foldl State.eprint f.toState).gpRegs i.rd
          (i.link f.toState)) 0 0 = _
        rw [hlines]
        exact hx
      · show (lines.foldl State.eprint f.toState).world.mem.shift _ = _
        rw [foldl_eprint_mem]
        exact hmem
    have hrun : handler fpu i.type f.toState i = funcJalr f.toState i := by
      rw [ht]
      rfl
    rw [funcJalr_eq] at hrun
    by_cases hz : i.jalrTarget f.toState = 0
    · rw [if_pos hz, show f.toState.load f.toState.pc 4 = .ok w from hload] at hrun
      exact hstate _ hrun
    · rw [if_neg hz] at hrun
      exact hstate [] hrun

/-- **One instruction of RV64IM, of either length.** -/
theorem flatStep_execute (hload : f.toState.load f.pc 4 = .ok w)
    (hdec : decodeInst {} w = .ok i) (hx0 : f.gpRegs 0 = 0) {t : InstType} (hty : i.type = t)
    (ht : isRv64im t = true) {o : Operands} (hc : CarriesOperands (format t) o i)
    (hdiv : TestsDivisor t (f.arch.get o.rs2)) :
    Lands f (flatStep fpu f) (execute i.length t o f.arch) := by
  have hget (r : RegNo) : f.arch.get r = f.gpRegs r := arch_get (s := f.toState) hx0 r
  have him : isRv64im i.type = true := by rw [hty, ht]
  have hplain (hi : isRv64i t = true) (hp : t.isControl = false) :=
    @flatStep_plain fpu _ _ _ hload hdec hx0 (by rw [hty, hi]) (by rw [hty, hp]) o
      (show CarriesOperands (format i.type) o i by rw [hty]; exact hc)
  rw [hty] at hplain
  cases t <;> cases ht
  case jal =>
    obtain ⟨hrd, himm⟩ := hc
    refine flatStep_jump hload hdec hx0 (.inl hty) hrd ?_
    unfold nextPc
    rw [hty, himm, immJ_eq]
    rfl
  case jalr =>
    obtain ⟨hrd, hrs1, himm⟩ := hc
    refine flatStep_jump hload hdec hx0 (.inr hty) hrd ?_
    unfold nextPc
    rw [hty, himm, immI_eq, hrs1, hget]
  case beq | bne | blt | bge | bltu | bgeu =>
    obtain ⟨hrs1, hrs2, himm⟩ := hc
    refine flatStep_branch hload hdec hx0 him
      (by rw [hty]; exact handler_branch fpu nofun nofun nofun) ?_
    unfold nextPc
    rw [hty, himm, immB_eq, hrs1, hrs2, hget, hget]
    rfl
  case mul | mulh | mulhsu | mulhu | mulw =>
    obtain ⟨hrd, hrs1, hrs2⟩ := hc
    refine flatStep_result hload hdec hx0 him (by rw [hty]; rfl) hrd ?_
    rw [hty, handler_multiplication fpu rfl, hrs1, hrs2, hget, hget]
    rfl
  case div | divu | rem | remu | divw | divuw | remw | remuw =>
    obtain ⟨hrd, hrs1, hrs2⟩ := hc
    refine flatStep_result hload hdec hx0 him (by rw [hty]; rfl) hrd ?_
    rw [hget] at hdiv
    rw [hty, handler_division fpu rfl, hrs1, hrs2, hget, hget]
    exact if_pos hdiv
  all_goals exact hplain rfl rfl

end Step

/-! ### Instructions in memory -/

/-- The program's memory loads what the emulator loads. -/
theorem load_arch (s : State) (a : Word) (n : Nat) :
    s.arch.load a n = (s.load a n).toOption := by
  have hload := Mem.load_shift s.world.mem guestMemoryOffset a n
  unfold Arch.load State.load
  show ((s.world.mem.shift guestMemoryOffset).load a n).toOption =
    ((s.world.mem.load (a + guestMemoryOffset) n).mapError _).toOption
  rw [← hload]
  cases (s.world.mem.shift guestMemoryOffset).load a n <;> rfl

theorem load_of_arch {s : State} {a : Word} {n : Nat} {v : BitVec (8 * n)}
    (h : s.arch.load a n = some v) : s.load a n = .ok v := by
  rw [load_arch] at h
  cases hl : s.load a n with
  | error e =>
      rw [hl] at h
      cases h
  | ok x =>
      rw [hl] at h
      cases h
      rfl

/-- Of the four bytes that a load finds, the first two are what a load of two finds. -/
theorem load_low {s : State} {a : Word} {w : BitVec (8 * 4)} {c : BitVec (8 * 2)}
    (hw : s.load a 4 = .ok w) (hc : s.load a 2 = .ok c) : w.setWidth 16 = c := by
  rw [load_ok (load_ok_iff.mp ⟨w, hw⟩)] at hw
  rw [load_ok (load_ok_iff.mp ⟨c, hc⟩)] at hc
  cases hw
  cases hc
  exact read_low s a

/-- The record of a compressed instruction carries the operands of the expansion. -/
theorem carries_cdecoded (f : CForm) (c : BitVec 16) :
    CarriesOperands (format (f.expand c).1) (f.expand c).2 (cdecoded f c) := by
  have hexp : CarriesOperands (format (f.expand c).1) (f.expand c).2 (expanded f c) :=
    (carries_withType _ _ _ _ _).mpr (carries_reader _ _)
  by_cases hf : f = .slli ∨ f = .srli ∨ f = .srai
  · -- only the shift amount counts of the immediate, and that is the same
    have himm := expanded_shift_amount hf c
    rcases hf with rfl | rfl | rfl
    all_goals exact ⟨hexp.1, hexp.2.1, himm.trans hexp.2.2⟩
  · have hrec : cdecoded f c = (expanded f c).withRvc true := by
      cases f <;> first | rfl | exact absurd (by simp) hf
    rw [hrec]
    exact (carries_withRvc _ _ _ true).mpr hexp

/-- Four bytes can be read where the program is, and a division that it is about to make
is by a number that the emulator takes for what it is. -/
def Supported (a : Arch) : Prop :=
  (a.load a.pc 4).isSome ∧ ∀ t o len, Holds a t o len → TestsDivisor t (a.get o.rs2)

/-- The instruction in front of the program is the one the emulator decodes. -/
theorem decodes_of_holds {f : Flat} {t : InstType} {o : Operands} {len : Word}
    (h : Holds f.arch t o len) (ht : isRv64im t = true)
    (hread : (f.arch.load f.arch.pc 4).isSome) :
    ∃ w i, f.toState.load f.pc 4 = .ok w ∧ decodeInst {} w = .ok i ∧ i.type = t ∧
      i.length = len ∧ CarriesOperands (format t) o i := by
  cases h with
  | word hload =>
      have hne : t ≠ .ecall := by
        rintro rfl
        cases ht
      refine ⟨encode t o, decoded t (encode t o), load_of_arch hload,
        decodeInst_of_fixed (fixed_encode t o) hne {}, rfl, ?_,
        (carries_withType _ _ _ _ _).mpr (carries_reader _ _)⟩
      rw [Inst.length, decoded_rvc]
      rfl
  | @half form c hload hc =>
      obtain ⟨w, hw⟩ := Option.isSome_iff_exists.mp hread
      have hw := load_of_arch hw
      refine ⟨w, cdecoded form c, hw, decodeInst_of_legal hc (load_low hw (load_of_arch hload)) {},
        ?_, ?_, carries_cdecoded form c⟩
      · cases form <;> rfl
      · rw [Inst.length, cdecoded_rvc]
        rfl

/-- Whether a state is supported can be read off what the emulator decodes there. -/
theorem supported_of_decode {f : Flat} (hx0 : f.gpRegs 0 = 0) {w : BitVec 32} {i : Inst}
    (hload : f.toState.load f.pc 4 = .ok w) (hdec : decodeInst {} w = .ok i)
    (hdiv : TestsDivisor i.type (f.gpRegs i.rs2)) : Supported f.arch := by
  have hread : (f.arch.load f.arch.pc 4).isSome := by
    rw [show f.arch.load f.arch.pc 4 = (f.toState.load f.pc 4).toOption from load_arch _ _ _,
      hload]
    rfl
  refine ⟨hread, fun t o len hholds hword => ?_⟩
  have him : isRv64im t = true := by
    cases t <;> first | rfl | cases hword
  obtain ⟨w', i', hload', hdec', rfl, -, hc⟩ := decodes_of_holds hholds him hread
  rw [hload] at hload'
  cases hload'
  rw [hdec] at hdec'
  cases hdec'
  have hrs2 : i.rs2 = o.rs2 := by
    revert hc hword
    generalize i.type = t
    cases t <;> intro hword hc <;> first | exact hc.2.2 | cases hword
  rw [show f.arch.get o.rs2 = f.gpRegs o.rs2 from arch_get (s := f.toState) hx0 o.rs2, ← hrs2]
  exact hdiv hword

/-- **One instruction, as it stands in memory.** -/
theorem flatStep_holds (fpu : HostFpu) {f : Flat} (hx0 : f.gpRegs 0 = 0) {t : InstType}
    {o : Operands} {len : Word} (h : Holds f.arch t o len) (ht : isRv64im t = true)
    (hsup : Supported f.arch) : Lands f (flatStep fpu f) (execute len t o f.arch) := by
  obtain ⟨w, i, hload, hdec, hty, rfl, hc⟩ := decodes_of_holds h ht hsup.1
  exact flatStep_execute hload hdec hx0 hty ht hc (hsup.2 t o _ h)

/-! ### Programs -/

theorem flatStep_zero {fpu : HostFpu} {f f' : Flat} {i : Inst}
    (h : flatStep fpu f = .ok (i, f')) : f'.gpRegs 0 = 0 := by
  rw [flatStep] at h
  obtain ⟨raw, -, h⟩ := bind_ok_inv h
  obtain ⟨i₁, -, h⟩ := bind_ok_inv h
  obtain ⟨⟨s, r⟩, -, h⟩ := bind_ok_inv h
  cases h
  exact Function.update_self 0 0 s.gpRegs

/-- A step to the state the specification says. -/
theorem flatStep_next (fpu : HostFpu) {f : Flat} (hx0 : f.gpRegs 0 = 0) {a : Arch}
    (hsup : Supported f.arch) (h : Next f.arch a) :
    ∃ i f', flatStep fpu f = .ok (i, f') ∧ i.type ≠ .ecall ∧ f'.gpRegs 0 = 0 ∧ f'.arch = a ∧
      f'.fpRegs = f.fpRegs := by
  obtain ⟨t, o, len, hholds, ht, hexec⟩ := h
  have hlands := flatStep_holds fpu hx0 hholds ht hsup
  rw [hexec] at hlands
  cases hstep : flatStep fpu f with
  | error e =>
      rw [hstep] at hlands
      cases e <;> exact hlands.elim
  | ok p =>
      obtain ⟨i, f'⟩ := p
      rw [hstep] at hlands
      obtain ⟨hty, harch, hfp⟩ := hlands
      refine ⟨i, f', rfl, ?_, flatStep_zero hstep, harch, hfp⟩
      intro hecall
      rw [hecall] at hty
      cases hty

theorem flatStep_faults (fpu : HostFpu) {f : Flat} (hx0 : f.gpRegs 0 = 0)
    (hsup : Supported f.arch) (h : Faults f.arch) :
    ∃ bad, flatStep fpu f = .error (.segv bad) := by
  obtain ⟨t, o, len, hholds, ht, hexec⟩ := h
  have hlands := flatStep_holds fpu hx0 hholds ht hsup
  rw [hexec] at hlands
  cases hstep : flatStep fpu f with
  | ok p =>
      rw [hstep] at hlands
      exact hlands.elim
  | error e =>
      rw [hstep] at hlands
      cases e <;> first | exact ⟨_, rfl⟩ | exact hlands.elim

theorem flatStep_call (fpu : HostFpu) {f : Flat} (hx0 : f.gpRegs 0 = 0) (h : AtCall f.arch) :
    ∃ i f', flatStep fpu f = .ok (i, f') ∧ i.type = .ecall ∧
      f'.arch = { f.arch with pc := f.arch.pc + 4 } ∧ f'.fpRegs = f.fpRegs := by
  have hrun := @flatStep_of_decode fpu _ _ _ (load_of_arch h) (decodeInst_ecall {})
  refine ⟨_, _, hrun, rfl, ?_, rfl⟩
  exact Arch.ext (reset_zero hx0) rfl rfl

/-- What the specification says of a program, and what a loop came to that started with
these floating-point registers. -/
def Meets (fpRegs : RegNo → FpReg) : End → Except Stop (Loop Flat) → Prop
  | .running a, .ok (.running f) => f.arch = a ∧ f.fpRegs = fpRegs
  | .called b a, .ok (.left b' f) => b' = b ∧ f.arch = a ∧ f.fpRegs = fpRegs
  | .faulted, .error (.segv _) => True
  | _, _ => False

/-- **The flat loop does what the specification says.** -/
theorem flatLoop_behaves (fpu : HostFpu) {n : Nat} {f : Flat} (hx0 : f.gpRegs 0 = 0) {e : End}
    (h : Behaves Supported n f.arch e) : Meets f.fpRegs e (flatLoop fpu n f) := by
  generalize ha : f.arch = a at h
  induction h generalizing f with
  | running a => exact ⟨ha, rfl⟩
  | @step n a a' e hsup hs h ih =>
      subst ha
      obtain ⟨i, f', hstep, hty, hzero, harch, hfp⟩ := flatStep_next fpu hx0 hsup hs
      rw [flatLoop, hstep, ok_bind]
      simp only [if_neg hty]
      rw [← hfp]
      exact ih hzero harch
  | called h =>
      subst ha
      obtain ⟨i, f', hstep, hty, harch, hfp⟩ := flatStep_call fpu hx0 h
      rw [flatLoop, hstep, ok_bind]
      simp only [if_pos hty]
      exact ⟨rfl, harch, hfp⟩
  | faulted hsup h =>
      subst ha
      obtain ⟨bad, hstep⟩ := flatStep_faults fpu hx0 hsup h
      rw [flatLoop, hstep]
      trivial

/-- The machine that the flat loop's result stands for. -/
theorem machineStep_running {fpu : HostFpu} {n : Nat} {m : Machine} {f : Flat}
    (h : flatLoop fpu n m.flat = .ok (.running f)) :
    ∃ m', machineStep fpu n m = .ok (.running m') ∧ m'.flat = f := by
  rw [← machineStep_flatLoop] at h
  obtain ⟨r, hr, hf⟩ := map_ok_inv h
  cases r with
  | running m' =>
      cases hf
      exact ⟨m', hr, rfl⟩
  | left b m' => cases hf

theorem machineStep_called {fpu : HostFpu} {n b : Nat} {m : Machine} {f : Flat}
    (h : flatLoop fpu n m.flat = .ok (.left b f)) :
    ∃ m', machineStep fpu n m = .ok (.left b m') ∧ m'.flat = f := by
  rw [← machineStep_flatLoop] at h
  obtain ⟨r, hr, hf⟩ := map_ok_inv h
  cases r with
  | running m' => cases hf
  | left b' m' =>
      cases hf
      exact ⟨m', hr, rfl⟩

theorem machineStep_stops {fpu : HostFpu} {n : Nat} {m : Machine} {e : Stop}
    (h : flatLoop fpu n m.flat = .error e) : machineStep fpu n m = .error e := by
  rw [← machineStep_flatLoop] at h
  cases hr : machineStep fpu n m with
  | ok r =>
      rw [hr] at h
      cases h
  | error e' =>
      rw [hr] at h
      cases h
      rfl

/-- The main loop, up to the first environment call and from there on. -/
theorem mainLoop_called {fpu : HostFpu} {os : Os} {n b : Nat} {m m' : Machine}
    (h : machineStep fpu n m = .ok (.left b m')) :
    mainLoop fpu os n m = handleSyscall os m' >>= mainLoop fpu os b := by
  obtain ⟨k, -, -, hk, -⟩ := machineStep_left h
  rw [mainLoop, mainRounds, h]
  simp only [bind, Except.bind]
  cases handleSyscall os m' with
  | error e => rfl
  | ok m₁ => exact (mainRounds_eq_iter fpu os m₁ (by omega)).trans (mainLoop_eq_iter fpu os b m₁).symm

theorem mainLoop_running {fpu : HostFpu} {os : Os} {n : Nat} {m m' : Machine}
    (h : machineStep fpu n m = .ok (.running m')) : mainLoop fpu os n m = .ok m' := by
  rw [mainLoop, mainRounds, h]
  rfl

theorem mainLoop_stops {fpu : HostFpu} {os : Os} {n : Nat} {m : Machine} {e : Stop}
    (h : machineStep fpu n m = .error e) : mainLoop fpu os n m = .error e := by
  rw [mainLoop, mainRounds, h]
  rfl

/-- What the specification says of a program up to its first environment call, and what the
main loop comes to from machine `m` on.  After the call it goes on from the specification's
state. -/
def Follows (fpu : HostFpu) (os : Os) (m : Machine) : End → Except Stop Machine → Prop
  | .running a, r => ∃ m', r = .ok m' ∧ m'.state.arch = a ∧ m'.state.fpRegs = m.state.fpRegs
  | .called b a, r => ∃ m', r = handleSyscall os m' >>= mainLoop fpu os b ∧ m'.state.arch = a ∧
      m'.state.fpRegs = m.state.fpRegs
  | .faulted, r => ∃ bad, r = .error (.segv bad)

/-- **Programs of RV64IMC.**  The main loop takes the program through the specification's
states, whatever the instructions and their lengths; it is at the first environment call where
the specification is, and dies of a fault where the specification has no next state. -/
theorem mainLoop_rv64imc (fpu : HostFpu) (os : Os) {n : Nat} {m : Machine}
    (hx0 : m.state.gp 0 = 0) {e : End} (h : Behaves Supported n m.state.arch e) :
    Follows fpu os m e (mainLoop fpu os n m) := by
  have hmeets : Meets m.state.fpRegs e (flatLoop fpu n m.flat) :=
    flatLoop_behaves (f := m.flat) fpu hx0 h
  cases hloop : flatLoop fpu n m.flat with
  | error stop =>
      rw [hloop] at hmeets
      have hstop : mainLoop fpu os n m = .error stop := mainLoop_stops (machineStep_stops hloop)
      cases e with
      | running a => exact hmeets.elim
      | called b a => exact hmeets.elim
      | faulted => cases stop <;> first | exact ⟨_, hstop⟩ | exact hmeets.elim
  | ok r =>
      rw [hloop] at hmeets
      cases r with
      | running f =>
          obtain ⟨m', hrun, rfl⟩ := machineStep_running hloop
          cases e with
          | running a => exact ⟨m', mainLoop_running hrun, hmeets⟩
          | called b a => exact hmeets.elim
          | faulted => exact hmeets.elim
      | left b f =>
          obtain ⟨m', hrun, rfl⟩ := machineStep_called hloop
          cases e with
          | running a => exact hmeets.elim
          | called b' a =>
              obtain ⟨rfl, harch, hfp⟩ := hmeets
              exact ⟨m', mainLoop_called hrun, harch, hfp⟩
          | faulted => exact hmeets.elim

/-- A machine with `x10 = 6`, about to execute `c.addi x10, 1`, `mul x10, x10, x10` and the
environment call. -/
def squaring : Machine :=
  let mem : Mem 64 := { byte := fun _ => 0, prot := fun _ => some Prot.rw }
  let code : List (BitVec 8) := [0x05, 0x05, 0x33, 0x05, 0xa5, 0x02, 0x73]
  let m := initialMachine { (default : World) with mem := mem.putList guestMemoryOffset code }
  { m with state := m.state.setGp 10 6 }

/-- The same with another `x10`, further on. -/
def Spec.Flat.withX10 (f : Flat) (v pc : Word) : Flat :=
  { f with gpRegs := Function.update f.gpRegs 10 v, pc := pc }

theorem mainLoop_rv64imc_squaring :
    ∃ a, a.x 10 = 49 ∧ a.pc = 10 ∧ Follows default (failingOs 9) squaring (.called 2 a)
      (mainLoop default (failingOs 9) 5 squaring) := by
  have h₀ : Next squaring.state.arch (squaring.flat.withX10 7 2).arch :=
    ⟨.addi, (CForm.addi.expand 0x0505).2, 2, .half (f := .addi) rfl ⟨rfl, rfl⟩, rfl, rfl⟩
  have h₁ : Next (squaring.flat.withX10 7 2).arch ((squaring.flat.withX10 7 2).withX10 49 6).arch :=
    ⟨.mul, { rd := 10, rs1 := 10, rs2 := 10 }, 4, .word rfl, rfl, rfl⟩
  have hbehaves : Behaves Supported 5 squaring.state.arch
      (.called 2 ((squaring.flat.withX10 7 2).withX10 49 10).arch) :=
    .step (supported_of_decode (f := squaring.flat) rfl rfl rfl nofun) h₀
      (.step (supported_of_decode rfl rfl rfl nofun) h₁ (.called rfl))
  exact ⟨_, rfl, rfl, mainLoop_rv64imc default (failingOs 9) rfl hbehaves⟩

end Rvemu
