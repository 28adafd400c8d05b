/-
Loads see the most recent stores.

Six instructions store and nine load, from either register file and in four widths.
A store is a write of some bytes at a guest address, a history of stores a list of
writes, and memory holds at every address the byte of the latest write that covers
it.  A load is made of these bytes, whatever widths and register files they came
from; the type of the load only says how it extends them.

Accesses may be unaligned, and may run past the last address.
-/
import Rvemu.Proofs.Rv64i

namespace Rvemu

open Memory

/-! ### Stores and loads -/

/-- The instructions that store. -/
def isStore (t : InstType) : Bool := t matches .sb | .sh | .sw | .sd | .fsw | .fsd

/-- The instructions that load. -/
def isLoad (t : InstType) : Bool := t matches .lb | .lbu | .lh | .lhu | .lw | .lwu | .ld | .flw | .fld

/-- How many bytes an instruction accesses. -/
def accessWidth (t : InstType) : Nat :=
  match t with
  | .sb | .lb | .lbu => 1
  | .sh | .lh | .lhu => 2
  | .sw | .fsw | .lw | .lwu | .flw => 4
  | .sd | .fsd | .ld | .fld => 8
  -- no access
  | _ => 0

/-- The guest address that an instruction accesses. -/
def accessAddr (s : State) (i : Inst) : Word := s.gp i.rs1 + i.imm.signExtend 64

/-- The register that a store takes its bytes from. -/
def storedValue (t : InstType) (s : State) (i : Inst) : Word :=
  match t with
  | .fsw | .fsd => (s.fp i.rs2).v
  | _ => s.gp i.rs2

/-- A store, as a write. -/
def storeWrite (t : InstType) (s : State) (i : Inst) : Write 64 where
  addr := accessAddr s i
  width := accessWidth t
  value := (storedValue t s i).setWidth (8 * accessWidth t)

/-- What a load makes of the bytes it has read. -/
def loadedValue (t : InstType) {n : Nat} (x : BitVec n) : Word :=
  match t with
  | .lb | .lh | .lw => x.signExtend 64
  | .flw => BitVec.allOnes 32 ++ x.setWidth 32
  | _ => x.setWidth 64

/-- The register that a load has written. -/
def loadResult (t : InstType) (s : State) (i : Inst) : Word :=
  match t with
  | .flw | .fld => (s.fp i.rd).v
  | _ => s.gp i.rd

/-- The byte at a guest address. -/
def State.byte (s : State) (a : Word) : BitVec 8 := s.world.mem.byte (toHost a)

/-- The guest addresses from `a` on can be read. -/
def State.Readable (s : State) (a : Word) (n : Nat) : Prop :=
  ∀ k < n, s.world.mem.readable (toHost (a + BitVec.ofNat 64 k)) = true

/-! ### One store -/

theorem storeFunc_mem {n : Nat} {s s' : State} {i i' : Inst} (h : storeFunc n s i = .ok (s', i')) :
    s'.world.mem = s.world.mem.put (toHost (accessAddr s i)) n ((s.gp i.rs2).setWidth (8 * n)) := by
  obtain ⟨s₁, hstore, h⟩ := bind_ok_inv h
  cases h
  obtain ⟨m, hm, rfl⟩ := store_inv hstore
  rw [debug_mem]
  exact Mem.store_put hm

theorem storeFpFunc_mem {n : Nat} {s s' : State} {i i' : Inst}
    (h : storeFpFunc n s i = .ok (s', i')) :
    s'.world.mem =
      s.world.mem.put (toHost (accessAddr s i)) n ((s.fp i.rs2).v.setWidth (8 * n)) := by
  obtain ⟨s₁, hstore, h⟩ := bind_ok_inv h
  cases h
  obtain ⟨m, hm, rfl⟩ := store_inv hstore
  exact Mem.store_put hm

theorem handler_store {fpu : HostFpu} {t : InstType} (ht : isStore t = true) {s s' : State}
    {i i' : Inst} (h : handler fpu t s i = .ok (s', i')) :
    s'.world.mem = s.world.mem.put (toHost (storeWrite t s i).addr) (storeWrite t s i).width
      (storeWrite t s i).value := by
  cases t <;> try cases ht
  all_goals rw [handler] at h
  case sb | sh | sw | sd => exact storeFunc_mem h
  case fsw | fsd => exact storeFpFunc_mem h

/-- **A store writes the bytes it covers, and no others.** -/
theorem store_byte {fpu : HostFpu} {t : InstType} (ht : isStore t = true) {s s' : State}
    {i i' : Inst} (h : handler fpu t s i = .ok (s', i')) (a : Word) :
    s'.byte a = if (storeWrite t s i).Covers a then (storeWrite t s i).byte a else s.byte a := by
  show (s'.world.mem.shift guestMemoryOffset).byte a = _
  rw [handler_store ht h]
  unfold toHost
  rw [Mem.put_shift, Mem.put_write]
  rfl

/-! ### One load -/

/-- What is read, byte by byte. -/
def State.read (s : State) (a : Word) (n : Nat) : BitVec (8 * n) := s.world.mem.get (toHost a) n

theorem read_byte (s : State) (a : Word) {n k : Nat} (hk : k < n) :
    (s.read a n).extractLsb' (8 * k) 8 = s.byte (a + BitVec.ofNat 64 k) := by
  rw [State.read, Mem.get_byte _ _ hk, State.byte, toHost_add]

theorem load_ok {s : State} {a : Word} {n : Nat} (h : s.Readable a n) :
    s.load a n = .ok (s.read a n) := by
  have hload : s.world.mem.load (toHost a) n = .ok (s.read a n) :=
    Mem.load_of_readable fun k hk => by
      rw [← toHost_add]
      exact h k hk
  unfold State.load
  rw [hload]
  rfl

theorem loadFunc_ok {n : Nat} {conv : BitVec (8 * n) → Word} {s : State} {i : Inst}
    (h : s.Readable (accessAddr s i) n) :
    ∃ s', loadFunc n conv s i = .ok (s', i) ∧ s'.gp i.rd = conv (s.read (accessAddr s i) n) ∧
      s'.world.mem = s.world.mem := by
  have hload := load_ok h
  unfold accessAddr at hload
  unfold loadFunc
  dsimp only
  rw [hload, ok_bind]
  refine ⟨_, rfl, ?_, ?_⟩
  · show (State.debug _ _ _).gpRegs i.rd = _
    rw [debug_gpRegs]
    exact Function.update_self ..
  · rw [debug_mem]
    rfl

/-- A value or-ed with ones in its upper half, as the two halves. -/
theorem boxed_eq (x : BitVec 32) : x.setWidth 64 ||| upperOnes = BitVec.allOnes 32 ++ x := by
  apply BitVec.eq_of_getLsbD_eq
  intro k hk
  have hones : upperOnes.getLsbD k = decide (32 ≤ k) := by
    have hall : ∀ k < 64, upperOnes.getLsbD k = decide (32 ≤ k) := by decide
    exact hall k hk
  rw [BitVec.getLsbD_or, hones, BitVec.getLsbD_append, BitVec.getLsbD_setWidth]
  by_cases h : k < 32
  · simp [h, hk]
  · rw [if_neg h, BitVec.getLsbD_allOnes, decide_eq_true (Nat.le_of_not_lt h),
      decide_eq_true (show k - 32 < 32 by omega), Bool.or_true]

theorem funcFlw_ok {s : State} {i : Inst} (h : s.Readable (accessAddr s i) 4) :
    ∃ s', funcFlw s i = .ok (s', i) ∧
      (s'.fp i.rd).v = BitVec.allOnes 32 ++ s.read (accessAddr s i) 4 ∧
      s'.world.mem = s.world.mem := by
  have hload := load_ok h
  unfold accessAddr at hload
  unfold funcFlw
  dsimp only
  rw [hload, ok_bind]
  refine ⟨_, rfl, ?_, rfl⟩
  rw [← boxed_eq]
  exact congrArg FpReg.v (Function.update_self ..)

theorem funcFld_ok {s : State} {i : Inst} (h : s.Readable (accessAddr s i) 8) :
    ∃ s', funcFld s i = .ok (s', i) ∧ (s'.fp i.rd).v = s.read (accessAddr s i) 8 ∧
      s'.world.mem = s.world.mem := by
  have hload := load_ok h
  unfold accessAddr at hload
  unfold funcFld
  dsimp only
  rw [hload, ok_bind]
  refine ⟨_, rfl, ?_, rfl⟩
  exact congrArg FpReg.v (Function.update_self ..)

/-- A load of readable bytes succeeds, and extends them as its type says. -/
theorem handler_load {fpu : HostFpu} {t : InstType} (ht : isLoad t = true) {s : State} {i : Inst}
    (h : s.Readable (accessAddr s i) (accessWidth t)) :
    ∃ s', handler fpu t s i = .ok (s', i) ∧
      loadResult t s' i = loadedValue t (s.read (accessAddr s i) (accessWidth t)) ∧
      s'.world.mem = s.world.mem := by
  cases t <;> try cases ht
  all_goals rw [handler]
  case lb | lbu | lh | lhu | lw | lwu => exact loadFunc_ok h
  case ld =>
    obtain ⟨s', hs, hv, hm⟩ := loadFunc_ok h
    exact ⟨s', hs, hv.trans (BitVec.setWidth_eq _).symm, hm⟩
  case flw =>
    obtain ⟨s', hs, hv, hm⟩ := funcFlw_ok h
    refine ⟨s', hs, hv.trans ?_, hm⟩
    exact congrArg (BitVec.allOnes 32 ++ ·) (BitVec.setWidth_eq _).symm
  case fld =>
    obtain ⟨s', hs, hv, hm⟩ := funcFld_ok h
    exact ⟨s', hs, hv.trans (BitVec.setWidth_eq _).symm, hm⟩

/-! ### Histories -/

/-- A history of stores, the newest first: what happens between two of them may change the
registers at will, but not memory. -/
inductive StoreRun (fpu : HostFpu) (s₀ : State) : List (Write 64) → State → Prop
  | start : StoreRun fpu s₀ [] s₀
  | between {ws : List (Write 64)} {s s' : State} (h : StoreRun fpu s₀ ws s)
      (hmem : s'.world.mem = s.world.mem) : StoreRun fpu s₀ ws s'
  | store {ws : List (Write 64)} {s s' : State} {t : InstType} {i i' : Inst}
      (h : StoreRun fpu s₀ ws s) (ht : isStore t = true)
      (hstore : handler fpu t s i = .ok (s', i')) :
      StoreRun fpu s₀ (storeWrite t s i :: ws) s'

/-- Memory holds at every address what was stored there last. -/
theorem StoreRun.byte {fpu : HostFpu} {s₀ s : State} {ws : List (Write 64)}
    (h : StoreRun fpu s₀ ws s) (a : Word) : s.byte a = latest s₀.byte ws a := by
  induction h with
  | start => rfl
  | between h hmem ih =>
      rw [← ih]
      exact congrArg (fun m : Mem 64 => m.byte (toHost a)) hmem
  | store h ht hstore ih =>
      rw [store_byte ht hstore, ih]
      rfl

/-- What is stored and loaded again with the same width at the same address. -/
theorem read_stored {fpu : HostFpu} {t : InstType} (ht : isStore t = true) {s s₁ s₂ : State}
    {i i₁ : Inst} (hstore : handler fpu t s i = .ok (s₁, i₁))
    (hmem : s₂.world.mem = s₁.world.mem) {n : Nat} (hn : n = accessWidth t) :
    s₂.read (accessAddr s i) n = (storedValue t s i).setWidth (8 * n) := by
  subst hn
  have hwidth : accessWidth t ≤ 8 := by cases t <;> decide
  refine Mem.eq_of_bytes fun k hk => ?_
  have hsub : (accessAddr s i + BitVec.ofNat 64 k - accessAddr s i).toNat = k := by
    rw [BitVec.add_comm, BitVec.add_sub_cancel, BitVec.toNat_ofNat, Nat.mod_eq_of_lt (by omega)]
  have hcovers : (storeWrite t s i).Covers (accessAddr s i + BitVec.ofNat 64 k) := by
    show (accessAddr s i + BitVec.ofNat 64 k - accessAddr s i).toNat < accessWidth t
    rw [hsub]
    exact hk
  have hbyte : s₂.byte (accessAddr s i + BitVec.ofNat 64 k) =
      s₁.byte (accessAddr s i + BitVec.ofNat 64 k) :=
    congrArg (fun m : Mem 64 => m.byte (toHost _)) hmem
  rw [read_byte s₂ _ hk, hbyte, store_byte ht hstore, if_pos hcovers]
  show ((storedValue t s i).setWidth _).extractLsb' (8 * (_ - accessAddr s i).toNat) 8 = _
  rw [hsub]
  rfl

/-- The bytes that were read are in the low part of what a load makes of them. -/
theorem loadedValue_low {t : InstType} (ht : isLoad t = true) (x : BitVec (8 * accessWidth t)) :
    (loadedValue t x).setWidth (8 * accessWidth t) = x := by
  have hzero {n : Nat} (hn : n ≤ 64) (x : BitVec n) : (x.setWidth 64).setWidth n = x := by
    apply BitVec.eq_of_getLsbD_eq
    intro k hk
    simp [hk, show k < 64 by omega]
  have hsign {n : Nat} (hn : n ≤ 64) (x : BitVec n) : (x.signExtend 64).setWidth n = x := by
    apply BitVec.eq_of_getLsbD_eq
    intro k hk
    rw [BitVec.getLsbD_setWidth, BitVec.getLsbD_signExtend, if_pos hk, decide_eq_true hk,
      decide_eq_true (show k < 64 by omega), Bool.true_and, Bool.true_and]
  cases t <;> try cases ht
  case lb | lh | lw => exact hsign (by decide) x
  case lbu | lhu | lwu | ld | fld => exact hzero (by decide) x
  case flw =>
    show (BitVec.allOnes 32 ++ x.setWidth 32).setWidth 32 = x
    rw [BitVec.setWidth_append_eq_right]
    exact BitVec.setWidth_eq x

/-- **Loads see the most recent stores.**  After any history of stores a load of readable bytes
gives, byte by byte, what was stored last at each address, extended as its type says; a store
changes no byte but those it covers; and a value that is stored and then loaded with the same
width is the one that was stored, across the register files too. -/
theorem loads_see_stores {fpu : HostFpu} {s₀ s : State} {ws : List (Write 64)}
    (h : StoreRun fpu s₀ ws s) :
    (∀ t i, isLoad t = true → s.Readable (accessAddr s i) (accessWidth t) →
      ∃ s' x, handler fpu t s i = .ok (s', i) ∧ loadResult t s' i = loadedValue t x ∧
        (∀ k < accessWidth t, (x : BitVec (8 * accessWidth t)).extractLsb' (8 * k) 8 =
          latest s₀.byte ws (accessAddr s i + BitVec.ofNat 64 k)) ∧
        s'.world.mem = s.world.mem) ∧
    (∀ t i s' i', isStore t = true → handler fpu t s i = .ok (s', i') →
      ∀ a, accessWidth t ≤ (a - accessAddr s i).toNat → s'.byte a = s.byte a) ∧
    (∀ t i s₁ i₁ t' i' s₂, isStore t = true → handler fpu t s i = .ok (s₁, i₁) →
      s₂.world.mem = s₁.world.mem → isLoad t' = true → accessWidth t' = accessWidth t →
      accessAddr s₂ i' = accessAddr s i → s₂.Readable (accessAddr s₂ i') (accessWidth t') →
      ∃ s', handler fpu t' s₂ i' = .ok (s', i') ∧
        loadResult t' s' i' =
          loadedValue t' ((storedValue t s i).setWidth (8 * accessWidth t')) ∧
        (loadResult t' s' i').setWidth (8 * accessWidth t') =
          (storedValue t s i).setWidth (8 * accessWidth t')) := by
  refine ⟨fun t i ht hr => ?_, fun t i s' i' ht hstore a ha => ?_, ?_⟩
  · obtain ⟨s', hs, hv, hm⟩ := handler_load ht hr
    refine ⟨s', _, hs, hv, fun k hk => ?_, hm⟩
    rw [read_byte s _ hk, h.byte]
  · rw [store_byte ht hstore]
    exact if_neg (Nat.not_lt.mpr ha)
  · intro t i s₁ i₁ t' i' s₂ ht hstore hmem ht' hwidth haddr hr
    obtain ⟨s', hs, hv, -⟩ := handler_load ht' hr
    rw [haddr, read_stored ht hstore hmem hwidth] at hv
    refine ⟨s', hs, hv, ?_⟩
    rw [hv, loadedValue_low ht']

/-- A state with memory that is mapped everywhere, and a value in `x2`. -/
def storing : State := (stateWith 0).setGp 2 0x1122334455667788

/-- `sd x2, -1(x0)`, which runs past the last address. -/
def storeWrapped : Inst := { rs2 := 2, imm := -1 }

/-- `lb x3, 0(x0)` gives the second byte of it. -/
theorem loads_see_stores_wrapped :
    ∃ s s' x, StoreRun default storing [storeWrite .sd storing storeWrapped] s ∧
      handler default .lb s { rd := 3 } = .ok (s', { rd := 3 }) ∧
      loadResult .lb s' { rd := 3 } = loadedValue .lb (x : BitVec 8) ∧
      x.extractLsb' 0 8 = 0x77 := by
  have hok : (handler default .sd storing storeWrapped).map (fun _ => ()) = .ok () := by
    decide +kernel
  obtain ⟨⟨s, i⟩, hstore, -⟩ := map_ok_inv hok
  have hmem := handler_store rfl hstore
  have hrun : StoreRun default storing [storeWrite .sd storing storeWrapped]
      (storing.withMem s.world.mem) := .between (.store .start rfl hstore) rfl
  obtain ⟨hloads, -⟩ := loads_see_stores hrun
  have hr : (storing.withMem s.world.mem).Readable
      (accessAddr (storing.withMem s.world.mem) { rd := 3 }) 1 := by
    intro k _
    show s.world.mem.readable _ = true
    rw [hmem]
    rfl
  obtain ⟨s', x, hs, hv, hbytes, -⟩ := hloads .lb { rd := 3 } rfl hr
  have hbyte : latest storing.byte [storeWrite .sd storing storeWrapped]
      (accessAddr storing { rd := 3 } + BitVec.ofNat 64 0) = 0x77 := by
    decide +kernel
  exact ⟨_, s', x, hrun, hs, hv, (hbytes 0 (by decide)).trans hbyte⟩

end Rvemu
