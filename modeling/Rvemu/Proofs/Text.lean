/-
Segments that are not writable.

Three things write to guest memory: stores, also those of the host's library for
`gettimeofday`, which fault where a page is not writable; the host, when it answers
`read` or `fstat`, and it fails such a call rather than write there; and new mappings,
which take free addresses only.  The fourth danger is the memory that `brk` gives
back.  It lies behind the end of what is mapped, and that end is never below the base
as long as no request runs off the upper end of the address space.

So a segment whose pages are not writable is at every point of a run what it was in
the file, if no call does anything to memory on the side, and what is fetched from it
are the words of the file.
-/
import Rvemu.Proofs.Arguments
import Rvemu.Proofs.History
import Rvemu.Proofs.Image

namespace Rvemu

open Memory Spec Steps

/-- The host delivers where the process may write, and nowhere else. -/
structure DeliversWritable (os : Os) : Prop where
  read : ∀ {clock mem fd a len bytes}, os.read clock mem fd a len = .ok bytes →
    ∀ i < bytes.length, mem.writable (a + BitVec.ofNat 64 i) = true
  fstat : ∀ {clock mem fd a stat}, os.fstat clock mem fd a = .ok stat →
    ∀ i < stat.length, mem.writable (a + BitVec.ofNat 64 i) = true

/-- The break that is asked for, if the machine is about to ask for one, is no higher than any
program needs. -/
def LowBreak (m : Machine) : Prop :=
  m.AtEcall → m.state.gp Reg.a7 = sysBrkNumber →
    (brkTarget m.mmu (m.state.gp Reg.a0)).toNat ≤ 2 ^ 62

/-- The host address is mapped, and not for writing. -/
def ReadOnly (mem : Mem 64) (x : Word) : Prop := ∃ p, mem.prot x = some p ∧ p.write = false

theorem ReadOnly.same {mem mem' : Mem 64} {x : Word} (hro : ReadOnly mem x)
    (h : Mem.SameAt x mem mem') : ReadOnly mem' x := by
  unfold ReadOnly
  rw [h.prot]
  exact hro

theorem ReadOnly.not_writable {mem : Mem 64} {x : Word} (hro : ReadOnly mem x) :
    ¬mem.writable x = true := by
  obtain ⟨p, hp, hw⟩ := hro
  unfold Mem.writable
  rw [hp]
  simp [hw]

/-- Bytes that all go to writable addresses do not go to one that is not. -/
theorem ReadOnly.not_within {mem : Mem 64} {x a : Word} {n : Nat} (hro : ReadOnly mem x)
    (hw : ∀ i < n, mem.writable (a + BitVec.ofNat 64 i) = true) : ¬(x - a).toNat < n := by
  intro hlt
  have haddr : a + BitVec.ofNat 64 (x - a).toNat = x := by
    rw [BitVec.ofNat_toNat, BitVec.setWidth_eq]
    exact add_sub_cancel a x
  have hx := hw _ hlt
  rw [haddr] at hx
  exact hro.not_writable hx

/-! ### The allocator -/

section Alloc

variable {os : Os} {top : Nat} {w w' : World} {mmu mmu' : Mmu} {a size x : Word}

/-- What is mapped below the end stays as it is. -/
theorem AllocKind.sameAt (hc : MmapContract os top) (hx : ReadOnly w.mem x)
    (hbelow : x.toNat < mmu.hostAlloc.toNat) (h : AllocKind os w mmu size w' mmu') :
    Mem.SameAt x w.mem w'.mem := by
  cases h with
  | @grows hpos hend addr hmap =>
      have hout : ¬Mem.InRange addr (roundUp size os.pageSize).toNat x := by
        intro hin
        obtain ⟨p, hp, -⟩ := hx
        rw [hc.anon_free hmap x hin] at hp
        cases hp
      exact ⟨if_neg hout, if_neg hout, if_neg hout⟩
  | @shrinks hneg hend len hlen hunmap =>
      refine ⟨if_neg fun hin : Mem.InRange mmu.hostAlloc len.toNat x => ?_, rfl, rfl⟩
      have hlo := hin.1
      omega
  | stays hgrow hshrink => exact .rfl

/-- The end of what is mapped is not below the base. -/
def EndAbove (mmu : Mmu) : Prop := (toHost mmu.base).toNat ≤ mmu.hostAlloc.toNat

/-- A low request keeps it there. -/
theorem EndAbove.step (hc : MmapContract os top) (habove : EndAbove mmu)
    (hle : mmu.base.toNat ≤ a.toNat) (hlow : a.toNat ≤ 2 ^ 62)
    (h : AllocKind os w mmu (a - mmu.guestAlloc) w' mmu') : EndAbove mmu' := by
  have hoff : guestMemoryOffset.toNat < 2 ^ 44 := by decide
  have ha : mmu.guestAlloc + (a - mmu.guestAlloc) = a := add_sub_cancel _ _
  have hbase : (toHost mmu.base).toNat = mmu.base.toNat + guestMemoryOffset.toNat := by
    unfold toHost
    rw [BitVec.toNat_add, Nat.mod_eq_of_lt (by omega)]
  unfold EndAbove at habove ⊢
  cases h with
  | @grows hpos hend addr hmap =>
      have htop := hc.top_le
      have hfits := hc.anon_fits hmap
      rw [ha] at hend
      have hhost : mmu.hostAlloc.toNat =
          (toGuest mmu.hostAlloc).toNat + guestMemoryOffset.toNat := by
        have hsplit := toHost_toGuest mmu.hostAlloc
        rw [← hsplit, toGuest_toHost]
        unfold toHost
        rw [BitVec.toNat_add, Nat.mod_eq_of_lt (by omega)]
      show (toHost mmu.base).toNat ≤
        (mmu.hostAlloc + roundUp (a - mmu.guestAlloc) os.pageSize).toNat
      rw [BitVec.toNat_add, Nat.mod_eq_of_lt (by omega)]
      omega
  | @shrinks hneg hend len hlen hunmap =>
      rw [ha] at hlen
      have hround : (roundUp a os.pageSize).toNat = pageCeil os a.toNat :=
        roundUp_toNat (by omega)
      have hself : a.toNat ≤ pageCeil os a.toNat := Align.le_ceil _ _
      have hlt : pageCeil os a.toNat < a.toNat + 2 ^ os.pageShift := Align.ceil_lt _ _
      have hpage : 2 ^ os.pageShift < 2 ^ 31 := Nat.pow_lt_pow_right (by decide) os.pageShift_lt
      have hsub : mmu.hostAlloc - len = toHost (roundUp a os.pageSize) := by
        rw [hlen]
        unfold toGuest toHost
        grind
      show (toHost mmu.base).toNat ≤ (mmu.hostAlloc - len).toNat
      rw [hsub, hbase]
      unfold toHost
      rw [BitVec.toNat_add, hround, Nat.mod_eq_of_lt (by omega)]
      omega
  | stays hgrow hshrink => exact habove

end Alloc

/-! ### One step -/

/-- A store that is followed by something that succeeds. -/
theorem store_writable {a : Word} {n : Nat} {v : BitVec (8 * n)} {s : State}
    {f : State → Except Stop (State × Inst)} {r : State × Inst}
    (h : (s.store a n v >>= f) = .ok r) :
    ∀ k < n, s.world.mem.writable (toHost a + BitVec.ofNat 64 k) = true := by
  obtain ⟨s₁, hstore, -⟩ := bind_ok_inv h
  obtain ⟨m, hm, -⟩ := store_inv hstore
  exact fun k hk => Mem.store_writable hm hk

/-- A store that is executed went to writable addresses. -/
theorem handler_writable {fpu : HostFpu} {t : InstType} (ht : isStore t = true) {s s' : State}
    {i i' : Inst} (h : handler fpu t s i = .ok (s', i')) :
    ∀ k < accessWidth t, s.world.mem.writable (toHost (accessAddr s i) + BitVec.ofNat 64 k) =
      true := by
  cases t <;> try cases ht
  all_goals rw [handler] at h
  all_goals exact store_writable h

section Step

variable {fpu : HostFpu} {os : Os} {top : Nat} {m m' : Machine} {x : Word}

/-- What is delivered to writable addresses does not reach one that is not. -/
theorem ReadOnly.deliver {mem : Mem 64} {a : Word} {bytes : List (BitVec 8)}
    (hx : ReadOnly mem x)
    (hbytes : ∀ i < bytes.length, mem.writable (a + BitVec.ofNat 64 i) = true) :
    (Event.deliver a bytes).effect x = none :=
  List.getElem?_eq_none (Nat.le_of_not_lt (hx.not_within hbytes))

/-- Neither does what is stored through a pointer. -/
theorem throughEvents_none {ptr : Word} {bytes : List (BitVec 8)} {mem mem' : Mem 64}
    (hx : ReadOnly mem x) (h : storeThrough ptr bytes mem = .ok mem') :
    ∀ e ∈ throughEvents ptr bytes, e.effect x = none := by
  unfold throughEvents
  rcases storeThrough_ok_iff.mp h with ⟨hptr, -⟩ | ⟨hptr, hbytes, -⟩
  · rw [if_pos hptr]
    exact fun e he => absurd he List.not_mem_nil
  · rw [if_neg hptr]
    exact List.forall_mem_singleton.mpr (hx.deliver hbytes)

theorem timeEvents_none {r : Word} (hx : ReadOnly m.state.world.mem x)
    (h : sysGettimeofday os m = .ok (r, m')) : ∀ e ∈ m.timeEvents os, e.effect x = none := by
  unfold Machine.timeEvents
  dsimp only
  cases sysGettimeofday_inv h with
  | @told time zone mem₁ mem₂ hreply htime hzone =>
      have hx₁ : ReadOnly mem₁ x := by
        unfold ReadOnly
        rw [storeThrough_prot htime]
        exact hx
      rw [hreply]
      exact List.forall_mem_append.mpr ⟨throughEvents_none hx htime, throughEvents_none hx₁ hzone⟩
  | fails hreply =>
      rw [hreply]
      exact fun e he => absurd he List.not_mem_nil

/-- What a call that returns delivers or maps does not reach an address that is not writable. -/
theorem callEvents_none (hc : MmapContract os top) (hw : DeliversWritable os) {r : Word}
    (hx : ReadOnly m.state.world.mem x) (h : doSyscall os m (m.state.gp Reg.a7) = .ok (r, m')) :
    ∀ e ∈ m.callEvents os, e.effect x = none := by
  unfold Machine.callEvents
  split
  · unfold Machine.readEvents
    dsimp only
    split
    · rename_i bytes hread
      exact List.forall_mem_singleton.mpr (hx.deliver (hw.read hread))
    · exact fun e he => absurd he List.not_mem_nil
  · unfold Machine.fstatEvents
    dsimp only
    split
    · rename_i stat hstat
      exact List.forall_mem_singleton.mpr (hx.deliver (hw.fstat hstat))
    · exact fun e he => absurd he List.not_mem_nil
  · rename_i hn
    rw [doSyscall_table hn (by decide) rfl] at h
    exact timeEvents_none hx h
  · unfold Machine.brkEvents
    dsimp only
    split
    · split
      · rename_i addr hmap
        refine List.forall_mem_singleton.mpr (if_neg fun hin => ?_)
        obtain ⟨p, hp, -⟩ := hx
        rw [hc.anon_free hmap x hin] at hp
        cases hp
      · exact fun e he => absurd he List.not_mem_nil
    · exact fun e he => absurd he List.not_mem_nil
  · exact fun e he => absurd he List.not_mem_nil

/-- Neither does what an instruction stores. -/
theorem storeEvents_none (hx : ReadOnly m.state.world.mem x) (hat : ¬m.AtEcall)
    (h : emuStep fpu os m = .ok m') : ∀ e ∈ m.storeEvents, e.effect x = none := by
  obtain ⟨raw, i, s, i', hload, hdec, hrun, -, -⟩ := emuStep_plain hat h
  unfold Machine.storeEvents
  rw [hload]
  dsimp only
  rw [hdec]
  dsimp only
  split
  · rename_i hst
    exact List.forall_mem_singleton.mpr (if_neg (hx.not_within (handler_writable hst hrun)))
  · exact fun e he => absurd he List.not_mem_nil

/-- No step writes to an address that is not writable, if it does nothing on the side. -/
theorem emuStep_keeps (hc : MmapContract os top) (hw : DeliversWritable os)
    (hzero : m.state.gp Reg.zero = 0) (hside : m.Undisturbed os)
    (hx : ReadOnly m.state.world.mem x) (h : emuStep fpu os m = .ok m') :
    m'.state.world.mem.byte x = m.state.world.mem.byte x ∧
      m'.state.world.mem.unbacked x = m.state.world.mem.unbacked x := by
  have hnone : ∀ e ∈ m.events os, e.effect x = none := by
    unfold Machine.events
    by_cases hat : m.AtEcall
    · rw [if_pos hat]
      rw [emuStep_ecall hzero hat] at h
      obtain ⟨m₁, hcall, -⟩ := map_ok_inv h
      obtain ⟨r, m₂, hdo, -⟩ := handleSyscall_inv hcall
      have hevents : ∀ e ∈ m.calling.callEvents os, e.effect x = none :=
        callEvents_none hc hw hx hdo
      exact hevents
    · rw [if_neg hat]
      exact storeEvents_none hx hat h
  obtain ⟨hbyte, hback⟩ := emuStep_replays hzero hside h x
  exact ⟨hbyte.trans (replay_of_none hnone), hback hnone⟩

/-- What a run keeps: `x` is below the heap and as it was in `mem`, where it is not writable. -/
structure Sealed (base : Word) (mem : Mem 64) (x : Word) (m : Machine) : Prop where
  zero : m.state.gp Reg.zero = 0
  base : m.mmu.base = base
  above : EndAbove m.mmu
  same : Mem.SameAt x mem m.state.world.mem

theorem Sealed.step (hc : MmapContract os top) (hw : DeliversWritable os) {base : Word}
    {mem : Mem 64} (hx : ReadOnly mem x) (hbelow : x.toNat < (toHost base).toNat)
    (hI : Sealed base mem x m) (hlow : LowBreak m) (hside : m.Undisturbed os)
    (h : emuStep fpu os m = .ok m') : Sealed base mem x m' := by
  have hro := hx.same hI.same
  obtain ⟨hbyte, hback⟩ := emuStep_keeps hc hw hI.zero hside hro h
  obtain ⟨s, i, r, -, -, -, hkind⟩ := emuStep_inv h
  cases hkind with
  | quiet hmmu hprot =>
      refine ⟨emuStep_zero h, ?_, ?_, hI.same.trans ⟨congrFun hprot x, hbyte, hback⟩⟩
      · rw [hmmu]
        exact hI.base
      · rw [hmmu]
        exact hI.above
  | @brk hat hnum r m₁ m₂ hbrk ha0 hworld hmmu hworld' hmmu' =>
      obtain ⟨rfl, hle, -, w, mmu, rfl, halloc⟩ := sysBrk_inv hbrk
      have htarget := hlow hat hnum
      rw [ha0, hmmu] at hle
      rw [ha0, hmmu, hworld] at halloc
      have habove := hI.above.step hc hle htarget halloc
      have hbase : mmu.base = m.mmu.base := halloc.moves.1
      have hend : x.toNat < m.mmu.hostAlloc.toNat := by
        have hle' := hI.above
        unfold EndAbove at hle'
        rw [hI.base] at hle'
        omega
      have hsame := halloc.sameAt hc hro hend
      have hprot : m'.state.world.mem.prot x = m.state.world.mem.prot x := by
        rw [hworld']
        exact hsame.prot
      refine ⟨emuStep_zero h, ?_, ?_, hI.same.trans ⟨hprot, hbyte, hback⟩⟩
      · rw [hmmu']
        exact hbase.trans hI.base
      · rw [hmmu']
        exact habove

end Step

/-! ### The setup -/

section

variable {os : Os} {top : Nat} {x : Word}

theorem mmuWrite_sameAt {w w' : World} {a : Word} {bs : List (BitVec 8)} (hx : ReadOnly w.mem x)
    (h : mmuWrite w a bs = .ok w') : Mem.SameAt x w.mem w'.mem := by
  have hbytes := hx.not_within fun i hi => mmuWrite_writable h hi
  rw [mmuWrite_eq h]
  exact ⟨rfl, if_neg hbytes, rfl⟩

theorem HeapOk.endAbove {prot : Word → Option Prot} {mmu : Mmu} (hok : HeapOk os top prot mmu) :
    EndAbove mmu := by
  have hinside := hok.inside
  unfold EndAbove
  omega

theorem pushArgs_sameAt (hc : MmapContract os top) {args : List (List (BitVec 8))} {w w' : World}
    {mmu mmu' : Mmu} {sp sp' : Word} {n : Nat} (hok : Room os top w mmu (argRoom os args + n))
    (hx : ReadOnly w.mem x) (hbelow : x.toNat < (toHost mmu.base).toNat)
    (h : pushArgs os args w mmu sp = .ok (w', mmu', sp')) : Mem.SameAt x w.mem w'.mem := by
  induction args generalizing w' mmu' sp' n with
  | nil =>
      cases h
      exact .rfl
  | cons arg rest ih =>
      obtain ⟨w₁, mmu₁, sp₁, w₂, w₃, hrest, halloc, hwrite, hpush, -⟩ := pushArgs_cons_inv h
      rw [argRoom, Nat.add_comm (pageCeil os _), Nat.add_assoc] at hok
      have hsame₁ := ih hok hrest
      have hok₁ := hok.pushArgs hc hrest
      have hend : x.toNat < mmu₁.hostAlloc.toNat := by
        have habove := hok₁.heap.endAbove
        unfold EndAbove at habove
        rw [(pushArgs_base hok.heap.above hrest).1] at habove
        omega
      have hx₁ := hx.same hsame₁
      have hsame₂ := (mmuAlloc_inv halloc).2.2.2.sameAt hc hx₁ hend
      have hx₂ := hx₁.same hsame₂
      have hsame₃ := mmuWrite_sameAt hx₂ hwrite
      have hsame₄ := mmuWrite_sameAt (hx₂.same hsame₃) hpush
      exact hsame₁.trans (hsame₂.trans (hsame₃.trans hsame₄))

/-- The stack and the arguments leave the image alone where it is not writable. -/
theorem machineSetup_sameAt (hc : MmapContract os top) {argv : List (List (BitVec 8))}
    {pad : BitVec 32} {m m' : Machine}
    (hok : Room os top m.state.world m.mmu (setupRoom os argv.tail))
    (hx : ReadOnly m.state.world.mem x) (hbelow : x.toNat < (toHost m.mmu.base).toNat)
    (h : machineSetup os argv pad m = .ok m') :
    Mem.SameAt x m.state.world.mem m'.state.world.mem := by
  obtain ⟨addr, w₁, mmu₁, w₂, sp, halloc, hpush, hwrite, -⟩ := machineSetup_inv h
  have hkind := (mmuAlloc_inv halloc).2.2.2
  have hend : x.toNat < m.mmu.hostAlloc.toNat := by
    have habove := hok.heap.endAbove
    unfold EndAbove at habove
    omega
  have hsame₁ := hkind.sameAt hc hx hend
  have hok₁ : Room os top w₁ mmu₁ (argRoom os argv.tail) := hok.alloc hc (by decide) halloc
  rw [← hkind.moves.1] at hbelow
  have hsame₂ := pushArgs_sameAt (n := 0) hc hok₁ (hx.same hsame₁) hbelow hpush
  have hsame₃ := mmuWrite_sameAt ((hx.same hsame₁).same hsame₂) hwrite
  exact hsame₁.trans (hsame₂.trans hsame₃)

/-! ### Segments -/

/-- The pages of the segments that were loaded end below the end of what is mapped. -/
theorem LoadRun.ends (hc : MmapContract os top) {file : List (BitVec 8)} {ps : List Elf64Phdr}
    {w w' : World} {mmu mmu' : Mmu} (h : LoadRun os file ps w mmu w' mmu')
    (hps : ∀ p ∈ ps, Placeable os p) : ∀ p ∈ ps,
      (pageBase os p).toNat + pageCeil os (pageOffset os p + p.memsz.toNat) ≤ top ∧
        (pageBase os p).toNat + pageCeil os (pageOffset os p + p.memsz.toNat) ≤
          mmu'.hostAlloc.toNat := by
  induction h with
  | nil => exact fun p hp => absurd hp List.not_mem_nil
  | @cons p ps w w₁ w' mmu mmu₁ mmu' hload hrest ih =>
      intro q hq
      rcases List.mem_cons.mp hq with rfl | hq
      · have hends := (LoadRun.cons hload hrest).hostAlloc.2.1 q (List.mem_cons_self ..)
        obtain ⟨-, hfits, hsum⟩ := (hps q (List.mem_cons_self ..)).range hc hload
        obtain ⟨-, -, -, hend, -⟩ := segment_fits hc hload
        rw [hostEnd_eq] at hends
        exact ⟨hfits, by omega⟩
      · exact ih (fun r hr => hps r (List.mem_cons_of_mem _ hr)) q hq

/-- What is loaded from a readable segment in memory is what the file has there. -/
theorem InMemory.load {s : State} {p : Elf64Phdr} {file : List (BitVec 8)}
    (hin : InMemory os s.world p file) (hle : p.filesz.toNat ≤ p.memsz.toNat)
    (hread : (flagsToMmapProt p.flags).read = true) {k n : Nat} (hk : k + n ≤ p.filesz.toNat)
    (hfile : p.offset.toNat + k + n ≤ file.length) :
    s.load (p.vaddr + BitVec.ofNat 64 k) n = .ok (field file (p.offset.toNat + k) n) := by
  have hsum (j : Nat) : p.vaddr + BitVec.ofNat 64 k + BitVec.ofNat 64 j =
      p.vaddr + BitVec.ofNat 64 (k + j) := by
    rw [BitVec.add_assoc, ← BitVec.ofNat_add]
  have hreadable : s.Readable (p.vaddr + BitVec.ofNat 64 k) n := by
    intro j hj
    refine (Mem.access_iff s.world.mem _ _).mpr ⟨flagsToMmapProt p.flags, ?_, ?_, ?_⟩
    · rw [hsum]
      exact hin.mapped _ ⟨k + j, by omega, rfl⟩
    · exact Bool.or_eq_true_iff.mpr (.inl hread)
    · rw [hsum]
      exact hin.backed (k + j) (by omega) (by omega)
  rw [load_ok hreadable]
  refine congrArg Except.ok (Mem.eq_of_bytes fun j hj => ?_)
  have hlt : p.offset.toNat + (k + j) < file.length := by omega
  rw [read_byte s _ hj, field_byte file hj, hsum, Nat.add_assoc, List.getD_eq_getElem?_getD]
  unfold State.byte
  rw [hin.data (k + j) (by omega) _ (List.getElem?_eq_getElem hlt), List.getElem?_eq_getElem hlt]
  rfl

/-! ### Runs -/

/-- What is not writable and below the heap stays throughout a run. -/
theorem mainLoop_sealed (hc : MmapContract os top) (hw : DeliversWritable os) {fpu : HostFpu}
    {m₀ m : Machine} {n : Nat} (hzero : m₀.state.gp Reg.zero = 0) (habove : EndAbove m₀.mmu)
    (hx : ReadOnly m₀.state.world.mem x) (hbelow : x.toNat < (toHost m₀.mmu.base).toNat)
    (hcalls : ∀ k < n, ∀ t, mainLoop fpu os k m₀ = .ok t → LowBreak t ∧ t.Undisturbed os)
    (h : mainLoop fpu os n m₀ = .ok m) :
    Mem.SameAt x m₀.state.world.mem m.state.world.mem := by
  simp only [mainLoop_eq_iter] at hcalls h
  have hstart : Sealed m₀.mmu.base m₀.state.world.mem x m₀.enter := ⟨hzero, rfl, habove, .rfl⟩
  exact (iter_guarded (fun hI hG hs => hI.step hc hw hx hbelow hG.1 hG.2 hs) hstart hcalls h).same

/-- **Code that is not writable stays what it was in the file.**  If the host keeps its contract,
no two segments share a page, no request of the break is out of all proportion and no call does
anything to memory on the side, then at every point of a run a segment without the flag for
writing is in memory as it was loaded, and what is read from it are the words of the file. -/
theorem mainLoop_text (hc : MmapContract os top) (hw : DeliversWritable os) {fpu : HostFpu}
    {file phdr : List (BitVec 8)} {argv : List (List (BitVec 8))} {pad : BitVec 32} {w : World}
    {m₁ m₀ m : Machine} {n : Nat} (huser : UserSpace top w.mem.prot) (hok : FileOk os file)
    (hphdr : phdr.length = sizeofElf64Phdr) (hboot : boot os (.ok file) phdr pad argv w = .ok m₀)
    (hload : machineLoadProgram os (.ok file) phdr (initialMachine w) = .ok m₁)
    (hfree : m₁.state.world.mem.FreeRange (toHost m₁.mmu.guestAlloc) (setupRoom os argv.tail))
    (hcalls : ∀ k < n, ∀ t, mainLoop fpu os k m₀ = .ok t → LowBreak t ∧ t.Undisturbed os)
    (h : mainLoop fpu os n m₀ = .ok m) {p : Elf64Phdr} (hp : p ∈ segments file)
    (hro : (flagsToMmapProt p.flags).write = false) :
    InMemory os m.state.world p file ∧
      ((flagsToMmapProt p.flags).read = true → ∀ k, k + 4 ≤ p.filesz.toNat →
        p.offset.toNat + k + 4 ≤ file.length →
          m.state.load (p.vaddr + BitVec.ofNat 64 k) 4 =
            .ok (field file (p.offset.toNat + k) 4)) := by
  obtain ⟨m₁', hload', hsetup⟩ := boot_inv hboot
  rw [hload] at hload'
  cases hload'
  obtain ⟨⟨w₁, mmu₁⟩, helf, hm₁⟩ := bind_ok_inv hload
  cases hm₁
  have hplace := hok.placeable p hp
  have hrun := mmuLoadElf_run hok hphdr helf
  have himage := mmuLoadElf_image hc hok hphdr helf
  have hloaded := machineSetup_loaded hc hload hfree hsetup
  have hroom := hloaded.room (machineLoadProgram_userSpace hc huser hload) hfree
  obtain ⟨hheap, -⟩ := machineSetup_copied hc huser hload hfree hsetup
  obtain ⟨hfits, hend⟩ := hrun.ends hc hok.placeable p hp
  have hzero : m₀.state.gp Reg.zero = 0 := boot_gp hboot (by decide)
  have hbase : toHost m₀.mmu.base = mmu₁.hostAlloc := by
    rw [(machineSetup_base hsetup).1, himage.base, toHost_toGuest]
  have hin : InMemory os m.state.world p file := by
    refine (himage.inMemory p hp).same hplace.le fun y hy => ?_
    have hpos := hplace.pos
    have hle := hplace.le
    have hpage := (onPage_iff hc (by omega) hfits y).mp hy
    have hbelow : (toHost y).toNat < mmu₁.hostAlloc.toNat := Nat.lt_of_lt_of_le hpage.2 hend
    have hx : ReadOnly w₁.mem (toHost y) := ⟨_, (himage.inMemory p hp).mapped y hy, hro⟩
    have hsame : Mem.SameAt (toHost y) w₁.mem m₀.state.world.mem := by
      refine machineSetup_sameAt hc hroom hx ?_ hsetup
      rwa [← (machineSetup_base hsetup).1, hbase]
    refine hsame.trans (mainLoop_sealed hc hw hzero hheap.endAbove (hx.same hsame) ?_ hcalls h)
    rwa [hbase]
  exact ⟨hin, fun hread k hk hlen => hin.load hplace.le hread hk hlen⟩

end

/-! ### A program that is not writable -/

/-- The sample's image, without the flag for writing; its code is `li a0, 42`. -/
def textImage : List (BitVec 8) := (elfImage [0x13, 0x05, 0xa0, 0x02]).set 68 5

def textPhdr : Elf64Phdr :=
  { type := ptLoad, flags := 5, offset := 0, vaddr := 0x10000, filesz := 0x1000, memsz := 0x1000 }

theorem textImage_segments : segments textImage = [textPhdr] := by
  have hphdrs : phdrs textImage = [textPhdr] := by decide +kernel
  unfold segments
  rw [hphdrs]
  rfl

theorem textImage_ok : FileOk pagingOs textImage := by
  refine ⟨by decide +kernel, ?_, ?_, ?_⟩
  · rw [textImage_segments]
    exact List.cons_ne_nil _ _
  · rw [textImage_segments]
    refine List.forall_mem_singleton.mpr ⟨?_, ?_, ?_, ?_⟩ <;> decide
  · rw [textImage_segments]
    exact List.pairwise_singleton _ _

theorem pagingOs_delivers : DeliversWritable pagingOs where
  read h := by
    cases h
    exact fun i hi => absurd hi (Nat.not_lt_zero i)
  fstat h := by
    cases h
    exact fun i hi => absurd hi (Nat.not_lt_zero i)

theorem mainLoop_text_sample :
    ∃ m₀ m, boot pagingOs (.ok textImage) (List.replicate 56 0) 0 sampleArgv default = .ok m₀ ∧
      mainLoop default pagingOs 1 m₀ = .ok m ∧ InMemory pagingOs m.state.world textPhdr textImage ∧
      m.state.load 0x10078 4 = .ok 0x02a00513 := by
  have hok : (boot grantingOs (.ok textImage) (List.replicate 56 0) 0 sampleArgv default >>=
      fun m₀ => (execIter default m₀.enter.state m₀.inst).map fun p =>
        (m₀.state.load m₀.state.pc 4, p.2.continueExec)) = .ok (.ok 0x02a00513, false) := by
    decide +kernel
  have hok₁ : (machineLoadProgram grantingOs (.ok textImage) (List.replicate 56 0)
      (initialMachine default)).map (fun m => m.mmu.hostAlloc) = .ok 0x88800011000 := by
    decide +kernel
  obtain ⟨m₀, hboot, h⟩ := bind_ok_inv hok
  obtain ⟨⟨s, i⟩, hiter, h⟩ := map_ok_inv h
  obtain ⟨hfetch, hplain⟩ := Prod.mk.inj h
  obtain ⟨m₁, hload, hsetup⟩ := boot_inv hboot
  rw [hload] at hok₁
  have hend : m₁.mmu.hostAlloc = 0x88800011000 := Except.ok.inj hok₁
  obtain ⟨hload', hfree, hsetup'⟩ :=
    boot_paging hload hsetup (by rw [hend]; decide) (by rw [hend]; decide)
  have hboot' : boot pagingOs (.ok textImage) (List.replicate 56 0) 0 sampleArgv default =
      .ok m₀ := by
    unfold boot
    rw [hload']
    exact hsetup'
  have hrun : mainLoop default pagingOs 1 m₀ =
      .ok (m₀.enter.withRun { s with pc := s.pc + i.length } i) := by
    rw [mainLoop_eq_iter, iter, emuStep]
    show (execIter default m₀.enter.state m₀.inst >>= _) >>= _ = _
    rw [hiter, ok_bind]
    dsimp only
    rw [if_neg (by rw [hplain]; exact Bool.false_ne_true)]
    rfl
  have hroom : m₁.state.world.mem.FreeRange (toHost m₁.mmu.guestAlloc)
      (setupRoom pagingOs sampleArgv.tail) := by
    rcases machineLoadProgram_loaded pagingOs_contract hload' with ⟨entry, hstart⟩ | hloaded
    · rw [hstart] at hend
      cases hend
    · rw [hloaded.guest, toHost_toGuest]
      exact fun x hx => hfree x hx.1
  have hcalls : ∀ k < 1, ∀ t, mainLoop default pagingOs k m₀ = .ok t →
      LowBreak t ∧ t.Undisturbed pagingOs := by
    intro k hk t ht
    obtain rfl : k = 0 := by omega
    cases ht
    refine ⟨fun hat => ?_, fun _ => rfl⟩
    have hcall : m₀.state.load m₀.state.pc 4 = .ok 0x73 := hat
    rw [hfetch] at hcall
    cases hcall
  have huser : UserSpace userTop (default : World).mem.prot := by
    intro x p hx
    cases hx
  have hp : textPhdr ∈ segments textImage := by
    rw [textImage_segments]
    exact List.mem_singleton.mpr rfl
  obtain ⟨hin, hword⟩ := mainLoop_text pagingOs_contract pagingOs_delivers huser textImage_ok rfl
    hboot' hload' hroom hcalls hrun hp rfl
  refine ⟨m₀, _, hboot', hrun, hin, ?_⟩
  have hcode := hword rfl 0x78 (by decide) (by decide +kernel)
  rw [show field textImage (textPhdr.offset.toNat + 0x78) 4 = 0x02a00513 by decide +kernel] at hcode
  exact hcode

end Rvemu
