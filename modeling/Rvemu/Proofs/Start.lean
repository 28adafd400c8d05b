/-
A program that starts.

The lemmas about the setup say what holds if it succeeds.  Here it does succeed: if the
host maps what it is asked for, and behind every segment there is room for the stack
and the argument strings, then every program that fits into user space is loaded from
its file and started.  The machine is at its entry, guest memory holds the program, and
nothing is in the registers but the stack pointer.

That the writes of the setup do not fault is where the order of its calls matters: a
string is written to memory that was allocated for it, and its address below the ones
that were pushed before, on the stack that was allocated first.
-/
import Rvemu.Proofs.Link
import Rvemu.Proofs.Stops
import Rvemu.Proofs.Text

namespace Rvemu

open Memory Spec

/-- The host maps what it is asked for near a hint, if that is free and in user space. -/
def GrantsAnon (os : Os) (top : Nat) : Prop :=
  ∀ clock mem hint len, PageStart os hint → 0 < len.toNat → mem.FreeRange hint len.toNat →
    hint.toNat + len.toNat ≤ top → ∃ addr, os.mmapAnon clock mem hint len = .ok addr

section

variable {os : Os} {top : Nat} {w w' : World} {mmu mmu' : Mmu}

/-- A write to writable addresses succeeds. -/
theorem mmuWrite_ok {a : Word} {bs : List (BitVec 8)}
    (h : ∀ i < bs.length, w.mem.writable (toHost a + BitVec.ofNat 64 i) = true) :
    ∃ w', mmuWrite w a bs = .ok w' := by
  unfold mmuWrite Mem.storeList
  rw [Mem.firstBad_none_iff.mpr h]
  exact ⟨_, rfl⟩

/-- A write to the heap does not change what is below. -/
theorem mmuWrite_below (hu : UserSpace top w.mem.prot) (htop : top ≤ 2 ^ 62) {a x : Word}
    {bs : List (BitVec 8)} (hx : x.toNat < (toHost a).toNat) (h : mmuWrite w a bs = .ok w') :
    Mem.SameAt x w.mem w'.mem := by
  have hfits : (toHost a).toNat + bs.length ≤ 2 ^ 64 := by
    rcases Nat.eq_zero_or_pos bs.length with hz | hpos
    · have hlt := (toHost a).isLt
      omega
    · have hlen := mmuWrite_length (by omega) hu h
      have hlt := hu.lt (mmuWrite_writable h hpos)
      rw [BitVec.add_zero] at hlt
      omega
  rw [mmuWrite_eq h]
  exact ⟨rfl, Mem.putList_outside w.mem hfits (.inl hx), rfl⟩

/-- Room behind a heap with memory behind all its addresses. -/
structure BackedRoom (os : Os) (top : Nat) (w : World) (mmu : Mmu) (n : Nat) : Prop
    extends Room os top w mmu n where
  backed : ∀ x : Word, (toHost mmu.base).toNat ≤ x.toNat → x.toNat < mmu.hostAlloc.toNat →
    w.mem.unbacked x = false

/-- The heap can be written, which leaves the room and all that is below as they are. -/
theorem BackedRoom.write_ok (hc : MmapContract os top) {n : Nat} (hok : BackedRoom os top w mmu n)
    (a : Word) (bs : List (BitVec 8)) (hlo : (toHost mmu.base).toNat ≤ (toHost a).toNat)
    (hhi : (toHost a).toNat + bs.length ≤ mmu.hostAlloc.toNat) :
    ∃ w', mmuWrite w a bs = .ok w' ∧ BackedRoom os top w' mmu n ∧
      ∀ x : Word, x.toNat < (toHost mmu.base).toNat → Mem.SameAt x w.mem w'.mem := by
  have htop := hc.top_le
  have hfits := hok.heap.fits
  have hwritable : ∀ i < bs.length, w.mem.writable (toHost a + BitVec.ofNat 64 i) = true := by
    intro i hi
    have haddr : (toHost a + BitVec.ofNat 64 i).toNat = (toHost a).toNat + i := by
      rw [BitVec.toNat_add, BitVec.toNat_ofNat,
        Nat.mod_eq_of_lt (b := 2 ^ 64) (a := i) (by omega), Nat.mod_eq_of_lt (by omega)]
    exact (Mem.access_iff w.mem _ _).mpr ⟨Prot.rw, hok.heap.mapped _ (by omega) (by omega), rfl,
      hok.backed _ (by omega) (by omega)⟩
  obtain ⟨w', hwrite⟩ := mmuWrite_ok hwritable
  have hprot := mmuWrite_prot hwrite
  refine ⟨w', hwrite, ⟨⟨?_, fun x hx => ?_⟩, fun x hx hx' => ?_⟩,
    fun x hx => mmuWrite_below hok.heap.user htop (by omega) hwrite⟩
  · rw [hprot]
    exact hok.heap
  · rw [hprot]
    exact hok.free x hx
  · rw [mmuWrite_eq hwrite]
    exact hok.backed x hx hx'

/-- What an allocation that fits into the room does. -/
structure Grown (w : World) (mmu : Mmu) (size : Nat) (w' : World) (mmu' : Mmu) : Prop where
  base : mmu'.base = mmu.base
  guest : (toHost mmu'.guestAlloc).toNat = (toHost mmu.guestAlloc).toNat + size
  le : mmu.hostAlloc.toNat ≤ mmu'.hostAlloc.toNat
  same : ∀ x : Word, x.toNat < mmu.hostAlloc.toNat → Mem.SameAt x w.mem w'.mem
  backed : ∀ x : Word, mmu.hostAlloc.toNat ≤ x.toNat → x.toNat < mmu'.hostAlloc.toNat →
    w'.mem.unbacked x = false

/-- A guest address that does not come round to the start of host memory, as a number. -/
theorem toNat_of_toHost {a : Word} (h : guestMemoryOffset.toNat ≤ (toHost a).toNat) :
    a.toNat = (toHost a).toNat - guestMemoryOffset.toNat := by
  have hsub : a = toHost a - guestMemoryOffset := (add_sub_cancel_right a _).symm
  have hnat := congrArg BitVec.toNat hsub
  rwa [BitVec.toNat_sub_of_le (BitVec.le_def.mpr h)] at hnat

/-- None of the reasons to stop is there. -/
theorem Room.alloc_total (hc : MmapContract os top) (hanon : GrantsAnon os top) {size : Word}
    {n : Nat} (hok : Room os top w mmu (pageCeil os size.toNat + n)) (hpos : 0 < size.toNat)
    (hlow : guestMemoryOffset.toNat ≤ (toHost mmu.base).toNat)
    (hfits : mmu.hostAlloc.toNat + (pageCeil os size.toNat + n) ≤ top) (e : Stop) :
    mmuAlloc os w mmu size ≠ .error e := by
  intro halloc
  have htop := hc.top_le
  have hself : size.toNat ≤ pageCeil os size.toNat := Align.le_ceil _ _
  have hround : (roundUp size os.pageSize).toNat = pageCeil os size.toNat :=
    roundUp_toNat (by omega)
  have habove := hok.heap.above
  have hinside := hok.heap.inside
  have hbreak := toHost_break hc hok.heap
  cases mmuAlloc_error.mp halloc with
  | lost hb => omega
  | sinks hb hs =>
      have hguest := toNat_of_toHost (a := mmu.guestAlloc) (by omega)
      rw [BitVec.toNat_add, Nat.mod_eq_of_lt (by omega)] at hs
      omega
  | refused hb hs hrefuses =>
      cases hrefuses with
      | mmap hpos' hend hmap =>
          obtain ⟨addr, hgrant⟩ := hanon w.clock w.mem mmu.hostAlloc (roundUp size os.pageSize)
            hok.heap.endPage (by omega) (fun x hx => hok.free x ⟨hx.1, by have := hx.2; omega⟩)
            (by omega)
          rw [hgrant] at hmap
          cases hmap
      | munmap hneg hend hunmap => omega

/-- The end of the heap moves by what the size is rounded up to, at most. -/
theorem Room.grown (hc : MmapContract os top) {size b : Word} {n : Nat}
    (hok : Room os top w mmu (pageCeil os size.toNat + n)) (hpos : 0 < size.toNat)
    (hfits : mmu.hostAlloc.toNat + (pageCeil os size.toNat + n) ≤ top)
    (h : mmuAlloc os w mmu size = .ok (b, w', mmu')) :
    Grown w mmu size.toNat w' mmu' ∧
      mmu'.hostAlloc.toNat ≤ mmu.hostAlloc.toNat + pageCeil os size.toNat := by
  have htop := hc.top_le
  have hself : size.toNat ≤ pageCeil os size.toNat := Align.le_ceil _ _
  have hround : (roundUp size os.pageSize).toNat = pageCeil os size.toNat :=
    roundUp_toNat (by omega)
  have hext := hok.extended hc (by omega) h
  obtain ⟨-, -, -, hkind⟩ := mmuAlloc_inv h
  refine ⟨?_, hkind.end_le (by omega)⟩
  cases hkind with
  | grows hpos' hend hmap =>
      rw [hok.placed hc (by omega) hmap] at hext ⊢
      have hsum : (mmu.hostAlloc + roundUp size os.pageSize).toNat =
          mmu.hostAlloc.toNat + pageCeil os size.toNat := by
        rw [BitVec.toNat_add, hround, Nat.mod_eq_of_lt (by omega)]
      refine ⟨hext.base, hext.guest, ?_, fun x hx => ?_, fun x hx hx' => ?_⟩
      · show _ ≤ (mmu.hostAlloc + _).toNat
        omega
      · have hout : ¬Mem.InRange mmu.hostAlloc (roundUp size os.pageSize).toNat x :=
          fun hin => Nat.not_lt.mpr hin.1 hx
        exact ⟨if_neg hout, if_neg hout, if_neg hout⟩
      · change x.toNat < (mmu.hostAlloc + _).toNat at hx'
        exact if_pos ⟨hx, by omega⟩
  | shrinks hneg hend hlen hunmap => omega
  | stays hgrow hshrink =>
      exact ⟨hext.base, hext.guest, Nat.le_refl _, fun x _ => .rfl,
        fun x hx hx' => absurd hx' (Nat.not_lt.mpr hx)⟩

/-- It succeeds. -/
theorem BackedRoom.alloc_ok (hc : MmapContract os top) (hanon : GrantsAnon os top) {size : Word}
    {n : Nat} (hok : BackedRoom os top w mmu (pageCeil os size.toNat + n)) (hpos : 0 < size.toNat)
    (hlow : guestMemoryOffset.toNat ≤ (toHost mmu.base).toNat)
    (hfits : mmu.hostAlloc.toNat + (pageCeil os size.toNat + n) ≤ top) :
    ∃ w' mmu', mmuAlloc os w mmu size = .ok (mmu.guestAlloc, w', mmu') ∧
      BackedRoom os top w' mmu' n ∧ Grown w mmu size.toNat w' mmu' ∧
      mmu'.hostAlloc.toNat + n ≤ top := by
  cases halloc : mmuAlloc os w mmu size with
  | error e => exact absurd halloc (hok.alloc_total hc hanon hpos hlow hfits e)
  | ok r =>
      obtain ⟨b, w', mmu'⟩ := r
      obtain ⟨rfl, -, -, -⟩ := mmuAlloc_inv halloc
      have htop := hc.top_le
      have hself : size.toNat ≤ pageCeil os size.toNat := Align.le_ceil _ _
      obtain ⟨hgrown, hend⟩ := hok.grown hc hpos hfits halloc
      refine ⟨w', mmu', rfl, ⟨hok.alloc hc (by omega) halloc, fun x hx hx' => ?_⟩, hgrown, by omega⟩
      rcases Nat.lt_or_ge x.toNat mmu.hostAlloc.toNat with hlt | hge
      · rw [hgrown.base] at hx
        rw [(hgrown.same x hlt).unbacked]
        exact hok.backed x hx hlt
      · exact hgrown.backed x hge hx'

/-! ### The arguments -/

/-- What the setup has done after some arguments. -/
structure ArgsPushed (w : World) (mmu : Mmu) (sp : Word) (n : Nat) (w' : World) (mmu' : Mmu)
    (sp' : Word) : Prop where
  base : mmu'.base = mmu.base
  le : mmu.hostAlloc.toNat ≤ mmu'.hostAlloc.toNat
  sp : (toHost sp').toNat + 8 * n = (toHost sp).toNat
  below : ∀ x : Word, x.toNat < (toHost mmu.base).toNat → Mem.SameAt x w.mem w'.mem

theorem ArgsPushed.trans {w₁ : World} {mmu₁ : Mmu} {sp sp₁ sp' : Word} {k n : Nat}
    (h : ArgsPushed w mmu sp k w₁ mmu₁ sp₁) (h' : ArgsPushed w₁ mmu₁ sp₁ n w' mmu' sp') :
    ArgsPushed w mmu sp (k + n) w' mmu' sp' := by
  have hsp := h.sp
  have hsp' := h'.sp
  exact ⟨h'.base.trans h.base, Nat.le_trans h.le h'.le, by omega,
    fun x hx => (h.below x hx).trans (h'.below x (by rwa [h.base]))⟩

/-- A word further down on the stack. -/
theorem toHost_push (sp : Word) (h : 8 ≤ (toHost sp).toNat) :
    (toHost (sp - 8)).toNat = (toHost sp).toNat - 8 := by
  rw [toHost_sub, BitVec.toNat_sub_of_le]
  · rfl
  · exact BitVec.le_def.mpr h

/-- One more argument: the string goes between the old break and the new one, and its address
below the others. -/
theorem pushArg_ok (hc : MmapContract os top) (hanon : GrantsAnon os top) {arg : List (BitVec 8)}
    {rest : List (List (BitVec 8))} {w₀ : World} {mmu₀ : Mmu} {sp₀ sp : Word} {n : Nat}
    (hrest : pushArgs os rest w₀ mmu₀ sp₀ = .ok (w, mmu, sp))
    (hok : BackedRoom os top w mmu (pageCeil os (arg.length + 1) + n))
    (hlow : guestMemoryOffset.toNat ≤ (toHost mmu.base).toNat)
    (hfits : mmu.hostAlloc.toNat + (pageCeil os (arg.length + 1) + n) ≤ top)
    (hstack : (toHost mmu.base).toNat + 8 ≤ (toHost sp).toNat)
    (hsp : (toHost sp).toNat ≤ mmu.hostAlloc.toNat) :
    ∃ w' mmu', pushArgs os (arg :: rest) w₀ mmu₀ sp₀ = .ok (w', mmu', sp - 8) ∧
      BackedRoom os top w' mmu' n ∧ ArgsPushed w mmu sp 1 w' mmu' (sp - 8) ∧
      mmu'.hostAlloc.toNat + n ≤ top := by
  have htop := hc.top_le
  have hself : arg.length + 1 ≤ pageCeil os (arg.length + 1) := Align.le_ceil _ _
  have hsize := argSize_eq arg (by omega)
  have hpush := toHost_push sp (by omega)
  have hbreak := toHost_break hc hok.heap
  have hinside := hok.heap.inside
  rw [← hsize] at hok hfits
  obtain ⟨w₁, mmu₁, halloc, hok₁, hgrown, hfits₁⟩ := hok.alloc_ok hc hanon (by omega) hlow hfits
  rw [hsize] at hgrown
  have hbase : toHost mmu₁.base = toHost mmu.base := by rw [hgrown.base]
  have hguest := hgrown.guest
  have hle := hgrown.le
  have hbreak₁ := toHost_break hc hok₁.heap
  have hinside₁ := hok₁.heap.inside
  obtain ⟨w₂, hwrite, hok₂, hsame₂⟩ := hok₁.write_ok hc mmu.guestAlloc arg
    (by rw [hbase]; omega) (by omega)
  obtain ⟨w₃, hpushed, hok₃, hsame₃⟩ := hok₂.write_ok hc (sp - 8)
    (pushArgs.wordBytes mmu.guestAlloc) (by rw [hbase]; omega) (by rw [wordBytes_length]; omega)
  rw [hbase] at hsame₂ hsame₃
  refine ⟨w₃, mmu₁, ?_, hok₃, ⟨hgrown.base, hle, by omega, fun x hx => ?_⟩, hfits₁⟩
  · simp only [pushArgs]
    rw [hrest, ok_bind, halloc, ok_bind, hwrite, ok_bind, hpushed, ok_bind]
  · exact (hgrown.same x (by omega)).trans ((hsame₂ x hx).trans (hsame₃ x hx))

/-- Copying the arguments and pushing their addresses succeeds. -/
theorem pushArgs_ok (hc : MmapContract os top) (hanon : GrantsAnon os top)
    {args : List (List (BitVec 8))} (sp : Word) {n : Nat}
    (hok : BackedRoom os top w mmu (argRoom os args + n))
    (hlow : guestMemoryOffset.toNat ≤ (toHost mmu.base).toNat)
    (hfits : mmu.hostAlloc.toNat + (argRoom os args + n) ≤ top)
    (hstack : (toHost mmu.base).toNat + 8 * args.length ≤ (toHost sp).toNat)
    (hsp : (toHost sp).toNat ≤ mmu.hostAlloc.toNat) :
    ∃ w' mmu' sp', pushArgs os args w mmu sp = .ok (w', mmu', sp') ∧
      BackedRoom os top w' mmu' n ∧ ArgsPushed w mmu sp args.length w' mmu' sp' ∧
      mmu'.hostAlloc.toNat + n ≤ top := by
  induction args generalizing n with
  | nil =>
      rw [argRoom, Nat.zero_add] at hok hfits
      exact ⟨w, mmu, sp, rfl, hok, ⟨rfl, Nat.le_refl _, by simp, fun _ _ => .rfl⟩, hfits⟩
  | cons arg rest ih =>
      rw [argRoom, Nat.add_comm (pageCeil os _), Nat.add_assoc] at hok hfits
      rw [List.length_cons] at hstack
      obtain ⟨w₁, mmu₁, sp₁, hrest, hok₁, hpushed, hfits₁⟩ := ih hok hfits (by omega)
      have hbase₁ : toHost mmu₁.base = toHost mmu.base := by rw [hpushed.base]
      have hsp₁ := hpushed.sp
      have hle₁ := hpushed.le
      obtain ⟨w₂, mmu₂, hpush, hok₂, hone, hfits₂⟩ := pushArg_ok hc hanon hrest hok₁
        (by rw [hbase₁]; exact hlow) hfits₁ (by rw [hbase₁]; omega) (by omega)
      exact ⟨w₂, mmu₂, sp₁ - 8, hpush, hok₂, hpushed.trans hone, hfits₂⟩

/-! ### The setup -/

/-- Where the arguments are pushed: three words below the top of the stack. -/
theorem toHost_stackTop (ga : Word) (h : (toHost ga).toNat + stackSize.toNat < 2 ^ 64) :
    (toHost (ga + stackSize - 8 - 8 - 8)).toNat = (toHost ga).toNat + 2 ^ 25 - 24 := by
  have hsize : stackSize.toNat = 2 ^ 25 := by decide
  have hsum : toHost (ga + stackSize - 8 - 8 - 8) = toHost ga + (stackSize - 24) := by
    unfold toHost
    grind
  rw [hsum, BitVec.toNat_add, show (stackSize - 24).toNat = 2 ^ 25 - 24 by decide,
    Nat.mod_eq_of_lt (by omega)]
  omega

/-- **The setup succeeds** behind an image with room for it, and leaves the image alone. -/
theorem machineSetup_succeeds (hc : MmapContract os top) (hanon : GrantsAnon os top)
    {argv : List (List (BitVec 8))} (pad : BitVec 32) {m : Machine}
    (hloaded : Loaded os top m.mmu)
    (hok : Room os top m.state.world m.mmu (setupRoom os argv.tail))
    (hlow : guestMemoryOffset.toNat ≤ m.mmu.hostAlloc.toNat)
    (hfits : m.mmu.hostAlloc.toNat + setupRoom os argv.tail ≤ top)
    (hargs : 8 * (argv.length + 3) ≤ stackSize.toNat) :
    ∃ m', machineSetup os argv pad m = .ok m' ∧ m'.state.pc = m.state.pc ∧
      ∀ x : Word, x.toNat < m.mmu.hostAlloc.toNat →
        Mem.SameAt x m.state.world.mem m'.state.world.mem := by
  have htop := hc.top_le
  have hsize : stackSize.toNat = 2 ^ 25 := by decide
  have hbase : toHost m.mmu.base = m.mmu.hostAlloc := by
    rw [hloaded.base]
    exact toHost_toGuest _
  have hguest : toHost m.mmu.guestAlloc = m.mmu.hostAlloc := by
    rw [hloaded.guest]
    exact toHost_toGuest _
  have htail : argv.tail.length = argv.length - 1 := List.length_tail
  -- the heap is empty
  have hbacked : BackedRoom os top m.state.world m.mmu (setupRoom os argv.tail) :=
    ⟨hok, fun x hx hx' => by rw [hbase] at hx; omega⟩
  obtain ⟨w₁, mmu₁, halloc, hok₁, hgrown, hfits₁⟩ :=
    hbacked.alloc_ok hc hanon (show 0 < stackSize.toNat by decide) (by rw [hbase]; exact hlow) hfits
  have hend := hgrown.guest
  have hbase₁ : toHost mmu₁.base = m.mmu.hostAlloc := by rw [hgrown.base, hbase]
  have hinside₁ := hok₁.heap.inside
  have hbreak₁ := toHost_break hc hok₁.heap
  rw [hguest] at hend
  rw [hbase₁] at hinside₁ hbreak₁
  have hsp := toHost_stackTop m.mmu.guestAlloc (by rw [hguest]; omega)
  rw [hguest] at hsp
  obtain ⟨w₂, mmu₂, sp, hpush, hok₂, hpushed, -⟩ :=
    pushArgs_ok (n := 0) hc hanon (m.mmu.guestAlloc + stackSize - 8 - 8 - 8) hok₁
      (by rw [hbase₁]; exact hlow) hfits₁ (by rw [hbase₁]; omega) (by omega)
  have hbase₂ : toHost mmu₂.base = m.mmu.hostAlloc := by rw [hpushed.base, hbase₁]
  have hsp₂ := hpushed.sp
  have hle₂ := hpushed.le
  have hargc := toHost_push sp (by omega)
  obtain ⟨w₃, hwrite, -, hsame₃⟩ := hok₂.write_ok hc (sp - 8)
    (pushArgs.wordBytes (pad ++ BitVec.ofNat 32 argv.length))
    (by rw [hbase₂]; omega) (by rw [wordBytes_length]; omega)
  refine ⟨{ m with state := { m.state with world := w₃ }.setGp Reg.sp (sp - 8), mmu := mmu₂ }, ?_,
    rfl, fun x hx => ?_⟩
  · unfold machineSetup
    rw [halloc, ok_bind]
    dsimp only
    rw [hpush, ok_bind]
    dsimp only
    rw [hwrite]
    rfl
  · have hsame₁ := hgrown.same x hx
    have hsame₂ := hpushed.below x (by rw [hbase₁]; exact hx)
    exact hsame₁.trans (hsame₂.trans (hsame₃ x (by rw [hbase₂]; exact hx)))

/-- Where the pages of a segment end, on the host's side. -/
def segEnd (os : Os) (s : Seg) : Nat :=
  (roundDown (toHost s.vaddr) os.pageSize).toNat +
    pageCeil os (s.lead os.pageShift + s.memsz.toNat)

/-- A machine that is about to run a program: it is at the entry, its registers are empty but for
the stack pointer, and guest memory holds the segments. -/
structure Started (os : Os) (prog : Program os.pageShift) (m : Machine) : Prop where
  pc : m.state.pc = prog.entry
  gp : ∀ r, r ≠ Reg.sp → m.state.gp r = 0
  prot : ∀ s ∈ prog.segs, ∀ g, s.OnPage os g →
    m.state.world.mem.prot (toHost g) = some (flagsToMmapProt s.flags)
  backed : ∀ s ∈ prog.segs, ∀ g, s.OnPage os g → m.state.world.mem.unbacked (toHost g) = false
  byte : ∀ s ∈ prog.segs, ∀ g, s.OnPage os g →
    m.state.world.mem.byte (toHost g) = s.data.getD (g - s.vaddr).toNat 0

/-- It is where the loader finds the end of the segment. -/
theorem segEnd_eq (hc : MmapContract os top) {prog : Program os.pageShift}
    (hprog : ProgramFits os top prog) {s : Seg} (hs : s ∈ prog.segs) {p : Elf64Phdr} {q : Nat}
    (h : Placed os.pageShift prog.file s p q) :
    (hostEnd os p).toNat = segEnd os s ∧
      (pageBase os p).toNat + pageCeil os (pageOffset os p + p.memsz.toNat) = segEnd os s := by
  have htop := hc.top_le
  obtain ⟨hplaceable, hfit⟩ := hprog.placeable hc hs h
  have hparts := hplaceable.parts htop hfit
  have hend := hparts.fileEnd
  have hbss := hparts.bss
  have hle := hparts.le
  have hsum : (pageBase os p).toNat + pageCeil os (pageOffset os p + p.memsz.toNat) =
      segEnd os s := by
    rw [h.phdr]
    rfl
  unfold Fits at hfit
  refine ⟨?_, hsum⟩
  rw [hostEnd_eq, segmentEnd_eq, BitVec.toNat_add, Nat.mod_eq_of_lt (by omega)]
  omega

/-- A segment in the lower half of the guest's addresses does not come round to the start of host
memory. -/
theorem segEnd_above {s : Seg} (hlow : s.vaddr.toNat < 2 ^ 63) :
    guestMemoryOffset.toNat ≤ segEnd os s := by
  have hoff : guestMemoryOffset.toNat < 2 ^ 44 := by decide
  have hv := toHost_vaddr os (s.phdr os.pageShift 0)
  have hself := Align.le_ceil os.pageShift (s.lead os.pageShift + s.memsz.toNat)
  have hsum : (toHost s.vaddr).toNat = s.vaddr.toNat + guestMemoryOffset.toNat := by
    unfold toHost
    rw [BitVec.toNat_add, Nat.mod_eq_of_lt (by omega)]
  change (toHost s.vaddr).toNat =
    (roundDown (toHost s.vaddr) os.pageSize).toNat + s.lead os.pageShift at hv
  unfold segEnd pageCeil
  omega

/-- The machine that has loaded a program. -/
structure ProgramLoaded (os : Os) (prog : Program os.pageShift) (w : World) (m : Machine) :
    Prop where
  pc : m.state.pc = prog.entry
  place : ProgramInPlace os prog.segs w m.state.world
  upper : ∀ s ∈ prog.segs, segEnd os s ≤ m.mmu.hostAlloc.toNat
  attained : ∃ s ∈ prog.segs, m.mmu.hostAlloc.toNat = segEnd os s

theorem machineLoadProgram_link (hc : MmapContract os top) (hgrants : GrantsBelow os top)
    {prog : Program os.pageShift} (hprog : ProgramFits os top prog) {phdr : List (BitVec 8)}
    (hphdr : phdr.length = sizeofElf64Phdr) (w : World) :
    ∃ m, machineLoadProgram os (.ok prog.file) phdr (initialMachine w) = .ok m ∧
      ProgramLoaded os prog w m := by
  obtain ⟨w₁, mmu₁, helf, hentry⟩ := hprog.loads hc hgrants hphdr w
  have hplace := hprog.inPlace hc (mmuLoadElf_run (hprog.fileOk hc) hphdr helf)
  have himage := mmuLoadElf_image hc (hprog.fileOk hc) hphdr helf
  have hmatch := file_segments prog
  have helf' : mmuLoadElf os phdr (initialMachine w).state.world (initialMachine w).mmu prog.file =
    .ok (w₁, mmu₁) := helf
  refine ⟨{ initialMachine w with
    state := { (initialMachine w).state with world := w₁, pc := mmu₁.entry }, mmu := mmu₁ }, ?_,
    hentry, hplace, fun s hs => ?_, ?_⟩
  · unfold machineLoadProgram
    dsimp only
    rw [helf']
    rfl
  · obtain ⟨p, hp, q, hplaced⟩ := forall₂_left hmatch s hs
    rw [← (segEnd_eq hc hprog hs hplaced).1]
    exact himage.upper p hp
  · obtain ⟨p, hp, hlast⟩ := himage.attained
    obtain ⟨s, hs, q, hplaced⟩ := forall₂_left hmatch.flip p hp
    refine ⟨s, hs, ?_⟩
    rw [← (segEnd_eq hc hprog hs hplaced).1]
    exact congrArg BitVec.toNat hlast

/-- The pages of a segment are below its end. -/
theorem onPage_below (hc : MmapContract os top) {prog : Program os.pageShift}
    (hprog : ProgramFits os top prog) {s : Seg} (hs : s ∈ prog.segs) {g : Word}
    (hg : s.OnPage os g) : (toHost g).toNat < segEnd os s := by
  obtain ⟨p, hp, q, hplaced⟩ := forall₂_left (file_segments prog) s hs
  obtain ⟨hplaceable, hfit⟩ := hprog.placeable hc hs hplaced
  have hpos := hplaceable.pos
  have hle := hplaceable.le
  have hpage : OnPage os p g := by
    rw [hplaced.phdr]
    exact hg
  have hin := (onPage_iff hc (by omega) hfit g).mp hpage
  rw [← (segEnd_eq hc hprog hs hplaced).2]
  exact hin.2

/-- Behind the image there is the room that is behind the last segment. -/
theorem machineLoadProgram_room (hc : MmapContract os top) {prog : Program os.pageShift}
    {phdr : List (BitVec 8)} {m : Machine}
    (hload : machineLoadProgram os (.ok prog.file) phdr (initialMachine w) = .ok m)
    (huser : UserSpace top w.mem.prot) (hloaded : Loaded os top m.mmu) {n e : Nat}
    (hend : m.mmu.hostAlloc.toNat = e)
    (hfree : ∀ x : Word, e ≤ x.toNat → x.toNat < e + n → w.mem.prot x = none) :
    Room os top m.state.world m.mmu n := by
  refine hloaded.room (machineLoadProgram_userSpace hc huser hload) ?_
  rw [hloaded.guest, toHost_toGuest]
  intro x hx
  obtain ⟨hlo, hhi⟩ := hx
  rw [machineLoadProgram_behind hc hload hlo]
  exact hfree x (by omega) (by omega)

/-- **A program that fits starts.**  If the host maps what is free, the segments start in the lower
half of the guest's addresses, and behind each there is room for the stack and the arguments, then
the emulator loads the program from its file, sets it up, and comes to its first instruction, with
the segments of the program in memory. -/
theorem boot_program (hc : MmapContract os top) (hgrants : GrantsBelow os top)
    (hanon : GrantsAnon os top) {prog : Program os.pageShift} (hprog : ProgramFits os top prog)
    {phdr : List (BitVec 8)} (hphdr : phdr.length = sizeofElf64Phdr)
    {argv : List (List (BitVec 8))} (hargc : 1 < argv.length)
    (hargs : 8 * (argv.length + 3) ≤ stackSize.toNat) (pad : BitVec 32)
    (huser : UserSpace top w.mem.prot)
    (hlow : ∀ s ∈ prog.segs, s.vaddr.toNat < 2 ^ 63)
    (hroom : ∀ s ∈ prog.segs, segEnd os s + setupRoom os argv.tail ≤ top ∧
      ∀ x : Word, segEnd os s ≤ x.toNat → x.toNat < segEnd os s + setupRoom os argv.tail →
        w.mem.prot x = none) :
    ∃ m, boot os (.ok prog.file) phdr pad argv w = .ok m ∧ Started os prog m := by
  obtain ⟨m₁, hload, hprogram⟩ := machineLoadProgram_link hc hgrants hprog hphdr w
  obtain ⟨s, hs, hend⟩ := hprogram.attained
  obtain ⟨hfits, hfree⟩ := hroom s hs
  have habove : guestMemoryOffset.toNat ≤ m₁.mmu.hostAlloc.toNat := by
    rw [hend]
    exact segEnd_above (hlow s hs)
  have hloaded : Loaded os top m₁.mmu := by
    rcases machineLoadProgram_loaded hc hload with ⟨entry, hstart⟩ | hloaded
    · have hoff : 0 < guestMemoryOffset.toNat := by decide
      rw [hstart] at habove
      exact absurd habove (Nat.not_le.mpr hoff)
    · exact hloaded
  have hok := machineLoadProgram_room hc hload huser hloaded hend hfree
  obtain ⟨m, hsetup, hpc, hsame⟩ := machineSetup_succeeds hc hanon pad hloaded hok habove
    (by rw [hend]; exact hfits) hargs
  have hboot : boot os (.ok prog.file) phdr pad argv w = .ok m := by
    unfold boot
    rw [show assertThat (1 < argv.length) "argc > 1" = .ok () from
      (assertThat_iff _ _).mpr (by simpa using hargc), ok_bind, hload]
    exact hsetup
  have hkept (s : Seg) (hs : s ∈ prog.segs) (g : Word) (hg : s.OnPage os g) :
      Mem.SameAt (toHost g) m₁.state.world.mem m.state.world.mem :=
    hsame _ (Nat.lt_of_lt_of_le (onPage_below hc hprog hs hg) (hprogram.upper s hs))
  refine ⟨m, hboot, hpc.trans hprogram.pc, fun r hr => boot_gp hboot hr, fun s hs g hg => ?_,
    fun s hs g hg => ?_, fun s hs g hg => ?_⟩
  · rw [(hkept s hs g hg).prot]
    exact hprogram.place.prot s hs g hg
  · rw [(hkept s hs g hg).unbacked]
    exact hprogram.place.backed s hs g hg
  · rw [(hkept s hs g hg).byte]
    exact hprogram.place.byte s hs g hg

end

/-! ### The sample starts -/

theorem pagingOs_grantsAnon : GrantsAnon pagingOs userTop := by
  intro clock mem hint len hpage hpos hfree hfits
  exact ⟨hint, pagingOs_anon.mpr ⟨(if_pos hfree).symm, hfree, hfits⟩⟩

theorem boot_program_sample :
    ∃ m, boot pagingOs (.ok codeAndData.file) (List.replicate 56 0) 0 sampleArgv default = .ok m ∧
      Started pagingOs codeAndData m := by
  refine boot_program pagingOs_contract pagingOs_grants pagingOs_grantsAnon codeAndData_fits rfl
    (by decide) (by decide) 0 nofun ?_ ?_
  · refine List.forall_mem_cons.mpr ⟨?_, List.forall_mem_singleton.mpr ?_⟩ <;> decide
  · refine List.forall_mem_cons.mpr ⟨⟨?_, fun _ _ _ => rfl⟩,
      List.forall_mem_singleton.mpr ⟨?_, fun _ _ _ => rfl⟩⟩ <;> decide

end Rvemu
