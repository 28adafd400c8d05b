/-
The stack a program starts on.

`machine_setup` builds it downwards: three words of zeros, the addresses of the
argument strings, the last first, and their number.  The strings are allocated
behind the stack, so nothing written later reaches a word that is already there.

The number is wrong.  The emulator's own name is not among the arguments but is
counted, and the eight bytes of the word are copied from the four of an `int`.  So
no program finds the number of its arguments at its stack pointer; the words above
are what it expects.
-/
import Rvemu.Lib.Layout
import Rvemu.Proofs.Boot

namespace Rvemu

open Memory

/-- A word of guest memory. -/
def wordAt (mem : Mem 64) (a : Word) : Word := mem.get (toHost a) 8

/-- The stack at the start of a process: the number of arguments, their addresses, and three
words of zeros, for the ends of `argv` and of `envp` and for `auxv`. -/
structure ProcessStack (mem : Mem 64) (sp argc : Word) (args : List Word) : Prop where
  argc : wordAt mem sp = argc
  argv : ∀ (j : Nat) (hj : j < args.length), wordAt mem (sp + BitVec.ofNat 64 (8 * (j + 1))) = args[j]
  argvEnd : wordAt mem (sp + BitVec.ofNat 64 (8 * (args.length + 1))) = 0
  envp : wordAt mem (sp + BitVec.ofNat 64 (8 * (args.length + 2))) = 0
  auxv : wordAt mem (sp + BitVec.ofNat 64 (8 * (args.length + 3))) = 0

/-- The addresses the strings are given, from a break on, and the break behind them: the last
string is allocated first. -/
def argAddrs : List (List (BitVec 8)) → Word → List Word × Word
  | [], brk => ([], brk)
  | arg :: rest, brk =>
      let (addrs, brk) := argAddrs rest brk
      (brk :: addrs, brk + (BitVec.ofNat 64 arg.length + 1))

section

variable {os : Os} {top : Nat}

/-! ### What a write leaves -/

theorem mmuWrite_eq {w w' : World} {a : Word} {bs : List (BitVec 8)}
    (h : mmuWrite w a bs = .ok w') : w' = w.withMem (w.mem.putList (toHost a) bs) := by
  unfold mmuWrite Mem.storeList at h
  cases hbad : Mem.firstBad w.mem.writable bs.length (toHost a) with
  | none =>
      rw [hbad] at h
      cases h
      rfl
  | some bad =>
      rw [hbad] at h
      cases h

theorem wordBytes_length (x : Word) : (pushArgs.wordBytes x).length = 8 := by
  simp [pushArgs.wordBytes]

/-- A word that is written is there. -/
theorem wordAt_mmuWrite {w w' : World} {a x : Word}
    (h : mmuWrite w a (pushArgs.wordBytes x) = .ok w') : wordAt w'.mem a = x := by
  rw [mmuWrite_eq h]
  exact (Mem.hasBytes_bytesOf _ _ 8 x).mp
    (Mem.putList_hasBytes _ _ (by rw [wordBytes_length]; decide))

/-! ### The number of arguments -/

/-- The word at the stack pointer holds the four bytes of `argc` and the four behind them. -/
theorem machineSetup_argc {argv : List (List (BitVec 8))} {pad : BitVec 32} {m m' : Machine}
    (h : machineSetup os argv pad m = .ok m') :
    wordAt m'.state.world.mem (m'.state.gp Reg.sp) = pad ++ BitVec.ofNat 32 argv.length := by
  obtain ⟨_, _, _, _, sp, -, -, hwrite, hsp⟩ := machineSetup_inv h
  rw [hsp]
  exact wordAt_mmuWrite hwrite

/-- It is never one less. -/
theorem argc_ne (pad : BitVec 32) {n : Nat} (hn : 0 < n) :
    pad ++ BitVec.ofNat 32 n ≠ BitVec.ofNat 64 (n - 1) := by
  intro h
  have hlow := congrArg (BitVec.setWidth 32) h
  rw [BitVec.setWidth_append_eq_right] at hlow
  have hnat := congrArg BitVec.toNat hlow
  simp only [BitVec.toNat_setWidth, BitVec.toNat_ofNat] at hnat
  omega

/-! ### The words above -/

/-- Where the break is, on the host's side. -/
theorem toHost_break (hc : MmapContract os top) {prot : Word → Option Prot} {mmu : Mmu}
    (hok : HeapOk os top prot mmu) :
    (toHost mmu.guestAlloc).toNat =
      (toHost mmu.base).toNat + (mmu.guestAlloc.toNat - mmu.base.toNat) :=
  hok.toHost_toNat hc hok.above (Nat.le_refl _)

/-- An allocation that fits into the room raises the break, adds zeros at the end of what is
mapped, and changes no byte before it. -/
structure Extended (w : World) (mmu : Mmu) (size : Word) (w' : World) (mmu' : Mmu) : Prop where
  base : mmu'.base = mmu.base
  guest : (toHost mmu'.guestAlloc).toNat = (toHost mmu.guestAlloc).toNat + size.toNat
  same : ∀ x : Word, x.toNat < mmu.hostAlloc.toNat → w'.mem.byte x = w.mem.byte x
  zero : ∀ x : Word, mmu.hostAlloc.toNat ≤ x.toNat → x.toNat < mmu'.hostAlloc.toNat →
    w'.mem.byte x = 0

theorem Room.extended (hc : MmapContract os top) {w w' : World} {mmu mmu' : Mmu} {size b : Word}
    {n : Nat} (hok : Room os top w mmu (pageCeil os size.toNat + n)) (hsize : size.toNat < 2 ^ 63)
    (h : mmuAlloc os w mmu size = .ok (b, w', mmu')) : Extended w mmu size w' mmu' := by
  have hok' := hok.alloc hc hsize h
  obtain ⟨-, -, hle, hkind⟩ := mmuAlloc_inv h
  obtain ⟨hbase, hguest⟩ := hkind.moves
  have hround : (roundUp size os.pageSize).toNat = pageCeil os size.toNat :=
    roundUp_toNat (Nat.le_of_lt hsize)
  have hrises : mmu'.guestAlloc.toNat = mmu.guestAlloc.toNat + size.toNat := by
    have hsub : mmu.guestAlloc + size - mmu.guestAlloc = size := add_sub_cancel_left _ _
    rw [hguest]
    rcases Nat.eq_zero_or_pos size.toNat with hz | hpos
    · rw [BitVec.toNat_add, hz]
      omega
    · have hraise := hok.heap.raised hc hle (by rw [hsub]; exact hpos) (by rw [hsub]; exact hsize)
      rwa [hsub] at hraise
  have hbreak := toHost_break hc hok.heap
  have hbreak' := toHost_break hc hok'.heap
  have habove := hok.heap.above
  rw [hbase] at hbreak'
  refine ⟨hbase, by omega, fun x hx => ?_, fun x hlo hhi => ?_⟩
  · cases hkind with
    | grows hpos hend hmap =>
        rw [hok.placed hc (by omega) hmap]
        exact if_neg fun hin => by have := hin.1; omega
    | shrinks hneg hend hlen hunmap => omega
    | stays hgrow hshrink => rfl
  · cases hkind with
    | grows hpos hend hmap =>
        rw [hok.placed hc (by omega) hmap]
        change x.toNat < (mmu.hostAlloc + roundUp size os.pageSize).toNat at hhi
        rw [BitVec.toNat_add] at hhi
        exact if_pos ⟨hlo, by omega⟩
    | shrinks hneg hend hlen hunmap => omega
    | stays hgrow hshrink => exact absurd hhi (Nat.not_lt.mpr hlo)

/-- The stack while it is built: its end on the host's side is `bound`, and `words` have been
pushed below the three words of zeros. -/
structure Pushed (w : World) (mmu : Mmu) (sp : Word) (bound : Nat) (words : List Word) : Prop where
  room : (toHost sp).toNat + 8 * (words.length + 3) = bound
  words : ∀ (j : Nat) (hj : j < words.length),
    wordAt w.mem (sp + BitVec.ofNat 64 (8 * j)) = words[j]
  zeros : ∀ x : Word, bound - 24 ≤ x.toNat → x.toNat < bound → w.mem.byte x = 0
  behind : bound ≤ (toHost mmu.guestAlloc).toNat

section Pushed

variable {w w' : World} {mmu mmu' : Mmu} {sp x : Word} {bound : Nat} {words : List Word}

/-- The bytes of the words on the stack, below its end. -/
theorem Pushed.byte_toNat (hp : Pushed w mmu sp bound words) (hbound : bound ≤ top)
    (hc : MmapContract os top) {j i : Nat} (hj : j < words.length + 3) (hi : i < 8) :
    (toHost (sp + BitVec.ofNat 64 (8 * j)) + BitVec.ofNat 64 i).toNat =
      (toHost sp).toNat + 8 * j + i := by
  have hroom := hp.room
  have htop := hc.top_le
  rw [toHost_add, BitVec.toNat_add, BitVec.toNat_add, BitVec.toNat_ofNat, BitVec.toNat_ofNat]
  omega

/-- What changes no byte of the stack keeps what was pushed. -/
theorem Pushed.keep (hp : Pushed w mmu sp bound words) (hc : MmapContract os top)
    (hbound : bound ≤ top)
    (hsame : ∀ y : Word, (toHost sp).toNat ≤ y.toNat → y.toNat < bound →
      w'.mem.byte y = w.mem.byte y)
    (hbehind : bound ≤ (toHost mmu'.guestAlloc).toNat) : Pushed w' mmu' sp bound words where
  room := hp.room
  words j hj := by
    rw [← hp.words j hj]
    refine Mem.get_congr fun i hi => ?_
    have hroom := hp.room
    have hbyte := hp.byte_toNat hbound hc (j := j) (by omega) hi
    exact hsame _ (by omega) (by omega)
  zeros y hlo hhi := by
    have hroom := hp.room
    rw [hsame y (by omega) hhi]
    exact hp.zeros y hlo hhi
  behind := hbehind

/-- One word more. -/
theorem Pushed.push (hp : Pushed w mmu sp bound words) (hc : MmapContract os top)
    (hbound : bound ≤ top) (huser : UserSpace top w.mem.prot)
    (h : mmuWrite w (sp - 8) (pushArgs.wordBytes x) = .ok w') :
    Pushed w' mmu (sp - 8) bound (x :: words) := by
  have htop := hc.top_le
  have hroom := hp.room
  -- the word was written below the end of user space, so the stack did not run past zero
  have hsub : (toHost (sp - 8)).toNat = (toHost sp).toNat - 8 ∧ 8 ≤ (toHost sp).toNat := by
    have hlt := huser.lt (mmuWrite_writable h (i := 0) (by rw [wordBytes_length]; decide))
    rw [BitVec.add_zero] at hlt
    have hval := BitVec.toNat_sub (toHost sp) 8
    rw [toHost_sub] at hlt ⊢
    have h8 : (8 : Word).toNat = 8 := rfl
    omega
  have hsame (y : Word) (hlo : (toHost sp).toNat ≤ y.toNat) (hhi : y.toNat < bound) :
      w'.mem.byte y = w.mem.byte y := by
    rw [mmuWrite_eq h]
    refine Mem.putList_outside w.mem ?_ (.inr ?_) <;> rw [wordBytes_length] <;> omega
  have hkept := hp.keep hc hbound hsame hp.behind
  refine ⟨by rw [List.length_cons]; omega, fun j hj => ?_, hkept.zeros, hp.behind⟩
  cases j with
  | zero =>
      rw [Nat.mul_zero, BitVec.add_zero]
      exact wordAt_mmuWrite h
  | succ j =>
      have haddr : sp - 8 + BitVec.ofNat 64 (8 * (j + 1)) = sp + BitVec.ofNat 64 (8 * j) := by
        rw [Nat.mul_succ, BitVec.ofNat_add]
        grind
      rw [haddr]
      exact hkept.words j (Nat.lt_of_succ_lt_succ hj)

/-- An allocation leaves the stack alone. -/
theorem Pushed.alloc (hp : Pushed w mmu sp bound words) (hc : MmapContract os top)
    (hbound : bound ≤ top) (hok : HeapOk os top w.mem.prot mmu) {size : Word}
    (h : Extended w mmu size w' mmu') : Pushed w' mmu' sp bound words := by
  have hbehind := hp.behind
  have hinside := hok.inside
  have hbreak := toHost_break hc hok
  have hguest := h.guest
  exact hp.keep hc hbound (fun y _ hhi => h.same y (by omega)) (by omega)

/-- So does what is written behind it. -/
theorem Pushed.write (hp : Pushed w mmu sp bound words) (hc : MmapContract os top)
    (hbound : bound ≤ top) (huser : UserSpace top w.mem.prot) {a : Word}
    (ha : bound ≤ (toHost a).toNat) {bs : List (BitVec 8)} (h : mmuWrite w a bs = .ok w') :
    Pushed w' mmu sp bound words := by
  have htop := hc.top_le
  have hfits : (toHost a).toNat + bs.length ≤ 2 ^ 64 := by
    rcases Nat.eq_zero_or_pos bs.length with hz | hpos
    · omega
    · have hlen := mmuWrite_length (by omega) huser h
      have hlt := huser.lt (mmuWrite_writable h hpos)
      rw [BitVec.add_zero] at hlt
      omega
  refine hp.keep hc hbound (fun y hlo hhi => ?_) hp.behind
  rw [mmuWrite_eq h]
  exact Mem.putList_outside w.mem hfits (.inl (by omega))

end Pushed

/-- Pushing the arguments: each has the address it was given. -/
theorem Pushed.pushArgs (hc : MmapContract os top) {args : List (List (BitVec 8))} {w w' : World}
    {mmu mmu' : Mmu} {sp sp' : Word} {bound n : Nat} (hbound : bound ≤ top)
    (hok : Room os top w mmu (argRoom os args + n)) (hp : Pushed w mmu sp bound [])
    (h : pushArgs os args w mmu sp = .ok (w', mmu', sp')) :
    Pushed w' mmu' sp' bound (argAddrs args mmu.guestAlloc).1 ∧
      mmu'.guestAlloc = (argAddrs args mmu.guestAlloc).2 := by
  induction args generalizing w' mmu' sp' n with
  | nil =>
      cases h
      exact ⟨hp, rfl⟩
  | cons arg rest ih =>
      obtain ⟨w₁, mmu₁, sp₁, w₂, w₃, hrest, halloc, hwrite, hpush, rfl⟩ := pushArgs_cons_inv h
      rw [argRoom, Nat.add_comm (pageCeil os _), Nat.add_assoc] at hok
      obtain ⟨hp₁, hbreak⟩ := ih hok hrest
      have hok₁ := hok.pushArgs hc hrest
      obtain ⟨-, -, -, hkind⟩ := mmuAlloc_inv halloc
      have huser := hkind.userSpace hc hok₁.heap.user
      obtain ⟨hsize, hlt⟩ := argSize_toNat hc huser hwrite
      rw [← hsize] at hok₁ hlt
      have hp₂ := hp₁.alloc hc hbound hok₁.heap (hok₁.extended hc hlt halloc)
      have hp₃ := hp₂.write hc hbound huser hp₁.behind hwrite
      have hp₄ := hp₃.push hc hbound (by rw [mmuWrite_prot hwrite]; exact huser) hpush
      rw [hbreak] at hp₄
      refine ⟨hp₄, ?_⟩
      rw [hkind.moves.2, hbreak]
      rfl

/-- Where the stack ends, on the host's side: 32 MB behind the image. -/
def stackEnd (mmu : Mmu) : Nat := (toHost mmu.guestAlloc).toNat + stackSize.toNat

/-- The stack as it is allocated: nothing but zeros. -/
theorem Pushed.start (hc : MmapContract os top) {w w' : World} {mmu mmu' : Mmu} {addr : Word}
    {n : Nat} (hloaded : Loaded os top mmu)
    (hok : Room os top w mmu (pageCeil os stackSize.toNat + n))
    (h : mmuAlloc os w mmu stackSize = .ok (addr, w', mmu')) :
    stackEnd mmu ≤ top ∧ Pushed w' mmu' (addr + stackSize - 8 - 8 - 8) (stackEnd mmu) [] := by
  have hhost : toHost mmu.guestAlloc = mmu.hostAlloc := by
    rw [hloaded.guest]
    exact toHost_toGuest _
  have hsize : stackSize.toNat = 2 ^ 25 := by decide
  have hok' := hok.alloc hc (by decide) h
  have hext := hok.extended hc (by decide) h
  have hguest := hext.guest
  have hbreak := toHost_break hc hok'.heap
  have hinside := hok'.heap.inside
  have hfits := hok'.heap.fits
  obtain ⟨haddr, -⟩ := mmuAlloc_inv h
  unfold stackEnd
  rw [hhost] at hguest ⊢
  refine ⟨by omega, ?_, nofun, fun x hlo hhi => ?_, by omega⟩
  · rw [haddr, toHost_sub, toHost_sub, toHost_sub, toHost_add, hhost]
    have hsum : mmu.hostAlloc + stackSize - 8 - 8 - 8 = mmu.hostAlloc + (stackSize - 24) := by
      grind
    have hoff : (stackSize - 24).toNat = 2 ^ 25 - 24 := by decide
    rw [hsum, BitVec.toNat_add, hoff]
    simp only [List.length_nil]
    omega
  · exact hext.zero x (by omega) (by omega)

/-- A word of zeros at the end of the stack. -/
theorem Pushed.zero (hc : MmapContract os top) {w : World} {mmu : Mmu} {sp : Word} {bound : Nat}
    {words : List Word} (hp : Pushed w mmu sp bound words) (hbound : bound ≤ top) {j : Nat}
    (hlo : words.length ≤ j) (hhi : j < words.length + 3) :
    wordAt w.mem (sp + BitVec.ofNat 64 (8 * j)) = 0 := by
  have hroom := hp.room
  refine Mem.eq_of_bytes (n := 8) fun i hi => ?_
  have hbyte := hp.byte_toNat hbound hc hhi hi
  rw [wordAt, Mem.get_byte _ _ hi, hp.zeros _ (by omega) (by omega)]
  exact BitVec.extractLsb'_zero.symm

/-- The stack after the setup, if there is room behind the image: the number of arguments and
their addresses have been pushed. -/
theorem machineSetup_pushed (hc : MmapContract os top) {prog : Reply (List (BitVec 8))}
    {phdr : List (BitVec 8)} {argv : List (List (BitVec 8))} {pad : BitVec 32} {w : World}
    {m₁ m : Machine} (huser : UserSpace top w.mem.prot)
    (hload : machineLoadProgram os prog phdr (initialMachine w) = .ok m₁)
    (hfree : m₁.state.world.mem.FreeRange (toHost m₁.mmu.guestAlloc) (setupRoom os argv.tail))
    (h : machineSetup os argv pad m₁ = .ok m) :
    stackEnd m₁.mmu ≤ top ∧ Pushed m.state.world m.mmu (m.state.gp Reg.sp) (stackEnd m₁.mmu)
      ((pad ++ BitVec.ofNat 32 argv.length) ::
        (argAddrs argv.tail (m₁.mmu.guestAlloc + stackSize)).1) := by
  have hloaded := machineSetup_loaded hc hload hfree h
  obtain ⟨addr, w₁, mmu₁, w₂, sp, halloc, hpush, hwrite, hsp⟩ := machineSetup_inv h
  have hok := hloaded.room (machineLoadProgram_userSpace hc huser hload) hfree
  have hok₁ := hok.alloc hc (by decide) halloc
  obtain ⟨hbound, hp₁⟩ := Pushed.start hc hloaded hok halloc
  have hp₂ := (Pushed.pushArgs hc (n := 0) hbound hok₁ hp₁ hpush).1
  have hp := hp₂.push hc hbound (hok₁.pushArgs hc (n := 0) hpush).heap.user hwrite
  rw [(mmuAlloc_inv halloc).2.2.2.moves.2] at hp
  rw [hsp]
  exact ⟨hbound, hp⟩

/-- **Every word but the first is right.**  If there is room behind the image, the program finds
its arguments' addresses in order and zeros behind them. -/
theorem machineSetup_stack (hc : MmapContract os top) {prog : Reply (List (BitVec 8))}
    {phdr : List (BitVec 8)} {argv : List (List (BitVec 8))} {pad : BitVec 32} {w : World}
    {m₁ m : Machine} (huser : UserSpace top w.mem.prot)
    (hload : machineLoadProgram os prog phdr (initialMachine w) = .ok m₁)
    (hfree : m₁.state.world.mem.FreeRange (toHost m₁.mmu.guestAlloc) (setupRoom os argv.tail))
    (h : machineSetup os argv pad m₁ = .ok m) :
    ProcessStack m.state.world.mem (m.state.gp Reg.sp) (pad ++ BitVec.ofNat 32 argv.length)
      (argAddrs argv.tail (m₁.mmu.guestAlloc + stackSize)).1 := by
  obtain ⟨hbound, hp⟩ := machineSetup_pushed hc huser hload hfree h
  refine ⟨?_, fun j hj => hp.words (j + 1) (Nat.succ_lt_succ hj), ?_, ?_, ?_⟩
  · have hfirst := hp.words 0 (Nat.succ_pos _)
    rwa [Nat.mul_zero, BitVec.add_zero] at hfirst
  all_goals
    refine hp.zero hc hbound ?_ ?_
    all_goals simp

/-! ### The stack a program would expect -/

/-- **No program finds the number of its arguments.**  Whatever the arguments and whatever
lies behind `argc`, the stack is not the one a process expects: its first word has the number of
all the strings, the emulator's own name among them, in its lower half. -/
theorem machineSetup_not_processStack {argv : List (List (BitVec 8))} {pad : BitVec 32}
    {m m' : Machine} (hargc : 2 ≤ argv.length) (h : machineSetup os argv pad m = .ok m') :
    ¬ProcessStack m'.state.world.mem (m'.state.gp Reg.sp) (BitVec.ofNat 64 (argv.length - 1))
      (argAddrs argv.tail (m.mmu.guestAlloc + stackSize)).1 := by
  intro hstack
  have hword := hstack.argc
  rw [machineSetup_argc h] at hword
  exact argc_ne pad (by omega) hword

end

theorem machineSetup_not_processStack_sample :
    ∃ m m', machineSetup grantingOs sampleArgv 0 m = .ok m' ∧
      ¬ProcessStack m'.state.world.mem (m'.state.gp Reg.sp) (BitVec.ofNat 64 (sampleArgv.length - 1))
        (argAddrs sampleArgv.tail (m.mmu.guestAlloc + stackSize)).1 := by
  have hok : (bootCode grantingOs []).map (fun _ => ()) = .ok () := by decide +kernel
  obtain ⟨m', hboot, -⟩ := map_ok_inv hok
  obtain ⟨m, -, hsetup⟩ := boot_inv hboot
  exact ⟨m, m', hsetup, machineSetup_not_processStack (by decide) hsetup⟩

/-- One argument, and the program is told that it has two. -/
theorem argc_counts_emulator :
    ∃ m m', machineSetup grantingOs sampleArgv 0 m = .ok m' ∧
      wordAt m'.state.world.mem (m'.state.gp Reg.sp) = 2 ∧
      ¬ProcessStack m'.state.world.mem (m'.state.gp Reg.sp) (BitVec.ofNat 64 (sampleArgv.length - 1))
        (argAddrs sampleArgv.tail (m.mmu.guestAlloc + stackSize)).1 := by
  have hok : (bootCode grantingOs []).map
      (fun m => wordAt m.state.world.mem (m.state.gp Reg.sp)) = .ok 2 := by decide +kernel
  obtain ⟨m', hboot, hword⟩ := map_ok_inv hok
  obtain ⟨m, -, hsetup⟩ := boot_inv hboot
  refine ⟨m, m', hsetup, hword, fun hstack => ?_⟩
  have hargc := hword.symm.trans hstack.argc
  exact absurd hargc (by decide)

end Rvemu
