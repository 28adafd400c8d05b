/-
The arguments a program finds.

`machine_setup` copies the strings one behind the other, the last first, from the end
of the stack on.  It never writes the zero that ends a string: what is left of a page
is zeros, because a fresh page is and nothing is written behind a string before the
next one.  The pushes go downwards from the end of the stack, so they meet neither the
strings nor what is left behind them.

Each argument takes a word of the stack, and there are four words besides; nothing
rounds the stack pointer.  So it is aligned to 16 bytes for every other command line.
-/
import Rvemu.Proofs.Hole
import Rvemu.Proofs.Stack

namespace Rvemu

open Memory

/-- A string with its end. -/
def cString (arg : List (BitVec 8)) : List (BitVec 8) := arg ++ [0]

/-- The strings of the arguments, from a break on, each with its host address. -/
def argBlocks (args : List (List (BitVec 8))) (brk : Word) : List (Word × List (BitVec 8)) :=
  List.zipWith (fun a arg => (toHost a, cString arg)) (argAddrs args brk).1 args

section

variable {os : Os} {top : Nat}

theorem argAddrs_length (args : List (List (BitVec 8))) (brk : Word) :
    (argAddrs args brk).1.length = args.length := by
  induction args with
  | nil => rfl
  | cons arg rest ih => simp only [argAddrs, List.length_cons, ih]

/-! ### The strings while they are copied -/

/-- The strings lie between the end of the stack and the break, and what is left of the pages
behind them is zeros. -/
structure Copied (w : World) (mmu : Mmu) (bound : Nat) (blocks : List (Word × List (BitVec 8))) :
    Prop where
  strings : w.mem.Blocks bound blocks (toHost mmu.guestAlloc).toNat
  fresh : ∀ x : Word, (toHost mmu.guestAlloc).toNat ≤ x.toNat → x.toNat < mmu.hostAlloc.toNat →
    w.mem.byte x = 0

section Copied

variable {w w' : World} {mmu mmu' : Mmu} {bound : Nat} {blocks : List (Word × List (BitVec 8))}

/-- What changes no byte behind the stack keeps the strings. -/
theorem Copied.keep (hcopied : Copied w mmu bound blocks)
    (hsame : ∀ x : Word, bound ≤ x.toNat → w'.mem.byte x = w.mem.byte x) :
    Copied w' mmu bound blocks where
  strings := hcopied.strings.keep (Nat.le_of_lt (toHost mmu.guestAlloc).isLt)
    fun x hlo _ => hsame x hlo
  fresh x hlo hhi := by
    have hle := hcopied.strings.le
    rw [hsame x (by omega)]
    exact hcopied.fresh x hlo hhi

/-- A write that ends where the stack ends, or before, keeps the strings. -/
theorem Copied.push (hcopied : Copied w mmu bound blocks) {a : Word} {bs : List (BitVec 8)}
    (hbelow : (toHost a).toNat + bs.length ≤ bound) (hbound : bound ≤ 2 ^ 64)
    (h : mmuWrite w a bs = .ok w') : Copied w' mmu bound blocks := by
  refine hcopied.keep fun x hx => ?_
  rw [mmuWrite_eq h]
  exact Mem.putList_outside w.mem (by omega) (.inr (by omega))

/-- One string more: its bytes are written, its end is there already. -/
theorem Copied.arg (hc : MmapContract os top) (hcopied : Copied w mmu bound blocks)
    (hok : HeapOk os top w.mem.prot mmu) {w₂ : World} {arg : List (BitVec 8)} {size : Word}
    (hsize : size.toNat = arg.length + 1) (hext : Extended w mmu size w₂ mmu')
    (hok' : HeapOk os top w₂.mem.prot mmu') (h : mmuWrite w₂ mmu.guestAlloc arg = .ok w') :
    Copied w' mmu' bound ((toHost mmu.guestAlloc, cString arg) :: blocks) := by
  have hguest := hext.guest
  have hbreak := toHost_break hc hok
  have hinside := hok.inside
  have hbreak' := toHost_break hc hok'
  have hinside' := hok'.inside
  -- before the string is written, everything from the old break on is zeros
  have hzero (x : Word) (hlo : (toHost mmu.guestAlloc).toNat ≤ x.toNat)
      (hhi : x.toNat < mmu'.hostAlloc.toNat) : w₂.mem.byte x = 0 := by
    rcases Nat.lt_or_ge x.toNat mmu.hostAlloc.toNat with hlt | hge
    · rw [hext.same x hlt]
      exact hcopied.fresh x hlo hlt
    · exact hext.zero x hge hhi
  have hmem := mmuWrite_eq h
  have hout (x : Word) (hx : x.toNat < (toHost mmu.guestAlloc).toNat ∨
      (toHost mmu.guestAlloc).toNat + arg.length ≤ x.toNat) :
      w'.mem.byte x = w₂.mem.byte x := by
    rw [hmem]
    exact Mem.putList_outside w₂.mem (by omega) hx
  have hold : w'.mem.Blocks bound blocks (toHost mmu.guestAlloc).toNat := by
    refine hcopied.strings.keep (by omega) fun x hlo hhi => ?_
    rw [hout x (.inl hhi)]
    exact hext.same x (by omega)
  have hstring : w'.mem.HasBytes (toHost mmu.guestAlloc) (cString arg) := by
    refine (Mem.hasBytes_append _ _ _ _).mpr ⟨?_, fun i hi => ?_⟩
    · rw [hmem]
      exact w₂.mem.putList_hasBytes _ (by omega)
    · obtain rfl : i = 0 := by simpa using hi
      have haddr : (toHost mmu.guestAlloc + BitVec.ofNat 64 arg.length).toNat =
          (toHost mmu.guestAlloc).toNat + arg.length := Mem.toNat_add_ofNat (by omega)
      rw [BitVec.add_zero, hout _ (.inr (by omega)), hzero _ (by omega) (by omega)]
      rfl
  have hlen : (cString arg).length = arg.length + 1 := by simp [cString]
  refine ⟨?_, fun x hlo hhi => ?_⟩
  · have hblocks := Mem.Blocks.cons hstring hold
    rwa [hlen, ← hsize, ← hguest] at hblocks
  · rw [hout x (.inr (by omega))]
    exact hzero x (by omega) hhi

end Copied

/-- All the strings. -/
theorem Copied.pushArgs (hc : MmapContract os top) {args : List (List (BitVec 8))} {w w' : World}
    {mmu mmu' : Mmu} {sp sp' : Word} {bound n : Nat} (hbound : bound ≤ top)
    (hok : Room os top w mmu (argRoom os args + n)) (hp : Pushed w mmu sp bound [])
    (hcopied : Copied w mmu bound []) (h : pushArgs os args w mmu sp = .ok (w', mmu', sp')) :
    Copied w' mmu' bound (argBlocks args mmu.guestAlloc) := by
  have htop := hc.top_le
  induction args generalizing w' mmu' sp' n with
  | nil =>
      cases h
      exact hcopied
  | cons arg rest ih =>
      have hroom := (Pushed.pushArgs hc hbound hok hp h).1.room
      obtain ⟨w₁, mmu₁, sp₁, w₂, w₃, hrest, halloc, hwrite, hpush, rfl⟩ := pushArgs_cons_inv h
      rw [argRoom, Nat.add_comm (pageCeil os _), Nat.add_assoc] at hok
      have hcopied₁ := ih hok hrest
      obtain ⟨-, hbreak⟩ := Pushed.pushArgs hc hbound hok hp hrest
      have hok₁ := hok.pushArgs hc hrest
      have huser := (mmuAlloc_inv halloc).2.2.2.userSpace hc hok₁.heap.user
      obtain ⟨hsize, hlt⟩ := argSize_toNat hc huser hwrite
      rw [← hsize] at hok₁ hlt
      have hok₂ := hok₁.alloc hc hlt halloc
      have hcopied₂ := hcopied₁.arg hc hok₁.heap hsize (hok₁.extended hc hlt halloc) hok₂.heap hwrite
      rw [hbreak] at hcopied₂
      refine hcopied₂.push ?_ (by omega) hpush
      rw [argAddrs_length, List.length_cons] at hroom
      rw [wordBytes_length]
      omega

/-- Behind the stack as it is allocated there are no strings yet, and nothing but zeros. -/
theorem Copied.start (hc : MmapContract os top) {w w' : World} {mmu mmu' : Mmu} {addr : Word}
    {n : Nat} (hloaded : Loaded os top mmu)
    (hok : Room os top w mmu (pageCeil os stackSize.toNat + n))
    (h : mmuAlloc os w mmu stackSize = .ok (addr, w', mmu')) :
    Copied w' mmu' (stackEnd mmu) [] := by
  have hhost : toHost mmu.guestAlloc = mmu.hostAlloc := by
    rw [hloaded.guest]
    exact toHost_toGuest _
  have hext := hok.extended hc (by decide) h
  have hguest : (toHost mmu'.guestAlloc).toNat = stackEnd mmu := hext.guest
  have hend : stackEnd mmu = mmu.hostAlloc.toNat + stackSize.toNat := by
    rw [stackEnd, hhost]
  refine ⟨?_, fun x hlo hhi => hext.zero x (by omega) hhi⟩
  rw [hguest]
  exact .nil

/-- The strings after the setup. -/
theorem machineSetup_copied (hc : MmapContract os top) {prog : Reply (List (BitVec 8))}
    {phdr : List (BitVec 8)} {argv : List (List (BitVec 8))} {pad : BitVec 32} {w : World}
    {m₁ m : Machine} (huser : UserSpace top w.mem.prot)
    (hload : machineLoadProgram os prog phdr (initialMachine w) = .ok m₁)
    (hfree : m₁.state.world.mem.FreeRange (toHost m₁.mmu.guestAlloc) (setupRoom os argv.tail))
    (h : machineSetup os argv pad m₁ = .ok m) :
    HeapOk os top m.state.world.mem.prot m.mmu ∧ Copied m.state.world m.mmu (stackEnd m₁.mmu)
      (argBlocks argv.tail (m₁.mmu.guestAlloc + stackSize)) := by
  have htop := hc.top_le
  obtain ⟨hbound, hp⟩ := machineSetup_pushed hc huser hload hfree h
  have hroom := hp.room
  have hloaded := machineSetup_loaded hc hload hfree h
  obtain ⟨addr, w₁, mmu₁, w₂, sp, halloc, hpush, hwrite, hsp⟩ := machineSetup_inv h
  have hok := hloaded.room (machineLoadProgram_userSpace hc huser hload) hfree
  have hok₁ := hok.alloc hc (by decide) halloc
  have hok₂ := hok₁.pushArgs hc (n := 0) hpush
  obtain ⟨-, hp₁⟩ := Pushed.start hc hloaded hok halloc
  have hcopied := Copied.pushArgs hc (n := 0) hbound hok₁ hp₁ (Copied.start hc hloaded hok halloc) hpush
  rw [(mmuAlloc_inv halloc).2.2.2.moves.2] at hcopied
  refine ⟨by rw [mmuWrite_prot hwrite]; exact hok₂.heap, hcopied.push ?_ (by omega) hwrite⟩
  rw [hsp] at hroom
  rw [wordBytes_length]
  omega

/-! ### The arguments in place -/

/-- The pointer to argument `j`, from the stack. -/
def argPtr (m : Machine) (j : Nat) : Word :=
  wordAt m.state.world.mem (m.state.gp Reg.sp + BitVec.ofNat 64 (8 * (j + 1)))

/-- Whether a host address is one of a string at `a`, or that of its end. -/
def InString (a : Word) (arg : List (BitVec 8)) (x : Word) : Prop :=
  Mem.InRange (toHost a) (cString arg).length x

/-- The arguments of a program whose image ends at `imageEnd`: each pointer is the address its
string was given and has the string there; the strings lie behind the stack, apart from each other and
in memory the program may use; and the stack pointer lies in the stack. -/
structure ArgumentsInPlace (m : Machine) (imageEnd : Word) (args : List (List (BitVec 8))) :
    Prop where
  pointer : ∀ (j : Nat) (hj : j < (argAddrs args (imageEnd + stackSize)).1.length),
    argPtr m j = (argAddrs args (imageEnd + stackSize)).1[j]
  copy : ∀ (j : Nat) (hj : j < args.length),
    m.state.world.mem.HasBytes (toHost (argPtr m j)) (cString args[j])
  apart : ∀ (i j : Nat) (hi : i < args.length) (hj : j < args.length), i ≠ j →
    ∀ x, ¬(InString (argPtr m i) args[i] x ∧ InString (argPtr m j) args[j] x)
  between : ∀ (j : Nat) (hj : j < args.length) (x : Word), InString (argPtr m j) args[j] x →
    (toHost imageEnd).toNat + stackSize.toNat ≤ x.toNat ∧ x.toNat < (toHost m.mmu.guestAlloc).toNat
  mapped : ∀ (j : Nat) (hj : j < args.length) (x : Word), InString (argPtr m j) args[j] x →
    m.state.world.mem.prot x = some Prot.rw
  sp : (toHost imageEnd).toNat ≤ (toHost (m.state.gp Reg.sp)).toNat ∧
    (toHost (m.state.gp Reg.sp)).toNat < (toHost imageEnd).toNat + stackSize.toNat

theorem argBlocks_length (args : List (List (BitVec 8))) (brk : Word) :
    (argBlocks args brk).length = args.length := by
  simp [argBlocks, argAddrs_length]

theorem argBlocks_getElem (args : List (List (BitVec 8))) (brk : Word) {j : Nat}
    (hj : j < (argBlocks args brk).length) (haddr : j < (argAddrs args brk).1.length)
    (harg : j < args.length) :
    (argBlocks args brk)[j] = (toHost (argAddrs args brk).1[j], cString args[j]) := by
  simp [argBlocks]

section Placed

variable {m : Machine} {bound : Nat} {args : List (List (BitVec 8))} {brk : Word}

/-- The blocks, each at the address its pointer has. -/
theorem argBlocks_argPtr (hptr : ∀ (j : Nat) (hj : j < (argAddrs args brk).1.length),
      argPtr m j = (argAddrs args brk).1[j]) {j : Nat} (hj : j < args.length)
    (hj' : j < (argBlocks args brk).length) :
    (argBlocks args brk)[j] = (toHost (argPtr m j), cString args[j]) := by
  have haddrs := argAddrs_length args brk
  rw [argBlocks_getElem args brk hj' (by omega) hj, hptr j (by omega)]

/-- A string is where its pointer says, behind the stack and before the break. -/
theorem Copied.string (hcopied : Copied m.state.world m.mmu bound (argBlocks args brk))
    (hptr : ∀ (j : Nat) (hj : j < (argAddrs args brk).1.length),
      argPtr m j = (argAddrs args brk).1[j]) {j : Nat} (hj : j < args.length) :
    m.state.world.mem.HasBytes (toHost (argPtr m j)) (cString args[j]) ∧
      bound ≤ (toHost (argPtr m j)).toNat ∧
      (toHost (argPtr m j)).toNat + (cString args[j]).length ≤
        (toHost m.mmu.guestAlloc).toNat := by
  have hblocks := argBlocks_length args brk
  refine hcopied.strings.mem ?_
  rw [← argBlocks_argPtr hptr hj (by omega)]
  exact List.getElem_mem _

/-- The strings of later arguments end before an earlier one starts. -/
theorem Copied.string_after (hcopied : Copied m.state.world m.mmu bound (argBlocks args brk))
    (hptr : ∀ (j : Nat) (hj : j < (argAddrs args brk).1.length),
      argPtr m j = (argAddrs args brk).1[j]) {i j : Nat} (hi : i < args.length)
    (hj : j < args.length) (hlt : i < j) :
    (toHost (argPtr m j)).toNat + (cString args[j]).length ≤ (toHost (argPtr m i)).toNat := by
  have hblocks := argBlocks_length args brk
  have hpair := List.pairwise_iff_getElem.mp hcopied.strings.pairwise i j (by omega) (by omega) hlt
  rwa [argBlocks_argPtr hptr hi (by omega), argBlocks_argPtr hptr hj (by omega)] at hpair

end Placed

/-- **The arguments are in place.**  If there is room behind the image, and the addresses fit into
the stack, the program finds every argument whole and with its end, whatever their number and
length. -/
theorem machineSetup_arguments (hc : MmapContract os top) {prog : Reply (List (BitVec 8))}
    {phdr : List (BitVec 8)} {argv : List (List (BitVec 8))} {pad : BitVec 32} {w : World}
    {m₁ m : Machine} (huser : UserSpace top w.mem.prot)
    (hload : machineLoadProgram os prog phdr (initialMachine w) = .ok m₁)
    (hfree : m₁.state.world.mem.FreeRange (toHost m₁.mmu.guestAlloc) (setupRoom os argv.tail))
    (hfits : 8 * (argv.length + 3) ≤ stackSize.toNat) (h : machineSetup os argv pad m₁ = .ok m) :
    ArgumentsInPlace m m₁.mmu.guestAlloc argv.tail := by
  have hloaded := machineSetup_loaded hc hload hfree h
  obtain ⟨-, hp⟩ := machineSetup_pushed hc huser hload hfree h
  obtain ⟨hok, hcopied⟩ := machineSetup_copied hc huser hload hfree h
  have hstack := machineSetup_stack hc huser hload hfree h
  have hptr (j : Nat) (hj : j < (argAddrs argv.tail (m₁.mmu.guestAlloc + stackSize)).1.length) :
      argPtr m j = (argAddrs argv.tail (m₁.mmu.guestAlloc + stackSize)).1[j] := hstack.argv j hj
  have hbetween (j : Nat) (hj : j < argv.tail.length) (x : Word)
      (hx : InString (argPtr m j) argv.tail[j] x) :
      stackEnd m₁.mmu ≤ x.toNat ∧ x.toNat < (toHost m.mmu.guestAlloc).toNat := by
    obtain ⟨-, hlo, hhi⟩ := hcopied.string hptr hj
    obtain ⟨hx₁, hx₂⟩ := hx
    omega
  refine ⟨hptr, fun j hj => (hcopied.string hptr hj).1, fun i j hi hj hne x hx => ?_, hbetween,
    fun j hj x hx => ?_, ?_⟩
  · obtain ⟨⟨hi₁, hi₂⟩, hj₁, hj₂⟩ := hx
    rcases Nat.lt_or_gt_of_ne hne with hlt | hgt
    · have hle := hcopied.string_after hptr hi hj hlt
      omega
    · have hle := hcopied.string_after hptr hj hi hgt
      omega
  · have hbreak := toHost_break hc hok
    have hinside := hok.inside
    obtain ⟨hlo, hhi⟩ := hbetween j hj x hx
    have hbase : m.mmu.base = m₁.mmu.guestAlloc := by
      rw [(machineSetup_base h).1, hloaded.base, hloaded.guest]
    rw [hbase] at hbreak hinside
    rw [stackEnd] at hlo
    exact hok.mapped x (by rw [hbase]; omega) (by omega)
  · have hroom := hp.room
    have hsize : stackSize.toNat = 2 ^ 25 := by decide
    rw [List.length_cons, argAddrs_length, List.length_tail, stackEnd] at hroom
    omega

end

/-- A command line with an argument for the program. -/
def twoArgv : List (List (BitVec 8)) := sampleArgv ++ [[0x78, 0x79]]

theorem machineSetup_arguments_sample :
    ∃ m₁ m, machineLoadProgram pagingOs (.ok (elfImage [])) [] (initialMachine default) = .ok m₁ ∧
      machineSetup pagingOs twoArgv 0 m₁ = .ok m ∧
      ArgumentsInPlace m m₁.mmu.guestAlloc [[0x70], [0x78, 0x79]] := by
  have hok : (machineLoadProgram grantingOs (.ok (elfImage [])) [] (initialMachine default) >>=
      fun m₁ => (machineSetup grantingOs twoArgv 0 m₁).map fun _ =>
        (m₁.mmu.hostAlloc, m₁.mmu.guestAlloc)) = .ok (0x88800011000, 0x11000) := by
    decide +kernel
  obtain ⟨m₁, hload, h⟩ := bind_ok_inv hok
  obtain ⟨m, hsetup, h⟩ := map_ok_inv h
  obtain ⟨hhost, hguest⟩ := Prod.mk.inj h
  obtain ⟨hload', hfree, hsetup'⟩ :=
    boot_paging hload hsetup (by rw [hhost]; decide) (by rw [hhost]; decide)
  have huser : UserSpace userTop (default : World).mem.prot := nofun
  have hroom : m₁.state.world.mem.FreeRange (toHost m₁.mmu.guestAlloc)
      (setupRoom pagingOs twoArgv.tail) := by
    rw [hguest]
    rw [hhost] at hfree
    exact fun x hx => hfree x hx.1
  exact ⟨m₁, m, hload', hsetup',
    machineSetup_arguments pagingOs_contract huser hload' hroom (by decide) hsetup'⟩

/-! ### The alignment of the stack pointer -/

section

variable {os : Os}

/-- Each argument takes a word. -/
theorem pushArgs_sp {args : List (List (BitVec 8))} {w w' : World} {mmu mmu' : Mmu}
    {sp sp' : Word} (h : pushArgs os args w mmu sp = .ok (w', mmu', sp')) :
    sp' = sp - BitVec.ofNat 64 (8 * args.length) := by
  induction args generalizing w' mmu' sp' with
  | nil =>
      cases h
      simp
  | cons arg rest ih =>
      obtain ⟨w₁, mmu₁, sp₁, w₂, w₃, hrest, -, -, -, rfl⟩ := pushArgs_cons_inv h
      rw [ih hrest, List.length_cons, Nat.mul_succ, BitVec.ofNat_add]
      grind

/-- The stack pointer: the end of the stack, less a word for each argument and four more. -/
theorem machineSetup_sp {argv : List (List (BitVec 8))} {pad : BitVec 32} {m m' : Machine}
    (hargc : 1 ≤ argv.length) (h : machineSetup os argv pad m = .ok m') :
    m'.state.gp Reg.sp =
      m.mmu.guestAlloc + stackSize - BitVec.ofNat 64 (8 * (argv.length + 3)) := by
  obtain ⟨addr, w₁, mmu₁, w₂, sp, halloc, hpush, -, hsp⟩ := machineSetup_inv h
  obtain ⟨haddr, -⟩ := mmuAlloc_inv halloc
  have hwords : 8 * (argv.length + 3) = 8 * argv.tail.length + 32 := by
    rw [List.length_tail]
    omega
  rw [hsp, pushArgs_sp hpush, haddr, hwords, BitVec.ofNat_add]
  grind

/-- **Every other command line has an aligned stack.**  If the image ends at the start of a page,
the stack pointer is a multiple of 8, and one of 16 exactly when the number of arguments, the
emulator's own name among them, is odd. -/
theorem machineSetup_sp_aligned {argv : List (List (BitVec 8))} {pad : BitVec 32}
    {m m' : Machine} (hpages : 4 ≤ os.pageShift) (hpage : PageStart os m.mmu.guestAlloc)
    (hargc : 2 ≤ argv.length) (h : machineSetup os argv pad m = .ok m') :
    8 ∣ (m'.state.gp Reg.sp).toNat ∧
      (16 ∣ (m'.state.gp Reg.sp).toNat ↔ argv.length % 2 = 1) := by
  have hpage16 : 16 ∣ m.mmu.guestAlloc.toNat :=
    Nat.dvd_trans (Nat.pow_dvd_pow 2 (m := 4) hpages) hpage
  have hsize : stackSize.toNat = 2 ^ 25 := by decide
  rw [machineSetup_sp (by omega) h, BitVec.toNat_sub, BitVec.toNat_add, BitVec.toNat_ofNat]
  omega

end

/-- The sample's image ends at the start of a page. -/
theorem sample_pageStart :
    ∃ m m', machineSetup grantingOs sampleArgv 0 m = .ok m' ∧
      PageStart grantingOs m.mmu.guestAlloc ∧ m'.state.gp Reg.sp = 0x2010fd8 := by
  have hok : (machineLoadProgram grantingOs (.ok (elfImage [])) [] (initialMachine default) >>=
      fun m => (machineSetup grantingOs sampleArgv 0 m).map
        fun m' => (m.mmu.guestAlloc, m'.state.gp Reg.sp)) = .ok (0x11000, 0x2010fd8) := by
    decide +kernel
  obtain ⟨m, -, h⟩ := bind_ok_inv hok
  obtain ⟨m', hsetup, h⟩ := map_ok_inv h
  obtain ⟨hguest, hsp⟩ := Prod.mk.inj h
  refine ⟨m, m', hsetup, ?_, hsp⟩
  rw [hguest]
  show 2 ^ 12 ∣ (0x11000 : Word).toNat
  decide

theorem machineSetup_sp_aligned_sample :
    ∃ m m', machineSetup grantingOs sampleArgv 0 m = .ok m' ∧
      8 ∣ (m'.state.gp Reg.sp).toNat ∧
      (16 ∣ (m'.state.gp Reg.sp).toNat ↔ sampleArgv.length % 2 = 1) := by
  obtain ⟨m, m', hsetup, hpage, -⟩ := sample_pageStart
  exact ⟨m, m', hsetup, machineSetup_sp_aligned (by decide) hpage (by decide) hsetup⟩

/-- With one argument the stack pointer is 8 bytes off. -/
theorem oneArgument_misaligned :
    ∃ m m', machineSetup grantingOs sampleArgv 0 m = .ok m' ∧ 2 ≤ sampleArgv.length ∧
      PageStart grantingOs m.mmu.guestAlloc ∧ ¬16 ∣ (m'.state.gp Reg.sp).toNat := by
  obtain ⟨m, m', hsetup, hpage, hsp⟩ := sample_pageStart
  refine ⟨m, m', hsetup, by decide, hpage, ?_⟩
  rw [hsp]
  decide

end Rvemu
