/-
How far what is mapped runs ahead of the break.

Growth maps the request rounded up to whole pages, counted from the end of what is
mapped; a request that takes the break down unmaps to the break rounded up.  So what
is mapped ends at the break rounded up after every request downwards, and a request
upwards may leave it one page further ahead than it was.  It does so only by growing
past all that was ahead already, which is what keeps the sum of it small: that many
pages do not fit into the addresses the guest has, unless the pages are huge.
-/
import Mathlib.Tactic.Ring
import Rvemu.Proofs.Boot

namespace Rvemu

/-! ### In numbers -/

/-- What is mapped ends a number of pages behind the break rounded up: at most `n` of them, and
no more than the growth of the break pays for. -/
structure Ahead (p base brk mapped n : Nat) : Prop where
  above : base ≤ brk
  ends : ∃ e ≤ n, mapped = Align.ceil p brk + e * 2 ^ p ∧ e * (e - 1) * 2 ^ p ≤ 2 * (brk - base)

namespace Ahead

variable {p base brk mapped n : Nat}

theorem exact (h : base ≤ brk) (n : Nat) : Ahead p base brk (Align.ceil p brk) n :=
  ⟨h, 0, Nat.zero_le n, by simp, by simp⟩

/-- Nothing allocated yet. -/
theorem start (h : 2 ^ p ∣ brk) : Ahead p brk brk brk 0 := by
  have hceil : Align.ceil p brk = brk :=
    Nat.le_antisymm (Align.ceil_le_of_dvd (Nat.le_refl brk) h) (Align.le_ceil p brk)
  have hexact := exact (p := p) (Nat.le_refl brk) 0
  rw [hceil] at hexact
  exact hexact

theorem brk_le (h : Ahead p base brk mapped n) : brk ≤ mapped := by
  obtain ⟨-, e, -, rfl, -⟩ := h
  exact (Align.le_ceil p brk).trans (Nat.le_add_right _ _)

theorem dvd (h : Ahead p base brk mapped n) : 2 ^ p ∣ mapped := by
  obtain ⟨-, e, -, rfl, -⟩ := h
  exact Align.ceil_add_mul p brk e

/-- A request within what is mapped. -/
theorem stays (h : Ahead p base brk mapped n) {brk' : Nat} (hup : brk ≤ brk')
    (hle : brk' ≤ mapped) : Ahead p base brk' mapped n := by
  obtain ⟨habove, e, hn, hends, hpaid⟩ := h
  refine ⟨habove.trans hup, ?_⟩
  have hpos := Nat.two_pow_pos p
  have hmono := Align.ceil_mono p hup
  have hceil : Align.ceil p brk' ≤ mapped :=
    Align.ceil_le_of_dvd hle (by rw [hends]; exact Align.ceil_add_mul p brk e)
  obtain ⟨d, hd⟩ : 2 ^ p ∣ mapped - Align.ceil p brk' :=
    Nat.dvd_sub (by rw [hends]; exact Align.ceil_add_mul p brk e) (Align.dvd_ceil p brk')
  rw [Nat.mul_comm] at hd
  have hde : d ≤ e := Nat.le_of_mul_le_mul_right (c := 2 ^ p) (by omega) hpos
  refine ⟨d, hde.trans hn, by omega, ?_⟩
  calc d * (d - 1) * 2 ^ p ≤ e * (e - 1) * 2 ^ p :=
        Nat.mul_le_mul_right _ (Nat.mul_le_mul hde (Nat.sub_le_sub_right hde 1))
    _ ≤ 2 * (brk - base) := hpaid
    _ ≤ 2 * (brk' - base) := by omega

/-- A request past the end of what is mapped. -/
theorem grows (h : Ahead p base brk mapped n) {size : Nat} (hend : mapped < brk + size) :
    Ahead p base (brk + size) (mapped + Align.ceil p size) (n + 1) := by
  obtain ⟨habove, e, hn, hends, hpaid⟩ := h
  refine ⟨by omega, ?_⟩
  have hself := Align.le_ceil p brk
  rcases Align.ceil_add_ceil p brk size with hsum | hsum
  · exact ⟨e, by omega, by omega, by omega⟩
  · refine ⟨e + 1, by omega, ?_, ?_⟩
    · rw [Nat.add_mul, Nat.one_mul]
      omega
    · -- the growth pays for the pages that were ahead, twice
      have hsquare : (e + 1) * (e + 1 - 1) * 2 ^ p = e * (e - 1) * 2 ^ p + 2 * (e * 2 ^ p) := by
        cases e with
        | zero => simp
        | succ e =>
            simp only [Nat.add_sub_cancel]
            ring
      omega

/-- A break below `bound` leaves what is mapped below `bound` and what the pages ahead may take,
if that is `2 ^ q` pages and more than the growth can pay for. -/
theorem lt (h : Ahead p base brk mapped n) {bound room : Nat} (hbound : brk ≤ bound)
    (hdvd : 2 ^ p ∣ bound) (hroom : ∀ e, room ≤ e * 2 ^ p → 2 * bound < e * (e - 1) * 2 ^ p) :
    mapped < bound + room := by
  obtain ⟨-, e, -, rfl, hpaid⟩ := h
  have hceil : Align.ceil p brk ≤ bound := Align.ceil_le_of_dvd hbound hdvd
  by_contra hge
  have := hroom e (by omega)
  omega

theorem weaken (h : Ahead p base brk mapped n) {n' : Nat} (hn : n ≤ n') :
    Ahead p base brk mapped n' := by
  obtain ⟨habove, e, he, hrest⟩ := h
  exact ⟨habove, e, he.trans hn, hrest⟩

end Ahead

/-! ### One call -/

section

variable {os : Os} {w w' : World} {mmu mmu' : Mmu} {size : Word}

/-- The highest break whose host address is one. -/
def topBreak : Nat := 2 ^ 64 - guestMemoryOffset.toNat

/-- The break that a request leads to, without wrapping, lies between the base and the top. -/
def InSpace (mmu : Mmu) (size : Word) : Prop :=
  (mmu.base.toNat : Int) ≤ mmu.guestAlloc.toNat + size.toInt ∧
    (mmu.guestAlloc.toNat : Int) + size.toInt ≤ topBreak

/-- The break moves by what was requested. -/
theorem InSpace.moves (h : InSpace mmu size) :
    ((mmu.guestAlloc + size).toNat : Int) = mmu.guestAlloc.toNat + size.toInt := by
  obtain ⟨hlo, hhi⟩ := h
  have htop : topBreak < 2 ^ 64 := by decide
  rw [BitVec.toInt_eq_toNat_cond] at hlo hhi ⊢
  rw [BitVec.toNat_add]
  split at hlo <;> split <;> omega

/-- Pages of 2 MB or less: what may be ahead fits in front of the last host address. -/
theorem room_of_page (hpage : os.pageShift ≤ 21) (e : Nat)
    (he : guestMemoryOffset.toNat ≤ e * 2 ^ os.pageShift) :
    2 * topBreak < e * (e - 1) * 2 ^ os.pageShift := by
  have hle : e * 2 ^ os.pageShift ≤ e * 2 ^ 21 :=
    Nat.mul_le_mul_left e (Nat.pow_le_pow_right (by decide) hpage)
  have hoff : guestMemoryOffset.toNat = 4472832 * 2 ^ 21 := by decide
  calc 2 * topBreak < 4472831 * guestMemoryOffset.toNat := by decide
    _ ≤ (e - 1) * (e * 2 ^ os.pageShift) := Nat.mul_le_mul (by omega) he
    _ = e * (e - 1) * 2 ^ os.pageShift := by rw [← Nat.mul_assoc, Nat.mul_comm (e - 1) e]

/-- How many times the break may have been rounded since it last went down. -/
def risesFrom (n : Nat) (size : Word) : Nat :=
  if size.toInt < 0 then 0 else if 0 < size.toInt then n + 1 else n

/-- The allocator with its bookkeeping in order, as numbers of the guest. -/
abbrev Mmu.Ahead (os : Os) (mmu : Mmu) (n : Nat) : Prop :=
  Rvemu.Ahead os.pageShift mmu.base.toNat mmu.guestAlloc.toNat (toGuest mmu.hostAlloc).toNat n

theorem roundUp_break {x : Word} (hx : x.toNat ≤ topBreak) :
    (roundUp x os.pageSize).toNat = pageCeil os x.toNat := by
  have hpage : 2 ^ os.pageShift ≤ 2 ^ 31 :=
    Nat.pow_le_pow_right (by decide) (Nat.le_of_lt os.pageShift_lt)
  have htop : topBreak + 2 ^ 31 ≤ 2 ^ 64 := by decide
  exact Align.up_toNat (pageShift_lt os) (by omega)

/-- The end of what is mapped, in these terms. -/
theorem Mmu.Ahead.hostAlloc {n : Nat} (h : mmu.Ahead os n) (htop : mmu.guestAlloc.toNat ≤ topBreak) :
    ∃ e ≤ n, mmu.hostAlloc =
      toHost (roundUp mmu.guestAlloc os.pageSize + BitVec.ofNat 64 (e * 2 ^ os.pageShift)) := by
  obtain ⟨-, e, he, hends, -⟩ := h
  refine ⟨e, he, ?_⟩
  rw [← toHost_toGuest mmu.hostAlloc]
  refine congrArg toHost (BitVec.eq_of_toNat_eq ?_)
  have hup : (roundUp mmu.guestAlloc os.pageSize).toNat =
      Align.ceil os.pageShift mmu.guestAlloc.toNat := roundUp_break htop
  rw [BitVec.toNat_add, hup, BitVec.toNat_ofNat,
    Nat.mod_eq_of_lt (a := e * 2 ^ os.pageShift) (by omega), Nat.mod_eq_of_lt (by omega)]
  exact hends

theorem topBreak_dvd : 2 ^ os.pageShift ∣ topBreak :=
  Nat.dvd_sub (Nat.pow_dvd_pow 2 (Nat.le_of_lt (pageShift_lt os))) pageStart_offset

/-- **One allocation keeps the books.** -/
theorem AllocKind.ahead (hpage : os.pageShift ≤ 21) {n : Nat} (h : mmu.Ahead os n)
    (hin : InSpace mmu size) (hkind : AllocKind os w mmu size w' mmu') :
    mmu'.Ahead os (risesFrom n size) := by
  have hmoves := hin.moves
  obtain ⟨hlo, hhi⟩ := hin
  have hpos : 0 < size.toInt ↔ 0 < size.toNat ∧ size.toNat < 2 ^ 63 := by
    rw [BitVec.toInt_eq_toNat_cond]
    split <;> omega
  have hneg : size.toInt < 0 ↔ 2 ^ 63 ≤ size.toNat := by
    rw [BitVec.toInt_eq_toNat_cond]
    split <;> omega
  have hup : (roundUp (mmu.guestAlloc + size) os.pageSize).toNat =
      pageCeil os (mmu.guestAlloc + size).toNat := roundUp_break (by omega)
  unfold risesFrom
  cases hkind with
  | grows hgrow hend hmap =>
      have hint : size.toInt = size.toNat := BitVec.toInt_eq_toNat_of_lt (by omega)
      have hsum : (mmu.guestAlloc + size).toNat = mmu.guestAlloc.toNat + size.toNat := by omega
      rw [if_neg (by omega), if_pos (by omega)]
      have hnew : Rvemu.Ahead _ _ (mmu.guestAlloc.toNat + size.toNat) _ _ := h.grows (by omega)
      have htop := hnew.lt (by omega) topBreak_dvd (room_of_page hpage)
      have hfit : topBreak + guestMemoryOffset.toNat = 2 ^ 64 := by decide
      have hmapped : (toGuest (mmu.hostAlloc + roundUp size os.pageSize)).toNat =
          (toGuest mmu.hostAlloc).toNat + Align.ceil os.pageShift size.toNat := by
        have hmove : toGuest (mmu.hostAlloc + roundUp size os.pageSize) =
            toGuest mmu.hostAlloc + roundUp size os.pageSize := by
          unfold toGuest
          grind
        have hround : (roundUp size os.pageSize).toNat = Align.ceil os.pageShift size.toNat :=
          roundUp_toNat (by omega)
        rw [hmove, BitVec.toNat_add, hround, Nat.mod_eq_of_lt (by omega)]
      show Rvemu.Ahead _ mmu.base.toNat (mmu.guestAlloc + size).toNat
        (toGuest (mmu.hostAlloc + roundUp size os.pageSize)).toNat _
      rw [hmapped, hsum]
      exact hnew
  | @shrinks hshrink hend len hlen hunmap =>
      rw [if_pos (by omega)]
      have hmapped : toGuest (mmu.hostAlloc - len) =
          roundUp (mmu.guestAlloc + size) os.pageSize := by
        rw [hlen]
        unfold toGuest
        grind
      show Rvemu.Ahead _ mmu.base.toNat (mmu.guestAlloc + size).toNat
        (toGuest (mmu.hostAlloc - len)).toNat _
      rw [hmapped, hup]
      exact .exact (by omega) 0
  | stays hgrow hshrink =>
      have hle := h.brk_le
      show Rvemu.Ahead _ mmu.base.toNat (mmu.guestAlloc + size).toNat (toGuest mmu.hostAlloc).toNat _
      by_cases hdown : size.toInt < 0
      · -- the pages of the new break are all that is mapped
        rw [if_pos hdown]
        have hexact : (toGuest mmu.hostAlloc).toNat = pageCeil os (mmu.guestAlloc + size).toNat :=
          Nat.le_antisymm (by rw [← hup]; exact hshrink (hneg.mp hdown))
            (Align.ceil_le_of_dvd (by omega) h.dvd)
        rw [hexact]
        exact .exact (by omega) 0
      · rw [if_neg hdown]
        have hend : (mmu.guestAlloc + size).toNat ≤ (toGuest mmu.hostAlloc).toNat := by
          by_cases hzero : 0 < size.toInt
          · exact hgrow (hpos.mp hzero).1 (hpos.mp hzero).2
          · omega
        have hstays : Rvemu.Ahead _ _ (mmu.guestAlloc + size).toNat _ _ :=
          h.stays (by omega) hend
        split
        · exact hstays.weaken (Nat.le_succ n)
        · exact hstays

end

/-! ### A sequence of calls -/

section

variable {os : Os}

/-- Calls one after the other, within the space there is; what happens to the memory between
them is not looked at. -/
inductive AllocRun (os : Os) (mmu₀ : Mmu) : List Word → Mmu → Prop
  | start : AllocRun os mmu₀ [] mmu₀
  | call {sizes : List Word} {mmu mmu' : Mmu} {size b : Word} {w w' : World}
      (h : AllocRun os mmu₀ sizes mmu) (hin : InSpace mmu size)
      (halloc : mmuAlloc os w mmu size = .ok (b, w', mmu')) :
      AllocRun os mmu₀ (sizes ++ [size]) mmu'

/-- The upward requests since the last one that went down. -/
def rises (sizes : List Word) : Nat := sizes.foldl risesFrom 0

theorem rises_snoc (sizes : List Word) (size : Word) :
    rises (sizes ++ [size]) = risesFrom (rises sizes) size := by
  rw [rises, List.foldl_append]
  rfl

/-- Calls keep the books, and leave the base where it is. -/
theorem AllocRun.ahead (hpage : os.pageShift ≤ 21) {mmu₀ mmu : Mmu} {sizes : List Word}
    (h₀ : mmu₀.Ahead os 0) (h : AllocRun os mmu₀ sizes mmu) :
    mmu.Ahead os (rises sizes) ∧ mmu.base = mmu₀.base := by
  induction h with
  | start => exact ⟨h₀, rfl⟩
  | call h hin halloc ih =>
      obtain ⟨-, -, -, hkind⟩ := mmuAlloc_inv halloc
      rw [rises_snoc]
      exact ⟨hkind.ahead hpage ih.1 hin, hkind.moves.1.trans ih.2⟩

/-- A segment leaves nothing allocated and the end of what is mapped at the start of a page. -/
theorem AfterSegment.ahead {w : World} {mmu : Mmu} (h : AfterSegment os w mmu)
    (hreach : MmuReachable os mmu) : mmu.Ahead os 0 := by
  obtain ⟨w₀, mmu₀, phdr, file, hload⟩ := h
  obtain ⟨hend, -⟩ := mmuLoadSegment_end hload
  have hbase : mmu.base = toGuest mmu.hostAlloc := congrArg Mmu.base hend
  have hguest : mmu.guestAlloc = toGuest mmu.hostAlloc := congrArg Mmu.guestAlloc hend
  rw [Mmu.Ahead, hbase, hguest]
  exact .start (pageStart_toGuest hreach.pageStart)

/-- Whether one of the program headers, `n` of them from entry `i` on, is that of a segment. -/
def loadsSegment (ehdr : Elf64Ehdr) (file : List (BitVec 8)) : Nat → Nat → List (BitVec 8) → Bool
  | _, 0, _ => false
  | i, n + 1, phdr =>
    match loadPhdr phdr ehdr i file with
    | .ok phdr => (Elf64Phdr.ofBytes phdr).type = ptLoad || loadsSegment ehdr file (i + 1) n phdr
    | .error _ => false

theorem loadPhdrs_afterSegment {ehdr : Elf64Ehdr} {file : List (BitVec 8)} {n i : Nat}
    {phdr : List (BitVec 8)} {w w' : World} {mmu mmu' : Mmu}
    (hseg : loadsSegment ehdr file i n phdr = true)
    (h : loadPhdrs os ehdr file i n phdr w mmu = .ok (w', mmu')) : AfterSegment os w' mmu' := by
  induction n generalizing i phdr w mmu with
  | zero => cases hseg
  | succ n ih =>
      obtain ⟨phdr₁, hphdr, h⟩ := bind_ok_inv h
      rw [loadsSegment, hphdr] at hseg
      dsimp only at h hseg
      by_cases ht : (Elf64Phdr.ofBytes phdr₁).type = ptLoad
      · rw [if_pos ht] at h
        obtain ⟨⟨w₁, mmu₁⟩, hload, h⟩ := bind_ok_inv h
        rcases loadPhdrs_cases h with ⟨rfl, rfl⟩ | hafter
        · exact ⟨w, mmu, _, file, hload⟩
        · exact hafter
      · rw [if_neg ht] at h
        rw [decide_eq_false ht, Bool.false_or] at hseg
        exact ih hseg h

/-- **The books of the allocator.**  In every sequence of calls that starts behind the loaded
image, a call returns the break it found and moves it by what was requested; the base stays
below.  What is mapped ends at the break rounded up, or further by a page at most for every
upward request since the last downward one. -/
theorem mmuAlloc_books (hpage : os.pageShift ≤ 21) {phdr file : List (BitVec 8)}
    {w₀ w₁ w w' : World} {mmu₀ mmu mmu' : Mmu} {sizes : List Word} {size b : Word}
    (hload : mmuLoadElf os phdr w₀ (Mmu.start 0) file = .ok (w₁, mmu₀))
    (hseg : loadsSegment (Elf64Ehdr.ofBytes file) file 0 (Elf64Ehdr.ofBytes file).phnum.toNat
      phdr = true)
    (hrun : AllocRun os mmu₀ sizes mmu) (hin : InSpace mmu size)
    (h : mmuAlloc os w mmu size = .ok (b, w', mmu')) :
    b = mmu.guestAlloc ∧ mmu'.base = mmu₀.base ∧ mmu'.base.toNat ≤ mmu'.guestAlloc.toNat ∧
      (mmu'.guestAlloc.toNat : Int) = mmu.guestAlloc.toNat + size.toInt ∧
      (size.toInt < 0 → mmu'.hostAlloc = toHost (roundUp mmu'.guestAlloc os.pageSize)) ∧
      ∃ e ≤ rises (sizes ++ [size]), mmu'.hostAlloc =
        toHost (roundUp mmu'.guestAlloc os.pageSize + BitVec.ofNat 64 (e * 2 ^ os.pageShift)) := by
  have hphdrs := mmuLoadElf_inv hload
  have hreach : MmuReachable os mmu₀ :=
    loadPhdrs_invariant (I := fun _ mmu => MmuReachable os mmu)
      (fun hI hseg => .segment hI hseg) (.start _) hphdrs
  have h₀ := (loadPhdrs_afterSegment hseg hphdrs).ahead hreach
  obtain ⟨hahead, hbase⟩ := (AllocRun.call hrun hin h).ahead hpage h₀
  obtain ⟨hold, -, -, hkind⟩ := mmuAlloc_inv h
  have hbreak : mmu'.guestAlloc = mmu.guestAlloc + size := hkind.moves.2
  have hmoves := hin.moves
  have hguest : (mmu'.guestAlloc.toNat : Int) = mmu.guestAlloc.toNat + size.toInt := by
    rw [hbreak]
    exact hmoves
  obtain ⟨e, he, hmapped⟩ := hahead.hostAlloc (by have := hin.2; omega)
  refine ⟨hold, hbase, hahead.above, hguest, fun hdown => ?_, e, he, hmapped⟩
  rw [rises_snoc, risesFrom, if_pos hdown] at he
  rw [hmapped, Nat.le_zero.mp he, Nat.zero_mul, BitVec.add_zero]

end

/-- A byte and then a page and a byte, behind an image of one page. -/
theorem alloc_sample :
    ∃ w₀ mmu₀ b₁ w mmu b w' mmu',
      mmuLoadElf grantingOs [] default (Mmu.start 0) (elfImage []) = .ok (w₀, mmu₀) ∧
        mmuAlloc grantingOs w₀ mmu₀ 1 = .ok (b₁, w, mmu) ∧ InSpace mmu₀ 1 ∧
        mmuAlloc grantingOs w mmu 0x1001 = .ok (b, w', mmu') ∧ InSpace mmu 0x1001 ∧
        mmu'.guestAlloc = 0x12002 ∧ mmu'.hostAlloc = toHost 0x14000 := by
  have hok : (mmuLoadElf grantingOs [] default (Mmu.start 0) (elfImage []) >>= fun p₀ =>
      mmuAlloc grantingOs p₀.1 p₀.2 1 >>= fun p =>
        (mmuAlloc grantingOs p.2.1 p.2.2 0x1001).map fun p' =>
          ((p₀.2.base, p₀.2.guestAlloc), (p.2.2.base, p.2.2.guestAlloc),
            p'.2.2.guestAlloc, p'.2.2.hostAlloc)) =
      .ok ((0x11000, 0x11000), (0x11000, 0x11001), 0x12002, toHost 0x14000) := by
    decide +kernel
  obtain ⟨⟨w₀, mmu₀⟩, hload, h⟩ := bind_ok_inv hok
  obtain ⟨⟨b₁, w, mmu⟩, halloc, h⟩ := bind_ok_inv h
  obtain ⟨⟨b, w', mmu'⟩, halloc', h⟩ := map_ok_inv h
  simp only [Prod.mk.injEq] at h
  obtain ⟨⟨hbase₀, hguest₀⟩, ⟨hbase, hguest⟩, hguest', hhost'⟩ := h
  refine ⟨w₀, mmu₀, b₁, w, mmu, b, w', mmu', hload, halloc, ?_, halloc', ?_, hguest', hhost'⟩
  · unfold InSpace
    rw [hbase₀, hguest₀]
    decide
  · unfold InSpace
    rw [hbase, hguest]
    decide

theorem mmuAlloc_books_sample :
    ∃ w₀ mmu₀ b₁ w mmu b w' mmu',
      mmuLoadElf grantingOs [] default (Mmu.start 0) (elfImage []) = .ok (w₀, mmu₀) ∧
        mmuAlloc grantingOs w₀ mmu₀ 1 = .ok (b₁, w, mmu) ∧
        mmuAlloc grantingOs w mmu 0x1001 = .ok (b, w', mmu') ∧
        b = mmu.guestAlloc ∧ mmu'.base = mmu₀.base ∧
        (mmu'.guestAlloc.toNat : Int) = mmu.guestAlloc.toNat + (0x1001 : Word).toInt ∧
        ∃ e ≤ 2, mmu'.hostAlloc = toHost (roundUp mmu'.guestAlloc grantingOs.pageSize +
          BitVec.ofNat 64 (e * 2 ^ grantingOs.pageShift)) := by
  obtain ⟨w₀, mmu₀, b₁, w, mmu, b, w', mmu', hload, h₁, hin₁, h, hin, -⟩ := alloc_sample
  have hseg : loadsSegment (Elf64Ehdr.ofBytes (elfImage [])) (elfImage []) 0
      (Elf64Ehdr.ofBytes (elfImage [])).phnum.toNat [] = true := by decide +kernel
  obtain ⟨hold, hbase, -, hmoves, -, hends⟩ :=
    mmuAlloc_books (by decide) hload hseg (.call .start hin₁ h₁) hin h
  exact ⟨w₀, mmu₀, b₁, w, mmu, b, w', mmu', hload, h₁, h, hold, hbase, hmoves, hends⟩

/-- A byte, and then a page and a byte, take three pages, and the break needs but two. -/
theorem alloc_drifts :
    ∃ w₀ mmu₀ b₁ w mmu b w' mmu',
      mmuLoadElf grantingOs [] default (Mmu.start 0) (elfImage []) = .ok (w₀, mmu₀) ∧
        mmuAlloc grantingOs w₀ mmu₀ 1 = .ok (b₁, w, mmu) ∧ InSpace mmu₀ 1 ∧
        mmuAlloc grantingOs w mmu 0x1001 = .ok (b, w', mmu') ∧ InSpace mmu 0x1001 ∧
        mmu'.hostAlloc ≠ toHost (roundUp mmu'.guestAlloc grantingOs.pageSize) := by
  obtain ⟨w₀, mmu₀, b₁, w, mmu, b, w', mmu', hload, h₁, hin₁, h, hin, hguest, hhost⟩ :=
    alloc_sample
  refine ⟨w₀, mmu₀, b₁, w, mmu, b, w', mmu', hload, h₁, hin₁, h, hin, ?_⟩
  rw [hguest, hhost]
  decide

end Rvemu
