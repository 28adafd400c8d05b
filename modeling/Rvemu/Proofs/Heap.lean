/-
The pages under the heap.

What the host promises is `MmapContract`.  Under it the memory from the base to the
end of what is mapped is readable and writable, and reaches past the break, as long
as the host puts every piece where the allocator believes it to be: `BrkSafe` is the
condition for that, on the state before a request.

The addresses are compared on the host's side, where what is mapped ends below the
end of user space.  On the guest's side they may run past the last address.
-/
import Rvemu.Proofs.Break

namespace Rvemu

open Memory

/-- What the host promises of its memory calls; user space ends at `top`. -/
structure MmapContract (os : Os) (top : Nat) : Prop where
  top_le : top ≤ 2 ^ 62
  /-- A mapping lies in user space. -/
  anon_fits : ∀ {clock mem hint len addr}, os.mmapAnon clock mem hint len = .ok addr →
    addr.toNat + len.toNat ≤ top
  /-- It is placed where nothing was. -/
  anon_free : ∀ {clock mem hint len addr}, os.mmapAnon clock mem hint len = .ok addr →
    mem.FreeRange addr len.toNat
  /-- It is placed at the hint if the whole range there is free. -/
  anon_hint : ∀ {clock mem hint len addr}, os.mmapAnon clock mem hint len = .ok addr →
    hint ≠ 0 → PageStart os hint → mem.FreeRange hint len.toNat → addr = hint
  /-- A mapping at a fixed address is one of whole pages, and not empty. -/
  fixed_fits : ∀ {clock mem addr len}, os.mmapFixed clock mem addr len = .ok () →
    PageStart os addr ∧ 0 < len.toNat ∧ addr.toNat + pageCeil os len.toNat ≤ top

/-- What can be written lies in user space. -/
def UserSpace (top : Nat) (prot : Word → Option Prot) : Prop :=
  ∀ x p, prot x = some p → p.write = true → x.toNat < top

theorem UserSpace.lt {top : Nat} {mem : Mem 64} (hu : UserSpace top mem.prot) {x : Word}
    (hx : mem.writable x = true) : x.toNat < top := by
  obtain ⟨p, hp, hwrite, -⟩ := (Mem.access_iff mem Prot.write x).mp hx
  exact hu x p hp hwrite

/-- The memory of the heap: from the base to the end of what is mapped, past the break. -/
structure HeapOk (os : Os) (top : Nat) (prot : Word → Option Prot) (mmu : Mmu) : Prop where
  user : UserSpace top prot
  pos : 0 < (toHost mmu.base).toNat
  startPage : PageStart os (toHost mmu.base)
  endPage : PageStart os mmu.hostAlloc
  above : mmu.base.toNat ≤ mmu.guestAlloc.toNat
  inside : (toHost mmu.base).toNat + (mmu.guestAlloc.toNat - mmu.base.toNat) ≤ mmu.hostAlloc.toNat
  fits : mmu.hostAlloc.toNat ≤ top
  mapped : ∀ x : Word, (toHost mmu.base).toNat ≤ x.toNat → x.toNat < mmu.hostAlloc.toNat →
    prot x = some Prot.rw

/-- A request that does not lie 2^63 or more above the break and, if it needs more memory, finds
the range where that belongs either free as a whole or mapped as a whole. -/
structure BrkSafe (os : Os) (w : World) (mmu : Mmu) (a : Word) : Prop where
  near : a.toNat ≤ mmu.guestAlloc.toNat ∨ (a - mmu.guestAlloc).toNat < 2 ^ 63
  clear : mmu.guestAlloc.toNat < a.toNat → (toGuest mmu.hostAlloc).toNat < a.toNat →
    w.mem.FreeRange mmu.hostAlloc (roundUp (a - mmu.guestAlloc) os.pageSize).toNat ∨
      ∀ x, Mem.InRange mmu.hostAlloc (roundUp (a - mmu.guestAlloc) os.pageSize).toNat x →
        w.mem.prot x = some Prot.rw

section

variable {os : Os} {top : Nat} {w w' : World} {mmu mmu' : Mmu} {a size : Word}

/-- A mapping in user space. -/
theorem UserSpace.map {mem : Mem 64} (hu : UserSpace top mem.prot) {x : Word} {len : Nat}
    (hfits : x.toNat + len ≤ top) (p : Prot) (content : Nat → BitVec 8) (hole : Nat → Bool) :
    UserSpace top (mem.map x len p content hole).prot := by
  intro y q hy hq
  change (if _ then _ else _) = some q at hy
  split at hy
  · rename_i hin
    exact lt_of_lt_of_le hin.2 hfits
  · exact hu y q hy hq

theorem UserSpace.unmap {mem : Mem 64} (hu : UserSpace top mem.prot) (x : Word) (len : Nat) :
    UserSpace top (mem.unmap x len).prot := by
  intro y q hy hq
  change (if _ then _ else _) = some q at hy
  split at hy
  · cases hy
  · exact hu y q hy hq

/-- Whatever is mapped or unmapped, what can be written lies in user space. -/
theorem AllocKind.userSpace (hc : MmapContract os top) (h : AllocKind os w mmu size w' mmu')
    (hu : UserSpace top w.mem.prot) : UserSpace top w'.mem.prot := by
  cases h with
  | grows hpos hend hmap => exact hu.map (hc.anon_fits hmap) _ _ _
  | shrinks hneg hend hlen hunmap => exact hu.unmap _ _
  | stays hgrow hshrink => exact hu

/-- A range that can be written as a whole ends in user space. -/
theorem range_fits (hu : UserSpace top w.mem.prot) (htop : top < 2 ^ 64) {x : Word} {len : Nat}
    (hx : x.toNat ≤ top) (h : ∀ y, Mem.InRange x len y → w.mem.prot y = some Prot.rw) :
    x.toNat + len ≤ top := by
  by_contra hgt
  have htop' : (BitVec.ofNat 64 top).toNat = top := by
    rw [BitVec.toNat_ofNat, Nat.mod_eq_of_lt htop]
  have hrw := h (BitVec.ofNat 64 top) ⟨by omega, by omega⟩
  have hlt := hu _ _ hrw rfl
  omega

/-- The break that is asked for, as a number, when the request raises it. -/
theorem HeapOk.raised (hc : MmapContract os top) (hok : HeapOk os top w.mem.prot mmu)
    (hle : mmu.base.toNat ≤ a.toNat) (hpos : 0 < (a - mmu.guestAlloc).toNat)
    (hsmall : (a - mmu.guestAlloc).toNat < 2 ^ 63) :
    a.toNat = mmu.guestAlloc.toNat + (a - mmu.guestAlloc).toNat := by
  have hsub := BitVec.toNat_sub a mmu.guestAlloc
  have htop := hc.top_le
  have hinside := hok.inside
  have hfits := hok.fits
  omega

/-- More memory at the end of what is mapped. -/
theorem HeapOk.grows (hc : MmapContract os top) (hok : HeapOk os top w.mem.prot mmu)
    (hle : mmu.base.toNat ≤ a.toNat) (hsafe : BrkSafe os w mmu a)
    (hpos : 0 < (a - mmu.guestAlloc).toNat ∧ (a - mmu.guestAlloc).toNat < 2 ^ 63)
    (hend : (toGuest mmu.hostAlloc).toNat < a.toNat) {addr : Word}
    (hmap : os.mmapAnon w.clock w.mem mmu.hostAlloc (roundUp (a - mmu.guestAlloc) os.pageSize) =
      .ok addr)
    (huser : UserSpace top (w.mem.map addr (roundUp (a - mmu.guestAlloc) os.pageSize).toNat
      Prot.rw fun _ => 0).prot) :
    HeapOk os top (w.mem.map addr (roundUp (a - mmu.guestAlloc) os.pageSize).toNat Prot.rw
        fun _ => 0).prot
      { mmu with
        guestAlloc := a
        hostAlloc := mmu.hostAlloc + roundUp (a - mmu.guestAlloc) os.pageSize } := by
  have hraise := hok.raised hc hle hpos.1 hpos.2
  have hceil : (a - mmu.guestAlloc).toNat ≤ (roundUp (a - mmu.guestAlloc) os.pageSize).toNat := by
    rw [roundUp_toNat (Nat.le_of_lt hpos.2)]
    exact Align.le_ceil _ _
  have hpage : PageStart os (roundUp (a - mmu.guestAlloc) os.pageSize) := pageStart_roundUp _
  have hclear := hsafe.clear (by omega) hend
  generalize roundUp (a - mmu.guestAlloc) os.pageSize = len at *
  have htop := hc.top_le
  have hinside := hok.inside
  have hfits := hok.fits
  -- either the range was free and is where the mapping went, or it was mapped before
  have hrange : mmu.hostAlloc.toNat + len.toNat ≤ top ∧ ∀ x, Mem.InRange mmu.hostAlloc len.toNat x →
      (w.mem.map addr len.toNat Prot.rw fun _ => 0).prot x = some Prot.rw := by
    rcases hclear with hfree | hmapped
    · have hne : mmu.hostAlloc ≠ 0 := by
        intro hz
        have := hok.pos
        rw [hz] at hinside
        simp at hinside
        omega
      have haddr := hc.anon_hint hmap hne hok.endPage hfree
      rw [haddr] at hmap ⊢
      exact ⟨hc.anon_fits hmap, fun x hx => if_pos hx⟩
    · refine ⟨range_fits hok.user (by omega) hfits hmapped, fun x hx => ?_⟩
      show (if _ then _ else _) = _
      split
      · rfl
      · exact hmapped x hx
  have hsum : (mmu.hostAlloc + len).toNat = mmu.hostAlloc.toNat + len.toNat := by
    rw [BitVec.toNat_add, Nat.mod_eq_of_lt (by omega)]
  refine ⟨huser, hok.pos, hok.startPage, hok.endPage.add hpage, hle, ?_, ?_, ?_⟩
  · show (toHost mmu.base).toNat + (a.toNat - mmu.base.toNat) ≤ (mmu.hostAlloc + len).toNat
    omega
  · show (mmu.hostAlloc + len).toNat ≤ top
    omega
  · intro x hlo hhi
    change x.toNat < (mmu.hostAlloc + len).toNat at hhi
    by_cases hx : x.toNat < mmu.hostAlloc.toNat
    · show (if _ then _ else _) = _
      split
      · rfl
      · exact hok.mapped x hlo hx
    · exact hrange.2 x ⟨by omega, by omega⟩

/-- Where an address of the heap is, on the host's side. -/
theorem HeapOk.toHost_toNat (hc : MmapContract os top) {prot : Word → Option Prot}
    (hok : HeapOk os top prot mmu) {g : Word} (hlo : mmu.base.toNat ≤ g.toNat)
    (hhi : g.toNat ≤ mmu.guestAlloc.toNat) :
    (toHost g).toNat = (toHost mmu.base).toNat + (g.toNat - mmu.base.toNat) := by
  have htop := hc.top_le
  have hinside := hok.inside
  have hsplit : toHost g = toHost mmu.base + (g - mmu.base) := by
    unfold toHost
    grind
  rw [hsplit, BitVec.toNat_add, BitVec.toNat_sub_of_le (BitVec.le_def.mpr hlo),
    Nat.mod_eq_of_lt (by omega)]

/-- A break that does not rise, rounded up, as a host address: it lies in the heap or at its
end. -/
theorem HeapOk.roundedBreak (hc : MmapContract os top) (hok : HeapOk os top w.mem.prot mmu)
    (hle : mmu.base.toNat ≤ a.toNat) (hdown : a.toNat ≤ mmu.guestAlloc.toNat) :
    (toHost (roundUp a os.pageSize)).toNat =
        (toHost mmu.base).toNat + pageCeil os (a.toNat - mmu.base.toNat) ∧
      (toHost mmu.base).toNat + pageCeil os (a.toNat - mmu.base.toNat) ≤ mmu.hostAlloc.toNat := by
  have htop := hc.top_le
  have hinside := hok.inside
  have hfits := hok.fits
  have hbase : PageStart os mmu.base := by
    have h := pageStart_toGuest hok.startPage
    rwa [toGuest_toHost] at h
  have hdist : (a - mmu.base).toNat = a.toNat - mmu.base.toNat :=
    BitVec.toNat_sub_of_le (BitVec.le_def.mpr hle)
  have hceil : (roundUp (a - mmu.base) os.pageSize).toNat = pageCeil os (a.toNat - mmu.base.toNat) := by
    rw [roundUp_toNat (by omega), hdist]
  have hround : pageCeil os (a.toNat - mmu.base.toNat) ≤
      mmu.hostAlloc.toNat - (toHost mmu.base).toNat :=
    Align.ceil_le_of_dvd (by omega) (Nat.dvd_sub hok.endPage hok.startPage)
  -- in words, it is the base and the rounded distance of the break from it
  have hend : toHost (roundUp a os.pageSize) =
      toHost mmu.base + roundUp (a - mmu.base) os.pageSize := by
    have hadd := roundUp_add hbase (a - mmu.base)
    rw [add_sub_cancel] at hadd
    rw [hadd]
    unfold toHost
    grind
  refine ⟨?_, by omega⟩
  rw [hend, BitVec.toNat_add, hceil, Nat.mod_eq_of_lt (by omega)]

/-- Something given back.  What is unmapped lies behind the end of what is mapped. -/
theorem HeapOk.shrinks (hc : MmapContract os top) (hok : HeapOk os top w.mem.prot mmu)
    (hle : mmu.base.toNat ≤ a.toNat) (hdown : a.toNat ≤ mmu.guestAlloc.toNat) {len : Word}
    (hlen : len = toGuest mmu.hostAlloc - roundUp a os.pageSize)
    (huser : UserSpace top (w.mem.unmap mmu.hostAlloc len.toNat).prot) :
    HeapOk os top (w.mem.unmap mmu.hostAlloc len.toNat).prot
      { mmu with guestAlloc := a, hostAlloc := mmu.hostAlloc - len } := by
  have hfits := hok.fits
  obtain ⟨hrounded, hround⟩ := hok.roundedBreak hc hle hdown
  have hend : mmu.hostAlloc - len = toHost (roundUp a os.pageSize) := by
    rw [hlen]
    unfold toGuest toHost
    grind
  have hself : a.toNat - mmu.base.toNat ≤ pageCeil os (a.toNat - mmu.base.toNat) :=
    Align.le_ceil _ _
  refine ⟨huser, hok.pos, hok.startPage, ?_, hle, ?_, ?_, ?_⟩
  · show PageStart os (mmu.hostAlloc - len)
    rw [hend]
    exact (pageStart_roundUp a).add pageStart_offset
  · show (toHost mmu.base).toNat + (a.toNat - mmu.base.toNat) ≤ (mmu.hostAlloc - len).toNat
    rw [hend]
    omega
  · show (mmu.hostAlloc - len).toNat ≤ top
    rw [hend]
    omega
  · intro x hlo hhi
    change x.toNat < (mmu.hostAlloc - len).toNat at hhi
    rw [hend] at hhi
    show (if _ then _ else _) = _
    rw [if_neg (fun hin : Mem.InRange mmu.hostAlloc len.toNat x => by have := hin.1; omega)]
    exact hok.mapped x hlo (by omega)

/-- The mappings left alone. -/
theorem HeapOk.stays (hok : HeapOk os top w.mem.prot mmu) (hle : mmu.base.toNat ≤ a.toNat)
    (hin : a.toNat ≤ mmu.guestAlloc.toNat ∨ a.toNat ≤ (toGuest mmu.hostAlloc).toNat) :
    HeapOk os top w.mem.prot { mmu with guestAlloc := a } := by
  have hinside := hok.inside
  refine ⟨hok.user, hok.pos, hok.startPage, hok.endPage, hle, ?_, hok.fits, hok.mapped⟩
  show (toHost mmu.base).toNat + (a.toNat - mmu.base.toNat) ≤ mmu.hostAlloc.toNat
  rcases hin with hdown | hend
  · omega
  · -- the guest's view of the end is no further from the base than the host's
    have hguest : (toGuest mmu.hostAlloc).toNat ≤
        mmu.base.toNat + (mmu.hostAlloc.toNat - (toHost mmu.base).toNat) := by
      have hsplit : toGuest mmu.hostAlloc = mmu.base + (mmu.hostAlloc - toHost mmu.base) := by
        unfold toGuest toHost
        grind
      rw [hsplit, BitVec.toNat_add, BitVec.toNat_sub_of_le (BitVec.le_def.mpr (by omega))]
      exact Nat.mod_le _ _
    omega

/-- **A safe request keeps the heap.** -/
theorem HeapOk.step (hc : MmapContract os top) (hok : HeapOk os top w.mem.prot mmu)
    (hle : mmu.base.toNat ≤ a.toNat) (hsafe : BrkSafe os w mmu a)
    (h : AllocKind os w mmu (a - mmu.guestAlloc) w' mmu') : HeapOk os top w'.mem.prot mmu' := by
  have huser := h.userSpace hc hok.user
  have ha : mmu.guestAlloc + (a - mmu.guestAlloc) = a := add_sub_cancel _ _
  cases h with
  | grows hpos hend hmap =>
      rw [ha] at hend ⊢
      exact hok.grows hc hle hsafe hpos hend hmap huser
  | shrinks hneg hend hlen hunmap =>
      rw [ha] at hlen ⊢
      refine hok.shrinks hc hle ?_ hlen huser
      rcases hsafe.near with hdown | hsmall
      · exact hdown
      · omega
  | stays hgrow hshrink =>
      rw [ha] at hgrow ⊢
      refine hok.stays hle ?_
      rcases hsafe.near with hdown | hsmall
      · exact .inl hdown
      · rcases Nat.eq_zero_or_pos (a - mmu.guestAlloc).toNat with hz | hpos
        · have hsub := BitVec.toNat_sub a mmu.guestAlloc
          exact .inl (by omega)
        · exact .inr (hgrow hpos hsmall)

/-- The two addresses lie on one page. -/
def SamePage (os : Os) (x y : Word) : Prop :=
  x.toNat / 2 ^ os.pageShift = y.toNat / 2 ^ os.pageShift

/-- Every page that overlaps the guest's range from the base to the break is mapped for reading
and writing. -/
def BreakMapped (os : Os) (m : Machine) : Prop :=
  ∀ g x : Word, m.mmu.base.toNat ≤ g.toNat → g.toNat < m.mmu.guestAlloc.toNat →
    SamePage os (toHost g) x → m.state.world.mem.prot x = some Prot.rw

/-- What the invariant is for. -/
theorem HeapOk.breakMapped (hc : MmapContract os top) {m : Machine}
    (hok : HeapOk os top m.state.world.mem.prot m.mmu) : BreakMapped os m := by
  intro g x hlo hhi hsame
  have hinside := hok.inside
  have hpage := Nat.two_pow_pos os.pageShift
  have hg := hok.toHost_toNat hc hlo (Nat.le_of_lt hhi)
  obtain ⟨b, hb⟩ := hok.startPage
  obtain ⟨e, he⟩ := hok.endPage
  have hxlo : b ≤ x.toNat / 2 ^ os.pageShift := by
    rw [← hsame, Nat.le_div_iff_mul_le hpage, Nat.mul_comm]
    omega
  have hxhi : x.toNat / 2 ^ os.pageShift < e := by
    rw [← hsame, Nat.div_lt_iff_lt_mul hpage, Nat.mul_comm]
    omega
  rw [Nat.le_div_iff_mul_le hpage, Nat.mul_comm] at hxlo
  rw [Nat.div_lt_iff_lt_mul hpage, Nat.mul_comm] at hxhi
  exact hok.mapped x (by omega) (by omega)

/-- Any history of safe requests keeps the heap. -/
theorem HeapOk.run (hc : MmapContract os top) {m m' : Machine} {as : List Word}
    (h : BrkRun os (BrkSafe os) m as m') (hok : HeapOk os top m.state.world.mem.prot m.mmu) :
    HeapOk os top m'.state.world.mem.prot m'.mmu :=
  h.invariant (fun hI hle hsafe hkind => HeapOk.step hc hI hle hsafe hkind) hok

end

end Rvemu
