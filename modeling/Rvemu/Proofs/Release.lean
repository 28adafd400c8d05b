/-
What the allocator gives back.

When the break sinks by a page or more below the end of what is mapped, the pages
between the new end and the old one should go.  `mmu_alloc` computes how many bytes
these are, and then unmaps as many behind the old end.  So it keeps what it should
give back, and takes from whoever has mappings there.  A call that does not sink the
break so far unmaps nothing.
-/
import Rvemu.Proofs.Hole

namespace Rvemu

open Memory

/-! ### The pages that should go -/

/-- The break sinks by a page or more below the end of what is mapped. -/
structure Shrinks (os : Os) (mmu : Mmu) (size : Word) : Prop where
  neg : 2 ^ 63 ≤ size.toNat
  below : (roundUp (mmu.guestAlloc + size) os.pageSize).toNat < (toGuest mmu.hostAlloc).toNat

/-- Where the heap should end after that, as a host address. -/
def newEnd (os : Os) (mmu : Mmu) (size : Word) : Word :=
  toHost (roundUp (mmu.guestAlloc + size) os.pageSize)

/-- What should go: from the new end to the old one, when the break sinks so far. -/
def GivenBack (os : Os) (mmu : Mmu) (size x : Word) : Prop :=
  Shrinks os mmu size ∧ (newEnd os mmu size).toNat ≤ x.toNat ∧ x.toNat < mmu.hostAlloc.toNat

/-- An address that was mapped before a call and is not mapped after it. -/
def Unmapped (w w' : World) (x : Word) : Prop := w.mem.prot x ≠ none ∧ w'.mem.prot x = none

/-- The call unmaps what should go: nothing behind the old end and nothing below the base. -/
structure ReleasesOwn (os : Os) (w : World) (mmu : Mmu) (size : Word) (w' : World) : Prop where
  own : ∀ x, w.mem.prot x ≠ none → (w'.mem.prot x = none ↔ GivenBack os mmu size x)
  behind : ∀ x, mmu.hostAlloc.toNat ≤ x.toNat → ¬Unmapped w w' x
  below : ∀ x, x.toNat < (toHost mmu.base).toNat → ¬Unmapped w w' x

/-- A call that does not sink the break so far; or one where nothing is mapped, neither where
it should unmap nor in as many bytes behind the old end. -/
def NothingToRelease (os : Os) (w : World) (mmu : Mmu) (size : Word) : Prop :=
  Shrinks os mmu size →
    (∀ x : Word, (newEnd os mmu size).toNat ≤ x.toNat → x.toNat < mmu.hostAlloc.toNat →
      w.mem.prot x = none) ∧
      w.mem.FreeRange mmu.hostAlloc (mmu.hostAlloc - newEnd os mmu size).toNat

section

variable {os : Os} {w w' : World} {mmu mmu' : Mmu} {size b : Word}

/-! ### One call -/

/-- **What a call unmaps**: as many bytes as should go, but behind the old end. -/
theorem AllocKind.unmapped_iff (h : AllocKind os w mmu size w' mmu') (x : Word) :
    Unmapped w w' x ↔ Shrinks os mmu size ∧ w.mem.prot x ≠ none ∧
      Mem.InRange mmu.hostAlloc (mmu.hostAlloc - newEnd os mmu size).toNat x := by
  cases h with
  | @grows hpos hend addr hmap =>
      constructor
      · rintro ⟨hmapped, hnone⟩
        change (if _ then _ else _) = none at hnone
        split at hnone
        · cases hnone
        · exact absurd hnone hmapped
      · rintro ⟨hshrinks, -⟩
        have hneg := hshrinks.neg
        omega
  | @shrinks hneg hend len hlen hunmap =>
      have hdist : mmu.hostAlloc - newEnd os mmu size = len := by
        rw [hlen]
        unfold newEnd toHost toGuest
        grind
      rw [hdist]
      constructor
      · rintro ⟨hmapped, hnone⟩
        change (if _ then _ else _) = none at hnone
        split at hnone
        · rename_i hin
          exact ⟨⟨hneg, hend⟩, hmapped, hin⟩
        · exact absurd hnone hmapped
      · rintro ⟨-, hmapped, hin⟩
        exact ⟨hmapped, if_pos hin⟩
  | stays hgrow hshrink =>
      constructor
      · rintro ⟨hmapped, hnone⟩
        exact absurd hnone hmapped
      · rintro ⟨hshrinks, -⟩
        have hle := hshrink hshrinks.neg
        have hlt := hshrinks.below
        omega

/-- A call with nothing to release keeps every mapping. -/
theorem NothingToRelease.keeps (hnothing : NothingToRelease os w mmu size)
    (h : AllocKind os w mmu size w' mmu') (x : Word) : ¬Unmapped w w' x := by
  intro hx
  obtain ⟨hshrinks, hmapped, hin⟩ := (h.unmapped_iff x).mp hx
  exact hmapped ((hnothing hshrinks).2 x hin)

/-- A call unmaps what should go exactly when there is nothing to release. -/
theorem AllocKind.releasesOwn_iff (h : AllocKind os w mmu size w' mmu') :
    ReleasesOwn os w mmu size w' ↔ NothingToRelease os w mmu size := by
  constructor
  · intro hown hshrinks
    refine ⟨fun x hlo hhi => ?_, fun x hin => ?_⟩
    · by_contra hmapped
      have hnone := (hown.own x hmapped).mpr ⟨hshrinks, hlo, hhi⟩
      obtain ⟨-, -, hin⟩ := (h.unmapped_iff x).mp ⟨hmapped, hnone⟩
      have hbehind := hin.1
      omega
    · by_contra hmapped
      exact hown.behind x hin.1 ((h.unmapped_iff x).mpr ⟨hshrinks, hmapped, hin⟩)
  · intro hnothing
    have hkeeps := hnothing.keeps h
    refine ⟨fun x hmapped => ⟨fun hnone => ?_, ?_⟩, fun x _ => hkeeps x, fun x _ => hkeeps x⟩
    · exact absurd ⟨hmapped, hnone⟩ (hkeeps x)
    · rintro ⟨hshrinks, hlo, hhi⟩
      exact absurd ((hnothing hshrinks).1 x hlo hhi) hmapped

/-- In a heap that is in order, every call that sinks the break so far has something to
release. -/
theorem HeapOk.nothingToRelease_iff {top : Nat} (hc : MmapContract os top)
    (hok : HeapOk os top w.mem.prot mmu) (hle : mmu.base.toNat ≤ (mmu.guestAlloc + size).toNat)
    (hdown : (mmu.guestAlloc + size).toNat ≤ mmu.guestAlloc.toNat) :
    NothingToRelease os w mmu size ↔ ¬Shrinks os mmu size := by
  constructor
  · intro hnothing hshrinks
    obtain ⟨hend, hround⟩ := hok.roundedBreak hc hle hdown
    have hne : (newEnd os mmu size).toNat ≠ mmu.hostAlloc.toNat := by
      intro heq
      have hsame : newEnd os mmu size = mmu.hostAlloc := BitVec.eq_of_toNat_eq heq
      have hbelow := hshrinks.below
      rw [← hsame, newEnd, toGuest_toHost] at hbelow
      omega
    change (newEnd os mmu size).toNat = _ at hend
    have hmapped := hok.mapped (newEnd os mmu size) (by omega) (by omega)
    rw [(hnothing hshrinks).1 _ (Nat.le_refl _) (by omega)] at hmapped
    cases hmapped
  · intro hno hshrinks
    exact absurd hshrinks hno

/-! ### Histories of requests -/

/-- **Mappings survive where there is nothing to release.**  After any history of such requests
everything that was mapped still is; and from any state that is reached, a call unmaps what
should go exactly when it is such a request again. -/
theorem brkRun_releasesOwn {m m' : Machine} {as : List Word}
    (hrun : BrkRun os (fun w mmu a => NothingToRelease os w mmu (a - mmu.guestAlloc)) m as m') :
    (∀ x, m.state.world.mem.prot x ≠ none → m'.state.world.mem.prot x ≠ none) ∧
      ∀ {size b w' mmu'}, mmuAlloc os m'.state.world m'.mmu size = .ok (b, w', mmu') →
        (ReleasesOwn os m'.state.world m'.mmu size w' ↔
          NothingToRelease os m'.state.world m'.mmu size) := by
  refine ⟨fun x hx => ?_, fun h => ?_⟩
  · refine hrun.invariant (I := fun prot _ => prot x ≠ none) (fun hI _ hnothing hkind hnone => ?_) hx
    exact hnothing.keeps hkind x ⟨hI, hnone⟩
  · obtain ⟨-, -, -, hkind⟩ := mmuAlloc_inv h
    exact hkind.releasesOwn_iff

end

/-! ### A neighbour -/

/-- A world in which somebody else has a page two pages behind where the sample's setup ends. -/
def neighbourWorld : World :=
  { (default : World) with
    mem := Mem.empty.map 0x88802013000 0x1000 { read := true, write := false, exec := true }
      fun _ => 0 }

/-- The sample in that world. -/
def bootBeside : Except Stop Machine :=
  boot grantingOs (.ok (elfImage [])) [] 0 sampleArgv neighbourWorld

/-- The break rises by a page, which goes between the program's own pages and the neighbour's, and
sinks by a page again: what there is at the two pages, before and after. -/
theorem bootBeside_runs :
    (bootBeside >>= fun m => sysBrk grantingOs (m.asking 0x2012002) >>= fun p =>
      (mmuAlloc grantingOs p.2.state.world p.2.mmu (-0x1000)).map fun q =>
        ([m.mmu, p.2.mmu], [p.1, q.1],
          [p.2.state.world, q.2.1].map fun w =>
            [w.mem.prot 0x88802012000, w.mem.prot 0x88802013000])) =
      .ok ([⟨0x10078, 0x88802012000, 0x2011002, 0x11000⟩,
          ⟨0x10078, 0x88802013000, 0x2012002, 0x11000⟩], [0x2012002, 0x2012002],
        [[some Prot.rw, some ⟨true, false, true⟩], [some Prot.rw, none]]) := by
  decide +kernel

/-- The same, taken apart. -/
theorem bootBeside_run :
    ∃ (m m' : Machine) (w' : World) (mmu' : Mmu), bootBeside = .ok m ∧
      m.mmu = ⟨0x10078, 0x88802012000, 0x2011002, 0x11000⟩ ∧
      sysBrk grantingOs (m.asking 0x2012002) = .ok (0x2012002, m') ∧
      m'.mmu = ⟨0x10078, 0x88802013000, 0x2012002, 0x11000⟩ ∧
      mmuAlloc grantingOs m'.state.world m'.mmu (-0x1000) = .ok (0x2012002, w', mmu') ∧
      m'.state.world.mem.prot 0x88802013000 ≠ none ∧
      w'.mem.prot 0x88802012000 = some Prot.rw ∧ w'.mem.prot 0x88802013000 = none := by
  obtain ⟨m, hboot, h⟩ := bind_ok_inv bootBeside_runs
  obtain ⟨⟨r, m'⟩, hbrk, h⟩ := bind_ok_inv h
  obtain ⟨⟨b, w', mmu'⟩, halloc, h⟩ := map_ok_inv h
  obtain ⟨hmmus, h⟩ := Prod.mk.inj h
  obtain ⟨hanswers, hprots⟩ := Prod.mk.inj h
  simp only [List.map_cons, List.map_nil, List.cons.injEq, and_true] at hmmus hanswers hprots
  obtain ⟨hmmu, hmmu'⟩ := hmmus
  obtain ⟨hr, hb⟩ := hanswers
  obtain ⟨⟨-, hother⟩, hown, hgone⟩ := hprots
  rw [hr] at hbrk
  rw [hb] at halloc
  refine ⟨m, m', w', mmu', hboot, hmmu, hbrk, hmmu', halloc, ?_, hown, hgone⟩
  rw [hother]
  simp

theorem brkRun_releasesOwn_sample :
    ∃ (m m' : Machine) (w' : World) (mmu' : Mmu), bootBeside = .ok m ∧
      BrkRun grantingOs (fun w mmu a => NothingToRelease grantingOs w mmu (a - mmu.guestAlloc)) m
        [0x2012002] m' ∧
      mmuAlloc grantingOs m'.state.world m'.mmu (-0x1000) = .ok (0x2012002, w', mmu') ∧
      (∀ x, m.state.world.mem.prot x ≠ none → m'.state.world.mem.prot x ≠ none) ∧
      (ReleasesOwn grantingOs m'.state.world m'.mmu (-0x1000) w' ↔
        NothingToRelease grantingOs m'.state.world m'.mmu (-0x1000)) := by
  obtain ⟨m, m', w', mmu', hboot, hmmu, hbrk, -, halloc, -⟩ := bootBeside_run
  have hnothing : NothingToRelease grantingOs m.state.world m.mmu
      (brkTarget m.mmu 0x2012002 - m.mmu.guestAlloc) := by
    intro hshrinks
    have hneg := hshrinks.neg
    rw [hmmu] at hneg
    exact absurd hneg (by decide)
  have hrun := BrkRun.ask (P := fun w mmu a =>
    NothingToRelease grantingOs w mmu (a - mmu.guestAlloc)) hbrk hnothing (.done m')
  obtain ⟨hkept, hown⟩ := brkRun_releasesOwn hrun
  exact ⟨m, m', w', mmu', hboot, hrun, halloc, hkept, hown halloc⟩

/-- The page that should go stays, and the neighbour's page goes. -/
theorem shrink_unmaps_neighbour :
    ∃ (m : Machine) (w' : World) (mmu' : Mmu), MmuReachable grantingOs m.mmu ∧
      m.mmu.hostAlloc = 0x88802013000 ∧
      mmuAlloc grantingOs m.state.world m.mmu (-0x1000) = .ok (0x2012002, w', mmu') ∧
      Unmapped m.state.world w' 0x88802013000 ∧
      GivenBack grantingOs m.mmu (-0x1000) 0x88802012000 ∧
      w'.mem.prot 0x88802012000 = some Prot.rw ∧
      ¬ReleasesOwn grantingOs m.state.world m.mmu (-0x1000) w' := by
  obtain ⟨m, m', w', mmu', hboot, hmmu, hbrk, hmmu', halloc, hmapped, hown, hgone⟩ := bootBeside_run
  have hreach : MmuReachable grantingOs m'.mmu := by
    obtain ⟨m₁, hload, hsetup⟩ := boot_inv hboot
    obtain ⟨-, -, hbrk⟩ := bind_ok_inv hbrk
    obtain ⟨⟨b, w, mmu⟩, hfirst, hbrk⟩ := bind_ok_inv hbrk
    cases hbrk
    exact .alloc (machineSetup_reachable hload hsetup) hfirst
  have hunmapped : Unmapped m'.state.world w' 0x88802013000 := ⟨hmapped, hgone⟩
  have hgiven : GivenBack grantingOs m'.mmu (-0x1000) 0x88802012000 := by
    rw [hmmu']
    exact ⟨⟨by decide, by decide⟩, by decide, by decide⟩
  refine ⟨m', w', mmu', hreach, by rw [hmmu'], halloc, hunmapped, hgiven, hown, fun hreleases => ?_⟩
  exact hreleases.behind _ (by rw [hmmu']) hunmapped

end Rvemu
