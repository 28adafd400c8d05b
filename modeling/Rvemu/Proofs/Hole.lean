/-
Where the heap keeps its pages, and how it loses one.

From any setup, a history of safe requests keeps every page of the heap mapped.
The condition cannot be left out.  When the break sinks, `mmu_alloc` unmaps the
range that starts at the old end of what is mapped, not the one that ends there; so
the pages given back stay where they are, and a later request that needs more than
these finds its range half taken.  The host then places the memory elsewhere, and
nobody looks.

`pagingOs` is a host that keeps the contract, to see it happen.
-/
import Rvemu.Proofs.Boot

namespace Rvemu

open Memory

/-- **Safe requests keep the heap mapped.**  After any history of them, from any setup, every
page that overlaps the range from the base to the break is mapped for reading and writing. -/
theorem brkRun_breakMapped {os : Os} {top : Nat} (hc : MmapContract os top) {prog : Reply (List (BitVec 8))}
    {phdr : List (BitVec 8)} {argv : List (List (BitVec 8))} {pad : BitVec 32} {w : World}
    {m₁ m m' : Machine} {as : List Word}
    (hload : machineLoadProgram os prog phdr (initialMachine w) = .ok m₁)
    (hfree : FreeFrom m₁.state.world.mem.prot m₁.mmu.hostAlloc.toNat)
    (hsetup : machineSetup os argv pad m₁ = .ok m) (hrun : BrkRun os (BrkSafe os) m as m') :
    BreakMapped os m' :=
  (HeapOk.run hc hrun (machineSetup_ok hc hload hfree hsetup).heap).breakMapped hc

/-! ### A host that keeps the contract -/

/-- Where it puts what does not fit at the hint. -/
def farAway : Word := 0x100000000000

open Classical in
/-- The hint, if it is free. -/
noncomputable def pagingPlace (mem : Mem 64) (hint len : Word) : Word :=
  if mem.FreeRange hint len.toNat then hint else farAway

open Classical in
/-- A host that grants what it can. -/
noncomputable def pagingOs : Os :=
  { grantingOs with
    mmapAnon := fun _ mem hint len =>
      if mem.FreeRange (pagingPlace mem hint len) len.toNat ∧
          (pagingPlace mem hint len).toNat + len.toNat ≤ userTop then
        .ok (pagingPlace mem hint len)
      else .fail 12 }

theorem pagingOs_anon {clock : Nat} {mem : Mem 64} {hint len addr : Word} :
    pagingOs.mmapAnon clock mem hint len = .ok addr ↔
      addr = pagingPlace mem hint len ∧ mem.FreeRange addr len.toNat ∧
        addr.toNat + len.toNat ≤ userTop := by
  dsimp only [pagingOs]
  split
  · rename_i hok
    constructor
    · intro h
      cases h
      exact ⟨rfl, hok⟩
    · rintro ⟨rfl, -⟩
      rfl
  · rename_i hno
    constructor
    · intro h
      cases h
    · rintro ⟨rfl, hok⟩
      exact absurd hok hno

theorem pagingOs_contract : MmapContract pagingOs userTop where
  top_le := by decide
  anon_fits := fun h => (pagingOs_anon.mp h).2.2
  anon_free := fun h => (pagingOs_anon.mp h).2.1
  anon_hint := fun h _ _ hfree => (pagingOs_anon.mp h).1.trans (if_pos hfree)
  fixed_fits := by
    intro clock mem addr len h
    dsimp only [pagingOs, grantingOs] at h
    split at h
    · rename_i hok
      exact hok
    · cases h

theorem mmuLoadSegment_congr {os os' : Os} (hpage : os.pageSize = os'.pageSize)
    (hmap : os.mmapFixed = os'.mmapFixed) : mmuLoadSegment os = mmuLoadSegment os' := by
  funext w mmu phdr file
  unfold mmuLoadSegment
  rw [hpage, hmap]

/-- It loads programs as the other host does. -/
theorem loadPhdrs_paging (ehdr : Elf64Ehdr) (file : List (BitVec 8)) (i n : Nat)
    (phdr : List (BitVec 8)) (w : World) (mmu : Mmu) :
    loadPhdrs pagingOs ehdr file i n phdr w mmu = loadPhdrs grantingOs ehdr file i n phdr w mmu := by
  have hseg : mmuLoadSegment pagingOs = mmuLoadSegment grantingOs := mmuLoadSegment_congr rfl rfl
  induction n generalizing i phdr w mmu with
  | zero => rfl
  | succ n ih => simp only [loadPhdrs, hseg, ih]

theorem machineLoadProgram_paging (prog : Reply (List (BitVec 8))) (phdr : List (BitVec 8))
    (m : Machine) :
    machineLoadProgram pagingOs prog phdr m = machineLoadProgram grantingOs prog phdr m := by
  cases prog with
  | fail errno => rfl
  | ok file => simp only [machineLoadProgram, mmuLoadElf, loadPhdrs_paging]

/-- An allocation that fits behind what is mapped is the other host's. -/
theorem mmuAlloc_paging {w : World} {mmu : Mmu} {size : Word}
    (hfree : FreeFrom w.mem.prot mmu.hostAlloc.toNat)
    (hfits : mmu.hostAlloc.toNat + (roundUp size 0x1000).toNat ≤ userTop) :
    mmuAlloc pagingOs w mmu size = mmuAlloc grantingOs w mmu size := by
  have hmap : pagingOs.mmapAnon w.clock w.mem mmu.hostAlloc (roundUp size pagingOs.pageSize) =
      grantingOs.mmapAnon w.clock w.mem mmu.hostAlloc (roundUp size grantingOs.pageSize) :=
    pagingOs_anon.mpr ⟨(if_pos fun x hx => hfree x hx.1).symm, fun x hx => hfree x hx.1, hfits⟩
  unfold mmuAlloc
  dsimp only
  rw [hmap]
  rfl

/-- The argument strings take no more than their room. -/
theorem pushArgs_end_le {os : Os} {args : List (List (BitVec 8))} {w w' : World} {mmu mmu' : Mmu}
    {sp sp' : Word} (hroom : argRoom os args ≤ 2 ^ 62)
    (h : pushArgs os args w mmu sp = .ok (w', mmu', sp')) :
    mmu'.hostAlloc.toNat ≤ mmu.hostAlloc.toNat + argRoom os args := by
  induction args generalizing w' mmu' sp' with
  | nil =>
      cases h
      exact Nat.le_refl _
  | cons arg rest ih =>
      obtain ⟨w₁, mmu₁, sp₁, w₂, w₃, hrest, halloc, -⟩ := pushArgs_cons_inv h
      rw [argRoom] at hroom ⊢
      have hself : arg.length + 1 ≤ pageCeil os (arg.length + 1) := Align.le_ceil _ _
      have hsize := argSize_eq arg (by omega)
      have hend := (mmuAlloc_inv halloc).2.2.2.end_le (by omega)
      rw [hsize] at hend
      have hle := ih (by omega) hrest
      omega

/-- So are the argument strings, as far as they fit. -/
theorem pushArgs_paging {args : List (List (BitVec 8))} {w : World} {mmu : Mmu} (sp : Word)
    (hok : SetupOk pagingOs userTop w mmu)
    (hfits : mmu.hostAlloc.toNat + argRoom pagingOs args ≤ userTop) :
    pushArgs pagingOs args w mmu sp = pushArgs grantingOs args w mmu sp := by
  have htop : userTop < 2 ^ 62 := by decide
  induction args with
  | nil => rfl
  | cons arg rest ih =>
      rw [argRoom] at hfits
      have hrest := ih (by omega)
      have hself : arg.length + 1 ≤ pageCeil pagingOs (arg.length + 1) := Align.le_ceil _ _
      have hsize := argSize_eq arg (by omega)
      have hround : (roundUp (BitVec.ofNat 64 arg.length + 1) pagingOs.pageSize).toNat =
          pageCeil pagingOs (arg.length + 1) := by
        rw [roundUp_toNat (by omega), hsize]
      simp only [pushArgs]
      rw [← hrest]
      cases hpush : pushArgs pagingOs rest w mmu sp with
      | error e => rfl
      | ok p =>
          obtain ⟨w₁, mmu₁, sp₁⟩ := p
          have hend := pushArgs_end_le (by omega) hpush
          rw [ok_bind, ok_bind]
          dsimp only
          rw [mmuAlloc_paging (hok.pushArgs pagingOs_contract hpush).free]
          change (roundUp _ 0x1000).toNat = _ at hround
          omega

/-- A program that the other host runs, not too far up, runs on this one. -/
theorem boot_paging {file phdr : List (BitVec 8)} {argv : List (List (BitVec 8))} {m₁ m : Machine}
    (hload : machineLoadProgram grantingOs (.ok file) phdr (initialMachine default) = .ok m₁)
    (hsetup : machineSetup grantingOs argv 0 m₁ = .ok m) (hpos : 0 < m₁.mmu.hostAlloc.toNat)
    (hfits : m₁.mmu.hostAlloc.toNat + setupRoom pagingOs argv.tail ≤ userTop) :
    machineLoadProgram pagingOs (.ok file) phdr (initialMachine default) = .ok m₁ ∧
      FreeFrom m₁.state.world.mem.prot m₁.mmu.hostAlloc.toNat ∧
      machineSetup pagingOs argv 0 m₁ = .ok m := by
  have hstack : (roundUp stackSize 0x1000).toNat = pageCeil pagingOs stackSize.toNat := by decide
  rw [setupRoom] at hfits
  rw [← machineLoadProgram_paging] at hload
  have hfree : FreeFrom m₁.state.world.mem.prot m₁.mmu.hostAlloc.toNat := fun x hx =>
    machineLoadProgram_behind pagingOs_contract hload hx
  refine ⟨hload, hfree, ?_⟩
  rw [← hsetup]
  obtain ⟨⟨addr, w₁, mmu₁⟩, halloc, -⟩ := bind_ok_inv hsetup
  have hsame : mmuAlloc pagingOs m₁.state.world m₁.mmu stackSize = _ :=
    mmuAlloc_paging hfree (by omega)
  have hloaded : Loaded pagingOs userTop m₁.mmu := by
    rcases machineLoadProgram_loaded pagingOs_contract hload with ⟨entry, hstart⟩ | hloaded
    · rw [hstart] at hpos
      exact absurd hpos (Nat.lt_irrefl _)
    · exact hloaded
  have hok₁ := (hloaded.setupOk hfree).alloc pagingOs_contract (by decide) (hsame.trans halloc)
  have hend := (mmuAlloc_inv (hsame.trans halloc)).2.2.2.end_le (by decide)
  unfold machineSetup
  rw [hsame, halloc, ok_bind, ok_bind]
  dsimp only
  rw [pushArgs_paging _ hok₁ (by omega)]

/-- The machine that runs the sample, on this host. -/
theorem pagingOs_boot :
    ∃ m₁ m, machineLoadProgram pagingOs (.ok (elfImage [])) [] (initialMachine default) = .ok m₁ ∧
      FreeFrom m₁.state.world.mem.prot m₁.mmu.hostAlloc.toNat ∧
      machineSetup pagingOs sampleArgv 0 m₁ = .ok m ∧
      m.mmu = ⟨0x10078, 0x88802012000, 0x2011002, 0x11000⟩ := by
  have hok : (bootCode grantingOs []).map (fun m => m.mmu) =
      .ok ⟨0x10078, 0x88802012000, 0x2011002, 0x11000⟩ := by decide +kernel
  have hok₁ : (machineLoadProgram grantingOs (.ok (elfImage [])) [] (initialMachine default)).map
      (fun m => m.mmu) = .ok ⟨0x10078, 0x88800011000, 0x11000, 0x11000⟩ := by decide +kernel
  obtain ⟨m, hboot, hmmu⟩ := map_ok_inv hok
  obtain ⟨m₁, hload, hsetup⟩ := boot_inv hboot
  rw [hload] at hok₁
  have hmmu₁ : m₁.mmu = ⟨0x10078, 0x88800011000, 0x11000, 0x11000⟩ := Except.ok.inj hok₁
  obtain ⟨hload', hfree, hsetup'⟩ :=
    boot_paging hload hsetup (by rw [hmmu₁]; decide) (by rw [hmmu₁]; decide)
  exact ⟨m₁, m, hload', hfree, hsetup', hmmu⟩

section

variable {os : Os} {m : Machine} {a : Word}

/-- The machine after a request that was granted. -/
def Machine.granted (m : Machine) (a hostAlloc : Word) (mem : Mem 64) : Machine :=
  { (m.asking a).withWorld (m.state.world.withMem mem).tick with
    mmu := { m.mmu with guestAlloc := a, hostAlloc := hostAlloc } }

theorem sysBrk_asking (h₀ : a ≠ 0) (hle : m.mmu.base.toNat ≤ a.toNat) :
    sysBrk os (m.asking a) =
      (mmuAlloc os m.state.world m.mmu (a - m.mmu.guestAlloc)).map
        fun p => (a, { (m.asking a).withWorld p.2.1 with mmu := p.2.2 }) := by
  have ha := asking_gp m a
  rw [sysBrk_eq (by rw [ha]; exact h₀) (by rw [ha]; exact hle), ha]
  rfl

/-- A request for more than is mapped, where the host places the rest at `addr`. -/
theorem sysBrk_grows (hbase : m.mmu.base.toNat ≤ m.mmu.guestAlloc.toNat)
    (hle : m.mmu.base.toNat ≤ a.toNat) (h₀ : a ≠ 0) {len addr : Word}
    (hlen : len = roundUp (a - m.mmu.guestAlloc) os.pageSize)
    (hpos : (0 : Word).slt (a - m.mmu.guestAlloc) = true)
    (hend : (toGuest m.mmu.hostAlloc).ult a = true)
    (hmap : os.mmapAnon m.state.world.clock m.state.world.mem m.mmu.hostAlloc len = .ok addr) :
    sysBrk os (m.asking a) = .ok (a, m.granted a (m.mmu.hostAlloc + len)
      (m.state.world.mem.map addr len.toNat Prot.rw fun _ => 0)) := by
  have ha : m.mmu.guestAlloc + (a - m.mmu.guestAlloc) = a := add_sub_cancel _ _
  rw [hlen] at hmap ⊢
  rw [sysBrk_asking h₀ hle]
  unfold mmuAlloc
  simp only [ha, hpos, hend, hmap, (ule_iff _ _).mpr hbase, (ule_iff _ _).mpr hle, assertThat,
    Bool.and_true, if_true, bind, Except.bind]
  rfl

/-- A request that sinks the break by a page or more below what is mapped. -/
theorem sysBrk_shrinks (hbase : m.mmu.base.toNat ≤ m.mmu.guestAlloc.toNat)
    (hle : m.mmu.base.toNat ≤ a.toNat) (h₀ : a ≠ 0) {len : Word}
    (hlen : len = toGuest m.mmu.hostAlloc - roundUp a os.pageSize)
    (hneg : (a - m.mmu.guestAlloc).slt 0 = true)
    (hpos : (0 : Word).slt (a - m.mmu.guestAlloc) = false)
    (hend : (roundUp a os.pageSize).ult (toGuest m.mmu.hostAlloc) = true)
    (hunmap : os.munmap m.state.world.clock m.state.world.mem m.mmu.hostAlloc len = .ok ()) :
    sysBrk os (m.asking a) = .ok (a, m.granted a (m.mmu.hostAlloc - len)
      (m.state.world.mem.unmap m.mmu.hostAlloc len.toNat)) := by
  have ha : m.mmu.guestAlloc + (a - m.mmu.guestAlloc) = a := add_sub_cancel _ _
  rw [hlen] at hunmap ⊢
  rw [sysBrk_asking h₀ hle]
  unfold mmuAlloc
  simp only [ha, hneg, hpos, hend, hunmap, (ule_iff _ _).mpr hbase, (ule_iff _ _).mpr hle,
    assertThat, Bool.and_true, Bool.false_and, Bool.false_eq_true, if_true, if_false, bind,
    Except.bind]
  rfl

end

/-- A request that the program makes and that is granted, and then the rest of a history. -/
theorem BrkRun.ask {os : Os} {P : World → Mmu → Word → Prop} {m m₁ m' : Machine} {a r : Word}
    {as : List Word} (hbrk : sysBrk os (m.asking a) = .ok (r, m₁))
    (hP : P m.state.world m.mmu (brkTarget m.mmu a)) (h : BrkRun os P m₁ as m') :
    BrkRun os P m (a :: as) m' := by
  have hrun := BrkRun.brk hbrk (by rw [asking_gp]; exact hP) h
  rw [asking_gp] at hrun
  refine .guest ?_ ?_ hrun <;> rfl

/-- What does not fit behind the sample's stack and argument goes far away. -/
theorem pagingOs_far {clock : Nat} {mem : Mem 64} {len : Word}
    (htaken : mem.prot 0x88802012000 = some Prot.rw) (hfree : FreeFrom mem.prot 0x88802014000)
    (hpos : 0 < len.toNat) (hfits : farAway.toNat + len.toNat ≤ userTop) :
    pagingOs.mmapAnon clock mem 0x88802012000 len = .ok farAway := by
  have hfar : farAway.toNat = 0x100000000000 := rfl
  refine pagingOs_anon.mpr ⟨(if_neg fun hrange => ?_).symm, fun x hx => ?_, hfits⟩
  · have hnone := hrange 0x88802012000 ⟨Nat.le_refl _, by omega⟩
    rw [htaken] at hnone
    cases hnone
  · have hlo := hx.1
    exact hfree x (by omega)

/-- The sample's first request for more: a page. -/
theorem pagingOs_first {m : Machine} (hfree : FreeFrom m.state.world.mem.prot 0x88802012000)
    (hmmu : m.mmu = ⟨0x10078, 0x88802012000, 0x2011002, 0x11000⟩) :
    sysBrk pagingOs (m.asking 0x2012002) = .ok (0x2012002, m.granted 0x2012002 0x88802013000
      (m.state.world.mem.map 0x88802012000 4096 Prot.rw fun _ => 0)) := by
  have hmap : pagingOs.mmapAnon m.state.world.clock m.state.world.mem m.mmu.hostAlloc 0x1000 =
      .ok 0x88802012000 := by
    have hrange : m.state.world.mem.FreeRange 0x88802012000 (0x1000 : Word).toNat :=
      fun x hx => hfree x hx.1
    rw [hmmu]
    exact pagingOs_anon.mpr ⟨(if_pos hrange).symm, hrange, by decide⟩
  have hgrow : sysBrk pagingOs (m.asking 0x2012002) = _ :=
    sysBrk_grows (by rw [hmmu]; decide) (by rw [hmmu]; decide) (by decide) (by rw [hmmu]; decide)
      (by rw [hmmu]; decide) (by rw [hmmu]; decide) hmap
  rw [hgrow, hmmu]
  rfl

/-- The sample after the break rose by a page and sank by it: the page is still there. -/
structure Sunk (m m₂ m₃ : Machine) : Prop where
  rise : sysBrk pagingOs (m.asking 0x2012002) = .ok (0x2012002, m₂)
  sink : sysBrk pagingOs (m₂.asking 0x2011002) = .ok (0x2011002, m₃)
  risen : m₂.mmu = ⟨0x10078, 0x88802013000, 0x2012002, 0x11000⟩
  sunk : m₃.mmu = ⟨0x10078, 0x88802012000, 0x2011002, 0x11000⟩
  page : ∀ x, Mem.InRange 0x88802012000 0x1000 x → m₃.state.world.mem.prot x = some Prot.rw
  behind : FreeFrom m₃.state.world.mem.prot 0x88802013000

theorem pagingOs_sunk {m : Machine} (hfree : FreeFrom m.state.world.mem.prot 0x88802012000)
    (hmmu : m.mmu = ⟨0x10078, 0x88802012000, 0x2011002, 0x11000⟩) : ∃ m₂ m₃, Sunk m m₂ m₃ := by
  have hfirst := pagingOs_first hfree hmmu
  generalize hm₂ : m.granted 0x2012002 0x88802013000
    (m.state.world.mem.map 0x88802012000 4096 Prot.rw fun _ => 0) = m₂ at hfirst
  have hmmu₂ : m₂.mmu = ⟨0x10078, 0x88802013000, 0x2012002, 0x11000⟩ := by
    rw [← hm₂, Machine.granted, hmmu]
  have hlen : 0x1000 = toGuest m₂.mmu.hostAlloc - roundUp 0x2011002 pagingOs.pageSize := by
    rw [hmmu₂]
    decide
  have hsecond : sysBrk pagingOs (m₂.asking 0x2011002) = _ :=
    sysBrk_shrinks (by rw [hmmu₂]; decide) (by rw [hmmu₂]; decide) (by decide) hlen
      (by rw [hmmu₂]; decide) (by rw [hmmu₂]; decide) (by rw [hmmu₂]; decide) rfl
  rw [hmmu₂] at hsecond
  generalize hm₃ : m₂.granted _ _ _ = m₃ at hsecond
  have hprot (x : Word) : m₃.state.world.mem.prot x =
      if Mem.InRange 0x88802013000 4096 x then none
      else if Mem.InRange 0x88802012000 4096 x then some Prot.rw
      else m.state.world.mem.prot x := by
    rw [← hm₃, ← hm₂]
    rfl
  have hlo : (0x88802012000 : Word).toNat = 0x88802012000 := rfl
  have hhi : (0x88802013000 : Word).toNat = 0x88802013000 := rfl
  refine ⟨m₂, m₃, hfirst, hsecond, hmmu₂, ?_, fun x hx => ?_, fun x hx => ?_⟩
  · rw [← hm₃, Machine.granted, hmmu₂]
    rfl
  · rw [hprot, if_neg fun hin => absurd hin.1 (by have := hx.2; omega), if_pos hx]
  · rw [hprot, if_neg (c := Mem.InRange 0x88802012000 _ _) fun hin => absurd hin.2 (by omega),
      hfree x (by omega), ite_self]

/-- The break rises by a page, sinks by it, and rises by it again: the host puts the second page
elsewhere, where it is not needed. -/
theorem brkRun_breakMapped_sample :
    ∃ m₁ m m', machineLoadProgram pagingOs (.ok (elfImage [])) [] (initialMachine default) = .ok m₁ ∧
      machineSetup pagingOs sampleArgv 0 m₁ = .ok m ∧
      BrkRun pagingOs (BrkSafe pagingOs) m [0x2012002, 0x2011002, 0x2012002] m' ∧
      m'.mmu.guestAlloc = 0x2012002 ∧ BreakMapped pagingOs m' := by
  obtain ⟨m₁, m, hload, hfree₁, hsetup, hmmu⟩ := pagingOs_boot
  have hfree := (machineSetup_ok pagingOs_contract hload hfree₁ hsetup).free
  rw [hmmu] at hfree
  obtain ⟨m₂, m₃, hsunk⟩ := pagingOs_sunk hfree hmmu
  have hrise : BrkSafe pagingOs m.state.world m.mmu 0x2012002 := by
    refine ⟨.inr (by rw [hmmu]; decide), fun _ _ => .inl fun x hx => hfree x ?_⟩
    rw [hmmu] at hx
    exact hx.1
  have hsink : BrkSafe pagingOs m₂.state.world m₂.mmu 0x2011002 := by
    rw [hsunk.risen]
    exact ⟨.inl (by decide), fun hup => absurd hup (by decide)⟩
  have hagain : BrkSafe pagingOs m₃.state.world m₃.mmu 0x2012002 := by
    rw [hsunk.sunk]
    exact ⟨.inr (by decide), fun _ _ => .inr hsunk.page⟩
  have hmap : pagingOs.mmapAnon m₃.state.world.clock m₃.state.world.mem m₃.mmu.hostAlloc 0x1000 =
      .ok farAway := by
    rw [hsunk.sunk]
    exact pagingOs_far (hsunk.page _ (by decide)) (fun x hx => hsunk.behind x (by omega))
      (by decide) (by decide)
  have hthird : sysBrk pagingOs (m₃.asking 0x2012002) = _ :=
    sysBrk_grows (by rw [hsunk.sunk]; decide) (by rw [hsunk.sunk]; decide) (by decide)
      (by rw [hsunk.sunk]; decide) (by rw [hsunk.sunk]; decide) (by rw [hsunk.sunk]; decide) hmap
  have hrun := BrkRun.ask hsunk.rise hrise (.ask hsunk.sink hsink (.ask hthird hagain (.done _)))
  exact ⟨m₁, m, _, hload, hsetup, hrun, rfl,
    brkRun_breakMapped pagingOs_contract hload hfree₁ hsetup hrun⟩

/-- The break rises by a page, sinks by it, and rises by two.  The page that was given back is
still there, so the two pages do not fit behind the old ones; the host places them elsewhere,
and the second page of the new heap is not mapped. -/
theorem brk_leaves_hole :
    ∃ m₁ m m', MmapContract pagingOs userTop ∧
      machineLoadProgram pagingOs (.ok (elfImage [])) [] (initialMachine default) = .ok m₁ ∧
      FreeFrom m₁.state.world.mem.prot m₁.mmu.hostAlloc.toNat ∧
      machineSetup pagingOs sampleArgv 0 m₁ = .ok m ∧
      BrkRun pagingOs (fun _ _ _ => True) m [0x2012002, 0x2011002, 0x2013002] m' ∧
      ¬BreakMapped pagingOs m' := by
  obtain ⟨m₁, m, hload, hfree₁, hsetup, hmmu⟩ := pagingOs_boot
  have hfree := (machineSetup_ok pagingOs_contract hload hfree₁ hsetup).free
  rw [hmmu] at hfree
  obtain ⟨m₂, m₃, hsunk⟩ := pagingOs_sunk hfree hmmu
  have hmap : pagingOs.mmapAnon m₃.state.world.clock m₃.state.world.mem m₃.mmu.hostAlloc 0x2000 =
      .ok farAway := by
    rw [hsunk.sunk]
    exact pagingOs_far (hsunk.page _ (by decide)) (fun x hx => hsunk.behind x (by omega))
      (by decide) (by decide)
  have hthird : sysBrk pagingOs (m₃.asking 0x2013002) = _ :=
    sysBrk_grows (by rw [hsunk.sunk]; decide) (by rw [hsunk.sunk]; decide) (by decide)
      (by rw [hsunk.sunk]; decide) (by rw [hsunk.sunk]; decide) (by rw [hsunk.sunk]; decide) hmap
  rw [hsunk.sunk] at hthird
  generalize hm₄ : m₃.granted _ _ _ = m₄ at hthird
  have hmmu₄ : m₄.mmu = ⟨0x10078, 0x88802014000, 0x2013002, 0x11000⟩ := by
    rw [← hm₄, Machine.granted, hsunk.sunk]
    rfl
  have hprot₄ (x : Word) : m₄.state.world.mem.prot x =
      if Mem.InRange farAway (0x2000 : Word).toNat x then some Prot.rw
      else m₃.state.world.mem.prot x := by
    rw [← hm₄]
    rfl
  refine ⟨m₁, m, m₄, pagingOs_contract, hload, hfree₁, hsetup,
    .ask hsunk.rise trivial (.ask hsunk.sink trivial (.ask hthird trivial (.done _))),
    fun hmapped => ?_⟩
  have haddr : toHost 0x2013000 = 0x88802013000 := by decide
  have hhole := hmapped 0x2013000 0x88802013000 (by rw [hmmu₄]; decide) (by rw [hmmu₄]; decide)
    (by rw [haddr, SamePage])
  rw [hprot₄, if_neg (by decide), hsunk.behind _ (by decide)] at hhole
  cases hhole

end Rvemu
