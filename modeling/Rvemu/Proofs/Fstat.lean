/-
What `fstat` tells the guest.

The host fills its own `struct stat` where the guest expects another.  `seen` is what
the guest reads then: the number of links, which is eight bytes on the host, as mode
and number of links; the mode as the owner; the owner as the group; the group as the
device.  And the host's record is 16 bytes longer than the guest's.
-/
import Rvemu.Lib.Checked
import Rvemu.Proofs.Syscalls
import Rvemu.Spec.Stat

namespace Rvemu

open Memory

/-! ### One record read as the other -/

/-- The guest's view of a record of the host. -/
def HostStat.seen (s : HostStat) : GuestStat where
  mode := s.nlink.extractLsb' 0 32
  nlink := s.nlink.extractLsb' 32 32
  uid := s.mode
  gid := s.uid
  rdev := s.pad0 ++ s.gid
  size := s.size
  blksize := s.blksize.extractLsb' 0 32
  blocks := s.blocks

theorem HostStat.bytes_length (s : HostStat) : s.bytes.length = 144 := by simp [HostStat.bytes]

theorem append_extract (x : BitVec 64) : x = x.extractLsb' 32 32 ++ x.extractLsb' 0 32 := by
  apply BitVec.eq_of_getLsbD_eq
  intro i hi
  rw [BitVec.getLsbD_append]
  simp only [BitVec.getLsbD_extractLsb']
  by_cases h : i < 32
  · simp [h]
  · rw [if_neg h, decide_eq_true (show i - 32 < 32 by omega), Bool.true_and]
    congr 1
    omega

/-- Where the fields of the host's record are. -/
theorem HostStat.bytes_fields {mem : Mem 64} {a : Word} {s : HostStat}
    (h : mem.HasBytes a s.bytes) :
    mem.get (a + 16) 8 = s.nlink ∧ mem.get (a + 24) 4 = s.mode ∧ mem.get (a + 28) 4 = s.uid ∧
      mem.get (a + 32) 4 = s.gid ∧ mem.get (a + 36) 4 = s.pad0 ∧ mem.get (a + 40) 8 = s.rdev ∧
      mem.get (a + 48) 8 = s.size ∧ mem.get (a + 56) 8 = s.blksize ∧
      mem.get (a + 64) 8 = s.blocks ∧ mem.get (a + 120) 24 = s.reserved := by
  simp only [HostStat.bytes, Mem.hasBytes_append, Mem.hasBytes_bytesOf, bytesOf_length,
    BitVec.add_assoc, ← BitVec.ofNat_add, Nat.reduceAdd] at h
  obtain ⟨-, -, hnlink, hmode, huid, hgid, hpad, hrdev, hsize, hblksize, hblocks, -, -, -, hres⟩ := h
  exact ⟨hnlink, hmode, huid, hgid, hpad, hrdev, hsize, hblksize, hblocks, hres⟩

theorem GuestStat.read_hasBytes {mem : Mem 64} {a : Word} {s : HostStat}
    (h : mem.HasBytes a s.bytes) : GuestStat.read mem a = s.seen := by
  obtain ⟨hnlink, hmode, huid, hgid, hpad, -, hsize, hblksize, hblocks, -⟩ := s.bytes_fields h
  have hlinksLow : mem.get (a + 16) 4 = s.nlink.extractLsb' 0 32 := by
    have hpart := mem.get_part (a + 16) (n := 8) (i := 0) (k := 4) (by decide)
    rwa [hnlink, BitVec.add_zero] at hpart
  have hlinksHigh : mem.get (a + 20) 4 = s.nlink.extractLsb' 32 32 := by
    have hpart := mem.get_part (a + 16) (n := 8) (i := 4) (k := 4) (by decide)
    rwa [hnlink, BitVec.add_assoc] at hpart
  have hblock : mem.get (a + 56) 4 = s.blksize.extractLsb' 0 32 := by
    have hpart := mem.get_part (a + 56) (n := 8) (i := 0) (k := 4) (by decide)
    rwa [hblksize, BitVec.add_zero] at hpart
  have hrdev : mem.get (a + 32) 8 = s.pad0 ++ s.gid := by
    have hlow := mem.get_part (a + 32) (n := 8) (i := 0) (k := 4) (by decide)
    have hhigh := mem.get_part (a + 32) (n := 8) (i := 4) (k := 4) (by decide)
    rw [BitVec.add_zero] at hlow
    rw [BitVec.add_assoc] at hhigh
    refine (append_extract (mem.get (a + 32) 8)).trans ?_
    rw [← hgid, ← hpad]
    exact congrArg₂ (· ++ ·) hhigh.symm hlow.symm
  unfold GuestStat.read HostStat.seen
  rw [hlinksLow, hlinksHigh, hmode, huid, hrdev, hsize, hblock, hblocks]

/-- A record that says the same in both places: nobody's file without a mode and without a link,
and with a block size that is an `int`. -/
structure HostStat.Plain (s : HostStat) : Prop where
  nlink : s.nlink = 0
  mode : s.mode = 0
  uid : s.uid = 0
  gid : s.gid = 0
  rdev : s.rdev = s.pad0 ++ 0#32
  blksize : Checked.Fits 32 s.blksize.toInt

/-- A word whose upper half is the word has no bits at all. -/
theorem upper_eq_self_iff (x : BitVec 64) : (x.extractLsb' 32 32).toNat = x.toNat ↔ x = 0 := by
  have hlt := x.isLt
  rw [BitVec.extractLsb'_toNat, Nat.shiftRight_eq_div_pow]
  constructor
  · intro h
    apply BitVec.eq_of_toNat_eq
    show x.toNat = 0
    omega
  · rintro rfl
    rfl

/-- The lower half of a word is the word, with its sign, when it is in range. -/
theorem lower_toInt_iff (x : BitVec 64) :
    (x.extractLsb' 0 32).toInt = x.toInt ↔ Checked.Fits 32 x.toInt := by
  have hbounds : Checked.Fits 32 (x.extractLsb' 0 32).toInt := ⟨BitVec.le_toInt _, BitVec.toInt_lt⟩
  constructor
  · intro h
    rwa [h] at hbounds
  · rintro ⟨hlo, hhi⟩
    have hlow : (x.extractLsb' 0 32).toNat = x.toNat % 2 ^ 32 := BitVec.extractLsb'_toNat ..
    have hint := BitVec.toInt_eq_toNat_cond x
    rw [BitVec.toInt_eq_toNat_cond, hlow]
    omega

theorem HostStat.seen_describes_iff (s : HostStat) : s.seen.Describes s ↔ s.Plain := by
  constructor
  · intro h
    have hnlink : s.nlink = 0 := (upper_eq_self_iff s.nlink).mp h.nlink
    have hmode : s.mode = 0 := by
      rw [← h.mode]
      show s.nlink.extractLsb' 0 32 = 0
      rw [hnlink]
      rfl
    have huid : s.uid = 0 := h.uid.symm.trans hmode
    have hgid : s.gid = 0 := h.gid.symm.trans huid
    have hrdev : s.rdev = s.pad0 ++ 0#32 := h.rdev.symm.trans (congrArg (s.pad0 ++ ·) hgid)
    exact ⟨hnlink, hmode, huid, hgid, hrdev, (lower_toInt_iff s.blksize).mp h.blksize⟩
  · intro h
    refine ⟨?_, ?_, h.mode.trans h.uid.symm, h.uid.trans h.gid.symm, ?_, rfl,
      (lower_toInt_iff s.blksize).mpr h.blksize, rfl⟩
    · show s.nlink.extractLsb' 0 32 = s.mode
      rw [h.nlink, h.mode]
      rfl
    · exact (upper_eq_self_iff s.nlink).mpr h.nlink
    · show s.pad0 ++ s.gid = s.rdev
      rw [h.gid, h.rdev]
      rfl

/-! ### The bytes behind the guest's record -/

/-- No byte changes but those of the guest's record at the host address `a`. -/
def OnlyStat (a : Word) (mem mem' : Mem 64) : Prop :=
  ∀ x : Word, sizeofGuestStat ≤ (x - a).toNat → mem'.byte x = mem.byte x

/-- The host's record is longer, and its last 16 bytes go where other data may be. -/
theorem onlyStat_putList_iff (mem : Mem 64) (a : Word) (s : HostStat) :
    OnlyStat a mem (mem.putList a s.bytes) ↔
      mem.get (a + 128) 16 = s.reserved.extractLsb' 64 128 := by
  have hlen := s.bytes_length
  have hhas : (mem.putList a s.bytes).HasBytes a s.bytes :=
    mem.putList_hasBytes a (by omega)
  obtain ⟨-, -, -, -, -, -, -, -, -, hres⟩ := s.bytes_fields hhas
  have hlast : (mem.putList a s.bytes).get (a + 128) 16 = s.reserved.extractLsb' 64 128 := by
    have hpart := (mem.putList a s.bytes).get_part (a + 120) (n := 24) (i := 8) (k := 16) (by decide)
    rwa [hres, BitVec.add_assoc] at hpart
  have hoff (i : Nat) (hi : i < 16) : (a + 128 + BitVec.ofNat 64 i - a).toNat = 128 + i := by
    rw [BitVec.add_assoc, BitVec.add_comm a, BitVec.add_sub_cancel, BitVec.toNat_add]
    simp
    omega
  constructor
  · intro honly
    rw [← hlast]
    refine Mem.get_congr fun i hi => ?_
    exact (honly _ (by rw [hoff i hi]; unfold sizeofGuestStat; omega)).symm
  · intro hsame x hx
    unfold sizeofGuestStat at hx
    rcases Nat.lt_or_ge (x - a).toNat s.bytes.length with hin | hout
    · -- one of the last 16: the same byte of the same number before and after
      have haddr : x = a + 128 + BitVec.ofNat 64 ((x - a).toNat - 128) := by
        apply BitVec.eq_of_toNat_eq
        have hsub := BitVec.toNat_sub x a
        rw [BitVec.toNat_add, BitVec.toNat_add, BitVec.toNat_ofNat]
        simp
        omega
      have hk : (x - a).toNat - 128 < 16 := by omega
      rw [haddr, ← Mem.get_byte _ _ hk, ← Mem.get_byte _ _ hk, hlast, hsame]
    · exact if_neg (by omega)

/-! ### The call -/

/-- The number of `fstat`. -/
def sysFstatNumber : Word := 80

/-- The call of `fstat` hands over what the host filled in. -/
theorem handleSyscall_fstat {os : Os} {m : Machine} {bytes : List (BitVec 8)}
    (hnum : m.state.gp Reg.a7 = sysFstatNumber)
    (h : os.fstat m.state.world.clock m.state.world.mem ((m.state.gp Reg.a0).setWidth 32)
      (toHost (m.state.gp Reg.a1)) = .ok bytes) :
    ∃ m', handleSyscall os m = .ok m' ∧ m'.state.gp Reg.a0 = 0 ∧
      m'.state.world.mem = m.state.world.mem.putList (toHost (m.state.gp Reg.a1)) bytes := by
  have hcall : doSyscall os m (m.state.gp Reg.a7) =
      .ok (0, (m.deliver (toHost (m.state.gp Reg.a1)) bytes).tick) := by
    rw [doSyscall_table (k := 80) (by rw [hnum]; rfl) (by decide) rfl]
    unfold sysFstat
    simp only [h]
  exact ⟨_, handleSyscall_of hcall, gp_setGp_self _ _ _, rfl⟩

/-- **When the guest is told what the host knows.**  After an `fstat` that succeeds, the guest's
record describes the file and nothing else has changed exactly when the record is plain and the
16 bytes behind the guest's record were already the last of the host's. -/
theorem fstat_describes_iff {os : Os} {m : Machine} {s : HostStat}
    (hnum : m.state.gp Reg.a7 = sysFstatNumber)
    (h : os.fstat m.state.world.clock m.state.world.mem ((m.state.gp Reg.a0).setWidth 32)
      (toHost (m.state.gp Reg.a1)) = .ok s.bytes) :
    ∃ m', handleSyscall os m = .ok m' ∧ m'.state.gp Reg.a0 = 0 ∧
      ((GuestStat.read m'.state.world.mem (toHost (m.state.gp Reg.a1))).Describes s ∧
          OnlyStat (toHost (m.state.gp Reg.a1)) m.state.world.mem m'.state.world.mem ↔
        s.Plain ∧ m.state.world.mem.get (toHost (m.state.gp Reg.a1) + 128) 16 =
          s.reserved.extractLsb' 64 128) := by
  obtain ⟨m', hcall, ha0, hmem⟩ := handleSyscall_fstat hnum h
  refine ⟨m', hcall, ha0, ?_⟩
  have hhas : (m.state.world.mem.putList (toHost (m.state.gp Reg.a1)) s.bytes).HasBytes
      (toHost (m.state.gp Reg.a1)) s.bytes :=
    Mem.putList_hasBytes _ _ (by rw [s.bytes_length]; decide)
  rw [hmem, GuestStat.read_hasBytes hhas, s.seen_describes_iff, onlyStat_putList_iff]

/-- A host with one open file. -/
def statOs (s : HostStat) : Os := { failingOs 9 with fstat := fun _ _ _ _ => .ok s.bytes }

/-- A regular file of 5 bytes that user 1000 may write and all may read. -/
def regularFile : HostStat where
  dev := 0x801
  ino := 42
  nlink := 1
  mode := 0x81a4
  uid := 1000
  gid := 1000
  pad0 := 0
  rdev := 0
  size := 5
  blksize := 4096
  blocks := 8
  atim := 0
  mtim := 0
  ctim := 0
  reserved := 0

/-- The machine about to ask for the status of descriptor 3; its buffer is at 0x10000, on a page
full of other data. -/
def askingStat : Machine :=
  let m := initialMachine { (default : World) with
    mem := Mem.empty.map (toHost 0x10000) 0x1000 Prot.rw fun _ => 0xff }
  { m with state := ((m.state.setGp Reg.a7 sysFstatNumber).setGp Reg.a0 3).setGp Reg.a1 0x10000 }

theorem fstat_describes_iff_regular :
    ∃ m', handleSyscall (statOs regularFile) askingStat = .ok m' ∧ m'.state.gp Reg.a0 = 0 ∧
      ((GuestStat.read m'.state.world.mem (toHost (askingStat.state.gp Reg.a1))).Describes regularFile ∧
          OnlyStat (toHost (askingStat.state.gp Reg.a1)) askingStat.state.world.mem
            m'.state.world.mem ↔
        regularFile.Plain ∧
          askingStat.state.world.mem.get (toHost (askingStat.state.gp Reg.a1) + 128) 16 =
            regularFile.reserved.extractLsb' 64 128) :=
  fstat_describes_iff (by decide) rfl

/-- What the guest reads of it. -/
def misreadFile : GuestStat :=
  { mode := 1, nlink := 0, uid := 0x81a4, gid := 1000, rdev := 1000, size := 5, blksize := 4096,
    blocks := 8 }

/-- The guest reads the number of links as the mode, the mode as the owner, and the group as the
device; and the byte behind its record is gone. -/
theorem fstat_misreports :
    ∃ m', handleSyscall (statOs regularFile) askingStat = .ok m' ∧ m'.state.gp Reg.a0 = 0 ∧
      GuestStat.read m'.state.world.mem (toHost 0x10000) = misreadFile ∧
      ¬(GuestStat.read m'.state.world.mem (toHost 0x10000)).Describes regularFile ∧
      ¬OnlyStat (toHost 0x10000) askingStat.state.world.mem m'.state.world.mem := by
  have hnum : askingStat.state.gp Reg.a7 = sysFstatNumber := by decide
  have hfstat : (statOs regularFile).fstat askingStat.state.world.clock askingStat.state.world.mem
      ((askingStat.state.gp Reg.a0).setWidth 32) (toHost (askingStat.state.gp Reg.a1)) =
      .ok regularFile.bytes := rfl
  obtain ⟨m', hcall, ha0, hmem⟩ := handleSyscall_fstat hnum hfstat
  have hread : GuestStat.read m'.state.world.mem (toHost 0x10000) = misreadFile := by
    rw [hmem]
    decide +kernel
  refine ⟨m', hcall, ha0, hread, fun hdesc => ?_, fun honly => ?_⟩
  · rw [hread] at hdesc
    exact absurd hdesc.mode (by decide)
  · have hsame := honly (toHost 0x10000 + 128) (by decide)
    rw [hmem] at hsame
    exact absurd hsame (by decide +kernel)

end Rvemu
