/-
The fetch of the loop body.

The loop body reads four bytes before it knows how long the instruction is.  For
a compressed instruction two of them belong to something else, and nothing says
that they are mapped.  Where they are, the upper half of the word does not matter
and the instruction is executed; where they are not, the fetch faults, and the
instruction that stands there in full is not executed.
-/
import Rvemu.Proofs.Bytes
import Rvemu.Proofs.Expansion

namespace Rvemu

open Memory Spec Spec.CForm

/-- A run of readable addresses, taken apart. -/
theorem readable_add (s : State) (a : Word) (m n : Nat) :
    s.Readable a (m + n) ↔ s.Readable a m ∧ s.Readable (a + BitVec.ofNat 64 m) n := by
  constructor
  · intro h
    refine ⟨fun k hk => h k (by omega), fun k hk => ?_⟩
    rw [BitVec.add_assoc, ← BitVec.ofNat_add]
    exact h (m + k) (by omega)
  · rintro ⟨hlow, hhigh⟩ k hk
    by_cases hm : k < m
    · exact hlow k hm
    · have h := hhigh (k - m) (by omega)
      rwa [BitVec.add_assoc, ← BitVec.ofNat_add, Nat.add_sub_cancel' (Nat.le_of_not_lt hm)] at h

/-- A load succeeds exactly where every byte can be read. -/
theorem load_ok_iff {s : State} {a : Word} {n : Nat} :
    (∃ raw, s.load a n = .ok raw) ↔ s.Readable a n := by
  refine ⟨?_, fun h => ⟨_, load_ok h⟩⟩
  rintro ⟨raw, h⟩ k hk
  unfold State.load Mem.load at h
  split at h
  · rename_i hbad
    rw [toHost_add]
    exact Mem.firstBad_none hbad hk
  · cases h

/-- A load that does not succeed faults. -/
theorem load_faults {s : State} {a : Word} {n : Nat} (h : ¬s.Readable a n) :
    ∃ bad, s.load a n = .error (.segv bad) := by
  cases hload : s.world.mem.load (toHost a) n with
  | ok raw =>
      refine absurd (load_ok_iff.mp ⟨raw, ?_⟩) h
      rw [State.load, hload]
      rfl
  | error bad =>
      refine ⟨bad, ?_⟩
      rw [State.load, hload]
      rfl

/-- The lower half of a word that is read is the half word that stands there. -/
theorem read_low (s : State) (a : Word) : (s.read a 4).setWidth 16 = s.read a 2 := by
  refine Mem.eq_of_bytes (n := 2) fun k hk => ?_
  rw [read_byte s a hk, ← read_byte s a (show k < 4 by omega)]
  apply BitVec.eq_of_getLsbD_eq
  intro j hj
  simp only [BitVec.getLsbD_extractLsb', BitVec.getLsbD_setWidth]
  simp [hj, show 8 * k + j < 16 by omega]

/-- Without them the loop body faults before it has decoded anything. -/
theorem execIter_faults (fpu : HostFpu) {s : State} (h : ¬s.Readable (s.pc + 2) 2) (prev : Inst) :
    ∃ bad, execIter fpu s prev = .error (.segv bad) := by
  have hword : ¬s.Readable s.pc (2 + 2) := fun hr => h ((readable_add s s.pc 2 2).mp hr).2
  obtain ⟨bad, hload⟩ := load_faults hword
  refine ⟨bad, ?_⟩
  unfold execIter
  rw [hload]
  rfl

end Rvemu
