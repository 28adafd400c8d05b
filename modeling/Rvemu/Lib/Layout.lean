/-
Records and blocks laid out in memory.

A record is the bytes of its fields, one field after the other.  `Mem.HasBytes` says
that they are in memory from an address on, and falls apart along the fields; so each
field is read at the sum of the widths before it.  A reader who looks at other offsets
gets parts of the numbers that are there.

`Mem.Blocks` is what an allocator leaves that takes one block after the other: the
blocks lie between two addresses, and no two of them overlap.
-/
import Rvemu.Lib.Memory

namespace Memory

/-- The bytes of a number, the lowest first. -/
def bytesOf (n : Nat) (v : BitVec (8 * n)) : List (BitVec 8) :=
  (List.range n).map fun i => v.extractLsb' (8 * i) 8

@[simp] theorem bytesOf_length (n : Nat) (v : BitVec (8 * n)) : (bytesOf n v).length = n := by
  simp [bytesOf]

theorem bytesOf_getElem {n i : Nat} (v : BitVec (8 * n)) (hi : i < (bytesOf n v).length) :
    (bytesOf n v)[i] = v.extractLsb' (8 * i) 8 := by
  simp [bytesOf]

namespace Mem

variable {w : Nat}

/-- The bytes from `a` on are those of a list. -/
def HasBytes (m : Mem w) (a : BitVec w) (bs : List (BitVec 8)) : Prop :=
  ∀ (i : Nat) (hi : i < bs.length), m.byte (a + BitVec.ofNat w i) = bs[i]

theorem hasBytes_append (m : Mem w) (a : BitVec w) (xs ys : List (BitVec 8)) :
    m.HasBytes a (xs ++ ys) ↔
      m.HasBytes a xs ∧ m.HasBytes (a + BitVec.ofNat w xs.length) ys := by
  constructor
  · intro h
    refine ⟨fun i hi => ?_, fun i hi => ?_⟩
    · have hx := h i (by rw [List.length_append]; omega)
      rwa [List.getElem_append_left hi] at hx
    · have hy := h (xs.length + i) (by rw [List.length_append]; omega)
      rw [List.getElem_append_right (by omega)] at hy
      rw [BitVec.add_assoc, ← BitVec.ofNat_add, hy]
      simp
  · rintro ⟨hxs, hys⟩ i hi
    rw [List.length_append] at hi
    rcases Nat.lt_or_ge i xs.length with hlt | hge
    · rw [List.getElem_append_left hlt]
      exact hxs i hlt
    · have hy := hys (i - xs.length) (by omega)
      rw [BitVec.add_assoc, ← BitVec.ofNat_add, Nat.add_sub_cancel' hge] at hy
      rw [List.getElem_append_right hge]
      exact hy

/-- The bytes of a number are there when the number is read. -/
theorem hasBytes_bytesOf (m : Mem w) (a : BitVec w) (n : Nat) (v : BitVec (8 * n)) :
    m.HasBytes a (bytesOf n v) ↔ m.get a n = v := by
  constructor
  · intro h
    refine eq_of_bytes fun i hi => ?_
    have hlen : i < (bytesOf n v).length := by rwa [bytesOf_length]
    rw [get_byte m a hi, h i hlen, bytesOf_getElem]
  · rintro rfl i hi
    rw [bytesOf_getElem, get_byte m a (by rwa [bytesOf_length] at hi)]

/-- A list that is written is there, if it is not longer than the memory. -/
theorem putList_hasBytes (m : Mem w) (a : BitVec w) {bs : List (BitVec 8)}
    (hlen : bs.length ≤ 2 ^ w) : (m.putList a bs).HasBytes a bs := by
  intro i hi
  have hoff : (a + BitVec.ofNat w i - a).toNat = i := by
    rw [BitVec.add_comm, BitVec.add_sub_cancel, BitVec.toNat_ofNat, Nat.mod_eq_of_lt (by omega)]
  show (if _ then _ else _) = _
  rw [hoff, if_pos hi, List.getD_eq_getElem?_getD, List.getElem?_eq_getElem hi]
  rfl

/-- A part of what is read is what is read there. -/
theorem get_part (m : Mem w) (a : BitVec w) {n i k : Nat} (h : i + k ≤ n) :
    m.get (a + BitVec.ofNat w i) k = (m.get a n).extractLsb' (8 * i) (8 * k) := by
  refine eq_of_bytes fun j hj => ?_
  rw [get_byte _ _ hj, BitVec.add_assoc, ← BitVec.ofNat_add, ← get_byte m a (n := n) (by omega)]
  apply BitVec.eq_of_getLsbD_eq
  intro b hb
  simp only [BitVec.getLsbD_extractLsb', hb, decide_true, Bool.true_and]
  rw [decide_eq_true (by omega), Bool.true_and]
  congr 1
  omega

/-! ### Blocks one behind the other -/

theorem toNat_add_ofNat {a : BitVec w} {i : Nat} (h : a.toNat + i < 2 ^ w) :
    (a + BitVec.ofNat w i).toNat = a.toNat + i := by
  rw [BitVec.toNat_add, BitVec.toNat_ofNat, Nat.add_mod_mod, Nat.mod_eq_of_lt h]

/-- What changes none of the bytes keeps them. -/
theorem HasBytes.keep {m m' : Mem w} {a : BitVec w} {bs : List (BitVec 8)} (h : m.HasBytes a bs)
    (hfits : a.toNat + bs.length ≤ 2 ^ w)
    (hsame : ∀ x : BitVec w, a.toNat ≤ x.toNat → x.toNat < a.toNat + bs.length →
      m'.byte x = m.byte x) : m'.HasBytes a bs := by
  intro i hi
  have haddr : (a + BitVec.ofNat w i).toNat = a.toNat + i := toNat_add_ofNat (by omega)
  rw [← h i hi]
  exact hsame _ (by omega) (by omega)

/-- Blocks of bytes between two addresses, each with its own; the first one comes last, and there
are no gaps. -/
inductive Blocks (m : Mem w) (lo : Nat) : List (BitVec w × List (BitVec 8)) → Nat → Prop
  | nil : Blocks m lo [] lo
  | cons {a : BitVec w} {bs : List (BitVec 8)} {l : List (BitVec w × List (BitVec 8))}
      (hbytes : m.HasBytes a bs) (hrest : Blocks m lo l a.toNat) :
      Blocks m lo ((a, bs) :: l) (a.toNat + bs.length)

section Blocks

variable {m m' : Mem w} {lo hi : Nat} {l : List (BitVec w × List (BitVec 8))}

theorem Blocks.le (h : m.Blocks lo l hi) : lo ≤ hi := by
  induction h with
  | nil => exact Nat.le_refl _
  | cons _ _ ih => omega

/-- What changes no byte between the two addresses keeps the blocks. -/
theorem Blocks.keep (h : m.Blocks lo l hi) (hfits : hi ≤ 2 ^ w)
    (hsame : ∀ x : BitVec w, lo ≤ x.toNat → x.toNat < hi → m'.byte x = m.byte x) :
    m'.Blocks lo l hi := by
  induction h with
  | nil => exact .nil
  | cons hbytes hrest ih =>
      have hle := hrest.le
      refine .cons (hbytes.keep hfits fun x hlo hhi => hsame x (by omega) hhi) ?_
      exact ih (by omega) fun x hlo hhi => hsame x hlo (by omega)

/-- Each block is there, and lies between the two addresses. -/
theorem Blocks.mem (h : m.Blocks lo l hi) {a : BitVec w} {bs : List (BitVec 8)}
    (hmem : (a, bs) ∈ l) : m.HasBytes a bs ∧ lo ≤ a.toNat ∧ a.toNat + bs.length ≤ hi := by
  induction h with
  | nil => cases hmem
  | cons hbytes hrest ih =>
      rcases List.mem_cons.mp hmem with heq | hmem
      · cases heq
        exact ⟨hbytes, hrest.le, Nat.le_refl _⟩
      · obtain ⟨hb, hlo, hhi⟩ := ih hmem
        exact ⟨hb, hlo, by omega⟩

/-- A block ends before any earlier one starts. -/
theorem Blocks.pairwise (h : m.Blocks lo l hi) :
    l.Pairwise fun x y => y.1.toNat + y.2.length ≤ x.1.toNat := by
  induction h with
  | nil => exact .nil
  | cons hbytes hrest ih => exact .cons (fun y hy => (hrest.mem hy).2.2) ih

end Blocks

end Mem

end Memory
