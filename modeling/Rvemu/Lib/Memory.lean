/-
Byte-addressed memory with page protections.

An address space maps every address to a byte and to the protection of the page
it lies on, `none` standing for an address that is not mapped.  A page can be mapped
and have nothing behind it, like one past the end of its file; then no access to it
succeeds.  Accesses are little-endian and fault on the first byte they may not touch;
an access whose range runs past the last address continues at address zero, as
machine arithmetic does.

The width of an address is a parameter, and nothing here knows what the bytes are
for.  What is proved is what a client of a memory reasons with: a byte after a
store, a load as its bytes, a load after a store, and which of these a mapping
change leaves alone.
-/
import Mathlib.Algebra.Group.Nat.Defs
import Mathlib.Logic.Function.Basic

namespace Memory

/-- What may be done with the bytes of a mapped page. -/
structure Prot where
  read : Bool
  write : Bool
  exec : Bool
  deriving DecidableEq, Repr

/-- The protection of ordinary data pages. -/
def Prot.rw : Prot := { read := true, write := true, exec := false }

/-- There are no pages that can be written and not read. -/
def Prot.canRead (p : Prot) : Bool := p.read || p.write

/-- An address space. -/
structure Mem (w : Nat) where
  /-- The byte at an address; meaningful where the address is mapped. -/
  byte : BitVec w → BitVec 8
  /-- The protection of an address, or `none` where nothing is mapped. -/
  prot : BitVec w → Option Prot
  /-- Whether there is nothing behind an address, although it is mapped. -/
  unbacked : BitVec w → Bool := fun _ => false
  deriving Inhabited

namespace Mem

variable {w : Nat}

/-- Nothing mapped. -/
def empty : Mem w := { byte := fun _ => 0, prot := fun _ => none }

def readable (m : Mem w) (a : BitVec w) : Bool := (m.prot a).any Prot.canRead && !m.unbacked a

def writable (m : Mem w) (a : BitVec w) : Bool := (m.prot a).any Prot.write && !m.unbacked a

/-- The first of the `n` addresses from `a` on that `ok` rejects. -/
def firstBad (ok : BitVec w → Bool) : Nat → BitVec w → Option (BitVec w)
  | 0, _ => none
  | n + 1, a => if ok a then firstBad ok n (a + 1) else some a

/-- The `n` bytes from `a` on as one little-endian number. -/
def get (m : Mem w) (a : BitVec w) : (n : Nat) → BitVec (8 * n)
  | 0 => 0#0
  | n + 1 => m.get (a + 1) n ++ m.byte a

/-- Write the `n` bytes of `v` from `a` on, the lowest first. -/
def put (m : Mem w) (a : BitVec w) (n : Nat) (v : BitVec (8 * n)) : Mem w :=
  { m with
    byte := fun x => if (x - a).toNat < n then v.extractLsb' (8 * (x - a).toNat) 8
      else m.byte x }

/-- Load `n` bytes, or report the address that faults. -/
def load (m : Mem w) (a : BitVec w) (n : Nat) : Except (BitVec w) (BitVec (8 * n)) :=
  match firstBad m.readable n a with
  | none => .ok (m.get a n)
  | some bad => .error bad

/-- Store `n` bytes, or report the address that faults. -/
def store (m : Mem w) (a : BitVec w) (n : Nat) (v : BitVec (8 * n)) : Except (BitVec w) (Mem w) :=
  match firstBad m.writable n a with
  | none => .ok (m.put a n v)
  | some bad => .error bad

/-- Write a list of bytes from `a` on. -/
def putList (m : Mem w) (a : BitVec w) (bs : List (BitVec 8)) : Mem w :=
  { m with
    byte := fun x => if (x - a).toNat < bs.length then bs.getD (x - a).toNat 0 else m.byte x }

/-- Write a list of bytes, or report the address that faults. -/
def storeList (m : Mem w) (a : BitVec w) (bs : List (BitVec 8)) : Except (BitVec w) (Mem w) :=
  match firstBad m.writable bs.length a with
  | none => .ok (m.putList a bs)
  | some bad => .error bad

/-- The `n` bytes from `a` on, in order. -/
def getList (m : Mem w) (a : BitVec w) (n : Nat) : List (BitVec 8) :=
  (List.range n).map fun i => m.byte (a + BitVec.ofNat w i)

/-- Whether `x` is one of the `len` addresses from `a` on, without wrapping. -/
def InRange (a : BitVec w) (len : Nat) (x : BitVec w) : Prop :=
  a.toNat ≤ x.toNat ∧ x.toNat < a.toNat + len

instance (a : BitVec w) (len : Nat) (x : BitVec w) : Decidable (InRange a len x) :=
  inferInstanceAs (Decidable (_ ∧ _))

/-- Map the `len` addresses from `a` on with protection `p` and the given contents,
replacing whatever was there; there is nothing behind the `hole`. -/
def map (m : Mem w) (a : BitVec w) (len : Nat) (p : Prot) (content : Nat → BitVec 8)
    (hole : Nat → Bool := fun _ => false) : Mem w where
  byte x := if InRange a len x then content (x.toNat - a.toNat) else m.byte x
  prot x := if InRange a len x then some p else m.prot x
  unbacked x := if InRange a len x then hole (x.toNat - a.toNat) else m.unbacked x

/-- Remove every mapping from the `len` addresses from `a` on. -/
def unmap (m : Mem w) (a : BitVec w) (len : Nat) : Mem w :=
  { m with prot := fun x => if InRange a len x then none else m.prot x }

/-- The same memory seen through an offset added to every address. -/
def shift (m : Mem w) (off : BitVec w) : Mem w where
  byte x := m.byte (x + off)
  prot x := m.prot (x + off)
  unbacked x := m.unbacked (x + off)

/-- None of the `len` addresses from `a` on is mapped. -/
def FreeRange (m : Mem w) (a : BitVec w) (len : Nat) : Prop :=
  ∀ x, InRange a len x → m.prot x = none

/-! ### What an access sees -/

@[simp] theorem put_prot (m : Mem w) (a : BitVec w) (n : Nat) (v : BitVec (8 * n)) :
    (m.put a n v).prot = m.prot := rfl

theorem store_prot {m m' : Mem w} {a : BitVec w} {n : Nat} {v : BitVec (8 * n)}
    (h : m.store a n v = .ok m') : m'.prot = m.prot := by
  unfold store at h
  split at h
  · cases h
    rfl
  · cases h

@[simp] theorem putList_prot (m : Mem w) (a : BitVec w) (bs : List (BitVec 8)) :
    (m.putList a bs).prot = m.prot := rfl

theorem add_one_add (a : BitVec w) (i : Nat) :
    a + 1 + BitVec.ofNat w i = a + BitVec.ofNat w (i + 1) := by
  rw [BitVec.add_assoc, BitVec.add_comm 1, BitVec.ofNat_add]
  rfl

/-- None of the addresses an access covers is rejected. -/
theorem firstBad_none {ok : BitVec w → Bool} {n : Nat} {a : BitVec w}
    (h : firstBad ok n a = none) {i : Nat} (hi : i < n) : ok (a + BitVec.ofNat w i) = true := by
  induction n generalizing a i with
  | zero => omega
  | succ n ih =>
      rw [firstBad] at h
      by_cases ha : ok a = true
      · rw [if_pos ha] at h
        cases i with
        | zero => simpa using ha
        | succ i =>
            rw [← add_one_add]
            exact ih h (by omega)
      · rw [if_neg ha] at h
        cases h

theorem firstBad_none_iff {ok : BitVec w → Bool} {n : Nat} {a : BitVec w} :
    firstBad ok n a = none ↔ ∀ i < n, ok (a + BitVec.ofNat w i) = true := by
  refine ⟨fun h i hi => firstBad_none h hi, fun h => ?_⟩
  induction n generalizing a with
  | zero => rfl
  | succ n ih =>
      have ha : ok a = true := by simpa using h 0 (Nat.succ_pos n)
      rw [firstBad, if_pos ha]
      refine ih fun i hi => ?_
      rw [add_one_add]
      exact h (i + 1) (by omega)

/-- `bad` is the first of `n` addresses from `a` on that is rejected. -/
def FirstBad (ok : BitVec w → Bool) (n : Nat) (a bad : BitVec w) : Prop :=
  ∃ i < n, bad = a + BitVec.ofNat w i ∧ ok bad = false ∧
    ∀ j < i, ok (a + BitVec.ofNat w j) = true

theorem firstBad_some_iff {ok : BitVec w → Bool} {n : Nat} {a bad : BitVec w} :
    firstBad ok n a = some bad ↔ FirstBad ok n a bad := by
  induction n generalizing a with
  | zero => exact ⟨nofun, fun ⟨i, hi, _⟩ => absurd hi (Nat.not_lt_zero i)⟩
  | succ n ih =>
      rw [firstBad]
      by_cases ha : ok a = true
      · rw [if_pos ha, ih]
        constructor
        · rintro ⟨i, hi, hbad, hok, hall⟩
          refine ⟨i + 1, by omega, by rw [hbad, add_one_add], hok, fun j hj => ?_⟩
          cases j with
          | zero => simpa using ha
          | succ j =>
              rw [← add_one_add]
              exact hall j (by omega)
        · rintro ⟨i, hi, hbad, hok, hall⟩
          cases i with
          | zero =>
              rw [hbad] at hok
              simp [ha] at hok
          | succ i =>
              refine ⟨i, by omega, by rw [hbad, add_one_add], hok, fun j hj => ?_⟩
              rw [add_one_add]
              exact hall (j + 1) (by omega)
      · rw [if_neg ha]
        constructor
        · intro h
          cases h
          exact ⟨0, Nat.succ_pos n, by simp, by simpa using ha, fun j hj => by omega⟩
        · rintro ⟨i, hi, hbad, -, hall⟩
          cases i with
          | zero => simp [hbad]
          | succ i => exact absurd (by simpa using hall 0 (Nat.succ_pos i)) ha

/-- A load from readable addresses succeeds. -/
theorem load_of_readable {m : Mem w} {a : BitVec w} {n : Nat}
    (h : ∀ i < n, m.readable (a + BitVec.ofNat w i) = true) : m.load a n = .ok (m.get a n) := by
  unfold load
  rw [firstBad_none_iff.mpr h]

theorem load_error_iff {m : Mem w} {a bad : BitVec w} {n : Nat} :
    m.load a n = .error bad ↔ FirstBad m.readable n a bad := by
  rw [← firstBad_some_iff]
  unfold load
  cases firstBad m.readable n a <;> simp

theorem store_error_iff {m : Mem w} {a bad : BitVec w} {n : Nat} {v : BitVec (8 * n)} :
    m.store a n v = .error bad ↔ FirstBad m.writable n a bad := by
  rw [← firstBad_some_iff]
  unfold store
  cases firstBad m.writable n a <;> simp

/-- What a store wrote to could be written. -/
theorem store_writable {m m' : Mem w} {a : BitVec w} {n : Nat} {v : BitVec (8 * n)}
    (h : m.store a n v = .ok m') {i : Nat} (hi : i < n) :
    m.writable (a + BitVec.ofNat w i) = true := by
  unfold store at h
  split at h
  · rename_i hbad
    exact firstBad_none hbad hi
  · cases h

/-- A store that succeeds writes its bytes. -/
theorem store_put {m m' : Mem w} {a : BitVec w} {n : Nat} {v : BitVec (8 * n)}
    (h : m.store a n v = .ok m') : m' = m.put a n v := by
  unfold store at h
  split at h
  · cases h
    rfl
  · cases h

/-- What is loaded, byte by byte. -/
theorem get_byte (m : Mem w) (a : BitVec w) {n i : Nat} (hi : i < n) :
    (m.get a n).extractLsb' (8 * i) 8 = m.byte (a + BitVec.ofNat w i) := by
  induction n generalizing a i with
  | zero => omega
  | succ n ih =>
      apply BitVec.eq_of_getLsbD_eq
      intro k hk
      rw [get, BitVec.getLsbD_extractLsb', decide_eq_true hk, Bool.true_and, BitVec.getLsbD_append]
      cases i with
      | zero => simp [hk]
      | succ i =>
          have hbit := congrArg (fun b => b.getLsbD k) (ih (a + 1) (i := i) (by omega))
          rw [BitVec.getLsbD_extractLsb', decide_eq_true hk, Bool.true_and, add_one_add] at hbit
          rw [if_neg (by omega), show 8 * (i + 1) + k - 8 = 8 * i + k by omega]
          exact hbit

theorem storeList_error_iff {m : Mem w} {a bad : BitVec w} {bs : List (BitVec 8)} :
    m.storeList a bs = .error bad ↔ FirstBad m.writable bs.length a bad := by
  rw [← firstBad_some_iff]
  unfold storeList
  cases firstBad m.writable bs.length a <;> simp

/-- A list of bytes is written where all of it can be. -/
theorem storeList_ok_iff {m m' : Mem w} {a : BitVec w} {bs : List (BitVec 8)} :
    m.storeList a bs = .ok m' ↔
      (∀ i < bs.length, m.writable (a + BitVec.ofNat w i) = true) ∧ m' = m.putList a bs := by
  rw [← firstBad_none_iff]
  unfold storeList
  cases firstBad m.writable bs.length a <;> simp [eq_comm]

theorem storeList_prot {m m' : Mem w} {a : BitVec w} {bs : List (BitVec 8)}
    (h : m.storeList a bs = .ok m') : m'.prot = m.prot := by
  rw [(storeList_ok_iff.mp h).2, putList_prot]

/-- What a list of bytes was written to could be written. -/
theorem storeList_writable {m m' : Mem w} {a : BitVec w} {bs : List (BitVec 8)}
    (h : m.storeList a bs = .ok m') {i : Nat} (hi : i < bs.length) :
    m.writable (a + BitVec.ofNat w i) = true :=
  (storeList_ok_iff.mp h).1 i hi

/-- Values that agree byte by byte are equal. -/
theorem eq_of_bytes {n : Nat} {x y : BitVec (8 * n)}
    (h : ∀ i < n, x.extractLsb' (8 * i) 8 = y.extractLsb' (8 * i) 8) : x = y := by
  apply BitVec.eq_of_getLsbD_eq
  intro k hk
  have hbit := congrArg (fun b => b.getLsbD (k % 8)) (h (k / 8) (by omega))
  rw [BitVec.getLsbD_extractLsb', BitVec.getLsbD_extractLsb',
    decide_eq_true (Nat.mod_lt k (by decide)), Bool.true_and, Bool.true_and,
    Nat.div_add_mod] at hbit
  exact hbit

theorem get_congr {m m' : Mem w} {a : BitVec w} {n : Nat}
    (h : ∀ i < n, m.byte (a + BitVec.ofNat w i) = m'.byte (a + BitVec.ofNat w i)) :
    m.get a n = m'.get a n := by
  refine eq_of_bytes fun i hi => ?_
  rw [get_byte m a hi, get_byte m' a hi, h i hi]

/-- A list is written where it goes and nowhere else, if it does not run past the last address. -/
theorem putList_outside (m : Mem w) {a x : BitVec w} {bs : List (BitVec 8)}
    (hfits : a.toNat + bs.length ≤ 2 ^ w)
    (hx : x.toNat < a.toNat ∨ a.toNat + bs.length ≤ x.toNat) :
    (m.putList a bs).byte x = m.byte x := by
  have hsub := BitVec.toNat_sub x a
  have hout : ¬(x - a).toNat < bs.length := by
    rcases hx with hx | hx
    · rw [hsub, Nat.mod_eq_of_lt (by omega)]
      omega
    · rw [hsub, show 2 ^ w - a.toNat + x.toNat = 2 ^ w + (x.toNat - a.toNat) by omega,
        Nat.add_mod_left, Nat.mod_eq_of_lt (by omega)]
      omega
  exact if_neg hout

/-! ### Memories seen through an offset -/

theorem firstBad_shift (ok : BitVec w → Bool) (off : BitVec w) (n : Nat) (a : BitVec w) :
    (firstBad (fun x => ok (x + off)) n a).map (· + off) = firstBad ok n (a + off) := by
  induction n generalizing a with
  | zero => rfl
  | succ n ih =>
      have hnext : a + 1 + off = a + off + 1 := by ac_rfl
      simp only [firstBad]
      by_cases h : ok (a + off) = true
      · rw [if_pos h, if_pos h, ih, hnext]
      · rw [if_neg h, if_neg h]
        rfl

theorem get_shift (m : Mem w) (off a : BitVec w) (n : Nat) :
    (m.shift off).get a n = m.get (a + off) n := by
  induction n generalizing a with
  | zero => rfl
  | succ n ih =>
      have hnext : a + 1 + off = a + off + 1 := by ac_rfl
      simp only [get]
      rw [ih, hnext]
      rfl

theorem put_shift (m : Mem w) (off a : BitVec w) (n : Nat) (v : BitVec (8 * n)) :
    (m.put (a + off) n v).shift off = (m.shift off).put a n v := by
  have hsub (x : BitVec w) : x + off - (a + off) = x - a := by grind
  simp only [shift, put, hsub]

/-- A load through an offset: the same value, or a fault at the same place. -/
theorem load_shift (m : Mem w) (off a : BitVec w) (n : Nat) :
    ((m.shift off).load a n).mapError (· + off) = m.load (a + off) n := by
  have hbad := firstBad_shift m.readable off n a
  unfold load
  rw [get_shift, ← hbad]
  show (match firstBad (fun x => m.readable (x + off)) n a with
    | none => _ | some bad => _ : Except _ _).mapError _ = _
  cases firstBad (fun x => m.readable (x + off)) n a <;> rfl

/-- A store through an offset: the same memory, or a fault at the same place. -/
theorem store_shift (m : Mem w) (off a : BitVec w) (n : Nat) (v : BitVec (8 * n)) :
    ((m.shift off).store a n v).mapError (· + off) =
      (m.store (a + off) n v).map fun m' => m'.shift off := by
  have hbad := firstBad_shift m.writable off n a
  unfold store
  rw [← put_shift, ← hbad]
  show (match firstBad (fun x => m.writable (x + off)) n a with
    | none => _ | some bad => _ : Except _ _).mapError _ = _
  cases firstBad (fun x => m.writable (x + off)) n a <;> rfl

/-! ### What stays -/

/-- Nothing is different at an address. -/
structure SameAt (x : BitVec w) (m m' : Mem w) : Prop where
  prot : m'.prot x = m.prot x
  byte : m'.byte x = m.byte x
  unbacked : m'.unbacked x = m.unbacked x

theorem SameAt.rfl {x : BitVec w} {m : Mem w} : SameAt x m m := ⟨Eq.refl _, Eq.refl _, Eq.refl _⟩

theorem SameAt.trans {x : BitVec w} {m₁ m₂ m₃ : Mem w} (h : SameAt x m₁ m₂)
    (h' : SameAt x m₂ m₃) : SameAt x m₁ m₃ :=
  ⟨h'.prot.trans h.prot, h'.byte.trans h.byte, h'.unbacked.trans h.unbacked⟩

/-! ### A larger memory -/

/-- `m`, and behind it `r` wherever `m` has nothing mapped. -/
def union (m r : Mem w) : Mem w where
  byte x := if (m.prot x).isSome then m.byte x else r.byte x
  prot x := (m.prot x).or (r.prot x)
  unbacked x := if (m.prot x).isSome then m.unbacked x else r.unbacked x

/-- What can be accessed is mapped, and there is something behind it. -/
theorem access_iff (m : Mem w) (f : Prot → Bool) (x : BitVec w) :
    ((m.prot x).any f && !m.unbacked x) = true ↔
      ∃ p, m.prot x = some p ∧ f p = true ∧ m.unbacked x = false := by
  cases m.prot x <;> simp

theorem union_of_mapped (m r : Mem w) {x : BitVec w} {p : Prot} (h : m.prot x = some p) :
    (m.union r).prot x = some p ∧ (m.union r).byte x = m.byte x ∧
      (m.union r).unbacked x = m.unbacked x := by
  simp [union, h]

/-- What can be accessed can be accessed in the larger memory. -/
theorem access_union {m : Mem w} {f : Prot → Bool} {x : BitVec w} (r : Mem w)
    (h : ((m.prot x).any f && !m.unbacked x) = true) :
    (((m.union r).prot x).any f && !(m.union r).unbacked x) = true := by
  obtain ⟨p, hp, -, -⟩ := (access_iff m f x).mp h
  obtain ⟨hprot, -, hback⟩ := union_of_mapped m r hp
  rwa [hprot, hback, ← hp]

/-- A load that succeeds reads the same in the larger memory. -/
theorem load_union {m : Mem w} {a : BitVec w} {n : Nat} {v : BitVec (8 * n)}
    (h : m.load a n = .ok v) (r : Mem w) : (m.union r).load a n = .ok v := by
  unfold load at h
  split at h
  · rename_i hbad
    cases h
    have hread (i : Nat) (hi : i < n) : m.readable (a + BitVec.ofNat w i) = true :=
      firstBad_none hbad hi
    rw [load_of_readable fun i hi => access_union r (hread i hi)]
    refine congrArg Except.ok (get_congr fun i hi => ?_)
    obtain ⟨p, hp, -, -⟩ := (access_iff m _ _).mp (hread i hi)
    exact (union_of_mapped m r hp).2.1
  · cases h

/-- A store that succeeds leaves what is behind alone. -/
theorem store_union {m m' : Mem w} {a : BitVec w} {n : Nat} {v : BitVec (8 * n)}
    (h : m.store a n v = .ok m') (r : Mem w) : (m.union r).store a n v = .ok (m'.union r) := by
  have hwrite (i : Nat) (hi : i < n) : m.writable (a + BitVec.ofNat w i) = true :=
    store_writable h hi
  have hbad : firstBad (m.union r).writable n a = none :=
    firstBad_none_iff.mpr fun i hi => access_union r (hwrite i hi)
  have hput : (m.union r).put a n v = (m.put a n v).union r := by
    refine congrArg (fun b => ({ m.union r with byte := b } : Mem w)) (funext fun x => ?_)
    show (if _ then _ else if _ then _ else _) = if _ then (if _ then _ else _) else _
    by_cases hx : (x - a).toNat < n
    · -- what is written is mapped
      have haddr : a + BitVec.ofNat w (x - a).toNat = x := by
        rw [BitVec.ofNat_toNat, BitVec.setWidth_eq, BitVec.add_comm, BitVec.sub_add_cancel]
      obtain ⟨p, hp, -, -⟩ := (access_iff m _ _).mp (hwrite _ hx)
      rw [haddr] at hp
      rw [if_pos hx, if_pos hx, put_prot, hp]
      rfl
    · rw [if_neg hx, if_neg hx]
      rfl
  rw [store_put h]
  unfold store
  rw [hbad]
  exact congrArg Except.ok hput

end Mem

/-! ### Memory as a history of writes -/

variable {w : Nat}

/-- A write of some bytes, the lowest first. -/
structure Write (w : Nat) where
  addr : BitVec w
  width : Nat
  value : BitVec (8 * width)

/-- Whether a write reaches an address; it may run past the last one. -/
def Write.Covers (x : Write w) (a : BitVec w) : Prop := (a - x.addr).toNat < x.width

instance (x : Write w) (a : BitVec w) : Decidable (x.Covers a) :=
  inferInstanceAs (Decidable (_ < _))

/-- The byte it leaves there. -/
def Write.byte (x : Write w) (a : BitVec w) : BitVec 8 :=
  x.value.extractLsb' (8 * (a - x.addr).toNat) 8

theorem Mem.put_write (m : Mem w) (x : Write w) (a : BitVec w) :
    (m.put x.addr x.width x.value).byte a = if x.Covers a then x.byte a else m.byte a := rfl

/-- The byte the most recent write left at an address, or the initial one; the newest write
comes first. -/
def latest (init : BitVec w → BitVec 8) : List (Write w) → BitVec w → BitVec 8
  | [], a => init a
  | x :: xs, a => if x.Covers a then x.byte a else latest init xs a

/-! ### Memory as a history of events -/

/-- What can happen to the contents of memory. -/
inductive Event (w : Nat)
  | write (x : Write w)
  /-- Bytes are put somewhere from outside. -/
  | deliver (a : BitVec w) (bs : List (BitVec 8))
  /-- A range is mapped afresh, and is zero. -/
  | clear (a : BitVec w) (len : Nat)

/-- The byte an event leaves at an address, if it reaches it. -/
def Event.effect : Event w → BitVec w → Option (BitVec 8)
  | .write x, a => if x.Covers a then some (x.byte a) else none
  | .deliver b bs, a => bs[(a - b).toNat]?
  | .clear b len, a => if Mem.InRange b len a then some 0 else none

/-- The byte an address has after events, the oldest first. -/
def replay (b : BitVec 8) (es : List (Event w)) (a : BitVec w) : BitVec 8 :=
  es.foldl (fun b e => (e.effect a).getD b) b

@[simp] theorem replay_nil (b : BitVec 8) (a : BitVec w) : replay b [] a = b := rfl

theorem replay_append (b : BitVec 8) (es es' : List (Event w)) (a : BitVec w) :
    replay b (es ++ es') a = replay (replay b es a) es' a := List.foldl_append

/-- Events that do not reach an address leave it. -/
theorem replay_of_none {b : BitVec 8} {es : List (Event w)} {a : BitVec w}
    (h : ∀ e ∈ es, e.effect a = none) : replay b es a = b := by
  induction es with
  | nil => rfl
  | cons e es ih =>
      have he := h e (List.mem_cons_self ..)
      show replay ((e.effect a).getD b) es a = b
      rw [he]
      exact ih fun e' he' => h e' (List.mem_cons_of_mem _ he')

theorem Mem.putList_event (m : Mem w) (a : BitVec w) (bs : List (BitVec 8)) (x : BitVec w) :
    (m.putList a bs).byte x = replay (m.byte x) [.deliver a bs] x := by
  show (if (x - a).toNat < bs.length then bs.getD (x - a).toNat 0 else m.byte x) =
    bs[(x - a).toNat]?.getD (m.byte x)
  split
  · rename_i hlt
    rw [List.getD_eq_getElem?_getD, List.getElem?_eq_getElem hlt]
    rfl
  · rename_i hge
    rw [List.getElem?_eq_none (Nat.le_of_not_lt hge)]
    rfl

theorem Mem.put_event (m : Mem w) (x : Write w) (a : BitVec w) :
    (m.put x.addr x.width x.value).byte a = replay (m.byte a) [.write x] a := by
  rw [put_write]
  show _ = (if x.Covers a then some (x.byte a) else none).getD (m.byte a)
  split <;> rfl

theorem Mem.map_event (m : Mem w) (a : BitVec w) (len : Nat) (p : Prot) (x : BitVec w) :
    (m.map a len p fun _ => 0).byte x = replay (m.byte x) [.clear a len] x := by
  show (if Mem.InRange a len x then 0 else m.byte x) =
    (if Mem.InRange a len x then some 0 else none).getD (m.byte x)
  split <;> rfl

end Memory
