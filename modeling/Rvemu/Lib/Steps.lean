/-
Running a step function that may stop.

A machine that either makes a step or stops with a reason is a function from states
to `Except`.  `iter` makes a number of steps; what holds at the start and is kept by
every step holds after all of them, also when a step keeps it only under a guard
that every state passed through satisfies.

`traced` carries a note along, which the steps write and do not read.  `before` goes
through a run backwards, for what it depends on.
-/
namespace Steps

variable {σ ε γ : Type}

/-- Make `n` steps. -/
def iter (step : σ → Except ε σ) : Nat → σ → Except ε σ
  | 0, s => .ok s
  | n + 1, s => step s >>= iter step n

variable {step : σ → Except ε σ}

theorem iter_succ {n : Nat} {s s' : σ} (h : step s = .ok s') :
    iter step (n + 1) s = iter step n s' := by
  rw [iter, h]
  rfl

theorem iter_succ_inv {n : Nat} {s s' : σ} (h : iter step (n + 1) s = .ok s') :
    ∃ s₁, step s = .ok s₁ ∧ iter step n s₁ = .ok s' := by
  rw [iter] at h
  cases hs : step s with
  | error e =>
      rw [hs] at h
      cases h
  | ok s₁ =>
      rw [hs] at h
      exact ⟨s₁, rfl, h⟩

/-- What every step keeps under a guard, where the guard holds all along. -/
theorem iter_guarded {I G : σ → Prop} (hstep : ∀ {s s'}, I s → G s → step s = .ok s' → I s')
    {n : Nat} {s s' : σ} (h₀ : I s) (hG : ∀ k < n, ∀ t, iter step k s = .ok t → G t)
    (h : iter step n s = .ok s') : I s' := by
  induction n generalizing s with
  | zero =>
      cases h
      exact h₀
  | succ n ih =>
      obtain ⟨s₁, hs, h⟩ := iter_succ_inv h
      have hG₀ : G s := hG 0 (Nat.succ_pos n) s rfl
      refine ih (hstep h₀ hG₀ hs) (fun k hk t ht => ?_) h
      exact hG (k + 1) (by omega) t (by rw [iter_succ hs]; exact ht)

/-- What every step keeps. -/
theorem iter_invariant {I : σ → Prop} (hstep : ∀ {s s'}, I s → step s = .ok s' → I s') {n : Nat}
    {s s' : σ} (h₀ : I s) (h : iter step n s = .ok s') : I s' :=
  iter_guarded (G := fun _ => True) (fun hI _ hs => hstep hI hs) h₀ (fun _ _ _ _ => trivial) h

/-- A run that goes on past a state goes on from it. -/
theorem iter_next {n k : Nat} {s s' t : σ} (h : iter step n s = .ok s') (hk : k < n)
    (ht : iter step k s = .ok t) : ∃ t', step t = .ok t' ∧ iter step (k + 1) s = .ok t' := by
  induction k generalizing n s with
  | zero =>
      cases ht
      obtain ⟨n, rfl⟩ : ∃ d, n = d + 1 := ⟨n - 1, by omega⟩
      obtain ⟨s₁, hs, -⟩ := iter_succ_inv h
      exact ⟨s₁, hs, by rw [iter_succ hs, iter]⟩
  | succ k ih =>
      obtain ⟨n, rfl⟩ : ∃ d, n = d + 1 := ⟨n - 1, by omega⟩
      obtain ⟨s₁, hs, h⟩ := iter_succ_inv h
      rw [iter_succ hs] at ht
      obtain ⟨t', ht', hnext⟩ := ih h (by omega) ht
      exact ⟨t', ht', by rw [iter_succ hs]; exact hnext⟩

/-- Whether a guard that can be decided holds before each of `n` steps. -/
def guarded (step : σ → Except ε σ) (G : σ → Prop) [DecidablePred G] : Nat → σ → Bool
  | 0, _ => true
  | n + 1, s => decide (G s) && match step s with
    | .ok s' => guarded step G n s'
    | .error _ => true

theorem guarded_iff {G : σ → Prop} [DecidablePred G] {n : Nat} {s : σ} :
    guarded step G n s = true ↔ ∀ k < n, ∀ t, iter step k s = .ok t → G t := by
  induction n generalizing s with
  | zero => exact ⟨fun _ k hk => absurd hk (Nat.not_lt_zero k), fun _ => rfl⟩
  | succ n ih =>
      rw [guarded, Bool.and_eq_true, decide_eq_true_iff]
      cases hs : step s with
      | error e =>
          refine ⟨fun hG k hk t ht => ?_, fun hall => ⟨hall 0 (Nat.succ_pos n) s rfl, rfl⟩⟩
          cases k with
          | zero =>
              cases ht
              exact hG.1
          | succ k =>
              obtain ⟨s₁, hs₁, -⟩ := iter_succ_inv ht
              rw [hs] at hs₁
              cases hs₁
      | ok s₁ =>
          refine ⟨fun hG k hk t ht => ?_, fun hall => ⟨hall 0 (Nat.succ_pos n) s rfl, ?_⟩⟩
          · cases k with
            | zero =>
                cases ht
                exact hG.1
            | succ k =>
                rw [iter_succ hs] at ht
                exact ih.mp hG.2 k (by omega) t ht
          · exact ih.mpr fun k hk t ht => hall (k + 1) (by omega) t (by rw [iter_succ hs]; exact ht)

/-- Where a step keeps an invariant exactly if a guard holds before it, a run keeps it
throughout exactly if the guard holds before every step. -/
theorem iter_iff {I G : σ → Prop} (hstep : ∀ {s s'}, I s → step s = .ok s' → (G s ↔ I s'))
    {n : Nat} {s s' : σ} (h₀ : I s) (h : iter step n s = .ok s') :
    (∀ k < n, ∀ t, iter step k s = .ok t → G t) ↔ ∀ k ≤ n, ∀ t, iter step k s = .ok t → I t := by
  constructor
  · intro hG k hk t ht
    exact iter_guarded (fun hI hG hs => (hstep hI hs).mp hG) h₀
      (fun j hj u hu => hG j (by omega) u hu) ht
  · intro hI k hk t ht
    obtain ⟨t', hs, ht'⟩ := iter_next h hk ht
    exact (hstep (hI k (by omega) t ht) hs).mpr (hI (k + 1) hk t' ht')

/-- The last of several steps. -/
theorem iter_last {n : Nat} {s s₁ s' : σ} (h₁ : iter step n s = .ok s₁)
    (h : iter step (n + 1) s = .ok s') : step s₁ = .ok s' := by
  obtain ⟨s₂, hs, h₂⟩ := iter_next h (Nat.lt_succ_self n) h₁
  rw [h₂] at h
  cases h
  exact hs

/-- A run that stops has come to a state where the step stops. -/
theorem iter_error_iff {n : Nat} {s : σ} {e : ε} :
    iter step n s = .error e ↔ ∃ k < n, ∃ t, iter step k s = .ok t ∧ step t = .error e := by
  induction n generalizing s with
  | zero => exact ⟨nofun, fun ⟨k, hk, _⟩ => absurd hk (Nat.not_lt_zero k)⟩
  | succ n ih =>
      cases hs : step s with
      | error e' =>
          rw [iter, hs]
          constructor
          · intro h
            cases h
            exact ⟨0, Nat.succ_pos n, s, rfl, hs⟩
          · rintro ⟨k, -, t, ht, he⟩
            cases k with
            | zero =>
                cases ht
                exact hs.symm.trans he
            | succ k =>
                obtain ⟨s₁, hs₁, -⟩ := iter_succ_inv ht
                rw [hs] at hs₁
                cases hs₁
      | ok s₁ =>
          rw [iter_succ hs, ih]
          constructor
          · rintro ⟨k, hk, t, ht, he⟩
            exact ⟨k + 1, by omega, t, by rw [iter_succ hs]; exact ht, he⟩
          · rintro ⟨k, hk, t, ht, he⟩
            cases k with
            | zero =>
                cases ht
                rw [hs] at he
                cases he
            | succ k =>
                rw [iter_succ hs] at ht
                exact ⟨k, by omega, t, ht, he⟩

/-- The step together with a note of what happened. -/
def traced (step : σ → Except ε σ) (note : σ → σ → γ → γ) (t : σ × γ) : Except ε (σ × γ) :=
  (step t.1).map fun s => (s, note t.1 s t.2)

theorem traced_inv {note : σ → σ → γ → γ} {t t' : σ × γ} (h : traced step note t = .ok t') :
    step t.1 = .ok t'.1 ∧ t'.2 = note t.1 t'.1 t.2 := by
  unfold traced at h
  cases hs : step t.1 with
  | error e =>
      rw [hs] at h
      cases h
  | ok s =>
      rw [hs] at h
      cases h
      exact ⟨rfl, rfl⟩

/-- The note has no influence on the run. -/
theorem iter_traced (step : σ → Except ε σ) (note : σ → σ → γ → γ) (n : Nat) (t : σ × γ) :
    (iter (traced step note) n t).map Prod.fst = iter step n t.1 := by
  induction n generalizing t with
  | zero => rfl
  | succ n ih =>
      rw [iter, iter, traced]
      cases step t.1 with
      | error e => rfl
      | ok s => exact ih (s, note t.1 s t.2)

/-- What the steps of a run have to say, one after the other. -/
def collect (step : σ → Except ε σ) (note : σ → σ → List γ) : Nat → σ → List γ
  | 0, _ => []
  | n + 1, s =>
    match step s with
    | .ok s' => note s s' ++ collect step note n s'
    | .error _ => []

theorem collect_succ {note : σ → σ → List γ} {n : Nat} {s s' : σ} (h : step s = .ok s') :
    collect step note (n + 1) s = note s s' ++ collect step note n s' := by
  rw [collect, h]

/-- A log to which every step adds what it has to say. -/
theorem iter_log {I : σ → Prop} {f : σ → List γ} {note : σ → σ → List γ}
    (hstep : ∀ {s s'}, I s → step s = .ok s' → I s' ∧ f s' = f s ++ note s s') {n : Nat}
    {s s' : σ} (h₀ : I s) (h : iter step n s = .ok s') :
    f s' = f s ++ collect step note n s := by
  induction n generalizing s with
  | zero =>
      cases h
      exact (List.append_nil _).symm
  | succ n ih =>
      obtain ⟨s₁, hs, h⟩ := iter_succ_inv h
      obtain ⟨h₁, hlog⟩ := hstep h₀ hs
      rw [ih h₁ h, hlog, collect_succ hs, List.append_assoc]

/-- A value into which every step folds what it has to say, where a guard holds all along. -/
theorem iter_foldl {α : Type} {I G : σ → Prop} {f : σ → α} {op : α → γ → α}
    {note : σ → σ → List γ}
    (hstep : ∀ {s s'}, I s → G s → step s = .ok s' → I s' ∧ f s' = (note s s').foldl op (f s))
    {n : Nat} {s s' : σ} (h₀ : I s) (hG : ∀ k < n, ∀ t, iter step k s = .ok t → G t)
    (h : iter step n s = .ok s') : f s' = (collect step note n s).foldl op (f s) := by
  induction n generalizing s with
  | zero =>
      cases h
      rfl
  | succ n ih =>
      obtain ⟨s₁, hs, h⟩ := iter_succ_inv h
      obtain ⟨h₁, hfold⟩ := hstep h₀ (hG 0 (Nat.succ_pos n) s rfl) hs
      have hrest : ∀ k < n, ∀ t, iter step k s₁ = .ok t → G t := fun k hk t ht =>
        hG (k + 1) (by omega) t (by rw [iter_succ hs]; exact ht)
      rw [ih h₁ hrest h, hfold, collect_succ hs, List.foldl_append]

/-! ### Two runs side by side -/

/-- Two computations that stop for the same reason, or go on with results that are related. -/
inductive Alike {α β : Type} (R : α → β → Prop) : Except ε α → Except ε β → Prop
  | stops (e : ε) : Alike R (.error e) (.error e)
  | goes {a : α} {b : β} (h : R a b) : Alike R (.ok a) (.ok b)

theorem Alike.bind {α β α' β' : Type} {R : α → β → Prop} {R' : α' → β' → Prop}
    {x : Except ε α} {y : Except ε β} {f : α → Except ε α'} {g : β → Except ε β'}
    (h : Alike R x y) (hR : ∀ {a b}, R a b → Alike R' (f a) (g b)) :
    Alike R' (x >>= f) (y >>= g) := by
  cases h with
  | stops e => exact .stops e
  | goes h => exact hR h

theorem Alike.of_ok {α β : Type} {R : α → β → Prop} {x : Except ε α} {y : Except ε β} {a : α}
    (h : Alike R x y) (hx : x = .ok a) : ∃ b, y = .ok b ∧ R a b := by
  cases h with
  | stops e => cases hx
  | goes h =>
      cases hx
      exact ⟨_, rfl, h⟩

theorem Alike.of_error {α β : Type} {R : α → β → Prop} {x : Except ε α} {y : Except ε β} {e : ε}
    (h : Alike R x y) (hx : x = .error e) : y = .error e := by
  cases h with
  | stops e =>
      cases hx
      rfl
  | goes h => cases hx

/-- What has to be known before `n` steps for `d` to be known after them: `pre` says what one
step needs, and the run is gone through from its end. -/
def before {δ : Type} (step : σ → Except ε σ) (pre : σ → δ → δ) : Nat → δ → σ → δ
  | 0, d, _ => d
  | n + 1, d, s =>
    match step s with
    | .ok s' => pre s (before step pre n d s')
    | .error _ => pre s d

/-- Runs that agree on what the first of them needs stay side by side: after every number of
steps they agree on what the rest of it needs. -/
theorem iter_before {δ : Type} {pre : σ → δ → δ} {R : δ → σ → σ → Prop}
    (hstep : ∀ {d s t}, R (pre s d) s t → Alike (R d) (step s) (step t)) {n k : Nat} (hk : k ≤ n)
    {d : δ} {s t : σ} (h : R (before step pre n d s) s t) :
    Alike (fun s' t' => R (before step pre (n - k) d s') s' t') (iter step k s) (iter step k t) := by
  induction k generalizing n s t with
  | zero => exact .goes h
  | succ k ih =>
      obtain ⟨n, rfl⟩ : ∃ j, n = j + 1 := ⟨n - 1, by omega⟩
      rw [before] at h
      rw [iter, iter, Nat.add_sub_add_right]
      cases hs : step s with
      | error e =>
          rw [hs] at h
          rw [(hstep h).of_error hs]
          exact .stops e
      | ok s' =>
          rw [hs] at h
          obtain ⟨t', ht, hnext⟩ := (hstep h).of_ok hs
          rw [ht]
          exact ih (Nat.le_of_succ_le_succ hk) hnext

end Steps
