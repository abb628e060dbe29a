import Mathlib.Data.Nat.Notation
import Sigimora.Library.Program

/-!
# Programs whose statements can fail

A statement that fails is answered with an error and has no effect. Which
statements fail is given by their number, counted from the next one, so that the
first fault can be put at every point of a program.
-/

namespace Program

variable {S : Type} {R : S → Type} {ε α β σ φ : Type}

/-- The faults of the statements to come. -/
def Faults (φ : Type) : Type := ℕ → Option φ

namespace Faults

/-- The faults after the next `k` statements. -/
def drop (faults : Faults φ) (k : ℕ) : Faults φ := fun i => faults (k + i)

/-- No statement fails. -/
def never : Faults φ := fun _ => none

/-- The first fault is at `k`. -/
def First (faults : Faults φ) (k : ℕ) (e : φ) : Prop :=
  faults k = some e ∧ ∀ i < k, faults i = none

/-- Dropping faults twice drops them all at once. -/
theorem drop_drop (faults : Faults φ) (j k : ℕ) : (faults.drop j).drop k = faults.drop (j + k) :=
  funext fun i => congrArg faults (Nat.add_assoc j k i).symm

/-- Among the next statements none fails, or there is a first one that does. -/
theorem clear_or_first (faults : Faults φ) (n : ℕ) :
    (∀ i < n, faults i = none) ∨ ∃ k < n, ∃ e, faults.First k e := by
  induction n with
  | zero => exact Or.inl fun i hi => absurd hi (Nat.not_lt_zero i)
  | succ n ih =>
    rcases ih with hclear | ⟨k, hk, e, hfirst⟩
    · cases hn : faults n with
      | none =>
        refine Or.inl fun i hi => ?_
        rcases Nat.lt_succ_iff_lt_or_eq.mp hi with hi | rfl
        · exact hclear i hi
        · exact hn
      | some e => exact Or.inr ⟨n, n.lt_succ_self, e, hn, hclear⟩
    · exact Or.inr ⟨k, Nat.lt_succ_of_lt hk, e, hfirst⟩

/-- After statements that did not fail the first fault is as much closer. -/
theorem first_drop_iff {faults : Faults φ} {j k : ℕ} {e : φ} (hclear : ∀ i < j, faults i = none) :
    (faults.drop j).First k e ↔ faults.First (j + k) e := by
  constructor
  · rintro ⟨hk, hbefore⟩
    refine ⟨hk, fun i hi => ?_⟩
    by_cases hij : i < j
    · exact hclear i hij
    · have h := hbefore (i - j) (by omega)
      rwa [drop, Nat.add_sub_cancel' (Nat.le_of_not_lt hij)] at h
  · rintro ⟨hk, hbefore⟩
    exact ⟨hk, fun i hi => hbefore (j + i) (by omega)⟩

end Faults

/-- Execute a statement, unless it fails; then `refuse` answers it. -/
def faulty (exec : (s : S) → σ → R s × σ) (refuse : (s : S) → φ → R s) (s : S)
    (store : σ × Faults φ) : R s × (σ × Faults φ) :=
  match store.2 0 with
  | none => ((exec s store.1).1, (exec s store.1).2, store.2.drop 1)
  | some e => (refuse s e, store.1, store.2.drop 1)

section Faulty

variable {exec : (s : S) → σ → R s × σ} {refuse : (s : S) → φ → R s} {faults : Faults φ}

/-- A statement without a fault is executed. -/
theorem faulty_of_none (h : faults 0 = none) (s : S) (store : σ) :
    faulty exec refuse s (store, faults) =
      ((exec s store).1, (exec s store).2, faults.drop 1) := by
  simp only [faulty, h]

/-- A statement with a fault is refused, and the store is as before. -/
theorem faulty_of_some {e : φ} (h : faults 0 = some e) (s : S) (store : σ) :
    faulty exec refuse s (store, faults) = (refuse s e, store, faults.drop 1) := by
  simp only [faulty, h]

/-- Without faults a program runs as ever. -/
theorem run_faulty_never (p : Program R ε α) (store : σ) :
    p.run (faulty exec refuse) (store, Faults.never) =
      ((p.run exec store).1, (p.run exec store).2, Faults.never) := by
  induction p generalizing store with
  | finish result => rfl
  | call s next ih => exact ih _ _

/-- Without faults a program runs as if there were none. -/
theorem run_of_faulty_never {p : Program R ε α} {store : σ} {result : Except ε α}
    {after : σ × Faults φ}
    (h : p.run (faulty exec refuse) (store, Faults.never) = (result, after)) :
    p.run exec store = (result, after.1) := by
  rw [run_faulty_never] at h
  cases h
  rfl

/-- What the statements of a program keep, a run keeps whichever of them fail. -/
theorem Only.run_faulty {P : S → Prop} {J : σ → Prop} {p : Program R ε α} (hp : Only P p)
    (hstmt : ∀ s store, P s → J store → J (exec s store).2) {store : σ} (hJ : J store)
    (faults : Faults φ) : J (p.run (faulty exec refuse) (store, faults)).2.1 := by
  refine Only.run (J := fun store : σ × Faults φ => J store.1) hp ?_ hJ
  rintro s ⟨store, faults⟩ hs hJ
  cases hfault : faults 0 with
  | none =>
    rw [faulty_of_none hfault]
    exact hstmt s store hs hJ
  | some e =>
    rw [faulty_of_some hfault]
    exact hJ

end Faulty

end Program
