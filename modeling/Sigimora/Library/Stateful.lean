import Sigimora.Library.Outcome

/-!
# Fallible calls on a state

A method that changes the object it is called on and may fail on the way. The
changes made before a failure stay, so the state is part of the result in both
cases.
-/

/-- A call on a state of type `σ` that returns an `α`, fails with an `ε` or panics. -/
def Stateful (σ ε α : Type) := σ → Outcome ε α × σ

namespace Stateful

variable {σ ε α β : Type}

/-- Run the first call, and the second one if the first returns a value. -/
def andThen (x : Stateful σ ε α) (f : α → Stateful σ ε β) : Stateful σ ε β := fun s =>
  match x s with
  | (.ok a, s') => f a s'
  | (.error e, s') => (.error e, s')

instance : Monad (Stateful σ ε) where
  pure a := fun s => (.ok a, s)
  bind := andThen

/-- Read the state. -/
def get : Stateful σ ε σ := fun s => (.ok s, s)

/-- Change the state. -/
def modify (f : σ → σ) : Stateful σ ε Unit := fun s => (.ok (), f s)

/-- A call that does not touch the state. -/
def lift (result : Outcome ε α) : Stateful σ ε α := fun s => (result, s)

/-- Return the error `e`. -/
def fail (e : ε) : Stateful σ ε α := lift (Outcome.fail e)

/-- Translate the error of a call, as `map_err` does. -/
def mapErr {δ : Type} (f : ε → δ) (x : Stateful σ ε α) : Stateful σ δ α :=
  fun s => (Outcome.mapErr f (x s).1, (x s).2)

/-- A call whose value is thrown away. -/
def ignore (x : Stateful σ ε α) : Stateful σ ε Unit := fun s => ((x s).1.map fun _ => (), (x s).2)

/-- Returning a value leaves the state as it is. -/
@[simp] theorem pure_run (a : α) (s : σ) : (pure a : Stateful σ ε α) s = (.ok a, s) := rfl

/-- Reading returns the state and leaves it as it is. -/
@[simp] theorem get_run (s : σ) : (get : Stateful σ ε σ) s = (.ok s, s) := rfl

/-- Modifying changes the state and returns nothing. -/
@[simp] theorem modify_run (f : σ → σ) (s : σ) :
    (modify f : Stateful σ ε Unit) s = (.ok (), f s) := rfl

/-- A plain outcome leaves the state as it is. -/
@[simp] theorem lift_run (result : Outcome ε α) (s : σ) :
    (lift result : Stateful σ ε α) s = (result, s) := rfl

/-- Failing leaves the state as it is. -/
@[simp] theorem fail_run (e : ε) (s : σ) :
    (fail e : Stateful σ ε α) s = (Outcome.fail e, s) := rfl

/-- Translating the error keeps the value and the state. -/
theorem mapErr_run_eq_ok {δ : Type} {f : ε → δ} {x : Stateful σ ε α} {s s' : σ} {a : α} :
    mapErr f x s = (.ok a, s') ↔ x s = (.ok a, s') := by
  rw [mapErr, Prod.mk.injEq, Outcome.mapErr_eq_ok_iff, Prod.ext_iff]

/-- A call that returns hands its value and its state to the next one. -/
theorem bind_run_ok {x : Stateful σ ε α} {s s' : σ} {a : α} (h : x s = (.ok a, s'))
    (f : α → Stateful σ ε β) : (x >>= f) s = f a s' := by
  change andThen x f s = f a s'
  rw [andThen, h]

/-- A call that fails ends the sequence in the state that it leaves. -/
theorem bind_run_error {x : Stateful σ ε α} {s s' : σ} {e : Fault ε} (h : x s = (.error e, s'))
    (f : α → Stateful σ ε β) : (x >>= f) s = (.error e, s') := by
  change andThen x f s = (.error e, s')
  rw [andThen, h]

/-- What follows a read is given the state. -/
@[simp] theorem get_bind (f : σ → Stateful σ ε β) (s : σ) : (get >>= f) s = f s s :=
  bind_run_ok (get_run s) f

/-- What follows a modification runs in the changed state. -/
@[simp] theorem modify_bind (g : σ → σ) (f : Unit → Stateful σ ε β) (s : σ) :
    (modify g >>= f) s = f () (g s) := bind_run_ok (modify_run g s) f

/-- A value that was computed is passed on. -/
@[simp] theorem lift_ok_bind (a : α) (f : α → Stateful σ ε β) (s : σ) :
    (lift (.ok a) >>= f) s = f a s := bind_run_ok (lift_run _ s) f

/-- A sequence returns a value exactly when both of its calls do. -/
theorem bind_run_eq_ok {x : Stateful σ ε α} {f : α → Stateful σ ε β} {s s' : σ} {b : β} :
    (x >>= f) s = (.ok b, s') ↔ ∃ a s₁, x s = (.ok a, s₁) ∧ f a s₁ = (.ok b, s') := by
  constructor
  · intro h
    match hx : x s with
    | (.ok a, s₁) =>
      rw [bind_run_ok hx] at h
      exact ⟨a, s₁, rfl, h⟩
    | (.error e, s₁) =>
      rw [bind_run_error hx] at h
      cases h
  · rintro ⟨a, s₁, hx, hf⟩
    rw [bind_run_ok hx, hf]

/-- A call that does not touch the state, followed by another one. -/
theorem lift_bind_eq_ok {result : Outcome ε α} {f : α → Stateful σ ε β} {s s' : σ} {b : β} :
    (lift result >>= f) s = (.ok b, s') ↔ ∃ a, result = .ok a ∧ f a s = (.ok b, s') := by
  rw [bind_run_eq_ok]
  constructor
  · rintro ⟨a, s₁, hx, hf⟩
    obtain ⟨hresult, rfl⟩ := Prod.mk.inj hx
    exact ⟨a, hresult, hf⟩
  · rintro ⟨a, rfl, hf⟩
    exact ⟨a, s, rfl, hf⟩

/-- A check whose error is translated, followed by another call. -/
theorem check_bind_eq_ok {δ : Type} {e : δ → ε} {check : Outcome δ Unit}
    {f : Unit → Stateful σ ε β} {s s' : σ} {b : β} :
    (lift (Outcome.mapErr e check) >>= f) s = (.ok b, s') ↔
      check = .ok () ∧ f () s = (.ok b, s') := by
  rw [lift_bind_eq_ok]
  constructor
  · rintro ⟨_, hcheck, hrest⟩
    exact ⟨Outcome.mapErr_eq_ok_iff.mp hcheck, hrest⟩
  · rintro ⟨hcheck, hrest⟩
    exact ⟨(), Outcome.mapErr_eq_ok_iff.mpr hcheck, hrest⟩

/-- A call that returns something returns a value and a state. -/
theorem exists_ok_of_isSome {x : Stateful σ ε α} {s : σ} (h : (x s).1.toOption.isSome = true) :
    ∃ a s', x s = (.ok a, s') := by
  obtain ⟨a, ha⟩ := Outcome.exists_ok_of_isSome h
  exact ⟨a, (x s).2, Prod.ext ha rfl⟩

/-- A call that does not touch the state changes nothing if its continuation does not. -/
theorem lift_bind_state {result : Outcome ε α} {f : α → Stateful σ ε β} {s : σ}
    (h : ∀ a, (f a s).2 = s) : ((lift result >>= f) s).2 = s := by
  match result with
  | .ok a =>
    rw [lift_ok_bind]
    exact h a
  | .error e => rw [bind_run_error (lift_run (.error e) s)]

/-- Ignoring the value does not change the state. -/
@[simp] theorem ignore_state (x : Stateful σ ε α) (s : σ) : (ignore x s).2 = (x s).2 := rfl

/-- Ignoring the value does not change an error. -/
theorem ignore_eq_error_iff {x : Stateful σ ε α} {s : σ} {e : Fault ε} :
    (ignore x s).1 = .error e ↔ (x s).1 = .error e := by
  unfold ignore
  cases (x s).1 with
  | error f =>
    change Except.error f = Except.error e ↔ Except.error f = Except.error e
    rw [Except.error.injEq, Except.error.injEq]
  | ok a =>
    constructor
    · intro h
      cases h
    · intro h
      cases h

/-- A call whose value is ignored succeeds just if the call does. -/
theorem ignore_eq_ok_iff {x : Stateful σ ε α} {s s' : σ} :
    ignore x s = (.ok (), s') ↔ ∃ a, x s = (.ok a, s') := by
  unfold ignore
  cases hx : x s with
  | mk result next =>
    cases result with
    | error f =>
      constructor
      · intro h
        cases h
      · rintro ⟨_, h⟩
        cases h
    | ok a =>
      constructor
      · intro h
        cases h
        exact ⟨a, rfl⟩
      · rintro ⟨_, h⟩
        cases h
        rfl

/-! ## Calls that keep the state when they fail

A call that checks everything before its first change leaves the state as it was
when it returns an error. -/

/-- The call returns no error. It may panic. -/
def NeverErrs (x : Stateful σ ε α) (s : σ) : Prop := ∀ e, (x s).1 ≠ .error (.err e)

/-- A call that returns an error leaves the state as it was. -/
def KeepsOnError (x : Stateful σ ε α) (s : σ) : Prop :=
  ∀ e, (x s).1 = .error (.err e) → (x s).2 = s

/-- A call that never returns an error keeps the state whenever it does. -/
theorem NeverErrs.keepsOnError {x : Stateful σ ε α} {s : σ} (h : NeverErrs x s) :
    KeepsOnError x s :=
  fun e he => absurd he (h e)

/-- Reading first does not lead to an error. -/
theorem neverErrs_get_bind {f : σ → Stateful σ ε β} {s : σ} :
    NeverErrs (get >>= f) s ↔ NeverErrs (f s) s := by
  rw [NeverErrs, get_bind, NeverErrs]

/-- Neither does modifying first. -/
theorem neverErrs_modify_bind {g : σ → σ} {f : Unit → Stateful σ ε β} {s : σ} :
    NeverErrs (modify g >>= f) s ↔ NeverErrs (f ()) (g s) := by
  rw [NeverErrs, modify_bind, NeverErrs]

/-- What keeps the state on an error may read it first. -/
theorem keepsOnError_get_bind {f : σ → Stateful σ ε β} {s : σ} :
    KeepsOnError (get >>= f) s ↔ KeepsOnError (f s) s := by
  rw [KeepsOnError, get_bind, KeepsOnError]

/-- Returning a value is no error. -/
theorem neverErrs_pure (a : α) (s : σ) : NeverErrs (pure a : Stateful σ ε α) s := by
  intro e h
  cases h

/-- A call that does not touch the state, followed by one that returns no error. -/
theorem NeverErrs.lift_bind {result : Outcome ε α} {f : α → Stateful σ ε β} {s : σ}
    (hresult : ∀ e, result ≠ .error (.err e)) (h : ∀ a, result = .ok a → NeverErrs (f a) s) :
    NeverErrs (lift result >>= f) s := by
  match result with
  | .ok a =>
    rw [NeverErrs, lift_ok_bind]
    exact h a rfl
  | .error (.err e) => exact absurd rfl (hresult e)
  | .error (.panic message) =>
    intro e he
    rw [bind_run_error (lift_run _ s)] at he
    cases he

/-- Throwing the value away makes no difference. -/
theorem KeepsOnError.ignore {x : Stateful σ ε α} {s : σ} (h : KeepsOnError x s) :
    KeepsOnError (Stateful.ignore x) s :=
  fun e he => h e (ignore_eq_error_iff.mp he)

/-- A plain outcome keeps the state. -/
theorem KeepsOnError.lift (result : Outcome ε α) (s : σ) :
    KeepsOnError (Stateful.lift result) s := fun _ _ => rfl

/-- A check, followed by a call that keeps the state when it fails. -/
theorem KeepsOnError.lift_bind {result : Outcome ε α} {f : α → Stateful σ ε β} {s : σ}
    (h : ∀ a, result = .ok a → KeepsOnError (f a) s) :
    KeepsOnError (Stateful.lift result >>= f) s := by
  match result with
  | .ok a =>
    rw [KeepsOnError, lift_ok_bind]
    exact h a rfl
  | .error e =>
    intro _ _
    rw [bind_run_error (lift_run _ s)]

/-- A first call that keeps the state when it fails, followed by one that never does. -/
theorem KeepsOnError.bind {x : Stateful σ ε α} {f : α → Stateful σ ε β} {s : σ}
    (hx : KeepsOnError x s) (h : ∀ a s', x s = (.ok a, s') → NeverErrs (f a) s') :
    KeepsOnError (x >>= f) s := by
  intro e he
  match hrun : x s with
  | (.ok a, s') =>
    rw [bind_run_ok hrun] at he
    exact absurd he (h a s' hrun e)
  | (.error fault, s') =>
    rw [bind_run_error hrun] at he ⊢
    cases he
    have hkeeps := hx e (by rw [hrun])
    rw [hrun] at hkeeps
    exact hkeeps

end Stateful
