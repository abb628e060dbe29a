import Mathlib.Data.List.Forall2

/-!
# Outcomes of fallible code

A call returns a value, returns an error, or panics. The two failures are kept
apart, since a caller handles the first and does not survive the second.
-/

/-- How a call fails: with an error value or with a panic. -/
inductive Fault (ε : Type)
  | panic (message : String)
  | err (e : ε)
  deriving DecidableEq, Repr

/-- The result of a call whose error type is `ε`. -/
abbrev Outcome (ε : Type) := Except (Fault ε)

namespace Outcome

variable {ε δ α β : Type}

/-- Return the error `e`. -/
def fail (e : ε) : Outcome ε α := .error (.err e)

/-- Panic with the given message. -/
def panic (message : String) : Outcome ε α := .error (.panic message)

/-- Translate the error value, as `map_err` does. A panic stays a panic. -/
def mapErr (f : ε → δ) : Outcome ε α → Outcome δ α
  | .ok a => .ok a
  | .error (.err e) => .error (.err (f e))
  | .error (.panic message) => .error (.panic message)

/-- The value of an option, or the error `e`. -/
def okOr (e : ε) : Option α → Outcome ε α
  | some a => .ok a
  | none => fail e

/-- The value of an option; `None` panics, as in `expect`. -/
def expect (message : String) : Option α → Outcome ε α
  | some a => .ok a
  | none => panic message

/-- The value of an option; `None` panics, as in `unwrap`. -/
def unwrap (o : Option α) : Outcome ε α :=
  expect "called `Option::unwrap()` on a `None` value" o

/-- The entry of a list at a position; a position beyond the end panics. -/
def index (entries : List α) (i : Nat) : Outcome ε α :=
  match entries[i]? with
  | some a => .ok a
  | none => panic s!"index out of bounds: the len is {entries.length} but the index is {i}"

/-- Whether the call returned an error. -/
def isErr : Outcome ε α → Bool
  | .error (.err _) => true
  | _ => false

/-- Whether the call panicked. -/
def isPanic : Outcome ε α → Bool
  | .error (.panic _) => true
  | _ => false

/-- Checked subtraction of unsigned integers. -/
def sub (a b : Nat) : Outcome ε Nat :=
  if b ≤ a then .ok (a - b) else panic "attempt to subtract with overflow"

/-- A run that can be seen to return an error has one. -/
theorem exists_err_of_isErr {σ : Type} {outcome : Outcome ε α × σ} (h : outcome.1.isErr = true) :
    ∃ e, outcome = (.error (.err e), outcome.2) := by
  obtain ⟨result, store⟩ := outcome
  match result, h with
  | .error (.err e), _ => exact ⟨e, rfl⟩

/-- A computation goes on after a success. -/
@[simp] theorem ok_bind (a : α) (f : α → Outcome ε β) :
    (Except.ok a : Outcome ε α) >>= f = f a := rfl

/-- Returning is a success. -/
@[simp] theorem pure_eq_ok (a : α) : (pure a : Outcome ε α) = .ok a := rfl

/-- A success has no error to map. -/
@[simp] theorem mapErr_ok (f : ε → δ) (a : α) : mapErr f (.ok a : Outcome ε α) = .ok a := rfl

/-- A value that is there is returned. -/
@[simp] theorem okOr_some (e : ε) (a : α) : okOr e (some a) = .ok a := rfl

/-- A value that is there is returned. -/
@[simp] theorem expect_some (message : String) (a : α) :
    (expect message (some a) : Outcome ε α) = .ok a := rfl

/-- A value that is there is returned. -/
@[simp] theorem unwrap_some (a : α) : (unwrap (some a) : Outcome ε α) = .ok a := rfl

/-- Indexing returns the entry at the position. -/
theorem index_eq_ok {entries : List α} {i : Nat} {a : α} :
    (index entries i : Outcome ε α) = .ok a ↔ entries[i]? = some a := by
  unfold index
  split
  · rename_i b hb
    rw [hb, Except.ok.injEq, Option.some.injEq]
  · rename_i hnone
    rw [hnone]
    constructor
    · intro h
      cases h
    · intro h
      cases h

/-- Only a value that is there is returned. -/
theorem okOr_eq_ok {e : ε} {o : Option α} {a : α} : okOr e o = .ok a ↔ o = some a := by
  cases o with
  | none => constructor <;> intro h <;> cases h
  | some b => rw [okOr_some, Except.ok.injEq, Option.some.injEq]

/-- A difference that is no negative number is returned. -/
theorem sub_of_le {a b : Nat} (h : b ≤ a) : (sub a b : Outcome ε Nat) = .ok (a - b) := if_pos h

/-- Only a difference that is no negative number is returned. -/
theorem sub_eq_ok_iff {a b c : Nat} :
    (sub a b : Outcome ε Nat) = .ok c ↔ b ≤ a ∧ a - b = c := by
  unfold sub
  by_cases hle : b ≤ a
  · rw [if_pos hle, Except.ok.injEq, and_iff_right hle]
  · rw [if_neg hle]
    constructor
    · intro h
      cases h
    · intro h
      exact absurd h.1 hle

/-- Translating the error keeps the value. -/
theorem mapErr_eq_ok_iff {f : ε → δ} {result : Outcome ε α} {a : α} :
    mapErr f result = .ok a ↔ result = .ok a := by
  match result with
  | .ok b => rw [mapErr_ok, Except.ok.injEq, Except.ok.injEq]
  | .error (.err e) =>
    constructor
    · intro h
      cases h
    · intro h
      cases h
  | .error (.panic message) =>
    constructor
    · intro h
      cases h
    · intro h
      cases h

/-- Translating the error keeps errors apart from panics. -/
theorem exists_mapErr_eq_err_iff {f : ε → δ} {result : Outcome ε α} :
    (∃ e, mapErr f result = .error (.err e)) ↔ ∃ e, result = .error (.err e) := by
  match result with
  | .ok a =>
    constructor
    · rintro ⟨_, h⟩
      cases h
    · rintro ⟨_, h⟩
      cases h
  | .error (.err e) => exact iff_of_true ⟨f e, rfl⟩ ⟨e, rfl⟩
  | .error (.panic message) =>
    constructor
    · rintro ⟨_, h⟩
      cases h
    · rintro ⟨_, h⟩
      cases h

/-- A result with a value is a success. -/
theorem exists_ok_of_isSome {result : Outcome ε α} (h : result.toOption.isSome = true) :
    ∃ a, result = .ok a := by
  match result with
  | .ok a => exact ⟨a, rfl⟩
  | .error e => cases h

/-- A sequence of two calls returns a value exactly when both do. -/
theorem bind_eq_ok {x : Outcome ε α} {f : α → Outcome ε β} {b : β} :
    x >>= f = .ok b ↔ ∃ a, x = .ok a ∧ f a = .ok b := by
  cases x with
  | error e =>
    constructor
    · intro h
      cases h
    · rintro ⟨_, h, _⟩
      cases h
  | ok a =>
    constructor
    · intro h
      exact ⟨a, rfl, h⟩
    · rintro ⟨_, h, hf⟩
      cases h
      exact hf

/-- A loop of calls returns a list exactly when each call returns its entry. -/
theorem mapM_eq_ok_iff {f : α → Outcome ε β} {entries : List α} {values : List β} :
    entries.mapM f = .ok values ↔ List.Forall₂ (fun x y => f x = .ok y) entries values := by
  induction entries generalizing values with
  | nil =>
    rw [List.mapM_nil, pure_eq_ok, Except.ok.injEq, List.forall₂_nil_left_iff, eq_comm]
  | cons x entries ih =>
    simp only [List.mapM_cons, bind_eq_ok, ih, pure_eq_ok, Except.ok.injEq,
      List.forall₂_cons_left_iff]
    constructor
    · rintro ⟨y, hy, ys, hys, rfl⟩
      exact ⟨y, ys, hy, hys, rfl⟩
    · rintro ⟨y, ys, hy, hys, rfl⟩
      exact ⟨y, hy, ys, hys, rfl⟩

/-- An entry of a list is related to one of any list that it is related to entry by entry. -/
theorem exists_of_forall₂ {R : α → β → Prop} {entries : List α} {values : List β}
    (h : List.Forall₂ R entries values) {x : α} (hx : x ∈ entries) : ∃ y ∈ values, R x y := by
  induction h with
  | nil => exact absurd hx List.not_mem_nil
  | cons hhead _ ih =>
    rcases List.mem_cons.mp hx with rfl | hx
    · exact ⟨_, List.mem_cons_self, hhead⟩
    · obtain ⟨y, hy, hR⟩ := ih hx
      exact ⟨y, List.mem_cons_of_mem _ hy, hR⟩

/-- The values of a loop of calls are those of its entries. -/
theorem mem_of_mapM_eq_ok {f : α → Outcome ε β} {entries : List α} {values : List β}
    (h : entries.mapM f = .ok values) {y : β} : y ∈ values ↔ ∃ x ∈ entries, f x = .ok y := by
  rw [mapM_eq_ok_iff] at h
  induction h with
  | nil => simp
  | cons hx _ ih =>
    simp only [List.mem_cons, exists_eq_or_imp, ih, hx, Except.ok.injEq, eq_comm (a := y)]

/-- A loop of calls that returns has called each entry with success. -/
theorem exists_of_mapM_eq_ok {f : α → Outcome ε β} {entries : List α} {values : List β}
    (h : entries.mapM f = .ok values) {x : α} (hx : x ∈ entries) : ∃ y, f x = .ok y := by
  obtain ⟨y, _, hy⟩ := exists_of_forall₂ (mapM_eq_ok_iff.mp h) hx
  exact ⟨y, hy⟩

/-- A loop of calls that all succeed collects their values. -/
theorem mapM_eq_ok {f : α → Outcome ε β} {g : α → β} {entries : List α}
    (h : ∀ x ∈ entries, f x = .ok (g x)) : entries.mapM f = .ok (entries.map g) :=
  mapM_eq_ok_iff.mpr (List.forall₂_map_right_iff.mpr (List.forall₂_same.mpr h))

/-- A loop that can only panic with one message does so when one of its calls does. -/
theorem mapM_eq_panic {f : α → Outcome ε β} {message : String} {entries : List α}
    (honly : ∀ x ∈ entries, (∃ y, f x = .ok y) ∨ f x = panic message)
    (h : ∃ x ∈ entries, f x = panic message) : entries.mapM f = panic message := by
  induction entries with
  | nil =>
    obtain ⟨x, hx, _⟩ := h
    exact absurd hx List.not_mem_nil
  | cons x entries ih =>
    rw [List.mapM_cons]
    rcases honly x List.mem_cons_self with ⟨y, hy⟩ | hpanic
    · have hrest : ∃ z ∈ entries, f z = panic message := by
        obtain ⟨z, hz, hpanic⟩ := h
        rcases List.mem_cons.mp hz with rfl | hz
        · rw [hy] at hpanic
          cases hpanic
        · exact ⟨z, hz, hpanic⟩
      rw [hy, ok_bind, ih (fun z hz => honly z (List.mem_cons_of_mem _ hz)) hrest]
      rfl
    · rw [hpanic]
      rfl

/-- The values of a loop of calls whose results are known up to a relation. -/
theorem mapM_exists {f : α → Outcome ε β} {P : α → β → Prop} (entries : List α)
    (h : ∀ x ∈ entries, ∃ y, f x = .ok y ∧ P x y) :
    ∃ values, entries.mapM f = .ok values ∧ List.Forall₂ P entries values := by
  induction entries with
  | nil => exact ⟨[], rfl, List.Forall₂.nil⟩
  | cons x entries ih =>
    obtain ⟨y, hy, hP⟩ := h x List.mem_cons_self
    obtain ⟨ys, hys, hPs⟩ := ih fun z hz => h z (List.mem_cons_of_mem _ hz)
    refine ⟨y :: ys, ?_, List.Forall₂.cons hP hPs⟩
    rw [List.mapM_cons, hy, hys, ok_bind, ok_bind, pure_eq_ok]

/-- What each call makes of its entry holds of the values of the loop. -/
theorem mapM_forall₂ {κ : Type} {f : α → Outcome ε β} {R : α → κ → Prop} {Q : β → κ → Prop}
    {entries : List α} {keys : List κ} {values : List β} (hR : List.Forall₂ R entries keys)
    (h : entries.mapM f = .ok values) (hQ : ∀ x k y, R x k → f x = .ok y → Q y k) :
    List.Forall₂ Q values keys := by
  rw [mapM_eq_ok_iff] at h
  induction hR generalizing values with
  | nil =>
    rw [List.forall₂_nil_left_iff] at h
    subst h
    exact List.Forall₂.nil
  | cons hx hR ih =>
    obtain ⟨y, ys, hy, hys, rfl⟩ := List.forall₂_cons_left_iff.mp h
    exact List.Forall₂.cons (hQ _ _ _ hx hy) (ih hys)

/-! ## Calls that do not panic -/

/-- The call returns a value or an error. -/
def NoPanic (x : Outcome ε α) : Prop := ∀ message, x ≠ panic message

/-- A success is no panic. -/
@[simp] theorem noPanic_ok (a : α) : NoPanic (.ok a : Outcome ε α) := nofun

/-- An error is no panic. -/
@[simp] theorem noPanic_fail (e : ε) : NoPanic (fail e : Outcome ε α) := nofun

/-- A panic is one. -/
@[simp] theorem not_noPanic_panic (message : String) : ¬ NoPanic (panic message : Outcome ε α) :=
  fun h => h message rfl

/-- A sequence does not panic when the first call does not, and the second does not on
what the first returns. -/
theorem noPanic_bind_iff {x : Outcome ε α} {f : α → Outcome ε β} :
    NoPanic (x >>= f) ↔ NoPanic x ∧ ∀ a, x = .ok a → NoPanic (f a) := by
  match x with
  | .ok a =>
    rw [ok_bind, and_iff_right (noPanic_ok a)]
    constructor
    · rintro h _ ⟨⟩
      exact h
    · intro h
      exact h a rfl
  | .error (.err e) => exact iff_of_true nofun ⟨nofun, nofun⟩
  | .error (.panic message) =>
    exact iff_of_false (fun h => h message rfl) fun h => h.1 message rfl

/-- Mapping errors makes no panic and hides none. -/
theorem noPanic_mapErr_iff {f : ε → δ} {x : Outcome ε α} : NoPanic (mapErr f x) ↔ NoPanic x := by
  match x with
  | .ok a => exact iff_of_true nofun nofun
  | .error (.err e) => exact iff_of_true nofun nofun
  | .error (.panic message) =>
    exact iff_of_false (fun h => h message rfl) fun h => h message rfl

/-- A panic that can be seen. -/
theorem not_noPanic_of_isPanic {x : Outcome ε α} (h : x.isPanic = true) : ¬ NoPanic x := by
  match x, h with
  | .error (.panic message), _ => exact not_noPanic_panic message

/-- A missing value is answered with an error. -/
theorem noPanic_okOr (e : ε) (o : Option α) : NoPanic (okOr e o) := by
  cases o with
  | none => exact nofun
  | some a => exact nofun

/-- A loop of calls that do not panic does not panic. -/
theorem noPanic_mapM {f : α → Outcome ε β} {entries : List α} (h : ∀ x ∈ entries, NoPanic (f x)) :
    NoPanic (entries.mapM f) := by
  induction entries with
  | nil => exact noPanic_ok _
  | cons x entries ih =>
    rw [List.mapM_cons]
    refine noPanic_bind_iff.mpr ⟨h x List.mem_cons_self, fun a _ => ?_⟩
    exact noPanic_bind_iff.mpr
      ⟨ih fun y hy => h y (List.mem_cons_of_mem _ hy), fun _ _ => noPanic_ok _⟩

/-- Indexing panics exactly beyond the end. -/
theorem noPanic_index_iff {entries : List α} {i : ℕ} :
    NoPanic (index entries i : Outcome ε α) ↔ i < entries.length := by
  unfold index
  split
  · rename_i a ha
    exact iff_of_true nofun (List.getElem?_eq_some_iff.mp ha).1
  · rename_i hnone
    exact iff_of_false (fun h => h _ rfl) (Nat.not_lt.mpr (List.getElem?_eq_none_iff.mp hnone))

end Outcome
