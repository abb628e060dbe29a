import Mathlib.Logic.Function.Basic

/-!
# Programs over a shared store

A program issues statements one after another and goes on with the replies,
until it finishes with a value or an error. Statements are the atomic steps:
programs that share a store are run by a schedule that picks, statement by
statement, the program to go on.

What a program issues can depend on the store only through the replies it has
got. `Meets` says so: it bounds the statements and the result of a program in
terms of its own history, whatever the replies. An invariant of the store then
has to be checked only against statements within these bounds.
-/

/-- A program whose statement `s` is answered by a reply in `R s`. -/
inductive Program {S : Type} (R : S → Type) (ε α : Type)
  | finish (result : Except ε α)
  | call (stmt : S) (next : R stmt → Program R ε α)

namespace Program

variable {S : Type} {R : S → Type} {ε α β γ σ : Type}

/-- Go on with the value of a program; an error ends it. -/
protected def bind : Program R ε α → (α → Program R ε β) → Program R ε β
  | finish (.ok a), f => f a
  | finish (.error e), _ => finish (.error e)
  | call s next, f => call s fun r => (next r).bind f

instance : Monad (Program R ε) where
  pure a := finish (.ok a)
  bind := Program.bind

/-- Returning finishes the program. -/
@[simp] theorem pure_eq (a : α) : (pure a : Program R ε α) = finish (.ok a) := rfl

/-- A finished program hands its value on. -/
@[simp] theorem ok_bind (a : α) (f : α → Program R ε β) :
    (finish (.ok a) : Program R ε α) >>= f = f a := rfl

/-- An error ends the whole program. -/
@[simp] theorem error_bind (e : ε) (f : α → Program R ε β) :
    (finish (.error e) : Program R ε α) >>= f = finish (.error e) := rfl

/-- A program goes on after every reply. -/
@[simp] theorem call_bind (s : S) (next : R s → Program R ε α) (f : α → Program R ε β) :
    call s next >>= f = call s fun r => next r >>= f := rfl

/-- Returning the value of a program changes nothing. -/
theorem bind_pure (p : Program R ε α) : p >>= pure = p := by
  induction p with
  | finish result =>
    cases result with
    | error e => rfl
    | ok a => rfl
  | call s next ih =>
    rw [call_bind]
    exact congrArg _ (funext ih)

/-- Programs compose in any grouping. -/
theorem bind_assoc (p : Program R ε α) (f : α → Program R ε β) (g : β → Program R ε γ) :
    p >>= f >>= g = p >>= fun a => f a >>= g := by
  induction p with
  | finish result =>
    cases result with
    | error e => rfl
    | ok a => rfl
  | call s next ih =>
    rw [call_bind, call_bind, call_bind]
    exact congrArg _ (funext ih)

instance : LawfulMonad (Program R ε) :=
  LawfulMonad.mk' _ bind_pure (fun _ _ => rfl) bind_assoc

/-- The value that a program has finished with. -/
def value? : Program R ε α → Option α
  | finish (.ok a) => some a
  | _ => none

/-- A program has the value that it has finished with. -/
theorem value?_eq_some {p : Program R ε α} {a : α} : p.value? = some a ↔ p = finish (.ok a) := by
  cases p with
  | finish result =>
    cases result with
    | error e => simp [value?]
    | ok b => simp [value?]
  | call s next => simp [value?]

/-! ## Sequential runs -/

/-- Run a program alone on the store. -/
def run (exec : (s : S) → σ → R s × σ) : Program R ε α → σ → Except ε α × σ
  | finish result, store => (result, store)
  | call s next, store => (next (exec s store).1).run exec (exec s store).2

variable {exec : (s : S) → σ → R s × σ}

/-- A finished program leaves the store as it is. -/
@[simp] theorem run_finish (result : Except ε α) (store : σ) :
    (finish result : Program R ε α).run exec store = (result, store) := rfl

/-- A run executes the statement and goes on with its reply. -/
@[simp] theorem run_call (s : S) (next : R s → Program R ε α) (store : σ) :
    (call s next).run exec store = (next (exec s store).1).run exec (exec s store).2 := rfl

/-- A sequence of two programs returns a value exactly when both do. -/
theorem run_bind_eq_ok {p : Program R ε α} {f : α → Program R ε β} {store store'' : σ} {b : β} :
    (p >>= f).run exec store = (.ok b, store'') ↔
      ∃ a store', p.run exec store = (.ok a, store') ∧
        (f a).run exec store' = (.ok b, store'') := by
  induction p generalizing store with
  | finish result =>
    cases result with
    | error e => simp
    | ok a =>
      constructor
      · intro h
        exact ⟨a, store, rfl, h⟩
      · rintro ⟨a', store', ha, h⟩
        cases ha
        exact h
  | call s next ih => exact ih _

/-- After a program that succeeds the next one goes on. -/
theorem run_bind_of_ok {p : Program R ε α} {f : α → Program R ε β} {store store' : σ} {a : α}
    (h : p.run exec store = (.ok a, store')) :
    (p >>= f).run exec store = (f a).run exec store' := by
  induction p generalizing store with
  | finish result =>
    cases h
    rfl
  | call s next ih => exact ih _ h

/-- After a program that fails nothing else is run. -/
theorem run_bind_of_error {p : Program R ε α} {f : α → Program R ε β} {store store' : σ} {e : ε}
    (h : p.run exec store = (.error e, store')) :
    (p >>= f).run exec store = (.error e, store') := by
  induction p generalizing store with
  | finish result =>
    cases h
    rfl
  | call s next ih => exact ih _ h

/-- What holds after the first program, and after the second one when it goes on. -/
theorem run_bind_rec {J : σ → Prop} {p : Program R ε α} {f : α → Program R ε β} {store : σ}
    (hp : J (p.run exec store).2)
    (hf : ∀ a store', p.run exec store = (.ok a, store') → J ((f a).run exec store').2) :
    J ((p >>= f).run exec store).2 := by
  obtain ⟨result, store', hrun⟩ : ∃ result store', p.run exec store = (result, store') :=
    ⟨_, _, rfl⟩
  cases result with
  | error e =>
    rw [run_bind_of_error hrun]
    rwa [hrun] at hp
  | ok a =>
    rw [run_bind_of_ok hrun]
    exact hf a store' hrun

/-- What every pass of a loop keeps, the loop keeps. -/
theorem run_forM_rec {J : σ → Prop} {entries : List β} {f : β → Program R ε PUnit} {store : σ}
    (hf : ∀ x ∈ entries, ∀ store, J store → J ((f x).run exec store).2) (h : J store) :
    J ((entries.forM f).run exec store).2 := by
  induction entries generalizing store with
  | nil => exact h
  | cons x entries ih =>
    have hx : J ((f x).run exec store).2 := hf x List.mem_cons_self store h
    refine run_bind_rec hx fun _ store' hrun => ?_
    rw [hrun] at hx
    exact ih (fun y hy => hf y (List.mem_cons_of_mem _ hy)) hx

/-- A computation on the value of a program. -/
theorem run_bind_pure (p : Program R ε α) (f : α → β) (store : σ) :
    (p >>= fun a => pure (f a)).run exec store =
      ((p.run exec store).1.map f, (p.run exec store).2) := by
  induction p generalizing store with
  | finish result => cases result <;> rfl
  | call s next ih => exact ih _ _

/-- What is made of the value does not change the store. -/
theorem run_bind_pure_snd (p : Program R ε α) (f : α → β) (store : σ) :
    ((p >>= fun a => pure (f a)).run exec store).2 = (p.run exec store).2 :=
  congrArg Prod.snd (run_bind_pure p f store)

/-- A run that can be seen to succeed has a value. -/
theorem exists_ok_of_isOk {outcome : Except ε α × σ} (h : outcome.1.isOk = true) :
    ∃ a, outcome = (.ok a, outcome.2) := by
  obtain ⟨result, store⟩ := outcome
  cases result with
  | error e => cases h
  | ok a => exact ⟨a, rfl⟩

/-- A loop whose body always succeeds folds the effects of its passes. -/
theorem run_forM_eq_ok {entries : List β} {f : β → Program R ε PUnit} (effect : σ → β → σ)
    (h : ∀ x ∈ entries, ∀ store, (f x).run exec store = (.ok ⟨⟩, effect store x)) (store : σ) :
    (entries.forM f).run exec store = (.ok ⟨⟩, entries.foldl effect store) := by
  induction entries generalizing store with
  | nil => rfl
  | cons x entries ih =>
    exact run_bind_eq_ok.mpr ⟨_, _, h x List.mem_cons_self store,
      ih (fun y hy => h y (List.mem_cons_of_mem _ hy)) _⟩

/-! ## Histories -/

/-- A statement with the reply it got. -/
structure Event {S : Type} (R : S → Type) where
  stmt : S
  reply : R stmt

/-- After the history `h` the program issues only statements that satisfy `P`,
and a value that it finishes with satisfies `Q`. -/
def Meets (P : List (Event R) → S → Prop) (Q : List (Event R) → α → Prop) :
    List (Event R) → Program R ε α → Prop
  | h, finish (.ok a) => Q h a
  | _, finish (.error _) => True
  | h, call s next => P h s ∧ ∀ r, Meets P Q (h ++ [⟨s, r⟩]) (next r)

section Meets

variable {P : List (Event R) → S → Prop} {Q : List (Event R) → α → Prop} {h : List (Event R)}

/-- A finished program meets what holds of its value. -/
theorem meets_ok {a : α} : Meets P Q h (finish (.ok a) : Program R ε α) ↔ Q h a := by
  rw [Meets]

/-- A program that has ended in an error meets everything. -/
theorem meets_error (e : ε) : Meets P Q h (finish (.error e) : Program R ε α) := by
  rw [Meets]
  trivial

/-- A program meets a specification if its statement does, and the rest after every reply. -/
theorem meets_call {s : S} {next : R s → Program R ε α} :
    Meets P Q h (call s next) ↔ P h s ∧ ∀ r, Meets P Q (h ++ [⟨s, r⟩]) (next r) := by
  rw [Meets]

/-- The second program takes over where the first one finished. -/
theorem Meets.bind {Q' : List (Event R) → β → Prop} {p : Program R ε α}
    {f : α → Program R ε β} (hp : Meets P Q h p) (hf : ∀ h a, Q h a → Meets P Q' h (f a)) :
    Meets P Q' h (p >>= f) := by
  induction p generalizing h with
  | finish result =>
    cases result with
    | error e => exact meets_error e
    | ok a => exact hf h a (meets_ok.mp hp)
  | call s next ih =>
    rw [meets_call] at hp
    rw [call_bind, meets_call]
    exact ⟨hp.1, fun r => ih r (hp.2 r)⟩

/-- Any consequence of what is known of the value. -/
theorem Meets.mono {Q' : List (Event R) → α → Prop} {p : Program R ε α} (hp : Meets P Q h p)
    (hQ : ∀ h a, Q h a → Q' h a) : Meets P Q' h p := by
  rw [← bind_pure p]
  exact hp.bind fun h a ha => meets_ok.mpr (hQ h a ha)

/-- A loop whose body keeps the invariant `I` of the history. -/
theorem Meets.forM {I : List (Event R) → Prop} {entries : List β} {f : β → Program R ε PUnit}
    (hI : I h) (hf : ∀ x ∈ entries, ∀ h, I h → Meets P (fun h _ => I h) h (f x)) :
    Meets P (fun h _ => I h) h (entries.forM f) := by
  induction entries generalizing h with
  | nil => exact meets_ok.mpr hI
  | cons x entries ih =>
    exact (hf x List.mem_cons_self h hI).bind fun h _ hI =>
      ih hI fun y hy => hf y (List.mem_cons_of_mem _ hy)

/-- A loop that collects values with the property `T`. -/
theorem Meets.mapM {I : List (Event R) → Prop} {T : α → Prop} {entries : List β}
    {f : β → Program R ε α} (hI : I h)
    (hf : ∀ x ∈ entries, ∀ h, I h → Meets P (fun h a => I h ∧ T a) h (f x)) :
    Meets P (fun h as => I h ∧ ∀ a ∈ as, T a) h (entries.mapM f) := by
  induction entries generalizing h with
  | nil => exact meets_ok.mpr ⟨hI, by simp⟩
  | cons x entries ih =>
    rw [List.mapM_cons]
    refine (hf x List.mem_cons_self h hI).bind fun h a ha => ?_
    refine (ih ha.1 fun y hy => hf y (List.mem_cons_of_mem _ hy)).bind fun h as has => ?_
    exact meets_ok.mpr ⟨has.1, List.forall_mem_cons.mpr ⟨ha.2, has.2⟩⟩

end Meets

/-! ## Programs with few statements -/

/-- The program issues only statements that satisfy `P`, whatever the replies. -/
def Only (P : S → Prop) : Program R ε α → Prop
  | finish _ => True
  | call s next => P s ∧ ∀ r, Only P (next r)

section Only

variable {P : S → Prop}

/-- A finished program issues no statement. -/
theorem only_finish (result : Except ε α) : Only P (finish result : Program R ε α) := by
  rw [Only]
  trivial

/-- A program is bounded if its statement is, and the rest after every reply. -/
theorem only_call {s : S} {next : R s → Program R ε α} :
    Only P (call s next) ↔ P s ∧ ∀ r, Only P (next r) := by
  rw [Only]

/-- Weaker bounds hold as well. -/
theorem Only.mono {Q : S → Prop} {p : Program R ε α} (hp : Only P p) (hPQ : ∀ s, P s → Q s) :
    Only Q p := by
  induction p with
  | finish result => exact only_finish result
  | call s next ih =>
    rw [only_call] at hp
    exact only_call.mpr ⟨hPQ s hp.1, fun r => ih r (hp.2 r)⟩

/-- Every program issues statements only. -/
theorem only_true (p : Program R ε α) : Only (fun _ : S => True) p := by
  induction p with
  | finish result => exact only_finish result
  | call s next ih => exact only_call.mpr ⟨trivial, ih⟩

/-- Bounds compose. -/
theorem Only.bind {p : Program R ε α} {f : α → Program R ε β} (hp : Only P p)
    (hf : ∀ a, Only P (f a)) : Only P (p >>= f) := by
  induction p with
  | finish result =>
    cases result with
    | error e => exact only_finish _
    | ok a => exact hf a
  | call s next ih =>
    rw [only_call] at hp
    rw [call_bind, only_call]
    exact ⟨hp.1, fun r => ih r (hp.2 r)⟩

/-- A choice between bounded programs is bounded. -/
theorem Only.ite {c : Prop} [Decidable c] {p q : Program R ε α} (hp : Only P p) (hq : Only P q) :
    Only P (if c then p else q) := by
  split
  · exact hp
  · exact hq

/-- A loop of bounded programs is bounded. -/
theorem Only.mapM {f : α → Program R ε β} (hf : ∀ a, Only P (f a)) (entries : List α) :
    Only P (entries.mapM f) := by
  induction entries with
  | nil => exact only_finish _
  | cons x entries ih =>
    rw [List.mapM_cons]
    exact (hf x).bind fun _ => ih.bind fun _ => only_finish _

/-- A loop of bounded programs is bounded. -/
theorem Only.forM {f : α → Program R ε PUnit} {entries : List α}
    (hf : ∀ a ∈ entries, Only P (f a)) : Only P (entries.forM f) := by
  induction entries with
  | nil => exact only_finish _
  | cons x entries ih =>
    exact (hf x List.mem_cons_self).bind fun _ => ih fun y hy => hf y (List.mem_cons_of_mem _ hy)

/-- Bounds that depend on the history are bounds. -/
theorem Meets.only {P' : List (Event R) → S → Prop} {Q : List (Event R) → α → Prop}
    {h : List (Event R)} {p : Program R ε α} (hp : Meets P' Q h p)
    (hP : ∀ h s, P' h s → P s) : Only P p := by
  induction p generalizing h with
  | finish result => exact only_finish result
  | call s next ih =>
    rw [meets_call] at hp
    exact only_call.mpr ⟨hP h s hp.1, fun r => ih r (hp.2 r)⟩

/-- What the statements keep, a run of the program keeps. -/
theorem Only.run {J : σ → Prop} {p : Program R ε α} (hp : Only P p)
    (hstmt : ∀ s store, P s → J store → J (exec s store).2) {store : σ} (hJ : J store) :
    J (p.run exec store).2 := by
  induction p generalizing store with
  | finish result => exact hJ
  | call s next ih =>
    rw [only_call] at hp
    exact ih _ (hp.2 _) (hstmt s store hp.1 hJ)

end Only

/-! ## Programs that run side by side -/

/-- Programs with their shared store and the statements executed so far. -/
structure System {S : Type} (R : S → Type) (ε : Type) {ι : Type} (α : ι → Type) (σ : Type) where
  store : σ
  programs : ∀ i, Program R ε (α i)
  log : List (ι × Event R)

variable {ι : Type} [DecidableEq ι] {α : ι → Type}

/-- The part of a log that one program has seen. -/
def history (i : ι) (log : List (ι × Event R)) : List (Event R) :=
  log.filterMap fun entry => if entry.1 = i then some entry.2 else none

/-- A new event is the last one of its program's history. -/
theorem history_append_self (i : ι) (log : List (ι × Event R)) (event : Event R) :
    history i (log ++ [(i, event)]) = history i log ++ [event] := by
  simp [history]

/-- An event of another program does not count. -/
theorem history_append_of_ne {i j : ι} (hij : i ≠ j) (log : List (ι × Event R))
    (event : Event R) : history j (log ++ [(i, event)]) = history j log := by
  simp [history, hij]

namespace System

/-- The program `i` issues its next statement; a finished program rests. -/
def step (exec : (s : S) → σ → R s × σ) (c : System R ε α σ) (i : ι) : System R ε α σ :=
  match c.programs i with
  | finish _ => c
  | call s next =>
    { store := (exec s c.store).2
      programs := Function.update c.programs i (next (exec s c.store).1)
      log := c.log ++ [(i, ⟨s, (exec s c.store).1⟩)] }

/-- Let the programs take steps in the order of the schedule. -/
def runSchedule (exec : (s : S) → σ → R s × σ) (c : System R ε α σ) (schedule : List ι) :
    System R ε α σ :=
  schedule.foldl (step exec) c

/-- All programs keep within their bounds, and the invariant `J` holds. -/
def Invariant (P : ι → List (Event R) → S → Prop) (Q : ∀ i, List (Event R) → α i → Prop)
    (J : List (ι × Event R) → σ → Prop) (c : System R ε α σ) : Prop :=
  J c.log c.store ∧ ∀ i, Meets (P i) (Q i) (history i c.log) (c.programs i)

variable {P : ι → List (Event R) → S → Prop} {Q : ∀ i, List (Event R) → α i → Prop}
  {J : List (ι × Event R) → σ → Prop}

/-- One step keeps the invariant, if each statement within the bounds does. -/
theorem Invariant.step (hstmt : ∀ log store i s, J log store → P i (history i log) s →
      J (log ++ [(i, ⟨s, (exec s store).1⟩)]) (exec s store).2)
    {c : System R ε α σ} (h : c.Invariant P Q J) (i : ι) : (c.step exec i).Invariant P Q J := by
  unfold System.step
  split
  · exact h
  · rename_i s next hcall
    have hmeets := h.2 i
    rw [hcall, meets_call] at hmeets
    refine ⟨hstmt _ _ i s h.1 hmeets.1, fun j => ?_⟩
    by_cases hij : i = j
    · subst hij
      simp only [Function.update_self, history_append_self]
      exact hmeets.2 _
    · simp only [Function.update_of_ne (Ne.symm hij), history_append_of_ne hij]
      exact h.2 j

/-- The invariant holds after every schedule. -/
theorem Invariant.runSchedule (hstmt : ∀ log store i s, J log store → P i (history i log) s →
      J (log ++ [(i, ⟨s, (exec s store).1⟩)]) (exec s store).2)
    {c : System R ε α σ} (h : c.Invariant P Q J) (schedule : List ι) :
    (c.runSchedule exec schedule).Invariant P Q J := by
  induction schedule generalizing c with
  | nil => exact h
  | cons i schedule ih => exact ih (h.step hstmt i)

end System

end Program
