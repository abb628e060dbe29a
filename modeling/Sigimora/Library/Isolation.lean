import Sigimora.Library.Program

/-!
# Programs that do not see each other

Programs side by side share one store, but some of them may depend on it only
through a view. If the statements of this group are determined by the view, and
the statements of all other programs leave the view alone, then the group runs in
every schedule as it does in the schedule without the others. A group of one
program then runs as it does alone. What a program is blind to in the replies need
not be in the view.
-/

namespace Program

variable {S : Type} {R : S → Type} {ε σ τ : Type} {exec : (s : S) → σ → R s × σ}

/-- The reply to a statement and the view after it depend on the view before it. -/
def Determined (exec : (s : S) → σ → R s × σ) (view : σ → τ) (s : S) : Prop :=
  ∀ store store', view store = view store' →
    (exec s store).1 = (exec s store').1 ∧ view (exec s store).2 = view (exec s store').2

/-- Bounds on the statements bound them whatever the history is. -/
theorem Only.meets {α : Type} {P : S → Prop} {p : Program R ε α} (hp : Only P p)
    (h : List (Event R)) : Meets (fun _ s => P s) (fun _ _ => True) h p := by
  induction p generalizing h with
  | finish result =>
    cases result with
    | error e => exact meets_error e
    | ok a => exact meets_ok.mpr trivial
  | call s next ih =>
    rw [only_call] at hp
    exact meets_call.mpr ⟨hp.1, fun r => ih r (hp.2 r) _⟩

/-- Wider bounds on the statements. -/
theorem Meets.weaken {α : Type} {P P' : List (Event R) → S → Prop}
    {Q : List (Event R) → α → Prop} {h : List (Event R)} {p : Program R ε α} (hp : Meets P Q h p)
    (hP : ∀ h s, P h s → P' h s) : Meets P' Q h p := by
  induction p generalizing h with
  | finish result =>
    cases result with
    | error e => exact meets_error e
    | ok a => exact meets_ok.mpr (meets_ok.mp hp)
  | call s next ih =>
    rw [meets_call] at hp
    exact meets_call.mpr ⟨hP h s hp.1, fun r => ih r (hp.2 r)⟩

/-- A program that goes on after something else has happened, within bounds that allow for it. -/
theorem Meets.after {α : Type} {P P' : List (Event R) → S → Prop}
    {Q : List (Event R) → α → Prop} {h : List (Event R)} {p : Program R ε α}
    (before : List (Event R)) (hp : Meets P Q h p) (hP : ∀ h s, P h s → P' (before ++ h) s) :
    Meets P' (fun _ _ => True) (before ++ h) p := by
  induction p generalizing h with
  | finish result =>
    cases result with
    | error e => exact meets_error e
    | ok a => exact meets_ok.mpr trivial
  | call s next ih =>
    rw [meets_call] at hp
    refine meets_call.mpr ⟨hP h s hp.1, fun r => ?_⟩
    rw [List.append_assoc]
    exact ih r (hp.2 r)

/-- Two bounds at once. -/
theorem Only.both {α : Type} {P P' : S → Prop} {p : Program R ε α} (hp : Only P p)
    (hp' : Only P' p) : Only (fun s => P s ∧ P' s) p := by
  induction p with
  | finish result => exact only_finish result
  | call s next ih =>
    rw [only_call] at hp hp'
    exact only_call.mpr ⟨⟨hp.1, hp'.1⟩, fun r => ih r (hp.2 r) (hp'.2 r)⟩

/-- Two specifications of one program hold together. -/
theorem Meets.both {α : Type} {P P' : List (Event R) → S → Prop} {Q Q' : List (Event R) → α → Prop}
    {h : List (Event R)} {p : Program R ε α} (hp : Meets P Q h p) (hp' : Meets P' Q' h p) :
    Meets (fun h s => P h s ∧ P' h s) (fun h a => Q h a ∧ Q' h a) h p := by
  induction p generalizing h with
  | finish result =>
    cases result with
    | error e => exact meets_error e
    | ok a => exact meets_ok.mpr ⟨meets_ok.mp hp, meets_ok.mp hp'⟩
  | call s next ih =>
    rw [meets_call] at hp hp'
    exact meets_call.mpr ⟨⟨hp.1, hp'.1⟩, fun r => ih r (hp.2 r) (hp'.2 r)⟩

/-- What a program has seen was logged under its name. -/
theorem mem_history {ι : Type} [DecidableEq ι] {i : ι} {log : List (ι × Event R)}
    {event : Event R} : event ∈ history i log ↔ (i, event) ∈ log := by
  rw [history, List.mem_filterMap]
  constructor
  · rintro ⟨⟨j, other⟩, hmem, hevent⟩
    split at hevent
    · next hj =>
      cases hevent
      cases hj
      exact hmem
    · cases hevent
  · intro hmem
    exact ⟨_, hmem, if_pos rfl⟩

/-! ## Replies that are cut down -/

/-- The program goes on in the same way when its replies are cut down. -/
def Blind {α : Type} (cut : ∀ s, R s → R s) : Program R ε α → Prop
  | finish _ => True
  | call s next => (∀ r, next (cut s r) = next r) ∧ ∀ r, Blind cut (next r)

section Blind

variable {α β : Type} {cut : ∀ s, R s → R s}

/-- A program that issues no statement sees no reply. -/
theorem blind_finish (result : Except ε α) : Blind cut (finish result : Program R ε α) := by
  rw [Blind]
  trivial

/-- A program is blind if it treats what is cut out of a reply as not there. -/
theorem blind_call {s : S} {next : R s → Program R ε α} :
    Blind cut (call s next) ↔ (∀ r, next (cut s r) = next r) ∧ ∀ r, Blind cut (next r) := by
  rw [Blind]

/-- Blind programs compose. -/
theorem Blind.bind {p : Program R ε α} {f : α → Program R ε β} (hp : Blind cut p)
    (hf : ∀ a, Blind cut (f a)) : Blind cut (p >>= f) := by
  induction p with
  | finish result =>
    cases result with
    | error e => exact blind_finish _
    | ok a => exact hf a
  | call s next ih =>
    rw [blind_call] at hp
    rw [call_bind, blind_call]
    exact ⟨fun r => by rw [hp.1 r], fun r => ih r (hp.2 r)⟩

/-- A choice between blind programs is blind. -/
theorem Blind.ite {c : Prop} [Decidable c] {p q : Program R ε α} (hp : Blind cut p)
    (hq : Blind cut q) : Blind cut (if c then p else q) := by
  split
  · exact hp
  · exact hq

/-- A loop of blind programs is blind. -/
theorem Blind.mapM {f : α → Program R ε β} (hf : ∀ a, Blind cut (f a)) (entries : List α) :
    Blind cut (entries.mapM f) := by
  induction entries with
  | nil => exact blind_finish _
  | cons x entries ih =>
    rw [List.mapM_cons]
    exact (hf x).bind fun _ => ih.bind fun _ => blind_finish _

/-- A loop of blind programs is blind. -/
theorem Blind.forM {f : α → Program R ε PUnit} (hf : ∀ a, Blind cut (f a)) (entries : List α) :
    Blind cut (entries.forM f) := by
  induction entries with
  | nil => exact blind_finish _
  | cons x entries ih => exact (hf x).bind fun _ => ih

end Blind

namespace System

variable {ι : Type} [DecidableEq ι] {α : ι → Type} {view : σ → τ} {group : ι → Prop}
  {c c' : System R ε α σ} {i : ι}

/-- The group cannot tell the two systems apart. -/
structure Alike (view : σ → τ) (group : ι → Prop) (c c' : System R ε α σ) : Prop where
  view_eq : view c.store = view c'.store
  programs_eq : ∀ i, group i → c.programs i = c'.programs i

omit [DecidableEq ι] in
/-- Every system is like itself. -/
theorem Alike.refl (c : System R ε α σ) : Alike view group c c := ⟨rfl, fun _ _ => rfl⟩

/-- The same program of the group goes on in both systems. -/
theorem Alike.step (h : Alike view group c c') (hi : group i)
    (hdetermined : ∀ s next, c.programs i = call s next → Determined exec view s) :
    Alike view group (c.step exec i) (c'.step exec i) := by
  have hsame := h.programs_eq i hi
  unfold System.step
  rw [← hsame]
  split
  · exact h
  · rename_i s next hcall
    obtain ⟨hreply, hview⟩ := hdetermined s next hcall c.store c'.store h.view_eq
    refine ⟨hview, fun j hj => ?_⟩
    by_cases hij : i = j
    · subst hij
      simp only [Function.update_self, hreply]
    · simp only [Function.update_of_ne (Ne.symm hij)]
      exact h.programs_eq j hj

/-- A program outside of the group goes on in the first system. -/
theorem Alike.step_other (h : Alike view group c c') (hi : ¬ group i)
    (hkeep : ∀ s next, c.programs i = call s next → view (exec s c.store).2 = view c.store) :
    Alike view group (c.step exec i) c' := by
  unfold System.step
  split
  · exact h
  · rename_i s next hcall
    refine ⟨(hkeep s next hcall).trans h.view_eq, fun j hj => ?_⟩
    have hij : j ≠ i := by
      rintro rfl
      exact hi hj
    simp only [Function.update_of_ne hij]
    exact h.programs_eq j hj

variable {P : ι → List (Event R) → S → Prop} {Q : ∀ i, List (Event R) → α i → Prop}
  {J : List (ι × Event R) → σ → Prop}

/-- **Isolation.** The group runs as in the schedule without the other programs. -/
theorem Invariant.isolated [DecidablePred group]
    (hstmt : ∀ log store i s, J log store → P i (history i log) s →
      J (log ++ [(i, ⟨s, (exec s store).1⟩)]) (exec s store).2)
    (hgroup : ∀ i h s, group i → P i h s → Determined exec view s)
    (hothers : ∀ log store i s, J log store → ¬ group i → P i (history i log) s →
      view (exec s store).2 = view store)
    (hc : c.Invariant P Q J) (h : Alike view group c c') (schedule : List ι) :
    Alike view group (c.runSchedule exec schedule)
      (c'.runSchedule exec (schedule.filter fun i => group i)) := by
  induction schedule generalizing c c' with
  | nil => exact h
  | cons i schedule ih =>
    have hnext : ∀ s next, c.programs i = call s next → P i (history i c.log) s := by
      intro s next hcall
      have hmeets := hc.2 i
      rw [hcall, meets_call] at hmeets
      exact hmeets.1
    by_cases hi : group i
    · rw [List.filter_cons_of_pos (by simpa using hi)]
      exact ih (hc.step hstmt i)
        (h.step hi fun s next hcall => hgroup i _ s hi (hnext s next hcall))
    · rw [List.filter_cons_of_neg (by simpa using hi)]
      exact ih (hc.step hstmt i)
        (h.step_other hi fun s next hcall =>
          hothers _ _ i s hc.1 hi (hnext s next hcall))

end System

end Program
