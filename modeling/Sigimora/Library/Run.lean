import Mathlib.Data.List.Basic

/-!
# Runs of a state machine

A deterministic machine takes one step for every action. A property holds
throughout a run when it holds in every state that the run passes, the first
and the last one included, and a guard holds throughout a run when it holds at
every step, in the state before it. When the guard is exactly what one step
needs to preserve an invariant, it is exactly what whole runs need.
-/

namespace Run

variable {σ α : Type*} (step : σ → α → σ)

/-- The state after the actions, in their order. -/
def after (s : σ) (actions : List α) : σ := actions.foldl step s

/-- The property holds in every state that the run passes. -/
def Throughout (P : σ → Prop) (s : σ) (actions : List α) : Prop :=
  ∀ done, done <+: actions → P (after step s done)

/-- The guard holds at every step of the run. -/
def Guarded (G : σ → α → Prop) (s : σ) (actions : List α) : Prop :=
  ∀ done a, done ++ [a] <+: actions → G (after step s done) a

variable {step} {P Q : σ → Prop} {G : σ → α → Prop} {s : σ} {a : α} {actions : List α}

/-- Without actions the state stays. -/
@[simp] theorem after_nil : after step s [] = s := rfl

/-- The first action is taken first. -/
@[simp] theorem after_cons : after step s (a :: actions) = after step (step s a) actions := rfl

/-- A run goes on from where the earlier part of it has ended. -/
theorem after_append (more : List α) :
    after step s (actions ++ more) = after step (after step s actions) more :=
  List.foldl_append

/-- Without actions only the first state counts. -/
theorem throughout_nil : Throughout step P s [] ↔ P s := by
  constructor
  · intro h
    exact h [] List.nil_prefix
  · intro h done hdone
    rw [List.prefix_nil.mp hdone]
    exact h

/-- A property holds throughout if it holds now and throughout what follows. -/
theorem throughout_cons :
    Throughout step P s (a :: actions) ↔ P s ∧ Throughout step P (step s a) actions := by
  constructor
  · intro h
    refine ⟨h [] List.nil_prefix, ?_⟩
    intro done hdone
    exact h (a :: done) (List.cons_prefix_cons.mpr ⟨rfl, hdone⟩)
  · rintro ⟨hs, hrest⟩ done hdone
    rcases List.prefix_cons_iff.mp hdone with rfl | ⟨rest, rfl, hprefix⟩
    · exact hs
    · exact hrest rest hprefix

/-- Without actions every guard is met. -/
theorem guarded_nil : Guarded step G s [] := by
  intro done a h
  simp at h

/-- A run is guarded if its first action is and what follows is. -/
theorem guarded_cons :
    Guarded step G s (a :: actions) ↔ G s a ∧ Guarded step G (step s a) actions := by
  constructor
  · intro h
    refine ⟨h [] a (by simp), ?_⟩
    intro done b hdone
    exact h (a :: done) b (by simpa using hdone)
  · rintro ⟨hs, hrest⟩ done b hdone
    cases done with
    | nil =>
      have hb : b = a := by simpa using hdone
      rw [hb]
      exact hs
    | cons c done =>
      obtain ⟨rfl, hprefix⟩ := List.cons_prefix_cons.mp hdone
      exact hrest done b hprefix

/-- Equivalent guards are met by the same runs. -/
theorem guarded_congr {G' : σ → α → Prop} (h : ∀ s a, G s a ↔ G' s a) :
    Guarded step G s actions ↔ Guarded step G' s actions :=
  ⟨fun hG done a hdone => (h _ a).mp (hG done a hdone),
    fun hG done a hdone => (h _ a).mpr (hG done a hdone)⟩

/-- The rest of a guarded run is guarded. -/
theorem Guarded.append_right {more : List α} (h : Guarded step G s (actions ++ more)) :
    Guarded step G (after step s actions) more := by
  intro done a hdone
  have hG := h (actions ++ done) a (by
    rw [List.append_assoc]
    exact (List.prefix_append_right_inj actions).mpr hdone)
  rwa [after_append] at hG

/-- Two guards that are met are met together. -/
theorem Guarded.and {G' : σ → α → Prop} (h : Guarded step G s actions)
    (h' : Guarded step G' s actions) : Guarded step (fun s a => G s a ∧ G' s a) s actions :=
  fun done a hdone => ⟨h done a hdone, h' done a hdone⟩

/-- What holds throughout holds in the end. -/
theorem Throughout.last (h : Throughout step P s actions) : P (after step s actions) :=
  h actions (List.prefix_refl _)

/-- What holds in every state holds before every step. -/
theorem Throughout.guarded (h : Throughout step P s actions) :
    Guarded step (fun s _ => P s) s actions :=
  fun done a hdone => h done ((List.prefix_append done [a]).trans hdone)

/-- What a guarded step preserves, a guarded run preserves. -/
theorem throughout_of_guarded (hstep : ∀ s a, P s → G s a → P (step s a)) (hs : P s)
    (hguard : Guarded step G s actions) : Throughout step P s actions := by
  induction actions generalizing s with
  | nil => exact throughout_nil.mpr hs
  | cons a actions ih =>
    obtain ⟨ha, hrest⟩ := guarded_cons.mp hguard
    exact throughout_cons.mpr ⟨hs, ih (hstep s a hs ha) hrest⟩

/-- What every step preserves, every run preserves. -/
theorem throughout_of_step (hstep : ∀ s a, P s → P (step s a)) (hs : P s) :
    Throughout step P s actions :=
  throughout_of_guarded (G := fun _ _ => True) (fun s a h _ => hstep s a h) hs
    fun _ _ _ => trivial

/-- In runs that meet a condition, such as another invariant, an invariant that depends on
the guard and nothing else is as good as the guard. -/
theorem throughout_iff_guarded_of {H : σ → α → Prop}
    (hstep : ∀ s a, P s → H s a → (P (step s a) ↔ G s a)) (hs : P s)
    (hrun : Guarded step H s actions) :
    Throughout step P s actions ↔ Guarded step G s actions := by
  induction actions generalizing s with
  | nil => exact iff_of_true (throughout_nil.mpr hs) guarded_nil
  | cons a actions ih =>
    obtain ⟨ha, hrest⟩ := guarded_cons.mp hrun
    rw [throughout_cons, guarded_cons, ← hstep s a hs ha]
    constructor
    · rintro ⟨_, h⟩
      have hnext : P (step s a) := h [] List.nil_prefix
      exact ⟨hnext, (ih hnext hrest).mp h⟩
    · rintro ⟨hnext, h⟩
      exact ⟨hs, (ih hnext hrest).mpr h⟩

/-- An invariant that depends on the guard and nothing else is as good as the guard. -/
theorem throughout_iff_guarded (hstep : ∀ s a, P s → (P (step s a) ↔ G s a)) (hs : P s) :
    Throughout step P s actions ↔ Guarded step G s actions :=
  throughout_iff_guarded_of (H := fun _ _ => True) (fun s a h _ => hstep s a h) hs
    fun _ _ _ => trivial

/-! ## Simulation -/

section Simulation

variable {τ β : Type*} {step' : τ → β → τ} {R : σ → τ → Prop} {t : τ}

/-- A machine whose every step is answered by steps of another one runs like the other. -/
theorem exists_after_of_simulates {G : α → Prop}
    (hstep : ∀ s t a, G a → R s t → ∃ answer, R (step s a) (after step' t answer)) (h : R s t)
    (hactions : ∀ a ∈ actions, G a) :
    ∃ answers, R (after step s actions) (after step' t answers) := by
  induction actions generalizing s t with
  | nil => exact ⟨[], h⟩
  | cons a actions ih =>
    obtain ⟨ha, hrest⟩ := List.forall_mem_cons.mp hactions
    obtain ⟨first, hfirst⟩ := hstep s t a ha h
    obtain ⟨rest, hlast⟩ := ih hfirst hrest
    refine ⟨first ++ rest, ?_⟩
    rw [after_cons, after_append]
    exact hlast

end Simulation

/-! ## Views -/

section Views

variable {τ : Type*} {step' : τ → α → τ}

/-- A machine that looks like another one runs like it. -/
theorem view_after (view : σ → τ) (hview : ∀ s a, view (step s a) = step' (view s) a) (s : σ)
    (actions : List α) :
    view (after step s actions) = after step' (view s) actions := by
  induction actions generalizing s with
  | nil => rfl
  | cons a actions ih => rw [after_cons, after_cons, ih, hview]

/-- What guards the other run guards this one. -/
theorem guarded_of_view (view : σ → τ) {G' : τ → α → Prop}
    (hview : ∀ s a, view (step s a) = step' (view s) a)
    (h : Guarded step' G' (view s) actions) :
    Guarded step (fun s a => G' (view s) a) s actions := by
  intro done a hdone
  rw [view_after view hview]
  exact h done a hdone

end Views

end Run
