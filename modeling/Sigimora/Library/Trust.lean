import Sigimora.Library.Program

/-!
# Programs that trust their replies

A program may end badly on replies that its store never gives. `EndsWell` says that it
does not as long as its replies are the trusted ones. If an invariant of the store makes
all replies trusted, programs that end well end well side by side.
-/

namespace Program

variable {S : Type} {R : S → Type} {ε α β σ : Type}

/-- On trusted replies the program only ends with values that satisfy `T` and with errors that
satisfy `good`. -/
def EndsWell (trust : ∀ s, R s → Prop) (good : ε → Prop) (T : α → Prop) : Program R ε α → Prop
  | finish (.ok a) => T a
  | finish (.error e) => good e
  | call s next => ∀ r, trust s r → EndsWell trust good T (next r)

section EndsWell

variable {trust : ∀ s, R s → Prop} {good : ε → Prop} {T : α → Prop}

/-- A program that returns ends well if its value is as wanted. -/
theorem endsWell_ok {a : α} : EndsWell trust good T (finish (.ok a) : Program R ε α) ↔ T a := by
  rw [EndsWell]

/-- A program that fails ends well if its error is a good one. -/
theorem endsWell_error {e : ε} :
    EndsWell trust good T (finish (.error e) : Program R ε α) ↔ good e := by
  rw [EndsWell]

/-- A call ends well if every trusted reply leads to a good end. -/
theorem endsWell_call {s : S} {next : R s → Program R ε α} :
    EndsWell trust good T (call s next) ↔ ∀ r, trust s r → EndsWell trust good T (next r) := by
  rw [EndsWell]

/-- The second program goes on with what is known of the first value. -/
theorem EndsWell.bind {T' : β → Prop} {p : Program R ε α} {f : α → Program R ε β}
    (hp : EndsWell trust good T p) (hf : ∀ a, T a → EndsWell trust good T' (f a)) :
    EndsWell trust good T' (p >>= f) := by
  induction p with
  | finish result =>
    cases result with
    | error e => exact endsWell_error.mpr (endsWell_error.mp hp)
    | ok a => exact hf a (endsWell_ok.mp hp)
  | call s next ih =>
    rw [endsWell_call] at hp
    rw [call_bind, endsWell_call]
    exact fun r hr => ih r (hp r hr)

/-- A loop ends well if each of its rounds does. -/
theorem EndsWell.forM {entries : List β} {f : β → Program R ε PUnit}
    (hf : ∀ x ∈ entries, EndsWell trust good (fun _ => True) (f x)) :
    EndsWell trust good (fun _ => True) (entries.forM f) := by
  induction entries with
  | nil => exact endsWell_ok.mpr trivial
  | cons x entries ih =>
    exact (hf x List.mem_cons_self).bind fun _ _ => ih fun y hy => hf y (List.mem_cons_of_mem _ hy)

/-- So does a loop that collects values. -/
theorem EndsWell.mapM {entries : List β} {f : β → Program R ε α}
    (hf : ∀ x ∈ entries, EndsWell trust good (fun _ => True) (f x)) :
    EndsWell trust good (fun _ => True) (entries.mapM f) := by
  induction entries with
  | nil => exact endsWell_ok.mpr trivial
  | cons x entries ih =>
    rw [List.mapM_cons]
    refine (hf x List.mem_cons_self).bind fun a _ => ?_
    exact (ih fun y hy => hf y (List.mem_cons_of_mem _ hy)).bind fun _ _ => endsWell_ok.mpr trivial

/-! ### Statements -/

/-- Some reply was not trusted. -/
def Distrusted (trust : ∀ s, R s → Prop) (h : List (Event R)) : Prop :=
  ∃ event ∈ h, ¬ trust event.stmt event.reply

/-- The statement is bounded by `P` as long as all replies were trusted. -/
def Heeds (trust : ∀ s, R s → Prop) (P : S → Prop) (h : List (Event R)) (s : S) : Prop :=
  Distrusted trust h ∨ P s

/-- After a reply that was not trusted anything may follow. -/
theorem meets_heeds {P : S → Prop} {h : List (Event R)} (hh : Distrusted trust h)
    (p : Program R ε α) : Meets (Heeds trust P) (fun h _ => Distrusted trust h) h p := by
  induction p generalizing h with
  | finish result =>
    cases result with
    | error e => exact meets_error e
    | ok a => exact meets_ok.mpr hh
  | call s next ih =>
    refine meets_call.mpr ⟨Or.inl hh, fun r => ih r ?_⟩
    obtain ⟨event, hmem, hevent⟩ := hh
    exact ⟨event, List.mem_append_left _ hmem, hevent⟩

end EndsWell

/-! ## Programs that run side by side -/

namespace System

variable {ι : Type} [DecidableEq ι] {α : ι → Type} {exec : (s : S) → σ → R s × σ}
  {trust : ∀ s, R s → Prop} {good : ε → Prop} {T : ∀ i, α i → Prop} {P : S → Prop} {J : σ → Prop}

/-- The store keeps its invariant, and every program of the group goes on to end well. -/
structure EndsWell (trust : ∀ s, R s → Prop) (good : ε → Prop) (T : ∀ i, α i → Prop) (P : S → Prop)
    (J : σ → Prop) (group : ι → Prop) (c : System R ε α σ) : Prop where
  store : J c.store
  only : ∀ i, Only P (c.programs i)
  programs : ∀ i, group i → Program.EndsWell trust good (T i) (c.programs i)

variable {group : ι → Prop} {c : System R ε α σ}

/-- One step gives a trusted reply. -/
theorem EndsWell.step (hstmt : ∀ s store, P s → J store → J (exec s store).2)
    (htrust : ∀ s store, J store → trust s (exec s store).1)
    (h : c.EndsWell trust good T P J group) (i : ι) :
    (c.step exec i).EndsWell trust good T P J group := by
  unfold System.step
  split
  · exact h
  · rename_i s next hcall
    have honly := h.only i
    rw [hcall, only_call] at honly
    refine ⟨hstmt s _ honly.1 h.store, fun j => ?_, fun j hj => ?_⟩
    · by_cases hij : j = i
      · subst hij
        simp only [Function.update_self]
        exact honly.2 _
      · simp only [Function.update_of_ne hij]
        exact h.only j
    · have hprogram := h.programs j hj
      by_cases hij : j = i
      · subst hij
        rw [hcall, endsWell_call] at hprogram
        simp only [Function.update_self]
        exact hprogram _ (htrust s _ h.store)
      · simp only [Function.update_of_ne hij]
        exact hprogram

/-- Every schedule does. -/
theorem EndsWell.runSchedule (hstmt : ∀ s store, P s → J store → J (exec s store).2)
    (htrust : ∀ s store, J store → trust s (exec s store).1)
    (h : c.EndsWell trust good T P J group) (schedule : List ι) :
    (c.runSchedule exec schedule).EndsWell trust good T P J group := by
  induction schedule generalizing c with
  | nil => exact h
  | cons i schedule ih => exact ih (h.step hstmt htrust i)

end System

end Program
