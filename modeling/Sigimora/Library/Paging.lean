import Mathlib.Data.List.Chain
import Mathlib.Data.List.Sort

/-!
# Paging through a growing list

A reader asks for one page after another, the newest entries first, while new
entries are appended. They push the older ones to later pages, so the reader may
see an entry twice, but once a page comes back short no entry that was there at
the start has been missed.
-/

namespace Paging

variable {α : Type*}

/-- At most `limit` entries after the first `offset`, the newest first. -/
def page (offset limit : ℕ) (entries : List α) : List α :=
  (entries.reverse.drop offset).take limit

/-- One page after another from the `k`-th on, each from the list as it is by then. -/
def pages (limit : ℕ) : ℕ → List (List α) → List (List α)
  | _, [] => []
  | k, entries :: later => page (k * limit) limit entries :: pages limit (k + 1) later

variable {limit k p : ℕ} {entries : List α} {x : α}

/-- The entries of a page by their positions from the front. -/
theorem mem_page {offset : ℕ} (hp : entries[p]? = some x) (hoffset : offset + p < entries.length)
    (hlimit : entries.length ≤ offset + p + limit) : x ∈ page offset limit entries := by
  have hrank : entries.length - 1 - p < entries.reverse.length := by
    rw [List.length_reverse]
    omega
  have hx : entries.reverse[entries.length - 1 - p]? = some x := by
    rw [List.getElem?_reverse (by omega), ← hp]
    congr 1
    omega
  refine List.mem_iff_getElem?.mpr ⟨entries.length - 1 - p - offset, ?_⟩
  rw [page, List.getElem?_take_of_lt (by omega), List.getElem?_drop, ← hx]
  congr 1
  omega

/-- A page holds as many entries as its limit, unless the entries end before. -/
theorem length_page (offset limit : ℕ) (entries : List α) :
    (page offset limit entries).length = min limit (entries.length - offset) := by
  rw [page, List.length_take, List.length_drop, List.length_reverse]

/-- **Nothing is missed.** An entry that no earlier page has passed is on one of the pages, if
the last of them comes back short. -/
theorem exists_mem_pages {later : List (List α)} (hgrows : (entries :: later).IsChain (· <+: ·))
    (hp : entries[p]? = some x) (hpassed : k * limit + p < entries.length)
    (hshort : ∀ last, (pages limit k (entries :: later)).getLast? = some last →
      last.length < limit) :
    ∃ shown ∈ pages limit k (entries :: later), x ∈ shown := by
  induction later generalizing entries k with
  | nil =>
    have hlast : (page (k * limit) limit entries).length < limit := hshort _ rfl
    rw [length_page] at hlast
    exact ⟨_, List.mem_cons_self, mem_page hp hpassed (by omega)⟩
  | cons next later ih =>
    by_cases hshown : entries.length ≤ k * limit + p + limit
    · exact ⟨_, List.mem_cons_self, mem_page hp hpassed hshown⟩
    · -- the page has not come that far, and the entry has not come nearer since
      obtain ⟨hpart, hrest⟩ := List.isChain_cons_cons.mp hgrows
      have hlength := hpart.length_le
      have hnext : next[p]? = some x := by
        obtain ⟨added, rfl⟩ := hpart
        rw [List.getElem?_append_left (by omega), hp]
      have hstep : (k + 1) * limit + p < next.length := by
        rw [Nat.succ_mul]
        omega
      obtain ⟨shown, hmem, hx⟩ := ih hrest hnext hstep fun last hlast =>
        hshort last (by rw [pages, List.getLast?_cons_of_ne_nil]; exacts [hlast, by simp [pages]])
      exact ⟨shown, List.mem_cons_of_mem _ hmem, hx⟩

/-- Lists that agree entry by entry agree at their ends. -/
theorem forall₂_getLast? {β : Type*} {r : α → β → Prop} {as : List α} {bs : List β} {b : β}
    (h : List.Forall₂ r as bs) (hb : bs.getLast? = some b) : ∃ a, as.getLast? = some a ∧ r a b := by
  rw [List.getLast?_eq_head?_reverse] at hb ⊢
  have hreverse := List.forall₂_reverse_iff.mpr h
  cases hreverse' : bs.reverse with
  | nil =>
    rw [hreverse'] at hb
    cases hb
  | cons b' rest =>
    rw [hreverse'] at hb hreverse
    obtain ⟨a, as', hab, _, heq⟩ := List.forall₂_cons_right_iff.mp hreverse
    rw [List.head?_cons, Option.some.injEq] at hb
    exact ⟨a, by rw [heq, List.head?_cons], hb ▸ hab⟩

/-- Sorting entries downwards that are numbered upwards. -/
theorem insertionSort_eq_reverse {number : α → ℕ}
    (h : entries.Pairwise fun a b => number a < number b) :
    entries.insertionSort (fun a b => number b ≤ number a) = entries.reverse := by
  induction entries with
  | nil => rfl
  | cons a entries ih =>
    obtain ⟨hfirst, hrest⟩ := List.pairwise_cons.mp h
    have hlast : ∀ rows : List α, (∀ b ∈ rows, number a < number b) →
        rows.orderedInsert (fun a b => number b ≤ number a) a = rows ++ [a] := by
      intro rows hrows
      induction rows with
      | nil => rfl
      | cons b rows ihrows =>
        obtain ⟨hb, hrows⟩ := List.forall_mem_cons.mp hrows
        rw [List.orderedInsert, if_neg (not_le.mpr hb), ihrows hrows, List.cons_append]
    rw [List.insertionSort_cons, ih hrest, List.reverse_cons]
    exact hlast _ fun b hb => hfirst b (List.mem_reverse.mp hb)

end Paging
