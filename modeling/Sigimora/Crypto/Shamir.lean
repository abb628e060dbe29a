import Sigimora.Library.Interpolation
import Sigimora.Math.Curve

/-!
# Lagrange coefficients at zero

The canonical `lagrange_at_zero` of the workspace. On pairwise distinct indices
it returns the interpolation weights of the corresponding nodes; a repeated
index makes a denominator vanish and panics.
-/

namespace Sigimora.Shamir

open Interpolation

variable {ε M : Type} [AddCommGroup M] [Module Scalar M]

/-- Numerator and denominator of the coefficient of the index `xi` at position `i`. -/
def lagrangeFraction (indices : List ParticipantId) (i : ℕ) (xi : Scalar) : Scalar × Scalar :=
  indices.zipIdx.foldl (fun (acc : Scalar × Scalar) (entry : ParticipantId × ℕ) =>
    if i = entry.2 then acc
    else
      let xj := Scalar.ofId entry.1
      (acc.1 * -xj, acc.2 * (xi - xj))) (1, 1)

/-- The Lagrange basis coefficients at zero, in the order of the indices. -/
def lagrangeAtZero (indices : List ParticipantId) : Outcome ε (List Scalar) :=
  indices.zipIdx.mapM fun entry => do
    let fraction := lagrangeFraction indices entry.2 (Scalar.ofId entry.1)
    let invDen ← Outcome.expect
      "Lagrange denominator must be invertible (indices must be distinct)" fraction.2.invert
    return fraction.1 * invDen

/-- The loop that adds `value * lambda` over two lists of equal length. -/
def weightedSum (values : List M) (lambdas : List Scalar) : M :=
  (values.zip lambdas).foldl (fun acc entry => acc + entry.2 • entry.1) 0

/-- The Lagrange combination at zero of the values that the indices carry. -/
def lagrangeCombination (indices : List ParticipantId) (value : ParticipantId → M) :
    Outcome ε M := do
  let lambdas ← lagrangeAtZero indices
  return weightedSum (indices.map value) lambdas

/-! ## Nodes -/

/-- The field elements at which the indices sit. -/
def nodes (indices : List ParticipantId) : Finset Scalar := indices.toFinset.image Scalar.ofId

/-- The participant at a node. -/
def idOf (x : Scalar) : ParticipantId := UInt16.ofNat x.val

/-- An id can be read back from its scalar. -/
@[simp] theorem idOf_ofId (id : ParticipantId) : idOf (Scalar.ofId id) = id := by
  rw [idOf, Scalar.val_ofId, UInt16.ofNat_toNat]

/-- The nodes are the scalars of the indices. -/
theorem mem_nodes {indices : List ParticipantId} {x : Scalar} :
    x ∈ nodes indices ↔ ∃ id ∈ indices, Scalar.ofId id = x := by
  simp [nodes]

/-- Indices other than zero give nodes other than zero. -/
theorem zero_notMem_nodes {indices : List ParticipantId} (h : ∀ id ∈ indices, id ≠ 0) :
    (0 : Scalar) ∉ nodes indices := by
  rw [mem_nodes]
  rintro ⟨id, hid, hzero⟩
  exact Scalar.ofId_ne_zero (h id hid) hzero

/-- More indices give more nodes. -/
theorem nodes_subset {as bs : List ParticipantId} (h : ∀ id ∈ as, id ∈ bs) :
    nodes as ⊆ nodes bs := by
  intro x hx
  obtain ⟨id, hid, rfl⟩ := mem_nodes.mp hx
  exact mem_nodes.mpr ⟨id, h id hid, rfl⟩

/-- Different indices give different nodes. -/
theorem card_nodes {indices : List ParticipantId} (h : indices.Nodup) :
    (nodes indices).card = indices.length := by
  rw [nodes, Finset.card_image_of_injective _ Scalar.ofId_injective,
    List.toFinset_card_of_nodup h]

/-- A choice of nodes is a choice of indices, taken in their order. -/
theorem exists_sublist_nodes {all : List ParticipantId} {s : Finset Scalar} (hs : s ⊆ nodes all) :
    ∃ ids : List ParticipantId, ids.Sublist all ∧ ids.Nodup ∧ nodes ids = s := by
  refine ⟨all.dedup.filter fun id => Scalar.ofId id ∈ s,
    List.filter_sublist.trans (List.dedup_sublist all), (List.nodup_dedup all).filter _, ?_⟩
  ext x
  rw [mem_nodes]
  constructor
  · rintro ⟨id, hid, rfl⟩
    simpa using (List.mem_filter.mp hid).2
  · intro hx
    obtain ⟨id, hid, rfl⟩ := mem_nodes.mp (hs hx)
    exact ⟨id, List.mem_filter.mpr ⟨by simpa using hid, by simpa using hx⟩, rfl⟩

/-! ## The loops -/

/-- A product loop that skips some entries multiplies the others. -/
theorem foldl_skip {α : Type*} (skip : α → Prop) [DecidablePred skip] (f g : α → Scalar)
    (entries : List α) (a b : Scalar) :
    entries.foldl (fun (acc : Scalar × Scalar) x =>
        if skip x then acc else (acc.1 * f x, acc.2 * g x)) (a, b) =
      (a * ((entries.filter fun x => ¬ skip x).map f).prod,
        b * ((entries.filter fun x => ¬ skip x).map g).prod) := by
  induction entries generalizing a b with
  | nil => simp
  | cons x entries ih =>
    by_cases hx : skip x <;> simp [hx, ih, mul_assoc]

/-- Removing one position of a list of distinct indices removes its index. -/
theorem map_filter_zipIdx {indices : List ParticipantId} (h : indices.Nodup) {xi : ParticipantId}
    {i : ℕ} (hi : (xi, i) ∈ indices.zipIdx) :
    (indices.zipIdx.filter fun entry => ¬ i = entry.2).map Prod.fst =
      indices.filter fun id => ¬ id = xi := by
  have hget := List.mk_mem_zipIdx_iff_getElem?.mp hi
  have hsame : ∀ entry ∈ indices.zipIdx, decide (¬ i = entry.2) = decide (¬ entry.1 = xi) := by
    rintro ⟨id, j⟩ hj
    have hgetj := List.mk_mem_zipIdx_iff_getElem?.mp hj
    congr 1
    simp only [not_iff_not, eq_iff_iff]
    constructor
    · rintro rfl
      exact Option.some.inj (hgetj.symm.trans hget)
    · rintro rfl
      have hlt := (List.getElem?_eq_some_iff.mp hget).1
      exact (List.getElem?_inj hlt h).mp (hget.trans hgetj.symm)
  rw [List.filter_congr hsame]
  conv_rhs => rw [← List.zipIdx_map_fst 0 indices, List.filter_map]
  rfl

/-- A product over the other positions is a product over the other nodes. -/
theorem prod_others {indices : List ParticipantId} (h : indices.Nodup) {xi : ParticipantId}
    {i : ℕ} (hi : (xi, i) ∈ indices.zipIdx) (f : Scalar → Scalar) :
    ((indices.zipIdx.filter fun entry => ¬ i = entry.2).map
        fun entry => f (Scalar.ofId entry.1)).prod =
      ∏ y ∈ (nodes indices).erase (Scalar.ofId xi), f y := by
  have hmap : (indices.zipIdx.filter fun entry => ¬ i = entry.2).map
        (fun entry => f (Scalar.ofId entry.1)) =
      (indices.filter fun id => ¬ id = xi).map fun id => f (Scalar.ofId id) := by
    rw [← map_filter_zipIdx h hi, List.map_map]
    rfl
  rw [hmap, ← List.prod_toFinset _ (h.filter _), List.toFinset_filter, nodes,
    ← Finset.image_erase Scalar.ofId_injective, Finset.prod_image
      (fun a _ b _ hab => Scalar.ofId_injective hab)]
  refine Finset.prod_congr ?_ fun _ _ => rfl
  ext id
  simp [and_comm]

/-- Numerator and denominator as products over the other nodes. -/
theorem lagrangeFraction_eq {indices : List ParticipantId} (h : indices.Nodup)
    {xi : ParticipantId} {i : ℕ} (hi : (xi, i) ∈ indices.zipIdx) :
    lagrangeFraction indices i (Scalar.ofId xi) =
      (∏ y ∈ (nodes indices).erase (Scalar.ofId xi), -y,
        ∏ y ∈ (nodes indices).erase (Scalar.ofId xi), (Scalar.ofId xi - y)) := by
  rw [lagrangeFraction, foldl_skip (fun entry : ParticipantId × ℕ => i = entry.2)
    (fun entry => -Scalar.ofId entry.1) (fun entry => Scalar.ofId xi - Scalar.ofId entry.1),
    prod_others h hi fun y => -y, prod_others h hi fun y => Scalar.ofId xi - y, one_mul, one_mul]

/-- Numbering the indices does not change what is computed of them. -/
theorem map_fst_zipIdx (indices : List ParticipantId) (g : ParticipantId → Scalar) :
    indices.zipIdx.map (fun entry => g entry.1) = indices.map g := by
  conv_rhs => rw [← List.zipIdx_map_fst 0 indices, List.map_map]
  rfl

/-- On distinct indices every denominator has an inverse, and the products are the
interpolation weights. -/
theorem mapM_lagrangeFraction (message : String) {indices : List ParticipantId}
    (h : indices.Nodup) :
    (indices.zipIdx.mapM fun entry => do
      let fraction := lagrangeFraction indices entry.2 (Scalar.ofId entry.1)
      let invDen ← Outcome.expect message fraction.2.invert
      return fraction.1 * invDen : Outcome ε (List Scalar)) =
      .ok (indices.map fun id => weight (nodes indices) (Scalar.ofId id)) := by
  have hstep : ∀ entry ∈ indices.zipIdx, (do
      let fraction := lagrangeFraction indices entry.2 (Scalar.ofId entry.1)
      let invDen ← Outcome.expect message fraction.2.invert
      return fraction.1 * invDen : Outcome ε Scalar) =
      .ok (weight (nodes indices) (Scalar.ofId entry.1)) := by
    rintro ⟨xi, i⟩ hi
    have hden : (∏ y ∈ (nodes indices).erase (Scalar.ofId xi), (Scalar.ofId xi - y)) ≠ 0 :=
      Finset.prod_ne_zero_iff.mpr fun y hy => sub_ne_zero.mpr (Finset.ne_of_mem_erase hy).symm
    simp only [lagrangeFraction_eq h hi, Scalar.invert_of_ne_zero hden, Outcome.expect_some,
      Outcome.ok_bind, Outcome.pure_eq_ok, weight]
  rw [Outcome.mapM_eq_ok hstep,
    map_fst_zipIdx indices fun id => weight (nodes indices) (Scalar.ofId id)]

/-- On distinct indices the coefficients are the interpolation weights. -/
theorem lagrangeAtZero_eq {indices : List ParticipantId} (h : indices.Nodup) :
    (lagrangeAtZero indices : Outcome ε _) =
      .ok (indices.map fun id => weight (nodes indices) (Scalar.ofId id)) :=
  mapM_lagrangeFraction _ h

/-- The denominator of an index that stands at a second position vanishes. -/
theorem lagrangeFraction_repeated {indices : List ParticipantId} {id : ParticipantId} {i j : ℕ}
    (hne : i ≠ j) (hj : indices[j]? = some id) :
    (lagrangeFraction indices i (Scalar.ofId id)).2 = 0 := by
  rw [lagrangeFraction, foldl_skip (fun entry : ParticipantId × ℕ => i = entry.2)
    (fun entry => -Scalar.ofId entry.1) (fun entry => Scalar.ofId id - Scalar.ofId entry.1)]
  simp only [one_mul]
  refine List.prod_eq_zero (List.mem_map.mpr ⟨(id, j), ?_, sub_self _⟩)
  exact List.mem_filter.mpr ⟨List.mk_mem_zipIdx_iff_getElem?.mpr hj, decide_eq_true hne⟩

/-- A repeated index makes a denominator vanish. -/
theorem mapM_lagrangeFraction_of_not_nodup (message : String) {indices : List ParticipantId}
    (h : ¬ indices.Nodup) :
    (indices.zipIdx.mapM fun entry => do
      let fraction := lagrangeFraction indices entry.2 (Scalar.ofId entry.1)
      let invDen ← Outcome.expect message fraction.2.invert
      return fraction.1 * invDen : Outcome ε (List Scalar)) = Outcome.panic message := by
  obtain ⟨id, i, j, hij, hi, hj⟩ : ∃ id i j, i < j ∧ indices[i]? = some id ∧
      indices[j]? = some id := by
    rw [List.nodup_iff_getElem?_ne_getElem?] at h
    push Not at h
    obtain ⟨i, j, hij, hj, hsame⟩ := h
    refine ⟨indices[j], i, j, hij, ?_, List.getElem?_eq_getElem hj⟩
    rw [hsame, List.getElem?_eq_getElem hj]
  refine Outcome.mapM_eq_panic ?_ ⟨(id, i), List.mk_mem_zipIdx_iff_getElem?.mpr hi, ?_⟩
  · intro entry _
    simp only
    cases (lagrangeFraction indices entry.2 (Scalar.ofId entry.1)).2.invert with
    | none => exact Or.inr rfl
    | some invDen => exact Or.inl ⟨_, rfl⟩
  · simp only [lagrangeFraction_repeated hij.ne hj, Scalar.invert_zero]
    rfl

/-- A repeated index panics. -/
theorem lagrangeAtZero_of_not_nodup {indices : List ParticipantId} (h : ¬ indices.Nodup) :
    (lagrangeAtZero indices : Outcome ε (List Scalar)) =
      Outcome.panic "Lagrange denominator must be invertible (indices must be distinct)" :=
  mapM_lagrangeFraction_of_not_nodup _ h

/-! ## Combinations -/

/-- The loop over shares and weights adds up the weighted shares. -/
theorem foldl_zip_map (indices : List ParticipantId) (value : ParticipantId → M)
    (lambda : ParticipantId → Scalar) (acc : M) :
    ((indices.map value).zip (indices.map lambda)).foldl
        (fun acc entry => acc + entry.2 • entry.1) acc =
      acc + (indices.map fun id => lambda id • value id).sum := by
  induction indices generalizing acc with
  | nil => simp
  | cons id indices ih =>
    rw [List.map_cons, List.map_cons, List.zip_cons_cons, List.foldl_cons, ih, List.map_cons,
      List.sum_cons, add_assoc]

/-- The weighted sum over distinct indices interpolates at zero. -/
theorem weightedSum_weights {indices : List ParticipantId} (h : indices.Nodup)
    (value : ParticipantId → M) :
    weightedSum (indices.map value)
        (indices.map fun id => weight (nodes indices) (Scalar.ofId id)) =
      combine (nodes indices) fun x => value (idOf x) := by
  rw [weightedSum, foldl_zip_map, zero_add, combine, nodes, Finset.sum_image
    (fun a _ b _ hab => Scalar.ofId_injective hab), ← List.sum_toFinset _ h]
  simp only [idOf_ofId]

/-- The Lagrange combination over distinct indices interpolates at zero. -/
theorem lagrangeCombination_eq {indices : List ParticipantId} (h : indices.Nodup)
    (value : ParticipantId → M) :
    (lagrangeCombination indices value : Outcome ε M) =
      .ok (combine (nodes indices) fun x => value (idOf x)) := by
  rw [lagrangeCombination, lagrangeAtZero_eq h, Outcome.ok_bind, Outcome.pure_eq_ok,
    weightedSum_weights h]

/-- Interpolating over all choices of `k` nodes is combining over all lists of `k` ids. -/
theorem interpolates_iff {all : List ParticipantId} {k : ℕ} {value : ParticipantId → M} {K : M} :
    Interpolates (nodes all) k (fun x => value (idOf x)) K ↔
      ∀ ids : List ParticipantId, ids.Nodup → (∀ id ∈ ids, id ∈ all) → ids.length = k →
        (lagrangeCombination ids value : Outcome ε M) = .ok K := by
  constructor
  · intro h ids hnodup hmem hlength
    rw [lagrangeCombination_eq hnodup, h _ (nodes_subset hmem) (by rw [card_nodes hnodup, hlength])]
  · intro h s hs hcard
    obtain ⟨ids, hsublist, hnodup, hnodes⟩ := exists_sublist_nodes hs
    have hmem : ∀ id ∈ ids, id ∈ all := fun _ hid => hsublist.subset hid
    have hcombine := h ids hnodup hmem (by rw [← card_nodes hnodup, hnodes, hcard])
    rw [lagrangeCombination_eq hnodup, hnodes, Except.ok.injEq] at hcombine
    exact hcombine

/-- The weighted sum of enough multiples of `P` by the values of a polynomial. -/
theorem weightedSum_smul {indices : List ParticipantId} (h : indices.Nodup)
    {p : Polynomial Scalar} (hp : p.degree < indices.length) {values : List M} {P : M}
    (hvalues : values = indices.map fun id => p.eval (Scalar.ofId id) • P) :
    weightedSum values (indices.map fun id => weight (nodes indices) (Scalar.ofId id)) =
      p.eval 0 • P := by
  rw [← card_nodes h] at hp
  rw [hvalues, weightedSum_weights h, ← combine_eval_smul hp P]
  refine combine_congr fun x hx => ?_
  obtain ⟨id, _, rfl⟩ := mem_nodes.mp hx
  rw [idOf_ofId]

/-- The weighted sum of entries that carry enough values of a polynomial. -/
theorem weightedSum_eval {β : Type} {entries : List β} {index : β → ParticipantId}
    {value : β → Scalar} (hnodup : (entries.map index).Nodup) {p : Polynomial Scalar}
    (hp : p.degree < entries.length)
    (hvalue : ∀ entry ∈ entries, value entry = p.eval (Scalar.ofId (index entry))) :
    weightedSum (entries.map value) ((entries.map index).map fun id =>
      weight (nodes (entries.map index)) (Scalar.ofId id)) = p.eval 0 := by
  have hvalues : entries.map value =
      (entries.map index).map fun id => p.eval (Scalar.ofId id) • (1 : Scalar) := by
    rw [List.map_map]
    refine List.map_congr_left fun entry hentry => ?_
    rw [Function.comp_apply, smul_eq_mul, mul_one, hvalue entry hentry]
  rw [weightedSum_smul hnodup (by rwa [List.length_map]) hvalues, smul_eq_mul, mul_one]

/-- Enough multiples of `P` by the values of a polynomial combine to the multiple
of `P` by the value at zero. -/
theorem lagrangeCombination_smul {indices : List ParticipantId} (h : indices.Nodup)
    {p : Polynomial Scalar} (hp : p.degree < indices.length) {value : ParticipantId → M} {P : M}
    (hvalue : ∀ id ∈ indices, value id = p.eval (Scalar.ofId id) • P) :
    (lagrangeCombination indices value : Outcome ε M) = .ok (p.eval 0 • P) := by
  rw [lagrangeCombination, lagrangeAtZero_eq h, Outcome.ok_bind, Outcome.pure_eq_ok,
    weightedSum_smul h hp (List.map_congr_left hvalue)]

/-- Enough values of a polynomial combine to its value at zero. -/
theorem lagrangeCombination_eval {indices : List ParticipantId} (h : indices.Nodup)
    {p : Polynomial Scalar} (hp : p.degree < indices.length) {value : ParticipantId → Scalar}
    (hvalue : ∀ id ∈ indices, value id = p.eval (Scalar.ofId id)) :
    (lagrangeCombination indices value : Outcome ε Scalar) = .ok (p.eval 0) := by
  have hmultiple : ∀ id ∈ indices, value id = p.eval (Scalar.ofId id) • (1 : Scalar) :=
    fun id hid => by rw [hvalue id hid, smul_eq_mul, mul_one]
  have hone := lagrangeCombination_smul (ε := ε) h hp hmultiple
  rwa [smul_eq_mul, mul_one] at hone

end Sigimora.Shamir
