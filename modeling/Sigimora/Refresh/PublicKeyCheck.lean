import Sigimora.Math.ExponentCurve
import Sigimora.Refresh.Protocol

/-!
# The check of the public keys

The check combines the keys of the ids that have one before and after. The
coefficients are those of the whole quorum, so that leaving ids out compares
something else than the collective keys.
-/

namespace Sigimora.Refresh

open Shamir Interpolation

variable [Curve]

namespace RefreshManager

/-- The entry of an id, at the position before its number. -/
def entryOf (pks : List G2Point) (id : ParticipantId) : Option G2Point :=
  if id = 0 then none else pks[id.toNat - 1]?

/-- The id has a key before and after. -/
def HasKeys (oldPks newPks : List G2Point) (id : ParticipantId) : Prop :=
  (entryOf oldPks id).isSome ∧ (entryOf newPks id).isSome

instance (oldPks newPks : List G2Point) : DecidablePred (HasKeys oldPks newPks) :=
  fun _ => inferInstanceAs (Decidable (_ ∧ _))

/-- The combination at zero of the keys of the whole quorum. -/
def combinedKey {ε : Type} (pks : List G2Point) (quorum : List ParticipantId) :
    Outcome ε G2Point :=
  lagrangeCombination quorum fun id => (entryOf pks id).getD 0

/-- The key of an id that has one before and after. -/
def sharedKey (pks oldPks newPks : List G2Point) (id : ParticipantId) : G2Point :=
  if HasKeys oldPks newPks id then (entryOf pks id).getD 0 else 0

/-- How the key of an id changed, where there is one before and after. -/
def keyChange (oldPks newPks : List G2Point) (id : ParticipantId) : G2Point :=
  if HasKeys oldPks newPks id then (entryOf newPks id).getD 0 - (entryOf oldPks id).getD 0 else 0

/-- The check does not panic, and it returns true exactly if the quorum has keys before and
after and these combine to the same key. -/
def ChecksInvariant (oldPks newPks : List G2Point) (quorum : List ParticipantId) : Prop :=
  Outcome.NoPanic
      (verifyCollectiveKeyInvariant oldPks newPks quorum : Outcome RefreshError Bool) ∧
    ((verifyCollectiveKeyInvariant oldPks newPks quorum : Outcome RefreshError Bool) = .ok true ↔
      (∀ id ∈ quorum, HasKeys oldPks newPks id) ∧
        (combinedKey oldPks quorum : Outcome RefreshError G2Point) = combinedKey newPks quorum)

variable {ε : Type} {oldPks newPks : List G2Point} {quorum : List ParticipantId}

/-! ## The loop -/

/-- One round of the loop over the quorum. -/
def addKeys (oldPks newPks : List G2Point) (acc : G2Point × G2Point)
    (entry : ParticipantId × Scalar) : Outcome ε (G2Point × G2Point) := do
  let pkIdx ← Outcome.sub entry.1.toNat 1
  match oldPks[pkIdx]?, newPks[pkIdx]? with
  | some oldPk, some newPk => return (acc.1 + entry.2 • oldPk, acc.2 + entry.2 • newPk)
  | _, _ => return acc

omit [Curve] in
/-- An id other than zero is at least one. -/
theorem one_le_toNat {id : ParticipantId} (h : id ≠ 0) : 1 ≤ id.toNat := by
  rw [Nat.one_le_iff_ne_zero]
  exact fun hzero => h (UInt16.toNat_inj.mp hzero)

/-- The round adds the keys of an id that has both. -/
theorem addKeys_eq {id : ParticipantId} (h : id ≠ 0) (acc : G2Point × G2Point)
    (lambda : Scalar) : (addKeys oldPks newPks acc (id, lambda) : Outcome ε _) =
      .ok (acc.1 + lambda • sharedKey oldPks oldPks newPks id,
        acc.2 + lambda • sharedKey newPks oldPks newPks id) := by
  have hentry (pks : List G2Point) : entryOf pks id = pks[id.toNat - 1]? := if_neg h
  rw [addKeys, Outcome.sub_of_le (one_le_toNat h), Outcome.ok_bind]
  simp only [sharedKey, HasKeys, hentry]
  cases oldPks[id.toNat - 1]? with
  | none => simp
  | some oldPk =>
    cases newPks[id.toNat - 1]? with
    | none => simp
    | some newPk => simp

/-- The loop adds up both lists of keys with their weights. -/
theorem foldlM_addKeys (hzero : 0 ∉ quorum) (lambda : ParticipantId → Scalar)
    (acc : G2Point × G2Point) :
    ((quorum.zip (quorum.map lambda)).foldlM (addKeys oldPks newPks) acc : Outcome ε _) =
      .ok (acc.1 + (quorum.map fun id => lambda id • sharedKey oldPks oldPks newPks id).sum,
        acc.2 + (quorum.map fun id => lambda id • sharedKey newPks oldPks newPks id).sum) := by
  induction quorum generalizing acc with
  | nil => simp
  | cons id quorum ih =>
    obtain ⟨hid, hrest⟩ := not_or.mp (mt List.mem_cons.mpr hzero)
    rw [List.map_cons, List.zip_cons_cons, List.foldlM_cons, addKeys_eq (Ne.symm hid),
      Outcome.ok_bind, ih hrest]
    simp only [List.map_cons, List.sum_cons, add_assoc]

/-- The id zero makes the loop panic. -/
theorem foldlM_addKeys_zero (hzero : 0 ∈ quorum) (lambda : ParticipantId → Scalar)
    (acc : G2Point × G2Point) :
    ((quorum.zip (quorum.map lambda)).foldlM (addKeys oldPks newPks) acc : Outcome ε _) =
      Outcome.panic "attempt to subtract with overflow" := by
  induction quorum generalizing acc with
  | nil => cases hzero
  | cons id quorum ih =>
    rw [List.map_cons, List.zip_cons_cons, List.foldlM_cons]
    by_cases hid : id = 0
    · subst hid
      rfl
    · rw [addKeys_eq hid, Outcome.ok_bind]
      exact ih ((List.mem_cons.mp hzero).resolve_left (Ne.symm hid)) _

/-! ## The check -/

/-- The key of a quorum interpolates the keys of its members at zero. -/
theorem combinedKey_eq (hnodup : quorum.Nodup) (pks : List G2Point) :
    (combinedKey pks quorum : Outcome ε G2Point) =
      .ok (combine (nodes quorum) fun x => (entryOf pks (idOf x)).getD 0) :=
  lagrangeCombination_eq hnodup _

/-- Without the id zero the check compares the combinations of the shared keys. -/
theorem verifyCollectiveKeyInvariant_eq_shared (hnodup : quorum.Nodup) (hzero : 0 ∉ quorum) :
    (verifyCollectiveKeyInvariant oldPks newPks quorum : Outcome ε Bool) =
      .ok (combine (nodes quorum) (fun x => sharedKey oldPks oldPks newPks (idOf x)) ==
        combine (nodes quorum) fun x => sharedKey newPks oldPks newPks (idOf x)) := by
  have hcombine (value : ParticipantId → G2Point) :
      (quorum.map fun id => weight (nodes quorum) (Scalar.ofId id) • value id).sum =
        combine (nodes quorum) fun x => value (idOf x) := by
    rw [← weightedSum_weights hnodup, weightedSum, foldl_zip_map, zero_add]
  have hloop := @foldlM_addKeys _ ε oldPks newPks quorum hzero
    (fun id => weight (nodes quorum) (Scalar.ofId id)) (0, 0)
  rw [hcombine, hcombine, zero_add, zero_add] at hloop
  rw [verifyCollectiveKeyInvariant, lagrangeAtZero_eq hnodup, Outcome.ok_bind]
  exact congrArg (· >>= fun sums => pure (sums.1 == sums.2)) hloop

/-- A quorum with the id zero makes the check panic. -/
theorem verifyCollectiveKeyInvariant_zero (hnodup : quorum.Nodup) (hzero : 0 ∈ quorum) :
    (verifyCollectiveKeyInvariant oldPks newPks quorum : Outcome ε Bool) =
      Outcome.panic "attempt to subtract with overflow" := by
  have hloop := @foldlM_addKeys_zero _ ε oldPks newPks quorum hzero
    (fun id => weight (nodes quorum) (Scalar.ofId id)) (0, 0)
  rw [verifyCollectiveKeyInvariant, lagrangeAtZero_eq hnodup, Outcome.ok_bind]
  exact congrArg (· >>= fun sums => pure (sums.1 == sums.2)) hloop

/-- The shared keys of a quorum that has all its keys are these keys. -/
theorem combine_sharedKey (hkeys : ∀ id ∈ quorum, HasKeys oldPks newPks id) (pks : List G2Point) :
    combine (nodes quorum) (fun x => sharedKey pks oldPks newPks (idOf x)) =
      combine (nodes quorum) fun x => (entryOf pks (idOf x)).getD 0 := by
  refine combine_congr fun x hx => ?_
  obtain ⟨id, hid, rfl⟩ := mem_nodes.mp hx
  rw [idOf_ofId, sharedKey, if_pos (hkeys id hid)]

/-- The combined keys are the same exactly if the changes cancel out. -/
theorem combine_sharedKey_eq_iff :
    combine (nodes quorum) (fun x => sharedKey oldPks oldPks newPks (idOf x)) =
        combine (nodes quorum) (fun x => sharedKey newPks oldPks newPks (idOf x)) ↔
      combine (nodes quorum) (fun x => keyChange oldPks newPks (idOf x)) = 0 := by
  have hchange (id : ParticipantId) : sharedKey newPks oldPks newPks id =
      sharedKey oldPks oldPks newPks id + keyChange oldPks newPks id := by
    unfold sharedKey keyChange
    split
    · exact (add_sub_cancel _ _).symm
    · exact (add_zero 0).symm
  simp only [hchange, combine_add]
  exact left_eq_add

/-- **The check of the public keys.** It does what it should exactly if the id zero is not in
the quorum and, when keys are missing, the changes of the others do not cancel out. -/
theorem checksInvariant_iff (oldPks newPks : List G2Point) (hnodup : quorum.Nodup) :
    ChecksInvariant oldPks newPks quorum ↔
      0 ∉ quorum ∧ ((∀ id ∈ quorum, HasKeys oldPks newPks id) ∨
        combine (nodes quorum) (fun x => keyChange oldPks newPks (idOf x)) ≠ 0) := by
  by_cases hzero : 0 ∈ quorum
  · have hpanic : ¬ Outcome.NoPanic
        (verifyCollectiveKeyInvariant oldPks newPks quorum : Outcome RefreshError Bool) := by
      rw [verifyCollectiveKeyInvariant_zero hnodup hzero]
      exact Outcome.not_noPanic_panic _
    exact iff_of_false (fun h => hpanic h.1) fun h => h.1 hzero
  · rw [ChecksInvariant, verifyCollectiveKeyInvariant_eq_shared hnodup hzero,
      and_iff_right (Outcome.noPanic_ok _), and_iff_right hzero, Except.ok.injEq, beq_iff_eq,
      combinedKey_eq hnodup, combinedKey_eq hnodup, Except.ok.injEq, ne_eq,
      ← combine_sharedKey_eq_iff]
    by_cases hkeys : ∀ id ∈ quorum, HasKeys oldPks newPks id
    · rw [combine_sharedKey hkeys, combine_sharedKey hkeys, and_iff_right hkeys]
      exact iff_of_true Iff.rfl (Or.inl hkeys)
    · -- a quorum without its keys has to be refused
      rw [or_iff_right hkeys]
      constructor
      · intro h hsame
        exact hkeys (h.mp hsame).1
      · intro hdiffer
        exact iff_of_false hdiffer fun h => hkeys h.1

/-- The public keys of shares. -/
def publicKeys (shares : List Scalar) : List G2Point :=
  shares.map fun share => share • G2Point.generator

omit [Curve] in
/-- Two ids with keys before and after. -/
theorem checksInvariant_two :
    letI := exponentCurve
    ChecksInvariant (publicKeys [3, 4]) (publicKeys [5, 8]) [1, 2] := by
  let := exponentCurve
  have hkeys : ∀ id ∈ [1, 2], HasKeys (publicKeys [3, 4]) (publicKeys [5, 8]) id :=
    List.forall_mem_cons.mpr ⟨by decide, List.forall_mem_singleton.mpr (by decide)⟩
  exact (checksInvariant_iff _ _ (by decide)).mpr ⟨by decide, Or.inl hkeys⟩

omit [Curve] in
/-- A quorum of two passes with the key of one. -/
theorem one_key_passes_for_two :
    letI := exponentCurve
    ¬ ChecksInvariant (publicKeys [3]) (publicKeys [3]) [1, 2] := by
  let := exponentCurve
  have hpasses : (verifyCollectiveKeyInvariant (publicKeys [3]) (publicKeys [3]) [1, 2] :
      Outcome RefreshError Bool) = .ok true := by
    rw [verifyCollectiveKeyInvariant_eq_shared (by decide) (by decide), beq_self_eq_true]
  intro h
  have hsecond := (h.2.mp hpasses).1 2 (by decide)
  exact absurd hsecond (by decide)

end RefreshManager

end Sigimora.Refresh
