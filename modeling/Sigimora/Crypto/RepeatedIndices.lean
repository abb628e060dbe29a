import Sigimora.Crypto.BlsThreshold
import Sigimora.Crypto.Frost

/-!
# Repeated indices

Reconstruction and aggregation weigh their inputs by Lagrange coefficients, which
exist for different indices only. None of the four functions looks for a
repetition: two panic on it and two return a combination with other weights.
-/

namespace Sigimora

open Shamir

variable {α : Type} {indices : List ParticipantId} {threshold : ℕ}

/-- The call does not panic, and it returns a value only if the indices are different and
at least `threshold` many. -/
def RejectsRepeated (result : Outcome CryptoError α) (indices : List ParticipantId)
    (threshold : ℕ) : Prop :=
  result.NoPanic ∧ ∀ a, result = .ok a → indices.Nodup ∧ threshold ≤ indices.length

/-- A failure rejects everything. -/
theorem rejectsRepeated_fail (e : CryptoError) :
    RejectsRepeated (Outcome.fail e : Outcome CryptoError α) indices threshold :=
  ⟨Outcome.noPanic_fail e, nofun⟩

/-- Refusing no inputs at all is safe. -/
theorem rejectsRepeated_isEmpty_iff {β : Type} {inputs : List β} (hempty : inputs.isEmpty = true)
    (index : β → ParticipantId) (e : CryptoError) :
    RejectsRepeated (Outcome.fail e : Outcome CryptoError α) (inputs.map index) 0 ↔
      (inputs.map index).Nodup := by
  refine iff_of_true (rejectsRepeated_fail e) ?_
  rw [List.isEmpty_iff.mp hempty]
  exact List.nodup_nil

/-- A success must be on different indices, and enough of them. -/
theorem rejectsRepeated_ok_iff {a : α} :
    RejectsRepeated (.ok a) indices threshold ↔ indices.Nodup ∧ threshold ≤ indices.length := by
  constructor
  · intro h
    exact h.2 a rfl
  · intro h
    exact ⟨Outcome.noPanic_ok a, fun _ _ => h⟩

/-- Going on with the canonical coefficients is safe for different indices. -/
theorem rejectsRepeated_lagrangeAtZero_iff {f : List Scalar → α}
    (hsize : threshold ≤ indices.length) :
    RejectsRepeated (do
      let lambdas ← lagrangeAtZero indices
      return f lambdas) indices threshold ↔ indices.Nodup := by
  by_cases hnodup : indices.Nodup
  · rw [lagrangeAtZero_eq hnodup, Outcome.ok_bind, Outcome.pure_eq_ok, rejectsRepeated_ok_iff]
    exact and_iff_left hsize
  · refine iff_of_false (fun h => ?_) hnodup
    rw [lagrangeAtZero_of_not_nodup hnodup] at h
    exact Outcome.not_noPanic_panic _ h.1

namespace Shamir

theorem reconstruct_rejectsRepeated_iff (shares : List Share) :
    RejectsRepeated (reconstruct shares) (shares.map Share.index) 0 ↔
      (shares.map Share.index).Nodup := by
  unfold reconstruct
  split
  · rename_i hempty
    exact rejectsRepeated_isEmpty_iff hempty Share.index _
  · exact rejectsRepeated_lagrangeAtZero_iff (Nat.zero_le _)

end Shamir

variable [Curve]

theorem AtsBls.aggregate_rejectsRepeated_iff (partials : List AtsBls.PartialSignature)
    (threshold : ℕ) :
    RejectsRepeated (AtsBls.aggregate partials threshold)
        (partials.map AtsBls.PartialSignature.signerId) threshold ↔
      partials.length < threshold ∨ (partials.map AtsBls.PartialSignature.signerId).Nodup := by
  unfold AtsBls.aggregate
  split
  · rename_i hfew
    exact iff_of_true (rejectsRepeated_fail _) (Or.inl hfew)
  · rename_i henough
    rw [or_iff_right henough]
    exact rejectsRepeated_lagrangeAtZero_iff (by rw [List.length_map]; exact not_lt.mp henough)

theorem Frost.aggregate_rejectsRepeated_iff (partials : List Frost.PartialSignature)
    (signingKeys : List Frost.SigningKey) (threshold : ℕ) :
    RejectsRepeated (Frost.aggregate partials signingKeys threshold)
        (partials.map Frost.PartialSignature.signerId) threshold ↔
      partials.length < threshold ∨ (partials.map Frost.PartialSignature.signerId).Nodup := by
  unfold Frost.aggregate
  split
  · rename_i hfew
    exact iff_of_true (rejectsRepeated_fail _) (Or.inl hfew)
  · rename_i henough
    rw [rejectsRepeated_ok_iff, List.length_map, or_iff_right henough]
    exact and_iff_left (not_lt.mp henough)

theorem Frost.aggregateSimple_rejectsRepeated_iff (partials : List Frost.PartialSignature) :
    RejectsRepeated (Frost.aggregateSimple partials)
        (partials.map Frost.PartialSignature.signerId) 0 ↔
      (partials.map Frost.PartialSignature.signerId).Nodup := by
  unfold Frost.aggregateSimple
  split
  · rename_i hempty
    exact rejectsRepeated_isEmpty_iff hempty Frost.PartialSignature.signerId _
  · rw [rejectsRepeated_ok_iff]
    exact and_iff_left (Nat.zero_le _)

/-- **Repeated indices.** Each of the functions is safe exactly for different indices, or if
it has already refused because they are too few. -/
theorem rejectsRepeated_iff :
    (∀ shares : List Share, RejectsRepeated (reconstruct shares) (shares.map Share.index) 0 ↔
      (shares.map Share.index).Nodup) ∧
    (∀ (partials : List AtsBls.PartialSignature) (threshold : ℕ),
      RejectsRepeated (AtsBls.aggregate partials threshold)
          (partials.map AtsBls.PartialSignature.signerId) threshold ↔
        partials.length < threshold ∨
          (partials.map AtsBls.PartialSignature.signerId).Nodup) ∧
    (∀ (partials : List Frost.PartialSignature) (signingKeys : List Frost.SigningKey)
      (threshold : ℕ),
      RejectsRepeated (Frost.aggregate partials signingKeys threshold)
          (partials.map Frost.PartialSignature.signerId) threshold ↔
        partials.length < threshold ∨ (partials.map Frost.PartialSignature.signerId).Nodup) ∧
    ∀ partials : List Frost.PartialSignature,
      RejectsRepeated (Frost.aggregateSimple partials)
          (partials.map Frost.PartialSignature.signerId) 0 ↔
        (partials.map Frost.PartialSignature.signerId).Nodup :=
  ⟨reconstruct_rejectsRepeated_iff, AtsBls.aggregate_rejectsRepeated_iff,
    Frost.aggregate_rejectsRepeated_iff, Frost.aggregateSimple_rejectsRepeated_iff⟩

omit [Curve] in
/-- Two shares of the first participant make `reconstruct` panic, and two partial signatures
of it go through `aggregateSimple`. -/
theorem repeated_index_not_rejected :
    letI := exponentCurve
    ¬ RejectsRepeated (reconstruct [⟨1, 5⟩, ⟨1, 6⟩]) [1, 1] 0 ∧
      ¬ RejectsRepeated (Frost.aggregateSimple [⟨1, 0⟩, ⟨1, 0⟩]) [1, 1] 0 := by
  let := exponentCurve
  have hrepeated : ¬ ([1, 1] : List ParticipantId).Nodup := by decide
  refine ⟨fun h => ?_, fun h => ?_⟩
  · exact hrepeated ((reconstruct_rejectsRepeated_iff [⟨1, 5⟩, ⟨1, 6⟩]).mp h)
  · exact hrepeated ((Frost.aggregateSimple_rejectsRepeated_iff [⟨1, 0⟩, ⟨1, 0⟩]).mp h)

end Sigimora
