import Sigimora.Ats.Signing

/-!
# Who is in a quorum

`aggregate` takes the node ids of the partial signatures as they are. It pairs
the keys that it finds with the coefficients by position, so one id without a key
shifts all keys behind it, and a repeated id panics.
-/

namespace Sigimora.Ats

open Interpolation Shamir Outcome

variable [Curve]

/-- The quorum consists of different members, whose own keys are listed in its order and combined
with their own coefficients. -/
def QuorumOfMembers (params : NetworkPublicParams) (sig : AtsSignature) : Prop :=
  sig.quorum.Nodup ∧ ∃ key : ParticipantId → G2Point,
    (∀ id ∈ sig.quorum, params.memberPks.find? (fun entry => entry.1 == id) = some (id, key id)) ∧
    sig.membershipProof.individualPks = sig.quorum.map (fun id => (id, key id)) ∧
    sig.membershipProof.quorumPk =
      (sig.quorum.map fun id => weight (nodes sig.quorum) (Scalar.ofId id) • key id).sum

/-- Aggregation does not panic, and returns quorums of members only. -/
structure ValidatesSigners (partials : List PartialSignature) (params : NetworkPublicParams)
    (epoch : UInt64) (aggregatorId : ParticipantId) : Prop where
  noPanic : NoPanic (aggregate partials params epoch aggregatorId)
  ofMembers : ∀ sig, aggregate partials params epoch aggregatorId = .ok sig →
    QuorumOfMembers params sig

variable {partials : List PartialSignature} {params : NetworkPublicParams} {epoch : UInt64}
  {aggregatorId : ParticipantId}

/-- The combined keys of a quorum of members. -/
theorem weightedSum_quorumPks {quorum : List ParticipantId} {key : ParticipantId → G2Point}
    (hkey : ∀ id ∈ quorum,
      params.memberPks.find? (fun entry => entry.1 == id) = some (id, key id)) :
    weightedSum ((quorumPks params quorum).map Prod.snd) (quorumWeights quorum) =
      (quorum.map fun id => weight (nodes quorum) (Scalar.ofId id) • key id).sum := by
  rw [quorumPks_of_members hkey, List.map_map, weightedSum, quorumWeights]
  exact (foldl_zip_map quorum key _ 0).trans (zero_add _)

/-- **Validated signers.** With enough partial signatures, the signers are validated exactly if
they are different members already. -/
theorem validatesSigners_iff (partials : List PartialSignature) (params : NetworkPublicParams)
    (epoch : UInt64) (aggregatorId : ParticipantId) :
    ValidatesSigners partials params epoch aggregatorId ↔
      partials.length < params.threshold ∨
        (partials.map PartialSignature.nodeId).Nodup ∧
          ∀ id ∈ partials.map PartialSignature.nodeId, id ∈ params.memberPks.map Prod.fst := by
  by_cases hsize : partials.length < params.threshold
  · obtain ⟨e, he⟩ := exists_aggregate_eq_err_iff.mpr hsize
    refine iff_of_true ⟨?_, ?_⟩ (Or.inl hsize)
    · rw [he]
      exact noPanic_fail e
    · intro sig hsig
      rw [he] at hsig
      cases hsig
  rw [or_iff_right hsize]
  have henough := not_lt.mp hsize
  constructor
  · intro h
    have hnodup : (partials.map PartialSignature.nodeId).Nodup := by
      by_contra hrepeated
      exact h.noPanic _ (aggregate_of_not_nodup henough hrepeated epoch aggregatorId)
    have hok := aggregate_eq_ok partials henough hnodup epoch aggregatorId
    obtain ⟨_, key, hkey, _⟩ := h.ofMembers _ hok
    refine ⟨hnodup, fun id hid => ?_⟩
    exact List.mem_map_of_mem (List.mem_of_find?_eq_some (hkey id hid))
  · rintro ⟨hnodup, hmembers⟩
    have hok := aggregate_eq_ok partials henough hnodup epoch aggregatorId
    refine ⟨?_, ?_⟩
    · rw [hok]
      exact noPanic_ok _
    · intro sig hsig
      rw [hok, Except.ok.injEq] at hsig
      subst hsig
      choose! key hkey using fun id hid => exists_find?_memberPks (hmembers id hid)
      have hfound := fun id hid => (hkey id hid).2
      exact ⟨hnodup, key, hfound, quorumPks_of_members hfound, weightedSum_quorumPks hfound⟩

/-- A partial signature with nothing in it. -/
def emptyPartial (nodeId : ParticipantId) : PartialSignature where
  nodeId := nodeId
  sigma := 0
  encryptedTag := ⟨nodeId, 0, [], []⟩

omit [Curve] in
/-- A stranger that comes first takes the coefficient of the quorum's first key for itself. -/
theorem stranger_aggregates :
    letI := exponentCurve
    ¬ ValidatesSigners [emptyPartial 9, emptyPartial 1] twoMembers 0 1 := by
  let := exponentCurve
  intro h
  have hok : aggregate [emptyPartial 9, emptyPartial 1] twoMembers 0 1 = _ :=
    aggregate_eq_ok _ le_rfl (by decide) 0 1
  obtain ⟨_, key, hkey, _⟩ := h.ofMembers _ hok
  have hstranger : twoMembers.memberPks.find? (fun entry => entry.1 == 9) = none := rfl
  have hfound := hkey 9 List.mem_cons_self
  rw [hstranger] at hfound
  cases hfound

end Sigimora.Ats
