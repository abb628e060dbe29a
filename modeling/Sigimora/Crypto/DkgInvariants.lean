import Sigimora.Crypto.DkgCalls
import Sigimora.Math.ExponentCurve

/-!
# Stored shares and complaints

Two properties of a party along all runs of calls. A share is checked against
the commitments of its sender only if they were recorded before it, and at the
index that the share itself states; so the stored shares are verified for their
holder exactly in the runs in which every accepted share comes after its
commitments and is made out to the holder. Disqualification counts complaints
and not complaining parties; so a party stays qualified exactly as long as it is
the subject of at most `f` complaints.
-/

namespace Sigimora

open Pedersen

variable [Curve]

/-! ## Stored shares -/

/-- Some recorded commitments of the sender verify the share at the id of its holder. -/
def ShareVerified (state : DkgState) (entry : ParticipantId × VssShare) : Prop :=
  ∃ vss, (entry.1, vss) ∈ state.receivedVssPublics ∧ entry.2.index = state.myId ∧
    vss.verifyShare state.myId entry.2.value entry.2.blinding state.pedersen = true

/-- All stored shares are verified for their holder. -/
def SharesVerified (state : DkgState) : Prop :=
  ∀ entry ∈ state.receivedShares, ShareVerified state entry

/-- A share arrives after commitments of its sender, and is made out to the
receiver unless these commitments reject it. -/
def ShareGuarded (state : DkgState) : DkgCall → Prop
  | .processReceivedShare sender share =>
    ∃ entry, (state.receivedVssPublics.find? fun entry => entry.1 == sender) = some entry ∧
      (entry.2.verifyShare share.index share.value share.blinding state.pedersen = true →
        share.index = state.myId)
  | _ => True

/-- A call that delivers no message has no effect on what is verified. -/
theorem sharesVerified_call {state : DkgState} {call : DkgCall} (hcall : call.isMessage = false)
    (h : SharesVerified state) : SharesVerified (state.call call) := by
  obtain ⟨hid, hped, _, _, hreceived⟩ := state.call_frame call
  obtain ⟨_, hvss, hshares⟩ := hreceived hcall
  intro entry hentry
  rw [hshares] at hentry
  obtain ⟨vss, hmem, hindex, hverify⟩ := h entry hentry
  refine ⟨vss, ?_, ?_, ?_⟩
  · rwa [hvss]
  · rwa [hid]
  · rwa [hid, hped]

/-- Further commitments verify no less. -/
theorem sharesVerified_processParticipantCommit {state : DkgState} (sender : ParticipantId)
    (publicKey : G2Point) (pop : G1Point) (vssPublic : VssPublic) (h : SharesVerified state) :
    SharesVerified
      (state.call (.processParticipantCommit sender publicKey pop vssPublic)) := by
  rw [DkgState.call_processParticipantCommit]
  split
  · intro entry hentry
    obtain ⟨vss, hmem, hrest⟩ := h entry hentry
    exact ⟨vss, List.mem_append_left _ hmem, hrest⟩
  · exact h

/-- A share keeps the stored shares verified exactly when it is guarded. -/
theorem sharesVerified_processReceivedShare_iff {state : DkgState} {sender : ParticipantId}
    {share : VssShare} (h : SharesVerified state) :
    SharesVerified (state.call (.processReceivedShare sender share)) ↔
      ShareGuarded state (.processReceivedShare sender share) := by
  rcases state.call_processReceivedShare sender share with ⟨haccepts, hcall⟩ | ⟨hrejects, hcall⟩
  · rw [hcall]
    constructor
    · intro hverified
      have hmem : (sender, share) ∈ state.receivedShares ++ [(sender, share)] :=
        List.mem_append_right _ (List.mem_singleton_self _)
      obtain ⟨vss, hvss, hindex, _⟩ := hverified _ hmem
      cases hfind : state.receivedVssPublics.find? fun entry => entry.1 == sender with
      | none =>
        have hnone := List.find?_eq_none.mp hfind _ hvss
        simp at hnone
      | some entry => exact ⟨entry, hfind, fun _ => hindex⟩
    · rintro ⟨entry, hfind, hindex⟩ stored hstored
      rcases List.mem_append.mp hstored with hold | hnew
      · exact h stored hold
      · have hsender : entry.1 = sender := by simpa using List.find?_some hfind
        have hverify := haccepts entry hfind
        have hmine := hindex hverify
        rw [List.mem_singleton.mp hnew]
        refine ⟨entry.2, ?_, hmine, ?_⟩
        · rw [← hsender]
          exact List.mem_of_find?_eq_some hfind
        · rw [hmine] at hverify
          exact hverify
  · rw [hcall]
    refine iff_of_true h ?_
    unfold DkgState.Accepts at hrejects
    push Not at hrejects
    obtain ⟨entry, hfind, hinvalid⟩ := hrejects
    exact ⟨entry, hfind, fun hvalid => absurd hvalid hinvalid⟩

/-- A call keeps the shares verified just if it is guarded. -/
theorem sharesVerified_call_iff {state : DkgState} (call : DkgCall) (h : SharesVerified state) :
    SharesVerified (state.call call) ↔ ShareGuarded state call := by
  cases call with
  | processReceivedShare sender share => exact sharesVerified_processReceivedShare_iff h
  | processParticipantCommit sender publicKey pop vssPublic =>
    exact iff_of_true (sharesVerified_processParticipantCommit _ _ _ _ h) trivial
  | start coins => exact iff_of_true (sharesVerified_call rfl h) trivial
  | addComplaint complainer accused order => exact iff_of_true (sharesVerified_call rfl h) trivial
  | addDisqualification participant => exact iff_of_true (sharesVerified_call rfl h) trivial
  | buildQualSet => exact iff_of_true (sharesVerified_call rfl h) trivial
  | addQualReveal sender publicKey => exact iff_of_true (sharesVerified_call rfl h) trivial
  | finalize => exact iff_of_true (sharesVerified_call rfl h) trivial

/-- **Stored shares.** From a new party on, all stored shares stay verified for
their holder exactly when every share that arrives is guarded. -/
theorem sharesVerified_throughout_iff (n t : ℕ) (myId : ParticipantId) (ped : PedersenSetup)
    (calls : List DkgCall) :
    Run.Throughout DkgState.call SharesVerified (DkgState.initial n t myId ped) calls ↔
      Run.Guarded DkgState.call ShareGuarded (DkgState.initial n t myId ped) calls := by
  refine Run.throughout_iff_guarded (fun state call h => sharesVerified_call_iff call h) ?_
  intro entry hentry
  cases hentry

omit [Curve] in
/-- A share without commitments is stored as it is. -/
theorem unverified_share_stored :
    letI := exponentCurve
    ¬ ∀ (n t : ℕ) (myId : ParticipantId) (ped : PedersenSetup) (state : DkgState)
      (calls : List DkgCall),
      (DkgState.new n t myId ped : Outcome CryptoError DkgState) = .ok state →
        SharesVerified (Run.after DkgState.call state calls) := by
  let := exponentCurve
  intro h
  have hnew : (DkgState.new 2 1 1 PedersenSetup.deterministic : Outcome CryptoError DkgState) =
      .ok (DkgState.initial 2 1 1 PedersenSetup.deterministic) := rfl
  have hverified := h 2 1 1 PedersenSetup.deterministic _ [.processReceivedShare 2 ⟨1, 0, 0⟩] hnew
  obtain ⟨vss, hvss, _⟩ := hverified (2, ⟨1, 0, 0⟩) (List.mem_singleton_self _)
  cases hvss

/-! ## Complaints -/

/-- A complaint, with the order in which the counters are visited after it. -/
structure Complaint where
  complainer : ParticipantId
  accused : ParticipantId
  order : Traversal (ParticipantId × ℕ)

/-- Process a complaint. -/
def DkgState.complain (state : DkgState) (complaint : Complaint) : DkgState :=
  state.addComplaint complaint.complainer complaint.accused complaint.order

omit [Curve] in
/-- The complaints about one party. -/
def complaintsAbout (p : ParticipantId) (complaints : List Complaint) : List Complaint :=
  complaints.filter fun complaint => complaint.accused = p

section Complaints

variable {n t : ℕ} {myId p : ParticipantId} {ped : PedersenSetup} {complaints : List Complaint}

/-- A further complaint comes after the others. -/
theorem after_complain_append (state : DkgState) (complaint : Complaint) :
    Run.after DkgState.complain state (complaints ++ [complaint]) =
      (Run.after DkgState.complain state complaints).complain complaint := Run.after_append _

/-- What complaints do not change. -/
theorem after_complain_frame (n t : ℕ) (myId : ParticipantId) (ped : PedersenSetup)
    (complaints : List Complaint) :
    (Run.after DkgState.complain (DkgState.initial n t myId ped) complaints).n = n ∧
      (Run.after DkgState.complain (DkgState.initial n t myId ped) complaints).f = (n - 1) / 3 := by
  induction complaints using List.reverseRecOn with
  | nil => exact ⟨rfl, rfl⟩
  | append_singleton complaints complaint ih =>
    rw [after_complain_append]
    exact ih

/-- Complaints are counted as they come in. -/
theorem getComplaintCount_after (n t : ℕ) (myId : ParticipantId) (ped : PedersenSetup)
    (p : ParticipantId) (complaints : List Complaint) :
    (Run.after DkgState.complain (DkgState.initial n t myId ped) complaints).getComplaintCount p =
      (complaintsAbout p complaints).length := by
  have hreceived :
      (Run.after DkgState.complain (DkgState.initial n t myId ped) complaints).complaintsReceived =
        complaints.map fun complaint => (complaint.complainer, complaint.accused) := by
    induction complaints using List.reverseRecOn with
    | nil => rfl
    | append_singleton complaints complaint ih =>
      rw [after_complain_append, List.map_append, ← ih]
      rfl
  rw [DkgState.getComplaintCount, hreceived, List.filter_map, List.length_map, complaintsAbout]
  rfl

/-- A party is disqualified as soon as more than `f` complaints are about it. -/
theorem mem_disqualifications_after :
    p ∈ (Run.after DkgState.complain (DkgState.initial n t myId ped) complaints).disqualifications ↔
      (n - 1) / 3 < (complaintsAbout p complaints).length := by
  induction complaints using List.reverseRecOn with
  | nil => simp [DkgState.initial, complaintsAbout]
  | append_singleton complaints complaint ih =>
    have hstep : p ∈ (Run.after DkgState.complain (DkgState.initial n t myId ped)
          (complaints ++ [complaint])).disqualifications ↔
        p ∈ (Run.after DkgState.complain (DkgState.initial n t myId ped)
          complaints).disqualifications ∨
        (n - 1) / 3 < (complaintsAbout p (complaints ++ [complaint])).length := by
      have hf := (after_complain_frame n t myId ped complaints).2
      rw [← getComplaintCount_after n t myId ped, after_complain_append, ← hf]
      exact DkgState.mem_checkDisqualification
    have hmono : (complaintsAbout p complaints).length ≤
        (complaintsAbout p (complaints ++ [complaint])).length := by
      rw [complaintsAbout, complaintsAbout, List.filter_append, List.length_append]
      exact Nat.le_add_right _ _
    rw [hstep, ih]
    constructor
    · rintro (h | h)
      · exact lt_of_lt_of_le h hmono
      · exact h
    · exact Or.inr

/-- **Complaints.** A participant is never disqualified and ends up qualified
exactly when at most `f` complaints are about it, whoever made them. -/
theorem stays_qualified_iff (n t : ℕ) (myId : ParticipantId) (ped : PedersenSetup)
    (p : ParticipantId) (complaints : List Complaint) :
    (Run.Throughout DkgState.complain (fun state => p ∉ state.disqualifications)
        (DkgState.initial n t myId ped) complaints ∧
      p ∈ (Run.after DkgState.complain (DkgState.initial n t myId ped)
        complaints).buildQualSet.qualSet) ↔
    p ∈ participants n ∧ (complaintsAbout p complaints).length ≤ (n - 1) / 3 := by
  have hn := (after_complain_frame n t myId ped complaints).1
  have hqual : p ∈ (Run.after DkgState.complain (DkgState.initial n t myId ped)
        complaints).buildQualSet.qualSet ↔
      p ∈ participants n ∧ (complaintsAbout p complaints).length ≤ (n - 1) / 3 := by
    rw [DkgState.buildQualSet, List.mem_filter, decide_eq_true_iff, hn,
      mem_disqualifications_after, not_lt]
  rw [hqual]
  refine and_iff_right_of_imp ?_
  rintro ⟨_, hfew⟩ done ⟨rest, hdone⟩
  have hmono : (complaintsAbout p done).length ≤ (complaintsAbout p complaints).length := by
    rw [← hdone, complaintsAbout, complaintsAbout, List.filter_append, List.length_append]
    exact Nat.le_add_right _ _
  rw [mem_disqualifications_after, not_lt]
  exact hmono.trans hfew

omit [Curve] in
/-- Two complaints of the same party evict a participant of four. -/
theorem one_complainer_evicts :
    letI := exponentCurve
    ¬ ∀ (n t : ℕ) (myId : ParticipantId) (ped : PedersenSetup) (state : DkgState)
      (p : ParticipantId) (complaints : List Complaint), 1 ≤ n →
      (DkgState.new n t myId ped : Outcome CryptoError DkgState) = .ok state →
      1 ≤ p.toNat → p.toNat ≤ n →
      ((complaintsAbout p complaints).map Complaint.complainer).dedup.length ≤ (n - 1) / 3 →
      Run.Throughout DkgState.complain (fun state => p ∉ state.disqualifications) state
        complaints ∧
      p ∈ (Run.after DkgState.complain state complaints).buildQualSet.qualSet := by
  let := exponentCurve
  intro h
  let complaint : Complaint := ⟨2, 1, .insertionOrder⟩
  have hnew : (DkgState.new 4 1 3 PedersenSetup.deterministic : Outcome CryptoError DkgState) =
      .ok (DkgState.initial 4 1 3 PedersenSetup.deterministic) := rfl
  have hstays := (h 4 1 3 PedersenSetup.deterministic _ 1 [complaint, complaint] (by omega) hnew
    (by decide) (by decide) (by decide)).1
  exact hstays _ (List.prefix_refl _) (mem_disqualifications_after.mpr (by decide))

end Complaints

end Sigimora
