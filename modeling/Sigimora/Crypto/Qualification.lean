import Sigimora.Crypto.DkgFinalize

/-!
# Who is qualified

The set of qualified parties is rebuilt by some calls and only outdated by
others. For the messages of a complaint round it depends on neither their order
nor the order of the counters, but the cast in `1..=n as u16` leaves out the ids
above the remainder of `n`. Over all calls it agrees with the disqualifications
exactly as long as nobody is disqualified without a rebuild.
-/

namespace Sigimora

open Pedersen

variable [Curve]

/-! ## Single calls -/

namespace DkgState

variable {state : DkgState} {p : ParticipantId}

/-- A complaint counts for the accused only. -/
theorem getComplaintCount_addComplaint (state : DkgState)
    (complainer accused p : ParticipantId) (order : Traversal (ParticipantId × ℕ)) :
    (state.addComplaint complainer accused order).getComplaintCount p =
      state.getComplaintCount p + if accused = p then 1 else 0 := by
  have hreceived : (state.addComplaint complainer accused order).complaintsReceived =
      state.complaintsReceived ++ [(complainer, accused)] := rfl
  rw [getComplaintCount, getComplaintCount, hreceived, List.filter_append, List.length_append]
  by_cases haccused : accused = p <;> simp [haccused]

/-- A complaint disqualifies the accused that it brings above `f`. -/
theorem mem_disqualifications_addComplaint {complainer accused : ParticipantId}
    {order : Traversal (ParticipantId × ℕ)} :
    p ∈ (state.addComplaint complainer accused order).disqualifications ↔
      p ∈ state.disqualifications ∨
        state.f < state.getComplaintCount p + if accused = p then 1 else 0 := by
  rw [← getComplaintCount_addComplaint state complainer accused p order]
  exact mem_checkDisqualification

/-- A disqualification adds one participant. -/
theorem mem_disqualifications_addDisqualification {participant : ParticipantId} :
    p ∈ (state.addDisqualification participant).disqualifications ↔
      p ∈ state.disqualifications ∨ p = participant := by
  unfold addDisqualification
  split
  · exact List.mem_append.trans (or_congr_right List.mem_singleton)
  · rename_i hmem
    refine (or_iff_left_of_imp ?_).symm
    rintro rfl
    exact not_not.mp hmem

/-- A disqualification counts no complaint. -/
theorem getComplaintCount_addDisqualification (state : DkgState)
    (participant p : ParticipantId) :
    (state.addDisqualification participant).getComplaintCount p = state.getComplaintCount p := by
  unfold addDisqualification
  split <;> rfl

/-- The set holds the participants that are not disqualified. -/
theorem mem_qualSet_buildQualSet :
    p ∈ state.buildQualSet.qualSet ↔ p ∈ participants state.n ∧ p ∉ state.disqualifications := by
  rw [buildQualSet, List.mem_filter, decide_eq_true_iff]

end DkgState

/-! ## The order of complaints -/

omit [Curve] in
/-- The ids of the participants ascend. -/
theorem pairwise_participants (n : ℕ) : (participants n).Pairwise (· < ·) := by
  have hrange : ((participants n).map UInt16.toNat).Pairwise (· < ·) := by
    rw [map_toNat_participants]
    exact List.pairwise_lt_range'
  exact (List.pairwise_map.mp hrange).imp fun h => UInt16.lt_iff_toNat_lt.mpr h

/-- The ids in `1..n` that the cast in `1..=n as u16` leaves out. -/
def LeftOut (n : ℕ) (id : ParticipantId) : Prop := n % 65536 < id.toNat ∧ id.toNat ≤ n

omit [Curve] in
/-- The range consists of the ids in `1..n` that are not left out. -/
theorem mem_participants_iff_not_leftOut {n : ℕ} {id : ParticipantId} :
    id ∈ participants n ↔ (1 ≤ id.toNat ∧ id.toNat ≤ n) ∧ ¬ LeftOut n id := by
  have hid : id.toNat < 65536 := id.toNat_lt
  rw [mem_participants_iff, UInt16.toNat_ofNat', LeftOut]
  constructor
  · rintro ⟨hpos, hle⟩
    have hmod := Nat.mod_le n 65536
    exact ⟨⟨hpos, hle.trans hmod⟩, fun hout => absurd hout.1 (not_lt.mpr hle)⟩
  · rintro ⟨⟨hpos, hle⟩, hout⟩
    exact ⟨hpos, not_lt.mp fun hlt => hout ⟨hlt, hle⟩⟩

omit [Curve] in
/-- Without some parties, the range is `1..n` exactly when it leaves out only such parties. -/
theorem participants_without_iff {n : ℕ} {P : ParticipantId → Prop} :
    (∀ id, id ∈ participants n ∧ ¬ P id ↔ (1 ≤ id.toNat ∧ id.toNat ≤ n) ∧ ¬ P id) ↔
      ∀ id, LeftOut n id → P id := by
  constructor
  · intro h id hout
    by_contra hnot
    have hid : 1 ≤ id.toNat ∧ id.toNat ≤ n := ⟨by have := hout.1; omega, hout.2⟩
    have hmem := ((h id).mpr ⟨hid, hnot⟩).1
    exact (mem_participants_iff_not_leftOut.mp hmem).2 hout
  · intro hout id
    rw [mem_participants_iff_not_leftOut]
    constructor
    · rintro ⟨⟨hid, _⟩, hnot⟩
      exact ⟨hid, hnot⟩
    · rintro ⟨hid, hnot⟩
      exact ⟨⟨hid, fun h => hnot (hout id h)⟩, hnot⟩

omit [Curve] in
/-- Up to 65535 nodes nobody is left out. -/
theorem not_leftOut_of_le {n : ℕ} (hn : n ≤ 65535) (id : ParticipantId) : ¬ LeftOut n id := by
  rintro ⟨hlt, hle⟩
  rw [Nat.mod_eq_of_lt (by omega)] at hlt
  omega

/-- A message of the complaint round. -/
inductive Accusation
  | complaint (complainer accused : ParticipantId)
  | disqualification (participant : ParticipantId)
  deriving DecidableEq

/-- Whether the message is a complaint about the party. -/
def Accusation.accuses (p : ParticipantId) : Accusation → Bool
  | .complaint _ accused => accused = p
  | .disqualification _ => false

/-- Process a message; the counters are visited in the given order. -/
def DkgState.accuse (state : DkgState) (entry : Accusation × Traversal (ParticipantId × ℕ)) :
    DkgState :=
  match entry.1 with
  | .complaint complainer accused => state.addComplaint complainer accused entry.2
  | .disqualification participant => state.addDisqualification participant

/-- The party was disqualified explicitly or accused more than `f` times. -/
def Excluded (n : ℕ) (messages : List Accusation) (p : ParticipantId) : Prop :=
  .disqualification p ∈ messages ∨ (n - 1) / 3 < messages.countP (Accusation.accuses p)

instance (n : ℕ) (messages : List Accusation) : DecidablePred (Excluded n messages) :=
  fun _ => inferInstanceAs (Decidable (_ ∨ _))

/-- What two parties make of the same messages: the same ascending list of all ids in `1..n`
that are not excluded. -/
structure AgreeOnQual (n : ℕ) (messages : List Accusation) (qual qual' : List ParticipantId) :
    Prop where
  same : qual = qual'
  ascending : qual.Pairwise (· < ·)
  qualified : ∀ id, id ∈ qual ↔ (1 ≤ id.toNat ∧ id.toNat ≤ n) ∧ ¬ Excluded n messages id

section Accusations

variable {entries : List (Accusation × Traversal (ParticipantId × ℕ))}

/-- What a party has recorded after the messages. -/
theorem after_accuse (n t : ℕ) (myId : ParticipantId) (ped : PedersenSetup) (p : ParticipantId)
    (entries : List (Accusation × Traversal (ParticipantId × ℕ))) :
    let state := Run.after DkgState.accuse (DkgState.initial n t myId ped) entries
    state.n = n ∧ state.f = (n - 1) / 3 ∧
      state.getComplaintCount p = (entries.map Prod.fst).countP (Accusation.accuses p) ∧
      (p ∈ state.disqualifications ↔ Excluded n (entries.map Prod.fst) p) := by
  induction entries using List.reverseRecOn with
  | nil => simp [DkgState.initial, DkgState.getComplaintCount, Excluded]
  | append_singleton entries entry ih =>
    obtain ⟨hn, hf, hcount, hmem⟩ := ih
    obtain ⟨message, order⟩ := entry
    have hlast : Run.after DkgState.accuse (DkgState.initial n t myId ped)
        (entries ++ [(message, order)]) = (Run.after DkgState.accuse
          (DkgState.initial n t myId ped) entries).accuse (message, order) := Run.after_append _
    simp only [hlast, Excluded, List.map_append, List.map_cons, List.map_nil, List.mem_append,
      List.mem_singleton, List.countP_append, List.countP_singleton]
    cases message with
    | complaint complainer accused =>
      refine ⟨hn, hf, ?_, ?_⟩
      · rw [DkgState.accuse, DkgState.getComplaintCount_addComplaint, hcount]
        simp [Accusation.accuses]
      · rw [DkgState.accuse, DkgState.mem_disqualifications_addComplaint, hmem, hcount, hf]
        simp only [Excluded, Accusation.accuses, decide_eq_true_eq, reduceCtorEq, or_false]
        constructor
        · rintro ((hout | hmany) | hmore)
          · exact Or.inl hout
          · exact Or.inr (Nat.lt_add_right _ hmany)
          · exact Or.inr hmore
        · rintro (hout | hmore)
          · exact Or.inl (Or.inl hout)
          · exact Or.inr hmore
    | disqualification participant =>
      have hframe := (Run.after DkgState.accuse (DkgState.initial n t myId ped) entries).call_frame
        (.addDisqualification participant)
      refine ⟨hframe.2.2.1.trans hn, hframe.2.2.2.1.trans hf, ?_, ?_⟩
      · rw [DkgState.accuse, DkgState.getComplaintCount_addDisqualification, hcount]
        simp [Accusation.accuses]
      · rw [DkgState.accuse, DkgState.mem_disqualifications_addDisqualification, hmem]
        simp only [Excluded, Accusation.accuses, Accusation.disqualification.injEq,
          Bool.false_eq_true, if_false, Nat.add_zero]
        exact or_right_comm

/-- Whatever the order of the messages, the range without the excluded parties is left. -/
theorem qualSet_after_accuse (n t : ℕ) (myId : ParticipantId) (ped : PedersenSetup)
    {messages : List Accusation} (hperm : (entries.map Prod.fst).Perm messages) :
    (Run.after DkgState.accuse (DkgState.initial n t myId ped) entries).buildQualSet.qualSet =
      (participants n).filter fun id => ¬ Excluded n messages id := by
  have hexcluded (id : ParticipantId) :
      Excluded n (entries.map Prod.fst) id ↔ Excluded n messages id := by
    rw [Excluded, Excluded, hperm.mem_iff, hperm.countP_eq]
  rw [DkgState.buildQualSet]
  simp only [(after_accuse n t myId ped 0 entries).1]
  refine List.filter_congr fun id _ => decide_eq_decide.mpr (not_congr ?_)
  rw [(after_accuse n t myId ped id entries).2.2.2, hexcluded]

/-- **Complaints in any order.** Parties that processed the same messages always have the same
ascending set of qualified parties. It is the right one exactly when every id that the range
leaves out is excluded. -/
theorem agreeOnQual_iff (n t t' : ℕ) (myId myId' : ParticipantId) (ped ped' : PedersenSetup)
    (entries entries' : List (Accusation × Traversal (ParticipantId × ℕ)))
    (hperm : (entries.map Prod.fst).Perm (entries'.map Prod.fst)) :
    let qual := (Run.after DkgState.accuse (DkgState.initial n t myId ped)
      entries).buildQualSet.qualSet
    let qual' := (Run.after DkgState.accuse (DkgState.initial n t' myId' ped')
      entries').buildQualSet.qualSet
    (qual = qual' ∧ qual.Pairwise (· < ·)) ∧
      (AgreeOnQual n (entries.map Prod.fst) qual qual' ↔
        ∀ id, LeftOut n id → Excluded n (entries.map Prod.fst) id) := by
  intro qual qual'
  have hqual : qual = (participants n).filter fun id => ¬ Excluded n (entries.map Prod.fst) id :=
    qualSet_after_accuse n t myId ped (List.Perm.refl _)
  have hsame : qual = qual' :=
    hqual.trans (qualSet_after_accuse n t' myId' ped' hperm.symm).symm
  have hascending : qual.Pairwise (· < ·) := by
    rw [hqual]
    exact (pairwise_participants n).filter _
  have hmem (id : ParticipantId) : id ∈ qual ↔
      id ∈ participants n ∧ ¬ Excluded n (entries.map Prod.fst) id := by
    rw [hqual, List.mem_filter, decide_eq_true_iff]
  refine ⟨⟨hsame, hascending⟩, ?_⟩
  rw [← participants_without_iff]
  constructor
  · intro hagree id
    exact (hmem id).symm.trans (hagree.qualified id)
  · intro hrange
    exact ⟨hsame, hascending, fun id => (hmem id).trans (hrange id)⟩

omit [Curve] in
/-- Two orders of the messages of four parties, seen by two of them. -/
theorem agreeOnQual_iff_four :
    letI := exponentCurve
    AgreeOnQual 4 [.complaint 2 1, .disqualification 3, .complaint 4 1]
      (Run.after DkgState.accuse (DkgState.initial 4 1 2 PedersenSetup.deterministic)
        [(.complaint 2 1, .insertionOrder), (.disqualification 3, .insertionOrder),
          (.complaint 4 1, .insertionOrder)]).buildQualSet.qualSet
      (Run.after DkgState.accuse (DkgState.initial 4 1 4 PedersenSetup.deterministic)
        [(.complaint 4 1, .insertionOrder), (.complaint 2 1, .insertionOrder),
          (.disqualification 3, .insertionOrder)]).buildQualSet.qualSet := by
  let := exponentCurve
  refine (agreeOnQual_iff 4 1 1 2 4 PedersenSetup.deterministic PedersenSetup.deterministic
    [(.complaint 2 1, .insertionOrder), (.disqualification 3, .insertionOrder),
      (.complaint 4 1, .insertionOrder)] _ (by decide)).2.mpr ?_
  exact fun id hout => absurd hout (not_leftOut_of_le (by norm_num) id)

omit [Curve] in
/-- Among 65537 parties the range ends at the id 1, and nobody else is qualified. -/
theorem left_out_not_qualified :
    letI := exponentCurve
    ¬ ∀ (n t t' : ℕ) (myId myId' : ParticipantId) (ped ped' : PedersenSetup)
      (state state' : DkgState)
      (entries entries' : List (Accusation × Traversal (ParticipantId × ℕ))),
      (DkgState.new n t myId ped : Outcome CryptoError DkgState) = .ok state →
      (DkgState.new n t' myId' ped' : Outcome CryptoError DkgState) = .ok state' →
      (entries.map Prod.fst).Perm (entries'.map Prod.fst) →
      AgreeOnQual n (entries.map Prod.fst)
        (Run.after DkgState.accuse state entries).buildQualSet.qualSet
        (Run.after DkgState.accuse state' entries').buildQualSet.qualSet := by
  let := exponentCurve
  intro h
  have hnew : (DkgState.new 65537 1 1 PedersenSetup.deterministic : Outcome CryptoError DkgState) =
      .ok (DkgState.initial 65537 1 1 PedersenSetup.deterministic) := rfl
  have hagree := h 65537 1 1 1 1 _ _ _ _ [] [] hnew hnew (List.Perm.refl _)
  have hqual := (hagree.qualified 2).mpr ⟨by decide, by simp [Excluded]⟩
  have hrange := (DkgState.mem_qualSet_buildQualSet.mp hqual).1
  exact (mem_participants_iff_not_leftOut.mp hrange).2 ⟨by decide, by decide⟩

end Accusations

/-! ## The derived set over all calls -/

/-- A party together with whether the set of qualified parties was ever built. -/
structure QualHistory where
  state : DkgState
  built : Bool

/-- Whether the call builds the set of qualified parties. -/
def DkgState.builds (state : DkgState) : DkgCall → Bool
  | .buildQualSet => true
  | .finalize => true
  | .addDisqualification participant => participant ∉ state.disqualifications
  | _ => false

namespace QualHistory

def start (n t : ℕ) (myId : ParticipantId) (ped : PedersenSetup) : QualHistory where
  state := DkgState.initial n t myId ped
  built := false

def call (history : QualHistory) (call : DkgCall) : QualHistory where
  state := history.state.call call
  built := history.built || history.state.builds call

end QualHistory

/-- The party that contributed a term. -/
def DkgState.partyOf (state : DkgState) : Contributor → ParticipantId
  | .own => state.myId
  | .sender id => id

/-- The set of qualified parties, the revealed keys and the terms of the collective key
agree with the disqualifications. -/
structure QualConsistent (state : DkgState) : Prop where
  ascending : state.qualSet.Pairwise (· < ·)
  qualified : ∀ id, id ∈ state.qualSet ↔
    (1 ≤ id.toNat ∧ id.toNat ≤ state.n) ∧ id ∉ state.disqualifications
  revealed : ∀ id ∈ state.qualPublicKeys.map Prod.fst, id ∈ state.qualSet
  once : (state.qualPublicKeys.map Prod.fst).Nodup
  keys : ∀ c ∈ state.keyTerms.map Prod.fst, state.partyOf c ∉ state.disqualifications

/-- Consistent from the first build on. -/
def QualHistory.Consistent (history : QualHistory) : Prop :=
  history.built = true → QualConsistent history.state

/-- A call that keeps the built set up to date: no complaint disqualifies a qualified party, no
disqualification hits a party whose key was revealed, nobody's key is revealed twice, and a build
leaves out no id that is not disqualified. -/
def QualGuarded (history : QualHistory) : DkgCall → Prop
  | .addComplaint _ accused _ => history.built = true → accused ∈ history.state.qualSet →
      history.state.getComplaintCount accused + 1 ≤ history.state.f
  | .addDisqualification participant => participant ∉ history.state.disqualifications →
      participant ∉ history.state.qualPublicKeys.map Prod.fst ∧
      ∀ id, LeftOut history.state.n id → id ∈ history.state.disqualifications ∨ id = participant
  | .buildQualSet => ∀ id, LeftOut history.state.n id → id ∈ history.state.disqualifications
  | .finalize => ∀ id, LeftOut history.state.n id → id ∈ history.state.disqualifications
  | .addQualReveal sender _ => sender ∈ history.state.qualSet →
      sender ∉ history.state.qualPublicKeys.map Prod.fst
  | _ => True

/-- What holds in every state: a party with more than `f` complaints is disqualified, and
before the first build nobody is qualified and no key is revealed. -/
structure QualHistory.Valid (history : QualHistory) : Prop where
  counted : ∀ id, history.state.f < history.state.getComplaintCount id →
    id ∈ history.state.disqualifications
  unbuilt : history.built = false →
    history.state.qualSet = [] ∧ history.state.qualPublicKeys = []

section Calls

variable {state next : DkgState} {history : QualHistory}

/-- A call that has nothing to do with qualification. -/
structure SameQual (state next : DkgState) : Prop where
  n : next.n = state.n
  f : next.f = state.f
  complaintsReceived : next.complaintsReceived = state.complaintsReceived
  disqualifications : next.disqualifications = state.disqualifications
  qualSet : next.qualSet = state.qualSet
  qualPublicKeys : next.qualPublicKeys = state.qualPublicKeys

/-- A start changes nothing about who is qualified. -/
theorem SameQual.start (state : DkgState) (coins : ℕ → Scalar) :
    SameQual state (state.call (.start coins)) := ⟨rfl, rfl, rfl, rfl, rfl, rfl⟩

/-- Neither does a commit. -/
theorem SameQual.processParticipantCommit (state : DkgState) (sender : ParticipantId)
    (publicKey : G2Point) (pop : G1Point) (vssPublic : VssPublic) :
    SameQual state (state.call (.processParticipantCommit sender publicKey pop vssPublic)) := by
  rw [DkgState.call_processParticipantCommit]
  split <;> exact ⟨rfl, rfl, rfl, rfl, rfl, rfl⟩

/-- Neither does a share. -/
theorem SameQual.processReceivedShare (state : DkgState) (sender : ParticipantId)
    (share : VssShare) : SameQual state (state.call (.processReceivedShare sender share)) := by
  rcases state.call_processReceivedShare sender share with ⟨_, hcall⟩ | ⟨_, hcall⟩
  · rw [hcall]
    exact ⟨rfl, rfl, rfl, rfl, rfl, rfl⟩
  · rw [hcall]
    exact ⟨rfl, rfl, rfl, rfl, rfl, rfl⟩

/-- Once the set is built, finishing changes nothing about who is qualified. -/
theorem finalize_sameQual (state : DkgState) : SameQual state.buildQualSet state.finalize.2 := by
  obtain ⟨round, hround⟩ := state.finalize_state
  rw [hround]
  exact ⟨rfl, rfl, rfl, rfl, rfl, rfl⟩

/-- Nor does a call that leaves the state as it is. -/
theorem SameQual.of_eq (h : next = state) : SameQual state next := by
  rw [h]
  exact ⟨rfl, rfl, rfl, rfl, rfl, rfl⟩

/-- A reveal of a qualified participant is added. -/
theorem call_addQualReveal_of_mem {sender : ParticipantId} (h : sender ∈ state.qualSet)
    (publicKey : G2Point) : state.call (.addQualReveal sender publicKey) =
      { state with qualPublicKeys := state.qualPublicKeys ++ [(sender, publicKey)] } := if_pos h

/-- Any other is ignored. -/
theorem call_addQualReveal_of_notMem {sender : ParticipantId} (h : sender ∉ state.qualSet)
    (publicKey : G2Point) : state.call (.addQualReveal sender publicKey) = state := if_neg h

/-- A second disqualification changes nothing. -/
theorem call_addDisqualification_of_mem {participant : ParticipantId}
    (h : participant ∈ state.disqualifications) :
    state.call (.addDisqualification participant) = state := if_neg (not_not.mpr h)

/-- Every term of the collective key is contributed by a qualified party. -/
theorem partyOf_mem_qualSet {c : Contributor} (hc : c ∈ state.keyTerms.map Prod.fst) :
    state.partyOf c ∈ state.qualSet := by
  obtain ⟨⟨c, key⟩, hterm, rfl⟩ := List.mem_map.mp hc
  rcases List.mem_append.mp hterm with hown | hsender
  · split at hown
    · rename_i hmem
      cases hpk : state.myPublicKey with
      | none => simp [hpk] at hown
      | some myPk =>
        obtain ⟨rfl, rfl⟩ : c = .own ∧ key = myPk := by simpa [hpk] using hown
        exact hmem
    · cases hown
  · obtain ⟨entry, hentry, heq⟩ := List.mem_map.mp hsender
    cases heq
    exact of_decide_eq_true (List.mem_filter.mp hentry).2

/-- The sums take care of themselves. -/
theorem QualConsistent.of_qualified (hascending : state.qualSet.Pairwise (· < ·))
    (hqualified : ∀ id, id ∈ state.qualSet ↔
      (1 ≤ id.toNat ∧ id.toNat ≤ state.n) ∧ id ∉ state.disqualifications)
    (hrevealed : ∀ id ∈ state.qualPublicKeys.map Prod.fst, id ∈ state.qualSet)
    (honce : (state.qualPublicKeys.map Prod.fst).Nodup) : QualConsistent state where
  ascending := hascending
  qualified := hqualified
  revealed := hrevealed
  once := honce
  keys _ hc := ((hqualified _).mp (partyOf_mem_qualSet hc)).2

/-- A call that has nothing to do with qualification keeps the set consistent. -/
theorem QualConsistent.of_sameQual (h : QualConsistent state) (hsame : SameQual state next) :
    QualConsistent next := by
  refine .of_qualified ?_ ?_ ?_ ?_
  · rw [hsame.qualSet]
    exact h.ascending
  · rw [hsame.qualSet, hsame.n, hsame.disqualifications]
    exact h.qualified
  · rw [hsame.qualSet, hsame.qualPublicKeys]
    exact h.revealed
  · rw [hsame.qualPublicKeys]
    exact h.once

/-- The complaints disqualify alike. -/
theorem SameQual.counted (h : SameQual state next)
    (hcounted : ∀ id, state.f < state.getComplaintCount id → id ∈ state.disqualifications) :
    ∀ id, next.f < next.getComplaintCount id → id ∈ next.disqualifications := by
  intro id hid
  rw [DkgState.getComplaintCount, h.f, h.complaintsReceived] at hid
  rw [h.disqualifications]
  exact hcounted id hid

/-- It does not matter which of the two states comes first. -/
theorem SameQual.symm (h : SameQual state next) : SameQual next state :=
  ⟨h.n.symm, h.f.symm, h.complaintsReceived.symm, h.disqualifications.symm, h.qualSet.symm,
    h.qualPublicKeys.symm⟩

/-- A right set that was just built leaves out only disqualified parties. -/
theorem QualConsistent.leftOut_disqualified (h : QualConsistent state.buildQualSet)
    {id : ParticipantId} (hout : LeftOut state.n id) : id ∈ state.disqualifications := by
  refine participants_without_iff.mp (fun other => ?_) id hout
  exact DkgState.mem_qualSet_buildQualSet.symm.trans (h.qualified other)

/-- A set that leaves out only disqualified parties is right once it is built. -/
theorem qualConsistent_buildQualSet
    (hout : ∀ id, LeftOut state.n id → id ∈ state.disqualifications)
    (hrevealed : ∀ id ∈ state.qualPublicKeys.map Prod.fst,
      (1 ≤ id.toNat ∧ id.toNat ≤ state.n) ∧ id ∉ state.disqualifications)
    (honce : (state.qualPublicKeys.map Prod.fst).Nodup) : QualConsistent state.buildQualSet := by
  have hqualified (id : ParticipantId) : id ∈ state.buildQualSet.qualSet ↔
      (1 ≤ id.toNat ∧ id.toNat ≤ state.n) ∧ id ∉ state.disqualifications :=
    DkgState.mem_qualSet_buildQualSet.trans (participants_without_iff.mpr hout id)
  exact .of_qualified ((pairwise_participants state.n).filter _) hqualified
    (fun id hid => (hqualified id).mpr (hrevealed id hid)) honce

namespace QualHistory

/-- The revealed keys of a consistent party are those of qualified ids, each once. -/
theorem Consistent.revealed (h : history.Consistent) (hvalid : history.Valid) :
    (∀ id ∈ history.state.qualPublicKeys.map Prod.fst,
      (1 ≤ id.toNat ∧ id.toNat ≤ history.state.n) ∧ id ∉ history.state.disqualifications) ∧
      (history.state.qualPublicKeys.map Prod.fst).Nodup := by
  cases hbuilt : history.built with
  | false => simp [(hvalid.unbuilt hbuilt).2]
  | true =>
    have hconsistent := h hbuilt
    exact ⟨fun id hid => (hconsistent.qualified id).mp (hconsistent.revealed id hid),
      hconsistent.once⟩

/-- A set with members has been built. -/
theorem Valid.built_of_mem (h : history.Valid) {id : ParticipantId}
    (hmem : id ∈ history.state.qualSet) : history.built = true := by
  by_contra hnot
  rw [(h.unbuilt (Bool.eq_false_iff.mpr hnot)).1] at hmem
  cases hmem

/-- A call that has nothing to do with qualification keeps what holds. -/
theorem Valid.of_sameQual {next : QualHistory} (h : history.Valid)
    (hsame : SameQual history.state next.state) (hbuilt : next.built = history.built) :
    next.Valid := by
  refine ⟨hsame.counted h.counted, ?_⟩
  intro hfalse
  rw [hsame.qualSet, hsame.qualPublicKeys]
  exact h.unbuilt (hbuilt.symm.trans hfalse)

/-- What building the set, with or without finishing, keeps. -/
theorem Valid.of_build {next : QualHistory} (h : history.Valid)
    (hsame : SameQual history.state.buildQualSet next.state) (hbuilt : next.built = true) :
    next.Valid := by
  refine ⟨hsame.counted h.counted, ?_⟩
  intro hfalse
  rw [hbuilt] at hfalse
  cases hfalse

/-- Every call keeps a history valid. -/
theorem Valid.call (h : history.Valid) (call : DkgCall) : (history.call call).Valid := by
  cases call with
  | start coins => exact h.of_sameQual (.start _ _) (Bool.or_false _)
  | processParticipantCommit sender publicKey pop vssPublic =>
    exact h.of_sameQual (.processParticipantCommit _ _ _ _ _) (Bool.or_false _)
  | processReceivedShare sender share =>
    exact h.of_sameQual (.processReceivedShare _ _ _) (Bool.or_false _)
  | addComplaint complainer accused order =>
    constructor
    · intro id hid
      have hcount := history.state.getComplaintCount_addComplaint complainer accused id order
      exact DkgState.mem_disqualifications_addComplaint.mpr (Or.inr (hcount ▸ hid))
    · intro hbuilt
      exact h.unbuilt (Bool.or_eq_false_iff.mp hbuilt).1
  | addDisqualification participant =>
    constructor
    · intro id hid
      have hcount := history.state.getComplaintCount_addDisqualification participant id
      have hf := (history.state.call_frame (.addDisqualification participant)).2.2.2.1
      have hmany : history.state.f < history.state.getComplaintCount id := hcount ▸ hf ▸ hid
      exact DkgState.mem_disqualifications_addDisqualification.mpr (Or.inl (h.counted id hmany))
    · intro hbuilt
      obtain ⟨hunbuilt, hold⟩ := Bool.or_eq_false_iff.mp hbuilt
      have hkept : (history.call (.addDisqualification participant)).state = history.state :=
        call_addDisqualification_of_mem (not_not.mp (of_decide_eq_false hold))
      rw [hkept]
      exact h.unbuilt hunbuilt
  | buildQualSet => exact h.of_build ⟨rfl, rfl, rfl, rfl, rfl, rfl⟩ (Bool.or_true _)
  | addQualReveal sender publicKey =>
    by_cases hmem : sender ∈ history.state.qualSet
    · constructor
      · intro id hid
        have hstate : (history.call (.addQualReveal sender publicKey)).state = _ :=
          call_addQualReveal_of_mem hmem publicKey
        rw [hstate] at hid ⊢
        exact h.counted id hid
      · intro hfalse
        have hunbuilt := (Bool.or_eq_false_iff.mp hfalse).1
        rw [h.built_of_mem hmem] at hunbuilt
        cases hunbuilt
    · exact h.of_sameQual (.of_eq (call_addQualReveal_of_notMem hmem publicKey)) (Bool.or_false _)
  | finalize => exact h.of_build (finalize_sameQual _) (Bool.or_true _)

/-! ## Single calls and the derived set -/

/-- A call that neither builds the set nor touches it keeps it consistent. -/
theorem Consistent.of_sameQual {next : QualHistory} (h : history.Consistent)
    (hsame : SameQual history.state next.state) (hbuilt : next.built = history.built) :
    next.Consistent := fun hnext => (h (hbuilt.symm.trans hnext)).of_sameQual hsame

/-- A complaint keeps a history consistent just if it is guarded. -/
theorem consistent_addComplaint_iff (hvalid : history.Valid) (h : history.Consistent)
    (complainer accused : ParticipantId) (order : Traversal (ParticipantId × ℕ)) :
    (history.call (.addComplaint complainer accused order)).Consistent ↔
      QualGuarded history (.addComplaint complainer accused order) := by
  have hdisqualified {id : ParticipantId} : id ∈ (history.call
      (.addComplaint complainer accused order)).state.disqualifications ↔
        id ∈ history.state.disqualifications ∨
          history.state.f < history.state.getComplaintCount id + if accused = id then 1 else 0 :=
    DkgState.mem_disqualifications_addComplaint
  constructor
  · intro hnext hbuilt hmem
    by_contra hmany
    have hconsistent := hnext (by rw [call, hbuilt, Bool.true_or])
    refine ((hconsistent.qualified accused).mp hmem).2 (hdisqualified.mpr (Or.inr ?_))
    rw [if_pos rfl]
    exact not_le.mp hmany
  · intro hguard hnext
    have hbuilt : history.built = true := (Bool.or_false _).symm.trans hnext
    have hold := h hbuilt
    refine .of_qualified hold.ascending (fun id => ?_) hold.revealed hold.once
    rw [hdisqualified]
    refine (hold.qualified id).trans (and_congr_right fun hid => not_congr ?_)
    refine ⟨Or.inl, ?_⟩
    rintro (hin | hmany)
    · exact hin
    by_contra hnot
    by_cases haccused : accused = id
    · subst haccused
      have hfew := hguard hbuilt ((hold.qualified accused).mpr ⟨hid, hnot⟩)
      rw [if_pos rfl] at hmany
      omega
    · rw [if_neg haccused, Nat.add_zero] at hmany
      exact hnot (hvalid.counted id hmany)

/-- So does a disqualification. -/
theorem consistent_addDisqualification_iff (hvalid : history.Valid) (h : history.Consistent)
    (participant : ParticipantId) :
    (history.call (.addDisqualification participant)).Consistent ↔
      QualGuarded history (.addDisqualification participant) := by
  by_cases hmem : participant ∈ history.state.disqualifications
  · have hbuilds : history.state.builds (.addDisqualification participant) = false :=
      decide_eq_false (not_not.mpr hmem)
    have hbuilt : (history.call (.addDisqualification participant)).built = history.built := by
      rw [call, hbuilds, Bool.or_false]
    exact iff_of_true (h.of_sameQual (.of_eq (call_addDisqualification_of_mem hmem)) hbuilt)
      (fun hnot => absurd hmem hnot)
  · let added : DkgState := { history.state with
      disqualifications := history.state.disqualifications ++ [participant] }
    have hadded (id : ParticipantId) : id ∈ added.disqualifications ↔
        id ∈ history.state.disqualifications ∨ id = participant :=
      List.mem_append.trans (or_congr_right List.mem_singleton)
    have hstate : (history.call (.addDisqualification participant)).state = added.buildQualSet :=
      if_pos hmem
    have hbuilds : history.state.builds (.addDisqualification participant) = true :=
      decide_eq_true hmem
    have hnext : (history.call (.addDisqualification participant)).Consistent ↔
        QualConsistent added.buildQualSet := by
      have hbuilt : (history.call (.addDisqualification participant)).built = true := by
        rw [call, hbuilds, Bool.or_true]
      rw [Consistent, hstate]
      exact imp_iff_right hbuilt
    rw [hnext]
    constructor
    · intro hconsistent _
      refine ⟨fun hrevealed => ?_, fun id hout =>
        (hadded id).mp (hconsistent.leftOut_disqualified hout)⟩
      have hqual := (hconsistent.qualified participant).mp
        (hconsistent.revealed participant hrevealed)
      exact hqual.2 ((hadded participant).mpr (Or.inr rfl))
    · intro hguard
      obtain ⟨hunrevealed, hout⟩ := hguard hmem
      obtain ⟨hrevealed, honce⟩ := h.revealed hvalid
      refine qualConsistent_buildQualSet (fun id hid => (hadded id).mpr (hout id hid)) ?_ honce
      intro id hid
      refine ⟨(hrevealed id hid).1, fun hin => ?_⟩
      rcases (hadded id).mp hin with hold | rfl
      · exact (hrevealed id hid).2 hold
      · exact hunrevealed hid

/-- Building the set, with or without finishing. -/
theorem consistent_build_iff {next : QualHistory} (hvalid : history.Valid)
    (h : history.Consistent) (hsame : SameQual history.state.buildQualSet next.state)
    (hbuilt : next.built = true) :
    next.Consistent ↔
      ∀ id, LeftOut history.state.n id → id ∈ history.state.disqualifications := by
  constructor
  · intro hnext id hout
    exact ((hnext hbuilt).of_sameQual hsame.symm).leftOut_disqualified hout
  · intro hout _
    obtain ⟨hrevealed, honce⟩ := h.revealed hvalid
    exact (qualConsistent_buildQualSet hout hrevealed honce).of_sameQual hsame

/-- So does a reveal. -/
theorem consistent_addQualReveal_iff (hvalid : history.Valid) (h : history.Consistent)
    (sender : ParticipantId) (publicKey : G2Point) :
    (history.call (.addQualReveal sender publicKey)).Consistent ↔
      QualGuarded history (.addQualReveal sender publicKey) := by
  by_cases hmem : sender ∈ history.state.qualSet
  · have hbuilt := hvalid.built_of_mem hmem
    have hold := h hbuilt
    have hstate : (history.call (.addQualReveal sender publicKey)).state = _ :=
      call_addQualReveal_of_mem hmem publicKey
    have hkeys : (history.call (.addQualReveal sender publicKey)).state.qualPublicKeys.map
        Prod.fst = history.state.qualPublicKeys.map Prod.fst ++ [sender] := by
      rw [hstate, List.map_append, List.map_cons, List.map_nil]
    constructor
    · intro hnext _
      have honce := (hnext (by rw [call, hbuilt, Bool.true_or])).once
      rw [hkeys] at honce
      exact fun hin => (List.nodup_append.mp honce).2.2 sender hin sender
        (List.mem_singleton_self _) rfl
    · intro hguard _
      have hqualSet : (history.call (.addQualReveal sender publicKey)).state.qualSet =
          history.state.qualSet := by rw [hstate]
      refine .of_qualified ?_ ?_ ?_ ?_
      · rw [hqualSet]
        exact hold.ascending
      · rw [hstate]
        exact hold.qualified
      · rw [hkeys, hqualSet]
        intro id hid
        rcases List.mem_append.mp hid with hin | hlast
        · exact hold.revealed id hin
        · rwa [List.mem_singleton.mp hlast]
      · rw [hkeys]
        refine List.nodup_append.mpr ⟨hold.once, List.nodup_singleton _, ?_⟩
        rintro a ha b hb rfl
        exact hguard hmem (List.mem_singleton.mp hb ▸ ha)
  · have hsame := SameQual.of_eq (call_addQualReveal_of_notMem hmem publicKey)
    exact iff_of_true (h.of_sameQual hsame (Bool.or_false _)) (fun hin => absurd hin hmem)

/-- A call keeps the derived set consistent exactly when it is guarded. -/
theorem consistent_call_iff (hvalid : history.Valid) (h : history.Consistent) (call : DkgCall) :
    (history.call call).Consistent ↔ QualGuarded history call := by
  cases call with
  | start coins => exact iff_of_true (h.of_sameQual (.start _ _) (Bool.or_false _)) trivial
  | processParticipantCommit sender publicKey pop vssPublic =>
    exact iff_of_true
      (h.of_sameQual (.processParticipantCommit _ _ _ _ _) (Bool.or_false _)) trivial
  | processReceivedShare sender share =>
    exact iff_of_true (h.of_sameQual (.processReceivedShare _ _ _) (Bool.or_false _)) trivial
  | addComplaint complainer accused order => exact consistent_addComplaint_iff hvalid h _ _ _
  | addDisqualification participant => exact consistent_addDisqualification_iff hvalid h _
  | buildQualSet =>
    exact consistent_build_iff hvalid h ⟨rfl, rfl, rfl, rfl, rfl, rfl⟩ (Bool.or_true _)
  | addQualReveal sender publicKey => exact consistent_addQualReveal_iff hvalid h _ _
  | finalize => exact consistent_build_iff hvalid h (finalize_sameQual _) (Bool.or_true _)

/-- A history starts valid. -/
theorem valid_start (n t : ℕ) (myId : ParticipantId) (ped : PedersenSetup) :
    (start n t myId ped).Valid where
  counted _ hid := absurd hid (Nat.not_lt_zero _)
  unbuilt _ := ⟨rfl, rfl⟩

/-- **The derived set.** From a new party on, the set of qualified parties agrees with the
disqualifications in every state after the first build exactly when every call is guarded. -/
theorem consistent_throughout_iff (n t : ℕ) (myId : ParticipantId) (ped : PedersenSetup)
    (calls : List DkgCall) :
    Run.Throughout call Consistent (start n t myId ped) calls ↔
      Run.Guarded call QualGuarded (start n t myId ped) calls := by
  have hvalid : Run.Throughout call Valid (start n t myId ped) calls :=
    Run.throughout_of_step (fun _ a h => h.call a) (valid_start n t myId ped)
  refine Run.throughout_iff_guarded_of (H := fun history _ => history.Valid)
    (fun history a h hvalid => consistent_call_iff hvalid h a) ?_ hvalid.guarded
  intro hbuilt
  cases hbuilt

omit [Curve] in
/-- Two complaints after the build disqualify a party of four that stays in the set. -/
theorem complaints_after_build :
    letI := exponentCurve
    ¬ ∀ (n t : ℕ) (myId : ParticipantId) (ped : PedersenSetup) (state : DkgState)
      (calls : List DkgCall),
      (DkgState.new n t myId ped : Outcome CryptoError DkgState) = .ok state →
      Run.Throughout call Consistent ⟨state, false⟩ calls := by
  let := exponentCurve
  intro h
  have hnew : (DkgState.new 4 1 1 PedersenSetup.deterministic : Outcome CryptoError DkgState) =
      .ok (DkgState.initial 4 1 1 PedersenSetup.deterministic) := rfl
  have hconsistent := (h 4 1 1 PedersenSetup.deterministic _
    [.buildQualSet, .addComplaint 2 1 .insertionOrder, .addComplaint 3 1 .insertionOrder]
    hnew).last rfl
  have hdisqualified := ((hconsistent.qualified 1).mp (by decide)).2
  exact hdisqualified (by decide)

end QualHistory

end Calls

end Sigimora
