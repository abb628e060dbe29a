import Sigimora.Crypto.Dkg
import Sigimora.Library.Run

/-!
# Calls on a party

Complaints, disqualifications and revealed keys, and everything that can be
called on the state of a party as one step function. Complaints are counted per
accused party in a hash map, which is traversed in an arbitrary order.
-/

namespace Sigimora

open Pedersen

/-- An order in which a hash map with the given entries is traversed. -/
structure Traversal (α : Type) where
  arrange : List α → List α
  perm : ∀ entries, (arrange entries).Perm entries

/-- The traversal in the order of the insertions. -/
def Traversal.insertionOrder {α : Type} : Traversal α where
  arrange := id
  perm := List.Perm.refl

/-- Increment the counter of the accused, which starts at zero. -/
def countComplaint (counts : List (ParticipantId × ℕ)) (accused : ParticipantId) :
    List (ParticipantId × ℕ) :=
  match counts with
  | [] => [(accused, 1)]
  | (id, count) :: rest =>
    if id = accused then (id, count + 1) :: rest else (id, count) :: countComplaint rest accused

/-- The number of complaints about each accused party. -/
def complaintCounts (complaints : List (ParticipantId × ParticipantId)) :
    List (ParticipantId × ℕ) :=
  complaints.foldl (fun counts complaint => countComplaint counts complaint.2) []

variable [Curve]

namespace DkgState

/-- Disqualify everybody with more than `f` complaints. -/
def checkDisqualification (state : DkgState) (order : Traversal (ParticipantId × ℕ)) : DkgState :=
  { state with
    disqualifications := (order.arrange (complaintCounts state.complaintsReceived)).foldl
      (fun disqualified entry =>
        if entry.2 > state.f ∧ entry.1 ∉ disqualified then disqualified ++ [entry.1]
        else disqualified) state.disqualifications }

/-- Record a complaint. -/
def addComplaint (state : DkgState) (complainer accused : ParticipantId)
    (order : Traversal (ParticipantId × ℕ)) : DkgState :=
  { state with
    complaintsReceived := state.complaintsReceived ++ [(complainer, accused)]
    : DkgState }.checkDisqualification order

/-- Record the revealed key of a qualified party. -/
def addQualReveal (state : DkgState) (sender : ParticipantId) (publicKey : G2Point) : DkgState :=
  if sender ∈ state.qualSet then
    { state with qualPublicKeys := state.qualPublicKeys ++ [(sender, publicKey)] }
  else state

/-- Disqualify a party at once. -/
def addDisqualification (state : DkgState) (participant : ParticipantId) : DkgState :=
  if participant ∉ state.disqualifications then
    { state with
      disqualifications := state.disqualifications ++ [participant] : DkgState }.buildQualSet
  else state

/-- The number of complaints about the participant. -/
def getComplaintCount (state : DkgState) (participant : ParticipantId) : ℕ :=
  (state.complaintsReceived.filter fun complaint => complaint.2 = participant).length

end DkgState

/-- The calls that change the state of a party. -/
inductive DkgCall
  | start (coins : ℕ → Scalar)
  | processParticipantCommit (sender : ParticipantId) (publicKey : G2Point) (pop : G1Point)
    (vssPublic : VssPublic)
  | processReceivedShare (sender : ParticipantId) (share : VssShare)
  | addComplaint (complainer accused : ParticipantId) (order : Traversal (ParticipantId × ℕ))
  | addDisqualification (participant : ParticipantId)
  | buildQualSet
  | addQualReveal (sender : ParticipantId) (publicKey : G2Point)
  | finalize

/-- The calls that deliver a message of another party. -/
def DkgCall.isMessage : DkgCall → Bool
  | .processParticipantCommit _ _ _ _ => true
  | .processReceivedShare _ _ => true
  | _ => false

/-- The state that a fallible call leaves, which is the old one when the call fails. -/
def DkgState.orElse (state : DkgState) (result : Outcome CryptoError DkgState) : DkgState :=
  match result with
  | .ok next => next
  | .error _ => state

/-- The state after a call, whether the call succeeds or not. -/
def DkgState.call (state : DkgState) : DkgCall → DkgState
  | .start coins => state.start coins
  | .processParticipantCommit sender publicKey pop vssPublic =>
    state.orElse (state.processParticipantCommit sender publicKey pop vssPublic)
  | .processReceivedShare sender share => state.orElse (state.processReceivedShare sender share)
  | .addComplaint complainer accused order => state.addComplaint complainer accused order
  | .addDisqualification participant => state.addDisqualification participant
  | .buildQualSet => state.buildQualSet
  | .addQualReveal sender publicKey => state.addQualReveal sender publicKey
  | .finalize => state.finalize.2

/-! ## Counting complaints -/

omit [Curve] in
/-- Counting a complaint adds the accused, if it is new. -/
theorem map_fst_countComplaint (counts : List (ParticipantId × ℕ)) (accused : ParticipantId) :
    (countComplaint counts accused).map Prod.fst =
      if accused ∈ counts.map Prod.fst then counts.map Prod.fst
      else counts.map Prod.fst ++ [accused] := by
  induction counts with
  | nil => rfl
  | cons entry counts ih =>
    unfold countComplaint
    by_cases hid : entry.1 = accused
    · simp [hid]
    · rw [if_neg hid, List.map_cons, ih]
      by_cases hmem : accused ∈ counts.map Prod.fst
      · simp only [List.map_cons, if_pos hmem, if_pos (List.mem_cons_of_mem _ hmem)]
      · have hnew : accused ∉ entry.1 :: counts.map Prod.fst := by
          simp only [List.mem_cons, hmem, or_false]
          exact Ne.symm hid
        simp only [List.map_cons, if_neg hmem, if_neg hnew, List.cons_append]

omit [Curve] in
/-- One more complaint raises the counter of the accused and no other. -/
theorem mem_countComplaint {counts : List (ParticipantId × ℕ)}
    (hnodup : (counts.map Prod.fst).Nodup) {accused id : ParticipantId} {count : ℕ} :
    (id, count) ∈ countComplaint counts accused ↔
      if id = accused then
        (id ∉ counts.map Prod.fst ∧ count = 1) ∨ ∃ k, (id, k) ∈ counts ∧ count = k + 1
      else (id, count) ∈ counts := by
  induction counts with
  | nil => by_cases hid : id = accused <;> simp [countComplaint, hid]
  | cons entry counts ih =>
    obtain ⟨hnew, hrest⟩ := List.nodup_cons.mp hnodup
    have hfst (k : ℕ) (h : (id, k) ∈ counts) : id ∈ counts.map Prod.fst :=
      List.mem_map.mpr ⟨_, h, rfl⟩
    obtain ⟨other, total⟩ := entry
    unfold countComplaint
    by_cases hother : other = accused
    · subst hother
      rw [if_pos rfl]
      by_cases hid : id = other
      · subst hid
        have hnone (k : ℕ) : (id, k) ∉ counts := fun h => hnew (hfst k h)
        simp [hnone]
      · simp [hid]
    · rw [if_neg hother, List.mem_cons, ih hrest]
      by_cases hid : id = accused
      · subst hid
        have hne : ¬ id = other := Ne.symm hother
        simp [hne]
      · simp [hid]

omit [Curve] in
/-- A further complaint is counted on top of the others. -/
theorem complaintCounts_append (complaints : List (ParticipantId × ParticipantId))
    (complaint : ParticipantId × ParticipantId) :
    complaintCounts (complaints ++ [complaint]) =
      countComplaint (complaintCounts complaints) complaint.2 := by
  rw [complaintCounts, List.foldl_append, List.foldl_cons, List.foldl_nil, complaintCounts]

omit [Curve] in
/-- Every accused party has one count. -/
theorem nodup_complaintCounts (complaints : List (ParticipantId × ParticipantId)) :
    ((complaintCounts complaints).map Prod.fst).Nodup := by
  induction complaints using List.reverseRecOn with
  | nil => exact List.nodup_nil
  | append_singleton complaints complaint ih =>
    rw [complaintCounts_append, map_fst_countComplaint]
    split
    · exact ih
    · rename_i hnew
      refine List.nodup_append.mpr ⟨ih, List.nodup_singleton _, ?_⟩
      intro a ha b hb
      rw [List.mem_singleton.mp hb]
      rintro rfl
      exact hnew ha

omit [Curve] in
/-- The counter of a party is the number of complaints about it, if there are any. -/
theorem mem_complaintCounts {complaints : List (ParticipantId × ParticipantId)}
    {id : ParticipantId} {count : ℕ} :
    (id, count) ∈ complaintCounts complaints ↔
      count = (complaints.filter fun complaint => complaint.2 = id).length ∧ 0 < count := by
  induction complaints using List.reverseRecOn generalizing count with
  | nil => simp [complaintCounts]
  | append_singleton complaints complaint ih =>
    have hkey : id ∈ (complaintCounts complaints).map Prod.fst ↔
        0 < (complaints.filter fun complaint => complaint.2 = id).length := by
      constructor
      · intro h
        obtain ⟨⟨other, k⟩, hentry, rfl⟩ := List.mem_map.mp h
        obtain ⟨heq, hk⟩ := ih.mp hentry
        exact heq ▸ hk
      · intro h
        exact List.mem_map.mpr ⟨(id, _), ih.mpr ⟨rfl, h⟩, rfl⟩
    rw [complaintCounts_append, mem_countComplaint (nodup_complaintCounts complaints),
      List.filter_append, List.length_append]
    by_cases hid : id = complaint.2
    · have hlast : ([complaint].filter fun complaint => complaint.2 = id).length = 1 := by
        simp [hid]
      rw [if_pos hid, hkey, hlast]
      constructor
      · rintro (⟨hnone, rfl⟩ | ⟨k, hk, rfl⟩)
        · omega
        · have := ih.mp hk
          omega
      · rintro ⟨rfl, _⟩
        by_cases hsome : 0 < (complaints.filter fun complaint => complaint.2 = id).length
        · exact Or.inr ⟨_, ih.mpr ⟨rfl, hsome⟩, rfl⟩
        · exact Or.inl ⟨hsome, by omega⟩
    · have hlast : ([complaint].filter fun complaint => complaint.2 = id).length = 0 := by
        simp [Ne.symm hid]
      rw [if_neg hid, ih, hlast, Nat.add_zero]

omit [Curve] in
/-- What a pass over the counters disqualifies. -/
theorem mem_foldl_disqualify {f : ℕ} {id : ParticipantId} (entries : List (ParticipantId × ℕ))
    (disqualified : List ParticipantId) :
    id ∈ entries.foldl (fun disqualified entry =>
        if entry.2 > f ∧ entry.1 ∉ disqualified then disqualified ++ [entry.1]
        else disqualified) disqualified ↔
      id ∈ disqualified ∨ ∃ count, (id, count) ∈ entries ∧ f < count := by
  induction entries generalizing disqualified with
  | nil => simp
  | cons entry entries ih =>
    obtain ⟨other, count⟩ := entry
    rw [List.foldl_cons, ih]
    simp only [List.mem_cons, Prod.mk.injEq]
    split
    · rename_i hmore
      rw [List.mem_append, List.mem_singleton]
      constructor
      · rintro ((h | rfl) | ⟨k, hk, hf⟩)
        · exact Or.inl h
        · exact Or.inr ⟨count, Or.inl ⟨rfl, rfl⟩, hmore.1⟩
        · exact Or.inr ⟨k, Or.inr hk, hf⟩
      · rintro (h | ⟨k, ⟨rfl, rfl⟩ | hk, hf⟩)
        · exact Or.inl (Or.inl h)
        · exact Or.inl (Or.inr rfl)
        · exact Or.inr ⟨k, hk, hf⟩
    · rename_i hskip
      constructor
      · rintro (h | ⟨k, hk, hf⟩)
        · exact Or.inl h
        · exact Or.inr ⟨k, Or.inr hk, hf⟩
      · rintro (h | ⟨k, ⟨rfl, rfl⟩ | hk, hf⟩)
        · exact Or.inl h
        · exact Or.inl (not_not.mp fun hnew => hskip ⟨hf, hnew⟩)
        · exact Or.inr ⟨k, hk, hf⟩

namespace DkgState

variable {state : DkgState}

/-- The parties with more than `f` complaints are disqualified, in whatever order
their counters are visited. -/
theorem mem_checkDisqualification {order : Traversal (ParticipantId × ℕ)} {id : ParticipantId} :
    id ∈ (state.checkDisqualification order).disqualifications ↔
      id ∈ state.disqualifications ∨ state.f < state.getComplaintCount id := by
  have hentries (count : ℕ) :
      (id, count) ∈ order.arrange (complaintCounts state.complaintsReceived) ↔
        count = state.getComplaintCount id ∧ 0 < count :=
    (order.perm _).mem_iff.trans mem_complaintCounts
  rw [checkDisqualification, mem_foldl_disqualify]
  simp only [hentries]
  constructor
  · rintro (h | ⟨count, ⟨rfl, _⟩, hf⟩)
    · exact Or.inl h
    · exact Or.inr hf
  · rintro (h | hf)
    · exact Or.inl h
    · exact Or.inr ⟨_, ⟨rfl, by omega⟩, hf⟩

/-! ## What a call changes -/

/-- Finishing changes the set of qualified parties and the round. -/
theorem finalize_state (state : DkgState) :
    ∃ round, state.finalize.2 = { state.buildQualSet with round } := by
  unfold finalize
  simp only
  split
  · exact ⟨state.round, rfl⟩
  split
  · exact ⟨state.round, rfl⟩
  split
  · exact ⟨state.round, rfl⟩
  split
  · exact ⟨state.round, rfl⟩
  · exact ⟨.complete, rfl⟩

/-- An accepted commit is appended to the three lists of its kind. -/
theorem call_processParticipantCommit (state : DkgState) (sender : ParticipantId)
    (publicKey : G2Point) (pop : G1Point) (vssPublic : VssPublic) :
    state.call (.processParticipantCommit sender publicKey pop vssPublic) =
      if verifyPop publicKey pop = true then
        { state with
          receivedPublicKeys := state.receivedPublicKeys ++ [(sender, publicKey)]
          receivedPops := state.receivedPops ++ [(sender, pop)]
          receivedVssPublics := state.receivedVssPublics ++ [(sender, vssPublic)] }
      else state := by
  have hcall : state.call (.processParticipantCommit sender publicKey pop vssPublic) =
      state.orElse (state.processParticipantCommit sender publicKey pop vssPublic) := rfl
  rw [hcall]
  by_cases hpop : verifyPop publicKey pop = true
  · rw [processParticipantCommit_eq_ok hpop, if_pos hpop]
    rfl
  · unfold processParticipantCommit
    rw [if_pos hpop, if_neg hpop]
    rfl

/-- Whether a share is recorded: it opens the first commitment of its sender, if any. -/
def Accepts (state : DkgState) (sender : ParticipantId) (share : VssShare) : Prop :=
  ∀ entry, (state.receivedVssPublics.find? fun entry => entry.1 == sender) = some entry →
    entry.2.verifyShare share.index share.value share.blinding state.pedersen = true

/-- An accepted share is appended. -/
theorem call_processReceivedShare (state : DkgState) (sender : ParticipantId) (share : VssShare) :
    (state.Accepts sender share ∧ state.call (.processReceivedShare sender share) =
      { state with receivedShares := state.receivedShares ++ [(sender, share)] }) ∨
    (¬ state.Accepts sender share ∧
      state.call (.processReceivedShare sender share) = state) := by
  have hcall : state.call (.processReceivedShare sender share) =
      state.orElse (state.processReceivedShare sender share) := rfl
  rw [hcall]
  unfold processReceivedShare Accepts
  cases hfind : state.receivedVssPublics.find? fun entry => entry.1 == sender with
  | none =>
    refine Or.inl ⟨?_, rfl⟩
    intro entry hentry
    cases hentry
  | some entry =>
    by_cases hvalid : entry.2.verifyShare share.index share.value share.blinding
        state.pedersen = true
    · refine Or.inl ⟨?_, ?_⟩
      · intro found hfound
        cases hfound
        exact hvalid
      · simp only [if_neg (not_not.mpr hvalid)]
        rfl
    · refine Or.inr ⟨?_, ?_⟩
      · intro h
        exact hvalid (h entry rfl)
      · simp only [if_pos hvalid]
        rfl

/-- What no call changes, and what the calls that deliver no message do not change. -/
theorem call_frame (state : DkgState) (call : DkgCall) :
    (state.call call).myId = state.myId ∧ (state.call call).pedersen = state.pedersen ∧
      (state.call call).n = state.n ∧ (state.call call).f = state.f ∧
      (call.isMessage = false →
        (state.call call).receivedPublicKeys = state.receivedPublicKeys ∧
        (state.call call).receivedVssPublics = state.receivedVssPublics ∧
        (state.call call).receivedShares = state.receivedShares) := by
  cases call with
  | start coins => exact ⟨rfl, rfl, rfl, rfl, fun _ => ⟨rfl, rfl, rfl⟩⟩
  | addComplaint complainer accused order =>
    exact ⟨rfl, rfl, rfl, rfl, fun _ => ⟨rfl, rfl, rfl⟩⟩
  | buildQualSet => exact ⟨rfl, rfl, rfl, rfl, fun _ => ⟨rfl, rfl, rfl⟩⟩
  | processParticipantCommit sender publicKey pop vssPublic =>
    rw [call_processParticipantCommit]
    split
    · exact ⟨rfl, rfl, rfl, rfl, fun h => nomatch h⟩
    · exact ⟨rfl, rfl, rfl, rfl, fun h => nomatch h⟩
  | processReceivedShare sender share =>
    rcases call_processReceivedShare state sender share with ⟨_, hcall⟩ | ⟨_, hcall⟩
    · rw [hcall]
      exact ⟨rfl, rfl, rfl, rfl, fun h => nomatch h⟩
    · rw [hcall]
      exact ⟨rfl, rfl, rfl, rfl, fun h => nomatch h⟩
  | addDisqualification participant =>
    simp only [DkgState.call, addDisqualification]
    split <;> exact ⟨rfl, rfl, rfl, rfl, fun _ => ⟨rfl, rfl, rfl⟩⟩
  | addQualReveal sender publicKey =>
    simp only [DkgState.call, addQualReveal]
    split <;> exact ⟨rfl, rfl, rfl, rfl, fun _ => ⟨rfl, rfl, rfl⟩⟩
  | finalize =>
    obtain ⟨round, hround⟩ := finalize_state state
    rw [DkgState.call, hround]
    exact ⟨rfl, rfl, rfl, rfl, fun _ => ⟨rfl, rfl, rfl⟩⟩

end DkgState

end Sigimora
