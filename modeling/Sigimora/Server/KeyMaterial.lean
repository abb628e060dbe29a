import Sigimora.Refresh.Correctness
import Sigimora.Server.KeyGeneration

/-!
# Stored key shares

The rows of a network hold the key shares of its participants. A refresh adds
to each of them the value of a polynomial that vanishes at zero.
-/

namespace Sigimora.Server

variable [Curve]

/-! ## Stored key shares -/

/-- The rows are those of the participants, in order, with the given key shares. -/
def RowsHold (rows : List NodeRow) (n : ℕ) (share : ParticipantId → Scalar) : Prop :=
  List.Forall₂ (fun row id => row.nodeId = id.toNat ∧ row.secretKey = (share id).toBytes)
    rows (participants n)

variable {n t : ℕ} {rows : List NodeRow} {share share' : ParticipantId → Scalar}

omit [Curve] in
/-- The secret of a row is the encoded share of its node. -/
theorem RowsHold.secret (h : RowsHold rows n share) {row : NodeRow} (hrow : row ∈ rows) :
    row.secretKey = (share (UInt16.ofNat row.nodeId)).toBytes := by
  obtain ⟨id, _, hid, hsecret⟩ := Outcome.exists_of_forall₂ h hrow
  rw [hid, UInt16.ofNat_toNat]
  exact hsecret

omit [Curve] in
/-- The ids of the rows are those of the participants. -/
theorem RowsHold.ids (h : RowsHold rows n share) :
    rows.map (fun row => UInt16.ofNat row.nodeId) = participants n := by
  rw [← List.forall₂_eq_eq_eq, List.forall₂_map_left_iff]
  exact h.imp fun row id hrow => by rw [hrow.1, UInt16.ofNat_toNat]

omit [Curve] in
/-- The ids of the rows in a loop that counts them. -/
theorem RowsHold.zipIdx_ids (h : RowsHold rows n share) :
    rows.zipIdx.map (fun entry => UInt16.ofNat entry.1.nodeId) = participants n := by
  rw [← h.ids]
  conv_rhs => rw [← List.zipIdx_map_fst 0 rows, List.map_map]
  rfl

omit [Curve] in
/-- A list over the participants has the entry for a row at the row's position. -/
theorem RowsHold.index {β ε : Type} (h : RowsHold rows n share) (value : ParticipantId → β)
    {entry : NodeRow × ℕ} (hentry : entry ∈ rows.zipIdx) :
    (Outcome.index ((participants n).map value) entry.2 : Outcome ε β) =
      .ok (value (UInt16.ofNat entry.1.nodeId)) := by
  have hget := List.mk_mem_zipIdx_iff_getElem?.mp hentry
  rw [Outcome.index_eq_ok, ← h.ids, List.map_map, List.getElem?_map, hget]
  rfl

omit [Curve] in
/-- Only the shares of the participants count. -/
theorem RowsHold.congr (h : RowsHold rows n share)
    (hshare : ∀ id ∈ participants n, share id = share' id) : RowsHold rows n share' := by
  refine List.forall₂_iff_get.mpr ⟨h.length_eq, fun i hi hi' => ?_⟩
  have hrow := h.get hi hi'
  exact ⟨hrow.1, by rw [hrow.2, hshare _ (List.get_mem _ _)]⟩

omit [Curve] in
/-- The rows determine the shares that they hold. -/
theorem RowsHold.eq_of_mem (h : RowsHold rows n share) (h' : RowsHold rows n share')
    {id : ParticipantId} (hid : id ∈ participants n) : share id = share' id := by
  rw [← h.ids] at hid
  obtain ⟨row, hrow, rfl⟩ := List.mem_map.mp hid
  have hdecode := congrArg Scalar.fromBytes ((h.secret hrow).symm.trans (h'.secret hrow))
  rw [Scalar.fromBytes_toBytes, Scalar.fromBytes_toBytes] at hdecode
  exact Except.ok.inj hdecode

omit [Curve] in
/-- Rewriting the secret of one node replaces its share. -/
theorem RowsHold.update (h : RowsHold rows n share) (j : ParticipantId) (s : Scalar) :
    RowsHold (rows.map fun row => if row.nodeId = j.toNat then
      { row with secretKey := s.toBytes } else row) n (Function.update share j s) := by
  refine List.forall₂_map_left_iff.mpr (h.imp ?_)
  rintro row id ⟨hid, hsecret⟩
  by_cases hj : id = j
  · subst hj
    rw [if_pos hid, Function.update_self]
    exact ⟨hid, rfl⟩
  · have hne : row.nodeId ≠ j.toNat := by
      rw [hid, ne_eq, UInt16.toNat_inj]
      exact hj
    rw [if_neg hne, Function.update_of_ne hj]
    exact ⟨hid, hsecret⟩

omit [Curve] in
/-- A new epoch does not change what the rows hold. -/
theorem RowsHold.updateEpoch (h : RowsHold rows n share) (id epoch : ℕ) :
    RowsHold (rows.map fun row => if row.id = id then { row with epoch } else row) n share := by
  refine List.forall₂_map_left_iff.mpr (h.imp ?_)
  intro row id' hrow
  split <;> exact hrow

omit [Curve] in
/-- A network that has as many rows as it says has at most 65535 of them. -/
theorem RowsHold.le_of_length (h : RowsHold rows n share) (hlength : rows.length = n) :
    n ≤ 65535 :=
  le_of_length_participants (h.length_eq.symm.trans hlength)

/-! ## Refresh -/

/-- What a refresh adds to the key share of a node. -/
def refreshDelta (n t : ℕ) (coins : PartyDraws) (id : ParticipantId) : Scalar :=
  ((participants n).map fun i => ((Refresh.zeroPoly t serverSetup coins i).eval id).value).sum

/-- The keys after a refresh of the stored ones. -/
theorem refreshedKeys_eq_ok (hn : n ≤ 65535) (coins : PartyDraws) (h : RowsHold rows n share) :
    refreshedKeys n t coins rows = .ok ((participants n).map share,
      (participants n).map fun id => share id + refreshDelta n t coins id) := by
  have hcurrent : rows.mapM decodeSecretKey = .ok ((participants n).map share) := by
    rw [Outcome.mapM_eq_ok_iff, List.forall₂_map_right_iff]
    apply h.imp
    rintro row id ⟨_, hsecret⟩
    rw [decodeSecretKey, hsecret, if_neg (by simp), Scalar.fromBytes_toBytes, Outcome.mapErr_ok]
  have hzip : ((participants n).map share).zipIdx =
      (List.range n).map fun i => (share (UInt16.ofNat (i + 1)), i) := by
    rw [participants_eq hn, List.map_map]
    exact List.ext_getElem (by simp) fun i _ _ => by simp
  have hafter : (((participants n).map share).zipIdx.mapM fun entry =>
      Outcome.mapErr (fun e => ApiError.crypto s!"refresh apply: {e}")
        (Refresh.RefreshManager.applyContributions entry.1 (UInt16.ofNat (entry.2 + 1))
          ((participants n).map fun i =>
            (Refresh.RefreshManager.new n t).generateContribution i (coins i)))) =
      .ok ((participants n).map fun id => share id + refreshDelta n t coins id) := by
    have hresult : ((participants n).map fun id => share id + refreshDelta n t coins id) =
        (List.range n).map fun i => share (UInt16.ofNat (i + 1)) +
          refreshDelta n t coins (UInt16.ofNat (i + 1)) := by
      conv_lhs => rw [participants_eq hn, List.map_map]
      rfl
    rw [hzip, hresult, List.mapM_map]
    refine Outcome.mapM_eq_ok fun i hi => ?_
    have happly := Refresh.applyContributions_eq (Refresh.zeroPoly t serverSetup coins) id 0
      (ofNat_succ_mem_participants hn (List.mem_range.mp hi))
      (share (UInt16.ofNat (i + 1))) (participants n)
    exact congrArg (Outcome.mapErr fun e => ApiError.crypto s!"refresh apply: {e}") happly
  simp only [refreshedKeys, hcurrent, Outcome.ok_bind, hafter, Outcome.pure_eq_ok]

end Sigimora.Server
