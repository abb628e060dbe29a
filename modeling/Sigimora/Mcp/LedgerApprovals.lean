import Sigimora.Mcp.LedgerTiers

/-!
# Approved transactions

The approved ledger only grows, by one entry at every approval, and the heights
count the entries. An approval takes whatever is pending: it asks neither for the
age of the transaction nor for its partial signatures.
-/

namespace Sigimora.Mcp

variable [Curve]

namespace TransactionLedger

variable {ledger : TransactionLedger} {id txId : TxId} {entry : ApprovedTransaction}

/-- A sweep approves nothing. -/
theorem sweepExpired_approved (order : Traversal (Sigma fun _ : TxId => PendingTransaction))
    (now : UInt64) :
    (ledger.sweepExpired order now).2.approved = ledger.approved ∧
      (ledger.sweepExpired order now).2.height = ledger.height := by
  refine sweepExpired_preserves (P := fun next => next.approved = ledger.approved ∧
    next.height = ledger.height) order ?_ ⟨rfl, rfl⟩
  intro next txId h
  exact reject_preserves (P := fun other => other.approved = ledger.approved ∧
    other.height = ledger.height) h fun _ _ => h

/-- Whether the call approves a transaction. -/
def approves (ledger : TransactionLedger) : LedgerCall → Bool
  | .approve txId signature now => (ledger.approve txId signature now).1.isSome
  | _ => false

/-- An approval approves just if the transaction is pending. -/
theorem approves_approve (txId : TxId) (signature : Ats.AtsSignature) (now : UInt64) :
    ledger.approves (.approve txId signature now) = (ledger.pending.lookup txId).isSome := by
  rw [approves, TransactionLedger.approve]
  cases ledger.pending.lookup txId <;> rfl

/-- A call either approves a pending transaction or does not touch the approved ones. -/
theorem call_approved (hsound : ledger.Sound) (call : LedgerCall) :
    (ledger.approves call = false ∧ (ledger.call call).approved = ledger.approved ∧
      (ledger.call call).height = ledger.height) ∨
    ∃ txId signature now tx, call = .approve txId signature now ∧
      ledger.pending.lookup txId = some tx ∧ ledger.approves call = true ∧
      (ledger.call call).approved =
        ledger.approved.insert txId (tx.approval signature now (ledger.height + 1)) ∧
      (ledger.call call).height = ledger.height + 1 := by
  cases call with
  | submit payload submittedBy threshold now =>
    left
    rw [TransactionLedger.call, submit_snd]
    split <;> exact ⟨rfl, rfl, rfl⟩
  | addPartialSignature txId partialSig =>
    left
    refine ⟨rfl, ?_⟩
    exact addPartialSignature_preserves (P := fun next => next.approved = ledger.approved ∧
      next.height = ledger.height) ⟨rfl, rfl⟩ fun _ _ => ⟨rfl, rfl⟩
  | approve txId signature now =>
    rw [approves_approve, TransactionLedger.call]
    cases hlookup : ledger.pending.lookup txId with
    | none =>
      left
      rw [approve_none hlookup]
      exact ⟨rfl, rfl, rfl⟩
    | some tx =>
      right
      rw [approve_snd hlookup, hsound.own.pending txId tx hlookup]
      exact ⟨txId, signature, now, tx, rfl, hlookup, rfl, rfl, rfl⟩
  | sweepExpired order now =>
    left
    exact ⟨rfl, sweepExpired_approved order now⟩

/-- A pending transaction is not approved. -/
theorem Sound.not_approved (hsound : ledger.Sound) {tx : PendingTransaction}
    (h : ledger.pending.lookup id = some tx) : id ∉ ledger.approved := fun happroved =>
  hsound.settled id happroved (HashTable.mem_iff_lookup.mpr ⟨tx, h⟩)

/-! ## Growth -/

/-- All calls keep the ledger sound. -/
theorem sound_after {calls : List LedgerCall} (hsound : ledger.Sound) :
    (Run.after call ledger calls).Sound := by
  have hall : Run.Throughout call Sound ledger calls :=
    Run.throughout_of_step (fun _ call h => Sound.call h call) hsound
  exact hall.last

/-- What is approved stays so. -/
theorem approved_call (hsound : ledger.Sound) (call : LedgerCall)
    (h : ledger.approved.lookup id = some entry) :
    (ledger.call call).approved.lookup id = some entry := by
  rcases call_approved hsound call with ⟨_, hsame, _⟩ |
    ⟨txId, signature, now, tx, _, hpending, _, hinsert, _⟩
  · rwa [hsame]
  · have hne : id ≠ txId := by
      rintro rfl
      exact hsound.not_approved hpending (HashTable.mem_iff_lookup.mpr ⟨entry, h⟩)
    rwa [hinsert, AList.lookup_insert_ne hne]

/-- An approved entry stays as it is. -/
theorem approved_after (hsound : ledger.Sound) (calls : List LedgerCall)
    (h : ledger.approved.lookup id = some entry) :
    (Run.after call ledger calls).approved.lookup id = some entry := by
  induction calls generalizing ledger with
  | nil => exact h
  | cons call calls ih =>
    rw [Run.after_cons]
    exact ih (hsound.call call) (approved_call hsound call h)

/-! ## Heights -/

/-- The number of approvals in a run. -/
def approvals (ledger : TransactionLedger) : List LedgerCall → ℕ
  | [] => 0
  | call :: calls => (if ledger.approves call then 1 else 0) + (ledger.call call).approvals calls

/-- The heights of the approved entries, the last approval first. -/
def approvedHeights (ledger : TransactionLedger) : List UInt64 :=
  ledger.approved.entries.map fun entry => entry.2.height

/-- The entries are numbered from one on, in the order of their approvals. -/
structure Numbered (ledger : TransactionLedger) (count : ℕ) : Prop where
  height : ledger.height = UInt64.ofNat count
  heights : ledger.approvedHeights = ((List.range' 1 count).map UInt64.ofNat).reverse

/-- An empty ledger is numbered. -/
theorem numbered_new : (new : TransactionLedger).Numbered 0 where
  height := rfl
  heights := rfl

/-- A call gives out the next number, if it approves, and no other. -/
theorem Numbered.call {count : ℕ} (h : ledger.Numbered count) (hsound : ledger.Sound)
    (call : LedgerCall) :
    (ledger.call call).Numbered (count + if ledger.approves call then 1 else 0) := by
  rcases call_approved hsound call with ⟨happroves, happroved, hheight⟩ |
    ⟨txId, signature, now, tx, _, hpending, happroves, hinsert, hheight⟩
  · rw [happroves]
    refine ⟨hheight.trans h.height, ?_⟩
    rw [approvedHeights, happroved]
    exact h.heights
  · have hnext : ledger.height + 1 = UInt64.ofNat (count + 1) := by
      rw [h.height, UInt64.ofNat_add]
      rfl
    rw [happroves, if_pos rfl]
    refine ⟨hheight.trans hnext, ?_⟩
    rw [approvedHeights, hinsert,
      AList.entries_insert_of_notMem (hsound.not_approved hpending), List.map_cons,
      List.range'_concat, List.map_append, List.reverse_append, Nat.one_mul]
    change (ledger.height + 1) :: ledger.approvedHeights = _
    rw [hnext, h.heights, Nat.add_comm 1 count]
    rfl

/-- The numbers run up to how many calls have approved. -/
theorem Numbered.after {count : ℕ} (h : ledger.Numbered count) (hsound : ledger.Sound)
    (calls : List LedgerCall) :
    (Run.after TransactionLedger.call ledger calls).Numbered (count + ledger.approvals calls) := by
  induction calls generalizing ledger count with
  | nil => exact h
  | cons call calls ih =>
    rw [Run.after_cons, approvals, ← Nat.add_assoc]
    exact ih (h.call hsound call) (hsound.call call)

/-- Below 2^64 approvals the height is their number. -/
theorem Numbered.toNat_height {count : ℕ} (h : ledger.Numbered count) (hcount : count < 2 ^ 64) :
    ledger.height.toNat = count := by
  rw [h.height, UInt64.toNat_ofNat_of_lt' hcount]

/-- Below 2^64 approvals the heights are the numbers from one on. -/
theorem Numbered.toNat_heights {count : ℕ} (h : ledger.Numbered count) (hcount : count < 2 ^ 64) :
    ledger.approvedHeights.map UInt64.toNat = (List.range' 1 count).reverse := by
  rw [h.heights, List.map_reverse, List.map_map]
  congr 1
  refine (List.map_congr_left ?_).trans (List.map_id _)
  intro k hk
  have hle : k < 1 + count := (List.mem_range'_1.mp hk).2
  have hlt : k < 2 ^ 64 := by omega
  exact UInt64.toNat_ofNat_of_lt' hlt

/-- **Heights.** After fewer than `2 ^ 64` approvals the heights of the approved entries
are the numbers from one to the height of the ledger, and no later call changes or
removes an entry. -/
theorem approved_gapless (calls : List LedgerCall)
    (hfew : (new : TransactionLedger).approvals calls < 2 ^ 64) :
    (Run.after call new calls).height.toNat = (Run.after call new calls).approved.keys.length ∧
      ((Run.after call new calls).approvedHeights.map UInt64.toNat).Perm
        (List.range' 1 (Run.after call new calls).height.toNat) ∧
      ∀ more id entry, (Run.after call new calls).approved.lookup id = some entry →
        (Run.after call new (calls ++ more)).approved.lookup id = some entry := by
  have hnumbered := numbered_new.after sound_new calls
  rw [Nat.zero_add] at hnumbered
  have hheight := hnumbered.toNat_height hfew
  have hheights := hnumbered.toNat_heights hfew
  refine ⟨?_, ?_, ?_⟩
  · have hlength := congrArg List.length hheights
    rw [List.length_map, approvedHeights, List.length_map, List.length_reverse,
      List.length_range'] at hlength
    rw [hheight, ← hlength, AList.keys, List.keys, List.length_map]
  · rw [hheights, hheight]
    exact List.reverse_perm _
  · intro more id entry h
    rw [Run.after_append]
    exact approved_after (sound_after sound_new) more h

omit [Curve] in
/-- A run in which two of three attempts approve a transaction. -/
theorem approved_gapless_two_approvals :
    letI := exponentCurve
    let calls : List LedgerCall :=
      [.submit [] 1 2 0, .approve (computeTxId []) ⟨0, [], 0, [], ⟨0, []⟩, 0⟩ 1,
        .submit [1] 1 2 2, .approve (computeTxId []) ⟨0, [], 0, [], ⟨0, []⟩, 0⟩ 3,
        .approve (computeTxId [1]) ⟨0, [], 0, [], ⟨0, []⟩, 0⟩ 4]
    (new : TransactionLedger).approvals calls = 2 ∧
      (Run.after call new calls).height.toNat = (Run.after call new calls).approved.keys.length ∧
      ((Run.after call new calls).approvedHeights.map UInt64.toNat).Perm
        (List.range' 1 (Run.after call new calls).height.toNat) := by
  let := exponentCurve
  intro calls
  have htwo : (new : TransactionLedger).approvals calls = 2 := by decide +kernel
  have hfew : (new : TransactionLedger).approvals calls < 2 ^ 64 := by
    rw [htwo]
    decide
  have h := approved_gapless calls hfew
  exact ⟨htwo, h.1, h.2.1⟩

/-! ## Live transactions -/

/-- The record was made by an approval that found the transaction younger than the expiry
time and held by enough nodes, the signers among them. -/
structure LiveApproval (tx : PendingTransaction) (now : UInt64) (entry : ApprovedTransaction) :
    Prop where
  unexpired : now.toNat ≤ tx.submittedAt.toNat + expirySeconds
  met : ∃ nodes : Finset ParticipantId, tx.threshold ≤ nodes.card ∧
    ∀ node ∈ nodes, ∃ partialSig ∈ tx.partialSigs, partialSig.nodeId = node
  distinct : entry.signers.Nodup
  among : ∀ signer ∈ entry.signers, ∃ partialSig ∈ tx.partialSigs, partialSig.nodeId = signer

/-- The call made the entry of the pending transaction. -/
def Made (ledger : TransactionLedger) (id : TxId) (tx : PendingTransaction) (now : UInt64)
    (entry : ApprovedTransaction) (call : LedgerCall) : Prop :=
  ∃ signature, call = .approve id signature now ∧ ledger.pending.lookup id = some tx ∧
    entry = tx.approval signature now (ledger.height + 1)

/-- Every approved entry was made by a live approval. -/
def ApprovedLive (calls : List LedgerCall) : Prop :=
  ∀ id entry, (Run.after call new calls).approved.lookup id = some entry →
    ∃ done made, done ++ [made] <+: calls ∧ ∃ tx now,
      (Run.after call new done).Made id tx now entry made ∧ LiveApproval tx now entry

/-- A call that approves a pending transaction finds it unexpired and its threshold met,
and the quorum of the signature are different nodes that have signed. -/
def ApprovesLive (ledger : TransactionLedger) : LedgerCall → Prop
  | .approve txId signature now => ∀ tx, ledger.pending.lookup txId = some tx →
    tx.isExpired now = false ∧ tx.isThresholdMet = true ∧ signature.quorum.Nodup ∧
      signature.quorum ⊆ tx.partialSigs.map Ats.PartialSignature.nodeId
  | _ => True

/-- The predicates of a pending transaction say when its approval is live. -/
theorem liveApproval_iff {tx : PendingTransaction} {signature : Ats.AtsSignature}
    {now height : UInt64} : LiveApproval tx now (tx.approval signature now height) ↔
      tx.isExpired now = false ∧ tx.isThresholdMet = true ∧ signature.quorum.Nodup ∧
        signature.quorum ⊆ tx.partialSigs.map Ats.PartialSignature.nodeId := by
  have hexpired : tx.isExpired now = false ↔
      now.toNat ≤ tx.submittedAt.toNat + expirySeconds := by
    rw [PendingTransaction.isExpired, decide_eq_false_iff_not]
    omega
  have hmet : tx.isThresholdMet = true ↔ tx.threshold ≤
      (tx.partialSigs.map Ats.PartialSignature.nodeId).toFinset.card := decide_eq_true_iff
  have hamong : signature.quorum ⊆ tx.partialSigs.map Ats.PartialSignature.nodeId ↔
      ∀ signer ∈ signature.quorum, ∃ partialSig ∈ tx.partialSigs,
        partialSig.nodeId = signer :=
    forall₂_congr fun signer _ => List.mem_map
  rw [hexpired, hmet, hamong]
  constructor
  · intro h
    obtain ⟨nodes, hcard, hnodes⟩ := h.met
    refine ⟨h.unexpired, hcard.trans (Finset.card_le_card ?_), h.distinct, h.among⟩
    intro node hnode
    exact List.mem_toFinset.mpr (List.mem_map.mpr (hnodes node hnode))
  · rintro ⟨hunexpired, hcard, hdistinct, hsigners⟩
    refine ⟨hunexpired, ⟨_, hcard, ?_⟩, hdistinct, hsigners⟩
    intro node hnode
    exact List.mem_map.mp (List.mem_toFinset.mp hnode)

/-- An approved entry was made by some approval. -/
theorem approved_made {calls : List LedgerCall}
    (h : (Run.after call new calls).approved.lookup id = some entry) :
    ∃ done made, done ++ [made] <+: calls ∧ ∃ tx now,
      (Run.after call new done).Made id tx now entry made := by
  induction calls using List.reverseRecOn with
  | nil => simp [new] at h
  | append_singleton calls last ih =>
    rw [Run.after_append] at h
    rcases call_approved (sound_after sound_new) last with ⟨_, hsame, _⟩ |
      ⟨txId, signature, now, tx, hlast, hpending, _, hinsert, _⟩
    · rw [Run.after_cons, Run.after_nil, hsame] at h
      obtain ⟨done, made, hdone, hmade⟩ := ih h
      exact ⟨done, made, hdone.trans (List.prefix_append calls [last]), hmade⟩
    · rw [Run.after_cons, Run.after_nil, hinsert, HashTable.lookup_insert] at h
      split at h
      · next hid =>
        refine ⟨calls, last, List.prefix_refl _, tx, now, signature, ?_, ?_, ?_⟩
        · rw [hid, hlast]
        · rwa [hid]
        · exact (Option.some.inj h).symm
      · obtain ⟨done, made, hdone, hmade⟩ := ih h
        exact ⟨done, made, hdone.trans (List.prefix_append calls [last]), hmade⟩

/-- An entry is there from its approval on. -/
theorem approved_of_made {done rest : List LedgerCall} {made : LedgerCall}
    {tx : PendingTransaction} {now : UInt64}
    (h : (Run.after call new done).Made id tx now entry made) (hrest : done ++ [made] <+: rest) :
    (Run.after call new rest).approved.lookup id = some entry := by
  obtain ⟨more, rfl⟩ := hrest
  obtain ⟨signature, rfl, hpending, rfl⟩ := h
  rw [Run.after_append]
  refine approved_after (sound_after sound_new) more ?_
  rw [Run.after_append]
  change ((Run.after call new done).approve id signature now).2.approved.lookup id = _
  rw [approve_snd hpending, (sound_after sound_new).own.pending id tx hpending,
    AList.lookup_insert]

/-- A transaction is approved once. -/
theorem made_before_or_same {done other calls : List LedgerCall} {made made' : LedgerCall}
    {tx tx' : PendingTransaction} {now now' : UInt64} {entry' : ApprovedTransaction}
    (h : (Run.after call new done).Made id tx now entry made)
    (h' : (Run.after call new other).Made id tx' now' entry' made')
    (hdone : done ++ [made] <+: calls) (hother : other ++ [made'] <+: calls) :
    done = other ∧ made = made' := by
  have honce {done other : List LedgerCall} {made : LedgerCall} {tx tx' : PendingTransaction}
      {now now' : UInt64} {entry entry' : ApprovedTransaction} {made' : LedgerCall}
      (h : (Run.after call new done).Made id tx now entry made)
      (h' : (Run.after call new other).Made id tx' now' entry' made') :
      ¬ done ++ [made] <+: other := by
    intro hearlier
    obtain ⟨_, _, hpending, _⟩ := h'
    exact (sound_after sound_new).not_approved hpending
      (HashTable.mem_iff_lookup.mpr ⟨entry, approved_of_made h hearlier⟩)
  have hsame : done ++ [made] = other ++ [made'] := by
    rcases List.prefix_or_prefix_of_prefix hdone hother with hle | hle
    · exact (List.prefix_concat_iff.mp hle).resolve_right (honce h h')
    · exact ((List.prefix_concat_iff.mp hle).resolve_right (honce h' h)).symm
  exact List.append_inj' hsame rfl |>.imp_right fun hmade => (List.cons.inj hmade).1

/-- In a run whose entries were all made by live approvals, every approval is live. -/
theorem guarded_of_approvedLive {calls : List LedgerCall} (h : ApprovedLive calls) :
    Run.Guarded call ApprovesLive new calls := by
  intro done made hdone
  cases made with
  | approve txId signature now =>
    intro tx hpending
    have hmade : (Run.after call new done).Made txId tx now
        (tx.approval signature now ((Run.after call new done).height + 1))
        (.approve txId signature now) := ⟨signature, rfl, hpending, rfl⟩
    obtain ⟨other, made', hother, tx', now', hmade', hlive⟩ :=
      h txId _ (approved_of_made hmade hdone)
    obtain ⟨rfl, rfl⟩ := made_before_or_same hmade hmade' hdone hother
    obtain ⟨signature', hcall, hpending', -⟩ := hmade'
    cases hcall
    rw [hpending] at hpending'
    cases hpending'
    exact liveApproval_iff.mp hlive
  | submit payload submittedBy threshold now => trivial
  | addPartialSignature txId partialSig => trivial
  | sweepExpired order now => trivial

/-- **Live approvals.** All approved entries were made by live approvals exactly in the runs
whose approvals find the expiry time not passed, the threshold met and the quorum signed. -/
theorem approvedLive_iff (calls : List LedgerCall) :
    (∀ done, done <+: calls → ApprovedLive done) ↔ Run.Guarded call ApprovesLive new calls := by
  constructor
  · exact fun h => guarded_of_approvedLive (h calls (List.prefix_refl _))
  · intro h calls' hcalls' id entry happroved
    obtain ⟨done, made, hdone, tx, now, hmade⟩ := approved_made happroved
    refine ⟨done, made, hdone, tx, now, hmade, ?_⟩
    obtain ⟨signature, rfl, hpending, rfl⟩ := hmade
    exact liveApproval_iff.mpr (h done _ (hdone.trans hcalls') tx hpending)

omit [Curve] in
/-- A transaction is approved without any partial signature. -/
theorem unsigned_transaction_approved :
    letI := exponentCurve
    ¬ ∀ calls : List LedgerCall, ClockForward calls → ApprovedLive calls := by
  let := exponentCurve
  intro h
  let approval : LedgerCall := .approve (computeTxId []) ⟨0, [], 0, [], ⟨0, []⟩, 0⟩ 0
  have hforward : ClockForward [.submit [] 1 2 0, approval] := by decide
  have hguard := guarded_of_approvedLive (h [.submit [] 1 2 0, approval] hforward)
  have hmet := hguard [.submit [] 1 2 0] approval (List.prefix_refl _) (.opened [] 1 2 0)
    (AList.lookup_insert _)
  exact absurd hmet.2.1 (by decide)

end TransactionLedger

end Sigimora.Mcp
