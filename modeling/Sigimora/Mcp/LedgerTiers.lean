import Sigimora.Math.ExponentCurve
import Sigimora.Mcp.Ledger

/-!
# Tiers

A call moves a record from one tier to another one, except for `submit`: it opens a
transaction whatever the rejected ones are. So the tiers stay disjoint exactly in
the runs that never submit a rejected payload again.
-/

namespace Sigimora.Mcp

variable [Curve]

namespace TransactionLedger

variable {ledger : TransactionLedger} {id txId : TxId} {tx : PendingTransaction}

/-! ## What the calls write -/

/-- The answer to a submission is the transaction's id. -/
@[simp] theorem submit_fst (payload : List UInt8) (submittedBy : ParticipantId) (threshold : ℕ)
    (now : UInt64) : (ledger.submit payload submittedBy threshold now).1 = computeTxId payload := by
  unfold submit
  dsimp only
  split <;> rfl

/-- A payload is filed unless its transaction is pending or approved. -/
theorem submit_snd (payload : List UInt8) (submittedBy : ParticipantId) (threshold : ℕ)
    (now : UInt64) : (ledger.submit payload submittedBy threshold now).2 =
      if computeTxId payload ∈ ledger.approved ∨ computeTxId payload ∈ ledger.pending then ledger
      else { ledger with
        pending := ledger.pending.insert (computeTxId payload)
          (.opened payload submittedBy threshold now) } := by
  unfold submit
  dsimp only
  split <;> rfl

/-- A partial signature is filed with its pending transaction. -/
theorem addPartialSignature_snd (h : ledger.pending.lookup txId = some tx)
    (partialSig : Ats.PartialSignature) : (ledger.addPartialSignature txId partialSig).2 =
      { ledger with pending := ledger.pending.insert txId (tx.addPartial partialSig).1 } := by
  rw [addPartialSignature, h]

/-- A transaction that is not pending takes no partial signature. -/
theorem addPartialSignature_none (h : ledger.pending.lookup txId = none)
    (partialSig : Ats.PartialSignature) :
    (ledger.addPartialSignature txId partialSig).2 = ledger := by
  rw [addPartialSignature, h]

/-- An approval moves a pending transaction. -/
theorem approve_snd (h : ledger.pending.lookup txId = some tx) (signature : Ats.AtsSignature)
    (now : UInt64) : (ledger.approve txId signature now).2 =
      { ledger with
        pending := ledger.pending.erase txId
        height := ledger.height + 1
        approved := ledger.approved.insert tx.id
          (tx.approval signature now (ledger.height + 1)) } := by
  rw [approve, h]

/-- A transaction that is not pending is not approved. -/
theorem approve_none (h : ledger.pending.lookup txId = none) (signature : Ats.AtsSignature)
    (now : UInt64) : (ledger.approve txId signature now).2 = ledger := by
  rw [approve, h]

/-- A rejection moves a pending transaction. -/
theorem reject_some (h : ledger.pending.lookup txId = some tx) (now : UInt64) :
    ledger.reject now txId =
      { ledger with
        pending := ledger.pending.erase txId
        rejected := ledger.rejected.insert tx.id (tx.rejection now) } := by
  rw [reject, h]

/-- A transaction that is not pending is not rejected. -/
theorem reject_none (h : ledger.pending.lookup txId = none) (now : UInt64) :
    ledger.reject now txId = ledger := by
  rw [reject, h]

/-! ## Calls for an id that is not pending change nothing -/

/-- What survives an update of a pending transaction survives a partial signature. -/
theorem addPartialSignature_preserves {P : TransactionLedger → Prop} (h : P ledger) {txId : TxId}
    {partialSig : Ats.PartialSignature}
    (hpending : ∀ tx, ledger.pending.lookup txId = some tx →
      P { ledger with pending := ledger.pending.insert txId (tx.addPartial partialSig).1 }) :
    P (ledger.addPartialSignature txId partialSig).2 := by
  cases hlookup : ledger.pending.lookup txId with
  | none => rwa [addPartialSignature_none hlookup]
  | some tx =>
    rw [addPartialSignature_snd hlookup]
    exact hpending tx hlookup

/-- What survives the move of a pending transaction survives an approval. -/
theorem approve_preserves {P : TransactionLedger → Prop} (h : P ledger) {txId : TxId}
    {signature : Ats.AtsSignature} {now : UInt64}
    (hpending : ∀ tx, ledger.pending.lookup txId = some tx →
      P { ledger with
        pending := ledger.pending.erase txId
        height := ledger.height + 1
        approved := ledger.approved.insert tx.id
          (tx.approval signature now (ledger.height + 1)) }) :
    P (ledger.approve txId signature now).2 := by
  cases hlookup : ledger.pending.lookup txId with
  | none => rwa [approve_none hlookup]
  | some tx =>
    rw [approve_snd hlookup]
    exact hpending tx hlookup

/-- What survives the removal of a pending transaction survives a rejection. -/
theorem reject_preserves {P : TransactionLedger → Prop} (h : P ledger) {now : UInt64}
    {txId : TxId}
    (hpending : ∀ tx, ledger.pending.lookup txId = some tx →
      P { ledger with
        pending := ledger.pending.erase txId
        rejected := ledger.rejected.insert tx.id (tx.rejection now) }) :
    P (ledger.reject now txId) := by
  cases hlookup : ledger.pending.lookup txId with
  | none => rwa [reject_none hlookup]
  | some tx =>
    rw [reject_some hlookup]
    exact hpending tx hlookup

/-- What every rejection preserves, the sweep preserves. -/
theorem sweepExpired_preserves {P : TransactionLedger → Prop} {now : UInt64}
    (order : Traversal (Sigma fun _ : TxId => PendingTransaction))
    (hreject : ∀ ledger id, P ledger → P (ledger.reject now id)) (h : P ledger) :
    P (ledger.sweepExpired order now).2 := by
  unfold sweepExpired
  dsimp only
  generalize ledger.expiredIds order now = ids
  induction ids generalizing ledger with
  | nil => exact h
  | cons id ids ih => exact ih (hreject ledger id h)

end TransactionLedger

/-- A partial signature does not change the transaction's id. -/
@[simp] theorem PendingTransaction.addPartial_id (tx : PendingTransaction)
    (partialSig : Ats.PartialSignature) : (tx.addPartial partialSig).1.id = tx.id := by
  unfold PendingTransaction.addPartial
  dsimp only
  split <;> rfl

namespace TransactionLedger

variable {ledger : TransactionLedger} {id : TxId}

/-- Every record is stored under its own id. -/
structure OwnIds (ledger : TransactionLedger) : Prop where
  approved : HashTable.Keyed ApprovedTransaction.id ledger.approved
  pending : HashTable.Keyed PendingTransaction.id ledger.pending
  rejected : HashTable.Keyed RejectedTransaction.id ledger.rejected

/-- No approved transaction is pending. -/
def ApprovedSettled (ledger : TransactionLedger) : Prop :=
  ∀ id, id ∈ ledger.approved → id ∉ ledger.pending

/-- What holds of the ledger in all runs. -/
structure Sound (ledger : TransactionLedger) : Prop where
  own : ledger.OwnIds
  settled : ledger.ApprovedSettled

/-- An empty ledger is sound. -/
theorem sound_new : (new : TransactionLedger).Sound where
  own :=
    { approved := HashTable.keyed_empty
      pending := HashTable.keyed_empty
      rejected := HashTable.keyed_empty }
  settled := by simp [ApprovedSettled, new]

/-- A submission keeps the ledger sound. -/
theorem Sound.submit (h : ledger.Sound) (payload : List UInt8) (submittedBy : ParticipantId)
    (threshold : ℕ) (now : UInt64) :
    (ledger.submit payload submittedBy threshold now).2.Sound := by
  rw [submit_snd]
  split
  · exact h
  · next hnew =>
    push Not at hnew
    refine ⟨⟨h.own.approved, h.own.pending.insert rfl, h.own.rejected⟩, ?_⟩
    intro id happroved hpending
    rcases (AList.mem_insert _).mp hpending with rfl | hpending
    · exact hnew.1 happroved
    · exact h.settled id happroved hpending

/-- So does a partial signature. -/
theorem Sound.addPartialSignature (h : ledger.Sound) (txId : TxId)
    (partialSig : Ats.PartialSignature) :
    (ledger.addPartialSignature txId partialSig).2.Sound := by
  refine addPartialSignature_preserves h fun tx hlookup => ?_
  have hown : (tx.addPartial partialSig).1.id = txId := by
    rw [PendingTransaction.addPartial_id, h.own.pending txId tx hlookup]
  refine ⟨⟨h.own.approved, h.own.pending.insert hown, h.own.rejected⟩, ?_⟩
  intro id happroved hpending
  rcases (AList.mem_insert _).mp hpending with rfl | hpending
  · exact h.settled _ happroved (HashTable.mem_iff_lookup.mpr ⟨tx, hlookup⟩)
  · exact h.settled id happroved hpending

/-- So does an approval. -/
theorem Sound.approve (h : ledger.Sound) (txId : TxId) (signature : Ats.AtsSignature)
    (now : UInt64) : (ledger.approve txId signature now).2.Sound := by
  refine approve_preserves h fun tx hlookup => ?_
  have hown : (tx.approval signature now (ledger.height + 1)).id = txId :=
    h.own.pending txId tx hlookup
  rw [h.own.pending txId tx hlookup]
  refine ⟨⟨h.own.approved.insert hown, h.own.pending.erase, h.own.rejected⟩, ?_⟩
  intro id happroved hpending
  obtain ⟨hne, hpending⟩ := AList.mem_erase.mp hpending
  rcases (AList.mem_insert _).mp happroved with rfl | happroved
  · exact hne rfl
  · exact h.settled id happroved hpending

/-- So does a rejection. -/
theorem Sound.reject (h : ledger.Sound) (now : UInt64) (txId : TxId) :
    (ledger.reject now txId).Sound := by
  refine reject_preserves h fun tx hlookup => ?_
  have hown : (tx.rejection now).id = txId := h.own.pending txId tx hlookup
  rw [h.own.pending txId tx hlookup]
  refine ⟨⟨h.own.approved, h.own.pending.erase, h.own.rejected.insert hown⟩, ?_⟩
  intro id happroved hpending
  exact h.settled id happroved (AList.mem_erase.mp hpending).2

/-- Every call keeps the ledger sound. -/
theorem Sound.call (h : ledger.Sound) (call : LedgerCall) : (ledger.call call).Sound := by
  cases call with
  | submit payload submittedBy threshold now => exact h.submit payload submittedBy threshold now
  | addPartialSignature txId partialSig => exact h.addPartialSignature txId partialSig
  | approve txId signature now => exact h.approve txId signature now
  | sweepExpired order now =>
    exact sweepExpired_preserves order (fun _ id hledger => hledger.reject now id) h

/-! ## One tier -/

/-- All records that are stored for an id. -/
def records (ledger : TransactionLedger) (id : TxId) : List TransactionInfo :=
  ((ledger.approved.lookup id).map .approved).toList ++
    (((ledger.pending.lookup id).map .pending).toList ++
      ((ledger.rejected.lookup id).map .rejected).toList)

/-- The id is a key of exactly one tier, where its own record is found. -/
def InOneTier (ledger : TransactionLedger) (id : TxId) : Prop :=
  ∃ info, ledger.records id = [info] ∧ info.id = id ∧ ledger.findTransaction id = some info

/-- The first record is the one that is found. -/
theorem findTransaction_eq_head? (ledger : TransactionLedger) (id : TxId) :
    ledger.findTransaction id = (ledger.records id).head? := by
  unfold findTransaction records
  cases ledger.approved.lookup id with
  | some tx => rfl
  | none =>
    cases ledger.pending.lookup id with
    | some tx => rfl
    | none => cases ledger.rejected.lookup id <;> rfl

/-- A transaction is in one tier just if it has one record. -/
theorem inOneTier_iff :
    ledger.InOneTier id ↔ ∃ info, ledger.records id = [info] ∧ info.id = id := by
  unfold InOneTier
  constructor
  · rintro ⟨info, hrecords, hid, _⟩
    exact ⟨info, hrecords, hid⟩
  · rintro ⟨info, hrecords, hid⟩
    refine ⟨info, hrecords, hid, ?_⟩
    rw [findTransaction_eq_head?, hrecords, List.head?_cons]

/-- An approved transaction is in one tier just if it is in no other. -/
theorem inOneTier_approved_iff {tx : ApprovedTransaction}
    (h : ledger.approved.lookup id = some tx) (hown : tx.id = id) :
    ledger.InOneTier id ↔ id ∉ ledger.pending ∧ id ∉ ledger.rejected := by
  rw [inOneTier_iff, records, h, HashTable.notMem_iff_lookup, HashTable.notMem_iff_lookup]
  simp [hown, TransactionInfo.id]

/-- A pending transaction is in one tier just if it is in no other. -/
theorem inOneTier_pending_iff {tx : PendingTransaction} (h : ledger.pending.lookup id = some tx)
    (hown : tx.id = id) : ledger.InOneTier id ↔ id ∉ ledger.approved ∧ id ∉ ledger.rejected := by
  rw [inOneTier_iff, records, h, HashTable.notMem_iff_lookup, HashTable.notMem_iff_lookup]
  cases ledger.approved.lookup id <;> simp [hown, TransactionInfo.id]

/-- A rejected transaction is in one tier just if it is in no other. -/
theorem inOneTier_rejected_iff {tx : RejectedTransaction}
    (h : ledger.rejected.lookup id = some tx) (hown : tx.id = id) :
    ledger.InOneTier id ↔ id ∉ ledger.approved ∧ id ∉ ledger.pending := by
  rw [inOneTier_iff, records, h, HashTable.notMem_iff_lookup, HashTable.notMem_iff_lookup]
  cases ledger.approved.lookup id <;> cases ledger.pending.lookup id <;>
    simp [hown, TransactionInfo.id]

/-- The tier of a transaction depends on the three entries for it only. -/
theorem InOneTier.congr {next : TransactionLedger} (h : ledger.InOneTier id)
    (happroved : next.approved.lookup id = ledger.approved.lookup id)
    (hpending : next.pending.lookup id = ledger.pending.lookup id)
    (hrejected : next.rejected.lookup id = ledger.rejected.lookup id) : next.InOneTier id := by
  rw [inOneTier_iff] at h ⊢
  rwa [records, happroved, hpending, hrejected]

/-- A partial signature does not put a transaction into a second tier. -/
theorem InOneTier.addPartialSignature (h : ledger.InOneTier id) (hsound : ledger.Sound)
    (txId : TxId) (partialSig : Ats.PartialSignature) :
    (ledger.addPartialSignature txId partialSig).2.InOneTier id := by
  refine addPartialSignature_preserves (P := fun next => next.InOneTier id) h fun tx hlookup => ?_
  by_cases hid : id = txId
  · subst hid
    have hown := hsound.own.pending id tx hlookup
    refine (inOneTier_pending_iff (AList.lookup_insert _) ?_).mpr
      ((inOneTier_pending_iff hlookup hown).mp h)
    rw [PendingTransaction.addPartial_id, hown]
  · exact h.congr rfl (AList.lookup_insert_ne hid) rfl

/-- Neither does an approval. -/
theorem InOneTier.approve (h : ledger.InOneTier id) (hsound : ledger.Sound) (txId : TxId)
    (signature : Ats.AtsSignature) (now : UInt64) :
    (ledger.approve txId signature now).2.InOneTier id := by
  refine approve_preserves (P := fun next => next.InOneTier id) h fun tx hlookup => ?_
  have hown := hsound.own.pending txId tx hlookup
  rw [hown]
  by_cases hid : id = txId
  · subst hid
    have htiers := (inOneTier_pending_iff hlookup hown).mp h
    refine (inOneTier_approved_iff (AList.lookup_insert _) hown).mpr ⟨?_, htiers.2⟩
    exact fun hmem => (AList.mem_erase.mp hmem).1 rfl
  · exact h.congr (AList.lookup_insert_ne hid) (AList.lookup_erase_ne hid) rfl

/-- Neither does a rejection. -/
theorem InOneTier.reject (h : ledger.InOneTier id) (hsound : ledger.Sound) (now : UInt64)
    (txId : TxId) : (ledger.reject now txId).InOneTier id := by
  refine reject_preserves (P := fun next => next.InOneTier id) h fun tx hlookup => ?_
  have hown := hsound.own.pending txId tx hlookup
  rw [hown]
  by_cases hid : id = txId
  · subst hid
    have htiers := (inOneTier_pending_iff hlookup hown).mp h
    refine (inOneTier_rejected_iff (AList.lookup_insert _) hown).mpr ⟨htiers.1, ?_⟩
    exact fun hmem => (AList.mem_erase.mp hmem).1 rfl
  · exact h.congr rfl (AList.lookup_erase_ne hid) (AList.lookup_insert_ne hid)

/-- Neither does a sweep. -/
theorem InOneTier.sweepExpired (h : ledger.InOneTier id) (hsound : ledger.Sound)
    (order : Traversal (Sigma fun _ : TxId => PendingTransaction)) (now : UInt64) :
    (ledger.sweepExpired order now).2.InOneTier id := by
  have hboth : (ledger.sweepExpired order now).2.Sound ∧
      (ledger.sweepExpired order now).2.InOneTier id :=
    sweepExpired_preserves (P := fun next => next.Sound ∧ next.InOneTier id) order
      (fun next txId hnext => ⟨hnext.1.reject now txId, hnext.2.reject hnext.1 now txId⟩)
      ⟨hsound, h⟩
  exact hboth.2

/-- A submitted payload is in one tier unless it is submitted while it is rejected. -/
theorem inOneTier_submit_iff (hsound : ledger.Sound) (payload : List UInt8)
    (submittedBy : ParticipantId) (threshold : ℕ) (now : UInt64)
    (hstored : computeTxId payload ∈ ledger.approved ∨ computeTxId payload ∈ ledger.pending →
      ledger.InOneTier (computeTxId payload)) :
    (ledger.submit payload submittedBy threshold now).2.InOneTier (computeTxId payload) ↔
      computeTxId payload ∉ ledger.rejected := by
  rw [submit_snd]
  split
  · next hold =>
    refine iff_of_true (hstored hold) ?_
    rcases hold with hold | hold
    · obtain ⟨tx, hlookup⟩ := HashTable.mem_iff_lookup.mp hold
      exact ((inOneTier_approved_iff hlookup (hsound.own.approved _ tx hlookup)).mp
        (hstored (Or.inl hold))).2
    · obtain ⟨tx, hlookup⟩ := HashTable.mem_iff_lookup.mp hold
      exact ((inOneTier_pending_iff hlookup (hsound.own.pending _ tx hlookup)).mp
        (hstored (Or.inr hold))).2
  · next hnew =>
    push Not at hnew
    have hown : (PendingTransaction.opened payload submittedBy threshold now).id =
        computeTxId payload := rfl
    exact (inOneTier_pending_iff (AList.lookup_insert _) hown).trans (and_iff_right hnew.1)

/-- A submission does not touch other transactions. -/
theorem InOneTier.submit (h : ledger.InOneTier id) (payload : List UInt8)
    (submittedBy : ParticipantId) (threshold : ℕ) (now : UInt64) (hid : id ≠ computeTxId payload) :
    (ledger.submit payload submittedBy threshold now).2.InOneTier id := by
  rw [submit_snd]
  split
  · exact h
  · exact h.congr rfl (AList.lookup_insert_ne hid) rfl

/-- The id that the call returns, if it submits a transaction. -/
def submittedId (ledger : TransactionLedger) : LedgerCall → Option TxId
  | .submit payload submittedBy threshold now =>
    some (ledger.submit payload submittedBy threshold now).1
  | _ => none

/-- The transaction is approved or may still be. -/
def Held (ledger : TransactionLedger) (id : TxId) : Prop :=
  id ∈ ledger.approved ∨ id ∈ ledger.pending

/-- A rejection makes no new transaction. -/
theorem held_of_reject {now : UInt64} {txId : TxId} (h : (ledger.reject now txId).Held id) :
    ledger.Held id := by
  revert h
  refine reject_preserves (P := fun next => next.Held id → ledger.Held id)
    (fun h => h) fun tx _ h => ?_
  exact h.imp_right fun hmem => (AList.mem_erase.mp hmem).2

/-- Only a submission brings in a transaction. -/
theorem held_of_call (hsound : ledger.Sound) {call : LedgerCall}
    (h : (ledger.call call).Held id) :
    ledger.Held id ∨ ledger.submittedId call = some id := by
  cases call with
  | submit payload submittedBy threshold now =>
    rw [TransactionLedger.call, submit_snd] at h
    rw [submittedId, submit_fst]
    split at h
    · exact Or.inl h
    · rcases h with h | h
      · exact Or.inl (Or.inl h)
      · rcases (AList.mem_insert _).mp h with rfl | h
        · exact Or.inr rfl
        · exact Or.inl (Or.inr h)
  | addPartialSignature txId partialSig =>
    left
    revert h
    refine addPartialSignature_preserves (P := fun next => next.Held id → ledger.Held id)
      (fun h => h) fun tx hlookup h => h.imp_right fun hmem => ?_
    rcases (AList.mem_insert _).mp hmem with rfl | hmem
    · exact HashTable.mem_iff_lookup.mpr ⟨tx, hlookup⟩
    · exact hmem
  | approve txId signature now =>
    left
    revert h
    refine approve_preserves (P := fun next => next.Held id → ledger.Held id)
      (fun h => h) fun tx hlookup h => ?_
    rw [hsound.own.pending txId tx hlookup] at h
    rcases h with h | h
    · rcases (AList.mem_insert _).mp h with rfl | h
      · exact Or.inr (HashTable.mem_iff_lookup.mpr ⟨tx, hlookup⟩)
      · exact Or.inl h
    · exact Or.inr (AList.mem_erase.mp h).2
  | sweepExpired order now =>
    have hkeeps : (ledger.call (.sweepExpired order now)).Held id → ledger.Held id :=
      sweepExpired_preserves (P := fun next => next.Held id → ledger.Held id) order
        (fun next txId hnext hheld => hnext (held_of_reject hheld)) fun hheld => hheld
    exact Or.inl (hkeeps h)

end TransactionLedger

/-! ## Runs -/

/-- The ledger together with all ids that `submit` has returned. -/
structure LedgerHistory where
  ledger : TransactionLedger
  returned : List TxId

namespace LedgerHistory

/-- A new ledger. -/
def new : LedgerHistory where
  ledger := .new
  returned := []

/-- The history after one more call. -/
def call (history : LedgerHistory) (call : LedgerCall) : LedgerHistory where
  ledger := history.ledger.call call
  returned := history.returned ++ (history.ledger.submittedId call).toList

/-- Every record is stored under its own id, and every returned id is in one tier. -/
structure Tiered (history : LedgerHistory) : Prop where
  own : history.ledger.OwnIds
  one : ∀ id ∈ history.returned, history.ledger.InOneTier id

/-- The payload of a call that submits one is not among the rejected ones. -/
def NotRejected (history : LedgerHistory) : LedgerCall → Prop
  | .submit payload _ _ _ => computeTxId payload ∉ history.ledger.rejected
  | _ => True

/-- What holds of the history in all runs. -/
structure Sound (history : LedgerHistory) : Prop where
  ledger : history.ledger.Sound
  submitted : ∀ id, history.ledger.Held id → id ∈ history.returned

variable {history : LedgerHistory}

/-- A history starts sound. -/
theorem sound_new : Sound (new : LedgerHistory) where
  ledger := TransactionLedger.sound_new
  submitted := by simp [new, TransactionLedger.new, TransactionLedger.Held]

/-- Every call keeps a history sound. -/
theorem Sound.call (h : history.Sound) (call : LedgerCall) : (history.call call).Sound := by
  refine ⟨h.ledger.call call, ?_⟩
  intro id hheld
  rcases TransactionLedger.held_of_call h.ledger hheld with hold | hnew
  · exact List.mem_append_left _ (h.submitted id hold)
  · refine List.mem_append_right _ ?_
    rw [hnew]
    exact List.mem_singleton_self id

/-- An empty history is tiered. -/
theorem tiered_new : Tiered (new : LedgerHistory) where
  own := TransactionLedger.sound_new.own
  one := by simp [new]

/-- A call keeps the tiers apart exactly when it submits no rejected payload. -/
theorem tiered_call_iff (hsound : history.Sound) (h : history.Tiered) (call : LedgerCall) :
    (history.call call).Tiered ↔ history.NotRejected call := by
  have hown : (history.call call).ledger.OwnIds := (hsound.ledger.call call).own
  cases call with
  | submit payload submittedBy threshold now =>
    have hone := TransactionLedger.inOneTier_submit_iff hsound.ledger payload submittedBy
      threshold now fun hstored => h.one _ (hsound.submitted _ hstored)
    have hreturned : (history.call (.submit payload submittedBy threshold now)).returned =
        history.returned ++ [computeTxId payload] := by
      rw [LedgerHistory.call, TransactionLedger.submittedId, TransactionLedger.submit_fst]
      rfl
    constructor
    · intro hnext
      refine hone.mp (hnext.one _ ?_)
      rw [hreturned]
      exact List.mem_append_right _ (List.mem_singleton_self _)
    · intro hguard
      refine ⟨hown, ?_⟩
      intro id hid
      by_cases hsame : id = computeTxId payload
      · rw [hsame]
        exact hone.mpr hguard
      · rw [hreturned] at hid
        have hold : id ∈ history.returned :=
          (List.mem_append.mp hid).resolve_right fun hnew => hsame (List.mem_singleton.mp hnew)
        exact (h.one id hold).submit payload submittedBy threshold now hsame
  | addPartialSignature txId partialSig =>
    refine iff_of_true ⟨hown, fun id hid => ?_⟩ trivial
    have hold := h.one id (by simpa [LedgerHistory.call, TransactionLedger.submittedId] using hid)
    exact hold.addPartialSignature hsound.ledger txId partialSig
  | approve txId signature now =>
    refine iff_of_true ⟨hown, fun id hid => ?_⟩ trivial
    have hold := h.one id (by simpa [LedgerHistory.call, TransactionLedger.submittedId] using hid)
    exact hold.approve hsound.ledger txId signature now
  | sweepExpired order now =>
    refine iff_of_true ⟨hown, fun id hid => ?_⟩ trivial
    have hold := h.one id (by simpa [LedgerHistory.call, TransactionLedger.submittedId] using hid)
    exact hold.sweepExpired hsound.ledger order now

/-- A history is sound throughout. -/
theorem sound_throughout (calls : List LedgerCall) :
    Run.Throughout LedgerHistory.call Sound new calls :=
  Run.throughout_of_step (fun _ call h => h.call call) sound_new

/-- **Tiers.** Every transaction stays in one tier exactly in the runs that never submit
a rejected payload again. -/
theorem tiered_throughout_iff (calls : List LedgerCall) :
    Run.Throughout LedgerHistory.call Tiered new calls ↔
      Run.Guarded LedgerHistory.call NotRejected new calls := by
  refine Run.throughout_iff_guarded_of ?_ tiered_new (sound_throughout calls).guarded
  intro history call htiered hsound
  exact tiered_call_iff hsound htiered call

omit [Curve] in
/-- A payload that is submitted again after it has expired is rejected and pending. -/
theorem resubmitted_in_two_tiers :
    letI := exponentCurve
    ¬ ∀ calls : List LedgerCall, ClockForward calls →
      Run.Throughout LedgerHistory.call Tiered new calls := by
  let := exponentCurve
  intro h
  let expired : List LedgerCall := [.submit [] 1 2 0, .sweepExpired .insertionOrder 86401]
  let again : LedgerCall := .submit [] 1 2 86401
  have htiered : Run.Throughout LedgerHistory.call Tiered new (expired ++ [again]) :=
    h _ (by decide)
  have hbefore : (Run.after LedgerHistory.call new expired).Tiered :=
    htiered expired (List.prefix_append _ _)
  have hafter : ((Run.after LedgerHistory.call new expired).call again).Tiered := htiered.last
  have hsound : (Run.after LedgerHistory.call new expired).Sound := (sound_throughout expired).last
  have hfresh := (tiered_call_iff hsound hbefore again).mp hafter
  have hrejected :
      computeTxId [] ∈ (Run.after LedgerHistory.call new expired).ledger.rejected := by
    decide +kernel
  exact hfresh hrejected

end LedgerHistory

end Sigimora.Mcp
