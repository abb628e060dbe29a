import Sigimora.Library.FirstEntries
import Sigimora.Mcp.LedgerTiers

/-!
# The signers of a pending transaction

A pending transaction keeps the first partial signature of every signer. Its count
and the answers to its callers are about signers, however often each of them signs
and in whatever order.
-/

namespace Sigimora.Mcp

variable [Curve]

namespace PendingTransaction

/-- The transaction after the partial signatures. -/
def addPartials (tx : PendingTransaction) (partials : List Ats.PartialSignature) :
    PendingTransaction :=
  Run.after (fun tx partialSig => (tx.addPartial partialSig).1) tx partials

/-- The answers to the calls. -/
def answers (tx : PendingTransaction) : List Ats.PartialSignature → List Bool
  | [] => []
  | partialSig :: rest =>
    (tx.addPartial partialSig).2 :: (tx.addPartial partialSig).1.answers rest

/-- The number of different signers. -/
def distinctIds (partials : List Ats.PartialSignature) : ℕ :=
  (partials.map Ats.PartialSignature.nodeId).toFinset.card

variable {tx : PendingTransaction} {partials partials' : List Ats.PartialSignature}
  {partialSig : Ats.PartialSignature}

/-! ## One call -/

/-- The transaction keeps the partial signature of a new signer. -/
theorem addPartial_fst (tx : PendingTransaction) (partialSig : Ats.PartialSignature) :
    (tx.addPartial partialSig).1 =
      if partialSig.nodeId ∈ tx.partialSigs.map Ats.PartialSignature.nodeId then tx
      else { tx with partialSigs := tx.partialSigs ++ [partialSig] } := by
  have hknown : (tx.partialSigs.any fun p => p.nodeId == partialSig.nodeId) = true ↔
      partialSig.nodeId ∈ tx.partialSigs.map Ats.PartialSignature.nodeId := by
    simp only [List.any_eq_true, beq_iff_eq, List.mem_map]
  unfold addPartial
  simp only [hknown]
  split <;> rfl

/-- The answer is whether the threshold is met after the call. -/
theorem addPartial_snd (tx : PendingTransaction) (partialSig : Ats.PartialSignature) :
    (tx.addPartial partialSig).2 = (tx.addPartial partialSig).1.isThresholdMet := by
  unfold addPartial
  dsimp only
  split <;> rfl

/-- A partial signature does not change the threshold. -/
@[simp] theorem threshold_addPartial (tx : PendingTransaction)
    (partialSig : Ats.PartialSignature) :
    (tx.addPartial partialSig).1.threshold = tx.threshold := by
  rw [addPartial_fst]
  split <;> rfl

/-! ## Sequences of calls -/

/-- The last partial signature is added last. -/
theorem addPartials_append_singleton :
    tx.addPartials (partials ++ [partialSig]) = ((tx.addPartials partials).addPartial
      partialSig).1 :=
  Run.after_append _

/-- The last answer is that to the last partial signature. -/
theorem answers_append_singleton : tx.answers (partials ++ [partialSig]) =
    tx.answers partials ++ [((tx.addPartials partials).addPartial partialSig).2] := by
  induction partials generalizing tx with
  | nil => rfl
  | cons first rest ih =>
    rw [List.cons_append, answers, ih, answers, List.cons_append]
    rfl

/-- No partial signatures change the threshold. -/
@[simp] theorem threshold_addPartials (tx : PendingTransaction)
    (partials : List Ats.PartialSignature) :
    (tx.addPartials partials).threshold = tx.threshold := by
  induction partials using List.reverseRecOn with
  | nil => rfl
  | append_singleton partials partialSig ih =>
    rw [addPartials_append_singleton, threshold_addPartial, ih]

/-- A transaction without partial signatures comes to hold the first one of every signer. -/
theorem partialSigs_addPartials (hfresh : tx.partialSigs = [])
    (partials : List Ats.PartialSignature) : (tx.addPartials partials).partialSigs =
      FirstEntries.ofEach Ats.PartialSignature.nodeId partials := by
  induction partials using List.reverseRecOn with
  | nil => exact hfresh
  | append_singleton partials partialSig ih =>
    rw [addPartials_append_singleton, addPartial_fst, FirstEntries.ofEach_append_singleton, ih]
    simp only [FirstEntries.mem_keys_ofEach]
    split
    · exact ih
    · rfl

/-- The threshold is met by the different ids that were added. -/
theorem isThresholdMet_addPartials (hfresh : tx.partialSigs = [])
    (partials : List Ats.PartialSignature) : (tx.addPartials partials).isThresholdMet = true ↔
      tx.threshold ≤ distinctIds partials := by
  rw [isThresholdMet, decide_eq_true_eq, ge_iff_le, signerCount, partialSigs_addPartials hfresh,
    FirstEntries.toFinset_keys_ofEach, threshold_addPartials, distinctIds]

/-- Each call answers whether there have been enough different signers. -/
theorem addPartial_addPartials (hfresh : tx.partialSigs = [])
    (partials : List Ats.PartialSignature) (partialSig : Ats.PartialSignature) :
    ((tx.addPartials partials).addPartial partialSig).2 = true ↔
      tx.threshold ≤ distinctIds (partials ++ [partialSig]) := by
  rw [addPartial_snd, ← addPartials_append_singleton, isThresholdMet_addPartials hfresh]

/-- More partial signatures have more ids. -/
theorem distinctIds_mono (h : partials ⊆ partials') :
    distinctIds partials ≤ distinctIds partials' := by
  refine Finset.card_le_card fun id hid => ?_
  rw [List.mem_toFinset] at hid ⊢
  exact List.map_subset _ h hid

/-- The order of partial signatures does not matter. -/
theorem distinctIds_perm (h : partials.Perm partials') :
    distinctIds partials = distinctIds partials' := by
  rw [distinctIds, distinctIds, List.toFinset_eq_of_perm _ _ (h.map _)]

/-- The last answer is whether there have been enough different signers. -/
theorem getLast?_answers (hfresh : tx.partialSigs = []) (partials : List Ats.PartialSignature) :
    (tx.answers partials).getLast? =
      if partials = [] then none else some (decide (tx.threshold ≤ distinctIds partials)) := by
  induction partials using List.reverseRecOn with
  | nil => rfl
  | append_singleton partials partialSig =>
    have hanswer : ((tx.addPartials partials).addPartial partialSig).2 =
        decide (tx.threshold ≤ distinctIds (partials ++ [partialSig])) := by
      rw [Bool.eq_iff_iff, addPartial_addPartials hfresh, decide_eq_true_eq]
    rw [answers_append_singleton, List.getLast?_concat, hanswer, if_neg (by simp)]

/-! ## A fresh transaction -/

/-- A transaction that holds the first partial signature of every signer and answers whether
there are enough signers, in whatever order they come. -/
structure CountsSigners (tx : PendingTransaction) : Prop where
  recorded : ∀ partials, (tx.addPartials partials).partialSigs =
    FirstEntries.ofEach Ats.PartialSignature.nodeId partials
  distinct : ∀ partials,
    ((tx.addPartials partials).partialSigs.map Ats.PartialSignature.nodeId).Nodup
  first : ∀ partials id, ((tx.addPartials partials).partialSigs.find? fun p => p.nodeId = id) =
    partials.find? fun p => p.nodeId = id
  answer : ∀ partials partialSig, ((tx.addPartials partials).addPartial partialSig).2 = true ↔
    tx.threshold ≤ distinctIds (partials ++ [partialSig])
  stays : ∀ partials partialSig more last,
    ((tx.addPartials partials).addPartial partialSig).2 = true →
    ((tx.addPartials (partials ++ partialSig :: more)).addPartial last).2 = true
  order : ∀ partials partials', partials.Perm partials' →
    ((tx.addPartials partials).partialSigs.map Ats.PartialSignature.nodeId).toFinset =
        ((tx.addPartials partials').partialSigs.map Ats.PartialSignature.nodeId).toFinset ∧
      (tx.answers partials).getLast? = (tx.answers partials').getLast?

/-- A new transaction counts its signers. -/
theorem countsSigners_of_fresh (hfresh : tx.partialSigs = []) : tx.CountsSigners := by
  refine ⟨partialSigs_addPartials hfresh, ?_, ?_, addPartial_addPartials hfresh, ?_, ?_⟩
  · intro partials
    rw [partialSigs_addPartials hfresh]
    exact FirstEntries.nodup_keys_ofEach partials
  · intro partials id
    rw [partialSigs_addPartials hfresh]
    exact FirstEntries.find?_ofEach partials id
  · intro partials partialSig more last hmet
    rw [addPartial_addPartials hfresh] at hmet ⊢
    have hsplit : partials ++ partialSig :: more ++ [last] =
        (partials ++ [partialSig]) ++ (more ++ [last]) := by simp
    rw [hsplit]
    exact le_trans hmet (distinctIds_mono (List.subset_append_left _ _))
  · intro partials partials' hperm
    have hempty : partials = [] ↔ partials' = [] := by
      rw [← List.length_eq_zero_iff, ← List.length_eq_zero_iff, hperm.length_eq]
    refine ⟨?_, ?_⟩
    · rw [partialSigs_addPartials hfresh, partialSigs_addPartials hfresh,
        FirstEntries.toFinset_keys_ofEach, FirstEntries.toFinset_keys_ofEach,
        List.toFinset_eq_of_perm _ _ (hperm.map _)]
    · simp only [getLast?_answers hfresh, distinctIds_perm hperm, hempty]

/-- **Pending transactions.** A transaction that has just been submitted counts signers. -/
theorem countsSigners_opened (payload : List UInt8) (submittedBy : ParticipantId)
    (threshold : ℕ) (now : UInt64) : (opened payload submittedBy threshold now).CountsSigners :=
  countsSigners_of_fresh rfl

end PendingTransaction

namespace TransactionLedger

variable {ledger : TransactionLedger} {txId : TxId} {tx : PendingTransaction}

/-- The calls on the ledger are calls on the pending transaction. -/
theorem lookup_addPartialSignatures (h : ledger.pending.lookup txId = some tx)
    (partials : List Ats.PartialSignature) :
    (Run.after (fun ledger partialSig => (ledger.addPartialSignature txId partialSig).2) ledger
      partials).pending.lookup txId = some (tx.addPartials partials) := by
  induction partials generalizing ledger tx with
  | nil => exact h
  | cons partialSig rest ih =>
    rw [Run.after_cons, addPartialSignature_snd h]
    exact ih (by rw [HashTable.lookup_insert, if_pos rfl])

/-- The ledger names a transaction as soon as it has enough different signers. -/
theorem addPartialSignature_fst_iff (h : ledger.pending.lookup txId = some tx)
    (hfresh : tx.partialSigs = []) (partials : List Ats.PartialSignature)
    (partialSig : Ats.PartialSignature) :
    ((Run.after (fun ledger partialSig => (ledger.addPartialSignature txId partialSig).2) ledger
      partials).addPartialSignature txId partialSig).1 = some txId ↔
      tx.threshold ≤ PendingTransaction.distinctIds (partials ++ [partialSig]) := by
  rw [addPartialSignature, lookup_addPartialSignatures h partials]
  rw [← PendingTransaction.addPartial_addPartials hfresh]
  dsimp only
  split
  · next hmet => exact iff_of_true rfl hmet
  · next hmet =>
    refine iff_of_false (fun h => ?_) hmet
    cases h

end TransactionLedger

end Sigimora.Mcp
