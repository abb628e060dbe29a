import Sigimora.Crypto.DkgCalls
import Sigimora.Library.SortedList
import Sigimora.Math.ExponentCurve

/-!
# What enters the key material

The sums of `finalize` are written out as lists of terms, each with the party
that contributed it. Finishing compares the number of recorded shares with the
number of qualified parties, so it goes through on incomplete data when a share
was recorded twice. The data is complete exactly when every qualified party was
recorded once.
-/

namespace Sigimora

open Pedersen

/-- Where a term of a sum comes from: the party itself or a message. -/
inductive Contributor
  | own
  | sender (id : ParticipantId)
  deriving DecidableEq

variable [Curve]

namespace DkgState

/-- The terms of the key share. -/
def shareTerms (state : DkgState) : List (Contributor × Scalar) :=
  (state.receivedShares.filter fun entry => entry.1 ∈ state.qualSet).map
      (fun entry => (.sender entry.1, entry.2.value)) ++
    if state.myId ∈ state.qualSet then
      (state.myVssPoly.map fun poly => (Contributor.own, (poly.eval state.myId).value)).toList
    else []

/-- The terms of the collective public key. -/
def keyTerms (state : DkgState) : List (Contributor × G2Point) :=
  (if state.myId ∈ state.qualSet then
      (state.myPublicKey.map fun myPk => (Contributor.own, myPk)).toList
    else []) ++
  (state.receivedPublicKeys.filter fun entry => entry.1 ∈ state.qualSet).map
    fun entry => (.sender entry.1, entry.2)

/-- All public keys by their ids, those of parties that are not qualified included. -/
def contributionPks (state : DkgState) : List (ParticipantId × G2Point) :=
  (state.myPublicKey.map fun myPk => (state.myId, myPk)).toList ++ state.receivedPublicKeys

/-- The public keys in the order of their ids. -/
def sortedPks (state : DkgState) : List (ParticipantId × G2Point) :=
  state.contributionPks.mergeSort fun a b => a.1 ≤ b.1

/-- The contributor that stands for the party `i`. -/
def contributor (state : DkgState) (i : ParticipantId) : Contributor :=
  if i = state.myId then .own else .sender i

/-- The contributors that belong in the sums. -/
def Entitled (state : DkgState) : Contributor → Prop
  | .own => state.myId ∈ state.qualSet
  | .sender i => i ∈ state.qualSet ∧ i ≠ state.myId

instance (state : DkgState) : DecidablePred state.Entitled
  | .own => inferInstanceAs (Decidable (state.myId ∈ state.qualSet))
  | .sender i => inferInstanceAs (Decidable (i ∈ state.qualSet ∧ i ≠ state.myId))

/-- Finishing fails: nobody is qualified, shares are missing, or no key counts. -/
def Refuses (state : DkgState) : Prop :=
  state.qualSet = [] ∨
    (state.receivedShares.filter fun entry => entry.1 ∈ state.qualSet).length <
      state.qualSet.length - 1 ∨
    state.keyTerms = []

/-- One share and one key of every other qualified party were recorded, and
nothing under the id of the party itself. -/
structure HeardOnce (state : DkgState) : Prop where
  others : ∀ i ∈ state.qualSet, i ≠ state.myId →
    (state.receivedShares.map Prod.fst).count i = 1 ∧
      (state.receivedPublicKeys.map Prod.fst).count i = 1
  nobodyElse : state.myId ∈ state.qualSet →
    state.myId ∉ state.receivedShares.map Prod.fst ∧
      state.myId ∉ state.receivedPublicKeys.map Prod.fst

/-- Every qualified party was recorded once, the party itself has started, and
the keys are recorded so that sorting puts each at its place. -/
structure RecordedOnce (state : DkgState) : Prop extends HeardOnce state where
  started : state.myId ∈ state.qualSet → state.myVssPoly.isSome ∧ state.myPublicKey.isSome
  below : ∀ i ∈ state.qualSet,
    i.toNat - 1 = (state.contributionPks.map Prod.fst).countP (· < i)

/-- The output is made of one share and one key of every qualified party and of
nothing else, and lists the key of each at its place. -/
structure CompleteOutput (state : DkgState) (output : DkgOutput) : Prop where
  mySecret : output.mySecret = (state.shareTerms.map Prod.snd).sum
  collectivePk : output.collectivePk = (state.keyTerms.map Prod.snd).sum
  shares : ∀ c, (state.shareTerms.map Prod.fst).count c = if state.Entitled c then 1 else 0
  keys : ∀ c, (state.keyTerms.map Prod.fst).count c = if state.Entitled c then 1 else 0
  allPublicKeys : output.allPublicKeys = state.sortedPks.map Prod.snd
  placed : ∀ i ∈ output.qualSet, ∃ key, (state.contributor i, key) ∈ state.keyTerms ∧
    state.sortedPks[i.toNat - 1]? = some (i, key)

variable {state : DkgState}

/-! ## The sums -/

/-- The share is the sum of its terms. -/
theorem computeSecretShare_eq_terms (state : DkgState) :
    state.computeSecretShare = some (state.shareTerms.map Prod.snd).sum := by
  have hreceived := Accumulate.foldl_add_if
    (fun entry : ParticipantId × VssShare => entry.1 ∈ state.qualSet)
    (fun entry => entry.2.value) state.receivedShares 0
  unfold computeSecretShare shareTerms
  simp only [hreceived, zero_add, List.map_append, List.map_map, List.sum_append]
  split
  · cases state.myVssPoly with
    | none => simp [Function.comp_def]
    | some poly => simp [Function.comp_def]
  · simp [Function.comp_def]

/-- The key is the sum of its terms, and they are counted. -/
theorem sumPublicKeys_eq_terms (state : DkgState) :
    state.sumPublicKeys = ((state.keyTerms.map Prod.snd).sum, state.keyTerms.length) := by
  unfold sumPublicKeys keyTerms
  rw [Accumulate.foldl_add_count_if
    (fun entry : ParticipantId × G2Point => entry.1 ∈ state.qualSet) Prod.snd]
  simp only [List.map_append, List.map_map, List.sum_append, List.length_append, List.length_map]
  split
  · cases state.myPublicKey with
    | none => simp [Function.comp_def]
    | some myPk => simp [Function.comp_def]
  · simp [Function.comp_def]

/-- When and with what finishing succeeds. -/
theorem finalize_eq_ok_iff {output : DkgOutput} :
    state.finalize.1 = .ok output ↔ ¬ state.buildQualSet.Refuses ∧
      output = state.buildQualSet.outputFor (state.buildQualSet.shareTerms.map Prod.snd).sum
        (state.buildQualSet.keyTerms.map Prod.snd).sum := by
  unfold finalize Refuses
  simp only [List.length_eq_zero_iff]
  split
  · rename_i hempty
    constructor
    · intro h
      cases h
    · rintro ⟨hnot, _⟩
      exact absurd (Or.inl hempty) hnot
  rename_i hnonempty
  split
  · rename_i hfew
    constructor
    · intro h
      cases h
    · rintro ⟨hnot, _⟩
      exact absurd (Or.inr (Or.inl hfew)) hnot
  rename_i henough
  rw [computeSecretShare_eq_terms, computeCollectivePublicKey, sumPublicKeys_eq_terms]
  simp only [List.length_eq_zero_iff]
  by_cases hkeys : state.buildQualSet.keyTerms = []
  · rw [if_pos hkeys]
    constructor
    · intro h
      cases h
    · rintro ⟨hnot, _⟩
      exact absurd (Or.inr (Or.inr hkeys)) hnot
  · rw [if_neg hkeys]
    have haccepts : ¬ (state.buildQualSet.qualSet = [] ∨
        (state.buildQualSet.receivedShares.filter fun entry =>
          entry.1 ∈ state.buildQualSet.qualSet).length < state.buildQualSet.qualSet.length - 1 ∨
        state.buildQualSet.keyTerms = []) := by
      rintro (h | h | h)
      · exact hnonempty h
      · exact henough h
      · exact hkeys h
    rw [and_iff_right haccepts, Except.ok.injEq, eq_comm]

/-- Finishing does not panic: it fails with an error exactly when it refuses. -/
theorem exists_finalize_eq_err_iff :
    (∃ e, state.finalize.1 = .error (.err e)) ↔ state.buildQualSet.Refuses := by
  constructor
  · rintro ⟨e, he⟩
    by_contra hnot
    rw [finalize_eq_ok_iff.mpr ⟨hnot, rfl⟩] at he
    cases he
  · intro hrefuses
    match hresult : state.finalize.1 with
    | .ok output => exact absurd hrefuses (finalize_eq_ok_iff.mp hresult).1
    | .error (.err e) => exact ⟨e, rfl⟩
    | .error (.panic message) =>
      exfalso
      revert hresult
      unfold finalize
      simp only [computeSecretShare_eq_terms]
      split
      · exact fun h => by cases h
      split
      · exact fun h => by cases h
      split
      · exact fun h => by cases h
      · exact fun h => by cases h

/-! ## Counting the contributors -/

/-- How often a qualified sender contributes. -/
theorem count_sender {β : Type} (entries : List (ParticipantId × β)) (i : ParticipantId) :
    ((entries.filter fun entry => entry.1 ∈ state.qualSet).map
      fun entry => Contributor.sender entry.1).count (.sender i) =
      if i ∈ state.qualSet then (entries.map Prod.fst).count i else 0 := by
  induction entries with
  | nil => simp
  | cons entry entries ih =>
    by_cases hentry : entry.1 ∈ state.qualSet
    · by_cases hid : entry.1 = i
      · subst hid
        simp [hentry, ih]
      · simp [hentry, ih, hid]
    · by_cases hid : entry.1 = i
      · subst hid
        simp [hentry, ih]
      · simp [hentry, ih, hid]

/-- How often the own value contributes. -/
theorem count_own {γ : Type} (own : Option γ) :
    (if state.myId ∈ state.qualSet then (own.map fun _ => Contributor.own).toList
      else []).count .own = if state.myId ∈ state.qualSet ∧ own.isSome then 1 else 0 := by
  by_cases hqual : state.myId ∈ state.qualSet
  · cases own <;> simp [hqual]
  · simp [hqual]

/-- The own value is of no sender. -/
theorem count_sender_own {γ : Type} (own : Option γ) (i : ParticipantId) :
    (if state.myId ∈ state.qualSet then (own.map fun _ => Contributor.own).toList
      else []).count (.sender i) = 0 := by
  by_cases hqual : state.myId ∈ state.qualSet
  · cases own <;> simp [hqual]
  · simp [hqual]

/-- The contributors of one sum are the entitled ones, each once, when every other
qualified party has one entry and the party itself has its own and no other. -/
theorem contributors_iff {β γ : Type} (entries : List (ParticipantId × β)) (own : Option γ) :
    (∀ c, ((entries.filter fun entry => entry.1 ∈ state.qualSet).map
          fun entry => Contributor.sender entry.1).count c +
        (if state.myId ∈ state.qualSet then (own.map fun _ => Contributor.own).toList
          else []).count c = if state.Entitled c then 1 else 0) ↔
      (∀ i ∈ state.qualSet, i ≠ state.myId → (entries.map Prod.fst).count i = 1) ∧
      (state.myId ∈ state.qualSet → own.isSome ∧ state.myId ∉ entries.map Prod.fst) := by
  have hsenderOwn : ((entries.filter fun entry => entry.1 ∈ state.qualSet).map
      fun entry => Contributor.sender entry.1).count .own = 0 := by
    rw [List.count_eq_zero]
    simp
  constructor
  · intro h
    constructor
    · intro i hi hne
      have hcount := h (.sender i)
      rw [count_sender, count_sender_own, if_pos hi, if_pos ⟨hi, hne⟩] at hcount
      exact hcount
    · intro hqual
      have hcountOwn := h .own
      have hcountSender := h (.sender state.myId)
      have hnot : ¬ state.Entitled (.sender state.myId) := fun hent => hent.2 rfl
      rw [hsenderOwn, count_own, if_pos (show state.Entitled .own from hqual)] at hcountOwn
      rw [count_sender, count_sender_own, if_pos hqual, if_neg hnot] at hcountSender
      refine ⟨?_, List.count_eq_zero.mp hcountSender⟩
      by_contra hnone
      rw [if_neg (by simp [hnone])] at hcountOwn
      cases hcountOwn
  · rintro ⟨hothers, hmine⟩ c
    cases c with
    | own =>
      rw [hsenderOwn, count_own]
      by_cases hqual : state.myId ∈ state.qualSet
      · rw [if_pos ⟨hqual, (hmine hqual).1⟩, if_pos (show state.Entitled .own from hqual)]
      · rw [if_neg fun h => hqual h.1, if_neg (show ¬ state.Entitled .own from hqual)]
    | sender i =>
      rw [count_sender, count_sender_own]
      by_cases hi : i ∈ state.qualSet
      · by_cases hne : i = state.myId
        · subst hne
          have hnot : ¬ state.Entitled (.sender state.myId) := fun hent => hent.2 rfl
          rw [if_pos hi, if_neg hnot, List.count_eq_zero.mpr (hmine hi).2]
        · rw [if_pos hi, if_pos ⟨hi, hne⟩, hothers i hi hne]
      · rw [if_neg hi, if_neg fun hent => hi hent.1]

/-- The share has each entitled party's term once just if all the shares were received. -/
theorem shareTerms_iff :
    (∀ c, (state.shareTerms.map Prod.fst).count c = if state.Entitled c then 1 else 0) ↔
      (∀ i ∈ state.qualSet, i ≠ state.myId → (state.receivedShares.map Prod.fst).count i = 1) ∧
      (state.myId ∈ state.qualSet → state.myVssPoly.isSome ∧
        state.myId ∉ state.receivedShares.map Prod.fst) := by
  rw [← contributors_iff]
  refine forall_congr' fun c => ?_
  rw [shareTerms, List.map_append, List.count_append, List.map_map]
  split <;> cases state.myVssPoly <;> rfl

/-- The key has each entitled party's term once just if all the keys were received. -/
theorem keyTerms_iff :
    (∀ c, (state.keyTerms.map Prod.fst).count c = if state.Entitled c then 1 else 0) ↔
      (∀ i ∈ state.qualSet, i ≠ state.myId →
        (state.receivedPublicKeys.map Prod.fst).count i = 1) ∧
      (state.myId ∈ state.qualSet → state.myPublicKey.isSome ∧
        state.myId ∉ state.receivedPublicKeys.map Prod.fst) := by
  rw [← contributors_iff]
  refine forall_congr' fun c => ?_
  rw [keyTerms, List.map_append, List.count_append, List.map_map, Nat.add_comm]
  split <;> cases state.myPublicKey <;> rfl

/-- A party that contributes one key has one key among all. -/
theorem exists_contributionKey
    (hothers : ∀ i ∈ state.qualSet, i ≠ state.myId →
      (state.receivedPublicKeys.map Prod.fst).count i = 1)
    (hmine : state.myId ∈ state.qualSet → state.myPublicKey.isSome ∧
      state.myId ∉ state.receivedPublicKeys.map Prod.fst) {i : ParticipantId}
    (hi : i ∈ state.qualSet) :
    (state.contributionPks.map Prod.fst).count i = 1 ∧
      ∃ key, (state.contributor i, key) ∈ state.keyTerms ∧ (i, key) ∈ state.contributionPks := by
  unfold contributionPks contributor keyTerms
  rw [List.map_append, List.count_append]
  by_cases hme : i = state.myId
  · subst hme
    obtain ⟨hstarted, hnone⟩ := hmine hi
    obtain ⟨myPk, hmyPk⟩ := Option.isSome_iff_exists.mp hstarted
    rw [hmyPk, List.count_eq_zero.mpr hnone]
    refine ⟨?_, myPk, ?_, ?_⟩
    · simp
    · simp [hi]
    · simp
  · have hone := hothers i hi hme
    have hown : ((state.myPublicKey.map fun myPk => (state.myId, myPk)).toList.map
        Prod.fst).count i = 0 := by
      rw [List.count_eq_zero]
      cases state.myPublicKey <;> simp [hme]
    have hmem : i ∈ state.receivedPublicKeys.map Prod.fst := by
      rw [← List.count_pos_iff, hone]
      exact one_pos
    obtain ⟨⟨_, key⟩, hentry, rfl⟩ := List.mem_map.mp hmem
    refine ⟨by rw [hown, hone], key, ?_, List.mem_append_right _ hentry⟩
    rw [if_neg hme]
    refine List.mem_append_right _ (List.mem_map.mpr ⟨_, ?_, rfl⟩)
    exact List.mem_filter.mpr ⟨hentry, decide_eq_true hi⟩

/-- Given one key of every qualified party, each stands at its place when the
number of smaller ids is right. -/
theorem placed_iff {i : ParticipantId}
    (hone : (state.contributionPks.map Prod.fst).count i = 1) {key : G2Point}
    (hkey : (i, key) ∈ state.contributionPks) :
    state.sortedPks[i.toNat - 1]? = some (i, key) ↔
      i.toNat - 1 = (state.contributionPks.map Prod.fst).countP (· < i) := by
  let number (entry : ParticipantId × G2Point) : ℕ := entry.1.toNat
  have horder : state.sortedPks =
      state.contributionPks.mergeSort fun a b => number a ≤ number b := by
    simp only [sortedPks, UInt16.le_iff_toNat_le, number]
  have hnumbers : state.contributionPks.map number =
      (state.contributionPks.map Prod.fst).map UInt16.toNat := by
    rw [List.map_map]
    rfl
  have hcount : (state.contributionPks.map number).count i.toNat = 1 := by
    rw [hnumbers, List.count_map_of_injective _ _ fun _ _ => UInt16.toNat_inj.mp]
    exact hone
  have hsmaller : (state.contributionPks.map number).countP (· < i.toNat) =
      (state.contributionPks.map Prod.fst).countP (· < i) := by
    rw [hnumbers, List.countP_map]
    simp only [Function.comp_def, UInt16.lt_iff_toNat_lt]
  rw [horder, ← hsmaller]
  exact SortedList.getElem?_mergeSort_eq_some_iff (e := (i, key)) hkey hcount

/-- The output is complete exactly when every qualified party was recorded once. -/
theorem completeOutput_iff {share : Scalar} {pk : G2Point}
    (hshare : share = (state.shareTerms.map Prod.snd).sum)
    (hpk : pk = (state.keyTerms.map Prod.snd).sum) :
    state.CompleteOutput (state.outputFor share pk) ↔ state.RecordedOnce := by
  constructor
  · intro h
    obtain ⟨hshares, hmyShare⟩ := shareTerms_iff.mp h.shares
    obtain ⟨hkeys, hmyKey⟩ := keyTerms_iff.mp h.keys
    refine ⟨⟨fun i hi hne => ⟨hshares i hi hne, hkeys i hi hne⟩, ?_⟩, ?_, ?_⟩
    · intro hqual
      exact ⟨(hmyShare hqual).2, (hmyKey hqual).2⟩
    · intro hqual
      exact ⟨(hmyShare hqual).1, (hmyKey hqual).1⟩
    · intro i hi
      obtain ⟨hone, _⟩ := exists_contributionKey hkeys hmyKey hi
      obtain ⟨key, _, hplace⟩ := h.placed i hi
      have hmem : (i, key) ∈ state.contributionPks :=
        List.mem_mergeSort.mp (List.mem_of_getElem? hplace)
      exact (placed_iff hone hmem).mp hplace
  · intro h
    have hshares : ∀ i ∈ state.qualSet, i ≠ state.myId →
        (state.receivedShares.map Prod.fst).count i = 1 := fun i hi hne => (h.others i hi hne).1
    have hkeys : ∀ i ∈ state.qualSet, i ≠ state.myId →
        (state.receivedPublicKeys.map Prod.fst).count i = 1 :=
      fun i hi hne => (h.others i hi hne).2
    have hmyKey (hqual : state.myId ∈ state.qualSet) :=
      And.intro (h.started hqual).2 (h.nobodyElse hqual).2
    refine ⟨hshare, hpk, shareTerms_iff.mpr ⟨hshares, ?_⟩, keyTerms_iff.mpr ⟨hkeys, hmyKey⟩,
      rfl, ?_⟩
    · intro hqual
      exact ⟨(h.started hqual).1, (h.nobodyElse hqual).1⟩
    · intro i hi
      obtain ⟨hone, key, hterm, hmem⟩ := exists_contributionKey hkeys hmyKey hi
      exact ⟨key, hterm, (placed_iff hone hmem).mpr (h.below i hi)⟩

/-- **Finishing.** The output of a party is complete whenever it finishes exactly
when it refuses to finish or every qualified party was recorded once. -/
theorem finalize_complete_iff (state : DkgState) :
    (∀ output, state.finalize.1 = .ok output → state.buildQualSet.CompleteOutput output) ↔
      state.buildQualSet.Refuses ∨ state.buildQualSet.RecordedOnce := by
  have hcomplete : state.buildQualSet.CompleteOutput (state.buildQualSet.outputFor _ _) ↔
      state.buildQualSet.RecordedOnce := completeOutput_iff rfl rfl
  simp only [finalize_eq_ok_iff]
  constructor
  · intro h
    by_cases hrefuses : state.buildQualSet.Refuses
    · exact Or.inl hrefuses
    · exact Or.inr (hcomplete.mp (h _ ⟨hrefuses, rfl⟩))
  · rintro (hrefuses | honce) output ⟨hnot, rfl⟩
    · exact absurd hrefuses hnot
    · exact hcomplete.mpr honce

omit [Curve] in
/-- A share that is recorded twice makes up for the missing one of the third party. -/
theorem finalize_on_repeated_share :
    letI := exponentCurve
    ¬ ∀ (n t : ℕ) (myId : ParticipantId) (ped : PedersenSetup) (state : DkgState)
      (calls : List DkgCall) (output : DkgOutput),
      (DkgState.new n t myId ped : Outcome CryptoError DkgState) = .ok state →
      (Run.after DkgState.call state calls).finalize.1 = .ok output →
      (Run.after DkgState.call state calls).buildQualSet.CompleteOutput output := by
  let := exponentCurve
  intro h
  let calls : List DkgCall :=
    [.start fun _ => 5, .processReceivedShare 2 ⟨1, 1, 1⟩, .processReceivedShare 2 ⟨1, 1, 1⟩]
  let final := Run.after DkgState.call (DkgState.initial 3 1 1 PedersenSetup.deterministic) calls
  have hnew : (DkgState.new 3 1 1 PedersenSetup.deterministic : Outcome CryptoError DkgState) =
      .ok (DkgState.initial 3 1 1 PedersenSetup.deterministic) := rfl
  have hqual : final.buildQualSet.qualSet = [1, 2, 3] := by decide +kernel
  have haccepts : ¬ final.buildQualSet.Refuses := by
    rintro (hnobody | hfew | hkeys)
    · rw [hqual] at hnobody
      cases hnobody
    · exact absurd hfew (by decide +kernel)
    · have hown : final.buildQualSet.keyTerms.length = 1 := by decide +kernel
      rw [hkeys] at hown
      cases hown
  have honce := completeOutput_iff rfl rfl |>.mp
    (h 3 1 1 PedersenSetup.deterministic _ calls _ hnew (finalize_eq_ok_iff.mpr ⟨haccepts, rfl⟩))
  have hthird : (final.buildQualSet.receivedShares.map Prod.fst).count 3 = 1 := by
    refine (honce.others 3 ?_ (by decide)).1
    rw [hqual]
    decide
  exact absurd hthird (by decide)

end DkgState

end Sigimora
