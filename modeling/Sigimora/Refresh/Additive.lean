import Sigimora.Crypto.Participants
import Sigimora.Library.Accumulate
import Sigimora.Library.Reader

/-!
# Additive refresh

Every party sends a random scalar to every other one and keeps a last scalar for
itself, which is meant to make the vector sum to zero. What it keeps is the sum of
the others less a draw of its own, where minus the sum of the others is called for.
-/

namespace Sigimora.Refresh

variable {ε : Type}

/-- One round of the loop over all parties, with the shares, the sum of the drawn ones and the
number of draws so far. -/
def drawShare (myId : ParticipantId) (coins : ℕ → Scalar) (acc : List Scalar × Scalar × ℕ)
    (i : ParticipantId) : List Scalar × Scalar × ℕ :=
  let (sharesToSend, sumOfShares, draws) := acc
  if i = myId then (sharesToSend ++ [0], sumOfShares, draws)
  else
    let share := coins draws
    (sharesToSend ++ [share], sumOfShares + share, draws + 1)

/-- The shares that one party sends, and its own draw, which is the first. -/
def additiveRefresh (n : ℕ) (myId : ParticipantId) (coins : ℕ → Scalar) :
    Outcome ε (List Scalar × Scalar) := do
  let myDelta := coins 0
  let (sharesToSend, sumOfShares, _) := (participants n).foldl (drawShare myId coins) ([], 0, 1)
  let myShareForSelf := -myDelta + sumOfShares
  let position ← Outcome.sub myId.toNat 1
  let _ ← Outcome.index sharesToSend position
  return (sharesToSend.set position myShareForSelf, myDelta)

/-- Add the received shares to a key. -/
def applyAdditiveRefresh (currentKey : Scalar) (receivedShares : List Scalar) : Scalar :=
  let deltaSum := receivedShares.foldl (fun acc share => acc + share) 0
  currentKey + deltaSum

/-- Whether the keys have kept their sum. -/
def verifyAdditiveInvariant (oldKeys newKeys : List Scalar) : Bool :=
  if oldKeys.length ≠ newKeys.length then false
  else
    let sums := (oldKeys.zip newKeys).foldl (fun (acc : Scalar × Scalar) entry =>
      (acc.1 + entry.1, acc.2 + entry.2)) (0, 0)
    sums.1 == sums.2

/-- One refresh of all parties: party `i` draws the coins `coins i`, and every party adds the
scalars at its own position in all vectors. -/
def refreshAll (keys : List Scalar) (coins : ℕ → ℕ → Scalar) :
    Outcome ε (List (List Scalar) × List Scalar) := do
  let vectors ← (List.range keys.length).mapM fun i => do
    let sent ← additiveRefresh keys.length (UInt16.ofNat (i + 1)) (coins i)
    return sent.1
  let newKeys ← keys.zipIdx.mapM fun entry => do
    let received ← vectors.mapM fun vector => Outcome.index vector entry.2
    return applyAdditiveRefresh entry.1 received
  return (vectors, newKeys)

/-- The sum of what a party of `n` draws for the others. -/
def sumForOthers (n : ℕ) (coins : ℕ → Scalar) : Scalar :=
  ((List.range (n - 1)).map fun k => coins (k + 1)).sum

/-! ## One vector -/

/-- Nothing is drawn for oneself. -/
theorem drawShare_self (myId : ParticipantId) (coins : ℕ → Scalar) (shares : List Scalar)
    (sum : Scalar) (k : ℕ) :
    drawShare myId coins (shares, sum, k) myId = (shares ++ [0], sum, k) := if_pos rfl

/-- For another party a share is drawn and added to the sum. -/
theorem drawShare_other {myId i : ParticipantId} (h : i ≠ myId) (coins : ℕ → Scalar)
    (shares : List Scalar) (sum : Scalar) (k : ℕ) :
    drawShare myId coins (shares, sum, k) i = (shares ++ [coins k], sum + coins k, k + 1) :=
  if_neg h

/-- The loop over parties other than the own one. -/
theorem foldl_drawShare {myId : ParticipantId} {others : List ParticipantId} (h : myId ∉ others)
    (coins : ℕ → Scalar) (shares : List Scalar) (sum : Scalar) (k : ℕ) :
    others.foldl (drawShare myId coins) (shares, sum, k) =
      (shares ++ (List.range others.length).map (fun j => coins (k + j)),
        sum + ((List.range others.length).map fun j => coins (k + j)).sum,
        k + others.length) := by
  induction others generalizing shares sum k with
  | nil => simp
  | cons i others ih =>
    rw [List.mem_cons, not_or] at h
    have hshift : (List.range (others.length + 1)).map (fun j => coins (k + j)) =
        coins k :: (List.range others.length).map fun j => coins (k + 1 + j) := by
      rw [List.range_succ_eq_map, List.map_cons, List.map_map, Nat.add_zero]
      refine congrArg _ (List.map_congr_left fun j _ => ?_)
      rw [Function.comp_apply, Nat.succ_eq_add_one, Nat.add_assoc, Nat.add_comm 1]
    rw [List.foldl_cons, drawShare_other (Ne.symm h.1), ih h.2, List.length_cons, hshift,
      List.sum_cons, List.append_assoc, List.singleton_append, add_assoc, Nat.add_assoc,
      Nat.add_comm 1]

/-- A vector has an entry for every party, and sums to twice what is sent less the own draw. -/
theorem exists_additiveRefresh {n i : ℕ} (hn : n ≤ 65535) (hi : i < n) (coins : ℕ → Scalar) :
    ∃ shares, (additiveRefresh n (UInt16.ofNat (i + 1)) coins : Outcome ε _) =
        .ok (shares, coins 0) ∧
      shares.length = n ∧ shares.sum = 2 * sumForOthers n coins - coins 0 := by
  obtain ⟨before, after, hids, hbefore, hafter, hnotBefore, hnotAfter⟩ :=
    exists_split_participants hn hi
  let front := (List.range i).map fun j => coins (1 + j)
  let back := (List.range after.length).map fun j => coins (1 + i + j)
  have hloop : (participants n).foldl (drawShare (UInt16.ofNat (i + 1)) coins) ([], 0, 1) =
      (front ++ 0 :: back, front.sum + back.sum, 1 + i + after.length) := by
    rw [hids, List.foldl_append, foldl_drawShare hnotBefore, List.foldl_cons, drawShare_self,
      foldl_drawShare hnotAfter, hbefore, List.nil_append, zero_add, List.append_assoc]
    rfl
  have hothers : front.sum + back.sum = sumForOthers n coins := by
    have hcount : n - 1 = i + after.length := by omega
    rw [sumForOthers, hcount, List.range_add, List.map_append, List.sum_append, List.map_map]
    refine congrArg₂ _ (congrArg List.sum ?_) (congrArg List.sum ?_)
    · exact List.map_congr_left fun j _ => by rw [Nat.add_comm]
    · refine List.map_congr_left fun j _ => ?_
      rw [Function.comp_apply, Nat.add_comm (i + j), Nat.add_assoc]
  have hfront : front.length = i := by rw [List.length_map, List.length_range]
  have hback : back.length = after.length := by rw [List.length_map, List.length_range]
  have hposition : (Outcome.sub (UInt16.ofNat (i + 1)).toNat 1 : Outcome ε ℕ) = .ok i := by
    rw [toNat_ofNat_of_le (by omega), Outcome.sub_of_le (by omega), Nat.add_sub_cancel]
  have hset (x : Scalar) : (front ++ 0 :: back).set i x = front ++ x :: back := by
    rw [List.set_append_right _ _ hfront.le, hfront, Nat.sub_self, List.set_cons_zero]
  refine ⟨front ++ (-coins 0 + (front.sum + back.sum)) :: back, ?_, ?_, ?_⟩
  · simp only [additiveRefresh, hloop, hposition, Outcome.ok_bind, Reader.index_append hfront, hset,
      Outcome.pure_eq_ok]
  · rw [List.length_append, List.length_cons, hfront, hback]
    omega
  · rw [List.sum_append, List.sum_cons, ← hothers]
    ring

/-! ## All vectors -/

/-- A refresh adds all the shares to the key. -/
theorem applyAdditiveRefresh_eq (currentKey : Scalar) (receivedShares : List Scalar) :
    applyAdditiveRefresh currentKey receivedShares = currentKey + receivedShares.sum := by
  rw [applyAdditiveRefresh, Accumulate.foldl_add fun share => share, zero_add, List.map_id']

/-- The check compares the sums of the keys. -/
theorem verifyAdditiveInvariant_iff {oldKeys newKeys : List Scalar}
    (hlength : oldKeys.length = newKeys.length) :
    verifyAdditiveInvariant oldKeys newKeys = true ↔ oldKeys.sum = newKeys.sum := by
  have hsums : (oldKeys.zip newKeys).foldl (fun (acc : Scalar × Scalar) entry =>
      (acc.1 + entry.1, acc.2 + entry.2)) (0, 0) = (oldKeys.sum, newKeys.sum) := by
    refine (Accumulate.foldl_add (fun entry : Scalar × Scalar => entry) _ (0, 0)).trans ?_
    rw [List.map_id', Prod.mk_zero_zero, zero_add]
    refine Prod.ext ?_ ?_
    · have hfst := map_list_sum (AddMonoidHom.fst Scalar Scalar) (oldKeys.zip newKeys)
      exact hfst.trans (congrArg List.sum (List.map_fst_zip hlength.le))
    · have hsnd := map_list_sum (AddMonoidHom.snd Scalar Scalar) (oldKeys.zip newKeys)
      exact hsnd.trans (congrArg List.sum (List.map_snd_zip hlength.ge))
  rw [verifyAdditiveInvariant, if_neg (not_not.mpr hlength), hsums, beq_iff_eq]

/-- The scalars at one position of all vectors. -/
def column (vectors : List (List Scalar)) (j : ℕ) : List Scalar :=
  vectors.map fun vector => vector.getD j 0

/-- What a party receives, and what it makes of its key. -/
theorem mapM_newKeys {keys : List Scalar} {vectors : List (List Scalar)}
    (hwidth : ∀ vector ∈ vectors, vector.length = keys.length) :
    (keys.zipIdx.mapM fun entry => do
      let received ← vectors.mapM fun vector => Outcome.index vector entry.2
      return applyAdditiveRefresh entry.1 received : Outcome ε _) =
      .ok (keys.zipIdx.map fun entry => entry.1 + (column vectors entry.2).sum) := by
  refine Outcome.mapM_eq_ok fun entry hentry => ?_
  have hreceived : (vectors.mapM fun vector => Outcome.index vector entry.2 : Outcome ε _) =
      .ok (column vectors entry.2) := by
    refine Outcome.mapM_eq_ok fun vector hvector => ?_
    have hj : entry.2 < vector.length := by
      rw [hwidth vector hvector]
      simpa using List.snd_lt_of_mem_zipIdx hentry
    rw [Outcome.index_eq_ok, List.getD_eq_getElem?_getD, List.getElem?_eq_getElem hj,
      Option.getD_some]
  rw [hreceived, Outcome.ok_bind, applyAdditiveRefresh_eq, Outcome.pure_eq_ok]

/-- All keys together receive all vectors. -/
theorem sum_newKeys {keys : List Scalar} {vectors : List (List Scalar)}
    (hwidth : ∀ vector ∈ vectors, vector.length = keys.length) :
    (keys.zipIdx.map fun entry => entry.1 + (column vectors entry.2).sum).sum =
      keys.sum + (vectors.map List.sum).sum := by
  have hkeys : keys.zipIdx.map Prod.fst = keys := List.zipIdx_map_fst 0 keys
  have hpositions : keys.zipIdx.map (fun entry => (column vectors entry.2).sum) =
      (List.range keys.length).map fun j => (column vectors j).sum := by
    rw [List.range_eq_range', ← List.zipIdx_map_snd 0 keys, List.map_map]
    rfl
  have hcolumns : ((List.range keys.length).map fun j => (column vectors j).sum).sum =
      (vectors.map List.sum).sum := Accumulate.sum_columns hwidth
  rw [List.sum_map_add, hpositions, hcolumns]
  exact congrArg (List.sum · + _) hkeys

/-- A refresh of at most 65535 parties returns, and the sum of the keys moves by all vectors. -/
theorem exists_refreshAll {keys : List Scalar} (hn : keys.length ≤ 65535)
    (coins : ℕ → ℕ → Scalar) :
    ∃ vectors newKeys, (refreshAll keys coins : Outcome ε _) = .ok (vectors, newKeys) ∧
      vectors.map List.sum = (List.range keys.length).map (fun i =>
        2 * sumForOthers keys.length (coins i) - coins i 0) ∧
      newKeys.length = keys.length ∧ newKeys.sum = keys.sum + (vectors.map List.sum).sum := by
  choose! shares hshares hlength hsum using fun i (hi : i < keys.length) =>
    exists_additiveRefresh (ε := ε) hn hi (coins i)
  let vectors := (List.range keys.length).map shares
  have hwidth : ∀ vector ∈ vectors, vector.length = keys.length := by
    intro vector hvector
    obtain ⟨i, hi, rfl⟩ := List.mem_map.mp hvector
    exact hlength i (List.mem_range.mp hi)
  have hsent : ((List.range keys.length).mapM fun i => do
      let sent ← additiveRefresh keys.length (UInt16.ofNat (i + 1)) (coins i)
      return sent.1 : Outcome ε _) = .ok vectors := by
    refine Outcome.mapM_eq_ok fun i hi => ?_
    rw [hshares i (List.mem_range.mp hi)]
    rfl
  refine ⟨vectors, _, ?_, ?_, ?_, sum_newKeys hwidth⟩
  · rw [refreshAll, hsent, Outcome.ok_bind, mapM_newKeys hwidth, Outcome.ok_bind,
      Outcome.pure_eq_ok]
  · rw [List.map_map]
    exact List.map_congr_left fun i hi => hsum i (List.mem_range.mp hi)
  · rw [List.length_map, List.length_zipIdx]

/-- With more parties than ids, one has the id zero and panics. -/
theorem refreshAll_ne_ok {keys : List Scalar} (hn : 65535 < keys.length) (coins : ℕ → ℕ → Scalar)
    (result : List (List Scalar) × List Scalar) :
    (refreshAll keys coins : Outcome ε _) ≠ .ok result := by
  intro h
  obtain ⟨vectors, hvectors, _⟩ := Outcome.bind_eq_ok.mp h
  obtain ⟨_, hsent⟩ := Outcome.exists_of_mapM_eq_ok hvectors (List.mem_range.mpr hn)
  obtain ⟨sent, hsent, _⟩ := Outcome.bind_eq_ok.mp hsent
  obtain ⟨position, hposition, _⟩ := Outcome.bind_eq_ok.mp hsent
  exact absurd (Outcome.sub_eq_ok_iff.mp hposition).1 (by decide)

/-! ## What a refresh keeps -/

/-- The refresh returns, and the keys have kept their sum. -/
def KeepsSum (keys : List Scalar) (coins : ℕ → ℕ → Scalar) : Prop :=
  ∃ vectors newKeys, (refreshAll keys coins : Outcome Empty _) = .ok (vectors, newKeys) ∧
    verifyAdditiveInvariant keys newKeys = true

/-- The refresh returns, every vector sums to zero, and the keys have kept their sum. -/
def KeepsSumByVectors (keys : List Scalar) (coins : ℕ → ℕ → Scalar) : Prop :=
  ∃ vectors newKeys, (refreshAll keys coins : Outcome Empty _) = .ok (vectors, newKeys) ∧
    (∀ vector ∈ vectors, vector.sum = 0) ∧ verifyAdditiveInvariant keys newKeys = true

variable {keys : List Scalar} {coins : ℕ → ℕ → Scalar}

/-- The sum is kept just if the draws of all parties cancel out. -/
theorem keepsSum_iff :
    KeepsSum keys coins ↔ keys.length ≤ 65535 ∧
      ((List.range keys.length).map fun i =>
        2 * sumForOthers keys.length (coins i) - coins i 0).sum = 0 := by
  by_cases hn : keys.length ≤ 65535
  · obtain ⟨vectors, newKeys, hok, hvectors, hlength, hsum⟩ :=
      exists_refreshAll (ε := Empty) hn coins
    rw [and_iff_right hn, ← hvectors]
    have hinvariant := verifyAdditiveInvariant_iff hlength.symm
    rw [hsum, left_eq_add] at hinvariant
    rw [← hinvariant]
    constructor
    · rintro ⟨vectors', newKeys', hok', hkept⟩
      rw [hok, Except.ok.injEq, Prod.mk.injEq] at hok'
      rwa [hok'.2]
    · intro hkept
      exact ⟨vectors, newKeys, hok, hkept⟩
  · refine iff_of_false ?_ fun h => hn h.1
    rintro ⟨vectors, newKeys, hok, _⟩
    exact refreshAll_ne_ok (not_le.mp hn) coins _ hok

/-- Every vector keeps the sum just if the draws of each party cancel out. -/
theorem keepsSumByVectors_iff :
    KeepsSumByVectors keys coins ↔ keys.length ≤ 65535 ∧
      ∀ i < keys.length, coins i 0 = 2 * sumForOthers keys.length (coins i) := by
  by_cases hn : keys.length ≤ 65535
  · obtain ⟨vectors, newKeys, hok, hvectors, hlength, hsum⟩ :=
      exists_refreshAll (ε := Empty) hn coins
    rw [and_iff_right hn]
    constructor
    · rintro ⟨vectors', newKeys', hok', hzero, _⟩ i hi
      rw [hok, Except.ok.injEq, Prod.mk.injEq] at hok'
      have hmem : 2 * sumForOthers keys.length (coins i) - coins i 0 ∈ vectors.map List.sum := by
        rw [hvectors]
        exact List.mem_map.mpr ⟨i, List.mem_range.mpr hi, rfl⟩
      obtain ⟨vector, hvector, hsurplus⟩ := List.mem_map.mp hmem
      rw [hzero vector (hok'.1 ▸ hvector)] at hsurplus
      exact (sub_eq_zero.mp hsurplus.symm).symm
    · intro hdraws
      have hzero : ∀ surplus ∈ vectors.map List.sum, surplus = 0 := by
        intro surplus hsurplus
        rw [hvectors] at hsurplus
        obtain ⟨i, hi, rfl⟩ := List.mem_map.mp hsurplus
        rw [hdraws i (List.mem_range.mp hi), sub_self]
      refine ⟨vectors, newKeys, hok, fun vector hvector => hzero _ (List.mem_map_of_mem hvector),
        (verifyAdditiveInvariant_iff hlength.symm).mpr ?_⟩
      rw [hsum, List.sum_eq_zero hzero, add_zero]
  · refine iff_of_false ?_ fun h => hn h.1
    rintro ⟨vectors, newKeys, hok, _⟩
    exact refreshAll_ne_ok (not_le.mp hn) coins _ hok

/-- **Additive refresh.** The vectors sum to zero, and with them the keys keep their sum, exactly
if every party's own draw is twice the sum of its draws for the others. For the keys alone it is
enough that the surpluses of all parties cancel. -/
theorem additive_refresh_keeps_iff (keys : List Scalar) (coins : ℕ → ℕ → Scalar) :
    (KeepsSumByVectors keys coins ↔ keys.length ≤ 65535 ∧
      ∀ i < keys.length, coins i 0 = 2 * sumForOthers keys.length (coins i)) ∧
    (KeepsSum keys coins ↔ keys.length ≤ 65535 ∧
      ((List.range keys.length).map fun i =>
        2 * sumForOthers keys.length (coins i) - coins i 0).sum = 0) :=
  ⟨keepsSumByVectors_iff, keepsSum_iff⟩

/-- Two parties that draw nothing but ones add two to the sum of their keys. -/
theorem draws_of_one_change_sum : ¬ KeepsSum [5, 7] fun _ _ => 1 := by
  rw [keepsSum_iff]
  rintro ⟨_, hsurplus⟩
  exact absurd hsurplus (by decide +kernel)

end Sigimora.Refresh
