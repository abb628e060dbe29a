import Sigimora.Server.KeyRequests
import Sigimora.Server.Quorum

/-!
# Where stored keys come from

Requests that run side by side share the rows of a network. The order of their
statements alone decides, for each row, through which key generation and which
refreshes its share went: a key generation starts a new epoch in a row, and a
refresh advances the epoch that it has read. The shares of one epoch, taken over
all rows, interpolate to the secret of the key generation that it started from.
-/

namespace Sigimora.Server

open Program

/-! ## Epochs -/

/-- The origin of a share: as it was found, or as written by the request `i`. -/
inductive KeyEpoch (ι : Type)
  | initial
  | dkg (i : ι)
  | refresh (i : ι) (base : KeyEpoch ι)
  deriving DecidableEq

/-- The key generation that an epoch started from; `none` is the one before the run. -/
def KeyEpoch.origin {ι : Type} : KeyEpoch ι → Option ι
  | initial => none
  | dkg i => some i
  | refresh _ base => base.origin

/-- The rows of the given nodes are in one epoch, and it is one of the given key. -/
def OneEpoch {ι : Type} (ids : List ParticipantId) (row : ParticipantId → KeyEpoch ι)
    (key : Option ι) : Prop :=
  ∃ epoch, epoch.origin = key ∧ ∀ id ∈ ids, row id = epoch

section Shares

variable [Curve] {ι : Type} (n t : ℕ) (coins : ι → PartyDraws) (share₀ : ParticipantId → Scalar)
  (sk₀ : Scalar)

/-- The shares of an epoch. -/
def KeyEpoch.share : KeyEpoch ι → ParticipantId → Scalar
  | initial => share₀
  | dkg i => keyShare n t serverSetup (coins i)
  | refresh i base => fun id => base.share id + refreshDelta n t (coins i) id

omit [Curve] in
/-- The secret of a key generation. -/
def originSecret : Option ι → Scalar
  | none => sk₀
  | some i => collectiveSecret n (coins i)

variable {n t coins share₀ sk₀}

/-- Dealt shares interpolate to the sum of the drawn secrets. -/
theorem interpolates_keyShare (draws : PartyDraws) :
    Interpolation.Interpolates (Shamir.nodes (participants n)) (t + 1)
      (fun x => keyShare n t serverSetup draws (Shamir.idOf x)) (collectiveSecret n draws) := by
  have hdegree : (jointPolynomial n t serverSetup draws).degree < (t + 1 : ℕ) :=
    lt_of_lt_of_le (degree_jointPolynomial_lt n t serverSetup draws)
      (by exact_mod_cast (by omega : max t 1 ≤ t + 1))
  rw [← eval_zero_jointPolynomial n t serverSetup]
  refine (Interpolation.interpolates_eval hdegree _).congr fun x hx => ?_
  obtain ⟨id, _, rfl⟩ := Shamir.mem_nodes.mp hx
  rw [Shamir.idOf_ofId, eval_jointPolynomial]

/-- What a refresh adds interpolates to zero. -/
theorem interpolates_refreshDelta (draws : PartyDraws) :
    Interpolation.Interpolates (Shamir.nodes (participants n)) (t + 1)
      (fun x => refreshDelta n t draws (Shamir.idOf x)) 0 := by
  have hdegree : (Refresh.jointZeroPolynomial n t serverSetup draws).degree < (t + 1 : ℕ) :=
    lt_of_lt_of_le (Refresh.degree_jointZeroPolynomial_lt n t serverSetup draws)
      (by exact_mod_cast (by omega : max t 1 ≤ t + 1))
  rw [← Refresh.eval_zero_jointZeroPolynomial n t serverSetup draws]
  refine (Interpolation.interpolates_eval hdegree _).congr fun x hx => ?_
  obtain ⟨id, _, rfl⟩ := Shamir.mem_nodes.mp hx
  rw [Shamir.idOf_ofId, Refresh.eval_jointZeroPolynomial, refreshDelta]

/-- With a threshold of at most one a refresh adds nothing. -/
theorem refreshDelta_eq_zero (ht : t ≤ 1) (draws : PartyDraws) (id : ParticipantId) :
    refreshDelta n t draws id = 0 := by
  have hdegree := Refresh.degree_jointZeroPolynomial_lt n t serverSetup draws
  rw [max_eq_right ht, Nat.cast_one] at hdegree
  have hconst := Polynomial.eq_C_of_degree_le_zero (Order.lt_succ_iff.mp hdegree)
  have hzero := Refresh.eval_zero_jointZeroPolynomial n t serverSetup draws
  have heval := Refresh.eval_jointZeroPolynomial n t serverSetup draws id
  rw [hconst, Polynomial.eval_C] at hzero heval
  rw [refreshDelta, ← heval, hzero]

/-- **Epochs.** The shares of every epoch interpolate to the secret of its origin. -/
theorem KeyEpoch.interpolates
    (h : Interpolation.Interpolates (Shamir.nodes (participants n)) (t + 1)
      (fun x => share₀ (Shamir.idOf x)) sk₀) (epoch : KeyEpoch ι) :
    Interpolation.Interpolates (Shamir.nodes (participants n)) (t + 1)
      (fun x => epoch.share n t coins share₀ (Shamir.idOf x))
      (originSecret n coins sk₀ epoch.origin) := by
  induction epoch with
  | initial => exact h
  | dkg i => exact interpolates_keyShare (coins i)
  | refresh i base ih =>
    have hsum := ih.add (interpolates_refreshDelta (coins i))
    rwa [add_zero] at hsum

end Shares

/-! ## Tracking epochs through a log -/

/-- A request to a network. -/
inductive Request
  | key (request : KeyRequest)
  | sign (request : SignRequest) (draws : SignDraws)
  | batch (request : BatchSignRequest) (draws : BatchDraws)

/-- What a request returns; the responses of key requests are dropped. -/
@[reducible] def Request.Response : Request → Type
  | .key _ => Unit
  | .sign _ _ => SignResponse
  | .batch _ _ => BatchSignResponse

/-- The draws of a key request. -/
def Request.coins : Request → PartyDraws
  | .key (.dkg coins) => coins
  | .key (.refresh coins) => coins
  | _ => fun _ _ => 0

/-- The epochs of the rows, and what each request has read of them. -/
structure Provenance (ι : Type) where
  row : ParticipantId → KeyEpoch ι
  key : Option ι
  rowsRead : ι → ParticipantId → KeyEpoch ι
  keyRead : ι → Option ι

namespace Provenance

variable {ι : Type} [DecidableEq ι]

/-- Before the first statement. -/
def start : Provenance ι where
  row _ := .initial
  key := none
  rowsRead _ _ := .initial
  keyRead _ := none

/-- The epoch of the share that the request `i` writes to a row. With `t ≤ 1` a
refresh writes back what it has read. -/
def written (t : ℕ) (requests : ι → Request) (prov : Provenance ι) (i : ι) (id : ParticipantId) :
    KeyEpoch ι :=
  match requests i with
  | .key (.dkg _) => .dkg i
  | .key (.refresh _) => if t ≤ 1 then prov.rowsRead i id else .refresh i (prov.rowsRead i id)
  | _ => prov.row id

/-- The effect of one statement. -/
def step (t : ℕ) (requests : ι → Request) (prov : Provenance ι) (entry : ι × Event Reply) :
    Provenance ι :=
  match entry.2.stmt with
  | .getNetwork _ => { prov with keyRead := Function.update prov.keyRead entry.1 prov.key }
  | .getNodesByNetwork _ =>
    { prov with rowsRead := Function.update prov.rowsRead entry.1 prov.row }
  | .updateNodeSecret _ id _ =>
    { prov with row := Function.update prov.row id (prov.written t requests entry.1 id) }
  | .updateNetworkState _ _ _ => { prov with key := some entry.1 }
  | _ => prov

/-- The epochs after the statements of a log. -/
def after (t : ℕ) (requests : ι → Request) (log : List (ι × Event Reply)) : Provenance ι :=
  log.foldl (step t requests) start

/-- The epochs after one more statement are one step further. -/
theorem after_append (t : ℕ) (requests : ι → Request) (log : List (ι × Event Reply))
    (entry : ι × Event Reply) :
    after t requests (log ++ [entry]) = (after t requests log).step t requests entry := by
  rw [after, after, List.foldl_append, List.foldl_cons, List.foldl_nil]

end Provenance

end Sigimora.Server
