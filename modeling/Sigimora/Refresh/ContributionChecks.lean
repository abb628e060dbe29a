import Sigimora.Crypto.PedersenSharing
import Sigimora.Library.Stateful
import Sigimora.Refresh.Correctness

/-!
# The check of a contribution

A contribution comes from another party. The check of its share passes without any
commitments if the share is an opening of the identity, and then there is no first
commitment to look at. Where there is one it has to be the identity, which of the two
dealers that share zero only one provides.
-/

namespace Sigimora.Refresh

open Pedersen

variable [Curve]

/-! ## Recording a contribution -/

/-- Check a contribution, and then append it and note that there is one. -/
def recordContribution (contrib : RefreshContribution) : Stateful RefreshState RefreshError Unit :=
  do
  let state ← Stateful.get
  Stateful.lift (state.verifyContribution contrib)
  Stateful.modify fun state => { state with contributions := state.contributions ++ [contrib] }
  Stateful.modify fun state => { state with round := .committed }

variable {state : RefreshState} {contrib : RefreshContribution}

/-- A contribution is recorded if it is accepted. -/
theorem recordContribution_run (state : RefreshState) (contrib : RefreshContribution) :
    recordContribution contrib state =
      match state.addContribution contrib with
      | .ok next => (.ok (), next)
      | .error e => (.error e, state) := by
  rw [recordContribution, Stateful.get_bind, RefreshState.addContribution]
  cases state.verifyContribution contrib with
  | error e => rfl
  | ok _ => rfl

/-- The check does not panic, and a contribution that is refused leaves the recorded ones and the
round as they are. -/
structure ChecksSafely (state : RefreshState) (contrib : RefreshContribution) : Prop where
  noPanic : Outcome.NoPanic (state.verifyContribution contrib)
  unchanged : ∀ e next, recordContribution contrib state = (.error (.err e), next) →
    next.contributions = state.contributions ∧ next.round = state.round

/-- A contribution that is refused leaves the state as it was. -/
theorem recordContribution_unchanged {e : Fault RefreshError} {next : RefreshState}
    (h : recordContribution contrib state = (.error e, next)) : next = state := by
  rw [recordContribution_run] at h
  cases hadd : state.addContribution contrib with
  | ok _ =>
    rw [hadd] at h
    cases h
  | error _ =>
    rw [hadd] at h
    exact (Prod.mk.inj h).2.symm

/-- Without commitments exactly the openings of the identity pass. -/
theorem verifyShare_nil_iff {index : ParticipantId} {value blinding : Scalar}
    {ped : PedersenSetup} : VssPublic.verifyShare ⟨[]⟩ index value blinding ped = true ↔
      ped.commit value blinding = 0 := by
  rw [VssPublic.verifyShare_iff, Horner.eval_nil]

/-- The check panics for a share that is an opening of the identity when there are no
commitments. -/
theorem noPanic_verifyContribution_iff : Outcome.NoPanic (state.verifyContribution contrib) ↔
    (contrib.vssPublic.commitments = [] →
      ∀ share, (contrib.shares.find? fun s => s.index = state.myId) = some share →
        state.pedersen.commit share.value share.blinding ≠ 0) := by
  rw [← List.head?_filter, RefreshState.verifyContribution]
  cases contrib.shares.filter fun s => s.index = state.myId with
  | nil =>
    refine iff_of_true (Outcome.noPanic_fail _) fun _ share h => ?_
    cases h
  | cons share _ =>
    obtain ⟨_, _, ⟨commitments⟩, _⟩ := contrib
    simp only [List.head?_cons, Option.some.injEq, forall_eq']
    cases commitments with
    | nil =>
      rw [ne_eq, ← @verifyShare_nil_iff _ state.myId]
      split
      · next hfails => exact iff_of_true (Outcome.noPanic_fail _) fun _ => hfails
      · next hpasses => exact iff_of_false (Outcome.not_noPanic_panic _) fun h => hpasses (h rfl)
    | cons first rest =>
      refine iff_of_true ?_ fun h => absurd h (List.cons_ne_nil first rest)
      split
      · exact Outcome.noPanic_fail _
      · dsimp only
        split
        · exact Outcome.noPanic_fail _
        · exact Outcome.noPanic_ok _

/-- **Checking a contribution.** It is safe exactly if the contribution has a commitment, or its
first share for the party is no opening of the identity. -/
theorem checksSafely_iff (state : RefreshState) (contrib : RefreshContribution) :
    ChecksSafely state contrib ↔ (contrib.vssPublic.commitments = [] →
      ∀ share, (contrib.shares.find? fun s => s.index = state.myId) = some share →
        state.pedersen.commit share.value share.blinding ≠ 0) := by
  rw [← noPanic_verifyContribution_iff]
  constructor
  · exact ChecksSafely.noPanic
  · intro h
    refine ⟨h, fun e next hrun => ?_⟩
    rw [recordContribution_unchanged hrun]
    exact ⟨rfl, rfl⟩

/-- A contribution without commitments, with a share of zero for the first party. -/
def emptyContribution : RefreshContribution where
  sender := 2
  epoch := 0
  vssPublic := ⟨[]⟩
  shares := [⟨1, 0, 0⟩]

omit [Curve] in
/-- One party can make another one panic. -/
theorem emptyContribution_panics :
    letI := exponentCurve
    ¬ ChecksSafely (.new 0 5 2 2 1 PedersenSetup.deterministic) emptyContribution := by
  let := exponentCurve
  intro h
  exact Outcome.not_noPanic_of_isPanic (by decide +kernel) h.noPanic

/-! ## Two dealers that share zero -/

/-- What a dealer publishes, as a contribution. -/
def contributionOf (sender : ParticipantId) (epoch : UInt64)
    (dealt : VssPublic × List VssShare) : RefreshContribution where
  sender := sender
  epoch := epoch
  vssPublic := dealt.1
  shares := dealt.2

/-- Every party with an id from `1` to `n` that uses the setup accepts the contribution. -/
def AcceptedByAll (ped : PedersenSetup) (n : ℕ) (contrib : RefreshContribution) : Prop :=
  ∀ state : RefreshState, state.pedersen = ped → 1 ≤ state.myId.toNat → state.myId.toNat ≤ n →
    state.verifyContribution contrib = .ok ()

/-- All parties accept what both dealers share. -/
def BothAccepted (ped : PedersenSetup) (t n : ℕ) (shareCoins polyCoins : ℕ → Scalar)
    (sender : ParticipantId) (epoch : UInt64) : Prop :=
  AcceptedByAll ped n (contributionOf sender epoch (Vss.shareZero ped t n shareCoins)) ∧
    AcceptedByAll ped n (dealtContribution n (PrivatePoly.randomWithZeroConstant t ped polyCoins)
      sender epoch)

/-- Every id up to `n` is one of the participants that the loop `1..=n as u16` visits. -/
def LoopVisitsAll (n : ℕ) : Prop :=
  ∀ id : ParticipantId, 1 ≤ id.toNat → id.toNat ≤ n → id ∈ participants n

omit [Curve] in
/-- The loop visits all parties up to 65535 of them, and where the cast wraps around to 65535. -/
theorem loopVisitsAll_iff {n : ℕ} : LoopVisitsAll n ↔ n ≤ 65535 ∨ n % 65536 = 65535 := by
  have hwrapped : (UInt16.ofNat n).toNat = n % 65536 := UInt16.toNat_ofNat'
  constructor
  · intro h
    by_contra hneither
    rw [not_or, not_le] at hneither
    -- the last id is not visited
    have hlast := (mem_participants_iff.mp (h 65535 (by decide) hneither.1.le)).2
    rw [hwrapped] at hlast
    have hid : (65535 : ParticipantId).toNat = 65535 := rfl
    omega
  · intro h id hpos hle
    rw [mem_participants_iff, hwrapped]
    have hid : id.toNat < 65536 := id.toNat_lt
    omega

/-- A dealt contribution is accepted by all just if the loop visits them and the first commitment is
the identity. -/
theorem acceptedByAll_dealt_iff {n : ℕ} (hn : 1 ≤ n) {poly : PrivatePoly} {first : G1Point}
    {rest : List G1Point} (hcommit : poly.commit.commitments = first :: rest)
    (sender : ParticipantId) (epoch : UInt64) :
    AcceptedByAll poly.pedersen n (dealtContribution n poly sender epoch) ↔
      LoopVisitsAll n ∧ first = 0 := by
  constructor
  · intro h
    have hparty (id : ParticipantId) (hpos : 1 ≤ id.toNat) (hle : id.toNat ≤ n) :
        id ∈ participants n ∧ first = 0 := by
      let state := RefreshState.new 0 0 n 1 id poly.pedersen
      have hped : poly.pedersen = state.pedersen := rfl
      exact (verifyContribution_dealt_iff hped hcommit sender epoch).mp (h state rfl hpos hle)
    exact ⟨fun id hpos hle => (hparty id hpos hle).1, (hparty 1 le_rfl hn).2⟩
  · rintro ⟨hvisits, hfirst⟩ state hped hpos hle
    exact (verifyContribution_dealt_iff hped.symm hcommit sender epoch).mpr
      ⟨hvisits _ hpos hle, hfirst⟩

/-- **Two dealers.** Both are accepted by all parties exactly if the loop over the parties visits
all of them, and the dealer that draws the constant term of its blinding draws zero or has
nothing to blind with. -/
theorem bothAccepted_iff {n : ℕ} (hn : 1 ≤ n) (ped : PedersenSetup) (t : ℕ)
    (shareCoins polyCoins : ℕ → Scalar) (sender : ParticipantId) (epoch : UInt64) :
    BothAccepted ped t n shareCoins polyCoins sender epoch ↔
      (n ≤ 65535 ∨ n % 65536 = 65535) ∧ (shareCoins 0 = 0 ∨ ped.h = 0) := by
  let poly := PrivatePoly.randomWithSecret 0 t ped shareCoins
  have hshared : contributionOf sender epoch (Vss.shareZero ped t n shareCoins) =
      dealtContribution n poly sender epoch := by
    rw [Vss.shareZero, Vss.share_eq]
    rfl
  have hfirst : ped.commit 0 (shareCoins 0) = 0 ↔ shareCoins 0 = 0 ∨ ped.h = 0 := by
    rw [PedersenSetup.commit, zero_smul, zero_add, smul_eq_zero]
  obtain ⟨rest, hzero⟩ := commitments_randomWithZeroConstant t ped polyCoins
  have hcommit : poly.commit.commitments = ped.commit 0 (shareCoins 0) :: _ := rfl
  have hdrawn := acceptedByAll_dealt_iff hn hcommit sender epoch
  have hzeroed := acceptedByAll_dealt_iff hn hzero sender epoch
  rw [BothAccepted, hshared, ← loopVisitsAll_iff, ← hfirst]
  constructor
  · rintro ⟨hboth, _⟩
    exact hdrawn.mp hboth
  · intro h
    exact ⟨hdrawn.mpr h, hzeroed.mpr ⟨h.1, rfl⟩⟩

/-- A setup with twice the generator for `h`. -/
def twiceSetup : PedersenSetup :=
  ⟨G1Point.generator, G1Point.generator + G1Point.generator⟩

omit [Curve] in
/-- A dealer that happens to draw zero first. -/
theorem bothAccepted_of_zero_draw :
    letI := exponentCurve
    BothAccepted twiceSetup 2 3 (fun k => k) (fun _ => 5) 1 0 := by
  let := exponentCurve
  exact (bothAccepted_iff (by decide) twiceSetup 2 (fun k => k) (fun _ => 5) 1 0).mpr
    ⟨by decide, Or.inl Nat.cast_zero⟩

omit [Curve] in
/-- A dealer that draws one first is refused. -/
theorem one_draw_refused :
    letI := exponentCurve
    ¬ BothAccepted twiceSetup 2 3 (fun _ => 1) (fun _ => 5) 1 0 := by
  let := exponentCurve
  rintro ⟨hshared, _⟩
  have haccepted := hshared (.new 0 5 3 2 1 twiceSetup) rfl (by decide) (by decide)
  exact absurd haccepted (by decide +kernel)

end Sigimora.Refresh
