import Sigimora.Crypto.Bls
import Sigimora.Crypto.FrostSession
import Sigimora.Library.Run

/-!
# FROST groups over epochs

A dealer publishes a polynomial, and so does every refresh. Holders whose shares have
passed the checks against the published polynomials sign under the key that is derived
from all of these, whoever has chosen them, and under no other key. If the polynomials
of the refreshes vanish at zero, it still is the key of the dealer.
-/

namespace Sigimora.Feldman

/-- A random polynomial of `t` coefficients. -/
def PrivatePoly.random (t : ℕ) (coins : ℕ → Scalar) : PrivatePoly where
  coeffs := (List.range t).map coins

/-- The key of the constant term; a polynomial without coefficients panics. -/
def PublicPoly.groupPublicKey {ε : Type} [Curve] (poly : PublicPoly) : Outcome ε Bls.PublicKey := do
  let constant ← Outcome.index poly.commitments 0
  return { point := constant }

end Sigimora.Feldman

namespace Sigimora.Frost

open Interpolation Shamir Feldman

variable [Curve] {ε : Type}

/-! ## Distributed key generation -/

/-- Draw a polynomial, take the own share of it, and publish it. -/
def keygenDistributed (t n : ℕ) (myId : ParticipantId) (coins : ℕ → Scalar) :
    Outcome CryptoError (SigningKey × PublicPoly) :=
  if t > n then Outcome.fail (.invalidParameter "threshold must be <= participants")
  else do
    let poly := PrivatePoly.random t coins
    let share ← poly.eval myId
    let ipk := share.value • G2Point.generator
    let publicPoly := poly.commit
    return ({ share, ipk }, publicPoly)

omit [Curve] in
/-- The share of a participant. -/
def computeShare (poly : PrivatePoly) (participantId : ParticipantId) : Outcome ε Share :=
  poly.eval participantId

/-- The sum of the published constant terms. -/
def deriveGroupPk (publicPolys : List PublicPoly) : Outcome ε G2Point :=
  publicPolys.foldlM (fun groupPk pp => do
    let constant ← Outcome.index pp.commitments 0
    return groupPk + constant) 0

/-- Add the value of a random polynomial, and publish the polynomial. -/
def refreshShare (currentShare : Share) (coins : ℕ → Scalar) : Outcome ε (Share × PublicPoly) := do
  let refreshPoly := PrivatePoly.random 2 coins
  let refreshShare ← refreshPoly.eval currentShare.index
  let newShare := { index := currentShare.index, value := currentShare.value + refreshShare.value }
  return (newShare, refreshPoly.commit)

/-- What a participant obtains passes the check, and so does what it hands out. -/
theorem keygenDistributed_verifies {t n : ℕ} (ht : 1 ≤ t) (htn : t ≤ n) (myId : ParticipantId)
    (coins : ℕ → Scalar) :
    ∃ key poly, keygenDistributed t n myId coins = .ok (key, poly) ∧
      poly.verifyShare key.share = true ∧ key.ipk = poly.eval myId ∧
      ∀ id, ∃ share, (computeShare (PrivatePoly.random t coins) id : Outcome ε Share) = .ok share ∧
        poly.verifyShare share = true := by
  let poly := PrivatePoly.random t coins
  have hne : poly.coeffs ≠ [] := by
    intro hnil
    have hlength := congrArg List.length hnil
    simp only [poly, PrivatePoly.random, List.length_map, List.length_range, List.length_nil]
      at hlength
    omega
  have hverifies (id : ParticipantId) :
      poly.commit.verifyShare ⟨id, Horner.eval (Scalar.ofId id) poly.coeffs⟩ = true := by
    rw [PublicPoly.verifyShare, beq_iff_eq, PublicPoly.eval_commit]
  refine ⟨⟨⟨myId, Horner.eval (Scalar.ofId myId) poly.coeffs⟩, _⟩, poly.commit, ?_,
    hverifies myId, (PublicPoly.eval_commit poly myId).symm,
    fun id => ⟨_, PrivatePoly.eval_eq_ok hne id, hverifies id⟩⟩
  rw [keygenDistributed, if_neg (not_lt.mpr htn)]
  simp only [PrivatePoly.eval_eq_ok hne, Outcome.ok_bind, Outcome.pure_eq_ok, poly]

/-- A refreshed share passes the check of its difference, and the published polynomial passes
the check of its constant term exactly if that was drawn so. -/
theorem refreshShare_verifies (currentShare : Share) (coins : ℕ → Scalar) :
    ∃ newShare commitment,
      (refreshShare currentShare coins : Outcome ε (Share × PublicPoly)) =
        .ok (newShare, commitment) ∧
      verifyRefreshShare currentShare newShare commitment = true ∧
      (verifyZeroConstant commitment = true ↔ coins 0 = 0) := by
  let poly := PrivatePoly.random 2 coins
  have hne : poly.coeffs ≠ [] := List.cons_ne_nil _ _
  let delta := Horner.eval (Scalar.ofId currentShare.index) poly.coeffs
  refine ⟨⟨currentShare.index, currentShare.value + delta⟩, poly.commit, ?_, ?_, ?_⟩
  · rw [refreshShare, PrivatePoly.eval_eq_ok hne, Outcome.ok_bind, Outcome.pure_eq_ok]
  · rw [verifyRefreshShare, beq_iff_eq, PublicPoly.eval_commit, add_sub_cancel_left]
  · have hfirst : poly.commit.commitments.head? = some (coins 0 • G2Point.generator) := rfl
    rw [verifyZeroConstant, hfirst, beq_iff_eq, smul_eq_zero_iff_left G2Point.generator_ne_zero]

/-! ## Groups -/

/-- The polynomials that were published for a group, and the values that its holders have. -/
structure Group where
  commitments : List PublicPoly
  share : ParticipantId → Scalar

/-- A refresh of a group: what is published, and the values that the holders have afterwards. -/
structure Round where
  commitment : PublicPoly
  share : ParticipantId → Scalar

namespace Group

variable {ids : List ParticipantId} {group : Group} {round : Round}

/-- The group of a dealer. -/
def dealt (commitment : PublicPoly) (share : ParticipantId → Scalar) : Group :=
  ⟨[commitment], share⟩

def refresh (group : Group) (round : Round) : Group :=
  ⟨group.commitments ++ [round.commitment], round.share⟩

/-- All holders have checked how their values have changed. -/
def Accepts (ids : List ParticipantId) (group : Group) (round : Round) : Prop :=
  ∀ j ∈ ids, verifyRefreshShare ⟨j, group.share j⟩ ⟨j, round.share j⟩ round.commitment = true

/-- What the holders have is what was published. -/
def Backed (ids : List ParticipantId) (group : Group) : Prop :=
  ∀ j ∈ ids, group.share j • (G2Point.generator : G2Point) =
    (group.commitments.map fun c => c.eval j).sum

/-- Shares that the commitment accepts are backed by it. -/
theorem backed_dealt {commitment : PublicPoly} {share : ParticipantId → Scalar}
    (h : ∀ j ∈ ids, commitment.verifyShare ⟨j, share j⟩ = true) :
    (dealt commitment share).Backed ids := by
  intro j hj
  have hverified := h j hj
  rw [PublicPoly.verifyShare, beq_iff_eq] at hverified
  exact hverified.trans (List.sum_singleton).symm

/-- **A round.** An accepted refresh keeps the group backed. -/
theorem Backed.refresh (h : group.Backed ids) (haccepts : group.Accepts ids round) :
    (group.refresh round).Backed ids := by
  intro j hj
  have hverified := haccepts j hj
  rw [verifyRefreshShare, beq_iff_eq, sub_smul, sub_eq_iff_eq_add] at hverified
  rw [Group.refresh, List.map_append, List.sum_append, List.map_singleton, List.sum_singleton,
    ← h j hj, hverified, add_comm]

/-! ### The polynomial of a group -/

/-- Any points are the commitments to some polynomial. -/
theorem exists_commit (c : PublicPoly) : ∃ poly : PrivatePoly, poly.commit = c := by
  obtain ⟨commitments⟩ := c
  suffices h : ∃ coeffs : List Scalar,
      coeffs.map (fun coeff => coeff • (G2Point.generator : G2Point)) = commitments by
    obtain ⟨coeffs, hcoeffs⟩ := h
    exact ⟨⟨coeffs⟩, congrArg PublicPoly.mk hcoeffs⟩
  induction commitments with
  | nil => exact ⟨[], rfl⟩
  | cons point commitments ih =>
    obtain ⟨coeffs, rfl⟩ := ih
    obtain ⟨coeff, rfl⟩ := Curve.exists_smul_g2 point
    exact ⟨coeff :: coeffs, rfl⟩

/-- The published constant term. -/
def constant (c : PublicPoly) : G2Point := c.commitments.head?.getD 0

/-- One published polynomial. -/
theorem exists_polynomial_of_commitment (c : PublicPoly) {k : ℕ} (hk : c.commitments.length ≤ k) :
    ∃ p : Polynomial Scalar, p.degree < k ∧ p.eval 0 • G2Point.generator = constant c ∧
      ∀ j, p.eval (Scalar.ofId j) • G2Point.generator = c.eval j := by
  obtain ⟨poly, rfl⟩ := exists_commit c
  refine ⟨Horner.toPolynomial poly.coeffs, ?_, ?_, fun j => ?_⟩
  · rw [PrivatePoly.commit, List.length_map] at hk
    exact (Horner.degree_toPolynomial_lt _).trans_le (by exact_mod_cast hk)
  · rw [← Polynomial.coeff_zero_eq_eval_zero, Horner.coeff_toPolynomial, constant,
      PrivatePoly.commit, List.head?_map, List.head?_eq_getElem?]
    cases poly.coeffs[0]? with
    | none => exact zero_smul _ _
    | some coeff => rfl
  · rw [Horner.eval_toPolynomial, PublicPoly.eval_commit]

/-- All published polynomials together. -/
theorem exists_polynomial {commitments : List PublicPoly} {k : ℕ}
    (hk : ∀ c ∈ commitments, c.commitments.length ≤ k) :
    ∃ p : Polynomial Scalar, p.degree < k ∧
      p.eval 0 • G2Point.generator = (commitments.map constant).sum ∧
      ∀ j, p.eval (Scalar.ofId j) • (G2Point.generator : G2Point) =
        (commitments.map fun c => c.eval j).sum := by
  induction commitments with
  | nil =>
    refine ⟨0, ?_, ?_, fun j => ?_⟩
    · rw [Polynomial.degree_zero]
      exact WithBot.bot_lt_coe k
    · rw [Polynomial.eval_zero, zero_smul, List.map_nil, List.sum_nil]
    · rw [Polynomial.eval_zero, zero_smul, List.map_nil, List.sum_nil]
  | cons c commitments ih =>
    obtain ⟨p, hp, hzero, hvalues⟩ := exists_polynomial_of_commitment c (hk c List.mem_cons_self)
    obtain ⟨q, hq, hzero', hvalues'⟩ := ih fun d hd => hk d (List.mem_cons_of_mem _ hd)
    refine ⟨p + q, ?_, ?_, fun j => ?_⟩
    · exact (Polynomial.degree_add_le p q).trans_lt (max_lt hp hq)
    · rw [Polynomial.eval_add, add_smul, hzero, hzero', List.map_cons, List.sum_cons]
    · rw [Polynomial.eval_add, add_smul, hvalues, hvalues', List.map_cons, List.sum_cons]

/-- The shares of a group that is backed lie on one polynomial, whose value at zero is the
discrete logarithm of the sum of the published constant terms. -/
theorem Backed.exists_polynomial (h : group.Backed ids) {k : ℕ}
    (hk : ∀ c ∈ group.commitments, c.commitments.length ≤ k) :
    ∃ p : Polynomial Scalar, p.degree < k ∧
      p.eval 0 • G2Point.generator = (group.commitments.map constant).sum ∧
      ∀ j ∈ ids, group.share j = p.eval (Scalar.ofId j) := by
  obtain ⟨p, hp, hzero, hvalues⟩ := Group.exists_polynomial hk
  refine ⟨p, hp, hzero, fun j hj => ?_⟩
  exact smul_left_injective Scalar G2Point.generator_ne_zero ((h j hj).trans (hvalues j).symm)

/-! ### The key of a group -/

/-- The first commitment is the constant one. -/
theorem index_zero_eq_ok {c : PublicPoly} {point : G2Point}
    (h : (Outcome.index c.commitments 0 : Outcome ε G2Point) = .ok point) : point = constant c := by
  rw [Outcome.index_eq_ok, ← List.head?_eq_getElem?] at h
  rw [constant, h, Option.getD_some]

/-- The derived key is the sum of the constant terms. -/
theorem deriveGroupPk_eq_ok {commitments : List PublicPoly} {groupPk : G2Point}
    (h : (deriveGroupPk commitments : Outcome ε G2Point) = .ok groupPk) :
    groupPk = (commitments.map constant).sum := by
  suffices hsum : ∀ start : G2Point, (commitments.foldlM (fun groupPk pp => do
      let constant ← Outcome.index pp.commitments 0
      return groupPk + constant) start : Outcome ε G2Point) = .ok groupPk →
      groupPk = start + (commitments.map constant).sum by
    rw [hsum 0 h, zero_add]
  clear h
  induction commitments with
  | nil =>
    intro start h
    cases h
    rw [List.map_nil, List.sum_nil, add_zero]
  | cons c commitments ih =>
    intro start h
    rw [List.foldlM_cons, Outcome.bind_eq_ok] at h
    obtain ⟨next, hnext, h⟩ := h
    obtain ⟨point, hpoint, hsum⟩ := Outcome.bind_eq_ok.mp hnext
    cases hsum
    rw [ih _ h, index_zero_eq_ok hpoint, List.map_cons, List.sum_cons, add_assoc]

/-- What the rounds add to the published polynomials. -/
theorem commitments_after (rounds : List Round) :
    (Run.after Group.refresh group rounds).commitments =
      group.commitments ++ rounds.map Round.commitment := by
  induction rounds generalizing group with
  | nil => exact (List.append_nil _).symm
  | cons round rounds ih =>
    rw [Run.after_cons, ih, Group.refresh, List.append_assoc, List.map_cons, List.singleton_append]

/-- The check for zero finds a constant of zero. -/
theorem constant_of_verifyZeroConstant {c : PublicPoly} (h : verifyZeroConstant c = true) :
    constant c = 0 := by
  unfold verifyZeroConstant at h
  split at h
  · next point hpoint =>
    rw [constant, hpoint, Option.getD_some]
    exact beq_iff_eq.mp h
  · cases h

/-- Refreshes that vanish at zero leave the key of the dealer. -/
theorem groupPublicKey_of_zeroConstants {commitment : PublicPoly}
    {share : ParticipantId → Scalar} {rounds : List Round} {groupPk : G2Point}
    (hpk : (deriveGroupPk (Run.after Group.refresh (dealt commitment share) rounds).commitments :
      Outcome ε G2Point) = .ok groupPk)
    (hzero : ∀ round ∈ rounds, verifyZeroConstant round.commitment = true) :
    (commitment.groupPublicKey : Outcome ε Bls.PublicKey) = .ok ⟨groupPk⟩ := by
  have hsum := deriveGroupPk_eq_ok hpk
  have hzeros : ((rounds.map Round.commitment).map constant).sum = 0 := by
    refine List.sum_eq_zero fun point hpoint => ?_
    obtain ⟨c, hc, rfl⟩ := List.mem_map.mp hpoint
    obtain ⟨round, hround, rfl⟩ := List.mem_map.mp hc
    exact constant_of_verifyZeroConstant (hzero round hround)
  rw [commitments_after, dealt, List.map_append, List.sum_append, hzeros, add_zero,
    List.map_singleton, List.sum_singleton] at hsum
  rw [commitments_after, deriveGroupPk, dealt, List.singleton_append, List.foldlM_cons,
    Outcome.bind_eq_ok] at hpk
  obtain ⟨_, hfirst, _⟩ := hpk
  obtain ⟨point, hpoint, _⟩ := Outcome.bind_eq_ok.mp hfirst
  rw [PublicPoly.groupPublicKey, hpoint, Outcome.ok_bind, hsum, ← index_zero_eq_ok hpoint]
  rfl

end Group

/-! ## Signing -/

/-- The threshold is only compared with the number of signers. -/
theorem aggregate_of_le {partials : List PartialSignature} {threshold : ℕ}
    (h : threshold ≤ partials.length) (signingKeys : List SigningKey) :
    aggregate partials signingKeys threshold = aggregate partials signingKeys partials.length := by
  rw [aggregate, aggregate, if_neg (not_lt.mpr h), if_neg (lt_irrefl _)]

/-- A multiple of the hash verifies under the same multiple of the generator, and under any other
key only if there is nothing to sign. -/
theorem verifyWithSession_iff {sig : FrostSignature} {secret : Scalar} {msg : List UInt8}
    {epoch : UInt64} {signers : List ParticipantId}
    (hsig : sig.sigma = secret • computeSigningHash msg epoch signers) (pk : G2Point) :
    verifyWithSession sig pk msg epoch signers = true ↔
      pk = secret • G2Point.generator ∨ computeSigningHash msg epoch signers = 0 := by
  obtain ⟨other, rfl⟩ := Curve.exists_smul_g2 pk
  have hverify : verifyWithSession sig (other • G2Point.generator) msg epoch signers = true ↔
      sig.sigma = other • computeSigningHash msg epoch signers := ctVerifyBlsSignature_smul_iff
  rw [show (other • Curve.g2 : G2Point) = other • G2Point.generator from rfl, hverify, hsig,
    ← sub_eq_zero, ← sub_smul, smul_eq_zero, sub_eq_zero,
    (smul_left_injective Scalar G2Point.generator_ne_zero).eq_iff, eq_comm]

/-- **Groups over epochs.** If all holders accept all refreshes of what a dealer has handed out, as
many of them as any published polynomial has coefficients sign under the key that is derived from
everything published, and under no other; it is still the key of the dealer if all refreshes pass
the check of their constant terms. -/
theorem refreshed_group_signs {commitment : PublicPoly} {share : ParticipantId → Scalar}
    {ids : List ParticipantId} (hdealt : ∀ j ∈ ids, commitment.verifyShare ⟨j, share j⟩ = true)
    {rounds : List Round}
    (hrounds : Run.Guarded Group.refresh (Group.Accepts ids) (.dealt commitment share) rounds)
    {groupPk : G2Point} (hpk : (deriveGroupPk (Run.after Group.refresh
      (.dealt commitment share) rounds).commitments : Outcome CryptoError G2Point) = .ok groupPk)
    {signers order : List ParticipantId} (hnodup : signers.Nodup) (hids : ∀ j ∈ signers, j ∈ ids)
    (horder : order.Perm signers) {threshold : ℕ} (hsize : threshold ≤ signers.length)
    (hcoeffs : ∀ c ∈ (Run.after Group.refresh (.dealt commitment share) rounds).commitments,
      c.commitments.length ≤ signers.length)
    {key : ParticipantId → SigningKey} (hkey : ∀ j ∈ signers, (key j).share =
      ⟨j, (Run.after Group.refresh (.dealt commitment share) rounds).share j⟩)
    (signingKeys : List SigningKey) (msg : List UInt8) (epoch : UInt64) :
    ∃ sig, aggregate (order.map fun j => signPartial (key j) msg epoch signers) signingKeys
        threshold = .ok sig ∧
      (∀ pk, verifyWithSession sig pk msg epoch signers = true ↔
        pk = groupPk ∨ computeSigningHash msg epoch signers = 0) ∧
      ((∀ round ∈ rounds, verifyZeroConstant round.commitment = true) →
        (commitment.groupPublicKey : Outcome CryptoError Bls.PublicKey) = .ok ⟨groupPk⟩) := by
  have hbacked : (Run.after Group.refresh (.dealt commitment share) rounds).Backed ids :=
    (Run.throughout_of_guarded (P := Group.Backed ids) (fun _ _ hbacked haccepts =>
      hbacked.refresh haccepts) (Group.backed_dealt hdealt) hrounds).last
  obtain ⟨p, hdegree, hzero, hshares⟩ := hbacked.exists_polynomial hcoeffs
  have hlength : (order.map fun j => signPartial (key j) msg epoch signers).length =
      signers.length := by
    rw [List.length_map, horder.length_eq]
  have hsig : aggregate (order.map fun j => signPartial (key j) msg epoch signers) signingKeys
      signers.length = .ok _ :=
    aggregate_signPartial signingKeys hnodup horder le_rfl hdegree fun j hj => by
      rw [hkey j hj, hshares j (hids j hj)]
  refine ⟨_, (aggregate_of_le (hlength ▸ hsize) signingKeys).trans (hlength ▸ hsig),
    fun pk => ?_, fun hzeros => Group.groupPublicKey_of_zeroConstants hpk hzeros⟩
  rw [verifyWithSession_iff rfl, hzero, Group.deriveGroupPk_eq_ok hpk]

/-- What a holder has of the polynomials of a dealer and of one refresh. -/
def refreshedKey (dealt slope : List Scalar) (j : ParticipantId) : SigningKey where
  share := ⟨j, Horner.eval (Scalar.ofId j) dealt + Horner.eval (Scalar.ofId j) slope⟩
  ipk := 0

omit [Curve] in
/-- Two holders of shares of `3 + 4x`, who refresh once with `2x`. -/
theorem refreshed_group_signs_two :
    letI := exponentCurve
    let refreshedKey := refreshedKey [3, 4] [0, 2]
    ∃ sig, aggregate ([2, 1].map fun j => signPartial (refreshedKey j) [7] 5 [1, 2]) [] 2 =
        .ok sig ∧
      (∀ pk : Scalar, verifyWithSession sig pk [7] 5 [1, 2] = true ↔
        pk = 3 ∨ computeSigningHash [7] 5 [1, 2] = 0) ∧
      ((∀ round ∈ [(⟨(⟨[0, 2]⟩ : PrivatePoly).commit,
          fun j => (refreshedKey j).share.value⟩ : Round)],
          verifyZeroConstant round.commitment = true) →
        ((⟨[3, 4]⟩ : PrivatePoly).commit.groupPublicKey : Outcome CryptoError Bls.PublicKey) =
          .ok ⟨(3 : Scalar)⟩) := by
  let := exponentCurve
  have hdealt : ∀ j ∈ ([1, 2] : List ParticipantId), (⟨[3, 4]⟩ : PrivatePoly).commit.verifyShare
      ⟨j, Horner.eval (Scalar.ofId j) [3, 4]⟩ = true := by
    intro j _
    rw [PublicPoly.verifyShare, beq_iff_eq, PublicPoly.eval_commit]
  refine refreshed_group_signs hdealt ?_ ?_ (by decide) (fun _ hj => hj) (by decide) le_rfl ?_
    (fun _ _ => rfl) [] [7] 5
  · refine Run.guarded_cons.mpr ⟨fun j _ => ?_, Run.guarded_nil⟩
    rw [verifyRefreshShare, beq_iff_eq, PublicPoly.eval_commit]
    exact congrArg (· • G2Point.generator) (add_sub_cancel_left _ _)
  · show Except.ok ((0 + (3 : Scalar) * 1) + 0 * 1) = Except.ok (3 : Scalar)
    norm_num
  · intro c hc
    rcases List.mem_pair.mp hc with rfl | rfl <;> rfl

end Sigimora.Frost
