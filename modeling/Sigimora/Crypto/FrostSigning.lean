import Sigimora.Crypto.Frost

/-!
# Signing with generated key pairs

`keygen` returns one participant's key pair and draws a polynomial of its own on
every call. The key pairs of the participants sign together exactly if the calls
happened to hand out the shares of one polynomial.
-/

namespace Sigimora.Frost

open Interpolation Shamir Feldman

variable [Curve]

/-- A participant's signing key with the key of the group. -/
structure FrostKeyPair where
  signingKey : SigningKey
  groupPk : G2Point

/-- Generate the key pair of the participant `myId`. -/
def keygen (secret : Scalar) (t n : ℕ) (myId : ParticipantId) (coins : ℕ → Scalar) :
    Outcome CryptoError FrostKeyPair :=
  if t > n then Outcome.fail (.invalidParameter "threshold must be <= participants")
  else if myId < 1 ∨ myId > UInt16.ofNat n then
    Outcome.fail (.invalidParameter "invalid participant id")
  else do
    let poly := PrivatePoly.randomWithSecret secret t coins
    let share ← poly.eval myId
    let ipk := share.value • G2Point.generator
    let groupPk := secret • G2Point.generator
    return { signingKey := { share, ipk }, groupPk }

/-- A partial signature that is bound to no session. -/
def signPartialSimple (signingKey : SigningKey) (msg : List UInt8) : PartialSignature :=
  let h := hashToG1 msg (byteLiteral "FROST-BLS")
  { signerId := signingKey.share.index, sigma := signingKey.share.value • h }

/-- Check a signature that is bound to no session. -/
def verify (frostSig : FrostSignature) (groupPk : G2Point) (msg : List UInt8) : Bool :=
  let h := hashToG1 msg (byteLiteral "FROST-BLS")
  ctVerifyBlsSignature frostSig.sigma h groupPk

/-! ## The coefficients -/

omit [Curve] in
/-- On distinct indices the coefficients are the interpolation weights: the signs that differ
from the canonical ones cancel. -/
theorem lagrangeCoefficients_eq {indices : List ParticipantId} (h : indices.Nodup) :
    lagrangeCoefficients indices =
      indices.map fun id => weight (nodes indices) (Scalar.ofId id) := by
  have hstep : ∀ entry ∈ indices.zipIdx,
      (lagrangeFraction indices entry.2 (Scalar.ofId entry.1)).1 *
        (lagrangeFraction indices entry.2 (Scalar.ofId entry.1)).2.invert.getD 1 =
      weight (nodes indices) (Scalar.ofId entry.1) := by
    rintro ⟨xi, i⟩ hi
    have hfraction : lagrangeFraction indices i (Scalar.ofId xi) =
        (∏ y ∈ (nodes indices).erase (Scalar.ofId xi), y,
          ∏ y ∈ (nodes indices).erase (Scalar.ofId xi), (y - Scalar.ofId xi)) := by
      rw [lagrangeFraction, foldl_skip (fun entry : ParticipantId × ℕ => i = entry.2)
        (fun entry => Scalar.ofId entry.1) (fun entry => Scalar.ofId entry.1 - Scalar.ofId xi),
        prod_others h hi fun y => y, prod_others h hi fun y => y - Scalar.ofId xi, one_mul, one_mul]
    have hden : (∏ y ∈ (nodes indices).erase (Scalar.ofId xi), (y - Scalar.ofId xi)) ≠ 0 :=
      Finset.prod_ne_zero_iff.mpr fun y hy => sub_ne_zero.mpr (Finset.ne_of_mem_erase hy)
    simp only [hfraction, Scalar.invert_of_ne_zero hden, Option.getD_some, weight,
      ← Finset.prod_inv_distrib, ← Finset.prod_mul_distrib]
    refine Finset.prod_congr rfl fun y _ => ?_
    rw [← neg_sub y, inv_neg, neg_mul_neg]
  rw [lagrangeCoefficients, List.map_congr_left hstep,
    map_fst_zipIdx indices fun id => weight (nodes indices) (Scalar.ofId id)]

/-- The signature that the multiples of `h` by the shares combine to. -/
theorem aggregateSimple_eq_ok {ids : List ParticipantId} (hnodup : ids.Nodup) (hne : ids ≠ [])
    (share : ParticipantId → Scalar) (h : G1Point) :
    aggregateSimple (ids.map fun i => ⟨i, share i • h⟩) = .ok {
      sigma := combine (nodes ids) fun x => share (idOf x) • h
      signers := ids
      epoch := 1
      transcript := computeSessionTranscript (byteLiteral "default") 1 ids } := by
  have hempty : ¬ (ids.map fun i => PartialSignature.mk i (share i • h)).isEmpty = true := by
    simpa using hne
  rw [aggregateSimple, if_neg hempty]
  simp only [List.map_map, Function.comp_def, List.map_id', lagrangeCoefficients_eq hnodup,
    weightedSum_weights hnodup fun i => share i • h]

/-! ## Key pairs that sign together -/

variable {secret : Scalar} {t n : ℕ} {coins : ParticipantId → ℕ → Scalar} {msg : List UInt8}

/-- The participants obtain key pairs, and any `t` of them or more produce a signature that
verifies under the key of the group. -/
def SignTogether (secret : Scalar) (t n : ℕ) (coins : ParticipantId → ℕ → Scalar)
    (msg : List UInt8) : Prop :=
  ∃ pair : ParticipantId → FrostKeyPair,
    (∀ i ∈ participants n, keygen secret t n i (coins i) = .ok (pair i)) ∧
    ∀ ids : List ParticipantId, ids.Nodup → (∀ i ∈ ids, i ∈ participants n) → t ≤ ids.length →
      ∃ sig, aggregateSimple (ids.map fun i => signPartialSimple (pair i).signingKey msg) =
          .ok sig ∧
        ∀ i ∈ participants n, verify sig (pair i).groupPk msg = true

omit [Curve] in
/-- The draws of the calls give the participants the shares that one sequence of draws, shared
by all calls, would have given them. -/
def DrawnTogether (secret : Scalar) (t n : ℕ) (coins : ParticipantId → ℕ → Scalar) : Prop :=
  ∃ shared : ℕ → Scalar, ∀ i ∈ participants n,
    (sharingPolynomial secret t (coins i)).eval (Scalar.ofId i) =
      (sharingPolynomial secret t shared).eval (Scalar.ofId i)

/-- A participant's share is the value of the polynomial of its own call. -/
theorem keygen_eq_ok (htn : t ≤ n) (hn : n ≤ 65535) {i : ParticipantId}
    (hi : i ∈ participants n) (draws : ℕ → Scalar) :
    keygen secret t n i draws = .ok {
      signingKey := {
        share := ⟨i, (sharingPolynomial secret t draws).eval (Scalar.ofId i)⟩
        ipk := (sharingPolynomial secret t draws).eval (Scalar.ofId i) • G2Point.generator }
      groupPk := secret • G2Point.generator } := by
  have hrange := (mem_participants hn).mp hi
  have hid : ¬ (i < 1 ∨ i > UInt16.ofNat n) := by
    rw [gt_iff_lt, UInt16.lt_iff_toNat_lt, UInt16.lt_iff_toNat_lt, toNat_ofNat_of_le hn,
      UInt16.toNat_one]
    omega
  rw [keygen, if_neg (not_lt.mpr htn), if_neg hid]
  simp only [PrivatePoly.randomWithSecret_eval, Outcome.ok_bind, Outcome.pure_eq_ok]

/-- The key pairs sign together if the shares interpolate the secret in the exponent. -/
theorem signTogether_iff_combine (ht : 1 ≤ t) (htn : t ≤ n) (hn : n ≤ 65535) :
    SignTogether secret t n coins msg ↔
      ∀ ids : List ParticipantId, ids.Nodup → (∀ i ∈ ids, i ∈ participants n) → t ≤ ids.length →
        combine (nodes ids) (fun x => (sharingPolynomial secret t (coins (idOf x))).eval
            (Scalar.ofId (idOf x)) • hashToG1 msg (byteLiteral "FROST-BLS")) =
          secret • hashToG1 msg (byteLiteral "FROST-BLS") := by
  let share := fun i => (sharingPolynomial secret t (coins i)).eval (Scalar.ofId i)
  let h : G1Point := hashToG1 msg (byteLiteral "FROST-BLS")
  -- whatever the key pairs are, on the participants they are what `keygen` returns
  have hpartials {pair : ParticipantId → FrostKeyPair} {ids : List ParticipantId}
      (hpair : ∀ i ∈ participants n, keygen secret t n i (coins i) = .ok (pair i))
      (hids : ∀ i ∈ ids, i ∈ participants n) :
      (ids.map fun i => signPartialSimple (pair i).signingKey msg) =
        ids.map fun i => ⟨i, share i • h⟩ := by
    refine List.map_congr_left fun i hi => ?_
    have hkey := hpair i (hids i hi)
    rw [keygen_eq_ok htn hn (hids i hi), Except.ok.injEq] at hkey
    rw [← hkey]
    rfl
  have hgroup {pair : ParticipantId → FrostKeyPair}
      (hpair : ∀ i ∈ participants n, keygen secret t n i (coins i) = .ok (pair i)) :
      ∀ i ∈ participants n, (pair i).groupPk = secret • G2Point.generator := by
    intro i hi
    have hkey := hpair i hi
    rw [keygen_eq_ok htn hn hi, Except.ok.injEq] at hkey
    rw [← hkey]
  have hne {ids : List ParticipantId} (hsize : t ≤ ids.length) : ids ≠ [] :=
    List.ne_nil_of_length_pos (lt_of_lt_of_le ht hsize)
  constructor
  · rintro ⟨pair, hpair, hsign⟩ ids hnodup hids hsize
    obtain ⟨sig, hsig, hverify⟩ := hsign ids hnodup hids hsize
    rw [hpartials hpair hids, aggregateSimple_eq_ok hnodup (hne hsize), Except.ok.injEq] at hsig
    obtain ⟨i, hi⟩ := List.exists_mem_of_ne_nil ids (hne hsize)
    have hvalid := hverify i (hids i hi)
    rw [verify, hgroup hpair i (hids i hi), ctVerifyBlsSignature_smul_iff, ← hsig] at hvalid
    exact hvalid
  · intro hcombine
    refine ⟨fun i => ⟨⟨⟨i, share i⟩, share i • G2Point.generator⟩, secret • G2Point.generator⟩,
      fun i hi => keygen_eq_ok htn hn hi _, fun ids hnodup hids hsize => ⟨_,
        aggregateSimple_eq_ok hnodup (hne hsize) share h, fun i _ => ?_⟩⟩
    rw [verify, ctVerifyBlsSignature_smul_iff]
    exact hcombine ids hnodup hids hsize

/-- On a message whose hash is not the identity the key pairs sign together exactly if the
shares are those of one polynomial. -/
theorem signTogether_iff_drawnTogether (ht : 1 ≤ t) (htn : t ≤ n) (hn : n ≤ 65535)
    (hmsg : hashToG1 msg (byteLiteral "FROST-BLS") ≠ 0) :
    SignTogether secret t n coins msg ↔ DrawnTogether secret t n coins := by
  let share := fun i => (sharingPolynomial secret t (coins i)).eval (Scalar.ofId i)
  let sigma := fun i => share i • hashToG1 msg (byteLiteral "FROST-BLS")
  rw [signTogether_iff_combine ht htn hn]
  constructor
  · intro hcombine
    have hsigma : Interpolates (nodes (participants n)) t (fun x => sigma (idOf x))
        (secret • hashToG1 msg (byteLiteral "FROST-BLS")) := by
      refine (interpolates_iff (ε := CryptoError)).mpr fun ids hnodup hids hsize => ?_
      rw [lagrangeCombination_eq hnodup]
      exact congrArg _ (hcombine ids hnodup hids hsize.ge)
    have hzero : (0 : Scalar) ∉ nodes (participants n) :=
      zero_notMem_nodes fun i hi => ne_zero_of_mem_participants hi
    have hcard : t ≤ (nodes (participants n)).card := by
      rwa [card_nodes (nodup_participants n), length_participants hn]
    have hshare : Interpolates (nodes (participants n)) t (fun x => share (idOf x)) secret :=
      (interpolates_smul_iff hmsg).mp hsigma
    obtain ⟨p, hdegree, hsecret, hvalues⟩ := hshare.exists_polynomial ht hcard hzero
    refine ⟨fun k => p.coeff (k + 1), fun i hi => ?_⟩
    have hvalue := hvalues _ (mem_nodes.mpr ⟨i, hi, rfl⟩)
    rw [idOf_ofId] at hvalue
    refine hvalue.symm.trans ?_
    rw [← hsecret, sharingPolynomial_coeff ht hdegree]
  · rintro ⟨shared, hshared⟩ ids hnodup hids hsize
    have hdegree : (sharingPolynomial secret t shared).degree < (nodes ids).card := by
      rw [card_nodes hnodup]
      exact lt_of_lt_of_le (degree_sharingPolynomial_lt ht) (by exact_mod_cast hsize)
    conv_rhs => rw [← eval_zero_sharingPolynomial secret t shared, ← combine_eval_smul hdegree]
    refine combine_congr fun x hx => ?_
    obtain ⟨i, hi, rfl⟩ := mem_nodes.mp hx
    rw [idOf_ofId, hshared i (hids i hi)]

/-- **Key pairs of separate calls.** Apart from messages whose hash is the identity, the key
pairs sign together exactly if the calls draw as if they shared one sequence of draws. -/
theorem signTogether_iff (secret : Scalar) {t n : ℕ} (ht : 1 ≤ t) (htn : t ≤ n)
    (hn : n ≤ 65535) (coins : ParticipantId → ℕ → Scalar) (msg : List UInt8) :
    SignTogether secret t n coins msg ↔
      hashToG1 msg (byteLiteral "FROST-BLS") = 0 ∨ DrawnTogether secret t n coins := by
  by_cases hmsg : hashToG1 msg (byteLiteral "FROST-BLS") = 0
  · refine iff_of_true ((signTogether_iff_combine ht htn hn).mpr ?_) (Or.inl hmsg)
    intro ids _ _ _
    rw [hmsg, combine_smul_point, smul_zero, smul_zero]
  · rw [signTogether_iff_drawnTogether ht htn hn hmsg, or_iff_right hmsg]

omit [Curve] in
/-- Two of three participants, with draws of their own. -/
theorem signTogether_iff_two_of_three :
    letI := exponentCurve
    SignTogether 5 2 3 (fun i _ => Scalar.ofId i) [1] ↔
      hashToG1 [1] (byteLiteral "FROST-BLS") = 0 ∨
        DrawnTogether 5 2 3 fun i _ => Scalar.ofId i := by
  let := exponentCurve
  exact signTogether_iff 5 one_le_two (by norm_num) (by norm_num) _ [1]

omit [Curve] in
/-- Two participants that draw different slopes do not sign together. -/
theorem not_signTogether_two :
    letI := exponentCurve
    ¬ SignTogether 5 2 2 (fun i _ => Scalar.ofId i) [1] := by
  let := exponentCurve
  have hmsg : hashToG1 [1] (byteLiteral "FROST-BLS") ≠ 0 := by
    change ((ByteString.ofBigEndian [1] : ℕ) : Scalar) ≠ 0
    rw [show ByteString.ofBigEndian [1] = 1 from rfl, Nat.cast_one]
    exact one_ne_zero
  rw [signTogether_iff_drawnTogether one_le_two le_rfl (by norm_num) hmsg]
  rintro ⟨shared, hshared⟩
  have hslope : ∀ i ∈ participants 2, i ≠ 0 → Scalar.ofId i = shared 0 := by
    intro i hi hne
    have hvalue := hshared i hi
    rw [sharingPolynomial, sharingPolynomial, Horner.eval_toPolynomial,
      Horner.eval_toPolynomial] at hvalue
    change 5 + Scalar.ofId i * (Scalar.ofId i + Scalar.ofId i • 0) =
      5 + Scalar.ofId i * (shared 0 + Scalar.ofId i • 0) at hvalue
    rw [smul_zero, add_zero, add_zero] at hvalue
    exact mul_left_cancel₀ (Scalar.ofId_ne_zero hne) (add_left_cancel hvalue)
  have hone := hslope 1 (by decide) (by decide)
  have htwo := hslope 2 (by decide) (by decide)
  exact absurd (Scalar.ofId_injective (hone.trans htwo.symm)) (by decide)

end Sigimora.Frost
