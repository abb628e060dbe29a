import Sigimora.Crypto.FrostSigning

/-!
# Signatures of a session

A session is a message, an epoch and a list of signers. The three are bound to a
signature through the point that is signed. The bytes that are hashed to that
point belong to one session only, but the signature that `aggregate` builds does
not carry the session along.
-/

namespace Sigimora.Frost

open Interpolation Shamir Feldman

variable [Curve]

omit [Curve] in
/-- The bytes whose digest is the transcript of a session. -/
def sessionBytes (msg : List UInt8) (epoch : UInt64) (signers : List ParticipantId) : List UInt8 :=
  msg ++ ByteString.littleEndian 8 epoch.toNat ++
    signers.flatMap fun s => ByteString.littleEndian 2 s.toNat

/-- The bytes that are hashed to the curve in a session. -/
def signingInput (msg : List UInt8) (epoch : UInt64) (signers : List ParticipantId) : List UInt8 :=
  let transcript := computeSessionTranscript msg epoch signers
  msg ++ byteLiteral "|" ++ transcript

/-- The point that is signed in a session. -/
def computeSigningHash (msg : List UInt8) (epoch : UInt64) (signers : List ParticipantId) :
    G1Point :=
  hashToG1 (signingInput msg epoch signers) (byteLiteral "FROST-BLS-SIG")

/-- A partial signature for a session. -/
def signPartial (signingKey : SigningKey) (msg : List UInt8) (epoch : UInt64)
    (signers : List ParticipantId) : PartialSignature :=
  let h := computeSigningHash msg epoch signers
  { signerId := signingKey.share.index, sigma := signingKey.share.value • h }

/-- Check a partial signature of a session under the signer's own key. -/
def verifyPartial (partialSig : PartialSignature) (ipk : G2Point) (msg : List UInt8)
    (epoch : UInt64) (signers : List ParticipantId) : Bool :=
  let h := computeSigningHash msg epoch signers
  ctVerifyBlsSignature partialSig.sigma h ipk

/-- Check a signature for the session that is passed. -/
def verifyWithSession (frostSig : FrostSignature) (groupPk : G2Point) (msg : List UInt8)
    (epoch : UInt64) (signers : List ParticipantId) : Bool :=
  let h := computeSigningHash msg epoch signers
  ctVerifyBlsSignature frostSig.sigma h groupPk

/-- Under a signer's own key exactly the signer's partial signature of the session passes. -/
theorem verifyPartial_iff {signingKey : SigningKey}
    (hipk : signingKey.ipk = signingKey.share.value • G2Point.generator)
    (partialSig : PartialSignature) (msg : List UInt8) (epoch : UInt64)
    (signers : List ParticipantId) :
    verifyPartial partialSig signingKey.ipk msg epoch signers = true ↔
      partialSig.sigma = (signPartial signingKey msg epoch signers).sigma := by
  rw [verifyPartial, hipk, ctVerifyBlsSignature_smul_iff, signPartial]

/-! ## One input, one session -/

variable {msg msg' : List UInt8} {epoch epoch' : UInt64} {signers signers' : List ParticipantId}

omit [Curve] in
/-- For one message the bytes of the transcript determine the epoch and the signers. -/
theorem sessionBytes_inj (h : sessionBytes msg epoch signers = sessionBytes msg epoch' signers') :
    epoch = epoch' ∧ signers = signers' := by
  simp only [sessionBytes, List.append_assoc] at h
  obtain ⟨hepoch, hsigners⟩ := List.append_inj (List.append_cancel_left h)
    (by simp only [ByteString.length_littleEndian])
  refine ⟨?_, ?_⟩
  · exact UInt64.toNat_inj.mp (ByteString.littleEndian_inj epoch.toNat_lt epoch'.toNat_lt hepoch)
  · refine ByteString.flatMap_inj two_pos (fun s => ByteString.length_littleEndian 2 _) ?_ hsigners
    intro s s' hs
    exact UInt16.toNat_inj.mp (ByteString.littleEndian_inj s.toNat_lt s'.toNat_lt hs)

/-- **Separation of sessions.** The bytes that are hashed to the curve are those of one session,
unless the digest collides on the two transcripts. -/
theorem signingInput_inj (hlength : ∀ bytes : List UInt8, (Curve.sha256 bytes).length = 32)
    (hcollision : Curve.sha256 (sessionBytes msg epoch signers) =
        Curve.sha256 (sessionBytes msg' epoch' signers') →
      sessionBytes msg epoch signers = sessionBytes msg' epoch' signers')
    (h : signingInput msg epoch signers = signingInput msg' epoch' signers') :
    msg = msg' ∧ epoch = epoch' ∧ signers = signers' := by
  -- the transcript is a tail of fixed length, whatever the message ends with
  obtain ⟨hfront, htranscript⟩ := List.append_inj' h (by
    rw [computeSessionTranscript, computeSessionTranscript, hlength, hlength])
  obtain rfl : msg = msg' := List.append_cancel_right hfront
  exact ⟨rfl, sessionBytes_inj (hcollision htranscript)⟩

omit [Curve] in
/-- Two sessions of one transcript, whose bytes are split in two ways. -/
theorem signingInput_inj_split :
    letI := exponentCurve
    signingInput [] 1 [2] ≠ signingInput [1, 0] 562949953421312 [] := by
  let := exponentCurve
  intro h
  have hsessions := signingInput_inj (fun bytes => ByteString.length_bigEndian _ _)
    (fun _ => by decide) h
  exact absurd hsessions.1 (by decide)

/-! ## The record of a session -/

/-- The partial signatures of the members of a session are combined to a signature that records
the session, so that it verifies under what it records. -/
def SelfDescribing (key : ParticipantId → SigningKey) (order : List ParticipantId)
    (signingKeys : List SigningKey) (threshold : ℕ) (groupPk : G2Point) (msg : List UInt8)
    (epoch : UInt64) (signers : List ParticipantId) : Prop :=
  ∃ sig, aggregate (order.map fun i => signPartial (key i) msg epoch signers) signingKeys
      threshold = .ok sig ∧
    sig.epoch = epoch ∧ sig.signers = signers ∧
    verifyWithSession sig groupPk msg sig.epoch sig.signers = true

variable {key : ParticipantId → SigningKey} {order : List ParticipantId} {threshold : ℕ}
  {p : Polynomial Scalar}

/-- Every signature is recorded as one of the first epoch, by the owners of the keys passed. -/
theorem aggregate_records {partials : List PartialSignature} {signingKeys : List SigningKey}
    {sig : FrostSignature} (h : aggregate partials signingKeys threshold = .ok sig) :
    sig.epoch = 1 ∧ sig.signers = signingKeys.map fun sk => sk.share.index := by
  unfold aggregate at h
  split_ifs at h
  · cases h
  · cases h
    exact ⟨rfl, rfl⟩

/-- What is combined is the multiple of the session's point by the secret. -/
theorem aggregate_signPartial (signingKeys : List SigningKey) (hnodup : signers.Nodup)
    (horder : order.Perm signers) (hsize : threshold ≤ signers.length)
    (hdegree : p.degree < threshold)
    (hkey : ∀ i ∈ signers, (key i).share = ⟨i, p.eval (Scalar.ofId i)⟩) :
    aggregate (order.map fun i => signPartial (key i) msg epoch signers) signingKeys threshold =
      .ok {
        sigma := p.eval 0 • computeSigningHash msg epoch signers
        signers := signingKeys.map fun sk => sk.share.index
        epoch := 1
        transcript := [] } := by
  let h := computeSigningHash msg epoch signers
  have hpartials : (order.map fun i => signPartial (key i) msg epoch signers) =
      order.map fun i => ⟨i, p.eval (Scalar.ofId i) • h⟩ := by
    refine List.map_congr_left fun i hi => ?_
    rw [signPartial, hkey i (horder.subset hi)]
  have hlength : order.length = signers.length := horder.length_eq
  have hdistinct : order.Nodup := horder.nodup_iff.mpr hnodup
  have hlow : p.degree < order.length :=
    lt_of_lt_of_le hdegree (by rw [hlength]; exact_mod_cast hsize)
  have hsigma := weightedSum_smul hdistinct hlow (P := h) rfl
  rw [aggregate, if_neg (by rw [List.length_map]; omega), hpartials]
  simp only [List.map_map, Function.comp_def, List.map_id', lagrangeCoefficients_eq hdistinct]
  rw [hsigma]

/-- **What a signature says of its session.** It describes the session exactly in the first epoch
and if the keys that are passed along are those of the signers, in their order. -/
theorem selfDescribing_iff (msg : List UInt8) (epoch : UInt64) (signingKeys : List SigningKey)
    (hnodup : signers.Nodup) (horder : order.Perm signers)
    (hsize : threshold ≤ signers.length) (hdegree : p.degree < threshold)
    (hkey : ∀ i ∈ signers, (key i).share = ⟨i, p.eval (Scalar.ofId i)⟩) :
    SelfDescribing key order signingKeys threshold (p.eval 0 • G2Point.generator) msg epoch
        signers ↔
      epoch = 1 ∧ signingKeys.map (fun sk => sk.share.index) = signers := by
  constructor
  · rintro ⟨sig, hsig, hepoch, hsigners, _⟩
    have hrecords := aggregate_records hsig
    exact ⟨hepoch.symm.trans hrecords.1, hrecords.2.symm.trans hsigners⟩
  · rintro ⟨rfl, hsigners⟩
    refine ⟨_, aggregate_signPartial signingKeys hnodup horder hsize hdegree hkey, rfl, hsigners,
      ?_⟩
    simp only [hsigners]
    rw [verifyWithSession, ctVerifyBlsSignature_smul_iff]

/-- The key of a signer whose share is the secret itself. -/
def constantKey (secret : Scalar) (i : ParticipantId) : SigningKey where
  share := ⟨i, secret⟩
  ipk := secret • G2Point.generator

omit [Curve] in
/-- Two signers, with their partial signatures in the other order. -/
theorem selfDescribing_iff_two :
    letI := exponentCurve
    SelfDescribing (constantKey 5) [2, 1] [constantKey 5 1, constantKey 5 2] 2
        ((5 : Scalar) • G2Point.generator) [7] 1 [1, 2] ↔
      (1 : UInt64) = 1 ∧
        [constantKey 5 1, constantKey 5 2].map (fun sk => sk.share.index) = [1, 2] := by
  let := exponentCurve
  have hnodup : ([1, 2] : List ParticipantId).Nodup := by decide
  have horder : ([2, 1] : List ParticipantId).Perm [1, 2] := by decide
  have hdegree : (Polynomial.C (5 : Scalar)).degree < (2 : ℕ) :=
    lt_of_le_of_lt Polynomial.degree_C_le (by norm_num)
  have hkey : ∀ i ∈ ([1, 2] : List ParticipantId),
      (constantKey 5 i).share = ⟨i, (Polynomial.C (5 : Scalar)).eval (Scalar.ofId i)⟩ := by
    intro i _
    rw [Polynomial.eval_C, constantKey]
  have hsize : 2 ≤ ([1, 2] : List ParticipantId).length := le_rfl
  have hexact := selfDescribing_iff [7] 1 [constantKey 5 1, constantKey 5 2] hnodup horder hsize
    hdegree hkey
  rw [Polynomial.eval_C] at hexact
  exact hexact

omit [Curve] in
/-- A signature of the second epoch records the first. -/
theorem second_epoch_recorded_as_first :
    letI := exponentCurve
    ¬ SelfDescribing (constantKey 5) [1] [constantKey 5 1] 1 ((5 : Scalar) • G2Point.generator)
      [7] 2 [1] := by
  let := exponentCurve
  rintro ⟨sig, hsig, hepoch, _⟩
  rw [(aggregate_records hsig).1] at hepoch
  exact absurd hepoch (by decide)

end Sigimora.Frost
