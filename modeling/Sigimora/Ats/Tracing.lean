import Sigimora.Ats.Signing

/-!
# What tracing establishes

The tags of honest signers name these signers. In general a tag names the member
whose long-term key it carries. The node id inside the tag selects the key that
its partial signature is checked against, but it is not compared with the named
member, and an unknown node id skips the check. Verification never looks at the
tags.
-/

namespace Sigimora.Ats

variable [Curve] [Cipher]

/-! ## Decryption -/

omit [Cipher] in
/-- The plaintext of a tag is of fixed length. -/
theorem length_tagPlaintext (nodeId : ParticipantId) (sigmaI tagI : G1Point) (ltPk : G2Point) :
    (tagPlaintext nodeId sigmaI tagI ltPk).length = 194 := by
  simp [tagPlaintext, G1Point.byteSize, G2Point.byteSize]

omit [Cipher] in
/-- The plaintext of a tag reads back as its contents. -/
theorem parseTag_tagPlaintext (nodeId : ParticipantId) (sigmaI tagI : G1Point) (ltPk : G2Point) :
    parseTag (tagPlaintext nodeId sigmaI tagI ltPk) = .ok ⟨nodeId, sigmaI, tagI, ltPk⟩ := by
  have hsigma : sigmaI.toBytes.length = 48 := G1Point.length_toBytes sigmaI
  have htag : tagI.toBytes.length = 48 := G1Point.length_toBytes tagI
  have hltPk : ltPk.toBytes.length = 96 := G2Point.length_toBytes ltPk
  have hid : (ByteString.littleEndian 2 nodeId.toNat).length = 2 :=
    ByteString.length_littleEndian _ _
  have h0 : (tagPlaintext nodeId sigmaI tagI ltPk).take 2 =
      ByteString.littleEndian 2 nodeId.toNat := by
    rw [tagPlaintext, List.append_assoc, List.append_assoc, List.take_left' hid]
  have h2 : ((tagPlaintext nodeId sigmaI tagI ltPk).drop 2).take 48 = sigmaI.toBytes := by
    rw [tagPlaintext, List.append_assoc, List.append_assoc, List.drop_left' hid,
      List.take_left' hsigma]
  have h50 : ((tagPlaintext nodeId sigmaI tagI ltPk).drop 50).take 48 = tagI.toBytes := by
    rw [tagPlaintext, List.append_assoc, List.drop_left' (by simp [hid, hsigma]),
      List.take_left' htag]
  have h98 : ((tagPlaintext nodeId sigmaI tagI ltPk).drop 98).take 96 = ltPk.toBytes := by
    rw [tagPlaintext, List.drop_left' (by simp [hid, hsigma, htag]),
      List.take_of_length_le hltPk.le]
  have hnodeId : UInt16.ofNat (ByteString.ofLittleEndian
      (ByteString.littleEndian 2 nodeId.toNat)) = nodeId := by
    have hlt : nodeId.toNat < 256 ^ 2 := nodeId.toNat_lt
    rw [ByteString.ofLittleEndian_littleEndian, Nat.mod_eq_of_lt hlt, UInt16.ofNat_toNat]
  simp only [parseTag, h0, h2, h50, h98, hnodeId, G1Point.fromBytes_toBytes,
    G2Point.fromBytes_toBytes, Outcome.ok_bind, Outcome.pure_eq_ok]

/-- The tracking secret decrypts every tag that was encrypted under its public key. -/
theorem decryptTag_encryptTag (trackingSk : Scalar) (nodeId : ParticipantId)
    (sigmaI tagI : G1Point) (ltPk : G2Point) (coins : TagCoins) :
    decryptTag trackingSk (encryptTag nodeId sigmaI tagI ltPk
      (trackingSk • G2Point.generator) coins) = some ⟨nodeId, sigmaI, tagI, ltPk⟩ := by
  have hlength : ¬ (tagPlaintext nodeId sigmaI tagI ltPk).length < 2 + 48 + 48 + 96 := by
    rw [length_tagPlaintext]
    omega
  simp only [decryptTag, encryptTag, smul_comm trackingSk coins.r, Cipher.decrypt_encrypt,
    if_neg hlength, parseTag_tagPlaintext]
  rfl

/-- What the tag of a partial signature holds. -/
theorem decryptTag_signPartial {trackingSk : Scalar} {trackingPk : G2Point}
    (hkey : trackingPk = trackingSk • G2Point.generator) (nodeId : ParticipantId)
    (share ltSk : Scalar) (msg : List UInt8) (coins : TagCoins) :
    decryptTag trackingSk (signPartial (SignerConfig.new nodeId share ltSk) msg trackingPk
      coins).encryptedTag = some ⟨nodeId, share • hashMessage msg,
        ltSk • share • hashMessage msg, ltSk • G2Point.generator⟩ := by
  rw [hkey]
  exact decryptTag_encryptTag _ _ _ _ _ _

/-! ## Named members -/

/-- The tag passes the tracer's checks and carries the long-term key of `mid`. -/
def TagNames (trackingSk : Scalar) (params : NetworkPublicParams) (h : G1Point)
    (tag : EncryptedTag) (mid : ParticipantId) (ltPk : G2Point) : Prop :=
  ∃ d, decryptTag trackingSk tag = some d ∧
    (∀ entry, params.memberPks.find? (fun e => e.1 == d.nodeId) = some entry →
      pairing d.sigmaI G2Point.generator = pairing h entry.2) ∧
    pairing d.tagI G2Point.generator = pairing d.sigmaI d.ltPk ∧
    params.memberLtPks.find? (fun e => e.2 == d.ltPk) = some (mid, ltPk)

omit [Cipher] in
/-- The partial signature passes when it verifies under the key of its node id, if any. -/
theorem partialRejected_eq_false {params : NetworkPublicParams} {h : G1Point} {d : DecryptedTag} :
    partialRejected params h d = false ↔
      ∀ entry, params.memberPks.find? (fun e => e.1 == d.nodeId) = some entry →
        pairing d.sigmaI G2Point.generator = pairing h entry.2 := by
  unfold partialRejected
  cases params.memberPks.find? fun e => e.1 == d.nodeId with
  | none => simp
  | some entry => simp [ctVerifyBlsSignature_iff]

/-- The tracer returns exactly what the tags name. -/
theorem traceTag_eq_some {trackingSk : Scalar} {params : NetworkPublicParams} {h : G1Point}
    {tag : EncryptedTag} {mid : ParticipantId} {ltPk : G2Point} :
    traceTag trackingSk params h tag = some (mid, ltPk) ↔
      TagNames trackingSk params h tag mid ltPk := by
  cases hdecrypt : decryptTag trackingSk tag with
  | none => simp [traceTag, TagNames, hdecrypt]
  | some d =>
    simp only [TagNames, hdecrypt, Option.some.injEq, exists_eq_left']
    rw [← partialRejected_eq_false, ← ctPairingCheck_iff]
    simp only [traceTag, hdecrypt]
    by_cases hrejected : partialRejected params h d
    · simp [hrejected]
    · by_cases htag : ctPairingCheck d.tagI G2Point.generator (-d.sigmaI) d.ltPk
      · simp [hrejected, htag]
      · simp [hrejected, htag]

/-- The trace holds the members that the tags name. -/
theorem mem_trace {trackingSk : Scalar} {params : NetworkPublicParams} {msg : List UInt8}
    {sig : AtsSignature} {mid : ParticipantId} {ltPk : G2Point} :
    (mid, ltPk) ∈ trace trackingSk params msg sig ↔
      ∃ tag ∈ sig.encryptedTags, TagNames trackingSk params (hashMessage msg) tag mid ltPk := by
  simp only [trace, List.mem_filterMap, traceTag_eq_some]

/-! ## Honest signatures -/

/-- The parameters hold the keys of the members, who all have long-term keys of
their own, and the tracking key. -/
structure HonestParams (params : NetworkPublicParams) (trackingSk : Scalar)
    (share : ParticipantId → Scalar) : Prop where
  trackingPk : params.trackingPk = trackingSk • G2Point.generator
  memberPks : ∀ entry ∈ params.memberPks, entry.2 = share entry.1 • G2Point.generator
  ltPks : (params.memberLtPks.map Prod.snd).Nodup

omit [Cipher] in
/-- A long-term key of its own is found together with its owner. -/
theorem find?_memberLtPks {params : NetworkPublicParams}
    (hltPks : (params.memberLtPks.map Prod.snd).Nodup) {mid : ParticipantId} {ltPk : G2Point}
    (hmem : (mid, ltPk) ∈ params.memberLtPks) :
    params.memberLtPks.find? (fun e => e.2 == ltPk) = some (mid, ltPk) := by
  cases hfind : params.memberLtPks.find? fun e => e.2 == ltPk with
  | none =>
    have hnone := List.find?_eq_none.mp hfind _ hmem
    simp at hnone
  | some entry =>
    have hentry := List.mem_of_find?_eq_some hfind
    have hkey : entry.2 = ltPk := by simpa using List.find?_some hfind
    rw [List.inj_on_of_nodup_map hltPks hentry hmem hkey]

/-- The tag of an honest signer names the signer. -/
theorem tagNames_sign {params : NetworkPublicParams} {trackingSk : Scalar}
    {share : ParticipantId → Scalar} (hparams : HonestParams params trackingSk share)
    {signer : Signer} (hltPk : (signer.id, signer.ltSk • G2Point.generator) ∈ params.memberLtPks)
    (msg : List UInt8) :
    TagNames trackingSk params (hashMessage msg)
      (signer.sign share msg params.trackingPk).encryptedTag signer.id
      (signer.ltSk • G2Point.generator) := by
  refine ⟨_, decryptTag_signPartial hparams.trackingPk signer.id (share signer.id) signer.ltSk msg
    signer.coins, ?_, ?_, find?_memberLtPks hparams.ltPks hltPk⟩
  · intro entry hentry
    have hid : entry.1 = signer.id := by simpa using List.find?_some hentry
    rw [hparams.memberPks entry (List.mem_of_find?_eq_some hentry), hid, pairing_smul_left,
      pairing_smul_right]
  · rw [pairing_smul_left, pairing_smul_right]

omit [Cipher] in
/-- The tags of a combined signature are those of its partial signatures, in order. -/
theorem encryptedTags_aggregate {partials : List PartialSignature} {params : NetworkPublicParams}
    {epoch : UInt64} {aggregatorId : ParticipantId} {sig : AtsSignature}
    (h : aggregate partials params epoch aggregatorId = .ok sig) :
    sig.encryptedTags = partials.map PartialSignature.encryptedTag := by
  unfold aggregate at h
  split at h
  · cases h
  · obtain ⟨lambdas, _, hsig⟩ := Outcome.bind_eq_ok.mp h
    cases hsig
    rfl

/-- Tags that name a member each are traced to these members, in order. -/
theorem trace_aggregate {params : NetworkPublicParams} {trackingSk : Scalar} {β : Type}
    {entries : List β} {sign : β → PartialSignature} (name : β → ParticipantId × G2Point)
    {msg : List UInt8} {epoch : UInt64} {aggregatorId : ParticipantId} {sig : AtsSignature}
    (hnames : ∀ entry ∈ entries, TagNames trackingSk params (hashMessage msg)
      (sign entry).encryptedTag (name entry).1 (name entry).2)
    (haggregate : aggregate (entries.map sign) params epoch aggregatorId = .ok sig) :
    trace trackingSk params msg sig = entries.map name := by
  rw [trace, encryptedTags_aggregate haggregate, List.map_map, List.filterMap_map,
    ← List.filterMap_eq_map]
  exact List.filterMap_congr fun entry hentry => traceTag_eq_some.mpr (hnames entry hentry)

/-- **Tracing honest signatures.** The tracking secret identifies exactly the
signers, in the order of their partial signatures. -/
theorem trace_complete {params : NetworkPublicParams} {trackingSk : Scalar}
    {share : ParticipantId → Scalar} (hparams : HonestParams params trackingSk share)
    {signers : List Signer}
    (hmember : ∀ signer ∈ signers,
      (signer.id, signer.ltSk • G2Point.generator) ∈ params.memberLtPks)
    {msg : List UInt8} {epoch : UInt64} {aggregatorId : ParticipantId} {sig : AtsSignature}
    (haggregate : aggregate (signers.map fun s => s.sign share msg params.trackingPk) params
      epoch aggregatorId = .ok sig) :
    trace trackingSk params msg sig =
      signers.map fun s => (s.id, s.ltSk • G2Point.generator) :=
  trace_aggregate _ (fun signer hsigner => tagNames_sign hparams (hmember signer hsigner) msg)
    haggregate

omit [Curve] [Cipher] in
/-- The keys of the two members are those of their shares and their long-term secrets. -/
theorem keys_twoMembers :
    letI := exponentCurve
    twoMembers.trackingPk = (3 : Scalar) • (G2Point.generator : G2Point) ∧
      (∀ entry ∈ twoMembers.memberPks,
        entry.2 = (7 + Scalar.ofId entry.1) • (G2Point.generator : G2Point)) ∧
      (twoMembers.memberLtPks.map Prod.snd).Nodup ∧
      (2, (12 : Scalar) • G2Point.generator) ∈ twoMembers.memberLtPks ∧
      (1, (11 : Scalar) • G2Point.generator) ∈ twoMembers.memberLtPks := by
  decide +kernel

omit [Curve] [Cipher] in
/-- Both members sign, the second one first, and are traced in that order. -/
theorem trace_complete_twoMembers :
    letI := exponentCurve
    letI := plainCipher
    ∃ sig, aggregate ([⟨2, 12, ⟨1, 0⟩⟩, ⟨1, 11, ⟨2, 0⟩⟩].map fun s : Signer =>
        s.sign (fun id => 7 + Scalar.ofId id) [1] twoMembers.trackingPk) twoMembers 0 2 = .ok sig ∧
      trace 3 twoMembers [1] sig =
        [(2, (12 : Scalar) • G2Point.generator), (1, (11 : Scalar) • G2Point.generator)] := by
  let := exponentCurve
  let := plainCipher
  obtain ⟨htracking, hshares, hltPks, hsecond, hfirst⟩ := keys_twoMembers
  have haggregate := aggregate_eq_ok
    ([(⟨2, 12, ⟨1, 0⟩⟩ : Signer), ⟨1, 11, ⟨2, 0⟩⟩].map fun s =>
      s.sign (fun id => 7 + Scalar.ofId id) [1] twoMembers.trackingPk)
    (show twoMembers.threshold ≤ 2 from le_rfl) (by decide) 0 2
  exact ⟨_, haggregate, trace_complete ⟨htracking, hshares, hltPks⟩
    (List.forall_mem_cons.mpr ⟨hsecond, List.forall_mem_singleton.mpr hfirst⟩) haggregate⟩

/-! ## Framing -/

/-- Some tag carries the id of `mid`, its long-term key and a partial signature
that verifies under its share key. -/
def Backed (trackingSk : Scalar) (params : NetworkPublicParams) (msg : List UInt8)
    (sig : AtsSignature) (mid : ParticipantId) (ltPk : G2Point) : Prop :=
  ∃ tag ∈ sig.encryptedTags, ∃ d, decryptTag trackingSk tag = some d ∧ d.nodeId = mid ∧
    (∃ pk, (mid, pk) ∈ params.memberPks ∧
      pairing d.sigmaI G2Point.generator = pairing (hashMessage msg) pk) ∧
    d.ltPk = ltPk ∧ (mid, ltPk) ∈ params.memberLtPks

/-- The tag carries the long-term key of `mid` under a node id that is unknown
or that of another member, whose key the partial signature verifies under. -/
def Mislabelled (trackingSk : Scalar) (params : NetworkPublicParams) (h : G1Point)
    (tag : EncryptedTag) (mid : ParticipantId) (ltPk : G2Point) : Prop :=
  ∃ d, decryptTag trackingSk tag = some d ∧
    (params.memberPks.find? (fun e => e.1 == d.nodeId) = none ∨
      d.nodeId ≠ mid ∧ ∃ entry, params.memberPks.find? (fun e => e.1 == d.nodeId) = some entry ∧
        pairing d.sigmaI G2Point.generator = pairing h entry.2) ∧
    pairing d.tagI G2Point.generator = pairing d.sigmaI d.ltPk ∧
    params.memberLtPks.find? (fun e => e.2 == d.ltPk) = some (mid, ltPk)

/-- A mislabelled tag names the member all the same. -/
theorem Mislabelled.tagNames {trackingSk : Scalar} {params : NetworkPublicParams} {h : G1Point}
    {tag : EncryptedTag} {mid : ParticipantId} {ltPk : G2Point}
    (hmis : Mislabelled trackingSk params h tag mid ltPk) :
    TagNames trackingSk params h tag mid ltPk := by
  obtain ⟨d, hdecrypt, hid, hrest⟩ := hmis
  refine ⟨d, hdecrypt, ?_, hrest⟩
  intro entry hentry
  rcases hid with hunknown | ⟨_, other, hother, hsigma⟩
  · rw [hunknown] at hentry
    cases hentry
  · rw [hother, Option.some.injEq] at hentry
    rwa [← hentry]

/-- A tag that names a member is mislabelled or backs the member itself. -/
theorem TagNames.backed_or_mislabelled {trackingSk : Scalar} {params : NetworkPublicParams}
    {msg : List UInt8} {sig : AtsSignature} {tag : EncryptedTag} (htag : tag ∈ sig.encryptedTags)
    {mid : ParticipantId} {ltPk : G2Point}
    (h : TagNames trackingSk params (hashMessage msg) tag mid ltPk) :
    Backed trackingSk params msg sig mid ltPk ∨
      Mislabelled trackingSk params (hashMessage msg) tag mid ltPk := by
  obtain ⟨d, hdecrypt, hsigma, htagEq, hltPk⟩ := h
  cases hfind : params.memberPks.find? fun e => e.1 == d.nodeId with
  | none => exact Or.inr ⟨d, hdecrypt, Or.inl hfind, htagEq, hltPk⟩
  | some entry =>
    by_cases hid : d.nodeId = mid
    · have hentry : entry.1 = d.nodeId := by simpa using List.find?_some hfind
      have howner : ltPk = d.ltPk := by simpa using List.find?_some hltPk
      refine Or.inl ⟨tag, htag, d, hdecrypt, hid, ⟨entry.2, ?_, hsigma entry hfind⟩,
        howner.symm, List.mem_of_find?_eq_some hltPk⟩
      rw [← hid, ← hentry]
      exact List.mem_of_find?_eq_some hfind
    · exact Or.inr ⟨d, hdecrypt, Or.inr ⟨hid, entry, hfind, hsigma entry hfind⟩, htagEq, hltPk⟩

/-- **Tracing and framing.** Every traced member is backed by a tag of its own
exactly when each mislabelled tag names a member that is backed anyway. -/
theorem trace_backed_iff (trackingSk : Scalar) (params : NetworkPublicParams)
    (msg : List UInt8) (sig : AtsSignature) :
    (∀ entry ∈ trace trackingSk params msg sig,
        Backed trackingSk params msg sig entry.1 entry.2) ↔
      ∀ tag ∈ sig.encryptedTags, ∀ mid ltPk,
        Mislabelled trackingSk params (hashMessage msg) tag mid ltPk →
          Backed trackingSk params msg sig mid ltPk := by
  constructor
  · intro hbacked tag htag mid ltPk hmis
    exact hbacked (mid, ltPk) (mem_trace.mpr ⟨tag, htag, hmis.tagNames⟩)
  · rintro hmis ⟨mid, ltPk⟩ hentry
    obtain ⟨tag, htag, hnames⟩ := mem_trace.mp hentry
    rcases hnames.backed_or_mislabelled htag with hbacked | hmislabelled
    · exact hbacked
    · exact hmis tag htag mid ltPk hmislabelled

omit [Curve] [Cipher] in
/-- The two members are distinct, the id 9 is unknown, and 11 is the long-term key of 1. -/
theorem lookups_twoMembers :
    letI := exponentCurve
    (twoMembers.memberPks.map Prod.fst).Nodup ∧ (twoMembers.memberLtPks.map Prod.snd).Nodup ∧
      twoMembers.memberPks.find? (fun e => e.1 == 9) = none ∧
      twoMembers.memberLtPks.find? (fun e => e.2 == (11 : Scalar)) = some (1, (11 : Scalar)) := by
  decide +kernel

omit [Curve] [Cipher] in
/-- An empty partial signature under an unknown node id, with the long-term key
of the member 1, makes the tracer name a member that never signed. -/
theorem trace_frames_member :
    letI := exponentCurve
    letI := plainCipher
    ¬ ∀ (trackingSk : Scalar) (params : NetworkPublicParams) (msg : List UInt8)
      (sig : AtsSignature), (params.memberPks.map Prod.fst).Nodup →
        (params.memberLtPks.map Prod.snd).Nodup → ∀ entry ∈ trace trackingSk params msg sig,
          Backed trackingSk params msg sig entry.1 entry.2 := by
  let := exponentCurve
  let := plainCipher
  intro h
  obtain ⟨hids, hltPks, hunknown, howner⟩ := lookups_twoMembers
  let tag : EncryptedTag :=
    encryptTag 9 0 0 (11 : Scalar) ((3 : Scalar) • (G2Point.generator : G2Point)) ⟨1, 0⟩
  have hdecrypt : decryptTag 3 tag = some ⟨9, 0, 0, (11 : Scalar)⟩ :=
    decryptTag_encryptTag 3 9 0 0 (11 : Scalar) ⟨1, 0⟩
  have hnames : TagNames 3 twoMembers (hashMessage []) tag 1 (11 : Scalar) := by
    refine ⟨_, hdecrypt, ?_, by simp [pairing], howner⟩
    intro entry hentry
    exact absurd (hentry.symm.trans hunknown) (by simp)
  have hbacked := h 3 twoMembers [] ⟨0, [], 0, [tag], ⟨0, []⟩, 0⟩ hids hltPks
    (1, (11 : Scalar)) (mem_trace.mpr ⟨tag, List.mem_singleton_self tag, hnames⟩)
  obtain ⟨tag', htag', d, hd, hid, _⟩ := hbacked
  rw [List.mem_singleton.mp htag', hdecrypt, Option.some.injEq] at hd
  rw [← hd] at hid
  exact absurd hid (by decide)

/-! ## Accountability -/

/-- The trace of the signature contains at least `threshold` distinct members. -/
def Accountable (trackingSk : Scalar) (params : NetworkPublicParams) (msg : List UInt8)
    (sig : AtsSignature) : Prop :=
  params.threshold ≤ ((trace trackingSk params msg sig).map Prod.fst).toFinset.card

/-- The ids in the trace are those that the tags name. -/
theorem mem_traced {trackingSk : Scalar} {params : NetworkPublicParams} {msg : List UInt8}
    {sig : AtsSignature} {mid : ParticipantId} :
    mid ∈ ((trace trackingSk params msg sig).map Prod.fst).toFinset ↔
      ∃ ltPk, ∃ tag ∈ sig.encryptedTags,
        TagNames trackingSk params (hashMessage msg) tag mid ltPk := by
  simp only [List.mem_toFinset, List.mem_map, Prod.exists, exists_and_right, exists_eq_right,
    mem_trace]

/-- A signer with the long-term secret of `mid`, and with the share of the member whose node id it
uses, if this is the id of a member. -/
structure SignsFor (params : NetworkPublicParams) (signer : SignerConfig) (mid : ParticipantId) :
    Prop where
  keys : signer = SignerConfig.new signer.nodeId signer.dkgShare signer.ltSk
  ltPk : params.memberLtPks.find? (fun e => e.2 == signer.ltPk) = some (mid, signer.ltPk)
  sharePk : ∀ entry, params.memberPks.find? (fun e => e.1 == signer.nodeId) = some entry →
    entry.2 = signer.dkgSharePk

/-- The tag is one that `signPartial` makes for the message, or opens to the same contents. -/
def SignedTag (trackingSk : Scalar) (params : NetworkPublicParams) (msg : List UInt8)
    (tag : EncryptedTag) (signer : SignerConfig) : Prop :=
  ∃ coins, decryptTag trackingSk tag =
    decryptTag trackingSk (signPartial signer msg params.trackingPk coins).encryptedTag

/-- At least `threshold` members have each a signed tag among those of the signature. -/
def EnoughSigned (trackingSk : Scalar) (params : NetworkPublicParams) (msg : List UInt8)
    (sig : AtsSignature) : Prop :=
  ∃ members : Finset ParticipantId, params.threshold ≤ members.card ∧ ∀ mid ∈ members,
    ∃ signer, SignsFor params signer mid ∧
      ∃ tag ∈ sig.encryptedTags, SignedTag trackingSk params msg tag signer

section Signed

variable {trackingSk : Scalar} {params : NetworkPublicParams} {msg : List UInt8}
  {tag : EncryptedTag} {mid : ParticipantId}

/-- The tag of a signer for a member names the member. -/
theorem SignedTag.tagNames (hkey : params.trackingPk = trackingSk • G2Point.generator)
    {signer : SignerConfig} (hsigner : SignsFor params signer mid)
    (htag : SignedTag trackingSk params msg tag signer) :
    TagNames trackingSk params (hashMessage msg) tag mid signer.ltPk := by
  obtain ⟨coins, hdecrypt⟩ := htag
  obtain ⟨hkeys, hltPk, hsharePk⟩ := hsigner
  rw [hkeys, decryptTag_signPartial hkey] at hdecrypt
  have hpks : signer.dkgSharePk = signer.dkgShare • G2Point.generator ∧
      signer.ltPk = signer.ltSk • G2Point.generator := by
    rw [hkeys]
    exact ⟨rfl, rfl⟩
  refine ⟨_, hdecrypt, fun entry hentry => ?_, ?_, ?_⟩
  · exact pairing_generator_eq_iff.mpr ⟨_, (hsharePk entry hentry).trans hpks.1, rfl⟩
  · exact pairing_generator_eq_iff.mpr ⟨_, rfl, rfl⟩
  · rw [← hpks.2]
    exact hltPk

/-- A tag that names a member was signed for it: the two pairing equations leave the partial
signature and the tag no other values than those that the secrets of the two keys make. -/
theorem TagNames.exists_signer (hkey : params.trackingPk = trackingSk • G2Point.generator)
    (hmsg : hashMessage msg ≠ 0) {ltPk : G2Point}
    (h : TagNames trackingSk params (hashMessage msg) tag mid ltPk) :
    ∃ signer, SignsFor params signer mid ∧ SignedTag trackingSk params msg tag signer := by
  obtain ⟨⟨nodeId, sigmaI, tagI, ltPk'⟩, hdecrypt, hsigma, htag, hltPk⟩ := h
  simp only at hsigma htag hltPk
  obtain ⟨ltSk, rfl, rfl⟩ := pairing_generator_eq_iff.mp htag
  -- An unknown node id has no share; any partial signature is one by some share.
  have hshare : ∃ share : Scalar, sigmaI = share • hashMessage msg ∧
      ∀ entry, params.memberPks.find? (fun e => e.1 == nodeId) = some entry →
        entry.2 = share • G2Point.generator := by
    cases hfind : params.memberPks.find? fun e => e.1 == nodeId with
    | none =>
      obtain ⟨share, hshare⟩ := G1Point.exists_smul_of_ne_zero hmsg sigmaI
      exact ⟨share, hshare, nofun⟩
    | some entry =>
      obtain ⟨share, hpk, hshare⟩ := pairing_generator_eq_iff.mp (hsigma entry hfind)
      refine ⟨share, hshare, fun other hother => ?_⟩
      rw [← Option.some.inj hother, hpk]
  obtain ⟨share, rfl, hsharePk⟩ := hshare
  obtain rfl : ltPk = ltSk • G2Point.generator := by simpa using List.find?_some hltPk
  refine ⟨SignerConfig.new nodeId share ltSk, ⟨rfl, hltPk, hsharePk⟩, ⟨0, 0⟩, ?_⟩
  rw [decryptTag_signPartial hkey]
  exact hdecrypt

end Signed

/-- **Accountability.** A signature that carries tags of `signPartial` for the message by enough
members is accountable, and one that verifies is accountable only if it carries them, unless the
message hashes to the identity. -/
theorem verified_accountable_iff_signed {trackingSk : Scalar} {params : NetworkPublicParams}
    (hkey : params.trackingPk = trackingSk • G2Point.generator) (msg : List UInt8)
    (sig : AtsSignature) :
    (EnoughSigned trackingSk params msg sig →
        verify params msg sig = true → Accountable trackingSk params msg sig) ∧
      (hashMessage msg ≠ 0 → verify params msg sig = true →
        Accountable trackingSk params msg sig → EnoughSigned trackingSk params msg sig) := by
  constructor
  · rintro ⟨members, hcard, hsigned⟩ _
    refine hcard.trans (Finset.card_le_card fun mid hmid => mem_traced.mpr ?_)
    obtain ⟨signer, hsigner, tag, hmem, htag⟩ := hsigned mid hmid
    exact ⟨_, tag, hmem, htag.tagNames hkey hsigner⟩
  · intro hmsg _ haccountable
    refine ⟨_, haccountable, fun mid hmid => ?_⟩
    obtain ⟨ltPk, tag, hmem, hnames⟩ := mem_traced.mp hmid
    obtain ⟨signer, hsigner, htag⟩ := hnames.exists_signer hkey hmsg
    exact ⟨signer, hsigner, tag, hmem, htag⟩

omit [Curve] [Cipher] in
/-- The signature of both members is accountable, since both have signed. -/
theorem accountable_twoMembers :
    letI := exponentCurve
    letI := plainCipher
    let partials := [(1, 11), (2, 12)].map fun keys : ParticipantId × Scalar =>
      signPartial (SignerConfig.new keys.1 (7 + Scalar.ofId keys.1) keys.2) [1]
        twoMembers.trackingPk ⟨1, 0⟩
    let sig : AtsSignature := ⟨(7 : Scalar) • hashMessage [1], [1, 2], 0,
      partials.map PartialSignature.encryptedTag, ⟨(7 : Scalar), twoMembers.memberPks⟩, 0⟩
    Accountable 3 twoMembers [1] sig ∧ EnoughSigned 3 twoMembers [1] sig := by
  let := exponentCurve
  let := plainCipher
  intro partials sig
  obtain ⟨htracking, hshares, hltPks, hsecond, hfirst⟩ := keys_twoMembers
  have hcollective : twoMembers.collectivePk = (7 : Scalar) • (G2Point.generator : G2Point) :=
    (mul_one (7 : Scalar)).symm
  have hverify : verify twoMembers [1] sig = true := by
    refine verify_iff.mpr ⟨le_rfl, fun _ hentry => hentry, ?_⟩
    rw [hcollective]
    exact ctVerifyBlsSignature_smul_iff.mpr rfl
  have hmsg : (hashMessage [1] : G1Point) ≠ 0 := by decide +kernel
  have hsigner {mid : ParticipantId} {ltSk : Scalar}
      (hltPk : (mid, ltSk • (G2Point.generator : G2Point)) ∈ twoMembers.memberLtPks) :
      SignsFor twoMembers (SignerConfig.new mid (7 + Scalar.ofId mid) ltSk) mid := by
    refine ⟨rfl, find?_memberLtPks hltPks hltPk, fun entry hentry => ?_⟩
    have hid : entry.1 = mid := by simpa [SignerConfig.new] using List.find?_some hentry
    rw [hshares entry (List.mem_of_find?_eq_some hentry), hid]
    rfl
  obtain ⟨henough, honly⟩ := verified_accountable_iff_signed htracking [1] sig
  have haccountable : Accountable 3 twoMembers [1] sig := by
    refine henough ⟨{1, 2}, le_rfl, fun mid hmid => ?_⟩ hverify
    rcases Finset.mem_insert.mp hmid with rfl | hmid
    · exact ⟨_, hsigner hfirst, _, List.mem_cons_self, ⟨1, 0⟩, rfl⟩
    · rw [Finset.mem_singleton] at hmid
      subst hmid
      exact ⟨_, hsigner hsecond, _, List.mem_cons_of_mem _ (List.mem_singleton_self _),
        ⟨1, 0⟩, rfl⟩
  exact ⟨haccountable, honly hmsg hverify haccountable⟩

omit [Curve] [Cipher] in
/-- A signature whose tags were removed still verifies, and traces to nobody. -/
theorem verified_without_tags :
    letI := exponentCurve
    letI := plainCipher
    ¬ ∀ (trackingSk : Scalar) (params : NetworkPublicParams) (msg : List UInt8)
      (sig : AtsSignature), params.trackingPk = trackingSk • G2Point.generator →
        verify params msg sig = true → Accountable trackingSk params msg sig := by
  let := exponentCurve
  let := plainCipher
  intro h
  let sig : AtsSignature :=
    ⟨(7 : Scalar) • hashMessage [], [1, 2], 0, [], ⟨(7 : Scalar), twoMembers.memberPks⟩, 0⟩
  have hverify : verify twoMembers [] sig = true := by
    refine verify_iff.mpr ⟨le_rfl, fun _ hentry => hentry, ?_⟩
    have hpk : twoMembers.collectivePk = (7 : Scalar) • (G2Point.generator : G2Point) :=
      (mul_one (7 : Scalar)).symm
    rw [hpk]
    exact ctVerifyBlsSignature_smul_iff.mpr rfl
  have haccountable := h 3 twoMembers [] sig (mul_one (3 : Scalar)).symm hverify
  have hnobody : ((trace 3 twoMembers [] sig).map Prod.fst).toFinset.card = 0 := rfl
  rw [Accountable, hnobody] at haccountable
  exact absurd haccountable (by simp [twoMembers])

end Sigimora.Ats
