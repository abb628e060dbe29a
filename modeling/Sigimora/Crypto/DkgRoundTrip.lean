import Sigimora.Crypto.DkgWire
import Sigimora.Math.ExponentCurve

/-!
# Round trips

The writer puts the type of a message behind its ids, and the reader looks for it at the
third byte. The two agree on messages with one id. A message with two ids is read back only
when the low byte of the second one happens to be its type; a share has to be of one
particular length and content as well, since its length is then read from one byte too early.
-/

namespace Sigimora

open Pedersen Reader

variable [Curve]

namespace DkgMessage

/-- The message is written and read back. -/
def Survives (message : DkgMessage) : Prop :=
  ∃ bytes, message.serialize = .ok bytes ∧ deserialize bytes = .ok message

/-- The lengths of a message fit in their fields. -/
def Fits : DkgMessage → Prop
  | .commit _ _ _ vssPublic => vssPublic.commitments.length < 2 ^ 32
  | .share _ _ encryptedShare => encryptedShare.length < 2 ^ 32
  | _ => True

/-- The third byte of a message happens to be its type, and a share happens to fit the
length that is then found. The length is `0x02020202`. -/
def TypeInPlace : DkgMessage → Prop
  | .share _ recipient encryptedShare =>
    recipient.toNat % 256 = 2 ∧ encryptedShare = List.replicate 33686018 2
  | .complaint _ against => against.toNat % 256 = 3
  | .disqualify _ disqualified => disqualified.toNat % 256 = 5
  | _ => True

end DkgMessage

/-! ## Commitments -/

/-- The loop reads back the commitments behind a prefix of the right length. -/
theorem readCommitments_append {commitments : List G1Point} {before : List UInt8} {i : ℕ}
    (hbefore : before.length = 4 + i * 48) :
    readCommitments (before ++ commitments.flatMap G1Point.toBytes) commitments.length i =
      .ok commitments := by
  induction commitments generalizing before i with
  | nil => rfl
  | cons c commitments ih =>
    have hlength : (G1Point.toBytes c).length = 48 := G1Point.length_toBytes c
    have hnext : (before ++ G1Point.toBytes c).length = 4 + (i + 1) * 48 := by
      rw [List.length_append, hbefore, hlength]
      omega
    have hslice : (slice (before ++ (c.toBytes ++ commitments.flatMap G1Point.toBytes))
        (4 + i * 48) (4 + (i + 1) * 48) : Outcome CryptoError _) = .ok c.toBytes := by
      rw [← List.append_assoc]
      exact slice_append hbefore (by rw [hlength]; omega)
    have hrest := ih hnext
    rw [List.append_assoc] at hrest
    rw [List.length_cons, List.flatMap_cons, readCommitments, hslice, Outcome.ok_bind,
      unwrapCommitment, G1Point.fromBytes_toBytes, Outcome.ok_bind, hrest]
    rfl

/-- Commitments survive if their number fits 32 bits. -/
theorem deserializeVssPublic_serializeVssPublic {vss : VssPublic}
    (h : vss.commitments.length < 2 ^ 32) :
    deserializeVssPublic (serializeVssPublic vss) = .ok vss := by
  have hcounter : (readU32 (serializeVssPublic vss) 0 : Outcome CryptoError ℕ) =
      .ok (vss.commitments.length % 2 ^ 32) := by
    change readU32 ([] ++ ByteString.littleEndian 4 vss.commitments.length ++ _) 0 = _
    exact readU32_append rfl
  have hloop : readCommitments (serializeVssPublic vss) vss.commitments.length 0 =
      .ok vss.commitments :=
    readCommitments_append (ByteString.length_littleEndian 4 _)
  rw [deserializeVssPublic, hcounter, Outcome.ok_bind, Nat.mod_eq_of_lt h, hloop]
  rfl

namespace DkgMessage

/-! ## Messages with one id -/

omit [Curve] in
/-- The third byte behind one id. -/
theorem getElem?_two_of_id (sender : ParticipantId) (b : UInt8) (rest : List UInt8) :
    (ByteString.littleEndian 2 sender.toNat ++ b :: rest)[2]? = some b := rfl

omit [Curve] in
/-- The sender is read back. -/
theorem readU16_zero (sender : ParticipantId) (rest : List UInt8) :
    (readU16 (ByteString.littleEndian 2 sender.toNat ++ rest) 0 : Outcome CryptoError _) =
      .ok sender := by
  change readU16 ([] ++ ByteString.littleEndian 2 sender.toNat ++ rest) 0 = _
  exact readU16_append rfl

/-- A public key behind the sender is read back. -/
theorem readPublicKey_append {before after : List UInt8} {publicKey : G2Point}
    (hbefore : before.length = 3) :
    readPublicKey (before ++ publicKey.toBytes ++ after) = .ok publicKey := by
  rw [readPublicKey, slice_append hbefore (by rw [G2Point.length_toBytes]; rfl), Outcome.ok_bind,
    G2Point.fromBytes_toBytes, Outcome.mapErr_ok]

/-- Every acknowledgement survives. -/
theorem survives_ack (sender : ParticipantId) : (ack sender).Survives := by
  refine ⟨_, rfl, deserialize_eq_ok_iff.mpr ⟨getElem?_two_of_id sender 4 [], ?_⟩⟩
  rw [branch, deserializeAck, readU16_zero]
  rfl

/-- Every reveal survives. -/
theorem survives_qualReveal (sender : ParticipantId) (publicKey : G2Point) :
    (qualReveal sender publicKey).Survives := by
  refine ⟨_, rfl, deserialize_eq_ok_iff.mpr ⟨?_, ?_⟩⟩
  · rw [List.append_assoc]
    exact getElem?_two_of_id sender 6 publicKey.toBytes
  · have hkey : readPublicKey (ByteString.littleEndian 2 sender.toNat ++ [6] ++
        publicKey.toBytes) = .ok publicKey := by
      rw [← List.append_nil (_ ++ publicKey.toBytes)]
      exact readPublicKey_append rfl
    rw [branch, deserializeQualReveal, hkey, List.append_assoc, readU16_zero]
    rfl

/-- A commitment survives if the number of its points fits 32 bits. -/
theorem survives_commit {sender : ParticipantId} {publicKey : G2Point} {pop : G1Point}
    {vssPublic : VssPublic} (h : vssPublic.commitments.length < 2 ^ 32) :
    (commit sender publicKey pop vssPublic).Survives := by
  let head := ByteString.littleEndian 2 sender.toNat ++ [1]
  let data := head ++ publicKey.toBytes ++ pop.toBytes ++ serializeVssPublic vssPublic
  have hpkLength : (G2Point.toBytes publicKey).length = 96 := G2Point.length_toBytes publicKey
  have hpopLength : (G1Point.toBytes pop).length = 48 := G1Point.length_toBytes pop
  have hpopStart : (head ++ publicKey.toBytes).length = 99 := by
    rw [List.length_append, hpkLength]
    rfl
  have hvssStart : (head ++ publicKey.toBytes ++ pop.toBytes).length = 147 := by
    rw [List.length_append, hpopStart, hpopLength]
  have htype : data[2]? = some 1 := by
    simp only [data, head, List.append_assoc]
    exact getElem?_two_of_id sender 1 _
  have hsender : (readU16 data 0 : Outcome CryptoError _) = .ok sender := by
    simp only [data, head, List.append_assoc]
    exact readU16_zero sender _
  have hkey : readPublicKey data = .ok publicKey := by
    simp only [data]
    rw [List.append_assoc _ (G1Point.toBytes pop)]
    exact readPublicKey_append rfl
  have hpop : (slice data 99 147 : Outcome CryptoError _) = .ok pop.toBytes :=
    slice_append hpopStart (by rw [hpopLength])
  have hvss : (sliceFrom data 147 : Outcome CryptoError _) =
      .ok (serializeVssPublic vssPublic) := sliceFrom_append hvssStart
  refine ⟨data, rfl, deserialize_eq_ok_iff.mpr ⟨htype, ?_⟩⟩
  rw [branch, deserializeCommit, hsender, Outcome.ok_bind, hkey, Outcome.ok_bind, hpop,
    Outcome.ok_bind, G1Point.fromBytes_toBytes, Outcome.mapErr_ok, Outcome.ok_bind, hvss,
    Outcome.ok_bind, deserializeVssPublic_serializeVssPublic h]
  rfl

/-! ## Messages with two ids -/

omit [Curve] in
/-- The third byte behind two ids is the low byte of the second. -/
theorem getElem?_two_of_ids (sender other : ParticipantId) (rest : List UInt8) :
    (ByteString.littleEndian 2 sender.toNat ++ ByteString.littleEndian 2 other.toNat ++
      rest)[2]? = some (UInt8.ofNat other.toNat) := rfl

omit [Curve] in
/-- The second id is read back. -/
theorem readU16_two (sender other : ParticipantId) (rest : List UInt8) :
    (readU16 (ByteString.littleEndian 2 sender.toNat ++ ByteString.littleEndian 2 other.toNat ++
      rest) 2 : Outcome CryptoError _) = .ok other :=
  readU16_append rfl

omit [Curve] in
/-- When the low byte of an id is a given one. -/
theorem ofNat_eq_iff {n : ℕ} {b : UInt8} : UInt8.ofNat n = b ↔ n % 256 = b.toNat := by
  rw [← UInt8.toNat_inj, UInt8.toNat_ofNat']

/-- Both ids are read back, whatever the type. -/
theorem deserializeIds_ids (make : ParticipantId → ParticipantId → DkgMessage)
    (sender other : ParticipantId) (rest : List UInt8) :
    deserializeIds make (ByteString.littleEndian 2 sender.toNat ++
      ByteString.littleEndian 2 other.toNat ++ rest) = .ok (make sender other) := by
  rw [deserializeIds, readU16_two, List.append_assoc, readU16_zero]
  rfl

/-- A complaint survives just if the low byte of the id is its own type. -/
theorem survives_complaint_iff {sender against : ParticipantId} :
    (complaint sender against).Survives ↔ against.toNat % 256 = 3 := by
  have hread : (complaint sender against).branch (ByteString.littleEndian 2 sender.toNat ++
      ByteString.littleEndian 2 against.toNat ++ [3]) = .ok (complaint sender against) :=
    deserializeIds_ids complaint sender against [3]
  simp only [Survives, serialize, Except.ok.injEq, exists_eq_left', deserialize_eq_ok_iff, hread,
    and_true, getElem?_two_of_ids, Option.some.injEq, ofNat_eq_iff]
  rfl

/-- So does a disqualification. -/
theorem survives_disqualify_iff {sender disqualified : ParticipantId} :
    (disqualify sender disqualified).Survives ↔ disqualified.toNat % 256 = 5 := by
  have hread : (disqualify sender disqualified).branch (ByteString.littleEndian 2 sender.toNat ++
      ByteString.littleEndian 2 disqualified.toNat ++ [5]) =
      .ok (disqualify sender disqualified) :=
    deserializeIds_ids disqualify sender disqualified [5]
  simp only [Survives, serialize, Except.ok.injEq, exists_eq_left', deserialize_eq_ok_iff, hread,
    and_true, getElem?_two_of_ids, Option.some.injEq, ofNat_eq_iff]
  rfl

/-! ## Shares -/

omit [Curve] in
/-- A list that stays the same when an entry is pushed in front and the last one dropped. -/
theorem take_cons_eq_self_iff {a : UInt8} {entries : List UInt8} :
    (a :: entries).take entries.length = entries ↔ entries = List.replicate entries.length a := by
  induction entries generalizing a with
  | nil => exact iff_of_true rfl rfl
  | cons b entries ih =>
    rw [List.length_cons, List.take_succ_cons, List.replicate_succ, List.cons.injEq,
      List.cons.injEq]
    constructor
    · rintro ⟨rfl, hrest⟩
      exact ⟨rfl, ih.mp hrest⟩
    · rintro ⟨rfl, hrest⟩
      exact ⟨rfl, ih.mpr hrest⟩

omit [Curve] in
/-- What is found at the place of the length of a share: the type and three bytes of it. -/
theorem ofLittleEndian_type_cons (n : ℕ) :
    ByteString.ofLittleEndian (2 :: ByteString.littleEndian 3 n) = 2 + 256 * (n % 2 ^ 24) := by
  have hrest : ByteString.ofLittleEndian (ByteString.littleEndian 3 n) = n % 2 ^ 24 :=
    ByteString.ofLittleEndian_littleEndian 3 n
  rw [← hrest]
  rfl

/-- A share is read from one byte too early. -/
theorem deserializeShare_serialize_iff {sender recipient : ParticipantId}
    {encryptedShare : List UInt8} :
    deserializeShare (ByteString.littleEndian 2 sender.toNat ++
        ByteString.littleEndian 2 recipient.toNat ++ [2] ++
        ByteString.littleEndian 4 encryptedShare.length ++ encryptedShare) =
        .ok (share sender recipient encryptedShare) ↔
      2 + 256 * (encryptedShare.length % 2 ^ 24) ≤ encryptedShare.length + 1 ∧
        (UInt8.ofNat (encryptedShare.length / 256 / 256 / 256) :: encryptedShare).take
          (2 + 256 * (encryptedShare.length % 2 ^ 24)) = encryptedShare := by
  obtain ⟨L, hsize⟩ : ∃ L, L = encryptedShare.length := ⟨_, rfl⟩
  rw [← hsize]
  let data := ByteString.littleEndian 2 sender.toNat ++
    ByteString.littleEndian 2 recipient.toNat ++ [2] ++ ByteString.littleEndian 4 L ++
    encryptedShare
  have hlength : data.length = 9 + L := by
    simp only [data, List.length_append, ByteString.length_littleEndian, List.length_singleton,
      ← hsize]
  have hsender : (readU16 data 0 : Outcome CryptoError _) = .ok sender := by
    simp only [data, List.append_assoc]
    exact readU16_zero sender _
  have hrecipient : (readU16 data 2 : Outcome CryptoError _) = .ok recipient := by
    simp only [data, List.append_assoc]
    rw [← List.append_assoc]
    exact readU16_two sender recipient _
  have hcount : (readU32 data 4 : Outcome CryptoError ℕ) = .ok (2 + 256 * (L % 2 ^ 24)) := by
    rw [readU32_eq_ok_iff, ← ofLittleEndian_type_cons]
    exact ⟨by omega, rfl⟩
  have hdrop : data.drop 8 = UInt8.ofNat (L / 256 / 256 / 256) :: encryptedShare := rfl
  change deserializeShare data = _ ↔ _
  rw [deserializeShare, hsender, Outcome.ok_bind, hrecipient, Outcome.ok_bind, hcount,
    Outcome.ok_bind, Outcome.bind_eq_ok]
  simp only [slice_eq_ok_iff, hdrop, hlength, Nat.add_sub_cancel_left, Outcome.pure_eq_ok,
    Except.ok.injEq, share.injEq, true_and]
  constructor
  · rintro ⟨_, ⟨hbounds, hfield⟩, rfl⟩
    exact ⟨by omega, hfield⟩
  · rintro ⟨hbound, hfield⟩
    exact ⟨_, ⟨⟨by omega, by omega⟩, hfield⟩, rfl⟩

/-- A share survives just if the low byte of the recipient and all of its bytes are its own type. -/
theorem survives_share_iff {sender recipient : ParticipantId} {encryptedShare : List UInt8}
    (h : encryptedShare.length < 2 ^ 32) :
    (share sender recipient encryptedShare).Survives ↔
      recipient.toNat % 256 = 2 ∧ encryptedShare = List.replicate 33686018 2 := by
  have htype : (ByteString.littleEndian 2 sender.toNat ++
      ByteString.littleEndian 2 recipient.toNat ++ [2] ++
      ByteString.littleEndian 4 encryptedShare.length ++ encryptedShare)[2]? =
      some (UInt8.ofNat recipient.toNat) := by
    rw [List.append_assoc, List.append_assoc]
    exact getElem?_two_of_ids sender recipient _
  simp only [Survives, serialize, Except.ok.injEq, exists_eq_left', deserialize_eq_ok_iff, htype,
    Option.some.injEq, ofNat_eq_iff, branch, deserializeShare_serialize_iff]
  refine and_congr_right fun _ => ?_
  constructor
  · rintro ⟨hbound, hfield⟩
    have hcount := congrArg List.length hfield
    rw [List.length_take, List.length_cons] at hcount
    -- The length that is found has to be the real one, so all four of its bytes are the type.
    have hlength : encryptedShare.length = 33686018 := by omega
    rw [show 2 + 256 * (encryptedShare.length % 2 ^ 24) = encryptedShare.length by omega,
      take_cons_eq_self_iff, hlength] at hfield
    exact hfield
  · intro hshare
    have hlength : encryptedShare.length = 33686018 := by rw [hshare, List.length_replicate]
    refine ⟨by omega, ?_⟩
    rw [show 2 + 256 * (encryptedShare.length % 2 ^ 24) = encryptedShare.length by omega,
      take_cons_eq_self_iff, hlength]
    exact hshare

/-! ## All messages -/

/-- **Round trips.** A message whose lengths fit is read back exactly when its type is in
the place where the reader looks for it. -/
theorem survives_iff (message : DkgMessage) (hfits : message.Fits) :
    message.Survives ↔ message.TypeInPlace := by
  cases message with
  | commit => exact iff_of_true (survives_commit hfits) trivial
  | share => exact survives_share_iff hfits
  | complaint => exact survives_complaint_iff
  | ack sender => exact iff_of_true (survives_ack sender) trivial
  | disqualify => exact survives_disqualify_iff
  | qualReveal sender publicKey => exact iff_of_true (survives_qualReveal sender publicKey) trivial

omit [Curve] in
/-- A commit with one commitment is read back. -/
theorem survives_iff_commit :
    letI := exponentCurve
    (commit 1 G2Point.generator G1Point.generator ⟨[G1Point.generator]⟩).Survives ↔
      (commit 1 G2Point.generator G1Point.generator ⟨[G1Point.generator]⟩).TypeInPlace := by
  let := exponentCurve
  exact survives_iff (commit 1 G2Point.generator G1Point.generator ⟨[G1Point.generator]⟩)
    (by decide : (1 : ℕ) < 2 ^ 32)

omit [Curve] in
/-- A complaint against the second party is read as a share. -/
theorem complaint_lost :
    letI := exponentCurve
    ¬ ∀ message : DkgMessage, message.Fits → message.Survives := by
  let := exponentCurve
  intro h
  exact absurd (survives_complaint_iff.mp (h (complaint 1 2) trivial)) (by decide)

end DkgMessage

end Sigimora
