import Sigimora.Crypto.DkgWire
import Sigimora.Math.ExponentCurve

/-!
# Hostile bytes

After the length check of three bytes, every reading of a field may go beyond the end of
the input, and a commitment that is no point is unwrapped. For each type of message the
inputs that are read without a panic are described exactly.
-/

namespace Sigimora

open Pedersen Reader Outcome

variable [Curve]

/-- The commitments that the counter announces are all there, and all are points. -/
structure CommitmentsReadable (data : List UInt8) : Prop where
  counter : 4 ≤ data.length
  fits : 4 + 48 * ByteString.ofLittleEndian (data.take 4) ≤ data.length
  points : ∀ k < ByteString.ofLittleEndian (data.take 4),
    ∃ c : G1Point, c.toBytes = (data.drop (4 + k * 48)).take 48

namespace DkgMessage

/-- A message of type 1 is read up to the first field that is no point, or to its end. -/
structure CommitReadable (data : List UInt8) : Prop where
  publicKey : 99 ≤ data.length
  pop : (∃ pk : G2Point, pk.toBytes = (data.drop 3).take 96) → 147 ≤ data.length
  commitments : (∃ pk : G2Point, pk.toBytes = (data.drop 3).take 96) →
    (∃ pop : G1Point, pop.toBytes = (data.drop 99).take 48) → CommitmentsReadable (data.drop 147)

/-- The bytes that a message of each type has to have. -/
def Readable (data : List UInt8) : Prop :=
  match data[2]? with
  | none => True
  | some msgType =>
    if msgType = 1 then CommitReadable data
    else if msgType = 2 then
      8 ≤ data.length ∧ 8 + ByteString.ofLittleEndian ((data.drop 4).take 4) ≤ data.length
    else if msgType = 3 ∨ msgType = 5 then 4 ≤ data.length
    else if msgType = 6 then 99 ≤ data.length
    else True

/-- The reader returns, and the commitments that it returns were in the input. -/
structure DecodesSafely (data : List UInt8) : Prop where
  noPanic : NoPanic (deserialize data)
  bounded : ∀ sender publicKey pop vssPublic,
    deserialize data = .ok (.commit sender publicKey pop vssPublic) →
    151 + 48 * vssPublic.commitments.length ≤ data.length

end DkgMessage

/-! ## Commitments -/

variable {data : List UInt8}

/-- Unwrapping panics exactly on bytes that encode no point. -/
theorem noPanic_unwrapCommitment_iff {bytes : List UInt8} :
    NoPanic (unwrapCommitment bytes) ↔ ∃ c : G1Point, c.toBytes = bytes := by
  unfold unwrapCommitment
  split
  · rename_i c hc
    exact iff_of_true (noPanic_ok c) ⟨c, G1Point.fromBytes_eq_ok_iff.mp hc⟩
  · rename_i e he
    refine iff_of_false (not_noPanic_panic _) ?_
    rintro ⟨c, hc⟩
    rw [G1Point.fromBytes_eq_ok_iff.mpr hc] at he
    cases he

/-- A point that was encoded is unwrapped. -/
theorem unwrapCommitment_eq_ok {c : G1Point} : unwrapCommitment c.toBytes = .ok c := by
  rw [unwrapCommitment, G1Point.fromBytes_toBytes]

/-- The loop does not panic when all of its commitments are there and are points. -/
theorem noPanic_readCommitments_iff {count i : ℕ} :
    NoPanic (readCommitments data count i) ↔ ∀ k, i ≤ k → k < i + count →
      4 + (k + 1) * 48 ≤ data.length ∧
        ∃ c : G1Point, c.toBytes = (data.drop (4 + k * 48)).take 48 := by
  induction count generalizing i with
  | zero => exact iff_of_true (noPanic_ok _) fun k hle hlt => by omega
  | succ count ih =>
    have hwidth : 4 + (i + 1) * 48 - (4 + i * 48) = 48 := by omega
    have hlater : (∀ k, i ≤ k → k < i + (count + 1) → 4 + (k + 1) * 48 ≤ data.length ∧
          ∃ c : G1Point, c.toBytes = (data.drop (4 + k * 48)).take 48) ↔
        (4 + (i + 1) * 48 ≤ data.length ∧
          ∃ c : G1Point, c.toBytes = (data.drop (4 + i * 48)).take 48) ∧
        NoPanic (readCommitments data count (i + 1)) := by
      rw [ih]
      constructor
      · intro h
        exact ⟨h i le_rfl (by omega), fun k hle hlt => h k (by omega) (by omega)⟩
      · rintro ⟨hfirst, hrest⟩ k hle hlt
        rcases Nat.eq_or_lt_of_le hle with rfl | hlater
        · exact hfirst
        · exact hrest k hlater (by omega)
    rw [hlater]
    simp only [readCommitments, noPanic_bind_iff, noPanic_slice_iff, slice_eq_ok_iff, hwidth,
      noPanic_unwrapCommitment_iff, pure_eq_ok, noPanic_ok, implies_true, and_true]
    constructor
    · rintro ⟨hbounds, hfield⟩
      obtain ⟨⟨c, hc⟩, hrest⟩ := hfield _ ⟨hbounds, rfl⟩
      rw [← hc] at hrest
      exact ⟨⟨hbounds.2, c, hc⟩, hrest c unwrapCommitment_eq_ok⟩
    · rintro ⟨⟨hbound, c, hc⟩, hrest⟩
      refine ⟨⟨by omega, hbound⟩, ?_⟩
      rintro _ ⟨_, rfl⟩
      exact ⟨⟨c, hc⟩, fun _ _ => hrest⟩

/-- The loop returns as many commitments as it was asked for, all of them in the input. -/
theorem length_of_readCommitments {count i : ℕ} {commitments : List G1Point}
    (h : readCommitments data count i = .ok commitments) :
    commitments.length = count ∧ (0 < count → 4 + (i + count) * 48 ≤ data.length) := by
  induction count generalizing i commitments with
  | zero =>
    cases h
    exact ⟨rfl, fun hpos => absurd hpos (lt_irrefl 0)⟩
  | succ count ih =>
    obtain ⟨bytes, hslice, h⟩ := Outcome.bind_eq_ok.mp h
    obtain ⟨c, _, h⟩ := Outcome.bind_eq_ok.mp h
    obtain ⟨rest, hrest, h⟩ := Outcome.bind_eq_ok.mp h
    cases h
    obtain ⟨hlength, hbound⟩ := ih hrest
    refine ⟨by rw [List.length_cons, hlength], fun _ => ?_⟩
    have hfirst := (slice_eq_ok_iff.mp hslice).1.2
    rcases Nat.eq_zero_or_pos count with rfl | hpos
    · omega
    · have := hbound hpos
      omega

/-- Decoding commitments panics exactly if they cannot be read. -/
theorem noPanic_deserializeVssPublic_iff :
    NoPanic (deserializeVssPublic data) ↔ CommitmentsReadable data := by
  simp only [deserializeVssPublic, noPanic_bind_iff, noPanic_readU32_iff, readU32_eq_ok_iff,
    List.drop_zero, zero_add, pure_eq_ok, noPanic_ok, implies_true, and_true]
  constructor
  · rintro ⟨hcounter, hloop⟩
    have hreads := noPanic_readCommitments_iff.mp (hloop _ ⟨hcounter, rfl⟩)
    refine ⟨hcounter, ?_, fun k hk => (hreads k (Nat.zero_le k) (by omega)).2⟩
    rcases Nat.eq_zero_or_pos (ByteString.ofLittleEndian (data.take 4)) with hzero | hpos
    · omega
    · have := (hreads (ByteString.ofLittleEndian (data.take 4) - 1) (Nat.zero_le _) (by omega)).1
      omega
  · intro h
    refine ⟨h.counter, ?_⟩
    rintro _ ⟨_, rfl⟩
    refine noPanic_readCommitments_iff.mpr fun k _ hk => ?_
    rw [Nat.zero_add] at hk
    have hfits := h.fits
    exact ⟨by omega, h.points k hk⟩

/-- The bytes are as many as the commitments that were read from them need. -/
theorem bound_of_deserializeVssPublic {vss : VssPublic}
    (h : deserializeVssPublic data = .ok vss) : 4 + 48 * vss.commitments.length ≤ data.length := by
  obtain ⟨n, hcounter, h⟩ := Outcome.bind_eq_ok.mp h
  obtain ⟨commitments, hloop, h⟩ := Outcome.bind_eq_ok.mp h
  cases h
  obtain ⟨hlength, hbound⟩ := length_of_readCommitments hloop
  have hfour := (readU32_eq_ok_iff.mp hcounter).1
  simp only [hlength]
  rcases Nat.eq_zero_or_pos n with rfl | hpos
  · omega
  · have := hbound hpos
    omega

namespace DkgMessage

/-! ## Messages -/

/-- Reading a public key panics exactly on too few bytes. -/
theorem noPanic_readPublicKey_iff : NoPanic (readPublicKey data) ↔ 99 ≤ data.length := by
  rw [readPublicKey, noPanic_bind_iff, noPanic_slice_iff]
  constructor
  · intro h
    exact h.1.2
  · intro h
    exact ⟨⟨by omega, h⟩, fun _ _ => noPanic_mapErr_iff.mpr (noPanic_okOr _ _)⟩

/-- A public key is read from its place in the message. -/
theorem readPublicKey_eq_ok_iff {publicKey : G2Point} :
    readPublicKey data = .ok publicKey ↔
      99 ≤ data.length ∧ publicKey.toBytes = (data.drop 3).take 96 := by
  simp only [readPublicKey, bind_eq_ok, slice_eq_ok_iff, mapErr_eq_ok_iff,
    G2Point.fromBytes_eq_ok_iff]
  constructor
  · rintro ⟨_, ⟨hbounds, rfl⟩, hpk⟩
    exact ⟨hbounds.2, hpk⟩
  · rintro ⟨hlength, hpk⟩
    exact ⟨_, ⟨⟨by omega, hlength⟩, rfl⟩, hpk⟩

/-- The proof of possession of a message. -/
theorem exists_pop_iff :
    (∃ pop : G1Point, ∃ popBytes, (slice data 99 147 : Outcome CryptoError _) = .ok popBytes ∧
      G1Point.fromBytes popBytes = .ok pop) ↔
      147 ≤ data.length ∧ ∃ pop : G1Point, pop.toBytes = (data.drop 99).take 48 := by
  simp only [slice_eq_ok_iff, G1Point.fromBytes_eq_ok_iff]
  constructor
  · rintro ⟨pop, _, ⟨hbounds, rfl⟩, hpop⟩
    exact ⟨hbounds.2, pop, hpop⟩
  · rintro ⟨hlength, pop, hpop⟩
    exact ⟨pop, _, ⟨⟨by omega, hlength⟩, rfl⟩, hpop⟩

/-- Decoding a commitment panics exactly if it cannot be read. -/
theorem noPanic_deserializeCommit_iff (hthree : 3 ≤ data.length) :
    NoPanic (deserializeCommit data) ↔ CommitReadable data := by
  obtain ⟨sender, hsender⟩ : ∃ v, (readU16 data 0 : Outcome CryptoError UInt16) = .ok v :=
    exists_readU16 (by omega)
  simp only [deserializeCommit, hsender, ok_bind, noPanic_bind_iff, noPanic_readPublicKey_iff,
    readPublicKey_eq_ok_iff, noPanic_slice_iff, noPanic_mapErr_iff, mapErr_eq_ok_iff,
    noPanic_sliceFrom_iff, sliceFrom_eq_ok_iff, noPanic_deserializeVssPublic_iff, pure_eq_ok,
    noPanic_ok, implies_true, and_true]
  constructor
  · rintro ⟨hpk, hrest⟩
    refine ⟨hpk, ?_, ?_⟩
    · rintro ⟨pk, hpkBytes⟩
      exact (hrest pk ⟨hpk, hpkBytes⟩).1.2
    · rintro ⟨pk, hpkBytes⟩ ⟨pop, hpop⟩
      obtain ⟨hbounds, hrest⟩ := hrest pk ⟨hpk, hpkBytes⟩
      obtain ⟨pop, popBytes, hslice, hdecode⟩ := exists_pop_iff.mpr ⟨hbounds.2, pop, hpop⟩
      obtain ⟨_, hrest⟩ := hrest popBytes hslice
      exact (hrest pop hdecode).2 _ ⟨hbounds.2, rfl⟩
  · intro h
    refine ⟨h.publicKey, ?_⟩
    rintro pk ⟨hlength, hpkBytes⟩
    refine ⟨⟨by omega, h.pop ⟨pk, hpkBytes⟩⟩, fun popBytes hslice => ⟨noPanic_okOr _ _, ?_⟩⟩
    intro pop hdecode
    obtain ⟨hbound, hpop⟩ := exists_pop_iff.mp ⟨pop, popBytes, hslice, hdecode⟩
    refine ⟨hbound, ?_⟩
    rintro _ ⟨_, rfl⟩
    exact h.commitments ⟨pk, hpkBytes⟩ hpop

/-- Decoding a share panics exactly if its bytes are fewer than announced. -/
theorem noPanic_deserializeShare_iff :
    NoPanic (deserializeShare data) ↔
      8 ≤ data.length ∧ 8 + ByteString.ofLittleEndian ((data.drop 4).take 4) ≤ data.length := by
  simp only [deserializeShare, noPanic_bind_iff, noPanic_readU16_iff, noPanic_readU32_iff,
    readU32_eq_ok_iff, noPanic_slice_iff, pure_eq_ok, noPanic_ok, implies_true, and_true]
  constructor
  · rintro ⟨hfirst, hrest⟩
    obtain ⟨sender, hsender⟩ := exists_readU16 (ε := CryptoError) hfirst
    obtain ⟨hsecond, hrest⟩ := hrest sender hsender
    obtain ⟨recipient, hrecipient⟩ := exists_readU16 (ε := CryptoError) hsecond
    obtain ⟨hlength, hrest⟩ := hrest recipient hrecipient
    exact ⟨hlength, (hrest _ ⟨hlength, rfl⟩).2⟩
  · rintro ⟨hlength, hshare⟩
    refine ⟨by omega, fun _ _ => ⟨by omega, fun _ _ => ⟨hlength, ?_⟩⟩⟩
    rintro _ ⟨_, rfl⟩
    exact ⟨by omega, hshare⟩

/-- Decoding two ids panics exactly on fewer than four bytes. -/
theorem noPanic_deserializeIds_iff {message : ParticipantId → ParticipantId → DkgMessage}
    (hthree : 3 ≤ data.length) : NoPanic (deserializeIds message data) ↔ 4 ≤ data.length := by
  obtain ⟨sender, hsender⟩ : ∃ v, (readU16 data 0 : Outcome CryptoError UInt16) = .ok v :=
    exists_readU16 (by omega)
  simp only [deserializeIds, hsender, ok_bind, noPanic_bind_iff, noPanic_readU16_iff, pure_eq_ok,
    noPanic_ok, implies_true, and_true]

/-- Decoding an acknowledgement does not panic. -/
theorem noPanic_deserializeAck (hthree : 3 ≤ data.length) : NoPanic (deserializeAck data) := by
  simp only [deserializeAck, noPanic_bind_iff, noPanic_readU16_iff, pure_eq_ok, noPanic_ok,
    implies_true, and_true]
  omega

/-- Decoding a reveal panics exactly on fewer than 99 bytes. -/
theorem noPanic_deserializeQualReveal_iff (hthree : 3 ≤ data.length) :
    NoPanic (deserializeQualReveal data) ↔ 99 ≤ data.length := by
  obtain ⟨sender, hsender⟩ : ∃ v, (readU16 data 0 : Outcome CryptoError UInt16) = .ok v :=
    exists_readU16 (by omega)
  simp only [deserializeQualReveal, hsender, ok_bind, noPanic_bind_iff, noPanic_readPublicKey_iff,
    pure_eq_ok, noPanic_ok, implies_true, and_true]

/-- The inputs that are read without a panic. -/
theorem noPanic_deserialize_iff : NoPanic (deserialize data) ↔ Readable data := by
  unfold deserialize Readable
  by_cases hshort : data.length < 3
  · rw [if_pos hshort, List.getElem?_eq_none (by omega)]
    exact iff_of_true (noPanic_fail _) trivial
  have hthree : 3 ≤ data.length := not_lt.mp hshort
  have htype := List.getElem?_eq_getElem (show 2 < data.length by omega)
  rw [if_neg hshort, index_eq_ok.mpr htype, ok_bind, htype]
  generalize data[2] = msgType
  simp only
  by_cases hcommit : msgType = 1
  · rw [if_pos hcommit, if_pos hcommit]
    exact noPanic_deserializeCommit_iff hthree
  rw [if_neg hcommit, if_neg hcommit]
  by_cases hshare : msgType = 2
  · rw [if_pos hshare, if_pos hshare]
    exact noPanic_deserializeShare_iff
  rw [if_neg hshare, if_neg hshare]
  by_cases hcomplaint : msgType = 3
  · rw [if_pos hcomplaint, if_pos (Or.inl hcomplaint)]
    exact noPanic_deserializeIds_iff hthree
  rw [if_neg hcomplaint]
  by_cases hack : msgType = 4
  · subst hack
    rw [if_pos rfl, if_neg (by decide), if_neg (by decide)]
    exact iff_of_true (noPanic_deserializeAck hthree) trivial
  rw [if_neg hack]
  by_cases hdisqualify : msgType = 5
  · rw [if_pos hdisqualify, if_pos (Or.inr hdisqualify)]
    exact noPanic_deserializeIds_iff hthree
  rw [if_neg hdisqualify, if_neg (not_or.mpr ⟨hcomplaint, hdisqualify⟩)]
  by_cases hqualReveal : msgType = 6
  · rw [if_pos hqualReveal, if_pos hqualReveal]
    exact noPanic_deserializeQualReveal_iff hthree
  · rw [if_neg hqualReveal, if_neg hqualReveal]
    exact iff_of_true (noPanic_fail _) trivial

/-- The commitments of a commit were all in the input. -/
theorem bound_of_deserialize {sender : ParticipantId} {publicKey : G2Point} {pop : G1Point}
    {vssPublic : VssPublic}
    (h : deserialize data = .ok (.commit sender publicKey pop vssPublic)) :
    151 + 48 * vssPublic.commitments.length ≤ data.length := by
  have hread : deserializeCommit data = .ok (.commit sender publicKey pop vssPublic) :=
    (deserialize_eq_ok_iff.mp h).2
  simp only [deserializeCommit, bind_eq_ok, pure_eq_ok, Except.ok.injEq, commit.injEq] at hread
  obtain ⟨_, _, _, _, _, _, _, _, vssBytes, hvssBytes, vss, hvss, _, _, _, rfl⟩ := hread
  obtain ⟨hlength, rfl⟩ := sliceFrom_eq_ok_iff.mp hvssBytes
  have hbound := bound_of_deserializeVssPublic hvss
  rw [List.length_drop] at hbound
  omega

/-- **Hostile bytes.** The reader is safe exactly on the inputs whose fields are all there,
up to the first one that is rejected. -/
theorem decodesSafely_iff (data : List UInt8) : DecodesSafely data ↔ Readable data := by
  rw [← noPanic_deserialize_iff]
  constructor
  · intro h
    exact h.noPanic
  · intro h
    exact ⟨h, fun _ _ _ _ => bound_of_deserialize⟩

omit [Curve] in
/-- Three bytes of type 1 panic. -/
theorem short_commit_panics :
    letI := exponentCurve
    ¬ ∀ data, DecodesSafely data := by
  let := exponentCurve
  intro h
  have hreadable : CommitReadable [0, 0, 1] := noPanic_deserialize_iff.mp (h [0, 0, 1]).noPanic
  exact absurd hreadable.publicKey (by decide)

end DkgMessage

end Sigimora
