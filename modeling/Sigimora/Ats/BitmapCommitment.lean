import Sigimora.Ats.Scheme
import Sigimora.Library.SortedList

/-!
# What the bitmap commitment commits to

The ids of the quorum are sorted and written without a length, and the aggregator
comes last. Every id takes two bytes, so the bytes can be read from their end.
-/

namespace Sigimora.Ats

/-- The bytes that are hashed for the bitmap commitment. -/
def bitmapInput (quorum : List ParticipantId) (aggregatorId : ParticipantId) : List UInt8 :=
  (quorum.mergeSort fun a b => a ≤ b).flatMap (fun id => ByteString.littleEndian 2 id.toNat) ++
    ByteString.littleEndian 2 aggregatorId.toNat

/-- The bytes of an id determine it. -/
theorem littleEndian_id_injective :
    Function.Injective fun id : ParticipantId => ByteString.littleEndian 2 id.toNat := by
  intro a b h
  exact UInt16.toNat_inj.mp (ByteString.littleEndian_inj a.toNat_lt b.toNat_lt h)

variable {quorum quorum' : List ParticipantId} {aggregatorId aggregatorId' : ParticipantId}

/-- The hashed bytes determine the aggregator, and the quorum up to its order. -/
theorem bitmapInput_inj :
    bitmapInput quorum aggregatorId = bitmapInput quorum' aggregatorId' ↔
      quorum.Perm quorum' ∧ aggregatorId = aggregatorId' := by
  rw [← SortedList.mergeSort_eq_iff_perm (· ≤ ·)]
  constructor
  · intro h
    -- the aggregator is a tail of fixed length, whatever the quorum is
    obtain ⟨hquorum, haggregator⟩ := List.append_inj' h (by
      simp only [ByteString.length_littleEndian])
    refine ⟨?_, littleEndian_id_injective haggregator⟩
    exact ByteString.flatMap_inj two_pos (fun id => ByteString.length_littleEndian 2 _)
      littleEndian_id_injective hquorum
  · rintro ⟨hquorum, rfl⟩
    rw [bitmapInput, hquorum, bitmapInput]

/-- **The bitmap commitment.** It is the hash of bytes that determine the aggregator and, up to
its order, the quorum. -/
theorem createBitmapCommitment_identifies [Curve] (quorum quorum' : List ParticipantId)
    (aggregatorId aggregatorId' : ParticipantId) :
    createBitmapCommitment quorum aggregatorId =
        hashToG1 (bitmapInput quorum aggregatorId) (byteLiteral "SIGIMORA_BITMAP_COMMIT") ∧
      (bitmapInput quorum aggregatorId = bitmapInput quorum' aggregatorId' ↔
        quorum.Perm quorum' ∧ aggregatorId = aggregatorId') :=
  ⟨rfl, bitmapInput_inj⟩

end Sigimora.Ats
