import Mathlib.Data.List.Range
import Sigimora.Crypto.Shamir

/-!
# Participant ranges

The loops `1..=n as u16` over all participants. The cast wraps, so that the
range is the intended one only for networks of at most 65535 parties.
-/

namespace Sigimora

/-- The ids of `1..=n as u16`. -/
def participants (n : ℕ) : List ParticipantId :=
  (List.range (UInt16.ofNat n).toNat).map fun i => UInt16.ofNat (i + 1)

/-- Numbers up to 65535 survive the cast to 16 bits. -/
theorem toNat_ofNat_of_le {n : ℕ} (hn : n ≤ 65535) : (UInt16.ofNat n).toNat = n := by
  rw [UInt16.toNat_ofNat', Nat.mod_eq_of_lt (by omega)]

/-- The ids in order. -/
theorem map_toNat_participants (n : ℕ) :
    (participants n).map UInt16.toNat = List.range' 1 (UInt16.ofNat n).toNat := by
  have hn : (UInt16.ofNat n).toNat < 2 ^ 16 := UInt16.toNat_lt _
  rw [participants, List.map_map, List.range'_eq_map_range]
  refine List.map_congr_left fun i hi => ?_
  have hi := List.mem_range.mp hi
  rw [Function.comp_apply, toNat_ofNat_of_le (by omega), Nat.add_comm]

/-- Without overflow the participant at position `i` has the id `i + 1`. -/
theorem participants_eq {n : ℕ} (hn : n ≤ 65535) :
    participants n = (List.range n).map fun i => UInt16.ofNat (i + 1) := by
  rw [participants, toNat_ofNat_of_le hn]

/-- The positions of a list with one entry for each participant. -/
theorem map_zipIdx_participants {β : Type} {n : ℕ} (hn : n ≤ 65535) {entries : List β}
    (hlength : entries.length = n) :
    entries.zipIdx.map (fun entry => UInt16.ofNat (entry.2 + 1)) = participants n := by
  rw [participants_eq hn]
  exact List.ext_getElem (by simp [hlength]) fun i _ _ => by simp

/-- The number of every loop index is the id of a participant. -/
theorem ofNat_succ_mem_participants {n i : ℕ} (hn : n ≤ 65535) (hi : i < n) :
    UInt16.ofNat (i + 1) ∈ participants n := by
  rw [participants_eq hn]
  exact List.mem_map_of_mem (List.mem_range.mpr hi)

/-- Different positions have different ids. -/
theorem ofNat_succ_inj {n i j : ℕ} (hn : n ≤ 65535) (hi : i < n) (hj : j < n) :
    UInt16.ofNat (i + 1) = UInt16.ofNat (j + 1) ↔ i = j := by
  rw [← UInt16.toNat_inj, toNat_ofNat_of_le (by omega), toNat_ofNat_of_le (by omega)]
  omega

/-- The ids run from one up to the number of nodes, cut down to 16 bits. -/
theorem mem_participants_iff {n : ℕ} {id : ParticipantId} :
    id ∈ participants n ↔ 1 ≤ id.toNat ∧ id.toNat ≤ (UInt16.ofNat n).toNat := by
  have hn : (UInt16.ofNat n).toNat < 2 ^ 16 := UInt16.toNat_lt _
  have hid : id.toNat < 2 ^ 16 := id.toNat_lt
  simp only [participants, List.mem_map, List.mem_range]
  constructor
  · rintro ⟨i, hi, rfl⟩
    rw [toNat_ofNat_of_le (by omega)]
    omega
  · rintro ⟨h1, h2⟩
    refine ⟨id.toNat - 1, by omega, ?_⟩
    rw [Nat.sub_add_cancel h1, UInt16.ofNat_toNat]

/-- Up to 65535 nodes the ids run up to the number of nodes. -/
theorem mem_participants {n : ℕ} (hn : n ≤ 65535) {id : ParticipantId} :
    id ∈ participants n ↔ 1 ≤ id.toNat ∧ id.toNat ≤ n := by
  rw [mem_participants_iff, toNat_ofNat_of_le hn]

/-- No participant has the id zero. -/
theorem ne_zero_of_mem_participants {n : ℕ} {id : ParticipantId} (h : id ∈ participants n) :
    id ≠ 0 := by
  rintro rfl
  have hpos := (mem_participants_iff.mp h).1
  simp at hpos

/-- The ids of the participants differ. -/
theorem nodup_participants (n : ℕ) : (participants n).Nodup := by
  apply (List.nodup_map_iff_inj_on List.nodup_range).mpr
  intro a ha b hb hab
  have hn : (UInt16.ofNat n).toNat < 2 ^ 16 := UInt16.toNat_lt _
  have ha' := List.mem_range.mp ha
  have hb' := List.mem_range.mp hb
  have h := congrArg UInt16.toNat hab
  rw [toNat_ofNat_of_le (by omega), toNat_ofNat_of_le (by omega)] at h
  omega

/-- Entries for the participants at different positions have different ids. -/
theorem nodup_map_get_participants {β : Type} {entry : ParticipantId → β}
    {index : β → ParticipantId} (hindex : ∀ i, index (entry i) = i) {n : ℕ}
    {positions : List (Fin ((participants n).map entry).length)} (h : positions.Nodup) :
    ((positions.map ((participants n).map entry).get).map index).Nodup := by
  rw [List.map_map]
  refine h.map ?_
  intro a b hab
  simp only [Function.comp_apply, List.get_eq_getElem, List.getElem_map, hindex] at hab
  exact Fin.ext ((nodup_participants n).getElem_inj_iff.mp hab)

/-- There are `n` participants only if `n` did not wrap. -/
theorem le_of_length_participants {n : ℕ} (h : (participants n).length = n) : n ≤ 65535 := by
  have hn : (UInt16.ofNat n).toNat < 2 ^ 16 := UInt16.toNat_lt _
  rw [participants, List.length_map, List.length_range] at h
  omega

/-- Up to 65535 nodes there are as many participants as nodes. -/
theorem length_participants {n : ℕ} (hn : n ≤ 65535) : (participants n).length = n := by
  rw [participants, List.length_map, List.length_range, toNat_ofNat_of_le hn]

/-- The parties before and behind the one at position `i`. -/
theorem exists_split_participants {n i : ℕ} (hn : n ≤ 65535) (hi : i < n) :
    ∃ before after, participants n = before ++ UInt16.ofNat (i + 1) :: after ∧
      before.length = i ∧ i + 1 + after.length = n ∧
      UInt16.ofNat (i + 1) ∉ before ∧ UInt16.ofNat (i + 1) ∉ after := by
  have hlength := length_participants hn
  have hbound : i < (participants n).length := by rwa [hlength]
  have hget : (participants n)[i] = UInt16.ofNat (i + 1) := by
    simp only [participants_eq hn, List.getElem_map, List.getElem_range]
  have hids : participants n =
      (participants n).take i ++ UInt16.ofNat (i + 1) :: (participants n).drop (i + 1) := by
    rw [← hget, List.getElem_cons_drop, List.take_append_drop]
  have hdistinct := nodup_participants n
  rw [hids, List.nodup_middle, List.nodup_cons, List.mem_append, not_or] at hdistinct
  refine ⟨_, _, hids, ?_, ?_, hdistinct.1⟩
  · rw [List.length_take, hlength, min_eq_left hi.le]
  · rw [List.length_drop, hlength]
    omega

end Sigimora
