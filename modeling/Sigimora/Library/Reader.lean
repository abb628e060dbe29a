import Sigimora.Library.ByteString
import Sigimora.Library.Outcome

/-!
# Reading byte strings

Fields at computed positions of a byte string. A position beyond the end panics, as in
slice expressions. Each reading comes with the bytes that it needs, and with the field that
it finds behind a prefix of the right length.
-/

namespace Reader

open Outcome

variable {ε α : Type}

/-- The entries from `start` to `stop`. -/
def slice (entries : List α) (start stop : ℕ) : Outcome ε (List α) :=
  if stop < start then Outcome.panic s!"slice index starts at {start} but ends at {stop}"
  else if entries.length < stop then
    Outcome.panic s!"range end index {stop} out of range for slice of length {entries.length}"
  else .ok ((entries.drop start).take (stop - start))

/-- The entries from `start` on. -/
def sliceFrom (entries : List α) (start : ℕ) : Outcome ε (List α) :=
  if entries.length < start then
    Outcome.panic s!"range start index {start} out of range for slice of length {entries.length}"
  else .ok (entries.drop start)

/-- The little-endian `u16` whose bytes begin at the position. -/
def readU16 (bytes : List UInt8) (i : ℕ) : Outcome ε UInt16 := do
  let low ← index bytes i
  let high ← index bytes (i + 1)
  return UInt16.ofNat (ByteString.ofLittleEndian [low, high])

/-- The little-endian `u32` whose bytes begin at the position. -/
def readU32 (bytes : List UInt8) (i : ℕ) : Outcome ε ℕ := do
  let b0 ← index bytes i
  let b1 ← index bytes (i + 1)
  let b2 ← index bytes (i + 2)
  let b3 ← index bytes (i + 3)
  return ByteString.ofLittleEndian [b0, b1, b2, b3]

/-! ## What a reading needs -/

/-- A slice is the part of the entries between its ends. -/
theorem slice_eq_ok_iff {entries field : List α} {start stop : ℕ} :
    (slice entries start stop : Outcome ε (List α)) = .ok field ↔
      (start ≤ stop ∧ stop ≤ entries.length) ∧
        (entries.drop start).take (stop - start) = field := by
  unfold slice
  split_ifs with horder hlength
  · exact iff_of_false nofun fun h => by omega
  · exact iff_of_false nofun fun h => by omega
  · rw [Except.ok.injEq, and_iff_right ⟨not_lt.mp horder, not_lt.mp hlength⟩]

/-- Slicing panics exactly if the ends are in the wrong order or out of range. -/
theorem noPanic_slice_iff {entries : List α} {start stop : ℕ} :
    NoPanic (slice entries start stop : Outcome ε (List α)) ↔
      start ≤ stop ∧ stop ≤ entries.length := by
  unfold slice
  split_ifs with horder hlength
  · exact iff_of_false (not_noPanic_panic _) fun h => by omega
  · exact iff_of_false (not_noPanic_panic _) fun h => by omega
  · exact iff_of_true (noPanic_ok _) ⟨not_lt.mp horder, not_lt.mp hlength⟩

/-- A slice without an end is the rest of the entries. -/
theorem sliceFrom_eq_ok_iff {entries field : List α} {start : ℕ} :
    (sliceFrom entries start : Outcome ε (List α)) = .ok field ↔
      start ≤ entries.length ∧ entries.drop start = field := by
  unfold sliceFrom
  split_ifs with hlength
  · exact iff_of_false nofun fun h => by omega
  · rw [Except.ok.injEq, and_iff_right (not_lt.mp hlength)]

/-- Such a slice panics exactly beyond the end. -/
theorem noPanic_sliceFrom_iff {entries : List α} {start : ℕ} :
    NoPanic (sliceFrom entries start : Outcome ε (List α)) ↔ start ≤ entries.length := by
  unfold sliceFrom
  split_ifs with hlength
  · exact iff_of_false (not_noPanic_panic _) (by omega)
  · exact iff_of_true (noPanic_ok _) (not_lt.mp hlength)

/-- Two bytes are read if there are two. -/
theorem noPanic_readU16_iff {bytes : List UInt8} {i : ℕ} :
    NoPanic (readU16 bytes i : Outcome ε UInt16) ↔ i + 2 ≤ bytes.length := by
  unfold readU16
  simp only [noPanic_bind_iff, noPanic_index_iff, pure_eq_ok, noPanic_ok]
  constructor
  · rintro ⟨hlow, hrest⟩
    obtain ⟨hhigh, _⟩ := hrest _ (index_eq_ok.mpr (List.getElem?_eq_getElem hlow))
    exact hhigh
  · intro h
    exact ⟨by omega, fun _ _ => ⟨by omega, fun _ _ => trivial⟩⟩

/-- Four bytes are read if there are four. -/
theorem noPanic_readU32_iff {bytes : List UInt8} {i : ℕ} :
    NoPanic (readU32 bytes i : Outcome ε ℕ) ↔ i + 4 ≤ bytes.length := by
  unfold readU32
  simp only [noPanic_bind_iff, noPanic_index_iff, pure_eq_ok, noPanic_ok]
  constructor
  · rintro ⟨h0, hrest⟩
    obtain ⟨h1, hrest⟩ := hrest _ (index_eq_ok.mpr (List.getElem?_eq_getElem h0))
    obtain ⟨h2, hrest⟩ := hrest _ (index_eq_ok.mpr (List.getElem?_eq_getElem h1))
    obtain ⟨h3, _⟩ := hrest _ (index_eq_ok.mpr (List.getElem?_eq_getElem h2))
    exact h3
  · intro h
    exact ⟨by omega, fun _ _ => ⟨by omega, fun _ _ => ⟨by omega, fun _ _ =>
      ⟨by omega, fun _ _ => trivial⟩⟩⟩⟩

/-- Two bytes that are there make a number. -/
theorem exists_readU16 {bytes : List UInt8} {i : ℕ} (h : i + 2 ≤ bytes.length) :
    ∃ v, (readU16 bytes i : Outcome ε UInt16) = .ok v := by
  unfold readU16
  rw [index_eq_ok.mpr (List.getElem?_eq_getElem (by omega)), ok_bind,
    index_eq_ok.mpr (List.getElem?_eq_getElem (by omega)), ok_bind]
  exact ⟨_, rfl⟩

/-- The number that a reading returns. -/
theorem readU32_eq_ok_iff {bytes : List UInt8} {i n : ℕ} :
    (readU32 bytes i : Outcome ε ℕ) = .ok n ↔
      i + 4 ≤ bytes.length ∧ ByteString.ofLittleEndian ((bytes.drop i).take 4) = n := by
  by_cases h : i + 4 ≤ bytes.length
  · have hfield : (bytes.drop i).take 4 = [bytes[i], bytes[i + 1], bytes[i + 2], bytes[i + 3]] := by
      rw [List.drop_eq_getElem_cons (by omega), List.drop_eq_getElem_cons (by omega),
        List.drop_eq_getElem_cons (by omega), List.drop_eq_getElem_cons (by omega)]
      rfl
    unfold readU32
    rw [index_eq_ok.mpr (List.getElem?_eq_getElem (by omega)), ok_bind,
      index_eq_ok.mpr (List.getElem?_eq_getElem (by omega)), ok_bind,
      index_eq_ok.mpr (List.getElem?_eq_getElem (by omega)), ok_bind,
      index_eq_ok.mpr (List.getElem?_eq_getElem (by omega)), ok_bind, pure_eq_ok,
      Except.ok.injEq, hfield, and_iff_right h]
  · refine iff_of_false (fun hok => h ?_) fun hboth => h hboth.1
    apply noPanic_readU32_iff.mp
    rw [hok]
    exact noPanic_ok n

/-! ## Fields behind a prefix -/

/-- The entry after so many others. -/
theorem index_append {before after : List α} {a : α} {i : ℕ} (hi : before.length = i) :
    (index (before ++ a :: after) i : Outcome ε α) = .ok a := by
  rw [index_eq_ok, ← hi, List.getElem?_append_right le_rfl, Nat.sub_self]
  rfl

/-- The field after so many entries. -/
theorem slice_append {before field after : List α} {start stop : ℕ}
    (hstart : before.length = start) (hstop : start + field.length = stop) :
    (slice (before ++ field ++ after) start stop : Outcome ε (List α)) = .ok field := by
  rw [slice_eq_ok_iff, ← hstop, ← hstart, Nat.add_sub_cancel_left, List.append_assoc,
    List.drop_left, List.take_left]
  simp

/-- The rest after so many entries. -/
theorem sliceFrom_append {before after : List α} {start : ℕ} (hstart : before.length = start) :
    (sliceFrom (before ++ after) start : Outcome ε (List α)) = .ok after := by
  rw [sliceFrom_eq_ok_iff, ← hstart, List.drop_left]
  simp

/-- The bytes of a little-endian number, one at a time. -/
theorem littleEndian_two (n : ℕ) :
    ByteString.littleEndian 2 n = [UInt8.ofNat n, UInt8.ofNat (n / 256)] := rfl

/-- The four bytes of a number. -/
theorem littleEndian_four (n : ℕ) :
    ByteString.littleEndian 4 n = [UInt8.ofNat n, UInt8.ofNat (n / 256),
      UInt8.ofNat (n / 256 / 256), UInt8.ofNat (n / 256 / 256 / 256)] := rfl

/-- A number that was written is read back. -/
theorem readU16_append {before after : List UInt8} {v : UInt16} {i : ℕ}
    (hi : before.length = i) :
    (readU16 (before ++ ByteString.littleEndian 2 v.toNat ++ after) i : Outcome ε UInt16) =
      .ok v := by
  have hvalue : UInt16.ofNat (ByteString.ofLittleEndian (ByteString.littleEndian 2 v.toNat)) =
      v := by
    have hrange : v.toNat < 256 ^ 2 := v.toNat_lt
    rw [ByteString.ofLittleEndian_littleEndian, Nat.mod_eq_of_lt hrange, UInt16.ofNat_toNat]
  rw [littleEndian_two] at hvalue ⊢
  simp only [List.append_assoc, List.cons_append, List.nil_append]
  unfold readU16
  rw [index_append hi, ok_bind, List.append_cons,
    index_append (by rw [List.length_append, hi, List.length_singleton]), ok_bind, pure_eq_ok,
    hvalue]

/-- A number that was written is read back, up to its width. -/
theorem readU32_append {before after : List UInt8} {n i : ℕ} (hi : before.length = i) :
    (readU32 (before ++ ByteString.littleEndian 4 n ++ after) i : Outcome ε ℕ) =
      .ok (n % 2 ^ 32) := by
  have hvalue : ByteString.ofLittleEndian (ByteString.littleEndian 4 n) = n % 2 ^ 32 :=
    ByteString.ofLittleEndian_littleEndian 4 n
  rw [littleEndian_four] at hvalue ⊢
  simp only [List.append_assoc, List.cons_append, List.nil_append]
  unfold readU32
  rw [index_append hi, ok_bind, List.append_cons,
    index_append (by rw [List.length_append, hi, List.length_singleton]), ok_bind,
    List.append_cons,
    index_append (by simp only [List.length_append, hi, List.length_singleton]), ok_bind,
    List.append_cons,
    index_append (by simp only [List.length_append, hi, List.length_singleton]), ok_bind,
    pure_eq_ok, hvalue]

end Reader
