import Mathlib.Data.List.Induction
import Mathlib.Tactic.IntervalCases
import Mathlib.Tactic.Positivity

/-!
# Byte strings

Fixed-width encodings of natural numbers in both byte orders, and the
hexadecimal text form of a byte string. Every encoding comes with its decoder
and the theorem that decoding an encoding gives the value back.
-/

namespace ByteString

/-- The `width` low bytes of `n`, most significant byte first. -/
def bigEndian : ℕ → ℕ → List UInt8
  | 0, _ => []
  | width + 1, n => bigEndian width (n / 256) ++ [UInt8.ofNat n]

/-- The `width` low bytes of `n`, least significant byte first. -/
def littleEndian : ℕ → ℕ → List UInt8
  | 0, _ => []
  | width + 1, n => UInt8.ofNat n :: littleEndian width (n / 256)

/-- The number whose most significant byte comes first. -/
def ofBigEndian (bytes : List UInt8) : ℕ :=
  bytes.foldl (fun acc b => 256 * acc + b.toNat) 0

/-- The number whose least significant byte comes first. -/
def ofLittleEndian (bytes : List UInt8) : ℕ :=
  bytes.foldr (fun b acc => b.toNat + 256 * acc) 0

/-- The encoding has the given width. -/
@[simp] theorem length_bigEndian (width n : ℕ) : (bigEndian width n).length = width := by
  induction width generalizing n with
  | zero => rfl
  | succ width ih => simp [bigEndian, ih]

/-- The encoding has the given width. -/
@[simp] theorem length_littleEndian (width n : ℕ) : (littleEndian width n).length = width := by
  induction width generalizing n with
  | zero => rfl
  | succ width ih => simp [littleEndian, ih]

/-- The last byte of a number is its lowest digit. -/
theorem ofBigEndian_append_singleton (bytes : List UInt8) (b : UInt8) :
    ofBigEndian (bytes ++ [b]) = 256 * ofBigEndian bytes + b.toNat := by
  simp [ofBigEndian, List.foldl_append]

/-- Decoding gives the number back, up to the width. -/
theorem ofBigEndian_bigEndian (width n : ℕ) :
    ofBigEndian (bigEndian width n) = n % 256 ^ width := by
  induction width generalizing n with
  | zero => simp [bigEndian, ofBigEndian, Nat.mod_one]
  | succ width ih =>
    have hlow : (UInt8.ofNat n).toNat = n % 256 := UInt8.toNat_ofNat'
    rw [bigEndian, ofBigEndian_append_singleton, ih, hlow, pow_succ', Nat.mod_mul]
    omega

/-- Numbers below the range of the width survive the encoding. -/
theorem ofBigEndian_bigEndian_of_lt {width n : ℕ} (h : n < 256 ^ width) :
    ofBigEndian (bigEndian width n) = n := by
  rw [ofBigEndian_bigEndian, Nat.mod_eq_of_lt h]

/-- The encoding in as many bytes as were read is the byte string itself. -/
theorem bigEndian_ofBigEndian (bytes : List UInt8) :
    bigEndian bytes.length (ofBigEndian bytes) = bytes := by
  induction bytes using List.reverseRecOn with
  | nil => rfl
  | append_singleton bytes b ih =>
    have hb : b.toNat < 256 := b.toNat_lt
    have hdiv : (256 * ofBigEndian bytes + b.toNat) / 256 = ofBigEndian bytes := by omega
    have hlow : UInt8.ofNat (256 * ofBigEndian bytes + b.toNat) = b := by
      apply UInt8.toNat_inj.mp
      rw [UInt8.toNat_ofNat']
      omega
    rw [ofBigEndian_append_singleton, List.length_append, List.length_singleton, bigEndian,
      hdiv, ih, hlow]

/-- So many bytes hold no greater number. -/
theorem ofBigEndian_lt (bytes : List UInt8) : ofBigEndian bytes < 256 ^ bytes.length := by
  have h := ofBigEndian_bigEndian bytes.length (ofBigEndian bytes)
  rw [bigEndian_ofBigEndian] at h
  rw [h]
  exact Nat.mod_lt _ (by positivity)

/-- Decoding gives the number back, up to the width. -/
theorem ofLittleEndian_littleEndian (width n : ℕ) :
    ofLittleEndian (littleEndian width n) = n % 256 ^ width := by
  induction width generalizing n with
  | zero => simp [littleEndian, ofLittleEndian, Nat.mod_one]
  | succ width ih =>
    have hlow : (UInt8.ofNat n).toNat = n % 256 := UInt8.toNat_ofNat'
    have htail : ofLittleEndian (littleEndian width (n / 256)) = n / 256 % 256 ^ width := ih _
    rw [littleEndian, ofLittleEndian, List.foldr_cons, ← ofLittleEndian, htail, hlow, pow_succ',
      Nat.mod_mul]

/-- Numbers that fit the width are told apart by their bytes. -/
theorem littleEndian_inj {width a b : ℕ} (ha : a < 256 ^ width) (hb : b < 256 ^ width)
    (h : littleEndian width a = littleEndian width b) : a = b := by
  have hvalue := congrArg ofLittleEndian h
  rwa [ofLittleEndian_littleEndian, ofLittleEndian_littleEndian, Nat.mod_eq_of_lt ha,
    Nat.mod_eq_of_lt hb] at hvalue

/-- Entries of one width can be told apart without lengths. -/
theorem flatMap_inj {α β : Type*} {f : α → List β} {width : ℕ} (hpos : 0 < width)
    (hlength : ∀ a, (f a).length = width) (hinj : Function.Injective f) {as bs : List α}
    (h : as.flatMap f = bs.flatMap f) : as = bs := by
  have hne (a : α) (rest : List β) : f a ++ rest ≠ [] := by
    intro hempty
    have hcount := congrArg List.length hempty
    rw [List.length_append, hlength, List.length_nil] at hcount
    omega
  induction as generalizing bs with
  | nil =>
    cases bs with
    | nil => rfl
    | cons b bs => exact absurd h.symm (hne b _)
  | cons a as ih =>
    cases bs with
    | nil => exact absurd h (hne a _)
    | cons b bs =>
      rw [List.flatMap_cons, List.flatMap_cons] at h
      obtain ⟨hhead, htail⟩ := List.append_inj h (by rw [hlength, hlength])
      rw [hinj hhead, ih htail]

/-! ## Hexadecimal text -/

/-- Why a text is not the hexadecimal form of a byte string. -/
inductive FromHexError
  | invalidHexCharacter (c : Char) (index : ℕ)
  | oddLength
  deriving DecidableEq, Repr

instance : ToString FromHexError where
  toString
    | .invalidHexCharacter c index => s!"Invalid character {c.quote} at position {index}"
    | .oddLength => "Odd number of digits"

/-- The lower-case digit for a value below sixteen. -/
def hexDigit (v : ℕ) : Char := if v < 10 then Char.ofNat (48 + v) else Char.ofNat (87 + v)

/-- The two digits of one byte. -/
def hexDigits (b : UInt8) : List Char := [hexDigit (b.toNat / 16), hexDigit (b.toNat % 16)]

/-- The lower-case hexadecimal form, two digits a byte. -/
def hexEncode (bytes : List UInt8) : String := String.ofList (bytes.flatMap hexDigits)

/-- The UTF-8 bytes of a text. -/
def utf8Bytes (text : String) : List UInt8 := text.toList.flatMap String.utf8EncodeChar

/-- The value of the digit `c` found at position `index`; both cases are read. -/
def hexValue (c : UInt8) (index : ℕ) : Except FromHexError ℕ :=
  if 48 ≤ c ∧ c ≤ 57 then .ok (c.toNat - 48)
  else if 65 ≤ c ∧ c ≤ 70 then .ok (c.toNat - 55)
  else if 97 ≤ c ∧ c ≤ 102 then .ok (c.toNat - 87)
  else .error (.invalidHexCharacter (Char.ofNat c.toNat) index)

/-- Read the digits in pairs, from position `index` on. -/
def hexPairs : ℕ → List UInt8 → Except FromHexError (List UInt8)
  | index, hi :: lo :: rest => do
    let h ← hexValue hi index
    let l ← hexValue lo (index + 1)
    let bytes ← hexPairs (index + 2) rest
    return UInt8.ofNat (16 * h + l) :: bytes
  | _, _ => .ok []

/-- The byte string with the given hexadecimal form. -/
def hexDecode (text : String) : Except FromHexError (List UInt8) :=
  let digits := utf8Bytes text
  if digits.length % 2 ≠ 0 then .error .oddLength else hexPairs 0 digits

/-- A digit is one ASCII byte, and reading it gives its value back. -/
theorem hexDigit_read {v : ℕ} (hv : v < 16) :
    ∃ c, String.utf8EncodeChar (hexDigit v) = [c] ∧ ∀ index, hexValue c index = .ok v := by
  interval_cases v <;> exact ⟨_, rfl, fun _ => rfl⟩

/-- The digits of a byte string, as UTF-8 text, read back as that byte string. -/
theorem hexPairs_digits (bytes : List UInt8) (index : ℕ) :
    ∃ digits, (bytes.flatMap hexDigits).flatMap String.utf8EncodeChar = digits ∧
      digits.length = 2 * bytes.length ∧ hexPairs index digits = .ok bytes := by
  induction bytes generalizing index with
  | nil => exact ⟨[], rfl, rfl, rfl⟩
  | cons b bytes ih =>
    obtain ⟨rest, hrest, hlength, hread⟩ := ih (index + 2)
    have hb : b.toNat < 256 := b.toNat_lt
    obtain ⟨hi, hhiEnc, hhiVal⟩ := hexDigit_read (show b.toNat / 16 < 16 by omega)
    obtain ⟨lo, hloEnc, hloVal⟩ := hexDigit_read (show b.toNat % 16 < 16 by omega)
    have hjoin : UInt8.ofNat (16 * (b.toNat / 16) + b.toNat % 16) = b := by
      rw [Nat.div_add_mod, UInt8.ofNat_toNat]
    refine ⟨hi :: lo :: rest, ?_, ?_, ?_⟩
    · simp only [hexDigits, List.flatMap_cons, List.cons_append, List.nil_append, hhiEnc, hloEnc,
        hrest]
    · simp only [List.length_cons, hlength]
      omega
    · simp only [hexPairs, hhiVal, hloVal, hread, bind, Except.bind, pure, Except.pure, hjoin]

/-- Decoding the hexadecimal form gives the byte string back. -/
theorem hexDecode_hexEncode (bytes : List UInt8) : hexDecode (hexEncode bytes) = .ok bytes := by
  obtain ⟨digits, hdigits, hlength, hread⟩ := hexPairs_digits bytes 0
  have htext : utf8Bytes (hexEncode bytes) = digits := by
    rw [utf8Bytes, hexEncode, String.toList_ofList, hdigits]
  have heven : ¬ (digits.length % 2 ≠ 0) := by omega
  simp only [hexDecode, htext, if_neg heven, hread]

end ByteString
