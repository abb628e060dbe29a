import Mathlib.Data.Fintype.BigOperators
import Mathlib.Data.Set.Card
import Sigimora.Math.ExponentCurve
import Sigimora.Server.Authentication

/-!
# The entropy of API keys

A generated key has one character for each byte of its entropy. The alphabet has
62 characters, so that of every byte the key keeps the remainder modulo 62 only:
two draws give the same key exactly if their bytes agree modulo 62. Whatever is
drawn, the key passes the extractor and is found by its hash.
-/

namespace Sigimora.Server

open Program

/-! ## What a key keeps of its entropy -/

/-- What the alphabet keeps of a byte. -/
def residue (b : UInt8) : Fin 62 := ⟨b.toNat % 62, Nat.mod_lt _ (by norm_num)⟩

/-- Every remainder is the remainder of a byte. -/
theorem residue_surjective : Function.Surjective residue := by
  intro r
  have hr : r.val < 62 := r.isLt
  refine ⟨UInt8.ofNat r.val, Fin.ext ?_⟩
  change (UInt8.ofNat r.val).toNat % 62 = r.val
  rw [UInt8.toNat_ofNat', Nat.mod_eq_of_lt (by omega : r.val < 2 ^ 8), Nat.mod_eq_of_lt hr]

/-- The character that stands for a remainder. -/
def keyCharacter (r : Fin 62) : Char := apiKeyAlphabet.getD r 'A'

/-- The key with the given characters. -/
def keyText (residues : List (Fin 62)) : String :=
  "sigimora_" ++ String.ofList (residues.map keyCharacter)

/-- Different residues are different characters. -/
theorem keyCharacter_injective : Function.Injective keyCharacter := by
  decide +kernel

/-- The characters are ASCII. -/
theorem utf8Size_keyCharacter (r : Fin 62) : (keyCharacter r).utf8Size = 1 := by
  revert r
  decide +kernel

/-- The characters of a key are those of its residues. -/
theorem toList_keyText (residues : List (Fin 62)) :
    (keyText residues).toList = "sigimora_".toList ++ residues.map keyCharacter := by
  rw [keyText, String.toList_append, @String.toList_ofList (residues.map keyCharacter)]

/-- Different residues make different keys. -/
theorem keyText_injective : Function.Injective keyText := by
  intro rs rs' h
  have hchars := congrArg String.toList h
  rw [toList_keyText, toList_keyText] at hchars
  exact List.map_injective_iff.mpr keyCharacter_injective (List.append_cancel_left hchars)

/-- A key has nine bytes, and one for every residue. -/
theorem length_utf8Bytes_keyText (residues : List (Fin 62)) :
    (ByteString.utf8Bytes (keyText residues)).length = 9 + residues.length := by
  have hstart : ("sigimora_".toList.flatMap String.utf8EncodeChar).length = 9 := by decide
  have hsuffix : ((residues.map keyCharacter).flatMap String.utf8EncodeChar).length =
      residues.length := by
    simp [List.length_flatMap, Function.comp_def, utf8Size_keyCharacter]
  rw [ByteString.utf8Bytes, toList_keyText, List.flatMap_append, List.length_append, hstart,
    hsuffix]

variable [Curve] {label role label' role' : String} {draws draws' : ApiKeyDraws}

/-- The raw key is made of the remainders of the entropy. -/
theorem generateApiKey_fst (label role : String) (draws : ApiKeyDraws) :
    (generateApiKey label role draws).1 = keyText (draws.entropy.map residue) := by
  rw [keyText, List.map_map]
  rfl

/-- Two raw keys are equal exactly if their entropies agree modulo 62. -/
theorem generateApiKey_fst_inj :
    (generateApiKey label role draws).1 = (generateApiKey label' role' draws').1 ↔
      draws.entropy.map residue = draws'.entropy.map residue := by
  rw [generateApiKey_fst, generateApiKey_fst, keyText_injective.eq_iff]

/-- Keys of `n` bytes of entropy can take `62 ^ n` values, not `256 ^ n`. -/
theorem ncard_rawKeys (label role : String) (n : ℕ) :
    {key | ∃ draws : ApiKeyDraws, draws.entropy.length = n ∧
      (generateApiKey label role draws).1 = key}.ncard = 62 ^ n := by
  have himage : {key | ∃ draws : ApiKeyDraws, draws.entropy.length = n ∧
      (generateApiKey label role draws).1 = key} =
      Set.range fun residues : List.Vector (Fin 62) n => keyText residues.toList := by
    ext key
    constructor
    · rintro ⟨draws, hlength, rfl⟩
      exact ⟨⟨draws.entropy.map residue, by rw [List.length_map, hlength]⟩,
        (generateApiKey_fst label role draws).symm⟩
    · rintro ⟨residues, rfl⟩
      obtain ⟨entropy, hentropy⟩ := List.map_surjective_iff.mpr residue_surjective residues.toList
      refine ⟨⟨entropy, "", ""⟩, ?_, ?_⟩
      · rw [← residues.toList_length, ← hentropy, List.length_map]
      · rw [generateApiKey_fst, hentropy]
  have hinjective : Function.Injective fun residues : List.Vector (Fin 62) n =>
      keyText residues.toList :=
    keyText_injective.comp List.Vector.toList_injective
  rw [himage, ← Set.image_univ, Set.ncard_image_of_injective _ hinjective, Set.ncard_univ,
    Nat.card_eq_fintype_card, card_vector, Fintype.card_fin]

/-! ## What the extractor does with a key -/

omit [Curve] in
/-- The hash of a stored row is found, and the row itself if no other row stores the hash. -/
theorem Db.getApiKeyByHash_of_mem {db : Db} {row : ApiKeyRow} (h : row ∈ db.apiKeys) :
    ∃ found, db.getApiKeyByHash row.keyHash = some found ∧ found.keyHash = row.keyHash ∧
      ((∀ other ∈ db.apiKeys, other.keyHash = row.keyHash → other = row) → found = row) := by
  have hsome : (db.getApiKeyByHash row.keyHash).isSome = true :=
    List.find?_isSome.mpr ⟨row, h, decide_eq_true rfl⟩
  obtain ⟨found, hfound⟩ := Option.isSome_iff_exists.mp hsome
  obtain ⟨hmem, hhash⟩ := Db.keyHash_of_getApiKeyByHash hfound
  exact ⟨found, hfound, hhash, fun hunique => hunique found hmem hhash⟩

/-- The extractor accepts the raw key once the row is stored: it lets a key of this length
through, and the lookup of the hash finds a row with the stored hash, the row itself if no other
row stores that hash. -/
def AcceptedOnceStored (key : String) (row : ApiKeyRow) : Prop :=
  bearerKey (some ("Bearer " ++ key)) = .ok key ∧
  ∀ db : Db, row ∈ db.apiKeys → ∃ found,
    db.getApiKeyByHash (sha256Hex key) = some found ∧ found.keyHash = row.keyHash ∧
    ((∀ other ∈ db.apiKeys, other.keyHash = row.keyHash → other = row) → found = row) ∧
    ∀ usedAt, (AuthenticatedUser.fromRequestParts (some ("Bearer " ++ key)) usedAt).run exec db =
      (.ok ⟨found.id, found.role⟩, db.touchApiKey found.id usedAt)

/-- The length of a key decides whether the extractor looks its hash up. -/
theorem bearerKey_generateApiKey (label role : String) (hmin : 7 ≤ draws.entropy.length)
    (hmax : draws.entropy.length ≤ 247) :
    bearerKey (some ("Bearer " ++ (generateApiKey label role draws).1)) =
      .ok (generateApiKey label role draws).1 := by
  rw [bearerKey_eq_ok, Option.bind_some, stripPrefix_append, generateApiKey_fst,
    length_utf8Bytes_keyText, List.length_map]
  exact ⟨rfl, by omega⟩

theorem acceptedOnceStored_generateApiKey (hmin : 7 ≤ draws.entropy.length)
    (hmax : draws.entropy.length ≤ 247) :
    AcceptedOnceStored (generateApiKey label role draws).1 (generateApiKey label role draws).2 := by
  have hkey := bearerKey_generateApiKey label role hmin hmax
  refine ⟨hkey, fun db hrow => ?_⟩
  obtain ⟨found, hfound, hhash, hunique⟩ := Db.getApiKeyByHash_of_mem hrow
  have hstored : authenticatedRow (some ("Bearer " ++ (generateApiKey label role draws).1)) db =
      some found := by
    rw [authenticatedRow, hkey]
    exact hfound
  exact ⟨found, hfound, hhash, hunique, run_fromRequestParts_of_some hstored⟩

/-! ## Two draws -/

/-- Different entropies give different raw keys, and both keys are accepted once stored. -/
def CarriesEntropy (label role label' role' : String) (draws draws' : ApiKeyDraws) : Prop :=
  (draws.entropy ≠ draws'.entropy →
    (generateApiKey label role draws).1 ≠ (generateApiKey label' role' draws').1) ∧
  AcceptedOnceStored (generateApiKey label role draws).1 (generateApiKey label role draws).2 ∧
  AcceptedOnceStored (generateApiKey label' role' draws').1 (generateApiKey label' role' draws').2

/-- **Entropy.** Two draws of 16 bytes carry their entropy exactly if they are the same or
differ modulo 62 at some byte. -/
theorem carriesEntropy_iff (label role label' role' : String)
    (hlength : draws.entropy.length = 16) (hlength' : draws'.entropy.length = 16) :
    CarriesEntropy label role label' role' draws draws' ↔
      draws.entropy = draws'.entropy ∨
        draws.entropy.map residue ≠ draws'.entropy.map residue := by
  have haccepted : AcceptedOnceStored (generateApiKey label role draws).1
        (generateApiKey label role draws).2 ∧
      AcceptedOnceStored (generateApiKey label' role' draws').1
        (generateApiKey label' role' draws').2 :=
    ⟨acceptedOnceStored_generateApiKey (by omega) (by omega),
      acceptedOnceStored_generateApiKey (by omega) (by omega)⟩
  rw [CarriesEntropy, and_iff_left haccepted, Ne, Ne, generateApiKey_fst_inj, ← or_iff_not_imp_left]

omit [Curve] in
/-- Sixteen bytes, of which only the first may differ from zero. -/
def firstByteDraws (first : UInt8) : ApiKeyDraws where
  entropy := first :: List.replicate 15 0
  id := "key"
  createdAt := ""

omit [Curve] in
/-- The bytes 0 and 62 give the same first character. -/
theorem not_carriesEntropy_sixtyTwo :
    letI := exponentCurve
    (firstByteDraws 0).entropy.length = 16 ∧ (firstByteDraws 62).entropy.length = 16 ∧
      ¬ CarriesEntropy "laptop" "user" "laptop" "user" (firstByteDraws 0) (firstByteDraws 62) := by
  let := exponentCurve
  refine ⟨rfl, rfl, fun h => h.1 (by decide) ?_⟩
  rw [generateApiKey_fst_inj]
  decide

omit [Curve] in
/-- The bytes 0 and 61 do not. -/
theorem carriesEntropy_sixtyOne :
    letI := exponentCurve
    CarriesEntropy "laptop" "user" "laptop" "user" (firstByteDraws 0) (firstByteDraws 61) := by
  let := exponentCurve
  exact (carriesEntropy_iff _ _ _ _ rfl rfl).mpr (Or.inr (by decide))

end Sigimora.Server
