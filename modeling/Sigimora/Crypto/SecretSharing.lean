import Sigimora.Crypto.Error
import Sigimora.Crypto.Participants
import Sigimora.Library.Horner

/-!
# Secret sharing

A secret is shared by the values of a random polynomial whose constant term it
is. The polynomial has `t` coefficients, so that any `t` shares determine the
secret, and fewer shares are consistent with every secret.
-/

namespace Sigimora.Shamir

open Interpolation Polynomial

variable {ε : Type}

/-- A share of a secret. -/
structure Share where
  index : ParticipantId
  value : Scalar
  deriving DecidableEq, Repr

/-- Share a secret among `n` participants, any `t` of whom can reconstruct it; an impossible
threshold panics. -/
def split (secret : Scalar) (t n : ℕ) (coins : ℕ → Scalar) : Outcome ε (List Share) :=
  if ¬ t ≤ n then Outcome.panic "threshold must be <= total participants"
  else if ¬ t > 0 then Outcome.panic "threshold must be > 0"
  else
    let coefficients := secret :: (List.range (t - 1)).map coins
    .ok <| (participants n).map fun i =>
      { index := i
        value := (coefficients.zipIdx.drop 1).foldl
          (fun value entry => value + Horner.raise (Scalar.ofId i) entry.2 entry.1) secret }

/-- The secret behind the shares; a repeated index panics. -/
def reconstruct (shares : List Share) : Outcome CryptoError Scalar :=
  if shares.isEmpty then Outcome.fail .invalidShares
  else do
    let indices := shares.map Share.index
    let lambdas ← lagrangeAtZero indices
    return weightedSum (shares.map Share.value) lambdas

variable {secret : Scalar} {t n : ℕ} {coins : ℕ → Scalar}

/-! ## The shares -/

/-- The polynomial that is drawn to share a secret. -/
noncomputable def sharingPolynomial (secret : Scalar) (t : ℕ) (coins : ℕ → Scalar) : Scalar[X] :=
  Horner.toPolynomial (secret :: (List.range (t - 1)).map coins)

/-- The sharing polynomial is of degree below the threshold. -/
theorem degree_sharingPolynomial_lt (ht : 1 ≤ t) :
    (sharingPolynomial secret t coins).degree < t := by
  have hlength : (secret :: (List.range (t - 1)).map coins).length = t := by
    rw [List.length_cons, List.length_map, List.length_range]
    omega
  have hdegree := Horner.degree_toPolynomial_lt (secret :: (List.range (t - 1)).map coins)
  rwa [hlength] at hdegree

/-- The sharing polynomial takes the secret at zero. -/
theorem eval_zero_sharingPolynomial (secret : Scalar) (t : ℕ) (coins : ℕ → Scalar) :
    (sharingPolynomial secret t coins).eval 0 = secret := by
  rw [sharingPolynomial, Horner.eval_toPolynomial, Horner.eval_zero_cons]

/-- Every polynomial of low degree is one that can be drawn. -/
theorem sharingPolynomial_coeff {p : Scalar[X]} (ht : 1 ≤ t) (hp : p.degree < t) :
    sharingPolynomial (p.eval 0) t (fun i => p.coeff (i + 1)) = p := by
  have hlist : (p.eval 0 :: (List.range (t - 1)).map fun i => p.coeff (i + 1)) =
      (List.range t).map p.coeff := by
    obtain ⟨k, rfl⟩ : ∃ k, t = k + 1 := ⟨t - 1, by omega⟩
    rw [List.range_succ_eq_map, List.map_cons, List.map_map, coeff_zero_eq_eval_zero]
    rfl
  rw [sharingPolynomial, hlist, Horner.toPolynomial_coeffs hp]

/-- The shares are the values of the polynomial. -/
theorem split_eq_ok (ht : 1 ≤ t) (htn : t ≤ n) :
    (split secret t n coins : Outcome ε (List Share)) = .ok ((participants n).map fun i =>
      ⟨i, (sharingPolynomial secret t coins).eval (Scalar.ofId i)⟩) := by
  have hpos : t > 0 := ht
  rw [split, if_neg (not_not.mpr htn), if_neg (not_not.mpr hpos)]
  simp only [Horner.foldl_raise_tail, sharingPolynomial, Horner.eval_toPolynomial]

/-! ## Reconstruction -/

/-- Shares of different participants are interpolated at zero. -/
theorem reconstruct_map {ids : List ParticipantId} (hnodup : ids.Nodup) (hne : ids ≠ [])
    (value : ParticipantId → Scalar) :
    reconstruct (ids.map fun id => ⟨id, value id⟩) =
      .ok (combine (nodes ids) fun x => value (idOf x)) := by
  have hempty : ¬ (ids.map fun id => Share.mk id (value id)).isEmpty = true := by simpa using hne
  rw [reconstruct, if_neg hempty]
  simp only [List.map_map, Function.comp_def, List.map_id', lagrangeAtZero_eq hnodup,
    Outcome.ok_bind, Outcome.pure_eq_ok, weightedSum_weights hnodup]

/-- Shares of different participants reconstruct the value at zero of a polynomial of lower
degree that they lie on. -/
theorem reconstruct_eq_ok {shares : List Share} {p : Scalar[X]} (hne : shares ≠ [])
    (hnodup : (shares.map Share.index).Nodup) (hdegree : p.degree < shares.length)
    (hvalue : ∀ share ∈ shares, share.value = p.eval (Scalar.ofId share.index)) :
    reconstruct shares = .ok (p.eval 0) := by
  rw [reconstruct, if_neg (by simpa using hne)]
  simp only [lagrangeAtZero_eq hnodup, Outcome.ok_bind, Outcome.pure_eq_ok]
  rw [weightedSum_eval hnodup hdegree hvalue]

/-- **Reconstruction.** At least `t` of the shares, at different positions and in any order,
reconstruct the secret. -/
theorem reconstruct_split (secret : Scalar) {t n : ℕ} (ht : 1 ≤ t) (htn : t ≤ n)
    (coins : ℕ → Scalar) :
    ∃ shares, (split secret t n coins : Outcome CryptoError (List Share)) = .ok shares ∧
      ∀ positions : List (Fin shares.length), positions.Nodup → t ≤ positions.length →
        reconstruct (positions.map shares.get) = .ok secret := by
  let p := sharingPolynomial secret t coins
  let shares := (participants n).map fun i => Share.mk i (p.eval (Scalar.ofId i))
  refine ⟨shares, split_eq_ok ht htn, ?_⟩
  intro positions hnodup hsize
  have hdegree : p.degree < (positions.map shares.get).length := by
    rw [List.length_map]
    exact lt_of_lt_of_le (degree_sharingPolynomial_lt ht) (by exact_mod_cast hsize)
  conv_rhs => rw [← eval_zero_sharingPolynomial secret t coins]
  refine reconstruct_eq_ok ?_ ?_ hdegree ?_
  · intro hempty
    rw [List.map_eq_nil_iff] at hempty
    rw [hempty, List.length_nil] at hsize
    omega
  · exact nodup_map_get_participants (fun _ => rfl) hnodup
  · intro share hshare
    obtain ⟨position, _, rfl⟩ := List.mem_map.mp hshare
    simp only [shares, p, List.get_eq_getElem, List.getElem_map]

/-- Any two of three participants reconstruct the secret 5. -/
theorem reconstruct_split_two_of_three :
    ∃ shares, (split 5 2 3 fun _ => 7 : Outcome CryptoError (List Share)) = .ok shares ∧
      ∀ positions : List (Fin shares.length), positions.Nodup → 2 ≤ positions.length →
        reconstruct (positions.map shares.get) = .ok 5 :=
  reconstruct_split 5 (by norm_num) (by norm_num) fun _ => 7

/-! ## Secrecy -/

/-- The draws of a call that draws `k` scalars. -/
def coinsOf {k : ℕ} (draws : Fin k → Scalar) (i : ℕ) : Scalar :=
  if h : i < k then draws ⟨i, h⟩ else 0

/-- The coins are the draws. -/
theorem map_coinsOf {k : ℕ} (draws : Fin k → Scalar) :
    (List.range k).map (coinsOf draws) = List.ofFn draws := by
  refine List.ext_getElem (by simp) fun i hi _ => ?_
  have hi : i < k := by simpa using hi
  simp [coinsOf, hi]

/-- The dealer gives the participants with these ids the shares `y`. -/
def Deals (secret : Scalar) (t n : ℕ) (coins : ℕ → Scalar) (ids : List ParticipantId)
    (y : ParticipantId → Scalar) : Prop :=
  ∃ shares, (split secret t n coins : Outcome CryptoError (List Share)) = .ok shares ∧
    ∀ id ∈ ids, (⟨id, y id⟩ : Share) ∈ shares

/-- Shares are dealt just if the sharing polynomial takes their values. -/
theorem deals_iff (ht : 1 ≤ t) (htn : t ≤ n) {ids : List ParticipantId}
    (hids : ∀ id ∈ ids, id ∈ participants n) {y : ParticipantId → Scalar} :
    Deals secret t n coins ids y ↔
      ∀ id ∈ ids, (sharingPolynomial secret t coins).eval (Scalar.ofId id) = y id := by
  unfold Deals
  rw [split_eq_ok ht htn]
  constructor
  · rintro ⟨shares, hshares, hdealt⟩ id hid
    cases hshares
    obtain ⟨i, _, hi⟩ := List.mem_map.mp (hdealt id hid)
    obtain ⟨rfl, hvalue⟩ := Share.mk.inj hi
    exact hvalue
  · intro h
    refine ⟨_, rfl, fun id hid => ?_⟩
    rw [← h id hid]
    exact List.mem_map.mpr ⟨id, hids id hid, rfl⟩

/-- **Secrecy.** Whatever the secret, exactly one choice of the `t - 1` random coefficients
gives `t - 1` participants any shares that one likes. -/
theorem existsUnique_deals (secret : Scalar) {t n : ℕ} (ht : 1 ≤ t) (htn : t ≤ n)
    (hn : n ≤ 65535) {ids : List ParticipantId} (hnodup : ids.Nodup)
    (hids : ∀ id ∈ ids, 1 ≤ id.toNat ∧ id.toNat ≤ n) (hlength : ids.length = t - 1)
    (y : ParticipantId → Scalar) :
    ∃! draws : Fin (t - 1) → Scalar, Deals secret t n (coinsOf draws) ids y := by
  have hmem : ∀ id ∈ ids, id ∈ participants n := fun id hid =>
    (mem_participants hn).mpr (hids id hid)
  have hzero : (0 : Scalar) ∉ nodes ids :=
    zero_notMem_nodes fun id hid => ne_zero_of_mem_participants (hmem id hid)
  have hcard : (nodes ids).card + 1 = t := by
    rw [card_nodes hnodup, hlength, Nat.sub_add_cancel ht]
  have hdrawn (draws : Fin (t - 1) → Scalar) :
      sharingPolynomial secret t (coinsOf draws) =
        Horner.toPolynomial (secret :: List.ofFn draws) := by
    rw [sharingPolynomial, map_coinsOf]
  -- the draws are the coefficients of the polynomial through the shares and the secret
  obtain ⟨p, ⟨hdegree, hsecret, hvalues⟩, hunique⟩ :=
    existsUnique_polynomial hzero (fun x => y (idOf x)) secret
  rw [hcard] at hdegree hunique
  have hcoeffs : Horner.toPolynomial (secret :: List.ofFn fun i : Fin (t - 1) =>
      p.coeff (i + 1)) = p := by
    have hlist : (List.ofFn fun i : Fin (t - 1) => p.coeff (i + 1)) =
        (List.range (t - 1)).map fun i => p.coeff (i + 1) :=
      List.ext_getElem (by simp) fun i _ _ => by simp
    have hpoly := sharingPolynomial_coeff ht hdegree
    rwa [hsecret, sharingPolynomial, ← hlist] at hpoly
  refine ⟨fun i => p.coeff (i + 1), ?_, ?_⟩
  · refine (deals_iff ht htn hmem).mpr fun id hid => ?_
    rw [hdrawn, hcoeffs, hvalues _ (mem_nodes.mpr ⟨id, hid, rfl⟩), idOf_ofId]
  · intro draws hdeals
    have hpoly : sharingPolynomial secret t (coinsOf draws) = p := by
      refine hunique _ ⟨degree_sharingPolynomial_lt ht, eval_zero_sharingPolynomial _ _ _, ?_⟩
      intro x hx
      obtain ⟨id, hid, rfl⟩ := mem_nodes.mp hx
      rw [idOf_ofId]
      exact (deals_iff ht htn hmem).mp hdeals id hid
    rw [hdrawn, ← hcoeffs] at hpoly
    have hlists := Horner.toPolynomial_inj (by simp) hpoly
    exact List.ofFn_injective (List.cons.inj hlists).2

/-- The second of three participants, with `t = 2`. -/
theorem existsUnique_deals_second :
    ∃! draws : Fin 1 → Scalar, Deals 5 2 3 (coinsOf draws) [2] fun _ => 9 :=
  existsUnique_deals (t := 2) (n := 3) 5 one_le_two (by norm_num) (by norm_num)
    (List.nodup_singleton 2) (by simp) rfl fun _ => 9

end Sigimora.Shamir
