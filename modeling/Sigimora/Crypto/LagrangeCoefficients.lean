import Sigimora.Crypto.FrostSigning
import Sigimora.Crypto.PedersenSharing

/-!
# The Lagrange coefficients

The coefficients at zero of distinct indices recover the value at zero of every
polynomial of low degree, and they follow the order of the indices. The workspace
computes them in three places, of which one has the opposite signs in numerators
and denominators; on distinct indices the three agree.
-/

namespace Sigimora.Shamir

open Interpolation Polynomial

variable {ε : Type} {indices : List ParticipantId}

/-- The weights of distinct indices, added up over the positions. -/
theorem sum_weights (h : indices.Nodup) (f : Scalar → Scalar) :
    ∑ i : Fin indices.length, weight (nodes indices) (Scalar.ofId (indices.get i)) *
      f (Scalar.ofId (indices.get i)) = combine (nodes indices) f := by
  let term := fun id => weight (nodes indices) (Scalar.ofId id) * f (Scalar.ofId id)
  calc ∑ i : Fin indices.length, term (indices.get i)
      = (indices.map term).sum := Fin.sum_univ_fun_getElem indices term
    _ = ∑ id ∈ indices.toFinset, term id := (List.sum_toFinset term h).symm
    _ = combine (nodes indices) f := by
      rw [combine, nodes, Finset.sum_image fun a _ b _ hab => Scalar.ofId_injective hab]
      rfl

/-- A permutation of the indices has the same nodes. -/
theorem nodes_perm {permuted : List ParticipantId} (h : permuted.Perm indices) :
    nodes permuted = nodes indices := by
  rw [nodes, nodes, List.toFinset_eq_of_perm _ _ h]

/-- Indices in another order have the same coefficients, in that order. -/
theorem lagrangeAtZero_perm (h : indices.Nodup) (σ : Equiv.Perm (Fin indices.length)) :
    (lagrangeAtZero (List.ofFn fun i => indices.get (σ i)) : Outcome ε _) =
      .ok (List.ofFn fun i => weight (nodes indices) (Scalar.ofId (indices.get (σ i)))) := by
  have hperm : (List.ofFn fun i => indices.get (σ i)).Perm indices := by
    conv_rhs => rw [← List.ofFn_get indices]
    exact Equiv.Perm.ofFn_comp_perm σ indices.get
  rw [lagrangeAtZero_eq (hperm.nodup_iff.mpr h), nodes_perm hperm, List.map_ofFn]
  rfl

/-- **Interpolation.** The coefficients of distinct indices recover the value at zero of every
polynomial of low degree, in particular they add up to one, and permuting the indices permutes
them in the same way. -/
theorem lagrangeAtZero_interpolates (hne : indices ≠ []) (hnodup : indices.Nodup) :
    ∃ lambda : Fin indices.length → Scalar,
      (lagrangeAtZero indices : Outcome ε _) = .ok (List.ofFn lambda) ∧
      (∀ p : Scalar[X], p.degree < indices.length →
        ∑ i, lambda i * p.eval (Scalar.ofId (indices.get i)) = p.eval 0) ∧
      ∑ i, lambda i = 1 ∧
      ∀ σ : Equiv.Perm (Fin indices.length),
        (lagrangeAtZero (List.ofFn fun i => indices.get (σ i)) : Outcome ε _) =
          .ok (List.ofFn fun i => lambda (σ i)) := by
  have hrecover : ∀ p : Scalar[X], p.degree < indices.length →
      ∑ i : Fin indices.length, weight (nodes indices) (Scalar.ofId (indices.get i)) *
        p.eval (Scalar.ofId (indices.get i)) = p.eval 0 := by
    intro p hp
    rw [sum_weights hnodup fun x => p.eval x, combine_eval (by rwa [card_nodes hnodup])]
  refine ⟨fun i => weight (nodes indices) (Scalar.ofId (indices.get i)), ?_, hrecover, ?_,
    lagrangeAtZero_perm hnodup⟩
  · simpa only [Equiv.Perm.one_apply, List.ofFn_get] using lagrangeAtZero_perm hnodup 1
  · have hconstant : (1 : Scalar[X]).degree < indices.length := by
      rw [degree_one]
      exact_mod_cast List.length_pos_iff.mpr hne
    have hone := hrecover 1 hconstant
    simpa only [eval_one, mul_one] using hone

/-- Three indices, zero among them. -/
theorem lagrangeAtZero_interpolates_three :
    ∃ lambda : Fin 3 → Scalar,
      (lagrangeAtZero [0, 2, 5] : Outcome CryptoError _) = .ok (List.ofFn lambda) ∧
      (∀ p : Scalar[X], p.degree < 3 →
        ∑ i, lambda i * p.eval (Scalar.ofId ([0, 2, 5].get i)) = p.eval 0) ∧
      ∑ i, lambda i = 1 ∧
      ∀ σ : Equiv.Perm (Fin 3),
        (lagrangeAtZero (List.ofFn fun i : Fin 3 => [0, 2, 5].get (σ i)) :
          Outcome CryptoError _) = .ok (List.ofFn fun i => lambda (σ i)) :=
  @lagrangeAtZero_interpolates CryptoError [0, 2, 5] (List.cons_ne_nil _ _) (by decide)

end Sigimora.Shamir

namespace Sigimora

open Interpolation Shamir

/-! ## The three implementations -/

variable {ε : Type} {indices : List ParticipantId}

/-- **Agreement.** On distinct indices the three implementations return the same list. -/
theorem lagrange_agree (h : indices.Nodup) :
    ∃ lambdas : List Scalar, (Shamir.lagrangeAtZero indices : Outcome ε _) = .ok lambdas ∧
      (Pedersen.lagrangeAtZero indices : Outcome ε _) = .ok lambdas ∧
      Frost.lagrangeCoefficients indices = lambdas :=
  ⟨indices.map fun id => weight (nodes indices) (Scalar.ofId id), lagrangeAtZero_eq h,
    Pedersen.lagrangeAtZero_eq h, Frost.lagrangeCoefficients_eq h⟩

/-- Three indices, zero among them. -/
theorem lagrange_agree_three :
    ∃ lambdas : List Scalar,
      (Shamir.lagrangeAtZero [4, 0, 1] : Outcome CryptoError _) = .ok lambdas ∧
      (Pedersen.lagrangeAtZero [4, 0, 1] : Outcome CryptoError _) = .ok lambdas ∧
      Frost.lagrangeCoefficients [4, 0, 1] = lambdas :=
  lagrange_agree (by decide)

end Sigimora
