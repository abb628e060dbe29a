import Sigimora.Refresh.Correctness

/-!
# Contributions of any degree

What a contributor may send to the parties of a refresh. A party checks its share
against the commitments and the first commitment against the identity, but it does
not count the commitments. So the accepted shares are the values of polynomials of
any degree, and the new keys combine to the old collective key exactly when the sum
of these polynomials looks like one of low degree that vanishes at zero.
-/

namespace Sigimora.Refresh

open Pedersen Shamir Interpolation

variable [Curve]

/-- A contributor, honest or not: the polynomials it commits to and what it sends to
each party. -/
structure Contributor where
  poly : PrivatePoly
  sends : ParticipantId → RefreshContribution

/-- The contributor sends the same commitments to all parties, and to each of them
its share. A party takes the first share with its id. -/
structure Contributor.Consistent (contributor : Contributor) (n : ℕ) (ped : PedersenSetup) :
    Prop where
  setup : contributor.poly.pedersen = ped
  published : ∀ j ∈ participants n,
    (contributor.sends j).vssPublic = contributor.poly.commit
  dealt : ∀ j ∈ participants n,
    ((contributor.sends j).shares.filter fun s => s.index = j).head? =
      some (contributor.poly.eval j)

/-- The party adds what the contributors send to it, in their order. -/
def RefreshState.addFamily (state : RefreshState) (family : List Contributor) :
    Outcome RefreshError RefreshState :=
  family.foldlM (fun state contributor =>
    state.addContribution (contributor.sends state.myId)) state

/-- All parties accept the family and compute new keys. -/
def FamilyApplied (epoch : UInt64) (n t : ℕ) (ped : PedersenSetup)
    (oldKeys newKeys : ParticipantId → Scalar) (coins : ParticipantId → ℕ → Scalar)
    (family : List Contributor) : Prop :=
  ∀ j ∈ participants n, ∃ state,
    (startedParty epoch n t ped oldKeys coins j).addFamily family = .ok state ∧
      state.computeNewKey = .ok (newKeys j)

/-- Every `t + 1` new keys combine to what the old ones combine to. -/
def KeyKept (n t : ℕ) (oldKeys newKeys : ParticipantId → Scalar) : Prop :=
  ∀ ids : List ParticipantId, ids.Nodup → (∀ id ∈ ids, id ∈ participants n) →
    ids.length = t + 1 → (lagrangeCombination ids newKeys : Outcome RefreshError Scalar) =
      lagrangeCombination ids oldKeys

/-- What the family adds to the key of the party `j`. -/
def familyDelta (family : List Contributor) (j : ParticipantId) : Scalar :=
  (family.map fun contributor => (contributor.poly.eval j).value).sum

variable {epoch : UInt64} {n t : ℕ} {ped : PedersenSetup} {oldKeys newKeys : ParticipantId → Scalar}
  {coins : ParticipantId → ℕ → Scalar} {family : List Contributor}

/-! ## What a party adds -/

/-- An accepted contribution is stored, and nothing else changes. -/
theorem addContribution_eq_ok {state state' : RefreshState} {contrib : RefreshContribution}
    (h : state.addContribution contrib = .ok state') :
    state' = { state with
      contributions := state.contributions ++ [contrib]
      round := .committed } := by
  obtain ⟨_, _, hpure⟩ := Outcome.bind_eq_ok.mp h
  exact (Except.ok.inj hpure).symm

/-- The accepted contributions are recorded, and the key waits for the sum. -/
theorem addFamily_eq_ok {state state' : RefreshState} (h : state.addFamily family = .ok state') :
    state'.contributions =
        state.contributions ++ family.map (fun contributor => contributor.sends state.myId) ∧
      state'.myKey = state.myKey ∧ state'.myId = state.myId := by
  induction family generalizing state with
  | nil =>
    cases h
    simp
  | cons contributor family ih =>
    rw [RefreshState.addFamily, List.foldlM_cons] at h
    obtain ⟨next, hadd, hrest⟩ := Outcome.bind_eq_ok.mp h
    have hnext := addContribution_eq_ok hadd
    obtain ⟨hcontributions, hkey, hid⟩ := ih hrest
    subst hnext
    exact ⟨by rw [hcontributions]; simp, hkey, hid⟩

/-- The new key is the old one plus the shares for it. -/
theorem computeNewKey_eq_ok {state : RefreshState} {key : Scalar}
    (h : state.computeNewKey = .ok key) : ∃ currentKey, state.myKey = some currentKey ∧
      key = currentKey + state.contributions.foldl (RefreshState.addDelta state.myId) 0 := by
  obtain ⟨expected, _, h⟩ := Outcome.bind_eq_ok.mp h
  split at h
  · cases h
  · cases hkey : state.myKey with
    | none =>
      rw [hkey] at h
      cases h
    | some currentKey =>
      rw [hkey] at h
      exact ⟨currentKey, rfl, (Except.ok.inj h).symm⟩

/-- With all contributions the new key is the old one plus their shares. -/
theorem computeNewKey_of_enough {state : RefreshState} {currentKey : Scalar} (hpos : 1 ≤ state.n)
    (henough : state.n - 1 ≤ state.contributions.length)
    (hkey : state.myKey = some currentKey) : state.computeNewKey =
      .ok (currentKey + state.contributions.foldl (RefreshState.addDelta state.myId) 0) := by
  have hsub : (Outcome.sub state.n 1 : Outcome RefreshError ℕ) = .ok (state.n - 1) :=
    Outcome.sub_of_le hpos
  rw [RefreshState.computeNewKey, hsub, Outcome.ok_bind, if_neg (by omega), hkey]
  rfl

/-- The recorded shares of consistent contributors add up to the family's values. -/
theorem foldl_addDelta_family {j : ParticipantId} (hj : j ∈ participants n)
    (hfamily : ∀ contributor ∈ family, contributor.Consistent n ped) (sum : Scalar) :
    (family.map fun contributor => contributor.sends j).foldl (RefreshState.addDelta j) sum =
      sum + familyDelta family j := by
  induction family generalizing sum with
  | nil => simp [familyDelta]
  | cons contributor family ih =>
    have hshare := (hfamily contributor List.mem_cons_self).dealt j hj
    obtain ⟨rest, hfilter⟩ := List.head?_eq_some_iff.mp hshare
    have hadd : RefreshState.addDelta j sum (contributor.sends j) =
        sum + (contributor.poly.eval j).value := by
      rw [RefreshState.addDelta, hfilter]
    rw [List.map_cons, List.foldl_cons, hadd,
      ih fun other hother => hfamily other (List.mem_cons_of_mem _ hother)]
    simp only [familyDelta, List.map_cons, List.sum_cons, add_assoc]

/-- The new keys of a family that is applied. -/
theorem FamilyApplied.newKeys_eq (h : FamilyApplied epoch n t ped oldKeys newKeys coins family)
    (hfamily : ∀ contributor ∈ family, contributor.Consistent n ped) {j : ParticipantId}
    (hj : j ∈ participants n) : newKeys j = oldKeys j + familyDelta family j := by
  obtain ⟨state, hadd, hcompute⟩ := h j hj
  obtain ⟨hcontributions, hkey, hid⟩ := addFamily_eq_ok hadd
  obtain ⟨currentKey, hcurrent, hnew⟩ := computeNewKey_eq_ok hcompute
  have hold : currentKey = oldKeys j := Option.some.inj (hcurrent.symm.trans hkey)
  have hmine : state.myId = j := hid
  have hrecorded : state.contributions = family.map fun contributor => contributor.sends j :=
    hcontributions
  rw [hnew, hold, hrecorded, hmine, foldl_addDelta_family hj hfamily, zero_add]

/-! ## Kept keys -/

omit [Curve] in
/-- Keys are kept when what is added to them combines to zero. -/
theorem keyKept_iff {delta : ParticipantId → Scalar}
    (hnew : ∀ j ∈ participants n, newKeys j = oldKeys j + delta j) :
    KeyKept n t oldKeys newKeys ↔
      Interpolates (nodes (participants n)) (t + 1) (fun x => delta (idOf x)) 0 := by
  rw [interpolates_iff (ε := RefreshError)]
  refine forall_congr' fun ids => forall_congr' fun hnodup => forall_congr' fun hmem =>
    forall_congr' fun _ => ?_
  have hsum : combine (nodes ids) (fun x => newKeys (idOf x)) =
      combine (nodes ids) (fun x => oldKeys (idOf x)) +
        combine (nodes ids) fun x => delta (idOf x) := by
    rw [← combine_add]
    refine combine_congr fun x hx => ?_
    obtain ⟨id, hid, rfl⟩ := mem_nodes.mp hx
    rw [idOf_ofId, hnew id (hmem id hid)]
  rw [lagrangeCombination_eq hnodup, lagrangeCombination_eq hnodup, lagrangeCombination_eq hnodup,
    hsum, Except.ok.injEq, Except.ok.injEq, add_eq_left]

omit [Curve] in
/-- Adding a value to each key keeps what they combine to exactly when the values are those
of a polynomial of degree at most `t` that vanishes at zero. -/
theorem keyKept_iff_polynomial {delta : ParticipantId → Scalar} (hn : n ≤ 65535) (ht : t + 1 ≤ n)
    (hnew : ∀ j ∈ participants n, newKeys j = oldKeys j + delta j) :
    KeyKept n t oldKeys newKeys ↔ ∃ q : Polynomial Scalar, q.degree ≤ t ∧ q.eval 0 = 0 ∧
      ∀ j ∈ participants n, q.eval (Scalar.ofId j) = delta j := by
  have hcard : t + 1 ≤ (nodes (participants n)).card := by
    rwa [card_nodes (nodup_participants n), length_participants hn]
  have hzero : (0 : Scalar) ∉ nodes (participants n) :=
    zero_notMem_nodes fun id hid => ne_zero_of_mem_participants hid
  rw [keyKept_iff hnew, interpolates_iff_exists_polynomial t.succ_pos hcard hzero]
  refine exists_congr fun q => and_congr ?_ (and_congr_right fun _ => ?_)
  · rw [Polynomial.degree_lt_iff_coeff_zero, Polynomial.degree_le_iff_coeff_zero]
    simp only [Nat.cast_lt, Nat.succ_le_iff]
  · constructor
    · intro h j hj
      rw [h _ (mem_nodes.mpr ⟨j, hj, rfl⟩), idOf_ofId]
    · intro h x hx
      obtain ⟨id, hid, rfl⟩ := mem_nodes.mp hx
      rw [idOf_ofId, h id hid]

/-- **Accepted contributions.** The keys after an accepted family combine to what the old
ones combine to exactly when the sum of the shared polynomials agrees on the ids of the
parties with a polynomial of degree at most `t` that vanishes at zero. -/
theorem keyKept_family_iff (hn : n ≤ 65535) (ht : t + 1 ≤ n)
    (hfamily : ∀ contributor ∈ family, contributor.Consistent n ped)
    (happlied : FamilyApplied epoch n t ped oldKeys newKeys coins family) :
    KeyKept n t oldKeys newKeys ↔ ∃ q : Polynomial Scalar, q.degree ≤ t ∧ q.eval 0 = 0 ∧
      ∀ j ∈ participants n, q.eval (Scalar.ofId j) = familyDelta family j :=
  keyKept_iff_polynomial hn ht fun _ hj => happlied.newKeys_eq hfamily hj

/-- Polynomials of at most `t + 1` coefficients that vanish at zero keep the key. -/
theorem keyKept_of_lowDegree (hn : n ≤ 65535) (ht : t + 1 ≤ n)
    (hfamily : ∀ contributor ∈ family, contributor.Consistent n ped)
    (happlied : FamilyApplied epoch n t ped oldKeys newKeys coins family)
    (hlow : ∀ contributor ∈ family,
      contributor.poly.coeffsF.length = contributor.poly.coeffsR.length ∧
      contributor.poly.coeffsF.length ≤ t + 1 ∧ contributor.poly.toPolynomial.eval 0 = 0) :
    KeyKept n t oldKeys newKeys := by
  refine (keyKept_iff_polynomial hn ht fun _ hj => happlied.newKeys_eq hfamily hj).mpr
    ⟨(family.map fun contributor => contributor.poly.toPolynomial).sum, ?_, ?_, ?_⟩
  · rw [← Polynomial.mem_degreeLE]
    refine list_sum_mem fun p hp => ?_
    obtain ⟨contributor, hmem, rfl⟩ := List.mem_map.mp hp
    have hdegree := Horner.degree_toPolynomial_lt contributor.poly.coeffsF
    rw [Polynomial.mem_degreeLE, Polynomial.degree_le_iff_coeff_zero]
    intro m hm
    refine Polynomial.coeff_eq_zero_of_degree_lt (lt_of_lt_of_le hdegree ?_)
    have hlt : t < m := Nat.cast_lt.mp hm
    exact Nat.cast_le.mpr ((hlow contributor hmem).2.1.trans hlt)
  · rw [Polynomial.eval_listSum, List.map_map]
    refine List.sum_eq_zero fun x hx => ?_
    obtain ⟨contributor, hmem, rfl⟩ := List.mem_map.mp hx
    exact (hlow contributor hmem).2.2
  · intro j _
    rw [Polynomial.eval_listSum, List.map_map, familyDelta]
    congr 1
    refine List.map_congr_left fun contributor hmem => ?_
    rw [PrivatePoly.eval_value (hlow contributor hmem).1, Function.comp_apply,
      PrivatePoly.toPolynomial, Horner.eval_toPolynomial]

/-! ## Dealers -/

/-- The contributor that deals the shares of its polynomials. -/
def dealer (n : ℕ) (epoch : UInt64) (poly : PrivatePoly) : Contributor where
  poly := poly
  sends := fun _ => dealtContribution n poly 1 epoch

/-- The contributions of a dealer are consistent. -/
theorem consistent_dealer (poly : PrivatePoly) :
    (dealer n epoch poly).Consistent n poly.pedersen where
  setup := rfl
  published := fun _ _ => rfl
  dealt := fun j hj => by
    rw [dealer, dealtContribution, filter_dealt poly hj, List.head?_cons]

/-- Contributions of polynomials that vanish at zero are accepted, whatever their degree. -/
theorem exists_addFamily_dealers {polys : List PrivatePoly} {state : RefreshState}
    (hid : state.myId ∈ participants n)
    (hpolys : ∀ poly ∈ polys, poly.pedersen = state.pedersen ∧
      ∃ rest, poly.commit.commitments = 0 :: rest) :
    ∃ state', state.addFamily (polys.map (dealer n epoch)) = .ok state' ∧
      state'.n = state.n := by
  induction polys generalizing state with
  | nil => exact ⟨state, rfl, rfl⟩
  | cons poly polys ih =>
    obtain ⟨hped, hzero⟩ := hpolys poly List.mem_cons_self
    let next : RefreshState := { state with
      contributions := state.contributions ++ [dealtContribution n poly 1 epoch]
      round := .committed }
    have hadd : state.addContribution (dealtContribution n poly 1 epoch) = .ok next :=
      addContribution_dealt hped hzero hid 1 epoch
    obtain ⟨state', hrest, hn⟩ := @ih next hid fun other hother =>
      hpolys other (List.mem_cons_of_mem _ hother)
    refine ⟨state', ?_, hn⟩
    rw [List.map_cons, RefreshState.addFamily, List.foldlM_cons, dealer, hadd, Outcome.ok_bind]
    exact hrest

/-- The contributions of dealers are applied if there are enough of them. -/
theorem familyApplied_dealers {polys : List PrivatePoly} (hpos : 1 ≤ n)
    (henough : n - 1 ≤ polys.length)
    (hpolys : ∀ poly ∈ polys, poly.pedersen = ped ∧ poly.coeffsF.length = poly.coeffsR.length ∧
      ∃ rest, poly.commit.commitments = 0 :: rest) :
    FamilyApplied epoch n t ped oldKeys
      (fun j => oldKeys j + familyDelta (polys.map (dealer n epoch)) j) coins
      (polys.map (dealer n epoch)) := by
  intro j hj
  obtain ⟨state, hadd, hsize⟩ : ∃ state, (startedParty epoch n t ped oldKeys coins j).addFamily
      (polys.map (dealer n epoch)) = .ok state ∧ state.n = n :=
    exists_addFamily_dealers hj fun poly hmem => ⟨(hpolys poly hmem).1, (hpolys poly hmem).2.2⟩
  obtain ⟨hcontributions, hkey, hid⟩ := addFamily_eq_ok hadd
  refine ⟨state, hadd, ?_⟩
  have hconsistent : ∀ contributor ∈ polys.map (dealer n epoch),
      contributor.Consistent n ped := by
    intro contributor hmem
    obtain ⟨poly, hpoly, rfl⟩ := List.mem_map.mp hmem
    rw [← (hpolys poly hpoly).1]
    exact consistent_dealer poly
  have hmine : state.myId = j := hid
  have hrecorded : state.contributions =
      (polys.map (dealer n epoch)).map fun contributor => contributor.sends j := hcontributions
  have hcount : state.n - 1 ≤ state.contributions.length := by
    rw [hrecorded, List.length_map, List.length_map, hsize]
    exact henough
  rw [computeNewKey_of_enough (by rwa [hsize]) hcount hkey, hrecorded, hmine,
    foldl_addDelta_family hj hconsistent, zero_add]

/-- The polynomials of these coefficients, without blinding. -/
def unblinded (ped : PedersenSetup) (coeffs : List Scalar) : PrivatePoly where
  coeffsF := coeffs
  coeffsR := coeffs.map fun _ => 0
  pedersen := ped

/-- Without blinding, the first commitment to a sharing of zero is the identity. -/
theorem commitments_unblinded (coeffs : List Scalar) :
    ∃ rest, (unblinded ped (0 :: coeffs)).commit.commitments = 0 :: rest := by
  have hzero : ped.commit 0 0 = 0 := by
    rw [PedersenSetup.commit, zero_smul, zero_smul, add_zero]
  rw [← hzero]
  exact ⟨_, rfl⟩

/-- The contributions that deal the two polynomials with these further coefficients. -/
def twoDealers (epoch : UInt64) (ped : PedersenSetup) (first second : List Scalar) :
    List Contributor :=
  [unblinded ped (0 :: first), unblinded ped (0 :: second)].map (dealer 3 epoch)

/-- So are those of two dealers. -/
theorem consistent_twoDealers (first second : List Scalar) :
    ∀ contributor ∈ twoDealers epoch ped first second, contributor.Consistent 3 ped := by
  intro contributor hmem
  obtain ⟨poly, hpoly, rfl⟩ := List.mem_map.mp hmem
  rcases List.mem_pair.mp hpoly with rfl | rfl <;> exact consistent_dealer _

/-- Two contributors are enough for a refresh among three parties. -/
theorem familyApplied_twoDealers (first second : List Scalar) :
    FamilyApplied epoch 3 t ped oldKeys
      (fun j => oldKeys j + familyDelta (twoDealers epoch ped first second) j) coins
      (twoDealers epoch ped first second) := by
  refine familyApplied_dealers (by norm_num) le_rfl ?_
  intro poly hpoly
  rcases List.mem_pair.mp hpoly with rfl | rfl <;>
    exact ⟨rfl, (List.length_map _).symm, commitments_unblinded _⟩

theorem familyDelta_twoDealers (first second : List Scalar) (j : ParticipantId) :
    familyDelta (twoDealers epoch ped first second) j =
      Horner.eval (Scalar.ofId j) (0 :: first) + Horner.eval (Scalar.ofId j) (0 :: second) := by
  have heval (coeffs : List Scalar) :
      ((unblinded ped coeffs).eval j).value = Horner.eval (Scalar.ofId j) coeffs := by
    have hlength : (unblinded ped coeffs).coeffsF.length =
        (unblinded ped coeffs).coeffsR.length := (List.length_map _).symm
    exact PrivatePoly.eval_value hlength j
  simp only [familyDelta, twoDealers, List.map_cons, List.map_nil, dealer, heval, List.sum_cons,
    List.sum_nil, add_zero]

omit [Curve] in
/-- Three parties accept the polynomials `x` and `2 x`. -/
theorem keyKept_family_iff_linear :
    letI := exponentCurve
    let family := twoDealers 0 PedersenSetup.deterministic [1] [1 + 1]
    KeyKept 3 1 (fun _ => 1) (fun j => 1 + familyDelta family j) ↔
      ∃ q : Polynomial Scalar, q.degree ≤ (1 : ℕ) ∧ q.eval 0 = 0 ∧
        ∀ j ∈ participants 3, q.eval (Scalar.ofId j) = familyDelta family j := by
  let := exponentCurve
  intro family
  have happlied : FamilyApplied 0 3 1 PedersenSetup.deterministic (fun _ => 1)
      (fun j => 1 + familyDelta family j) (fun _ _ => 0) family := familyApplied_twoDealers _ _
  exact keyKept_family_iff (by norm_num) (by norm_num) (consistent_twoDealers _ _) happlied

omit [Curve] in
/-- One of the three parties deals the polynomial `x ^ 2`, although `t = 1`. -/
theorem quadratic_contribution_changes_key :
    letI := exponentCurve
    ¬ ∀ (epoch : UInt64) (n t : ℕ) (ped : PedersenSetup)
      (oldKeys newKeys : ParticipantId → Scalar) (coins : ParticipantId → ℕ → Scalar)
      (family : List Contributor), n ≤ 65535 → t + 1 ≤ n →
      (∃ p : Polynomial Scalar, p.degree ≤ t ∧
        ∀ j ∈ participants n, oldKeys j = p.eval (Scalar.ofId j)) →
      (∀ contributor ∈ family, contributor.Consistent n ped) →
      FamilyApplied epoch n t ped oldKeys newKeys coins family →
      KeyKept n t oldKeys newKeys := by
  let := exponentCurve
  intro h
  let ped := PedersenSetup.deterministic
  let family := twoDealers 0 ped [0, 1] []
  have happlied : FamilyApplied 0 3 1 ped (fun _ => 1) (fun j => 1 + familyDelta family j)
      (fun _ _ => 0) family := familyApplied_twoDealers _ _
  have hconsistent : ∀ contributor ∈ family, contributor.Consistent 3 ped :=
    consistent_twoDealers _ _
  have hkept := h 0 3 1 ped _ _ _ family (by norm_num) (by norm_num)
    ⟨Polynomial.C 1, Polynomial.degree_C_le.trans (by norm_num),
      fun _ _ => Polynomial.eval_C.symm⟩ hconsistent happlied
  obtain ⟨q, hdegree, hzero, hvalues⟩ :=
    (keyKept_iff_polynomial (by norm_num) (by norm_num) fun _ _ => rfl).mp hkept
  have hlinear : q = Polynomial.C (q.coeff 1) * Polynomial.X + Polynomial.C (q.coeff 0) :=
    Polynomial.eq_X_add_C_of_degree_le_one hdegree
  have hone : q.eval (Scalar.ofId 1) = familyDelta (twoDealers 0 ped [0, 1] []) 1 :=
    hvalues 1 (by decide)
  have htwo : q.eval (Scalar.ofId 2) = familyDelta (twoDealers 0 ped [0, 1] []) 2 :=
    hvalues 2 (by decide)
  rw [familyDelta_twoDealers, hlinear] at hone htwo
  rw [hlinear] at hzero
  have hconstant : q.coeff 0 = 0 := by simpa using hzero
  have hslope : q.coeff 1 = 1 := by
    simpa [Horner.eval_cons, Scalar.ofId_eq_natCast, hconstant] using hone
  have hids : Scalar.ofId 2 = Scalar.ofId 2 * Scalar.ofId 2 := by
    simpa [Horner.eval_cons, hconstant, hslope] using htwo
  have hfour : Scalar.ofId 2 * Scalar.ofId 2 = Scalar.ofId 4 := by
    simp only [Scalar.ofId_eq_natCast, ← Nat.cast_mul]
    rfl
  exact absurd (Scalar.ofId_injective (hids.trans hfour)) (by decide)

end Sigimora.Refresh
