import Sigimora.Crypto.Feldman

/-!
# Refreshing a list of shares

`distributedRefresh` adds to every share the value of a line through the origin.
A new line is drawn for each share, so the secret survives only if the slopes
that are drawn fit together.
-/

namespace Sigimora.Frost

open Interpolation Shamir Feldman Polynomial

/-- A random polynomial that vanishes at zero. -/
def createRefreshPolyWithZeroConstant (degree : ℕ) (coins : ℕ → Scalar) : PrivatePoly :=
  PrivatePoly.randomWithZeroConstant degree coins

/-- Add to each share the value of a random polynomial that vanishes at zero; each round of the
loop draws the next `degree - 1` coins. -/
def distributedRefresh (allShares : List (ParticipantId × Share)) (coins : ℕ → Scalar) :
    Outcome CryptoError (List (ParticipantId × Share)) :=
  if allShares.isEmpty then Outcome.fail (.invalidParameter "no shares")
  else
    let degree := 2
    allShares.zipIdx.mapM fun entry => do
      let (pid, share) := entry.1
      let refreshPoly := createRefreshPolyWithZeroConstant degree fun j =>
        coins (entry.2 * (degree - 1) + j)
      let refreshShare ← refreshPoly.eval pid
      let newValue := share.value + refreshShare.value
      return (pid, { index := pid, value := newValue })

/-- The share at position `k` moves up by the `k`-th coin times its index. -/
theorem distributedRefresh_eq_ok {allShares : List (ParticipantId × Share)} (hne : allShares ≠ [])
    (coins : ℕ → Scalar) :
    distributedRefresh allShares coins = .ok (allShares.zipIdx.map fun entry =>
      (entry.1.1, ⟨entry.1.1, entry.1.2.value + Scalar.ofId entry.1.1 * coins entry.2⟩)) := by
  have hempty : ¬ allShares.isEmpty = true := by simpa using hne
  rw [distributedRefresh, if_neg hempty]
  refine Outcome.mapM_eq_ok fun entry _ => ?_
  have hline : (sharingPolynomial 0 2 fun j => coins (entry.2 * (2 - 1) + j)).eval
      (Scalar.ofId entry.1.1) = Scalar.ofId entry.1.1 * coins entry.2 := by
    rw [sharingPolynomial, Horner.eval_toPolynomial]
    change 0 + Scalar.ofId entry.1.1 * (coins (entry.2 * 1 + 0) + Scalar.ofId entry.1.1 • 0) = _
    rw [smul_zero, add_zero, zero_add, add_zero, mul_one]
  simp only [createRefreshPolyWithZeroConstant, PrivatePoly.randomWithZeroConstant,
    PrivatePoly.randomWithSecret_eval, hline, Outcome.ok_bind, Outcome.pure_eq_ok]

/-- The list that a refresh of `shares` returns reconstructs what `shares` did, from any `t` of
its entries or more. -/
structure RefreshKeepsSecret (t : ℕ) (shares : List Share) (coins : ℕ → Scalar) : Prop where
  returns : shares ≠ [] →
    ∃ refreshed, distributedRefresh (shares.map fun share => (share.index, share)) coins =
      .ok refreshed
  reconstructs : ∀ refreshed,
    distributedRefresh (shares.map fun share => (share.index, share)) coins = .ok refreshed →
    ∀ chosen : List (ParticipantId × Share), chosen.Sublist refreshed → t ≤ chosen.length →
      ∃ secret, reconstruct shares = .ok secret ∧
        reconstruct (chosen.map Prod.snd) = .ok secret

variable {t : ℕ} {shares : List Share} {coins : ℕ → Scalar} {p : Scalar[X]}

/-- The slope that is drawn for a participant. -/
def slope (shares : List Share) (coins : ℕ → Scalar) (id : ParticipantId) : Scalar :=
  coins ((shares.map Share.index).idxOf id)

theorem slope_index (hnodup : (shares.map Share.index).Nodup) {entry : Share × ℕ}
    (hentry : entry ∈ shares.zipIdx) : slope shares coins entry.1.index = coins entry.2 := by
  obtain ⟨share, k⟩ := entry
  have hget := List.mk_mem_zipIdx_iff_getElem?.mp hentry
  obtain ⟨hk, hshare⟩ := List.getElem?_eq_some_iff.mp hget
  have hk : k < (shares.map Share.index).length := by rwa [List.length_map]
  have hindex : (shares.map Share.index)[k] = share.index := by rw [List.getElem_map, hshare]
  rw [slope, ← hindex, hnodup.idxOf_getElem k hk]

/-- The refreshed shares in terms of the polynomial that the shares lie on. -/
theorem distributedRefresh_shares (hne : shares ≠ []) (hnodup : (shares.map Share.index).Nodup)
    (hvalue : ∀ share ∈ shares, share.value = p.eval (Scalar.ofId share.index)) :
    distributedRefresh (shares.map fun share => (share.index, share)) coins =
      .ok ((shares.map Share.index).map fun id =>
        (id, ⟨id, p.eval (Scalar.ofId id) + Scalar.ofId id * slope shares coins id⟩)) := by
  have hindices : shares.map Share.index = shares.zipIdx.map fun entry => entry.1.index := by
    conv_lhs => rw [← List.zipIdx_map_fst 0 shares, List.map_map]
    rfl
  conv_rhs => rw [hindices]
  rw [distributedRefresh_eq_ok (by simpa using hne), List.zipIdx_map, List.map_map, List.map_map]
  congr 1
  refine List.map_congr_left fun entry hentry => ?_
  simp only [Function.comp_apply, Prod.map_fst, Prod.map_snd, id_eq, slope_index hnodup hentry,
    hvalue _ (List.fst_mem_of_mem_zipIdx hentry)]

/-- The slopes as values at the nodes. -/
theorem slopes_iff (hnodup : (shares.map Share.index).Nodup) {q : Scalar[X]} :
    (∀ entry ∈ shares.zipIdx, q.eval (Scalar.ofId entry.1.index) = coins entry.2) ↔
      ∀ x ∈ nodes (shares.map Share.index), q.eval x = slope shares coins (idOf x) := by
  constructor
  · intro h x hx
    obtain ⟨id, hid, rfl⟩ := mem_nodes.mp hx
    obtain ⟨share, hshare, rfl⟩ := List.mem_map.mp hid
    obtain ⟨k, hk⟩ := List.mem_iff_getElem?.mp hshare
    have hentry : (share, k) ∈ shares.zipIdx := List.mk_mem_zipIdx_iff_getElem?.mpr hk
    rw [idOf_ofId, h _ hentry]
    exact (slope_index hnodup hentry).symm
  · intro h entry hentry
    have hmem : entry.1.index ∈ shares.map Share.index :=
      List.mem_map_of_mem (List.fst_mem_of_mem_zipIdx hentry)
    rw [h _ (mem_nodes.mpr ⟨_, hmem, rfl⟩), idOf_ofId, slope_index hnodup hentry]

/-- The value that a participant's share is moved to. -/
noncomputable def moved (p : Scalar[X]) (shares : List Share) (coins : ℕ → Scalar)
    (id : ParticipantId) : Scalar :=
  p.eval (Scalar.ofId id) + Scalar.ofId id * slope shares coins id

/-- If the secret survives, the moved values interpolate to it. -/
theorem RefreshKeepsSecret.interpolates (h : RefreshKeepsSecret t shares coins) (ht : 1 ≤ t)
    (hsize : t ≤ shares.length) (hnodup : (shares.map Share.index).Nodup)
    (hdegree : p.degree < t)
    (hvalue : ∀ share ∈ shares, share.value = p.eval (Scalar.ofId share.index)) :
    Interpolates (nodes (shares.map Share.index)) t (fun x => moved p shares coins (idOf x))
      (p.eval 0) := by
  have hne : shares ≠ [] := List.ne_nil_of_length_pos (lt_of_lt_of_le ht hsize)
  have hsecret : reconstruct shares = .ok (p.eval 0) :=
    reconstruct_eq_ok hne hnodup (lt_of_lt_of_le hdegree (by exact_mod_cast hsize)) hvalue
  intro s hs hcard
  obtain ⟨chosen, hsublist, hdistinct, rfl⟩ := exists_sublist_nodes hs
  rw [card_nodes hdistinct] at hcard
  have hchosen : chosen ≠ [] := List.ne_nil_of_length_pos (by omega)
  obtain ⟨secret, hold, hnew⟩ := h.reconstructs _ (distributedRefresh_shares hne hnodup hvalue) _
    (hsublist.map _) (by rw [List.length_map, hcard])
  rw [hsecret, Except.ok.injEq] at hold
  rw [List.map_map] at hnew
  have hcombine := (reconstruct_map hdistinct hchosen (moved p shares coins)).symm.trans hnew
  rw [Except.ok.injEq] at hcombine
  rw [hcombine, hold]

/-- If the moves are the values of a polynomial of low degree through the origin, the secret
survives. -/
theorem refreshKeepsSecret_of_polynomial {u : Scalar[X]} (ht : 1 ≤ t)
    (hnodup : (shares.map Share.index).Nodup) (hdegree : p.degree < t)
    (hvalue : ∀ share ∈ shares, share.value = p.eval (Scalar.ofId share.index))
    (hu : u.degree < t) (horigin : u.eval 0 = 0)
    (hmoves : ∀ x ∈ nodes (shares.map Share.index), u.eval x = x * slope shares coins (idOf x)) :
    RefreshKeepsSecret t shares coins := by
  refine ⟨fun hne => ⟨_, distributedRefresh_shares hne hnodup hvalue⟩, ?_⟩
  intro refreshed hrefreshed chosen hchosen hsize
  have hne : shares ≠ [] := by
    rintro rfl
    cases hrefreshed
  rw [distributedRefresh_shares hne hnodup hvalue, Except.ok.injEq] at hrefreshed
  subst hrefreshed
  have hlength : t ≤ shares.length := by
    have hshorter := hchosen.length_le
    rw [List.length_map, List.length_map] at hshorter
    exact hsize.trans hshorter
  refine ⟨p.eval 0, reconstruct_eq_ok hne hnodup
    (lt_of_lt_of_le hdegree (by exact_mod_cast hlength)) hvalue, ?_⟩
  obtain ⟨kept, hkept, rfl⟩ := List.sublist_map_iff.mp hchosen
  rw [List.length_map] at hsize
  have hdistinct : kept.Nodup := hkept.nodup hnodup
  have hlow : (p + u).degree < (nodes kept).card := by
    rw [card_nodes hdistinct]
    exact lt_of_lt_of_le (lt_of_le_of_lt (degree_add_le _ _) (max_lt hdegree hu))
      (by exact_mod_cast hsize)
  have hmoved : ∀ x ∈ nodes kept, moved p shares coins (idOf x) = (p + u).eval x := by
    intro x hx
    obtain ⟨id, hid, rfl⟩ := mem_nodes.mp hx
    rw [eval_add, hmoves _ (mem_nodes.mpr ⟨id, hkept.subset hid, rfl⟩), idOf_ofId, moved]
  rw [List.map_map]
  refine (reconstruct_map hdistinct (List.ne_nil_of_length_pos (by omega))
    (moved p shares coins)).trans ?_
  rw [combine_congr hmoved, combine_eval hlow, eval_add, horigin, add_zero]

/-- **Refresh of a list.** The secret survives exactly if the drawn slopes are the values of one
polynomial whose degree is lower by one. -/
theorem refreshKeepsSecret_iff (ht : 1 ≤ t) (hnodup : (shares.map Share.index).Nodup)
    (hindex : ∀ share ∈ shares, share.index ≠ 0) (hdegree : p.degree < t)
    (hvalue : ∀ share ∈ shares, share.value = p.eval (Scalar.ofId share.index)) :
    RefreshKeepsSecret t shares coins ↔
      ∃ q : Scalar[X], q.degree < ((t - 1 : ℕ) : WithBot ℕ) ∧
        ∀ entry ∈ shares.zipIdx, q.eval (Scalar.ofId entry.1.index) = coins entry.2 := by
  have hzero : (0 : Scalar) ∉ nodes (shares.map Share.index) := by
    refine zero_notMem_nodes fun id hid => ?_
    obtain ⟨share, hshare, rfl⟩ := List.mem_map.mp hid
    exact hindex share hshare
  have hcard : (nodes (shares.map Share.index)).card = shares.length := by
    rw [card_nodes hnodup, List.length_map]
  simp only [slopes_iff hnodup]
  constructor
  · intro h
    by_cases hsize : t ≤ shares.length
    · have hinterpolates := h.interpolates ht hsize hnodup hdegree hvalue
      obtain ⟨r, hr, hrzero, hrvalues⟩ :=
        hinterpolates.exists_polynomial ht (by rwa [hcard]) hzero
      refine (exists_polynomial_mul_iff hzero).mp ⟨r - p, ?_, ?_, fun x hx => ?_⟩
      · rw [Nat.sub_add_cancel ht]
        exact lt_of_le_of_lt (degree_sub_le _ _) (max_lt hr hdegree)
      · rw [eval_sub, hrzero, sub_self]
      · obtain ⟨id, _, rfl⟩ := mem_nodes.mp hx
        rw [eval_sub, hrvalues _ hx, idOf_ofId, moved, add_sub_cancel_left]
    · -- fewer shares than the threshold: every choice of slopes is interpolated
      refine ⟨Lagrange.interpolate (nodes (shares.map Share.index)) id fun x =>
        slope shares coins (idOf x), ?_,
        fun x hx => Lagrange.eval_interpolate_at_node _ (Set.injOn_id _) hx⟩
      refine lt_of_lt_of_le (Lagrange.degree_interpolate_lt _ (Set.injOn_id _)) ?_
      rw [hcard]
      exact_mod_cast (by omega : shares.length ≤ t - 1)
  · intro hslopes
    obtain ⟨u, hu, horigin, hmoves⟩ := (exists_polynomial_mul_iff hzero).mpr hslopes
    rw [Nat.sub_add_cancel ht] at hu
    exact refreshKeepsSecret_of_polynomial ht hnodup hdegree hvalue hu horigin hmoves

/-- Two shares of the secret 5 that are refreshed with one slope. -/
theorem refreshKeepsSecret_iff_two :
    RefreshKeepsSecret 2 [⟨1, 5⟩, ⟨2, 5⟩] (fun _ => 7) ↔
      ∃ q : Scalar[X], q.degree < ((2 - 1 : ℕ) : WithBot ℕ) ∧
        ∀ entry ∈ ([⟨1, 5⟩, ⟨2, 5⟩] : List Share).zipIdx,
          q.eval (Scalar.ofId entry.1.index) = 7 :=
  refreshKeepsSecret_iff one_le_two (by decide) (by decide)
    (lt_of_le_of_lt (degree_C_le (a := 5)) (by norm_num)) (by simp)

/-- Two shares of the secret 5 that are refreshed with two slopes are shares of another secret. -/
theorem refresh_with_two_slopes_changes_secret :
    ¬ RefreshKeepsSecret 2 [⟨1, 5⟩, ⟨2, 5⟩] fun k => k := by
  intro h
  have htwo : Scalar.ofId 2 = 2 := by rw [Scalar.ofId_eq_natCast]; rfl
  have hrefreshed : distributedRefresh [(1, ⟨1, 5⟩), (2, ⟨2, 5⟩)] (fun k => k) =
      .ok [(1, ⟨1, 5⟩), (2, ⟨2, 7⟩)] := by
    rw [distributedRefresh_eq_ok (List.cons_ne_nil _ _)]
    simp only [List.zipIdx_cons, List.zipIdx_nil, List.map_cons, List.map_nil, htwo]
    norm_num
  obtain ⟨secret, hold, hnew⟩ :=
    h.reconstructs _ hrefreshed _ (List.Sublist.refl _) le_rfl
  have hfive : reconstruct [⟨1, 5⟩, ⟨2, 5⟩] = .ok 5 := by
    refine (reconstruct_eq_ok (p := C 5) (List.cons_ne_nil _ _) (by decide) ?_ ?_).trans ?_
    · exact lt_of_le_of_lt degree_C_le (by norm_num)
    · simp
    · rw [eval_C]
  -- the refreshed shares lie on `3 + 2x`
  have hthree : reconstruct [⟨1, 5⟩, ⟨2, 7⟩] = .ok 3 := by
    have hone : Scalar.ofId 1 = 1 := by rw [Scalar.ofId_eq_natCast]; rfl
    refine (reconstruct_eq_ok (p := Horner.toPolynomial [3, 2]) (List.cons_ne_nil _ _) (by decide)
      (Horner.degree_toPolynomial_lt _) ?_).trans ?_
    · intro share hshare
      rcases List.mem_pair.mp hshare with rfl | rfl
      · rw [Horner.eval_toPolynomial, hone]
        simp only [Horner.eval_cons, Horner.eval_nil, smul_eq_mul]
        norm_num
      · rw [Horner.eval_toPolynomial, htwo]
        simp only [Horner.eval_cons, Horner.eval_nil, smul_eq_mul]
        norm_num
    · rw [Horner.eval_toPolynomial, Horner.eval_zero_cons]
  rw [hfive] at hold
  have hsame := hnew.symm.trans hthree
  rw [← hold] at hsame
  exact absurd (Except.ok.inj hsame) (by decide)

end Sigimora.Frost
