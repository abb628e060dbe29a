import Sigimora.Library.Run
import Sigimora.Refresh.Contributions

/-!
# Successive refreshes

The calls on one party over any number of refreshes. Starting a refresh draws a new
polynomial and keeps the recorded contributions, and a contribution is recorded
whatever sender and epoch it names. So the sum is over fresh contributions of the
others as long as the messages are such, and only in the first refresh.
-/

namespace Sigimora.Refresh

open Pedersen

variable [Curve]

/-- A call on a party. -/
inductive RefreshCall
  | start (coins : ℕ → Scalar)
  | addContribution (contrib : RefreshContribution)
  | computeNewKey
  | applyRefresh (newKey : Scalar)

/-- The state after a call. -/
def RefreshState.call (state : RefreshState) : RefreshCall → RefreshState
  | .start coins => state.start coins
  | .addContribution contrib =>
    match state.addContribution contrib with
    | .ok next => next
    | .error _ => state
  | .computeNewKey => state
  | .applyRefresh newKey => state.applyRefresh newKey

/-- A party together with the contributions that it has accepted since the last start,
if there was one. -/
structure RefreshHistory where
  state : RefreshState
  sinceStart : Option (List RefreshContribution)

namespace RefreshHistory

/-- A new party. -/
def new (epoch : UInt64) (myKey : Scalar) (n t : ℕ) (myId : ParticipantId)
    (pedersen : PedersenSetup) : RefreshHistory where
  state := .new epoch myKey n t myId pedersen
  sinceStart := none

/-- The history after one more call. -/
def call (history : RefreshHistory) (call : RefreshCall) : RefreshHistory where
  state := history.state.call call
  sinceStart :=
    match call with
    | .start _ => some []
    | .addContribution contrib =>
      match history.state.addContribution contrib with
      | .ok _ => history.sinceStart.map (· ++ [contrib])
      | .error _ => history.sinceStart
    | _ => history.sinceStart

/-- The other participants. -/
def others (history : RefreshHistory) : List ParticipantId :=
  (participants history.state.n).erase history.state.myId

/-- Whenever there is a new key, the recorded contributions are one of each other
participant, of this epoch and accepted since the last start. -/
def SumsFresh (history : RefreshHistory) : Prop :=
  ∀ key, history.state.computeNewKey = .ok key →
    (history.state.contributions.map RefreshContribution.sender).Perm history.others ∧
    (∀ contrib ∈ history.state.contributions, contrib.epoch = history.state.epoch) ∧
    history.state.contributions = history.sinceStart.getD []

/-- A contribution that verifies comes after a start, from another participant that has
sent none yet, with the epoch of the party. A start finds no recorded contributions. -/
def FreshCall (history : RefreshHistory) : RefreshCall → Prop
  | .start _ => history.state.contributions = []
  | .addContribution contrib => history.state.verifyContribution contrib = .ok () →
    history.sinceStart ≠ none ∧ contrib.sender ∈ history.others ∧
      contrib.sender ∉ history.state.contributions.map RefreshContribution.sender ∧
      contrib.epoch = history.state.epoch
  | _ => True

/-- The recorded contributions are fresh ones of some of the others. -/
structure Fresh (history : RefreshHistory) : Prop where
  member : history.state.myId ∈ participants history.state.n
  small : history.state.n ≤ 65535
  distinct : (history.state.contributions.map RefreshContribution.sender).Nodup
  senders : ∀ contrib ∈ history.state.contributions, contrib.sender ∈ history.others
  epochs : ∀ contrib ∈ history.state.contributions, contrib.epoch = history.state.epoch
  recorded : history.state.contributions = history.sinceStart.getD []

variable {history : RefreshHistory}

/-- With enough of them, they are one of each other participant. -/
theorem Fresh.sumsFresh (h : history.Fresh) : history.SumsFresh := by
  intro key hkey
  refine ⟨?_, h.epochs, h.recorded⟩
  obtain ⟨expected, hsub, hcompute⟩ := Outcome.bind_eq_ok.mp hkey
  have hpos : 1 ≤ history.state.n := by
    have hid := (mem_participants h.small).mp h.member
    omega
  rw [Outcome.sub_of_le hpos, Except.ok.injEq] at hsub
  have henough : ¬ history.state.contributions.length < expected := by
    intro hfew
    rw [if_pos hfew] at hcompute
    cases hcompute
  have hlength : history.others.length = history.state.n - 1 := by
    rw [others, List.length_erase_of_mem h.member, length_participants h.small]
  refine (List.subperm_of_subset h.distinct ?_).perm_of_length_le ?_
  · intro sender hsender
    obtain ⟨contrib, hcontrib, rfl⟩ := List.mem_map.mp hsender
    exact h.senders contrib hcontrib
  · rw [hlength, List.length_map, hsub]
    omega

/-- An accepted contribution is recorded. -/
theorem call_addContribution {contrib : RefreshContribution} {next : RefreshState}
    (hadd : history.state.addContribution contrib = .ok next) :
    history.call (.addContribution contrib) =
      { state := next, sinceStart := history.sinceStart.map (· ++ [contrib]) } := by
  simp only [RefreshHistory.call, RefreshState.call, hadd]

/-- A fresh call keeps the history fresh. -/
theorem Fresh.call (h : history.Fresh) {call : RefreshCall} (hcall : history.FreshCall call) :
    (history.call call).Fresh := by
  cases call with
  | start coins =>
    have hnone : history.state.contributions = [] := hcall
    refine ⟨h.member, h.small, ?_, ?_, ?_, ?_⟩ <;>
      simp [RefreshHistory.call, RefreshState.call, RefreshState.start, hnone]
  | addContribution contrib =>
    cases hadd : history.state.addContribution contrib with
    | error e =>
      have hsame : history.call (.addContribution contrib) = history := by
        simp only [RefreshHistory.call, RefreshState.call, hadd]
      rwa [hsame]
    | ok next =>
      obtain ⟨_, hverify, _⟩ := Outcome.bind_eq_ok.mp hadd
      obtain ⟨hstarted, hsender, hnew, hepoch⟩ := hcall hverify
      obtain ⟨since, hsince⟩ := Option.ne_none_iff_exists'.mp hstarted
      have hnext := addContribution_eq_ok hadd
      have hmem {other : RefreshContribution}
          (hother : other ∈ history.state.contributions ++ [contrib]) :
          other ∈ history.state.contributions ∨ other = contrib :=
        (List.mem_append.mp hother).imp_right List.mem_singleton.mp
      rw [call_addContribution hadd, hsince]
      subst hnext
      refine ⟨h.member, h.small, ?_, ?_, ?_, ?_⟩
      · rw [List.map_append, List.map_singleton, ← List.concat_eq_append]
        exact h.distinct.concat hnew
      · intro other hother
        rcases hmem hother with hold | rfl
        · exact h.senders other hold
        · exact hsender
      · intro other hother
        rcases hmem hother with hold | rfl
        · exact h.epochs other hold
        · exact hepoch
      · have hrecorded := h.recorded
        rw [hsince, Option.getD_some] at hrecorded
        rw [Option.map_some, Option.getD_some, hrecorded]
  | computeNewKey => exact ⟨h.member, h.small, h.distinct, h.senders, h.epochs, h.recorded⟩
  | applyRefresh newKey => exact ⟨h.member, h.small, h.distinct, h.senders, h.epochs, h.recorded⟩

/-- **Fresh contributions.** A party whose contributions are fresh, and that starts no
refresh on top of recorded ones, sums one contribution of each other participant. -/
theorem sumsFresh_throughout {epoch : UInt64} {myKey : Scalar} {n t : ℕ} {myId : ParticipantId}
    {pedersen : PedersenSetup} (hn : n ≤ 65535) (hid : myId ∈ participants n)
    {calls : List RefreshCall}
    (hcalls : Run.Guarded RefreshHistory.call FreshCall (new epoch myKey n t myId pedersen) calls) :
    Run.Throughout RefreshHistory.call SumsFresh (new epoch myKey n t myId pedersen) calls := by
  have hnew : (new epoch myKey n t myId pedersen).Fresh := by
    refine ⟨hid, hn, ?_, ?_, ?_, ?_⟩ <;> simp [new, RefreshState.new]
  have hfresh :
      Run.Throughout RefreshHistory.call Fresh (new epoch myKey n t myId pedersen) calls :=
    Run.throughout_of_guarded (fun history call h hcall => h.call hcall) hnew hcalls
  exact fun done hdone => (hfresh done hdone).sumsFresh

/-! ## A second refresh -/

/-- A contribution of zero to a refresh between two parties. -/
def zeroContribution (sender : ParticipantId) : RefreshContribution :=
  dealtContribution 2 (unblinded PedersenSetup.deterministic [0]) sender 0

/-- The first of two parties. -/
def firstOfTwo : RefreshHistory := new 0 0 2 1 1 PedersenSetup.deterministic

theorem addContribution_zero (sender : ParticipantId) {state : RefreshState}
    (hid : state.myId ∈ participants 2) (hped : state.pedersen = PedersenSetup.deterministic) :
    state.addContribution (zeroContribution sender) = .ok { state with
      contributions := state.contributions ++ [zeroContribution sender]
      round := .committed } :=
  addContribution_dealt hped.symm (commitments_unblinded []) hid sender 0

omit [Curve] in
/-- A refresh with one contribution of the other party. -/
theorem sumsFresh_throughout_first_refresh :
    letI := exponentCurve
    Run.Throughout RefreshHistory.call SumsFresh firstOfTwo
      [.start fun _ => 0, .addContribution (zeroContribution 2), .computeNewKey,
        .applyRefresh 0] := by
  let := exponentCurve
  refine sumsFresh_throughout (by norm_num) (by decide) ?_
  refine Run.guarded_cons.mpr ⟨rfl, Run.guarded_cons.mpr ⟨?_, Run.guarded_cons.mpr ⟨trivial,
    Run.guarded_cons.mpr ⟨trivial, Run.guarded_nil⟩⟩⟩⟩
  exact fun _ => ⟨Option.some_ne_none _, by decide, List.not_mem_nil, rfl⟩

omit [Curve] in
/-- The second refresh sums the contribution of the first one again. -/
theorem second_refresh_sums_stale :
    letI := exponentCurve
    ¬ ∀ (epoch : UInt64) (myKey : Scalar) (n t : ℕ) (myId : ParticipantId)
      (pedersen : PedersenSetup), n ≤ 65535 → myId ∈ participants n →
      ∀ calls, Run.Throughout RefreshHistory.call SumsFresh
        (new epoch myKey n t myId pedersen) calls := by
  let := exponentCurve
  intro h
  have hsums : (Run.after RefreshHistory.call firstOfTwo
      [.start fun _ => 0, .addContribution (zeroContribution 2), .applyRefresh 0,
        .start fun _ => 0]).SumsFresh :=
    (h 0 0 2 1 1 PedersenSetup.deterministic (by norm_num) (by decide) _).last
  let started := (firstOfTwo.call (.start fun _ => 0)).state
  have hid : started.myId ∈ participants 2 := by decide
  have hadd := addContribution_zero 2 hid rfl
  rw [Run.after_cons, Run.after_cons, call_addContribution hadd] at hsums
  let last : RefreshState := { started with
    contributions := [zeroContribution 2]
    myKey := some 0 }
  have hpos : 1 ≤ last.n := by decide
  have hkey := computeNewKey_of_enough hpos le_rfl rfl
  have hstale := (hsums _ hkey).2.2
  cases hstale

end RefreshHistory

end Sigimora.Refresh
