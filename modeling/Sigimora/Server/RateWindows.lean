import Mathlib.Data.List.Induction
import Sigimora.Server.RateLimiter

/-!
# What the limiter counts

The calls of an address fall into windows: a call is counted with the calls before it
unless its window is over, and then it starts the next one. The limiter keeps only the
number of admitted calls and the start of the current window, which is enough to decide
as if it kept the calls. A limit of zero admits nothing, although it is documented to
turn the limiter off.
-/

namespace Sigimora.Server

/-! ## Windows -/

namespace RateWindows

/-- The calls of a window, with their times and whether they were allowed, that a call at an instant
is counted with: none if the window is over. -/
def openAt (secs now : ℕ) (calls : List (ℕ × Bool)) : List (ℕ × Bool) :=
  match calls with
  | [] => []
  | first :: rest => if asSecs (now - first.1) ≥ secs then [] else first :: rest

/-- The current window after one more call. -/
def add (secs : ℕ) (calls : List (ℕ × Bool)) (made : ℕ × Bool) : List (ℕ × Bool) :=
  openAt secs made.1 calls ++ [made]

/-- The current window after the calls of an address. -/
def current (secs : ℕ) (past : List (ℕ × Bool)) : List (ℕ × Bool) := past.foldl (add secs) []

/-- The number of allowed calls. -/
def allowed (calls : List (ℕ × Bool)) : ℕ := calls.countP Prod.snd

/-- When a window started, if a call at an instant is counted in it. -/
def start (now : ℕ) (calls : List (ℕ × Bool)) : ℕ := (calls.head?.map Prod.fst).getD now

/-- What the limiter keeps of a window. -/
def kept (calls : List (ℕ × Bool)) : Option Window :=
  calls.head?.map fun first => { count := allowed calls, start := first.1 }

variable {secs now : ℕ} {calls past : List (ℕ × Bool)}

/-- The window is brought forward call by call. -/
theorem current_append (made : ℕ × Bool) :
    current secs (past ++ [made]) = add secs (current secs past) made :=
  List.foldl_append

/-- What is kept counts the last call, if that was allowed. -/
theorem kept_append (made : ℕ × Bool) : kept (calls ++ [made]) =
    some { count := allowed calls + if made.2 then 1 else 0, start := start made.1 calls } := by
  have hcount : allowed (calls ++ [made]) = allowed calls + if made.2 then 1 else 0 := by
    rw [allowed, List.countP_append, List.countP_singleton, allowed]
  cases calls with
  | nil => rw [kept, hcount]; rfl
  | cons first rest => rw [kept, hcount]; rfl

end RateWindows

open RateWindows

namespace RateLimiter

/-- The limiter after calls. -/
def after (limiter : RateLimiter) (calls : List RateCall) : RateLimiter :=
  Run.after (fun limiter made => (limiter.call made).2) limiter calls

/-- The calls of an address among calls, with their times and whether they are allowed. -/
def callsOf (ip : IpAddr) (limiter : RateLimiter) : List RateCall → List (ℕ × Bool)
  | [] => []
  | made :: rest =>
    (if made.ip = ip then [(made.now, (limiter.call made).1)] else []) ++
      (limiter.call made).2.callsOf ip rest

variable {limiter : RateLimiter} {ip : IpAddr} {now : ℕ} {calls : List RateCall}

/-- A run goes on from where the earlier part of it has ended. -/
theorem after_append (more : List RateCall) :
    limiter.after (calls ++ more) = (limiter.after calls).after more :=
  Run.after_append more

/-- The calls of a client, call by call. -/
theorem callsOf_append (made : RateCall) : limiter.callsOf ip (calls ++ [made]) =
    limiter.callsOf ip calls ++
      if made.ip = ip then [(made.now, ((limiter.after calls).call made).1)] else [] := by
  induction calls generalizing limiter with
  | nil => exact List.append_nil _
  | cons first calls ih => rw [List.cons_append, callsOf, ih, callsOf, List.append_assoc]; rfl

/-- No calls change the limit. -/
@[simp] theorem maxRequests_after (limiter : RateLimiter) (calls : List RateCall) :
    (limiter.after calls).maxRequests = limiter.maxRequests := by
  induction calls generalizing limiter with
  | nil => rfl
  | cons made calls ih => exact (ih _).trans (maxRequests_call made)

/-- No calls change the length of the windows. -/
@[simp] theorem windowSecs_after (limiter : RateLimiter) (calls : List RateCall) :
    (limiter.after calls).windowSecs = limiter.windowSecs := by
  induction calls generalizing limiter with
  | nil => rfl
  | cons made calls ih => exact (ih _).trans (windowSecs_call made)

/-! ## The stored windows -/

/-- The window of a call, for a limiter that keeps the window of its address. -/
theorem window_of_kept {window : List (ℕ × Bool)} (h : limiter.inner.lookup ip = kept window)
    (now : ℕ) : limiter.window ip now =
      { count := allowed (openAt limiter.windowSecs now window)
        start := start now (openAt limiter.windowSecs now window) } := by
  cases window with
  | nil => exact window_of_none h
  | cons first rest =>
    rw [window_of_some h, openAt]
    split <;> rfl

/-- A call is counted in its window. -/
theorem lookup_call {windows : IpAddr → List (ℕ × Bool)}
    (h : ∀ ip, limiter.inner.lookup ip = kept (windows ip)) (made : RateCall) (ip : IpAddr) :
    (limiter.call made).2.inner.lookup ip = kept (if made.ip = ip then
      add limiter.windowSecs (windows ip) (made.now, (limiter.call made).1) else windows ip) := by
  rw [call_eq_check, check_snd, lookup_store, window_of_kept (h made.ip)]
  by_cases hip : made.ip = ip
  · rw [if_pos hip.symm, if_pos hip, add, kept_append, hip]
  · rw [if_neg (Ne.symm hip), if_neg hip, h]

/-- The limiter keeps of every address its current window. -/
theorem lookup_after (maxRequests windowSecs : ℕ) (calls : List RateCall) (ip : IpAddr) :
    ((new maxRequests windowSecs).after calls).inner.lookup ip =
      kept (current windowSecs ((new maxRequests windowSecs).callsOf ip calls)) := by
  induction calls using List.reverseRecOn generalizing ip with
  | nil => rfl
  | append_singleton calls made ih =>
    rw [after_append, callsOf_append]
    refine (lookup_call ih made ip).trans (congrArg kept ?_)
    rw [windowSecs_after]
    split
    · rw [current_append]
      rfl
    · rw [List.append_nil]

/-! ## The calls that are left -/

/-- As long as its window lasts, an address is allowed as many calls as are left in it. -/
theorem callsOf_of_window {window : Window} (h : limiter.inner.lookup ip = some window)
    (hinside : ∀ made ∈ calls, made.ip = ip →
      asSecs (made.now - window.start) < limiter.windowSecs) :
    (limiter.callsOf ip calls).map Prod.snd =
      (List.range (limiter.callsOf ip calls).length).map
        fun i => decide (i < limiter.maxRequests - window.count) := by
  induction calls generalizing limiter window with
  | nil => rfl
  | cons made calls ih =>
    obtain ⟨hfirst, hrest⟩ := List.forall_mem_cons.mp hinside
    have hlookup : (limiter.call made).2.inner.lookup ip = if ip = made.ip then
          some ⟨(limiter.window made.ip made.now).count + if (limiter.call made).1 then 1 else 0,
            (limiter.window made.ip made.now).start⟩
        else limiter.inner.lookup ip := by
      rw [call_eq_check, check_snd, lookup_store]
    by_cases hip : made.ip = ip
    · have hwindow : limiter.window ip made.now = window := by
        rw [window_of_some h, if_neg (Nat.not_le.mpr (hfirst hip))]
      rw [if_pos hip.symm, hip, hwindow] at hlookup
      have hlater := ih hlookup (by rwa [windowSecs_call])
      have hallowed : (limiter.call made).1 = decide (window.count < limiter.maxRequests) := by
        rw [Bool.eq_iff_iff, decide_eq_true_iff, call_eq_check, check_fst, hip, hwindow]
      rw [callsOf, if_pos hip, List.singleton_append, List.map_cons, hlater, List.length_cons,
        List.range_succ_eq_map, List.map_cons, List.map_map, maxRequests_call, hallowed]
      refine congrArg₂ List.cons (decide_eq_decide.mpr (by omega)) (List.map_congr_left ?_)
      intro i _
      rw [Function.comp_apply, decide_eq_decide]
      dsimp only
      by_cases hroom : window.count < limiter.maxRequests
      · rw [decide_eq_true hroom, if_pos rfl]
        omega
      · rw [decide_eq_false hroom, if_neg Bool.false_ne_true]
        omega
    · rw [if_neg (Ne.symm hip), h] at hlookup
      rw [callsOf, if_neg hip, List.nil_append, ih hlookup (by rwa [windowSecs_call]),
        maxRequests_call]

/-! ## Admission -/

/-- The window that a call would be counted in after the given ones. -/
def windowOf (maxRequests windowSecs : ℕ) (done : List RateCall) (ip : IpAddr) (now : ℕ) :
    List (ℕ × Bool) :=
  openAt windowSecs now (current windowSecs ((new maxRequests windowSecs).callsOf ip done))

/-- The window of a client counts the calls that were allowed since it has opened. -/
theorem window_after (maxRequests windowSecs : ℕ) (done : List RateCall) (ip : IpAddr) (now : ℕ) :
    ((new maxRequests windowSecs).after done).window ip now =
      { count := allowed (windowOf maxRequests windowSecs done ip now)
        start := start now (windowOf maxRequests windowSecs done ip now) } := by
  rw [window_of_kept (lookup_after maxRequests windowSecs done ip), windowSecs_after]
  rfl

/-- A call passes just if the window of the client has room. -/
theorem call_after_iff (maxRequests windowSecs : ℕ) (done : List RateCall) (made : RateCall) :
    (((new maxRequests windowSecs).after done).call made).1 = true ↔
      allowed (windowOf maxRequests windowSecs done made.ip made.now) < maxRequests := by
  rw [call_eq_check, check_fst, window_after, maxRequests_after]
  rfl

/-- A call passes with what is left after it. -/
theorem checkWithRemaining_eq_true_iff {left : ℕ} :
    (limiter.checkWithRemaining ip now).1 = (true, left) ↔
      (limiter.window ip now).count < limiter.maxRequests ∧
        limiter.maxRequests - ((limiter.window ip now).count + 1) = left := by
  unfold checkWithRemaining
  dsimp only
  split
  · next h => exact iff_of_false nofun fun hleft => absurd hleft.1 (Nat.not_lt.mpr h)
  · next h =>
    rw [and_iff_right (Nat.not_le.mp h), Prod.mk.injEq, and_iff_right rfl]

/-- Admission in calls on a new limiter: both kinds of calls decide alike, the limit zero allows
everything, another limit allows a call if fewer calls of its window were allowed, and what is said
to be left is what is allowed to the address within the window. -/
structure Exact (maxRequests windowSecs : ℕ) (calls : List RateCall) : Prop where
  alike : ∀ done, done <+: calls → ∀ ip now,
    (((new maxRequests windowSecs).after done).checkWithRemaining ip now).1.1 =
      (((new maxRequests windowSecs).after done).check ip now).1
  disabled : maxRequests = 0 → ∀ done made, done ++ [made] <+: calls →
    (((new maxRequests windowSecs).after done).call made).1 = true
  counted : 1 ≤ maxRequests → ∀ done made, done ++ [made] <+: calls →
    ((((new maxRequests windowSecs).after done).call made).1 = true ↔
      allowed (windowOf maxRequests windowSecs done made.ip made.now) < maxRequests)
  remaining : ∀ done ip now later left,
    done ++ .checkWithRemaining ip now :: later <+: calls →
    (((new maxRequests windowSecs).after done).checkWithRemaining ip now).1 = (true, left) →
    (∀ made ∈ later, made.ip = ip → asSecs (made.now -
      start now (windowOf maxRequests windowSecs done ip now)) < windowSecs) →
    let after := (new maxRequests windowSecs).after (done ++ [.checkWithRemaining ip now])
    (after.callsOf ip later).map Prod.snd =
      (List.range (after.callsOf ip later).length).map fun i => decide (i < left)

/-- Both checks decide alike. -/
theorem alike (limiter : RateLimiter) (ip : IpAddr) (now : ℕ) :
    (limiter.checkWithRemaining ip now).1.1 = (limiter.check ip now).1 :=
  congrArg Prod.fst (limiter.call_eq_check (.checkWithRemaining ip now))

/-- After a call that leaves some, as many are allowed. -/
theorem callsOf_of_remaining {left : ℕ}
    (h : (limiter.checkWithRemaining ip now).1 = (true, left))
    (hinside : ∀ made ∈ calls, made.ip = ip →
      asSecs (made.now - (limiter.window ip now).start) < limiter.windowSecs) :
    let after := limiter.after [.checkWithRemaining ip now]
    (after.callsOf ip calls).map Prod.snd =
      (List.range (after.callsOf ip calls).length).map fun i => decide (i < left) := by
  intro after
  obtain ⟨hroom, hleft⟩ := checkWithRemaining_eq_true_iff.mp h
  have hallowed : (limiter.check ip now).1 = true := check_fst.mpr hroom
  have hafter : after = (limiter.check ip now).2 :=
    congrArg Prod.snd (limiter.call_eq_check (.checkWithRemaining ip now))
  have hlookup : after.inner.lookup ip =
      some ⟨(limiter.window ip now).count + 1, (limiter.window ip now).start⟩ := by
    rw [hafter, check_snd, lookup_store, if_pos rfl, if_pos hallowed]
  have hrest := callsOf_of_window hlookup fun made hmade hip => by
    rw [windowSecs_after]
    exact hinside made hmade hip
  rwa [maxRequests_after, hleft] at hrest

/-- **Admission.** It is exact in all calls exactly if the limit is not zero or there is no call:
the limiter does not turn off. -/
theorem exact_iff (maxRequests windowSecs : ℕ) (calls : List RateCall) :
    Exact maxRequests windowSecs calls ↔ (maxRequests = 0 → calls = []) := by
  constructor
  · intro h hzero
    cases calls with
    | nil => rfl
    | cons made rest =>
      have hallowed := h.disabled hzero [] made (List.prefix_append [made] rest)
      rw [call_after_iff, hzero] at hallowed
      exact absurd hallowed (Nat.not_lt_zero _)
  · intro h
    refine ⟨fun done _ ip now => alike _ ip now, ?_, ?_, ?_⟩
    · intro hzero done made hdone
      rw [h hzero, List.prefix_nil] at hdone
      exact absurd hdone (List.append_ne_nil_of_right_ne_nil done (List.cons_ne_nil made []))
    · exact fun _ done made _ => call_after_iff maxRequests windowSecs done made
    · intro done ip now later left _ hleft hinside
      rw [after_append]
      refine callsOf_of_remaining hleft fun made hmade hip => ?_
      rw [window_after, windowSecs_after]
      exact hinside made hmade hip

/-- A limit of zero refuses the first call. -/
theorem zero_refuses : ¬ Exact 0 60 [.check (.v4 127 0 0 1) 0] := by
  intro h
  have hallowed := h.disabled rfl [] _ (List.prefix_refl _)
  rw [call_after_iff] at hallowed
  exact absurd hallowed (Nat.not_lt_zero _)

end RateLimiter

end Sigimora.Server
