import Mathlib.Order.Basic
import Sigimora.Library.HashTable
import Sigimora.Library.Run

/-!
# The rate limiter

The limiter counts the admitted calls of an address in a window that starts with a
call and is renewed by the first call after it is over. The windows do not slide: the
admitted calls at the end of one window and at the start of the next one are counted
apart.
-/

namespace Sigimora.Server

/-- The address of a client. -/
inductive IpAddr
  | v4 (a b c d : UInt8)
  | v6 (segments : BitVec 128)
  deriving DecidableEq

/-- The nanoseconds of a second. -/
def nanosPerSec : ℕ := 1000000000

/-- The whole seconds of a duration. -/
def asSecs (duration : ℕ) : ℕ := duration / nanosPerSec

/-- The calls that are counted since an instant, which is given in nanoseconds. -/
structure Window where
  count : ℕ
  start : ℕ

structure RateLimiter where
  inner : HashTable IpAddr Window
  maxRequests : ℕ
  windowSecs : ℕ

namespace RateLimiter

def new (maxRequests windowSecs : ℕ) : RateLimiter where
  inner := ∅
  maxRequests := maxRequests
  windowSecs := windowSecs

/-- The window in which a call is counted: the stored one, unless there is none or it is over. -/
def window (limiter : RateLimiter) (ip : IpAddr) (now : ℕ) : Window :=
  let window := (limiter.inner.lookup ip).getD { count := 0, start := now }
  if asSecs (now - window.start) ≥ limiter.windowSecs then { count := 0, start := now } else window

/-- Store the window of an address. -/
def store (limiter : RateLimiter) (ip : IpAddr) (window : Window) : RateLimiter :=
  { limiter with inner := limiter.inner.insert ip window }

/-- Whether a call of the address is allowed. -/
def check (limiter : RateLimiter) (ip : IpAddr) (now : ℕ) : Bool × RateLimiter :=
  let window := limiter.window ip now
  if window.count ≥ limiter.maxRequests then (false, limiter.store ip window)
  else (true, limiter.store ip { window with count := window.count + 1 })

/-- Like `check`, with the number of calls that are left in the window. -/
def checkWithRemaining (limiter : RateLimiter) (ip : IpAddr) (now : ℕ) :
    (Bool × ℕ) × RateLimiter :=
  let window := limiter.window ip now
  if window.count ≥ limiter.maxRequests then ((false, 0), limiter.store ip window)
  else ((true, limiter.maxRequests - (window.count + 1)),
    limiter.store ip { window with count := window.count + 1 })

end RateLimiter

/-- A call on the limiter. -/
inductive RateCall
  | check (ip : IpAddr) (now : ℕ)
  | checkWithRemaining (ip : IpAddr) (now : ℕ)

/-- The address that the call is for. -/
def RateCall.ip : RateCall → IpAddr
  | .check ip _ => ip
  | .checkWithRemaining ip _ => ip

/-- The time of the call. -/
def RateCall.now : RateCall → ℕ
  | .check _ now => now
  | .checkWithRemaining _ now => now

/-- Whether the call is allowed, and the limiter after it. -/
def RateLimiter.call (limiter : RateLimiter) : RateCall → Bool × RateLimiter
  | .check ip now => limiter.check ip now
  | .checkWithRemaining ip now =>
    ((limiter.checkWithRemaining ip now).1.1, (limiter.checkWithRemaining ip now).2)

namespace RateLimiter

variable {limiter : RateLimiter} {ip : IpAddr} {now : ℕ}

/-! ## One call -/

/-- The two calls admit the same and count the same. -/
theorem call_eq_check (call : RateCall) : limiter.call call = limiter.check call.ip call.now := by
  cases call with
  | check ip now => rfl
  | checkWithRemaining ip now =>
    rw [RateLimiter.call, checkWithRemaining, check, RateCall.ip, RateCall.now]
    by_cases h : (limiter.window ip now).count ≥ limiter.maxRequests
    · simp only [if_pos h]
    · simp only [if_neg h]

/-- A call passes while its window has room. -/
theorem check_fst : (limiter.check ip now).1 = true ↔
    (limiter.window ip now).count < limiter.maxRequests := by
  unfold check
  dsimp only
  split
  · next h => exact iff_of_false Bool.false_ne_true (Nat.not_lt.mpr h)
  · next h => exact iff_of_true rfl (Nat.not_le.mp h)

/-- A call stores its window, with itself counted if it is admitted. -/
theorem check_snd : (limiter.check ip now).2 = limiter.store ip
    { count := (limiter.window ip now).count + if (limiter.check ip now).1 then 1 else 0
      start := (limiter.window ip now).start } := by
  unfold check
  dsimp only
  split <;> rfl

/-- Storing the window of a client changes that client's only. -/
@[simp] theorem lookup_store (other : IpAddr) (window : Window) :
    (limiter.store ip window).inner.lookup other =
      if other = ip then some window else limiter.inner.lookup other :=
  HashTable.lookup_insert _ _ _ _

/-- A call does not change the limit. -/
@[simp] theorem maxRequests_call (call : RateCall) :
    (limiter.call call).2.maxRequests = limiter.maxRequests := by
  rw [call_eq_check, check_snd]
  rfl

/-- A call does not change the length of the windows. -/
@[simp] theorem windowSecs_call (call : RateCall) :
    (limiter.call call).2.windowSecs = limiter.windowSecs := by
  rw [call_eq_check, check_snd]
  rfl

/-- Whole seconds are compared as nanoseconds. -/
theorem le_asSecs_iff {secs duration : ℕ} :
    asSecs duration ≥ secs ↔ secs * nanosPerSec ≤ duration :=
  Nat.le_div_iff_mul_le (by decide)

/-- The window of a new client starts now. -/
theorem window_of_none (h : limiter.inner.lookup ip = none) : limiter.window ip now = ⟨0, now⟩ := by
  rw [window, h]
  dsimp only [Option.getD_none]
  split <;> rfl

/-- A window lasts until its time is over, then a new one starts. -/
theorem window_of_some {stored : Window} (h : limiter.inner.lookup ip = some stored) :
    limiter.window ip now =
      if asSecs (now - stored.start) ≥ limiter.windowSecs then ⟨0, now⟩ else stored := by
  rw [window, h]
  rfl

/-- The window of a call is a new one, a renewed one or the stored one. -/
theorem window_cases (limiter : RateLimiter) (ip : IpAddr) (now : ℕ) :
    (limiter.inner.lookup ip = none ∧ limiter.window ip now = ⟨0, now⟩) ∨
    ∃ stored, limiter.inner.lookup ip = some stored ∧
      (asSecs (now - stored.start) ≥ limiter.windowSecs ∧ limiter.window ip now = ⟨0, now⟩ ∨
        asSecs (now - stored.start) < limiter.windowSecs ∧ limiter.window ip now = stored) := by
  cases hlookup : limiter.inner.lookup ip with
  | none => exact Or.inl ⟨rfl, window_of_none hlookup⟩
  | some stored =>
    refine Or.inr ⟨stored, rfl, ?_⟩
    rw [window_of_some hlookup]
    split
    · next h => exact Or.inl ⟨h, rfl⟩
    · next h => exact Or.inr ⟨Nat.not_le.mp h, rfl⟩

/-- A window starts now or is the stored one. -/
theorem window_fresh_or_stored (limiter : RateLimiter) (ip : IpAddr) (now : ℕ) :
    limiter.window ip now = ⟨0, now⟩ ∨
      ∃ stored, limiter.inner.lookup ip = some stored ∧ limiter.window ip now = stored := by
  rcases limiter.window_cases ip now with ⟨_, hfresh⟩ | ⟨stored, hstored, ⟨_, hfresh⟩ | ⟨_, hsame⟩⟩
  · exact Or.inl hfresh
  · exact Or.inl hfresh
  · exact Or.inr ⟨stored, hstored, hsame⟩

/-- The window of a call is not over. -/
theorem window_not_over (hpos : 0 < limiter.windowSecs) :
    asSecs (now - (limiter.window ip now).start) < limiter.windowSecs := by
  have hzero : asSecs (now - now) < limiter.windowSecs := by
    rw [Nat.sub_self, asSecs, Nat.zero_div]
    exact hpos
  rcases limiter.window_cases ip now with ⟨_, hfresh⟩ | ⟨stored, _, ⟨_, hfresh⟩ | ⟨hlt, hsame⟩⟩
  · rwa [hfresh]
  · rwa [hfresh]
  · rwa [hsame]

/-- The window of the next call of the same address. -/
theorem window_store (window : Window) : (limiter.store ip window).window ip now =
    if asSecs (now - window.start) ≥ limiter.windowSecs then ⟨0, now⟩ else window :=
  window_of_some (by rw [lookup_store, if_pos rfl])

end RateLimiter

/-! ## Sequences of calls -/

/-- The limiter together with the admitted calls so far and the time of the last call. -/
structure RateHistory where
  limiter : RateLimiter
  admitted : List (IpAddr × ℕ)
  latest : ℕ

namespace RateHistory

/-- A new limiter. -/
def new (maxRequests windowSecs : ℕ) : RateHistory where
  limiter := .new maxRequests windowSecs
  admitted := []
  latest := 0

/-- The history after one more call. -/
def call (history : RateHistory) (call : RateCall) : RateHistory where
  limiter := (history.limiter.call call).2
  admitted := history.admitted ++
    if (history.limiter.call call).1 then [(call.ip, call.now)] else []
  latest := call.now

/-- The number of admitted calls of an address in the given seconds from an instant on. -/
def admittedWithin (history : RateHistory) (ip : IpAddr) (x : ℕ) (secs : ℕ) : ℕ :=
  history.admitted.countP fun entry =>
    entry.1 = ip ∧ x ≤ entry.2 ∧ entry.2 < x + secs * nanosPerSec

/-- In every interval of the length of the window at most the limit is admitted. -/
def Slides (history : RateHistory) : Prop :=
  ∀ ip x, history.admittedWithin ip x history.limiter.windowSecs ≤ history.limiter.maxRequests

/-- The clock does not go back. -/
def Forward (history : RateHistory) (call : RateCall) : Prop := history.latest ≤ call.now

/-- The call renews the window of its address. -/
def Renews (history : RateHistory) (call : RateCall) : Prop :=
  ∃ window, history.limiter.inner.lookup call.ip = some window ∧
    asSecs (call.now - window.start) ≥ history.limiter.windowSecs

/-- A call that renews a window comes at least a window's length after the calls of its
address that were admitted. -/
def RenewsLate (history : RateHistory) (call : RateCall) : Prop :=
  history.Renews call → ∀ entry ∈ history.admitted, entry.1 = call.ip →
    entry.2 + history.limiter.windowSecs * nanosPerSec ≤ call.now

end RateHistory

/-- The times of the calls do not go back. -/
def Chronological (calls : List RateCall) : Prop := (calls.map RateCall.now).Pairwise (· ≤ ·)

namespace RateHistory

variable {history : RateHistory} {made : RateCall}

/-! ### The sliding window -/

/-- The stored windows count the admitted calls that are not a window's length older. -/
structure Counted (history : RateHistory) : Prop where
  past : ∀ entry ∈ history.admitted, entry.2 ≤ history.latest
  start : ∀ ip window, history.limiter.inner.lookup ip = some window →
    window.start ≤ history.latest
  unknown : ∀ ip, history.limiter.inner.lookup ip = none →
    ∀ entry ∈ history.admitted, entry.1 ≠ ip
  recent : ∀ ip window, history.limiter.inner.lookup ip = some window →
    (history.admitted.countP fun entry => entry.1 = ip ∧
      window.start < entry.2 + history.limiter.windowSecs * nanosPerSec) ≤ window.count
  slides : history.Slides

/-- A new history is counted. -/
theorem counted_new (maxRequests windowSecs : ℕ) : (new maxRequests windowSecs).Counted := by
  refine ⟨?_, ?_, ?_, ?_, ?_⟩ <;> simp [new, RateLimiter.new, Slides, admittedWithin]

/-- The window of a call counts the recent calls as well. -/
theorem Counted.window (h : history.Counted) (hforward : history.Forward made)
    (hlate : history.RenewsLate made) :
    (history.limiter.window made.ip made.now).start ≤ made.now ∧
      (history.admitted.countP fun entry => entry.1 = made.ip ∧
        (history.limiter.window made.ip made.now).start <
          entry.2 + history.limiter.windowSecs * nanosPerSec) ≤
        (history.limiter.window made.ip made.now).count := by
  rcases history.limiter.window_cases made.ip made.now with ⟨hnone, hwindow⟩ |
    ⟨stored, hsome, ⟨hover, hwindow⟩ | ⟨_, hwindow⟩⟩
  · rw [hwindow]
    refine ⟨le_rfl, (List.countP_eq_zero.mpr ?_).le⟩
    intro entry hentry
    simp [h.unknown _ hnone entry hentry]
  · rw [hwindow]
    refine ⟨le_rfl, (List.countP_eq_zero.mpr ?_).le⟩
    intro entry hentry
    have hold := hlate ⟨stored, hsome, hover⟩ entry hentry
    simpa using hold
  · rw [hwindow]
    exact ⟨le_trans (h.start _ _ hsome) hforward, h.recent _ _ hsome⟩

/-- The calls that an admitted call adds. -/
theorem call_eq (history : RateHistory) (made : RateCall) :
    history.call made =
      { limiter := history.limiter.store made.ip
          { count := (history.limiter.window made.ip made.now).count +
              if (history.limiter.call made).1 then 1 else 0
            start := (history.limiter.window made.ip made.now).start }
        admitted := history.admitted ++
          if (history.limiter.call made).1 then [(made.ip, made.now)] else []
        latest := made.now } := by
  rw [RateHistory.call, RateLimiter.call_eq_check, RateLimiter.check_snd]

/-- A call is admitted while its window has room. -/
theorem admitted_iff : (history.limiter.call made).1 = true ↔
    (history.limiter.window made.ip made.now).count < history.limiter.maxRequests := by
  rw [RateLimiter.call_eq_check, RateLimiter.check_fst]

/-- The admitted calls are those before, and this one if it passes. -/
theorem mem_admitted_call {entry : IpAddr × ℕ} : entry ∈ (history.call made).admitted ↔
    entry ∈ history.admitted ∨
      (history.limiter.call made).1 = true ∧ entry = (made.ip, made.now) := by
  rw [RateHistory.call, List.mem_append]
  cases (history.limiter.call made).1 <;> simp

/-- No admitted call is later than the last call. -/
theorem past_call (hpast : ∀ entry ∈ history.admitted, entry.2 ≤ history.latest)
    (hforward : history.Forward made) :
    ∀ entry ∈ (history.call made).admitted, entry.2 ≤ (history.call made).latest := by
  intro entry hentry
  rcases mem_admitted_call.mp hentry with hold | ⟨_, rfl⟩
  · exact le_trans (hpast entry hold) hforward
  · exact le_rfl

/-- One more call is counted if it passes. -/
theorem countP_call (history : RateHistory) (made : RateCall) (p : IpAddr × ℕ → Bool) :
    (history.call made).admitted.countP p = history.admitted.countP p +
      if (history.limiter.call made).1 = true ∧ p (made.ip, made.now) = true then 1 else 0 := by
  rw [RateHistory.call, List.countP_append]
  cases (history.limiter.call made).1 <;> simp [List.countP_cons]

/-- A call does not change the length of the windows of a history. -/
@[simp] theorem windowSecs_call :
    (history.call made).limiter.windowSecs = history.limiter.windowSecs :=
  RateLimiter.windowSecs_call made

/-- A call does not change the limit of a history. -/
@[simp] theorem maxRequests_call :
    (history.call made).limiter.maxRequests = history.limiter.maxRequests :=
  RateLimiter.maxRequests_call made

/-- No calls change the length of the windows. -/
theorem windowSecs_after (calls : List RateCall) :
    (Run.after RateHistory.call history calls).limiter.windowSecs = history.limiter.windowSecs := by
  induction calls generalizing history with
  | nil => rfl
  | cons made calls ih => rw [Run.after_cons, ih, windowSecs_call]

/-- No calls change the limit. -/
theorem maxRequests_after (calls : List RateCall) :
    (Run.after RateHistory.call history calls).limiter.maxRequests =
      history.limiter.maxRequests := by
  induction calls generalizing history with
  | nil => rfl
  | cons made calls ih => rw [Run.after_cons, ih, maxRequests_call]

/-- When a call is admitted, there is room for it in every interval that it lies in: what was
admitted there before is recent. -/
theorem Counted.room (h : history.Counted) (hforward : history.Forward made)
    (hlate : history.RenewsLate made) (hadmitted : (history.limiter.call made).1 = true) {x : ℕ}
    (hbefore : made.now < x + history.limiter.windowSecs * nanosPerSec) :
    history.admittedWithin made.ip x history.limiter.windowSecs <
      history.limiter.maxRequests := by
  obtain ⟨hstart, hrecent⟩ := h.window hforward hlate
  have hcount : history.admittedWithin made.ip x history.limiter.windowSecs ≤
      (history.limiter.window made.ip made.now).count := by
    refine le_trans (List.countP_mono_left ?_) hrecent
    intro entry _ hentry
    obtain ⟨hentryIp, hafter, _⟩ := of_decide_eq_true hentry
    have hlater : (history.limiter.window made.ip made.now).start <
        entry.2 + history.limiter.windowSecs * nanosPerSec := by
      omega
    exact decide_eq_true ⟨hentryIp, hlater⟩
  exact lt_of_le_of_lt hcount (admitted_iff.mp hadmitted)

/-- A call that comes in time and renews its window late keeps the counts. -/
theorem Counted.call (h : history.Counted) (hforward : history.Forward made)
    (hlate : history.RenewsLate made) : (history.call made).Counted := by
  obtain ⟨hstart, hrecent⟩ := h.window hforward hlate
  refine ⟨past_call h.past hforward, ?_, ?_, ?_, ?_⟩
  · intro ip window hlookup
    rw [call_eq, RateLimiter.lookup_store] at hlookup
    split at hlookup
    · rw [← Option.some.inj hlookup]
      exact hstart
    · exact le_trans (h.start ip window hlookup) hforward
  · intro ip hlookup entry hentry
    rw [call_eq, RateLimiter.lookup_store] at hlookup
    split at hlookup
    · cases hlookup
    · next hip =>
      rcases mem_admitted_call.mp hentry with hold | ⟨_, rfl⟩
      · exact h.unknown ip hlookup entry hold
      · exact Ne.symm hip
  · intro ip window hlookup
    rw [windowSecs_call, countP_call]
    rw [call_eq, RateLimiter.lookup_store] at hlookup
    split at hlookup
    · next hip =>
      rw [← Option.some.inj hlookup, hip]
      refine Nat.add_le_add hrecent ?_
      by_cases hadmitted : (history.limiter.call made).1 = true
      · rw [if_pos hadmitted]
        split <;> decide
      · rw [if_neg hadmitted, if_neg fun hnew => hadmitted hnew.1]
    · next hip =>
      rw [if_neg (by simp [Ne.symm hip]), Nat.add_zero]
      exact h.recent ip window hlookup
  · intro ip x
    rw [maxRequests_call, windowSecs_call, admittedWithin, countP_call]
    split
    · next hnew =>
      obtain ⟨hadmitted, hinside⟩ := hnew
      obtain ⟨rfl, _, hbefore⟩ : made.ip = ip ∧ x ≤ made.now ∧
        made.now < x + history.limiter.windowSecs * nanosPerSec := of_decide_eq_true hinside
      exact h.room hforward hlate hadmitted hbefore
    · exact h.slides ip x

/-- Calls in the order of their times go forward. -/
theorem guarded_forward {calls : List RateCall} (h : Chronological calls)
    (hlatest : ∀ made ∈ calls, history.latest ≤ made.now) :
    Run.Guarded RateHistory.call Forward history calls := by
  induction calls generalizing history with
  | nil => exact Run.guarded_nil
  | cons made calls ih =>
    obtain ⟨hfirst, hrest⟩ := List.pairwise_cons.mp h
    refine Run.guarded_cons.mpr ⟨hlatest made List.mem_cons_self, ih hrest ?_⟩
    exact fun later hlater => hfirst later.now (List.mem_map_of_mem hlater)

/-- A chronological run that renews no window early admits at most the limit in every
interval. -/
theorem slides_of_renewsLate {maxRequests windowSecs : ℕ} {calls : List RateCall}
    (h : Chronological calls)
    (hlate : Run.Guarded RateHistory.call RenewsLate (new maxRequests windowSecs) calls) :
    Run.Throughout RateHistory.call Slides (new maxRequests windowSecs) calls := by
  have hforward : Run.Guarded RateHistory.call Forward (new maxRequests windowSecs) calls :=
    guarded_forward h fun _ _ => Nat.zero_le _
  have hcounted : Run.Throughout RateHistory.call Counted (new maxRequests windowSecs) calls :=
    Run.throughout_of_guarded (fun history made hcounted hguard => hcounted.call hguard.1 hguard.2)
      (counted_new _ _) (hforward.and hlate)
  exact fun done hdone => (hcounted done hdone).slides

/-! ### A limit of one -/

/-- Every window starts with its only admitted call. -/
structure Single (history : RateHistory) : Prop where
  limit : history.limiter.maxRequests = 1
  past : ∀ entry ∈ history.admitted, entry.2 ≤ history.latest
  start : ∀ ip window, history.limiter.inner.lookup ip = some window →
    1 ≤ window.count ∧ window.start ≤ history.latest ∧
      ∀ entry ∈ history.admitted, entry.1 = ip → entry.2 ≤ window.start

/-- A new history keeps to a limit of one. -/
theorem single_new (windowSecs : ℕ) : (new 1 windowSecs).Single := by
  refine ⟨rfl, ?_, ?_⟩ <;> simp [new, RateLimiter.new]

/-- Under a limit of one every window is renewed late enough. -/
theorem Single.renewsLate (h : history.Single) (hforward : history.Forward made) :
    history.RenewsLate made := by
  rintro ⟨window, hlookup, hover⟩ entry hentry hip
  obtain ⟨_, hstart, holder⟩ := h.start _ window hlookup
  have hbefore := holder entry hentry hip
  have helapsed := RateLimiter.le_asSecs_iff.mp hover
  have hnow : window.start ≤ made.now := le_trans hstart hforward
  omega

/-- Under a limit of one, every window goes on with its only admitted call. -/
theorem Single.call (h : history.Single) (hforward : history.Forward made) :
    (history.call made).Single := by
  have hpast := past_call h.past hforward
  have hadmitted : (history.limiter.call made).1 = true ↔
      (history.limiter.window made.ip made.now).count < 1 := by
    rw [admitted_iff, h.limit]
  refine ⟨by rw [maxRequests_call, h.limit], hpast, ?_⟩
  intro ip window hlookup
  rw [call_eq, RateLimiter.lookup_store] at hlookup
  split at hlookup
  · next hip =>
    rw [← Option.some.inj hlookup]
    rcases history.limiter.window_fresh_or_stored made.ip made.now with hfresh |
      ⟨stored, hstored, hsame⟩
    · rw [hfresh] at hadmitted ⊢
      rw [hadmitted.mpr Nat.one_pos]
      exact ⟨le_rfl, le_rfl, fun entry hentry _ => hpast entry hentry⟩
    · obtain ⟨hone, hstart, holder⟩ := h.start _ stored hstored
      rw [hsame] at hadmitted ⊢
      have hrefused : ¬ (history.limiter.call made).1 = true := fun hnew =>
        absurd (hadmitted.mp hnew) (Nat.not_lt.mpr hone)
      rw [if_neg hrefused]
      refine ⟨hone, le_trans hstart hforward, ?_⟩
      intro entry hentry hentryIp
      rcases mem_admitted_call.mp hentry with hold | ⟨hnew, _⟩
      · exact holder entry hold (hentryIp.trans hip)
      · exact absurd hnew hrefused
  · next hip =>
    obtain ⟨hone, hstart, holder⟩ := h.start ip window hlookup
    refine ⟨hone, le_trans hstart hforward, ?_⟩
    intro entry hentry hentryIp
    rcases mem_admitted_call.mp hentry with hold | ⟨_, rfl⟩
    · exact holder entry hold hentryIp
    · exact absurd hentryIp.symm hip

/-- With a limit of one no window is renewed early. -/
theorem renewsLate_of_single {windowSecs : ℕ} {calls : List RateCall} (h : Chronological calls) :
    Run.Guarded RateHistory.call RenewsLate (new 1 windowSecs) calls := by
  have hforward : Run.Guarded RateHistory.call Forward (new 1 windowSecs) calls :=
    guarded_forward h fun _ _ => Nat.zero_le _
  have hsingle : Run.Throughout RateHistory.call Single (new 1 windowSecs) calls :=
    Run.throughout_of_guarded (fun history made h hforward => h.call hforward)
      (single_new windowSecs) hforward
  intro done made hdone
  exact (hsingle.guarded done made hdone).renewsLate (hforward done made hdone)

/-! ### Larger limits -/

/-- A client may use up its window at once. -/
theorem after_replicate (hpos : 0 < history.limiter.windowSecs) {k : ℕ}
    (hroom : (history.limiter.window made.ip made.now).count + k ≤ history.limiter.maxRequests) :
    (Run.after RateHistory.call history (List.replicate k made)).admitted =
        history.admitted ++ List.replicate k (made.ip, made.now) ∧
      ((Run.after RateHistory.call history (List.replicate k made)).limiter.window made.ip
          made.now).count = (history.limiter.window made.ip made.now).count + k := by
  induction k generalizing history with
  | zero => simp
  | succ k ih =>
    have hadmitted : (history.limiter.call made).1 = true := admitted_iff.mpr (by omega)
    have hwindow : (history.call made).limiter.window made.ip made.now =
        ⟨(history.limiter.window made.ip made.now).count + 1,
          (history.limiter.window made.ip made.now).start⟩ := by
      rw [call_eq, if_pos hadmitted, RateLimiter.window_store]
      exact if_neg (Nat.not_le.mpr (RateLimiter.window_not_over hpos))
    have hnext : ((history.call made).limiter.window made.ip made.now).count + k ≤
        (history.call made).limiter.maxRequests := by
      rw [hwindow, maxRequests_call]
      dsimp only
      omega
    obtain ⟨hrest, hcount⟩ := ih (by rwa [windowSecs_call]) hnext
    rw [List.replicate_succ, Run.after_cons]
    refine ⟨?_, ?_⟩
    · rw [hrest, RateHistory.call, if_pos hadmitted, List.append_assoc, List.replicate_succ]
      rfl
    · rw [hcount, hwindow]
      dsimp only
      omega

/-- Two calls in the first window and as many as the limit at the start of the next one,
for windows of the given length in nanoseconds. -/
def boundaryBurst (maxRequests length : ℕ) : List RateCall :=
  .check (.v4 127 0 0 1) 0 :: .check (.v4 127 0 0 1) (length - 1) ::
    List.replicate maxRequests (.check (.v4 127 0 0 1) length)

theorem chronological_boundaryBurst (maxRequests length : ℕ) :
    Chronological (boundaryBurst maxRequests length) := by
  simp [Chronological, boundaryBurst, RateCall.now, List.pairwise_replicate]

/-- The window of a call is stored with the call counted, if there is room. -/
theorem limiter_call_of_room {window : Window}
    (hwindow : history.limiter.window made.ip made.now = window)
    (hroom : window.count < history.limiter.maxRequests) :
    (history.call made).limiter =
        history.limiter.store made.ip { window with count := window.count + 1 } ∧
      (history.call made).admitted = history.admitted ++ [(made.ip, made.now)] := by
  have hadmitted : (history.limiter.call made).1 = true := by rwa [admitted_iff, hwindow]
  rw [call_eq, if_pos hadmitted, if_pos hadmitted, hwindow]
  exact ⟨rfl, rfl⟩

/-- All calls of the burst are admitted. -/
theorem admitted_boundaryBurst {maxRequests windowSecs length : ℕ} (hmax : 2 ≤ maxRequests)
    (hpos : 1 ≤ windowSecs) (hlength : length = windowSecs * nanosPerSec) :
    (Run.after RateHistory.call (new maxRequests windowSecs)
        (boundaryBurst maxRequests length)).admitted =
      (.v4 127 0 0 1, 0) :: (.v4 127 0 0 1, length - 1) ::
        List.replicate maxRequests (.v4 127 0 0 1, length) := by
  let ip : IpAddr := .v4 127 0 0 1
  have hlong : 1 ≤ length := by
    rw [hlength]
    exact le_trans hpos (Nat.le_mul_of_pos_right windowSecs (by decide))
  -- the first call opens the window, the second one is still in it, and then it is over
  let first := (new maxRequests windowSecs).call (.check ip 0)
  let second := first.call (.check ip (length - 1))
  obtain ⟨hfirst, hfirstAdmitted⟩ : first.limiter =
        (RateLimiter.new maxRequests windowSecs).store ip ⟨1, 0⟩ ∧ first.admitted = [(ip, 0)] :=
    limiter_call_of_room (RateLimiter.window_of_none rfl) (show 0 < maxRequests by omega)
  have hinside : ¬ asSecs (length - 1 - 0) ≥ windowSecs := by
    rw [RateLimiter.le_asSecs_iff, ← hlength]
    omega
  have hover : asSecs (length - 0) ≥ windowSecs := by
    rw [RateLimiter.le_asSecs_iff, ← hlength]
    omega
  have hstays : first.limiter.window ip (length - 1) = ⟨1, 0⟩ := by
    rw [hfirst, RateLimiter.window_store]
    exact if_neg hinside
  have hlimit : first.limiter.maxRequests = maxRequests := by rw [hfirst]; rfl
  have hroom : 1 < first.limiter.maxRequests := by
    rw [hlimit]
    exact hmax
  obtain ⟨hsecond, hsecondAdmitted⟩ : second.limiter = first.limiter.store ip ⟨2, 0⟩ ∧
      second.admitted = first.admitted ++ [(ip, length - 1)] :=
    @limiter_call_of_room first (.check ip (length - 1)) ⟨1, 0⟩ hstays hroom
  have hrenewed : second.limiter.window ip length = ⟨0, length⟩ := by
    rw [hsecond, RateLimiter.window_store, hfirst]
    exact if_pos hover
  have hsecs : second.limiter.windowSecs = windowSecs := by rw [hsecond, hfirst]; rfl
  have hmaxRequests : second.limiter.maxRequests = maxRequests := by rw [hsecond, hfirst]; rfl
  have hempty : (second.limiter.window ip length).count + maxRequests ≤
      second.limiter.maxRequests := by
    rw [hrenewed, hmaxRequests, Nat.zero_add]
  have hburst : (Run.after RateHistory.call second
      (List.replicate maxRequests (.check ip length))).admitted =
        second.admitted ++ List.replicate maxRequests (ip, length) :=
    (@after_replicate second (.check ip length) (by rwa [hsecs]) maxRequests hempty).1
  rw [boundaryBurst, Run.after_cons, Run.after_cons]
  refine hburst.trans ?_
  rw [hsecondAdmitted, hfirstAdmitted]
  rfl

/-- Beyond a limit of one, the burst exceeds the limit within the length of a window. -/
theorem lt_admittedWithin_boundaryBurst {maxRequests windowSecs length : ℕ}
    (hmax : 2 ≤ maxRequests) (hpos : 1 ≤ windowSecs) (hlength : length = windowSecs * nanosPerSec) :
    maxRequests < (Run.after RateHistory.call (new maxRequests windowSecs)
      (boundaryBurst maxRequests length)).admittedWithin (.v4 127 0 0 1) (length - 1)
        windowSecs := by
  have hlong : 2 ≤ length := by
    rw [hlength]
    exact le_trans (by decide) (Nat.mul_le_mul_right nanosPerSec hpos)
  have hinside : length - 1 < length - 1 + length ∧ length - 1 ≤ length ∧
      length < length - 1 + length := by
    omega
  rw [admittedWithin, admitted_boundaryBurst hmax hpos hlength, ← hlength]
  simp only [List.countP_cons, List.countP_replicate, true_and, le_refl, hinside.1, hinside.2.1,
    hinside.2.2, decide_true, if_true]
  omega

/-- **Windows.** A chronological run whose windows are renewed late admits at most the limit
in every interval of the length of a window. All chronological runs do so exactly for the
limit one. -/
theorem slides_iff {maxRequests windowSecs : ℕ} (hmax : 1 ≤ maxRequests) (hpos : 1 ≤ windowSecs) :
    (∀ calls, Chronological calls →
      Run.Guarded RateHistory.call RenewsLate (new maxRequests windowSecs) calls →
      Run.Throughout RateHistory.call Slides (new maxRequests windowSecs) calls) ∧
    ((∀ calls, Chronological calls →
      Run.Throughout RateHistory.call Slides (new maxRequests windowSecs) calls) ↔
        maxRequests = 1) := by
  refine ⟨fun calls hcalls hlate => slides_of_renewsLate hcalls hlate, ?_, ?_⟩
  · intro h
    by_contra hone
    have hexceeds := lt_admittedWithin_boundaryBurst (show 2 ≤ maxRequests by omega) hpos rfl
    have hslides := (h _ (chronological_boundaryBurst maxRequests
      (windowSecs * nanosPerSec))).last (.v4 127 0 0 1) (windowSecs * nanosPerSec - 1)
    rw [windowSecs_after, maxRequests_after] at hslides
    exact absurd hslides (Nat.not_le.mpr hexceeds)
  · rintro rfl calls hcalls
    exact slides_of_renewsLate hcalls (renewsLate_of_single hcalls)

/-- The usual limit. -/
theorem slides_iff_sixty :
    (∀ calls, Chronological calls → Run.Guarded RateHistory.call RenewsLate (new 60 60) calls →
      Run.Throughout RateHistory.call Slides (new 60 60) calls) ∧
    ((∀ calls, Chronological calls →
      Run.Throughout RateHistory.call Slides (new 60 60) calls) ↔ 60 = 1) :=
  slides_iff (by decide) (by decide)

/-- A limit of two calls a second admits three calls within two nanoseconds. -/
theorem two_windows_exceed_limit :
    ¬ ∀ maxRequests windowSecs : ℕ, 1 ≤ maxRequests → 1 ≤ windowSecs →
      ∀ calls, Chronological calls →
      Run.Throughout RateHistory.call Slides (new maxRequests windowSecs) calls := by
  intro h
  have hslides := (h 2 1 (by decide) (by decide) _
    (chronological_boundaryBurst 2 nanosPerSec)).last (.v4 127 0 0 1) (nanosPerSec - 1)
  have hexceeds := lt_admittedWithin_boundaryBurst (le_refl 2) (le_refl 1) (Nat.one_mul _).symm
  rw [windowSecs_after, maxRequests_after] at hslides
  exact absurd hslides (Nat.not_le.mpr hexceeds)

end RateHistory

end Sigimora.Server
