import Mathlib.Data.Set.Subsingleton
import Sigimora.Math.ExponentCurve
import Sigimora.Server.Authentication
import Sigimora.Server.Faults
import Sigimora.Server.RateLimiter

/-!
# The rate limiting middleware

Requests with the key of an administrator are passed on. Any other one is counted for
the address in its extensions, or for a fixed one if there is none; and the server is
started without a layer that stores the address of the peer there.
-/

namespace Sigimora.Server

open Program

/-! ## The middleware -/

structure SocketAddr where
  ip : IpAddr
  port : UInt16

/-- What the middleware reads of a request: the `Authorization` header, the address in
the extensions and the task's request id. -/
structure RateRequest where
  authorization : Option String
  socketAddr : Option SocketAddr
  requestId : Option String

structure RateLimitedBody where
  error : String
  code : String
  requestId : Option String

/-- A request is passed on, and headers are set on its response, or it is answered. -/
inductive Admission
  | forward (headers : List (String × String))
  | refuse (status : ℕ) (headers : List (String × String)) (body : RateLimitedBody)

/-- Whether the request is passed on. -/
def Admission.passes : Admission → Bool
  | .forward _ => true
  | .refuse _ _ _ => false

variable [Curve]

/-- Whether the key in the header is an administrator's, as the given lookup of hashes
answers; a failed lookup is none. -/
def carriesAdminKey (getApiKeyByHash : String → Except DbError (Option ApiKeyRow))
    (authorization : Option String) : Bool :=
  match authorization.bind (stripPrefix "Bearer ") with
  | some key =>
    let length := (ByteString.utf8Bytes key).length
    if length < 16 ∨ length > 256 then false
    else
      match getApiKeyByHash (sha256Hex key) with
      | .ok (some row) => row.role = "admin"
      | _ => false
  | none => false

/-- The middleware passes exactly the keys that are authenticated as an administrator's. -/
theorem carriesAdminKey_iff {db : Db} {authorization : Option String} :
    carriesAdminKey (fun hash => .ok (db.getApiKeyByHash hash)) authorization = true ↔
      ∃ row, authenticatedRow authorization db = some row ∧ row.role = "admin" := by
  unfold carriesAdminKey authenticatedRow
  constructor
  · intro h
    split at h
    · next key hkey =>
      dsimp only at h
      split at h
      · cases h
      · next hlength =>
        rw [bearerKey_eq_ok.mpr ⟨hkey, hlength⟩]
        split at h
        · next row hrow => exact ⟨row, Except.ok.inj hrow, of_decide_eq_true h⟩
        · cases h
    · cases h
  · rintro ⟨row, hrow, hadmin⟩
    split at hrow
    · next key hkey =>
      obtain ⟨hkey, hlength⟩ := bearerKey_eq_ok.mp hkey
      rw [hkey]
      dsimp only
      rw [if_neg hlength, hrow]
      exact decide_eq_true hadmin
    · cases hrow

/-- The address that a request is counted for. -/
def clientIp (socketAddr : Option SocketAddr) : IpAddr :=
  (socketAddr.map SocketAddr.ip).getD (.v4 127 0 0 1)

/-- Pass a request on if it is an administrator's or the limiter has room for it. -/
def rateLimitMiddleware (limiter : RateLimiter)
    (getApiKeyByHash : String → Except DbError (Option ApiKeyRow)) (req : RateRequest) (now : ℕ) :
    Admission × RateLimiter :=
  if carriesAdminKey getApiKeyByHash req.authorization then (.forward [], limiter)
  else
    let ((allowed, remaining), limiter') :=
      limiter.checkWithRemaining (clientIp req.socketAddr) now
    if allowed = false then
      (.refuse 429 [("x-ratelimit-limit", toString limiter.maxRequests),
        ("x-ratelimit-remaining", "0")]
        { error := "rate limit exceeded", code := "RateLimited", requestId := req.requestId },
        limiter')
    else
      (.forward [("x-ratelimit-limit", toString limiter.maxRequests),
        ("x-ratelimit-remaining", toString remaining), ("x-ratelimit-reset", "60")], limiter')

section Middleware

variable {limiter : RateLimiter} {getApiKeyByHash : String → Except DbError (Option ApiKeyRow)}
  {req : RateRequest} {now : ℕ}

/-- A request that is no administrator's is passed on if the limiter allows its call. -/
theorem rateLimitMiddleware_eq_call
    (h : carriesAdminKey getApiKeyByHash req.authorization = false) :
    (rateLimitMiddleware limiter getApiKeyByHash req now).1.passes =
        (limiter.call (.checkWithRemaining (clientIp req.socketAddr) now)).1 ∧
      (rateLimitMiddleware limiter getApiKeyByHash req now).2 =
        (limiter.call (.checkWithRemaining (clientIp req.socketAddr) now)).2 := by
  rw [rateLimitMiddleware, h, if_neg Bool.false_ne_true, RateLimiter.call]
  dsimp only
  cases hallowed : (limiter.checkWithRemaining (clientIp req.socketAddr) now).1.1 with
  | false => exact ⟨rfl, rfl⟩
  | true => exact ⟨rfl, rfl⟩

end Middleware

/-! ## Clients -/

/-- A request on its way to the middleware: the address of its client, the database that the
key is looked up in, with the faults to come, and the time of the call on the limiter. -/
structure Arrival where
  peer : SocketAddr
  authorization : Option String
  requestId : Option String
  store : Db × Faults DbError
  now : ℕ

namespace Arrival

/-- The request without an address in its extensions, as the router is served. -/
def request (arrival : Arrival) : RateRequest where
  authorization := arrival.authorization
  socketAddr := none
  requestId := arrival.requestId

def getApiKeyByHash (arrival : Arrival) (hash : String) : Except DbError (Option ApiKeyRow) :=
  (execFaulty (.getApiKeyByHash hash) arrival.store).1

/-- The request carries the key of an administrator. -/
def IsAdmin (arrival : Arrival) : Prop :=
  carriesAdminKey arrival.getApiKeyByHash arrival.authorization = true

/-- The call on the limiter for a request that is not an administrator's. -/
def rateCall (arrival : Arrival) : RateCall := .checkWithRemaining (.v4 127 0 0 1) arrival.now

end Arrival

namespace RateLimiter

/-- What becomes of a request, and the limiter after it. -/
def serve (limiter : RateLimiter) (arrival : Arrival) : Admission × RateLimiter :=
  rateLimitMiddleware limiter arrival.getApiKeyByHash arrival.request arrival.now

/-- What becomes of the requests, which are served one after another. -/
def admissions (limiter : RateLimiter) : List Arrival → List (Arrival × Admission)
  | [] => []
  | arrival :: rest =>
    (arrival, (limiter.serve arrival).1) :: (limiter.serve arrival).2.admissions rest

/-- Which calls are allowed. -/
def decisions (limiter : RateLimiter) : List RateCall → List Bool
  | [] => []
  | made :: rest => (limiter.call made).1 :: (limiter.call made).2.decisions rest

/-- Whether the requests of a client are passed on. -/
def passedOf (limiter : RateLimiter) (ip : IpAddr) (arrivals : List Arrival) : List Bool :=
  ((limiter.admissions arrivals).filter fun entry => entry.1.peer.ip = ip).map
    fun entry => entry.2.passes

end RateLimiter

/-- The times of the requests of a client. -/
def timesOf (ip : IpAddr) (arrivals : List Arrival) : List ℕ :=
  (arrivals.filter fun arrival => arrival.peer.ip = ip).map Arrival.now

omit [Curve] in
/-- The calls of a client that is alone are at its times. -/
theorem map_rateCall_times {ip : IpAddr} {arrivals : List Arrival}
    (h : ∀ arrival ∈ arrivals, arrival.peer.ip = ip) :
    (timesOf ip arrivals).map (RateCall.checkWithRemaining (.v4 127 0 0 1)) =
      arrivals.map Arrival.rateCall := by
  rw [timesOf, List.filter_eq_self.mpr fun arrival hmem => decide_eq_true (h arrival hmem),
    List.map_map]
  rfl

/-- Requests of the clients, none of them an administrator's, in the order of their times. -/
structure Ordinary (clients : Set IpAddr) (arrivals : List Arrival) : Prop where
  peers : ∀ arrival ∈ arrivals, arrival.peer.ip ∈ clients
  notAdmin : ∀ arrival ∈ arrivals, ¬ arrival.IsAdmin
  chronological : (arrivals.map Arrival.now).Pairwise (· ≤ ·)

/-- No request comes from another client. -/
theorem Ordinary.absent {clients : Set IpAddr} {arrivals : List Arrival} {ip : IpAddr}
    (h : Ordinary clients arrivals) (hip : ip ∉ clients) :
    ∀ arrival ∈ arrivals, arrival.peer.ip ≠ ip := by
  rintro arrival hmem rfl
  exact hip (h.peers arrival hmem)

/-- Whether the requests of a client are passed on depends on nothing but their times. -/
def NonInterfering (limit : ℕ) (clients : Set IpAddr) : Prop :=
  ∀ ip arrivals arrivals', Ordinary clients arrivals → Ordinary clients arrivals' →
    timesOf ip arrivals = timesOf ip arrivals' →
    (RateLimiter.new limit 60).passedOf ip arrivals =
      (RateLimiter.new limit 60).passedOf ip arrivals'

namespace RateLimiter

variable {limiter : RateLimiter} {arrivals : List Arrival} {ip : IpAddr}

/-! ### The one budget -/

/-- A request that is no administrator's is passed on as the limiter decides. -/
theorem serve_eq_call (limiter : RateLimiter) {arrival : Arrival} (h : ¬ arrival.IsAdmin) :
    (limiter.serve arrival).1.passes = (limiter.call arrival.rateCall).1 ∧
      (limiter.serve arrival).2 = (limiter.call arrival.rateCall).2 :=
  rateLimitMiddleware_eq_call (Bool.not_eq_true _ ▸ h)

/-- Requests are passed on as the calls for the fixed address are allowed. -/
theorem map_passes_admissions (h : ∀ arrival ∈ arrivals, ¬ arrival.IsAdmin) :
    ((limiter.admissions arrivals).map fun entry => entry.2.passes) =
      limiter.decisions (arrivals.map Arrival.rateCall) := by
  induction arrivals generalizing limiter with
  | nil => rfl
  | cons arrival rest ih =>
    obtain ⟨hpasses, hlimiter⟩ := serve_eq_call limiter (h arrival List.mem_cons_self)
    rw [admissions, List.map_cons, List.map_cons, decisions, hpasses, hlimiter,
      ih fun other hother => h other (List.mem_cons_of_mem _ hother)]

/-- They leave the limiter that the calls leave. -/
theorem after_serve (h : ∀ arrival ∈ arrivals, ¬ arrival.IsAdmin) (history : RateHistory) :
    Run.after (fun limiter arrival => (limiter.serve arrival).2) history.limiter arrivals =
      (Run.after RateHistory.call history (arrivals.map Arrival.rateCall)).limiter := by
  induction arrivals generalizing history with
  | nil => rfl
  | cons arrival rest ih =>
    obtain ⟨_, hlimiter⟩ := serve_eq_call history.limiter (h arrival List.mem_cons_self)
    rw [List.map_cons, Run.after_cons, Run.after_cons, hlimiter]
    exact ih (fun other hother => h other (List.mem_cons_of_mem _ hother))
      (history.call arrival.rateCall)

/-- Later requests are served by the limiter as the earlier ones have left it. -/
theorem admissions_append (more : List Arrival) :
    limiter.admissions (arrivals ++ more) = limiter.admissions arrivals ++
      (Run.after (fun limiter arrival => (limiter.serve arrival).2) limiter arrivals).admissions
        more := by
  induction arrivals generalizing limiter with
  | nil => rfl
  | cons arrival rest ih => rw [List.cons_append, admissions, admissions, ih, Run.after_cons,
      List.cons_append]

/-- Every admission is of one of the requests. -/
theorem mem_of_admissions {entry : Arrival × Admission} (h : entry ∈ limiter.admissions arrivals) :
    entry.1 ∈ arrivals := by
  induction arrivals generalizing limiter with
  | nil => cases h
  | cons arrival rest ih =>
    rcases List.mem_cons.mp h with rfl | h
    · exact List.mem_cons_self
    · exact List.mem_cons_of_mem _ (ih h)

/-- A client that is alone is passed on as the calls are allowed. -/
theorem passedOf_alone (h : ∀ arrival ∈ arrivals, ¬ arrival.IsAdmin)
    (halone : ∀ arrival ∈ arrivals, arrival.peer.ip = ip) :
    limiter.passedOf ip arrivals = limiter.decisions (arrivals.map Arrival.rateCall) := by
  rw [passedOf, List.filter_eq_self.mpr, map_passes_admissions h]
  exact fun entry hentry => decide_eq_true (halone entry.1 (mem_of_admissions hentry))

/-- Nothing of an absent client is passed on. -/
theorem passedOf_absent (h : ∀ arrival ∈ arrivals, arrival.peer.ip ≠ ip) :
    limiter.passedOf ip arrivals = [] := by
  rw [passedOf, List.map_eq_nil_iff, List.filter_eq_nil_iff]
  exact fun entry hentry hip => h entry.1 (mem_of_admissions hentry) (of_decide_eq_true hip)

/-- So are those of one client. -/
theorem passedOf_append (more : List Arrival) :
    limiter.passedOf ip (arrivals ++ more) = limiter.passedOf ip arrivals ++
      (Run.after (fun limiter arrival => (limiter.serve arrival).2) limiter arrivals).passedOf ip
        more := by
  rw [passedOf, admissions_append, List.filter_append, List.map_append]
  rfl

/-- Without a limit to use up nothing is passed on. -/
theorem passedOf_of_maxRequests_eq_zero (hzero : limiter.maxRequests = 0)
    (h : ∀ arrival ∈ arrivals, ¬ arrival.IsAdmin) :
    limiter.passedOf ip arrivals = List.replicate (timesOf ip arrivals).length false := by
  induction arrivals generalizing limiter with
  | nil => rfl
  | cons arrival rest ih =>
    obtain ⟨hpasses, hlimiter⟩ := serve_eq_call limiter (h arrival List.mem_cons_self)
    have hrefused : (limiter.serve arrival).1.passes = false := by
      rw [hpasses, call_eq_check, ← Bool.not_eq_true, check_fst, hzero]
      exact Nat.not_lt_zero _
    have hnext : (limiter.serve arrival).2.maxRequests = 0 := by
      rw [hlimiter, maxRequests_call, hzero]
    have hrest := ih hnext fun other hother => h other (List.mem_cons_of_mem _ hother)
    rw [passedOf] at hrest ⊢
    rw [admissions, timesOf, List.filter_cons, List.filter_cons]
    split
    · rw [List.map_cons, hrest, hrefused]
      rfl
    · exact hrest

end RateLimiter

/-! ### Two clients -/

/-- A request without a key at the start of the clock. -/
def Arrival.keyless (ip : IpAddr) : Arrival where
  peer := ⟨ip, 0⟩
  authorization := none
  requestId := none
  store := (Db.empty, Faults.never)
  now := 0

theorem ordinary_keyless {clients : Set IpAddr} {ips : List IpAddr} (h : ∀ ip ∈ ips, ip ∈ clients) :
    Ordinary clients (ips.map Arrival.keyless) := by
  refine ⟨?_, ?_, ?_⟩
  · intro arrival harrival
    obtain ⟨ip, hip, rfl⟩ := List.mem_map.mp harrival
    exact h ip hip
  · intro arrival harrival
    obtain ⟨ip, hip, rfl⟩ := List.mem_map.mp harrival
    exact Bool.false_ne_true
  · rw [List.map_map, List.pairwise_map]
    exact List.pairwise_of_forall fun _ _ => Nat.le_refl 0

namespace RateLimiter

variable {limit : ℕ} {other ip : IpAddr}

/-- A client is passed on as long as it is the first one. -/
theorem passedOf_first (hpos : 1 ≤ limit) (ip : IpAddr) :
    (new limit 60).passedOf ip ([ip].map Arrival.keyless) = [true] := by
  have hordinary : Ordinary Set.univ ([ip].map Arrival.keyless) :=
    ordinary_keyless fun _ _ => Set.mem_univ _
  have hallowed : ((new limit 60).call (Arrival.keyless ip).rateCall).1 = true := by
    rw [call_eq_check, check_fst, window_of_none rfl]
    exact hpos
  rw [passedOf_alone hordinary.notAdmin (by simp [Arrival.keyless]), List.map_singleton,
    List.map_singleton, decisions, hallowed, decisions]

/-- Another client can use up what is allowed to it. -/
theorem passedOf_second (hother : other ≠ ip) :
    (new limit 60).passedOf ip ((List.replicate limit other ++ [ip]).map Arrival.keyless) =
      [false] := by
  let made : RateCall := .checkWithRemaining (.v4 127 0 0 1) 0
  let used := (Run.after RateHistory.call (RateHistory.new limit 60)
    (List.replicate limit made)).limiter
  have hwindow : (new limit 60).window made.ip made.now = ⟨0, 0⟩ := window_of_none rfl
  have hcount : (used.window made.ip made.now).count = limit := by
    have hroom : ((RateHistory.new limit 60).limiter.window made.ip made.now).count + limit ≤
        (RateHistory.new limit 60).limiter.maxRequests := by
      rw [RateHistory.new, hwindow, Nat.zero_add]
      exact le_rfl
    have hafter := (RateHistory.after_replicate Nat.succ_pos' hroom).2
    rwa [RateHistory.new, hwindow, Nat.zero_add] at hafter
  have hlimit : used.maxRequests = limit := RateHistory.maxRequests_after _
  have hrefused : (used.call made).1 = false := by
    rw [← Bool.not_eq_true, call_eq_check, check_fst, hcount, hlimit]
    exact lt_irrefl limit
  have hburst : Ordinary Set.univ ((List.replicate limit other).map Arrival.keyless) :=
    ordinary_keyless fun _ _ => Set.mem_univ _
  have hlast : Ordinary Set.univ ([ip].map Arrival.keyless) :=
    ordinary_keyless fun _ _ => Set.mem_univ _
  have hused : Run.after (fun limiter arrival => (limiter.serve arrival).2) (new limit 60)
      ((List.replicate limit other).map Arrival.keyless) = used := by
    rw [show new limit 60 = (RateHistory.new limit 60).limiter from rfl,
      after_serve hburst.notAdmin, List.map_replicate, List.map_replicate]
    rfl
  have habsent : (new limit 60).passedOf ip
      ((List.replicate limit other).map Arrival.keyless) = [] := by
    refine passedOf_absent fun arrival harrival => ?_
    obtain ⟨client, hclient, rfl⟩ := List.mem_map.mp harrival
    rw [List.eq_of_mem_replicate hclient]
    exact hother
  rw [List.map_append, passedOf_append, habsent, hused, List.nil_append,
    passedOf_alone hlast.notAdmin (by simp [Arrival.keyless]), List.map_singleton,
    List.map_singleton, decisions, decisions]
  exact congrArg (fun allowed => [allowed]) hrefused

end RateLimiter

/-- Two clients are not apart if anything is allowed. -/
theorem not_nonInterfering {limit : ℕ} {clients : Set IpAddr} (hpos : 1 ≤ limit) {other ip : IpAddr}
    (hother : other ∈ clients) (hip : ip ∈ clients) (hne : other ≠ ip) :
    ¬ NonInterfering limit clients := by
  intro h
  have hboth : ∀ client ∈ List.replicate limit other ++ [ip], client ∈ clients := by
    intro client hclient
    rcases List.mem_append.mp hclient with hmem | hmem
    · rwa [List.eq_of_mem_replicate hmem]
    · rwa [List.mem_singleton.mp hmem]
  have hsingle : ∀ client ∈ [ip], client ∈ clients := by
    intro client hclient
    rwa [List.mem_singleton.mp hclient]
  have htimes : timesOf ip ((List.replicate limit other ++ [ip]).map Arrival.keyless) =
      timesOf ip ([ip].map Arrival.keyless) := by
    have hpeer : ¬ (Arrival.keyless other).peer.ip = ip := hne
    rw [timesOf, timesOf, List.map_append, List.filter_append, List.map_replicate,
      List.filter_replicate, if_neg (mt of_decide_eq_true hpeer), List.nil_append]
  have hsame := h ip _ _ (ordinary_keyless hboth) (ordinary_keyless hsingle) htimes
  rw [RateLimiter.passedOf_second hne, RateLimiter.passedOf_first hpos] at hsame
  cases hsame

/-- **Budgets.** Clients leave each other's budget alone exactly if nothing is allowed or
there is no second client. -/
theorem nonInterfering_iff (limit : ℕ) (clients : Set IpAddr) :
    NonInterfering limit clients ↔ limit = 0 ∨ clients.Subsingleton := by
  constructor
  · intro h
    by_contra hneither
    obtain ⟨hlimit, hclients⟩ := not_or.mp hneither
    obtain ⟨other, hother, ip, hip, hne⟩ := Set.not_subsingleton_iff.mp hclients
    exact not_nonInterfering (Nat.one_le_iff_ne_zero.mpr hlimit) hother hip hne h
  · rintro hwhen ip arrivals arrivals' h h' htimes
    rcases hwhen with rfl | hclients
    · rw [RateLimiter.passedOf_of_maxRequests_eq_zero rfl h.notAdmin,
        RateLimiter.passedOf_of_maxRequests_eq_zero rfl h'.notAdmin, htimes]
    · by_cases hip : ip ∈ clients
      · have halone (arrival : Arrival) (hmem : arrival ∈ arrivals) : arrival.peer.ip = ip :=
          hclients (h.peers arrival hmem) hip
        have halone' (arrival : Arrival) (hmem : arrival ∈ arrivals') : arrival.peer.ip = ip :=
          hclients (h'.peers arrival hmem) hip
        rw [RateLimiter.passedOf_alone h.notAdmin halone,
          RateLimiter.passedOf_alone h'.notAdmin halone', ← map_rateCall_times halone,
          ← map_rateCall_times halone', htimes]
      · rw [RateLimiter.passedOf_absent (h.absent hip), RateLimiter.passedOf_absent (h'.absent hip)]

omit [Curve] in
/-- A client uses up the single request a minute that is allowed, and the next client, from
another address, is refused. -/
theorem second_client_refused :
    letI := exponentCurve
    ¬ ∀ (limit : ℕ) (clients : Set IpAddr), NonInterfering limit clients := by
  let := exponentCurve
  intro h
  exact not_nonInterfering le_rfl (Set.mem_univ (.v4 203 0 113 1))
    (Set.mem_univ (.v4 203 0 113 2)) (by decide) (h 1 Set.univ)

end Sigimora.Server
