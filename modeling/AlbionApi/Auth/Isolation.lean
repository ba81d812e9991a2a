import AlbionApi.Auth.Guards
import AlbionApi.Limiter.Refinement

/-! # Keys do not share budgets

What a key's own requests observe is a function of these requests alone: its
window is charged by nobody without its secret, the cleanup that other keys
trigger is invisible, and usage rows name exactly the authenticated key.
-/

namespace AlbionApi

open RateLimiter SlidingWindow

variable (cr : Crypto) (keys : List ApiKeyRow)

/-- The key a request authenticates as: that of the row whose secret its credentials match,
on a route that asks for one. -/
def authenticatedId (req : Request) : Option Int64 :=
  match req.routeGuard, authenticate cr keys req with
  | .none, _ => none
  | _, .ok row => some row.id
  | _, .error _ => none

def ownRequests (k : Int64) (reqs : List (Request × ℕ)) : List Request :=
  (reqs.map Prod.fst).filter fun req => authenticatedId cr keys req = some k

/-- What a caller and the usage log see of an answer: the outcome of the guards, the limit
and the remaining quota of the headers, and the key the usage row is under. -/
structure Observation where
  outcome : Except Failure Unit
  quota : Option (ℕ × ℕ)
  loggedUnder : Option Int64

def Answer.observe (a : Answer) : Observation where
  outcome := a.outcome
  quota := a.rateLimit.map fun i => (i.limit.toNat, i.remaining.toNat)
  loggedUnder := a.usage.map UsageRow.apiKeyId

def ownObservations (rl : RateLimiter) (k : Int64) (reqs : List (Request × ℕ)) :
    List Observation :=
  ((reqs.map Prod.fst).zip (serveAll cr keys rl reqs)).filterMap fun (req, a) =>
    if authenticatedId cr keys req = some k then some a.observe else none

/-- The clock under the lock of the keyed windows does not run backwards. -/
def KeyClocked (reqs : List (Request × ℕ)) : Prop :=
  ((reqs.map Prod.fst).filter fun req => (authenticatedId cr keys req).isSome).Pairwise
    fun r r' => r.keyReading.now ≤ r'.keyReading.now

instance (reqs : List (Request × ℕ)) : Decidable (KeyClocked cr keys reqs) :=
  inferInstanceAs (Decidable (List.Pairwise _ _))

variable {cr keys}

theorem checkGlobal_disabled {rl : RateLimiter} (hg : rl.globalRpm = 0) (now : Instant)
    (systemNow : SystemTime) : rl.checkGlobal now systemNow = (.ok (true, none), rl) :=
  if_pos hg

theorem globalRateLimit_disabled {rl : RateLimiter} (hg : rl.globalRpm = 0) (cache : LocalCache)
    (req : Request) : GlobalRateLimit.fromRequest rl cache req = (.ok (), cache, rl) := by
  simp [GlobalRateLimit.fromRequest, checkGlobal_disabled hg, LocalCache.storeInfo]

@[simp] theorem storeAuthKeyId_authKeyId (id : Int64) :
    (({} : LocalCache).storeAuthKeyId id).authKeyId = some (some id) := rfl

@[simp] theorem storeAuthKeyId_rateLimitInfo (cache : LocalCache) (id : Int64) :
    (cache.storeAuthKeyId id).rateLimitInfo = cache.rateLimitInfo := rfl

@[simp] theorem storeInfo_authKeyId (cache : LocalCache) (info : Option RateLimitInfo) :
    (cache.storeInfo info).authKeyId = cache.authKeyId := by
  cases info <;> rfl

@[simp] theorem storeInfo_some (cache : LocalCache) (info : RateLimitInfo) :
    (cache.storeInfo (some info)).rateLimitInfo = some (some info) := rfl

@[simp] theorem storeInfo_none (cache : LocalCache) : cache.storeInfo none = cache := rfl

theorem checkPerKey_globalRpm (rl : RateLimiter) (k : Int64) (now : Instant)
    (systemNow : SystemTime) : (rl.checkPerKey k now systemNow).2.globalRpm = rl.globalRpm := by
  unfold checkPerKey
  split
  · rfl
  · split <;> rfl

def ownOutcome (req : Request) (row : ApiKeyRow) (v : Verdict) : Except Failure Unit :=
  if v.admitted then
    if req.routeGuard = .adminKey ∧ !row.isAdmin then
      .error (.error 403 (.forbidden "admin access required"))
    else .ok ()
  else .error tooManyRequests

theorem serve_authenticated {rl : RateLimiter} {req : Request} {row : ApiKeyRow}
    (hg : rl.globalRpm = 0) (hr : req.routeGuard ≠ .none)
    (ha : authenticate cr keys req = .ok row) (handlerStatus : ℕ) :
    (serve cr keys rl req handlerStatus).2 =
      (rl.checkPerKey row.id req.keyReading.now req.keyReading.systemNow).2 := by
  generalize hc : rl.checkPerKey row.id req.keyReading.now req.keyReading.systemNow = c
  obtain ⟨result, rl'⟩ := c
  have hkey : (AuthenticatedKey.fromRequest cr keys rl {} req).2.2 = rl' := by
    simp only [AuthenticatedKey.fromRequest, ha, hc]
    split <;> rfl
  cases hguard : req.routeGuard with
  | none => exact absurd hguard hr
  | authenticatedKey => simp [serve, runGuards, hguard, globalRateLimit_disabled hg, hkey]
  | adminKey =>
    have hadmin : (AdminKey.fromRequest cr keys rl {} req).2.2 = rl' := by
      rw [← hkey]
      unfold AdminKey.fromRequest
      split
      · next h =>
        rw [h]
        split <;> rfl
      · next h => rw [h]
    simp [serve, runGuards, hguard, globalRateLimit_disabled hg, hadmin]

theorem observe_authenticated {rl : RateLimiter} {req : Request} {row : ApiKeyRow} {v : Verdict}
    (hg : rl.globalRpm = 0) (hr : req.routeGuard ≠ .none)
    (ha : authenticate cr keys req = .ok row)
    (hv : verdictOf (rl.checkPerKey row.id req.keyReading.now req.keyReading.systemNow).1 =
      some v) (handlerStatus : ℕ) :
    (serve cr keys rl req handlerStatus).1.observe =
      ⟨ownOutcome req row v, v.quota, some row.id⟩ := by
  generalize hc : rl.checkPerKey row.id req.keyReading.now req.keyReading.systemNow = c at hv
  obtain ⟨result, rl'⟩ := c
  cases result with
  | error e => simp [verdictOf] at hv
  | ok check =>
    obtain ⟨admitted, info⟩ := check
    simp only [verdictOf, Option.some.injEq] at hv
    subst hv
    cases hguard : req.routeGuard with
    | none => exact absurd hguard hr
    | authenticatedKey =>
      cases admitted <;> cases info <;>
        simp [serve, runGuards, hguard, globalRateLimit_disabled hg, AuthenticatedKey.fromRequest,
          ha, hc, Answer.observe, ownOutcome, usageRow, rateLimitHeaders, Except.map]
    | adminKey =>
      cases admitted <;> cases info <;> cases hadmin : row.isAdmin <;>
        simp [serve, runGuards, hguard, globalRateLimit_disabled hg, AdminKey.fromRequest,
          AuthenticatedKey.fromRequest, AuthenticatedKey.ofRow, ha, hc, hadmin, Answer.observe,
          ownOutcome, usageRow, rateLimitHeaders, Except.map]

theorem serve_unauthenticated {rl : RateLimiter} {req : Request} (hg : rl.globalRpm = 0)
    (ha : authenticatedId cr keys req = none) (handlerStatus : ℕ) :
    (serve cr keys rl req handlerStatus).2 = rl := by
  cases hguard : req.routeGuard with
  | none => simp [serve, runGuards, hguard]
  | authenticatedKey =>
    cases hauth : authenticate cr keys req with
    | error f =>
      simp [serve, runGuards, hguard, globalRateLimit_disabled hg, AuthenticatedKey.fromRequest,
        hauth]
    | ok row => simp [authenticatedId, hguard, hauth] at ha
  | adminKey =>
    cases hauth : authenticate cr keys req with
    | error f =>
      simp [serve, runGuards, hguard, globalRateLimit_disabled hg, AdminKey.fromRequest,
        AuthenticatedKey.fromRequest, hauth]
    | ok row => simp [authenticatedId, hguard, hauth] at ha

variable (cr keys) in
theorem fromRequest_authKeyId (rl : RateLimiter) (req : Request) :
    (AuthenticatedKey.fromRequest cr keys rl {} req).2.1.authKeyId =
      match authenticate cr keys req with
      | .ok row => some (some row.id)
      | .error _ => none := by
  unfold AuthenticatedKey.fromRequest
  split
  · next f hauth => rw [hauth]
  · next row hauth =>
    rw [hauth]
    dsimp only
    split <;> simp

variable (cr keys) in
theorem adminKey_authKeyId (rl : RateLimiter) (req : Request) :
    (AdminKey.fromRequest cr keys rl {} req).2.1.authKeyId =
      (AuthenticatedKey.fromRequest cr keys rl {} req).2.1.authKeyId := by
  unfold AdminKey.fromRequest
  split
  · next h =>
    rw [h]
    split <;> rfl
  · next h => rw [h]

theorem serve_usage {rl : RateLimiter} {req : Request} (hg : rl.globalRpm = 0)
    (handlerStatus : ℕ) :
    (serve cr keys rl req handlerStatus).1.usage =
      (authenticatedId cr keys req).map fun id =>
        ⟨id, req.method, req.path, (serve cr keys rl req handlerStatus).1.status⟩ := by
  have hid := fromRequest_authKeyId cr keys rl req
  cases hguard : req.routeGuard with
  | none => simp [serve, runGuards, hguard, usageRow, authenticatedId]
  | authenticatedKey =>
    cases hauth : authenticate cr keys req <;> rw [hauth] at hid <;>
      simp [serve, runGuards, hguard, globalRateLimit_disabled hg, usageRow, authenticatedId,
        hauth, hid]
  | adminKey =>
    have hadmin := adminKey_authKeyId cr keys rl req
    cases hauth : authenticate cr keys req <;> rw [hauth] at hid <;>
      simp [serve, runGuards, hguard, globalRateLimit_disabled hg, usageRow, authenticatedId,
        hauth, hadmin, hid]

theorem authenticatedId_eq_some {req : Request} {k : Int64}
    (h : authenticatedId cr keys req = some k) :
    req.routeGuard ≠ .none ∧ ∃ row, authenticate cr keys req = .ok row ∧ row.id = k := by
  cases hguard : req.routeGuard <;> cases hauth : authenticate cr keys req <;>
    simp_all [authenticatedId]

/-! ## Whole runs -/

section Run

variable {limit : Scope → Option ℕ} {k : Int64}

/-- What the requests of one key observe of a reference limiter that keeps the log. -/
def referenceObservations (cr : Crypto) (keys : List ApiKeyRow) (limit : Scope → Option ℕ)
    (k : Int64) (log : List (Scope × Instant)) : List Request → List Observation
  | [] => []
  | req :: reqs =>
    let rest := referenceObservations cr keys limit k
      (record limit windowDuration log (.perKey k) req.keyReading.now) reqs
    match authenticate cr keys req with
    | .error _ => rest
    | .ok row =>
      let v := verdict limit windowDuration log (.perKey k) req.keyReading.now
      ⟨ownOutcome req row v, v.quota, some k⟩ :: rest

theorem referenceObservations_congr {log log' : List (Scope × Instant)} (reqs : List Request)
    (h : times log (.perKey k) = times log' (.perKey k)) :
    referenceObservations cr keys limit k log reqs =
      referenceObservations cr keys limit k log' reqs := by
  induction reqs generalizing log log' with
  | nil => rfl
  | cons req reqs ih =>
    simp only [referenceObservations]
    rw [verdict_congr h, ih (times_record_congr h _)]

variable {rl : RateLimiter} {last : Lock → WithBot Instant} {log : List (Scope × Instant)}

theorem ownRequests_cons (r : Request × ℕ) (reqs : List (Request × ℕ)) :
    ownRequests cr keys k (r :: reqs) =
      if authenticatedId cr keys r.1 = some k then r.1 :: ownRequests cr keys k reqs
      else ownRequests cr keys k reqs := by
  simp only [ownRequests, List.map_cons, List.filter_cons, decide_eq_true_eq]

theorem ownObservations_cons (r : Request × ℕ) (reqs : List (Request × ℕ)) :
    ownObservations cr keys rl k (r :: reqs) =
      if authenticatedId cr keys r.1 = some k then
        (serve cr keys rl r.1 r.2).1.observe ::
          ownObservations cr keys (serve cr keys rl r.1 r.2).2 k reqs
      else ownObservations cr keys (serve cr keys rl r.1 r.2).2 k reqs := by
  simp only [ownObservations, serveAll, List.map_cons, List.zip_cons_cons, List.filterMap_cons]
  split <;> simp_all

theorem keyClocked_cons {r : Request × ℕ} {reqs : List (Request × ℕ)}
    (h : KeyClocked cr keys (r :: reqs)) :
    KeyClocked cr keys reqs ∧ ((authenticatedId cr keys r.1).isSome →
      ∀ r' ∈ reqs, (authenticatedId cr keys r'.1).isSome →
        r.1.keyReading.now ≤ r'.1.keyReading.now) := by
  unfold KeyClocked at h
  rw [List.map_cons, List.filter_cons] at h
  split at h
  · rw [List.pairwise_cons] at h
    refine ⟨h.2, fun _ r' hr' hs => h.1 r'.1 ?_⟩
    exact List.mem_filter.mpr ⟨List.mem_map_of_mem hr', hs⟩
  · next hn => exact ⟨h, fun hs => absurd hs hn⟩

theorem serve_step {req : Request} {id : Int64} (hg : rl.globalRpm = 0)
    (h : Simulates rl last log) (ha : authenticatedId cr keys req = some id)
    (hl : last .perKeyWindows ≤ req.keyReading.now) (handlerStatus : ℕ) :
    let now := req.keyReading.now
    let rl' := (serve cr keys rl req handlerStatus).2
    (∃ row, authenticate cr keys req = .ok row ∧
      (serve cr keys rl req handlerStatus).1.observe =
        ⟨ownOutcome req row (verdict rl.limit windowDuration log (.perKey id) now),
          (verdict rl.limit windowDuration log (.perKey id) now).quota, some id⟩) ∧
      Simulates rl' (Function.update last .perKeyWindows now)
        (record rl.limit windowDuration log (.perKey id) now) ∧
      rl'.limit = rl.limit ∧ rl'.globalRpm = 0 := by
  obtain ⟨hr, row, hauth, rfl⟩ := authenticatedId_eq_some ha
  obtain ⟨hv, hsim, hlim⟩ := h.check (s := .perKey row.id) hl req.keyReading.systemNow
  simp only [serve_authenticated hg hr hauth handlerStatus]
  exact ⟨⟨row, hauth, observe_authenticated hg hr hauth hv handlerStatus⟩, hsim, hlim,
    (checkPerKey_globalRpm ..).trans hg⟩

/-- From a limiter that stands for a log, a key's requests observe the reference limiter
run on these requests alone. -/
theorem ownObservations_eq {reqs : List (Request × ℕ)} (hg : rl.globalRpm = 0)
    (h : Simulates rl last log)
    (hl : ∀ r ∈ reqs, (authenticatedId cr keys r.1).isSome →
      last .perKeyWindows ≤ r.1.keyReading.now)
    (hc : KeyClocked cr keys reqs) :
    ownObservations cr keys rl k reqs =
      referenceObservations cr keys rl.limit k log (ownRequests cr keys k reqs) := by
  induction reqs generalizing rl last log with
  | nil => rfl
  | cons r reqs ih =>
    obtain ⟨hc', hle⟩ := keyClocked_cons hc
    rw [ownObservations_cons, ownRequests_cons]
    cases ha : authenticatedId cr keys r.1 with
    | none =>
      rw [serve_unauthenticated hg ha r.2, if_neg (by simp), if_neg (by simp)]
      exact ih hg h (fun r' hr' => hl r' (List.mem_cons_of_mem _ hr')) hc'
    | some id =>
      rw [ha] at hle
      have hlr := hl r List.mem_cons_self (by simp [ha])
      obtain ⟨⟨row, hauth, ho⟩, hsim, hlim, hg'⟩ := serve_step hg h ha hlr r.2
      have hrest := ih hg' hsim (fun r' hr' hs => by
        rw [Function.update_self]
        exact WithBot.coe_le_coe.mpr (hle rfl r' hr' hs)) hc'
      rw [hlim] at hrest
      by_cases hk : id = k
      · subst id
        rw [if_pos rfl, if_pos rfl, hrest]
        simp only [referenceObservations, hauth, ho]
      · rw [if_neg (by simpa using hk), if_neg (by simpa using hk), hrest]
        apply referenceObservations_congr
        exact times_record_of_ne log _ (by simpa using hk)

theorem serve_globalRpm {rl : RateLimiter} {req : Request} (hg : rl.globalRpm = 0)
    (handlerStatus : ℕ) : (serve cr keys rl req handlerStatus).2.globalRpm = 0 := by
  cases ha : authenticatedId cr keys req with
  | none => rw [serve_unauthenticated hg ha, hg]
  | some id =>
    obtain ⟨hr, row, hauth, rfl⟩ := authenticatedId_eq_some ha
    rw [serve_authenticated hg hr hauth, checkPerKey_globalRpm, hg]

theorem serveAll_usage {reqs : List (Request × ℕ)} (hg : rl.globalRpm = 0) :
    ∀ p ∈ (reqs.map Prod.fst).zip (serveAll cr keys rl reqs),
      p.2.usage = (authenticatedId cr keys p.1).map fun id =>
        ⟨id, p.1.method, p.1.path, p.2.status⟩ := by
  induction reqs generalizing rl with
  | nil => simp [serveAll]
  | cons r reqs ih =>
    intro p hp
    simp only [serveAll, List.map_cons, List.zip_cons_cons, List.mem_cons] at hp
    rcases hp with rfl | hp
    · exact serve_usage hg r.2
    · exact ih (serve_globalRpm hg r.2) p hp

end Run

/-- Whatever else a server answers in between, the requests of a key observe the same
outcomes, limits, remaining quotas and usage rows in any two runs that share them; and in
any run an answer is logged under exactly the key its request authenticates as, rejected
or not. -/
theorem key_isolated (cr : Crypto) (keys : List ApiKeyRow) (perKeyRpm : UInt64) (k : Int64)
    (reqs reqs' : List (Request × ℕ)) (hc : KeyClocked cr keys reqs)
    (hc' : KeyClocked cr keys reqs')
    (hown : ownRequests cr keys k reqs = ownRequests cr keys k reqs') :
    ownObservations cr keys (new 0 perKeyRpm) k reqs =
        ownObservations cr keys (new 0 perKeyRpm) k reqs' ∧
      ∀ p ∈ (reqs.map Prod.fst).zip (serveAll cr keys (new 0 perKeyRpm) reqs),
        p.2.usage = (authenticatedId cr keys p.1).map fun id =>
          ⟨id, p.1.method, p.1.path, p.2.status⟩ := by
  have hsim := simulates_new 0 perKeyRpm fun _ => ⊥
  refine ⟨?_, serveAll_usage rfl⟩
  rw [ownObservations_eq rfl hsim (fun _ _ _ => bot_le) hc,
    ownObservations_eq rfl hsim (fun _ _ _ => bot_le) hc', hown]

def oneKeyCrypto : Crypto where
  base64Decode encoded := if encoded = "YTpi" then some "a:b".toUTF8 else none
  Hash := String
  parseHash := some
  verifyPassword secret hash := secret = hash

/-- A request of key 1 before and after a request without credentials. -/
theorem key_isolated_anonymous :
    let keys : List ApiKeyRow := [⟨1, "a", "b", "", "", true, false⟩]
    let own : Request :=
      ⟨"GET", "/registry", some "Basic YTpi", .authenticatedKey, true, ⟨0, 0⟩, ⟨0, 0⟩⟩
    let anonymous : Request := { own with authorization := none }
    authenticatedId oneKeyCrypto keys own = some 1 ∧
      ownObservations oneKeyCrypto keys (new 0 1) 1 [(own, 200), (anonymous, 200), (own, 200)] =
        ownObservations oneKeyCrypto keys (new 0 1) 1 [(own, 200), (own, 200)] := by
  intro keys own anonymous
  exact ⟨by decide, (key_isolated oneKeyCrypto keys 1 1 [(own, 200), (anonymous, 200), (own, 200)]
    [(own, 200), (own, 200)] (by decide) (by decide) (by decide)).1⟩

end AlbionApi
