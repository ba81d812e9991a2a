import AlbionApi.Auth.Isolation

/-! # The guards in their steps

A guarded request takes three steps: the global limit, the credential check and
the charge of its key. The guards of a route are these steps in a row.
-/

namespace AlbionApi

def AuthenticatedKey.charge (row : ApiKeyRow) (rl : RateLimiter) (cache : LocalCache)
    (req : Request) : GuardResult AuthenticatedKey :=
  let cache := cache.storeAuthKeyId row.id
  let (result, rl) := rl.checkPerKey row.id req.keyReading.now req.keyReading.systemNow
  match result with
  | .ok (true, info) => (.ok (ofRow row), cache.storeInfo info, rl)
  | .ok (false, info) => (.error tooManyRequests, cache.storeInfo info, rl)
  | .error e => (.error (.error 500 e), cache, rl)

def checkAdmin (guard : RouteGuard) (key : AuthenticatedKey) : Except Failure Unit :=
  if guard = .adminKey ∧ !key.isAdmin then
    .error (.error 403 (.forbidden "admin access required"))
  else .ok ()

def respond (req : Request) (cache : LocalCache) (outcome : Except Failure Unit)
    (handlerStatus : ℕ) : Answer :=
  let status := responseStatus handlerStatus outcome
  { outcome := outcome, status := status, rateLimit := rateLimitHeaders cache,
    usage := usageRow cache req status }

section Steps

variable {cr : Crypto} {keys : List ApiKeyRow} {rl : RateLimiter} {req : Request}

theorem authenticatedKey_fromRequest (cache : LocalCache) :
    AuthenticatedKey.fromRequest cr keys rl cache req =
      match authenticate cr keys req with
      | .error f => (.error f, cache, rl)
      | .ok row => AuthenticatedKey.charge row rl cache req := by
  unfold AuthenticatedKey.fromRequest
  cases authenticate cr keys req <;> rfl

/-- The guards of a route that needs a key, in their steps. -/
theorem runGuards_of_ne_none (hr : req.routeGuard ≠ .none) : runGuards cr keys rl req =
    match GlobalRateLimit.fromRequest rl {} req with
    | (.error f, cache, rl) => (.error f, cache, rl)
    | (.ok (), cache, rl) =>
      match authenticate cr keys req with
      | .error f => (.error f, cache, rl)
      | .ok row =>
        let c := AuthenticatedKey.charge row rl cache req
        (c.1.bind (checkAdmin req.routeGuard), c.2) := by
  unfold runGuards
  obtain ⟨result, cache, rl'⟩ := GlobalRateLimit.fromRequest rl {} req
  cases hguard : req.routeGuard with
  | none => exact absurd hguard hr
  | authenticatedKey =>
    cases result with
    | error f => rfl
    | ok =>
      simp only [authenticatedKey_fromRequest]
      cases authenticate cr keys req with
      | error f => rfl
      | ok row =>
        dsimp only
        generalize AuthenticatedKey.charge row rl' cache req = c
        obtain ⟨outcome, rest⟩ := c
        cases outcome <;> rfl
  | adminKey =>
    cases result with
    | error f => rfl
    | ok =>
      simp only [AdminKey.fromRequest, authenticatedKey_fromRequest]
      cases authenticate cr keys req with
      | error f => rfl
      | ok row =>
        dsimp only
        generalize AuthenticatedKey.charge row rl' cache req = c
        obtain ⟨outcome, cache', rl''⟩ := c
        cases outcome with
        | error f => rfl
        | ok key =>
          simp only [checkAdmin, Except.bind, true_and]
          cases key.isAdmin <;> rfl

theorem respond_error {cache : LocalCache} {f : Failure} (n m : ℕ) :
    respond req cache (.error f) n = respond req cache (.error f) m := by
  cases f <;> rfl

/-! ## What a step leaves alone -/

theorem checkGlobal_perKeyWindows (rl : RateLimiter) (now : Instant) (systemNow : SystemTime) :
    (rl.checkGlobal now systemNow).2.perKeyWindows = rl.perKeyWindows := by
  unfold RateLimiter.checkGlobal
  split
  · rfl
  · split <;> rfl

theorem globalRateLimit_frame (rl : RateLimiter) (cache : LocalCache) (req : Request) :
    (GlobalRateLimit.fromRequest rl cache req).2.1.authKeyId = cache.authKeyId ∧
      (GlobalRateLimit.fromRequest rl cache req).2.2.perKeyWindows = rl.perKeyWindows := by
  have hw := checkGlobal_perKeyWindows rl req.globalReading.now req.globalReading.systemNow
  unfold GlobalRateLimit.fromRequest
  generalize rl.checkGlobal req.globalReading.now req.globalReading.systemNow = checked at hw
  obtain ⟨result, rl'⟩ := checked
  cases result with
  | error e => exact ⟨rfl, hw⟩
  | ok check =>
    obtain ⟨admitted, info⟩ := check
    cases admitted <;> exact ⟨storeInfo_authKeyId .., hw⟩

theorem respond_usage_of_anonymous {cache : LocalCache} (h : cache.authKeyId = none)
    (req : Request) (outcome : Except Failure Unit) (handlerStatus : ℕ) :
    (respond req cache outcome handlerStatus).usage = none := by
  simp [respond, usageRow, h]

theorem charge_frame {row : ApiKeyRow} {rl limiter : RateLimiter} {cache cache' : LocalCache}
    {req : Request} {result : Except Failure AuthenticatedKey}
    (h : AuthenticatedKey.charge row rl cache req = (result, cache', limiter)) :
    limiter = (rl.checkPerKey row.id req.keyReading.now req.keyReading.systemNow).2 ∧
      cache'.authKeyId = (cache.storeAuthKeyId row.id).authKeyId := by
  unfold AuthenticatedKey.charge at h
  generalize rl.checkPerKey row.id req.keyReading.now req.keyReading.systemNow = c at h
  obtain ⟨checked, rl'⟩ := c
  cases checked with
  | error e =>
    cases h
    exact ⟨rfl, rfl⟩
  | ok check =>
    obtain ⟨admitted, info⟩ := check
    cases admitted <;> cases h <;> exact ⟨rfl, storeInfo_authKeyId ..⟩

theorem respond_usage_of_charge {row : ApiKeyRow} {rl limiter : RateLimiter}
    {cache cache' : LocalCache} {req : Request} {result : Except Failure AuthenticatedKey}
    (h : AuthenticatedKey.charge row rl cache req = (result, cache', limiter))
    (ha : cache.authKeyId = none) (outcome : Except Failure Unit) (handlerStatus : ℕ) :
    (respond req cache' outcome handlerStatus).usage =
      some ⟨row.id, req.method, req.path, responseStatus handlerStatus outcome⟩ := by
  have hid : cache'.authKeyId = some (some row.id) := by
    rw [(charge_frame h).2, LocalCache.storeAuthKeyId, ha]
    rfl
  simp [respond, usageRow, hid]

end Steps

end AlbionApi
