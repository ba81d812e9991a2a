import AlbionApi.Auth.Steps

/-! # Both limits together

Every guarded request is charged to the global window, and if its credentials
are good to the window of its key. With both limits in any setting, the answers
of a run are those of a reference limiter that keeps the log of all admissions.
-/

namespace AlbionApi

open RateLimiter SlidingWindow

section Reference

variable (cr : Crypto) (keys : List ApiKeyRow) (limit : Scope → Option ℕ)

/-- What a request observes of a reference limiter that keeps the log, and the log after it. -/
def referenceServe (log : List (Scope × Instant)) (req : Request) :
    Observation × List (Scope × Instant) :=
  if req.routeGuard = .none then (⟨.ok (), none, none⟩, log)
  else
    let g := verdict limit windowDuration log .global req.globalReading.now
    let log := record limit windowDuration log .global req.globalReading.now
    if g.admitted then
      match authenticate cr keys req with
      | .error f => (⟨.error f, g.quota, none⟩, log)
      | .ok row =>
        let v := verdict limit windowDuration log (.perKey row.id) req.keyReading.now
        -- The headers show the key's quota if its limit is active.
        (⟨ownOutcome req row v, v.quota.or g.quota, some row.id⟩,
          record limit windowDuration log (.perKey row.id) req.keyReading.now)
    else (⟨.error tooManyRequests, g.quota, none⟩, log)

def referenceServeAll (log : List (Scope × Instant)) :
    List Request → List Observation × List (Scope × Instant)
  | [] => ([], log)
  | req :: reqs =>
    let step := referenceServe cr keys limit log req
    let rest := referenceServeAll step.2 reqs
    (step.1 :: rest.1, rest.2)

/-- The clock does not run backwards under the lock of the global window. -/
def GlobalClocked (reqs : List Request) : Prop :=
  (reqs.filter fun req => req.routeGuard ≠ .none).Pairwise fun r r' =>
    r.globalReading.now ≤ r'.globalReading.now

instance (reqs : List Request) : Decidable (GlobalClocked reqs) :=
  inferInstanceAs (Decidable (List.Pairwise _ _))

def handledTimes (charged : Request → Option Instant) (reqs : List Request)
    (observations : List Observation) : List Instant :=
  (reqs.zip observations).filterMap fun p =>
    if p.2.outcome = .ok () then charged p.1 else none

/-- The reading of the global window, which a guarded request is charged to. -/
def globalTime (req : Request) : Option Instant :=
  if req.routeGuard = .none then none else some req.globalReading.now

/-- The reading of a key's window, which a request of the key is charged to. -/
def keyTime (k : Int64) (req : Request) : Option Instant :=
  if authenticatedId cr keys req = some k then some req.keyReading.now else none

end Reference

section Serve

variable {cr : Crypto} {keys : List ApiKeyRow} {rl rl' : RateLimiter} {req : Request}
  {last : Lock → WithBot Instant} {log : List (Scope × Instant)} {v : Verdict}
  {cache : LocalCache}

def LocalCache.quota (cache : LocalCache) : Option (ℕ × ℕ) :=
  (rateLimitHeaders cache).map fun i => (i.limit.toNat, i.remaining.toNat)

theorem quota_storeInfo (cache : LocalCache) (info : Option RateLimitInfo) :
    (cache.storeInfo info).quota =
      (info.map fun i => (i.limit.toNat, i.remaining.toNat)).or cache.quota := by
  cases info <;> rfl

theorem globalRateLimit_of_verdict
    (hv : verdictOf (rl.checkGlobal req.globalReading.now req.globalReading.systemNow).1 =
      some v) : ∃ cache : LocalCache,
      GlobalRateLimit.fromRequest rl {} req =
        (if v.admitted then .ok () else .error tooManyRequests, cache,
          (rl.checkGlobal req.globalReading.now req.globalReading.systemNow).2) ∧
      cache.authKeyId = none ∧ cache.quota = v.quota := by
  unfold GlobalRateLimit.fromRequest
  generalize rl.checkGlobal req.globalReading.now req.globalReading.systemNow = c at hv
  obtain ⟨result, rl'⟩ := c
  cases result with
  | error e => cases hv
  | ok check =>
    obtain ⟨admitted, info⟩ := check
    cases hv
    refine ⟨({} : LocalCache).storeInfo info, ?_, storeInfo_authKeyId .., ?_⟩
    · cases admitted <;> rfl
    · rw [quota_storeInfo]
      exact Option.or_none

theorem charge_of_verdict {row : ApiKeyRow} (ha : cache.authKeyId = none)
    (hv : verdictOf (rl.checkPerKey row.id req.keyReading.now req.keyReading.systemNow).1 =
      some v) : ∃ cache' : LocalCache,
      AuthenticatedKey.charge row rl cache req =
        (if v.admitted then .ok (AuthenticatedKey.ofRow row) else .error tooManyRequests, cache',
          (rl.checkPerKey row.id req.keyReading.now req.keyReading.systemNow).2) ∧
      cache'.authKeyId = some (some row.id) ∧ cache'.quota = v.quota.or cache.quota := by
  unfold AuthenticatedKey.charge
  generalize rl.checkPerKey row.id req.keyReading.now req.keyReading.systemNow = c at hv
  obtain ⟨result, rl'⟩ := c
  cases result with
  | error e => cases hv
  | ok check =>
    obtain ⟨admitted, info⟩ := check
    cases hv
    refine ⟨(cache.storeAuthKeyId row.id).storeInfo info, ?_, ?_, ?_⟩
    · cases admitted <;> rfl
    · rw [storeInfo_authKeyId, LocalCache.storeAuthKeyId, ha]
      rfl
    · rw [quota_storeInfo]
      rfl

theorem observe_respond (outcome : Except Failure Unit) (handlerStatus : ℕ) :
    (respond req cache outcome handlerStatus).observe =
      ⟨outcome, cache.quota, cache.authKeyId.getD none⟩ := by
  cases h : cache.authKeyId.getD none <;>
    simp [Answer.observe, respond, usageRow, LocalCache.quota, h]

theorem bind_checkAdmin (row : ApiKeyRow) :
    ((if v.admitted then .ok (AuthenticatedKey.ofRow row) else .error tooManyRequests :
      Except Failure AuthenticatedKey).bind (checkAdmin req.routeGuard)) =
        ownOutcome req row v := by
  unfold ownOutcome
  split
  · rfl
  · rfl

structure SeenBy (cr : Crypto) (keys : List ApiKeyRow) (req : Request)
    (last last' : Lock → WithBot Instant) : Prop where
  globalWindow : ∀ t, last .globalWindow ≤ t →
    (req.routeGuard ≠ .none → (req.globalReading.now : WithBot Instant) ≤ t) →
      last' .globalWindow ≤ t
  perKeyWindows : ∀ t, last .perKeyWindows ≤ t →
    ((authenticatedId cr keys req).isSome → (req.keyReading.now : WithBot Instant) ≤ t) →
      last' .perKeyWindows ≤ t

theorem authenticatedId_of_ok {row : ApiKeyRow} (hr : req.routeGuard ≠ .none)
    (ha : authenticate cr keys req = .ok row) : authenticatedId cr keys req = some row.id := by
  unfold authenticatedId
  rw [ha]
  cases hguard : req.routeGuard with
  | none => exact absurd hguard hr
  | authenticatedKey => rfl
  | adminKey => rfl

theorem serve_of_admitted {row : ApiKeyRow} (hr : req.routeGuard ≠ .none)
    (hf : GlobalRateLimit.fromRequest rl {} req = (.ok (), cache, rl'))
    (ha : authenticate cr keys req = .ok row) (hn : cache.authKeyId = none)
    (hv : verdictOf (rl'.checkPerKey row.id req.keyReading.now req.keyReading.systemNow).1 =
      some v) (handlerStatus : ℕ) :
    (serve cr keys rl req handlerStatus).1.observe =
        ⟨ownOutcome req row v, v.quota.or cache.quota, some row.id⟩ ∧
      (serve cr keys rl req handlerStatus).2 =
        (rl'.checkPerKey row.id req.keyReading.now req.keyReading.systemNow).2 := by
  obtain ⟨cache', hcharge, hid, hq⟩ := charge_of_verdict hn hv
  have hs : serve cr keys rl req handlerStatus =
      (respond req cache' (ownOutcome req row v) handlerStatus,
        (rl'.checkPerKey row.id req.keyReading.now req.keyReading.systemNow).2) := by
    simp only [serve, runGuards_of_ne_none hr, hf, ha, hcharge, bind_checkAdmin]
    rfl
  rw [hs, observe_respond, hid, hq]
  exact ⟨rfl, rfl⟩

theorem serve_of_stopped {f : Failure} (hr : req.routeGuard ≠ .none)
    (hf : GlobalRateLimit.fromRequest rl {} req = (.error f, cache, rl') ∨
      GlobalRateLimit.fromRequest rl {} req = (.ok (), cache, rl') ∧
        authenticate cr keys req = .error f)
    (hn : cache.authKeyId = none) (handlerStatus : ℕ) :
    (serve cr keys rl req handlerStatus).1.observe = ⟨.error f, cache.quota, none⟩ ∧
      (serve cr keys rl req handlerStatus).2 = rl' := by
  have hs : serve cr keys rl req handlerStatus =
      (respond req cache (.error f) handlerStatus, rl') := by
    rcases hf with hf | ⟨hf, ha⟩
    · simp only [serve, runGuards_of_ne_none hr, hf]
      rfl
    · simp only [serve, runGuards_of_ne_none hr, hf, ha]
      rfl
  rw [hs, observe_respond, hn]
  exact ⟨rfl, rfl⟩

theorem seenBy_globalWindow (hr : req.routeGuard ≠ .none) : SeenBy cr keys req last
    (Function.update last .globalWindow req.globalReading.now) where
  globalWindow t _ hnow := by
    rw [Function.update_self]
    exact hnow hr
  perKeyWindows t ht _ := by
    rw [Function.update_of_ne (by decide)]
    exact ht

theorem SeenBy.perKeyWindow {last' : Lock → WithBot Instant} (h : SeenBy cr keys req last last')
    (ha : (authenticatedId cr keys req).isSome) : SeenBy cr keys req last
      (Function.update last' .perKeyWindows req.keyReading.now) where
  globalWindow t ht hnow := by
    rw [Function.update_of_ne (by decide)]
    exact h.globalWindow t ht hnow
  perKeyWindows t _ hnow := by
    rw [Function.update_self]
    exact hnow ha

/-- A request is answered as by the reference limiter, whatever limits are active. -/
theorem serve_refines (h : Simulates rl last log)
    (hg : req.routeGuard ≠ .none → last .globalWindow ≤ req.globalReading.now)
    (hk : (authenticatedId cr keys req).isSome → last .perKeyWindows ≤ req.keyReading.now)
    (handlerStatus : ℕ) :
    let reference := referenceServe cr keys rl.limit log req
    (serve cr keys rl req handlerStatus).1.observe = reference.1 ∧
      (serve cr keys rl req handlerStatus).2.limit = rl.limit ∧
      ∃ last', SeenBy cr keys req last last' ∧
        Simulates (serve cr keys rl req handlerStatus).2 last' reference.2 := by
  by_cases hr : req.routeGuard = .none
  · have hs : serve cr keys rl req handlerStatus = (respond req {} (.ok ()) handlerStatus, rl) := by
      simp only [serve, runGuards, hr]
      rfl
    rw [hs, referenceServe, if_pos hr]
    exact ⟨observe_respond .., rfl, last, ⟨fun _ ht _ => ht, fun _ ht _ => ht⟩, h⟩
  rw [referenceServe, if_neg hr]
  obtain ⟨hv, hsim, hlim⟩ := h.check (s := .global) (hg hr) req.globalReading.systemNow
  obtain ⟨cache, hf, hn, hq⟩ := globalRateLimit_of_verdict hv
  dsimp only
  rw [← hq]
  have hseen : SeenBy cr keys req last
      (Function.update last .globalWindow req.globalReading.now) := seenBy_globalWindow hr
  by_cases hadm : (verdict rl.limit windowDuration log .global req.globalReading.now).admitted
  · rw [if_pos hadm] at hf ⊢
    cases ha : authenticate cr keys req with
    | error f =>
      obtain ⟨ho, hl⟩ := serve_of_stopped hr (Or.inr ⟨hf, ha⟩) hn handlerStatus
      rw [ho, hl]
      exact ⟨rfl, hlim, _, hseen, hsim⟩
    | ok row =>
      have hid : (authenticatedId cr keys req).isSome := by
        rw [authenticatedId_of_ok hr ha]
        rfl
      obtain ⟨hv', hsim', hlim'⟩ := hsim.check (s := .perKey row.id)
        (by
          rw [Scope.lock, Scope.lock, Function.update_of_ne (by decide)]
          exact hk hid) req.keyReading.systemNow
      obtain ⟨ho, hl⟩ := serve_of_admitted hr hf ha hn hv' handlerStatus
      rw [hlim] at ho hsim'
      rw [ho, hl]
      exact ⟨rfl, hlim'.trans hlim, _, hseen.perKeyWindow hid, hsim'⟩
  · rw [if_neg hadm] at hf ⊢
    obtain ⟨ho, hl⟩ := serve_of_stopped hr (Or.inl hf) hn handlerStatus
    rw [ho, hl]
    exact ⟨rfl, hlim, _, hseen, hsim⟩

end Serve

/-! ## Runs -/

section Run

variable {cr : Crypto} {keys : List ApiKeyRow} {limit : Scope → Option ℕ}
  {log : List (Scope × Instant)} {req : Request} {charged : Request → Option Instant}

theorem handledTimes_cons (req : Request) (reqs : List Request) (o : Observation)
    (observations : List Observation) :
    handledTimes charged (req :: reqs) (o :: observations) =
      handledTimes charged [req] [o] ++ handledTimes charged reqs observations := by
  simp only [handledTimes, List.zip_cons_cons, List.zip_nil_left, List.filterMap_cons,
    List.filterMap_nil]
  split <;> rfl

theorem handledTimes_of_ne {o : Observation} (h : o.outcome ≠ .ok ()) :
    handledTimes charged [req] [o] = [] := by
  simp [handledTimes, h]

theorem handledTimes_of_none {o : Observation} (h : charged req = none) :
    handledTimes charged [req] [o] = [] := by
  simp [handledTimes, h]

theorem handledTimes_sublist (req : Request) (o : Observation) :
    (handledTimes charged [req] [o]).Sublist (charged req).toList := by
  by_cases h : o.outcome = .ok ()
  · simp only [handledTimes, List.zip_cons_cons, List.zip_nil_left, List.filterMap_cons,
      List.filterMap_nil, if_pos h]
    cases charged req <;> exact List.Sublist.refl _
  · rw [handledTimes_of_ne h]
    exact List.nil_sublist _

theorem admitted_of_ownOutcome {row : ApiKeyRow} {v : Verdict}
    (h : ownOutcome req row v = .ok ()) : v.admitted := by
  unfold ownOutcome at h
  split at h
  · assumption
  · cases h

/-- What a request adds to the log holds its times, if it is handled. -/
structure Logs (cr : Crypto) (keys : List ApiKeyRow) (limit : Scope → Option ℕ)
    (reqs : List Request) (observations : List Observation)
    (more : List (Scope × Instant)) : Prop where
  guarded : limit .global ≠ none →
    (handledTimes globalTime reqs observations).Sublist (times more .global)
  keyed : ∀ k, limit (.perKey k) ≠ none →
    (handledTimes (keyTime cr keys k) reqs observations).Sublist (times more (.perKey k))

theorem logs_of_ne {o : Observation} (h : o.outcome ≠ .ok ()) (more : List (Scope × Instant)) :
    Logs cr keys limit [req] [o] more where
  guarded _ := by
    rw [handledTimes_of_ne h]
    exact List.nil_sublist _
  keyed k _ := by
    rw [handledTimes_of_ne h]
    exact List.nil_sublist _

theorem referenceServe_logs (cr : Crypto) (keys : List ApiKeyRow) (limit : Scope → Option ℕ)
    (log : List (Scope × Instant)) (req : Request) :
    ∃ more, (referenceServe cr keys limit log req).2 = log ++ more ∧
      Logs cr keys limit [req] [(referenceServe cr keys limit log req).1] more := by
  unfold referenceServe
  by_cases hr : req.routeGuard = .none
  · rw [if_pos hr]
    refine ⟨[], (List.append_nil log).symm, fun _ => ?_, fun k _ => ?_⟩
    · rw [handledTimes_of_none (if_pos hr)]
      exact List.nil_sublist _
    · have hn : keyTime cr keys k req = none := by
        refine if_neg fun h => ?_
        exact (authenticatedId_eq_some h).1 hr
      rw [handledTimes_of_none hn]
      exact List.nil_sublist _
  rw [if_neg hr]
  obtain ⟨m, hm, hg⟩ :=
    record_eq_append limit windowDuration log .global req.globalReading.now
  dsimp only
  rw [hm]
  split
  · next hadm =>
    cases ha : authenticate cr keys req with
    | error f => exact ⟨m, rfl, logs_of_ne (by simp) m⟩
    | ok row =>
      dsimp only
      obtain ⟨m', hm', hk⟩ := record_eq_append limit windowDuration (log ++ m)
        (.perKey row.id) req.keyReading.now
      rw [hm', List.append_assoc]
      refine ⟨m ++ m', rfl, ?_⟩
      by_cases ho : ownOutcome req row (verdict limit windowDuration (log ++ m) (.perKey row.id)
        req.keyReading.now) = .ok ()
      · refine ⟨fun hl => ?_, fun k hl => ?_⟩
        · rw [times_append, hg hl hadm]
          refine (handledTimes_sublist req _).trans ?_
          rw [globalTime, if_neg hr]
          exact List.sublist_append_left ..
        · refine (handledTimes_sublist req _).trans ?_
          rw [keyTime, authenticatedId_of_ok hr ha, times_append]
          split
          · next hid =>
            cases Option.some.inj hid
            rw [hk hl (admitted_of_ownOutcome ho)]
            exact List.sublist_append_right ..
          · exact List.nil_sublist _
      · exact logs_of_ne ho _
  · exact ⟨m, rfl, logs_of_ne (by simp) m⟩

theorem Logs.cons {o : Observation} {reqs : List Request} {observations : List Observation}
    {more more' : List (Scope × Instant)} (h : Logs cr keys limit [req] [o] more)
    (hs : Logs cr keys limit reqs observations more') :
    Logs cr keys limit (req :: reqs) (o :: observations) (more ++ more') where
  guarded hl := by
    rw [handledTimes_cons, times_append]
    exact (h.guarded hl).append (hs.guarded hl)
  keyed k hl := by
    rw [handledTimes_cons, times_append]
    exact (h.keyed k hl).append (hs.keyed k hl)

theorem globalClocked_cons {reqs : List Request} (h : GlobalClocked (req :: reqs)) :
    GlobalClocked reqs ∧ (req.routeGuard ≠ .none → ∀ r ∈ reqs, r.routeGuard ≠ .none →
      req.globalReading.now ≤ r.globalReading.now) := by
  unfold GlobalClocked at h
  rw [List.filter_cons] at h
  split at h
  · rw [List.pairwise_cons] at h
    refine ⟨h.2, fun _ r hr hn => h.1 r (List.mem_filter.mpr ⟨hr, ?_⟩)⟩
    exact decide_eq_true hn
  · next hn => exact ⟨h, fun hr => absurd (decide_eq_true hr) hn⟩

variable {rl : RateLimiter} {last : Lock → WithBot Instant}

theorem referenceServe_bounded (h : Simulates rl last log)
    (hg : req.routeGuard ≠ .none → last .globalWindow ≤ req.globalReading.now)
    (hk : (authenticatedId cr keys req).isSome → last .perKeyWindows ≤ req.keyReading.now)
    (hb : Bounded limit windowDuration log) :
    Bounded limit windowDuration (referenceServe cr keys limit log req).2 := by
  unfold referenceServe
  split
  · exact hb
  next hr =>
  have hglobal := hb.record (l := .global) fun x hx =>
    WithBot.coe_le_coe.mp (((h.tracks .global).le_last x hx).trans (hg hr))
  dsimp only
  split
  · cases ha : authenticate cr keys req with
    | error f => exact hglobal
    | ok row =>
      refine hglobal.record fun x hx => WithBot.coe_le_coe.mp ?_
      rw [times_record_of_ne log _ (by simp)] at hx
      refine ((h.tracks (.perKey row.id)).le_last x hx).trans (hk ?_)
      rw [authenticatedId_of_ok hr ha]
      rfl
  · exact hglobal

/-- A run is answered as by the reference limiter, within its limits. -/
theorem serveAll_refines {reqs : List (Request × ℕ)} (h : Simulates rl last log)
    (hg : ∀ r ∈ reqs, r.1.routeGuard ≠ .none → last .globalWindow ≤ r.1.globalReading.now)
    (hk : ∀ r ∈ reqs, (authenticatedId cr keys r.1).isSome →
      last .perKeyWindows ≤ r.1.keyReading.now)
    (hcg : GlobalClocked (reqs.map Prod.fst)) (hck : KeyClocked cr keys reqs)
    (hb : Bounded rl.limit windowDuration log) :
    let reference := referenceServeAll cr keys rl.limit log (reqs.map Prod.fst)
    (serveAll cr keys rl reqs).map Answer.observe = reference.1 ∧
      ∃ more, Logs cr keys rl.limit (reqs.map Prod.fst) reference.1 more ∧
        Bounded rl.limit windowDuration (log ++ more) := by
  induction reqs generalizing rl last log with
  | nil =>
    refine ⟨rfl, [], ⟨fun _ => List.nil_sublist _, fun _ _ => List.nil_sublist _⟩, ?_⟩
    rwa [List.append_nil]
  | cons r reqs ih =>
    have hgr := hg r List.mem_cons_self
    have hkr := hk r List.mem_cons_self
    obtain ⟨hcg', hleg⟩ := globalClocked_cons hcg
    obtain ⟨hck', hlek⟩ := keyClocked_cons hck
    obtain ⟨ho, hlim, last', hseen, hsim⟩ := serve_refines h hgr hkr r.2
    have hb' : Bounded (serve cr keys rl r.1 r.2).2.limit windowDuration
        (referenceServe cr keys rl.limit log r.1).2 := by
      rw [hlim]
      exact referenceServe_bounded h hgr hkr hb
    obtain ⟨ihv, more', hlogs', hb''⟩ := ih hsim
      (fun r' hr' hn => hseen.globalWindow _ (hg r' (List.mem_cons_of_mem _ hr') hn)
        fun hn' => WithBot.coe_le_coe.mpr (hleg hn' r'.1 (List.mem_map_of_mem hr') hn))
      (fun r' hr' hs => hseen.perKeyWindows _ (hk r' (List.mem_cons_of_mem _ hr') hs)
        fun hs' => WithBot.coe_le_coe.mpr (hlek hs' r' hr' hs)) hcg' hck' hb'
    obtain ⟨more, hmore, hlogs⟩ := referenceServe_logs cr keys rl.limit log r.1
    rw [hlim] at ihv hlogs' hb''
    refine ⟨?_, more ++ more', hlogs.cons hlogs', ?_⟩
    · simp only [serveAll, List.map_cons, referenceServeAll, ho, ihv]
    · rwa [hmore, List.append_assoc] at hb''

end Run

/-- Requests are answered as by a limiter that keeps the log of every admission under both
limits: in no closed minute are more guarded requests handled than the global limit, or more
requests of a key than the limit of a key. -/
theorem limits_respected (cr : Crypto) (keys : List ApiKeyRow) (globalRpm perKeyRpm : UInt64)
    (reqs : List (Request × ℕ)) (hg : GlobalClocked (reqs.map Prod.fst))
    (hk : KeyClocked cr keys reqs) :
    let observed := (serveAll cr keys (new globalRpm perKeyRpm) reqs).map Answer.observe
    let handled charged := handledTimes charged (reqs.map Prod.fst) observed
    observed = (referenceServeAll cr keys (new globalRpm perKeyRpm).limit []
        (reqs.map Prod.fst)).1 ∧
      (globalRpm ≠ 0 → ∀ a, (within a (a + windowDuration) (handled globalTime)).length ≤
        globalRpm.toNat) ∧
      (perKeyRpm ≠ 0 → ∀ k a, (within a (a + windowDuration)
        (handled (keyTime cr keys k))).length ≤ perKeyRpm.toNat) := by
  intro observed handled
  obtain ⟨ho, more, hlogs, hb⟩ := serveAll_refines
    (simulates_new globalRpm perKeyRpm fun _ => ⊥) (fun _ _ _ => bot_le) (fun _ _ _ => bot_le)
    hg hk bounded_nil
  rw [← ho] at hlogs
  refine ⟨ho, fun hn a => ?_, fun hn k a => ?_⟩
  · have hl : (new globalRpm perKeyRpm).limit .global = some globalRpm.toNat := if_neg hn
    refine le_trans ?_ (hb .global _ hl a)
    exact ((hlogs.guarded (by simp [hl])).filter _).length_le
  · have hl : (new globalRpm perKeyRpm).limit (.perKey k) = some perKeyRpm.toNat := if_neg hn
    refine le_trans ?_ (hb (.perKey k) _ hl a)
    exact ((hlogs.keyed k (by simp [hl])).filter _).length_le

theorem limits_respected_twice :
    let keys : List ApiKeyRow := [⟨1, "a", "b", "", "", true, false⟩]
    let own : Request :=
      ⟨"GET", "/registry", some "Basic YTpi", .authenticatedKey, true, ⟨0, 0⟩, ⟨0, 0⟩⟩
    (within 0 windowDuration (handledTimes (keyTime oneKeyCrypto keys 1) [own, own]
      ((serveAll oneKeyCrypto keys (new 2 1) [(own, 200), (own, 200)]).map
        Answer.observe))).length ≤ 1 := by
  intro keys own
  exact (limits_respected oneKeyCrypto keys 2 1 [(own, 200), (own, 200)] (by decide)
    (by decide)).2.2 (by decide) 1 0

end AlbionApi
