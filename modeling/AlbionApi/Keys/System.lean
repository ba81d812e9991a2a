import AlbionApi.Auth.Steps
import AlbionApi.Foundations.Runs
import AlbionApi.Keys.Accounts

/-! # The key store beside a running server

Commands work on the database while a server answers requests: a request is
admitted by the global limit, then its credentials are looked up, then its key
is charged, and its usage row is inserted some time after the answer. Between
any two of these steps anything else may happen.
-/

namespace AlbionApi

inductive Stage where
  | admitted
  | authenticated (row : ApiKeyRow)
  deriving DecidableEq, Repr

/-- A request between two of its steps. -/
structure Visit where
  req : Request
  cache : LocalCache
  stage : Stage

structure KeySystem where
  db : Database
  limiter : RateLimiter
  visits : List Visit
  /-- The usage rows whose insertion is spawned and has not run. -/
  spawned : List UsageRow

inductive KeyEvent where
  | command (inv : Invocation)
  | arrive (req : Request) (handlerStatus : ℕ)
  | lookup (i : ℕ)
  | charge (i : ℕ) (handlerStatus : ℕ)
  | insert (i : ℕ) (fault : Option String)
  | restart (globalRpm perKeyRpm : UInt64)

inductive KeyOutput where
  | command (result : Except String Printed)
  | admitted (req : Request)
  | authenticated (req : Request) (row : ApiKeyRow)
  | answered (req : Request) (answer : Answer)
  | refused (req : Request) (answer : Answer)
  | inserted (row : UsageRow) (result : Except DbError Unit)
  | restarted

deriving instance DecidableEq for Answer
deriving instance DecidableEq for KeyOutput

namespace KeySystem

variable {cr : Crypto}

def init (globalRpm perKeyRpm : UInt64) : KeySystem :=
  ⟨.empty, .new globalRpm perKeyRpm, [], []⟩

/-- The global limit, for the routes with a key guard. -/
def arrive (s : KeySystem) (req : Request) (handlerStatus : ℕ) : KeyOutput × KeySystem :=
  match req.routeGuard with
  | .none => (.answered req (respond req {} (.ok ()) handlerStatus), s)
  | _ =>
    match GlobalRateLimit.fromRequest s.limiter {} req with
    | (.ok (), cache, limiter) =>
      (.admitted req,
        { s with limiter := limiter, visits := s.visits ++ [⟨req, cache, .admitted⟩] })
    | (.error f, cache, limiter) =>
      (.answered req (respond req cache (.error f) handlerStatus), { s with limiter := limiter })

/-- The credential check of a visit, against the database as it is. -/
def lookup (cr : Crypto) (s : KeySystem) (i : ℕ) : Option (KeyOutput × KeySystem) :=
  match s.visits[i]? with
  | some ⟨req, cache, .admitted⟩ =>
    match authenticate cr s.db.keyRows req with
    | .ok row => some (.authenticated req row,
        { s with visits := s.visits.set i ⟨req, cache, .authenticated row⟩ })
    | .error f => some (.refused req (respond req cache (.error f) 0),
        { s with visits := s.visits.eraseIdx i })
  | _ => none

/-- The answer to an authenticated visit, whose usage row is spawned. -/
def charge (s : KeySystem) (i handlerStatus : ℕ) : Option (KeyOutput × KeySystem) :=
  match s.visits[i]? with
  | some ⟨req, cache, .authenticated row⟩ =>
    let (result, cache, limiter) := AuthenticatedKey.charge row s.limiter cache req
    let answer := respond req cache (result.bind (checkAdmin req.routeGuard)) handlerStatus
    some (.answered req answer, { s with
      limiter := limiter
      visits := s.visits.eraseIdx i
      spawned := s.spawned ++ answer.usage.toList })
  | _ => none

/-- A spawned insertion runs; a failure is only logged. -/
def insertUsage (s : KeySystem) (i : ℕ) (fault : Option String) :
    Option (KeyOutput × KeySystem) :=
  s.spawned[i]?.map fun u =>
    let s := { s with spawned := s.spawned.eraseIdx i }
    match fault with
    | some message => (.inserted u (.error (.failed message)), s)
    | none =>
      match s.db.insertUsage u with
      | .ok db => (.inserted u (.ok ()), { s with db := db })
      | .error e => (.inserted u (.error e), s)

def step (tools : KeyTools cr) (s : KeySystem) : KeyEvent → Option (KeyOutput × KeySystem)
  | .command inv =>
    let (result, db) := handleKeysCommand tools s.db inv
    some (.command result, { s with db := db })
  | .arrive req handlerStatus => some (s.arrive req handlerStatus)
  | .lookup i => s.lookup cr i
  | .charge i handlerStatus => s.charge i handlerStatus
  | .insert i fault => s.insertUsage i fault
  -- What a server has in memory does not outlive it.
  | .restart globalRpm perKeyRpm =>
    some (.restarted, { s with
      limiter := .new globalRpm perKeyRpm
      visits := []
      spawned := [] })

end KeySystem

def acks (outputs : List KeyOutput) : List Printed :=
  outputs.filterMap fun
    | .command (.ok ack) => some ack
    | _ => none

def answers (outputs : List KeyOutput) : List (Request × Answer) :=
  outputs.filterMap fun
    | .answered req answer => some (req, answer)
    | .refused req answer => some (req, answer)
    | _ => none

def usages (outputs : List KeyOutput) : List UsageRow :=
  (answers outputs).filterMap fun p => p.2.usage

theorem acks_append (outputs outputs' : List KeyOutput) :
    acks (outputs ++ outputs') = acks outputs ++ acks outputs' :=
  List.filterMap_append

theorem answers_append (outputs outputs' : List KeyOutput) :
    answers (outputs ++ outputs') = answers outputs ++ answers outputs' :=
  List.filterMap_append

theorem usages_append (outputs outputs' : List KeyOutput) :
    usages (outputs ++ outputs') = usages outputs ++ usages outputs' := by
  rw [usages, answers_append, List.filterMap_append]
  rfl

/-! ## What a step does -/

section Steps

variable {cr : Crypto} {tools : KeyTools cr} {s s' : KeySystem} {o : KeyOutput}

/-- All that a step can do. -/
inductive Stepped (tools : KeyTools cr) (s : KeySystem) : KeyOutput → KeySystem → Prop
  | command {inv : Invocation} {result : Except String Printed} {db : Database}
      (executed : Executed tools s.db inv result db) :
      Stepped tools s (.command result) { s with db := db }
  | turnedAway {req : Request} {answer : Answer} {limiter : RateLimiter}
      (usage : answer.usage = none)
      (windows : limiter.perKeyWindows = s.limiter.perKeyWindows) :
      Stepped tools s (.answered req answer) { s with limiter := limiter }
  | admitted {req : Request} {cache : LocalCache} {limiter : RateLimiter}
      (anonymous : cache.authKeyId = none)
      (windows : limiter.perKeyWindows = s.limiter.perKeyWindows) :
      Stepped tools s (.admitted req)
        { s with limiter := limiter, visits := s.visits ++ [⟨req, cache, .admitted⟩] }
  | authenticated {i : ℕ} {req : Request} {cache : LocalCache} {row : ApiKeyRow}
      (visit : s.visits[i]? = some ⟨req, cache, .admitted⟩)
      (ok : authenticate cr s.db.keyRows req = .ok row) :
      Stepped tools s (.authenticated req row)
        { s with visits := s.visits.set i ⟨req, cache, .authenticated row⟩ }
  | refused {i : ℕ} {req : Request} {cache : LocalCache} {f : Failure}
      (visit : s.visits[i]? = some ⟨req, cache, .admitted⟩)
      (failed : authenticate cr s.db.keyRows req = .error f) :
      Stepped tools s (.refused req (respond req cache (.error f) 0))
        { s with visits := s.visits.eraseIdx i }
  | charged {i handlerStatus : ℕ} {req : Request} {cache cache' : LocalCache} {row : ApiKeyRow}
      {result : Except Failure AuthenticatedKey} {limiter : RateLimiter} {answer : Answer}
      (visit : s.visits[i]? = some ⟨req, cache, .authenticated row⟩)
      (charge : AuthenticatedKey.charge row s.limiter cache req = (result, cache', limiter))
      (response : answer =
        respond req cache' (result.bind (checkAdmin req.routeGuard)) handlerStatus) :
      Stepped tools s (.answered req answer) { s with
        limiter := limiter
        visits := s.visits.eraseIdx i
        spawned := s.spawned ++ answer.usage.toList }
  | logged {i : ℕ} {u : UsageRow} {db : Database} (spawned : s.spawned[i]? = some u)
      (insert : s.db.insertUsage u = .ok db) :
      Stepped tools s (.inserted u (.ok ()))
        { s with db := db, spawned := s.spawned.eraseIdx i }
  | dropped {i : ℕ} {u : UsageRow} {e : DbError} (spawned : s.spawned[i]? = some u)
      (failed : (∃ message, e = .failed message) ∨ s.db.insertUsage u = .error e) :
      Stepped tools s (.inserted u (.error e)) { s with spawned := s.spawned.eraseIdx i }
  | restarted (globalRpm perKeyRpm : UInt64) :
      Stepped tools s .restarted { s with
        limiter := .new globalRpm perKeyRpm
        visits := []
        spawned := [] }

theorem arrive_of_disabled (h : s.limiter.globalRpm = 0) {req : Request}
    (hr : req.routeGuard ≠ .none) (handlerStatus : ℕ) :
    s.arrive req handlerStatus =
      (.admitted req, { s with visits := s.visits ++ [⟨req, {}, .admitted⟩] }) := by
  unfold KeySystem.arrive
  rw [globalRateLimit_disabled h]
  split
  · next hn => exact absurd hn hr
  · rfl

theorem lookup_authenticated {i : ℕ} {req : Request} {cache : LocalCache} {row : ApiKeyRow}
    (visit : s.visits[i]? = some ⟨req, cache, .admitted⟩)
    (ok : authenticate cr s.db.keyRows req = .ok row) :
    s.step tools (.lookup i) = some (.authenticated req row,
      { s with visits := s.visits.set i ⟨req, cache, .authenticated row⟩ }) := by
  simp only [KeySystem.step, KeySystem.lookup, visit, ok]

theorem lookup_refused {i : ℕ} {req : Request} {cache : LocalCache} {f : Failure}
    (visit : s.visits[i]? = some ⟨req, cache, .admitted⟩)
    (failed : authenticate cr s.db.keyRows req = .error f) :
    s.step tools (.lookup i) = some (.refused req (respond req cache (.error f) 0),
      { s with visits := s.visits.eraseIdx i }) := by
  simp only [KeySystem.step, KeySystem.lookup, visit, failed]

theorem charge_authenticated {i : ℕ} {req : Request} {cache : LocalCache} {row : ApiKeyRow}
    (visit : s.visits[i]? = some ⟨req, cache, .authenticated row⟩) (handlerStatus : ℕ) :
    s.step tools (.charge i handlerStatus) =
      let c := AuthenticatedKey.charge row s.limiter cache req
      let answer := respond req c.2.1 (c.1.bind (checkAdmin req.routeGuard)) handlerStatus
      some (.answered req answer, { s with
        limiter := c.2.2
        visits := s.visits.eraseIdx i
        spawned := s.spawned ++ answer.usage.toList }) := by
  simp only [KeySystem.step, KeySystem.charge, visit]

theorem arrive_stepped (tools : KeyTools cr) (s : KeySystem) (req : Request)
    (handlerStatus : ℕ) :
    Stepped tools s (s.arrive req handlerStatus).1 (s.arrive req handlerStatus).2 := by
  unfold KeySystem.arrive
  split
  · exact .turnedAway (respond_usage_of_anonymous rfl ..) rfl
  · obtain ⟨ha, hw⟩ := globalRateLimit_frame s.limiter {} req
    split
    · next h =>
      rw [h] at ha hw
      exact .admitted ha hw
    · next h =>
      rw [h] at ha hw
      exact .turnedAway (respond_usage_of_anonymous ha ..) hw

theorem step_stepped {e : KeyEvent} (h : s.step tools e = some (o, s')) :
    Stepped tools s o s' := by
  cases e with
  | command inv =>
    cases h
    exact .command (handleKeysCommand_executed tools s.db inv)
  | arrive req handlerStatus =>
    have he := Option.some.inj h
    have hstep := arrive_stepped tools s req handlerStatus
    rw [he] at hstep
    exact hstep
  | lookup i =>
    simp only [KeySystem.step, KeySystem.lookup] at h
    split at h
    · next req cache hvisit =>
      split at h
      · next row hrow =>
        cases h
        exact .authenticated hvisit hrow
      · next f hf =>
        cases h
        exact .refused hvisit hf
    · cases h
  | charge i handlerStatus =>
    simp only [KeySystem.step, KeySystem.charge] at h
    split at h
    · next req cache row hvisit =>
      generalize hc : AuthenticatedKey.charge row s.limiter cache req = c at h
      obtain ⟨result, cache', limiter⟩ := c
      cases h
      exact .charged hvisit hc rfl
    · cases h
  | insert i fault =>
    simp only [KeySystem.step, KeySystem.insertUsage, Option.map_eq_some_iff] at h
    obtain ⟨u, hu, h⟩ := h
    split at h
    · next message =>
      cases h
      exact .dropped hu (.inl ⟨message, rfl⟩)
    · split at h
      · next db hdb =>
        cases h
        exact .logged hu hdb
      · next e he =>
        cases h
        exact .dropped hu (.inr he)
  | restart globalRpm perKeyRpm =>
    cases h
    exact .restarted globalRpm perKeyRpm

end Steps

section Alone

variable {cr : Crypto}

/-- A request whose steps nothing comes between is answered as if it were served at once. -/
theorem exists_alone (tools : KeyTools cr) {s : KeySystem} (hs : s.visits = []) (req : Request)
    (handlerStatus : ℕ) : ∃ outputs s', Runs.Traced (KeySystem.step tools) s outputs s' ∧
      answers outputs = [(req, (serve cr s.db.keyRows s.limiter req handlerStatus).1)] ∧
      s'.limiter = (serve cr s.db.keyRows s.limiter req handlerStatus).2 ∧ s'.visits = [] ∧
      s'.db = s.db := by
  by_cases hr : req.routeGuard = .none
  · refine ⟨[_], _, .snoc (e := .arrive req handlerStatus) .nil rfl, ?_⟩
    simp [hr, serve, runGuards, answers, respond, hs]
  have hserve : ∀ {outcome cache rl}, runGuards cr s.db.keyRows s.limiter req =
      (outcome, cache, rl) → serve cr s.db.keyRows s.limiter req handlerStatus =
        (respond req cache outcome handlerStatus, rl) := by
    intro outcome cache rl h
    simp only [serve, h]
    rfl
  rw [runGuards_of_ne_none hr] at hserve
  have harrive : s.step tools (.arrive req handlerStatus) = some (s.arrive req handlerStatus) := rfl
  unfold KeySystem.arrive at harrive
  split at harrive
  · next hn => exact absurd hn hr
  generalize hglobal : GlobalRateLimit.fromRequest s.limiter {} req = g at hserve harrive
  obtain ⟨result, cache, rl⟩ := g
  cases result with
  | error f =>
    refine ⟨_, _, .snoc .nil harrive, ?_⟩
    rw [hserve rfl]
    exact ⟨rfl, rfl, hs, rfl⟩
  | ok =>
    simp only [hs, List.nil_append] at harrive
    cases hauth : authenticate cr s.db.keyRows req with
    | error f =>
      rw [hauth] at hserve
      refine ⟨_, _, (Runs.Traced.nil.snoc harrive).snoc (lookup_refused (i := 0) rfl hauth), ?_⟩
      rw [hserve rfl, respond_error handlerStatus 0]
      exact ⟨rfl, rfl, rfl, rfl⟩
    | ok row =>
      rw [hauth] at hserve
      refine ⟨_, _, ((Runs.Traced.nil.snoc harrive).snoc
        (lookup_authenticated (i := 0) rfl hauth)).snoc
          (charge_authenticated (i := 0) rfl handlerStatus), ?_⟩
      rw [hserve rfl]
      exact ⟨rfl, rfl, rfl, rfl⟩

end Alone

end AlbionApi
