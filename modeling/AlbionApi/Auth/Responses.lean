import AlbionApi.Auth.Steps
import AlbionApi.Keys.Access
import AlbionApi.Orders.Listing
import Mathlib.Data.List.DropRight

/-! # Responses

Every response names its request by an id, the client's own if that can be
used. Errors leave the server by two ways, from a handler or through the
catchers, and say the same by both.
-/

namespace AlbionApi

/-- `char::is_control`. -/
def isControl (c : Char) : Bool := c.toNat ≤ 0x1f || (0x7f ≤ c.toNat && c.toNat ≤ 0x9f)

/-- The conditions of `extract_request_id` on a trimmed header. -/
def acceptsRequestId (trimmed : List Char) : Bool :=
  !trimmed.isEmpty && byteLength trimmed ≤ 128 && trimmed.all (·.toNat < 128) &&
    !trimmed.any isControl

/-- `extract_request_id`, with the random bits of the UUID that it may draw. -/
def extractRequestId (uuidBits : BitVec 128) : Option String → String
  | some value =>
    let trimmed := trim value.toList
    if acceptsRequestId trimmed then String.ofList trimmed else uuidText (newV4 uuidBits)
  | none => uuidText (newV4 uuidBits)

structure ApiErrorDetail where
  code : String
  message : String
  deriving DecidableEq, Repr

structure ApiErrorResponse where
  requestId : String
  error : ApiErrorDetail
  deriving DecidableEq, Repr

inductive Body where
  | value (json : String)
  | error (response : ApiErrorResponse)
  /-- The page of the framework for a status without a catcher. -/
  | defaultCatcher
  deriving DecidableEq, Repr

structure HttpResponse where
  status : ℕ
  body : Body
  retryAfter : Option String
  deriving DecidableEq, Repr

/-- `ApiError::respond_to`. -/
def ApiError.response (requestId : String) (e : ApiError) : HttpResponse where
  status := e.respondTo.1
  body := .error ⟨requestId, e.respondTo.2.1, e.respondTo.2.2⟩
  retryAfter := match e with
    | rateLimited _ => some "60"
    | _ => none

namespace Catchers

variable (requestId : String)

def errorResponse (code message : String) : ApiErrorResponse := ⟨requestId, code, message⟩

def badRequest : ApiErrorResponse :=
  errorResponse requestId "BAD_REQUEST" "The request was invalid or malformed"

def unauthorized : ApiErrorResponse :=
  errorResponse requestId "UNAUTHORIZED" "Missing or invalid credentials"

def forbidden : ApiErrorResponse := errorResponse requestId "FORBIDDEN" "Insufficient permissions"

def notFound : ApiErrorResponse :=
  errorResponse requestId "NOT_FOUND" "The requested resource was not found"

def unprocessableEntity : ApiErrorResponse :=
  errorResponse requestId "UNPROCESSABLE_ENTITY" "Request body could not be parsed"

def tooManyRequests : ApiErrorResponse :=
  errorResponse requestId "RATE_LIMITED" "Too many requests, please try again later"

def internalServerError : ApiErrorResponse :=
  errorResponse requestId "INTERNAL_ERROR" "Internal server error"

end Catchers

/-- `catchers`, and the framework's own catcher for every other status. -/
def catchStatus (requestId : String) (status : ℕ) : HttpResponse :=
  match status with
  | 400 => ⟨400, .error (Catchers.badRequest requestId), none⟩
  | 401 => ⟨401, .error (Catchers.unauthorized requestId), none⟩
  | 403 => ⟨403, .error (Catchers.forbidden requestId), none⟩
  | 404 => ⟨404, .error (Catchers.notFound requestId), none⟩
  | 422 => ⟨422, .error (Catchers.unprocessableEntity requestId), none⟩
  | 429 => ⟨429, .error (Catchers.tooManyRequests requestId), some "60"⟩
  | 500 => ⟨500, .error (Catchers.internalServerError requestId), none⟩
  | status => ⟨status, .defaultCatcher, none⟩

inductive Handled where
  | value (json : String)
  | error (e : ApiError)
  /-- No route, or a parameter or a body that is not read. -/
  | rejected (status : ℕ)
  | panic
  deriving DecidableEq, Repr

def Handled.status : Handled → ℕ
  | value _ => 200
  | error e => e.status
  | rejected status => status
  | panic => 500

/-- The response before the fairings. The error of a failed guard is not shown: its catcher has
a text of its own. -/
def dispatch (requestId : String) : Except Failure Handled → HttpResponse
  | .ok (.value json) => ⟨200, .value json, none⟩
  | .ok (.error e) => e.response requestId
  | .ok (.rejected status) => catchStatus requestId status
  | .ok .panic => catchStatus requestId 500
  | .error (.error status _) => catchStatus requestId status
  | .error .panic => catchStatus requestId 500

/-- A request with its id header, the bits of a fresh UUID and its end behind the guards. -/
structure Incoming where
  request : Request
  requestIdHeader : Option String
  uuidBits : BitVec 128
  handled : Handled

structure Sent where
  response : HttpResponse
  /-- `X-Request-Id`. -/
  requestId : String
  rateLimit : Option RateLimitInfo
  usage : Option UsageRow

def send (cr : Crypto) (keys : List ApiKeyRow) (rl : RateLimiter) (inc : Incoming) :
    Sent × RateLimiter :=
  let requestId := extractRequestId inc.uuidBits inc.requestIdHeader
  let (outcome, cache, rl) := runGuards cr keys rl inc.request
  let response := dispatch requestId (outcome.map fun _ => inc.handled)
  ({ response := response, requestId := requestId, rateLimit := rateLimitHeaders cache,
     usage := usageRow cache inc.request response.status }, rl)

/-- A text that is logged and returned as it is: printable ASCII without white space around it,
and of at most 128 characters. -/
structure IsRequestId (id : String) : Prop where
  nonempty : id.toList ≠ []
  length_le : id.toList.length ≤ 128
  printable : ∀ c ∈ id.toList, 0x20 ≤ c.toNat ∧ c.toNat ≤ 0x7e
  trimmed : trim id.toList = id.toList

section Ids

variable {l : List Char}

theorem trim_eq (l : List Char) :
    trim l = (l.dropWhile isWhitespace).rdropWhile isWhitespace := rfl

theorem dropWhile_trim (l : List Char) : (trim l).dropWhile isWhitespace = trim l := by
  rw [List.dropWhile_eq_self_iff]
  intro hl
  have hp : trim l <+: l.dropWhile isWhitespace := List.rdropWhile_prefix _ _
  rw [hp.getElem hl]
  exact List.dropWhile_eq_self_iff.1 (List.dropWhile_idempotent _ _) _

theorem trim_trim (l : List Char) : trim (trim l) = trim l := by
  rw [trim_eq (trim l), dropWhile_trim, trim_eq, List.rdropWhile_idempotent]

theorem trim_eq_self (h : ∀ c ∈ l, isWhitespace c = false) : trim l = l := by
  have hd : l.dropWhile isWhitespace = l :=
    List.dropWhile_eq_self_iff.2 fun hl => by simp [h _ (List.getElem_mem hl)]
  rw [trim_eq, hd, List.rdropWhile_eq_self_iff]
  intro hl
  simp [h _ (List.getLast_mem hl)]

theorem byteLength_eq_length (h : ∀ c ∈ l, c.toNat < 128) : byteLength l = l.length := by
  induction l with
  | nil => rfl
  | cons c l ih =>
    have hc : c.utf8Size = 1 := Char.utf8Size_eq_one_iff.2 (by
      rw [UInt32.le_iff_toNat_le]
      exact Nat.le_of_lt_succ (h c List.mem_cons_self))
    rw [byteLength_cons, hc, ih fun c' hc' => h c' (List.mem_cons_of_mem _ hc'), List.length_cons]
    exact Nat.add_comm ..

theorem acceptsRequestId_iff (l : List Char) :
    acceptsRequestId (trim l) = true ↔ IsRequestId (String.ofList (trim l)) := by
  simp only [acceptsRequestId, Bool.and_eq_true, Bool.not_eq_true', List.isEmpty_eq_false_iff,
    decide_eq_true_iff, List.all_eq_true, List.any_eq_false, isControl, Bool.or_eq_true, not_or,
    not_and, not_le]
  constructor
  · rintro ⟨⟨⟨hn, hl⟩, ha⟩, hc⟩
    refine ⟨?_, ?_, ?_, ?_⟩ <;> rw [String.toList_ofList]
    · exact hn
    · rwa [← byteLength_eq_length ha]
    · intro c hm
      have h1 := ha c hm
      obtain ⟨h2, h3⟩ := hc c hm
      omega
    · exact trim_trim l
  · rintro ⟨hn, hl, hp, -⟩
    rw [String.toList_ofList] at hn hl hp
    have ha : ∀ c ∈ trim l, c.toNat < 128 := fun c hm => by
      have := hp c hm
      omega
    refine ⟨⟨⟨hn, by rwa [byteLength_eq_length ha]⟩, ha⟩, fun c hm => ?_⟩
    have := hp c hm
    omega

theorem uuidText_spec (uuid : BitVec 128) : (uuidText uuid).toList.length = 36 ∧
    ∀ c ∈ (uuidText uuid).toList, 0x21 ≤ c.toNat ∧ c.toNat ≤ 0x7e := by
  have hdigits : ∀ c ∈ Hex.digits 32 uuid.toNat, 0x21 ≤ c.toNat ∧ c.toNat ≤ 0x7e := by
    intro c hc
    obtain ⟨d, hd, rfl⟩ := isHexDigit_of_mem_digits hc
    interval_cases d <;> decide
  have hlen : (Hex.digits 32 uuid.toNat).length = 32 := Hex.length_digits ..
  rw [uuidText, String.toList_ofList]
  generalize Hex.digits 32 uuid.toNat = ds at hdigits hlen
  have hpart : ∀ n m, ∀ c ∈ (ds.drop n).take m, 0x21 ≤ c.toNat ∧ c.toNat ≤ 0x7e :=
    fun n m c h => hdigits c (List.mem_of_mem_drop (List.mem_of_mem_take h))
  have hhyphen : 0x21 ≤ '-'.toNat ∧ '-'.toNat ≤ 0x7e := by decide
  constructor
  · simp [hlen]
  · simp only [List.forall_mem_append, List.forall_mem_cons]
    exact ⟨⟨⟨⟨fun c h => hdigits c (List.mem_of_mem_take h), hhyphen, hpart _ _⟩, hhyphen,
      hpart _ _⟩, hhyphen, hpart _ _⟩, hhyphen, fun c h => hdigits c (List.mem_of_mem_drop h)⟩

theorem isRequestId_uuidText (uuid : BitVec 128) : IsRequestId (uuidText uuid) := by
  obtain ⟨hlen, hchars⟩ := uuidText_spec uuid
  refine ⟨?_, by omega, fun c hc => ?_, trim_eq_self fun c hc => ?_⟩
  · intro h
    rw [h] at hlen
    cases hlen
  · have := hchars c hc
    omega
  · have := hchars c hc
    simp only [isWhitespace, Bool.or_eq_false_iff, Bool.and_eq_false_iff, decide_eq_false_iff_not]
    omega

theorem isRequestId_extractRequestId (uuidBits : BitVec 128) (header : Option String) :
    IsRequestId (extractRequestId uuidBits header) ∧
      ∀ value, header = some value → IsRequestId (String.ofList (trim value.toList)) →
        extractRequestId uuidBits header = String.ofList (trim value.toList) := by
  cases header with
  | none => exact ⟨isRequestId_uuidText _, by simp⟩
  | some value =>
    simp only [extractRequestId]
    split_ifs with h
    · exact ⟨(acceptsRequestId_iff _).1 h, fun value' hv _ => by cases hv; rfl⟩
    · refine ⟨isRequestId_uuidText _, fun value' hv hid => ?_⟩
      cases hv
      exact absurd ((acceptsRequestId_iff _).2 hid) h

theorem extractRequestId_self {id : String} (h : IsRequestId id) (uuidBits : BitVec 128) :
    extractRequestId uuidBits (some id) = id := by
  have he : String.ofList (trim id.toList) = id := by rw [h.trimmed, String.ofList_toList]
  exact ((isRequestId_extractRequestId uuidBits (some id)).2 id rfl (he.symm ▸ h)).trans he

end Ids

def Failure.Agrees : Failure → Prop
  | .error status e => status = e.status ∧ 400 ≤ status
  | .panic => True

def CheckReported : CheckResult → Prop
  | .ok (true, _) => True
  | .ok (false, info) => ∃ i, info = some i ∧ i.remaining = 0
  | .error e => e.status = 500

/-- A failed guard agrees with its error, and a full window is shown to have nothing left. -/
structure Failure.Reported (cache : LocalCache) (f : Failure) : Prop where
  agrees : f.Agrees
  limited : f = tooManyRequests → ∃ i, rateLimitHeaders cache = some i ∧ i.remaining = 0

section Guards

variable {cr : Crypto} {keys : List ApiKeyRow} {rl rl' : RateLimiter} {req : Request}
  {cache cache' : LocalCache} {f : Failure}

theorem checkReported_tryAdmit (rpm : UInt64) (window : List Instant) (now : Instant)
    (systemNow : SystemTime) :
    CheckReported (.ok (RateLimiter.tryAdmit rpm window now systemNow).1) := by
  unfold RateLimiter.tryAdmit
  split_ifs
  · trivial
  · exact ⟨_, rfl, rfl⟩

theorem checkReported_checkGlobal (rl : RateLimiter) (now : Instant) (systemNow : SystemTime) :
    CheckReported (rl.checkGlobal now systemNow).1 := by
  unfold RateLimiter.checkGlobal
  split_ifs
  · trivial
  · cases rl.globalWindow.lock with
    | none => rfl
    | some window => exact checkReported_tryAdmit ..

theorem checkReported_checkPerKey (rl : RateLimiter) (keyId : Int64) (now : Instant)
    (systemNow : SystemTime) : CheckReported (rl.checkPerKey keyId now systemNow).1 := by
  unfold RateLimiter.checkPerKey
  split_ifs
  · trivial
  · cases rl.perKeyWindows.lock with
    | none => rfl
    | some windows => exact checkReported_tryAdmit ..

theorem unauthorized_agrees (message : String) :
    (Failure.error 401 (.unauthorized message)).Agrees ∧
      Failure.error 401 (.unauthorized message) ≠ tooManyRequests :=
  ⟨⟨rfl, by decide⟩, by simp [tooManyRequests]⟩

theorem internal_agrees (message : String) :
    (Failure.error 500 (.internal message)).Agrees ∧
      Failure.error 500 (.internal message) ≠ tooManyRequests :=
  ⟨⟨rfl, by decide⟩, by simp [tooManyRequests]⟩

theorem parseCredentials_agrees {header : Option String}
    (h : parseCredentials cr header = .error f) : f.Agrees ∧ f ≠ tooManyRequests := by
  cases header with
  | none =>
    cases h
    exact unauthorized_agrees _
  | some header =>
    by_cases hshort : header.utf8ByteSize < 6
    · cases (parseCredentials_short cr hshort).symm.trans h
      exact unauthorized_agrees _
    · by_cases he : EndsAt header 6
      · obtain ⟨l, r, hs⟩ := (splitAtByte_isSome_iff header 6).2 he
        rcases parseCredentials_ok_or_unauthorized cr hs with ⟨keyId, secret, hok⟩ | ⟨m, herr⟩
        · cases hok.symm.trans h
        · cases herr.symm.trans h
          exact unauthorized_agrees m
      · cases (parseCredentials_panic cr (Nat.not_lt.1 hshort) he).symm.trans h
        exact ⟨trivial, by simp [tooManyRequests]⟩

theorem authenticate_agrees (h : authenticate cr keys req = .error f) :
    f.Agrees ∧ f ≠ tooManyRequests := by
  unfold authenticate at h
  cases hp : parseCredentials cr req.authorization with
  | error f' =>
    rw [hp] at h
    cases h
    exact parseCredentials_agrees hp
  | ok credentials =>
    simp only [hp, bind, Except.bind, pure, Except.pure] at h
    split at h
    · cases h
      exact internal_agrees _
    split at h
    · split at h
      · split at h
        · cases h
          exact unauthorized_agrees _
        · cases h
      · cases h
        exact internal_agrees _
    · cases h
      exact unauthorized_agrees _

theorem globalRateLimit_reported
    (h : GlobalRateLimit.fromRequest rl cache req = (.error f, cache', rl')) :
    f.Reported cache' := by
  have hc := checkReported_checkGlobal rl req.globalReading.now req.globalReading.systemNow
  unfold GlobalRateLimit.fromRequest at h
  generalize rl.checkGlobal req.globalReading.now req.globalReading.systemNow = c at hc h
  obtain ⟨result, rl''⟩ := c
  cases result with
  | error e =>
    cases h
    exact ⟨⟨hc.symm, by decide⟩, fun hf => by cases hf⟩
  | ok check =>
    obtain ⟨admitted, info⟩ := check
    cases admitted with
    | true => cases h
    | false =>
      cases h
      obtain ⟨i, rfl, hi⟩ := hc
      exact ⟨⟨rfl, by decide⟩, fun _ => ⟨i, rfl, hi⟩⟩

theorem charge_reported {row : ApiKeyRow}
    (h : AuthenticatedKey.charge row rl cache req = (.error f, cache', rl')) :
    f.Reported cache' := by
  have hc := checkReported_checkPerKey rl row.id req.keyReading.now req.keyReading.systemNow
  unfold AuthenticatedKey.charge at h
  generalize rl.checkPerKey row.id req.keyReading.now req.keyReading.systemNow = c at hc h
  obtain ⟨result, rl''⟩ := c
  cases result with
  | error e =>
    cases h
    exact ⟨⟨hc.symm, by decide⟩, fun hf => by cases hf⟩
  | ok check =>
    obtain ⟨admitted, info⟩ := check
    cases admitted with
    | true => cases h
    | false =>
      cases h
      obtain ⟨i, rfl, hi⟩ := hc
      exact ⟨⟨rfl, by decide⟩, fun _ => ⟨i, rfl, hi⟩⟩

theorem runGuards_reported (h : runGuards cr keys rl req = (.error f, cache', rl')) :
    f.Reported cache' := by
  by_cases hr : req.routeGuard = .none
  · simp [runGuards, hr] at h
  · rw [runGuards_of_ne_none hr] at h
    generalize hg : GlobalRateLimit.fromRequest rl {} req = guarded at h
    obtain ⟨result, cache, rl₁⟩ := guarded
    cases result with
    | error f' =>
      cases h
      exact globalRateLimit_reported hg
    | ok =>
      cases ha : authenticate cr keys req with
      | error f' =>
        rw [ha] at h
        cases h
        obtain ⟨hagrees, hne⟩ := authenticate_agrees ha
        exact ⟨hagrees, fun hf => absurd hf hne⟩
      | ok row =>
        rw [ha] at h
        dsimp only at h
        generalize hc : AuthenticatedKey.charge row rl₁ cache req = charged at h
        obtain ⟨result, cache₂, rl₂⟩ := charged
        cases result with
        | error f' =>
          cases h
          exact charge_reported hc
        | ok key =>
          simp only [Except.bind, checkAdmin, Prod.mk.injEq] at h
          obtain ⟨hf, rfl, rfl⟩ := h
          split_ifs at hf
          cases hf
          exact ⟨⟨rfl, by decide⟩, by simp [tooManyRequests]⟩

end Guards

/-! ## What a response says -/

def errorCode : ℕ → Option String
  | 202 => some "NOT_YET_INDEXED"
  | 400 => some "BAD_REQUEST"
  | 401 => some "UNAUTHORIZED"
  | 403 => some "FORBIDDEN"
  | 404 => some "NOT_FOUND"
  | 422 => some "UNPROCESSABLE_ENTITY"
  | 429 => some "RATE_LIMITED"
  | 500 => some "INTERNAL_ERROR"
  | _ => none

/-- An error names its request and has the code of its status, and a client is told when to come
back exactly if it is rate limited. -/
structure HttpResponse.Consistent (requestId : String) (r : HttpResponse) : Prop where
  error : ∀ b, r.body = .error b → b.requestId = requestId ∧ errorCode r.status = some b.error.code
  retryAfter : r.retryAfter = if r.status = 429 then some "60" else none

section Consistent

variable (requestId : String)

theorem response_consistent (e : ApiError) : (e.response requestId).Consistent requestId := by
  cases e <;> exact ⟨fun b hb => by cases hb; exact ⟨rfl, rfl⟩, rfl⟩

theorem catchStatus_consistent (status : ℕ) :
    (catchStatus requestId status).Consistent requestId := by
  unfold catchStatus
  split
  case h_8 h429 _ => exact ⟨fun b hb => (nomatch hb), (if_neg fun h => h429 h).symm⟩
  all_goals exact ⟨fun b hb => by cases hb; exact ⟨rfl, rfl⟩, rfl⟩

theorem dispatch_consistent (handled : Except Failure Handled) :
    (dispatch requestId handled).Consistent requestId := by
  match handled with
  | .ok (.value json) => exact ⟨fun b hb => (nomatch hb), rfl⟩
  | .ok (.error e) => exact response_consistent requestId e
  | .ok (.rejected status) => exact catchStatus_consistent requestId status
  | .ok .panic => exact catchStatus_consistent requestId 500
  | .error (.error status _) => exact catchStatus_consistent requestId status
  | .error .panic => exact catchStatus_consistent requestId 500

theorem dispatch_failure {f : Failure} (h : f.Agrees) :
    ∃ b, (dispatch requestId (.error f)).body = .error b ∧
      ∀ status e, f = .error status e → b.error.code = e.respondTo.2.1 := by
  cases f with
  | panic => exact ⟨_, rfl, fun _ _ hf => nomatch hf⟩
  | error status e =>
    obtain ⟨rfl, hs⟩ := h
    cases e with
    | notYetIndexed message => exact absurd hs (show ¬ 400 ≤ 202 by decide)
    | badRequest | unauthorized | forbidden | notFound | internal | rateLimited =>
      exact ⟨_, rfl, fun _ _ hf => by cases hf; rfl⟩

end Consistent

theorem errorCode_inj {s s' : ℕ} {code : String} (h : errorCode s = some code)
    (h' : errorCode s' = some code) : s = s' := by
  unfold errorCode at h h'
  split at h <;> cases h <;> split at h' <;> first | rfl | simp at h'

theorem catchStatus_status (requestId : String) (status : ℕ) :
    (catchStatus requestId status).status = status := by
  unfold catchStatus
  split <;> rfl

theorem dispatch_status (requestId : String) (outcome : Except Failure Unit) (handled : Handled) :
    (dispatch requestId (outcome.map fun _ => handled)).status =
      responseStatus handled.status outcome := by
  match outcome, handled with
  | .ok (), .value _ => rfl
  | .ok (), .error _ => rfl
  | .ok (), .rejected _ => exact catchStatus_status ..
  | .ok (), .panic => exact catchStatus_status ..
  | .error (.error _ _), _ => exact catchStatus_status ..
  | .error .panic, _ => exact catchStatus_status ..

theorem send_serve (cr : Crypto) (keys : List ApiKeyRow) (rl : RateLimiter) (inc : Incoming) :
    let sent := send cr keys rl inc
    let served := serve cr keys rl inc.request inc.handled.status
    sent.1.response.status = served.1.status ∧ sent.1.rateLimit = served.1.rateLimit ∧
      sent.1.usage = served.1.usage ∧ sent.2 = served.2 := by
  have hstatus : (send cr keys rl inc).1.response.status =
      (serve cr keys rl inc.request inc.handled.status).1.status := dispatch_status ..
  refine ⟨hstatus, rfl, ?_, rfl⟩
  exact congrArg (usageRow (runGuards cr keys rl inc.request).2.1 inc.request) hstatus

/-- Every response names its request by an id that can be used, which is the client's if that
one can and which the next server keeps. An error names the same id, its code and its status
say the same on every way out, and only a rate limited client is told to retry. A failed guard
is explained under the code of its own error, and a full window shows that nothing is left. Status,
limits and usage row are those of the guards and the limiter. -/
theorem responses_traceable (cr : Crypto) (keys : List ApiKeyRow) (rl : RateLimiter)
    (inc : Incoming) :
    let sent := (send cr keys rl inc).1
    let served := (serve cr keys rl inc.request inc.handled.status).1
    IsRequestId sent.requestId ∧
      (∀ value, inc.requestIdHeader = some value → IsRequestId (String.ofList (trim value.toList)) →
        sent.requestId = String.ofList (trim value.toList)) ∧
      (∀ uuidBits, extractRequestId uuidBits (some sent.requestId) = sent.requestId) ∧
      sent.response.Consistent sent.requestId ∧
      (∀ s s' code, errorCode s = some code → errorCode s' = some code → s = s') ∧
      (∀ f, (runGuards cr keys rl inc.request).1 = .error f →
        (∃ b, sent.response.body = .error b ∧
          ∀ status e, f = .error status e → b.error.code = e.respondTo.2.1) ∧
        (f = tooManyRequests → ∃ i, sent.rateLimit = some i ∧ i.remaining = 0)) ∧
      sent.response.status = served.status ∧ sent.rateLimit = served.rateLimit ∧
        sent.usage = served.usage := by
  obtain ⟨hid, hclient⟩ := isRequestId_extractRequestId inc.uuidBits inc.requestIdHeader
  refine ⟨hid, hclient, extractRequestId_self hid, dispatch_consistent _ _,
    fun s s' code => errorCode_inj, fun f hf => ?_, ?_⟩
  · generalize hg : runGuards cr keys rl inc.request = guarded at hf
    obtain ⟨result, cache, rl'⟩ := guarded
    obtain rfl : result = .error f := hf
    obtain ⟨hagrees, hlimited⟩ := runGuards_reported hg
    simp only [send, hg]
    exact ⟨dispatch_failure _ hagrees, hlimited⟩
  · obtain ⟨hstatus, hlimit, husage, -⟩ := send_serve cr keys rl inc
    exact ⟨hstatus, hlimit, husage⟩

end AlbionApi
