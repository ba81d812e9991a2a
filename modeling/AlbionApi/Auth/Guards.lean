import AlbionApi.Limiter.RateLimiter

/-! # Request guards and response fairings

The guards read the credentials of a request, charge the limiter and leave
their findings in the request-local cache; the response fairings turn the
cache into rate limit headers and usage rows. Base64 and Argon2 are parameters.
-/

namespace AlbionApi

/-- The libraries behind the credential check. -/
structure Crypto where
  /-- `general_purpose::STANDARD.decode`. -/
  base64Decode : String → Option ByteArray
  Hash : Type
  /-- `PasswordHash::new`. -/
  parseHash : String → Option Hash
  /-- `Argon2::default().verify_password`. -/
  verifyPassword : String → Hash → Bool

structure ApiKeyRow where
  id : Int64
  keyId : String
  secretHash : String
  label : String
  owner : String
  active : Bool
  isAdmin : Bool
  deriving DecidableEq, Repr

structure AuthenticatedKey where
  id : Int64
  keyId : String
  label : String
  owner : String
  isAdmin : Bool
  deriving DecidableEq, Repr

/-- How a guard fails: with a status and an error, or by a panic that the server catches. -/
inductive Failure where
  | error (status : ℕ) (e : ApiError)
  | panic
  deriving DecidableEq, Repr

/-- Split a text at a byte offset; there is no split inside a character or past the end. -/
def splitAtByte : ℕ → List Char → Option (List Char × List Char)
  | 0, cs => some ([], cs)
  | _ + 1, [] => none
  | n + 1, c :: cs =>
    if c.utf8Size ≤ n + 1 then
      (splitAtByte (n + 1 - c.utf8Size) cs).map fun (l, r) => (c :: l, r)
    else none

/-- `str::split_once` for one character. -/
def splitOnce (sep : Char) : List Char → Option (List Char × List Char)
  | [] => none
  | c :: cs =>
    if c = sep then some ([], cs) else (splitOnce sep cs).map fun (l, r) => (c :: l, r)

def basicPrefix : String := "Basic "

/-- The key id and secret of an `Authorization` header. -/
def parseCredentials (cr : Crypto) (header : Option String) :
    Except Failure (String × String) := do
  let some header := header
    | throw (.error 401 (.unauthorized "missing Authorization header"))
  if header.utf8ByteSize < basicPrefix.utf8ByteSize then
    throw (.error 401 (.unauthorized "invalid Authorization scheme"))
  -- Slicing a `str` inside a character panics.
  let some (scheme, encoded) := splitAtByte basicPrefix.utf8ByteSize header.toList
    | throw .panic
  if scheme.map Char.toLower ≠ basicPrefix.toList.map Char.toLower then
    throw (.error 401 (.unauthorized "invalid Authorization scheme"))
  let some decoded := cr.base64Decode (String.ofList encoded)
    | throw (.error 401 (.unauthorized "invalid base64 encoding"))
  let some credentials := String.fromUTF8? decoded
    | throw (.error 401 (.unauthorized "invalid credentials encoding"))
  let some (keyId, secret) := splitOnce ':' credentials.toList
    | throw (.error 401 (.unauthorized "invalid credentials format"))
  return (String.ofList keyId, String.ofList secret)

/-- The guard a route asks for after the global limit. -/
inductive RouteGuard where
  | none
  | authenticatedKey
  | adminKey
  deriving DecidableEq, Repr

structure Reading where
  now : Instant
  systemNow : SystemTime
  deriving DecidableEq, Repr

/-- A request, with the outcome of its key lookup in the database and the readings its
two limiter checks take. -/
structure Request where
  method : String
  path : String
  authorization : Option String
  routeGuard : RouteGuard
  lookupOk : Bool
  globalReading : Reading
  keyReading : Reading
  deriving DecidableEq, Repr

/-- The request-local cache: each slot keeps its first value. -/
structure LocalCache where
  authKeyId : Option (Option Int64) := none
  /-- `CachedRateLimitInfo`, whose contents a guard may still overwrite. -/
  rateLimitInfo : Option (Option RateLimitInfo) := none

def LocalCache.storeAuthKeyId (cache : LocalCache) (id : Int64) : LocalCache :=
  { cache with authKeyId := some (cache.authKeyId.getD (some id)) }

def LocalCache.storeInfo (cache : LocalCache) : Option RateLimitInfo → LocalCache
  | some info => { cache with rateLimitInfo := some (some info) }
  | none => cache

def tooManyRequests : Failure :=
  .error 429 (.rateLimited "Too many requests, please try again later")

abbrev GuardResult (α : Type) := Except Failure α × LocalCache × RateLimiter

namespace GlobalRateLimit

def fromRequest (rl : RateLimiter) (cache : LocalCache) (req : Request) : GuardResult Unit :=
  let (result, rl) := rl.checkGlobal req.globalReading.now req.globalReading.systemNow
  match result with
  | .ok (true, info) => (.ok (), cache.storeInfo info, rl)
  | .ok (false, info) => (.error tooManyRequests, cache.storeInfo info, rl)
  | .error e => (.error (.error 500 e), cache, rl)

end GlobalRateLimit

/-- The part of the key guard that finds the active row and verifies the secret. -/
def authenticate (cr : Crypto) (keys : List ApiKeyRow) (req : Request) :
    Except Failure ApiKeyRow := do
  let (keyId, secret) ← parseCredentials cr req.authorization
  if !req.lookupOk then
    throw (.error 500 (.internal "authentication check failed"))
  let some row := keys.find? fun row => row.keyId = keyId ∧ row.active
    | throw (.error 401 (.unauthorized "invalid credentials"))
  let some parsedHash := cr.parseHash row.secretHash
    | throw (.error 500 (.internal "authentication check failed"))
  if !cr.verifyPassword secret parsedHash then
    throw (.error 401 (.unauthorized "invalid credentials"))
  return row

namespace AuthenticatedKey

def ofRow (row : ApiKeyRow) : AuthenticatedKey where
  id := row.id
  keyId := row.keyId
  label := row.label
  owner := row.owner
  isAdmin := row.isAdmin

def fromRequest (cr : Crypto) (keys : List ApiKeyRow) (rl : RateLimiter) (cache : LocalCache)
    (req : Request) : GuardResult AuthenticatedKey :=
  match authenticate cr keys req with
  | .error f => (.error f, cache, rl)
  | .ok row =>
    let cache := cache.storeAuthKeyId row.id
    let (result, rl) := rl.checkPerKey row.id req.keyReading.now req.keyReading.systemNow
    match result with
    | .ok (true, info) => (.ok (ofRow row), cache.storeInfo info, rl)
    | .ok (false, info) => (.error tooManyRequests, cache.storeInfo info, rl)
    | .error e => (.error (.error 500 e), cache, rl)

end AuthenticatedKey

namespace AdminKey

def fromRequest (cr : Crypto) (keys : List ApiKeyRow) (rl : RateLimiter) (cache : LocalCache)
    (req : Request) : GuardResult AuthenticatedKey :=
  match AuthenticatedKey.fromRequest cr keys rl cache req with
  | (.ok key, cache, rl) =>
    if key.isAdmin then (.ok key, cache, rl)
    else (.error (.error 403 (.forbidden "admin access required")), cache, rl)
  | (.error f, cache, rl) => (.error f, cache, rl)

end AdminKey

/-- The guards of a route in order; a failed guard skips the rest. -/
def runGuards (cr : Crypto) (keys : List ApiKeyRow) (rl : RateLimiter) (req : Request) :
    GuardResult Unit :=
  match req.routeGuard with
  | .none => (.ok (), {}, rl)
  | .authenticatedKey =>
    match GlobalRateLimit.fromRequest rl {} req with
    | (.error f, cache, rl) => (.error f, cache, rl)
    | (.ok (), cache, rl) =>
      let (result, cache, rl) := AuthenticatedKey.fromRequest cr keys rl cache req
      (result.map fun _ => (), cache, rl)
  | .adminKey =>
    match GlobalRateLimit.fromRequest rl {} req with
    | (.error f, cache, rl) => (.error f, cache, rl)
    | (.ok (), cache, rl) =>
      let (result, cache, rl) := AdminKey.fromRequest cr keys rl cache req
      (result.map fun _ => (), cache, rl)

/-! ## Responses -/

structure UsageRow where
  apiKeyId : Int64
  method : String
  path : String
  statusCode : ℕ
  deriving DecidableEq, Repr

/-- The response to a request: the outcome of its guards, its status, the rate limit headers
and the row that the usage logger inserts. -/
structure Answer where
  outcome : Except Failure Unit
  status : ℕ
  rateLimit : Option RateLimitInfo
  usage : Option UsageRow

def responseStatus (handlerStatus : ℕ) : Except Failure Unit → ℕ
  | .ok () => handlerStatus
  | .error (.error status _) => status
  | .error .panic => 500

/-- `UsageLogger::on_response`. -/
def usageRow (cache : LocalCache) (req : Request) (status : ℕ) : Option UsageRow :=
  (cache.authKeyId.getD none).map fun id =>
    { apiKeyId := id, method := req.method, path := req.path, statusCode := status }

/-- `RateLimitHeadersFairing::on_response`. -/
def rateLimitHeaders (cache : LocalCache) : Option RateLimitInfo :=
  cache.rateLimitInfo.getD none

/-- Answer one request, with the status its handler gives if it is reached. -/
def serve (cr : Crypto) (keys : List ApiKeyRow) (rl : RateLimiter) (req : Request)
    (handlerStatus : ℕ) : Answer × RateLimiter :=
  let (outcome, cache, rl) := runGuards cr keys rl req
  let status := responseStatus handlerStatus outcome
  ({ outcome := outcome, status := status, rateLimit := rateLimitHeaders cache,
     usage := usageRow cache req status }, rl)

def serveAll (cr : Crypto) (keys : List ApiKeyRow) (rl : RateLimiter) :
    List (Request × ℕ) → List Answer
  | [] => []
  | (req, handlerStatus) :: reqs =>
    let (answer, rl) := serve cr keys rl req handlerStatus
    answer :: serveAll cr keys rl reqs

end AlbionApi
