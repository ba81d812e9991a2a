import AlbionApi.Api.Error
import Mathlib.Algebra.Order.Ring.Int
import Mathlib.Data.List.Basic

/-! # The rate limiter

The two sliding windows of the limiter, a global one and one for each key,
with the periodic cleanup of the keyed map. Instants and clock readings are
integers in nanoseconds. The hash map of windows is an ordered map: nothing
depends on its iteration order.
-/

namespace AlbionApi

abbrev Instant := ℤ

/-- The system clock in nanoseconds since the Unix epoch. -/
abbrev SystemTime := ℤ

def nanosPerSec : ℕ := 1000000000

/-- `WINDOW_DURATION`, 60 seconds. -/
def windowDuration : ℤ := 60 * nanosPerSec

/-- `PER_KEY_CLEANUP_EVERY`. -/
def perKeyCleanupEvery : UInt64 := 1024

/-- `Duration::as_secs`. -/
def asSecs (nanos : ℕ) : UInt64 := UInt64.ofNat (nanos / nanosPerSec)

/-- A lock that a panicking holder leaves poisoned. -/
structure Mutex (α : Type) where
  value : α
  poisoned : Bool := false

def Mutex.lock {α : Type} (m : Mutex α) : Option α := if m.poisoned then none else some m.value

structure RateLimitInfo where
  limit : UInt64
  remaining : UInt64
  reset : UInt64
  deriving DecidableEq, Repr

abbrev Windows := Std.TreeMap Int64 (List Instant)

structure RateLimiter where
  globalRpm : UInt64
  perKeyRpm : UInt64
  globalWindow : Mutex (List Instant)
  perKeyWindows : Mutex Windows
  perKeyCheckCount : UInt64

abbrev CheckResult := Except ApiError (Bool × Option RateLimitInfo)

namespace RateLimiter

def new (globalRpm perKeyRpm : UInt64) : RateLimiter where
  globalRpm := globalRpm
  perKeyRpm := perKeyRpm
  globalWindow := ⟨[], false⟩
  perKeyWindows := ⟨∅, false⟩
  perKeyCheckCount := 0

/-- Pop the front while it is older than the cutoff. -/
def pruneWindow (window : List Instant) (cutoff : Instant) : List Instant :=
  window.dropWhile (· < cutoff)

def computeReset (window : List Instant) (now : Instant) (systemNow : SystemTime) : UInt64 :=
  -- `duration_since(UNIX_EPOCH).unwrap_or_default()` is zero before the epoch.
  let nowUnix := asSecs systemNow.toNat
  match window.head? with
  | some oldest => nowUnix + asSecs (oldest + windowDuration - now).toNat
  | none => nowUnix + asSecs windowDuration.toNat

/-- The decision on a pruned window and the window it leaves, as both checks make it. -/
def tryAdmit (rpm : UInt64) (window : List Instant) (now : Instant) (systemNow : SystemTime) :
    (Bool × Option RateLimitInfo) × List Instant :=
  if UInt64.ofNat window.length < rpm then
    let window := window ++ [now]
    let remaining := rpm - UInt64.ofNat window.length
    let reset := computeReset window now systemNow
    ((true, some { limit := rpm, remaining := remaining, reset := reset }), window)
  else
    let reset := computeReset window now systemNow
    ((false, some { limit := rpm, remaining := 0, reset := reset }), window)

def checkGlobal (rl : RateLimiter) (now : Instant) (systemNow : SystemTime) :
    CheckResult × RateLimiter :=
  if rl.globalRpm = 0 then (.ok (true, none), rl)
  else
    match rl.globalWindow.lock with
    | none => (.error (.internal "rate limiter unavailable"), rl)
    | some window =>
      let cutoff := now - windowDuration
      let d := tryAdmit rl.globalRpm (pruneWindow window cutoff) now systemNow
      (.ok d.1, { rl with globalWindow := { rl.globalWindow with value := d.2 } })

/-- `windows.retain`: prune every window and drop the empty ones. -/
def cleanup (windows : Windows) (cutoff : Instant) : Windows :=
  windows.filterMap fun _ window =>
    let window := pruneWindow window cutoff
    if window.isEmpty then none else some window

def checkPerKey (rl : RateLimiter) (keyId : Int64) (now : Instant) (systemNow : SystemTime) :
    CheckResult × RateLimiter :=
  if rl.perKeyRpm = 0 then (.ok (true, none), rl)
  else
    match rl.perKeyWindows.lock with
    | none => (.error (.internal "rate limiter unavailable"), rl)
    | some windows =>
      let cutoff := now - windowDuration
      -- `fetch_add` wraps around on overflow.
      let checkCount := rl.perKeyCheckCount + 1
      let windows := if checkCount % perKeyCleanupEvery = 0 then cleanup windows cutoff else windows
      let window := windows.getD keyId []
      let d := tryAdmit rl.perKeyRpm (pruneWindow window cutoff) now systemNow
      (.ok d.1, { rl with
        perKeyWindows := { rl.perKeyWindows with value := windows.insert keyId d.2 }
        perKeyCheckCount := checkCount })

/-- The two scopes of a check. -/
inductive Scope where
  | global
  | perKey (keyId : Int64)
  deriving DecidableEq, Repr

/-- The lock under which a scope's check reads the clock. -/
inductive Lock where
  | globalWindow
  | perKeyWindows
  deriving DecidableEq, Repr

def Scope.lock : Scope → Lock
  | global => .globalWindow
  | perKey _ => .perKeyWindows

def check (rl : RateLimiter) (s : Scope) (now : Instant) (systemNow : SystemTime) :
    CheckResult × RateLimiter :=
  match s with
  | .global => rl.checkGlobal now systemNow
  | .perKey keyId => rl.checkPerKey keyId now systemNow

def rpm (rl : RateLimiter) : Scope → UInt64
  | .global => rl.globalRpm
  | .perKey _ => rl.perKeyRpm

/-- The stored window of a scope; a key without one has the empty window. -/
def window (rl : RateLimiter) : Scope → List Instant
  | .global => rl.globalWindow.value
  | .perKey keyId => rl.perKeyWindows.value.getD keyId []

end RateLimiter

end AlbionApi
