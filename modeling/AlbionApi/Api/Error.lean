import Mathlib.Data.Nat.Notation

/-! # API errors

The error type shared by every handler and guard, with the status, code and
message it answers with.
-/

namespace AlbionApi

inductive ApiError where
  | badRequest (message : String)
  | unauthorized (message : String)
  | forbidden (message : String)
  | notFound (message : String)
  | internal (message : String)
  | rateLimited (message : String)
  | notYetIndexed (message : String)
  deriving DecidableEq, Repr

namespace ApiError

def respondTo : ApiError → ℕ × String × String
  | badRequest msg => (400, "BAD_REQUEST", msg)
  | unauthorized msg => (401, "UNAUTHORIZED", msg)
  | forbidden msg => (403, "FORBIDDEN", msg)
  | notFound msg => (404, "NOT_FOUND", msg)
  | internal msg => (500, "INTERNAL_ERROR", msg)
  | rateLimited msg => (429, "RATE_LIMITED", msg)
  | notYetIndexed msg => (202, "NOT_YET_INDEXED", msg)

def status (e : ApiError) : ℕ := e.respondTo.1

end ApiError

end AlbionApi
