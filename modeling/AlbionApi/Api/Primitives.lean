import Mathlib.Algebra.Group.Nat.Defs
import Mathlib.Data.Nat.Notation

/-! # Primitive values

Hashes, addresses and amounts as the API passes them on. The hexadecimal text
of the first two and the decimal floats come from libraries outside the
repository, of which only the documented behaviour is used.
-/

namespace AlbionApi

abbrev B256 := BitVec 256
abbrev Address := BitVec 160
abbrev U256 := BitVec 256
abbrev Bytes := List UInt8

/-- The text form of hashes, addresses and byte strings. -/
class HexText where
  /-- `{:#x}` of a hash. -/
  formatB256 : B256 → String
  parseB256 : String → Option B256
  /-- `{:#x}` of an address. -/
  formatAddress : Address → String
  parseAddress : String → Option Address
  formatBytes : Bytes → String
  /-- The text of the error of a failed parse. -/
  parseError : String → String
  parseB256_format : ∀ h, parseB256 (formatB256 h) = some h
  parseAddress_format : ∀ a, parseAddress (formatAddress a) = some a

attribute [simp] HexText.parseB256_format HexText.parseAddress_format

namespace HexText

variable [HexText]

theorem formatB256_injective {h h' : B256} (e : formatB256 h = formatB256 h') : h = h' := by
  have hs := congrArg parseB256 e
  rw [parseB256_format, parseB256_format] at hs
  exact Option.some.inj hs

theorem formatAddress_injective {a a' : Address} (e : formatAddress a = formatAddress a') :
    a = a' := by
  have hs := congrArg parseAddress e
  rw [parseAddress_format, parseAddress_format] at hs
  exact Option.some.inj hs

end HexText

/-- Decimal floats. An operation is `none` where the library returns an error,
which every caller replaces by one of its own. -/
class FloatLib (F : Type) where
  zero : Option F
  add : F → F → Option F
  sub : F → F → Option F
  mul : F → F → Option F
  div : F → F → Option F
  eq : F → F → Option Bool
  format : F → Option String
  parse : String → Option F
  fromHex : String → Option F

/-- `u64::try_from` on a 256-bit value. -/
def U256.tryIntoU64 (value : U256) : Option UInt64 :=
  if value.toNat < 2 ^ 64 then some (UInt64.ofNat value.toNat) else none

end AlbionApi
