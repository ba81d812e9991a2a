import AlbionApi.Api.Hex
import Mathlib.Data.Rat.Defs
import Mathlib.Algebra.Order.Ring.Unbundled.Rat

/-! # Exact decimal floats

The float library without rounding: a word packs an exponent of ten and a
coefficient, and every operation is exact.
-/

namespace AlbionApi.Rational

def unpack (word : BitVec 256) : ℚ :=
  let exponent := (word.extractLsb' 224 32).toInt
  let coefficient := (word.extractLsb' 0 224).toInt
  if 0 ≤ exponent then coefficient * 10 ^ exponent.toNat
  else coefficient / 10 ^ (-exponent).toNat

def format (q : ℚ) : Option String := if q.den = 1 then some (toString q.num) else none

def readNat (cs : List Char) : Option ℕ :=
  cs.foldlM (fun acc c => if c.isDigit then some (acc * 10 + (c.toNat - 48)) else none) 0

def parse (s : String) : Option ℚ :=
  match s.toList with
  | '-' :: cs => (readNat cs).map fun n => -(n : ℚ)
  | cs => (readNat cs).map fun n => (n : ℚ)

@[reducible] def floats : FloatLib ℚ where
  zero := some 0
  add a b := some (a + b)
  sub a b := some (a - b)
  mul a b := some (a * b)
  div a b := if b = 0 then none else some (a / b)
  eq a b := some (a = b)
  format := format
  parse := parse
  fromHex s := (Hex.parse 64 s).map fun n => unpack (BitVec.ofNat 256 n)

/-- The same with a text for every number, a fraction where it is not whole. -/
@[reducible] def fractions : FloatLib ℚ := { floats with format := fun q => some (toString q) }

end AlbionApi.Rational
