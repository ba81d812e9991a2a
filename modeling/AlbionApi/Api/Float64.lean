import Mathlib.Algebra.Group.Nat.Defs
import Mathlib.Data.Int.Notation
import Mathlib.Data.Nat.Notation

/-! # Texts of 64-bit floats

Which texts are read as a 64-bit float, and which of them as a positive one. A
decimal is read exactly and only then rounded, to the nearest float.
-/

namespace AlbionApi

/-- What a text says, before it is rounded. -/
inductive Float64Text where
  | nan
  | infinity (negative : Bool)
  /-- `mantissa * 10 ^ exponent`. -/
  | decimal (negative : Bool) (mantissa : ℕ) (exponent : ℤ)
  deriving DecidableEq, Repr

namespace Float64Text

def digitsValue (digits : List Char) : ℕ :=
  digits.foldl (fun n c => 10 * n + (c.toNat - '0'.toNat)) 0

def splitSign : List Char → Bool × List Char
  | '-' :: s => (true, s)
  | '+' :: s => (false, s)
  | s => (false, s)

def parseExponent (s : List Char) : Option ℤ :=
  let (negative, digits) := splitSign s
  if digits.isEmpty ∨ ¬ digits.all Char.isDigit then none
  else some (if negative then -(digitsValue digits : ℤ) else digitsValue digits)

/-- The digits, with at most one point among them and an exponent after them. -/
def parseDecimal (s : List Char) : Option (ℕ × ℤ) :=
  let whole := s.takeWhile Char.isDigit
  let rest := s.dropWhile Char.isDigit
  let (fraction, rest) := match rest with
    | '.' :: rest => (rest.takeWhile Char.isDigit, rest.dropWhile Char.isDigit)
    | rest => ([], rest)
  if whole.isEmpty ∧ fraction.isEmpty then none
  else
    let mantissa := digitsValue (whole ++ fraction)
    match rest with
    | [] => some (mantissa, -(fraction.length : ℤ))
    | c :: rest =>
      if c.toLower = 'e' then
        (parseExponent rest).map fun exponent => (mantissa, exponent - fraction.length)
      else none

/-- `f64::from_str`. -/
def parse (s : List Char) : Option Float64Text :=
  let (negative, s) := splitSign s
  let lower := s.map Char.toLower
  if lower = ['n', 'a', 'n'] then some .nan
  else if lower = ['i', 'n', 'f'] ∨ lower = ['i', 'n', 'f', 'i', 'n', 'i', 't', 'y'] then
    some (.infinity negative)
  else (parseDecimal s).map fun d => .decimal negative d.1 d.2

/-- The float is above zero: half of the least one, `2 ^ -1074`, is rounded to even. -/
def isPositive : Float64Text → Bool
  | nan => false
  | infinity negative => !negative
  | decimal negative mantissa exponent =>
    !negative && decide (10 ^ (-exponent).toNat < 2 ^ 1075 * mantissa * 10 ^ exponent.toNat)

example : (parse ['0', '.', '0', '1']).map isPositive = some true := by decide +kernel

example : (parse ['1', 'e', '-', '4', '0', '0']).map isPositive = some false := by decide +kernel

end Float64Text

end AlbionApi
