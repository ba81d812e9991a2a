import AlbionApi.Api.Primitives
import Mathlib.Data.Nat.Digits.Defs
import Mathlib.Data.List.Basic
import Mathlib.Tactic.IntervalCases

/-! # Hexadecimal text

The text form of hashes and addresses, in lower case behind `0x`. It is read
back with or without the prefix, in either case.
-/

namespace AlbionApi.Hex

def digitValue (c : Char) : Option ℕ :=
  if '0' ≤ c ∧ c ≤ '9' then some (c.toNat - 48)
  else if 'a' ≤ c ∧ c ≤ 'f' then some (c.toNat - 87)
  else if 'A' ≤ c ∧ c ≤ 'F' then some (c.toNat - 55)
  else none

def digits : ℕ → ℕ → List Char
  | 0, _ => []
  | n + 1, x => digits n (x / 16) ++ [Nat.digitChar (x % 16)]

def readDigits (cs : List Char) : Option ℕ :=
  cs.foldlM (fun acc c => (digitValue c).map (acc * 16 + ·)) 0

def stripPrefix : List Char → List Char
  | '0' :: 'x' :: cs => cs
  | cs => cs

def format (n x : ℕ) : String := String.ofList ('0' :: 'x' :: digits n x)

def parse (n : ℕ) (s : String) : Option ℕ :=
  let cs := stripPrefix s.toList
  if cs.length = n then readDigits cs else none

@[simp] theorem length_digits (n x : ℕ) : (digits n x).length = n := by
  induction n generalizing x with
  | zero => rfl
  | succ n ih => simp [digits, ih]

theorem digitValue_digitChar {d : ℕ} (h : d < 16) : digitValue (Nat.digitChar d) = some d := by
  interval_cases d <;> rfl

theorem readDigits_digits (n x : ℕ) : readDigits (digits n x) = some (x % 16 ^ n) := by
  induction n generalizing x with
  | zero => simp [digits, readDigits, Nat.mod_one]
  | succ n ih =>
    have hd := digitValue_digitChar (Nat.mod_lt x (show 0 < 16 by omega))
    have hr := ih (x / 16)
    rw [readDigits] at hr
    rw [readDigits, digits, List.foldlM_append, hr]
    simp only [Option.bind_eq_bind, Option.bind_some, List.foldlM_cons, List.foldlM_nil, hd,
      Option.map_some, Option.pure_def]
    rw [Nat.pow_succ', Nat.mod_mul, Nat.add_comm, Nat.mul_comm]

theorem parse_format {n x : ℕ} (h : x < 16 ^ n) : parse n (format n x) = some x := by
  simp [parse, format, stripPrefix, readDigits_digits, Nat.mod_eq_of_lt h]

/-- The text form that the libraries document. -/
@[reducible] def text : HexText where
  formatB256 h := format 64 h.toNat
  parseB256 s := (parse 64 s).map (BitVec.ofNat 256)
  formatAddress a := format 40 a.toNat
  parseAddress s := (parse 40 s).map (BitVec.ofNat 160)
  formatBytes bs := String.ofList ('0' :: 'x' :: bs.flatMap fun b => digits 2 b.toNat)
  parseError s := if (stripPrefix s.toList).length % 2 = 1 then "odd number of digits"
    else "invalid string length"
  parseB256_format h := by
    rw [parse_format h.isLt, Option.map_some, BitVec.ofNat_toNat, BitVec.setWidth_eq]
  parseAddress_format a := by
    rw [parse_format a.isLt, Option.map_some, BitVec.ofNat_toNat, BitVec.setWidth_eq]

end AlbionApi.Hex
