import Mathlib.Data.Nat.Notation

/-! # Base64

The standard alphabet with padding. A text is decoded only if it is the one
that its bytes are encoded to.
-/

namespace AlbionApi.Base64

def alphabet : List Char :=
  "ABCDEFGHIJKLMNOPQRSTUVWXYZabcdefghijklmnopqrstuvwxyz0123456789+/".toList

def digit (n : ℕ) : Char := (alphabet[n]?).getD '='

def value (c : Char) : Option ℕ := alphabet.idxOf? c

theorem value_digit {n : ℕ} (h : n < 64) : value (digit n) = some n := by
  have hall : ∀ m : Fin 64, value (digit m) = some m.val := by decide +kernel
  exact hall ⟨n, h⟩

theorem value_pad : value '=' = none := by decide

/-- Three bytes are four digits; two or one at the end are padded. -/
def encodeBytes : List UInt8 → List Char
  | [] => []
  | [a] => [digit (a.toNat / 4), digit (a.toNat % 4 * 16), '=', '=']
  | [a, b] =>
    [digit (a.toNat / 4), digit (a.toNat % 4 * 16 + b.toNat / 16), digit (b.toNat % 16 * 4), '=']
  | a :: b :: c :: bytes =>
    digit (a.toNat / 4) :: digit (a.toNat % 4 * 16 + b.toNat / 16) ::
      digit (b.toNat % 16 * 4 + c.toNat / 64) :: digit (c.toNat % 64) :: encodeBytes bytes

/-- The bytes that the values of digits begin with. -/
def bytesOf : List ℕ → List UInt8
  | v :: w :: x :: y :: values =>
    UInt8.ofNat (v * 4 + w / 16) :: UInt8.ofNat (w % 16 * 16 + x / 4) ::
      UInt8.ofNat (x % 4 * 64 + y) :: bytesOf values
  | [v, w, x] => [UInt8.ofNat (v * 4 + w / 16), UInt8.ofNat (w % 16 * 16 + x / 4)]
  | [v, w] => [UInt8.ofNat (v * 4 + w / 16)]
  | _ => []

theorem ofNat_eq {n : ℕ} {a : UInt8} (h : n = a.toNat) : UInt8.ofNat n = a := by
  rw [h, UInt8.ofNat_toNat]

theorem bytesOf_encodeBytes (bytes : List UInt8) :
    bytesOf ((encodeBytes bytes).filterMap value) = bytes := by
  induction bytes using encodeBytes.induct with
  | case1 => rfl
  | case2 a =>
    have ha := a.toNat_lt
    simp only [encodeBytes, List.filterMap_cons, value_pad, List.filterMap_nil,
      value_digit (show a.toNat / 4 < 64 by omega),
      value_digit (show a.toNat % 4 * 16 < 64 by omega), bytesOf]
    rw [ofNat_eq (a := a) (by omega)]
  | case3 a b =>
    have ha := a.toNat_lt
    have hb := b.toNat_lt
    simp only [encodeBytes, List.filterMap_cons, value_pad, List.filterMap_nil,
      value_digit (show a.toNat / 4 < 64 by omega),
      value_digit (show a.toNat % 4 * 16 + b.toNat / 16 < 64 by omega),
      value_digit (show b.toNat % 16 * 4 < 64 by omega), bytesOf]
    rw [ofNat_eq (a := a) (by omega), ofNat_eq (a := b) (by omega)]
  | case4 a b c bytes ih =>
    have ha := a.toNat_lt
    have hb := b.toNat_lt
    have hc := c.toNat_lt
    simp only [encodeBytes, List.filterMap_cons,
      value_digit (show a.toNat / 4 < 64 by omega),
      value_digit (show a.toNat % 4 * 16 + b.toNat / 16 < 64 by omega),
      value_digit (show b.toNat % 16 * 4 + c.toNat / 64 < 64 by omega),
      value_digit (show c.toNat % 64 < 64 by omega), bytesOf, ih]
    rw [ofNat_eq (a := a) (by omega), ofNat_eq (a := b) (by omega), ofNat_eq (a := c) (by omega)]

def encode (bytes : ByteArray) : String := String.ofList (encodeBytes bytes.data.toList)

/-- The alphabet that is safe in URLs has another two last digits, and no padding follows. -/
def encodeUrlSafe (bytes : List UInt8) : String :=
  let digits := (encodeBytes bytes).filter (· ≠ '=')
  String.ofList (digits.map fun c => if c = '+' then '-' else if c = '/' then '_' else c)

def decode (text : String) : Option ByteArray :=
  let bytes : ByteArray := ⟨(bytesOf (text.toList.filterMap value)).toArray⟩
  if encode bytes = text then some bytes else none

theorem decode_eq_some_iff {text : String} {bytes : ByteArray} :
    decode text = some bytes ↔ text = encode bytes := by
  constructor
  · intro h
    simp only [decode] at h
    split at h
    · next he =>
      rw [← Option.some.inj h]
      exact he.symm
    · cases h
  · rintro rfl
    have hb : (⟨(bytesOf ((encode bytes).toList.filterMap value)).toArray⟩ : ByteArray) =
        bytes := by
      rw [encode, String.toList_ofList, bytesOf_encodeBytes]
    simp only [decode, hb, if_pos]

end AlbionApi.Base64
