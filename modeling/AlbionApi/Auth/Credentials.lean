import AlbionApi.Api.Base64
import AlbionApi.Auth.Guards
import Mathlib.Algebra.BigOperators.Group.List.Basic

/-! # The grammar of credentials

A header is cut after its sixth byte before anything is checked of its text,
which takes a character boundary there. With one, the parser accepts the word
`Basic` in any case followed by the base64 text of a key id, a colon and a
secret, and turns everything else down.
-/

namespace AlbionApi

def byteLength (cs : List Char) : ℕ := (cs.map Char.utf8Size).sum

theorem byteLength_cons (c : Char) (cs : List Char) :
    byteLength (c :: cs) = c.utf8Size + byteLength cs := by
  rw [byteLength, List.map_cons, List.sum_cons]
  rfl

theorem utf8ByteSize_ofList (cs : List Char) :
    (String.ofList cs).utf8ByteSize = byteLength cs := by
  induction cs with
  | nil => rfl
  | cons c cs ih =>
    rw [String.ofList_cons, String.utf8ByteSize_append, String.utf8ByteSize_singleton, ih,
      byteLength_cons]

theorem byteLength_toList (s : String) : byteLength s.toList = s.utf8ByteSize := by
  rw [← utf8ByteSize_ofList, String.ofList_toList]

theorem splitAtByte_eq_some_iff {n : ℕ} {cs l r : List Char} :
    splitAtByte n cs = some (l, r) ↔ cs = l ++ r ∧ byteLength l = n := by
  induction cs generalizing n l with
  | nil =>
    cases n with
    | zero =>
      rw [splitAtByte, Option.some.injEq, Prod.mk.injEq, List.nil_eq_append_iff]
      constructor
      · rintro ⟨rfl, rfl⟩
        exact ⟨⟨rfl, rfl⟩, rfl⟩
      · rintro ⟨⟨rfl, rfl⟩, -⟩
        exact ⟨rfl, rfl⟩
    | succ n =>
      rw [splitAtByte, List.nil_eq_append_iff]
      constructor
      · intro h
        cases h
      · rintro ⟨⟨rfl, rfl⟩, h⟩
        cases h
  | cons c cs ih =>
    have hc := c.utf8Size_pos
    cases n with
    | zero =>
      rw [splitAtByte, Option.some.injEq, Prod.mk.injEq]
      constructor
      · rintro ⟨rfl, rfl⟩
        exact ⟨rfl, rfl⟩
      · rintro ⟨h, hl⟩
        cases l with
        | nil => exact ⟨rfl, h⟩
        | cons d l =>
          have := d.utf8Size_pos
          rw [byteLength_cons] at hl
          omega
    | succ n =>
      rw [splitAtByte]
      constructor
      · intro h
        split at h
        · next hle =>
          obtain ⟨⟨l', r'⟩, hs, he⟩ := Option.map_eq_some_iff.1 h
          simp only [Prod.mk.injEq] at he
          obtain ⟨rfl, rfl⟩ := he
          obtain ⟨rfl, hl⟩ := ih.1 hs
          refine ⟨rfl, ?_⟩
          rw [byteLength_cons]
          omega
        · cases h
      · rintro ⟨h, hl⟩
        cases l with
        | nil => cases hl
        | cons d l =>
          rw [List.cons_append, List.cons.injEq] at h
          obtain ⟨rfl, h⟩ := h
          rw [byteLength_cons] at hl
          have hs : splitAtByte (n + 1 - c.utf8Size) cs = some (l, r) := ih.2 ⟨h, by omega⟩
          rw [if_pos (by omega), hs]
          rfl

theorem splitOnce_eq_some_iff {sep : Char} {cs l r : List Char} :
    splitOnce sep cs = some (l, r) ↔ cs = l ++ sep :: r ∧ sep ∉ l := by
  induction cs generalizing l with
  | nil => simp [splitOnce]
  | cons c cs ih =>
    rw [splitOnce]
    by_cases hc : c = sep
    · rw [if_pos hc, Option.some.injEq, Prod.mk.injEq]
      constructor
      · rintro ⟨rfl, rfl⟩
        exact ⟨by rw [hc]; rfl, List.not_mem_nil⟩
      · rintro ⟨h, hn⟩
        cases l with
        | nil => exact ⟨rfl, (List.cons.inj h).2⟩
        | cons d l =>
          rw [List.cons_append, List.cons.injEq] at h
          exact absurd (hc.symm.trans h.1 ▸ List.mem_cons_self) hn
    · rw [if_neg hc, Option.map_eq_some_iff]
      constructor
      · rintro ⟨⟨l', r'⟩, hs, he⟩
        simp only [Prod.mk.injEq] at he
        obtain ⟨rfl, rfl⟩ := he
        obtain ⟨rfl, hn⟩ := ih.1 hs
        refine ⟨rfl, ?_⟩
        rw [List.mem_cons, not_or]
        exact ⟨Ne.symm hc, hn⟩
      · rintro ⟨h, hn⟩
        cases l with
        | nil => exact absurd (List.cons.inj h).1 hc
        | cons d l =>
          rw [List.cons_append, List.cons.injEq] at h
          obtain ⟨rfl, h⟩ := h
          rw [List.mem_cons, not_or] at hn
          exact ⟨(l, r), ih.2 ⟨h, hn.2⟩, rfl⟩

/-! ## The grammar -/

/-- The decoder inverts an encoder and rejects everything else. -/
def DecodesBase64 (cr : Crypto) (encode : ByteArray → String) : Prop :=
  ∀ text bytes, cr.base64Decode text = some bytes ↔ text = encode bytes

/-- The header that a key id and a secret are sent in. -/
def basicAuthHeader (encode : ByteArray → String) (keyId secret : String) : String :=
  "Basic " ++ encode (keyId ++ ":" ++ secret).toUTF8

/-- A header made of the word `Basic ` in any case and the encoded credentials, of which the
key id ends at the first colon. -/
def HasCredentials (encode : ByteArray → String) (header keyId secret : String) : Prop :=
  ∃ scheme : String, scheme.toList.map Char.toLower = "basic ".toList ∧
    header = scheme ++ encode (keyId ++ ":" ++ secret).toUTF8 ∧ ':' ∉ keyId.toList

def EndsAt (header : String) (n : ℕ) : Prop :=
  ∃ a b : String, header = a ++ b ∧ a.utf8ByteSize = n

theorem utf8Size_of_toLower {c : Char} (h : c.toLower ∈ "basic ".toList) : c.utf8Size = 1 := by
  unfold Char.toLower at h
  split at h
  · next hu =>
    rw [Char.utf8Size_eq_one_iff]
    exact UInt32.le_trans hu.2 (by decide)
  · revert h
    rw [show "basic ".toList = ['b', 'a', 's', 'i', 'c', ' '] from rfl]
    simp only [List.mem_cons, List.not_mem_nil, or_false]
    rintro (rfl | rfl | rfl | rfl | rfl | rfl) <;> rfl

theorem byteLength_scheme {cs : List Char} (h : cs.map Char.toLower = "basic ".toList) :
    byteLength cs = 6 := by
  have hone : cs.map Char.utf8Size = cs.map fun _ => 1 := by
    apply List.map_congr_left
    intro c hc
    exact utf8Size_of_toLower (h ▸ List.mem_map_of_mem hc)
  have hlen : cs.length = 6 := by
    have := congrArg List.length h
    rwa [List.length_map] at this
  rw [byteLength, hone, List.map_const', List.sum_replicate, hlen]
  rfl

theorem HasCredentials.endsAt {encode : ByteArray → String} {header keyId secret : String}
    (h : HasCredentials encode header keyId secret) : EndsAt header 6 := by
  obtain ⟨scheme, hs, rfl, -⟩ := h
  exact ⟨scheme, _, rfl, by rw [← byteLength_toList, byteLength_scheme hs]⟩

theorem fromUTF8?_eq_some_iff {bytes : ByteArray} {text : String} :
    String.fromUTF8? bytes = some text ↔ bytes = text.toUTF8 := by
  unfold String.fromUTF8?
  constructor
  · intro h
    split at h
    · rw [← Option.some.inj h]
      rfl
    · cases h
  · rintro rfl
    exact dif_pos text.isValidUTF8

theorem splitAtByte_isSome_iff (header : String) (n : ℕ) :
    (∃ l r, splitAtByte n header.toList = some (l, r)) ↔ EndsAt header n := by
  constructor
  · rintro ⟨l, r, h⟩
    obtain ⟨he, hl⟩ := splitAtByte_eq_some_iff.1 h
    refine ⟨String.ofList l, String.ofList r, ?_, by rw [utf8ByteSize_ofList, hl]⟩
    rw [← String.toList_inj, String.toList_append, String.toList_ofList, String.toList_ofList, he]
  · rintro ⟨a, b, rfl, hl⟩
    refine ⟨a.toList, b.toList, splitAtByte_eq_some_iff.2 ⟨String.toList_append, ?_⟩⟩
    rw [byteLength_toList, hl]

theorem parseCredentials_of_split (cr : Crypto) {header : String} {l r : List Char}
    (hs : splitAtByte 6 header.toList = some (l, r)) :
    parseCredentials cr (some header) =
      if l.map Char.toLower ≠ "basic ".toList then
        .error (.error 401 (.unauthorized "invalid Authorization scheme"))
      else
        match cr.base64Decode (String.ofList r) with
        | none => .error (.error 401 (.unauthorized "invalid base64 encoding"))
        | some decoded =>
          match String.fromUTF8? decoded with
          | none => .error (.error 401 (.unauthorized "invalid credentials encoding"))
          | some credentials =>
            match splitOnce ':' credentials.toList with
            | none => .error (.error 401 (.unauthorized "invalid credentials format"))
            | some (keyId, secret) => .ok (String.ofList keyId, String.ofList secret) := by
  have h6 : basicPrefix.utf8ByteSize = 6 := rfl
  have hb : basicPrefix.toList.map Char.toLower = "basic ".toList := rfl
  have hlong : ¬ header.utf8ByteSize < 6 := by
    obtain ⟨he, hl⟩ := splitAtByte_eq_some_iff.1 hs
    rw [← byteLength_toList, he, byteLength, List.map_append, List.sum_append, ← byteLength, hl]
    omega
  simp only [parseCredentials, h6, hs, hb, hlong, bind, Except.bind, pure, Except.pure,
    throw, throwThe, MonadExceptOf.throw]
  by_cases hscheme : l.map Char.toLower ≠ "basic ".toList
  · rw [if_pos hscheme, if_pos hscheme]
    rfl
  · rw [if_neg hscheme, if_neg hscheme]
    cases cr.base64Decode (String.ofList r) with
    | none => rfl
    | some decoded =>
      cases hu : String.fromUTF8? decoded with
      | none => simp only [hu]; rfl
      | some credentials =>
        simp only [hu]
        cases splitOnce ':' credentials.toList <;> rfl

section Grammar

variable {cr : Crypto} {encode : ByteArray → String} {header keyId secret : String}

theorem parseCredentials_eq_ok_iff (hd : DecodesBase64 cr encode) {l r : List Char}
    (hs : splitAtByte 6 header.toList = some (l, r)) :
    parseCredentials cr (some header) = .ok (keyId, secret) ↔
      HasCredentials encode header keyId secret := by
  rw [parseCredentials_of_split cr hs]
  obtain ⟨hlr, hl⟩ := splitAtByte_eq_some_iff.1 hs
  constructor
  · intro h
    split at h
    · cases h
    next hscheme =>
    split at h
    · cases h
    next decoded hdec =>
    split at h
    · cases h
    next credentials hutf =>
    split at h
    · cases h
    next k t hsplit =>
    obtain ⟨hcred, hno⟩ := splitOnce_eq_some_iff.1 hsplit
    simp only [Except.ok.injEq, Prod.mk.injEq] at h
    obtain ⟨rfl, rfl⟩ := h
    refine ⟨String.ofList l, ?_, ?_, ?_⟩
    · rw [String.toList_ofList]
      exact not_not.1 hscheme
    · have hc : credentials = String.ofList k ++ ":" ++ String.ofList t := by
        rw [← String.toList_inj, hcred]
        simp
      rw [← hc, ← fromUTF8?_eq_some_iff.1 hutf, ← (hd _ _).1 hdec, ← String.toList_inj, hlr]
      simp
    · rwa [String.toList_ofList]
  · rintro ⟨scheme, hscheme, rfl, hno⟩
    have hcut : splitAtByte 6 (scheme ++ encode (keyId ++ ":" ++ secret).toUTF8).toList =
        some (scheme.toList, (encode (keyId ++ ":" ++ secret).toUTF8).toList) :=
      splitAtByte_eq_some_iff.2 ⟨String.toList_append, byteLength_scheme hscheme⟩
    rw [hcut, Option.some.injEq, Prod.mk.injEq] at hs
    obtain ⟨rfl, rfl⟩ := hs
    have hsplit : splitOnce ':' (keyId ++ ":" ++ secret).toList =
        some (keyId.toList, secret.toList) := by
      rw [splitOnce_eq_some_iff]
      exact ⟨by simp, hno⟩
    rw [if_neg (not_not.2 hscheme), String.ofList_toList, (hd _ _).2 rfl]
    simp only [fromUTF8?_eq_some_iff.2 rfl, hsplit, String.ofList_toList]

theorem parseCredentials_ok_or_unauthorized (cr : Crypto) {l r : List Char}
    (hs : splitAtByte 6 header.toList = some (l, r)) :
    (∃ keyId secret, parseCredentials cr (some header) = .ok (keyId, secret)) ∨
      ∃ message,
        parseCredentials cr (some header) = .error (.error 401 (.unauthorized message)) := by
  rw [parseCredentials_of_split cr hs]
  split
  · exact Or.inr ⟨_, rfl⟩
  split
  · exact Or.inr ⟨_, rfl⟩
  split
  · exact Or.inr ⟨_, rfl⟩
  split
  · exact Or.inr ⟨_, rfl⟩
  · exact Or.inl ⟨_, _, rfl⟩

theorem parseCredentials_short (cr : Crypto) (hs : header.utf8ByteSize < 6) :
    parseCredentials cr (some header) =
      .error (.error 401 (.unauthorized "invalid Authorization scheme")) := by
  have h6 : basicPrefix.utf8ByteSize = 6 := rfl
  simp only [parseCredentials, h6, if_pos hs]
  rfl

theorem parseCredentials_panic (cr : Crypto) (hlong : 6 ≤ header.utf8ByteSize)
    (he : ¬ EndsAt header 6) : parseCredentials cr (some header) = .error .panic := by
  have h6 : basicPrefix.utf8ByteSize = 6 := rfl
  have hs : splitAtByte 6 header.toList = none := by
    cases h : splitAtByte 6 header.toList with
    | none => rfl
    | some p => exact absurd ((splitAtByte_isSome_iff header 6).1 ⟨p.1, p.2, h⟩) he
  simp only [parseCredentials, h6, Nat.not_lt.2 hlong, hs]
  rfl

/-- The parser follows the grammar on a header: it reads the credentials that the header has
and answers a header without any as unauthorized. -/
def FollowsGrammar (cr : Crypto) (encode : ByteArray → String) (header : String) : Prop :=
  (∀ keyId secret, parseCredentials cr (some header) = .ok (keyId, secret) ↔
    HasCredentials encode header keyId secret) ∧
  ((∀ keyId secret, ¬ HasCredentials encode header keyId secret) →
    ∃ message, parseCredentials cr (some header) = .error (.error 401 (.unauthorized message)))

/-- The parser follows the grammar on a header just when it is shorter than the prefix or has a
character boundary after its sixth byte, as every header made of credentials has. -/
theorem parseCredentials_followsGrammar_iff (hd : DecodesBase64 cr encode) :
    (∀ header, FollowsGrammar cr encode header ↔
      header.utf8ByteSize < 6 ∨ EndsAt header 6) ∧
    ∀ keyId secret, ':' ∉ keyId.toList →
      parseCredentials cr (some (basicAuthHeader encode keyId secret)) = .ok (keyId, secret) := by
  constructor
  · intro header
    constructor
    · rintro ⟨-, hno⟩
      by_contra h
      rw [not_or] at h
      obtain ⟨message, he⟩ := hno fun keyId secret hc => h.2 hc.endsAt
      rw [parseCredentials_panic cr (Nat.le_of_not_lt h.1) h.2] at he
      cases he
    · rintro (hshort | he)
      · have hno : ∀ keyId secret, ¬ HasCredentials encode header keyId secret := by
          intro keyId secret hc
          obtain ⟨a, b, rfl, ha⟩ := hc.endsAt
          rw [String.utf8ByteSize_append] at hshort
          omega
        refine ⟨?_, fun _ => ⟨_, parseCredentials_short cr hshort⟩⟩
        intro keyId secret
        rw [parseCredentials_short cr hshort]
        constructor
        · intro h
          cases h
        · intro hc
          exact absurd hc (hno keyId secret)
      · obtain ⟨l, r, hs⟩ := (splitAtByte_isSome_iff header 6).2 he
        refine ⟨fun keyId secret => parseCredentials_eq_ok_iff hd hs, ?_⟩
        intro hno
        rcases parseCredentials_ok_or_unauthorized cr hs with ⟨keyId, secret, h⟩ | h
        · exact absurd ((parseCredentials_eq_ok_iff hd hs).1 h) (hno keyId secret)
        · exact h
  · intro keyId secret hno
    have hc : HasCredentials encode (basicAuthHeader encode keyId secret) keyId secret :=
      ⟨"Basic ", rfl, rfl, hno⟩
    obtain ⟨l, r, hs⟩ := (splitAtByte_isSome_iff _ 6).2 hc.endsAt
    exact (parseCredentials_eq_ok_iff hd hs).2 hc

end Grammar

section Example

def base64Crypto : Crypto where
  base64Decode := Base64.decode
  Hash := Unit
  parseHash _ := some ()
  verifyPassword _ _ := true

/-- A header with an accented letter across its sixth byte makes the guard panic. -/
theorem parseCredentials_accented :
    parseCredentials base64Crypto (some "Basicé") = .error .panic ∧
      ¬ FollowsGrammar base64Crypto Base64.encode "Basicé" := by
  have hp : parseCredentials base64Crypto (some "Basicé") = .error .panic := by decide
  refine ⟨hp, ?_⟩
  rintro ⟨hok, hno⟩
  have hc : ∀ keyId secret, ¬ HasCredentials Base64.encode "Basicé" keyId secret := by
    intro keyId secret hc
    have := (hok keyId secret).2 hc
    rw [hp] at this
    cases this
  obtain ⟨message, he⟩ := hno hc
  rw [hp] at he
  cases he

theorem parseCredentials_base64 :
    FollowsGrammar base64Crypto Base64.encode "basic a2V5OnM6w6k=" ∧
      parseCredentials base64Crypto (some (basicAuthHeader Base64.encode "key" "s:é")) =
        .ok ("key", "s:é") := by
  have hd : DecodesBase64 base64Crypto Base64.encode := fun _ _ => Base64.decode_eq_some_iff
  refine ⟨((parseCredentials_followsGrammar_iff hd).1 _).2 (Or.inr ?_),
    (parseCredentials_followsGrammar_iff hd).2 "key" "s:é" (by decide)⟩
  exact ⟨"basic ", "a2V5OnM6w6k=", rfl, rfl⟩

end Example

end AlbionApi
