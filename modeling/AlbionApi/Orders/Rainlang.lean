import AlbionApi.Foundations.Search
import AlbionApi.Orders.Listing
import Mathlib.Data.List.TakeWhile

/-! # The order type of a rainlang text

A rainlang text has two sources, each below a comment that names it. The
classifier looks for the name of the second source in the whole text, so that a
mention of it in the first source can stand in for the comment.
-/

namespace AlbionApi

/-- A text of two sources below their comments; any space around a body is part of it. -/
def rainlangText (body0 body1 : List Char) : List Char :=
  "/* 0. calculate-io */".toList ++ (body0 ++ ("/* 1. handle-io */".toList ++ body1))

/-- The source is `:;` or empty but for white space. -/
def EmptyHandleIo (body1 : List Char) : Prop := trim body1 = [':', ';'] ∨ trim body1 = []

/-- `handle-io` occurs in the body and `*/` behind it, where the slash may be the one that begins
the comment below the body. -/
def ClosesMention (body0 : List Char) : Prop :=
  ∃ pre post, body0 ++ ['/'] = pre ++ ("handle-io".toList ++ post) ∧ ['*', '/'] <:+: post

instance (body1 : List Char) : Decidable (EmptyHandleIo body1) :=
  inferInstanceAs (Decidable (_ ∨ _))

/-- Every comment is closed and every `*/` closes one, from within a comment or outside. -/
def balancedComments (inComment : Bool) : List Char → Bool
  | [] => !inComment
  | c :: text =>
    match inComment, c, text with
    | false, '/', '*' :: rest => balancedComments true rest
    | false, '*', '/' :: _ => false
    | true, '*', '/' :: rest => balancedComments false rest
    | inComment, _, text => balancedComments inComment text

theorem mem_dropWhile_of_not {α : Type} {p : α → Bool} {a : α} {l : List α} (hm : a ∈ l)
    (h : p a = false) : a ∈ l.dropWhile p := by
  rw [← List.takeWhile_append_dropWhile (p := p) (l := l), List.mem_append] at hm
  rcases hm with hm | hm
  · have ht := List.mem_takeWhile_imp hm
    rw [h] at ht
    cases ht
  · exact hm

theorem mem_trim {c : Char} {s : List Char} (hm : c ∈ s) (h : isWhitespace c = false) :
    c ∈ trim s := by
  rw [trim, List.mem_reverse]
  refine mem_dropWhile_of_not (List.mem_reverse.mpr ?_) h
  exact mem_dropWhile_of_not hm h

theorem not_emptyHandleIo_of_mem {body1 : List Char} (h : 'h' ∈ body1) : ¬ EmptyHandleIo body1 := by
  have hm := mem_trim h (by decide)
  rintro (he | he)
  · rw [he] at hm
    revert hm
    decide
  · rw [he] at hm
    cases hm

/-! ## The classifier -/

theorem classifyFromRainlang_of_found {rainlang after rest : List Char}
    (ha : findText "handle-io".toList rainlang = some after)
    (hr : findText ['*', '/'] after = some (['*', '/'] ++ rest)) :
    classifyFromRainlang rainlang = .limit ↔ EmptyHandleIo rest := by
  have hd : (['*', '/'] ++ rest).drop 2 = rest := rfl
  simp only [classifyFromRainlang, ha, hr, hd, List.isEmpty_iff, EmptyHandleIo]
  split_ifs with h
  · exact iff_of_true rfl h
  · exact iff_of_false (fun he => nomatch he) h

theorem closesMention_iff (body0 : List Char) : ClosesMention body0 ↔
    ∃ after, findText "handle-io".toList (body0 ++ ['/']) = some after ∧
      ∃ rest, findText ['*', '/'] after = some (['*', '/'] ++ rest) := by
  constructor
  · rintro ⟨pre, post, he, hc⟩
    have hn : "handle-io".toList <+: "handle-io".toList ++ post := List.prefix_append _ _
    have hs : (Search.find "handle-io".toList (body0 ++ ['/'])).isSome = true := by
      rw [Search.isSome_find_iff, he]
      exact hn.isInfix.trans (List.suffix_append _ _).isInfix
    obtain ⟨after, ha⟩ := Option.isSome_iff_exists.mp hs
    refine ⟨after, ha, ?_⟩
    -- the mention may be a later one, whose `*/` is behind the first as well
    have hafter : ['*', '/'] <:+: after := by
      rw [he] at ha
      exact (hc.trans (List.suffix_append _ _).isInfix).trans (Search.suffix_find hn ha).isInfix
    obtain ⟨found, hf⟩ := Option.isSome_iff_exists.mp (Search.isSome_find_iff.mpr hafter)
    obtain ⟨rest, rfl⟩ := Search.prefix_of_find hf
    exact ⟨rest, hf⟩
  · rintro ⟨after, ha, rest, hr⟩
    obtain ⟨post, rfl⟩ := Search.prefix_of_find ha
    obtain ⟨pre, he⟩ := Search.suffix_of_find ha
    refine ⟨pre, post, he.symm, ?_⟩
    have hpost : findText ['*', '/'] ("handle-io".toList ++ post) = findText ['*', '/'] post :=
      Search.find_append_of_none (a := "handle-i".toList) (c := 'o') post (by decide) (by decide)
    rw [hpost] at hr
    exact Search.isSome_find_iff.mp (Option.isSome_iff_exists.mpr ⟨_, hr⟩)

section Text

variable (body0 body1 : List Char)

theorem findText_rainlangText : findText "handle-io".toList (rainlangText body0 body1) =
    findText "handle-io".toList
      ((body0 ++ ['/']) ++ ("* 1. handle-io */".toList ++ body1)) := by
  rw [List.append_assoc]
  exact Search.find_append_of_none (a := "/* 0. calculate-io *".toList) (c := '/') _ (by decide)
    (by decide)

theorem findText_marker : findText "handle-io".toList ("* 1. handle-io */".toList ++ body1) =
    some ("handle-io */".toList ++ body1) :=
  Search.find_append_of_some body1 (by decide)

/-- The second body decides where the mention is not closed, and a closed one makes an order a
strategy. -/
theorem classifyFromRainlang_rainlangText :
    classifyFromRainlang (rainlangText body0 body1) = .limit ↔
      EmptyHandleIo body1 ∧ ¬ ClosesMention body0 := by
  have htext := findText_rainlangText body0 body1
  cases hm : findText "handle-io".toList (body0 ++ ['/']) with
  | none =>
    -- the comment of the second source is the first occurrence
    have hc : ¬ ClosesMention body0 := by
      rw [closesMention_iff, hm]
      rintro ⟨_, h, -⟩
      cases h
    have hfirst := htext.trans ((Search.find_append_of_none _ (by decide) hm).trans
      (findText_marker body1))
    have hclose : findText ['*', '/'] ("handle-io */".toList ++ body1) =
        some (['*', '/'] ++ body1) := Search.find_append_of_some body1 (by decide)
    rw [classifyFromRainlang_of_found hfirst hclose, and_iff_left hc]
  | some after =>
    have hfirst := htext.trans (Search.find_append_of_some _ hm)
    cases hr : findText ['*', '/'] after with
    | none =>
      have hc : ¬ ClosesMention body0 := by
        rw [closesMention_iff, hm]
        rintro ⟨after', ha, rest, h⟩
        rw [← Option.some.inj ha, hr] at h
        cases h
      -- the first occurrence ends in the slash that begins the second comment
      obtain ⟨start, rfl⟩ : ∃ start, after = start ++ ['/'] := by
        obtain rfl | ⟨start, he, -⟩ := List.suffix_concat_iff.mp (Search.suffix_of_find hm)
        · exact absurd (List.prefix_nil.mp (Search.prefix_of_find hm)) (by decide)
        · exact ⟨start, he⟩
      have hclose : findText ['*', '/'] ("* 1. handle-io */".toList ++ body1) =
          some (['*', '/'] ++ body1) := Search.find_append_of_some body1 (by decide)
      rw [classifyFromRainlang_of_found hfirst
        ((Search.find_append_of_none _ (by decide) hr).trans hclose), and_iff_left hc]
    | some found =>
      have hc : ClosesMention body0 := by
        obtain ⟨rest, rfl⟩ := Search.prefix_of_find hr
        exact (closesMention_iff body0).mpr ⟨after, hm, rest, hr⟩
      obtain ⟨rest, rfl⟩ := Search.prefix_of_find hr
      have hfound := Search.find_append_of_some ("* 1. handle-io */".toList ++ body1) hr
      rw [List.append_assoc] at hfound
      rw [classifyFromRainlang_of_found hfirst hfound]
      refine iff_of_false (not_emptyHandleIo_of_mem ?_) fun h => h.2 hc
      apply List.mem_append_right
      apply List.mem_append_left
      decide

end Text

/-- The order type says whether the second source is empty just when the first source has no
closed mention of its name or the second source is not empty. -/
theorem classifyFromRainlang_iff (body0 body1 : List Char) :
    (classifyFromRainlang (rainlangText body0 body1) = .limit ↔ EmptyHandleIo body1) ↔
      ¬ (EmptyHandleIo body1 ∧ ClosesMention body0) := by
  rw [classifyFromRainlang_rainlangText]
  constructor
  · rintro h ⟨he, hc⟩
    exact (h.mpr he).2 hc
  · intro h
    exact ⟨And.left, fun he => ⟨he, fun hc => h ⟨he, hc⟩⟩⟩

theorem classifyFromRainlang_mention :
    let body0 := "\n/* nothing in handle-io */\nmax-output: 1,\nio: 1;\n".toList
    let body1 := "\n:;".toList
    balancedComments false body0 = true ∧ balancedComments false body1 = true ∧
      EmptyHandleIo body1 ∧ classifyFromRainlang (rainlangText body0 body1) ≠ .limit := by
  decide

end AlbionApi
