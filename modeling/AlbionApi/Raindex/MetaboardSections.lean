import AlbionApi.Raindex.Metaboards

/-! # Metaboards sections as YAML has them

A section reaches from its header to the next line at the first column that is
neither blank nor a comment. The scan ends it earlier, at the first line that
is neither empty nor indented, so that entries below a comment at the first
column stay in the section.
-/

namespace AlbionApi

open Lines

namespace Yaml

/-- White space of a line; a carriage return is a line end of its own. -/
def isWhite (c : Char) : Bool := c = ' ' || c = '\t' || c = '\r'

def isBlank (line : Line) : Bool := line.all isWhite

def isComment (line : Line) : Bool := (line.dropWhile isWhite).head? = some '#'

def isIndented (line : Line) : Bool := line.head? = some ' ' || line.head? = some '\t'

def isEntry (line : Line) : Bool := isIndented line && !isBlank line && !isComment line

/-- The line is at the first column and neither blank nor a comment. -/
def endsSection (line : Line) : Bool := !isIndented line && !isBlank line && !isComment line

/-- The lines of a section, from the line below its header on. -/
def sectionBody (ls : List Line) : List Line := ls.takeWhile fun line => !endsSection line

def sections (isHeader : Line → Bool) : List Line → List (List Line)
  | [] => []
  | line :: ls =>
    if isHeader line then sectionBody ls :: sections isHeader ls else sections isHeader ls

/-- The entries of a section, without the white space behind them. -/
def entries (body : List Line) : List Line :=
  (body.filter isEntry).map fun line => line.rdropWhile isWhite

theorem isBlank_stripReturn : ∀ line, isBlank (stripReturn line) = isBlank line := by
  apply apply_stripReturn
  intro start
  rw [isBlank, isBlank, List.all_append]
  simp [isWhite]

theorem isComment_stripReturn : ∀ line, isComment (stripReturn line) = isComment line := by
  apply apply_stripReturn
  intro start
  rw [isComment, isComment, List.dropWhile_append]
  cases hd : start.dropWhile isWhite with
  | nil => simp [isWhite]
  | cons c rest => simp

theorem isIndented_stripReturn : ∀ line, isIndented (stripReturn line) = isIndented line := by
  apply apply_stripReturn
  intro start
  rw [isIndented, isIndented]
  cases start <;> simp

theorem isEntry_stripReturn (line : Line) : isEntry (stripReturn line) = isEntry line := by
  rw [isEntry, isEntry, isIndented_stripReturn, isBlank_stripReturn, isComment_stripReturn]

theorem endsSection_stripReturn (line : Line) :
    endsSection (stripReturn line) = endsSection line := by
  rw [endsSection, endsSection, isIndented_stripReturn, isBlank_stripReturn,
    isComment_stripReturn]

theorem rdropWhile_stripReturn :
    ∀ line, (stripReturn line).rdropWhile isWhite = line.rdropWhile isWhite := by
  apply apply_stripReturn
  intro start
  exact List.rdropWhile_concat_pos _ _ _ (by decide)

theorem sectionBody_map_stripReturn (ls : List Line) :
    sectionBody (ls.map stripReturn) = (sectionBody ls).map stripReturn := by
  rw [sectionBody, List.takeWhile_map]
  simp only [Function.comp_def, endsSection_stripReturn]
  rfl

theorem sections_map_stripReturn {isHeader : Line → Bool}
    (h : ∀ line, isHeader (stripReturn line) = isHeader line) (ls : List Line) :
    sections isHeader (ls.map stripReturn) =
      (sections isHeader ls).map fun body => body.map stripReturn := by
  induction ls with
  | nil => rfl
  | cons line ls ih =>
    rw [List.map_cons, sections, sections, h]
    split_ifs
    · rw [sectionBody_map_stripReturn, ih]
      rfl
    · exact ih

theorem entries_map_stripReturn (body : List Line) :
    entries (body.map stripReturn) = entries body := by
  rw [entries, List.filter_map, List.map_map]
  simp only [Function.comp_def, isEntry_stripReturn, rdropWhile_stripReturn]
  rfl

section Body

variable {line : Line} {ls : List Line}

theorem sectionBody_of_ends (h : endsSection line = true) : sectionBody (line :: ls) = [] := by
  rw [sectionBody, List.takeWhile_cons_of_neg]
  simp [h]

theorem sectionBody_cons (h : endsSection line = false) :
    sectionBody (line :: ls) = line :: sectionBody ls := by
  rw [sectionBody, List.takeWhile_cons_of_pos]
  · rfl
  · simp [h]

end Body

end Yaml

open Yaml

/-! ## Sections of the output -/

section Scan

variable {line : Line} {ls : List Line}

theorem isMetaboardsHeader_stripReturn :
    ∀ line, isMetaboardsHeader (stripReturn line) = isMetaboardsHeader line := by
  apply apply_stripReturn
  intro start
  rw [isMetaboardsHeader, isMetaboardsHeader, Bool.eq_iff_iff, List.isPrefixOf_iff_prefix,
    List.isPrefixOf_iff_prefix, List.prefix_concat_iff]
  refine ⟨fun h => h.resolve_left fun he => ?_, Or.inr⟩
  have hlast := congrArg List.getLast? he
  rw [List.getLast?_concat] at hlast
  cases hlast

theorem endsSection_of_header (h : isMetaboardsHeader line = true) : endsSection line = true := by
  rw [isMetaboardsHeader, List.isPrefixOf_iff_prefix] at h
  obtain ⟨rest, rfl⟩ := h
  rfl

theorem endsSection_of_skipped (h : isSkipped line = true) : endsSection line = false := by
  cases line with
  | nil => rfl
  | cons c line =>
    simp only [isSkipped, List.isEmpty_cons, Bool.false_or, Bool.or_eq_true,
      List.isPrefixOf_cons_cons, List.isPrefixOf_nil_left, Bool.and_true, beq_iff_eq] at h
    obtain rfl | rfl := h <;> rfl

theorem sectionBody_neutralLines (ls : List Line) :
    sectionBody (neutralLines false ls) = sectionBody ls := by
  induction ls with
  | nil => rfl
  | cons line ls ih =>
    cases hh : isMetaboardsHeader line with
    | true =>
      rw [neutralLines_header hh, sectionBody_of_ends (endsSection_of_header hh),
        sectionBody_of_ends (endsSection_of_header isMetaboardsHeader_plainHeader)]
    | false =>
      rw [neutralLines_plain hh]
      cases he : endsSection line with
      | true => rw [sectionBody_of_ends he, sectionBody_of_ends he]
      | false => rw [sectionBody_cons he, sectionBody_cons he, ih]

/-- Of a section that it neutralizes the scan leaves what comes after the skipped lines at its
start. -/
theorem sectionBody_neutralLines_true (ls : List Line) :
    sectionBody (neutralLines true ls) = (sectionBody ls).dropWhile isSkipped := by
  induction ls with
  | nil => rfl
  | cons line ls ih =>
    cases hs : isSkipped line with
    | true =>
      rw [neutralLines_skipped hs, sectionBody_cons (endsSection_of_skipped hs),
        List.dropWhile_cons_of_pos hs, ih]
    | false =>
      rw [neutralLines_end hs]
      cases he : endsSection line with
      | true =>
        rw [sectionBody_of_ends he, sectionBody_of_ends he]
        rfl
      | false =>
        rw [sectionBody_cons he, sectionBody_cons he, sectionBody_neutralLines,
          List.dropWhile_cons_of_neg]
        simp [hs]

end Scan

/-- The dummy is the only entry of every metaboards section. -/
def OnlyDisabled (ls : List Line) : Prop :=
  ∀ body ∈ sections isMetaboardsHeader ls, entries body = [disabledEntry]

/-- The entries of a section come before its first line that is neither empty nor indented, which
is a comment at the first column or starts with a carriage return. A section directly below such a
one, with empty and indented lines in between only, has the dummy as its only entry. -/
def EntriesFirst (below : Bool) : List Line → Prop
  | [] => True
  | line :: ls =>
    if isMetaboardsHeader line then
      if below then entries (sectionBody ls) = [disabledEntry] ∧ EntriesFirst false ls
      else entries ((sectionBody ls).dropWhile isSkipped) = [] ∧ EntriesFirst true ls
    else EntriesFirst (below && isSkipped line) ls

instance (ls : List Line) : Decidable (OnlyDisabled ls) :=
  inferInstanceAs (Decidable (∀ body ∈ sections isMetaboardsHeader ls, _))

theorem onlyDisabled_cons_header {line : Line} (h : isMetaboardsHeader line = true)
    (ls : List Line) : OnlyDisabled (line :: ls) ↔
      entries (sectionBody ls) = [disabledEntry] ∧ OnlyDisabled ls := by
  rw [OnlyDisabled, sections, if_pos h, List.forall_mem_cons]
  rfl

theorem onlyDisabled_cons {line : Line} (h : isMetaboardsHeader line = false)
    (ls : List Line) : OnlyDisabled (line :: ls) ↔ OnlyDisabled ls := by
  rw [OnlyDisabled, sections, h]
  rfl

theorem onlyDisabled_map_stripReturn (ls : List Line) :
    OnlyDisabled (ls.map stripReturn) ↔ OnlyDisabled ls := by
  simp only [OnlyDisabled, sections_map_stripReturn isMetaboardsHeader_stripReturn,
    List.forall_mem_map, entries_map_stripReturn]

theorem isMetaboardsHeader_disabledEntry : isMetaboardsHeader disabledEntry = false := by decide

theorem entries_disabledEntry_cons (body : List Line) :
    entries (disabledEntry :: body) = [disabledEntry] ↔ entries body = [] := by
  have he : entries (disabledEntry :: body) = disabledEntry :: entries body := by
    rw [entries, List.filter_cons_of_pos (by decide), List.map_cons]
    rfl
  rw [he, List.cons_eq_cons]
  exact and_iff_right rfl

/-- The scan of some lines leaves the dummies as the only entries just when the entries come
first, in either state. -/
theorem onlyDisabled_neutralLines_iff (below : Bool) (ls : List Line) :
    OnlyDisabled (neutralLines below ls) ↔ EntriesFirst below ls := by
  induction ls generalizing below with
  | nil => exact iff_of_true (fun _ h => nomatch h) trivial
  | cons line ls ih =>
    cases hh : isMetaboardsHeader line with
    | true =>
      cases below with
      | false =>
        rw [neutralLines_header hh, onlyDisabled_cons_header isMetaboardsHeader_plainHeader,
          onlyDisabled_cons isMetaboardsHeader_disabledEntry, sectionBody_cons (by decide),
          entries_disabledEntry_cons, sectionBody_neutralLines_true, ih, EntriesFirst, if_pos hh]
        rfl
      | true =>
        have hs : isSkipped line = false := by
          cases hs : isSkipped line with
          | false => rfl
          | true =>
            have he := endsSection_of_skipped hs
            rw [endsSection_of_header hh] at he
            cases he
        rw [neutralLines_end hs, onlyDisabled_cons_header hh, sectionBody_neutralLines, ih,
          EntriesFirst, if_pos hh]
        rfl
    | false =>
      rw [EntriesFirst, hh]
      cases below with
      | false =>
        rw [neutralLines_plain hh, onlyDisabled_cons hh]
        exact ih false
      | true =>
        cases hs : isSkipped line with
        | true =>
          rw [neutralLines_skipped hs]
          exact ih true
        | false =>
          rw [neutralLines_end hs, onlyDisabled_cons hh]
          exact ih false

/-- The dummy is the only entry of every metaboards section of the output just when in the
sections of the settings the entries come first. -/
theorem neutralizeMetaboards_onlyDisabled_iff (yaml : List Char) :
    OnlyDisabled (lines (neutralizeMetaboards yaml)) ↔ EntriesFirst false (lines yaml) := by
  rw [lines_neutralizeMetaboards, onlyDisabled_map_stripReturn, onlyDisabled_neutralLines_iff]

/-- An entry below a comment at the first column is still there. -/
theorem neutralizeMetaboards_comment :
    ¬ OnlyDisabled (lines (neutralizeMetaboards
      "metaboards:\n  base: https://a\n# mainnet\n  ethereum: https://b\n".toList)) := by
  decide

end AlbionApi
