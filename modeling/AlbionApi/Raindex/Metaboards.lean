import AlbionApi.Foundations.Lines
import Mathlib.Data.List.DropRight
import Mathlib.Data.List.Infix
import Mathlib.Data.List.TakeWhile

/-! # The metaboards of the settings

Before a client is made of the settings, the entries of their metaboards
section give way to a dummy. The scan goes line by line: from a header on it
skips the empty and the indented lines, and the first other line ends the
section, a comment at the first column as well.
-/

namespace AlbionApi

open Lines

/-- The line starts with `metaboards:`. -/
def isMetaboardsHeader (line : Line) : Bool := "metaboards:".toList.isPrefixOf line

/-- The lines that the scan drops inside a section. -/
def isSkipped (line : Line) : Bool :=
  line.isEmpty || [' '].isPrefixOf line || ['\t'].isPrefixOf line

/-- The loop of `neutralize_metaboards`: the text that it pushes for the lines that are left. -/
def neutralizeFrom (inMetaboards : Bool) : List Line → List Char
  | [] => []
  | line :: ls =>
    if !inMetaboards && isMetaboardsHeader line then
      "metaboards:\n  _disabled: https://localhost\n".toList ++ neutralizeFrom true ls
    else if inMetaboards && isSkipped line then neutralizeFrom true ls
    else line ++ '\n' :: neutralizeFrom false ls

def neutralizeMetaboards (yaml : List Char) : List Char := neutralizeFrom false (lines yaml)

def plainHeader : Line := "metaboards:".toList

def disabledEntry : Line := "  _disabled: https://localhost".toList

/-- The scan as a function of lines. -/
def neutralLines (inMetaboards : Bool) : List Line → List Line
  | [] => []
  | line :: ls =>
    if !inMetaboards && isMetaboardsHeader line then
      plainHeader :: disabledEntry :: neutralLines true ls
    else if inMetaboards && isSkipped line then neutralLines true ls
    else line :: neutralLines false ls

section Scan

variable {line : Line} {ls : List Line}

theorem neutralLines_header (h : isMetaboardsHeader line = true) :
    neutralLines false (line :: ls) = plainHeader :: disabledEntry :: neutralLines true ls := by
  simp [neutralLines, h]

theorem neutralLines_plain (h : isMetaboardsHeader line = false) :
    neutralLines false (line :: ls) = line :: neutralLines false ls := by
  simp [neutralLines, h]

theorem neutralLines_skipped (h : isSkipped line = true) :
    neutralLines true (line :: ls) = neutralLines true ls := by
  simp [neutralLines, h]

theorem neutralLines_end (h : isSkipped line = false) :
    neutralLines true (line :: ls) = line :: neutralLines false ls := by
  simp [neutralLines, h]

end Scan

theorem neutralizeFrom_eq (inMetaboards : Bool) (ls : List Line) :
    neutralizeFrom inMetaboards ls = unlines (neutralLines inMetaboards ls) := by
  induction ls generalizing inMetaboards with
  | nil => rfl
  | cons line ls ih =>
    unfold neutralizeFrom neutralLines
    split_ifs
    · rw [ih]
      rfl
    · exact ih true
    · rw [ih, unlines_cons]

theorem neutralizeMetaboards_eq (yaml : List Char) :
    neutralizeMetaboards yaml = unlines (neutralLines false (lines yaml)) :=
  neutralizeFrom_eq false (lines yaml)

/-- Lines come out one by one, except that a header and a run of skipped lines directly below it
are replaced by the plain header and the dummy entry. -/
inductive LeavesRest : List Line → List Line → Prop
  | nil : LeavesRest [] []
  | kept (line : Line) {ls out : List Line} (h : LeavesRest ls out) :
      LeavesRest (line :: ls) (line :: out)
  | replaced {header : Line} {run ls out : List Line} (hh : isMetaboardsHeader header = true)
      (hr : ∀ line ∈ run, isSkipped line = true) (h : LeavesRest ls out) :
      LeavesRest (header :: (run ++ ls)) (plainHeader :: disabledEntry :: out)

theorem leavesRest_neutralLines (ls : List Line) :
    LeavesRest ls (neutralLines false ls) ∧
      ∃ run rest, ls = run ++ rest ∧ (∀ line ∈ run, isSkipped line = true) ∧
        LeavesRest rest (neutralLines true ls) := by
  induction ls with
  | nil => exact ⟨.nil, [], [], rfl, by simp, .nil⟩
  | cons line ls ih =>
    obtain ⟨hout, run, rest, he, hrun, hin⟩ := ih
    constructor
    · cases hh : isMetaboardsHeader line with
      | true =>
        rw [neutralLines_header hh]
        conv_lhs => rw [he]
        exact .replaced hh hrun hin
      | false =>
        rw [neutralLines_plain hh]
        exact .kept line hout
    · cases hs : isSkipped line with
      | true =>
        refine ⟨line :: run, rest, by rw [he, List.cons_append], ?_, ?_⟩
        · exact List.forall_mem_cons.mpr ⟨hs, hrun⟩
        · rwa [neutralLines_skipped hs]
      | false =>
        refine ⟨[], line :: ls, rfl, by simp, ?_⟩
        rw [neutralLines_end hs]
        exact .kept line hout

theorem neutralLines_of_no_header {ls : List Line}
    (h : ∀ line ∈ ls, isMetaboardsHeader line = false) : neutralLines false ls = ls := by
  induction ls with
  | nil => rfl
  | cons line ls ih =>
    rw [List.forall_mem_cons] at h
    rw [neutralLines_plain h.1, ih h.2]

theorem mem_neutralLines {inMetaboards : Bool} {line : Line} {ls : List Line}
    (h : line ∈ neutralLines inMetaboards ls) :
    line ∈ ls ∨ line = plainHeader ∨ line = disabledEntry := by
  induction ls generalizing inMetaboards with
  | nil => cases h
  | cons first ls ih =>
    unfold neutralLines at h
    split_ifs at h
    · rcases List.mem_cons.mp h with rfl | h
      · exact Or.inr (Or.inl rfl)
      · rcases List.mem_cons.mp h with rfl | h
        · exact Or.inr (Or.inr rfl)
        · exact (ih h).imp_left (List.mem_cons_of_mem _)
    · exact (ih h).imp_left (List.mem_cons_of_mem _)
    · rcases List.mem_cons.mp h with rfl | h
      · exact Or.inl List.mem_cons_self
      · exact (ih h).imp_left (List.mem_cons_of_mem _)

/-! ## A second scan -/

theorem isMetaboardsHeader_plainHeader : isMetaboardsHeader plainHeader = true := by decide

theorem isSkipped_disabledEntry : isSkipped disabledEntry = true := by decide

theorem neutralLines_neutralLines (ls : List Line) :
    neutralLines false (neutralLines false ls) = neutralLines false ls ∧
      neutralLines true (neutralLines true ls) = neutralLines true ls := by
  induction ls with
  | nil => exact ⟨rfl, rfl⟩
  | cons line ls ih =>
    obtain ⟨hout, hin⟩ := ih
    constructor
    · cases hh : isMetaboardsHeader line with
      | true =>
        -- the dummy is skipped as an entry and written anew
        rw [neutralLines_header hh, neutralLines_header isMetaboardsHeader_plainHeader,
          neutralLines_skipped isSkipped_disabledEntry, hin]
      | false => rw [neutralLines_plain hh, neutralLines_plain hh, hout]
    · cases hs : isSkipped line with
      | true => rw [neutralLines_skipped hs, hin]
      | false => rw [neutralLines_end hs, neutralLines_end hs, hout]

theorem count_neutralLines_le (inMetaboards : Bool) (ls : List Line) :
    (unlines (neutralLines inMetaboards ls)).count '\r' ≤ (unlines ls).count '\r' := by
  induction ls generalizing inMetaboards with
  | nil => exact le_rfl
  | cons line ls ih =>
    unfold neutralLines
    rw [count_unlines_cons line ls]
    split_ifs
    · rw [count_unlines_cons, count_unlines_cons,
        show plainHeader.count '\r' = 0 by decide, show disabledEntry.count '\r' = 0 by decide,
        Nat.zero_add, Nat.zero_add]
      exact (ih true).trans (Nat.le_add_left _ _)
    · exact (ih true).trans (Nat.le_add_left _ _)
    · rw [count_unlines_cons]
      exact Nat.add_le_add_left (ih false) _

theorem newline_not_mem_neutralLines (inMetaboards : Bool) (yaml : List Char) :
    ∀ line ∈ neutralLines inMetaboards (lines yaml), '\n' ∉ line := by
  intro line h
  rcases mem_neutralLines h with h | rfl | rfl
  · exact newline_not_mem_lines h
  · decide
  · decide

theorem lines_neutralizeMetaboards (yaml : List Char) :
    lines (neutralizeMetaboards yaml) = (neutralLines false (lines yaml)).map stripReturn := by
  rw [neutralizeMetaboards_eq]
  exact lines_unlines (newline_not_mem_neutralLines false yaml)

/-- The function finds its own output as it left it when reading its lines takes nothing off
them. -/
theorem neutralizeMetaboards_idem_iff (yaml : List Char) :
    neutralizeMetaboards (neutralizeMetaboards yaml) = neutralizeMetaboards yaml ↔
      ∀ line ∈ neutralLines false (lines yaml), line.getLast? ≠ some '\r' := by
  rw [neutralizeMetaboards_eq (neutralizeMetaboards yaml), lines_neutralizeMetaboards,
    neutralizeMetaboards_eq]
  constructor
  · intro he line hm hr
    have hlt := count_unlines_stripReturn_lt hm hr
    have hle := count_neutralLines_le false ((neutralLines false (lines yaml)).map stripReturn)
    rw [he] at hle
    exact absurd hle hlt.not_ge
  · intro h
    have hmap : (neutralLines false (lines yaml)).map stripReturn =
        neutralLines false (lines yaml) :=
      (List.map_congr_left fun line hm => stripReturn_of_not_return (h line hm)).trans
        (List.map_id _)
    rw [hmap, (neutralLines_neutralLines _).1]

/-- Lines outside the metaboards sections are left alone, and a second application changes
nothing just when no line that comes out still ends in a carriage return. -/
theorem neutralizeMetaboards_leavesRest (yaml : List Char) :
    ∃ out, neutralizeMetaboards yaml = unlines out ∧ LeavesRest (lines yaml) out ∧
      ((∀ line ∈ lines yaml, isMetaboardsHeader line = false) → out = lines yaml) ∧
      (neutralizeMetaboards (neutralizeMetaboards yaml) = neutralizeMetaboards yaml ↔
        ∀ line ∈ out, line.getLast? ≠ some '\r') :=
  ⟨neutralLines false (lines yaml), neutralizeMetaboards_eq yaml,
    (leavesRest_neutralLines (lines yaml)).1, neutralLines_of_no_header,
    neutralizeMetaboards_idem_iff yaml⟩

/-- A carriage return at the end of the text is part of its last line, and the second
application takes it for a part of the line end. -/
theorem neutralizeMetaboards_twice :
    neutralizeMetaboards (neutralizeMetaboards "version: 4\r".toList) ≠
      neutralizeMetaboards "version: 4\r".toList := by
  decide

end AlbionApi
