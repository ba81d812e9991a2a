import Mathlib.Data.List.Basic
import Mathlib.Data.List.Infix

/-! # Texts and their lines

A text is read line by line, where a line ends in a line feed and a carriage
return before the line feed belongs to the end of the line. Lines are written
with a line feed each, so that reading them again takes one carriage return
off every line that still ends in one.
-/

namespace Lines

abbrev Line := List Char

def stripReturn (line : Line) : Line :=
  if line.getLast? = some '\r' then line.dropLast else line

/-- The lines of a text behind the part of a line that is read already. A last line without
a line feed is taken as it is. -/
def linesFrom (current : Line) : List Char → List Line
  | [] => if current = [] then [] else [current]
  | c :: text =>
    if c = '\n' then stripReturn current :: linesFrom [] text
    else linesFrom (current ++ [c]) text

/-- `str::lines`. -/
def lines (text : List Char) : List Line := linesFrom [] text

/-- Every line with a line feed behind it. -/
def unlines (ls : List Line) : List Char := ls.flatMap (· ++ ['\n'])

@[simp] theorem unlines_nil : unlines [] = [] := rfl

@[simp] theorem unlines_cons (line : Line) (ls : List Line) :
    unlines (line :: ls) = line ++ '\n' :: unlines ls := by
  simp [unlines]

theorem stripReturn_cases (line : Line) :
    (∃ start, line = start ++ ['\r'] ∧ stripReturn line = start) ∨
      (line.getLast? ≠ some '\r' ∧ stripReturn line = line) := by
  unfold stripReturn
  split_ifs with h
  · refine Or.inl ⟨line.dropLast, ?_, rfl⟩
    exact (List.dropLast_append_getLast? '\r' h).symm
  · exact Or.inr ⟨h, rfl⟩

theorem stripReturn_of_not_return {line : Line} (h : line.getLast? ≠ some '\r') :
    stripReturn line = line := if_neg h

/-- What a carriage return at the end of a line does not change is that of the line without it. -/
theorem apply_stripReturn {β : Type*} {f : Line → β} (h : ∀ start, f (start ++ ['\r']) = f start)
    (line : Line) : f (stripReturn line) = f line := by
  obtain ⟨start, rfl, hs⟩ | ⟨-, hs⟩ := stripReturn_cases line
  · rw [hs, h]
  · rw [hs]

theorem count_stripReturn_le (line : Line) :
    (stripReturn line).count '\r' ≤ line.count '\r' := by
  obtain ⟨start, rfl, hs⟩ | ⟨-, hs⟩ := stripReturn_cases line
  · rw [hs, List.count_append]
    exact Nat.le_add_right _ _
  · rw [hs]

theorem count_stripReturn_lt {line : Line} (h : line.getLast? = some '\r') :
    (stripReturn line).count '\r' < line.count '\r' := by
  obtain ⟨start, rfl, hs⟩ | ⟨hn, -⟩ := stripReturn_cases line
  · rw [hs, List.count_append, List.count_singleton_self]
    exact Nat.lt_succ_self _
  · exact absurd h hn

theorem count_unlines_cons (line : Line) (ls : List Line) :
    (unlines (line :: ls)).count '\r' = line.count '\r' + (unlines ls).count '\r' := by
  rw [unlines_cons, List.count_append, List.count_cons_of_ne (by decide)]

theorem count_unlines_stripReturn_le (ls : List Line) :
    (unlines (ls.map stripReturn)).count '\r' ≤ (unlines ls).count '\r' := by
  induction ls with
  | nil => exact le_rfl
  | cons line ls ih =>
    rw [List.map_cons, count_unlines_cons, count_unlines_cons]
    exact Nat.add_le_add (count_stripReturn_le line) ih

theorem count_unlines_stripReturn_lt {line : Line} {ls : List Line} (hm : line ∈ ls)
    (h : line.getLast? = some '\r') :
    (unlines (ls.map stripReturn)).count '\r' < (unlines ls).count '\r' := by
  induction hm with
  | head ls =>
    rw [List.map_cons, count_unlines_cons, count_unlines_cons]
    exact Nat.add_lt_add_of_lt_of_le (count_stripReturn_lt h) (count_unlines_stripReturn_le ls)
  | tail line' _ ih =>
    rw [List.map_cons, count_unlines_cons, count_unlines_cons]
    exact Nat.add_lt_add_of_le_of_lt (count_stripReturn_le line') ih

theorem linesFrom_append {line : Line} (h : '\n' ∉ line) (current : Line) (text : List Char) :
    linesFrom current (line ++ text) = linesFrom (current ++ line) text := by
  induction line generalizing current with
  | nil => rw [List.nil_append, List.append_nil]
  | cons c line ih =>
    rw [List.mem_cons, not_or] at h
    rw [List.cons_append, linesFrom, if_neg (Ne.symm h.1), ih h.2, List.append_assoc]
    rfl

theorem lines_unlines {ls : List Line} (h : ∀ line ∈ ls, '\n' ∉ line) :
    lines (unlines ls) = ls.map stripReturn := by
  induction ls with
  | nil => rfl
  | cons line ls ih =>
    rw [List.forall_mem_cons] at h
    have hls : linesFrom [] (unlines ls) = ls.map stripReturn := ih h.2
    rw [lines, unlines_cons, linesFrom_append h.1, List.nil_append, linesFrom, if_pos rfl, hls]
    rfl

theorem newline_not_mem_linesFrom {current line : Line} {text : List Char}
    (hc : '\n' ∉ current) (hl : line ∈ linesFrom current text) : '\n' ∉ line := by
  induction text generalizing current with
  | nil =>
    rw [linesFrom] at hl
    split_ifs at hl with h
    · cases hl
    · rwa [List.mem_singleton.mp hl]
  | cons c text ih =>
    rw [linesFrom] at hl
    split_ifs at hl with h
    · rcases List.mem_cons.mp hl with rfl | hl
      · obtain ⟨start, he, hs⟩ | ⟨-, hs⟩ := stripReturn_cases current
        · rw [hs]
          rw [he, List.mem_append, not_or] at hc
          exact hc.1
        · rwa [hs]
      · exact ih List.not_mem_nil hl
    · refine ih ?_ hl
      rw [List.mem_append, not_or, List.mem_singleton]
      exact ⟨hc, Ne.symm h⟩

theorem newline_not_mem_lines {line : Line} {text : List Char} (h : line ∈ lines text) :
    '\n' ∉ line :=
  newline_not_mem_linesFrom List.not_mem_nil h

end Lines
