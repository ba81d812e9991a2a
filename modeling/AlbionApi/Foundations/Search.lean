import Mathlib.Data.List.Infix

/-! # First occurrences

The first place of a list at which another one begins, and how it moves when
the list is extended. An occurrence cannot straddle an element that only the
end of the needle may have.
-/

namespace Search

variable {α : Type*} [DecidableEq α] {needle l a b rest : List α} {x c : α}

/-- The list from the first occurrence on. -/
def find (needle l : List α) : Option (List α) :=
  l.tails.find? fun rest => needle.isPrefixOf rest

theorem find_cons_pos (h : needle <+: x :: l) : find needle (x :: l) = some (x :: l) := by
  rw [find, List.tails_cons, List.find?_cons_of_pos]
  exact List.isPrefixOf_iff_prefix.mpr h

theorem find_cons_neg (h : ¬ needle <+: x :: l) :
    find needle (x :: l) = find needle l := by
  rw [find, List.tails_cons, List.find?_cons_of_neg]
  · rfl
  · exact fun hp => h (List.isPrefixOf_iff_prefix.mp hp)

theorem find_eq_none_iff : find needle l = none ↔ ¬ needle <:+: l := by
  rw [find, List.find?_eq_none]
  constructor
  · rintro h ⟨pre, post, rfl⟩
    refine h (needle ++ post) ?_ (List.isPrefixOf_iff_prefix.mpr (List.prefix_append _ _))
    rw [List.mem_tails, List.append_assoc]
    exact List.suffix_append _ _
  · intro h t ht hp
    rw [List.mem_tails] at ht
    exact h ((List.isPrefixOf_iff_prefix.mp hp).isInfix.trans ht.isInfix)

theorem isSome_find_iff : (find needle l).isSome = true ↔ needle <:+: l := by
  rw [← not_iff_not, ← find_eq_none_iff, Option.not_isSome_iff_eq_none]

theorem prefix_of_find (h : find needle l = some rest) : needle <+: rest :=
  List.isPrefixOf_iff_prefix.mp (List.find?_some h)

theorem suffix_of_find (h : find needle l = some rest) : rest <:+ l :=
  (List.mem_tails _ _).mp (List.mem_of_find?_eq_some h)

theorem suffix_find (hp : needle <+: b) (h : find needle (a ++ b) = some rest) : b <:+ rest := by
  induction a with
  | nil =>
    rw [List.nil_append] at h
    cases b with
    | nil =>
      rw [List.prefix_nil] at hp
      exact List.nil_suffix
    | cons x b =>
      rw [find_cons_pos hp, Option.some.injEq] at h
      exact h ▸ List.suffix_rfl
  | cons x a ih =>
    rw [List.cons_append] at h
    by_cases hx : needle <+: x :: (a ++ b)
    · rw [find_cons_pos hx, Option.some.injEq] at h
      rw [← h, ← List.cons_append]
      exact List.suffix_append _ _
    · rw [find_cons_neg hx] at h
      exact ih h

/-- What is found stays the first occurrence: an earlier one would have to end in the list. -/
theorem find_append_of_some (b : List α) (h : find needle a = some rest) :
    find needle (a ++ b) = some (rest ++ b) := by
  have hp := prefix_of_find h
  induction a with
  | nil =>
    obtain rfl : rest = [] := List.suffix_nil.mp (suffix_of_find h)
    obtain rfl : needle = [] := List.prefix_nil.mp hp
    cases b with
    | nil => rfl
    | cons x b => exact find_cons_pos List.nil_prefix
  | cons x a ih =>
    by_cases hx : needle <+: x :: a
    · rw [find_cons_pos hx, Option.some.injEq] at h
      rw [← h, List.cons_append]
      exact find_cons_pos (hx.trans (List.prefix_append (x :: a) b))
    · rw [find_cons_neg hx] at h
      have hlen : needle.length ≤ (x :: a).length :=
        (hp.length_le.trans (suffix_of_find h).length_le).trans (Nat.le_succ _)
      rw [List.cons_append, find_cons_neg, ih h]
      intro hxb
      exact hx (List.prefix_of_prefix_length_le hxb (List.prefix_append (x :: a) b) hlen)

omit [DecidableEq α] in
theorem not_prefix_straddle (hc : c ∉ needle.dropLast) (h : ¬ needle <+: a ++ [c]) :
    ¬ needle <+: (a ++ [c]) ++ b := by
  intro hp
  rcases List.prefix_or_prefix_of_prefix hp (List.prefix_append (a ++ [c]) b) with hn | hn
  · exact h hn
  · obtain ⟨rest, rfl⟩ := hn
    have hr : rest ≠ [] := by
      rintro rfl
      rw [List.append_nil] at h
      exact h List.prefix_rfl
    rw [List.dropLast_append_of_ne_nil hr] at hc
    exact hc (List.mem_append_left _ (List.mem_append_right _ List.mem_cons_self))

theorem find_append_of_none (b : List α) (hc : c ∉ needle.dropLast)
    (h : find needle (a ++ [c]) = none) : find needle ((a ++ [c]) ++ b) = find needle b := by
  rw [find_eq_none_iff] at h
  induction a with
  | nil =>
    have hn := not_prefix_straddle (a := []) (b := b) hc fun hp => h hp.isInfix
    exact find_cons_neg hn
  | cons x a ih =>
    have hn := not_prefix_straddle (a := x :: a) (b := b) hc fun hp => h hp.isInfix
    refine (find_cons_neg hn).trans (ih fun hi => h ?_)
    exact hi.trans (List.suffix_cons x (a ++ [c])).isInfix

end Search
