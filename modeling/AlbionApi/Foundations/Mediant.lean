import Mathlib.Algebra.BigOperators.Ring.List
import Mathlib.Algebra.Order.BigOperators.Group.List
import Mathlib.Algebra.Order.Field.Basic
import Mathlib.Data.Set.Finite.Lemmas
import Mathlib.Data.Set.Finite.List

/-! # Ratios of totals

The ratio of two totals of a list, the second of positive amounts, lies between
the smallest and the largest ratio of the list.
-/

namespace Mediant

variable {ι K : Type*} [Field K] [LinearOrder K] [IsStrictOrderedRing K]
variable {l : List ι} {f g : ι → K}

def total (f : ι → K) (l : List ι) : K := (l.map f).sum

theorem total_pos (hne : l ≠ []) (hg : ∀ x ∈ l, 0 < g x) : 0 < total g l := by
  refine List.sum_pos _ ?_ (by simpa using hne)
  simpa using hg

omit [LinearOrder K] [IsStrictOrderedRing K] in
theorem total_perm {l' : List ι} (h : l.Perm l') : total f l = total f l' :=
  (h.map f).sum_eq

theorem exists_div_le (hne : l ≠ []) (hg : ∀ x ∈ l, 0 < g x) :
    ∃ x ∈ l, f x / g x ≤ total f l / total g l := by
  have hpos := total_pos hne hg
  have hsum : (l.map f).sum ≤ (l.map fun x => total f l / total g l * g x).sum := by
    rw [List.sum_map_mul_left]
    exact (div_mul_cancel₀ (total f l) hpos.ne').ge
  obtain ⟨x, hx, hle⟩ := List.exists_le_of_sum_le hne _ _ hsum
  exact ⟨x, hx, (div_le_iff₀ (hg x hx)).mpr hle⟩

theorem exists_le_div (hne : l ≠ []) (hg : ∀ x ∈ l, 0 < g x) :
    ∃ x ∈ l, total f l / total g l ≤ f x / g x := by
  have hpos := total_pos hne hg
  have hsum : (l.map fun x => total f l / total g l * g x).sum ≤ (l.map f).sum := by
    rw [List.sum_map_mul_left]
    exact (div_mul_cancel₀ (total f l) hpos.ne').le
  obtain ⟨x, hx, hle⟩ := List.exists_le_of_sum_le hne _ _ hsum
  exact ⟨x, hx, (le_div_iff₀ (hg x hx)).mpr hle⟩

/-- The ratio of the totals lies between the smallest and the largest ratio. -/
theorem div_between (hne : l ≠ []) (hg : ∀ x ∈ l, 0 < g x) :
    ∃ lo ∈ l, ∃ hi ∈ l, (∀ x ∈ l, f lo / g lo ≤ f x / g x ∧ f x / g x ≤ f hi / g hi) ∧
      f lo / g lo ≤ total f l / total g l ∧ total f l / total g l ≤ f hi / g hi := by
  have hfin : {x | x ∈ l}.Finite := List.finite_toSet l
  have hnon : {x | x ∈ l}.Nonempty := List.exists_mem_of_ne_nil l hne
  obtain ⟨lo, hlo, hmin⟩ := Set.exists_min_image _ (fun x => f x / g x) hfin hnon
  obtain ⟨hi, hhi, hmax⟩ := Set.exists_max_image _ (fun x => f x / g x) hfin hnon
  obtain ⟨x, hx, hle⟩ := exists_div_le (f := f) hne hg
  obtain ⟨y, hy, hge⟩ := exists_le_div (f := f) hne hg
  exact ⟨lo, hlo, hi, hhi, fun z hz => ⟨hmin z hz, hmax z hz⟩, (hmin x hx).trans hle,
    hge.trans (hmax y hy)⟩

end Mediant
