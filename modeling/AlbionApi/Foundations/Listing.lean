import Mathlib.Algebra.Order.Floor.Div
import Mathlib.Data.List.Sort
import Mathlib.Data.Prod.Lex

/-! # Sorted listings and their pages

A listing is sorted by a key, elements of equal key staying in their order,
and is read in pages of a fixed size that are numbered from one.
-/

namespace Listing

variable {α κ : Type*}

section Sorting

variable [LinearOrder κ] (key : α → κ)

/-- A stable sort by a key, smallest key first. -/
def sortByKey (l : List α) : List α := l.insertionSort fun a b => key a ≤ key b

/-- A listing has the elements of a list in key order, with ties in the order of the list. -/
structure IsListing (l sorted : List α) : Prop where
  perm : sorted.Perm l
  ordered : sorted.Pairwise fun a b => key a ≤ key b
  stable : ∀ k, (sorted.filter fun a => key a = k) = l.filter fun a => key a = k

theorem ordered_sortByKey (l : List α) :
    (sortByKey key l).Pairwise fun a b => key a ≤ key b := by
  have : Std.Total fun a b => key a ≤ key b := ⟨fun a b => le_total (key a) (key b)⟩
  have : IsTrans α fun a b => key a ≤ key b := ⟨fun _ _ _ => le_trans⟩
  exact List.pairwise_insertionSort _ l

theorem filter_sortByKey (l : List α) (k : κ) :
    ((sortByKey key l).filter fun a => key a = k) = l.filter fun a => key a = k := by
  have : Std.Total fun a b => key a ≤ key b := ⟨fun a b => le_total (key a) (key b)⟩
  have : IsTrans α fun a b => key a ≤ key b := ⟨fun _ _ _ => le_trans⟩
  have hp : (sortByKey key l).Perm l := List.perm_insertionSort _ l
  have hc : (l.filter fun a => key a = k).Pairwise fun a b => key a ≤ key b := by
    rw [List.pairwise_filter]
    apply List.pairwise_of_forall
    intro a b ha hb
    rw [of_decide_eq_true ha, of_decide_eq_true hb]
  -- the elements of one key are a sorted sublist, which the sort keeps as it is
  have hs : (l.filter fun a => key a = k).Sublist (sortByKey key l) :=
    List.sublist_insertionSort hc List.filter_sublist
  have hf := hs.filter fun a => key a = k
  rw [List.filter_filter] at hf
  simp only [Bool.and_self] at hf
  exact (hf.eq_of_length (hp.filter _).length_eq.symm).symm

theorem isListing_sortByKey (l : List α) : IsListing key l (sortByKey key l) where
  perm := List.perm_insertionSort _ l
  ordered := ordered_sortByKey key l
  stable := filter_sortByKey key l

theorem orderedInsert_filter (p : α → Bool) (a : α) {l : List α}
    (hl : l.Pairwise fun a b => key a ≤ key b) :
    (l.orderedInsert (fun a b => key a ≤ key b) a).filter p =
      if p a then (l.filter p).orderedInsert (fun a b => key a ≤ key b) a else l.filter p := by
  induction l with
  | nil => cases hp : p a <;> simp [hp]
  | cons b l ih =>
    rw [List.pairwise_cons] at hl
    by_cases hab : key a ≤ key b
    · rw [List.orderedInsert_cons, if_pos hab, List.filter_cons]
      split_ifs with hp
      · -- what the filter leaves in front is not before the inserted element either
        cases hf : (b :: l).filter p with
        | nil => rfl
        | cons c f =>
          have hc : c ∈ b :: l := List.mem_of_mem_filter (hf ▸ List.mem_cons_self)
          have hac : key a ≤ key c := by
            rcases List.mem_cons.1 hc with rfl | hc
            · exact hab
            · exact hab.trans (hl.1 c hc)
          rw [List.orderedInsert_cons, if_pos hac]
      · rfl
    · rw [List.orderedInsert_cons, if_neg hab, List.filter_cons, ih hl.2, List.filter_cons]
      cases p b <;> split_ifs <;> simp [hab]

theorem sortByKey_filter (p : α → Bool) (l : List α) :
    (sortByKey key l).filter p = sortByKey key (l.filter p) := by
  induction l with
  | nil => rfl
  | cons a l ih =>
    have hi : sortByKey key (a :: l) =
        (sortByKey key l).orderedInsert (fun a b => key a ≤ key b) a := rfl
    rw [hi, orderedInsert_filter key p a (ordered_sortByKey key l), ih]
    cases hp : p a <;> simp [hp, sortByKey]

@[simp] theorem length_sortByKey (l : List α) : (sortByKey key l).length = l.length :=
  List.length_insertionSort _ l

/-- A way to list elements in key order. Ties come in whatever order it chooses. -/
structure Sorting where
  sort : List α → List α
  perm : ∀ l, (sort l).Perm l
  ordered : ∀ l, (sort l).Pairwise fun a b => key a ≤ key b

def Sorting.stable : Sorting key where
  sort := sortByKey key
  perm l := (isListing_sortByKey key l).perm
  ordered := ordered_sortByKey key

def Sorting.refined {τ : Type*} [LinearOrder τ] (tie : α → τ) : Sorting key where
  sort := sortByKey fun a => toLex (key a, tie a)
  perm l := (isListing_sortByKey _ l).perm
  ordered l := by
    refine (ordered_sortByKey _ l).imp fun hab => ?_
    rcases Prod.Lex.toLex_le_toLex.1 hab with hlt | ⟨heq, -⟩
    · exact hlt.le
    · exact heq.le

variable {key}

theorem Sorting.mem_sort (s : Sorting key) {l : List α} {a : α} : a ∈ s.sort l ↔ a ∈ l :=
  (s.perm l).mem_iff

theorem Sorting.refined_ties {τ : Type*} [LinearOrder τ] (tie : α → τ) (l : List α) :
    ((Sorting.refined key tie).sort l).Pairwise fun a b => key a = key b → tie a ≤ tie b := by
  refine (ordered_sortByKey (fun a => toLex (key a, tie a)) l).imp fun hab hk => ?_
  rcases Prod.Lex.toLex_le_toLex.1 hab with hlt | ⟨-, hle⟩
  · exact absurd hk hlt.ne
  · exact hle

/-- A function that ties do not change sees one order of the elements. -/
theorem map_eq_of_ties {β : Type*} {g : α → β} {l l' : List α} (hp : l.Perm l')
    (hl : l.Pairwise fun a b => key a ≤ key b) (hl' : l'.Pairwise fun a b => key a ≤ key b)
    (h : ∀ a ∈ l, ∀ b ∈ l, key a = key b → g a = g b) : l.map g = l'.map g := by
  have h₁ : (l.map fun a => (key a, g a)).Pairwise fun x y => x.1 ≤ y.1 := List.pairwise_map.2 hl
  have h₂ : (l'.map fun a => (key a, g a)).Pairwise fun x y => x.1 ≤ y.1 :=
    List.pairwise_map.2 hl'
  have hpairs : (l.map fun a => (key a, g a)) = l'.map fun a => (key a, g a) := by
    refine List.Perm.eq_of_pairwise ?_ h₁ h₂ (hp.map _)
    intro x y hx hy hxy hyx
    obtain ⟨a, ha, rfl⟩ := List.mem_map.1 hx
    obtain ⟨b, hb, rfl⟩ := List.mem_map.1 hy
    have hk : key a = key b := le_antisymm hxy hyx
    rw [hk, h a ha b (hp.mem_iff.2 hb) hk]
  have hsnd := congrArg (List.map Prod.snd) hpairs
  rw [List.map_map, List.map_map] at hsnd
  exact hsnd

/-- Two sortings that list the ties of a property the opposite ways agree only where no tie
differs in the property. -/
theorem ties_of_map_refined_eq {β : Type*} {g : α → β} {l : List α} (tie : β → Bool)
    (h : ((Sorting.refined key fun a => tie (g a)).sort l).map g =
      ((Sorting.refined key fun a => !tie (g a)).sort l).map g)
    {a b : α} (ha : a ∈ l) (hb : b ∈ l) (hk : key a = key b) : tie (g a) = tie (g b) := by
  generalize hs : Sorting.refined key (fun a => tie (g a)) = s at h
  generalize hs' : Sorting.refined key (fun a => !tie (g a)) = s' at h
  have hkeys : (s.sort l).map key = (s'.sort l).map key :=
    map_eq_of_ties ((s.perm l).trans (s'.perm l).symm) (s.ordered l) (s'.ordered l)
      fun _ _ _ _ => id
  have hpairs : ((s.sort l).map fun a => (key a, g a)) =
      (s'.sort l).map fun a => (key a, g a) := by
    rw [← List.zip_map', hkeys, h, List.zip_map']
  have hmem {a : α} (ha : a ∈ l) : (key a, g a) ∈ (s.sort l).map fun a => (key a, g a) :=
    List.mem_map_of_mem (s.mem_sort.2 ha)
  -- along the common list the property holds from some tie on, and up to some tie
  have hup : ((s.sort l).map fun a => (key a, g a)).Pairwise fun x y =>
      x.1 = y.1 → tie x.2 ≤ tie y.2 :=
    List.pairwise_map.2 (hs ▸ Sorting.refined_ties (fun a => tie (g a)) l)
  have hdown : ((s.sort l).map fun a => (key a, g a)).Pairwise (flip fun x y =>
      x.1 = y.1 → tie x.2 ≤ tie y.2) := by
    rw [hpairs, List.pairwise_map]
    refine (hs' ▸ Sorting.refined_ties (fun a => !tie (g a)) l).imp fun hab hba => ?_
    have hle := hab hba.symm
    revert hle
    cases tie (g _) <;> cases tie (g _) <;> decide
  have hall := List.Pairwise.forall_of_forall_of_flip (fun _ _ _ => le_rfl) hup hdown
  exact le_antisymm (hall (hmem ha) (hmem hb) hk) (hall (hmem hb) (hmem ha) hk.symm)

end Sorting

/-! ## Pages -/

def pageCount (n size : ℕ) : ℕ := n ⌈/⌉ size

def page (l : List α) (size i : ℕ) : List α := (l.drop ((i - 1) * size)).take size

theorem pageCount_le_iff {n size k : ℕ} (h : 0 < size) : pageCount n size ≤ k ↔ n ≤ k * size := by
  rw [pageCount, Nat.mul_comm]
  exact ceilDiv_le_iff_le_mul h

theorem lt_pageCount_iff {n size k : ℕ} (h : 0 < size) : k < pageCount n size ↔ k * size < n := by
  rw [← Nat.not_le, pageCount_le_iff h, Nat.not_le]

theorem page_size_zero (l : List α) (i : ℕ) : page l 0 i = [] := by
  simp [page]

theorem flatMap_page (l : List α) (size n : ℕ) :
    (List.range' 1 n).flatMap (page l size) = l.take (n * size) := by
  induction n with
  | zero => simp
  | succ n ih =>
    rw [List.range'_concat, List.flatMap_append, ih, Nat.add_mul, List.take_add]
    simp [page]

theorem mem_of_mem_page {l : List α} {size i : ℕ} {a : α} (h : a ∈ page l size i) : a ∈ l :=
  List.mem_of_mem_drop (List.mem_of_mem_take h)

theorem exists_mem_page {l : List α} {size n : ℕ} (hn : l.length ≤ n * size) {a : α}
    (h : a ∈ l) : ∃ i, 1 ≤ i ∧ i ≤ n ∧ a ∈ page l size i := by
  rw [← List.take_of_length_le hn, ← flatMap_page] at h
  obtain ⟨i, hi, ha⟩ := List.mem_flatMap.1 h
  rw [List.mem_range'_1] at hi
  exact ⟨i, hi.1, by omega, ha⟩

theorem page_eq_nil_iff (l : List α) {size : ℕ} (h : 0 < size) (i : ℕ) :
    page l size (i + 1) = [] ↔ pageCount l.length size ≤ i := by
  rw [pageCount_le_iff h, page, List.take_eq_nil_iff, List.drop_eq_nil_iff, Nat.add_sub_cancel]
  constructor
  · rintro (h0 | h0)
    · omega
    · exact h0
  · exact Or.inr

theorem page_of_pageCount_lt (l : List α) {size i : ℕ} (h : 0 < size)
    (hi : pageCount l.length size < i) : page l size i = [] := by
  obtain ⟨j, rfl⟩ := Nat.exists_eq_add_of_lt hi
  exact (page_eq_nil_iff l h _).2 (Nat.le_add_right _ _)

theorem page_succ_ne_nil_iff (l : List α) {size : ℕ} (h : 0 < size) (i : ℕ) :
    page l size (i + 1) ≠ [] ↔ i < pageCount l.length size := by
  rw [Ne, page_eq_nil_iff l h, Nat.not_le]

end Listing
