import Mathlib.Data.Finset.Basic
import Mathlib.Data.List.Dedup
import Mathlib.Order.Minimal
import Mathlib.Order.Preorder.Finite

/-! # Tables as lists

Selections of joined and ordered tables, the rows of a table that are the
latest of those with some property, the largest value of a column in each group
of rows, and tables that are read row by row.
-/

namespace Tables

variable {α β π : Type*}

theorem flatMap_filter {l : List α} {p : α → Prop} [DecidablePred p] {g : α → List β}
    (h : ∀ x ∈ l, ¬ p x → g x = []) : (l.filter fun x => p x).flatMap g = l.flatMap g := by
  induction l with
  | nil => rfl
  | cons x l ih =>
    have ih := ih fun y hy => h y (List.mem_cons_of_mem _ hy)
    by_cases hx : p x
    · rw [List.filter_cons_of_pos (by simpa using hx), List.flatMap_cons, List.flatMap_cons, ih]
    · rw [List.filter_cons_of_neg (by simpa using hx), List.flatMap_cons,
        h x List.mem_cons_self hx, ih, List.nil_append]

theorem flatMap_ite (l : List α) (p : α → Prop) [DecidablePred p] (f : α → β) :
    (l.flatMap fun x => if p x then [f x] else []) = (l.filter fun x => p x).map f := by
  induction l with
  | nil => rfl
  | cons x l ih =>
    rw [List.flatMap_cons, ih]
    by_cases hx : p x <;> simp [hx]

theorem filter_dedup [DecidableEq α] (p : α → Bool) (l : List α) :
    l.dedup.filter p = (l.filter p).dedup := by
  induction l with
  | nil => rfl
  | cons x l ih =>
    by_cases hx : x ∈ l
    · rw [List.dedup_cons_of_mem hx, ih]
      cases hp : p x with
      | true =>
        rw [List.filter_cons_of_pos hp, List.dedup_cons_of_mem (List.mem_filter.2 ⟨hx, hp⟩)]
      | false => rw [List.filter_cons_of_neg (by simp [hp])]
    · rw [List.dedup_cons_of_notMem hx]
      cases hp : p x with
      | true =>
        rw [List.filter_cons_of_pos hp, List.filter_cons_of_pos hp, ih,
          List.dedup_cons_of_notMem fun h => hx (List.mem_filter.1 h).1]
      | false =>
        rw [List.filter_cons_of_neg (by simp [hp]), List.filter_cons_of_neg (by simp [hp]), ih]

theorem flatMap_filter_perm {κ : Type*} [DecidableEq κ] {key : α → κ} {keys : List κ}
    (hn : keys.Nodup) {l : List α} (h : ∀ x ∈ l, key x ∈ keys) :
    (keys.flatMap fun k => l.filter fun x => key x = k).Perm l := by
  induction keys generalizing l with
  | nil =>
    have hnil : l = [] := List.eq_nil_iff_forall_not_mem.2 fun x hx => List.not_mem_nil (h x hx)
    rw [hnil]
    rfl
  | cons k keys ih =>
    obtain ⟨hk, hn⟩ := List.nodup_cons.1 hn
    have hrest : (keys.flatMap fun k' => l.filter fun x => key x = k') =
        keys.flatMap fun k' => (l.filter fun x => !decide (key x = k)).filter fun x =>
          key x = k' := by
      apply List.flatMap_congr
      intro k' hk'
      rw [List.filter_filter]
      apply List.filter_congr
      intro x _
      by_cases hx : key x = k'
      · have hne : k' ≠ k := fun he => hk (he ▸ hk')
        simp [hx, hne]
      · simp [hx]
    rw [List.flatMap_cons, hrest]
    refine ((ih hn fun x hx => ?_).append_left _).trans (List.filter_append_perm _ _)
    obtain ⟨hx, hne⟩ := List.mem_filter.1 hx
    rcases List.mem_cons.1 (h x hx) with he | hm
    · simp [he] at hne
    · exact hm

theorem filter_of_unique {l : List α} {p : α → Prop} [DecidablePred p] (hl : l.Nodup)
    (hu : ∀ x ∈ l, ∀ y ∈ l, p x → p y → x = y) {x : α} (hx : x ∈ l) (hp : p x) :
    (l.filter fun x => p x) = [x] := by
  have hm : ∀ y, y ∈ l.filter (fun x => p x) ↔ y = x := by
    intro y
    rw [List.mem_filter, decide_eq_true_iff]
    constructor
    · rintro ⟨hy, hpy⟩
      exact hu y hy x hx hpy hp
    · rintro rfl
      exact ⟨hx, hp⟩
  exact List.perm_singleton.1
    ((List.perm_ext_iff_of_nodup (hl.filter _) (List.nodup_singleton x)).2 (by simpa using hm))

/-- Selections of the same number of rows, one within the other, agree. -/
theorem filter_congr_of_length {l : List α} {p q : α → Prop} [DecidablePred p] [DecidablePred q]
    (h : ∀ x ∈ l, p x → q x)
    (hl : (l.filter fun x => p x).length = (l.filter fun x => q x).length) :
    ∀ x ∈ l, q x → p x := by
  have he : (l.filter fun x => p x) = l.filter fun x => p x ∧ q x :=
    List.filter_congr fun x hx => by
      rw [decide_eq_decide]
      exact ⟨fun hp => ⟨hp, h x hx hp⟩, And.left⟩
  have hs : (l.filter fun x => p x).Sublist (l.filter fun x => q x) := by
    rw [he]
    exact List.monotone_filter_right l fun x hx => by
      rw [decide_eq_true_iff] at hx ⊢
      exact hx.2
  intro x hx hq
  have hm : x ∈ l.filter fun x => p x := by
    rw [hs.eq_of_length hl, List.mem_filter, decide_eq_true_iff]
    exact ⟨hx, hq⟩
  exact of_decide_eq_true (List.mem_filter.1 hm).2

section Latest

variable [LinearOrder π] {position : α → π} {P Q : α → Prop}

theorem maximalFor_iff_not_lt {x : α} :
    MaximalFor P position x ↔ P x ∧ ¬ ∃ y, P y ∧ position x < position y := by
  rw [maximalFor_iff_forall_gt]
  constructor
  · rintro ⟨hx, h⟩
    refine ⟨hx, ?_⟩
    rintro ⟨y, hy, hlt⟩
    exact h hlt hy
  · rintro ⟨hx, h⟩
    exact ⟨hx, fun y hlt hy => h ⟨y, hy, hlt⟩⟩

variable (position) in
theorem exists_latest {l : List α} (h : ∃ x ∈ l, P x) :
    ∃ x, MaximalFor (fun y => y ∈ l ∧ P y) position x := by
  classical
  obtain ⟨x, hx, hp⟩ := h
  obtain ⟨m, hm⟩ := Finset.exists_maximalFor position (l.toFinset.filter P)
    ⟨x, Finset.mem_filter.2 ⟨List.mem_toFinset.2 hx, hp⟩⟩
  simp only [Finset.mem_filter, List.mem_toFinset] at hm
  exact ⟨m, hm⟩

theorem latest_unique (hi : ∀ x y, P x → P y → position x = position y → x = y) {x y : α}
    (hx : MaximalFor P position x) (hy : MaximalFor P position y) : x = y :=
  hi x y hx.prop hy.prop (le_antisymm (hy.le hx.prop) (hx.le hy.prop))

end Latest

section Groups

variable {κ ν : Type*} [DecidableEq κ] [LinearOrder ν]

/-- The keys of a table, each with the largest value of a column among its rows. -/
def groupMax (key : α → κ) (col : α → ν) (l : List α) : List (κ × ν) :=
  (l.map key).dedup.filterMap fun k =>
    ((l.filter fun x => key x = k).map col).max?.map fun v => (k, v)

variable {key : α → κ} {col : α → ν} {l : List α}

theorem mem_groupMax {k : κ} {v : ν} : (k, v) ∈ groupMax key col l ↔
    (∃ x ∈ l, key x = k ∧ col x = v) ∧ ∀ x ∈ l, key x = k → col x ≤ v := by
  have hmax (k : κ) (v : ν) : ((l.filter fun x => key x = k).map col).max? = some v ↔
      (∃ x ∈ l, key x = k ∧ col x = v) ∧ ∀ x ∈ l, key x = k → col x ≤ v := by
    rw [List.max?_eq_some_iff, List.mem_map, List.forall_mem_map]
    simp only [List.mem_filter, decide_eq_true_eq, and_assoc, and_imp]
  simp only [groupMax, List.mem_filterMap, List.mem_dedup, Option.map_eq_some_iff, Prod.mk.injEq,
    hmax]
  constructor
  · rintro ⟨k', -, v', hv, rfl, rfl⟩
    exact hv
  · intro h
    obtain ⟨x, hx, hk, -⟩ := h.1
    exact ⟨k, List.mem_map.2 ⟨x, hx, hk⟩, v, h, rfl, rfl⟩

theorem nodup_keys_groupMax : ((groupMax key col l).map Prod.fst).Nodup := by
  rw [groupMax, List.map_filterMap]
  apply (List.nodup_dedup _).filterMap
  intro k k' a h h'
  simp only [Option.map_map, Option.mem_def, Option.map_eq_some_iff, Function.comp_apply] at h h'
  obtain ⟨-, -, rfl⟩ := h
  obtain ⟨-, -, rfl⟩ := h'
  rfl

theorem exists_mem_groupMax {x : α} (hx : x ∈ l) (col : α → ν) :
    ∃ v, (key x, v) ∈ groupMax key col l := by
  obtain ⟨y, hy⟩ := exists_latest col (P := fun y => key y = key x) ⟨x, hx, rfl⟩
  exact ⟨col y, mem_groupMax.2 ⟨⟨y, hy.prop.1, hy.prop.2, rfl⟩, fun z hz hk =>
    le_of_not_gt fun hlt => hy.not_gt ⟨hz, hk⟩ hlt⟩⟩

theorem length_groupMax_le (l : List α) : (groupMax key col l).length ≤ l.length := by
  calc (groupMax key col l).length ≤ (l.map key).dedup.length := List.length_filterMap_le ..
    _ ≤ (l.map key).length := (List.dedup_sublist _).length_le
    _ = l.length := List.length_map ..

end Groups

section Reading

variable {ε : Type*} {read : α → Except ε β} {l : List α}

theorem exists_mapM_read (write : β → α) (h : ∀ x ∈ l, ∃ y, read x = .ok y ∧ write y = x) :
    ∃ ys, l.mapM read = .ok ys ∧ ys.map write = l := by
  induction l with
  | nil => exact ⟨[], rfl, rfl⟩
  | cons x l ih =>
    obtain ⟨y, hy, hw⟩ := h x List.mem_cons_self
    obtain ⟨ys, hys, hws⟩ := ih fun x hx => h x (List.mem_cons_of_mem _ hx)
    refine ⟨y :: ys, ?_, ?_⟩
    · rw [List.mapM_cons, hy, hys]
      rfl
    · rw [List.map_cons, hw, hws]

theorem map_ok_of_mapM_read {ys : List β} (h : l.mapM read = .ok ys) :
    ys.map (.ok : β → Except ε β) = l.map read := by
  induction l generalizing ys with
  | nil =>
    cases h
    rfl
  | cons x l ih =>
    rw [List.mapM_cons] at h
    cases hr : read x with
    | error e =>
      rw [hr] at h
      cases h
    | ok y =>
      cases hl : l.mapM read with
      | error e =>
        rw [hr, hl] at h
        cases h
      | ok ys' =>
        rw [hr, hl] at h
        cases h
        rw [List.map_cons, List.map_cons, hr, ih hl]

theorem getElem?_mapM_read {ys : List β} (h : l.mapM read = .ok ys) {i : ℕ} {x : α}
    (hx : l[i]? = some x) : ∃ y, ys[i]? = some y ∧ read x = .ok y := by
  have hi := congrArg (fun rows => rows[i]?) (map_ok_of_mapM_read h)
  simp only [List.getElem?_map, hx, Option.map_some, Option.map_eq_some_iff] at hi
  obtain ⟨y, hy, hr⟩ := hi
  exact ⟨y, hy, hr.symm⟩

/-- One row that is not read fails the table. -/
theorem mapM_read_error {e : ε} {x : α} (hx : x ∈ l) (h : read x = .error e)
    (hread : ∀ x ∈ l, (∃ y, read x = .ok y) ∨ read x = .error e) : l.mapM read = .error e := by
  induction l with
  | nil => cases hx
  | cons x' l ih =>
    rw [List.mapM_cons]
    rcases hread x' List.mem_cons_self with ⟨y, hy⟩ | he
    · have hl : l.mapM read = .error e := by
        rcases List.mem_cons.1 hx with rfl | hx
        · rw [h] at hy
          cases hy
        · exact ih hx fun x hx => hread x (List.mem_cons_of_mem _ hx)
      rw [hy, hl]
      rfl
    · rw [he]
      rfl

end Reading

end Tables
