import Mathlib.Data.List.Nodup

/-! # Tables with row numbers

A table numbers its rows in the order of their insertion and remembers the
last number it gave, so that a number is never given twice, also after the row
is gone. Numbers end at a bound, after which nothing is inserted.
-/

/-- Numbered rows, with the last number that was given. -/
@[ext] structure IdTable (bound : ℕ) (α : Type*) where
  rows : List (ℕ × α)
  last : ℕ
  last_le : last ≤ bound
  id_le : ∀ r ∈ rows, r.1 ≤ last
  ordered : rows.Pairwise fun r r' => r.1 < r'.1

namespace IdTable

variable {bound : ℕ} {α : Type*}

def empty : IdTable bound α := ⟨[], 0, Nat.zero_le _, by simp, .nil⟩

/-- Append a row under the next number, if there is one. -/
def insert (t : IdTable bound α) (x : α) : Option (IdTable bound α) :=
  if h : t.last < bound then
    some {
      rows := t.rows ++ [(t.last + 1, x)]
      last := t.last + 1
      last_le := h
      id_le := by
        intro r hr
        rcases List.mem_append.1 hr with hr | hr
        · exact Nat.le_succ_of_le (t.id_le r hr)
        · exact Nat.le_of_eq (congrArg Prod.fst (List.mem_singleton.1 hr))
      ordered := by
        rw [List.pairwise_append]
        refine ⟨t.ordered, List.pairwise_singleton _ _, ?_⟩
        intro r hr r' hr'
        rw [List.mem_singleton.1 hr']
        exact Nat.lt_succ_of_le (t.id_le r hr) }
  else none

def modify (t : IdTable bound α) (p : α → Bool) (f : α → α) : IdTable bound α where
  rows := t.rows.map fun r => (r.1, if p r.2 then f r.2 else r.2)
  last := t.last
  last_le := t.last_le
  id_le := by
    intro r hr
    obtain ⟨r', hr', rfl⟩ := List.mem_map.1 hr
    exact t.id_le r' hr'
  ordered := List.pairwise_map.2 t.ordered

def delete (t : IdTable bound α) (p : ℕ × α → Bool) : IdTable bound α where
  rows := t.rows.filter fun r => !p r
  last := t.last
  last_le := t.last_le
  id_le := fun r hr => t.id_le r (List.mem_filter.1 hr).1
  ordered := t.ordered.filter _

variable {t t' t'' : IdTable bound α} {x : α} {i : ℕ} {p : α → Bool} {f : α → α}

@[simp] theorem rows_empty : (empty : IdTable bound α).rows = [] := rfl

@[simp] theorem rows_modify :
    (t.modify p f).rows = t.rows.map fun r => (r.1, if p r.2 then f r.2 else r.2) := rfl

@[simp] theorem rows_delete (p : ℕ × α → Bool) :
    (t.delete p).rows = t.rows.filter fun r => !p r := rfl

theorem insert_eq_some (h : t.insert x = some t') :
    t'.rows = t.rows ++ [(t.last + 1, x)] ∧ t'.last = t.last + 1 := by
  unfold insert at h
  split at h
  · rw [← Option.some.inj h]
    exact ⟨rfl, rfl⟩
  · cases h

theorem id_le_bound (h : (i, x) ∈ t.rows) : i ≤ bound := Nat.le_trans (t.id_le _ h) t.last_le

theorem unique {y : α} (hx : (i, x) ∈ t.rows) (hy : (i, y) ∈ t.rows) : x = y := by
  have hn : (t.rows.map Prod.fst).Nodup :=
    List.pairwise_map.2 (t.ordered.imp fun h => Nat.ne_of_lt h)
  have he := List.inj_on_of_nodup_map hn hx hy rfl
  exact congrArg Prod.snd he

theorem mem_modify {y : α} : (i, y) ∈ (t.modify p f).rows ↔
    ∃ x, (i, x) ∈ t.rows ∧ (if p x then f x else x) = y := by
  simp only [rows_modify, List.mem_map, Prod.mk.injEq, Prod.exists]
  constructor
  · rintro ⟨j, x, hx, rfl, hy⟩
    exact ⟨x, hx, hy⟩
  · rintro ⟨x, hx, hy⟩
    exact ⟨i, x, hx, rfl, hy⟩

theorem modify_of_forall_not (h : ∀ r ∈ t.rows, ¬ p r.2) : t.modify p f = t := by
  ext1
  · rw [rows_modify, List.map_congr_left fun r hr => by rw [if_neg (h r hr)], List.map_id']
  · rfl

theorem delete_of_forall_not {q : ℕ × α → Bool} (h : ∀ r ∈ t.rows, ¬ q r) : t.delete q = t := by
  ext1
  · rw [rows_delete, List.filter_eq_self]
    intro r hr
    rw [Bool.not_eq_true', Bool.eq_false_iff]
    exact h r hr
  · rfl

/-! ## Later tables -/

/-- A later table: numbers given before are those of earlier rows, whose values stand in a relation
to the later ones. -/
structure Later (R : α → α → Prop) (t t' : IdTable bound α) : Prop where
  last_le : t.last ≤ t'.last
  earlier : ∀ i y, (i, y) ∈ t'.rows → i ≤ t.last → ∃ x, (i, x) ∈ t.rows ∧ R x y

variable {R : α → α → Prop}

theorem Later.refl (hR : ∀ x, R x x) (t : IdTable bound α) : Later R t t :=
  ⟨Nat.le_refl _, fun _ y hy _ => ⟨y, hy, hR y⟩⟩

theorem Later.trans (hR : ∀ x y z, R x y → R y z → R x z) (h : Later R t t')
    (h' : Later R t' t'') : Later R t t'' := by
  refine ⟨Nat.le_trans h.last_le h'.last_le, ?_⟩
  intro i z hz hi
  obtain ⟨y, hy, hyz⟩ := h'.earlier i z hz (Nat.le_trans hi h.last_le)
  obtain ⟨x, hx, hxy⟩ := h.earlier i y hy hi
  exact ⟨x, hx, hR x y z hxy hyz⟩

theorem Later.insert (hR : ∀ x, R x x) (h : t.insert x = some t') : Later R t t' := by
  obtain ⟨hrows, hlast⟩ := insert_eq_some h
  refine ⟨by omega, ?_⟩
  intro i y hy hi
  rw [hrows] at hy
  rcases List.mem_append.1 hy with hy | hy
  · exact ⟨y, hy, hR y⟩
  · have hn := congrArg Prod.fst (List.mem_singleton.1 hy)
    simp only at hn
    omega

theorem Later.modify (hR : ∀ x, R x x) (hf : ∀ x, p x → R x (f x)) :
    Later R t (t.modify p f) := by
  refine ⟨Nat.le_refl _, ?_⟩
  intro i y hy _
  obtain ⟨x, hx, rfl⟩ := mem_modify.1 hy
  refine ⟨x, hx, ?_⟩
  split
  · next hp => exact hf x hp
  · exact hR x

theorem Later.delete (hR : ∀ x, R x x) (p : ℕ × α → Bool) : Later R t (t.delete p) :=
  ⟨Nat.le_refl _, fun _ y hy _ => ⟨y, (List.mem_filter.1 hy).1, hR y⟩⟩

end IdTable
