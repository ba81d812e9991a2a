import Mathlib.Data.List.Duplicate
import Mathlib.Data.List.Nodup

/-! # Scattered results

The elements of a list are grouped by a key, each with its index, the groups
are answered one by one, and the answers are written back at the indices.
-/

namespace Scatter

variable {α β γ κ : Type*}

/-- `slots[index] = value`, which fails out of range. -/
def setSlot (slots : List γ) (index : ℕ) (value : γ) : Option (List γ) :=
  if index < slots.length then some (slots.set index value) else none

def writeAll (slots : List γ) (writes : List (ℕ × γ)) : Option (List γ) :=
  writes.foldlM (fun slots w => setSlot slots w.1 w.2) slots

theorem writeAll_append (slots : List γ) (ws ws' : List (ℕ × γ)) :
    writeAll slots (ws ++ ws') = (writeAll slots ws).bind fun slots => writeAll slots ws' :=
  List.foldlM_append

/-- Writes in range at different indices do not disturb each other. -/
theorem writeAll_spec {writes : List (ℕ × γ)} (hn : (writes.map Prod.fst).Nodup)
    {slots : List γ} (hlt : ∀ w ∈ writes, w.1 < slots.length) :
    ∃ slots', writeAll slots writes = some slots' ∧ slots'.length = slots.length ∧
      (∀ w ∈ writes, slots'[w.1]? = some w.2) ∧
      ∀ i, i ∉ writes.map Prod.fst → slots'[i]? = slots[i]? := by
  induction writes generalizing slots with
  | nil => exact ⟨slots, rfl, rfl, by simp, fun _ _ => rfl⟩
  | cons w writes ih =>
    rw [List.map_cons, List.nodup_cons] at hn
    have hw := hlt w List.mem_cons_self
    have hlt' : ∀ w' ∈ writes, w'.1 < (slots.set w.1 w.2).length := by
      intro w' hw'
      rw [List.length_set]
      exact hlt w' (List.mem_cons_of_mem _ hw')
    obtain ⟨slots', h, hlen, hin, hout⟩ := ih hn.2 hlt'
    rw [List.length_set] at hlen
    refine ⟨slots', ?_, hlen, ?_, ?_⟩
    · rw [writeAll, List.foldlM_cons, setSlot, if_pos hw]
      exact h
    · intro w' hw'
      rcases List.mem_cons.1 hw' with rfl | hw'
      · rw [hout _ hn.1, List.getElem?_set_self hw]
      · exact hin w' hw'
    · intro i hi
      rw [List.map_cons, List.mem_cons, not_or] at hi
      rw [hout i hi.2, List.getElem?_set_ne (Ne.symm hi.1)]

theorem foldlM_writeAll {ι : Type*} (f : ι → List (ℕ × γ)) (l : List ι) (slots : List γ) :
    l.foldlM (fun slots x => writeAll slots (f x)) slots = writeAll slots (l.flatMap f) := by
  induction l generalizing slots with
  | nil => rfl
  | cons x l ih =>
    rw [List.foldlM_cons, List.flatMap_cons, writeAll_append]
    cases writeAll slots (f x) with
    | none => rfl
    | some slots => exact ih slots

theorem sublist_map_fst_zip (l : List α) (l' : List β) :
    ((l.zip l').map Prod.fst).Sublist l := by
  induction l generalizing l' with
  | nil => simp
  | cons a l ih =>
    cases l' with
    | nil => simp
    | cons b l' => exact (ih l').cons_cons a

theorem getElem?_filter_countP {p : α → Bool} {l : List α} {i : ℕ} {a : α} (h : l[i]? = some a)
    (hp : p a = true) : (l.filter p)[(l.take i).countP p]? = some a := by
  induction l generalizing i with
  | nil => cases h
  | cons b l ih =>
    cases i with
    | zero =>
      obtain rfl : b = a := Option.some.inj h
      rw [List.filter_cons_of_pos hp]
      rfl
    | succ i =>
      rw [List.take_succ_cons]
      cases hb : p b with
      | true =>
        rw [List.filter_cons_of_pos hb, List.countP_cons_of_pos hb]
        exact ih h
      | false =>
        rw [List.filter_cons_of_neg (by simp [hb]), List.countP_cons_of_neg (by simp [hb])]
        exact ih h

theorem countP_take_filter {p q : α → Bool} {l : List α} {i : ℕ} (hi : i ≤ l.length) :
    ((l.filter p).take ((l.take i).countP p)).countP q =
      (l.take i).countP fun a => p a && q a := by
  induction l generalizing i with
  | nil => simp
  | cons b l ih =>
    cases i with
    | zero => simp
    | succ i =>
      have ih := ih (Nat.le_of_succ_le_succ hi)
      rw [List.take_succ_cons]
      cases hb : p b with
      | true =>
        rw [List.filter_cons_of_pos hb, List.countP_cons_of_pos hb, List.take_succ_cons,
          List.countP_cons, List.countP_cons, ih, hb, Bool.true_and]
      | false =>
        rw [List.filter_cons_of_neg (by simp [hb]), List.countP_cons_of_neg (by simp [hb]), ih,
          List.countP_cons_of_neg (by simp [hb])]

/-! ## Groups by key -/

section Group

variable [Ord κ] [Std.TransOrd κ] [Std.LawfulEqOrd κ]

/-- `groups.entry(key).or_default().push((index, a))`. -/
def pushIndexed (key : α → κ) (groups : Std.TreeMap κ (List (ℕ × α))) (x : α × ℕ) :
    Std.TreeMap κ (List (ℕ × α)) :=
  groups.alter (key x.1) fun group => some (group.getD [] ++ [(x.2, x.1)])

def groupByKey (key : α → κ) (l : List α) : Std.TreeMap κ (List (ℕ × α)) :=
  l.zipIdx.foldl (pushIndexed key) ∅

variable [DecidableEq κ]

def groupOf (key : α → κ) (k : κ) (l : List α) : List (ℕ × α) :=
  (l.zipIdx.filter fun x => key x.1 = k).map Prod.swap

theorem getElem?_foldl_pushIndexed (key : α → κ) (xs : List (α × ℕ))
    (groups : Std.TreeMap κ (List (ℕ × α))) (k : κ) :
    (xs.foldl (pushIndexed key) groups)[k]? =
      if (xs.filter fun x => key x.1 = k) = [] then groups[k]?
      else some (groups[k]?.getD [] ++ (xs.filter fun x => key x.1 = k).map Prod.swap) := by
  induction xs generalizing groups with
  | nil => rfl
  | cons x xs ih =>
    rw [List.foldl_cons, ih, pushIndexed, Std.TreeMap.getElem?_alter]
    by_cases hk : key x.1 = k
    · subst hk
      rw [List.filter_cons_of_pos (by simp), if_pos Std.ReflCmp.compare_self,
        if_neg (List.cons_ne_nil _ _)]
      split_ifs with he
      · rw [he]
        rfl
      · rw [Option.getD_some, List.append_assoc]
        rfl
    · have hc : ¬ compare (key x.1) k = .eq := fun h => hk (Std.LawfulEqCmp.eq_of_compare h)
      rw [List.filter_cons_of_neg (by simpa using hk), if_neg hc]

/-- A group has the elements with its key, in their order. -/
theorem mem_toList_groupByKey {key : α → κ} {l : List α} {k : κ} {group : List (ℕ × α)} :
    (k, group) ∈ (groupByKey key l).toList ↔ group = groupOf key k l ∧ group ≠ [] := by
  rw [Std.TreeMap.mem_toList_iff_getElem?_eq_some, groupByKey, getElem?_foldl_pushIndexed,
    Std.TreeMap.getElem?_emptyc]
  split_ifs with he
  · simp [groupOf, he]
  · rw [Option.getD_none, List.nil_append, Option.some.injEq]
    constructor
    · rintro rfl
      exact ⟨rfl, by simpa using he⟩
    · rintro ⟨rfl, -⟩
      rfl

section Of

omit [Ord κ] [Std.TransOrd κ] [Std.LawfulEqOrd κ]

theorem mem_groupOf {key : α → κ} {k : κ} {l : List α} {i : ℕ} {a : α} :
    (i, a) ∈ groupOf key k l ↔ l[i]? = some a ∧ key a = k := by
  simp only [groupOf, List.mem_map, List.mem_filter, Prod.exists, Prod.swap_prod_mk,
    Prod.mk.injEq, List.mk_mem_zipIdx_iff_getElem?, decide_eq_true_eq]
  constructor
  · rintro ⟨a', i', ⟨h, hk⟩, rfl, rfl⟩
    exact ⟨h, hk⟩
  · rintro ⟨h, hk⟩
    exact ⟨a, i, ⟨h, hk⟩, rfl, rfl⟩

theorem map_snd_groupOf (key : α → κ) (k : κ) (l : List α) :
    (groupOf key k l).map Prod.snd = l.filter fun a => key a = k := by
  have hz : (l.filter fun a => key a = k) =
      ((l.zipIdx.map Prod.fst).filter fun a => key a = k) := by
    rw [List.zipIdx_map_fst]
  rw [hz, List.filter_map, groupOf, List.map_map]
  rfl

theorem nodup_map_fst_groupOf (key : α → κ) (k : κ) (l : List α) :
    ((groupOf key k l).map Prod.fst).Nodup := by
  have hs : ((groupOf key k l).map Prod.fst).Sublist (l.zipIdx.map Prod.snd) := by
    rw [groupOf, List.map_map]
    exact List.filter_sublist.map Prod.snd
  apply hs.nodup
  rw [List.zipIdx_map_snd]
  exact List.nodup_range'

/-- An element stands in its group where the ones with its key before it end. -/
theorem getElem?_groupOf (key : α → κ) {l : List α} {i : ℕ} {a : α} (h : l[i]? = some a) :
    (groupOf key (key a) l)[(l.take i).countP fun b => key b = key a]? = some (i, a) := by
  have hz : l.zipIdx[i]? = some (a, i) := by
    rw [List.getElem?_zipIdx, h]
    simp
  have hf := getElem?_filter_countP (p := fun x => key x.1 = key a) hz (by simp)
  have hc : (l.zipIdx.take i).countP (fun x => key x.1 = key a) =
      (l.take i).countP fun b => key b = key a := by
    have ht : l.take i = (l.zipIdx.take i).map Prod.fst := by
      rw [List.map_take, List.zipIdx_map_fst]
    rw [ht, List.countP_map]
    rfl
  rw [groupOf, List.getElem?_map, ← hc, hf]
  rfl

end Of

/-- The answers to the groups, written at the indices of their elements. -/
def scatterGroups (key : α → κ) (answer : κ → List α → List β) (l : List α) :
    Option (List (Option β)) :=
  (groupByKey key l).toList.foldlM (fun slots group =>
    writeAll slots ((group.2.map Prod.fst).zip
      ((answer group.1 (group.2.map Prod.snd)).map some))) (List.replicate l.length none)

def writesOf (key : α → κ) (answer : κ → List α → List β) (l : List α) :
    List (ℕ × Option β) :=
  (groupByKey key l).toList.flatMap fun group =>
    (group.2.map Prod.fst).zip ((answer group.1 (group.2.map Prod.snd)).map some)

theorem mem_writesOf {key : α → κ} {answer : κ → List α → List β} {l : List α} {i : ℕ}
    {slot : Option β} : (i, slot) ∈ writesOf key answer l ↔ ∃ a b, l[i]? = some a ∧
      (answer (key a) (l.filter fun a' => key a' = key a))[
        (l.take i).countP fun a' => key a' = key a]? = some b ∧ slot = some b := by
  constructor
  · intro h
    obtain ⟨⟨k, group⟩, hg, hz⟩ := List.mem_flatMap.1 h
    obtain ⟨rfl, -⟩ := mem_toList_groupByKey.1 hg
    obtain ⟨r, hr⟩ := List.mem_iff_getElem?.1 hz
    obtain ⟨hi, hs⟩ := List.getElem?_zip_eq_some.1 hr
    simp only [List.getElem?_map, Option.map_eq_some_iff] at hi hs
    obtain ⟨⟨i', a⟩, hg', rfl⟩ := hi
    obtain ⟨b, hb, rfl⟩ := hs
    obtain ⟨ha, rfl⟩ := mem_groupOf.1 (List.mem_of_getElem? hg')
    -- the element stands in its group at one place only
    have hrank : r = (l.take i').countP fun a' => key a' = key a := by
      have hlt : r < (groupOf key (key a) l).length := (List.getElem?_eq_some_iff.1 hg').1
      apply (List.getElem?_inj hlt ((nodup_map_fst_groupOf key (key a) l).of_map _)).1
      rw [hg', getElem?_groupOf key ha]
    rw [map_snd_groupOf, hrank] at hb
    exact ⟨a, b, ha, hb, rfl⟩
  · rintro ⟨a, b, ha, hb, rfl⟩
    have hg := getElem?_groupOf key ha
    refine List.mem_flatMap.2 ⟨(key a, groupOf key (key a) l), ?_, ?_⟩
    · exact mem_toList_groupByKey.2 ⟨rfl, List.ne_nil_of_mem (List.mem_of_getElem? hg)⟩
    · apply List.mem_of_getElem?
      rw [List.getElem?_zip_eq_some]
      constructor
      · rw [List.getElem?_map, hg]
        rfl
      · rw [List.getElem?_map, map_snd_groupOf, hb]
        rfl

theorem nodup_map_fst_writesOf (key : α → κ) (answer : κ → List α → List β) (l : List α) :
    ((writesOf key answer l).map Prod.fst).Nodup := by
  have hsub : ∀ group : κ × List (ℕ × α), (((group.2.map Prod.fst).zip
      ((answer group.1 (group.2.map Prod.snd)).map some)).map Prod.fst).Sublist
        (group.2.map Prod.fst) := by
    intro group
    exact sublist_map_fst_zip _ _
  rw [writesOf, List.map_flatMap, List.nodup_flatMap]
  constructor
  · rintro ⟨k, group⟩ hg
    obtain ⟨rfl, -⟩ := mem_toList_groupByKey.1 hg
    exact (hsub _).nodup (nodup_map_fst_groupOf key k l)
  · -- groups of different keys have no index in common
    apply (Std.TreeMap.distinct_keys_toList (t := groupByKey key l)).imp_of_mem
    rintro ⟨k, group⟩ ⟨k', group'⟩ hg hg' hne i hi hi'
    obtain ⟨rfl, -⟩ := mem_toList_groupByKey.1 hg
    obtain ⟨rfl, -⟩ := mem_toList_groupByKey.1 hg'
    obtain ⟨⟨j, a⟩, ha, rfl⟩ := List.mem_map.1 ((hsub _).subset hi)
    obtain ⟨⟨j', a'⟩, ha', hj⟩ := List.mem_map.1 ((hsub _).subset hi')
    obtain ⟨hla, rfl⟩ := mem_groupOf.1 ha
    obtain ⟨hla', rfl⟩ := mem_groupOf.1 ha'
    obtain rfl : j' = j := hj
    obtain rfl : a = a' := Option.some.inj (hla.symm.trans hla')
    exact hne Std.ReflCmp.compare_self

/-- Every index is in range, and gets what its group has for its element. -/
theorem scatterGroups_eq (key : α → κ) (answer : κ → List α → List β) (l : List α) :
    scatterGroups key answer l = some (l.mapIdx fun i a =>
      (answer (key a) (l.filter fun a' => key a' = key a))[
        (l.take i).countP fun a' => key a' = key a]?) := by
  have hlt : ∀ w ∈ writesOf key answer l, w.1 < (List.replicate l.length (none : Option β)).length
      := by
    rintro ⟨i, slot⟩ hw
    obtain ⟨a, b, ha, -⟩ := mem_writesOf.1 hw
    rw [List.length_replicate]
    exact (List.getElem?_eq_some_iff.1 ha).1
  obtain ⟨slots, h, hlen, hin, hout⟩ :=
    writeAll_spec (nodup_map_fst_writesOf key answer l) hlt
  rw [scatterGroups, foldlM_writeAll, ← writesOf, h]
  congr 1
  apply List.ext_getElem?
  intro i
  rw [List.getElem?_mapIdx]
  cases ha : l[i]? with
  | none =>
    rw [Option.map_none, List.getElem?_eq_none_iff, hlen, List.length_replicate]
    exact List.getElem?_eq_none_iff.1 ha
  | some a =>
    rw [Option.map_some]
    cases hb : (answer (key a) (l.filter fun a' => key a' = key a))[
        (l.take i).countP fun a' => key a' = key a]? with
    | some b => exact hin (i, some b) (mem_writesOf.2 ⟨a, b, ha, hb, rfl⟩)
    | none =>
      have hno : i ∉ (writesOf key answer l).map Prod.fst := by
        intro hm
        obtain ⟨⟨i', slot⟩, hw, rfl⟩ := List.mem_map.1 hm
        obtain ⟨a', b, ha', hb', -⟩ := mem_writesOf.1 hw
        obtain rfl : a = a' := Option.some.inj (ha.symm.trans ha')
        rw [hb] at hb'
        cases hb'
      rw [hout i hno, List.getElem?_replicate, if_pos (List.getElem?_eq_some_iff.1 ha).1]

end Group

end Scatter
