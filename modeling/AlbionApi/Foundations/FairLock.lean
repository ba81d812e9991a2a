import Mathlib.Data.List.Nodup
import Mathlib.Logic.Function.Basic

/-! # A fair readers-writer lock

Requests queue in the order in which they come. The one in front is granted
as soon as what is held allows it, so that a reader waits behind a queued
writer even while other readers hold the lock.
-/

inductive LockMode where
  | read
  | write
  deriving DecidableEq, Repr

structure FairLock (ι : Type*) where
  readers : List ι
  writer : Option ι
  queue : List (ι × LockMode)

namespace FairLock

variable {ι : Type*} [DecidableEq ι]

def free : FairLock ι := ⟨[], none, []⟩

def holds (l : FairLock ι) (i : ι) : Option LockMode :=
  if l.writer = some i then some .write else if i ∈ l.readers then some .read else none

def queued (l : FairLock ι) (i : ι) : Prop := i ∈ l.queue.map Prod.fst

instance (l : FairLock ι) (i : ι) : Decidable (l.queued i) :=
  inferInstanceAs (Decidable (i ∈ l.queue.map Prod.fst))

def request (l : FairLock ι) (i : ι) (m : LockMode) : FairLock ι :=
  { l with queue := l.queue ++ [(i, m)] }

/-- Take the lock, which only the front of the queue can. -/
def grant (l : FairLock ι) (i : ι) : Option (FairLock ι) :=
  match l.queue with
  | [] => none
  | (j, .read) :: queue =>
    if j = i ∧ l.writer = none then
      some { l with readers := i :: l.readers, queue := queue }
    else none
  | (j, .write) :: queue =>
    if j = i ∧ l.writer = none ∧ l.readers = [] then
      some { l with writer := some i, queue := queue }
    else none

def dropRead (l : FairLock ι) (i : ι) : FairLock ι := { l with readers := l.readers.erase i }

def dropWrite (l : FairLock ι) : FairLock ι := { l with writer := none }

/-- Nobody holds or waits twice, and a writer excludes readers. -/
structure Valid (l : FairLock ι) : Prop where
  readers : l.readers.Nodup
  queue : (l.queue.map Prod.fst).Nodup
  apart : ∀ i, l.queued i → l.holds i = none
  exclusive : l.writer ≠ none → l.readers = []

variable {l l' : FairLock ι} {i j : ι} {m : LockMode}

theorem holds_eq_write : l.holds i = some .write ↔ l.writer = some i := by
  unfold holds
  split_ifs with hw hr <;> simp [hw]

theorem holds_eq_read (h : l.writer ≠ some i) : l.holds i = some .read ↔ i ∈ l.readers := by
  unfold holds
  rw [if_neg h]
  split_ifs with hr <;> simp [hr]

theorem Valid.holds_eq_read (h : l.Valid) : l.holds i = some .read ↔ i ∈ l.readers := by
  by_cases hw : l.writer = some i
  · have he := h.exclusive (by simp [hw])
    rw [holds_eq_write.2 hw, he]
    simp
  · exact FairLock.holds_eq_read hw

theorem holds_eq_none : l.holds i = none ↔ l.writer ≠ some i ∧ i ∉ l.readers := by
  unfold holds
  split_ifs with hw hr
  · simp [hw]
  · simp [hr]
  · simp [hw, hr]

theorem Valid.holds_ne_read (h : l.Valid) (hw : l.holds i = some .write) :
    l.holds j ≠ some .read := by
  rw [Ne, h.holds_eq_read, h.exclusive (by rw [holds_eq_write.1 hw]; exact Option.some_ne_none i)]
  exact List.not_mem_nil

theorem free_valid : (free : FairLock ι).Valid where
  readers := List.nodup_nil
  queue := List.nodup_nil
  apart _ h := by cases h
  exclusive h := absurd rfl h

theorem Valid.request (h : l.Valid) (hq : ¬ l.queued i) (hh : l.holds i = none) :
    (l.request i m).Valid where
  readers := h.readers
  queue := by
    have hn := List.Nodup.concat hq h.queue
    rw [List.concat_eq_append] at hn
    rw [FairLock.request, List.map_append]
    exact hn
  apart j hj := by
    rw [queued, FairLock.request, List.map_append, List.mem_append] at hj
    rcases hj with hj | hj
    · exact h.apart j hj
    · rw [List.mem_singleton.1 hj]
      exact hh
  exclusive := h.exclusive

theorem grant_eq_some (hg : l.grant i = some l') :
    (l.queue = (i, .read) :: l'.queue ∧ l.writer = none ∧ l'.writer = none ∧
      l'.readers = i :: l.readers) ∨
    (l.queue = (i, .write) :: l'.queue ∧ l.writer = none ∧ l.readers = [] ∧
      l'.writer = some i ∧ l'.readers = []) := by
  obtain ⟨readers, writer, queue⟩ := l
  unfold grant at hg
  match queue with
  | [] => cases hg
  | (j, .read) :: queue =>
    simp only at hg
    split_ifs at hg with hc
    obtain ⟨rfl, rfl⟩ := hc
    obtain rfl := Option.some.inj hg
    exact Or.inl ⟨rfl, rfl, rfl, rfl⟩
  | (j, .write) :: queue =>
    simp only at hg
    split_ifs at hg with hc
    obtain ⟨rfl, rfl, rfl⟩ := hc
    obtain rfl := Option.some.inj hg
    exact Or.inr ⟨rfl, rfl, rfl, rfl, rfl⟩

theorem grant_spec (hg : l.grant i = some l') : ∃ m, l.queue = (i, m) :: l'.queue ∧
    l'.holds = Function.update l.holds i (some m) ∧ l.writer = none ∧
    (m = .write → ∀ j, l.holds j = none) := by
  rcases grant_eq_some hg with ⟨hq, hw, hw', hr⟩ | ⟨hq, hw, hr, hw', hr'⟩
  · refine ⟨.read, hq, ?_, hw, by simp⟩
    funext j
    by_cases hj : j = i
    · rw [hj, Function.update_self, FairLock.holds_eq_read (by simp [hw']), hr]
      exact List.mem_cons_self
    · rw [Function.update_of_ne hj, holds, holds, hw, hw', hr]
      simp [hj]
  · refine ⟨.write, hq, ?_, hw, fun _ j => holds_eq_none.2 (by simp [hw, hr])⟩
    funext j
    by_cases hj : j = i
    · rw [hj, Function.update_self, holds_eq_write]
      exact hw'
    · rw [Function.update_of_ne hj, holds, holds, hw, hw', hr, hr']
      simp [Ne.symm hj]

theorem Valid.grant (h : l.Valid) (hg : l.grant i = some l') : l'.Valid := by
  have hq := h.queue
  obtain ⟨m, hqm, hh, -, -⟩ := grant_spec hg
  rw [hqm, List.map_cons, List.nodup_cons] at hq
  have hi : l.holds i = none := h.apart i (by simp [queued, hqm])
  have hapart : ∀ j, l'.queued j → l'.holds j = none := by
    intro j hj
    have hne : j ≠ i := by
      rintro rfl
      exact hq.1 hj
    rw [hh, Function.update_of_ne hne]
    apply h.apart j
    rw [queued, hqm]
    exact List.mem_cons_of_mem _ hj
  rcases grant_eq_some hg with ⟨-, hw, hw', hr⟩ | ⟨-, hw, hr, hw', hr'⟩
  · refine ⟨?_, hq.2, hapart, fun hn => absurd hw' hn⟩
    rw [hr]
    exact List.nodup_cons.2 ⟨(holds_eq_none.1 hi).2, h.readers⟩
  · refine ⟨?_, hq.2, hapart, fun _ => hr'⟩
    rw [hr']
    exact List.nodup_nil

/-- A queued request waits for those ahead of it and for those whose hold excludes it. -/
def BlockedBy (l : FairLock ι) (i j : ι) : Prop :=
  ∃ ahead m behind, l.queue = ahead ++ (i, m) :: behind ∧
    (j ∈ ahead.map Prod.fst ∨ l.holds j = some .write ∨ m = .write ∧ l.holds j = some .read)

theorem BlockedBy.queued (h : l.BlockedBy i j) : l.queued i := by
  obtain ⟨ahead, m, behind, hq, -⟩ := h
  simp [FairLock.queued, hq]

/-- Who blocks holds the lock, or is queued at a smaller place. -/
theorem Valid.blockedBy_cases (h : l.Valid) (hb : l.BlockedBy i j) :
    l.holds j ≠ none ∨
      l.queued j ∧ (l.queue.map Prod.fst).idxOf j < (l.queue.map Prod.fst).idxOf i := by
  obtain ⟨ahead, m, behind, hq, hj | hj | ⟨-, hj⟩⟩ := hb
  · have hn := h.queue
    rw [hq, List.map_append, List.map_cons] at hn
    have hi : i ∉ ahead.map Prod.fst := by
      intro hi
      exact (List.nodup_append.1 hn).2.2 i hi i List.mem_cons_self rfl
    refine Or.inr ⟨?_, ?_⟩
    · rw [FairLock.queued, hq, List.map_append]
      exact List.mem_append_left _ hj
    · rw [hq, List.map_append, List.map_cons, List.idxOf_append_of_mem hj,
        List.idxOf_append_of_notMem hi, List.idxOf_cons_self, Nat.add_zero]
      exact List.idxOf_lt_length_of_mem hj
  · exact Or.inl (by simp [hj])
  · exact Or.inl (by simp [hj])

theorem exists_blockedBy (hq : l.queued i) (hg : l.grant i = none) : ∃ j, l.BlockedBy i j := by
  obtain ⟨⟨i, m⟩, hm, rfl⟩ := List.mem_map.1 hq
  obtain ⟨ahead, behind, hs⟩ := List.append_of_mem hm
  cases ahead with
  | cons first ahead => exact ⟨first.1, _, m, behind, hs, Or.inl (by simp)⟩
  | nil =>
    rcases hwr : l.writer with _ | j
    · cases m with
      | read => simp [grant, hs, hwr] at hg
      | write =>
        rcases hr : l.readers with _ | ⟨j, readers⟩
        · simp [grant, hs, hwr, hr] at hg
        · refine ⟨j, [], .write, behind, hs, Or.inr (Or.inr ⟨rfl, ?_⟩)⟩
          rw [FairLock.holds_eq_read (by simp [hwr]), hr]
          exact List.mem_cons_self
    · exact ⟨j, [], m, behind, hs, Or.inr (Or.inl (holds_eq_write.2 hwr))⟩

theorem Valid.dropRead (h : l.Valid) : (l.dropRead i).Valid where
  readers := h.readers.erase i
  queue := h.queue
  apart j hj := by
    obtain ⟨hw, hr⟩ := holds_eq_none.1 (h.apart j hj)
    exact holds_eq_none.2 ⟨hw, fun hm => hr (List.mem_of_mem_erase hm)⟩
  exclusive hn := by
    rw [FairLock.dropRead, h.exclusive hn]
    rfl

theorem Valid.holds_dropRead (h : l.Valid) (hi : l.holds i = some .read) :
    (l.dropRead i).holds = Function.update l.holds i none := by
  have hw : l.writer ≠ some i := by
    intro hw
    rw [holds_eq_write.2 hw] at hi
    cases hi
  funext j
  by_cases hj : j = i
  · rw [hj, Function.update_self, holds_eq_none]
    exact ⟨hw, h.readers.not_mem_erase⟩
  · rw [Function.update_of_ne hj, holds, holds, FairLock.dropRead]
    simp only [List.mem_erase_of_ne hj]

theorem Valid.dropWrite (h : l.Valid) : l.dropWrite.Valid where
  readers := h.readers
  queue := h.queue
  apart j hj := by
    obtain ⟨-, hr⟩ := holds_eq_none.1 (h.apart j hj)
    exact holds_eq_none.2 ⟨by simp [FairLock.dropWrite], hr⟩
  exclusive hn := absurd rfl hn

theorem Valid.holds_dropWrite (h : l.Valid) (hi : l.holds i = some .write) :
    l.dropWrite.holds = Function.update l.holds i none := by
  have hw := holds_eq_write.1 hi
  have hr := h.exclusive (by simp [hw])
  funext j
  by_cases hj : j = i
  · rw [hj, Function.update_self, holds_eq_none]
    simp [FairLock.dropWrite, hr]
  · rw [Function.update_of_ne hj, holds, holds, FairLock.dropWrite, hw, hr]
    simp [Ne.symm hj]

end FairLock
