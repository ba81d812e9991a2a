import Mathlib.Algebra.Order.Group.Defs
import Mathlib.Algebra.Order.Sub.Unbundled.Basic
import Mathlib.Data.List.TakeWhile
import Mathlib.Order.WithBot
import Mathlib.Tactic.Abel

/-! # Sliding windows over an admission log

A reference limiter keeps the time of every admission of every scope and
admits a call when its scope has fewer than the limit of them in the closed
window that ends at the call. A queue that forgets times older than the window
tracks such a log: pruned at a later instant, it is the part of the log inside
the window.
-/

namespace SlidingWindow

variable {κ τ : Type*}

/-- The logged times of one scope, in the order of admission. -/
def times [DecidableEq κ] (log : List (κ × τ)) (k : κ) : List τ :=
  (log.filter fun e => e.1 = k).map Prod.snd

@[simp] theorem times_nil [DecidableEq κ] (k : κ) : times ([] : List (κ × τ)) k = [] := rfl

theorem times_append [DecidableEq κ] (log log' : List (κ × τ)) (k : κ) :
    times (log ++ log') k = times log k ++ times log' k := by
  simp [times, List.filter_append]

@[simp] theorem times_concat_self [DecidableEq κ] (log : List (κ × τ)) (k : κ) (t : τ) :
    times (log ++ [(k, t)]) k = times log k ++ [t] := by
  simp [times, List.filter_append]

theorem times_concat_of_ne [DecidableEq κ] (log : List (κ × τ)) {k l : κ} (t : τ) (h : l ≠ k) :
    times (log ++ [(l, t)]) k = times log k := by
  simp [times, List.filter_append, h]

def within [LE τ] [DecidableLE τ] (lo hi : τ) (ts : List τ) : List τ :=
  ts.filter fun x => lo ≤ x ∧ x ≤ hi

variable [AddCommGroup τ] [LinearOrder τ]

section Reference

variable [DecidableEq κ] (limit : κ → Option ℕ) (w : τ)

/-- The answer to a call: whether it is admitted and, under an active limit,
the limit and the number of further admissions left in the window. -/
structure Verdict where
  admitted : Bool
  quota : Option (ℕ × ℕ)
  deriving DecidableEq, Repr

/-- The number of admissions of a scope in the closed window that ends at an instant. -/
def load (log : List (κ × τ)) (k : κ) (t : τ) : ℕ :=
  (within (t - w) t (times log k)).length

/-- A scope without a limit admits everything; a limited one counts its window. -/
def verdict (log : List (κ × τ)) (k : κ) (t : τ) : Verdict :=
  match limit k with
  | none => ⟨true, none⟩
  | some n =>
    if load w log k t < n then ⟨true, some (n, n - 1 - load w log k t)⟩
    else ⟨false, some (n, 0)⟩

/-- Admissions under an active limit enter the log; nothing else does. -/
def record (log : List (κ × τ)) (k : κ) (t : τ) : List (κ × τ) :=
  match limit k with
  | none => log
  | some n => if load w log k t < n then log ++ [(k, t)] else log

/-- The verdicts on a run of calls, and the log at its end. -/
def run (log : List (κ × τ)) : List (κ × τ) → List Verdict × List (κ × τ)
  | [] => ([], log)
  | (k, t) :: calls =>
    let rest := run (record limit w log k t) calls
    (verdict limit w log k t :: rest.1, rest.2)

variable {limit w}

theorem times_record_of_ne (log : List (κ × τ)) {k l : κ} (t : τ) (h : l ≠ k) :
    times (record limit w log l t) k = times log k := by
  unfold record
  split
  · rfl
  · split
    · exact times_concat_of_ne log t h
    · rfl

variable (limit w) in
theorem record_eq_append (log : List (κ × τ)) (k : κ) (t : τ) :
    ∃ more, record limit w log k t = log ++ more ∧
      (limit k ≠ none → (verdict limit w log k t).admitted → times more k = [t]) := by
  unfold record verdict
  cases hk : limit k with
  | none => exact ⟨[], (List.append_nil log).symm, fun h => absurd rfl h⟩
  | some n =>
    by_cases hlt : load w log k t < n
    · refine ⟨[(k, t)], if_pos hlt, fun _ _ => ?_⟩
      exact times_concat_self [] k t
    · refine ⟨[], (if_neg hlt).trans (List.append_nil log).symm, fun _ h => ?_⟩
      dsimp only at h
      rw [if_neg hlt] at h
      cases h

theorem verdict_congr {log log' : List (κ × τ)} {k : κ} (h : times log k = times log' k)
    (t : τ) : verdict limit w log k t = verdict limit w log' k t := by
  unfold verdict load
  rw [h]

theorem times_record_congr {log log' : List (κ × τ)} {k : κ} (h : times log k = times log' k)
    (t : τ) : times (record limit w log k t) k = times (record limit w log' k t) k := by
  have hl : load w log k t = load w log' k t := by rw [load, load, h]
  unfold record
  split
  · exact h
  · rw [hl]
    split
    · rw [times_concat_self, times_concat_self, h]
    · exact h

theorem mem_times_record {log : List (κ × τ)} {k l : κ} {t x : τ}
    (h : x ∈ times (record limit w log l t) k) : x ∈ times log k ∨ (l = k ∧ x = t) := by
  by_cases hk : l = k
  · subst l
    unfold record at h
    split at h
    · exact Or.inl h
    · split at h
      · simpa using h
      · exact Or.inl h
  · rw [times_record_of_ne log t hk] at h
    exact Or.inl h

/-- No closed interval of the window's length holds more admissions than the limit. -/
def Bounded (limit : κ → Option ℕ) (w : τ) (log : List (κ × τ)) : Prop :=
  ∀ k n, limit k = some n → ∀ a, (within a (a + w) (times log k)).length ≤ n

theorem bounded_nil : Bounded limit w ([] : List (κ × τ)) := by
  intro k n _ a
  simp [within]

variable [IsOrderedAddMonoid τ]

theorem length_within_le_load {log : List (κ × τ)} {k : κ} {a t : τ}
    (ht : ∀ x ∈ times log k, x ≤ t) (ha : t ≤ a + w) :
    (within a (a + w) (times log k)).length ≤ load w log k t := by
  simp only [load, within, ← List.countP_eq_length_filter]
  apply List.countP_mono_left
  intro x hx h
  simp only [decide_eq_true_eq] at h ⊢
  exact ⟨(sub_le_iff_le_add.mpr ha).trans h.1, ht x hx⟩

/-- An admission keeps the bound: an interval that holds the new time lies
inside the window the verdict counted, as far as earlier times go. -/
theorem Bounded.record {log : List (κ × τ)} (hb : Bounded limit w log) {l : κ} {t : τ}
    (ht : ∀ x ∈ times log l, x ≤ t) : Bounded limit w (record limit w log l t) := by
  intro k n hn a
  by_cases hk : l = k
  · subst l
    simp only [SlidingWindow.record, hn]
    split
    · next hlt =>
      rw [times_concat_self, within, List.filter_append, List.length_append]
      by_cases hin : a ≤ t ∧ t ≤ a + w
      · have hle := length_within_le_load (w := w) ht hin.2
        have hone : ([t].filter fun x => decide (a ≤ x ∧ x ≤ a + w)).length ≤ 1 :=
          List.length_filter_le ..
        unfold within at hle
        omega
      · have he : ([t].filter fun x => decide (a ≤ x ∧ x ≤ a + w)) = [] := by simp [hin]
        rw [he, List.length_nil, Nat.add_zero]
        exact hb k n hn a
    · exact hb k n hn a
  · rw [times_record_of_ne log t hk]
    exact hb k n hn a

theorem bounded_run {log calls : List (κ × τ)} (hb : Bounded limit w log)
    (hl : ∀ c ∈ calls, ∀ x ∈ times log c.1, x ≤ c.2)
    (hc : calls.Pairwise fun c d => c.1 = d.1 → c.2 ≤ d.2) :
    Bounded limit w (run limit w log calls).2 := by
  induction calls generalizing log with
  | nil => exact hb
  | cons c calls ih =>
    obtain ⟨k, t⟩ := c
    rw [List.pairwise_cons] at hc
    refine ih (hb.record (hl (k, t) List.mem_cons_self)) ?_ hc.2
    intro d hd x hx
    rcases mem_times_record hx with hx | ⟨hk, rfl⟩
    · exact hl d (List.mem_cons_of_mem _ hd) x hx
    · exact hc.1 d hd hk

end Reference

/-! ## Queues that forget -/

section Queue

variable {w : τ} {last : WithBot τ} {ts window : List τ}

/-- A queue tracks a sorted list of times when it is a suffix of it that misses only
times which the last reading, if there was one, already put outside the window. -/
structure Tracks (w : τ) (last : WithBot τ) (ts window : List τ) : Prop where
  sorted : ts.Pairwise (· ≤ ·)
  le_last : ∀ x ∈ ts, (x : WithBot τ) ≤ last
  forgets : ∃ old, ts = old ++ window ∧ ∀ x ∈ old, ((x + w : τ) : WithBot τ) < last

theorem tracks_nil : Tracks w last [] [] :=
  ⟨List.Pairwise.nil, by simp, [], rfl, by simp⟩

theorem Tracks.later {last' : WithBot τ} (h : Tracks w last ts window) (hl : last ≤ last') :
    Tracks w last' ts window := by
  obtain ⟨old, he, ho⟩ := h.forgets
  exact ⟨h.sorted, fun x hx => (h.le_last x hx).trans hl, old, he,
    fun x hx => (ho x hx).trans_le hl⟩

theorem Tracks.window_sorted (h : Tracks w last ts window) : window.Pairwise (· ≤ ·) := by
  obtain ⟨old, he, _⟩ := h.forgets
  have hs := h.sorted
  rw [he, List.pairwise_append] at hs
  exact hs.2.1

omit [AddCommGroup τ] in
theorem dropWhile_lt_eq_filter {c : τ} {l : List τ} (h : l.Pairwise (· ≤ ·)) :
    l.dropWhile (· < c) = l.filter (c ≤ ·) := by
  induction l with
  | nil => rfl
  | cons x l ih =>
    rw [List.pairwise_cons] at h
    by_cases hx : x < c
    · rw [List.dropWhile_cons_of_pos (by simpa using hx),
        List.filter_cons_of_neg (by simpa using hx), ih h.2]
    · rw [List.dropWhile_cons_of_neg (by simpa using hx), List.filter_eq_self.mpr]
      intro y hy
      rw [not_lt] at hx
      rcases List.mem_cons.mp hy with rfl | hy
      · simpa using hx
      · simpa using hx.trans (h.1 y hy)

variable [IsOrderedAddMonoid τ]

theorem Tracks.prune {t : τ} (h : Tracks w last ts window) (hl : last ≤ t) :
    Tracks w t ts (window.dropWhile (· < t - w)) := by
  obtain ⟨old, he, ho⟩ := h.forgets
  refine ⟨h.sorted, fun x hx => (h.le_last x hx).trans hl,
    old ++ window.takeWhile (· < t - w), ?_, ?_⟩
  · rw [List.append_assoc, List.takeWhile_append_dropWhile, he]
  · intro x hx
    rcases List.mem_append.mp hx with hx | hx
    · exact (ho x hx).trans_le hl
    · have hlt := List.mem_takeWhile_imp hx
      rw [decide_eq_true_eq, lt_sub_iff_add_lt] at hlt
      exact WithBot.coe_lt_coe.mpr hlt

/-- A pruned queue is the part of the log inside the window. -/
theorem Tracks.prune_eq {t : τ} (h : Tracks w last ts window) (hl : last ≤ t) :
    window.dropWhile (· < t - w) = within (t - w) t ts := by
  obtain ⟨old, he, ho⟩ := h.forgets
  have hold : old.filter (fun x => decide (t - w ≤ x ∧ x ≤ t)) = [] := by
    rw [List.filter_eq_nil_iff]
    intro x hx hin
    rw [decide_eq_true_eq] at hin
    have hlt := WithBot.coe_lt_coe.mp ((ho x hx).trans_le hl)
    exact absurd (sub_le_iff_le_add.mp hin.1) hlt.not_ge
  rw [dropWhile_lt_eq_filter h.window_sorted, within, he, List.filter_append, hold,
    List.nil_append]
  apply List.filter_congr
  intro x hx
  have hle : x ≤ t := WithBot.coe_le_coe.mp
    ((h.le_last x (by rw [he]; exact List.mem_append_right _ hx)).trans hl)
  simp [hle]

omit [IsOrderedAddMonoid τ] in
theorem Tracks.push {t : τ} (h : Tracks w (t : WithBot τ) ts window) :
    Tracks w (t : WithBot τ) (ts ++ [t]) (window ++ [t]) := by
  obtain ⟨old, he, ho⟩ := h.forgets
  refine ⟨?_, ?_, old, by rw [he, List.append_assoc], ho⟩
  · rw [List.pairwise_append]
    refine ⟨h.sorted, List.pairwise_singleton .., ?_⟩
    rintro x hx y hy
    rw [List.mem_singleton.mp hy]
    exact WithBot.coe_le_coe.mp (h.le_last x hx)
  · intro x hx
    rcases List.mem_append.mp hx with hx | hx
    · exact h.le_last x hx
    · rw [List.mem_singleton.mp hx]

end Queue

end SlidingWindow
