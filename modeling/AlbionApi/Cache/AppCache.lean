import Mathlib.Logic.Function.Basic
import Mathlib.Tactic.SplitIfs

/-! # The caches of the handlers

A cache holds at most one value a key. Reading through it computes a missing
value once and keeps it only on success.
-/

namespace AlbionApi

structure AppCache (K V : Type) where
  entries : K → Option V

namespace AppCache

variable {K V E : Type}

def new : AppCache K V := ⟨fun _ => none⟩

def get (c : AppCache K V) (key : K) : Option V := c.entries key

def insert [DecidableEq K] (c : AppCache K V) (key : K) (value : V) : AppCache K V :=
  ⟨Function.update c.entries key (some value)⟩

/-- `try_get_with`: a hit is returned as it is; a computed value is kept, an error is not. -/
def getOrTryInsert [DecidableEq K] (c : AppCache K V) (key : K) (fetch : Except E V) :
    Except E V × AppCache K V :=
  match c.get key with
  | some value => (.ok value, c)
  | none =>
    match fetch with
    | .ok value => (.ok value, c.insert key value)
    | .error e => (.error e, c)

@[simp] theorem get_insert_self [DecidableEq K] (c : AppCache K V) (key : K) (value : V) :
    (c.insert key value).get key = some value := by
  simp [get, insert]

theorem get_insert_of_ne [DecidableEq K] (c : AppCache K V) {key key' : K} (value : V)
    (h : key' ≠ key) : (c.insert key value).get key' = c.get key' := by
  simp [get, insert, h]

theorem fst_getOrTryInsert [DecidableEq K] (c : AppCache K V) (key : K) (fetch : Except E V) :
    (c.getOrTryInsert key fetch).1 = ((c.get key).map Except.ok).getD fetch := by
  unfold getOrTryInsert
  cases c.get key with
  | some value => rfl
  | none => cases fetch <;> rfl

/-- `try_get_with` of a computation that may panic, which leaves nothing behind. -/
def tryGetWith [DecidableEq K] (c : AppCache K V) (key : K) (fetch : Option (Except E V)) :
    Option (Except E V) × AppCache K V :=
  match c.get key, fetch with
  | some value, _ => (some (.ok value), c)
  | none, none => (none, c)
  | none, some result =>
    let read := c.getOrTryInsert key result
    (some read.1, read.2)

theorem tryGetWith_some [DecidableEq K] (c : AppCache K V) (key : K) (result : Except E V) :
    c.tryGetWith key (some result) =
      (some (c.getOrTryInsert key result).1, (c.getOrTryInsert key result).2) := by
  unfold tryGetWith getOrTryInsert
  cases c.get key <;> rfl

/-- An eviction keeps the entries of some keys only. -/
def retain (c : AppCache K V) (keep : K → Bool) : AppCache K V :=
  ⟨fun key => if keep key then c.entries key else none⟩

/-! ## Caches of a fixed computation -/

/-- Every entry is what the computation succeeds with for its key. -/
def Recomputes (c : AppCache K V) (compute : K → Option (Except E V)) : Prop :=
  ∀ key value, c.get key = some value → compute key = some (.ok value)

variable {c : AppCache K V} {compute : K → Option (Except E V)}

theorem recomputes_new : (new : AppCache K V).Recomputes compute := by
  intro key value h
  cases h

theorem Recomputes.retain (h : c.Recomputes compute) (keep : K → Bool) :
    (c.retain keep).Recomputes compute := by
  intro key value hk
  simp only [get, AppCache.retain] at hk
  split_ifs at hk
  exact h key value hk

theorem Recomputes.get_eq_none (h : c.Recomputes compute) {key : K}
    (hf : ∀ value, compute key ≠ some (.ok value)) : c.get key = none := by
  rw [Option.eq_none_iff_forall_ne_some]
  intro value hv
  exact hf value (h key value hv)

variable [DecidableEq K]

theorem Recomputes.fst_tryGetWith (h : c.Recomputes compute) (key : K) :
    (c.tryGetWith key (compute key)).1 = compute key := by
  unfold tryGetWith
  cases hc : c.get key with
  | some value => exact (h key value hc).symm
  | none =>
    cases compute key with
    | none => rfl
    | some result =>
      simp only [fst_getOrTryInsert, hc, Option.map_none, Option.getD_none]

theorem Recomputes.snd_tryGetWith (h : c.Recomputes compute) (key : K) :
    (c.tryGetWith key (compute key)).2.Recomputes compute := by
  unfold tryGetWith
  cases hc : c.get key with
  | some value => exact h
  | none =>
    cases hf : compute key with
    | none => exact h
    | some result =>
      cases result with
      | error e =>
        simp only [getOrTryInsert, hc]
        exact h
      | ok value =>
        simp only [getOrTryInsert, hc]
        intro key' value' hk
        by_cases hkey : key' = key
        · subst hkey
          rw [get_insert_self, Option.some.injEq] at hk
          rw [hf, hk]
        · rw [get_insert_of_ne c value hkey] at hk
          exact h key' value' hk

theorem Recomputes.tryGetWith_of_failed (h : c.Recomputes compute) {key : K}
    (hf : ∀ value, compute key ≠ some (.ok value)) :
    (c.tryGetWith key (compute key)).2 = c := by
  unfold tryGetWith
  rw [h.get_eq_none hf]
  cases hc : compute key with
  | none => rfl
  | some result =>
    cases result with
    | error e => simp only [getOrTryInsert, h.get_eq_none hf]
    | ok value => exact absurd hc (hf value)

/-- A key is read as its computation answers, and a failure leaves the cache as it is, with
no entry for the key. -/
theorem Recomputes.read (h : c.Recomputes compute) {key : K} {answer : Option (Except E V)}
    (ha : compute key = answer) :
    (c.tryGetWith key (compute key)).1 = answer ∧
      (c.tryGetWith key (compute key)).2.Recomputes compute ∧
      ((∀ value, answer ≠ some (.ok value)) →
        (c.tryGetWith key (compute key)).2 = c ∧ ¬ ∃ value, c.get key = some value) := by
  subst ha
  refine ⟨h.fst_tryGetWith key, h.snd_tryGetWith key, fun hf => ?_⟩
  constructor
  · exact h.tryGetWith_of_failed hf
  · rw [h.get_eq_none hf]
    simp

end AppCache

end AlbionApi
