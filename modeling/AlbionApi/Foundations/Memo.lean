import AlbionApi.Foundations.Runs
import Mathlib.Logic.Function.Basic

/-! # Programs over a memo table

Programs share a table of computed values. They look entries up and insert what
they compute, in any interleaving, and entries are evicted at any time. If every
inserted value is the computed one, nobody can tell the table from an empty one.
-/

namespace Memo

/-- A program that looks up and inserts entries of a table and then gives an answer. -/
inductive Prog (K : Type*) (V : K → Type*) (A : Type*)
  | done (a : A)
  | get (k : K) (next : Option (V k) → Prog K V A)
  | insert (k : K) (v : V k) (next : Prog K V A)

section Programs

variable {K A : Type*} {V : K → Type*}

/-- Every entry of a table is the computed value. -/
def Correct (compute table : ∀ k, Option (V k)) : Prop :=
  ∀ k v, table k = some v → compute k = some v

/-- Whatever correct entries a program finds, it inserts computed values and gives the answer. -/
inductive Prog.Settles (compute : ∀ k, Option (V k)) (a : A) : Prog K V A → Prop
  | done : Settles compute a (.done a)
  | get {k : K} {next : Option (V k) → Prog K V A} (hmiss : Settles compute a (next none))
      (hhit : ∀ v, compute k = some v → Settles compute a (next (some v))) :
      Settles compute a (.get k next)
  | insert {k : K} {v : V k} {next : Prog K V A} (hv : compute k = some v)
      (hnext : Settles compute a next) : Settles compute a (.insert k v next)

variable [DecidableEq K] {compute table : ∀ k, Option (V k)}

def Prog.run : Prog K V A → (∀ k, Option (V k)) → A × ∀ k, Option (V k)
  | .done a, table => (a, table)
  | .get k next, table => (next (table k)).run table
  | .insert k v next, table => next.run (Function.update table k (some v))

omit [DecidableEq K] in
theorem correct_empty : Correct compute fun _ => none := by
  intro k v h
  cases h

theorem Correct.update (h : Correct compute table) {k : K} {v : V k} (hv : compute k = some v) :
    Correct compute (Function.update table k (some v)) := by
  intro k' v' hk
  by_cases he : k' = k
  · subst he
    rw [Function.update_self] at hk
    exact hk ▸ hv
  · rw [Function.update_of_ne he] at hk
    exact h k' v' hk

omit [DecidableEq K] in
theorem Correct.retain (h : Correct compute table) (keep : K → Bool) :
    Correct compute fun k => if keep k then table k else none := by
  intro k v hk
  dsimp only at hk
  split at hk
  · exact h k v hk
  · cases hk

omit [DecidableEq K] in
theorem Prog.Settles.lookup {a : A} {k : K} {next : Option (V k) → Prog K V A}
    (h : Settles compute a (.get k next)) (ht : Correct compute table) :
    Settles compute a (next (table k)) := by
  cases h with
  | get hmiss hhit =>
    cases hk : table k with
    | none => exact hmiss
    | some v => exact hhit v (ht k v hk)

theorem Prog.Settles.run {a : A} {p : Prog K V A} (h : p.Settles compute a)
    (ht : Correct compute table) : (p.run table).1 = a ∧ Correct compute (p.run table).2 := by
  induction p generalizing table with
  | done a' =>
    cases h
    exact ⟨rfl, ht⟩
  | get k next ih => exact ih _ (h.lookup ht) ht
  | insert k v next ih =>
    cases h with
    | insert hv hnext => exact ih hnext (ht.update hv)

end Programs

/-! ## Interleaved programs -/

section Interleaved

variable {K A R ι : Type*} {V : K → Type*}

structure State (ι R K : Type*) (V : K → Type*) (A : Type*) where
  table : ∀ k, Option (V k)
  running : ι → Option (R × Prog K V A)

def State.initial : State ι R K V A := ⟨fun _ => none, fun _ => none⟩

inductive Event (ι R K : Type*)
  | start (i : ι) (r : R)
  | step (i : ι)
  | evict (keep : K → Bool)

variable [DecidableEq K] [DecidableEq ι] (handler : R → Prog K V A)

/-- One operation of one program, which may give the answer to its request. -/
def serve (s : State ι R K V A) : Event ι R K → Option (Option (R × A) × State ι R K V A)
  | .start i r =>
    match s.running i with
    | none => some (none, { s with running := Function.update s.running i (some (r, handler r)) })
    | some _ => none
  | .step i =>
    match s.running i with
    | none => none
    | some (r, .done a) =>
      some (some (r, a), { s with running := Function.update s.running i none })
    | some (r, .get k next) => some (none,
        { s with running := Function.update s.running i (some (r, next (s.table k))) })
    | some (r, .insert k v next) => some (none,
        { table := Function.update s.table k (some v)
          running := Function.update s.running i (some (r, next)) })
  | .evict keep => some (none, { s with table := fun k => if keep k then s.table k else none })

variable {compute : ∀ k, Option (V k)} {handler} {spec : R → A} {s t : State ι R K V A}

/-- The table is correct and every program gives the answer to its request. -/
structure State.Sound (compute : ∀ k, Option (V k)) (spec : R → A) (s : State ι R K V A) :
    Prop where
  table : Correct compute s.table
  running : ∀ i r p, s.running i = some (r, p) → p.Settles compute (spec r)

omit [DecidableEq K] in
theorem State.Sound.update {table : ∀ k, Option (V k)} (h : s.Sound compute spec)
    (ht : Correct compute table) (i : ι) {x : Option (R × Prog K V A)}
    (hx : ∀ r p, x = some (r, p) → p.Settles compute (spec r)) :
    State.Sound compute spec ⟨table, Function.update s.running i x⟩ where
  table := ht
  running j r p hj := by
    dsimp only at hj
    by_cases he : j = i
    · subst he
      rw [Function.update_self] at hj
      exact hx r p hj
    · rw [Function.update_of_ne he] at hj
      exact h.running j r p hj

/-- One operation keeps the state sound, and an answer is that of its request. -/
theorem State.Sound.serve (hh : ∀ r, (handler r).Settles compute (spec r))
    (h : s.Sound compute spec) {e : Event ι R K} {o : Option (R × A)}
    (hs : Memo.serve handler s e = some (o, t)) :
    t.Sound compute spec ∧ ∀ r a, o = some (r, a) → a = spec r := by
  cases e with
  | start i r =>
    simp only [Memo.serve] at hs
    split at hs
    · cases hs
      refine ⟨h.update h.table i fun r' p hp => ?_, by simp⟩
      cases hp
      exact hh r
    · cases hs
  | step i =>
    simp only [Memo.serve] at hs
    split at hs
    · cases hs
    · next r a hi =>
      cases hs
      refine ⟨h.update h.table i (by simp), fun r' a' ha => ?_⟩
      cases ha
      cases h.running i r _ hi
      rfl
    · next r k next hi =>
      cases hs
      refine ⟨h.update h.table i fun r' p hp => ?_, by simp⟩
      cases hp
      exact (h.running i r _ hi).lookup h.table
    · next r k v next hi =>
      cases hs
      cases h.running i r _ hi with
      | insert hv hnext =>
        refine ⟨h.update (h.table.update hv) i fun r' p hp => ?_, by simp⟩
        cases hp
        exact hnext
  | evict keep =>
    cases hs
    exact ⟨⟨h.table.retain keep, h.running⟩, by simp⟩

omit [DecidableEq K] [DecidableEq ι] in
theorem State.sound_initial : (State.initial : State ι R K V A).Sound compute spec :=
  ⟨correct_empty, by simp [State.initial]⟩

theorem State.Sound.run (hh : ∀ r, (handler r).Settles compute (spec r))
    (hs : s.Sound compute spec) {os : List (Option (R × A))}
    (hr : Runs.Traced (Memo.serve handler) s os t) :
    (∀ r a, some (r, a) ∈ os → a = spec r) ∧ t.Sound compute spec := by
  refine hr.invariant (P := fun os t => (∀ r a, some (r, a) ∈ os → a = spec r) ∧
    t.Sound compute spec) ⟨by simp, hs⟩ ?_
  rintro os t e o u ⟨hos, ht⟩ hstep
  obtain ⟨hu, ho⟩ := ht.serve hh hstep
  refine ⟨fun r a hm => ?_, hu⟩
  rcases List.mem_append.1 hm with hm | hm
  · exact hos r a hm
  · exact ho r a (List.mem_singleton.1 hm).symm

variable (handler) in
/-- A program that is left to itself gives an answer. -/
theorem exists_answer {i : ι} {r : R} {p : Prog K V A} (hi : s.running i = some (r, p)) :
    ∃ a n os t, Runs.outputs (Memo.serve handler) s (List.replicate n (.step i)) = some (os, t) ∧
      some (r, a) ∈ os := by
  induction p generalizing s with
  | done a =>
    refine ⟨a, 1, [some (r, a)], { s with running := Function.update s.running i none }, ?_,
      List.mem_singleton_self _⟩
    simp only [List.replicate_one, Runs.outputs, Memo.serve, hi, Option.bind_some, Option.map_some]
  | get k next ih =>
    obtain ⟨a, n, os, t, hrun, ha⟩ := ih (s.table k)
      (s := { s with running := Function.update s.running i (some (r, next (s.table k))) })
      (Function.update_self ..)
    refine ⟨a, n + 1, none :: os, t, ?_, List.mem_cons_of_mem _ ha⟩
    simp only [List.replicate_succ, Runs.outputs, Memo.serve, hi, Option.bind_some, hrun,
      Option.map_some]
  | insert k v next ih =>
    obtain ⟨a, n, os, t, hrun, ha⟩ := ih (s := ⟨Function.update s.table k (some v),
      Function.update s.running i (some (r, next))⟩) (Function.update_self ..)
    refine ⟨a, n + 1, none :: os, t, ?_, List.mem_cons_of_mem _ ha⟩
    simp only [List.replicate_succ, Runs.outputs, Memo.serve, hi, Option.bind_some, hrun,
      Option.map_some]

theorem State.Sound.exists_answer (hh : ∀ r, (handler r).Settles compute (spec r))
    (hs : s.Sound compute spec) {i : ι} {r : R} {p : Prog K V A}
    (hi : s.running i = some (r, p)) :
    ∃ n os t, Runs.outputs (Memo.serve handler) s (List.replicate n (.step i)) = some (os, t) ∧
      some (r, spec r) ∈ os := by
  obtain ⟨a, n, os, t, hrun, ha⟩ := Memo.exists_answer handler hi
  obtain rfl := (hs.run hh (Runs.traced_of_outputs hrun)).1 r a ha
  exact ⟨n, os, t, hrun, ha⟩

end Interleaved

end Memo
