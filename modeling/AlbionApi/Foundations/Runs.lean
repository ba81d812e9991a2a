import Mathlib.Data.Option.Basic

/-! # Runs of an event system

An event system takes a state and an event to the next state, or refuses the
event. What one event preserves, every run preserves, be it without condition
or under one that each event of the run meets where it happens.
-/

namespace Runs

variable {σ ε : Type*} (step : σ → ε → Option σ)

/-- The state after a list of events, if none of them is refused. -/
def run (s : σ) : List ε → Option σ
  | [] => some s
  | e :: es => (step s e).bind fun s' => run s' es

/-- Every event of a run meets a condition in the state in which it happens. -/
def Meets (C : σ → ε → Prop) (s : σ) : List ε → Prop
  | [] => True
  | e :: es => C s e ∧ ∀ s', step s e = some s' → Meets C s' es

variable {step} {C : σ → ε → Prop} {P : σ → Prop} {s t : σ} {e : ε} {es es' : List ε}

@[simp] theorem run_nil : run step s [] = some s := rfl

theorem run_cons_eq_some :
    run step s (e :: es) = some t ↔ ∃ s', step s e = some s' ∧ run step s' es = some t := by
  rw [run, Option.bind_eq_some_iff]

theorem run_append_eq_some : run step s (es ++ es') = some t ↔
    ∃ s', run step s es = some s' ∧ run step s' es' = some t := by
  induction es generalizing s with
  | nil => simp
  | cons e es ih =>
    rw [List.cons_append, run_cons_eq_some]
    simp only [ih, run_cons_eq_some]
    constructor
    · rintro ⟨s₁, h₁, s₂, h₂, h₃⟩
      exact ⟨s₂, ⟨s₁, h₁, h₂⟩, h₃⟩
    · rintro ⟨s₂, ⟨s₁, h₁, h₂⟩, h₃⟩
      exact ⟨s₁, h₁, s₂, h₂, h₃⟩

/-- What every event preserves, every run preserves. -/
theorem invariant (h : ∀ s e s', P s → step s e = some s' → P s')
    (hr : run step s es = some t) (hs : P s) : P t := by
  induction es generalizing s with
  | nil =>
    rw [run_nil, Option.some.injEq] at hr
    exact hr ▸ hs
  | cons e es ih =>
    obtain ⟨s', he, hr⟩ := run_cons_eq_some.1 hr
    exact ih hr (h s e s' hs he)

theorem invariant_history {P : List ε → σ → Prop}
    (h : ∀ es s e s', P es s → step s e = some s' → P (es ++ [e]) s')
    (hr : run step s es' = some t) (hs : P es s) : P (es ++ es') t := by
  induction es' generalizing s es with
  | nil =>
    obtain rfl := Option.some.inj hr
    rwa [List.append_nil]
  | cons e es' ih =>
    obtain ⟨s', hstep, hr⟩ := run_cons_eq_some.1 hr
    rw [List.append_cons]
    exact ih hr (h es s e s' hs hstep)

/-- What every event under a condition preserves, every run that meets it preserves. -/
theorem invariant_of_meets (h : ∀ s e s', P s → C s e → step s e = some s' → P s')
    (hm : Meets step C s es) (hr : run step s es = some t) (hs : P s) : P t := by
  induction es generalizing s with
  | nil =>
    rw [run_nil, Option.some.injEq] at hr
    exact hr ▸ hs
  | cons e es ih =>
    obtain ⟨s', he, hr⟩ := run_cons_eq_some.1 hr
    exact ih (hm.2 s' he) hr (h s e s' hs hm.1 he)

theorem meets_append : Meets step C s (es ++ es') ↔
    Meets step C s es ∧ ∀ s', run step s es = some s' → Meets step C s' es' := by
  induction es generalizing s with
  | nil => simp [Meets]
  | cons e es ih =>
    simp only [List.cons_append, Meets, ih, run_cons_eq_some]
    constructor
    · rintro ⟨hc, h⟩
      exact ⟨⟨hc, fun s' hs => (h s' hs).1⟩, fun u ⟨s', hs, hu⟩ => (h s' hs).2 u hu⟩
    · rintro ⟨⟨hc, h⟩, h'⟩
      exact ⟨hc, fun s' hs => ⟨h s' hs, fun u hu => h' u ⟨s', hs, hu⟩⟩⟩

theorem Meets.of_forall_mem {D : ε → Prop} (h : ∀ e ∈ es, D e) :
    Meets step (fun _ e => D e) s es := by
  induction es generalizing s with
  | nil => trivial
  | cons e es ih =>
    exact ⟨h e List.mem_cons_self, fun _ _ => ih fun e' he => h e' (List.mem_cons_of_mem _ he)⟩

theorem Meets.of_invariant {D : σ → ε → Prop}
    (h : ∀ s e s', P s → D s e → step s e = some s' → P s') (hc : ∀ s e, P s → D s e → C s e)
    (hm : Meets step D s es) (hs : P s) : Meets step C s es := by
  induction es generalizing s with
  | nil => trivial
  | cons e es ih =>
    exact ⟨hc s e hs hm.1, fun s' he => ih (hm.2 s' he) (h s e s' hs hm.1 he)⟩

/-! ## Runs with outputs -/

section Outputs

variable {ω : Type*} {out : σ → ε → Option (ω × σ)}

/-- The outputs of a run whose events each give one. -/
inductive Traced (out : σ → ε → Option (ω × σ)) (s : σ) : List ω → σ → Prop
  | nil : Traced out s [] s
  | snoc {os : List ω} {t u : σ} {e : ε} {o : ω} (h : Traced out s os t)
      (step : out t e = some (o, u)) : Traced out s (os ++ [o]) u

def outputs (out : σ → ε → Option (ω × σ)) (s : σ) : List ε → Option (List ω × σ)
  | [] => some ([], s)
  | e :: es => (out s e).bind fun (o, t) => (outputs out t es).map fun (os, u) => (o :: os, u)

variable {os os' : List ω} {o : ω} {u : σ}

theorem Traced.invariant {P : List ω → σ → Prop} (h : Traced out s os t) (h₀ : P [] s)
    (hs : ∀ os t e o u, P os t → out t e = some (o, u) → P (os ++ [o]) u) : P os t := by
  induction h with
  | nil => exact h₀
  | snoc _ step ih => exact hs _ _ _ _ _ ih step

theorem traced_nil_iff : Traced out s [] t ↔ s = t := by
  constructor
  · intro h
    generalize hos : ([] : List ω) = os at h
    cases h with
    | nil => rfl
    | snoc _ _ => simp at hos
  · rintro rfl
    exact .nil

theorem Traced.append (h : Traced out s os t) (h' : Traced out t os' u) :
    Traced out s (os ++ os') u := by
  induction h' with
  | nil => rwa [List.append_nil]
  | snoc _ step ih =>
    rw [← List.append_assoc]
    exact ih.snoc step

theorem traced_of_outputs (h : outputs out s es = some (os, u)) : Traced out s os u := by
  induction es generalizing s os with
  | nil =>
    cases h
    exact .nil
  | cons e es ih =>
    obtain ⟨⟨o, t⟩, step, h⟩ := Option.bind_eq_some_iff.1 h
    obtain ⟨⟨os', u'⟩, hrest, h⟩ := Option.map_eq_some_iff.1 h
    cases h
    exact (Traced.nil.snoc step).append (ih hrest)

theorem traced_append_iff : Traced out s (os ++ os') u ↔
    ∃ t, Traced out s os t ∧ Traced out t os' u := by
  constructor
  · intro h
    generalize hall : os ++ os' = all at h
    induction h generalizing os' with
    | nil =>
      obtain ⟨rfl, rfl⟩ := List.append_eq_nil_iff.1 hall
      exact ⟨s, .nil, .nil⟩
    | @snoc done t' u' e' o' hdone step ih =>
      rcases List.eq_nil_or_concat os' with rfl | ⟨init, last, rfl⟩
      · rw [List.append_nil] at hall
        subst hall
        exact ⟨u', hdone.snoc step, .nil⟩
      · rw [List.concat_eq_append] at hall ⊢
        rw [← List.append_assoc] at hall
        obtain ⟨hinit, rfl⟩ := List.append_singleton_inj.1 hall
        obtain ⟨t, ht, htail⟩ := ih hinit
        exact ⟨t, ht, htail.snoc step⟩
  · rintro ⟨t, ht, hu⟩
    exact ht.append hu

theorem Traced.split (h : Traced out s (os ++ o :: os') u) : ∃ t e t',
    Traced out s os t ∧ out t e = some (o, t') ∧ Traced out t' os' u := by
  rw [List.append_cons] at h
  obtain ⟨t', hall, hrest⟩ := traced_append_iff.1 h
  generalize hseen : os ++ [o] = seen at hall
  cases hall with
  | nil => simp at hseen
  | snoc hos step =>
    obtain ⟨rfl, rfl⟩ := List.append_singleton_inj.1 hseen
    exact ⟨_, _, t', hos, step, hrest⟩

end Outputs

end Runs
