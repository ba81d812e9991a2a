import AlbionApi.Server.Invariant
import Mathlib.Data.List.GetD

/-! # The stored setting follows the provider

An update persists its URL and swaps the provider under one write lock, and
stops before the first of the two when anything fails. So between two holders
of the write lock the setting is the provider's URL, that of the last holder
that got as far as the swap.
-/

namespace AlbionApi.Server

variable {ι K : Type}

def Task.update : Task K → Option (String × PutPhase)
  | reader _ => none
  | put url phase => some (url, phase)

def State.updates (s : State ι K) (i : ι) : Option (String × PutPhase) :=
  (s.tasks i).bind Task.update

section Updates

variable {s s' : State ι K} {i j : ι} {url : String} {phase : PutPhase} {o : Outcome}

theorem updates_eq_some :
    s.updates i = some (url, phase) ↔ s.tasks i = some (.put url phase) := by
  rw [State.updates, Option.bind_eq_some_iff]
  constructor
  · rintro ⟨t, ht, hu⟩
    cases t with
    | reader r => cases hu
    | put url' phase' =>
      cases hu
      exact ht
  · intro h
    exact ⟨_, h, rfl⟩

variable [DecidableEq ι]

theorem updates_eq_update (ht : s'.tasks = Function.update s.tasks i (some (.put url phase))) :
    s'.updates = Function.update s.updates i (some (url, phase)) := by
  ext j
  rw [State.updates, ht]
  by_cases hj : j = i
  · rw [hj, Function.update_self, Function.update_self]
    rfl
  · rw [Function.update_of_ne hj, Function.update_of_ne hj]
    rfl

variable [DecidableEq K]

theorem Task.update_wake (slot : Slot K) (success : Bool) (t : Task K) :
    (t.wake slot success).update = t.update := by
  rcases Task.wake_cases slot success t with hw | ⟨r, skipError, rfl, -, hw | hw⟩ <;> rw [hw]
  · rfl
  · rfl

theorem updates_stepReader {r : Reader K} (hi : s.tasks i = some (.reader r))
    (hs : s.stepReader i r o = some s') : s'.updates = s.updates := by
  obtain ⟨⟨r', hr'⟩, hj⟩ := tasks_stepReader hi hs
  funext j
  by_cases hji : j = i
  · rw [hji, State.updates, State.updates, hr', hi]
    rfl
  · rcases hj j hji with ht | ⟨slot, success, ht⟩
    · rw [State.updates, State.updates, ht]
    · rw [State.updates, State.updates, ht]
      cases s.tasks j with
      | none => rfl
      | some t => exact Task.update_wake slot success t

end Updates

/-- Past its check the URL is not empty, and a loaded provider has it. -/
def PutPhase.LoadedFrom (url : String) : PutPhase → Prop
  | check | finished false => True
  | write p | setSetting p | assign p => url ≠ "" ∧ p.registryUrl = url
  | _ => url ≠ ""

/-- The update may have had the write lock. -/
def PutPhase.Past : PutPhase → Prop
  | check | read | dbPath | load | write _ => False
  | _ => True

/-- The URL of an update that has swapped the provider. -/
def installedUrl : String × PutPhase → Option String
  | (url, .dropGuard _) | (url, .invalidate _ _) | (url, .finished true) => some url
  | _ => none

/-- The URLs of the updates that had the write lock and succeed, in the order of the lock. -/
def State.installed (s : State ι K) : List String :=
  s.writers.filterMap fun i => (s.updates i).bind installedUrl

namespace PutPhase.Quiet

variable {url : String} {phase phase' : PutPhase}

theorem loadedFrom (h : phase.Quiet url phase') (hl : phase.LoadedFrom url) :
    phase'.LoadedFrom url := by
  cases h with
  | empty | loadFailed | unwind => trivial
  | check named => exact named
  | load orderbooks => exact ⟨hl, rfl⟩
  | persistFailed p => exact hl.1
  | read | dbPath | dropGuard | invalidate | done => exact hl

theorem ne_assign (h : phase.Quiet url phase') (p : RaindexProvider) :
    phase ≠ .assign p ∧ phase' ≠ .assign p := by
  cases h <;> simp

theorem past (h : phase.Quiet url phase') (hp : phase.Past) : phase'.Past := by
  cases h <;> trivial

theorem guard (h : phase.Quiet url phase') (hg : phase'.guard = some .write) :
    phase.guard = some .write := by
  cases h <;> first | rfl | cases hg

theorem installedUrl_eq (h : phase.Quiet url phase') :
    installedUrl (url, phase') = installedUrl (url, phase) := by
  cases h <;> rfl

end PutPhase.Quiet

variable [DecidableEq ι]

theorem updates_cases {i j : ι} {updates updates' : ι → Option (String × PutPhase)}
    {url url' : String} {phase phase' : PutPhase}
    (hu : updates' = Function.update updates i (some (url, phase')))
    (hj : updates' j = some (url', phase)) :
    j = i ∧ url' = url ∧ phase = phase' ∨ j ≠ i ∧ updates j = some (url', phase) := by
  rw [hu] at hj
  by_cases hji : j = i
  · rw [hji, Function.update_self, Option.some.injEq, Prod.mk.injEq] at hj
    exact Or.inl ⟨hji, hj.1.symm, hj.2.symm⟩
  · rw [Function.update_of_ne hji] at hj
    exact Or.inr ⟨hji, hj⟩

/-- All that a step does to the updates. -/
theorem updates_step [DecidableEq K] {s s' : State ι K} {e : Event ι K}
    (hs : step s e = some s') : s'.updates = s.updates ∨
      (∃ i url, e = .arrive i (.putRegistry url) ∧ s.updates i = none ∧
        s'.updates = Function.update s.updates i (some (url, .check))) ∨
      ∃ i o url phase phase', e = .run i o ∧ s.updates i = some (url, phase) ∧
        phase.Moves url o phase' ∧
        s'.updates = Function.update s.updates i (some (url, phase')) := by
  cases e with
  | arrive i request =>
    obtain ⟨hi, rfl⟩ := step_arrive hs
    have hnone : s.updates i = none := by
      rw [State.updates, hi]
      rfl
    cases request with
    | putRegistry url => exact Or.inr (Or.inl ⟨i, url, rfl, hnone, updates_eq_update rfl⟩)
    | _ =>
      refine Or.inl (funext fun j => ?_)
      change (Function.update s.tasks i _ j).bind Task.update = s.updates j
      by_cases hj : j = i
      · rw [hj, hnone, Function.update_self]
        rfl
      · rw [Function.update_of_ne hj]
        rfl
  | run i o =>
    rcases stepTask_eq_some.1 hs with ⟨r, hi, -, hs⟩ | ⟨url, phase, hi, hs⟩
    · exact Or.inl (updates_stepReader hi hs)
    · rcases moves_stepPut hs with ht | ⟨phase', ht, hm⟩
      · exact Or.inl (funext fun j => by rw [State.updates, State.updates, ht])
      · exact Or.inr (Or.inr ⟨i, o, url, phase, phase', rfl, updates_eq_some.2 hi, hm,
          updates_eq_update ht⟩)
  | evict slot =>
    obtain rfl := Option.some.inj hs
    exact Or.inl rfl

theorem installed_update {s s' : State ι K} {i : ι} {u : String × PutPhase}
    (hw : s'.writers = s.writers) (hu : s'.updates = Function.update s.updates i (some u))
    (hinst : installedUrl u = (s.updates i).bind installedUrl) : s'.installed = s.installed := by
  rw [State.installed, State.installed, hw, hu]
  apply List.filterMap_congr
  intro j _
  by_cases hji : j = i
  · rw [hji, Function.update_self, ← hinst]
    rfl
  · rw [Function.update_of_ne hji]

structure State.Settled (url₀ : String) (s : State ι K) : Prop where
  coherent : s.Coherent
  loaded : ∀ i url phase, s.updates i = some (url, phase) → phase.LoadedFrom url
  agree : (∀ i url p, s.updates i ≠ some (url, .assign p)) →
    s.setting = some s.provider.registryUrl
  pending : ∀ i url p, s.updates i = some (url, .assign p) → s.setting = some url
  nodup : s.writers.Nodup
  past : ∀ i ∈ s.writers, ∃ url phase, s.updates i = some (url, phase) ∧ phase.Past
  last : ∀ i url phase, s.updates i = some (url, phase) → phase.guard = some .write →
    s.writers.getLast? = some i
  installed : s.installed.getLastD url₀ = s.provider.registryUrl

namespace State.Settled

variable {s s' : State ι K} {i j : ι} {url url₀ : String} {phase phase' : PutPhase} {o : Outcome}

theorem of_same (h : s.Settled url₀) (hc : s'.Coherent) (hu : s'.updates = s.updates)
    (hs : SameRegistry s s') : s'.Settled url₀ where
  coherent := hc
  loaded := by
    rw [hu]
    exact h.loaded
  agree := by
    rw [hu, hs.setting, hs.provider]
    exact h.agree
  pending := by
    rw [hu, hs.setting]
    exact h.pending
  nodup := by
    rw [hs.writers]
    exact h.nodup
  past := by
    rw [hu, hs.writers]
    exact h.past
  last := by
    rw [hu, hs.writers]
    exact h.last
  installed := by
    rw [State.installed, hu, hs.writers, hs.provider]
    exact h.installed

/-- A step that changes one update and no writer, by what it owes of that update and of the
registry. -/
theorem of_update (h : s.Settled url₀) (hc : s'.Coherent)
    (hu : s'.updates = Function.update s.updates i (some (url, phase')))
    (hw : s'.writers = s.writers) (hl : phase'.LoadedFrom url)
    (hpast : i ∈ s.writers → phase'.Past)
    (hlast : phase'.guard = some .write → s.writers.getLast? = some i)
    (hagree : (∀ j url p, s'.updates j ≠ some (url, .assign p)) →
      s'.setting = some s'.provider.registryUrl)
    (hpending : ∀ j url p, s'.updates j = some (url, .assign p) → s'.setting = some url)
    (hinst : s'.installed.getLastD url₀ = s'.provider.registryUrl) : s'.Settled url₀ where
  coherent := hc
  loaded j url' phase hj := by
    rcases updates_cases hu hj with ⟨-, rfl, rfl⟩ | ⟨-, hj⟩
    · exact hl
    · exact h.loaded j url' phase hj
  agree := hagree
  pending := hpending
  nodup := by
    rw [hw]
    exact h.nodup
  past j hj := by
    rw [hw] at hj
    rw [hu]
    by_cases hji : j = i
    · rw [hji, Function.update_self]
      exact ⟨url, phase', rfl, hpast (hji ▸ hj)⟩
    · rw [Function.update_of_ne hji]
      exact h.past j hj
  last j url' phase hj hg := by
    rw [hw]
    rcases updates_cases hu hj with ⟨rfl, rfl, rfl⟩ | ⟨-, hj⟩
    · exact hlast hg
    · exact h.last j url' phase hj hg
  installed := hinst

theorem agree_update (h : s.Settled url₀)
    (hu : s'.updates = Function.update s.updates i (some (url, phase')))
    (hset : s'.setting = s.setting) (hprov : s'.provider = s.provider)
    (hn : ∀ url p, s.updates i ≠ some (url, .assign p)) (hn' : ∀ p, phase' ≠ .assign p) :
    ((∀ j url p, s'.updates j ≠ some (url, .assign p)) →
      s'.setting = some s'.provider.registryUrl) ∧
    ∀ j url p, s'.updates j = some (url, .assign p) → s'.setting = some url := by
  rw [hset, hprov]
  constructor
  · intro hnone
    apply h.agree
    intro j url' p hj
    have hji : j ≠ i := by
      rintro rfl
      exact hn url' p hj
    apply hnone j url' p
    rw [hu, Function.update_of_ne hji]
    exact hj
  · intro j url' p hj
    rcases updates_cases hu hj with ⟨-, -, hp⟩ | ⟨-, hj⟩
    · exact absurd hp.symm (hn' p)
    · exact h.pending j url' p hj

theorem advance (h : s.Settled url₀) (hc : s'.Coherent) (hi : s.updates i = some (url, phase))
    (hu : s'.updates = Function.update s.updates i (some (url, phase')))
    (hw : s'.writers = s.writers) (hset : s'.setting = s.setting)
    (hprov : s'.provider = s.provider) (hm : phase.Quiet url phase') : s'.Settled url₀ := by
  obtain ⟨hagree, hpending⟩ := h.agree_update hu hset hprov
    (fun url' p hj => (hm.ne_assign p).1 (by rw [hi] at hj; exact (Prod.mk.inj
      (Option.some.inj hj)).2)) fun p => (hm.ne_assign p).2
  refine h.of_update hc hu hw (hm.loadedFrom (h.loaded i url phase hi)) ?_
    (fun hg => h.last i url phase hi (hm.guard hg)) hagree hpending ?_
  · intro hmem
    obtain ⟨url', phase₁, hj, hp⟩ := h.past i hmem
    rw [hi, Option.some.injEq, Prod.mk.injEq] at hj
    exact hm.past (hj.2 ▸ hp)
  · rw [hprov, installed_update hw hu (by rw [hi, Option.bind_some, hm.installedUrl_eq])]
    exact h.installed

theorem arrive (h : s.Settled url₀) (hc : s'.Coherent) (hi : s.updates i = none)
    (hu : s'.updates = Function.update s.updates i (some (url, .check)))
    (hs : SameRegistry s s') : s'.Settled url₀ := by
  obtain ⟨hagree, hpending⟩ := h.agree_update hu hs.setting hs.provider
    (fun url' p hj => by rw [hi] at hj; cases hj) fun p hp => by cases hp
  refine h.of_update hc hu hs.writers trivial ?_ (fun hg => by cases hg) hagree hpending ?_
  · intro hmem
    obtain ⟨url', phase, hj, -⟩ := h.past i hmem
    rw [hi] at hj
    cases hj
  · rw [hs.provider, installed_update hs.writers hu (by rw [hi]; rfl)]
    exact h.installed

theorem lockWrite {p : RaindexProvider} (h : s.Settled url₀) (hc : s'.Coherent)
    (hi : s.updates i = some (url, .write p))
    (hu : s'.updates = Function.update s.updates i (some (url, .setSetting p)))
    (hprov : s'.provider = s.provider) (hset : s'.setting = s.setting)
    (hw : s'.writers = s.writers ++ [i]) : s'.Settled url₀ := by
  have hmem : i ∉ s.writers := by
    intro hm
    obtain ⟨url', phase, hj, hp⟩ := h.past i hm
    rw [hi, Option.some.injEq, Prod.mk.injEq] at hj
    rw [← hj.2] at hp
    exact hp
  obtain ⟨hagree, hpending⟩ := h.agree_update hu hset hprov
    (fun url' p' hj => by rw [hi] at hj; cases hj) fun p' hp => by cases hp
  refine ⟨hc, ?_, hagree, hpending, ?_, ?_, ?_, ?_⟩
  · intro j url' phase hj
    rcases updates_cases hu hj with ⟨-, rfl, rfl⟩ | ⟨-, hj⟩
    · exact h.loaded i url' (.write p) hi
    · exact h.loaded j url' phase hj
  · rw [hw, ← List.concat_eq_append]
    exact List.Nodup.concat hmem h.nodup
  · intro j hj
    rw [hu]
    by_cases hji : j = i
    · rw [hji, Function.update_self]
      exact ⟨url, _, rfl, trivial⟩
    · rw [Function.update_of_ne hji]
      rw [hw, List.mem_append, List.mem_singleton] at hj
      exact h.past j (hj.resolve_right hji)
  · intro j url' phase hj hg
    have hwi : s'.tasks i = some (.put url (.setSetting p)) :=
      updates_eq_some.1 (by rw [hu, Function.update_self])
    rw [hc.writer_unique (updates_eq_some.1 hj) hg hwi rfl, hw, List.getLast?_concat]
  · have he : s'.installed = s.installed := by
      rw [State.installed, State.installed, hw, List.filterMap_append, hu]
      simp only [List.filterMap_cons, Function.update_self, Option.bind_some, installedUrl,
        List.filterMap_nil, List.append_nil]
      apply List.filterMap_congr
      intro j hj
      rw [Function.update_of_ne (by rintro rfl; exact hmem hj)]
    rw [he, hprov]
    exact h.installed

theorem setSetting {p : RaindexProvider} (h : s.Settled url₀) (hc : s'.Coherent)
    (hi : s.updates i = some (url, .setSetting p))
    (hu : s'.updates = Function.update s.updates i (some (url, .assign p)))
    (hprov : s'.provider = s.provider) (hset : s'.setting = some url)
    (hw : s'.writers = s.writers) : s'.Settled url₀ := by
  refine h.of_update hc hu hw (h.loaded i url (.setSetting p) hi) (fun _ => trivial)
    (fun _ => h.last i url _ hi rfl) ?_ ?_ ?_
  · intro hn
    exact absurd (by rw [hu, Function.update_self]) (hn i url p)
  · intro j url' p' hj
    rw [hset]
    rcases updates_cases hu hj with ⟨-, rfl, -⟩ | ⟨hji, hj⟩
    · rfl
    · exact absurd (h.coherent.writer_unique (updates_eq_some.1 hj) rfl (updates_eq_some.1 hi) rfl)
        hji
  · rw [hprov, installed_update hw hu (by rw [hi]; rfl)]
    exact h.installed

theorem assign {p : RaindexProvider} {n : ℕ} (h : s.Settled url₀) (hc : s'.Coherent)
    (hi : s.updates i = some (url, .assign p))
    (hu : s'.updates = Function.update s.updates i (some (url, .dropGuard n)))
    (hprov : s'.provider = p) (hset : s'.setting = s.setting)
    (hw : s'.writers = s.writers) : s'.Settled url₀ := by
  obtain ⟨hne, hurl⟩ : url ≠ "" ∧ p.registryUrl = url := h.loaded i url _ hi
  refine h.of_update hc hu hw hne (fun _ => trivial) (fun _ => h.last i url _ hi rfl) ?_ ?_ ?_
  · intro _
    rw [hset, hprov, hurl]
    exact h.pending i url p hi
  · intro j url' p' hj
    rcases updates_cases hu hj with ⟨-, -, hp⟩ | ⟨hji, hj⟩
    · cases hp
    · exact absurd (h.coherent.writer_unique (updates_eq_some.1 hj) rfl (updates_eq_some.1 hi) rfl)
        hji
  · -- the update is the last writer, so its URL is the last one installed
    obtain ⟨ws, hws⟩ := List.getLast?_eq_some_iff.1 (h.last i url _ hi rfl)
    have hlast : s'.installed =
        (ws.filterMap fun j => (s'.updates j).bind installedUrl) ++ [url] := by
      rw [State.installed, hw, hws, List.filterMap_append, hu]
      simp only [List.filterMap_cons, Function.update_self, Option.bind_some, installedUrl,
        List.filterMap_nil]
    rw [hlast, hprov, hurl, List.getLastD_concat]

theorem stepPut (h : s.Settled url₀) (hi : s.tasks i = some (.put url phase))
    (hs : s.stepPut i url phase o = some s') : s'.Settled url₀ := by
  have hc := h.coherent.stepPut hi hs
  have hu := updates_eq_some.2 hi
  rcases stepPut_cases hs with ⟨hsame, -, ht | ⟨phase', ht, hm, -⟩⟩ | ⟨p, s₁, rfl, hs₁, hq, rfl⟩ |
    ⟨p, rfl, rfl⟩ | ⟨p, rfl, rfl⟩ | ⟨n, c, cs, rfl, rfl⟩
  · exact h.of_same hc (funext fun j => by rw [State.updates, State.updates, ht]) hsame
  · exact h.advance hc hu (updates_eq_update ht) hsame.writers hsame.setting hsame.provider hm
  · have hsame := (SameRegistry.acquire hs₁).1
    have ht := ((tasks_acquire hs₁).resolve_left fun h => h.1 hq).2
    exact h.lockWrite hc hu (updates_eq_update ht) hsame.provider hsame.setting rfl
  · exact h.setSetting hc hu (updates_eq_update rfl) rfl rfl rfl
  · exact h.assign hc hu (updates_eq_update rfl) rfl rfl rfl
  · exact h.advance hc hu (updates_eq_update rfl) rfl rfl rfl (.invalidate n c cs)

variable [DecidableEq K]

theorem step {e : Event ι K} (h : s.Settled url₀) (hs : step s e = some s') :
    s'.Settled url₀ := by
  have hc := h.coherent.step hs
  cases e with
  | arrive i request =>
    have hsame : SameRegistry s s' := by
      obtain ⟨-, rfl⟩ := step_arrive hs
      exact ⟨rfl, rfl, rfl, rfl, rfl, rfl⟩
    rcases updates_step hs with hu | ⟨j, url, -, hnone, hu⟩ | ⟨j, o, url, phase, phase', he, -⟩
    · exact h.of_same hc hu hsame
    · exact h.arrive hc hnone hu hsame
    · cases he
  | run i o =>
    rcases stepTask_eq_some.1 hs with ⟨r, hi, -, hs⟩ | ⟨url, phase, hi, hs⟩
    · exact h.of_same hc (updates_stepReader hi hs) (SameRegistry.stepReader hs)
    · exact h.stepPut hi hs
  | evict slot =>
    obtain rfl := Option.some.inj hs
    exact h.of_same hc rfl ⟨rfl, rfl, rfl, rfl, rfl, rfl⟩

end State.Settled

theorem settled_init (provider : RaindexProvider)
    (directTrades : Option DirectTrades.DirectTradesFetcher) :
    (init provider (some provider.registryUrl) directTrades : State ι K).Settled
      provider.registryUrl where
  coherent := coherent_init provider _ directTrades
  loaded _ _ _ h := by cases h
  agree _ := rfl
  pending _ _ _ h := by cases h
  nodup := List.nodup_nil
  past _ h := by cases h
  last _ _ _ h := by cases h
  installed := rfl

theorem State.Settled.setting_eq {url₀ : String} {s : State ι K} (h : s.Settled url₀)
    (hw : s.lock.writer = none) : s.setting = some s.provider.registryUrl := by
  apply h.agree
  intro i url p hi
  have hh : s.lock.holds i = some .write := by
    rw [h.coherent.holds, updates_eq_some.1 hi]
    rfl
  rw [FairLock.holds_eq_write.1 hh] at hw
  cases hw

theorem State.Settled.installed_ne_empty {url₀ : String} {s : State ι K} (h : s.Settled url₀)
    {url : String} (hm : url ∈ s.installed) : url ≠ "" := by
  obtain ⟨i, -, hi⟩ := List.mem_filterMap.1 hm
  obtain ⟨⟨url', phase⟩, hu, hinst⟩ := Option.bind_eq_some_iff.1 hi
  have hl := h.loaded i url' phase hu
  cases phase with
  | dropGuard n | invalidate n cs => exact Option.some.inj hinst ▸ hl
  | finished ok =>
    cases ok with
    | true => exact Option.some.inj hinst ▸ hl
    | false => cases hinst
  | _ => cases hinst

theorem settled_of_run [DecidableEq K] {provider : RaindexProvider}
    {directTrades : Option DirectTrades.DirectTradesFetcher} {events : List (Event ι K)}
    {s : State ι K}
    (hr : Runs.run step (init provider (some provider.registryUrl) directTrades) events = some s) :
    s.Settled provider.registryUrl :=
  Runs.invariant (fun _ _ _ h hs => h.step hs) hr (settled_init provider directTrades)

/-! ## Updates that fail -/

/-- The update can no longer fail. -/
def PutPhase.Committed : PutPhase → Prop
  | assign _ | dropGuard _ | invalidate _ _ | finished true => True
  | _ => False

variable [DecidableEq K] {s s' : State ι K} {i : ι} {url : String} {phase : PutPhase}

theorem PutPhase.Moves.committed {phase' : PutPhase} {o : Outcome}
    (h : phase.Moves url o phase') (hp : phase.Committed) : phase'.Committed := by
  cases h with
  | quiet hq _ =>
    cases hq with
    | dropGuard | invalidate | done => trivial
    | _ => exact hp.elim
  | write p => exact hp.elim
  | persist p | assign p n => trivial

theorem committed_step {e : Event ι K} (hi : s.tasks i = some (.put url phase))
    (hp : phase.Committed) (hs : step s e = some s') :
    ∃ phase', s'.tasks i = some (.put url phase') ∧ phase'.Committed := by
  rw [← updates_eq_some] at hi
  simp only [← updates_eq_some]
  rcases updates_step hs with hu | ⟨j, url', -, hnone, hu⟩ | ⟨j, o, url', phase', phase'', -, hj,
    hm, hu⟩
  · exact ⟨phase, hu ▸ hi, hp⟩
  · have hij : i ≠ j := by
      rintro rfl
      rw [hi] at hnone
      cases hnone
    exact ⟨phase, by rw [hu, Function.update_of_ne hij, hi], hp⟩
  · by_cases hij : i = j
    · subst hij
      rw [hi] at hj
      cases hj
      exact ⟨phase'', by rw [hu, Function.update_self], hm.committed hp⟩
    · exact ⟨phase, by rw [hu, Function.update_of_ne hij, hi], hp⟩

theorem committed_of_change {o : Outcome} (hi : s.tasks i = some (.put url phase))
    (hs : step s (.run i o) = some s')
    (hn : ¬ (s'.provider = s.provider ∧ s'.setting = s.setting ∧ s'.caches = s.caches)) :
    ∃ phase', s'.tasks i = some (.put url phase') ∧ phase'.Committed := by
  rcases stepTask_eq_some.1 hs with ⟨r, hi', -, -⟩ | ⟨url', phase', hi', hs⟩
  · rw [hi] at hi'
    cases hi'
  · rw [hi] at hi'
    cases hi'
    rcases stepPut_cases hs with ⟨hsame, hc, -⟩ | ⟨p, s₁, -, hs₁, -, rfl⟩ | ⟨p, -, rfl⟩ |
      ⟨p, -, rfl⟩ | ⟨n, c, cs, -, rfl⟩
    · exact absurd ⟨hsame.provider, hsame.setting, hc⟩ hn
    · obtain ⟨hsame, hc⟩ := SameRegistry.acquire hs₁
      exact absurd ⟨hsame.provider, hsame.setting, hc⟩ hn
    · exact ⟨_, Function.update_self _ _ _, trivial⟩
    · exact ⟨_, Function.update_self _ _ _, trivial⟩
    · exact ⟨_, Function.update_self _ _ _, trivial⟩

theorem reader_step {e : Event ι K} (hi : ∃ r, s.tasks i = some (.reader r))
    (hs : step s e = some s') : ∃ r, s'.tasks i = some (.reader r) := by
  obtain ⟨r, hi⟩ := hi
  cases e with
  | arrive j request =>
    obtain ⟨hj, rfl⟩ := step_arrive hs
    have hij : i ≠ j := by
      rintro rfl
      rw [hi] at hj
      cases hj
    exact ⟨r, (Function.update_of_ne hij _ _).trans hi⟩
  | run j o =>
    rcases stepTask_eq_some.1 hs with ⟨r', hj, -, hs⟩ | ⟨url', phase', hj, hs⟩
    · obtain ⟨hself, hother⟩ := tasks_stepReader hj hs
      by_cases hij : i = j
      · exact hij ▸ hself
      · rcases hother i hij with ht | ⟨slot, success, ht⟩
        · exact ⟨r, ht.trans hi⟩
        · rw [ht, hi]
          rcases Task.wake_cases slot success (.reader r) with hw | ⟨r₁, -, -, -, hw | hw⟩
          · exact ⟨r, congrArg some hw⟩
          · exact ⟨_, congrArg some hw⟩
          · exact ⟨_, congrArg some hw⟩
    · have hij : i ≠ j := by
        rintro rfl
        rw [hi] at hj
        cases hj
      rcases moves_stepPut hs with ht | ⟨phase'', ht, -⟩
      · exact ⟨r, by rw [ht, hi]⟩
      · exact ⟨r, by rw [ht, Function.update_of_ne hij, hi]⟩
  | evict slot =>
    obtain rfl := Option.some.inj hs
    exact ⟨r, hi⟩

/-- An update that ends with an error has changed nothing in any of its steps. -/
theorem unchanged_of_failed {s₁ s₂ : State ι K} {o : Outcome} {after : List (Event ι K)}
    (hs : step s₁ (.run i o) = some s₂) (hafter : Runs.run step s₂ after = some s)
    (hi : s.tasks i = some (.put url (.finished false))) :
    s₂.provider = s₁.provider ∧ s₂.setting = s₁.setting ∧ s₂.caches = s₁.caches := by
  by_contra hn
  rcases stepTask_eq_some.1 hs with ⟨r, hi₁, -, hs₁⟩ | ⟨url', phase, hi₁, -⟩
  · obtain ⟨r', hr'⟩ := Runs.invariant (P := fun s => ∃ r, s.tasks i = some (.reader r))
      (fun _ _ _ h hs => reader_step h hs) hafter (tasks_stepReader hi₁ hs₁).1
    rw [hi] at hr'
    cases hr'
  · obtain ⟨phase', ht, hp⟩ := Runs.invariant
      (P := fun s => ∃ phase', s.tasks i = some (.put url' phase') ∧ phase'.Committed)
      (fun _ _ _ ⟨_, h, hp⟩ hs => committed_step h hp hs) hafter (committed_of_change hi₁ hs hn)
    rw [hi] at ht
    cases ht
    exact hp

/-- Whenever nobody holds the write lock, the stored setting is the provider's URL, that of the
last update to get the lock and succeed; an update that fails has changed nothing. -/
theorem setting_settled {provider : RaindexProvider}
    {directTrades : Option DirectTrades.DirectTradesFetcher} {events : List (Event ι K)}
    (hr : Runs.run step (init provider (some provider.registryUrl) directTrades) events = some s) :
    (s.lock.writer = none → s.setting = some s.provider.registryUrl ∧
      s.provider.registryUrl = s.installed.getLastD provider.registryUrl) ∧
    ∀ before i o after s₁ s₂ url, events = before ++ .run i o :: after →
      Runs.run step (init provider (some provider.registryUrl) directTrades) before = some s₁ →
      step s₁ (.run i o) = some s₂ → s.tasks i = some (.put url (.finished false)) →
      s₂.provider = s₁.provider ∧ s₂.setting = s₁.setting ∧ s₂.caches = s₁.caches := by
  have h := settled_of_run hr
  refine ⟨fun hw => ⟨h.setting_eq hw, h.installed.symm⟩, ?_⟩
  rintro before i o after s₁ s₂ url rfl hbefore hs hi
  obtain ⟨s₁', hbefore', hrest⟩ := Runs.run_append_eq_some.1 hr
  rw [hbefore] at hbefore'
  cases hbefore'
  obtain ⟨s₂', hs', hafter⟩ := Runs.run_cons_eq_some.1 hrest
  rw [hs] at hs'
  cases hs'
  exact unchanged_of_failed hs hafter hi

def updateAndFailure : List (Event ℕ ℕ) :=
  alone 0 (.putRegistry "b") (List.replicate 19 (.loaded [])) ++
    alone 1 (.putRegistry "c") (List.replicate 7 (.loaded []) ++ [.error, .ok])

theorem setting_settled_failure : ∃ s : State ℕ ℕ,
    Runs.run step (init ⟨"a", []⟩ (some "a") none) updateAndFailure = some s ∧
    s.tasks 1 = some (.put "c" (.finished false)) ∧ s.setting = some "b" ∧
    s.setting = some s.provider.registryUrl ∧
    s.provider.registryUrl = s.installed.getLastD "a" := by
  refine ⟨_, (Option.some_get (by decide)).symm, by decide, by decide, ?_⟩
  exact (setting_settled (Option.some_get (by decide)).symm).1 (by decide)

end AlbionApi.Server
