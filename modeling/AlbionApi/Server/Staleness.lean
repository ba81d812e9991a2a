import AlbionApi.Server.Invariant

/-! # Stale entries

`invalidate_all` drops what the caches hold, not what is about to be inserted.
Routes that keep the guard around their cache call never insert late; order
detail and swap quote release it inside the call, so an update may invalidate
between their computation and their insertion.
-/

namespace AlbionApi.Server

variable {ι K : Type}

theorem le_update_max (invalidated : CacheName → ℕ) (c : CacheName) (n : ℕ) (c' : CacheName) :
    invalidated c' ≤ Function.update invalidated c (max (invalidated c) n) c' := by
  by_cases hcc : c' = c
  · rw [hcc, Function.update_self]
    exact le_max_left _ _
  · rw [Function.update_of_ne hcc]

/-- What a reader has computed is current under its guard, is as new as the invalidations of
the cache it is computed for, and is kept right after the guard's release. -/
structure Reader.Fresh (version : ℕ) (invalidated : CacheName → ℕ) (r : Reader K) : Prop where
  current : r.guard = true → ∀ v, r.value = some v → v = version
  pending : ∀ slot v, r.owns = some slot → r.value = some v → invalidated slot.1 ≤ v
  late : r.guard = false → ∀ slot v, r.owns = some slot → r.value = some v → Settles slot r.rest

def PutPhase.Fresh (version : ℕ) (invalidated : CacheName → ℕ) : PutPhase → Prop
  | dropGuard n => n ≤ version
  | invalidate n cs => n ≤ version ∧ ∀ c, c ∉ cs → n ≤ invalidated c
  | _ => True

def Task.Fresh (version : ℕ) (invalidated : CacheName → ℕ) : Task K → Prop
  | reader r => r.Fresh version invalidated
  | put _ phase => phase.Fresh version invalidated

section Fresh

variable {version : ℕ} {invalidated : CacheName → ℕ} {r : Reader K} {t : Task K}

theorem Reader.Fresh.of_value_eq_none (h : r.value = none) : r.Fresh version invalidated where
  current _ _ hv := by
    rw [h] at hv
    cases hv
  pending _ _ _ hv := by
    rw [h] at hv
    cases hv
  late _ _ _ _ hv := by
    rw [h] at hv
    cases hv

theorem Reader.Fresh.late_of_owns {r' : Reader K} (ho : r'.owns = none) :
    r'.guard = false → ∀ slot v, r'.owns = some slot → r'.value = some v →
      Settles slot r'.rest := by
  intro _ slot _ hs
  rw [ho] at hs
  cases hs

theorem Task.Fresh.wake [DecidableEq K] {slot : Slot K} {success : Bool}
    (h : t.Fresh version invalidated) (hd : t.Disciplined) :
    (t.wake slot success).Fresh version invalidated := by
  rcases Task.wake_cases slot success t with hw | ⟨r, skipError, rfl, hr, hw | hw⟩
  · rwa [hw]
  · rw [hw]
    exact ⟨h.current, h.pending, h.late⟩
  · rw [hw]
    exact ⟨h.current, h.pending, Reader.Fresh.late_of_owns (hd.waiter _ _ hr).1⟩

end Fresh

variable [DecidableEq ι] {s s' : State ι K} {i : ι} {o : Outcome}

/-- No cache, and no reader about to insert, has a value older than the last invalidation. -/
structure State.Fresh (s : State ι K) : Prop where
  coherent : s.Coherent
  updates : ∀ c, s.invalidated c ≤ s.version
  tasks : ∀ i t, s.tasks i = some t → t.Fresh s.version s.invalidated
  caches : ∀ slot v, s.caches slot = some v → s.invalidated slot.1 ≤ v

/-- An invalidation finds no reader that has computed for the cache from an older provider and
has released the guard before its insertion. -/
def ClearInvalidation (s : State ι K) : Event ι K → Prop
  | .run i _ => ∀ url n c cs, s.tasks i = some (.put url (.invalidate n (c :: cs))) →
    ∀ j r slot v, s.tasks j = some (.reader r) → r.guard = false → r.owns = some slot →
      slot.1 = c → r.value = some v → n ≤ v
  | _ => True

namespace State.Fresh

theorem of_same (h : s.Fresh) (hc : s'.Coherent) (hver : s'.version = s.version)
    (hinv : s'.invalidated = s.invalidated)
    (ht : ∀ j t, s'.tasks j = some t → t.Fresh s.version s.invalidated)
    (hv : ∀ slot v, s'.caches slot = some v → s.invalidated slot.1 ≤ v) : s'.Fresh where
  coherent := hc
  updates := by
    rw [hver, hinv]
    exact h.updates
  tasks := by
    rw [hver, hinv]
    exact ht
  caches := by
    rw [hinv]
    exact hv

theorem advancePut {url : String} {phase : PutPhase} (h : s.Fresh) (hc : s'.Coherent)
    (ht : s'.tasks = Function.update s.tasks i (some (.put url phase)))
    (hp : phase.Fresh s.version s.invalidated) (hver : s'.version = s.version)
    (hinv : s'.invalidated = s.invalidated) (hv : s'.caches = s.caches) : s'.Fresh :=
  h.of_same hc hver hinv (by rw [ht]; exact forall_update h.tasks hp) (by rw [hv]; exact h.caches)

theorem acquire {granted : Task K} {m : LockMode} (h : s.Fresh) (hc : s'.Coherent)
    (hs : s.acquire i m granted = some s') (hg : granted.Fresh s.version s.invalidated) :
    s'.Fresh := by
  obtain ⟨hsame, hcaches⟩ := SameRegistry.acquire hs
  refine h.of_same hc hsame.version hsame.invalidated ?_ (by rw [hcaches]; exact h.caches)
  unfold State.acquire at hs
  split_ifs at hs
  · obtain ⟨lock, -, rfl⟩ := Option.map_eq_some_iff.1 hs
    exact forall_update h.tasks hg
  · obtain rfl := Option.some.inj hs
    exact h.tasks

theorem assign {url : String} {p : RaindexProvider} (h : s.Fresh) (hc : s'.Coherent)
    (hi : s.tasks i = some (.put url (.assign p)))
    (hs : s.stepPut i url (.assign p) o = some s') : s'.Fresh := by
  obtain rfl := Option.some.inj hs
  refine ⟨hc, fun c => (h.updates c).trans (Nat.le_succ _), fun j t' hj => ?_, h.caches⟩
  by_cases hji : j = i
  · subst hji
    simp only [State.setTask, Function.update_self, Option.some.injEq] at hj
    subst hj
    exact le_rfl
  · simp only [State.setTask, Function.update_of_ne hji] at hj
    have hf := h.tasks j t' hj
    cases t' with
    | reader r =>
      refine ⟨fun hg => ?_, hf.pending, hf.late⟩
      rw [Coherent.guard_eq_false h.coherent hi rfl hj] at hg
      cases hg
    | put url' phase =>
      cases phase with
      | dropGuard n => exact Nat.le_succ_of_le hf
      | invalidate n cs => exact ⟨Nat.le_succ_of_le hf.1, hf.2⟩
      | _ => trivial

theorem invalidate {url : String} {n : ℕ} {c : CacheName} {cs : List CacheName} (h : s.Fresh)
    (hc : s'.Coherent) (hi : s.tasks i = some (.put url (.invalidate n (c :: cs))))
    (hclear : ClearInvalidation s (.run i o))
    (hs : s.stepPut i url (.invalidate n (c :: cs)) o = some s') : s'.Fresh := by
  obtain rfl := Option.some.inj hs
  obtain ⟨hn, hcs⟩ : n ≤ s.version ∧ ∀ c', c' ∉ c :: cs → n ≤ s.invalidated c' := h.tasks i _ hi
  have hle := le_update_max s.invalidated c n
  refine ⟨hc, fun c' => ?_, fun j t' hj => ?_, fun slot v hv => ?_⟩
  · by_cases hcc : c' = c
    · subst hcc
      simp only [State.setTask, State.invalidateAll, Function.update_self]
      exact max_le (h.updates c') hn
    · simp only [State.setTask, State.invalidateAll, Function.update_of_ne hcc]
      exact h.updates c'
  · by_cases hji : j = i
    · subst hji
      simp only [State.setTask, Function.update_self, Option.some.injEq] at hj
      subst hj
      refine ⟨hn, fun c' hc' => ?_⟩
      by_cases hcc : c' = c
      · subst hcc
        simp only [State.setTask, State.invalidateAll, Function.update_self]
        exact le_max_right _ _
      · exact (hcs c' (by simp [hcc, hc'])).trans (hle c')
    · simp only [State.setTask, State.invalidateAll, Function.update_of_ne hji] at hj
      have hf := h.tasks j t' hj
      cases t' with
      | reader r =>
        refine ⟨hf.current, fun slot v ho hv => ?_, hf.late⟩
        by_cases hcc : slot.1 = c
        · simp only [State.setTask, State.invalidateAll, hcc, Function.update_self]
          apply max_le (hcc ▸ hf.pending slot v ho hv)
          by_cases hg : r.guard = true
          · rw [hf.current hg v hv]
            exact hn
          · exact hclear url n c cs hi j r slot v hj (by simpa using hg) ho hcc hv
        · simp only [State.setTask, State.invalidateAll, Function.update_of_ne hcc]
          exact hf.pending slot v ho hv
      | put url' phase =>
        cases phase with
        | dropGuard n' => exact hf
        | invalidate n' cs' => exact ⟨hf.1, fun c' hc' => (hf.2 c' hc').trans (hle c')⟩
        | _ => trivial
  · simp only [State.setTask, State.invalidateAll] at hv ⊢
    split_ifs at hv with hcc
    rw [Function.update_of_ne hcc]
    exact h.caches slot v hv

theorem stepPut {url : String} {phase : PutPhase} (h : s.Fresh)
    (hi : s.tasks i = some (.put url phase)) (hclear : ClearInvalidation s (.run i o))
    (hs : s.stepPut i url phase o = some s') : s'.Fresh := by
  have hc := h.coherent.stepPut hi hs
  cases phase with
  | check =>
    obtain rfl := Option.some.inj hs
    refine h.advancePut hc rfl ?_ rfl rfl rfl
    split_ifs <;> trivial
  | read => exact h.acquire hc hs trivial
  | dbPath =>
    obtain rfl := Option.some.inj hs
    exact h.advancePut hc rfl trivial rfl rfl rfl
  | load =>
    cases o <;> obtain rfl := Option.some.inj hs <;> exact h.advancePut hc rfl trivial rfl rfl rfl
  | write p =>
    obtain ⟨s₁, hs₁, rfl⟩ := Option.map_eq_some_iff.1 hs
    have h₁ : s₁.Fresh := h.acquire (h.coherent.acquire hi hs₁ rfl rfl rfl rfl rfl trivial) hs₁
      trivial
    split_ifs at hc ⊢
    · exact h₁.of_same hc rfl rfl h₁.tasks h₁.caches
    · exact h₁
  | setSetting p =>
    simp only [State.stepPut] at hs
    split_ifs at hs <;> obtain rfl := Option.some.inj hs <;>
      exact h.advancePut hc rfl trivial rfl rfl rfl
  | assign p => exact h.assign hc hi hs
  | dropGuard n =>
    obtain rfl := Option.some.inj hs
    exact h.advancePut hc rfl ⟨h.tasks i _ hi, fun c hn => absurd (mem_registryCaches c) hn⟩
      rfl rfl rfl
  | unwind =>
    obtain rfl := Option.some.inj hs
    exact h.advancePut hc rfl trivial rfl rfl rfl
  | invalidate n caches =>
    cases caches with
    | nil =>
      obtain rfl := Option.some.inj hs
      exact h.advancePut hc rfl trivial rfl rfl rfl
    | cons c cs => exact h.invalidate hc hi hclear hs
  | finished ok => cases hs

variable [DecidableEq K]

theorem caches_keep {slot : Slot K} {value : Option ℕ} (h : s.Fresh)
    (hv : ∀ v, value = some v → s.invalidated slot.1 ≤ v) (slot' : Slot K) (v : ℕ)
    (hs : (s.keep slot value).caches slot' = some v) : s.invalidated slot'.1 ≤ v := by
  rcases value with _ | v'
  · exact h.caches slot' v hs
  · by_cases he : slot' = slot
    · subst he
      simp only [State.keep, Function.update_self, Option.some.injEq] at hs
      exact hs ▸ hv v' rfl
    · simp only [State.keep, Function.update_of_ne he] at hs
      exact h.caches slot' v hs

theorem stepReader {r : Reader K} (h : s.Fresh) (hi : s.tasks i = some (.reader r))
    (hw : r.waits = none) (hs : s.stepReader i r o = some s') : s'.Fresh := by
  have hc' := h.coherent.stepReader hi hw hs
  have hsame := SameRegistry.stepReader hs
  have hver := hsame.version
  have hinv := hsame.invalidated
  have hf : r.Fresh s.version s.invalidated := h.tasks i _ hi
  have hd : r.Disciplined := h.coherent.disciplined i _ hi
  obtain ⟨code, guard, owns, waits, value, missing, failed⟩ := r
  have hc : Ordered guard owns code := hd.code
  match code with
  | [] => cases hs
  | .read :: rest => exact h.acquire hc' hs (Reader.Fresh.of_value_eq_none rfl)
  | .dropRead :: rest =>
    obtain ⟨-, hl, -⟩ := hc
    obtain rfl := Option.some.inj hs
    refine h.of_same hc' hver hinv (forall_update h.tasks ⟨fun hg => ?_, hf.pending, ?_⟩) h.caches
    · cases hg
    · exact fun _ slot _ ho _ => (hl slot ho).2
  | .getOrTryInsert slot skipError :: rest =>
    obtain ⟨-, rfl, -⟩ := hc
    simp only [State.stepReader] at hs
    split at hs
    · obtain rfl := Option.some.inj hs
      exact h.of_same hc' hver hinv (forall_update h.tasks
        ⟨hf.current, hf.pending, Reader.Fresh.late_of_owns rfl⟩) h.caches
    · split at hs
      · obtain rfl := Option.some.inj hs
        exact h.of_same hc' hver hinv (forall_update h.tasks
          ⟨hf.current, hf.pending, Reader.Fresh.late_of_owns rfl⟩) h.caches
      · obtain rfl := Option.some.inj hs
        exact h.of_same hc' hver hinv (forall_update h.tasks (Reader.Fresh.of_value_eq_none rfl))
          h.caches
  | .compute c :: rest =>
    obtain ⟨rfl, -⟩ := hc
    obtain rfl := Option.some.inj hs
    refine h.of_same hc' hver hinv (forall_update h.tasks
      ⟨fun _ v hv => ?_, fun slot v _ hv => ?_, fun hg => ?_⟩) h.caches
    · simp only at hv
      split_ifs at hv
      exact (Option.some.inj hv).symm
    · simp only at hv
      split_ifs at hv
      obtain rfl := Option.some.inj hv
      exact h.updates slot.1
    · cases hg
  | .settle slot skipError :: rest =>
    obtain ⟨rfl, -⟩ := hc
    obtain rfl := Option.some.inj hs
    refine h.of_same hc' hver hinv ?_ (h.caches_keep fun v hv => hf.pending slot v rfl hv)
    intro j t' hj
    by_cases hji : j = i
    · subst hji
      simp only [State.setTask, Function.update_self, Option.some.injEq] at hj
      subst hj
      exact Reader.Fresh.of_value_eq_none (Reader.settle_cases _ rest skipError).2.2.2.1
    · simp only [State.setTask, Function.update_of_ne hji, release_tasks, keep_tasks,
        Option.map_eq_some_iff] at hj
      obtain ⟨t, ht, rfl⟩ := hj
      exact (h.tasks j t ht).wake (h.coherent.disciplined j t ht)
  | .get slot :: rest =>
    obtain ⟨-, rfl, -⟩ := hc
    obtain rfl := Option.some.inj hs
    exact h.of_same hc' hver hinv (forall_update h.tasks
      ⟨hf.current, hf.pending, Reader.Fresh.late_of_owns rfl⟩) h.caches
  | .fetchMissing :: rest =>
    obtain ⟨-, rfl, -⟩ := hc
    obtain rfl := Option.some.inj hs
    exact h.of_same hc' hver hinv (forall_update h.tasks
      ⟨hf.current, hf.pending, Reader.Fresh.late_of_owns rfl⟩) h.caches
  | .insert slot :: rest =>
    obtain ⟨rfl, -, -⟩ := hc
    obtain rfl := Option.some.inj hs
    refine h.of_same hc' hver hinv ?_ (h.caches_keep fun v hv => ?_)
    · simp only [State.setTask, keep_tasks]
      exact forall_update h.tasks (Reader.Fresh.of_value_eq_none rfl)
    · rw [hf.current rfl v hv]
      exact h.updates slot.1

theorem step {e : Event ι K} (h : s.Fresh) (hclear : ClearInvalidation s e)
    (hs : step s e = some s') : s'.Fresh := by
  have hc := h.coherent.step hs
  cases e with
  | arrive i request =>
    obtain ⟨-, rfl⟩ := step_arrive hs
    refine h.of_same hc rfl rfl (forall_update h.tasks ?_) h.caches
    cases request with
    | putRegistry url => trivial
    | _ => exact Reader.Fresh.of_value_eq_none rfl
  | run i o =>
    rcases stepTask_eq_some.1 hs with ⟨r, hi, hw, hs⟩ | ⟨url, phase, hi, hs⟩
    · exact h.stepReader hi hw hs
    · exact h.stepPut hi hclear hs
  | evict slot =>
    obtain rfl := Option.some.inj hs
    apply h.of_same hc rfl rfl h.tasks
    intro slot' v hv
    by_cases he : slot' = slot
    · subst he
      simp at hv
    · simp only [Function.update_of_ne he] at hv
      exact h.caches slot' v hv

end State.Fresh

theorem fresh_init (provider : RaindexProvider) (setting : Option String)
    (directTrades : Option DirectTrades.DirectTradesFetcher) :
    (init provider setting directTrades : State ι K).Fresh where
  coherent := coherent_init provider setting directTrades
  updates _ := le_rfl
  tasks _ _ h := by cases h
  caches _ _ h := by cases h

variable [DecidableEq K]

theorem invalidated_le_step {e : Event ι K} (hs : step s e = some s') (c : CacheName) :
    s.invalidated c ≤ s'.invalidated c := by
  cases e with
  | arrive i request =>
    obtain ⟨-, rfl⟩ := step_arrive hs
    exact le_rfl
  | run i o =>
    rcases stepTask_eq_some.1 hs with ⟨r, -, -, hs⟩ | ⟨url, phase, -, hs⟩
    · rw [(SameRegistry.stepReader hs).invalidated]
    · rcases stepPut_cases hs with ⟨hsame, -⟩ | ⟨p, s₁, -, hs₁, -, rfl⟩ | ⟨p, -, rfl⟩ |
        ⟨p, -, rfl⟩ | ⟨n, c', cs, -, rfl⟩
      · rw [hsame.invalidated]
      · exact ((SameRegistry.acquire hs₁).1.invalidated ▸ le_rfl)
      · exact le_rfl
      · exact le_rfl
      · exact le_update_max s.invalidated c' n c
  | evict slot =>
    obtain rfl := Option.some.inj hs
    exact le_rfl

/-- Once an update has invalidated the caches, none of them ever holds a value computed from a
provider before it, in every run whose invalidations are all clear. -/
theorem no_stale_entry {provider : RaindexProvider} {setting : Option String}
    {directTrades : Option DirectTrades.DirectTradesFetcher} {before after : List (Event ι K)}
    {s₁ s : State ι K} {i : ι} {url : String} {n : ℕ}
    (hbefore : Runs.run step (init provider setting directTrades) before = some s₁)
    (hput : s₁.tasks i = some (.put url (.invalidate n [])))
    (hafter : Runs.run step s₁ after = some s)
    (hclear : Runs.Meets step ClearInvalidation (init provider setting directTrades)
      (before ++ after))
    (slot : Slot K) (v : ℕ) (hv : s.caches slot = some v) : n ≤ v := by
  obtain ⟨hclear₁, hclear₂⟩ := Runs.meets_append.1 hclear
  have hfresh₁ : s₁.Fresh := Runs.invariant_of_meets (fun _ _ _ h hc hs => h.step hc hs) hclear₁
    hbefore (fresh_init provider setting directTrades)
  have hfresh : s.Fresh := Runs.invariant_of_meets (fun _ _ _ h hc hs => h.step hc hs)
    (hclear₂ s₁ hbefore) hafter hfresh₁
  have hn : n ≤ s₁.invalidated slot.1 := (hfresh₁.tasks i _ hput).2 slot.1 List.not_mem_nil
  have hle : n ≤ s.invalidated slot.1 :=
    Runs.invariant (P := fun s => n ≤ s.invalidated slot.1)
      (fun _ _ _ h hs => h.trans (invalidated_le_step hs slot.1)) hafter hn
  exact hle.trans (hfresh.caches slot v hv)

/-- After an invalidation that is not clear, the next step of the reader it passed over puts a
stale value into the cache. -/
theorem stale_of_not_clear (h : s.Fresh) (hn : ¬ ClearInvalidation s (.run i o)) :
    ∃ j s₁ s₂ slot v, step s (.run i o) = some s₁ ∧ step s₁ (.run j .ok) = some s₂ ∧
      s₂.caches slot = some v ∧ v < s₂.invalidated slot.1 := by
  simp only [ClearInvalidation, not_forall, not_le] at hn
  obtain ⟨url, n, c, cs, hi, j, r, slot, v, hj, hg, ho, rfl, hv, hlt⟩ := hn
  have hd : r.Disciplined := h.coherent.disciplined j _ hj
  have hf : r.Fresh s.version s.invalidated := h.tasks j _ hj
  have hji : j ≠ i := by
    rintro rfl
    rw [hi] at hj
    cases hj
  have hw : r.waits = none := by
    rcases hw : r.waits with _ | ⟨slot', skipError⟩
    · rfl
    · rw [(hd.waiter slot' skipError hw).1] at ho
      cases ho
  have hl := hf.late hg slot v ho hv
  obtain ⟨skipError, rest, hr⟩ : ∃ skipError rest, r.rest = .settle slot skipError :: rest := by
    unfold Settles at hl
    split at hl
    · rename_i skipError rest hr
      exact ⟨skipError, rest, hl ▸ hr⟩
    · exact hl.elim
  have hi₁ : step s (.run i o) =
      some ((s.invalidateAll slot.1 n).setTask i (.put url (.invalidate n cs))) :=
    stepTask_eq_some.2 (Or.inr ⟨url, _, hi, rfl⟩)
  obtain ⟨code, guard, owns, waits, value, missing, failed⟩ := r
  obtain rfl : code = .settle slot skipError :: rest := hr
  obtain rfl : value = some v := hv
  refine ⟨j, _, _, slot, v, hi₁, stepTask_eq_some.2 (Or.inl ⟨_, ?_, hw, rfl⟩), ?_, ?_⟩
  · exact (Function.update_of_ne hji _ _).trans hj
  · exact Function.update_self _ _ _
  · change v < Function.update s.invalidated slot.1 (max (s.invalidated slot.1) n) slot.1
    rw [Function.update_self]
    exact hlt.trans_le (le_max_right _ _)

/-! ## Routes that keep the guard -/

/-- The routes that hold the guard around their cache calls. -/
def Request.KeepsGuard : Request K → Prop
  | getOrder _ | postSwapQuote _ => False
  | _ => True

def KeepsGuard : Event ι K → Prop
  | .arrive _ request => request.KeepsGuard
  | _ => True

/-- A reader enters no slot whose cache locks inside. -/
structure Reader.KeepsGuard (r : Reader K) : Prop where
  owner : ∀ slot, r.owns = some slot → slot.1.locksInside = false
  code : ∀ slot skipError, .getOrTryInsert slot skipError ∈ r.rest → slot.1.locksInside = false

def Task.KeepsGuard : Task K → Prop
  | reader r => r.KeepsGuard
  | put _ _ => True

omit [DecidableEq K] in
theorem Reader.KeepsGuard.start {code : List (Instr K)}
    (h : ∀ slot skipError, .getOrTryInsert slot skipError ∈ code → slot.1.locksInside = false) :
    (Reader.start code).KeepsGuard where
  owner _ ho := by cases ho
  code := h

theorem Request.KeepsGuard.task {request : Request K} (h : request.KeepsGuard)
    (hasFetcher : Bool) : (request.task hasFetcher).KeepsGuard := by
  cases request with
  | getOrder hash => exact h.elim
  | postSwapQuote key => exact h.elim
  | getOrdersByAddress key | getOrdersByToken key | getTradesByTx key | getTradesByAddress key =>
    apply Reader.KeepsGuard.start
    intro slot skipError hm
    simp only [guarded, List.mem_cons, reduceCtorEq, List.not_mem_nil, or_false, false_or,
      Instr.getOrTryInsert.injEq] at hm
    rw [hm.1]
    rfl
  | getTakerTrades sender pageHashes =>
    apply Reader.KeepsGuard.start
    intro slot skipError hm
    unfold Server.getTakerTrades at hm
    split_ifs at hm
    · simp only [List.cons_append, List.nil_append, List.mem_cons, reduceCtorEq, List.mem_append,
        List.mem_map, List.not_mem_nil, or_false, false_or, Instr.getOrTryInsert.injEq] at hm
      rcases hm with ⟨rfl, -⟩ | ⟨txHash, -, rfl, -⟩
      · rfl
      · rfl
    · simp at hm
  | postTradesBatch hashes =>
    apply Reader.KeepsGuard.start
    intro slot skipError hm
    unfold Server.postTradesBatch at hm
    split_ifs at hm
    · simp at hm
    · simp at hm
  | uncached =>
    apply Reader.KeepsGuard.start
    intro slot skipError hm
    simp at hm
  | putRegistry url => trivial

theorem Task.KeepsGuard.wake {t : Task K} (h : t.KeepsGuard) (slot : Slot K) (success : Bool) :
    (t.wake slot success).KeepsGuard := by
  rcases Task.wake_cases slot success t with hw | ⟨r, skipError, rfl, -, hw | hw⟩
  · rwa [hw]
  · rw [hw]
    exact ⟨h.owner, h.code⟩
  · rw [hw]
    refine ⟨h.owner, fun slot skipError hm => ?_⟩
    simp only [Reader.abort] at hm
    split_ifs at hm <;> simp at hm

theorem Reader.KeepsGuard.stepReader {r : Reader K} (h : ∀ j t, s.tasks j = some t → t.KeepsGuard)
    (hr : r.KeepsGuard) (hs : s.stepReader i r o = some s') :
    ∀ j t, s'.tasks j = some t → t.KeepsGuard := by
  obtain ⟨code, guard, owns, waits, value, missing, failed⟩ := r
  rcases code with _ | ⟨instr, rest⟩
  · cases hs
  have hrest : ∀ slot skipError, .getOrTryInsert slot skipError ∈ rest →
      slot.1.locksInside = false :=
    fun slot skipError hm => hr.code slot skipError (List.mem_cons_of_mem _ hm)
  have hkeep : ∀ slot, Function.update (s.keep slot value).tasks i = Function.update s.tasks i :=
    fun slot => by rw [State.keep_tasks]
  cases instr with
  | read =>
    simp only [State.stepReader, State.acquire] at hs
    split_ifs at hs
    · obtain ⟨lock, -, rfl⟩ := Option.map_eq_some_iff.1 hs
      exact forall_update h ⟨hr.owner, hrest⟩
    · obtain rfl := Option.some.inj hs
      exact h
  | getOrTryInsert slot skipError =>
    have hl := hr.code slot skipError List.mem_cons_self
    simp only [State.stepReader] at hs
    split at hs
    · obtain rfl := Option.some.inj hs
      exact forall_update h ⟨hr.owner, hrest⟩
    · split at hs
      · obtain rfl := Option.some.inj hs
        exact forall_update h ⟨hr.owner, hrest⟩
      · obtain rfl := Option.some.inj hs
        refine forall_update h ⟨fun slot' ho => ?_, fun slot' skip' hm => ?_⟩
        · rwa [← Option.some.inj ho]
        · simp only [initCode, hl, Bool.false_eq_true, if_false, List.cons_append, List.nil_append,
            List.mem_cons, reduceCtorEq, false_or] at hm
          exact hrest slot' skip' hm
  | settle slot skipError =>
    obtain rfl := Option.some.inj hs
    obtain ⟨-, ho, -, -, hcode⟩ := Reader.settle_cases ⟨.settle slot skipError :: rest, guard, owns,
      waits, value, missing, failed⟩ rest skipError
    intro j t hj
    by_cases hji : j = i
    · subst hji
      simp only [State.setTask, Function.update_self, Option.some.injEq] at hj
      subst hj
      refine ⟨fun slot' ho' => ?_, fun slot' skip' hm => ?_⟩
      · rw [ho] at ho'
        cases ho'
      · rcases hcode with hcode | hcode
        · rw [hcode] at hm
          exact hrest slot' skip' hm
        · rw [hcode] at hm
          split_ifs at hm <;> simp at hm
    · simp only [State.setTask, Function.update_of_ne hji, State.release_tasks, State.keep_tasks,
        Option.map_eq_some_iff] at hj
      obtain ⟨t', ht', rfl⟩ := hj
      exact (h j t' ht').wake _ _
  | fetchMissing =>
    obtain rfl := Option.some.inj hs
    refine forall_update h ⟨hr.owner, fun slot' skip' hm => ?_⟩
    rcases List.mem_append.1 hm with hm | hm
    · obtain ⟨slot, -, hm⟩ := List.mem_flatMap.1 hm
      simp at hm
    · exact hrest slot' skip' hm
  | insert slot =>
    obtain rfl := Option.some.inj hs
    simp only [State.setTask, hkeep]
    exact forall_update h ⟨hr.owner, hrest⟩
  | dropRead | compute | get =>
    obtain rfl := Option.some.inj hs
    exact forall_update h ⟨hr.owner, hrest⟩

/-- Without requests for order detail and swap quotes every invalidation is clear. -/
theorem clear_of_keepsGuard {events : List (Event ι K)} {provider : RaindexProvider}
    {setting : Option String} {directTrades : Option DirectTrades.DirectTradesFetcher}
    (hk : ∀ e ∈ events, KeepsGuard e) :
    Runs.Meets step ClearInvalidation (init provider setting directTrades) events := by
  refine Runs.Meets.of_invariant (P := fun s => s.Coherent ∧ ∀ j t, s.tasks j = some t →
    t.KeepsGuard) ?_ ?_ (Runs.Meets.of_forall_mem hk)
    ⟨coherent_init provider setting directTrades, fun _ _ h => by cases h⟩
  · rintro s e s' ⟨hc, h⟩ he hs
    refine ⟨hc.step hs, ?_⟩
    cases e with
    | arrive i request =>
      obtain ⟨-, rfl⟩ := step_arrive hs
      exact forall_update h (Request.KeepsGuard.task he _)
    | run i o =>
      rcases stepTask_eq_some.1 hs with ⟨r, hi, -, hs⟩ | ⟨url, phase, hi, hs⟩
      · exact Reader.KeepsGuard.stepReader h (h i _ hi) hs
      · rcases moves_stepPut hs with ht | ⟨phase', ht, -⟩
        · exact ht ▸ h
        · exact ht ▸ forall_update h trivial
    | evict slot =>
      obtain rfl := Option.some.inj hs
      exact h
  · rintro s e ⟨hc, h⟩ -
    cases e with
    | run i o =>
      intro url n c cs _ j r slot v hj hg ho hslot _
      have hd : r.Disciplined := hc.disciplined j _ hj
      have hl := (h j _ hj : r.KeepsGuard).owner slot ho
      rw [hd.owner slot ho hl] at hg
      cases hg
    | _ => trivial

def wholeUpdate (i : ℕ) (url : String) : List (Event ℕ ℕ) :=
  alone i (.putRegistry url) (List.replicate 18 (.loaded []))

/-- An order detail is computed, the registry is replaced, and the detail is inserted. -/
theorem late_insert_stale : ∃ s₁ s : State ℕ ℕ,
    Runs.run step (init ⟨"a", []⟩ (some "a") none)
      (alone 0 (.getOrder 7) (List.replicate 5 .ok) ++ wholeUpdate 1 "b") = some s₁ ∧
    s₁.tasks 1 = some (.put "b" (.invalidate 1 [])) ∧
    Runs.run step s₁ [.run 0 .ok] = some s ∧
    s.caches (.orderDetail, 7) = some 0 :=
  ⟨_, _, (Option.some_get (by decide)).symm, by decide, (Option.some_get (by decide)).symm,
    by decide⟩

theorem no_stale_entry_reread : ∃ s₁ s : State ℕ ℕ,
    Runs.run step (init ⟨"a", []⟩ (some "a") none)
      (alone 0 (.getTradesByTx 5) (List.replicate 6 .ok) ++ wholeUpdate 1 "b") = some s₁ ∧
    Runs.run step s₁ (alone 2 (.getTradesByTx 5) (List.replicate 6 .ok)) = some s ∧
    s.caches (.tradesByTx, 5) = some 1 ∧ ∀ slot v, s.caches slot = some v → 1 ≤ v := by
  refine ⟨_, _, (Option.some_get (by decide)).symm, (Option.some_get (by decide)).symm,
    by decide, ?_⟩
  refine no_stale_entry (Option.some_get (by decide)).symm
    (show State.tasks _ 1 = some (.put "b" (.invalidate 1 [])) by decide)
    (Option.some_get (by decide)).symm (clear_of_keepsGuard ?_)
  simp [alone, wholeUpdate, KeepsGuard, Request.KeepsGuard]

end AlbionApi.Server
