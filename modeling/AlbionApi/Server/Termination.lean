import AlbionApi.Server.Progress
import Mathlib.Algebra.Order.BigOperators.Group.List

/-! # Every request is answered

A request has a number of steps left, which each of its steps lowers and which
no step of another request raises. So however the steps of the requests
interleave, each of them ends after a bounded number of its own.
-/

namespace AlbionApi.Server

variable {ι K : Type}

/-- The steps that an instruction takes at most, with those of the code that it brings in. -/
def Instr.steps : Instr K → ℕ
  | read => 2
  | dropRead => 1
  | getOrTryInsert _ _ => 6
  | compute _ => 1
  | settle _ _ => 1
  | get _ => 3
  | fetchMissing => 1
  | insert _ => 1

def codeSteps (code : List (Instr K)) : ℕ := (code.map Instr.steps).sum

/-- A missing slot is computed and inserted yet. -/
def Reader.steps (r : Reader K) : ℕ := codeSteps r.rest + 2 * r.missing.length

def PutPhase.steps : PutPhase → ℕ
  | check => 19
  | read => 18
  | dbPath => 16
  | load => 15
  | write _ => 14
  | setSetting _ => 12
  | assign _ => 11
  | dropGuard _ => 10
  | unwind => 1
  | invalidate _ caches => caches.length + 1
  | finished _ => 0

def Task.steps : Task K → ℕ
  | reader r => r.steps
  | put _ phase => phase.steps

/-- The steps that a request takes at most, its turns at the lock counted as two. -/
def Request.maxSteps : Request K → ℕ
  | getOrder _ => 6
  | postSwapQuote _ => 6
  | getOrdersByAddress _ => 9
  | getOrdersByToken _ => 9
  | getTradesByTx _ => 9
  | getTradesByAddress _ => 9
  | getTakerTrades _ pageHashes => 9 + 6 * pageHashes.length
  | postTradesBatch hashes => 4 + 3 * hashes.length
  | uncached => 3
  | putRegistry _ => 19

section Code

variable {code code' : List (Instr K)} {skipError : Bool}

@[simp] theorem codeSteps_nil : codeSteps ([] : List (Instr K)) = 0 := rfl

@[simp] theorem codeSteps_cons (instr : Instr K) :
    codeSteps (instr :: code) = instr.steps + codeSteps code := by
  simp [codeSteps]

@[simp] theorem codeSteps_append :
    codeSteps (code ++ code') = codeSteps code + codeSteps code' := by
  simp [codeSteps]

theorem codeSteps_map {α : Type} {f : α → Instr K} {n : ℕ} (hf : ∀ a, (f a).steps = n)
    (l : List α) : codeSteps (l.map f) = n * l.length := by
  induction l with
  | nil => rfl
  | cons a l ih =>
    rw [List.map_cons, codeSteps_cons, hf, ih, List.length_cons]
    ring

theorem codeSteps_fetchMissing (slots : List (Slot K)) :
    codeSteps (slots.flatMap fun slot => [.compute slot.1, .insert slot]) = 2 * slots.length := by
  induction slots with
  | nil => rfl
  | cons slot slots ih =>
    rw [List.flatMap_cons, codeSteps_append, ih, List.length_cons]
    simp only [codeSteps_cons, codeSteps_nil, Instr.steps]
    ring

theorem codeSteps_initCode_le (slot : Slot K) : codeSteps (initCode slot) ≤ 4 := by
  unfold initCode
  split_ifs <;> simp [Instr.steps]

theorem Request.steps_task_le [DecidableEq K] (hasFetcher : Bool) (request : Request K) :
    (request.task hasFetcher).steps ≤ request.maxSteps := by
  cases request with
  | getTakerTrades sender pageHashes =>
    have hmap := codeSteps_map (f := fun txHash : K => .getOrTryInsert (.tradesByTx, txHash) true)
      (fun _ => rfl) pageHashes
    simp only [Request.task, Task.steps, Reader.steps, Reader.start, Server.getTakerTrades,
      Request.maxSteps]
    split_ifs
    · simp only [codeSteps_append, codeSteps_cons, codeSteps_nil, Instr.steps, hmap,
        List.length_nil]
      omega
    · simp only [codeSteps_cons, codeSteps_nil, Instr.steps, List.length_nil]
      omega
  | postTradesBatch hashes =>
    have hmap := codeSteps_map (f := fun hash : K => .get (.tradesByOrderHash, hash))
      (fun _ => rfl) hashes
    simp only [Request.task, Task.steps, Reader.steps, Reader.start, Server.postTradesBatch,
      Request.maxSteps]
    split_ifs with h
    · simp
    · simp only [codeSteps_append, codeSteps_cons, codeSteps_nil, Instr.steps, hmap,
        List.length_nil]
      omega
  | getOrder _ | postSwapQuote _ | getOrdersByAddress _ | getOrdersByToken _ | getTradesByTx _
  | getTradesByAddress _ | uncached | putRegistry _ => exact le_rfl

theorem codeSteps_pos {o : Option (Slot K)} (h : Ordered true o code) : 0 < codeSteps code := by
  cases code with
  | nil => cases h.1
  | cons instr code => cases instr <;> simp [Instr.steps]

theorem Reader.steps_abort_le {r : Reader K} {o : Option (Slot K)}
    (h : Ordered r.guard o r.rest) : r.abort.steps ≤ r.steps := by
  rw [Reader.steps, Reader.steps, Reader.abort]
  cases hg : r.guard with
  | false => simp
  | true =>
    rw [hg] at h
    have := codeSteps_pos h
    simp only [if_true, codeSteps_cons, codeSteps_nil, Instr.steps]
    omega

theorem Reader.steps_settle_le {r : Reader K} (h : Ordered r.guard none code) :
    (r.settle code skipError).steps ≤ codeSteps code + 2 * r.missing.length := by
  unfold Reader.settle
  split_ifs
  · exact le_rfl
  · exact Reader.steps_abort_le (r := { r with rest := code, owns := none, value := none }) h

theorem Task.steps_wake_le [DecidableEq K] {t : Task K} (h : t.Disciplined) (slot : Slot K)
    (success : Bool) : (t.wake slot success).steps ≤ t.steps := by
  rcases Task.wake_cases slot success t with hw | ⟨r, skipError, rfl, -, hw | hw⟩
  · rw [hw]
  · rw [hw]
    rfl
  · rw [hw]
    exact Reader.steps_abort_le (r := { r with waits := none }) h.code

end Code

variable [DecidableEq ι]

/-- The steps that a request has left; one in the queue has already taken a step for the lock. -/
def stepsLeft (s : State ι K) (i : ι) : ℕ :=
  (s.tasks i).elim 0 Task.steps - if s.lock.queued i then 1 else 0

/-- A step counts for its request, and no other request has more steps left after it. -/
structure Spends (s s' : State ι K) (i : ι) : Prop where
  own : stepsLeft s' i < stepsLeft s i
  others : ∀ j, j ≠ i → stepsLeft s' j ≤ stepsLeft s j

namespace Spends

variable {s s' : State ι K} {i : ι} {t t' : Task K} {m : LockMode}

theorem acquire (h : s.Coherent) (hi : s.tasks i = some t) (ht : t'.steps + 2 ≤ t.steps)
    (hs : s.acquire i m t' = some s') : Spends s s' i := by
  unfold State.acquire at hs
  split_ifs at hs with hq
  · obtain ⟨lock, hl, rfl⟩ := Option.map_eq_some_iff.1 hs
    obtain ⟨m', hqueue, -⟩ := FairLock.grant_spec hl
    have hn := h.valid.queue
    rw [hqueue, List.map_cons, List.nodup_cons] at hn
    constructor
    · have hq' : ¬ lock.queued i := hn.1
      simp only [stepsLeft, State.setTask, Function.update_self, hi, Option.elim_some, if_pos hq,
        if_neg hq']
      omega
    · intro j hj
      have hq' : lock.queued j ↔ s.lock.queued j := by
        simp only [FairLock.queued, hqueue, List.map_cons, List.mem_cons, hj, false_or]
      simp only [stepsLeft, State.setTask, Function.update_of_ne hj, hq', le_rfl]
  · obtain rfl := Option.some.inj hs
    constructor
    · have hq' : (s.lock.request i m).queued i := by simp [FairLock.queued, FairLock.request]
      simp only [stepsLeft, hi, Option.elim_some, if_neg hq, if_pos hq']
      omega
    · intro j hj
      have hq' : (s.lock.request i m).queued j ↔ s.lock.queued j := by
        simp [FairLock.queued, FairLock.request, hj]
      simp only [stepsLeft, hq', le_rfl]

variable [DecidableEq K]

theorem advance (h : s.Coherent) (hi : s.tasks i = some t) (hw : t.wants = none)
    (hqueue : s'.lock.queue = s.lock.queue) (hi' : s'.tasks i = some t') (ht : t'.steps < t.steps)
    (hothers : ∀ j, j ≠ i → s'.tasks j = s.tasks j ∨
      ∃ slot success, s'.tasks j = (s.tasks j).map (Task.wake slot success)) :
    Spends s s' i := by
  have hq : ∀ j, s'.lock.queued j ↔ s.lock.queued j := fun j => by
    simp only [FairLock.queued, hqueue]
  have hqi : ¬ s.lock.queued i := by
    intro hqi
    obtain ⟨⟨j, m⟩, hm, rfl⟩ := List.mem_map.1 hqi
    exact Server.Coherent.not_mem_queue h (by rw [hi]; exact hw) hm rfl
  constructor
  · simpa only [stepsLeft, hi, hi', Option.elim_some, hq, if_neg hqi, Nat.sub_zero] using ht
  · intro j hj
    simp only [stepsLeft, hq]
    refine Nat.sub_le_sub_right ?_ _
    rcases hothers j hj with he | ⟨slot, success, he⟩
    · rw [he]
    · rw [he]
      cases htj : s.tasks j with
      | none => exact le_rfl
      | some tj => exact Task.steps_wake_le (h.disciplined j tj htj) slot success

theorem stepReader {r : Reader K} {o : Outcome} (h : s.Coherent)
    (hi : s.tasks i = some (.reader r)) (hwaits : r.waits = none)
    (hs : s.stepReader i r o = some s') : Spends s s' i := by
  have hothers := (tasks_stepReader hi hs).2
  have hd : r.Disciplined := h.disciplined i _ hi
  obtain ⟨code, guard, owns, waits, value, missing, failed⟩ := r
  obtain rfl : waits = none := hwaits
  match code with
  | [] => cases hs
  | .read :: rest =>
    refine acquire h hi ?_ hs
    simp only [Task.steps, Reader.steps, codeSteps_cons, Instr.steps]
    omega
  | .dropRead :: rest =>
    obtain rfl := Option.some.inj hs
    refine advance h hi rfl rfl (Function.update_self ..) ?_ hothers
    simp only [Task.steps, Reader.steps, codeSteps_cons, Instr.steps]
    omega
  | .getOrTryInsert slot skipError :: rest =>
    simp only [State.stepReader] at hs
    split at hs
    · obtain rfl := Option.some.inj hs
      refine advance h hi rfl rfl (Function.update_self ..) ?_ hothers
      simp only [Task.steps, Reader.steps, codeSteps_cons, Instr.steps]
      omega
    · split at hs
      · obtain rfl := Option.some.inj hs
        refine advance h hi rfl rfl (Function.update_self ..) ?_ hothers
        simp only [Task.steps, Reader.steps, codeSteps_cons, Instr.steps]
        omega
      · obtain rfl := Option.some.inj hs
        refine advance h hi rfl rfl (Function.update_self ..) ?_ hothers
        have hinit := codeSteps_initCode_le slot
        simp only [Task.steps, Reader.steps, codeSteps_append, codeSteps_cons, Instr.steps]
        omega
  | .compute c :: rest =>
    obtain rfl := Option.some.inj hs
    refine advance h hi rfl rfl (Function.update_self ..) ?_ hothers
    simp only [Task.steps, Reader.steps, codeSteps_cons, Instr.steps]
    omega
  | .settle slot skipError :: rest =>
    obtain rfl := Option.some.inj hs
    refine advance h hi rfl ?_ (Function.update_self ..) ?_ hothers
    · cases value <;> rfl
    · refine (Reader.steps_settle_le hd.code.2).trans_lt ?_
      simp only [Task.steps, Reader.steps, codeSteps_cons, Instr.steps]
      omega
  | .get slot :: rest =>
    obtain rfl := Option.some.inj hs
    refine advance h hi rfl rfl (Function.update_self ..) ?_ hothers
    simp only [Task.steps, Reader.steps, codeSteps_cons, Instr.steps]
    split_ifs
    · omega
    · simp only [List.length_append, List.length_singleton]
      omega
  | .fetchMissing :: rest =>
    obtain rfl := Option.some.inj hs
    refine advance h hi rfl rfl (Function.update_self ..) ?_ hothers
    simp only [Task.steps, Reader.steps, codeSteps_cons, codeSteps_append, Instr.steps,
      codeSteps_fetchMissing, List.length_nil]
    omega
  | .insert slot :: rest =>
    obtain rfl := Option.some.inj hs
    refine advance h hi rfl ?_ (Function.update_self ..) ?_ hothers
    · cases value <;> rfl
    · simp only [Task.steps, Reader.steps, codeSteps_cons, Instr.steps]
      omega

theorem stepPut {url : String} {phase : PutPhase} {o : Outcome} (h : s.Coherent)
    (hi : s.tasks i = some (.put url phase)) (hs : s.stepPut i url phase o = some s') :
    Spends s s' i := by
  have hothers : ∀ phase', s'.tasks = Function.update s.tasks i (some (.put url phase')) →
      ∀ j, j ≠ i → s'.tasks j = s.tasks j ∨
        ∃ slot success, s'.tasks j = (s.tasks j).map (Task.wake slot success) := by
    intro phase' ht j hj
    exact Or.inl (by rw [ht, Function.update_of_ne hj])
  cases phase with
  | check =>
    obtain rfl := Option.some.inj hs
    refine advance h hi rfl rfl (Function.update_self ..) ?_ (hothers _ rfl)
    split_ifs
    · exact Nat.zero_lt_succ _
    · exact Nat.lt_succ_self _
  | read => exact acquire h hi le_rfl hs
  | write p =>
    obtain ⟨s₁, hs₁, rfl⟩ := Option.map_eq_some_iff.1 hs
    have h₁ : Spends s s₁ i := acquire h hi le_rfl hs₁
    split_ifs
    · exact ⟨h₁.own, h₁.others⟩
    · exact h₁
  | load =>
    cases o <;> obtain rfl := Option.some.inj hs <;>
      exact advance h hi rfl rfl (Function.update_self ..) (by simp [Task.steps, PutPhase.steps])
        (hothers _ rfl)
  | setSetting p =>
    simp only [State.stepPut] at hs
    split_ifs at hs <;> obtain rfl := Option.some.inj hs <;>
      exact advance h hi rfl rfl (Function.update_self ..) (by simp [Task.steps, PutPhase.steps])
        (hothers _ rfl)
  | invalidate n caches =>
    cases caches <;> obtain rfl := Option.some.inj hs <;>
      exact advance h hi rfl rfl (Function.update_self ..) (by simp [Task.steps, PutPhase.steps])
        (hothers _ rfl)
  | dbPath | assign | dropGuard | unwind =>
    obtain rfl := Option.some.inj hs
    exact advance h hi rfl rfl (Function.update_self ..)
      (by simp [Task.steps, PutPhase.steps, registryCaches]) (hothers _ rfl)
  | finished ok => cases hs

theorem stepTask {o : Outcome} (h : s.Coherent) (hs : s.stepTask i o = some s') :
    Spends s s' i := by
  rcases stepTask_eq_some.1 hs with ⟨r, hi, hw, hs⟩ | ⟨url, phase, hi, hs⟩
  · exact stepReader h hi hw hs
  · exact stepPut h hi hs

end Spends

/-! ## Runs -/

section Events

variable (i : ι)

def Event.arrival : Event ι K → Option (Request K)
  | arrive j request => if j = i then some request else none
  | run _ _ => none
  | evict _ => none

def Event.isStep : Event ι K → Bool
  | arrive _ _ => false
  | run j _ => j = i
  | evict _ => false

def arrivals (events : List (Event ι K)) : List (Request K) :=
  events.filterMap (Event.arrival i)

def stepsOf (events : List (Event ι K)) : ℕ :=
  events.countP (Event.isStep i)

variable {i} {events : List (Event ι K)} {e : Event ι K}

theorem arrivals_concat :
    arrivals i (events ++ [e]) = arrivals i events ++ (e.arrival i).toList := by
  rw [arrivals, List.filterMap_append]
  cases h : e.arrival i <;> simp [arrivals, h]

theorem stepsOf_concat :
    stepsOf i (events ++ [e]) = stepsOf i events + (e.isStep i).toNat := by
  rw [stepsOf, List.countP_append, List.countP_singleton]
  cases e.isStep i <;> rfl

end Events

section Runs

variable [DecidableEq K] {s s' : State ι K} {i : ι} {e : Event ι K} {events : List (Event ι K)}

/-- A request keeps to its steps: those it took and those it has left are not more. -/
def Keeps (s : State ι K) (events : List (Event ι K)) (i : ι) : Prop :=
  (s.tasks i = none ∧ arrivals i events = [] ∧ stepsOf i events = 0) ∨
    ∃ request, s.tasks i ≠ none ∧ arrivals i events = [request] ∧
      stepsOf i events + stepsLeft s i ≤ request.maxSteps

theorem tasks_eq_none_iff {o : Outcome} (hs : s.stepTask i o = some s') (j : ι) :
    s'.tasks j = none ↔ s.tasks j = none := by
  rcases stepTask_eq_some.1 hs with ⟨r, hi, hw, hs⟩ | ⟨url, phase, hi, hs⟩
  · obtain ⟨⟨r', hr'⟩, hothers⟩ := tasks_stepReader hi hs
    by_cases hj : j = i
    · rw [hj, hr', hi]
      simp
    · rcases hothers j hj with he | ⟨slot, success, he⟩
      · rw [he]
      · rw [he, Option.map_eq_none_iff]
  · rcases moves_stepPut hs with ht | ⟨phase', ht, -⟩
    · rw [ht]
    · rw [ht]
      by_cases hj : j = i
      · rw [hj, Function.update_self, hi]
        simp
      · rw [Function.update_of_ne hj]

theorem Keeps.step (h : s.Coherent) (hk : Keeps s events i) (hs : step s e = some s') :
    Keeps s' (events ++ [e]) i := by
  unfold Keeps at hk ⊢
  rw [arrivals_concat, stepsOf_concat]
  cases e with
  | arrive j request =>
    obtain ⟨hj, rfl⟩ := step_arrive hs
    by_cases he : j = i
    · subst he
      rcases hk with ⟨-, ha, hn⟩ | ⟨_, ht, -⟩
      · have hle := request.steps_task_le s.directTrades.isSome
        refine Or.inr ⟨request, by simp [State.setTask], by simp [ha, Event.arrival], ?_⟩
        simp only [hn, stepsLeft, State.setTask, Function.update_self, Option.elim_some,
          Event.isStep, Bool.toNat_false]
        omega
      · exact absurd hj ht
    · have htask : (s.setTask j (request.task s.directTrades.isSome)).tasks i = s.tasks i :=
        Function.update_of_ne (Ne.symm he) ..
      have hleft : stepsLeft (s.setTask j (request.task s.directTrades.isSome)) i =
          stepsLeft s i := by
        rw [stepsLeft, htask]
        rfl
      simpa [htask, hleft, Event.arrival, Event.isStep, he] using hk
  | run j o =>
    have hspends := Spends.stepTask h hs
    have htask := tasks_eq_none_iff hs i
    by_cases he : j = i
    · subst he
      rcases hk with ⟨ht, -, -⟩ | ⟨request, ht, ha, hn⟩
      · simp [Server.step, State.stepTask, ht] at hs
      · have hown := hspends.own
        refine Or.inr ⟨request, mt htask.1 ht, by simp [ha, Event.arrival], ?_⟩
        simp only [Event.isStep, decide_true, Bool.toNat_true]
        omega
    · have hothers := hspends.others i (Ne.symm he)
      rcases hk with ⟨ht, ha, hn⟩ | ⟨request, ht, ha, hn⟩
      · exact Or.inl ⟨htask.2 ht, by simp [ha, Event.arrival], by simp [hn, Event.isStep, he]⟩
      · refine Or.inr ⟨request, mt htask.1 ht, by simp [ha, Event.arrival], ?_⟩
        simp only [Event.isStep, he, decide_false, Bool.toNat_false]
        omega
  | evict slot =>
    obtain rfl := Option.some.inj hs
    simp only [Event.arrival, Option.toList_none, List.append_nil, Event.isStep, Bool.toNat_false,
      Nat.add_zero]
    exact hk

/-- Every request is finished, and none holds or waits for the lock or a slot. -/
structure Idle (s : State ι K) : Prop where
  finished : ∀ i t, s.tasks i = some t → t.finished
  lock : s.lock = .free
  owners : ∀ slot, s.owners slot = none

/-- A server where no request can take a step is idle. -/
theorem idle_of_not_enabled (h : s.Coherent) (hn : ∀ i, ¬ Enabled s i) : Idle s := by
  have hf : ∀ i t, s.tasks i = some t → t.finished := by
    intro i t hi
    by_contra hf
    obtain ⟨j, -, he⟩ := exists_enabled h hi hf
    exact hn j he
  have hholds : ∀ i, s.lock.holds i = none := by
    intro i
    rw [h.holds, Option.bind_eq_none_iff]
    intro t ht
    by_contra hg
    obtain ⟨m, hm⟩ := Option.ne_none_iff_exists'.1 hg
    exact (not_finished_of_guard (h.disciplined i t ht) hm).1 (hf i t ht)
  refine ⟨hf, ?_, fun slot => ?_⟩
  · have hw : s.lock.writer = none := by
      by_contra hw
      obtain ⟨i, hi⟩ := Option.ne_none_iff_exists'.1 hw
      exact (FairLock.holds_eq_none.1 (hholds i)).1 hi
    have hr : s.lock.readers = [] :=
      List.eq_nil_iff_forall_not_mem.2 fun i => (FairLock.holds_eq_none.1 (hholds i)).2
    have hq : s.lock.queue = [] := by
      refine List.eq_nil_iff_forall_not_mem.2 fun ⟨i, m⟩ hm => ?_
      obtain ⟨t, ht, hw⟩ := Option.bind_eq_some_iff.1 (h.queue i m hm)
      exact (not_finished_of_wants hw).1 (hf i t ht)
    calc s.lock = ⟨s.lock.readers, s.lock.writer, s.lock.queue⟩ := rfl
      _ = .free := by
        rw [hr, hw, hq]
        rfl
  · by_contra ho
    obtain ⟨i, hi⟩ := Option.ne_none_iff_exists'.1 ho
    obtain ⟨t, ht, ho⟩ := Option.bind_eq_some_iff.1 ((h.owners slot i).1 hi)
    exact (not_finished_of_owns (h.disciplined i t ht) ho).1 (hf i t ht)

/-- Letting whoever can take steps ends with an idle server. -/
theorem exists_idle (h : s.Coherent) (ids : List ι) (hids : ∀ i, s.tasks i ≠ none → i ∈ ids) :
    ∃ more t, (∀ e ∈ more, ∃ i o, e = .run i o) ∧ Runs.run step s more = some t ∧ Idle t := by
  induction hn : (ids.map (stepsLeft s)).sum using Nat.strong_induction_on generalizing s with
  | _ n ih =>
    by_cases he : ∃ i, Enabled s i
    · obtain ⟨i, he⟩ := he
      obtain ⟨s', hs⟩ := he .ok
      have hspends := Spends.stepTask h hs
      have hi : s.tasks i ≠ none := by
        intro hi
        simp [Server.step, State.stepTask, hi] at hs
      have hlt : (ids.map (stepsLeft s')).sum < n := by
        rw [← hn]
        refine List.sum_lt_sum _ _ (fun j _ => ?_) ⟨i, hids i hi, hspends.own⟩
        by_cases hj : j = i
        · exact hj ▸ hspends.own.le
        · exact hspends.others j hj
      obtain ⟨more, t, hmore, hrun, ht⟩ := ih _ hlt (h.step hs)
        (fun j hj => hids j (mt (tasks_eq_none_iff hs j).2 hj)) rfl
      refine ⟨.run i .ok :: more, t, ?_, Runs.run_cons_eq_some.2 ⟨s', hs, hrun⟩, ht⟩
      exact List.forall_mem_cons.2 ⟨⟨i, .ok, rfl⟩, hmore⟩
    · exact ⟨[], s, by simp, rfl, idle_of_not_enabled h (not_exists.1 he)⟩

/-- In no run does a request take more steps than its own, however the steps interleave; where
no request can take a step every request is finished and the lock and all slots are free; and
from every reachable state steps of its requests lead there. -/
theorem every_request_answered {provider : RaindexProvider} {setting : Option String}
    {directTrades : Option DirectTrades.DirectTradesFetcher}
    (hr : Runs.run step (init provider setting directTrades) events = some s) :
    (∀ i request, .arrive i request ∈ events → stepsOf i events ≤ request.maxSteps) ∧
      ((∀ i, ¬ Enabled s i) → Idle s) ∧
      ∃ more t, (∀ e ∈ more, ∃ i o, e = .run i o) ∧ Runs.run step s more = some t ∧ Idle t := by
  have hk : s.Coherent ∧ ∀ i, Keeps s events i := by
    have h₀ : ∀ i, Keeps (init provider setting directTrades : State ι K) [] i :=
      fun i => Or.inl ⟨rfl, rfl, rfl⟩
    exact Runs.invariant_history (P := fun es s => s.Coherent ∧ ∀ i, Keeps s es i)
      (fun es s e s' ⟨h, hk⟩ hs => ⟨h.step hs, fun i => (hk i).step h hs⟩) hr
      ⟨coherent_init .., h₀⟩
  refine ⟨fun i request hm => ?_, idle_of_not_enabled hk.1, ?_⟩
  · have ha : request ∈ arrivals i events :=
      List.mem_filterMap.2 ⟨_, hm, if_pos rfl⟩
    rcases hk.2 i with ⟨-, hnil, -⟩ | ⟨request', -, hone, hle⟩
    · rw [hnil] at ha
      cases ha
    · rw [hone, List.mem_singleton] at ha
      exact ha ▸ le_of_add_le_left hle
  · refine exists_idle hk.1 (events.filterMap fun
      | .arrive i _ => some i
      | .run _ _ => none
      | .evict _ => none) fun i hi => ?_
    rcases hk.2 i with ⟨hnone, -⟩ | ⟨request, -, hone, -⟩
    · exact absurd hnone hi
    · have ha : request ∈ arrivals i events := hone ▸ List.mem_singleton_self request
      obtain ⟨e, he, harr⟩ := List.mem_filterMap.1 ha
      cases e with
      | arrive j request' =>
        by_cases hj : j = i
        · exact List.mem_filterMap.2 ⟨_, he, congrArg some hj⟩
        · simp [Event.arrival, hj] at harr
      | run j o => cases harr
      | evict slot => cases harr

theorem every_request_answered_behindUpdate :
    ∃ more t, Runs.run step behindUpdate more = some t ∧ Idle t := by
  have hr : Runs.run step (init ⟨"a", []⟩ (some "a") none) queuedBehindUpdate =
      some behindUpdate := (Option.some_get _).symm
  obtain ⟨more, t, -, hrun, ht⟩ := (every_request_answered hr).2.2
  exact ⟨more, t, hrun, ht⟩

end Runs

end AlbionApi.Server
