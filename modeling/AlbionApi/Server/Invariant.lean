import AlbionApi.Server.Model

/-! # The invariant of the server

The lock and the slots say of each request what its handler says of itself,
and the code ahead of a reader keeps to one order: a cache that locks inside is
entered without the guard, every other one with it, and no slot is entered by
the owner of another.
-/

namespace AlbionApi.Server

variable {ι K : Type}

def PutPhase.guard : PutPhase → Option LockMode
  | dbPath => some .read
  | setSetting _ | assign _ | dropGuard _ | unwind => some .write
  | _ => none

def PutPhase.wants : PutPhase → Option LockMode
  | read => some .read
  | write _ => some .write
  | _ => none

def Reader.wants (r : Reader K) : Option LockMode :=
  match r.waits, r.rest with
  | none, .read :: _ => some .read
  | _, _ => none

namespace Task

def guard : Task K → Option LockMode
  | reader r => if r.guard then some .read else none
  | put _ phase => phase.guard

def wants : Task K → Option LockMode
  | reader r => r.wants
  | put _ phase => phase.wants

def owns : Task K → Option (Slot K)
  | reader r => r.owns
  | put _ _ => none

def waitsFor : Task K → Option (Slot K)
  | reader r => r.waits.map Prod.fst
  | put _ _ => none

end Task

def Settles (slot : Slot K) : List (Instr K) → Prop
  | .settle slot' _ :: _ => slot' = slot
  | _ => False

/-- Code that keeps to the order of guards and slots, from a guard and an owned slot on. A guard
taken inside a slot's computation is dropped right before its end. -/
def Ordered : Bool → Option (Slot K) → List (Instr K) → Prop
  | g, o, [] => g = false ∧ o = none
  | g, o, .read :: code => g = false ∧ (∀ slot ∈ o, slot.1.locksInside) ∧ Ordered true o code
  | g, o, .dropRead :: code =>
    g = true ∧ (∀ slot ∈ o, slot.1.locksInside ∧ Settles slot code) ∧ Ordered false o code
  | g, o, .getOrTryInsert slot _ :: code =>
    g = !slot.1.locksInside ∧ o = none ∧ Ordered g none code
  | g, o, .compute _ :: code => g = true ∧ Ordered g o code
  | g, o, .settle slot _ :: code => o = some slot ∧ Ordered g none code
  | g, o, .get _ :: code => g = true ∧ o = none ∧ Ordered g o code
  | g, o, .fetchMissing :: code => g = true ∧ o = none ∧ Ordered g o code
  | g, o, .insert _ :: code => g = true ∧ o = none ∧ Ordered g o code

structure Reader.Disciplined (r : Reader K) : Prop where
  code : Ordered r.guard r.owns r.rest
  owner : ∀ slot, r.owns = some slot → slot.1.locksInside = false → r.guard = true
  waiter : ∀ slot skipError, r.waits = some (slot, skipError) →
    r.owns = none ∧ r.guard = !slot.1.locksInside

def Task.Disciplined : Task K → Prop
  | reader r => r.Disciplined
  | put _ _ => True

theorem ordered_abort (g : Bool) : Ordered (K := K) g none (if g then [.dropRead] else []) := by
  cases g <;> simp [Ordered]

theorem ordered_initCode {slot : Slot K} {code : List (Instr K)} {skipError : Bool}
    (h : Ordered (!slot.1.locksInside) none code) :
    Ordered (!slot.1.locksInside) (some slot)
      (initCode slot ++ .settle slot skipError :: code) := by
  unfold initCode
  cases hl : slot.1.locksInside <;> simp_all [Ordered, Settles]

theorem ordered_map_getOrTryInsert {keys : List K} {code : List (Instr K)} {c : CacheName}
    {skipError : Bool} (hc : c.locksInside = false) (h : Ordered true none code) :
    Ordered true none (keys.map (fun k => .getOrTryInsert (c, k) skipError) ++ code) := by
  induction keys with
  | nil => exact h
  | cons k keys ih => exact ⟨by rw [hc]; rfl, rfl, ih⟩

theorem ordered_map_get {slots : List K} {code : List (Instr K)} {c : CacheName}
    (h : Ordered true none code) :
    Ordered true none (slots.map (fun k => .get (c, k)) ++ code) := by
  induction slots with
  | nil => exact h
  | cons k slots ih => exact ⟨rfl, rfl, ih⟩

theorem ordered_fetchMissing {slots : List (Slot K)} {code : List (Instr K)}
    (h : Ordered true none code) :
    Ordered true none (slots.flatMap (fun slot => [.compute slot.1, .insert slot]) ++ code) := by
  induction slots with
  | nil => exact h
  | cons slot slots ih => exact ⟨rfl, rfl, rfl, ih⟩

theorem Reader.disciplined_start {code : List (Instr K)} (h : Ordered false none code) :
    (Reader.start code).Disciplined where
  code := h
  owner _ h := by cases h
  waiter _ _ h := by cases h

theorem Reader.settle_cases (r : Reader K) (rest : List (Instr K)) (skipError : Bool) :
    (r.settle rest skipError).guard = r.guard ∧ (r.settle rest skipError).owns = none ∧
      (r.settle rest skipError).waits = r.waits ∧ (r.settle rest skipError).value = none ∧
      ((r.settle rest skipError).rest = rest ∨
        (r.settle rest skipError).rest = if r.guard then [.dropRead] else []) := by
  unfold settle
  by_cases hs : (r.value.isSome || skipError) = true
  · rw [if_pos hs]
    exact ⟨rfl, rfl, rfl, rfl, Or.inl rfl⟩
  · rw [if_neg hs]
    exact ⟨rfl, rfl, rfl, rfl, Or.inr rfl⟩

theorem Request.disciplined [DecidableEq K] (hasFetcher : Bool) (request : Request K) :
    (request.task hasFetcher).Disciplined := by
  have hguarded : ∀ slot : Slot K, slot.1.locksInside = false →
      (Reader.start (guarded slot)).Disciplined := by
    intro slot hs
    exact Reader.disciplined_start ⟨rfl, by simp, by simp [hs], rfl, rfl, by simp, rfl, rfl⟩
  cases request with
  | getOrder hash => exact Reader.disciplined_start ⟨rfl, rfl, rfl, rfl⟩
  | postSwapQuote key => exact Reader.disciplined_start ⟨rfl, rfl, rfl, rfl⟩
  | getOrdersByAddress key => exact hguarded _ rfl
  | getOrdersByToken key => exact hguarded _ rfl
  | getTradesByTx txHash => exact hguarded _ rfl
  | getTradesByAddress key => exact hguarded _ rfl
  | getTakerTrades sender pageHashes =>
    apply Reader.disciplined_start
    unfold Server.getTakerTrades
    split_ifs
    · exact ⟨rfl, by simp, rfl, rfl, ordered_map_getOrTryInsert rfl ⟨rfl, by simp, rfl, rfl⟩⟩
    · exact ⟨rfl, by simp, rfl, by simp, rfl, rfl⟩
  | postTradesBatch hashes =>
    apply Reader.disciplined_start
    unfold Server.postTradesBatch
    split_ifs
    · exact ⟨rfl, rfl⟩
    · rw [List.append_assoc]
      exact ⟨rfl, by simp, ordered_map_get ⟨rfl, rfl, rfl, by simp, rfl, rfl⟩⟩
  | uncached => exact Reader.disciplined_start ⟨rfl, by simp, rfl, by simp, rfl, rfl⟩
  | putRegistry url => trivial

variable [DecidableEq ι]

/-- What the lock and the slots record is what the requests hold, want and wait for. -/
structure Coherent (tasks : ι → Option (Task K)) (lock : FairLock ι)
    (slots : Slot K → Option ι) : Prop where
  valid : lock.Valid
  holds : ∀ i, lock.holds i = (tasks i).bind Task.guard
  queue : ∀ i m, (i, m) ∈ lock.queue → (tasks i).bind Task.wants = some m
  owners : ∀ slot i, slots slot = some i ↔ (tasks i).bind Task.owns = some slot
  waits : ∀ i slot, (tasks i).bind Task.waitsFor = some slot → slots slot ≠ none
  disciplined : ∀ i t, tasks i = some t → t.Disciplined

namespace Coherent

variable {tasks : ι → Option (Task K)} {lock lock' : FairLock ι} {slots : Slot K → Option ι}
  {i : ι} {t : Task K} {slot : Slot K} {m : LockMode}

theorem setTask {slots' : Slot K → Option ι} (h : Coherent tasks lock slots)
    (hvalid : lock'.Valid)
    (hholds : lock'.holds = Function.update lock.holds i t.guard)
    (hqueue : ∀ j m, (j, m) ∈ lock'.queue → j ≠ i ∧ (j, m) ∈ lock.queue)
    (howns : ∀ slot j, slots' slot = some j ↔
      if j = i then t.owns = some slot else slots slot = some j)
    (hkept : ∀ j slot, (tasks j).bind Task.waitsFor = some slot → slots' slot ≠ none)
    (hwaits : ∀ slot, t.waitsFor = some slot → slots' slot ≠ none)
    (hd : t.Disciplined) :
    Coherent (Function.update tasks i (some t)) lock' slots' where
  valid := hvalid
  holds j := by
    rw [hholds]
    by_cases hj : j = i
    · rw [hj, Function.update_self, Function.update_self]
      rfl
    · rw [Function.update_of_ne hj, Function.update_of_ne hj]
      exact h.holds j
  queue j m hm := by
    obtain ⟨hj, hm⟩ := hqueue j m hm
    rw [Function.update_of_ne hj]
    exact h.queue j m hm
  owners slot j := by
    rw [howns]
    by_cases hj : j = i
    · rw [if_pos hj, hj, Function.update_self]
      rfl
    · rw [if_neg hj, Function.update_of_ne hj]
      exact h.owners slot j
  waits j slot hw := by
    by_cases hj : j = i
    · rw [hj, Function.update_self] at hw
      exact hwaits slot hw
    · rw [Function.update_of_ne hj] at hw
      exact hkept j slot hw
  disciplined j t' ht := by
    by_cases hj : j = i
    · rw [hj, Function.update_self] at ht
      exact Option.some.inj ht ▸ hd
    · rw [Function.update_of_ne hj] at ht
      exact h.disciplined j t' ht

theorem not_mem_queue (h : Coherent tasks lock slots)
    (hw : (tasks i).bind Task.wants = none) {j : ι} (hm : (j, m) ∈ lock.queue) : j ≠ i := by
  rintro rfl
  have := h.queue j m hm
  rw [hw] at this
  cases this

theorem queue_same (h : Coherent tasks lock slots) (hw : (tasks i).bind Task.wants = none)
    (j : ι) (m : LockMode) (hm : (j, m) ∈ lock.queue) : j ≠ i ∧ (j, m) ∈ lock.queue :=
  ⟨h.not_mem_queue hw hm, hm⟩

theorem holds_same (h : Coherent tasks lock slots) (hg : (tasks i).bind Task.guard = t.guard) :
    lock.holds = Function.update lock.holds i t.guard := by
  rw [← hg, ← h.holds, Function.update_eq_self]

theorem owners_same (h : Coherent tasks lock slots)
    (ho : (tasks i).bind Task.owns = t.owns) (slot : Slot K) (j : ι) :
    slots slot = some j ↔ if j = i then t.owns = some slot else slots slot = some j := by
  by_cases hj : j = i
  · rw [if_pos hj, hj, h.owners, ho]
  · rw [if_neg hj]

theorem advance (h : Coherent tasks lock slots)
    (hw : (tasks i).bind Task.wants = none)
    (hg : (tasks i).bind Task.guard = t.guard) (ho : (tasks i).bind Task.owns = t.owns)
    (hwaits : ∀ slot, t.waitsFor = some slot → slots slot ≠ none) (hd : t.Disciplined) :
    Coherent (Function.update tasks i (some t)) lock slots := by
  exact h.setTask h.valid (h.holds_same hg) (h.queue_same hw) (h.owners_same ho) h.waits hwaits hd

theorem request (h : Coherent tasks lock slots) (hw : (tasks i).bind Task.wants = some m)
    (hg : (tasks i).bind Task.guard = none) (hq : ¬ lock.queued i) :
    Coherent tasks (lock.request i m) slots where
  valid := h.valid.request hq (by rw [h.holds, hg])
  holds := h.holds
  queue j m' hm := by
    rw [FairLock.request, List.mem_append, List.mem_singleton] at hm
    rcases hm with hm | hm
    · exact h.queue j m' hm
    · obtain ⟨rfl, rfl⟩ := Prod.mk.inj hm
      exact hw
  owners := h.owners
  waits := h.waits
  disciplined := h.disciplined

theorem grant (h : Coherent tasks lock slots) (hl : lock.grant i = some lock')
    (hw : (tasks i).bind Task.wants = some m) (hg : t.guard = some m)
    (ho : (tasks i).bind Task.owns = t.owns) (hwaits : t.waitsFor = none) (hd : t.Disciplined) :
    Coherent (Function.update tasks i (some t)) lock' slots := by
  obtain ⟨m', hqueue, hholds, -, -⟩ := FairLock.grant_spec hl
  have hm' : m' = m := by
    have := h.queue i m' (by rw [hqueue]; exact List.mem_cons_self)
    rw [hw] at this
    exact (Option.some.inj this).symm
  refine h.setTask (h.valid.grant hl) (by rw [hholds, hm', hg]) ?_ (h.owners_same ho)
    h.waits (by simp [hwaits]) hd
  intro j m'' hm
  refine ⟨?_, by rw [hqueue]; exact List.mem_cons_of_mem _ hm⟩
  rintro rfl
  have hn := h.valid.queue
  rw [hqueue, List.map_cons, List.nodup_cons] at hn
  exact hn.1 (List.mem_map.2 ⟨_, hm, rfl⟩)

theorem drop (h : Coherent tasks lock slots) (hvalid : lock'.Valid)
    (hholds : lock'.holds = Function.update lock.holds i none)
    (hqueue : lock'.queue = lock.queue) (hw : (tasks i).bind Task.wants = none)
    (hg : t.guard = none) (ho : (tasks i).bind Task.owns = t.owns) (hwaits : t.waitsFor = none)
    (hd : t.Disciplined) : Coherent (Function.update tasks i (some t)) lock' slots := by
  refine h.setTask hvalid (by rw [hholds, hg]) ?_ (h.owners_same ho) h.waits
    (by simp [hwaits]) hd
  rw [hqueue]
  exact h.queue_same hw

theorem own [DecidableEq K] (h : Coherent tasks lock slots) (hfree : slots slot = none)
    (hw : (tasks i).bind Task.wants = none) (hg : (tasks i).bind Task.guard = t.guard)
    (ho : (tasks i).bind Task.owns = none) (ht : t.owns = some slot) (hwaits : t.waitsFor = none)
    (hd : t.Disciplined) :
    Coherent (Function.update tasks i (some t)) lock (Function.update slots slot (some i)) := by
  refine h.setTask h.valid (h.holds_same hg) (h.queue_same hw) ?_ ?_ (by simp [hwaits]) hd
  · intro slot' j
    by_cases hs : slot' = slot
    · rw [hs, Function.update_self, ht, Option.some.injEq, hfree]
      by_cases hj : j = i
      · simp [hj]
      · simp [hj, Ne.symm hj]
    · rw [Function.update_of_ne hs, ht, Option.some.injEq]
      by_cases hj : j = i
      · rw [if_pos hj, hj, h.owners, ho]
        simp [Ne.symm hs]
      · rw [if_neg hj]
  · intro j slot' hj
    by_cases hs : slot' = slot
    · rw [hs, Function.update_self]
      exact Option.some_ne_none i
    · rw [Function.update_of_ne hs]
      exact h.waits j slot' hj

theorem disown [DecidableEq K] (h : Coherent tasks lock slots)
    (hfree : ∀ j, (tasks j).bind Task.waitsFor ≠ some slot)
    (hw : (tasks i).bind Task.wants = none) (hg : (tasks i).bind Task.guard = t.guard)
    (ho : (tasks i).bind Task.owns = some slot) (ht : t.owns = none) (hwaits : t.waitsFor = none)
    (hd : t.Disciplined) :
    Coherent (Function.update tasks i (some t)) lock (Function.update slots slot none) := by
  refine h.setTask h.valid (h.holds_same hg) (h.queue_same hw) ?_ ?_ (by simp [hwaits]) hd
  · intro slot' j
    by_cases hs : slot' = slot
    · rw [hs, Function.update_self, ht, (h.owners slot i).2 ho]
      simp [eq_comm]
    · rw [Function.update_of_ne hs, ht]
      by_cases hj : j = i
      · rw [if_pos hj, hj, h.owners, ho]
        simp [Ne.symm hs]
      · rw [if_neg hj]
  · intro j slot' hj
    have hs : slot' ≠ slot := by
      rintro rfl
      exact hfree j hj
    rw [Function.update_of_ne hs]
    exact h.waits j slot' hj

theorem writer_unique (h : Coherent tasks lock slots) {j : ι} {t' : Task K} (hi : tasks i = some t)
    (hg : t.guard = some .write) (hj : tasks j = some t') (hg' : t'.guard = some .write) :
    i = j := by
  have hwi : lock.writer = some i := FairLock.holds_eq_write.1 (by rw [h.holds, hi]; exact hg)
  have hwj : lock.writer = some j := FairLock.holds_eq_write.1 (by rw [h.holds, hj]; exact hg')
  rw [hwi] at hwj
  exact Option.some.inj hwj

theorem guard_eq_false (h : Coherent tasks lock slots) (hi : tasks i = some t)
    (hg : t.guard = some .write) {j : ι} {r : Reader K} (hj : tasks j = some (.reader r)) :
    r.guard = false := by
  have hn := h.valid.holds_ne_read (i := i) (j := j) (by rw [h.holds, hi]; exact hg)
  rw [h.holds, hj, Option.bind_some, Task.guard] at hn
  by_contra hr
  simp [hr] at hn

end Coherent

namespace Task

variable [DecidableEq K] {t : Task K} {slot : Slot K} {success : Bool} {m : LockMode}

theorem wake_cases (slot : Slot K) (success : Bool) (t : Task K) :
    t.wake slot success = t ∨ ∃ r skipError, t = .reader r ∧ r.waits = some (slot, skipError) ∧
      (t.wake slot success = .reader { r with waits := none } ∨
        t.wake slot success = .reader ({ r with waits := none } : Reader K).abort) := by
  cases t with
  | put url phase => exact Or.inl rfl
  | reader r =>
    rcases hw : r.waits with _ | ⟨slot', skipError⟩
    · exact Or.inl (by simp only [wake, hw])
    · by_cases hs : slot' = slot
      · refine Or.inr ⟨r, skipError, rfl, by rw [hw, hs], ?_⟩
        simp only [wake, hw, if_pos hs]
        split_ifs
        · exact Or.inl rfl
        · exact Or.inr rfl
      · exact Or.inl (by simp only [wake, hw, if_neg hs])

@[simp] theorem wake_guard (slot : Slot K) (success : Bool) (t : Task K) :
    (t.wake slot success).guard = t.guard := by
  rcases wake_cases slot success t with h | ⟨r, skipError, rfl, -, h | h⟩ <;> rw [h] <;> rfl

@[simp] theorem wake_owns (slot : Slot K) (success : Bool) (t : Task K) :
    (t.wake slot success).owns = t.owns := by
  rcases wake_cases slot success t with h | ⟨r, skipError, rfl, -, h | h⟩ <;> rw [h] <;> rfl

theorem wake_wants (h : t.wants = some m) : t.wake slot success = t := by
  rcases wake_cases slot success t with hw | ⟨r, skipError, rfl, hr, -⟩
  · exact hw
  · simp [wants, Reader.wants, hr] at h

theorem wake_waitsFor {slot' : Slot K} (h : (t.wake slot success).waitsFor = some slot') :
    t.waitsFor = some slot' ∧ slot' ≠ slot := by
  cases t with
  | put url phase => cases h
  | reader r =>
    rcases hw : r.waits with _ | ⟨slot₀, skipError⟩
    · simp [wake, hw, waitsFor] at h
    · by_cases hs : slot₀ = slot
      · simp only [wake, hw, if_pos hs] at h
        split_ifs at h
        · cases h
        · cases h
      · simp only [wake, hw, if_neg hs, waitsFor, Option.map_some, Option.some.injEq] at h
        subst h
        exact ⟨by simp [waitsFor, hw], hs⟩

theorem Disciplined.wake (h : t.Disciplined) : (t.wake slot success).Disciplined := by
  rcases wake_cases slot success t with hw | ⟨r, skipError, rfl, hr, hw | hw⟩
  · rwa [hw]
  · rw [hw]
    exact ⟨h.code, h.owner, fun _ _ hn => by cases hn⟩
  · rw [hw]
    have ho : r.owns = none := (h.waiter _ _ hr).1
    refine ⟨?_, h.owner, fun _ _ hn => by cases hn⟩
    change Ordered r.guard r.owns (if r.guard then [.dropRead] else [])
    rw [ho]
    exact ordered_abort r.guard

theorem not_waitsFor_wake (slot : Slot K) (success : Bool) (t : Option (Task K)) :
    (t.map (Task.wake slot success)).bind Task.waitsFor ≠ some slot := by
  intro h
  obtain ⟨t', ht', hw⟩ := Option.bind_eq_some_iff.1 h
  obtain ⟨t, -, rfl⟩ := Option.map_eq_some_iff.1 ht'
  exact (wake_waitsFor hw).2 rfl

end Task

theorem Coherent.wake [DecidableEq K] {tasks : ι → Option (Task K)} {lock : FairLock ι}
    {slots : Slot K → Option ι} (h : Coherent tasks lock slots) (slot : Slot K) (success : Bool) :
    Coherent (fun j => (tasks j).map (Task.wake slot success)) lock slots where
  valid := h.valid
  holds j := by
    rw [h.holds]
    cases tasks j <;> simp
  queue j m hm := by
    have hw := h.queue j m hm
    rcases hj : tasks j with _ | t
    · simp [hj] at hw
    · rw [hj, Option.bind_some] at hw
      rw [Option.map_some, Option.bind_some, Task.wake_wants hw, hw]
  owners slot' j := by
    rw [h.owners]
    cases tasks j <;> simp
  waits j slot' hj := by
    obtain ⟨t', ht', hw⟩ := Option.bind_eq_some_iff.1 hj
    obtain ⟨t, ht, rfl⟩ := Option.map_eq_some_iff.1 ht'
    exact h.waits j slot' (by rw [ht, Option.bind_some, (Task.wake_waitsFor hw).1])
  disciplined j t' ht' := by
    obtain ⟨t, ht, rfl⟩ := Option.map_eq_some_iff.1 ht'
    exact (h.disciplined j t ht).wake

/-! ## Every reachable state is coherent -/

namespace State

variable {s s' : State ι K} {i : ι} {r : Reader K} {o : Outcome}
  {url : String} {phase : PutPhase}

def Coherent (s : State ι K) : Prop := Server.Coherent s.tasks s.lock s.owners

theorem Coherent.acquire {t granted : Task K} {m : LockMode} (h : s.Coherent)
    (ht : s.tasks i = some t) (hs : s.acquire i m granted = some s')
    (hw : t.wants = some m) (hg : t.guard = none)
    (hgranted : granted.guard = some m) (ho : t.owns = granted.owns)
    (hwaits : granted.waitsFor = none) (hd : granted.Disciplined) : s'.Coherent := by
  unfold State.acquire at hs
  split_ifs at hs with hq
  · obtain ⟨lock, hl, rfl⟩ := Option.map_eq_some_iff.1 hs
    exact Server.Coherent.grant h hl (by rw [ht]; exact hw) hgranted (by rw [ht]; exact ho) hwaits
      hd
  · obtain rfl := Option.some.inj hs
    exact Server.Coherent.request h (by rw [ht]; exact hw) (by rw [ht]; exact hg) hq

theorem Coherent.advanceReader {r' : Reader K} (h : s.Coherent)
    (hi : s.tasks i = some (.reader r)) (hw : r.wants = none) (hg : r'.guard = r.guard)
    (ho : r'.owns = r.owns) (hwaits : r'.waits = none) (hc : Ordered r.guard r.owns r'.rest) :
    Server.Coherent (Function.update s.tasks i (some (.reader r'))) s.lock s.owners := by
  refine Server.Coherent.advance h ?_ ?_ ?_ (by simp [Task.waitsFor, hwaits]) ?_
  · rw [hi]
    exact hw
  · rw [hi]
    simp only [Option.bind_some, Task.guard, hg]
  · rw [hi]
    exact ho.symm
  · refine ⟨by rw [hg, ho]; exact hc, ?_, fun _ _ hn => by rw [hwaits] at hn; cases hn⟩
    rw [hg, ho]
    exact (h.disciplined i _ hi : r.Disciplined).owner

theorem Coherent.advancePut {phase' : PutPhase} (h : s.Coherent)
    (hi : s.tasks i = some (.put url phase)) (hw : phase.wants = none)
    (hg : phase.guard = phase'.guard) :
    Server.Coherent (Function.update s.tasks i (some (.put url phase'))) s.lock s.owners := by
  refine Server.Coherent.advance h ?_ ?_ (by rw [hi]; rfl) (fun _ hn => by cases hn) trivial
  · rw [hi]
    exact hw
  · rw [hi]
    exact hg

theorem Coherent.dropWrite {phase' : PutPhase} (h : s.Coherent)
    (hi : s.tasks i = some (.put url phase)) (hw : phase.wants = none)
    (hg : phase.guard = some .write) (hg' : phase'.guard = none) :
    Server.Coherent (Function.update s.tasks i (some (.put url phase'))) s.lock.dropWrite
      s.owners := by
  have hh : s.lock.holds i = some .write := by
    rw [h.holds, hi]
    exact hg
  refine Server.Coherent.drop h h.valid.dropWrite (h.valid.holds_dropWrite hh) rfl ?_ hg'
    (by rw [hi]; rfl) rfl trivial
  rw [hi]
  exact hw

theorem Coherent.stepPut (h : s.Coherent) (hi : s.tasks i = some (.put url phase))
    (hs : s.stepPut i url phase o = some s') : s'.Coherent := by
  cases phase with
  | check =>
    obtain rfl := Option.some.inj hs
    apply h.advancePut hi rfl
    split_ifs <;> rfl
  | read => exact h.acquire hi hs rfl rfl rfl rfl rfl trivial
  | dbPath =>
    obtain rfl := Option.some.inj hs
    have hh : s.lock.holds i = some .read := by
      rw [h.holds, hi]
      rfl
    exact Server.Coherent.drop h h.valid.dropRead (h.valid.holds_dropRead hh) rfl (by rw [hi]; rfl)
      rfl (by rw [hi]; rfl) rfl trivial
  | load =>
    cases o with
    | loaded orderbooks =>
      obtain rfl := Option.some.inj hs
      exact h.advancePut hi rfl rfl
    | error =>
      obtain rfl := Option.some.inj hs
      exact h.advancePut hi rfl rfl
    | ok =>
      obtain rfl := Option.some.inj hs
      exact h.advancePut hi rfl rfl
  | write p =>
    obtain ⟨s₁, hs₁, rfl⟩ := Option.map_eq_some_iff.1 hs
    have h₁ : s₁.Coherent := h.acquire hi hs₁ rfl rfl rfl rfl rfl trivial
    split_ifs
    · exact h₁
    · exact h₁
  | setSetting p =>
    simp only [State.stepPut] at hs
    split_ifs at hs
    · obtain rfl := Option.some.inj hs
      exact h.advancePut hi rfl rfl
    · obtain rfl := Option.some.inj hs
      exact h.advancePut hi rfl rfl
  | assign p =>
    obtain rfl := Option.some.inj hs
    exact h.advancePut hi rfl rfl
  | dropGuard n =>
    obtain rfl := Option.some.inj hs
    exact h.dropWrite hi rfl rfl rfl
  | unwind =>
    obtain rfl := Option.some.inj hs
    exact h.dropWrite hi rfl rfl rfl
  | invalidate n caches =>
    cases caches with
    | nil =>
      obtain rfl := Option.some.inj hs
      exact h.advancePut hi rfl rfl
    | cons c cs =>
      obtain rfl := Option.some.inj hs
      exact h.advancePut hi rfl rfl
  | finished ok => cases hs

variable [DecidableEq K]

theorem Coherent.stepReader (h : s.Coherent) (hi : s.tasks i = some (.reader r))
    (hw : r.waits = none) (hs : s.stepReader i r o = some s') : s'.Coherent := by
  have hd : r.Disciplined := h.disciplined i _ hi
  obtain ⟨code, guard, owns, waits, value, missing, failed⟩ := r
  obtain rfl : waits = none := hw
  have hc : Ordered guard owns code := hd.code
  have hown : ∀ slot, owns = some slot → slot.1.locksInside = false → guard = true := hd.owner
  match code with
  | [] => cases hs
  | .read :: rest =>
    obtain ⟨rfl, hl, hc⟩ := hc
    simp only [State.stepReader] at hs
    refine h.acquire hi hs rfl rfl rfl rfl rfl ⟨hc, fun _ _ _ => rfl, fun _ _ hn => ?_⟩
    cases hn
  | .dropRead :: rest =>
    obtain ⟨rfl, hl, hc⟩ := hc
    obtain rfl := Option.some.inj hs
    have hr : s.lock.holds i = some .read := by
      rw [h.holds, hi]
      rfl
    refine Server.Coherent.drop h h.valid.dropRead (h.valid.holds_dropRead hr) rfl (by rw [hi]; rfl)
      rfl (by rw [hi]; rfl) rfl ⟨hc, ?_, fun _ _ hn => by cases hn⟩
    intro slot hs hf
    rw [(hl slot hs).1] at hf
    cases hf
  | .getOrTryInsert slot skipError :: rest =>
    obtain ⟨hg, rfl, hc⟩ := hc
    simp only [State.stepReader] at hs
    rcases hv : s.caches slot with _ | v
    · rcases ho : s.owners slot with _ | j
      · rw [hv, ho] at hs
        obtain rfl := Option.some.inj hs
        refine Server.Coherent.own h ho (by rw [hi]; rfl) (by rw [hi]; rfl) (by rw [hi]; rfl) rfl
          rfl ⟨?_, ?_, fun _ _ hn => by cases hn⟩
        · rw [hg] at hc ⊢
          exact ordered_initCode hc
        · rintro slot' hs' hf
          obtain rfl := Option.some.inj hs'
          rw [hg, hf]
          rfl
      · rw [hv, ho] at hs
        obtain rfl := Option.some.inj hs
        refine Server.Coherent.advance h (by rw [hi]; rfl) (by rw [hi]; rfl) (by rw [hi]; rfl) ?_
          ⟨hc, hown, ?_⟩
        · rintro slot' hs'
          obtain rfl := Option.some.inj hs'
          change s.owners slot ≠ none
          rw [ho]
          exact Option.some_ne_none j
        · rintro slot' skip' hs'
          obtain ⟨rfl, rfl⟩ := Prod.mk.inj (Option.some.inj hs')
          exact ⟨rfl, hg⟩
    · rw [hv] at hs
      obtain rfl := Option.some.inj hs
      exact h.advanceReader hi rfl rfl rfl rfl hc
  | .compute c :: rest =>
    obtain rfl := Option.some.inj hs
    exact h.advanceReader hi rfl rfl rfl rfl hc.2
  | .settle slot skipError :: rest =>
    obtain ⟨rfl, hc⟩ := hc
    obtain rfl := Option.some.inj hs
    obtain ⟨hg, ho, hw, -, hr⟩ := Reader.settle_cases ⟨.settle slot skipError :: rest, guard,
      some slot, none, value, missing, failed⟩ rest skipError
    have hkeep : (s.keep slot value).Coherent := by
      rcases value with _ | v
      · exact h
      · exact h
    have hi' : ((s.keep slot value).release slot value.isSome).tasks i = s.tasks i := by
      rw [release_tasks, keep_tasks, hi]
      rfl
    refine Server.Coherent.disown (hkeep.wake slot value.isSome)
      (fun j => Task.not_waitsFor_wake slot value.isSome _) ?_ ?_ ?_ ho ?_ ⟨?_, ?_, ?_⟩
    · change (((s.keep slot value).release slot value.isSome).tasks i).bind _ = _
      rw [hi', hi]
      rfl
    · change (((s.keep slot value).release slot value.isSome).tasks i).bind _ = _
      rw [hi', hi, Task.guard, hg]
      rfl
    · change (((s.keep slot value).release slot value.isSome).tasks i).bind _ = _
      rw [hi', hi]
      rfl
    · rw [Task.waitsFor, hw]
      rfl
    · rw [hg, ho]
      rcases hr with hr | hr
      · rw [hr]
        exact hc
      · rw [hr]
        exact ordered_abort guard
    · rw [ho]
      intro _ hn
      cases hn
    · rw [hw]
      intro _ _ hn
      cases hn
  | .get slot :: rest =>
    obtain rfl := Option.some.inj hs
    exact h.advanceReader hi rfl rfl rfl rfl hc.2.2
  | .fetchMissing :: rest =>
    obtain ⟨rfl, rfl, hc⟩ := hc
    obtain rfl := Option.some.inj hs
    exact h.advanceReader hi rfl rfl rfl rfl (ordered_fetchMissing hc)
  | .insert slot :: rest =>
    obtain rfl := Option.some.inj hs
    rcases value with _ | v
    · exact h.advanceReader hi rfl rfl rfl rfl hc.2.2
    · exact h.advanceReader hi rfl rfl rfl rfl hc.2.2

theorem Coherent.stepTask (h : s.Coherent) (hs : s.stepTask i o = some s') : s'.Coherent := by
  rcases stepTask_eq_some.1 hs with ⟨r, hi, hw, hs⟩ | ⟨url, phase, hi, hs⟩
  · exact h.stepReader hi hw hs
  · exact h.stepPut hi hs

end State

theorem State.Coherent.step [DecidableEq K] {s s' : State ι K} {e : Event ι K} (h : s.Coherent)
    (hs : step s e = some s') : s'.Coherent := by
  cases e with
  | arrive i request =>
    obtain ⟨hi, rfl⟩ := step_arrive hs
    refine Server.Coherent.advance h ?_ ?_ ?_ ?_ (request.disciplined _)
    · rw [hi]; rfl
    · rw [hi]; cases request <;> rfl
    · rw [hi]; cases request <;> rfl
    · intro slot hn; cases request <;> cases hn
  | run i o => exact h.stepTask hs
  | evict slot =>
    obtain rfl := Option.some.inj hs
    exact h

theorem coherent_init (provider : RaindexProvider) (setting : Option String)
    (directTrades : Option DirectTrades.DirectTradesFetcher) :
    (init provider setting directTrades : State ι K).Coherent where
  valid := FairLock.free_valid
  holds _ := rfl
  queue _ _ h := by cases h
  owners _ _ := by simp [init]
  waits _ _ h := by cases h
  disciplined _ _ h := by cases h

theorem coherent_of_run [DecidableEq K] {provider : RaindexProvider} {setting : Option String}
    {directTrades : Option DirectTrades.DirectTradesFetcher} {events : List (Event ι K)}
    {s : State ι K} (hr : Runs.run step (init provider setting directTrades) events = some s) :
    s.Coherent :=
  Runs.invariant (fun _ _ _ h hs => h.step hs) hr (coherent_init provider setting directTrades)

end AlbionApi.Server
