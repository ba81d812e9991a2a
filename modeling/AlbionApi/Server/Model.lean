import AlbionApi.DirectTrades.Batch
import AlbionApi.Foundations.FairLock
import AlbionApi.Foundations.Runs
import Mathlib.Data.List.Count

/-! # The server

Requests interleave over the registry provider behind its lock, the registered
caches with a slot for each key under computation, and the stored setting. A
reader's handler is a program of instructions in the order of its source;
`put_registry` goes through its own phases. A cached value is known by the
number of registry updates behind the provider it was computed from.
-/

namespace AlbionApi.Server

/-- The registered caches, in the order of their registration. -/
inductive CacheName where
  | orderDetail
  | ordersByOwner
  | ordersByToken
  | swapQuote
  | tradesByAddress
  | tradesByTx
  | tradesByOrderHash
  | takerTradesTxHash
  deriving DecidableEq, Repr

/-- `registry_caches`. -/
def registryCaches : List CacheName :=
  [.orderDetail, .ordersByOwner, .ordersByToken, .swapQuote, .tradesByAddress, .tradesByTx,
    .tradesByOrderHash, .takerTradesTxHash]

theorem mem_registryCaches (c : CacheName) : c ∈ registryCaches := by
  cases c <;> decide

abbrev Slot (K : Type) := CacheName × K

/-- The caches whose computation takes the read guard itself, inside the slot. -/
def CacheName.locksInside : CacheName → Bool
  | orderDetail | swapQuote => true
  | _ => false

/-- `RaindexProvider`, by its registry's URL and orderbooks. -/
structure RaindexProvider where
  registryUrl : String
  orderbooks : List OrderbookCfg
  deriving DecidableEq, Repr

variable {ι K : Type}

/-! ## Handlers -/

inductive Instr (K : Type) where
  /-- `shared_raindex.read().await`. -/
  | read
  /-- The end of the read guard's scope. -/
  | dropRead
  /-- `get_or_try_insert`; an error ends the handler unless the caller skips it. -/
  | getOrTryInsert (slot : Slot K) (skipError : Bool)
  /-- A computation for a cache over the guarded provider. -/
  | compute (cache : CacheName)
  /-- The end of a `get_or_try_insert` that computed: keep the value, free the slot. -/
  | settle (slot : Slot K) (skipError : Bool)
  /-- `cache.get`, which notes a missing slot. -/
  | get (slot : Slot K)
  /-- The computation of all missing slots, each with its `cache.insert`. -/
  | fetchMissing
  /-- `cache.insert` of the value just computed, if there is one. -/
  | insert (slot : Slot K)
  deriving DecidableEq, Repr

/-- The closure of a `get_or_try_insert`. -/
def initCode (slot : Slot K) : List (Instr K) :=
  if slot.1.locksInside then [.read, .compute slot.1, .dropRead] else [.compute slot.1]

/-- The requests, with the cache keys they ask for. -/
inductive Request (K : Type) where
  | getOrder (hash : K)
  | postSwapQuote (key : K)
  | getOrdersByAddress (key : K)
  | getOrdersByToken (key : K)
  | getTradesByTx (txHash : K)
  | getTradesByAddress (key : K)
  /-- With the hashes that the taker's page turns out to have. -/
  | getTakerTrades (sender : K) (pageHashes : List K)
  | postTradesBatch (hashes : List K)
  /-- A handler without a cache, such as `get_registry`. -/
  | uncached
  | putRegistry (registryUrl : String)
  deriving DecidableEq, Repr

/-- A handler that holds the guard around a single cached call. -/
def guarded (slot : Slot K) : List (Instr K) :=
  [.read, .getOrTryInsert slot false, .dropRead]

def getOrder (hash : K) : List (Instr K) := [.getOrTryInsert (.orderDetail, hash) false]

def postSwapQuote (key : K) : List (Instr K) := [.getOrTryInsert (.swapQuote, key) false]

/-- Without the direct fetcher the answer is empty. -/
def getTakerTrades (hasFetcher : Bool) (sender : K) (pageHashes : List K) : List (Instr K) :=
  if hasFetcher then
    [.read, .getOrTryInsert (.takerTradesTxHash, sender) false] ++
      pageHashes.map (fun txHash => .getOrTryInsert (.tradesByTx, txHash) true) ++ [.dropRead]
  else [.read, .dropRead]

/-- No hashes and too many of them are answered before the guard is taken. -/
def postTradesBatch (hashes : List K) : List (Instr K) :=
  if hashes = [] ∨ DirectTrades.tradesBatchMaxHashes < hashes.length then []
  else [.read] ++ hashes.map (fun hash => .get (.tradesByOrderHash, hash)) ++
    [.fetchMissing, .dropRead]

structure Reader (K : Type) where
  rest : List (Instr K)
  /-- It holds the read guard. -/
  guard : Bool
  /-- The slot it computes. -/
  owns : Option (Slot K)
  /-- The slot it waits for, and whether it skips an error of it. -/
  waits : Option (Slot K × Bool)
  /-- The value just computed, none after an error. -/
  value : Option ℕ
  missing : List (Slot K)
  failed : Bool
  deriving DecidableEq, Repr

/-- Where a `put_registry` is. -/
inductive PutPhase where
  | check
  | read
  | dbPath
  | load
  | write (newProvider : RaindexProvider)
  | setSetting (newProvider : RaindexProvider)
  | assign (newProvider : RaindexProvider)
  | dropGuard (version : ℕ)
  /-- Persisting failed; the guard is dropped on the way out. -/
  | unwind
  | invalidate (version : ℕ) (caches : List CacheName)
  | finished (ok : Bool)
  deriving DecidableEq, Repr

inductive Task (K : Type) where
  | reader (r : Reader K)
  | put (registryUrl : String) (phase : PutPhase)
  deriving DecidableEq, Repr

def Reader.start (code : List (Instr K)) : Reader K where
  rest := code
  guard := false
  owns := none
  waits := none
  value := none
  missing := []
  failed := false

def Request.task [DecidableEq K] (hasFetcher : Bool) : Request K → Task K
  | getOrder hash => .reader (.start (Server.getOrder hash))
  | postSwapQuote key => .reader (.start (Server.postSwapQuote key))
  | getOrdersByAddress key => .reader (.start (guarded (.ordersByOwner, key)))
  | getOrdersByToken key => .reader (.start (guarded (.ordersByToken, key)))
  | getTradesByTx txHash => .reader (.start (guarded (.tradesByTx, txHash)))
  | getTradesByAddress key => .reader (.start (guarded (.tradesByAddress, key)))
  | getTakerTrades sender pageHashes =>
    .reader (.start (Server.getTakerTrades hasFetcher sender pageHashes))
  | postTradesBatch hashes => .reader (.start (Server.postTradesBatch hashes))
  | uncached => .reader (.start [.read, .dropRead])
  | putRegistry url => .put url .check

def Task.finished : Task K → Prop
  | reader r => r.rest = [] ∧ r.waits = none
  | put _ (.finished _) => True
  | put _ _ => False

/-! ## Steps -/

/-- The server's state. The last three fields are only read by statements about it. -/
structure State (ι K : Type) where
  tasks : ι → Option (Task K)
  lock : FairLock ι
  provider : RaindexProvider
  /-- The stored `registry_url`. -/
  setting : Option String
  caches : Slot K → Option ℕ
  owners : Slot K → Option ι
  directTrades : Option DirectTrades.DirectTradesFetcher
  /-- The number of registry updates. -/
  version : ℕ
  /-- For each cache the latest update after which it was invalidated. -/
  invalidated : CacheName → ℕ
  /-- The requests that got the write lock, in order. -/
  writers : List ι

/-- How a call outside the server ends. -/
inductive Outcome where
  | error
  | ok
  /-- A loaded registry has these orderbooks. -/
  | loaded (orderbooks : List OrderbookCfg)
  deriving DecidableEq, Repr

/-- An early return: the guards of the handler's scope are dropped. -/
def Reader.abort (r : Reader K) : Reader K :=
  { r with rest := if r.guard then [.dropRead] else [], failed := true }

/-- The end of a slot's computation for its owner, whom an error stops unless it is skipped. -/
def Reader.settle (r : Reader K) (rest : List (Instr K)) (skipError : Bool) : Reader K :=
  let r' := { r with rest := rest, owns := none, value := none }
  if r.value.isSome || skipError then r' else r'.abort

variable [DecidableEq ι] [DecidableEq K]

/-- The owner of a slot is done with it, which wakes those who wait for it. -/
def Task.wake (slot : Slot K) (success : Bool) : Task K → Task K
  | .put url phase => .put url phase
  | .reader r =>
    match r.waits with
    | none => .reader r
    | some (slot', skipError) =>
      if slot' = slot then
        let r := { r with waits := none }
        if success || skipError then .reader r else .reader r.abort
      else .reader r

namespace State

def setTask (s : State ι K) (i : ι) (t : Task K) : State ι K :=
  { s with tasks := Function.update s.tasks i (some t) }

/-- Queue for the lock, then take it when its turn has come. -/
def acquire (s : State ι K) (i : ι) (m : LockMode) (granted : Task K) : Option (State ι K) :=
  if s.lock.queued i then
    (s.lock.grant i).map fun lock => { s.setTask i granted with lock := lock }
  else some { s with lock := s.lock.request i m }

/-- The waiters of a slot resume, and the slot is free. -/
def release (s : State ι K) (slot : Slot K) (success : Bool) : State ι K :=
  { s with
    tasks := fun i => (s.tasks i).map (Task.wake slot success)
    owners := Function.update s.owners slot none }

def keep (s : State ι K) (slot : Slot K) (value : Option ℕ) : State ι K :=
  match value with
  | none => s
  | some v => { s with caches := Function.update s.caches slot (some v) }

omit [DecidableEq ι] in
@[simp] theorem keep_tasks (s : State ι K) (slot : Slot K) (value : Option ℕ) :
    (s.keep slot value).tasks = s.tasks := by
  cases value <;> rfl

omit [DecidableEq ι] in
theorem release_tasks (s : State ι K) (slot : Slot K) (success : Bool) (i : ι) :
    (s.release slot success).tasks i = (s.tasks i).map (Task.wake slot success) := rfl

def invalidateAll (s : State ι K) (cache : CacheName) (version : ℕ) : State ι K :=
  { s with
    caches := fun slot => if slot.1 = cache then none else s.caches slot
    invalidated := Function.update s.invalidated cache (max (s.invalidated cache) version) }

/-- A step of a reader that waits for no slot. -/
def stepReader (s : State ι K) (i : ι) (r : Reader K) (o : Outcome) : Option (State ι K) :=
  match r.rest with
  | [] => none
  | .read :: rest =>
    s.acquire i .read (.reader { r with rest := rest, guard := true, value := none })
  | .dropRead :: rest =>
    some { s.setTask i (.reader { r with rest := rest, guard := false }) with
      lock := s.lock.dropRead i }
  | .getOrTryInsert slot skipError :: rest =>
    match s.caches slot with
    | some _ => some (s.setTask i (.reader { r with rest := rest }))
    | none =>
      match s.owners slot with
      | some _ =>
        some (s.setTask i (.reader { r with rest := rest, waits := some (slot, skipError) }))
      | none =>
        some { s.setTask i (.reader { r with
            rest := initCode slot ++ .settle slot skipError :: rest
            owns := some slot
            value := none }) with
          owners := Function.update s.owners slot (some i) }
  | .compute _ :: rest =>
    some (s.setTask i (.reader { r with
      rest := rest
      value := if o = .error then none else some s.version }))
  | .settle slot skipError :: rest =>
    some (((s.keep slot r.value).release slot r.value.isSome).setTask i
      (.reader (r.settle rest skipError)))
  | .get slot :: rest =>
    some (s.setTask i (.reader { r with
      rest := rest
      missing := if (s.caches slot).isSome then r.missing else r.missing ++ [slot] }))
  | .fetchMissing :: rest =>
    some (s.setTask i (.reader { r with
      rest := r.missing.flatMap (fun slot => [.compute slot.1, .insert slot]) ++ rest
      missing := [] }))
  | .insert slot :: rest =>
    some ((s.keep slot r.value).setTask i (.reader { r with rest := rest, value := none }))

def stepPut (s : State ι K) (i : ι) (url : String) (phase : PutPhase) (o : Outcome) :
    Option (State ι K) :=
  match phase with
  | .check => some (s.setTask i (.put url (if url = "" then .finished false else .read)))
  | .read => s.acquire i .read (.put url .dbPath)
  | .dbPath => some { s.setTask i (.put url .load) with lock := s.lock.dropRead i }
  | .load =>
    match o with
    | .loaded orderbooks => some (s.setTask i (.put url (.write ⟨url, orderbooks⟩)))
    | _ => some (s.setTask i (.put url (.finished false)))
  | .write p =>
    (s.acquire i .write (.put url (.setSetting p))).map fun s' =>
      if s.lock.queued i then { s' with writers := s.writers ++ [i] } else s'
  | .setSetting p =>
    if o = .error then some (s.setTask i (.put url .unwind))
    else some { s.setTask i (.put url (.assign p)) with setting := some url }
  | .assign p =>
    some { s.setTask i (.put url (.dropGuard (s.version + 1))) with
      provider := p
      version := s.version + 1 }
  | .dropGuard n =>
    some { s.setTask i (.put url (.invalidate n registryCaches)) with lock := s.lock.dropWrite }
  | .unwind =>
    some { s.setTask i (.put url (.finished false)) with lock := s.lock.dropWrite }
  | .invalidate _ [] => some (s.setTask i (.put url (.finished true)))
  | .invalidate n (c :: cs) => some ((s.invalidateAll c n).setTask i (.put url (.invalidate n cs)))
  | .finished _ => none

/-- A step of a request, which is none while it is blocked. -/
def stepTask (s : State ι K) (i : ι) (o : Outcome) : Option (State ι K) :=
  match s.tasks i with
  | none => none
  | some (.put url phase) => s.stepPut i url phase o
  | some (.reader r) => if r.waits.isSome then none else s.stepReader i r o

end State

inductive Event (ι K : Type) where
  /-- A request comes in. -/
  | arrive (i : ι) (request : Request K)
  /-- A request takes a step. -/
  | run (i : ι) (outcome : Outcome)
  /-- An entry expires or is evicted. -/
  | evict (slot : Slot K)
  deriving DecidableEq, Repr

def step (s : State ι K) : Event ι K → Option (State ι K)
  | .arrive i request => if (s.tasks i).isSome then none
    else some (s.setTask i (request.task s.directTrades.isSome))
  | .run i o => s.stepTask i o
  | .evict slot => some { s with caches := Function.update s.caches slot none }

def alone (i : ι) (request : Request K) (outcomes : List Outcome) : List (Event ι K) :=
  .arrive i request :: outcomes.map (.run i)

def init (provider : RaindexProvider) (setting : Option String)
    (directTrades : Option DirectTrades.DirectTradesFetcher) : State ι K where
  tasks := fun _ => none
  lock := .free
  provider := provider
  setting := setting
  caches := fun _ => none
  owners := fun _ => none
  directTrades := directTrades
  version := 0
  invalidated := fun _ => 0
  writers := []

omit [DecidableEq K] in
theorem forall_update {P : Task K → Prop} {tasks : ι → Option (Task K)} {i : ι} {t : Task K}
    (h : ∀ j t, tasks j = some t → P t) (ht : P t) (j : ι) (t' : Task K)
    (hj : Function.update tasks i (some t) j = some t') : P t' := by
  by_cases hji : j = i
  · rw [hji, Function.update_self] at hj
    exact Option.some.inj hj ▸ ht
  · rw [Function.update_of_ne hji] at hj
    exact h j t' hj

theorem stepTask_eq_some {s s' : State ι K} {i : ι} {o : Outcome} :
    s.stepTask i o = some s' ↔
      (∃ r, s.tasks i = some (.reader r) ∧ r.waits = none ∧ s.stepReader i r o = some s') ∨
        ∃ url phase, s.tasks i = some (.put url phase) ∧ s.stepPut i url phase o = some s' := by
  unfold State.stepTask
  rcases hi : s.tasks i with _ | (r | ⟨url, phase⟩)
  · simp
  · rcases hw : r.waits with _ | w
    · simp [hw]
    · simp [hw]
  · simp

theorem step_arrive {s s' : State ι K} {i : ι} {request : Request K}
    (hs : step s (.arrive i request) = some s') :
    s.tasks i = none ∧ s' = s.setTask i (request.task s.directTrades.isSome) := by
  simp only [step] at hs
  split_ifs at hs with hi
  exact ⟨Option.not_isSome_iff_eq_none.mp hi, (Option.some.inj hs).symm⟩

/-- Nothing of the registry has moved. -/
structure SameRegistry (s s' : State ι K) : Prop where
  provider : s'.provider = s.provider
  setting : s'.setting = s.setting
  directTrades : s'.directTrades = s.directTrades
  version : s'.version = s.version
  invalidated : s'.invalidated = s.invalidated
  writers : s'.writers = s.writers

namespace SameRegistry

variable {s s' : State ι K} {i : ι}

omit [DecidableEq ι] in
theorem keep (slot : Slot K) (value : Option ℕ) : SameRegistry s (s.keep slot value) := by
  cases value <;> exact ⟨rfl, rfl, rfl, rfl, rfl, rfl⟩

omit [DecidableEq K] in
theorem acquire {m : LockMode} {granted : Task K} (hs : s.acquire i m granted = some s') :
    SameRegistry s s' ∧ s'.caches = s.caches := by
  unfold State.acquire at hs
  split_ifs at hs
  · obtain ⟨lock, -, rfl⟩ := Option.map_eq_some_iff.1 hs
    exact ⟨⟨rfl, rfl, rfl, rfl, rfl, rfl⟩, rfl⟩
  · obtain rfl := Option.some.inj hs
    exact ⟨⟨rfl, rfl, rfl, rfl, rfl, rfl⟩, rfl⟩

theorem stepReader {r : Reader K} {o : Outcome} (hs : s.stepReader i r o = some s') :
    SameRegistry s s' := by
  unfold State.stepReader at hs
  split at hs
  · cases hs
  · exact (acquire hs).1
  · obtain rfl := Option.some.inj hs
    exact ⟨rfl, rfl, rfl, rfl, rfl, rfl⟩
  · split at hs
    · obtain rfl := Option.some.inj hs
      exact ⟨rfl, rfl, rfl, rfl, rfl, rfl⟩
    · split at hs
      · obtain rfl := Option.some.inj hs
        exact ⟨rfl, rfl, rfl, rfl, rfl, rfl⟩
      · obtain rfl := Option.some.inj hs
        exact ⟨rfl, rfl, rfl, rfl, rfl, rfl⟩
  · obtain rfl := Option.some.inj hs
    exact ⟨rfl, rfl, rfl, rfl, rfl, rfl⟩
  · obtain rfl := Option.some.inj hs
    obtain ⟨h₁, h₂, h₃, h₄, h₅, h₆⟩ := keep (s := s) _ r.value
    exact ⟨h₁, h₂, h₃, h₄, h₅, h₆⟩
  · obtain rfl := Option.some.inj hs
    exact ⟨rfl, rfl, rfl, rfl, rfl, rfl⟩
  · obtain rfl := Option.some.inj hs
    exact ⟨rfl, rfl, rfl, rfl, rfl, rfl⟩
  · obtain rfl := Option.some.inj hs
    obtain ⟨h₁, h₂, h₃, h₄, h₅, h₆⟩ := keep (s := s) _ r.value
    exact ⟨h₁, h₂, h₃, h₄, h₅, h₆⟩

end SameRegistry

omit [DecidableEq K] in
theorem tasks_acquire {s s' : State ι K} {i : ι} {m : LockMode} {granted : Task K}
    (hs : s.acquire i m granted = some s') :
    ¬ s.lock.queued i ∧ s'.tasks = s.tasks ∨
      s.lock.queued i ∧ s'.tasks = Function.update s.tasks i (some granted) := by
  unfold State.acquire at hs
  split_ifs at hs with hq
  · obtain ⟨lock, -, rfl⟩ := Option.map_eq_some_iff.1 hs
    exact Or.inr ⟨hq, rfl⟩
  · obtain rfl := Option.some.inj hs
    exact Or.inl ⟨hq, rfl⟩

theorem tasks_stepReader {s s' : State ι K} {i : ι} {r : Reader K} {o : Outcome}
    (hi : s.tasks i = some (.reader r)) (hs : s.stepReader i r o = some s') :
    (∃ r', s'.tasks i = some (.reader r')) ∧ ∀ j, j ≠ i → s'.tasks j = s.tasks j ∨
      ∃ slot success, s'.tasks j = (s.tasks j).map (Task.wake slot success) := by
  have hset : ∀ {r' : Reader K}, s'.tasks = Function.update s.tasks i (some (.reader r')) →
      (∃ r', s'.tasks i = some (.reader r')) ∧ ∀ j, j ≠ i → s'.tasks j = s.tasks j ∨
        ∃ slot success, s'.tasks j = (s.tasks j).map (Task.wake slot success) := by
    intro r' ht
    rw [ht]
    exact ⟨⟨r', Function.update_self _ _ _⟩, fun j hj => Or.inl (Function.update_of_ne hj _ _)⟩
  unfold State.stepReader at hs
  split at hs
  · cases hs
  · rcases tasks_acquire hs with ⟨-, ht⟩ | ⟨-, ht⟩
    · exact ⟨⟨r, by rw [ht, hi]⟩, fun j _ => Or.inl (by rw [ht])⟩
    · exact hset ht
  · obtain rfl := Option.some.inj hs
    exact hset rfl
  · split at hs
    · obtain rfl := Option.some.inj hs
      exact hset rfl
    · split at hs
      · obtain rfl := Option.some.inj hs
        exact hset rfl
      · obtain rfl := Option.some.inj hs
        exact hset rfl
  · obtain rfl := Option.some.inj hs
    exact hset rfl
  · rename_i slot skipError rest hr
    obtain rfl := Option.some.inj hs
    refine ⟨⟨_, Function.update_self _ _ _⟩, fun j hj => Or.inr ⟨slot, r.value.isSome, ?_⟩⟩
    simp only [State.setTask, Function.update_of_ne hj, State.release_tasks, State.keep_tasks]
  · obtain rfl := Option.some.inj hs
    exact hset rfl
  · obtain rfl := Option.some.inj hs
    exact hset rfl
  · obtain rfl := Option.some.inj hs
    exact hset (congrArg (fun tasks => Function.update tasks i _) (s.keep_tasks _ _))

/-- The moves of an update that neither take the write lock nor change the registry. -/
inductive PutPhase.Quiet (url : String) : PutPhase → PutPhase → Prop
  | empty : Quiet url .check (.finished false)
  | check (named : url ≠ "") : Quiet url .check .read
  | read : Quiet url .read .dbPath
  | dbPath : Quiet url .dbPath .load
  | loadFailed : Quiet url .load (.finished false)
  | load (orderbooks : List OrderbookCfg) : Quiet url .load (.write ⟨url, orderbooks⟩)
  | persistFailed (p : RaindexProvider) : Quiet url (.setSetting p) .unwind
  | unwind : Quiet url .unwind (.finished false)
  | dropGuard (n : ℕ) : Quiet url (.dropGuard n) (.invalidate n registryCaches)
  | invalidate (n : ℕ) (c : CacheName) (cs : List CacheName) :
    Quiet url (.invalidate n (c :: cs)) (.invalidate n cs)
  | done (n : ℕ) : Quiet url (.invalidate n []) (.finished true)

/-- All moves of an update, with the outcome that a loaded registry comes from. -/
inductive PutPhase.Moves (url : String) (o : Outcome) : PutPhase → PutPhase → Prop
  | quiet {phase phase' : PutPhase} (quiet : phase.Quiet url phase')
    (loads : ∀ p, phase' = .write p → o = .loaded p.orderbooks) : Moves url o phase phase'
  | write (p : RaindexProvider) : Moves url o (.write p) (.setSetting p)
  | persist (p : RaindexProvider) : Moves url o (.setSetting p) (.assign p)
  | assign (p : RaindexProvider) (n : ℕ) : Moves url o (.assign p) (.dropGuard n)

omit [DecidableEq K] in
/-- The four steps with which an update moves more than its own phase and the lock; every other
move is a quiet one. -/
theorem stepPut_cases {s s' : State ι K} {i : ι} {url : String} {phase : PutPhase} {o : Outcome}
    (hs : s.stepPut i url phase o = some s') :
    (SameRegistry s s' ∧ s'.caches = s.caches ∧ (s'.tasks = s.tasks ∨
      ∃ phase', s'.tasks = Function.update s.tasks i (some (.put url phase')) ∧
        phase.Quiet url phase' ∧ ∀ p, phase' = .write p → o = .loaded p.orderbooks)) ∨
    (∃ p s₁, phase = .write p ∧ s.acquire i .write (.put url (.setSetting p)) = some s₁ ∧
      s.lock.queued i ∧ s' = { s₁ with writers := s.writers ++ [i] }) ∨
    (∃ p, phase = .setSetting p ∧
      s' = { s.setTask i (.put url (.assign p)) with setting := some url }) ∨
    (∃ p, phase = .assign p ∧ s' = { s.setTask i (.put url (.dropGuard (s.version + 1))) with
      provider := p
      version := s.version + 1 }) ∨
    ∃ n c cs, phase = .invalidate n (c :: cs) ∧
      s' = (s.invalidateAll c n).setTask i (.put url (.invalidate n cs)) := by
  have hquiet : ∀ phase' lock, phase.Quiet url phase' →
      (∀ p, phase' = .write p → o = .loaded p.orderbooks) →
      { s.setTask i (.put url phase') with lock := lock } = s' →
      SameRegistry s s' ∧ s'.caches = s.caches ∧
        (s'.tasks = s.tasks ∨
          ∃ phase', s'.tasks = Function.update s.tasks i (some (.put url phase')) ∧
            phase.Quiet url phase' ∧ ∀ p, phase' = .write p → o = .loaded p.orderbooks) := by
    rintro phase' lock hq hl rfl
    exact ⟨⟨rfl, rfl, rfl, rfl, rfl, rfl⟩, rfl, Or.inr ⟨phase', rfl, hq, hl⟩⟩
  cases phase with
  | check =>
    refine Or.inl (hquiet _ s.lock ?_ ?_ (Option.some.inj hs))
    · split_ifs with he
      · exact .empty
      · exact .check he
    · split_ifs <;> exact fun _ h => by cases h
  | read =>
    obtain ⟨hsame, hc⟩ := SameRegistry.acquire hs
    exact Or.inl ⟨hsame, hc, (tasks_acquire hs).imp And.right
      fun h => ⟨_, h.2, .read, fun _ h => by cases h⟩⟩
  | dbPath => exact Or.inl (hquiet _ _ .dbPath (fun _ h => by cases h) (Option.some.inj hs))
  | load =>
    cases o with
    | loaded orderbooks =>
      exact Or.inl (hquiet _ s.lock (.load orderbooks) (fun _ h => by cases h; rfl)
        (Option.some.inj hs))
    | error | ok =>
      exact Or.inl (hquiet _ s.lock .loadFailed (fun _ h => by cases h) (Option.some.inj hs))
  | write p =>
    obtain ⟨s₁, hs₁, rfl⟩ := Option.map_eq_some_iff.1 hs
    split_ifs with hq
    · exact Or.inr (Or.inl ⟨p, s₁, rfl, hs₁, hq, rfl⟩)
    · obtain ⟨hsame, hc⟩ := SameRegistry.acquire hs₁
      exact Or.inl ⟨hsame, hc, Or.inl ((tasks_acquire hs₁).resolve_right fun h => hq h.1).2⟩
  | setSetting p =>
    simp only [State.stepPut] at hs
    split_ifs at hs
    · exact Or.inl (hquiet _ s.lock (.persistFailed p) (fun _ h => by cases h) (Option.some.inj hs))
    · exact Or.inr (Or.inr (Or.inl ⟨p, rfl, (Option.some.inj hs).symm⟩))
  | assign p => exact Or.inr (Or.inr (Or.inr (Or.inl ⟨p, rfl, (Option.some.inj hs).symm⟩)))
  | dropGuard n =>
    exact Or.inl (hquiet _ _ (.dropGuard n) (fun _ h => by cases h) (Option.some.inj hs))
  | unwind => exact Or.inl (hquiet _ _ .unwind (fun _ h => by cases h) (Option.some.inj hs))
  | invalidate n caches =>
    cases caches with
    | nil => exact Or.inl (hquiet _ s.lock (.done n) (fun _ h => by cases h) (Option.some.inj hs))
    | cons c cs =>
      exact Or.inr (Or.inr (Or.inr (Or.inr ⟨n, c, cs, rfl, (Option.some.inj hs).symm⟩)))
  | finished ok => cases hs

omit [DecidableEq K] in
theorem moves_stepPut {s s' : State ι K} {i : ι} {url : String} {phase : PutPhase} {o : Outcome}
    (hs : s.stepPut i url phase o = some s') :
    s'.tasks = s.tasks ∨ ∃ phase', s'.tasks = Function.update s.tasks i (some (.put url phase')) ∧
      phase.Moves url o phase' := by
  rcases stepPut_cases hs with ⟨-, -, ht | ⟨phase', ht, hq, hl⟩⟩ | ⟨p, s₁, rfl, hs₁, hq, rfl⟩ |
    ⟨p, rfl, rfl⟩ | ⟨p, rfl, rfl⟩ | ⟨n, c, cs, rfl, rfl⟩
  · exact Or.inl ht
  · exact Or.inr ⟨phase', ht, .quiet hq hl⟩
  · exact (tasks_acquire hs₁).imp And.right fun h => ⟨_, h.2, .write p⟩
  · exact Or.inr ⟨_, rfl, .persist p⟩
  · exact Or.inr ⟨_, rfl, .assign p _⟩
  · exact Or.inr ⟨_, rfl, .quiet (.invalidate n c cs) fun _ h => by cases h⟩

end AlbionApi.Server
