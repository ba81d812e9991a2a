import AlbionApi.Server.Invariant
import Mathlib.Logic.Relation

/-! # No reachable state is stuck

A request waits for the owner of its slot, or for those who keep it off the
lock. The relation has a rank: a holder of the guard waits at most for another
holder, a queued request for holders and for requests ahead of it, and a
request without the guard that waits for a slot for any of these.
-/

namespace AlbionApi.Server

variable {ι K : Type}

section Discipline

variable {t : Task K} {slot : Slot K} {m : LockMode}

theorem not_finished_of_wants (hw : t.wants = some m) : ¬ t.finished ∧ t.waitsFor = none := by
  cases t with
  | reader r =>
    simp only [Task.wants, Reader.wants] at hw
    split at hw
    · rename_i hwaits hrest
      refine ⟨fun hf => ?_, by simp [Task.waitsFor, hwaits]⟩
      rw [hf.1] at hrest
      cases hrest
    · cases hw
  | put url phase => cases phase <;> cases hw <;> exact ⟨id, rfl⟩

theorem not_finished_of_guard (hd : t.Disciplined) (hg : t.guard = some m) :
    ¬ t.finished ∧ t.wants = none := by
  cases t with
  | reader r =>
    have hr : r.guard = true := by
      by_contra hn
      simp [Task.guard, hn] at hg
    have hc := Reader.Disciplined.code hd
    rw [hr] at hc
    refine ⟨fun hf => ?_, ?_⟩
    · rw [hf.1] at hc
      cases hc.1
    · simp only [Task.wants, Reader.wants]
      split
      · rename_i hrest
        rw [hrest] at hc
        cases hc.1
      · rfl
  | put url phase => cases phase <;> cases hg <;> exact ⟨id, rfl⟩

theorem not_finished_of_owns (hd : t.Disciplined) (ho : t.owns = some slot) :
    ¬ t.finished ∧ t.waitsFor = none := by
  cases t with
  | reader r =>
    have ho : r.owns = some slot := ho
    refine ⟨fun hf => ?_, ?_⟩
    · have hc := Reader.Disciplined.code hd
      rw [hf.1, ho] at hc
      cases hc.2
    · rcases hw : r.waits with _ | ⟨slot', skipError⟩
      · simp [Task.waitsFor, hw]
      · have := (Reader.Disciplined.waiter hd slot' skipError hw).1
        rw [ho] at this
        cases this
  | put url phase => cases ho

theorem guard_of_owns (hd : t.Disciplined) (ho : t.owns = some slot)
    (hl : slot.1.locksInside = false) : t.guard = some .read := by
  cases t with
  | reader r =>
    have := Reader.Disciplined.owner hd slot ho hl
    simp [Task.guard, this]
  | put url phase => cases ho

theorem locksInside_of_waitsFor (hd : t.Disciplined) (hw : t.waitsFor = some slot)
    (hg : t.guard = some m) : slot.1.locksInside = false := by
  cases t with
  | reader r =>
    obtain ⟨⟨slot', skipError⟩, hr, rfl⟩ := Option.map_eq_some_iff.1 hw
    have hg' := (Reader.Disciplined.waiter hd slot' skipError hr).2
    by_contra hn
    simp [Task.guard, hg', hn] at hg
  | put url phase => cases hw

end Discipline

variable [DecidableEq ι]

def WaitsFor (s : State ι K) (i j : ι) : Prop :=
  (∃ slot, (s.tasks i).bind Task.waitsFor = some slot ∧ s.owners slot = some j) ∨
    s.lock.BlockedBy i j

variable {s : State ι K} {i j : ι} {t : Task K} {slot : Slot K} {m : LockMode}

theorem exists_owner (h : s.Coherent) (hi : s.tasks i = some t) (hw : t.waitsFor = some slot) :
    ∃ j t', s.owners slot = some j ∧ s.tasks j = some t' ∧ t'.owns = some slot := by
  obtain ⟨j, hj⟩ := Option.ne_none_iff_exists'.1 (h.waits i slot (by rw [hi]; exact hw))
  obtain ⟨t', ht', ho⟩ := Option.bind_eq_some_iff.1 ((h.owners slot j).1 hj)
  exact ⟨j, t', hj, ht', ho⟩

/-- Holders come first, then the queue, then those who are in neither. -/
def rank (s : State ι K) (i : ι) : ℕ :=
  let waiting := if (s.tasks i).bind Task.waitsFor = none then 0 else 1
  if s.lock.holds i ≠ none then waiting
  else if s.lock.queued i then 2 + (s.lock.queue.map Prod.fst).idxOf i
  else 2 + s.lock.queue.length + waiting

theorem rank_of_holds (h : s.lock.holds i ≠ none) :
    rank s i = if (s.tasks i).bind Task.waitsFor = none then 0 else 1 := by
  rw [rank, if_pos h]

theorem rank_of_queued (h : s.Coherent) (hq : s.lock.queued i) :
    rank s i = 2 + (s.lock.queue.map Prod.fst).idxOf i := by
  rw [rank, if_neg (not_not.2 (h.valid.apart i hq)), if_pos hq]

/-- A request that waits for no slot is not behind the queue. -/
theorem rank_le (hw : (s.tasks i).bind Task.waitsFor = none) :
    rank s i ≤ 2 + s.lock.queue.length := by
  simp only [rank, hw, if_true]
  split_ifs with hh hq
  · exact Nat.zero_le _
  · have := List.idxOf_lt_length_of_mem hq
    rw [List.length_map] at this
    omega
  · exact le_rfl

/-- Whom a request waits for has a smaller rank. -/
theorem rank_lt (h : s.Coherent) (hw : WaitsFor s i j) : rank s j < rank s i := by
  rcases hw with ⟨slot, hi, hj⟩ | hb
  · obtain ⟨t, ht, hw⟩ := Option.bind_eq_some_iff.1 hi
    obtain ⟨t', ht', ho⟩ := Option.bind_eq_some_iff.1 ((h.owners slot j).1 hj)
    have hd' := h.disciplined j t' ht'
    have hj' : (s.tasks j).bind Task.waitsFor = none := by
      rw [ht']
      exact (not_finished_of_owns hd' ho).2
    by_cases hh : s.lock.holds i = none
    · have hq : ¬ s.lock.queued i := by
        intro hq
        obtain ⟨⟨i, m⟩, hm, rfl⟩ := List.mem_map.1 hq
        obtain ⟨t₀, ht₀, hwants⟩ := Option.bind_eq_some_iff.1 (h.queue i m hm)
        rw [ht] at ht₀
        obtain rfl := Option.some.inj ht₀
        rw [(not_finished_of_wants hwants).2] at hw
        cases hw
      have hle := rank_le hj'
      rw [rank.eq_def s i, if_neg (not_not.2 hh), if_neg hq, hi]
      simp only [reduceCtorEq, if_false]
      omega
    · obtain ⟨m, hm⟩ := Option.ne_none_iff_exists'.1 hh
      rw [h.holds, ht] at hm
      have hg := guard_of_owns hd' ho (locksInside_of_waitsFor (h.disciplined i t ht) hw hm)
      have hh' : s.lock.holds j ≠ none := by
        rw [h.holds, ht', Option.bind_some, hg]
        exact Option.some_ne_none _
      rw [rank_of_holds hh', rank_of_holds hh, hj', hi]
      simp
  · rw [rank_of_queued h hb.queued]
    rcases h.valid.blockedBy_cases hb with hh | ⟨hq, hlt⟩
    · rw [rank_of_holds hh]
      split_ifs <;> omega
    · rw [rank_of_queued h hq]
      omega

theorem not_waitsFor_cycle (h : s.Coherent) : ¬ Relation.TransGen (WaitsFor s) i i := by
  intro hc
  have hlt : ∀ j k, Relation.TransGen (WaitsFor s) j k → rank s k < rank s j := by
    intro j k hjk
    induction hjk with
    | single hw => exact rank_lt h hw
    | tail _ hw ih => exact (rank_lt h hw).trans ih
  exact lt_irrefl _ (hlt i i hc)

/-! ## Requests that run -/

variable [DecidableEq K]

/-- A request can take a step, however its call ends. -/
def Enabled (s : State ι K) (i : ι) : Prop := ∀ o, ∃ s', step s (.run i o) = some s'

theorem enabled_reader {r : Reader K} (hi : s.tasks i = some (.reader r)) (hw : r.waits = none)
    (hs : ∀ o, ∃ s', s.stepReader i r o = some s') : Enabled s i := by
  intro o
  simp only [step, State.stepTask, hi, hw]
  exact hs o

theorem enabled_put {url : String} {phase : PutPhase} (hi : s.tasks i = some (.put url phase))
    (hs : ∀ o, ∃ s', s.stepPut i url phase o = some s') : Enabled s i := by
  intro o
  simp only [step, State.stepTask, hi]
  exact hs o

theorem enabled_of_free (hi : s.tasks i = some t) (hf : ¬ t.finished) (hwaits : t.waitsFor = none)
    (hwants : t.wants = none) : Enabled s i := by
  cases t with
  | reader r =>
    have hw : r.waits = none := by simpa [Task.waitsFor] using hwaits
    apply enabled_reader hi hw
    intro o
    rcases hr : r.rest with _ | ⟨instr, rest⟩
    · exact absurd ⟨hr, hw⟩ hf
    · cases instr with
      | read => simp [Task.wants, Reader.wants, hw, hr] at hwants
      | getOrTryInsert slot skipError =>
        simp only [State.stepReader, hr]
        split
        · exact ⟨_, rfl⟩
        · split
          · exact ⟨_, rfl⟩
          · exact ⟨_, rfl⟩
      | dropRead | compute | settle | get | fetchMissing | insert =>
        simp only [State.stepReader, hr]
        exact ⟨_, rfl⟩
  | put url phase =>
    apply enabled_put hi
    intro o
    cases phase with
    | read | write => cases hwants
    | finished ok => exact absurd trivial hf
    | load => cases o <;> exact ⟨_, rfl⟩
    | setSetting p =>
      simp only [State.stepPut]
      split_ifs
      · exact ⟨_, rfl⟩
      · exact ⟨_, rfl⟩
    | invalidate n caches => cases caches <;> exact ⟨_, rfl⟩
    | check | dbPath | assign | dropGuard | unwind => exact ⟨_, rfl⟩

theorem enabled_of_wants (hi : s.tasks i = some t) (hw : t.wants = some m)
    (hs : ∀ granted, ∃ s', s.acquire i m granted = some s') : Enabled s i := by
  cases t with
  | reader r =>
    rcases hwaits : r.waits with _ | w
    · apply enabled_reader hi hwaits
      intro o
      rcases hr : r.rest with _ | ⟨instr, rest⟩
      · simp [Task.wants, Reader.wants, hr] at hw
      · cases instr <;> simp only [Task.wants, Reader.wants, hr, hwaits] at hw <;> try cases hw
        simp only [State.stepReader, hr]
        exact hs _
    · simp [Task.wants, Reader.wants, hwaits] at hw
  | put url phase =>
    apply enabled_put hi
    intro o
    cases phase with
    | read =>
      cases hw
      exact hs _
    | write p =>
      cases hw
      obtain ⟨s', hs'⟩ := hs (.put url (.setSetting p))
      rw [State.stepPut, hs']
      exact ⟨_, rfl⟩
    | check | dbPath | load | setSetting | assign | dropGuard | unwind | invalidate | finished =>
      cases hw

theorem enabled_of_not_queued (hi : s.tasks i = some t) (hw : t.wants = some m)
    (hq : ¬ s.lock.queued i) : Enabled s i :=
  enabled_of_wants hi hw fun granted => ⟨_, by rw [State.acquire, if_neg hq]⟩

theorem enabled_of_grant {lock : FairLock ι} (hi : s.tasks i = some t) (hw : t.wants = some m)
    (hq : s.lock.queued i) (hl : s.lock.grant i = some lock) : Enabled s i :=
  enabled_of_wants hi hw fun granted => ⟨_, by rw [State.acquire, if_pos hq, hl]; rfl⟩

/-- An unfinished request runs or waits for another unfinished one. -/
theorem enabled_or_waitsFor (h : s.Coherent) (hi : s.tasks i = some t) (hf : ¬ t.finished) :
    Enabled s i ∨ ∃ j t', WaitsFor s i j ∧ s.tasks j = some t' ∧ ¬ t'.finished := by
  rcases hw : t.waitsFor with _ | slot
  · rcases hm : t.wants with _ | m
    · exact Or.inl (enabled_of_free hi hf hw hm)
    · by_cases hq : s.lock.queued i
      · rcases hl : s.lock.grant i with _ | lock
        · obtain ⟨j, hj⟩ := FairLock.exists_blockedBy hq hl
          rcases h.valid.blockedBy_cases hj with hh | ⟨hq', -⟩
          · obtain ⟨m', hm'⟩ := Option.ne_none_iff_exists'.1 hh
            rw [h.holds] at hm'
            obtain ⟨t', ht', hg⟩ := Option.bind_eq_some_iff.1 hm'
            exact Or.inr ⟨j, t', Or.inr hj, ht',
              (not_finished_of_guard (h.disciplined j t' ht') hg).1⟩
          · obtain ⟨⟨j, m'⟩, hm', rfl⟩ := List.mem_map.1 hq'
            obtain ⟨t', ht', hw'⟩ := Option.bind_eq_some_iff.1 (h.queue j m' hm')
            exact Or.inr ⟨j, t', Or.inr hj, ht', (not_finished_of_wants hw').1⟩
        · exact Or.inl (enabled_of_grant hi hm hq hl)
      · exact Or.inl (enabled_of_not_queued hi hm hq)
  · obtain ⟨j, t', hj, ht', ho⟩ := exists_owner h hi hw
    exact Or.inr ⟨j, t', Or.inl ⟨slot, by rw [hi]; exact hw, hj⟩, ht',
      (not_finished_of_owns (h.disciplined j t' ht') ho).1⟩

/-- The chain of those for whom an unfinished request waits ends at one that runs. -/
theorem exists_enabled (h : s.Coherent) (hi : s.tasks i = some t) (hf : ¬ t.finished) :
    ∃ j, Relation.ReflTransGen (WaitsFor s) i j ∧ Enabled s j := by
  induction hn : rank s i using Nat.strong_induction_on generalizing i t with
  | _ n ih =>
    rcases enabled_or_waitsFor h hi hf with he | ⟨j, t', hw, hj, hf'⟩
    · exact ⟨i, .refl, he⟩
    · obtain ⟨k, hk, he⟩ := ih (rank s j) (hn ▸ rank_lt h hw) hj hf' rfl
      exact ⟨k, .head hw hk, he⟩

/-- In every reachable state each unfinished request waits, if at all, for one that can take a
step, and no requests wait for one another in a cycle. -/
theorem never_stuck {provider : RaindexProvider} {setting : Option String}
    {directTrades : Option DirectTrades.DirectTradesFetcher} {events : List (Event ι K)}
    (hr : Runs.run step (init provider setting directTrades) events = some s) :
    (∀ i t, s.tasks i = some t → ¬ t.finished →
      ∃ j, Relation.ReflTransGen (WaitsFor s) i j ∧ Enabled s j) ∧
    ∀ i, ¬ Relation.TransGen (WaitsFor s) i i :=
  ⟨fun _ _ hi hf => exists_enabled (coherent_of_run hr) hi hf,
    fun _ => not_waitsFor_cycle (coherent_of_run hr)⟩

/-- One request waits for the slot of another, which is queued behind an update, which waits for
the holder of the guard. -/
def queuedBehindUpdate : List (Event ℕ ℕ) :=
  [.arrive 0 (.getOrder 7), .run 0 .ok, .arrive 1 (.getTradesByTx 5), .run 1 .ok, .run 1 .ok,
    .arrive 2 (.putRegistry "b"), .run 2 .ok, .run 2 .ok, .run 2 .ok, .run 2 .ok,
    .run 2 (.loaded []), .run 2 .ok, .run 0 .ok, .arrive 3 (.getOrder 7), .run 3 .ok]

def behindUpdate : State ℕ ℕ :=
  (Runs.run step (init ⟨"a", []⟩ (some "a") none) queuedBehindUpdate).get (by decide)

theorem never_stuck_behindUpdate :
    (∃ j, Relation.ReflTransGen (WaitsFor behindUpdate) 3 j ∧ Enabled behindUpdate j) ∧
      ¬ Relation.TransGen (WaitsFor behindUpdate) 3 3 := by
  have h := never_stuck (s := behindUpdate) (Option.some_get (by decide)).symm
  exact ⟨h.1 3 (.reader ⟨[], false, none, some ((.orderDetail, 7), false), none, [], false⟩)
    (by decide) (by simp [Task.finished]), h.2 3⟩

end AlbionApi.Server
