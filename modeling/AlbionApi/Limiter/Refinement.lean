import AlbionApi.Foundations.SlidingWindow
import AlbionApi.Limiter.RateLimiter
import Mathlib

/-! # The limiter refines the reference limiter

The pruned queues of both locks decide every call as the reference limiter
that keeps the full log of admissions. The cleanup of the keyed map is
invisible: it prunes each window no further than the window's own next check.
-/

namespace AlbionApi.RateLimiter

open SlidingWindow

/-- A check of a scope, with the clock readings it takes under its lock. -/
structure Call where
  scope : Scope
  now : Instant
  systemNow : SystemTime

def Call.entry (c : Call) : Scope × Instant := (c.scope, c.now)

def run (rl : RateLimiter) : List Call → List CheckResult × RateLimiter
  | [] => ([], rl)
  | c :: calls =>
    let step := rl.check c.scope c.now c.systemNow
    let rest := run step.2 calls
    (step.1 :: rest.1, rest.2)

/-- The clock does not run backwards under either lock. -/
def Clocked (calls : List Call) : Prop :=
  calls.Pairwise fun c d => c.scope.lock = d.scope.lock → c.now ≤ d.now

/-- The limit of a scope, which a rate of zero disables. -/
def limit (rl : RateLimiter) (s : Scope) : Option ℕ :=
  if rl.rpm s = 0 then none else some (rl.rpm s).toNat

/-- What a result says about admission; a failed check says nothing. -/
def verdictOf : CheckResult → Option Verdict
  | .ok (admitted, info) =>
    some ⟨admitted, info.map fun i => (i.limit.toNat, i.remaining.toNat)⟩
  | .error _ => none

/-- The calls of a run that their results admit under an active limit. -/
def admissions (calls : List Call) (results : List CheckResult) : List (Scope × Instant) :=
  (calls.zip results).filterMap fun (c, r) =>
    match r with
    | .ok (true, some _) => some c.entry
    | _ => none

section Window

variable {last : WithBot Instant} {ts w : List Instant} {t : Instant}

theorem tracks_pruneWindow (h : Tracks windowDuration last ts w) (hl : last ≤ t) :
    Tracks windowDuration t ts (pruneWindow w (t - windowDuration)) :=
  h.prune hl

theorem pruneWindow_eq (h : Tracks windowDuration last ts w) (hl : last ≤ t) :
    pruneWindow w (t - windowDuration) = within (t - windowDuration) t ts :=
  h.prune_eq hl

theorem length_pruneWindow_le (w : List Instant) (cutoff : Instant) :
    (pruneWindow w cutoff).length ≤ w.length :=
  (List.dropWhile_sublist _).length_le

theorem ofNat_lt_iff {n : ℕ} {rpm : UInt64} (h : n ≤ rpm.toNat) :
    UInt64.ofNat n < rpm ↔ n < rpm.toNat := by
  have hlt := rpm.toNat_lt
  rw [UInt64.lt_iff_toNat_lt, UInt64.toNat_ofNat', Nat.mod_eq_of_lt (by omega)]

theorem toNat_sub_ofNat {n : ℕ} {rpm : UInt64} (h : n ≤ rpm.toNat) :
    (rpm - UInt64.ofNat n).toNat = rpm.toNat - n := by
  have hlt := rpm.toNat_lt
  have hn : (UInt64.ofNat n).toNat = n := by
    rw [UInt64.toNat_ofNat', Nat.mod_eq_of_lt (by omega)]
  rw [UInt64.toNat_sub_of_le _ _ (by rw [UInt64.le_iff_toNat_le, hn]; exact h), hn]

theorem tryAdmit_of_lt {rpm : UInt64} {window : List Instant} (sys : SystemTime)
    (h : window.length < rpm.toNat) :
    verdictOf (.ok (tryAdmit rpm window t sys).1) =
        some ⟨true, some (rpm.toNat, rpm.toNat - 1 - window.length)⟩ ∧
      (tryAdmit rpm window t sys).2 = window ++ [t] := by
  have hlt : UInt64.ofNat window.length < rpm := (ofNat_lt_iff h.le).mpr h
  have hrem : (rpm - UInt64.ofNat (window.length + 1)).toNat = rpm.toNat - (window.length + 1) :=
    toNat_sub_ofNat h
  simp only [tryAdmit, if_pos hlt, verdictOf, Option.map_some, List.length_append,
    List.length_singleton, hrem, and_true]
  congr 4
  omega

theorem tryAdmit_of_eq {rpm : UInt64} {window : List Instant} (sys : SystemTime)
    (h : window.length = rpm.toNat) :
    verdictOf (.ok (tryAdmit rpm window t sys).1) = some ⟨false, some (rpm.toNat, 0)⟩ ∧
      (tryAdmit rpm window t sys).2 = window := by
  have hlt : ¬ UInt64.ofNat window.length < rpm := by
    rw [ofNat_lt_iff h.le, h]
    exact lt_irrefl _
  simp [tryAdmit, if_neg hlt, verdictOf]

end Window

theorem getD_cleanup (windows : Windows) (cutoff : Instant) (k : Int64) :
    (cleanup windows cutoff).getD k [] = pruneWindow (windows.getD k []) cutoff := by
  rw [cleanup, Std.TreeMap.getD_eq_getD_getElem?, Std.TreeMap.getD_eq_getD_getElem?,
    Std.TreeMap.getElem?_filterMap']
  cases h : windows[k]? with
  | none => rfl
  | some w =>
    cases hp : pruneWindow w cutoff with
    | nil => simp [hp]
    | cons x xs => simp [hp]

/-- Neither lock is poisoned. -/
def Healthy (rl : RateLimiter) : Prop :=
  rl.globalWindow.poisoned = false ∧ rl.perKeyWindows.poisoned = false

/-- The effect of a check of a limited scope: it decides on its own window, which the
cleanup may have pruned already, and prunes other windows of its lock at most. -/
structure Checked (rl : RateLimiter) (s : Scope) (now : Instant) (systemNow : SystemTime)
    (r : CheckResult) (rl' : RateLimiter) : Prop where
  decides : ∃ w, (w = rl.window s ∨ w = pruneWindow (rl.window s) (now - windowDuration)) ∧
    r = .ok (tryAdmit (rl.rpm s) (pruneWindow w (now - windowDuration)) now systemNow).1 ∧
    rl'.window s =
      (tryAdmit (rl.rpm s) (pruneWindow w (now - windowDuration)) now systemNow).2
  others : ∀ s', s' ≠ s → rl'.window s' = rl.window s' ∨
    s'.lock = s.lock ∧ rl'.window s' = pruneWindow (rl.window s') (now - windowDuration)
  rpm_eq : ∀ s', rl'.rpm s' = rl.rpm s'
  healthy : Healthy rl'

theorem checkGlobal_checked {rl : RateLimiter} (hh : Healthy rl) (hr : rl.globalRpm ≠ 0)
    (now : Instant) (systemNow : SystemTime) :
    Checked rl .global now systemNow (rl.checkGlobal now systemNow).1
      (rl.checkGlobal now systemNow).2 := by
  have hl : rl.globalWindow.lock = some rl.globalWindow.value := by simp [Mutex.lock, hh.1]
  simp only [checkGlobal, if_neg hr, hl]
  refine ⟨⟨_, Or.inl rfl, rfl, rfl⟩, ?_, ?_, hh⟩
  · intro s' hs
    cases s' with
    | global => exact absurd rfl hs
    | perKey k => exact Or.inl rfl
  · intro s'
    cases s' <;> rfl

theorem checkPerKey_checked {rl : RateLimiter} (hh : Healthy rl) (hr : rl.perKeyRpm ≠ 0)
    (keyId : Int64) (now : Instant) (systemNow : SystemTime) :
    Checked rl (.perKey keyId) now systemNow (rl.checkPerKey keyId now systemNow).1
      (rl.checkPerKey keyId now systemNow).2 := by
  have hl : rl.perKeyWindows.lock = some rl.perKeyWindows.value := by simp [Mutex.lock, hh.2]
  simp only [checkPerKey, if_neg hr, hl]
  set windows := if (rl.perKeyCheckCount + 1) % perKeyCleanupEvery = 0 then
    cleanup rl.perKeyWindows.value (now - windowDuration) else rl.perKeyWindows.value with hw
  have hclean : ∀ k, windows.getD k [] = rl.window (.perKey k) ∨
      windows.getD k [] = pruneWindow (rl.window (.perKey k)) (now - windowDuration) := by
    intro k
    rw [hw]
    split
    · exact Or.inr (getD_cleanup _ _ k)
    · exact Or.inl rfl
  refine ⟨⟨_, hclean keyId, rfl, ?_⟩, ?_, ?_, hh⟩
  · simp [window, rpm]
  · intro s' hs
    cases s' with
    | global => exact Or.inl rfl
    | perKey k =>
      have hk : ¬ keyId = k := fun h => hs (by rw [h])
      simp only [window, Std.TreeMap.getD_insert, Std.LawfulEqOrd.compare_eq_iff_eq, if_neg hk]
      exact (hclean k).imp id fun h => ⟨rfl, h⟩
  · intro s'
    cases s' <;> rfl

theorem check_checked {rl : RateLimiter} (hh : Healthy rl) {s : Scope} (hr : rl.rpm s ≠ 0)
    (now : Instant) (systemNow : SystemTime) :
    Checked rl s now systemNow (rl.check s now systemNow).1 (rl.check s now systemNow).2 := by
  cases s with
  | global => exact checkGlobal_checked hh hr now systemNow
  | perKey k => exact checkPerKey_checked hh hr k now systemNow

theorem check_of_disabled {rl : RateLimiter} {s : Scope} (hr : rl.rpm s = 0)
    (now : Instant) (systemNow : SystemTime) :
    rl.check s now systemNow = (.ok (true, none), rl) := by
  cases s with
  | global => exact if_pos hr
  | perKey k => exact if_pos hr

/-- The limiter stands for a log: every window tracks the admissions of its scope up to
the last reading of its lock and fits the limit. -/
structure Simulates (rl : RateLimiter) (last : Lock → WithBot Instant)
    (log : List (Scope × Instant)) : Prop where
  healthy : Healthy rl
  tracks : ∀ s, Tracks windowDuration (last s.lock) (times log s) (rl.window s)
  fits : ∀ s, (rl.window s).length ≤ (rl.rpm s).toNat

theorem simulates_new (globalRpm perKeyRpm : UInt64) (last : Lock → WithBot Instant) :
    Simulates (new globalRpm perKeyRpm) last [] := by
  have hw : ∀ s, (new globalRpm perKeyRpm).window s = [] := by
    intro s
    cases s <;> simp [window, new]
  exact ⟨⟨rfl, rfl⟩, fun s => by rw [hw]; exact tracks_nil, fun s => by rw [hw]; simp⟩

variable {rl rl' : RateLimiter} {last : Lock → WithBot Instant} {log : List (Scope × Instant)}
  {s : Scope} {now : Instant} {systemNow : SystemTime} {r : CheckResult}

theorem limit_of_ne (hr : rl.rpm s ≠ 0) : rl.limit s = some (rl.rpm s).toNat := if_neg hr

theorem Checked.limit_eq (h : Checked rl s now systemNow r rl') : rl'.limit = rl.limit := by
  ext s'
  simp only [limit, h.rpm_eq]

/-- The window a check decides on is the part of the log inside the closed window. -/
theorem Simulates.pruned_eq (h : Simulates rl last log) (hl : last s.lock ≤ now)
    {w : List Instant}
    (hw : w = rl.window s ∨ w = pruneWindow (rl.window s) (now - windowDuration)) :
    pruneWindow w (now - windowDuration) =
      within (now - windowDuration) now (times log s) := by
  rcases hw with rfl | rfl
  · exact pruneWindow_eq (h.tracks s) hl
  · exact pruneWindow_eq (tracks_pruneWindow (h.tracks s) hl) le_rfl

theorem Simulates.load_le (h : Simulates rl last log) (hl : last s.lock ≤ now) :
    load windowDuration log s now ≤ (rl.rpm s).toNat := by
  rw [load, ← h.pruned_eq hl (Or.inl rfl)]
  exact (length_pruneWindow_le _ _).trans (h.fits s)

theorem Simulates.verdict (h : Simulates rl last log) (hl : last s.lock ≤ now)
    (hr : rl.rpm s ≠ 0) (hc : Checked rl s now systemNow r rl') :
    verdictOf r = some (verdict rl.limit windowDuration log s now) := by
  obtain ⟨w, hw, rfl, -⟩ := hc.decides
  have he := h.pruned_eq hl hw
  have hlen : (pruneWindow w (now - windowDuration)).length = load windowDuration log s now := by
    rw [he, load]
  simp only [SlidingWindow.verdict, limit_of_ne hr]
  rcases (h.load_le hl).lt_or_eq with hlt | heq
  · rw [(tryAdmit_of_lt systemNow (hlen.trans_lt hlt)).1, if_pos hlt, hlen]
  · rw [(tryAdmit_of_eq systemNow (hlen.trans heq)).1, if_neg heq.not_lt]

theorem Simulates.step_self (h : Simulates rl last log) (hl : last s.lock ≤ now)
    (hr : rl.rpm s ≠ 0) (hc : Checked rl s now systemNow r rl') :
    Tracks windowDuration now (times (record rl.limit windowDuration log s now) s)
        (rl'.window s) ∧ (rl'.window s).length ≤ (rl.rpm s).toNat := by
  obtain ⟨w, hw, -, he⟩ := hc.decides
  have hlen : (pruneWindow w (now - windowDuration)).length = load windowDuration log s now := by
    rw [h.pruned_eq hl hw, load]
  have ht : Tracks windowDuration now (times log s) (pruneWindow w (now - windowDuration)) := by
    rcases hw with rfl | rfl
    · exact tracks_pruneWindow (h.tracks s) hl
    · exact tracks_pruneWindow (tracks_pruneWindow (h.tracks s) hl) le_rfl
  simp only [record, limit_of_ne hr]
  rcases (h.load_le hl).lt_or_eq with hlt | heq
  · rw [he, (tryAdmit_of_lt systemNow (hlen.trans_lt hlt)).2, if_pos hlt, times_concat_self]
    exact ⟨ht.push, by rw [List.length_append, List.length_singleton, hlen]; exact hlt⟩
  · rw [he, (tryAdmit_of_eq systemNow (hlen.trans heq)).2, if_neg heq.not_lt]
    exact ⟨ht, (hlen.trans heq).le⟩

theorem le_update_last (hl : last s.lock ≤ now) (l : Lock) :
    last l ≤ Function.update last s.lock (now : WithBot Instant) l := by
  by_cases hls : l = s.lock
  · rw [hls, Function.update_self]
    exact hl
  · rw [Function.update_of_ne hls]

theorem update_last_le {lock l : Lock} {t : Instant} (ht : l = lock → now ≤ t)
    (hl : l ≠ lock → last l ≤ t) : Function.update last lock (now : WithBot Instant) l ≤ t := by
  by_cases hls : l = lock
  · rw [hls, Function.update_self]
    exact WithBot.coe_le_coe.mpr (ht hls)
  · rw [Function.update_of_ne hls]
    exact hl hls

/-- A check of a limited scope keeps the simulation, whatever the cleanup does to other
windows. -/
theorem Simulates.step (h : Simulates rl last log) (hl : last s.lock ≤ now)
    (hr : rl.rpm s ≠ 0) (hc : Checked rl s now systemNow r rl') :
    Simulates rl' (Function.update last s.lock now)
      (record rl.limit windowDuration log s now) := by
  obtain ⟨hself, hfit⟩ := h.step_self hl hr hc
  refine ⟨hc.healthy, fun s' => ?_, fun s' => ?_⟩
  · by_cases hs : s' = s
    · subst s'
      rwa [Function.update_self]
    · rw [times_record_of_ne log now (Ne.symm hs)]
      rcases hc.others s' hs with he | ⟨hlock, he⟩
      · rw [he]
        exact (h.tracks s').later (le_update_last hl _)
      · rw [he, hlock, Function.update_self]
        exact tracks_pruneWindow (h.tracks s') (hlock ▸ hl)
  · rw [hc.rpm_eq]
    by_cases hs : s' = s
    · subst s'
      exact hfit
    · rcases hc.others s' hs with he | ⟨-, he⟩
      · rw [he]
        exact h.fits s'
      · rw [he]
        exact (length_pruneWindow_le _ _).trans (h.fits s')

variable (log now) in
theorem verdict_of_disabled (hr : rl.rpm s = 0) :
    SlidingWindow.verdict rl.limit windowDuration log s now = ⟨true, none⟩ ∧
      record rl.limit windowDuration log s now = log := by
  have hn : rl.limit s = none := if_pos hr
  simp [SlidingWindow.verdict, record, hn]

theorem Simulates.check (h : Simulates rl last log) (hl : last s.lock ≤ now)
    (systemNow : SystemTime) :
    verdictOf (rl.check s now systemNow).1 =
        some (SlidingWindow.verdict rl.limit windowDuration log s now) ∧
      Simulates (rl.check s now systemNow).2 (Function.update last s.lock now)
        (record rl.limit windowDuration log s now) ∧
      (rl.check s now systemNow).2.limit = rl.limit := by
  by_cases hr : rl.rpm s = 0
  · obtain ⟨hv, hrec⟩ := verdict_of_disabled log now hr
    rw [check_of_disabled hr, hv, hrec]
    exact ⟨rfl, ⟨h.healthy, fun s' => (h.tracks s').later (le_update_last hl _), h.fits⟩, rfl⟩
  · have hc := check_checked h.healthy hr now systemNow
    exact ⟨h.verdict hl hr hc, h.step hl hr hc, hc.limit_eq⟩

/-! ## Whole runs -/

theorem Call.map_entry_pairwise {calls : List Call} (h : Clocked calls) :
    (calls.map entry).Pairwise fun c d => c.1 = d.1 → c.2 ≤ d.2 := by
  rw [List.pairwise_map]
  exact h.imp fun hcd he => hcd (congrArg Scope.lock he)

theorem admissions_cons (c : Call) (calls : List Call) (r : CheckResult)
    (rs : List CheckResult) :
    admissions (c :: calls) (r :: rs) = admissions [c] [r] ++ admissions calls rs := by
  simp only [admissions, List.zip_cons_cons, List.zip_nil_left, List.filterMap_cons,
    List.filterMap_nil]
  split <;> simp

theorem record_eq_admissions {limit : Scope → Option ℕ} {c : Call}
    (h : verdictOf r = some (verdict limit windowDuration log c.scope c.now)) :
    record limit windowDuration log c.scope c.now = log ++ admissions [c] [r] := by
  unfold verdict at h
  unfold record
  match r with
  | .error e => simp [verdictOf] at h
  | .ok (admitted, info) =>
    simp only [verdictOf, Option.some.injEq] at h
    split at h
    · next hn =>
      obtain ⟨rfl, hi⟩ := Verdict.mk.inj h
      rw [Option.map_eq_none_iff] at hi
      simp [admissions, hi]
    · next n hn =>
      split at h
      · next hlt =>
        obtain ⟨rfl, hi⟩ := Verdict.mk.inj h
        obtain ⟨i, rfl, -⟩ := Option.map_eq_some_iff.mp hi
        simp [admissions, Call.entry, hlt]
      · next hlt =>
        obtain ⟨rfl, -⟩ := Verdict.mk.inj h
        simp [admissions, hlt]

theorem Simulates.run {calls : List Call} (h : Simulates rl last log)
    (hl : ∀ c ∈ calls, last c.scope.lock ≤ c.now) (hc : Clocked calls) :
    (rl.run calls).1.map verdictOf =
        (SlidingWindow.run rl.limit windowDuration log (calls.map Call.entry)).1.map some ∧
      (SlidingWindow.run rl.limit windowDuration log (calls.map Call.entry)).2 =
        log ++ admissions calls (rl.run calls).1 := by
  induction calls generalizing rl last log with
  | nil => simp [RateLimiter.run, SlidingWindow.run, admissions]
  | cons c calls ih =>
    rw [Clocked, List.pairwise_cons] at hc
    have hlc := hl c List.mem_cons_self
    simp only [RateLimiter.run, List.map_cons, Call.entry, SlidingWindow.run]
    rw [admissions_cons, ← List.append_assoc]
    obtain ⟨hv, hsim, hlim⟩ := h.check hlc c.systemNow
    have hlast : ∀ d ∈ calls,
        Function.update last c.scope.lock (c.now : WithBot Instant) d.scope.lock ≤ d.now :=
      fun d hd => update_last_le (fun hls => hc.1 d hd hls.symm) fun _ =>
        hl d (List.mem_cons_of_mem _ hd)
    obtain ⟨ih₁, ih₂⟩ := ih hsim hlast hc.2
    rw [hlim] at ih₁ ih₂
    rw [← record_eq_admissions hv, hv, ih₁]
    exact ⟨rfl, ih₂⟩

/-- Every run of checks from a fresh limiter answers as the reference limiter that keeps
the full log, the admitted calls are that log, and no closed interval of the window's
length holds more admissions of a scope than its limit. -/
theorem run_new_refines (globalRpm perKeyRpm : UInt64) (calls : List Call)
    (hc : Clocked calls) :
    let rl := new globalRpm perKeyRpm
    let reference := SlidingWindow.run rl.limit windowDuration [] (calls.map Call.entry)
    (rl.run calls).1.map verdictOf = reference.1.map some ∧
      admissions calls (rl.run calls).1 = reference.2 ∧
      ∀ s, rl.rpm s ≠ 0 → ∀ a, (within a (a + windowDuration)
        (times (admissions calls (rl.run calls).1) s)).length ≤ (rl.rpm s).toNat := by
  intro rl reference
  obtain ⟨hv, hlog⟩ := (simulates_new globalRpm perKeyRpm fun _ => ⊥).run
    (fun _ _ => bot_le) hc
  rw [List.nil_append] at hlog
  refine ⟨hv, hlog.symm, fun s hr a => ?_⟩
  rw [← hlog]
  exact bounded_run bounded_nil (by simp) (Call.map_entry_pairwise hc) s _ (limit_of_ne hr) a

theorem run_new_refines_window_end :
    let calls : List Call := [⟨.global, 0, 0⟩, ⟨.global, windowDuration, 0⟩]
    let rl := new 1 1
    ((rl.run calls).1.map verdictOf = [some ⟨true, some (1, 0)⟩, some ⟨false, some (1, 0)⟩]) ∧
      (rl.run calls).1.map verdictOf =
        (SlidingWindow.run rl.limit windowDuration [] (calls.map Call.entry)).1.map some := by
  refine ⟨by decide, (run_new_refines 1 1 _ ?_).1⟩
  simp [Clocked, windowDuration, nanosPerSec]

end AlbionApi.RateLimiter
