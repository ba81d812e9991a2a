import AlbionApi.Limiter.Refinement

/-! # The reset time

A rejected check names a second of the Unix clock at which its window resets:
the whole seconds of the clock plus the whole seconds until the oldest
admission is a window old. At that second the oldest admission still counts.
-/

namespace AlbionApi.RateLimiter

open SlidingWindow

/-- Once a check is rejected, the checks of its scope that are made at the reset time or later
are admitted, if none is in between and both clocks advance alike. -/
def ResetSound (rl : RateLimiter) (before : List Call) (c : Call) (reset : UInt64) : Prop :=
  let rejected := ((rl.run before).2.check c.scope c.now c.systemNow).2
  ∀ (calls : List Call) (d : Call), Clocked (before ++ c :: (calls ++ [d])) →
    d.scope = c.scope →
    times (admissions calls (rejected.run calls).1) c.scope = [] →
    d.systemNow - c.systemNow = d.now - c.now →
    (reset.toNat : ℤ) ≤ d.systemNow / nanosPerSec →
    ∃ info, ((rejected.run calls).2.check d.scope d.now d.systemNow).1 = .ok (true, info)

def timeLeft (oldest now : Instant) : ℤ := oldest + windowDuration - now

variable {rl : RateLimiter} {last : Lock → WithBot Instant} {log : List (Scope × Instant)}
  {s : Scope} {now : Instant} {systemNow : SystemTime}

theorem Simulates.after {calls : List Call} (h : Simulates rl last log)
    (hl : ∀ c ∈ calls, last c.scope.lock ≤ c.now) (hc : Clocked calls) :
    ∃ last', Simulates (rl.run calls).2 last' (log ++ admissions calls (rl.run calls).1) ∧
      (rl.run calls).2.limit = rl.limit ∧
      ∀ (l : Lock) (t : Instant), last l ≤ t →
        (∀ c ∈ calls, c.scope.lock = l → c.now ≤ t) → last' l ≤ t := by
  induction calls generalizing rl last log with
  | nil =>
    refine ⟨last, ?_, rfl, fun _ _ h _ => h⟩
    simpa [RateLimiter.run, admissions] using h
  | cons c calls ih =>
    rw [Clocked, List.pairwise_cons] at hc
    obtain ⟨hv, hsim, hlim⟩ := h.check (hl c List.mem_cons_self) c.systemNow
    have hlast : ∀ d ∈ calls,
        Function.update last c.scope.lock (c.now : WithBot Instant) d.scope.lock ≤ d.now :=
      fun d hd => update_last_le (fun hls => hc.1 d hd hls.symm) fun _ =>
        hl d (List.mem_cons_of_mem _ hd)
    obtain ⟨last', hs', hlim', hle⟩ := ih hsim hlast hc.2
    refine ⟨last', ?_, hlim'.trans hlim, ?_⟩
    · simp only [RateLimiter.run]
      rw [admissions_cons, ← List.append_assoc, ← record_eq_admissions hv]
      exact hs'
    · intro l t ht hcalls
      apply hle
      · exact update_last_le (fun hls => hcalls c List.mem_cons_self hls.symm) fun _ => ht
      · intro d hd
        exact hcalls d (List.mem_cons_of_mem _ hd)

theorem simulates_before (globalRpm perKeyRpm : UInt64) {before : List Call} {c : Call}
    (hc : Clocked (before ++ [c])) :
    ∃ last, Simulates ((new globalRpm perKeyRpm).run before).2 last
        (admissions before ((new globalRpm perKeyRpm).run before).1) ∧
      last c.scope.lock ≤ c.now ∧
      ∀ (l : Lock) (t : Instant), (∀ b ∈ before, b.scope.lock = l → b.now ≤ t) →
        last l ≤ t := by
  rw [Clocked, List.pairwise_append] at hc
  obtain ⟨last, hsim, -, hle⟩ := (simulates_new globalRpm perKeyRpm fun _ => ⊥).after
    (fun _ _ => bot_le) hc.1
  rw [List.nil_append] at hsim
  refine ⟨last, hsim, hle _ _ bot_le fun b hb hb' => ?_, fun l t h => hle l t bot_le h⟩
  exact hc.2.2 b hb c (List.mem_singleton.mpr rfl) hb'

/-- A rejected check leaves a full window, the log inside the closed window, and takes its
reset time from it. -/
theorem Simulates.rejected (h : Simulates rl last log) (hl : last s.lock ≤ now)
    {info : RateLimitInfo} (hrej : (rl.check s now systemNow).1 = .ok (false, some info)) :
    rl.rpm s ≠ 0 ∧
      ((rl.check s now systemNow).2.window s).length = (rl.rpm s).toNat ∧
      (rl.check s now systemNow).2.window s = within (now - windowDuration) now (times log s) ∧
      info.reset = computeReset ((rl.check s now systemNow).2.window s) now systemNow := by
  have hr : rl.rpm s ≠ 0 := by
    intro hr
    rw [check_of_disabled hr] at hrej
    simp at hrej
  obtain ⟨w, hw, hres, hwin⟩ := (check_checked h.healthy hr now systemNow).decides
  have he := h.pruned_eq hl hw
  have hload := h.load_le hl
  rw [load, ← he] at hload
  rcases hload.lt_or_eq with hlt | heq
  · have hv := (tryAdmit_of_lt systemNow (t := now) hlt).1
    rw [← hres, hrej] at hv
    simp [verdictOf] at hv
  · have hno : ¬ UInt64.ofNat (pruneWindow w (now - windowDuration)).length < rl.rpm s := by
      rw [ofNat_lt_iff hload]
      exact heq.not_lt
    rw [hwin, (tryAdmit_of_eq systemNow (t := now) heq).2]
    refine ⟨hr, heq, he, ?_⟩
    rw [hrej, tryAdmit, if_neg hno] at hres
    simp only [Except.ok.injEq, Prod.mk.injEq, Option.some.injEq, true_and] at hres
    rw [hres]

theorem check_of_full (hh : Healthy rl) (hr : rl.rpm s ≠ 0)
    (hfull : (rl.window s).length = (rl.rpm s).toNat) {oldest : Instant}
    (ho : (rl.window s).head? = some oldest) (hin : now ≤ oldest + windowDuration)
    (info : Option RateLimitInfo) : (rl.check s now systemNow).1 ≠ .ok (true, info) := by
  have hp : pruneWindow (rl.window s) (now - windowDuration) = rl.window s := by
    cases hw : rl.window s with
    | nil => rfl
    | cons x w =>
      rw [hw, List.head?_cons, Option.some.injEq] at ho
      subst ho
      exact List.dropWhile_cons_of_neg (by simpa using hin)
  obtain ⟨w, hw, hres, -⟩ := (check_checked hh hr now systemNow).decides
  have hw' : w = rl.window s := by
    rcases hw with hw | hw
    · exact hw
    · rw [hw, hp]
  rw [hres, hw', hp]
  have hno : ¬ UInt64.ofNat (rl.window s).length < rl.rpm s := by
    rw [ofNat_lt_iff hfull.le]
    exact hfull.not_lt
  rw [tryAdmit, if_neg hno]
  simp

theorem Simulates.admitted (h : Simulates rl last log) (hl : last s.lock ≤ now)
    (hr : rl.rpm s ≠ 0) (hload : load windowDuration log s now < (rl.rpm s).toNat) :
    ∃ info, (rl.check s now systemNow).1 = .ok (true, info) := by
  have hv := (h.check hl systemNow).1
  rw [SlidingWindow.verdict, limit_of_ne hr] at hv
  simp only [if_pos hload] at hv
  cases hc : (rl.check s now systemNow).1 with
  | error e =>
    rw [hc] at hv
    simp [verdictOf] at hv
  | ok r =>
    obtain ⟨admitted, info⟩ := r
    rw [hc] at hv
    simp only [verdictOf, Option.some.injEq, Verdict.mk.injEq] at hv
    exact ⟨info, by rw [hv.1]⟩

section Seconds

variable {w : List ℤ} {oldest now systemNow : ℤ}

variable (now systemNow) in
theorem toNat_computeReset_le (ho : w.head? = some oldest) :
    (computeReset w now systemNow).toNat ≤
      systemNow.toNat / nanosPerSec + (timeLeft oldest now).toNat / nanosPerSec := by
  simp only [computeReset, ho, UInt64.toNat_add, asSecs, UInt64.toNat_ofNat']
  exact (Nat.mod_le _ _).trans (Nat.add_le_add (Nat.mod_le _ _) (Nat.mod_le _ _))

theorem toNat_computeReset_of_neg (ho : w.head? = some oldest) (hs : systemNow < 0)
    (hle : timeLeft oldest now ≤ windowDuration) :
    (computeReset w now systemNow).toNat = (timeLeft oldest now).toNat / nanosPerSec := by
  have hlt : (timeLeft oldest now).toNat / nanosPerSec < 2 ^ 64 := by
    simp only [windowDuration, nanosPerSec] at hle ⊢
    omega
  have hz : systemNow.toNat / nanosPerSec = 0 := by
    rw [Int.toNat_of_nonpos hs.le, Nat.zero_div]
  rw [timeLeft] at hlt ⊢
  simp only [computeReset, ho, asSecs]
  rw [hz, UInt64.toNat_add, UInt64.toNat_ofNat', UInt64.toNat_ofNat', Nat.mod_eq_of_lt hlt,
    Nat.zero_mod, zero_add, Nat.mod_eq_of_lt hlt]

/-- A check at the reset time comes no later than the oldest admission's window ends. -/
theorem reset_sub_le (ho : w.head? = some oldest) (hleft : 0 ≤ timeLeft oldest now)
    (hs : -(timeLeft oldest now % nanosPerSec) ≤ systemNow) :
    ((computeReset w now systemNow).toNat : ℤ) * nanosPerSec - systemNow ≤
      timeLeft oldest now := by
  have hr := toNat_computeReset_le now systemNow ho
  simp only [nanosPerSec] at hr hs ⊢
  omega

/-- Far enough before the epoch the reset time lies past the oldest admission's window. -/
theorem lt_reset_sub (ho : w.head? = some oldest) (hleft : 0 ≤ timeLeft oldest now)
    (hle : timeLeft oldest now ≤ windowDuration)
    (hs : systemNow < -(timeLeft oldest now % nanosPerSec)) :
    timeLeft oldest now <
      ((computeReset w now systemNow).toNat : ℤ) * nanosPerSec - systemNow := by
  have hneg : systemNow < 0 := by
    simp only [nanosPerSec] at hs
    omega
  rw [toNat_computeReset_of_neg ho hneg hle]
  simp only [nanosPerSec] at hs ⊢
  omega

end Seconds

theorem load_lt_of_lt {ts : List ℤ} {n : ℕ} {oldest now now' : ℤ}
    (hts : ∀ x ∈ ts, x ≤ now) (hnow : now ≤ now')
    (hfull : (within (now - windowDuration) now ts).length = n)
    (ho : (within (now - windowDuration) now ts).head? = some oldest)
    (hout : oldest + windowDuration < now') :
    (within (now' - windowDuration) now' ts).length < n := by
  have he : within (now' - windowDuration) now' ts =
      (within (now - windowDuration) now ts).filter (now' - windowDuration ≤ ·) := by
    simp only [within, List.filter_filter]
    apply List.filter_congr
    intro x hx
    have hx' := hts x hx
    simp only [← Bool.decide_and, decide_eq_decide]
    omega
  rw [he, ← hfull, List.length_filter_lt_length_iff_exists]
  refine ⟨oldest, List.mem_of_mem_head? (by rw [ho]; rfl), ?_⟩
  simp only [decide_eq_true_eq]
  omega

/-! ## Soundness of the reset time -/

theorem Simulates.oldest (h : Simulates rl last log) (hl : last s.lock ≤ now)
    {info : RateLimitInfo} (hrej : (rl.check s now systemNow).1 = .ok (false, some info)) :
    ∃ oldest : Instant,
      (pruneWindow (rl.window s) (now - windowDuration)).head? = some oldest ∧
      ((rl.check s now systemNow).2.window s).head? = some oldest ∧
      0 ≤ timeLeft oldest now ∧ timeLeft oldest now ≤ windowDuration := by
  obtain ⟨hr, hlen, hwin, -⟩ := h.rejected hl hrej
  rw [h.pruned_eq hl (Or.inl rfl), ← hwin]
  cases hw : (rl.check s now systemNow).2.window s with
  | nil =>
    rw [hw, List.length_nil] at hlen
    exact absurd (UInt64.toNat_inj.mp hlen.symm) hr
  | cons oldest rest =>
    have hmem : oldest ∈ within (now - windowDuration) now (times log s) := by
      rw [← hwin, hw]
      exact List.mem_cons_self
    simp only [within, List.mem_filter, decide_eq_true_eq] at hmem
    refine ⟨oldest, rfl, rfl, ?_, ?_⟩
    · exact sub_nonneg.mpr (sub_le_iff_le_add.mp hmem.2.1)
    · rw [timeLeft, add_sub_right_comm, add_le_iff_nonpos_left]
      exact sub_nonpos.mpr hmem.2.2

theorem Simulates.check_rejected (h : Simulates rl last log) (hl : last s.lock ≤ now)
    {info : RateLimitInfo} (hrej : (rl.check s now systemNow).1 = .ok (false, some info)) :
    Simulates (rl.check s now systemNow).2 (Function.update last s.lock now) log := by
  obtain ⟨hv, hsim, -⟩ := h.check hl systemNow
  have he := record_eq_admissions (c := ⟨s, now, systemNow⟩) hv
  rw [hrej] at he
  rw [he] at hsim
  simpa [admissions] using hsim

theorem rpm_eq_of_limit_eq {rl' : RateLimiter} (h : rl'.limit = rl.limit) (s : Scope) :
    rl'.rpm s = rl.rpm s := by
  have hs := congrFun h s
  simp only [limit] at hs
  split_ifs at hs with h₁ h₂ h₂
  · rw [h₁, h₂]
  · exact UInt64.toNat_inj.mp (Option.some.inj hs)

/-- Until the oldest admission has left, a scope that was rejected is not admitted. -/
theorem Simulates.check_ne_admitted (h : Simulates rl last log) (hl : last s.lock ≤ now)
    {info : RateLimitInfo} (hrej : (rl.check s now systemNow).1 = .ok (false, some info))
    {oldest now' : Instant} (ho : ((rl.check s now systemNow).2.window s).head? = some oldest)
    (hin : now' ≤ oldest + windowDuration) (systemNow' : SystemTime)
    (info' : Option RateLimitInfo) :
    ((rl.check s now systemNow).2.check s now' systemNow').1 ≠ .ok (true, info') := by
  obtain ⟨hr, hlen, -, -⟩ := h.rejected hl hrej
  have hrpm := (check_checked h.healthy hr now systemNow).rpm_eq s
  rw [← hrpm] at hr hlen
  exact check_of_full (h.check_rejected hl hrej).healthy hr hlen ho hin info'

/-- Once the oldest admission has left, a scope that was rejected and admitted nothing
since is admitted. -/
theorem Simulates.check_admitted (h : Simulates rl last log) (hl : last s.lock ≤ now)
    {info : RateLimitInfo} (hrej : (rl.check s now systemNow).1 = .ok (false, some info))
    {oldest now' : Instant} (ho : ((rl.check s now systemNow).2.window s).head? = some oldest)
    {calls : List Call} (hc : Clocked calls)
    (hfirst : ∀ d ∈ calls,
      Function.update last s.lock (now : WithBot Instant) d.scope.lock ≤ d.now)
    (hlater : ∀ d ∈ calls, d.scope.lock = s.lock → d.now ≤ now')
    (hnone : times (admissions calls ((rl.check s now systemNow).2.run calls).1) s = [])
    (hnow : now ≤ now') (hout : oldest + windowDuration < now') (systemNow' : SystemTime) :
    ∃ info', (((rl.check s now systemNow).2.run calls).2.check s now' systemNow').1 =
      .ok (true, info') := by
  obtain ⟨hr, hlen, hwin, -⟩ := h.rejected hl hrej
  have hlim := (h.check hl systemNow).2.2
  obtain ⟨last', hsim, hlim', hle⟩ := (h.check_rejected hl hrej).after hfirst hc
  have hlast : last' s.lock ≤ now' := by
    apply hle
    · rw [Function.update_self]
      exact WithBot.coe_le_coe.mpr hnow
    · exact hlater
  have hrpm := rpm_eq_of_limit_eq (hlim'.trans hlim) s
  refine hsim.admitted hlast (by rwa [hrpm]) ?_
  rw [hwin] at hlen ho
  have hts : ∀ x ∈ times log s, x ≤ now := fun x hx =>
    WithBot.coe_le_coe.mp (((h.tracks s).le_last x hx).trans hl)
  have htimes : times (log ++ admissions calls ((rl.check s now systemNow).2.run calls).1) s =
      times log s := by
    rw [times_append, hnone, List.append_nil]
  rw [load, htimes, hrpm]
  exact load_lt_of_lt hts hnow hlen ho hout

theorem Clocked.concat {before : List Call} {c d : Call} (hc : Clocked (before ++ [c]))
    (hs : d.scope = c.scope) (hd : c.now ≤ d.now) : Clocked (before ++ c :: ([] ++ [d])) := by
  rw [Clocked, List.pairwise_append] at hc ⊢
  refine ⟨hc.1, by simpa using fun _ => hd, ?_⟩
  intro a ha b hb hab
  rcases List.mem_cons.mp hb with rfl | hb
  · exact hc.2.2 a ha b (List.mem_singleton.mpr rfl) hab
  · rw [List.nil_append, List.mem_singleton] at hb
    subst hb
    rw [hs] at hab
    exact (hc.2.2 a ha c (List.mem_singleton.mpr rfl) hab).trans hd

/-- The reset time of a rejected check is sound only if the Unix clock was before the epoch
by more than the sub-second part of the time left. -/
theorem resetSound_iff (globalRpm perKeyRpm : UInt64) (before : List Call) (c : Call)
    (info : RateLimitInfo) (hc : Clocked (before ++ [c]))
    (hrej : (((new globalRpm perKeyRpm).run before).2.check c.scope c.now c.systemNow).1 =
      .ok (false, some info)) :
    ∃ oldest,
      (pruneWindow (((new globalRpm perKeyRpm).run before).2.window c.scope)
        (c.now - windowDuration)).head? = some oldest ∧
      (ResetSound (new globalRpm perKeyRpm) before c info.reset ↔
        c.systemNow < -(timeLeft oldest c.now % nanosPerSec)) := by
  obtain ⟨last, hsim, hl, hle⟩ := simulates_before globalRpm perKeyRpm hc
  obtain ⟨oldest, ho, ho', hleft, hlew⟩ := hsim.oldest hl hrej
  have hreset := (hsim.rejected hl hrej).2.2.2
  refine ⟨oldest, ho, ?_, ?_⟩
  · intro hsound
    by_contra hge
    rw [not_lt] at hge
    -- The check at the reset time, or at once if that has passed, finds the window full.
    have hsub := reset_sub_le ho' hleft hge
    rw [← hreset] at hsub
    let reads : ℤ := max (info.reset.toNat * nanosPerSec) c.systemNow
    let d : Call := ⟨c.scope, c.now + (reads - c.systemNow), reads⟩
    have hnow : c.now ≤ d.now := le_add_of_nonneg_right (sub_nonneg.mpr (le_max_right ..))
    have hin : d.now ≤ oldest + windowDuration := by
      rw [← le_sub_iff_add_le']
      change reads - c.systemNow ≤ timeLeft oldest c.now
      rw [← max_sub_sub_right, sub_self]
      exact max_le hsub hleft
    obtain ⟨info', he⟩ := hsound [] d (hc.concat rfl hnow) rfl rfl (by simp [d])
      (Int.le_ediv_of_mul_le (by decide) (le_max_left ..))
    exact hsim.check_ne_admitted hl hrej ho' hin _ _ he
  · intro hlt calls d hcl hscope hnone hsame hreads
    have hsub := lt_reset_sub ho' hleft hlew hlt
    rw [← hreset] at hsub
    rw [Clocked, List.pairwise_append, List.pairwise_cons, List.pairwise_append] at hcl
    obtain ⟨-, ⟨hcd, hcalls, -, hcallsd⟩, hbefore⟩ := hcl
    have hd : d ∈ calls ++ [d] := List.mem_append_right _ (List.mem_singleton.mpr rfl)
    rw [hscope]
    apply hsim.check_admitted hl hrej ho' hcalls
    · intro e he
      refine update_last_le (fun hlock => hcd e (List.mem_append_left _ he) hlock.symm) fun _ =>
        hle _ _ fun b hb hb' => hbefore b hb e ?_ hb'
      exact List.mem_cons_of_mem _ (List.mem_append_left _ he)
    · intro e he hlock
      exact hcallsd e he d (List.mem_singleton.mpr rfl) (by rw [hlock, hscope])
    · exact hnone
    · exact hcd d hd (by rw [hscope])
    · have hread := (Int.le_ediv_iff_mul_le (by decide)).mp hreads
      rw [timeLeft] at hsub
      linarith

theorem resetSound_half :
    let before : List Call := [⟨.global, 0, 1708010000 * nanosPerSec⟩]
    let c : Call := ⟨.global, nanosPerSec / 2, 1708010000 * nanosPerSec + nanosPerSec / 2⟩
    ∃ oldest,
      (pruneWindow (((new 1 0).run before).2.window c.scope) (c.now - windowDuration)).head? =
        some oldest ∧
      (ResetSound (new 1 0) before c 1708010059 ↔
        c.systemNow < -(timeLeft oldest c.now % nanosPerSec)) := by
  refine resetSound_iff 1 0 _ _ ⟨1, 0, 1708010059⟩ ?_ rfl
  simp [Clocked, nanosPerSec]

/-- A check rejected half a second after the only admission is told a reset time at which
the admission is 59 seconds old. -/
theorem not_resetSound :
    let before : List Call := [⟨.global, 0, 1708010000 * nanosPerSec⟩]
    let c : Call := ⟨.global, nanosPerSec / 2, 1708010000 * nanosPerSec + nanosPerSec / 2⟩
    Clocked (before ++ [c]) ∧
      (((new 1 0).run before).2.check c.scope c.now c.systemNow).1 =
        .ok (false, some ⟨1, 0, 1708010059⟩) ∧
      ¬ ResetSound (new 1 0) before c 1708010059 := by
  refine ⟨by simp [Clocked, nanosPerSec], rfl, fun h => ?_⟩
  obtain ⟨info, he⟩ := h [] ⟨.global, 59 * nanosPerSec, 1708010059 * nanosPerSec⟩
    (by simp [Clocked, nanosPerSec]) rfl rfl (by simp [nanosPerSec]) (by simp [nanosPerSec])
  cases he

end AlbionApi.RateLimiter
