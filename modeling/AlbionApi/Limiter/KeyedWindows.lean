import AlbionApi.Limiter.Reset

/-! # The keyed windows

The map of windows holds no empty window. Every 1024th check of a key drops
the keys that were idle for a window, and each check adds one key at most, so
that the map holds the keys active at the last cleanup and those checked since.
-/

namespace AlbionApi.RateLimiter

open SlidingWindow

def keysChecked (calls : List Call) : List Int64 :=
  calls.filterMap fun c =>
    match c.scope with
    | .global => none
    | .perKey keyId => some keyId

/-- The map in which a check of a key finds its window. -/
def keptWindows (rl : RateLimiter) (now : Instant) : Windows :=
  if (rl.perKeyCheckCount + 1) % perKeyCleanupEvery = 0 then
    cleanup rl.perKeyWindows.value (now - windowDuration)
  else rl.perKeyWindows.value

/-- The key has an admission in the closed window that ends at an instant. -/
def ActiveAt (log : List (Scope × Instant)) (now : Instant) (keyId : Int64) : Prop :=
  ∃ t ∈ times log (.perKey keyId), now - windowDuration ≤ t ∧ t ≤ now

/-- The run ends in a check of a key at an instant, and the number of these checks is a multiple
of 1024. -/
def CleansUpAt (calls : List Call) (now : Instant) : Prop :=
  ∃ before c keyId, calls = before ++ [c] ∧ c.scope = .perKey keyId ∧ c.now = now ∧
    (keysChecked calls).length % 1024 = 0

section Count

theorem keysChecked_append (calls calls' : List Call) :
    keysChecked (calls ++ calls') = keysChecked calls ++ keysChecked calls' :=
  List.filterMap_append

variable {c : Call} {keyId : Int64}

theorem keysChecked_perKey (h : c.scope = .perKey keyId) : keysChecked [c] = [keyId] := by
  rw [keysChecked, List.filterMap_cons_some (b := keyId), List.filterMap_nil]
  rw [h]

theorem keysChecked_global (h : c.scope = .global) : keysChecked [c] = [] := by
  rw [keysChecked, List.filterMap_cons_none, List.filterMap_nil]
  rw [h]

theorem length_keysChecked {calls : List Call} (h : ∀ c ∈ calls, ∃ keyId, c.scope = .perKey keyId) :
    (keysChecked calls).length = calls.length := by
  induction calls with
  | nil => rfl
  | cons c calls ih =>
    obtain ⟨keyId, hc⟩ := h c List.mem_cons_self
    rw [← List.singleton_append, keysChecked_append, List.length_append, List.length_append,
      keysChecked_perKey hc, ih fun c' hc' => h c' (List.mem_cons_of_mem _ hc')]
    rfl

/-- The counter wraps around at a multiple of 1024. -/
theorem cleanup_due_iff (n : ℕ) :
    UInt64.ofNat n % perKeyCleanupEvery = 0 ↔ n % 1024 = 0 := by
  rw [← UInt64.toNat_inj, UInt64.toNat_mod, UInt64.toNat_ofNat']
  have hmod : n % 2 ^ 64 % 1024 = n % 1024 := Nat.mod_mod_of_dvd n (by decide)
  exact hmod ▸ Iff.rfl

end Count

section Check

variable {rl : RateLimiter} {keyId : Int64} {now : Instant} {systemNow : SystemTime}

theorem checkPerKey_windows (hh : Healthy rl) (hr : rl.perKeyRpm ≠ 0) :
    (rl.checkPerKey keyId now systemNow).2.perKeyWindows.value =
        (keptWindows rl now).insert keyId
          (tryAdmit rl.perKeyRpm (pruneWindow ((keptWindows rl now).getD keyId [])
            (now - windowDuration)) now systemNow).2 ∧
      (rl.checkPerKey keyId now systemNow).2.perKeyCheckCount = rl.perKeyCheckCount + 1 := by
  have hl : rl.perKeyWindows.lock = some rl.perKeyWindows.value := by simp [Mutex.lock, hh.2]
  constructor
  · simp only [checkPerKey, if_neg hr, hl]
    rfl
  · simp only [checkPerKey, if_neg hr, hl]

theorem tryAdmit_ne_nil {rpm : UInt64} (hr : rpm ≠ 0) (window : List Instant) :
    (tryAdmit rpm window now systemNow).2 ≠ [] := by
  unfold tryAdmit
  split_ifs with h
  · simp
  · rintro rfl
    refine h ((ofNat_lt_iff (Nat.zero_le _)).mpr (Nat.pos_of_ne_zero fun h0 => hr ?_))
    exact UInt64.toNat_inj.mp h0

theorem mem_tryAdmit {rpm : UInt64} {window : List Instant} {t : Instant}
    (h : t ∈ (tryAdmit rpm window now systemNow).2) : t ∈ window ∨ t = now := by
  unfold tryAdmit at h
  split_ifs at h
  · rwa [List.mem_append, List.mem_singleton] at h
  · exact Or.inl h

theorem getD_keptWindows (rl : RateLimiter) (now : Instant) (k : Int64) :
    (keptWindows rl now).getD k [] = rl.window (.perKey k) ∨
      (keptWindows rl now).getD k [] =
        pruneWindow (rl.window (.perKey k)) (now - windowDuration) := by
  unfold keptWindows
  split_ifs
  · exact Or.inr (getD_cleanup _ _ k)
  · exact Or.inl rfl

theorem mem_of_mem_keptWindows {k : Int64} (h : k ∈ keptWindows rl now) :
    k ∈ rl.perKeyWindows.value := by
  unfold keptWindows at h
  split_ifs at h
  · exact Std.TreeMap.mem_of_mem_filterMap h
  · exact h

theorem size_keptWindows_le (rl : RateLimiter) (now : Instant) :
    (keptWindows rl now).size ≤ rl.perKeyWindows.value.size := by
  unfold keptWindows
  split_ifs
  · exact Std.TreeMap.size_filterMap_le_size
  · exact le_rfl

variable (rl) in
/-- The limiter limits its keys and keeps no empty window. -/
structure Keeps : Prop where
  healthy : Healthy rl
  rpm_ne : rl.perKeyRpm ≠ 0
  nonempty : ∀ (k : Int64) (w : List Instant), rl.perKeyWindows.value[k]? = some w → w ≠ []

theorem keeps_new (globalRpm : UInt64) {perKeyRpm : UInt64} (hr : perKeyRpm ≠ 0) :
    Keeps (new globalRpm perKeyRpm) :=
  ⟨⟨rfl, rfl⟩, hr, fun k w h => by simp [new] at h⟩

/-- A check of the global window leaves the map; a check of a key finds its window in the map,
which it may have cleaned up, and puts another one there. -/
theorem Keeps.check_cases (h : Keeps rl) (c : Call) :
    (c.scope = .global ∧
      (rl.check c.scope c.now c.systemNow).2.perKeyWindows.value = rl.perKeyWindows.value ∧
      (rl.check c.scope c.now c.systemNow).2.perKeyCheckCount = rl.perKeyCheckCount) ∨
    ∃ keyId, c.scope = .perKey keyId ∧
      (rl.check c.scope c.now c.systemNow).2.perKeyWindows.value =
        (keptWindows rl c.now).insert keyId
          (tryAdmit rl.perKeyRpm (pruneWindow ((keptWindows rl c.now).getD keyId [])
            (c.now - windowDuration)) c.now c.systemNow).2 ∧
      (rl.check c.scope c.now c.systemNow).2.perKeyCheckCount = rl.perKeyCheckCount + 1 := by
  cases hs : c.scope with
  | global =>
    refine Or.inl ⟨rfl, ?_⟩
    rw [check, checkGlobal]
    split_ifs
    · exact ⟨rfl, rfl⟩
    · rw [Mutex.lock, h.healthy.1]
      exact ⟨rfl, rfl⟩
  | perKey keyId => exact Or.inr ⟨keyId, rfl, checkPerKey_windows h.healthy h.rpm_ne⟩

theorem Keeps.keptWindows_ne_nil (h : Keeps rl) (now : Instant) {k : Int64} {w : List Instant}
    (hw : (keptWindows rl now)[k]? = some w) : w ≠ [] := by
  unfold keptWindows at hw
  split_ifs at hw
  · rw [cleanup, Std.TreeMap.getElem?_filterMap', Option.bind_eq_some_iff] at hw
    obtain ⟨w', -, hp⟩ := hw
    dsimp only at hp
    split_ifs at hp with he
    rw [Option.some.injEq] at hp
    rintro rfl
    exact he (by rw [hp]; rfl)
  · exact h.nonempty k w hw

theorem Keeps.check (h : Keeps rl) (c : Call) :
    Keeps (rl.check c.scope c.now c.systemNow).2 := by
  by_cases hr : rl.rpm c.scope = 0
  · rw [check_of_disabled hr]
    exact h
  · have hc := check_checked h.healthy hr c.now c.systemNow
    refine ⟨hc.healthy, (hc.rpm_eq (.perKey 0)).trans_ne h.rpm_ne, fun k w hw => ?_⟩
    obtain ⟨-, hm, -⟩ | ⟨keyId, -, hm, -⟩ := h.check_cases c
    · rw [hm] at hw
      exact h.nonempty k w hw
    · rw [hm, Std.TreeMap.getElem?_insert] at hw
      split_ifs at hw
      · rw [← Option.some.inj hw]
        exact tryAdmit_ne_nil h.rpm_ne _
      · exact h.keptWindows_ne_nil c.now hw

theorem Keeps.mem_check (h : Keeps rl) {c : Call} {k : Int64}
    (hk : k ∈ (rl.check c.scope c.now c.systemNow).2.perKeyWindows.value) :
    k ∈ rl.perKeyWindows.value ∨ k ∈ keysChecked [c] := by
  obtain ⟨-, hm, -⟩ | ⟨keyId, hs, hm, -⟩ := h.check_cases c
  · rw [hm] at hk
    exact Or.inl hk
  · rw [hm, Std.TreeMap.mem_insert, Std.LawfulEqOrd.compare_eq_iff_eq] at hk
    rcases hk with rfl | hk
    · rw [keysChecked_perKey hs]
      exact Or.inr (List.mem_singleton.mpr rfl)
    · exact Or.inl (mem_of_mem_keptWindows hk)

theorem Keeps.size_check_le (h : Keeps rl) (c : Call) :
    (rl.check c.scope c.now c.systemNow).2.perKeyWindows.value.size ≤
      rl.perKeyWindows.value.size + (keysChecked [c]).length := by
  obtain ⟨-, hm, -⟩ | ⟨keyId, hs, hm, -⟩ := h.check_cases c
  · rw [hm]
    exact Nat.le_add_right _ _
  · rw [hm, keysChecked_perKey hs]
    exact Std.TreeMap.size_insert_le.trans
      (Nat.add_le_add_right (size_keptWindows_le rl c.now) 1)

theorem Keeps.count_check (h : Keeps rl) (c : Call) :
    (rl.check c.scope c.now c.systemNow).2.perKeyCheckCount =
      rl.perKeyCheckCount + UInt64.ofNat (keysChecked [c]).length := by
  obtain ⟨hs, -, hn⟩ | ⟨keyId, hs, -, hn⟩ := h.check_cases c
  · rw [hn, keysChecked_global hs]
    exact (UInt64.add_zero _).symm
  · rw [hn, keysChecked_perKey hs]
    rfl

end Check

/-! ## Runs of checks -/

section Run

variable {rl : RateLimiter} {calls : List Call}

theorem keysChecked_cons (c : Call) (calls : List Call) :
    keysChecked (c :: calls) = keysChecked [c] ++ keysChecked calls :=
  keysChecked_append [c] calls

theorem Keeps.run (h : Keeps rl) (calls : List Call) :
    Keeps (rl.run calls).2 ∧
      (∀ k ∈ (rl.run calls).2.perKeyWindows.value,
        k ∈ rl.perKeyWindows.value ∨ k ∈ keysChecked calls) ∧
      (rl.run calls).2.perKeyWindows.value.size ≤
        rl.perKeyWindows.value.size + (keysChecked calls).length ∧
      (rl.run calls).2.perKeyCheckCount =
        rl.perKeyCheckCount + UInt64.ofNat (keysChecked calls).length := by
  induction calls generalizing rl with
  | nil => exact ⟨h, fun k hk => Or.inl hk, le_rfl, (UInt64.add_zero _).symm⟩
  | cons c calls ih =>
    obtain ⟨hkeeps, hmem, hsize, hcount⟩ := ih (h.check c)
    rw [keysChecked_cons, List.length_append]
    refine ⟨hkeeps, fun k hk => ?_, ?_, ?_⟩
    · rw [List.mem_append, ← or_assoc]
      exact (hmem k hk).imp_left h.mem_check
    · rw [← Nat.add_assoc]
      exact hsize.trans (Nat.add_le_add_right (h.size_check_le c) _)
    · refine hcount.trans ?_
      rw [h.count_check c, UInt64.add_assoc, UInt64.ofNat_add]

theorem length_run (rl : RateLimiter) (calls : List Call) :
    (rl.run calls).1.length = calls.length := by
  induction calls generalizing rl with
  | nil => rfl
  | cons c calls ih => exact congrArg Nat.succ (ih _)

theorem run_append (rl : RateLimiter) (calls calls' : List Call) :
    rl.run (calls ++ calls') =
      ((rl.run calls).1 ++ ((rl.run calls).2.run calls').1, ((rl.run calls).2.run calls').2) := by
  induction calls generalizing rl with
  | nil => rfl
  | cons c calls ih =>
    rw [List.cons_append, RateLimiter.run, ih]
    rfl

theorem admissions_append {calls calls' : List Call} {rs rs' : List CheckResult}
    (h : calls.length = rs.length) :
    admissions (calls ++ calls') (rs ++ rs') = admissions calls rs ++ admissions calls' rs' := by
  rw [admissions, List.zip_append h, List.filterMap_append]
  rfl

/-- Since the last cleanup of a run, or since its start, less than 1024 checks of keys were
made. -/
theorem exists_last_cleanup (calls : List Call) : ∃ before since, calls = before ++ since ∧
    (before = [] ∨ ∃ t, CleansUpAt before t) ∧
    (keysChecked since).length = (keysChecked calls).length % 1024 := by
  induction calls using List.reverseRecOn with
  | nil => exact ⟨[], [], rfl, Or.inl rfl, rfl⟩
  | append_singleton calls c ih =>
    obtain ⟨before, since, rfl, hb, hn⟩ := ih
    cases hs : c.scope with
    | global =>
      refine ⟨before, since ++ [c], by rw [List.append_assoc], hb, ?_⟩
      rw [keysChecked_append since, keysChecked_append (before ++ since), keysChecked_global hs,
        List.append_nil, List.append_nil, hn]
    | perKey keyId =>
      have hlen : (keysChecked (before ++ since ++ [c])).length =
          (keysChecked (before ++ since)).length + 1 := by
        rw [keysChecked_append (before ++ since), keysChecked_perKey hs, List.length_append]
        rfl
      by_cases hz : (keysChecked (before ++ since ++ [c])).length % 1024 = 0
      · refine ⟨before ++ since ++ [c], [], by rw [List.append_nil], Or.inr ⟨c.now, ?_⟩, ?_⟩
        · exact ⟨before ++ since, c, keyId, rfl, hs, rfl, hz⟩
        · exact hz.symm
      · refine ⟨before, since ++ [c], by rw [List.append_assoc], hb, ?_⟩
        rw [hlen] at hz ⊢
        rw [keysChecked_append since, keysChecked_perKey hs, List.length_append, hn,
          List.length_singleton]
        omega

end Run

section Active

variable {rl : RateLimiter} {last : Lock → WithBot Instant} {log : List (Scope × Instant)}
  {now : Instant}

theorem Keeps.mem_iff (h : Keeps rl) (k : Int64) :
    k ∈ rl.perKeyWindows.value ↔ rl.window (.perKey k) ≠ [] := by
  rw [Std.TreeMap.mem_iff_isSome_getElem?, window, Std.TreeMap.getD_eq_getD_getElem?]
  cases hw : rl.perKeyWindows.value[k]? with
  | none => simp
  | some w => simpa using h.nonempty k w hw

/-- Where no window holds a time that is older than the closed window, the keys of the map are
those with an admission inside. -/
theorem Simulates.mem_iff_activeAt (h : Simulates rl last log) (hk : Keeps rl)
    (hl : last .perKeyWindows ≤ now)
    (hrecent : ∀ k, ∀ t ∈ rl.window (.perKey k), now - windowDuration ≤ t) (k : Int64) :
    k ∈ rl.perKeyWindows.value ↔ ActiveAt log now k := by
  have ht := h.tracks (.perKey k)
  obtain ⟨old, he, ho⟩ := ht.forgets
  rw [hk.mem_iff, ActiveAt]
  constructor
  · intro hne
    obtain ⟨t, hw⟩ := List.exists_mem_of_ne_nil _ hne
    have hm : t ∈ times log (.perKey k) := he ▸ List.mem_append_right _ hw
    exact ⟨t, hm, hrecent k t hw, WithBot.coe_le_coe.mp ((ht.le_last t hm).trans hl)⟩
  · rintro ⟨t, hm, hlo, -⟩
    rw [he, List.mem_append] at hm
    rcases hm with hold | hw
    · have hlt := WithBot.coe_lt_coe.mp ((ho t hold).trans_le hl)
      exact absurd (sub_le_iff_le_add.mp hlo) hlt.not_ge
    · exact List.ne_nil_of_mem hw

theorem Simulates.recent_of_cleanup (h : Simulates rl last log) (hk : Keeps rl) {c : Call}
    {keyId : Int64} (hs : c.scope = .perKey keyId) (hl : last .perKeyWindows ≤ c.now)
    (hclean : (rl.perKeyCheckCount + 1) % perKeyCleanupEvery = 0) (k : Int64) :
    ∀ t ∈ (rl.check c.scope c.now c.systemNow).2.window (.perKey k),
      c.now - windowDuration ≤ t := by
  have hin : ∀ w, (w = rl.window (.perKey k) ∨
      w = pruneWindow (rl.window (.perKey k)) (c.now - windowDuration)) →
      ∀ t ∈ pruneWindow w (c.now - windowDuration), c.now - windowDuration ≤ t := by
    intro w hw t ht
    rw [h.pruned_eq (s := .perKey k) hl hw, within, List.mem_filter, decide_eq_true_eq] at ht
    exact ht.2.1
  intro t ht
  obtain ⟨hg, -⟩ | ⟨keyId', -, hm, -⟩ := hk.check_cases c
  · rw [hs] at hg
    cases hg
  · rw [window, hm, Std.TreeMap.getD_insert] at ht
    split_ifs at ht with he
    · rw [Std.LawfulEqOrd.compare_eq_iff_eq] at he
      subst he
      rcases mem_tryAdmit ht with ht | rfl
      · exact hin _ (getD_keptWindows rl c.now keyId') t ht
      · exact sub_le_self _ (by decide)
    · rw [keptWindows, if_pos hclean, getD_cleanup] at ht
      exact hin _ (Or.inl rfl) t ht

end Active

theorem mem_iff_activeAt_of_cleansUp {globalRpm perKeyRpm : UInt64} (hr : perKeyRpm ≠ 0)
    {calls : List Call} (hc : Clocked calls) {now : Instant} (hclean : CleansUpAt calls now)
    (k : Int64) :
    k ∈ ((new globalRpm perKeyRpm).run calls).2.perKeyWindows.value ↔
      ActiveAt (admissions calls ((new globalRpm perKeyRpm).run calls).1) now k := by
  obtain ⟨before, c, keyId, rfl, hs, rfl, hz⟩ := hclean
  obtain ⟨hk, -, -, hcount⟩ := (keeps_new globalRpm hr).run before
  obtain ⟨last, hsim, hl, -⟩ := simulates_before globalRpm perKeyRpm hc
  obtain ⟨hv, hsim', -⟩ := hsim.check hl c.systemNow
  rw [record_eq_admissions hv] at hsim'
  have hdue : (((new globalRpm perKeyRpm).run before).2.perKeyCheckCount + 1) %
      perKeyCleanupEvery = 0 := by
    rw [hcount, show (new globalRpm perKeyRpm).perKeyCheckCount = 0 from rfl, UInt64.zero_add]
    rw [keysChecked_append, keysChecked_perKey hs, List.length_append, List.length_singleton,
      ← cleanup_due_iff, UInt64.ofNat_add] at hz
    exact hz
  have hl' : last .perKeyWindows ≤ c.now := by
    rw [hs] at hl
    exact hl
  have hrecent := hsim.recent_of_cleanup hk hs hl' hdue
  have hlast : Function.update last c.scope.lock (c.now : WithBot Instant) .perKeyWindows ≤
      c.now := by
    rw [hs]
    exact (Function.update_self (β := fun _ => WithBot Instant) _ _ _).le
  rw [run_append, admissions_append (length_run _ _).symm]
  exact hsim'.mem_iff_activeAt (hk.check c) hlast hrecent k

/-- Every window of the map is sorted, not empty and within the limit. After a cleanup the keys of
the map are the active ones; later on they are some of these and of the keys checked since, which
are less than 1024, so that the map is no larger than both together. -/
theorem perKeyWindows_bounded (globalRpm : UInt64) {perKeyRpm : UInt64} (hr : perKeyRpm ≠ 0)
    (calls : List Call) (hc : Clocked calls) :
    let windows (calls : List Call) : Windows :=
      ((new globalRpm perKeyRpm).run calls).2.perKeyWindows.value
    let log (calls : List Call) : List (Scope × Instant) :=
      admissions calls ((new globalRpm perKeyRpm).run calls).1
    (∀ (k : Int64) (w : List Instant), (windows calls)[k]? = some w →
      w ≠ [] ∧ w.Pairwise (· ≤ ·) ∧ w.length ≤ perKeyRpm.toNat) ∧
    (∀ now, CleansUpAt calls now → ∀ k, k ∈ windows calls ↔ ActiveAt (log calls) now k) ∧
    ∃ (before since : List Call) (active : List Int64), calls = before ++ since ∧
      (keysChecked since).length ≤ 1023 ∧ active.Nodup ∧
      (before = [] ∧ active = [] ∨
        ∃ now, CleansUpAt before now ∧ ∀ k, k ∈ active ↔ ActiveAt (log before) now k) ∧
      (∀ k ∈ windows calls, k ∈ active ∨ k ∈ keysChecked since) ∧
      (windows calls).size ≤ active.length + (keysChecked since).length := by
  intro windows log
  refine ⟨?_, fun now hclean => mem_iff_activeAt_of_cleansUp hr hc hclean, ?_⟩
  · intro k w hw
    obtain ⟨last, hsim, hlim, -⟩ := (simulates_new globalRpm perKeyRpm fun _ => ⊥).after
      (fun _ _ => bot_le) hc
    have hwin : ((new globalRpm perKeyRpm).run calls).2.window (.perKey k) = w := by
      rw [window, Std.TreeMap.getD_eq_getD_getElem?, hw, Option.getD_some]
    have hfit := hsim.fits (.perKey k)
    have hsorted := (hsim.tracks (.perKey k)).window_sorted
    rw [rpm_eq_of_limit_eq hlim, hwin] at hfit
    rw [hwin] at hsorted
    exact ⟨((keeps_new globalRpm hr).run calls).1.nonempty k w hw, hsorted, hfit⟩
  · obtain ⟨before, since, rfl, hb, hn⟩ := exists_last_cleanup calls
    have hc' : Clocked before := (List.pairwise_append.mp hc).1
    obtain ⟨hk, -, -, -⟩ := (keeps_new globalRpm hr).run before
    obtain ⟨-, hmem, hsize, -⟩ := hk.run since
    have hrun : windows (before ++ since) =
        (((new globalRpm perKeyRpm).run before).2.run since).2.perKeyWindows.value :=
      congrArg (fun r => r.2.perKeyWindows.value) (run_append _ before since)
    refine ⟨before, since, (windows before).keys, rfl, ?_, Std.TreeMap.nodup_keys, ?_, ?_, ?_⟩
    · omega
    · rcases hb with rfl | ⟨now, hclean⟩
      · exact Or.inl ⟨rfl, rfl⟩
      · refine Or.inr ⟨now, hclean, fun k => ?_⟩
        rw [Std.TreeMap.mem_keys]
        exact mem_iff_activeAt_of_cleansUp hr hc' hclean k
    · intro k hm
      rw [hrun] at hm
      rw [Std.TreeMap.mem_keys]
      exact hmem k hm
    · rw [hrun, Std.TreeMap.length_keys]
      exact hsize

theorem entry_mem_of_mem_times {calls : List Call} {results : List CheckResult} {s : Scope}
    {t : Instant} (h : t ∈ times (admissions calls results) s) : (s, t) ∈ calls.map Call.entry := by
  obtain ⟨e, he, rfl⟩ := List.mem_map.1 h
  obtain ⟨he, hs⟩ := List.mem_filter.1 he
  obtain ⟨⟨c, r⟩, hcr, hok⟩ := List.mem_filterMap.1 he
  obtain rfl := of_decide_eq_true hs
  refine List.mem_map.2 ⟨c, (List.of_mem_zip hcr).1, ?_⟩
  dsimp only at hok
  split at hok
  · exact Option.some.inj hok
  · cases hok

def idleThenBusy : List Call :=
  ⟨.perKey 7, 0, 0⟩ :: List.replicate 1023 ⟨.perKey 3, 2 * windowDuration, 0⟩

theorem clocked_idleThenBusy : Clocked idleThenBusy := by
  rw [Clocked, idleThenBusy, List.pairwise_cons]
  refine ⟨fun c hc _ => ?_, List.pairwise_replicate.2 (Or.inr fun _ => le_rfl)⟩
  rw [List.eq_of_mem_replicate hc]
  decide

theorem cleansUpAt_idleThenBusy : CleansUpAt idleThenBusy (2 * windowDuration) := by
  refine ⟨⟨.perKey 7, 0, 0⟩ :: List.replicate 1022 ⟨.perKey 3, 2 * windowDuration, 0⟩,
    ⟨.perKey 3, 2 * windowDuration, 0⟩, 3, ?_, rfl, rfl, ?_⟩
  · rw [idleThenBusy, List.replicate_succ', List.cons_append]
  · have hall : ∀ c ∈ idleThenBusy, ∃ keyId, c.scope = .perKey keyId := by
      intro c hc
      rcases List.mem_cons.1 hc with rfl | hc
      · exact ⟨7, rfl⟩
      · rw [List.eq_of_mem_replicate hc]
        exact ⟨3, rfl⟩
    rw [length_keysChecked hall, idleThenBusy, List.length_cons, List.length_replicate]

/-- The last of the checks is the 1024th and drops the idle key. -/
theorem perKeyWindows_bounded_cleanup :
    (7 : Int64) ∈ ((new 5 1).run (idleThenBusy.take 1)).2.perKeyWindows.value ∧
      (7 : Int64) ∉ ((new 5 1).run idleThenBusy).2.perKeyWindows.value := by
  refine ⟨by decide +kernel, ?_⟩
  have hr : (1 : UInt64) ≠ 0 := by decide
  obtain ⟨-, hkeys, -⟩ := perKeyWindows_bounded 5 hr idleThenBusy clocked_idleThenBusy
  rw [hkeys _ cleansUpAt_idleThenBusy]
  rintro ⟨t, ht, hlo, -⟩
  have hentry := entry_mem_of_mem_times ht
  rw [idleThenBusy, List.map_cons, List.map_replicate, List.mem_cons] at hentry
  rcases hentry with he | he
  · rw [(Prod.mk.inj he).2] at hlo
    exact absurd hlo (by decide)
  · exact absurd (Prod.mk.inj (List.eq_of_mem_replicate he)).1 (by decide)

end AlbionApi.RateLimiter
