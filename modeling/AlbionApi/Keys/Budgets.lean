import AlbionApi.Keys.Access
import AlbionApi.Limiter.KeyedWindows

/-! # A key's budget is its own

Row numbers are never given twice, so that neither a deleted key nor a request
that was looked up before the deletion can charge a later key: every instant in
the window of a key is that of an answered request with its own credentials.
-/

namespace AlbionApi

open Runs RateLimiter

variable {cr : Crypto} {tools : KeyTools cr} {globalRpm perKeyRpm : UInt64}
  {outputs : List KeyOutput} {o : KeyOutput} {s s' : KeySystem} {db db' : Database}

/-- What no command changes of a row. -/
structure KeyRecord.Kept (k k' : KeyRecord) : Prop where
  keyId : k'.keyId = k.keyId
  secretHash : k'.secretHash = k.secretHash
  label : k'.label = k.label
  owner : k'.owner = k.owner
  isAdmin : k'.isAdmin = k.isAdmin

theorem KeyRecord.Kept.refl (k : KeyRecord) : k.Kept k := ⟨rfl, rfl, rfl, rfl, rfl⟩

theorem Executed.later {inv : Invocation} {result : Except String Printed}
    (h : Executed tools db inv result db') :
    IdTable.Later KeyRecord.Kept db.apiKeys db'.apiKeys := by
  cases h with
  | failed e => exact .refl KeyRecord.Kept.refl _
  | listed command => exact .refl KeyRecord.Kept.refl _
  | created command hashed fresh inserted logs => exact .insert KeyRecord.Kept.refl inserted
  | revoked command known =>
    rw [Database.apiKeys_revoke]
    exact .modify KeyRecord.Kept.refl fun k _ => ⟨rfl, rfl, rfl, rfl, rfl⟩
  | deleted command known => exact .delete KeyRecord.Kept.refl _

theorem Stepped.later (h : Stepped tools s o s') :
    IdTable.Later KeyRecord.Kept s.db.apiKeys s'.db.apiKeys := by
  cases h with
  | command executed => exact executed.later
  | logged spawned insert =>
    rw [(Database.insertUsage_eq_ok insert).1]
    exact .refl KeyRecord.Kept.refl _
  | turnedAway => exact .refl KeyRecord.Kept.refl _
  | admitted => exact .refl KeyRecord.Kept.refl _
  | authenticated => exact .refl KeyRecord.Kept.refl _
  | refused => exact .refl KeyRecord.Kept.refl _
  | charged => exact .refl KeyRecord.Kept.refl _
  | dropped => exact .refl KeyRecord.Kept.refl _
  | restarted => exact .refl KeyRecord.Kept.refl _

/-- A row number that was given, and credentials of its row if that is still there. -/
def Owns (cr : Crypto) (db : Database) (id : Int64) (req : Request) : Prop :=
  ∃ i ≤ db.apiKeys.last, id = rowid i ∧ ∀ k, (i, k) ∈ db.apiKeys.rows →
    ∃ secret, parseCredentials cr req.authorization = .ok (k.keyId, secret) ∧
      Verifies cr secret k.secretHash

theorem Owns.later {id : Int64} {req : Request} (h : Owns cr db id req)
    (hl : IdTable.Later KeyRecord.Kept db.apiKeys db'.apiKeys) : Owns cr db' id req := by
  obtain ⟨i, hi, rfl, hk⟩ := h
  refine ⟨i, hi.trans hl.last_le, rfl, ?_⟩
  intro k' hk'
  obtain ⟨k, hmem, hkept⟩ := hl.earlier i k' hk' hi
  obtain ⟨secret, hp, hv⟩ := hk k hmem
  exact ⟨secret, hkept.keyId ▸ hp, hkept.secretHash ▸ hv⟩

theorem owns_of_authenticate {req : Request} {row : ApiKeyRow}
    (h : authenticate cr db.keyRows req = .ok row) : Owns cr db row.id req := by
  obtain ⟨keyId, secret, hp, -, hf, hv⟩ := authenticate_eq_ok_iff.1 h
  obtain ⟨i, k, hk, rfl, -, rfl⟩ := Database.find?_keyRows_iff.1 hf
  refine ⟨i, db.apiKeys.id_le _ hk, rfl, ?_⟩
  intro k' hk'
  cases IdTable.unique hk hk'
  exact ⟨secret, hp, hv⟩

theorem mem_window_checkPerKey {rl : RateLimiter} {k n : Int64} {now t : Instant}
    {systemNow : SystemTime} (h : t ∈ (rl.checkPerKey k now systemNow).2.window (.perKey n)) :
    t ∈ rl.window (.perKey n) ∨ n = k ∧ t = now := by
  unfold checkPerKey at h
  split at h
  · exact .inl h
  split at h
  · exact .inl h
  next windows hlock =>
  have hvalue : windows = rl.perKeyWindows.value := by
    unfold Mutex.lock at hlock
    split at hlock
    · cases hlock
    · exact (Option.some.inj hlock).symm
  subst hvalue
  set kept := if (rl.perKeyCheckCount + 1) % perKeyCleanupEvery = 0 then
    cleanup rl.perKeyWindows.value (now - windowDuration) else rl.perKeyWindows.value with hkept
  have hold : t ∈ kept.getD n [] → t ∈ rl.window (.perKey n) := by
    intro ht
    rw [hkept] at ht
    split at ht
    · rw [getD_cleanup] at ht
      exact List.dropWhile_sublist _ |>.mem ht
    · exact ht
  simp only [window, Std.TreeMap.getD_insert, Std.LawfulEqOrd.compare_eq_iff_eq] at h
  split at h
  · next hn =>
    subst hn
    rcases mem_tryAdmit h with ht | rfl
    · exact .inl (hold ((List.dropWhile_sublist _).mem ht))
    · exact .inr ⟨rfl, rfl⟩
  · exact .inl (hold h)

/-! ## The invariant -/

/-- What holds of the requests between two steps and of the windows in every run. -/
structure Budgeted (cr : Crypto) (outputs : List KeyOutput) (s : KeySystem) : Prop where
  anonymous : ∀ v ∈ s.visits, v.cache.authKeyId = none
  owned : ∀ v ∈ s.visits, ∀ row, v.stage = .authenticated row → Owns cr s.db row.id v.req
  charged : ∀ n, ∀ t ∈ s.limiter.window (.perKey n), ∃ p ∈ answers outputs,
    t = p.1.keyReading.now ∧ p.2.usage.map UsageRow.apiKeyId = some n ∧ Owns cr s.db n p.1

theorem Budgeted.frame (h : Budgeted cr outputs s) (hs : Stepped tools s o s')
    (hvisits : ∀ v ∈ s'.visits, v.cache.authKeyId = none ∧
      ∀ row, v.stage = .authenticated row → Owns cr s'.db row.id v.req)
    (hwindow : ∀ n, ∀ t ∈ s'.limiter.window (.perKey n), t ∈ s.limiter.window (.perKey n)) :
    Budgeted cr (outputs ++ [o]) s' := by
  refine ⟨fun v hv => (hvisits v hv).1, fun v hv => (hvisits v hv).2, ?_⟩
  intro n t ht
  obtain ⟨p, hp, htime, husage, howns⟩ := h.charged n t (hwindow n t ht)
  rw [answers_append]
  exact ⟨p, List.mem_append_left _ hp, htime, husage, howns.later hs.later⟩

theorem Budgeted.visits (h : Budgeted cr outputs s) (hs : Stepped tools s o s') :
    ∀ v ∈ s.visits, v.cache.authKeyId = none ∧
      ∀ row, v.stage = .authenticated row → Owns cr s'.db row.id v.req :=
  fun v hv => ⟨h.anonymous v hv, fun row hr => (h.owned v hv row hr).later hs.later⟩

theorem window_of_perKeyWindows {rl rl' : RateLimiter} (h : rl'.perKeyWindows = rl.perKeyWindows)
    (n : Int64) : rl'.window (.perKey n) = rl.window (.perKey n) := by
  rw [window, window, h]

theorem budgeted_init (cr : Crypto) (globalRpm perKeyRpm : UInt64) :
    Budgeted cr [] (.init globalRpm perKeyRpm) :=
  ⟨fun _ h => absurd h List.not_mem_nil, fun _ h => absurd h List.not_mem_nil,
    fun _ _ h => absurd h (by simp [KeySystem.init, RateLimiter.new, window])⟩

theorem Budgeted.stepped (h : Budgeted cr outputs s) (hs : Stepped tools s o s') :
    Budgeted cr (outputs ++ [o]) s' := by
  have hvisits := h.visits hs
  have hframe := h.frame hs
  cases hs with
  | command executed => exact hframe hvisits fun _ _ ht => ht
  | turnedAway usage windows =>
    refine hframe hvisits fun n t ht => ?_
    rwa [window_of_perKeyWindows windows] at ht
  | admitted anonymous windows =>
    refine hframe ?_ fun n t ht => ?_
    · intro v hv
      rcases List.mem_append.1 hv with hv | hv
      · exact hvisits v hv
      · rw [List.mem_singleton.1 hv]
        exact ⟨anonymous, nofun⟩
    · rwa [window_of_perKeyWindows windows] at ht
  | authenticated visit ok =>
    have hanonymous := h.anonymous _ (List.mem_of_getElem? visit)
    refine hframe ?_ fun _ _ ht => ht
    intro v hv
    rcases List.mem_or_eq_of_mem_set hv with hv | rfl
    · exact hvisits v hv
    · refine ⟨hanonymous, ?_⟩
      rintro row' ⟨⟩
      exact owns_of_authenticate ok
  | refused visit failed =>
    exact hframe (fun v hv => hvisits v ((List.eraseIdx_sublist ..).mem hv)) fun _ _ ht => ht
  | @charged i handlerStatus req cache cache' row result limiter answer visit charge response =>
    have hmem := List.mem_of_getElem? visit
    refine ⟨fun v hv => (hvisits v ((List.eraseIdx_sublist ..).mem hv)).1,
      fun v hv => (hvisits v ((List.eraseIdx_sublist ..).mem hv)).2, ?_⟩
    intro n t ht
    rw [answers_append]
    rw [(charge_frame charge).1] at ht
    rcases mem_window_checkPerKey ht with ht | ⟨rfl, rfl⟩
    · obtain ⟨p, hp, hold⟩ := h.charged n t ht
      exact ⟨p, List.mem_append_left _ hp, hold⟩
    · refine ⟨(req, answer), List.mem_append_right _ (List.mem_singleton_self _), rfl, ?_,
        h.owned _ hmem row rfl⟩
      rw [response, respond_usage_of_charge charge (h.anonymous _ hmem)]
      rfl
  | logged spawned insert => exact hframe hvisits fun _ _ ht => ht
  | dropped spawned failed => exact hframe hvisits fun _ _ ht => ht
  | restarted globalRpm perKeyRpm =>
    refine hframe (fun v hv => absurd hv List.not_mem_nil) fun n t ht => ?_
    exact absurd ht (by simp [RateLimiter.new, window])

theorem budgeted_of_run (h : KeyRun tools globalRpm perKeyRpm outputs s) :
    Budgeted cr outputs s :=
  h.invariant (budgeted_init cr globalRpm perKeyRpm) fun _ _ _ _ _ hb step =>
    hb.stepped (step_stepped step)

/-- In every run, each instant in the window of a key is that of a request which was charged to
this key and carried its credentials; and the window of a key that was just created is empty,
whatever was charged to earlier keys, also under the same key id. -/
theorem window_own (h : KeyRun tools globalRpm perKeyRpm outputs s) :
    (∀ i k, (i, k) ∈ s.db.apiKeys.rows → ∀ t ∈ s.limiter.window (.perKey (rowid i)),
      ∃ req answer secret, (req, answer) ∈ answers outputs ∧ t = req.keyReading.now ∧
        answer.usage.map UsageRow.apiKeyId = some (rowid i) ∧
        parseCredentials cr req.authorization = .ok (k.keyId, secret) ∧
        Verifies cr secret k.secretHash) ∧
    ∀ before keyId secret label owner admin,
      outputs = before ++ [.command (.ok (.created keyId secret label owner admin))] →
        ∀ i k, (i, k) ∈ s.db.apiKeys.rows → k.keyId = keyId →
          s.limiter.window (.perKey (rowid i)) = [] := by
  have hb := budgeted_of_run h
  constructor
  · intro i k hk t ht
    obtain ⟨⟨req, answer⟩, hp, htime, husage, j, hj, he, howns⟩ := hb.charged _ t ht
    obtain rfl := rowid_inj (IdTable.id_le_bound hk) (hj.trans s.db.apiKeys.last_le) he
    obtain ⟨secret, hparse, hv⟩ := howns k hk
    exact ⟨req, answer, secret, hp, htime, husage, hparse, hv⟩
  · rintro before keyId secret label owner admin rfl i k hk rfl
    obtain ⟨t₀, e, t₁, hbefore, step, hrest⟩ := Traced.split h
    cases traced_nil_iff.1 hrest
    rw [List.eq_nil_iff_forall_not_mem]
    intro t ht
    generalize ho : KeyOutput.command (.ok (.created k.keyId secret label owner admin)) = o at step
    cases step_stepped step with
    | command executed =>
      cases ho
      obtain ⟨-, fresh, k', -, inserted⟩ := executed.of_created
      obtain ⟨hrows, -⟩ := IdTable.insert_eq_some inserted
      -- The row of the new key is the one that was appended.
      have hi : i = t₀.db.apiKeys.last + 1 := by
        rw [hrows] at hk
        rcases List.mem_append.1 hk with hk | hk
        · exact absurd rfl (fresh _ hk)
        · exact congrArg Prod.fst (List.mem_singleton.1 hk)
      obtain ⟨p, -, -, -, j, hj, he, -⟩ := (budgeted_of_run hbefore).charged _ t ht
      have := rowid_inj (IdTable.id_le_bound hk) (hj.trans t₀.db.apiKeys.last_le) he
      omega
    | _ => cases ho

section Example

theorem exists_zero_answer : ∃ answer s, KeyRun plainTools 0 5 ([zeroCreated] ++
    [.admitted zeroRequest] ++ [.authenticated zeroRequest (zeroRow 1)] ++
      [.answered zeroRequest answer]) s := by
  obtain ⟨s, h, hvisits⟩ := exists_zero_visit [createZero] [zeroCreated] 1 (by decide +kernel)
  have hvisit : s.visits[0]? = some ⟨zeroRequest, {}, .authenticated (zeroRow 1)⟩ := by
    rw [hvisits]
    rfl
  exact ⟨_, _, h.snoc (charge_authenticated hvisit 200)⟩

theorem window_own_zero : ∃ answer s, KeyRun plainTools 0 5 ([zeroCreated] ++
    [.admitted zeroRequest] ++ [.authenticated zeroRequest (zeroRow 1)] ++
      [.answered zeroRequest answer]) s ∧
    ∀ i k, (i, k) ∈ s.db.apiKeys.rows → ∀ t ∈ s.limiter.window (.perKey (rowid i)), t = 0 := by
  obtain ⟨answer, s, h⟩ := exists_zero_answer
  refine ⟨answer, s, h, ?_⟩
  intro i k hk t ht
  obtain ⟨req, answer', secret, hm, htime, -⟩ := (window_own h).1 i k hk t ht
  cases List.mem_singleton.1 (show (req, answer') ∈ [(zeroRequest, answer)] from hm)
  exact htime

end Example

end AlbionApi
