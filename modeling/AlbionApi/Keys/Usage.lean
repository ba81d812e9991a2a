import AlbionApi.Keys.Budgets
import Mathlib.Data.List.Perm.Basic

/-! # The usage log

A usage row is spawned with the answer to an authenticated request and inserted
later, or never. No row is logged twice or without such an answer, and a key
that still exists has all of its rows unless an insertion failed or the server
stopped before it.
-/

namespace AlbionApi

open Runs

variable {cr : Crypto} {tools : KeyTools cr} {globalRpm perKeyRpm : UInt64}
  {outputs : List KeyOutput} {o : KeyOutput} {s s' : KeySystem} {db db' : Database}
  {u : UsageRow}

def Database.logged (db : Database) : List UsageRow := db.usageLogs.rows.map Prod.snd

/-- The usage row is of a key that exists. -/
def Database.Has (db : Database) (u : UsageRow) : Prop :=
  ∃ r ∈ db.apiKeys.rows, rowid r.1 = u.apiKeyId

/-- No restart, and no failed insertion but those for a key that is gone. -/
def Faultless (outputs : List KeyOutput) : Prop :=
  .restarted ∉ outputs ∧
    ∀ u e, .inserted u (.error e) ∈ outputs → e = .foreignKeyViolation

theorem logged_insertUsage (h : db.insertUsage u = .ok db') : db'.logged = db.logged ++ [u] := by
  obtain ⟨-, hins, -⟩ := Database.insertUsage_eq_ok h
  rw [Database.logged, (IdTable.insert_eq_some hins).1, List.map_append]
  rfl

theorem not_has_of_violation (h : db.insertUsage u = .error .foreignKeyViolation) :
    ¬ db.Has u := by
  unfold Database.insertUsage at h
  split at h
  · cases h
  · split at h
    · cases h
    · next hu => exact hu

theorem logged_deleteKey (db : Database) (keyId : String) :
    (db.deleteKey keyId).2.logged = db.logged.filter fun u =>
      !db.apiKeys.rows.any fun r => r.2.keyId = keyId && rowid r.1 = u.apiKeyId := by
  rw [Database.logged, Database.logged, List.filter_map]
  rfl

theorem Executed.count_logged {inv : Invocation} {result : Except String Printed}
    (h : Executed tools db inv result db') (u : UsageRow) :
    db'.logged.count u ≤ db.logged.count u ∧
      (db'.Has u → db'.logged.count u = db.logged.count u) := by
  cases h with
  | failed e => exact ⟨le_rfl, fun _ => rfl⟩
  | listed command => exact ⟨le_rfl, fun _ => rfl⟩
  | created command hashed fresh inserted logs =>
    rw [Database.logged, logs]
    exact ⟨le_rfl, fun _ => rfl⟩
  | revoked command known => exact ⟨le_rfl, fun _ => rfl⟩
  | @deleted keyId command known =>
    rw [logged_deleteKey]
    refine ⟨List.filter_sublist.count_le u, ?_⟩
    rintro ⟨⟨i, k⟩, hk, hid⟩
    obtain ⟨hk, hkeep⟩ := List.mem_filter.1 hk
    refine List.count_filter ?_
    rw [Bool.not_eq_true', List.any_eq_false]
    rintro ⟨j, l⟩ hl he
    simp only [Bool.and_eq_true, decide_eq_true_iff] at he
    have hji : j = i := rowid_inj (IdTable.id_le_bound hl) (IdTable.id_le_bound hk)
      (he.2.trans hid.symm)
    subst hji
    cases IdTable.unique hl hk
    simp [he.1] at hkeep

theorem count_eraseIdx {i : ℕ} {v : UsageRow} {l : List UsageRow} (h : l[i]? = some v)
    (u : UsageRow) : (l.eraseIdx i).count u + [v].count u = l.count u := by
  obtain ⟨hi, rfl⟩ := List.getElem?_eq_some_iff.1 h
  rw [← (List.getElem_cons_eraseIdx_perm hi).count_eq u, ← List.count_append,
    (List.perm_append_singleton _ _).count_eq]

/-- What the log, the spawned insertions and the answers have to do with each other. -/
structure Accounted (outputs : List KeyOutput) (s : KeySystem) : Prop where
  numbered : ∀ u ∈ usages outputs, ∃ i ≤ s.db.apiKeys.last, u.apiKeyId = rowid i
  authenticated : ∀ v ∈ s.visits, ∀ row, v.stage = .authenticated row →
    .authenticated v.req row ∈ outputs
  sources : ∀ u ∈ usages outputs, ∃ p ∈ answers outputs, ∃ row,
    .authenticated p.1 row ∈ outputs ∧ u = ⟨row.id, p.1.method, p.1.path, p.2.status⟩
  atMost : ∀ u, s.db.logged.count u + s.spawned.count u ≤ (usages outputs).count u
  exact : Faultless outputs → ∀ u, s.db.Has u →
    s.db.logged.count u + s.spawned.count u = (usages outputs).count u

theorem Faultless.of_append {outputs' : List KeyOutput} (h : Faultless (outputs ++ outputs')) :
    Faultless outputs ∧ Faultless outputs' :=
  ⟨⟨fun hm => h.1 (List.mem_append_left _ hm), fun u e hm => h.2 u e (List.mem_append_left _ hm)⟩,
    fun hm => h.1 (List.mem_append_right _ hm),
    fun u e hm => h.2 u e (List.mem_append_right _ hm)⟩

theorem accounted_init (globalRpm perKeyRpm : UInt64) :
    Accounted [] (.init globalRpm perKeyRpm) where
  numbered _ h := absurd h List.not_mem_nil
  authenticated _ h := absurd h List.not_mem_nil
  sources _ h := absurd h List.not_mem_nil
  atMost _ := le_rfl
  exact _ _ _ := rfl

theorem Accounted.count_eq_zero (h : Accounted outputs s)
    (hl : IdTable.Later KeyRecord.Kept s.db.apiKeys db'.apiKeys) (hu : db'.Has u)
    (hn : ¬ s.db.Has u) : (usages outputs).count u = 0 := by
  rw [List.count_eq_zero]
  intro hm
  obtain ⟨i, hi, hid⟩ := h.numbered u hm
  obtain ⟨⟨j, k'⟩, hk', he⟩ := hu
  obtain rfl := rowid_inj (IdTable.id_le_bound hk') (hi.trans s.db.apiKeys.last_le) (he.trans hid)
  obtain ⟨k, hk, -⟩ := hl.earlier j k' hk' hi
  exact hn ⟨(j, k), hk, he⟩

theorem Accounted.kept (h : Accounted outputs s) (hs : Stepped tools s o s')
    (hrows : ∀ u ∈ usages [o], (∃ i ≤ s.db.apiKeys.last, u.apiKeyId = rowid i) ∧
      ∃ p ∈ answers [o], ∃ row, .authenticated p.1 row ∈ outputs ∧
        u = ⟨row.id, p.1.method, p.1.path, p.2.status⟩)
    (hvisits : ∀ v ∈ s'.visits, ∀ row, v.stage = .authenticated row →
      .authenticated v.req row ∈ outputs ++ [o])
    (hle : ∀ u, s'.db.logged.count u + s'.spawned.count u ≤
      s.db.logged.count u + s.spawned.count u + (usages [o]).count u)
    (heq : Faultless [o] → ∀ u, s'.db.Has u → s'.db.logged.count u + s'.spawned.count u =
      s.db.logged.count u + s.spawned.count u + (usages [o]).count u) :
    Accounted (outputs ++ [o]) s' := by
  refine ⟨?_, hvisits, ?_, ?_, ?_⟩
  · intro u hu
    rw [usages_append] at hu
    rcases List.mem_append.1 hu with hu | hu
    · obtain ⟨i, hi, hid⟩ := h.numbered u hu
      exact ⟨i, hi.trans hs.later.last_le, hid⟩
    · obtain ⟨⟨i, hi, hid⟩, -⟩ := hrows u hu
      exact ⟨i, hi.trans hs.later.last_le, hid⟩
  · intro u hu
    rw [usages_append] at hu
    rw [answers_append]
    rcases List.mem_append.1 hu with hu | hu
    · obtain ⟨p, hp, row, hrow, hsrc⟩ := h.sources u hu
      exact ⟨p, List.mem_append_left _ hp, row, List.mem_append_left _ hrow, hsrc⟩
    · obtain ⟨-, p, hp, row, hrow, hsrc⟩ := hrows u hu
      exact ⟨p, List.mem_append_right _ hp, row, List.mem_append_left _ hrow, hsrc⟩
  · intro u
    rw [usages_append, List.count_append]
    have := h.atMost u
    have := hle u
    omega
  · intro hf u hu
    rw [usages_append, List.count_append, heq hf.of_append.2 u hu, Nat.add_right_cancel_iff]
    by_cases hold : s.db.Has u
    · exact h.exact hf.of_append.1 u hold
    · have hzero := h.count_eq_zero hs.later hu hold
      have := h.atMost u
      omega

theorem Accounted.silent (h : Accounted outputs s) (hs : Stepped tools s o s')
    (hnone : usages [o] = [])
    (hvisits : ∀ v ∈ s'.visits, ∀ row, v.stage = .authenticated row →
      .authenticated v.req row ∈ outputs ++ [o])
    (hle : ∀ u, s'.db.logged.count u + s'.spawned.count u ≤
      s.db.logged.count u + s.spawned.count u)
    (heq : Faultless [o] → ∀ u, s'.db.Has u → s'.db.logged.count u + s'.spawned.count u =
      s.db.logged.count u + s.spawned.count u) :
    Accounted (outputs ++ [o]) s' := by
  refine h.kept hs ?_ hvisits ?_ ?_
  · intro u hu
    rw [hnone] at hu
    cases hu
  · intro u
    rw [hnone]
    exact hle u
  · intro hf u hu
    rw [hnone]
    exact heq hf u hu

theorem Accounted.stepped (h : Accounted outputs s) (hb : Budgeted cr outputs s)
    (hs : Stepped tools s o s') : Accounted (outputs ++ [o]) s' := by
  have hvisits : ∀ v ∈ s.visits, ∀ row, v.stage = .authenticated row →
      .authenticated v.req row ∈ outputs ++ [o] :=
    fun v hv row hr => List.mem_append_left _ (h.authenticated v hv row hr)
  have hkept := h.kept hs
  have hsilent := h.silent hs
  cases hs with
  | command executed =>
    refine hsilent ?_ hvisits ?_ ?_
    · cases ‹Except String Printed› <;> rfl
    · exact fun u => Nat.add_le_add_right (executed.count_logged u).1 _
    · exact fun _ u hu => congrArg (· + _) ((executed.count_logged u).2 hu)
  | turnedAway usage windows =>
    refine hsilent ?_ hvisits (fun _ => le_rfl) fun _ _ _ => rfl
    simp [usages, answers, usage]
  | admitted anonymous windows =>
    refine hsilent rfl ?_ (fun _ => le_rfl) fun _ _ _ => rfl
    intro v hv row hr
    rcases List.mem_append.1 hv with hv | hv
    · exact hvisits v hv row hr
    · rw [List.mem_singleton.1 hv] at hr
      cases hr
  | authenticated visit ok =>
    refine hsilent rfl ?_ (fun _ => le_rfl) fun _ _ _ => rfl
    intro v hv row hr
    rcases List.mem_or_eq_of_mem_set hv with hv | rfl
    · exact hvisits v hv row hr
    · cases hr
      exact List.mem_append_right _ (List.mem_singleton_self _)
  | refused visit failed =>
    refine hsilent ?_ (fun v hv => hvisits v ((List.eraseIdx_sublist ..).mem hv))
      (fun _ => le_rfl) fun _ _ _ => rfl
    have hanonymous := hb.anonymous _ (List.mem_of_getElem? visit)
    simp [usages, answers, respond_usage_of_anonymous hanonymous]
  | logged spawned insert =>
    have hcount := fun u => count_eraseIdx spawned u
    refine hsilent rfl hvisits (fun u => ?_) fun _ u _ => ?_
    · rw [logged_insertUsage insert, List.count_append]
      have := hcount u
      dsimp only at this ⊢
      omega
    · rw [logged_insertUsage insert, List.count_append]
      have := hcount u
      dsimp only at this ⊢
      omega
  | @dropped i v e spawned failed =>
    have hcount := fun u => count_eraseIdx spawned u
    refine hsilent rfl hvisits (fun u => ?_) fun hf u hu => ?_
    · have := hcount u
      dsimp only at this ⊢
      omega
    · have he : e = .foreignKeyViolation := hf.2 v e (List.mem_singleton_self _)
      subst he
      have hgone : ¬ s.db.Has v := by
        rcases failed with ⟨message, hm⟩ | hv
        · cases hm
        · exact not_has_of_violation hv
      have hne : v ≠ u := fun he => hgone (he ▸ hu)
      have := hcount u
      rw [List.count_singleton, if_neg (by simpa using hne)] at this
      dsimp only
      omega
  | restarted globalRpm perKeyRpm =>
    refine hsilent rfl (fun v hv => absurd hv List.not_mem_nil) (fun u => ?_) fun hf => ?_
    · exact Nat.add_le_add_left (Nat.zero_le _) _
    · exact absurd (List.mem_singleton_self _) hf.1
  | @charged i handlerStatus req cache cache' row result limiter answer visit charge response =>
    have hmem := List.mem_of_getElem? visit
    have hanonymous := hb.anonymous _ hmem
    have husage : answer.usage = some ⟨row.id, req.method, req.path, answer.status⟩ := by
      rw [response, respond_usage_of_charge charge hanonymous]
      rfl
    have husages : usages [.answered req answer] = answer.usage.toList := by
      simp [usages, answers, husage]
    refine hkept ?_ (fun v hv => hvisits v ((List.eraseIdx_sublist ..).mem hv))
      (fun u => ?_) fun _ u _ => ?_
    · intro u hu
      rw [husages, husage] at hu
      obtain ⟨j, hj, hid, -⟩ := hb.owned _ hmem row rfl
      obtain rfl := List.mem_singleton.1 hu
      exact ⟨⟨j, hj, hid⟩, (req, answer), List.mem_singleton_self _, row,
        h.authenticated _ hmem row rfl, rfl⟩
    · rw [husages, List.count_append, ← Nat.add_assoc]
    · rw [husages, List.count_append, ← Nat.add_assoc]

/-! ## Every run -/

/-- In every run, each usage row belongs to a key that exists, and is logged at most once for each
answer that it records: an answer to a request whose credentials a lookup accepted. Unless an
insertion failed or the server was restarted, the rows of a key that exists, logged and still
spawned, are exactly those of the answers under it. -/
theorem usage_accounted (h : KeyRun tools globalRpm perKeyRpm outputs s) :
    (∀ u ∈ s.db.logged, s.db.Has u ∧ ∃ req answer row, (req, answer) ∈ answers outputs ∧
      .authenticated req row ∈ outputs ∧ u = ⟨row.id, req.method, req.path, answer.status⟩) ∧
    (∀ u, s.db.logged.count u ≤ (usages outputs).count u) ∧
    (Faultless outputs → ∀ i k, (i, k) ∈ s.db.apiKeys.rows →
      ((s.db.logged ++ s.spawned).filter fun u => u.apiKeyId = rowid i).Perm
        ((usages outputs).filter fun u => u.apiKeyId = rowid i)) := by
  have ha : Accounted outputs s ∧ Budgeted cr outputs s := by
    refine h.invariant (P := fun outputs s => Accounted outputs s ∧ Budgeted cr outputs s)
      ⟨accounted_init .., budgeted_init ..⟩ ?_
    intro outputs s e o s' hinv step
    have hs := step_stepped step
    exact ⟨hinv.1.stepped hinv.2 hs, hinv.2.stepped hs⟩
  obtain ⟨ha, -⟩ := ha
  have hle : ∀ u, s.db.logged.count u ≤ (usages outputs).count u := fun u =>
    (Nat.le_add_right _ _).trans (ha.atMost u)
  refine ⟨?_, hle, ?_⟩
  · intro u hu
    obtain ⟨l, hl, rfl⟩ := List.mem_map.1 hu
    have hpos : 0 < (usages outputs).count l.2 := (List.count_pos_iff.2 hu).trans_le (hle l.2)
    obtain ⟨p, hp, row, hrow, hsrc⟩ := ha.sources l.2 (List.count_pos_iff.1 hpos)
    exact ⟨s.db.references l hl, p.1, p.2, row, hp, hrow, hsrc⟩
  · intro hf i k hk
    rw [List.perm_iff_count]
    intro u
    by_cases hid : u.apiKeyId = rowid i
    · rw [List.count_filter (by simpa using hid), List.count_filter (by simpa using hid),
        List.count_append]
      exact ha.exact hf u ⟨(i, k), hk, hid.symm⟩
    · rw [List.count_eq_zero.2 fun hm => hid (by simpa using (List.mem_filter.1 hm).2),
        List.count_eq_zero.2 fun hm => hid (by simpa using (List.mem_filter.1 hm).2)]

theorem usage_accounted_zero : ∃ answer s, KeyRun plainTools 0 5 ([zeroCreated] ++
    [.admitted zeroRequest] ++ [.authenticated zeroRequest (zeroRow 1)] ++
      [.answered zeroRequest answer]) s ∧
    ∀ i k, (i, k) ∈ s.db.apiKeys.rows →
      ((s.db.logged ++ s.spawned).filter fun u => u.apiKeyId = rowid i).Perm
        (answer.usage.toList.filter fun u => u.apiKeyId = rowid i) := by
  obtain ⟨answer, s, h⟩ := exists_zero_answer
  refine ⟨answer, s, h, ?_⟩
  have husages : usages ([zeroCreated] ++ [.admitted zeroRequest] ++
      [.authenticated zeroRequest (zeroRow 1)] ++ [.answered zeroRequest answer]) =
        answer.usage.toList := by
    cases hu : answer.usage <;> simp [usages, answers, zeroCreated, hu]
  rw [← husages]
  refine (usage_accounted h).2.2 ⟨?_, ?_⟩
  · simp [zeroCreated]
  · intro u e hm
    simp [zeroCreated] at hm

end AlbionApi
