import AlbionApi.Auth.Credentials
import AlbionApi.Keys.System

/-! # Who gets in

In every run of the system, however its steps interleave, the acknowledged
commands are a run of the accounts, and these accounts alone decide each
credential check: a printed secret gets in until its account is revoked or
deleted, and after that nobody does without a new creation.
-/

namespace AlbionApi

open Runs

/-- The outputs of a run of the system from the start, and the state it ends in. -/
abbrev KeyRun {cr : Crypto} (tools : KeyTools cr) (globalRpm perKeyRpm : UInt64) :
    List KeyOutput → KeySystem → Prop :=
  Traced (KeySystem.step tools) (.init globalRpm perKeyRpm)

variable {cr : Crypto} {tools : KeyTools cr} {globalRpm perKeyRpm : UInt64}
  {outputs : List KeyOutput} {o : KeyOutput} {s s' : KeySystem} {accounts : Accounts}

theorem Database.insertUsage_eq_ok {db db' : Database} {u : UsageRow}
    (h : db.insertUsage u = .ok db') :
    db'.apiKeys = db.apiKeys ∧ db.usageLogs.insert u = some db'.usageLogs ∧
      ∃ r ∈ db.apiKeys.rows, rowid r.1 = u.apiKeyId := by
  unfold insertUsage at h
  split at h
  · cases h
  next usageLogs hins =>
  split at h
  · next hu =>
    cases h
    exact ⟨rfl, hins, hu⟩
  · cases h

theorem Represents.of_apiKeys_eq {db db' : Database} (h : Represents tools accounts db)
    (he : db'.apiKeys = db.apiKeys) : Represents tools accounts db' := by
  constructor
  · rw [he]
    exact h.account_of_row
  · rw [he]
    exact h.row_of_account

theorem Stepped.represents (hs : Stepped tools s o s') (h : Represents tools accounts s.db) :
    ∃ accounts', run Accounts.step accounts (acks [o]) = some accounts' ∧
      Represents tools accounts' s'.db := by
  cases hs with
  | @command inv result db executed =>
    cases result with
    | error e => exact ⟨accounts, rfl, executed_error executed ▸ h⟩
    | ok ack =>
      obtain ⟨accounts', hstep, h'⟩ := h.executed executed
      exact ⟨accounts', run_cons_eq_some.2 ⟨_, hstep, rfl⟩, h'⟩
  | logged spawned insert =>
    exact ⟨accounts, rfl, h.of_apiKeys_eq (Database.insertUsage_eq_ok insert).1⟩
  | turnedAway usage windows => exact ⟨accounts, rfl, h⟩
  | admitted anonymous windows => exact ⟨accounts, rfl, h⟩
  | authenticated visit ok => exact ⟨accounts, rfl, h⟩
  | refused visit failed => exact ⟨accounts, rfl, h⟩
  | charged visit charge response => exact ⟨accounts, rfl, h⟩
  | dropped spawned failed => exact ⟨accounts, rfl, h⟩
  | restarted => exact ⟨accounts, rfl, h⟩

theorem Represents.traced (h : Represents tools accounts s.db)
    (ht : Traced (KeySystem.step tools) s outputs s') :
    ∃ accounts', run Accounts.step accounts (acks outputs) = some accounts' ∧
      Represents tools accounts' s'.db := by
  induction ht with
  | nil => exact ⟨accounts, rfl, h⟩
  | snoc _ step ih =>
    obtain ⟨accounts₁, hrun, h₁⟩ := ih
    obtain ⟨accounts₂, hstep, h₂⟩ := (step_stepped step).represents h₁
    exact ⟨accounts₂, by rw [acks_append]; exact run_append_eq_some.2 ⟨_, hrun, hstep⟩, h₂⟩

structure Account.ShownBy (a : Account) (l : KeyListing) : Prop where
  label : l.label = a.label
  owner : l.owner = a.owner
  admin : l.admin = a.isAdmin
  active : l.active = a.active

/-- A listing has one line for each account, the newest first. -/
structure Lists (accounts : Accounts) (keys : List KeyListing) : Prop where
  once : (keys.map KeyListing.keyId).Nodup
  account : ∀ l ∈ keys, ∃ a, accounts l.keyId = some a ∧ a.ShownBy l
  line : ∀ keyId a, accounts keyId = some a → ∃ l ∈ keys, l.keyId = keyId
  newest : keys.Pairwise fun l l' => l'.createdAt ≤ l.createdAt

theorem Represents.lists {db : Database} (h : Represents tools accounts db) :
    Lists accounts db.listing := by
  have hperm : db.listing.Perm (db.apiKeys.rows.map fun r => r.2.listing) := by
    have hmap : db.apiKeys.rows.map (fun r => r.2.listing) =
        (db.apiKeys.rows.map Prod.snd).map KeyRecord.listing := by
      rw [List.map_map]
      rfl
    rw [hmap]
    exact (List.mergeSort_perm ..).map _
  constructor
  · refine ((hperm.map KeyListing.keyId).nodup_iff).2 ?_
    rw [List.map_map]
    exact db.keyIds_nodup
  · intro l hl
    obtain ⟨⟨i, k⟩, hk, rfl⟩ := List.mem_map.1 (hperm.mem_iff.1 hl)
    obtain ⟨a, ha, hd⟩ := h.account_of_row i k hk
    exact ⟨a, ha, hd.label, hd.owner, hd.isAdmin, hd.active⟩
  · intro keyId a ha
    obtain ⟨i, k, hk, rfl⟩ := h.row_of_account keyId a ha
    exact ⟨k.listing, hperm.mem_iff.2 (List.mem_map.2 ⟨(i, k), hk, rfl⟩), rfl⟩
  · rw [Database.listing, List.pairwise_map]
    refine (List.pairwise_mergeSort ?_ ?_ _).imp fun h => of_decide_eq_true h
    · intro k k' k'' h h'
      rw [decide_eq_true_iff] at h h' ⊢
      exact String.le_trans h' h
    · intro k k'
      rw [Bool.or_eq_true, decide_eq_true_iff, decide_eq_true_iff]
      exact String.le_total ..

theorem isHexDigit_of_mem_digits {n x : ℕ} {c : Char} (h : c ∈ Hex.digits n x) :
    ∃ d < 16, c = Nat.digitChar d := by
  induction n generalizing x with
  | zero => exact absurd h List.not_mem_nil
  | succ n ih =>
    rcases List.mem_append.1 h with h | h
    · exact ih h
    · exact ⟨x % 16, Nat.mod_lt _ (by omega), List.mem_singleton.1 h⟩

/-- A key id has no colon, at which the header would be split. -/
theorem colon_not_mem_uuidText (uuid : BitVec 128) : ':' ∉ (uuidText uuid).toList := by
  have hdigits : ':' ∉ Hex.digits 32 uuid.toNat := by
    intro h
    obtain ⟨d, hd, he⟩ := isHexDigit_of_mem_digits h
    interval_cases d <;> exact absurd he (by decide)
  rw [uuidText, String.toList_ofList]
  generalize Hex.digits 32 uuid.toNat = ds at hdigits
  have hpart : ∀ n m, ':' ∉ (ds.drop n).take m :=
    fun n m h => hdigits (List.mem_of_mem_drop (List.mem_of_mem_take h))
  have hhyphen : ':' ≠ '-' := by decide
  simp only [List.mem_append, List.mem_cons, not_or]
  exact ⟨⟨⟨⟨fun h => hdigits (List.mem_of_mem_take h), hhyphen, hpart _ _⟩, hhyphen, hpart _ _⟩,
    hhyphen, hpart _ _⟩, hhyphen, fun h => hdigits (List.mem_of_mem_drop h)⟩

variable {encode : ByteArray → String}

theorem parseCredentials_basicAuthHeader (hd : DecodesBase64 cr encode) {keyId : String}
    (hk : ':' ∉ keyId.toList) (secret : String) :
    parseCredentials cr (some (basicAuthHeader encode keyId secret)) = .ok (keyId, secret) := by
  have hc : HasCredentials encode (basicAuthHeader encode keyId secret) keyId secret :=
    ⟨"Basic ", by decide, rfl, hk⟩
  obtain ⟨l, r, hs⟩ := (splitAtByte_isSome_iff _ 6).2 hc.endsAt
  exact (parseCredentials_eq_ok_iff hd hs).2 hc

section Example

def plainCrypto : Crypto where
  base64Decode := Base64.decode
  Hash := String
  parseHash := some
  verifyPassword secret hash := secret = hash

theorem plainCrypto_decodes : DecodesBase64 plainCrypto Base64.encode := by
  intro text bytes
  exact Base64.decode_eq_some_iff

def plainTools : KeyTools plainCrypto where
  hashSecret _ secret := .ok secret
  hashSecret_verifies _ secret hash h := by
    cases h
    exact ⟨secret, rfl, decide_eq_true rfl⟩
  errorText _ := ""

def zeroInvocation (command : KeysCommand) : Invocation :=
  ⟨command, 0, Vector.replicate 32 0, "", "2026-02-12 00:00:00", none⟩

def zeroKeyId : String := uuidText (newV4 0)

def zeroSecret : String := Base64.encodeUrlSafe (List.replicate 32 0)

def createZero : KeyEvent := .command (zeroInvocation (.create "dca" "ops" true))

def zeroCreated : KeyOutput :=
  .command (.ok (.created zeroKeyId zeroSecret "dca" "ops" true))

def zeroRequest : Request :=
  ⟨"GET", "/v1/tokens", some (basicAuthHeader Base64.encode zeroKeyId zeroSecret),
    .authenticatedKey, true, ⟨0, 0⟩, ⟨0, 0⟩⟩

def zeroRow (id : Int64) : ApiKeyRow := ⟨id, zeroKeyId, zeroSecret, "dca", "ops", true, true⟩

theorem exists_zero_visit (es : List KeyEvent) (os : List KeyOutput) (id : Int64)
    (h : (Runs.outputs (KeySystem.step plainTools) (.init 0 5) es).map
      (fun p => (p.1, p.2.db.keyRows, p.2.visits.isEmpty, p.2.limiter.globalRpm)) =
        some (os, [zeroRow id], true, 0)) :
    ∃ s, KeyRun plainTools 0 5
      (os ++ [.admitted zeroRequest] ++ [.authenticated zeroRequest (zeroRow id)]) s ∧
      s.visits = [⟨zeroRequest, {}, .authenticated (zeroRow id)⟩] := by
  obtain ⟨⟨os', s⟩, hrun, he⟩ := Option.map_eq_some_iff.1 h
  simp only [Prod.mk.injEq, List.isEmpty_iff] at he
  obtain ⟨rfl, hkeys, hvisits, hrpm⟩ := he
  have hparse := parseCredentials_basicAuthHeader plainCrypto_decodes
    (colon_not_mem_uuidText (newV4 0)) zeroSecret
  have hauth : authenticate plainCrypto s.db.keyRows zeroRequest = .ok (zeroRow id) := by
    rw [authenticate_eq_ok_iff, hkeys]
    exact ⟨zeroKeyId, zeroSecret, hparse, rfl, by simp [zeroRow], zeroSecret, rfl, by
      simp [plainCrypto]⟩
  have hstep : KeySystem.step plainTools s (.arrive zeroRequest 200) =
      some (.admitted zeroRequest, { s with visits := [⟨zeroRequest, {}, .admitted⟩] }) := by
    have harrive := arrive_of_disabled hrpm (show zeroRequest.routeGuard ≠ .none from nofun) 200
    rw [KeySystem.step, harrive, hvisits]
    rfl
  exact ⟨_, ((traced_of_outputs hrun).snoc hstep).snoc (lookup_authenticated (i := 0) rfl hauth),
    rfl⟩

end Example

/-! ## Decisions -/

/-- What an output says of the accounts at its time. -/
def KeyOutput.AgreesWith (tools : KeyTools cr) (accounts : Accounts) : KeyOutput → Prop
  | .authenticated req row => ∃ keyId secret a,
    parseCredentials cr req.authorization = .ok (keyId, secret) ∧ accounts keyId = some a ∧
      a.active = true ∧ a.Accepts tools secret ∧
      AuthenticatedKey.ofRow row = ⟨row.id, keyId, a.label, a.owner, a.isAdmin⟩
  | .refused req _ => req.lookupOk = true → ∀ keyId a, accounts keyId = some a →
    a.active = true → parseCredentials cr req.authorization ≠ .ok (keyId, a.secret)
  | .command (.ok (.listed keys)) => Lists accounts keys
  | _ => True

theorem Stepped.agreesWith (hs : Stepped tools s o s') (h : Represents tools accounts s.db) :
    o.AgreesWith tools accounts := by
  cases hs with
  | @command inv result db executed =>
    cases result with
    | error e => trivial
    | ok ack =>
      cases ack with
      | listed keys =>
        cases executed
        exact h.lists
      | created keyId secret label owner admin => trivial
      | revoked keyId => trivial
      | deleted keyId => trivial
  | authenticated visit ok => exact h.authenticated ok
  | refused visit failed =>
    intro hl keyId a ha hactive hp
    obtain ⟨row, hrow⟩ := h.authenticates hp hl ha hactive
    cases failed.symm.trans hrow
  | turnedAway usage windows => trivial
  | admitted anonymous windows => trivial
  | charged visit charge response => trivial
  | logged spawned insert => trivial
  | dropped spawned failed => trivial
  | restarted => trivial

/-- Every credential check and every listing of a run agrees with the accounts that the commands
acknowledged before it leave, and each of these commands was enabled in its turn. -/
theorem access_decided {before after : List KeyOutput}
    (h : KeyRun tools globalRpm perKeyRpm (before ++ o :: after) s) :
    ∃ accounts, run Accounts.step .empty (acks before) = some accounts ∧
      o.AgreesWith tools accounts := by
  obtain ⟨t, e, t', hbefore, step, -⟩ := h.split
  obtain ⟨accounts, hrun, hrep⟩ := represents_empty.traced hbefore
  exact ⟨accounts, hrun, (step_stepped step).agreesWith hrep⟩

theorem access_decided_created : ∃ s, KeyRun plainTools 0 5
    ([zeroCreated] ++ [.admitted zeroRequest] ++ [.authenticated zeroRequest (zeroRow 1)]) s ∧
      ∃ accounts, run Accounts.step .empty (acks ([zeroCreated] ++ [.admitted zeroRequest])) =
        some accounts ∧
          (KeyOutput.authenticated zeroRequest (zeroRow 1)).AgreesWith plainTools accounts := by
  obtain ⟨s, h, -⟩ := exists_zero_visit [createZero] [zeroCreated] 1 (by decide +kernel)
  exact ⟨s, h, access_decided h⟩

/-- The accounts around an acknowledgement and at a later output. -/
theorem exists_accounts_of_run {before mid after : List KeyOutput} {ack : Printed}
    (h : KeyRun tools globalRpm perKeyRpm (before ++ .command (.ok ack) :: (mid ++ o :: after)) s) :
    ∃ accounts₀ accounts₁ accounts₂ : Accounts, accounts₀.step ack = some accounts₁ ∧
      run Accounts.step accounts₁ (acks mid) = some accounts₂ ∧ o.AgreesWith tools accounts₂ := by
  obtain ⟨t, e, t', hbefore, step, hrest⟩ := h.split
  obtain ⟨u, e', u', hmid, step', -⟩ := hrest.split
  obtain ⟨accounts₀, -, h₀⟩ := represents_empty.traced hbefore
  obtain ⟨accounts₁, hack, h₁⟩ := (step_stepped step).represents h₀
  obtain ⟨accounts₂, hrun, h₂⟩ := h₁.traced hmid
  obtain ⟨next, hstep, hnil⟩ := run_cons_eq_some.1 hack
  cases Option.some.inj hnil
  exact ⟨accounts₀, accounts₁, accounts₂, hstep, hrun, (step_stepped step').agreesWith h₂⟩

/-- After a revocation is acknowledged, no credential check lets its key in unless the key was
deleted and created again in between; after a deletion, unless it was created again. -/
theorem closed_until_created {before mid after : List KeyOutput} {ack : Printed} {req : Request}
    {row : ApiKeyRow} (h : KeyRun tools globalRpm perKeyRpm
      (before ++ .command (.ok ack) :: (mid ++ .authenticated req row :: after)) s) :
    (ack = .revoked row.keyId → ∃ revoked removed,
      acks mid = revoked ++ .deleted row.keyId :: removed ∧
        ∃ ack' ∈ removed, Accounts.Opens row.keyId ack') ∧
    (ack = .deleted row.keyId → ∃ ack' ∈ acks mid, Accounts.Opens row.keyId ack') := by
  obtain ⟨accounts₀, accounts₁, accounts₂, hstep, hrun, hagrees⟩ := exists_accounts_of_run h
  obtain ⟨keyId, secret, a, hp, ha, hactive, haccepts, hrow⟩ := hagrees
  obtain rfl : row.keyId = keyId := congrArg AuthenticatedKey.keyId hrow
  obtain ⟨he, rfl⟩ := Accounts.step_eq_some.1 hstep
  constructor
  · rintro rfl
    obtain ⟨a₀, ha₀⟩ := Option.isSome_iff_exists.1 he
    have hclosed : accounts₀.acknowledge (.revoked row.keyId) row.keyId =
        some { a₀ with active := false } := by
      rw [Accounts.acknowledge, Function.update_self, ha₀]
      rfl
    exact Accounts.exists_removed_opens hrun hclosed rfl ha hactive
  · rintro rfl
    refine Accounts.exists_opens hrun ?_ ha
    rw [Accounts.acknowledge, Function.update_self]

theorem closed_until_created_again : ∃ revoked removed,
    acks [.command (.ok (.deleted zeroKeyId)), zeroCreated, .admitted zeroRequest] =
      revoked ++ .deleted zeroKeyId :: removed ∧
        ∃ ack ∈ removed, Accounts.Opens zeroKeyId ack := by
  obtain ⟨s, h, -⟩ := exists_zero_visit
    [createZero, .command (zeroInvocation (.revoke zeroKeyId)),
      .command (zeroInvocation (.delete zeroKeyId)), createZero]
    [zeroCreated, .command (.ok (.revoked zeroKeyId)), .command (.ok (.deleted zeroKeyId)),
      zeroCreated] 2 (by decide +kernel)
  have hrun : KeyRun plainTools 0 5 ([zeroCreated] ++ .command (.ok (.revoked zeroKeyId)) ::
      ([.command (.ok (.deleted zeroKeyId)), zeroCreated, .admitted zeroRequest] ++
        .authenticated zeroRequest (zeroRow 2) :: [])) s := h
  exact (closed_until_created hrun).1 rfl

theorem Executed.of_created {db db' : Database} {inv : Invocation}
    {keyId secret label owner : String} {admin : Bool}
    (h : Executed tools db inv (.ok (.created keyId secret label owner admin)) db') :
    keyId = inv.keyId ∧ (∀ r ∈ db.apiKeys.rows, r.2.keyId ≠ keyId) ∧
      ∃ k, k.keyId = keyId ∧ db.apiKeys.insert k = some db'.apiKeys := by
  generalize hr : Except.ok (Printed.created keyId secret label owner admin) = result at h
  cases h with
  | created command hashed fresh inserted logs =>
    obtain ⟨rfl, -⟩ := Printed.created.inj (Except.ok.inj hr)
    exact ⟨rfl, fresh, _, inv.keyId_record .., inserted⟩
  | failed => cases hr
  | listed => cases hr
  | revoked => cases hr
  | deleted => cases hr

theorem Stepped.colon_not_mem {keyId secret label owner : String} {admin : Bool}
    (h : Stepped tools s (.command (.ok (.created keyId secret label owner admin))) s') :
    ':' ∉ keyId.toList := by
  cases h with
  | command executed =>
    rw [executed.of_created.1, Invocation.keyId]
    exact colon_not_mem_uuidText _

/-- What a creation prints gets in: until its key is revoked or deleted, no credential check turns
down the header made of the printed key id and secret, and the key has the printed details. -/
theorem printed_credentials_accepted (hd : DecodesBase64 cr encode)
    {before mid after : List KeyOutput} {keyId secret label owner : String} {admin : Bool}
    (h : KeyRun tools globalRpm perKeyRpm (before ++
      .command (.ok (.created keyId secret label owner admin)) :: (mid ++ o :: after)) s)
    (hrevoked : .revoked keyId ∉ acks mid) (hdeleted : .deleted keyId ∉ acks mid) (req : Request)
    (hl : req.lookupOk = true)
    (hreq : req.authorization = some (basicAuthHeader encode keyId secret)) :
    (∀ answer, o ≠ .refused req answer) ∧
      ∀ row, o = .authenticated req row →
        AuthenticatedKey.ofRow row = ⟨row.id, keyId, label, owner, admin⟩ := by
  have hcolon : ':' ∉ keyId.toList := by
    obtain ⟨t, e, t', -, step, -⟩ := h.split
    exact (step_stepped step).colon_not_mem
  have hparse := parseCredentials_basicAuthHeader hd hcolon secret
  rw [← hreq] at hparse
  obtain ⟨accounts₀, accounts₁, accounts₂, hstep, hrun, hagrees⟩ := exists_accounts_of_run h
  obtain ⟨-, rfl⟩ := Accounts.step_eq_some.1 hstep
  have ha := Accounts.run_keeps (a := ⟨secret, label, owner, admin, true⟩) hrun
    (by rw [Accounts.acknowledge, Function.update_self]) hrevoked hdeleted
  constructor
  · rintro answer rfl
    exact hagrees hl keyId _ ha rfl hparse
  · rintro row rfl
    obtain ⟨keyId', secret', a, hp, ha', -, -, hrow⟩ := hagrees
    cases hparse.symm.trans hp
    cases ha.symm.trans ha'
    exact hrow

theorem printed_credentials_accepted_zero : ∃ s, KeyRun plainTools 0 5
    ([] ++ zeroCreated :: ([.admitted zeroRequest] ++
      .authenticated zeroRequest (zeroRow 1) :: [])) s ∧
      AuthenticatedKey.ofRow (zeroRow 1) = ⟨1, zeroKeyId, "dca", "ops", true⟩ := by
  obtain ⟨s, h, -⟩ := exists_zero_visit [createZero] [zeroCreated] 1 (by decide +kernel)
  have hrun : KeyRun plainTools 0 5 ([] ++ zeroCreated :: ([.admitted zeroRequest] ++
      .authenticated zeroRequest (zeroRow 1) :: [])) s := h
  exact ⟨s, hrun, (printed_credentials_accepted plainCrypto_decodes hrun (by decide +kernel)
    (by decide +kernel) zeroRequest rfl rfl).2 _ rfl⟩

end AlbionApi
