import AlbionApi.Foundations.Runs
import AlbionApi.Keys.Store
import Mathlib.Logic.Function.Basic

/-! # Accounts

What the key store is for: accounts that commands open, close and remove, each
known by what its creation printed. The accounts are computed from the
acknowledgements alone, and the tables represent them.
-/

namespace AlbionApi

/-- An account, as the acknowledgements of its commands describe it. -/
structure Account where
  secret : String
  label : String
  owner : String
  isAdmin : Bool
  active : Bool
  deriving DecidableEq, Repr

abbrev Accounts := String → Option Account

namespace Accounts

def acknowledge (accounts : Accounts) : Printed → Accounts
  | .created keyId secret label owner admin =>
    Function.update accounts keyId (some ⟨secret, label, owner, admin, true⟩)
  | .listed _ => accounts
  | .revoked keyId =>
    Function.update accounts keyId ((accounts keyId).map fun a => { a with active := false })
  | .deleted keyId => Function.update accounts keyId none

/-- Only a free key id is opened, and only an account is closed or removed. -/
def Enabled (accounts : Accounts) : Printed → Prop
  | .created keyId _ _ _ _ => accounts keyId = none
  | .listed _ => True
  | .revoked keyId => (accounts keyId).isSome
  | .deleted keyId => (accounts keyId).isSome

instance (accounts : Accounts) (ack : Printed) : Decidable (accounts.Enabled ack) := by
  cases ack <;> unfold Enabled <;> infer_instance

def step (accounts : Accounts) (ack : Printed) : Option Accounts :=
  if accounts.Enabled ack then some (accounts.acknowledge ack) else none

def empty : Accounts := fun _ => none

variable {accounts accounts' : Accounts} {ack : Printed} {acks : List Printed} {keyId : String}
  {a : Account}

theorem step_eq_some : accounts.step ack = some accounts' ↔
    accounts.Enabled ack ∧ accounts.acknowledge ack = accounts' := by
  rw [step, Option.ite_none_right_eq_some, Option.some.injEq]

/-- What an acknowledgement makes of an account. -/
inductive Changed (keyId : String) (ack : Printed) : Option Account → Option Account → Prop
  | created {secret label owner : String} {admin : Bool}
      (h : ack = .created keyId secret label owner admin) :
      Changed keyId ack none (some ⟨secret, label, owner, admin, true⟩)
  | revoked {a : Account} (h : ack = .revoked keyId) :
      Changed keyId ack (some a) (some { a with active := false })
  | deleted {a : Account} (h : ack = .deleted keyId) : Changed keyId ack (some a) none
  | same {a : Option Account} : Changed keyId ack a a

theorem step_changed (keyId : String) (h : accounts.step ack = some accounts') :
    Changed keyId ack (accounts keyId) (accounts' keyId) := by
  obtain ⟨he, rfl⟩ := step_eq_some.1 h
  cases ack with
  | listed keys => exact .same
  | created keyId' secret label owner admin =>
    rw [acknowledge]
    by_cases hk : keyId = keyId'
    · subst hk
      rw [Function.update_self, show accounts keyId = none from he]
      exact .created rfl
    · rw [Function.update_of_ne hk]
      exact .same
  | revoked keyId' =>
    rw [acknowledge]
    by_cases hk : keyId = keyId'
    · subst hk
      obtain ⟨a, ha⟩ := Option.isSome_iff_exists.1 he
      rw [Function.update_self, ha]
      exact .revoked rfl
    · rw [Function.update_of_ne hk]
      exact .same
  | deleted keyId' =>
    rw [acknowledge]
    by_cases hk : keyId = keyId'
    · subst hk
      obtain ⟨a, ha⟩ := Option.isSome_iff_exists.1 he
      rw [Function.update_self, ha]
      exact .deleted rfl
    · rw [Function.update_of_ne hk]
      exact .same

def Opens (keyId : String) (ack : Printed) : Prop :=
  ∃ secret label owner admin, ack = .created keyId secret label owner admin

/-- A free key id gets an account only by its creation. -/
theorem exists_opens (h : Runs.run step accounts acks = some accounts')
    (hfree : accounts keyId = none) (ha : accounts' keyId = some a) :
    ∃ ack ∈ acks, Opens keyId ack := by
  induction acks generalizing accounts with
  | nil =>
    cases Option.some.inj h
    exact nomatch hfree.symm.trans ha
  | cons ack acks ih =>
    obtain ⟨next, hstep, hrun⟩ := Runs.run_cons_eq_some.1 h
    have hc := step_changed keyId hstep
    rw [hfree] at hc
    generalize hnext : next keyId = x at hc
    cases hc with
    | created hack => exact ⟨ack, List.mem_cons_self, _, _, _, _, hack⟩
    | same =>
      obtain ⟨ack', hm, ho⟩ := ih hrun hnext
      exact ⟨ack', List.mem_cons_of_mem _ hm, ho⟩

theorem exists_removed_opens {a₀ : Account} (h : Runs.run step accounts acks = some accounts')
    (h₀ : accounts keyId = some a₀) (hclosed : a₀.active = false)
    (ha : accounts' keyId = some a) (hactive : a.active = true) :
    ∃ before since, acks = before ++ .deleted keyId :: since ∧ ∃ ack ∈ since, Opens keyId ack := by
  induction acks generalizing accounts a₀ with
  | nil =>
    cases Option.some.inj h
    cases h₀.symm.trans ha
    exact absurd (hclosed.symm.trans hactive) Bool.false_ne_true
  | cons ack acks ih =>
    obtain ⟨next, hstep, hrun⟩ := Runs.run_cons_eq_some.1 h
    have hc := step_changed keyId hstep
    have htail : ∀ b : Account, next keyId = some b → b.active = false →
        ∃ before since, ack :: acks = before ++ .deleted keyId :: since ∧
          ∃ ack ∈ since, Opens keyId ack := by
      intro b hb hbc
      obtain ⟨before, since, rfl, hs⟩ := ih hrun hb hbc
      exact ⟨ack :: before, since, rfl, hs⟩
    rw [h₀] at hc
    generalize hnext : next keyId = x at hc
    cases hc with
    | revoked hack => exact htail _ hnext rfl
    | deleted hack => exact ⟨[], acks, by rw [hack]; rfl, exists_opens hrun hnext ha⟩
    | same => exact htail _ hnext hclosed

theorem run_keeps (h : Runs.run step accounts acks = some accounts')
    (ha : accounts keyId = some a) (hr : .revoked keyId ∉ acks) (hd : .deleted keyId ∉ acks) :
    accounts' keyId = some a := by
  induction acks generalizing accounts with
  | nil => exact Option.some.inj h ▸ ha
  | cons ack acks ih =>
    obtain ⟨next, hstep, hrun⟩ := Runs.run_cons_eq_some.1 h
    rw [List.mem_cons, not_or] at hr hd
    have hc := step_changed keyId hstep
    rw [ha] at hc
    generalize hnext : next keyId = x at hc
    cases hc with
    | revoked hack => exact absurd hack.symm hr.1
    | deleted hack => exact absurd hack.symm hd.1
    | same => exact ih hrun hnext hr.2 hd.2

end Accounts

/-- A row holds an account: the same details, and a hash of its secret. -/
structure Describes {cr : Crypto} (tools : KeyTools cr) (a : Account) (k : KeyRecord) : Prop where
  label : k.label = a.label
  owner : k.owner = a.owner
  isAdmin : k.isAdmin = a.isAdmin
  active : k.active = a.active
  hashed : ∃ salt, tools.hashSecret salt a.secret = .ok k.secretHash

/-- The keys of the database are exactly the accounts. -/
structure Represents {cr : Crypto} (tools : KeyTools cr) (accounts : Accounts) (db : Database) :
    Prop where
  account_of_row : ∀ i k, (i, k) ∈ db.apiKeys.rows →
    ∃ a, accounts k.keyId = some a ∧ Describes tools a k
  row_of_account : ∀ keyId a, accounts keyId = some a →
    ∃ i k, (i, k) ∈ db.apiKeys.rows ∧ k.keyId = keyId

section Commands

variable {cr : Crypto} {tools : KeyTools cr} {accounts : Accounts} {db db' : Database}
  {inv : Invocation} {ack : Printed}

theorem represents_empty : Represents tools .empty .empty :=
  ⟨fun _ _ h => absurd h List.not_mem_nil, fun _ _ h => nomatch h⟩

theorem Database.keyId_inj {i j : ℕ} {k l : KeyRecord} (hk : (i, k) ∈ db.apiKeys.rows)
    (hl : (j, l) ∈ db.apiKeys.rows) (h : k.keyId = l.keyId) : (i, k) = (j, l) :=
  List.inj_on_of_nodup_map db.keyIds_nodup hk hl h

theorem Represents.created (h : Represents tools accounts db) {label owner hash : String}
    {admin : Bool} (hashed : tools.hashSecret inv.salt inv.secret = .ok hash)
    (fresh : ∀ r ∈ db.apiKeys.rows, r.2.keyId ≠ inv.keyId)
    (inserted : db.apiKeys.insert (inv.record hash label owner admin) = some db'.apiKeys) :
    Represents tools
      (accounts.acknowledge (.created inv.keyId inv.secret label owner admin)) db' := by
  obtain ⟨hrows, -⟩ := IdTable.insert_eq_some inserted
  constructor
  · intro i k hk
    rw [hrows] at hk
    rcases List.mem_append.1 hk with hk | hk
    · rw [Accounts.acknowledge, Function.update_of_ne (fresh _ hk)]
      exact h.account_of_row i k hk
    · obtain ⟨-, rfl⟩ := Prod.mk.inj (List.mem_singleton.1 hk)
      refine ⟨⟨inv.secret, label, owner, admin, true⟩, ?_, rfl, rfl, rfl, rfl, inv.salt, hashed⟩
      rw [Invocation.keyId_record, Accounts.acknowledge, Function.update_self]
  · intro keyId a ha
    rw [hrows]
    by_cases he : keyId = inv.keyId
    · rw [he]
      exact ⟨_, _, List.mem_append_right _ (List.mem_singleton_self _), inv.keyId_record ..⟩
    · rw [Accounts.acknowledge, Function.update_of_ne he] at ha
      obtain ⟨i, k, hk, hkeyId⟩ := h.row_of_account keyId a ha
      exact ⟨i, k, List.mem_append_left _ hk, hkeyId⟩

theorem Represents.revoked (h : Represents tools accounts db) (keyId now : String) :
    Represents tools (accounts.acknowledge (.revoked keyId)) (db.revoke keyId now).2 := by
  constructor
  · intro i k hk
    rw [Database.apiKeys_revoke] at hk
    obtain ⟨k₀, hk₀, rfl⟩ := IdTable.mem_modify.1 hk
    obtain ⟨a, ha, hd⟩ := h.account_of_row i k₀ hk₀
    by_cases he : k₀.keyId = keyId
    · subst he
      simp only [decide_true, if_true]
      refine ⟨{ a with active := false }, ?_, hd.label, hd.owner, hd.isAdmin, rfl, hd.hashed⟩
      rw [Accounts.acknowledge, Function.update_self, ha]
      rfl
    · rw [if_neg (by simpa using he), Accounts.acknowledge, Function.update_of_ne he]
      exact ⟨a, ha, hd⟩
  · intro keyId' a ha
    have hsome : ∃ a₀, accounts keyId' = some a₀ := by
      by_cases he : keyId' = keyId
      · subst he
        rw [Accounts.acknowledge, Function.update_self] at ha
        obtain ⟨a₀, ha₀, -⟩ := Option.map_eq_some_iff.1 ha
        exact ⟨a₀, ha₀⟩
      · rw [Accounts.acknowledge, Function.update_of_ne he] at ha
        exact ⟨a, ha⟩
    obtain ⟨a₀, ha₀⟩ := hsome
    obtain ⟨i, k, hk, hkeyId⟩ := h.row_of_account keyId' a₀ ha₀
    rw [Database.apiKeys_revoke]
    refine ⟨i, _, IdTable.mem_modify.2 ⟨k, hk, rfl⟩, ?_⟩
    split
    · exact hkeyId
    · exact hkeyId

theorem Represents.deleted (h : Represents tools accounts db) (keyId : String) :
    Represents tools (accounts.acknowledge (.deleted keyId)) (db.deleteKey keyId).2 := by
  have hmem : ∀ i k, (i, k) ∈ (db.deleteKey keyId).2.apiKeys.rows ↔
      (i, k) ∈ db.apiKeys.rows ∧ k.keyId ≠ keyId := by
    intro i k
    simp [Database.apiKeys_deleteKey]
  constructor
  · intro i k hk
    obtain ⟨hk, hne⟩ := (hmem i k).1 hk
    rw [Accounts.acknowledge, Function.update_of_ne hne]
    exact h.account_of_row i k hk
  · intro keyId' a ha
    by_cases he : keyId' = keyId
    · rw [he, Accounts.acknowledge, Function.update_self] at ha
      cases ha
    · rw [Accounts.acknowledge, Function.update_of_ne he] at ha
      obtain ⟨i, k, hk, rfl⟩ := h.row_of_account keyId' a ha
      exact ⟨i, k, (hmem i k).2 ⟨hk, he⟩, rfl⟩

theorem Represents.free (h : Represents tools accounts db) {keyId : String}
    (fresh : ∀ r ∈ db.apiKeys.rows, r.2.keyId ≠ keyId) : accounts keyId = none := by
  rw [Option.eq_none_iff_forall_ne_some]
  intro a ha
  obtain ⟨i, k, hk, hkeyId⟩ := h.row_of_account keyId a ha
  exact fresh _ hk hkeyId

theorem Represents.known (h : Represents tools accounts db) {keyId : String}
    (known : ∃ r ∈ db.apiKeys.rows, r.2.keyId = keyId) : (accounts keyId).isSome := by
  obtain ⟨⟨i, k⟩, hk, rfl⟩ := known
  obtain ⟨a, ha, -⟩ := h.account_of_row i k hk
  exact Option.isSome_iff_exists.2 ⟨a, ha⟩

/-- An acknowledged command is a step of the accounts, which the database keeps representing. -/
theorem Represents.executed (h : Represents tools accounts db)
    (he : Executed tools db inv (.ok ack) db') :
    ∃ accounts', accounts.step ack = some accounts' ∧ Represents tools accounts' db' := by
  refine ⟨accounts.acknowledge ack, Accounts.step_eq_some.2 ⟨?_, rfl⟩, ?_⟩
  · cases he with
    | listed command => trivial
    | created command hashed fresh inserted logs => exact h.free fresh
    | revoked command known => exact h.known known
    | deleted command known => exact h.known known
  · cases he with
    | listed command => exact h
    | created command hashed fresh inserted logs => exact h.created hashed fresh inserted
    | revoked command known => exact h.revoked _ _
    | deleted command known => exact h.deleted _

theorem executed_error {e : String} (he : Executed tools db inv (.error e) db') : db' = db := by
  cases he
  rfl

end Commands

/-! ## Authentication -/

section Authentication

variable {cr : Crypto} {tools : KeyTools cr} {accounts : Accounts} {db : Database}
  {keys : List ApiKeyRow} {req : Request} {row : ApiKeyRow} {keyId secret : String}

def Verifies (cr : Crypto) (secret secretHash : String) : Prop :=
  ∃ parsed, cr.parseHash secretHash = some parsed ∧ cr.verifyPassword secret parsed = true

theorem authenticate_of_parse
    (hp : parseCredentials cr req.authorization = .ok (keyId, secret)) :
    authenticate cr keys req =
      if req.lookupOk = false then .error (.error 500 (.internal "authentication check failed"))
      else
        match keys.find? fun row => row.keyId = keyId ∧ row.active with
        | none => .error (.error 401 (.unauthorized "invalid credentials"))
        | some row =>
          match cr.parseHash row.secretHash with
          | none => .error (.error 500 (.internal "authentication check failed"))
          | some parsed =>
            if cr.verifyPassword secret parsed = false then
              .error (.error 401 (.unauthorized "invalid credentials"))
            else .ok row := by
  simp only [authenticate, hp, bind, Except.bind, pure, Except.pure, throw, throwThe,
    MonadExceptOf.throw, Bool.not_eq_true']
  cases req.lookupOk with
  | false => rfl
  | true =>
    simp only [Bool.true_eq_false, if_false]
    cases keys.find? fun row => row.keyId = keyId ∧ row.active with
    | none => rfl
    | some row =>
      dsimp only
      cases cr.parseHash row.secretHash with
      | none => rfl
      | some parsed => cases cr.verifyPassword secret parsed <;> rfl

theorem authenticate_eq_ok_iff : authenticate cr keys req = .ok row ↔
    ∃ keyId secret, parseCredentials cr req.authorization = .ok (keyId, secret) ∧
      req.lookupOk = true ∧ (keys.find? fun row => row.keyId = keyId ∧ row.active) = some row ∧
      Verifies cr secret row.secretHash := by
  constructor
  · intro h
    cases hparse : parseCredentials cr req.authorization with
    | error f =>
      rw [authenticate, hparse] at h
      cases h
    | ok credentials =>
      obtain ⟨keyId, secret⟩ := credentials
      rw [authenticate_of_parse hparse] at h
      split at h
      · cases h
      next hl =>
      split at h
      · cases h
      next found hf =>
      split at h
      · cases h
      next parsed hp =>
      split at h
      · cases h
      next hv =>
      cases h
      exact ⟨keyId, secret, rfl, eq_true_of_ne_false hl, hf, parsed, hp, eq_true_of_ne_false hv⟩
  · rintro ⟨keyId, secret, hparse, hl, hf, parsed, hp, hv⟩
    rw [authenticate_of_parse hparse, if_neg (by simp [hl]), hf]
    simp only [hp, hv, Bool.true_eq_false, if_false]

theorem Database.find?_keyRows_iff :
    (db.keyRows.find? fun row => row.keyId = keyId ∧ row.active) = some row ↔
      ∃ i k, (i, k) ∈ db.apiKeys.rows ∧ k.keyId = keyId ∧ k.active = true ∧ row = k.toRow i := by
  constructor
  · intro h
    have hfound := List.find?_some h
    obtain ⟨hk, ha⟩ := of_decide_eq_true hfound
    obtain ⟨⟨i, k⟩, hr, rfl⟩ := List.mem_map.1 (List.mem_of_find?_eq_some h)
    exact ⟨i, k, hr, hk, ha, rfl⟩
  · rintro ⟨i, k, hr, hk, ha, rfl⟩
    have hmem : k.toRow i ∈ db.keyRows := List.mem_map.2 ⟨(i, k), hr, rfl⟩
    have hsome : (db.keyRows.find? fun row => row.keyId = keyId ∧ row.active).isSome := by
      rw [List.find?_isSome]
      exact ⟨_, hmem, decide_eq_true ⟨hk, ha⟩⟩
    obtain ⟨row, hrow⟩ := Option.isSome_iff_exists.1 hsome
    obtain ⟨⟨j, l⟩, hl, rfl⟩ := List.mem_map.1 (List.mem_of_find?_eq_some hrow)
    have hfound := List.find?_some hrow
    obtain ⟨hlk, -⟩ := of_decide_eq_true hfound
    have he := db.keyId_inj hr hl (hk.trans hlk.symm)
    cases he
    exact hrow

/-- A secret is accepted for an account if it verifies against a hash of the account's secret. -/
def Account.Accepts (tools : KeyTools cr) (a : Account) (secret : String) : Prop :=
  ∃ salt hash, tools.hashSecret salt a.secret = .ok hash ∧ Verifies cr secret hash

theorem Represents.authenticated (h : Represents tools accounts db)
    (ha : authenticate cr db.keyRows req = .ok row) :
    ∃ keyId secret a, parseCredentials cr req.authorization = .ok (keyId, secret) ∧
      accounts keyId = some a ∧ a.active = true ∧ a.Accepts tools secret ∧
      AuthenticatedKey.ofRow row = ⟨row.id, keyId, a.label, a.owner, a.isAdmin⟩ := by
  obtain ⟨keyId, secret, hp, -, hf, hv⟩ := authenticate_eq_ok_iff.1 ha
  obtain ⟨i, k, hk, rfl, hactive, rfl⟩ := Database.find?_keyRows_iff.1 hf
  obtain ⟨a, hacc, hd⟩ := h.account_of_row i k hk
  obtain ⟨salt, hhash⟩ := hd.hashed
  refine ⟨k.keyId, secret, a, hp, hacc, hd.active ▸ hactive, ⟨salt, _, hhash, hv⟩, ?_⟩
  rw [← hd.label, ← hd.owner, ← hd.isAdmin]
  rfl

theorem Represents.authenticates (h : Represents tools accounts db) {a : Account}
    (hp : parseCredentials cr req.authorization = .ok (keyId, a.secret))
    (hl : req.lookupOk = true) (ha : accounts keyId = some a) (hactive : a.active = true) :
    ∃ row, authenticate cr db.keyRows req = .ok row := by
  obtain ⟨i, k, hk, rfl⟩ := h.row_of_account keyId a ha
  obtain ⟨a', ha', hd⟩ := h.account_of_row i k hk
  cases ha.symm.trans ha'
  obtain ⟨salt, hhash⟩ := hd.hashed
  refine ⟨k.toRow i, authenticate_eq_ok_iff.2 ⟨k.keyId, a.secret, hp, hl, ?_, ?_⟩⟩
  · exact Database.find?_keyRows_iff.2 ⟨i, k, hk, rfl, hd.active.trans hactive, rfl⟩
  · exact tools.hashSecret_verifies salt a.secret _ hhash

end Authentication

end AlbionApi
