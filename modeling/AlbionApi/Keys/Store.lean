import AlbionApi.Api.Base64
import AlbionApi.Api.Hex
import AlbionApi.Auth.Guards
import AlbionApi.Foundations.IdTable

/-! # The key store and its commands

The tables of keys and usage rows, with what the schema enforces as fields, and
the command line that creates, lists, revokes and deletes keys. Random draws,
the clock and the failure of a statement are inputs of a command.
-/

namespace AlbionApi

/-- The largest row number, `i64::MAX`. -/
def maxRowid : ℕ := 2 ^ 63 - 1

def rowid (i : ℕ) : Int64 := Int64.ofNat i

theorem rowid_inj {i j : ℕ} (hi : i ≤ maxRowid) (hj : j ≤ maxRowid) (h : rowid i = rowid j) :
    i = j := by
  have hn := congrArg Int64.toNatClampNeg h
  unfold maxRowid at hi hj
  rwa [rowid, rowid, Int64.toNatClampNeg_ofNat_of_lt (by omega),
    Int64.toNatClampNeg_ofNat_of_lt (by omega)] at hn

/-- A row of `api_keys`. -/
structure KeyRecord where
  keyId : String
  secretHash : String
  label : String
  owner : String
  active : Bool
  isAdmin : Bool
  createdAt : String
  updatedAt : String
  deriving DecidableEq, Repr

/-- The columns that the key guard reads. -/
def KeyRecord.toRow (i : ℕ) (k : KeyRecord) : ApiKeyRow where
  id := rowid i
  keyId := k.keyId
  secretHash := k.secretHash
  label := k.label
  owner := k.owner
  active := k.active
  isAdmin := k.isAdmin

/-- `api_keys`, with its unique key ids, and `usage_logs`, whose rows refer to keys. -/
structure Database where
  apiKeys : IdTable maxRowid KeyRecord
  usageLogs : IdTable maxRowid UsageRow
  keyIds_nodup : (apiKeys.rows.map fun r => r.2.keyId).Nodup
  references : ∀ l ∈ usageLogs.rows, ∃ r ∈ apiKeys.rows, rowid r.1 = l.2.apiKeyId

inductive DbError where
  | failed (message : String)
  | uniqueViolation
  | foreignKeyViolation
  | full
  deriving DecidableEq, Repr

namespace Database

def empty : Database := ⟨.empty, .empty, .nil, by simp⟩

def keyRows (db : Database) : List ApiKeyRow := db.apiKeys.rows.map fun r => r.2.toRow r.1

def insertKey (db : Database) (k : KeyRecord) : Except DbError Database :=
  match h : db.apiKeys.insert k with
  | none => .error .full
  | some apiKeys =>
    if hk : k.keyId ∈ db.apiKeys.rows.map fun r => r.2.keyId then .error .uniqueViolation
    else
      .ok {
        apiKeys := apiKeys
        usageLogs := db.usageLogs
        keyIds_nodup := by
          rw [(IdTable.insert_eq_some h).1, List.map_append]
          exact db.keyIds_nodup.append (List.nodup_singleton _)
            (List.disjoint_singleton.2 hk)
        references := by
          rw [(IdTable.insert_eq_some h).1]
          intro l hl
          obtain ⟨r, hr, he⟩ := db.references l hl
          exact ⟨r, List.mem_append_left _ hr, he⟩ }

/-- `UPDATE api_keys SET active = 0`, with the trigger on `updated_at`: the number of changed
rows and the database then. -/
def revoke (db : Database) (keyId now : String) : ℕ × Database :=
  (db.apiKeys.rows.countP fun r => r.2.keyId = keyId, {
    apiKeys := db.apiKeys.modify (fun k => k.keyId = keyId)
      fun k => { k with active := false, updatedAt := now }
    usageLogs := db.usageLogs
    keyIds_nodup := by
      have hmap : (db.apiKeys.modify (fun k => k.keyId = keyId)
          fun k => { k with active := false, updatedAt := now }).rows.map (fun r => r.2.keyId) =
          db.apiKeys.rows.map fun r => r.2.keyId := by
        rw [IdTable.rows_modify, List.map_map]
        exact List.map_congr_left fun r _ => by
          simp only [Function.comp]
          split <;> rfl
      rw [hmap]
      exact db.keyIds_nodup
    references := by
      intro l hl
      obtain ⟨r, hr, he⟩ := db.references l hl
      rw [IdTable.rows_modify]
      exact ⟨_, List.mem_map_of_mem hr, he⟩ })

/-- `DELETE FROM api_keys`, which cascades to the usage rows of the key. -/
def deleteKey (db : Database) (keyId : String) : ℕ × Database :=
  (db.apiKeys.rows.countP fun r => r.2.keyId = keyId, {
    apiKeys := db.apiKeys.delete fun r => r.2.keyId = keyId
    usageLogs := db.usageLogs.delete fun l =>
      db.apiKeys.rows.any fun r => r.2.keyId = keyId && rowid r.1 = l.2.apiKeyId
    keyIds_nodup := db.keyIds_nodup.sublist (List.filter_sublist.map _)
    references := by
      intro l hl
      obtain ⟨hl, hd⟩ := List.mem_filter.1 hl
      obtain ⟨r, hr, he⟩ := db.references l hl
      refine ⟨r, List.mem_filter.2 ⟨hr, ?_⟩, he⟩
      by_contra hk
      simp only [Bool.not_eq_true', decide_eq_false_iff_not, not_not] at hk
      simp only [Bool.not_eq_true', List.any_eq_false] at hd
      exact hd r hr (by simp [hk, he]) })

/-- `INSERT INTO usage_logs`. -/
def insertUsage (db : Database) (u : UsageRow) : Except DbError Database :=
  match h : db.usageLogs.insert u with
  | none => .error .full
  | some usageLogs =>
    if hu : ∃ r ∈ db.apiKeys.rows, rowid r.1 = u.apiKeyId then
      .ok {
        apiKeys := db.apiKeys
        usageLogs := usageLogs
        keyIds_nodup := db.keyIds_nodup
        references := by
          rw [(IdTable.insert_eq_some h).1]
          intro l hl
          rcases List.mem_append.1 hl with hl | hl
          · exact db.references l hl
          · rw [List.mem_singleton.1 hl]
            exact hu }
    else .error .foreignKeyViolation

end Database

/-- `Uuid::new_v4` on random bits: the version and the variant are fixed. -/
def newV4 (random : BitVec 128) : BitVec 128 :=
  random &&& ~~~(0xf#128 <<< 76) &&& ~~~(0x3#128 <<< 62) ||| 0x4#128 <<< 76 ||| 0x2#128 <<< 62

/-- The hyphenated text of a UUID. -/
def uuidText (uuid : BitVec 128) : String :=
  let ds := Hex.digits 32 uuid.toNat
  String.ofList (ds.take 8 ++ '-' :: (ds.drop 8).take 4 ++ '-' :: (ds.drop 12).take 4 ++
    '-' :: (ds.drop 16).take 4 ++ '-' :: ds.drop 20)

/-! ## Commands -/

/-- The libraries behind the commands: a hash that `hash_secret` makes is parsed and verifies
its secret. -/
structure KeyTools (cr : Crypto) where
  /-- `hash_secret` with the salt it draws. -/
  hashSecret : String → String → Except String String
  hashSecret_verifies : ∀ salt secret hash, hashSecret salt secret = .ok hash →
    ∃ parsed, cr.parseHash hash = some parsed ∧ cr.verifyPassword secret parsed = true
  errorText : DbError → String

inductive KeysCommand where
  | create (label owner : String) (admin : Bool)
  | list
  | revoke (keyId : String)
  | delete (keyId : String)
  deriving DecidableEq, Repr

/-- A command with what it draws and reads, and the message of its statement if that fails. -/
structure Invocation where
  command : KeysCommand
  uuidBits : BitVec 128
  secretBytes : Vector UInt8 32
  salt : String
  now : String
  fault : Option String
  deriving DecidableEq

structure KeyListing where
  keyId : String
  label : String
  owner : String
  active : Bool
  admin : Bool
  createdAt : String
  updatedAt : String
  deriving DecidableEq, Repr

def KeyRecord.listing (k : KeyRecord) : KeyListing where
  keyId := k.keyId
  label := k.label
  owner := k.owner
  active := k.active
  admin := k.isAdmin
  createdAt := k.createdAt
  updatedAt := k.updatedAt

inductive Printed where
  | created (keyId secret label owner : String) (admin : Bool)
  | listed (keys : List KeyListing)
  | revoked (keyId : String)
  | deleted (keyId : String)
  deriving DecidableEq, Repr

def Invocation.execute {α : Type} (inv : Invocation) (statement : Except DbError α) :
    Except DbError α :=
  match inv.fault with
  | some message => .error (.failed message)
  | none => statement

def Invocation.keyId (inv : Invocation) : String := uuidText (newV4 inv.uuidBits)

def Invocation.secret (inv : Invocation) : String := Base64.encodeUrlSafe inv.secretBytes.toList

section Commands

variable {cr : Crypto} (tools : KeyTools cr) (db : Database) (inv : Invocation)

def createKey (label owner : String) (admin : Bool) : Except String Printed × Database :=
  match tools.hashSecret inv.salt inv.secret with
  | .error e => (.error ("failed to hash secret: " ++ e), db)
  | .ok secretHash =>
    let row : KeyRecord := {
      keyId := inv.keyId
      secretHash := secretHash
      label := label
      owner := owner
      active := true
      isAdmin := admin
      createdAt := inv.now
      updatedAt := inv.now }
    match inv.execute (db.insertKey row) with
    | .error e => (.error ("failed to insert API key: " ++ tools.errorText e), db)
    | .ok db' => (.ok (.created inv.keyId inv.secret label owner admin), db')

/-- `ORDER BY created_at DESC`. -/
def Database.listing (db : Database) : List KeyListing :=
  ((db.apiKeys.rows.map Prod.snd).mergeSort fun k k' => k'.createdAt ≤ k.createdAt).map
    KeyRecord.listing

def listKeys : Except String Printed × Database :=
  match inv.execute (.ok db.listing) with
  | .error e => (.error ("failed to query API keys: " ++ tools.errorText e), db)
  | .ok keys => (.ok (.listed keys), db)

def revokeKey (keyId : String) : Except String Printed × Database :=
  match inv.execute (.ok (db.revoke keyId inv.now)) with
  | .error e => (.error ("failed to revoke API key: " ++ tools.errorText e), db)
  | .ok (rowsAffected, db') =>
    if rowsAffected = 0 then (.error ("API key " ++ keyId ++ " not found"), db')
    else (.ok (.revoked keyId), db')

def deleteKey (keyId : String) : Except String Printed × Database :=
  match inv.execute (.ok (db.deleteKey keyId)) with
  | .error e => (.error ("failed to delete API key: " ++ tools.errorText e), db)
  | .ok (rowsAffected, db') =>
    if rowsAffected = 0 then (.error ("API key " ++ keyId ++ " not found"), db')
    else (.ok (.deleted keyId), db')

def handleKeysCommand : Except String Printed × Database :=
  match inv.command with
  | .create label owner admin => createKey tools db inv label owner admin
  | .list => listKeys tools db inv
  | .revoke keyId => revokeKey tools db inv keyId
  | .delete keyId => deleteKey tools db inv keyId

end Commands

section Executed

variable {cr : Crypto} {tools : KeyTools cr} {db db' : Database} {inv : Invocation}

theorem Database.ext' (hk : db.apiKeys = db'.apiKeys) (hu : db.usageLogs = db'.usageLogs) :
    db = db' := by
  cases db
  cases db'
  cases hk
  cases hu
  rfl

theorem Database.insertKey_eq_ok {k : KeyRecord} (h : db.insertKey k = .ok db') :
    db.apiKeys.insert k = some db'.apiKeys ∧ db'.usageLogs = db.usageLogs ∧
      ∀ r ∈ db.apiKeys.rows, r.2.keyId ≠ k.keyId := by
  unfold insertKey at h
  split at h
  · cases h
  next apiKeys hins =>
  split at h
  · cases h
  next hk =>
  cases h
  exact ⟨hins, rfl, fun r hr he => hk (List.mem_map.2 ⟨r, hr, he⟩)⟩

theorem countP_keyId_eq_zero {keyId : String}
    (h : (db.apiKeys.rows.countP fun r => r.2.keyId = keyId) = 0) :
    ∀ r ∈ db.apiKeys.rows, r.2.keyId ≠ keyId := fun r hr he =>
  List.countP_eq_zero.1 h r hr (decide_eq_true he)

theorem Database.apiKeys_revoke (db : Database) (keyId now : String) :
    (db.revoke keyId now).2.apiKeys = db.apiKeys.modify (fun k => k.keyId = keyId)
      fun k => { k with active := false, updatedAt := now } := rfl

theorem Database.apiKeys_deleteKey (db : Database) (keyId : String) :
    (db.deleteKey keyId).2.apiKeys = db.apiKeys.delete fun r => r.2.keyId = keyId := rfl

theorem Database.revoke_of_not_found {keyId : String} (now : String)
    (h : ∀ r ∈ db.apiKeys.rows, r.2.keyId ≠ keyId) : (db.revoke keyId now).2 = db := by
  refine Database.ext' ?_ rfl
  rw [Database.apiKeys_revoke]
  exact IdTable.modify_of_forall_not fun r hr => by simpa using h r hr

theorem Database.deleteKey_of_not_found {keyId : String}
    (h : ∀ r ∈ db.apiKeys.rows, r.2.keyId ≠ keyId) : (db.deleteKey keyId).2 = db := by
  refine Database.ext' (IdTable.delete_of_forall_not fun r hr => by simpa using h r hr)
    (IdTable.delete_of_forall_not fun l _ hany => ?_)
  obtain ⟨r, hr, he⟩ := List.any_eq_true.1 hany
  rw [Bool.and_eq_true, decide_eq_true_iff] at he
  exact h r hr he.1

def Invocation.record (inv : Invocation) (secretHash label owner : String) (admin : Bool) :
    KeyRecord where
  keyId := inv.keyId
  secretHash := secretHash
  label := label
  owner := owner
  active := true
  isAdmin := admin
  createdAt := inv.now
  updatedAt := inv.now

@[simp] theorem Invocation.keyId_record (inv : Invocation) (secretHash label owner : String)
    (admin : Bool) : (inv.record secretHash label owner admin).keyId = inv.keyId := rfl

/-- All that a command can print or fail with, and the database after it. -/
inductive Executed (tools : KeyTools cr) (db : Database) (inv : Invocation) :
    Except String Printed → Database → Prop
  | failed (e : String) : Executed tools db inv (.error e) db
  | listed (command : inv.command = .list) : Executed tools db inv (.ok (.listed db.listing)) db
  | created {label owner hash : String} {admin : Bool} {db' : Database}
      (command : inv.command = .create label owner admin)
      (hashed : tools.hashSecret inv.salt inv.secret = .ok hash)
      (fresh : ∀ r ∈ db.apiKeys.rows, r.2.keyId ≠ inv.keyId)
      (inserted : db.apiKeys.insert (inv.record hash label owner admin) = some db'.apiKeys)
      (logs : db'.usageLogs = db.usageLogs) :
      Executed tools db inv (.ok (.created inv.keyId inv.secret label owner admin)) db'
  | revoked {keyId : String} (command : inv.command = .revoke keyId)
      (known : ∃ r ∈ db.apiKeys.rows, r.2.keyId = keyId) :
      Executed tools db inv (.ok (.revoked keyId)) (db.revoke keyId inv.now).2
  | deleted {keyId : String} (command : inv.command = .delete keyId)
      (known : ∃ r ∈ db.apiKeys.rows, r.2.keyId = keyId) :
      Executed tools db inv (.ok (.deleted keyId)) (db.deleteKey keyId).2

theorem exists_of_countP_ne_zero {keyId : String}
    (h : ¬ (db.apiKeys.rows.countP fun r => r.2.keyId = keyId) = 0) :
    ∃ r ∈ db.apiKeys.rows, r.2.keyId = keyId := by
  rw [List.countP_eq_zero] at h
  push Not at h
  obtain ⟨r, hr, he⟩ := h
  exact ⟨r, hr, of_decide_eq_true he⟩

theorem createKey_executed {label owner : String} {admin : Bool}
    (command : inv.command = .create label owner admin) :
    Executed tools db inv (createKey tools db inv label owner admin).1
      (createKey tools db inv label owner admin).2 := by
  unfold createKey
  split
  · exact .failed _
  next hash hashed =>
  dsimp only
  split
  · exact .failed _
  next db' he =>
  unfold Invocation.execute at he
  split at he
  · cases he
  obtain ⟨inserted, logs, fresh⟩ := Database.insertKey_eq_ok he
  exact .created command hashed fresh inserted logs

theorem revokeKey_executed {keyId : String} (command : inv.command = .revoke keyId) :
    Executed tools db inv (revokeKey tools db inv keyId).1 (revokeKey tools db inv keyId).2 := by
  unfold revokeKey Invocation.execute
  cases inv.fault with
  | some message => exact .failed _
  | none =>
    dsimp only
    split
    · next h =>
      rw [Database.revoke_of_not_found _ (countP_keyId_eq_zero h)]
      exact .failed _
    · next h => exact .revoked command (exists_of_countP_ne_zero h)

theorem deleteKey_executed {keyId : String} (command : inv.command = .delete keyId) :
    Executed tools db inv (deleteKey tools db inv keyId).1 (deleteKey tools db inv keyId).2 := by
  unfold deleteKey Invocation.execute
  cases inv.fault with
  | some message => exact .failed _
  | none =>
    dsimp only
    split
    · next h =>
      rw [Database.deleteKey_of_not_found (countP_keyId_eq_zero h)]
      exact .failed _
    · next h => exact .deleted command (exists_of_countP_ne_zero h)

variable (tools db inv) in
theorem handleKeysCommand_executed :
    Executed tools db inv (handleKeysCommand tools db inv).1
      (handleKeysCommand tools db inv).2 := by
  unfold handleKeysCommand
  cases command : inv.command with
  | create label owner admin => exact createKey_executed command
  | list =>
    unfold listKeys Invocation.execute
    cases inv.fault with
    | some message => exact .failed _
    | none => exact .listed command
  | revoke keyId => exact revokeKey_executed command
  | delete keyId => exact deleteKey_executed command

end Executed

end AlbionApi
