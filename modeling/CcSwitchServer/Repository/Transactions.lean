import CcSwitchServer.Repository.Records

/-! # Transactions of the committed repository (`src/repository/server_sqlite.rs`)

Every call is one transaction; foreign keys are checked at each statement. Failures of the disk are not
modelled.
-/

namespace CcSwitchServer.Repository
open Foundations Sharing

variable {Λ : Type} (x : Externals Λ)

/-! ## Statements -/

def toSqlU64 (value : ℕ) : Except String ℕ :=
  if (value : ℤ) ≤ i64Max then .ok value else .error "value exceeds SQLite signed integer range"

def toSqlU128 (value : ℕ) : Except String ℕ :=
  if (value : ℤ) ≤ i64Max then .ok value else .error "timestamp exceeds SQLite signed integer range"

/-- The `WHERE` of the provider upsert. -/
def ProviderRow.allows (old new : ProviderRow) : Prop :=
  old.revision < new.revision ∨ new.revision = old.revision ∧ old.credentialGeneration ≤ new.credentialGeneration

instance (old new : ProviderRow) : Decidable (old.allows new) :=
  inferInstanceAs (Decidable (_ < _ ∨ _ = _ ∧ _ ≤ _))

/-- The `WHERE` of the account upsert. -/
def AccountRow.allows (old new : AccountRow) : Prop :=
  old.authIdentityGeneration < new.authIdentityGeneration ∨
    new.authIdentityGeneration = old.authIdentityGeneration ∧ old.tokenRefreshGeneration ≤ new.tokenRefreshGeneration

instance (old new : AccountRow) : Decidable (old.allows new) :=
  inferInstanceAs (Decidable (_ < _ ∨ _ = _ ∧ _ ≤ _))

/-- The `WHERE` of the usage upsert. -/
def UsageRow.allows (old new : UsageRow) : Prop := old.usageRevision ≤ new.usageRevision

instance (old new : UsageRow) : Decidable (old.allows new) := inferInstanceAs (Decidable (_ ≤ _))

/-- The errors of an upsert loop: for a record without payload, and for a row that is not changed. -/
structure UpsertErrors where
  missing : String
  stale : String

/-- `INSERT … ON CONFLICT … DO UPDATE … WHERE`, which must change one row. -/
def upsertRow {κ ν : Type} [LinearOrder κ] (allows : ν → ν → Prop) [∀ old new, Decidable (allows old new)]
    (stale : String) (table : OrderedMap κ ν) (row : κ × ν) : Except String (OrderedMap κ ν) := do
  ensure ((table.get? row.1).all fun old => allows old row.2) stale
  return table.insert row.1 row.2

/-- A key that is taken is an error. -/
def insertRow {κ ν : Type} [LinearOrder κ] (table : OrderedMap κ ν) (row : κ × ν) :
    Except String (OrderedMap κ ν) := do
  ensure (table.get? row.1).isNone "UNIQUE constraint failed"
  return table.insert row.1 row.2

/-! ## Providers -/

def providerRow (stored : StoredProvider) (payload : ProviderRecordS2) : TextPair × ProviderRow :=
  (stored.key, ⟨ProviderType.asStr stored.providerType, stored.revision, stored.credentialGeneration,
    x.providerText payload, x.sha256Hex (x.providerText payload)⟩)

variable (errors : UpsertErrors)

variable (payloads : OrderedMap TextPair ProviderRecordS2)

def providerRowOf (stored : StoredProvider) : Except String (TextPair × ProviderRow) := do
  let payload ← context (payloads.get? stored.key) errors.missing
  let _ ← toSqlU64 stored.revision
  let _ ← toSqlU64 stored.credentialGeneration
  return providerRow x stored payload

/-- A store that is older than the row is refused. -/
def upsertProvider (table : OrderedMap TextPair ProviderRow) (stored : StoredProvider) :
    Except String (OrderedMap TextPair ProviderRow) := do
  let row ← providerRowOf x errors payloads stored
  upsertRow ProviderRow.allows errors.stale table row

variable (db : Database Λ)

/-- A row that is referred to cannot be deleted. -/
def Database.refersToProvider (key : TextPair) : Bool :=
  db.providerAccounts.entries.any (fun row => row.1 = key) || db.shares.values.any (fun row => row.provider = key) ||
    db.shareBindings.entries.any fun row => toLex ((ofLex row.1).2, row.2.providerId) = key

def Database.refersToAccount (key : TextPair) : Bool := db.providerAccounts.values.any fun row => row.account = key

def providerAccountRow (binding : ProviderType × String × ℕ) : ProviderAccountRow :=
  ⟨ProviderType.asStr binding.1, binding.2.1, binding.2.2⟩

def insertProviderAccount (table : OrderedMap TextPair ProviderAccountRow)
    (stored : StoredProvider) : Except String (OrderedMap TextPair ProviderAccountRow) :=
  match x.managedAccountBinding stored with
  | none => .ok table
  | some binding => do
    let _ ← toSqlU64 binding.2.2
    ensure ((db.providers.get? stored.key).isSome ∧ (db.accounts.get? (providerAccountRow binding).account).isSome)
      "FOREIGN KEY constraint failed"
    insertRow table (stored.key, providerAccountRow binding)

variable (providers : List StoredProvider)

def insertProviderAccounts :
    Except String (OrderedMap TextPair ProviderAccountRow) :=
  providers.foldlM (insertProviderAccount x db) db.providerAccounts

/-- The upsert loop and `delete_missing_composite_keys` on the providers. -/
def upsertProviders (db : Database Λ) : Except String (OrderedMap TextPair ProviderRow) :=
  providers.foldlM (upsertProvider x errors payloads) db.providers

def deleteMissingProviders (db : Database Λ) :
    Except String (OrderedMap TextPair ProviderRow) :=
  db.providers.deleteMissing db.refersToProvider (providers.map StoredProvider.key) "FOREIGN KEY constraint failed"

def persistProviders (store : ProviderStore x) (db : Database Λ) : Except String (Database Λ) := do
  let document ← serializeProviderStore x store
  let payloads ← encryptedProviderPayloads (some document) store.providers
  let providers ← upsertProviders x
    ⟨"encrypted Provider record is missing", "stale Provider revision/generation SQLite commit rejected"⟩
    payloads store.providers db
  let db := { db with providers := providers, providerAccounts := .empty }
  let providers ← deleteMissingProviders store.providers db
  let db := { db with providers := providers }
  let providerAccounts ← insertProviderAccounts x db store.providers
  return { db with
    providerAccounts := providerAccounts
    providersJson := some document
    generation := db.generation + 1 }

/-! ## Accounts -/

def accountRow (account payload : Account) : TextPair × AccountRow :=
  (account.key, ⟨account.authIdentityGeneration, account.tokenRefreshGeneration, x.accountText payload,
    x.sha256Hex (x.accountText payload)⟩)

variable (payloads : OrderedMap TextPair Account)

def accountRowOf (account : Account) :
    Except String (TextPair × AccountRow) := do
  let payload ← context (payloads.get? account.key) errors.missing
  ensure (x.secretsEncrypted payload) "refusing to place plaintext Account credentials in SQLite"
  let _ ← toSqlU64 account.authIdentityGeneration
  let _ ← toSqlU64 account.tokenRefreshGeneration
  return accountRow x account payload

def upsertAccount (table : OrderedMap TextPair AccountRow) (account : Account) :
    Except String (OrderedMap TextPair AccountRow) := do
  let row ← accountRowOf x errors payloads account
  upsertRow AccountRow.allows errors.stale table row

def upsertAccounts (accounts : List Account)
    (db : Database Λ) : Except String (OrderedMap TextPair AccountRow) :=
  accounts.foldlM (upsertAccount x errors payloads) db.accounts

def deleteMissingAccounts (accounts : List Account) (db : Database Λ) :
    Except String (OrderedMap TextPair AccountRow) :=
  db.accounts.deleteMissing db.refersToAccount (accounts.map Account.key) "FOREIGN KEY constraint failed"

def persistAccounts (store : AccountStore) (db : Database Λ) : Except String (Database Λ) := do
  let payloads ← encryptedAccountPayloads (some store) store.accounts
  let accounts ← upsertAccounts x
    ⟨"encrypted Account record is missing", "stale Account identity/token generation SQLite commit rejected"⟩
    payloads store.accounts db
  let db := { db with accounts := accounts }
  let accounts ← deleteMissingAccounts store.accounts db
  return { db with accounts := accounts, accountsJson := some store, generation := db.generation + 1 }

/-! ## Shares -/

/-- `validate_share_revision_transition` -/
def validateShareRevisionTransition (incoming : ShareStore) : Except String Unit := do
  ensure (incoming.shares.map Share.id).Nodup "duplicate Share identity in SQLite commit"
  db.shares.entries.forM fun row =>
    match incoming.shares.find? (fun share => share.id = row.1) with
    | some share =>
      ensure (row.2.configRevision ≤ share.configRevision) "stale Share config revision SQLite commit rejected"
    | none =>
      ensure (row.1 ∈ incoming.pendingRouterDeletes) "stale Share snapshot attempted deletion without a tombstone"

def shareRow (share payload : Share) : String × ShareRow :=
  (share.id, ⟨share.app.asStr, share.providerId, ProviderType.asStr share.providerType, share.configRevision,
    x.shareText payload, x.sha256Hex (x.shareText payload)⟩)

def shareRowOf (missing : String) (payloads : OrderedMap String Share) (share : Share) :
    Except String (String × ShareRow) := do
  let payload ← context (payloads.get? share.id) missing
  let _ ← toSqlU64 share.configRevision
  return shareRow x share payload

/-- The bindings of a share by app: its own one, and the listed ones over it. -/
def bindingsByApp (share : Share) : OrderedMap String ShareBindingRow :=
  share.bindings.foldl (fun m b => m.insert b.app.asStr ⟨b.providerId, ProviderType.asStr b.providerType⟩)
    (OrderedMap.empty.insert share.app.asStr ⟨share.providerId, ProviderType.asStr share.providerType⟩)

def insertShareBinding (shareId : String) (binding : String × ShareBindingRow) : Except String (Database Λ) := do
  ensure ((db.shares.get? shareId).isSome ∧ (db.providers.get? (toLex (binding.1, binding.2.providerId))).isSome)
    "FOREIGN KEY constraint failed"
  let shareBindings ← insertRow db.shareBindings (toLex (shareId, binding.1), binding.2)
  return { db with shareBindings := shareBindings }

def importShareRow (missing : String) (payloads : OrderedMap String Share) (db : Database Λ) (share : Share) :
    Except String (Database Λ) := do
  let row ← shareRowOf x missing payloads share
  ensure (db.providers.get? row.2.provider).isSome "FOREIGN KEY constraint failed"
  let shares ← insertRow db.shares row
  (bindingsByApp share).entries.foldlM (fun db binding => insertShareBinding db share.id binding)
    { db with shares := shares }

/-- `import_share_rows` -/
def importShareRows (store : ShareStore) (payloads : OrderedMap String Share) : Except String (Database Λ) := do
  let ledgers ← x.archive db store
  store.shares.foldlM (importShareRow x "Share persistence record is missing" payloads) { db with ledgers := ledgers }

def initializeInTx (initializations : List Json) (actor : String) (now : ℤ) (db : Database Λ) : Except String Λ :=
  if initializations.isEmpty then .ok db.ledgers else x.initializeValues db initializations actor now

/-- `persist_shares` is the case without initialisations. -/
def persistSharesWithValueInitializations (store : ShareStore) (initializations : List Json) (actor : String)
    (now : ℤ) (db : Database Λ) : Except String (Database Λ) := do
  let payloads ← sharePayloads (some store) store.shares
  validateShareRevisionTransition db store
  let ledgers ← initializeInTx x initializations actor now db
  let db := { db with ledgers := ledgers, shareBindings := .empty, shares := .empty }
  let db ← importShareRows x db store payloads
  return { db with sharesJson := some store, generation := db.generation + 1 }

/-! ## The reference graph -/

/-- Three stores in one transaction. -/
def persistReferenceGraph (providers : ProviderStore x) (accounts : AccountStore) (shares : ShareStore)
    (db : Database Λ) : Except String (Database Λ) := do
  let document ← serializeProviderStore x providers
  let providerPayloads ← encryptedProviderPayloads (some document) providers.providers
  let accountPayloads ← encryptedAccountPayloads (some accounts) accounts.accounts
  let sharePayloads ← sharePayloads (some shares) shares.shares
  validateShareRevisionTransition db shares
  let db := { db with shareBindings := .empty, shares := .empty, providerAccounts := .empty }
  let accountRows ← upsertAccounts x
    ⟨"encrypted Account graph record is missing", "stale Account graph generation SQLite commit rejected"⟩
    accountPayloads accounts.accounts db
  let db := { db with accounts := accountRows }
  let providerRows ← upsertProviders x
    ⟨"encrypted Provider graph record is missing", "stale Provider graph revision SQLite commit rejected"⟩
    providerPayloads providers.providers db
  let db := { db with providers := providerRows }
  let providerRows ← deleteMissingProviders providers.providers db
  let db := { db with providers := providerRows }
  let accountRows ← deleteMissingAccounts accounts.accounts db
  let db := { db with accounts := accountRows }
  let providerAccounts ← insertProviderAccounts x db providers.providers
  let db ← importShareRows x { db with providerAccounts := providerAccounts } shares sharePayloads
  return { db with
    providersJson := some document
    accountsJson := some accounts
    sharesJson := some shares
    generation := db.generation + 1 }

/-! ## Usage -/

def usageRow (log : UsageLog) : String × UsageRow :=
  (log.requestId, ⟨log.createdAtMs, log.shareId, log.providerId, log.usageRevision, x.usageText log,
    x.sha256Hex (x.usageText log)⟩)

/-- `upsert_usage_row` -/
def upsertUsageRow (table : OrderedMap String UsageRow) (log : UsageLog) :
    Except String (OrderedMap String UsageRow) := do
  let _ ← toSqlU128 log.createdAtMs
  let _ ← toSqlU64 log.usageRevision
  upsertRow UsageRow.allows "stale Usage revision SQLite commit rejected" table (usageRow x log)

def upsertUsageLog (log : UsageLog) (db : Database Λ) : Except String (Database Λ) := do
  let usageRecords ← upsertUsageRow x db.usageRecords log
  let db := { db with usageRecords := usageRecords }
  let ledgers ← x.upsertQuota db log
  let db := { db with ledgers := ledgers }
  let ledgers ← x.settleValue db log
  let db := { db with ledgers := ledgers }
  let ledgers ← x.finalizeMarket db log
  return { db with ledgers := ledgers, generation := db.generation + 1 }

def replaceUsageRecords (usage : UsageStore Λ) (db : Database Λ) : Except String (Database Λ) := do
  let usageRecords ← usage.logs.foldlM (upsertUsageRow x) .empty
  let db := { db with usageRecords := usageRecords }
  let ledgers ← x.mergeQuota db usage.quotaLedger
  return { db with ledgers := ledgers, generation := db.generation + 1 }

/-! ## Runs -/

inductive Op
  | persistProviders (store : ProviderStore x)
  | persistAccounts (store : AccountStore)
  | persistShares (store : ShareStore) (initializations : List Json) (actor : String) (now : ℤ)
  | persistReferenceGraph (providers : ProviderStore x) (accounts : AccountStore) (shares : ShareStore)
  | upsertUsageLog (log : UsageLog)
  | replaceUsageRecords (usage : UsageStore Λ)

def transact : Op x → Except String (Database Λ)
  | .persistProviders store => persistProviders x store db
  | .persistAccounts store => persistAccounts x store db
  | .persistShares store initializations actor now =>
    persistSharesWithValueInitializations x store initializations actor now db
  | .persistReferenceGraph providers accounts shares => persistReferenceGraph x providers accounts shares db
  | .upsertUsageLog log => upsertUsageLog x log db
  | .replaceUsageRecords usage => replaceUsageRecords x usage db

end CcSwitchServer.Repository
