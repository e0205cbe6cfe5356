import CcSwitchServer.Repository.KeyHash
import CcSwitchServer.Repository.Effects

/-! # The imported repository, and what holds of every committed one

The database starts as the import of the stores that the old files hold.
-/

namespace CcSwitchServer.Repository
open Foundations Sharing StoredProvider List OrderedMap OrderedMap.Lists

variable {Λ : Type} (x : Externals Λ)

/-! ## The import -/

/-- The files of the stores before the migration. -/
structure SourceFiles (Λ : Type) where
  providersJson : Option ProviderDocument
  accountsJson : Option AccountStore
  sharesJson : Option ShareStore
  usage : UsageStore Λ
  emptyLedgers : Λ

def importProvider (payloads : OrderedMap TextPair ProviderRecordS2) (table : OrderedMap TextPair ProviderRow)
    (stored : StoredProvider) : Except String (OrderedMap TextPair ProviderRow) := do
  let row ← providerRowOf x ⟨"Provider source record is missing", ""⟩ payloads stored
  insertRow table row

def importAccount (payloads : OrderedMap TextPair Account) (table : OrderedMap TextPair AccountRow)
    (account : Account) : Except String (OrderedMap TextPair AccountRow) := do
  let row ← accountRowOf x ⟨"Account source record is missing", ""⟩ payloads account
  insertRow table row

def importUsage (table : OrderedMap String UsageRow) (log : UsageLog) :
    Except String (OrderedMap String UsageRow) := do
  let _ ← toSqlU128 log.createdAtMs
  let _ ← toSqlU64 log.usageRevision
  insertRow table (usageRow x log)

/-- `import_domain_rows` -/
def importDomainRows (source : SourceFiles Λ) (providers : List StoredProvider) (accounts : AccountStore)
    (shares : ShareStore) : Except String (Database Λ) := do
  let db : Database Λ :=
    { providersJson := source.providersJson, accountsJson := source.accountsJson, sharesJson := source.sharesJson
      ledgers := source.emptyLedgers }
  let providerPayloads ← encryptedProviderPayloads source.providersJson providers
  ensure (providerPayloads.size = providers.length) "Provider source/runtime count mismatch"
  let providerRows ← providers.foldlM (importProvider x providerPayloads) .empty
  let accountPayloads ← encryptedAccountPayloads source.accountsJson accounts.accounts
  ensure (accountPayloads.size = accounts.accounts.length) "Account source/runtime count mismatch"
  let accountRows ← accounts.accounts.foldlM (importAccount x accountPayloads) .empty
  let db := { db with providers := providerRows, accounts := accountRows }
  let providerAccounts ← insertProviderAccounts x db providers
  let sharePayloads ← sharePayloads source.sharesJson shares.shares
  ensure (sharePayloads.size = shares.shares.length) "Share source/runtime count mismatch"
  let db ← shares.shares.foldlM (importShareRow x "Share source record is missing" sharePayloads)
    { db with providerAccounts := providerAccounts }
  let usageRecords ← source.usage.logs.foldlM (importUsage x) .empty
  let db := { db with usageRecords := usageRecords }
  let ledgers ← x.mergeQuota db source.usage.quotaLedger
  return { db with ledgers := ledgers }

/-- `verify_connection` on the tables of the stores. -/
def verifyConnection (db : Database Λ) (providers : List StoredProvider) (accounts : AccountStore)
    (shares : ShareStore) (logs : List UsageLog) : Except String Unit := do
  ensure (db.providers.size = providers.length) "SQLite providers count mismatch"
  ensure (db.accounts.size = accounts.accounts.length) "SQLite accounts count mismatch"
  ensure (db.shares.size = shares.shares.length) "SQLite shares count mismatch"
  ensure (db.usageRecords.size = logs.length) "SQLite usage_records count mismatch"
  ensure (providerKeyHash x db = expectedProviderKeyHash x providers) "SQLite Provider key/revision hash mismatch"
  ensure (accountKeyHash x db = expectedAccountKeyHash x accounts.accounts)
    "SQLite Account key/generation hash mismatch"

/-- All stores, or none. -/
def importFiles (source : SourceFiles Λ) : Except String (Database Λ) := do
  let providers ← loadProviders x source.providersJson
  let accounts ← loadAccounts x source.accountsJson
  let shares ← loadShares x source.sharesJson
  let db ← importDomainRows x source providers accounts shares
  verifyConnection x db providers accounts shares source.usage.logs
  return db

/-! ## What holds of a committed repository -/

/-- The rows have the keys and revisions of the documents. -/
structure Mirrors (db : Database Λ) : Prop where
  providers : ∃ providers, documentProviders x db.providersJson = .ok providers ∧
    (db.providers.entries.map providerColumns).Perm (providers.map columns)
  accounts : (db.accounts.entries.map accountColumns).Perm
    ((documentAccounts db.accountsJson).accounts.map Account.columns)
  shares : (db.shares.entries.map shareColumns).Perm ((documentShares db.sharesJson).shares.map Share.columns)

/-- Every payload has the digest beside it. -/
structure Digested (db : Database Λ) : Prop where
  providers : ∀ k row, db.providers.get? k = some row → row.payloadSha256 = x.sha256Hex row.payloadJson
  accounts : ∀ k row, db.accounts.get? k = some row → row.payloadSha256 = x.sha256Hex row.payloadJson
  shares : ∀ k row, db.shares.get? k = some row → row.payloadSha256 = x.sha256Hex row.payloadJson
  usageRecords : ∀ k row, db.usageRecords.get? k = some row → row.payloadSha256 = x.sha256Hex row.payloadJson

/-- The hashes over the rows are those over the documents. -/
structure HashesAgree (db : Database Λ) : Prop where
  providers : ∀ providers, documentProviders x db.providersJson = .ok providers →
    providerKeyHash x db = expectedProviderKeyHash x providers
  accounts : accountKeyHash x db = expectedAccountKeyHash x (documentAccounts db.accountsJson).accounts

variable {x} {db : Database Λ}

theorem validateAuthoritativeGraph_eq (hm : Mirrors x db) (hh : HashesAgree x db) {providers : List StoredProvider}
    {accounts : AccountStore} {shares : ShareStore} (hproviders : loadProviders x db.providersJson = .ok providers)
    (haccounts : loadAccounts x db.accountsJson = .ok accounts) (hshares : loadShares x db.sharesJson = .ok shares) :
    validateAuthoritativeGraph x db = x.subscriptionReferenceGraph providers accounts shares := by
  obtain ⟨read, hread, hperm⟩ := hm.providers
  have hread' : read = providers := by
    obtain ⟨ps, hps, h⟩ := bind_eq_ok.mp hproviders
    obtain ⟨_, -, h⟩ := bind_eq_ok.mp h
    cases h
    rw [hread] at hps
    cases hps
    rfl
  have haccounts' : documentAccounts db.accountsJson = accounts := by
    obtain ⟨_, -, h⟩ := bind_eq_ok.mp haccounts
    cases h
    rfl
  have hshares' : documentShares db.sharesJson = shares := by
    obtain ⟨_, -, h⟩ := bind_eq_ok.mp hshares
    cases h
    rfl
  have hsize : db.providers.size = providers.length := by
    have hlength := hperm.length_eq
    rwa [length_map, length_map, hread'] at hlength
  have haccountSize : db.accounts.size = accounts.accounts.length := by
    have hlength := hm.accounts.length_eq
    rwa [length_map, length_map, haccounts'] at hlength
  have hshareSize : db.shares.size = shares.shares.length := by
    have hlength := hm.shares.length_eq
    rwa [length_map, length_map, hshares'] at hlength
  have hhash := hh.providers providers (hread' ▸ hread)
  have haccountHash := hh.accounts
  rw [haccounts'] at haccountHash
  unfold validateAuthoritativeGraph
  rw [hproviders, ok_bind, haccounts, ok_bind, hshares, ok_bind, ensure_of hsize, ok_bind, ensure_of haccountSize,
    ok_bind, ensure_of hshareSize, ok_bind, ensure_of hhash, ok_bind, ensure_of haccountHash, ok_bind]

/-! ## Hashes of tables that sort alike -/

/-- The texts of rows that agree with the items, in the order of the keys. -/
theorem sorted_texts {ρ α γ : Type} {table : OrderedMap TextPair ρ} {items : List α} {rowColumns : TextPair × ρ → γ}
    {columns : α → γ} (key : γ → TextPair) (text : γ → String) (hkey : ∀ row, key (rowColumns row) = row.1)
    (hperm : (table.entries.map rowColumns).Perm (items.map columns))
    (halike : SortsAlike (fun a => key (columns a)) (fun a => text (columns a)) items) :
    (items.map fun a => text (columns a)).insertionSort (· ≤ ·) = table.entries.map fun row => text (rowColumns row) := by
  have halike' : SortsAlike key text (items.map columns) := by
    intro a ha b hb
    obtain ⟨p, hp, rfl⟩ := mem_map.mp ha
    obtain ⟨q, hq, rfl⟩ := mem_map.mp hb
    exact halike p hp q hq
  have hsorted : (table.entries.map rowColumns).Pairwise fun a b => key a < key b := by
    rw [pairwise_map]
    simp only [hkey]
    exact table.sorted
  have htexts := halike'.insertionSort hperm hsorted
  rwa [map_map, map_map] at htexts

theorem providerKeyHash_eq {providers : List StoredProvider}
    (hperm : (db.providers.entries.map providerColumns).Perm (providers.map columns))
    (halike : ProvidersSortAlike providers) : providerKeyHash x db = expectedProviderKeyHash x providers :=
  congrArg (fun texts => x.sha256Hex (joinLines texts))
    (sorted_texts ProviderColumns.key ProviderColumns.text (fun _ => rfl) hperm halike).symm

theorem accountKeyHash_eq {accounts : List Account}
    (hperm : (db.accounts.entries.map accountColumns).Perm (accounts.map Account.columns))
    (halike : AccountsSortAlike accounts) : accountKeyHash x db = expectedAccountKeyHash x accounts :=
  congrArg (fun texts => x.sha256Hex (joinLines texts))
    (sorted_texts AccountColumns.key AccountColumns.text (fun _ => rfl) hperm halike).symm

/-! ## The import's database -/

variable {source : SourceFiles Λ} {providers : List StoredProvider} {accounts : AccountStore} {shares : ShareStore}

theorem importProvider_ok {payloads : OrderedMap TextPair ProviderRecordS2}
    {table table' : OrderedMap TextPair ProviderRow} {stored : StoredProvider}
    (h : importProvider x payloads table stored = .ok table') :
    table.get? stored.key = none ∧ table' = table.insert stored.key
      (providerRow x stored ((payloads.get? stored.key).getD (recordFromStored x stored))).2 := by
  obtain ⟨row, hrow, h⟩ := bind_eq_ok.mp h
  obtain ⟨payload, hget, hrow⟩ := bind_eq_ok.mp hrow
  obtain ⟨_, -, hrow⟩ := bind_eq_ok.mp hrow
  obtain ⟨_, -, hrow⟩ := bind_eq_ok.mp hrow
  cases hrow
  rw [context_eq_ok] at hget
  rw [hget]
  exact insertRow_ok h

theorem importAccount_ok {payloads : OrderedMap TextPair Account} {table table' : OrderedMap TextPair AccountRow}
    {account : Account} (h : importAccount x payloads table account = .ok table') :
    table.get? account.key = none ∧ table' = table.insert account.key
      (accountRow x account ((payloads.get? account.key).getD account)).2 := by
  obtain ⟨row, hrow, h⟩ := bind_eq_ok.mp h
  obtain ⟨payload, hget, hrow⟩ := bind_eq_ok.mp hrow
  obtain ⟨_, -, hrow⟩ := bind_eq_ok.mp hrow
  obtain ⟨_, -, hrow⟩ := bind_eq_ok.mp hrow
  obtain ⟨_, -, hrow⟩ := bind_eq_ok.mp hrow
  cases hrow
  rw [context_eq_ok] at hget
  rw [hget]
  exact insertRow_ok h

/-- The tables of an import list its stores, and refer to one another. -/
structure Imported (x : Externals Λ) (source : SourceFiles Λ) (providers : List StoredProvider)
    (accounts : AccountStore) (shares : ShareStore) (db : Database Λ) : Prop where
  documents : db.providersJson = source.providersJson ∧ db.accountsJson = source.accountsJson ∧
    db.sharesJson = source.sharesJson
  providers : ∃ payload : StoredProvider → ProviderRecordS2,
    db.providers.Lists (fun stored => providerRow x stored (payload stored)) providers
  accounts : ∃ payload : Account → Account,
    db.accounts.Lists (fun account => accountRow x account (payload account)) accounts.accounts
  shares : ∃ payload : Share → Share, db.shares.Lists (fun share => shareRow x share (payload share)) shares.shares
  usageRecords : db.usageRecords.Lists (usageRow x) source.usage.logs
  referring : Referring db

theorem sharePayloads_some {document : Option ShareStore} {payloads : OrderedMap String Share}
    (hdocument : shares = documentShares document) (h : sharePayloads document shares.shares = .ok payloads) :
    OrderedMap.Lists payloads (fun share => (share.id, share)) shares.shares := by
  cases document with
  | none =>
    rw [hdocument] at h ⊢
    cases h
    exact lists_empty
  | some store =>
    rw [hdocument] at h ⊢
    exact sharePayloads_ok h

/-- The rows say what the documents do. -/
theorem importDomainRows_ok (hshares : shares = documentShares source.sharesJson)
    (h : importDomainRows x source providers accounts shares = .ok db) :
    Imported x source providers accounts shares db := by
  obtain ⟨providerPayloads, -, h⟩ := bind_eq_ok.mp h
  obtain ⟨_, -, h⟩ := bind_eq_ok.mp h
  obtain ⟨providerRows, hproviders, h⟩ := bind_eq_ok.mp h
  obtain ⟨accountPayloads, -, h⟩ := bind_eq_ok.mp h
  obtain ⟨_, -, h⟩ := bind_eq_ok.mp h
  obtain ⟨accountRows, haccounts, h⟩ := bind_eq_ok.mp h
  obtain ⟨providerAccounts, hinserted, h⟩ := bind_eq_ok.mp h
  obtain ⟨payloads, hpayloads, h⟩ := bind_eq_ok.mp h
  obtain ⟨_, -, h⟩ := bind_eq_ok.mp h
  obtain ⟨imported, himported, h⟩ := bind_eq_ok.mp h
  obtain ⟨usageRecords, husage, h⟩ := bind_eq_ok.mp h
  obtain ⟨ledgers, -, h⟩ := bind_eq_ok.mp h
  cases h
  have hlisted := sharePayloads_some hshares hpayloads
  obtain ⟨hshareRows, himported'⟩ := foldlM_importShareRow
    (fun share hshare => ⟨share, hlisted.get?.mpr ⟨share, hshare, rfl⟩, (rfl : shareRow x share share = _)⟩)
    lists_empty himported
  have hproviderRows : providerRows.Lists (fun stored => providerRow x stored
      ((providerPayloads.get? stored.key).getD (recordFromStored x stored))) providers :=
    foldlM_insert (fun _ _ _ _ ht => importProvider_ok ht) lists_empty hproviders
  have haccountRows : accountRows.Lists (fun account => accountRow x account
      ((accountPayloads.get? account.key).getD account)) accounts.accounts :=
    foldlM_insert (fun _ _ _ _ ht => importAccount_ok ht) lists_empty haccounts
  refine ⟨?_, ⟨fun stored => (providerPayloads.get? stored.key).getD (recordFromStored x stored), ?_⟩,
    ⟨fun account => (accountPayloads.get? account.key).getD account, ?_⟩, ⟨fun share => share, hshareRows⟩, ?_, ?_⟩
  · rw [himported']
    exact ⟨rfl, rfl, rfl⟩
  · rw [himported']
    exact hproviderRows
  · rw [himported']
    exact haccountRows
  · refine foldlM_insert (fun t t' log _ ht => ?_) lists_empty husage
    obtain ⟨_, -, ht⟩ := bind_eq_ok.mp ht
    obtain ⟨_, -, ht⟩ := bind_eq_ok.mp ht
    exact insertRow_ok ht
  · have hempty : Referring ({ providers := providerRows, accounts := accountRows
                               providersJson := source.providersJson, accountsJson := source.accountsJson
                               sharesJson := source.sharesJson, ledgers := source.emptyLedgers } : Database Λ) := by
      refine ⟨fun k hk => ?_, fun k hk => ?_, fun k row hrow => by cases hrow⟩
      · rcases refersToProvider_iff.mp hk with ⟨_, hrow⟩ | ⟨_, _, hrow, _⟩ | ⟨_, _, hrow, _⟩ <;> cases hrow
      · obtain ⟨_, _, hrow, _⟩ := refersToAccount_iff.mp hk
        cases hrow
    have hreferring := (hempty.insertProviderAccounts hinserted).importShares himported
    exact ⟨hreferring.provider, hreferring.account, hreferring.share⟩

end CcSwitchServer.Repository
