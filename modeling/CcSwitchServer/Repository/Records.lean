import CcSwitchServer.Foundations.Upserts
import CcSwitchServer.Sharing.Records

/-! # Stores, their documents and their rows (`src/repository/server_sqlite.rs`, `store_v2.rs`, `payload.rs`)

Every store is kept twice: as a document and as one row for each record. Integer columns are those that are not
negative; `body` is what the repository does not read of a record.
-/

namespace CcSwitchServer.Repository
open Foundations Sharing

def ProviderType.asStr : ProviderType → String
  | .claude => "claude"
  | .claudeAuth => "claude_auth"
  | .claudeOAuth => "claude_oauth"
  | .codex => "codex"
  | .codexOAuth => "codex_oauth"
  | .gemini => "gemini"
  | .geminiCli => "gemini_cli"
  | .openRouter => "openrouter"
  | .gitHubCopilot => "github_copilot"
  | .deepSeekAccount => "deepseek_account"
  | .kiroOAuth => "kiro_oauth"
  | .amazonQOAuth => "amazon_q_oauth"
  | .kimiCode => "kimi_code"
  | .qoderCosy => "qoder_cosy"
  | .codeBuddyOAuth => "codebuddy_oauth"
  | .workBuddyOAuth => "workbuddy_oauth"
  | .traeSolo => "trae_solo"
  | .traeRaw => "trae_raw_chat"
  | .traeIntl => "trae_raw_chat_intl"
  | .cursorOAuth => "cursor_oauth"
  | .cursorApiKey => "cursor_apikey"
  | .antigravityOAuth => "antigravity_oauth"
  | .agyOAuth => "agy_oauth"
  | .ollamaCloud => "ollama_cloud"
  | .awsBedrock => "aws_bedrock"
  | .nvidia => "nvidia"
  | .deepSeekApi => "deepseek_api"
  | .grokOAuth => "grok_oauth"

/-! ## Records -/

/-- Text columns compare by bytes. -/
abbrev TextPair := String ×ₗ String

structure StoredProvider where
  app : AppKind
  id : String
  providerType : ProviderType
  revision : ℕ
  credentialGeneration : ℕ
  body : Json

def StoredProvider.key (stored : StoredProvider) : TextPair := toLex (stored.app.asStr, stored.id)

/-- The store encrypts its secrets; `body` is the account as it is written. -/
structure Account where
  providerType : ProviderType
  id : String
  authIdentityGeneration : ℕ
  tokenRefreshGeneration : ℕ
  body : Json

def Account.key (account : Account) : TextPair := toLex (ProviderType.asStr account.providerType, account.id)

structure Share where
  id : String
  app : AppKind
  providerId : String
  providerType : ProviderType
  configRevision : ℕ
  bindings : List ShareBinding
  body : Json

structure UsageLog where
  requestId : String
  createdAtMs : ℕ
  shareId : Option String
  providerId : Option String
  usageRevision : ℕ
  body : Json

/-! ## Documents -/

/-- A provider as the S2 document has it; `legacyPayload` is the type of a record without a profile. -/
structure ProviderRecordS2 where
  providerId : String
  revision : ℕ
  credentialGeneration : ℕ
  legacyPayload : Option ProviderType
  body : Json

/-- `providers.json`: the old form, or the guarded form with its records by app and provider id. -/
inductive ProviderDocument
  | s1 (providers : List StoredProvider)
  | s2 (storeGeneration : ℕ) (records : OrderedMap TextPair (AppKind × ProviderRecordS2))

structure AccountStore where
  accounts : List Account := []
  body : Json := .null

structure ShareStore where
  shares : List Share := []
  pendingRouterDeletes : List String := []
  body : Json := .null

structure UsageStore (Λ : Type) where
  logs : List UsageLog
  quotaLedger : Λ

/-! ## Rows -/

/-- The revisions of the record, and the record with the digest of its text. -/
structure ProviderRow where
  providerType : String
  revision : ℕ
  credentialGeneration : ℕ
  payloadJson : String
  payloadSha256 : String

structure AccountRow where
  authIdentityGeneration : ℕ
  tokenRefreshGeneration : ℕ
  payloadJson : String
  payloadSha256 : String

structure ProviderAccountRow where
  providerType : String
  accountId : String
  authIdentityGeneration : ℕ

def ProviderAccountRow.account (row : ProviderAccountRow) : TextPair := toLex (row.providerType, row.accountId)

structure ShareRow where
  app : String
  providerId : String
  providerType : String
  configRevision : ℕ
  payloadJson : String
  payloadSha256 : String

def ShareRow.provider (row : ShareRow) : TextPair := toLex (row.app, row.providerId)

structure ShareBindingRow where
  providerId : String
  providerType : String

structure UsageRow where
  createdAtMs : ℕ
  shareId : Option String
  providerId : Option String
  usageRevision : ℕ
  payloadJson : String
  payloadSha256 : String

/-- The database: the tables of the stores and their documents. `ledgers` are the tables of the quota, value
and settlement ledgers. -/
structure Database (Λ : Type) where
  providers : OrderedMap TextPair ProviderRow := .empty
  accounts : OrderedMap TextPair AccountRow := .empty
  providerAccounts : OrderedMap TextPair ProviderAccountRow := .empty
  shares : OrderedMap String ShareRow := .empty
  shareBindings : OrderedMap TextPair ShareBindingRow := .empty
  usageRecords : OrderedMap String UsageRow := .empty
  providersJson : Option ProviderDocument := none
  accountsJson : Option AccountStore := none
  sharesJson : Option ShareStore := none
  generation : ℕ := 0
  ledgers : Λ

/-! ## What lies outside -/

/-- The functions the repository calls. The ledgers' transactions write no table modelled here. -/
structure Externals (Λ : Type) where
  sha256Hex : String → String
  providerText : ProviderRecordS2 → String
  accountText : Account → String
  shareText : Share → String
  usageText : UsageLog → String
  /-- Whether every secret of an account's payload is encrypted. -/
  secretsEncrypted : Account → Bool
  usesLegacyPayload : Json → Bool
  canonicalProviderType : AppKind → Json → Except String ProviderType
  /-- The account a provider is bound to, with its provider type and identity generation. -/
  managedAccountBinding : StoredProvider → Option (ProviderType × String × ℕ)
  /-- The runtime view of a record of the old form; it keeps keys and revisions. -/
  legacyRuntimeView : StoredProvider → StoredProvider
  /-- The checks of `load_runtime_or_default` beside those of single records. -/
  validProviders : List StoredProvider → Except String Unit
  validAccounts : AccountStore → Except String Unit
  validShares : ShareStore → Except String Unit
  subscriptionReferenceGraph : List StoredProvider → AccountStore → ShareStore → Except String Unit
  archive : Database Λ → ShareStore → Except String Λ
  initializeValues : Database Λ → List Json → String → ℤ → Except String Λ
  upsertQuota : Database Λ → UsageLog → Except String Λ
  settleValue : Database Λ → UsageLog → Except String Λ
  finalizeMarket : Database Λ → UsageLog → Except String Λ
  mergeQuota : Database Λ → Λ → Except String Λ

variable {Λ : Type} (x : Externals Λ)

/-! ## The provider store -/

inductive ProviderStoreFormat
  | s1
  | s2
deriving DecidableEq

/-- `validate_for_commit` on the types: every record has the type its contents give it. -/
def Classified (providers : List StoredProvider) : Prop :=
  ∀ stored ∈ providers, x.canonicalProviderType stored.app stored.body = .ok stored.providerType

/-- A provider store that its caller has validated for a commit. `sealed` and `vaultSound` are the credential
vault's part in `encode_s2`. -/
structure ProviderStore where
  providers : List StoredProvider
  format : ProviderStoreFormat
  isSealed : Bool
  vaultSound : Bool
  storeGeneration : ℕ
  classified : Classified x providers

variable {x}

def trimmedId (id : String) : Bool := Text.trim id ≠ "" ∧ id = Text.trim id

variable (x)

def recordFromStored (stored : StoredProvider) : ProviderRecordS2 where
  providerId := stored.id
  revision := stored.revision
  credentialGeneration := stored.credentialGeneration
  legacyPayload := if x.usesLegacyPayload stored.body then some stored.providerType else none
  body := stored.body

/-- `encode_s2` -/
def encodeS2 (store : ProviderStore x) : Except String ProviderDocument := do
  ensure (store.format = .s2) "cannot encode a non-S2 Provider store as S2"
  ensure store.isSealed "cannot encode an unsealed Provider store as S2"
  let records ← store.providers.foldlM (fun records stored => do
    ensure (trimmedId stored.id) "provider id must be non-empty and trimmed"
    ensure (records.get? stored.key).isNone "duplicate Provider key while encoding S2"
    return records.insert stored.key (stored.app, recordFromStored x stored)) .empty
  ensure store.vaultSound "Provider credential vault contains orphan envelopes"
  return .s2 store.storeGeneration records

/-- `serialize_provider_store` -/
def serializeProviderStore (store : ProviderStore x) : Except String ProviderDocument :=
  match store.format with
  | .s1 => .ok (.s1 store.providers)
  | .s2 => encodeS2 x store

/-- `stored_from_record`; the guards on names, profiles and credentials are among those of `validProviders`. -/
def storedFromRecord (app : AppKind) (record : ProviderRecordS2) : Except String StoredProvider := do
  ensure (x.usesLegacyPayload record.body = record.legacyPayload.isSome)
    "Provider S2 legacy payload disposition does not match profile identity"
  let providerType ← match record.legacyPayload with
    | some legacy => .ok legacy
    | none => x.canonicalProviderType app record.body
  return ⟨app, record.providerId, providerType, record.revision, record.credentialGeneration, record.body⟩

/-- The records of `providers.json`, as the loader reads them. -/
def documentProviders : Option ProviderDocument → Except String (List StoredProvider)
  | none => .ok []
  | some (.s1 providers) => .ok (providers.map x.legacyRuntimeView)
  | some (.s2 _ records) => records.values.mapM fun record => storedFromRecord x record.1 record.2

def documentAccounts (document : Option AccountStore) : AccountStore := document.getD {}

def documentShares (document : Option ShareStore) : ShareStore := document.getD {}

/-- `ProviderStore::load_runtime_or_default` -/
def loadProviders (document : Option ProviderDocument) : Except String (List StoredProvider) := do
  let providers ← documentProviders x document
  x.validProviders providers
  return providers

/-- `AccountStore::load_from_path` -/
def loadAccounts (document : Option AccountStore) : Except String AccountStore := do
  x.validAccounts (documentAccounts document)
  return documentAccounts document

/-- `ShareStore::load_or_default` -/
def loadShares (document : Option ShareStore) : Except String ShareStore := do
  x.validShares (documentShares document)
  return documentShares document

/-! ## Payloads -/

/-- `encrypted_provider_payloads` -/
def encryptedProviderPayloads (root : Option ProviderDocument) (providers : List StoredProvider) :
    Except String (OrderedMap TextPair ProviderRecordS2) :=
  if providers.isEmpty then .ok .empty
  else match root with
    | none => .error "providers.json is missing"
    | some (.s1 _) => .error
      "non-empty legacy Provider S1 store must be migrated to encrypted S2 before SQLite shadow import"
    | some (.s2 _ records) => .ok (records.entries.foldl (fun output row => output.insert row.1 row.2.2) .empty)

/-- `encrypted_account_payloads` -/
def encryptedAccountPayloads (root : Option AccountStore) (accounts : List Account) :
    Except String (OrderedMap TextPair Account) :=
  if accounts.isEmpty then .ok .empty
  else match root with
    | none => .error "accounts.json entries are missing"
    | some document => document.accounts.foldlM (fun output payload => do
        ensure (output.get? payload.key).isNone "duplicate Account source key"
        return output.insert payload.key payload) .empty

/-- `share_payloads` -/
def sharePayloads (root : Option ShareStore) (shares : List Share) : Except String (OrderedMap String Share) :=
  if shares.isEmpty then .ok .empty
  else match root with
    | none => .error "shares.json entries are missing"
    | some document => document.shares.foldlM (fun output payload => do
        ensure (output.get? payload.id).isNone "duplicate Share source key"
        return output.insert payload.id payload) .empty

end CcSwitchServer.Repository
