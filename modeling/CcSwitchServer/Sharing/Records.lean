import CcSwitchServer.Foundations.Json
import CcSwitchServer.Sharing.ManagedGrants

/-! # Stored shares (`src/domain/sharing/shares.rs`, `invariants.rs`, `retired_fields.rs`)

The display fields and those of the descriptor synchronisation are left out.
-/

namespace CcSwitchServer.Sharing
open Foundations QuotaCycle

/-! ## Fields -/

inductive ProviderType
  | claude | claudeAuth | claudeOAuth | codex | codexOAuth | gemini | geminiCli | openRouter
  | gitHubCopilot | deepSeekAccount | kiroOAuth | amazonQOAuth | kimiCode | qoderCosy | codeBuddyOAuth
  | workBuddyOAuth | traeSolo | traeRaw | traeIntl | cursorOAuth | cursorApiKey | antigravityOAuth
  | agyOAuth | ollamaCloud | awsBedrock | nvidia | deepSeekApi | grokOAuth
deriving DecidableEq, Repr

namespace AppKind

def asStr : AppKind → String
  | .claude => "claude"
  | .codex => "codex"
  | .gemini => "gemini"

end AppKind

structure ShareBinding where
  app : AppKind
  providerId : String
  providerType : ProviderType
deriving DecidableEq, Repr

structure ShareBindingHistory where
  app : AppKind
  previousProviderId : Option String
  nextProviderId : Option String
  changeKind : Option String
  changedAtMs : ℕ
deriving DecidableEq, Repr

structure GrokMediaPolicy where
  imageGenerationEnabled : Bool := false
  imageEditEnabled : Bool := false
  videoGenerationEnabled : Bool := false
deriving DecidableEq, Repr

structure SharePolicy where
  tokenLimit : Option ℕ := none
  parallelLimit : Option ℕ := none
  expiresAt : Option ℤ := none
  freeAccess : Bool := false
  allowPersonalCredits : Bool := false
  autoConsumeBankedReset : Bool := false
  bankedResetExpiryLeadMinutes : ℕ := 60
  previousResponseCacheEnabled : Bool := true
  grokMediaPolicy : GrokMediaPolicy := {}
deriving DecidableEq, Repr

structure ShareIntegrityError where
  code : String
  message : String
  checkedAtMs : ℕ
deriving DecidableEq, Repr

structure ShareRecord extends Share where
  capacityPoolId : String := ""
  app : AppKind
  providerId : String
  providerType : ProviderType
  enabled : Bool := false
  status : String := "active"
  tunnelSubdomain : Option String := none
  policy : SharePolicy := {}
  tokensUsed : ℕ := 0
  requestsCount : ℕ := 0
  createdAtMs : ℕ := 0
  autoStart : Bool := false
  description : Option String := none
  enabledApps : Option (Finset AppKind) := none
  bindings : List ShareBinding := []
  bindingHistory : List ShareBindingHistory := []
  runtimeSnapshot : Option Json := none
  lastError : Option String := none
  integrityError : Option ShareIntegrityError := none
  routerLastSyncError : Option String := none

/-! ## Operations on record -/

structure AppliedRouterControlOperation where
  appliedAtMs : ℕ
  fingerprint : String
  shareId : String := ""
  shareSequence : ℤ := 0
  resultAppliedAtMs : Option ℤ := none
  resultEffectivePolicy : Option ShareUserPolicy := none
deriving DecidableEq, Repr

structure ShareSettingsReceipt where
  operationId : String
  patchFingerprint : String
  configRevision : ℕ
deriving DecidableEq, Repr

structure ShareDeleteTombstone where
  shareId : String
  operationId : String
  createdAtMs : ℕ
  routerApiBase : Option String := none
  installationId : Option String := none
deriving DecidableEq, Repr

/-- All shares, with a receipt for every operation that took effect. -/
structure ShareStore where
  quotaCycleLedger : QuotaCycleLedger
  quotaCycleSources : OrderedMap String String := .empty
  shares : List ShareRecord := []
  pendingRouterDeletes : List ShareDeleteTombstone := []
  appliedRouterControlOperations : OrderedMap String AppliedRouterControlOperation := .empty
  appliedSettingsOperations : OrderedMap String ShareSettingsReceipt := .empty

def ShareStore.get (store : ShareStore) (shareId : String) : Option ShareRecord :=
  store.shares.find? fun item => item.id = shareId

/-! ## Retired fields -/

def retiredShareFields : List String :=
  ["acl", "forSale", "for_sale", "officialPricePercent", "official_price_percent",
    "forSaleOfficialPricePercentByApp", "for_sale_official_price_percent_by_app", "sharedWithEmails",
    "shared_with_emails", "marketAccessMode", "market_access_mode", "accessByApp", "access_by_app",
    "appSettings", "app_settings", "publicMarketEmail", "public_market_email", "marketEmail",
    "market_email", "marketSubdomain", "market_subdomain", "marketUrl", "market_url", "marketId",
    "market_id", "saleMarketKind", "sale_market_kind"]

def formatJsonPath (path : List String) : String :=
  path.foldl (fun formatted segment =>
    if segment.startsWith "[" then formatted ++ segment
    else if formatted = "" then segment
    else formatted ++ "." ++ segment) ""

mutual

def walkRetired (path : List String) : Json → Option String
  | .object members => walkRetiredMembers path members
  | .array values => walkRetiredValues path 0 values
  | _ => none

def walkRetiredMembers (path : List String) : List (String × Json) → Option String
  | [] => none
  | (key, child) :: rest =>
    if key ∈ retiredShareFields then some (formatJsonPath (path ++ [key]))
    else
      match walkRetired (path ++ [key]) child with
      | some found => some found
      | none => walkRetiredMembers path rest

def walkRetiredValues (path : List String) (index : ℕ) : List Json → Option String
  | [] => none
  | child :: rest =>
    match walkRetired (path ++ [s!"[{index}]"]) child with
    | some found => some found
    | none => walkRetiredValues path (index + 1) rest

end

/-- The path of the first field that is no longer in use. -/
def findRetiredShareField (value : Json) : Option String := walkRetired [] value

def rejectRetiredRuntimeSnapshot (snapshot : Option Json) : Except SharePatchError Unit :=
  match snapshot.bind findRetiredShareField with
  | none => pure ()
  | some field =>
    .error (.invalid ("retired Share field `" ++ field ++ "` is not accepted; use freeAccess/userGrants"))

/-! ## Bindings and what a stored share meets -/

/-- The first fault that the loop over the bindings meets; `apps` are the apps before. -/
def validateEachBinding (apps : List AppKind) : List ShareBinding → Except SharePatchError Unit
  | [] => pure ()
  | binding :: rest => do
    ensure (binding.app ∉ apps) (.invalid "share must have at most one binding per app")
    ensure (Text.trim binding.providerId ≠ "") (.invalid "share binding provider_id is required")
    validateEachBinding (binding.app :: apps) rest

/-- One to three bindings, each checked against those before it. -/
def validateBindings (bindings : List ShareBinding) : Except SharePatchError Unit := do
  ensure (1 ≤ bindings.length ∧ bindings.length ≤ 3) (.invalid "share must have between one and three bindings")
  validateEachBinding [] bindings

def minBankedResetExpiryLeadMinutes : ℕ := 10
def maxBankedResetExpiryLeadMinutes : ℕ := 7 * 24 * 60

def ensureLeadMinutes (minutes : ℕ) : Except SharePatchError Unit :=
  ensure (minBankedResetExpiryLeadMinutes ≤ minutes ∧ minutes ≤ maxBankedResetExpiryLeadMinutes)
    (.invalid s!"bankedResetExpiryLeadMinutes must be between {minBankedResetExpiryLeadMinutes} and {maxBankedResetExpiryLeadMinutes}")

def primaryMismatch : SharePatchError := .invalid "share primary fields must match the binding selected by share.app"

def validateShareImport (share : ShareRecord) : Except SharePatchError Unit := do
  rejectRetiredRuntimeSnapshot share.runtimeSnapshot
  validateBindings share.bindings
  let binding ← context (share.bindings.find? fun binding => binding.app = share.app)
    (.invalid "share.app must identify one of the bindings")
  ensure (binding.providerId = share.providerId ∧ binding.providerType = share.providerType) primaryMismatch
  ensureLeadMinutes share.policy.bankedResetExpiryLeadMinutes

def markShareConfigPending (share : ShareRecord) : ShareRecord :=
  { share with
    configRevision := nextRevision share.configRevision
    routerLastSyncError := none }

end CcSwitchServer.Sharing
