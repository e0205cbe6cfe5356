import CcSwitchServer.Sharing.GrantEdits

/-! # Settings patches (`ShareStore::apply_settings_patch` in `src/domain/sharing/shares.rs`)

All of a patch is computed on a copy of the share, which is stored in the end.
-/

namespace CcSwitchServer.Sharing
open Foundations QuotaCycle

/-! ## Patches -/

structure ShareSupport where
  claude : Bool
  codex : Bool
  gemini : Bool
deriving DecidableEq, Repr

structure ShareSettingsEditContext where
  operationId : String
  expectedConfigRevision : ℕ
  actor : Option String := none
deriving DecidableEq, Repr

structure ShareUserValueUsageInitialization where
  targetPicos : String
  windowId : String
  reason : String
deriving DecidableEq, Repr

/-- `description = some none` clears the description. -/
structure ShareSettingsPatch where
  expectedAccountCycle : Option AccountQuotaCycle := none
  ownerEmail : Option String := none
  description : Option (Option String) := none
  freeAccess : Option Bool := none
  tokenLimit : Option ℤ := none
  parallelLimit : Option ℤ := none
  expiresAt : Option String := none
  autoStart : Option Bool := none
  allowPersonalCredits : Option Bool := none
  autoConsumeBankedReset : Option Bool := none
  bankedResetExpiryLeadMinutes : Option ℕ := none
  previousResponseCacheEnabled : Option Bool := none
  grokMediaPolicy : Option GrokMediaPolicy := none
  support : Option ShareSupport := none
  userGrants : Option UserGrants := none
  userUsageEdits : Option (OrderedMap String ShareUserUsageEdit) := none
  userValueUsageInitializations : Option (OrderedMap String ShareUserValueUsageInitialization) := none
  userGrantEdits : Option (OrderedMap String ShareUserGrantEdit) := none
  editContext : Option ShareSettingsEditContext := none
  managedGrant : Option ShareManagedGrantOperation := none

/-- The parser of RFC 3339 times, the JSON text of an operation and the digest of a patch. -/
structure Externals where
  parseRfc3339 : String → Option ℤ
  operationText : String → ShareManagedGrantOperation → String
  settingsFingerprint : String → ShareSettingsPatch → String

variable (ext : Externals)

/-! ## Settings -/

def parseI64 (value : String) : Option ℤ :=
  let digits (cs : List Char) : Option ℕ :=
    if cs ≠ [] ∧ cs.all Text.isAsciiDigit then some (ValuePricing.digitsValue cs) else none
  let number :=
    match value.toList with
    | '-' :: cs => (digits cs).map fun n => -(n : ℤ)
    | '+' :: cs => (digits cs).map fun n => (n : ℤ)
    | cs => (digits cs).map fun n => (n : ℤ)
  number.filter fun n => InI64 n

def parseShareExpiration (value : String) : Except SharePatchError (Option ℤ) :=
  let value := Text.trim value
  if value = "" then pure none
  else
    match parseI64 value with
    | some timestamp => pure (some timestamp)
    | none => do
      let timestamp ← context (ext.parseRfc3339 value)
        (.invalid "expiresAt must be a timestamp or RFC3339")
      pure (some timestamp)

variable (share : ShareRecord)

def checkOwnerEmail : Option String → Except SharePatchError Unit
  | none => pure ()
  | some ownerEmail => do
    let ownerEmail := Text.asciiLower (Text.trim ownerEmail)
    ensure (ownerEmail ≠ "") (.invalid "ownerEmail is empty")
    ensure (share.ownerEmail.any fun current => Text.eqIgnoreAsciiCase current ownerEmail)
      (.invalid "share owner is managed by the client owner")

def patchedDescription : Option (Option String) → Option String
  | none => share.description
  | some description => (description.map Text.trim).filter fun value => value ≠ ""

def patchedPolicy (policy : SharePolicy) (patch : ShareSettingsPatch) : Except SharePatchError SharePolicy := do
  let expiresAt ← patch.expiresAt.elim (pure policy.expiresAt) (parseShareExpiration ext)
  let leadMinutes ← patch.bankedResetExpiryLeadMinutes.elim (pure policy.bankedResetExpiryLeadMinutes)
    fun minutes => do
      ensureLeadMinutes minutes
      pure minutes
  pure
    { tokenLimit := patch.tokenLimit.elim policy.tokenLimit fun limit =>
        if 0 ≤ limit then some limit.toNat else none
      parallelLimit := patch.parallelLimit.elim policy.parallelLimit fun limit =>
        if 0 ≤ limit then some (limit.toNat % 2 ^ 32) else none
      expiresAt := expiresAt
      freeAccess := patch.freeAccess.getD policy.freeAccess
      allowPersonalCredits := patch.allowPersonalCredits.getD policy.allowPersonalCredits
      autoConsumeBankedReset := patch.autoConsumeBankedReset.getD policy.autoConsumeBankedReset
      bankedResetExpiryLeadMinutes := leadMinutes
      previousResponseCacheEnabled := patch.previousResponseCacheEnabled.getD policy.previousResponseCacheEnabled
      grokMediaPolicy := patch.grokMediaPolicy.getD policy.grokMediaPolicy }

/-- Whole maps and single edits exclude each other. -/
def patchedGrants (now : ℕ) (share : Share) (patch : ShareSettingsPatch) : Except SharePatchError UserGrants := do
  ensure (¬(patch.userGrantEdits.isSome ∧ patch.userGrants.isSome))
    (.invalid "cannot mix userGrants and userGrantEdits")
  match patch.userGrantEdits, patch.userGrants with
  | some edits, _ => applyUserGrantEdits now share edits
  | none, some grants => normalizeUserGrants now grants share.userGrants share.ownerEmail
  | none, none => pure share.userGrants

def shareBoundApps : Finset AppKind :=
  if share.bindings = [] then {share.app} else (share.bindings.map ShareBinding.app).toFinset

def supportedApps (support : ShareSupport) : Finset AppKind :=
  (if support.claude then {.claude} else ∅) ∪ (if support.codex then {.codex} else ∅) ∪
    if support.gemini then {.gemini} else ∅

def enabledAppsFromSupport (support : ShareSupport) (bound : Finset AppKind) :
    Except SharePatchError (Finset AppKind) := do
  let enabled := supportedApps support
  match [AppKind.claude, .codex, .gemini].find? fun app => app ∈ enabled ∧ app ∉ bound with
  | some app => .error (.invalid ("support contains unbound app " ++ app.asStr))
  | none => do
    ensure (enabled ≠ ∅) (.invalid "at least one bound app API must stay enabled")
    pure enabled

def patchedApps : Option ShareSupport → Except SharePatchError (Option (Finset AppKind))
  | none => pure share.enabledApps
  | some support => do
    let enabled ← enabledAppsFromSupport support (shareBoundApps share)
    pure (if enabled = shareBoundApps share then none else some enabled)

/-! ## The share after a patch -/

namespace ShareRecord

def patched (now : ℕ) (share : ShareRecord) (patch : ShareSettingsPatch) : Except SharePatchError ShareRecord := do
  checkOwnerEmail share patch.ownerEmail
  let policy ← patchedPolicy ext share.policy patch
  let userGrants ← patchedGrants now share.toShare patch
  let enabledApps ← patchedApps share patch.support
  pure { share with
    description := patchedDescription share patch.description
    policy := policy
    userGrants := userGrants
    autoStart := patch.autoStart.getD share.autoStart
    enabledApps := enabledApps }

def applyManaged (now : ℕ) (share : ShareRecord) :
    Option ShareManagedGrantOperation → Except SharePatchError ShareRecord
  | none => pure share
  | some operation => do
    let managed ← share.toShare.applyManagedGrantOperation now operation
    pure { share with toShare := managed }

/-- The patch, then its managed operation, under a new revision. -/
def revised (now : ℕ) (share : ShareRecord) (patch : ShareSettingsPatch) : Except SharePatchError ShareRecord := do
  let share ← share.patched ext now patch
  validateShareImport share
  let share ← (reconcileUserGrants now share).applyManaged now patch.managedGrant
  validateShareImport share
  pure (markShareConfigPending share)

end ShareRecord

/-! ## The store after a patch -/

def replaceShare (shareId : String) (share : ShareRecord) : List ShareRecord → List ShareRecord
  | [] => []
  | item :: rest => if item.id = shareId then share :: rest else item :: replaceShare shareId share rest

def managedGrantResult (share : ShareRecord) (operation : ShareManagedGrantOperation) : Option (ℤ × ShareUserPolicy) :=
  if operation.action = .upsert then
    (share.userGrants.values.find? fun grant =>
      grant.active ∧ grant.entitlementId = some operation.entitlementId).map fun grant =>
        (clockI64 grant.updatedAtMs, grant.policy)
  else none

namespace ShareStore

/-- Whether the managed operation of the patch took effect before. -/
def replayed (store : ShareStore) (shareId : String) (share : ShareRecord) :
    Option ShareManagedGrantOperation → Except SharePatchError Bool
  | none => pure false
  | some operation => do
    validateManagedGrantOperation operation
    match store.appliedRouterControlOperations.get? operation.operationId with
    | some applied => do
      ensure (applied.fingerprint = ext.operationText shareId operation)
        (.invalid "managed grant operationId was reused with a different payload")
      pure true
    | none => do
      ensure (operation.expectedConfigRevision = share.configRevision)
        (.revisionConflict operation.expectedConfigRevision share.configRevision)
      pure false

/-- Receipts of older operations for the same share are dropped. -/
def recordManaged (now : ℕ) (store : ShareStore) (shareId : String) (share : ShareRecord) :
    Option ShareManagedGrantOperation → ShareStore
  | none => store
  | some operation =>
    let result := managedGrantResult share operation
    { store with
      appliedRouterControlOperations :=
        (store.appliedRouterControlOperations.filter fun e =>
          e.2.shareId = "" ∨ e.2.shareId ≠ shareId ∨ operation.shareSequence ≤ e.2.shareSequence).insert
            operation.operationId
            { appliedAtMs := now
              fingerprint := ext.operationText shareId operation
              shareId := shareId
              shareSequence := operation.shareSequence
              resultAppliedAtMs := result.map Prod.fst
              resultEffectivePolicy := result.map Prod.snd } }

/-- A managed operation leaves a receipt, which answers when it comes again. -/
def applySettingsPatch (now : ℕ) (store : ShareStore) (shareId : String) (patch : ShareSettingsPatch) :
    Except SharePatchError (ShareRecord × ShareStore) := do
  let share ← context (store.get shareId) .notFound
  if ← store.replayed ext shareId share patch.managedGrant then pure (share, store)
  else do
    let revised ← share.revised ext now patch
    let store := { store with shares := replaceShare shareId revised store.shares }
    pure (revised, store.recordManaged ext now shareId revised patch.managedGrant)

end ShareStore

end CcSwitchServer.Sharing
