import CcSwitchServer.Sharing.MarketTrials
import CcSwitchServer.Sharing.UsageRebase

/-! # Managed grants (`src/domain/sharing/shares.rs`, `market_trials.rs`)

A Share Market gives and takes access through managed operations. The clock stands still during one.
-/

namespace CcSwitchServer.Sharing
open Foundations ValuePricing Text

def maxManagedGrantDurationSeconds : ℕ := 365 * 24 * 60 * 60
def maxTrialTokenAllowance : ℕ := 9007199254740991

/-! ## Addresses -/

def invalidEmail : SharePatchError := .invalid "ownerEmail format is invalid"

/-- An address is compared in lower case. -/
def normalizeVerifiedEmail (email : String) : Except SharePatchError String := do
  let email := asciiLower (trim email)
  ensure (email ≠ "" ∧ email.utf8ByteSize ≤ 254 ∧ email.toList.all (fun c => ¬isWhiteSpace c) ∧
    email.toList.count '@' = 1) invalidEmail
  let (user, domain) ← context (splitOnce '@' email.toList) invalidEmail
  ensure (user ≠ [] ∧ domain ≠ [] ∧ '.' ∈ domain ∧ domain.head? ≠ some '.' ∧ domain.getLast? ≠ some '.') invalidEmail
  pure email

theorem normalizeVerifiedEmail_ok {email k : String} (h : normalizeVerifiedEmail email = .ok k) :
    k = asciiLower (trim email) := by
  unfold normalizeVerifiedEmail at h
  obtain ⟨_, -, h⟩ := bind_eq_ok.mp h
  obtain ⟨_, -, h⟩ := bind_eq_ok.mp h
  obtain ⟨_, -, h⟩ := bind_eq_ok.mp h
  exact (pure_eq_ok.mp h).symm

theorem ne_empty_of_verified {email k : String} (h : normalizeVerifiedEmail email = .ok k) : k ≠ "" := by
  have hk := normalizeVerifiedEmail_ok h
  unfold normalizeVerifiedEmail at h
  obtain ⟨_, hne, -⟩ := bind_eq_ok.mp h
  rw [ensure_eq_ok] at hne
  rw [hk]
  exact hne.1

theorem asciiLower_of_verified {email k : String} (h : normalizeVerifiedEmail email = .ok k) : asciiLower k = k := by
  rw [normalizeVerifiedEmail_ok h, asciiLower_asciiLower]

theorem eqIgnoreAsciiCase_iff {a b : String} (ha : asciiLower a = a) (hb : asciiLower b = b) :
    eqIgnoreAsciiCase a b = true ↔ a = b := by
  rw [eqIgnoreAsciiCase, ha, hb, beq_iff_eq]

/-! ## The shape of an operation -/

variable (operation : ShareManagedGrantOperation)

/-- Only a revoke carries a fence. -/
def validateTermination : Except SharePatchError Unit :=
  match operation.termination with
  | none => pure ()
  | some t =>
    ensure (operation.action = .revoke ∧ t.terminationId ≠ "" ∧ t.terminationId.utf8ByteSize ≤ 128 ∧
      0 ≤ t.periodStartMs ∧ t.periodStartMs ≤ t.cutoffAtMs ∧ t.cutoffAtMs ≤ t.periodEndMs)
      (.invalid "invalid Market termination fence")

def parseTrialMicros (raw : String) : Option ℕ :=
  match unsignedDecimal raw with
  | .ok micros => if 1 ≤ micros ∧ micros ≤ maxLimitMicros then some micros else none
  | .error _ => none

/-- The static shape of a one-time trial budget in USD. -/
def validateManagedValueTrial : Except SharePatchError Unit :=
  match operation.trialValueAllowanceUsdMicros, operation.trialValueLimitUsdMicros with
  | none, none => pure ()
  | some allowance, some limit => do
    ensure (operation.trialTokenAllowance = none ∧ operation.trialTokenLimit = none)
      (.invalid "a market trial budget uses one unit: Token or USD-equivalent, not both")
    ensure (operation.marketPhase ≠ none) (.invalid "USD trial budget requires a market phase")
    ensure (operation.policy.any fun policy => policy.valueQuota ≠ none)
      (.invalid "USD trial budget requires a USD-equivalent seat quota (valueQuota)")
    match parseTrialMicros allowance, parseTrialMicros limit with
    | some allowance, some limit =>
      ensure (limit ≤ allowance) (.invalid "invalid one-time market USD trial budget")
    | _, _ => .error (.invalid "invalid one-time market USD trial budget")
  | _, _ => .error (.invalid "USD trial allowance and limit must be provided together")

def validateDuration (policy : ShareUserPolicy) : Option ℕ → Except SharePatchError Unit
  | none => pure ()
  | some durationSeconds => do
    ensure (1 ≤ durationSeconds ∧ durationSeconds ≤ maxManagedGrantDurationSeconds)
      (.invalid s!"managed grant durationSeconds must be between 1 and {maxManagedGrantDurationSeconds}")
    ensure (policy.expiresAt = none ∧ policy.tokenPeriodAnchorAtMs = none)
      (.invalid "relative managed grants must not provide an absolute expiry or token-period anchor")

def validateManagedGrantOperation : Except SharePatchError Unit := do
  validateTermination operation
  ensure (trim operation.operationId ≠ "" ∧ operation.operationId.utf8ByteSize ≤ 128)
    (.invalid "managed grant operationId must contain 1-128 characters")
  ensure (trim operation.entitlementId ≠ "" ∧ operation.entitlementId.utf8ByteSize ≤ 128)
    (.invalid "managed grant entitlementId must contain 1-128 characters")
  ensure (1 ≤ operation.shareSequence) (.invalid "managed grant shareSequence must be positive")
  match operation.action with
  | .upsert => do
    let policy ← context operation.policy (.invalid "managed grant upsert requires policy")
    validateDuration policy operation.durationSeconds
    validateManagedValueTrial operation
  | .revoke =>
    ensure (operation.policy = none ∧ operation.durationSeconds = none ∧ operation.marketPhase = none ∧
      operation.trialTokenLimit = none ∧ operation.trialScopeId = none ∧
      operation.trialTokenAllowance = none ∧ operation.trialValueAllowanceUsdMicros = none ∧
      operation.trialValueLimitUsdMicros = none)
      (.invalid "managed grant revoke must not include policy or durationSeconds")

/-! ## Phases of an entitlement -/

namespace Share

def validateTransition (share : Share) (id email : String) (phase : ShareMarketPhase)
    (tokenLimit : Option ℕ) : Except SharePatchError Unit := do
  ensure (tokenLimit ≠ some 0 ∧ ¬(phase = .paid ∧ tokenLimit ≠ none))
    (.invalid "trial Token cap must be positive or unlimited, and belongs only to the trial phase")
  ensure ((share.marketEntitlements.get? id).all fun existing =>
    eqIgnoreAsciiCase existing.email email ∧ ¬(existing.phase = .paid ∧ phase = .trial) ∧
      ¬(phase = .trial ∧ existing.trialTokenLimit ≠ tokenLimit))
    (.invalid "market entitlement phase or budget cannot be reset")

def validateValueTransition (share : Share) (id : String) (phase : ShareMarketPhase)
    (valueLimit : Option String) : Except SharePatchError Unit := do
  ensure (¬(phase = .paid ∧ valueLimit ≠ none)) (.invalid "a USD trial budget belongs only to the trial phase")
  ensure (phase = .trial → (share.marketEntitlements.get? id).all fun existing =>
    existing.trialValueLimitUsdMicros = valueLimit)
    (.invalid "market entitlement phase or budget cannot be reset")

def validatePhase (share : Share) (operation : ShareManagedGrantOperation) (email : String)
    (phase : ShareMarketPhase) : Except SharePatchError Unit := do
  share.validateTransition operation.entitlementId email phase operation.trialTokenLimit
  share.validateValueTransition operation.entitlementId phase operation.trialValueLimitUsdMicros
  let scope ← context (operation.trialScopeId.filter fun id => id ≠ "" ∧ id.utf8ByteSize ≤ 128)
    (.invalid "market phase requires a trial scope identity")
  ensure (operation.trialTokenLimit.isSome = operation.trialTokenAllowance.isSome ∧
    ∀ budget ∈ operation.trialTokenLimit, ∀ allowance ∈ operation.trialTokenAllowance,
      budget ≤ allowance ∧ allowance ≤ maxTrialTokenAllowance)
    (.invalid "invalid one-time market trial budget")
  ensure ((share.marketEntitlements.get? operation.entitlementId).all fun e =>
    e.trialScopeId = scope ∧ (phase = .trial → e.trialTokenAllowance = operation.trialTokenAllowance ∧
      e.trialValueAllowanceUsdMicros = operation.trialValueAllowanceUsdMicros))
    (.invalid "market trial scope or allowance cannot be changed")
  ensure (share.marketEntitlements.values.all fun e =>
    e.trialScopeId = scope → eqIgnoreAsciiCase e.email email)
    (.invalid "market trial scope is assigned to another user")

/-- The phase of an upsert: a versioned entitlement cannot lose it. -/
def checkPhase (share : Share) (operation : ShareManagedGrantOperation) (email : String) :
    Except SharePatchError Unit :=
  match operation.marketPhase with
  | none => do
    ensure (share.marketEntitlements.get? operation.entitlementId = none)
      (.invalid "market phase cannot be removed from a versioned entitlement")
    ensure (operation.trialTokenLimit = none) (.invalid "trial Token cap requires a market phase")
  | some phase => share.validatePhase operation email phase

end Share

/-! ## The policy of an upsert -/

def clockI64 (now : ℕ) : ℤ := min now i64Max

/-- A duration counts from the time of the operation. -/
def relativeExpiry (now : ℕ) (policy : ShareUserPolicy) : Option ℕ → Except SharePatchError ShareUserPolicy
  | none => pure policy
  | some durationSeconds => do
    ensure ((durationSeconds : ℤ) * 1000 ≤ i64Max) (.invalid "managed grant durationSeconds is too large")
    ensure (clockI64 now + durationSeconds * 1000 ≤ i64Max)
      (.invalid "managed grant absolute expiry is outside the supported range")
    pure { policy with expiresAt := some (clockI64 now + durationSeconds * 1000) }

def defaultAnchor (now : ℕ) (policy : ShareUserPolicy) : ShareUserPolicy :=
  if policy.tokenPeriod.requiresAnchor ∧ policy.tokenPeriodAnchorAtMs = none then
    { policy with tokenPeriodAnchorAtMs := some (clockI64 now / 60000 * 60000) }
  else policy

def positiveLimits (policy : ShareUserPolicy) : Except SharePatchError Unit :=
  ensure (policy.parallelLimit ≠ some 0 ∧ policy.tokenLimit ≠ some 0)
    (.invalid "user limits must be positive or unlimited")

def effectivePolicy (now : ℕ) (policy : ShareUserPolicy) (durationSeconds : Option ℕ) :
    Except SharePatchError ShareUserPolicy := do
  positiveLimits policy
  let policy ← relativeExpiry now policy durationSeconds
  let policy := defaultAnchor now policy
  liftPeriod (validateUserPolicy policy (clockI64 now))
  ensure (policy.tokenPeriod ≠ .accountReset) (.invalid "market contracts cannot use accountReset")
  pure policy

/-! ## Applying an operation -/

def nextRevision (revision : ℕ) : ℕ := max (saturatingAdd revision 1) 1

namespace Share

variable (share : Share)

/-- Neither the entitlement nor the user is taken by another grant. -/
def checkAssignment (entitlementId email : String) : Except SharePatchError Unit := do
  ensure (share.userGrants.values.all fun grant =>
    grant.active → grant.entitlementId = some entitlementId → eqIgnoreAsciiCase grant.email email)
    (.invalid "market entitlement is already assigned to another user")
  ensure (((share.userGrants.get? email).filter (·.active)).all fun existing =>
    existing.manager = .routerShareMarket ∧ existing.entitlementId = some entitlementId)
    (.invalid "user already has Share access outside this market entitlement")

/-- The entitlement after an upsert in `phase`. -/
def phasedEntitlement (now : ℕ) (operation : ShareManagedGrantOperation)
    (email : String) (phase : ShareMarketPhase) : ShareMarketEntitlement :=
  let state := (share.marketEntitlements.get? operation.entitlementId).getD
    { trialScopeId := operation.trialScopeId.getD ""
      trialTokenAllowance := operation.trialTokenAllowance
      email := email
      phase := phase
      active := true
      trialTokenLimit := operation.trialTokenLimit
      trialTokensUsed := 0
      usageRevision := 0
      usageUncertain := false
      appliedAtMs := clockI64 now
      paidStartedAtMs := none
      trialValueAllowanceUsdMicros := operation.trialValueAllowanceUsdMicros
      trialValueLimitUsdMicros := operation.trialValueLimitUsdMicros
      trialValueUsedPicos := "0" }
  { state with
    appliedAtMs := if state.phase ≠ phase then clockI64 now else state.appliedAtMs
    phase := phase
    active := true
    paidStartedAtMs :=
      if phase = .paid ∧ state.paidStartedAtMs = none then some (clockI64 now)
      else state.paidStartedAtMs }

/-- With a phase the state of the entitlement is kept. -/
def enterPhase (now : ℕ) (operation : ShareManagedGrantOperation) (email : String) : Share :=
  match operation.marketPhase with
  | none => share
  | some phase =>
    { share with
      marketEntitlements := share.marketEntitlements.insert operation.entitlementId
        (share.phasedEntitlement now operation email phase) }

/-- The grant of an upsert; usage and creation time of an earlier grant stay. -/
def managedGrant (now : ℕ) (previous : Option ShareUserGrant) (email entitlementId : String)
    (policy : ShareUserPolicy) : ShareUserGrant where
  email := email
  role := "shareto"
  active := true
  policy := policy
  usage := (previous.map fun g => g.usage).getD {}
  usageRebase := previous.bind fun g => g.usageRebase
  createdAtMs := ((previous.map fun g => g.createdAtMs).filter fun t => 0 < t).getD now
  updatedAtMs := now
  revokedAtMs := none
  revision := (previous.map fun g => nextRevision g.revision).getD 1
  manager := .routerShareMarket
  entitlementId := some entitlementId

/-- The user gets a grant that names the entitlement. -/
def upsertManagedGrant (now : ℕ) (share : Share) (operation : ShareManagedGrantOperation)
    (email : String) : Except SharePatchError Share := do
  let policy ← context operation.policy (.invalid "managed grant upsert requires policy")
  share.checkPhase operation email
  let policy ← effectivePolicy now policy operation.durationSeconds
  share.checkAssignment operation.entitlementId email
  let grant := managedGrant now (share.userGrants.get? email) email operation.entitlementId policy
  let share := share.enterPhase now operation email
  pure ({ share with userGrants := share.userGrants.insert email grant }.project now)

/-- A fence waits for its receipt. -/
def pendAck (operation : ShareManagedGrantOperation) : Share :=
  match operation.termination with
  | none => share
  | some fence =>
    { share with
      pendingMarketTerminationAcks :=
        share.pendingMarketTerminationAcks.insert operation.operationId fence.terminationId }

def endEntitlement (id : String) : Share :=
  match share.marketEntitlements.get? id with
  | none => share
  | some state =>
    { share with marketEntitlements := share.marketEntitlements.insert id { state with active := false } }

/-- The grant that a revoke of the entitlement finds, in the order of addresses, active or not. -/
def carrier (entitlementId : String) : Option (String × ShareUserGrant) :=
  share.userGrants.entries.find? fun e =>
    e.2.manager = .routerShareMarket ∧ e.2.entitlementId = some entitlementId

/-- The grant of the entitlement becomes inactive and stays in the map. -/
def revokeManagedGrant (now : ℕ) (share : Share) (operation : ShareManagedGrantOperation)
    (email : String) : Except SharePatchError Share := do
  let share := (share.pendAck operation).endEntitlement operation.entitlementId
  match share.carrier operation.entitlementId with
  | none => pure share
  | some (grantEmail, grant) => do
    ensure (eqIgnoreAsciiCase grant.email email)
      (.invalid "managed grant revoke email does not match the entitlement owner")
    pure { share with
      userGrants := share.userGrants.insert grantEmail
        { grant with
          active := false
          updatedAtMs := now
          revokedAtMs := some now
          revision := nextRevision grant.revision } }

def applyManagedGrantOperation (now : ℕ) (share : Share) (operation : ShareManagedGrantOperation) :
    Except SharePatchError Share := do
  let email ← normalizeVerifiedEmail operation.email
  ensure (¬share.ownerEmail.any fun owner => eqIgnoreAsciiCase owner email)
    (.invalid "share owner cannot receive a market entitlement")
  match operation.action with
  | .upsert => share.upsertManagedGrant now operation email
  | .revoke => share.revokeManagedGrant now operation email

end Share

end CcSwitchServer.Sharing
