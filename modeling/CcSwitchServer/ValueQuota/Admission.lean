import CcSwitchServer.ValueQuota.Status

/-! # Admission (`admit_with_trial_in_tx`, `trial_available_in_tx`, `value_quota/tariff.rs`)

An admission prices a bounded reservation and inserts the pending attempt.
-/

namespace CcSwitchServer.ValueQuota
open Foundations ValuePricing Std

structure Admission where
  enforce : Bool
  scope : Scope
  window : Window
  policyEpoch : String
  quota : ValueQuota
  pricingRevision : String
  requestId : String
  attemptId : String
  effectiveModel : String
  effectiveTier : String
  startedAtMs : ℤ
  estimate : RiskEstimate
  parallelLimit : ℕ
  deriving DecidableEq, Repr

/-- A one-time cap on a trial seat. The mirrored amounts are decimal texts. -/
structure MarketTrialBudget where
  scopeId : String
  entitlementId : String
  allowanceMicros : String
  limitMicros : String
  scopeUsedPicos : String
  usedPicos : String
  deriving DecidableEq, Repr

/-! ## Tariffs -/

namespace Db

variable (db : Db)

variable (scope : Scope)

def readPending : Option PendingTariff :=
  db.pendingTariffs.find? (scope.routerUrl, scope.installationId)

def activeRevision : Option String :=
  (db.activeTariffs.find? (scope.routerUrl, scope.installationId)).map ActiveTariff.revision

/-- Make a scheduled tariff the active one once its time has come. -/
def activateDueInTx (now : ℤ) : Except QuotaError (Db × Option String) :=
  match (db.readPending scope).filter fun p => p.effectiveFromMs ≤ now with
  | none => pure (db, db.activeRevision scope)
  | some pending => do
    let _ ← db.cachedSnapshot scope.routerUrl scope.installationId pending.revision
    let db := { db with
      activeTariffs := db.activeTariffs.upsert ⟨scope.routerUrl, scope.installationId, pending.revision⟩
      pendingTariffs := db.pendingTariffs.erase (scope.routerUrl, scope.installationId) }
    pure (db, db.activeRevision scope)

def scheduleTariff (revision : String) (effectiveFromMs now : ℤ) :
    Except QuotaError (Db × Option String) := do
  let _ ← db.cachedSnapshot scope.routerUrl scope.installationId revision
  let db := { db with
    pendingTariffs := db.pendingTariffs.upsert ⟨scope.routerUrl, scope.installationId, revision, effectiveFromMs⟩ }
  db.activateDueInTx scope now

/-- A replay keeps the revision that its first admission froze. -/
def admissionRevision (a : Admission) (now : ℤ) : Except QuotaError (Db × String) := do
  let (db, active) ← db.activateDueInTx a.scope now
  let existing := (db.attempt? a.requestId a.attemptId).map AttemptRow.pricingRevision
  let revision ← context (existing.or active) .snapshotUnavailable
  pure (db, revision)

def diagnosticIdentity (value : String) : String :=
  String.ofList ((value.toList.filter fun c => !Text.isControl c).take 256)

/-- The revision is installed and has a price for the model and the tier. -/
def coversModel (revision model tier : String) : Bool :=
  match db.cachedSnapshot scope.routerUrl scope.installationId revision with
  | .error _ => false
  | .ok snapshot =>
    match snapshot.model model with
    | .error _ => false
    | .ok price => price.supportsTier tier

/-- A price that a pending revision has is not in effect yet. -/
def priceRejection (db : Db) (scope : Scope) (revision model tier reason : String) : QuotaError :=
  let pending := db.readPending scope
  .priceRejection
    { reasonCode := if pending.any fun p => db.coversModel scope p.revision model tier then
        "tariff_not_effective" else reason
      model := diagnosticIdentity model
      tier := diagnosticIdentity tier
      activePricingRevision := some revision
      pendingPricingRevision := pending.map PendingTariff.revision
      effectiveFromMs := pending.map PendingTariff.effectiveFromMs }

end Db

/-! ## Trial budgets -/

def trialAttemptPrefix (scope : Scope) (trial : MarketTrialBudget) : TrialPrefix :=
  ⟨{ scope with entitlementId := none }, trial.scopeId⟩

/-- What the attempts of a trial scope, and of one entitlement in it, have used and reserve. -/
structure TrialTotals where
  scopeSpent : ℕ
  scopePending : ℕ
  spent : ℕ
  pending : ℕ
  deriving DecidableEq, Repr

namespace Db

variable (db : Db)

def readTrialAttempt (requestId attemptId : String) : Except QuotaError (Option MarketTrialAttempt) :=
  match db.trialIndex.find? (requestId, attemptId) with
  | none => pure none
  | some index => do
    let marker ← context (db.trialMarkers.find? (index.trial, requestId, attemptId)) .storage
    pure (some marker)

variable (scope : Scope)

variable (trial : MarketTrialBudget)

/-- One step of the loop over the markers of a trial scope. -/
def trialCharge (t : TrialTotals)
    (marker : MarketTrialAttempt) : Except QuotaError TrialTotals := do
  let row ← context (db.attempt? marker.requestId marker.attemptId) .storage
  ensure (row.scope = { scope with entitlementId := some marker.entitlementId }) .usageScopeConflict
  ensure (row.meteringStatus ≠ .unavailable) (.rejection .blocked none)
  let used := max row.usagePicos (marker.settledFloorPicos.getD 0)
  let scopeSpent ← context (checkedAdd t.scopeSpent used) .arithmeticOverflow
  let scopePending ← context (checkedAdd t.scopePending row.pendingRiskPicos) .arithmeticOverflow
  if marker.entitlementId = trial.entitlementId then
    let spent ← context (checkedAdd t.spent used) .arithmeticOverflow
    let pending ← context (checkedAdd t.pending row.pendingRiskPicos) .arithmeticOverflow
    pure ⟨scopeSpent, scopePending, spent, pending⟩
  else pure { t with scopeSpent, scopePending }

def markersOf : List MarketTrialAttempt :=
  db.trialMarkers.rows.filter fun m => m.trial = trialAttemptPrefix scope trial

/-- What the attempts of a trial use and reserve, of its entitlement and of its scope. -/
def trialTotals : Except QuotaError TrialTotals :=
  (db.markersOf scope trial).foldlM (db.trialCharge scope trial) ⟨0, 0, 0, 0⟩

/-- What one budget has left: the limit less what is spent, less what is reserved. -/
def budgetRemaining (limitMicros : String) (spent pending : ℕ) : Except QuotaError ℕ := do
  let micros ← lift (unsignedDecimal limitMicros)
  let limit ← context (checkedMul micros picosPerMicro) .arithmeticOverflow
  ensure (spent < limit) (.rejection .exhausted none)
  pure (limit - spent - pending)

def trialAvailableInTx : Except QuotaError ℕ := do
  let t ← db.trialTotals scope trial
  let usedPicos ← lift (unsignedDecimal trial.usedPicos)
  let scopeUsedPicos ← lift (unsignedDecimal trial.scopeUsedPicos)
  let own ← budgetRemaining trial.limitMicros (max t.spent usedPicos) t.pending
  let shared ← budgetRemaining trial.allowanceMicros (max t.scopeSpent scopeUsedPicos) t.scopePending
  ensure (0 < min own shared) (.rejection .busy none)
  pure (min own shared)

/-! ## The reservation -/

def inFlight (w : Window) : ℕ :=
  ((db.attemptsWhere scope w.Meters).filter fun r => r.meteringStatus = .pending).length

/-- What the admission may reserve: never more than the window and the trial have left. -/
def availableFor (a : Admission) (trial : Option MarketTrialBudget) : Except QuotaError ℕ := do
  let current ← db.statusInTx a.scope a.window
  ensure (current.meteringStatus ≠ "blocked") (.rejection .blocked none)
  let limit ← lift a.quota.limitPicos
  ensure (current.usedPicos < limit) (.rejection .exhausted a.window.endsAtMs)
  let available := limit - current.usedPicos - current.pendingRiskPicos
  ensure (0 < available) (.rejection .busy none)
  match trial with
  | none => pure available
  | some trial => do
    let left ← db.trialAvailableInTx a.scope trial
    pure (min available left)

/-- The reservation must fit in what the window and the trial budgets have left. -/
def reserve (a : Admission) (trial : Option MarketTrialBudget) (model : ExecutionModelPrice) : Except QuotaError ℕ :=
  if a.enforce then do
    let available ← db.availableFor a trial
    ensure (db.inFlight a.scope a.window < max 1 (min a.parallelLimit 4)) (.rejection .busy none)
    match model.price a.effectiveTier a.estimate.tokens with
    | .ok priced => pure (min priced.usagePicos available)
    | .error _ => pure available
  else pure 0

end Db

/-! ## The new attempt -/

def Admission.row (a : Admission) (model : ExecutionModelPrice) (reserved mark : ℕ) : AttemptRow where
  requestId := a.requestId
  attemptId := a.attemptId
  scope := a.scope
  policyEpoch := a.policyEpoch
  windowId := a.window.id
  startedAtMs := a.startedAtMs
  pricingRevision := a.pricingRevision
  effectiveModel := a.effectiveModel
  effectiveTier := a.effectiveTier
  frozenTariff := some model
  usageRevision := 0
  usagePicos := 0
  pendingRiskPicos := reserved
  meteringStatus := .pending
  observation := none
  compactedAtMs := none
  watermark := mark

namespace Db

variable (db : Db)

variable (a : Admission)

def insertTrialMarker (trial : MarketTrialBudget) : Except QuotaError Db := do
  let pre := trialAttemptPrefix a.scope trial
  let markers ← context (db.trialMarkers.tryInsert
    ⟨pre, a.requestId, a.attemptId, trial.entitlementId, some 0⟩) .storage
  let index ← context (db.trialIndex.tryInsert ⟨a.requestId, a.attemptId, pre⟩) .storage
  pure { db with trialMarkers := markers, trialIndex := index }

/-- A legacy gap of the request is superseded by its attempt. -/
def removeGap (scope : Scope) (requestId : String) : Except QuotaError Db :=
  match db.gaps.find? (scope, requestId) with
  | none => pure db
  | some g => do
    let db ← db.updateCheckpoint scope g.startedAtMs (some ⟨0, 0, "gap", none, g.watermark⟩) none
    pure { db with gaps := db.gaps.erase (scope, requestId) }

variable (trial : Option MarketTrialBudget)

def insertAttempt (model : ExecutionModelPrice) (reserved : ℕ) : Except QuotaError Db := do
  let (db, mark) ← db.nextWatermark
  ensure (db.attempts.rows.length + db.gaps.rows.length < maxRows) .storage
  let attempts ← context (db.attempts.tryInsert (a.row model reserved mark)) .storage
  let db := { db with
    attempts
    attemptMeta := db.attemptMeta.upsert
      ⟨a.requestId, a.attemptId, a.estimate.inputTokens, a.estimate.outputTokens, reserved⟩ }
  let db ← trial.elim (pure db) (db.insertTrialMarker a)
  let db ← db.updateCheckpoint a.scope a.startedAtMs none
    (some ⟨0, reserved, "pending", some a.pricingRevision, mark⟩)
  db.removeGap a.scope a.requestId

/-- A second admission of an attempt checks the identity and changes nothing. -/
def replayAdmission (old : AttemptRow) : Except QuotaError ℕ := do
  ensure (old.scope = a.scope ∧ old.pricingRevision = a.pricingRevision ∧
    old.effectiveModel = a.effectiveModel ∧ old.effectiveTier = a.effectiveTier ∧
    old.windowId = a.window.id ∧ old.startedAtMs = a.startedAtMs) .requestIdentityConflict
  ensure (trial.all fun t =>
    (db.trialMarkers.find? (trialAttemptPrefix a.scope t, a.requestId, a.attemptId)).isSome)
    .trialIdentityConflict
  pure (db.reserved a.requestId a.attemptId)

/-- The identity checks of an admission and the price row it will freeze. -/
def admissionModel : Except QuotaError ExecutionModelPrice := do
  a.window.validate
  ensure (a.policyEpoch ≠ "" ∧ a.requestId ≠ "" ∧ a.attemptId ≠ "") .invalidAdmissionIdentity
  ensure (a.window.Meters a.startedAtMs) .windowConflict
  let _ ← a.scope.key
  ensure (trial.all fun t => a.enforce ∧ t.scopeId ≠ "" ∧
    a.scope.entitlementId = some t.entitlementId) .trialIdentityConflict
  let snapshot ← db.cachedSnapshot a.scope.routerUrl a.scope.installationId a.pricingRevision
  match snapshot.model a.effectiveModel with
  | .error _ => .error (db.priceRejection a.scope a.pricingRevision a.effectiveModel a.effectiveTier "model_unpriced")
  | .ok model => do
    ensure (model.supportsTier a.effectiveTier) (db.priceRejection a.scope a.pricingRevision
      a.effectiveModel a.effectiveTier "tier_unpriced")
    pure model

/-- Returns the reserved amount. -/
def admitWithTrialInTx : Except QuotaError (Db × ℕ) := do
  let model ← db.admissionModel a trial
  match db.attempt? a.requestId a.attemptId with
  | some old => do
    let reserved ← db.replayAdmission a trial old
    pure (db, reserved)
  | none => do
    let reserved ← db.reserve a trial model
    let db ← db.insertAttempt a trial model reserved
    pure (db, reserved)

/-- Resolve the revision and admission under it in one transaction. -/
def admitWithMarketTrial (now : ℤ) :
    Except QuotaError (Db × ℕ) := do
  let (db, revision) ← db.admissionRevision a now
  db.admitWithTrialInTx { a with pricingRevision := revision } trial

end Db

end CcSwitchServer.ValueQuota
