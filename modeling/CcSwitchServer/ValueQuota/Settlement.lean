import CcSwitchServer.ValueQuota.Admission
import CcSwitchServer.ValueQuota.Classify

/-! # Settlement (`settle_in_tx`, `settle_outcome_in_tx`, the sweeper and compaction)

Usage logs, the terminal guard and the sweeper settle attempts.
-/

namespace CcSwitchServer.ValueQuota
open Foundations ValuePricing Usage Std

/-- The columns a settlement writes. -/
structure Settlement where
  revision : ℕ
  digest : Digest
  amount : ℕ
  state : MeteringStatus
  risk : ℕ
  deriving DecidableEq, Repr

def AttemptRow.settle (r : AttemptRow) (s : Settlement) (mark : ℕ) : AttemptRow :=
  { r with
    usageRevision := s.revision
    usagePicos := s.amount
    meteringStatus := s.state
    watermark := mark
    observation := some s.digest
    pendingRiskPicos := s.risk }

@[simp] theorem AttemptRow.settle_key (r : AttemptRow) (s : Settlement) (mark : ℕ) :
    (r.settle s mark).key = r.key := rfl

def MarketTrialAttempt.raiseFloor (m : MarketTrialAttempt) (amount : ℕ) : MarketTrialAttempt :=
  { m with settledFloorPicos := some (max (m.settledFloorPicos.getD 0) amount) }

@[simp] theorem MarketTrialAttempt.raiseFloor_key (m : MarketTrialAttempt) (amount : ℕ) :
    (m.raiseFloor amount).key = m.key := rfl

namespace Db

/-- A settled trial attempt raises its floor; a later, lower settlement leaves it. -/
def raiseTrialFloor (db : Db) (old : AttemptRow) (amount : ℕ) : Except QuotaError Db := do
  match ← db.readTrialAttempt old.requestId old.attemptId with
  | none => pure db
  | some marker => do
    ensure (old.scope.entitlementId = some marker.entitlementId) .usageScopeConflict
    pure { db with
      trialMarkers := db.trialMarkers.modify marker.key (fun m => m.raiseFloor amount)
        (fun m => m.raiseFloor_key amount) }

def deleteOlderRevisions (db : Db) (key : String × String) (revision : ℕ) : Db :=
  { db with revisions := db.revisions.filter fun r => ¬(r.key.1 = key ∧ r.usageRevision < revision) }

/-- The one place where a row, its checkpoint, its history and its trial floor change together. -/
def writeSettlement (db : Db) (old : AttemptRow) (s : Settlement) : Except QuotaError Db := do
  let db ← (if s.state.Settled then db.raiseTrialFloor old s.amount else pure db)
  let (db, mark) ← db.nextWatermark
  let db := { db with
    revisions := db.revisions.upsert ⟨old.requestId, old.attemptId, s.revision, s.digest, s.amount, s.state, mark⟩
    attempts := db.attempts.modify old.key (fun r => r.settle s mark) (fun r => r.settle_key s mark) }
  let db ← db.updateCheckpoint old.scope old.startedAtMs
    (some { old.contribution with watermark := 0 })
    (some ⟨s.amount, s.risk, s.state.name, some old.pricingRevision, mark⟩)
  pure (if old.compactedAtMs.isSome ∧ s.state.Settled then db.deleteOlderRevisions old.key s.revision else db)

end Db

/-! ## Observations -/

/-- Whether an observation replaces what the row stores. A synthetic settlement yields to genuine
usage, a terminal observation completes a pending one, otherwise the first of a revision wins. -/
def AttemptRow.supersededBy (old : AttemptRow) (o : Observation) : Bool :=
  if o.usageRevision < old.usageRevision then false
  else if o.usageRevision = old.usageRevision then
    match old.observation with
    | none => true
    | some previous =>
      if previous = o.digest then false
      else if o.synthetic then old.meteringStatus = .pending ∨ old.meteringStatus = .unavailable
      else previous.synthetic || (old.meteringStatus = .pending && o.outcome.terminal)
  else true

namespace Observation

def price (o : Observation) (tariff : ExecutionModelPrice) (tier : String) : Option PricedValue :=
  o.tokens.bind fun tokens => (tariff.price tier tokens).toOption

variable (o : Observation)

def reportedMatches (snapshot : PricingSnapshot) : Bool :=
  o.reportedModel.all fun reported =>
    snapshot.canonical reported == snapshot.canonical o.effectiveModel

/-- An unknown outcome is charged what is priced, reserved, or shown so far, whichever is most. -/
def unknownAmount (tariff : ExecutionModelPrice) (reserved : ℕ) (old : AttemptRow) : ℕ :=
  let priced := max ((o.price tariff o.effectiveTier).elim 0 PricedValue.usagePicos)
    ((o.observedTier.bind (o.price tariff)).elim 0 PricedValue.usagePicos)
  let floor := if old.meteringStatus = .pending then old.usagePicos else 0
  max (max priced reserved) floor

/-- A priced, complete observation: the dearer tier when another one was observed. -/
def pricedValue (tariff : ExecutionModelPrice) (priced : PricedValue) : ℕ × MeteringStatus :=
  let other := o.observedTier.filter (· ≠ o.effectiveTier)
  let amount := max priced.usagePicos ((other.bind (o.price tariff)).elim 0 PricedValue.usagePicos)
  let conservative := priced.conservativeCacheTtl || o.outcome != .final || other.isSome
  (amount, if conservative then .conservative else .observed)

/-- The amount and the status that an observation stands for. -/
def settledValue (snapshot : PricingSnapshot) (tariff : ExecutionModelPrice)
    (reserved : ℕ) (old : AttemptRow) : ℕ × MeteringStatus :=
  match o.outcome with
  | .inProgress => ((o.price tariff o.effectiveTier).elim old.usagePicos PricedValue.usagePicos, .pending)
  | .free => (0, .observed)
  | .unknown => (o.unknownAmount tariff reserved old, .conservative)
  | .final | .finalConservative | .interrupted =>
    if o.reportedMatches snapshot then
      match o.price tariff o.effectiveTier with
      | some priced => o.pricedValue tariff priced
      | none => (o.unknownAmount tariff reserved old, .conservative)
    else (o.unknownAmount tariff reserved old, .conservative)

end Observation

/-- The price row frozen at admission; compaction leaves it to the immutable snapshot. -/
def frozenTariffOf (snapshot : PricingSnapshot) (old : AttemptRow) (model : String) :
    Except QuotaError ExecutionModelPrice := do
  let tariff ← (if old.compactedAtMs.isSome then do
      ensure (old.frozenTariff = none) .compactedTariffCorrupt
      lift (snapshot.model model)
    else context old.frozenTariff .storage)
  let current ← lift (snapshot.model model)
  ensure (current = tariff) .frozenTariffCorrupt
  pure tariff

/-- What a still reserved amount is worth after part of it has been used. -/
def remainingRisk (old : AttemptRow) (amount : ℕ) (state : MeteringStatus) : Except QuotaError ℕ :=
  if state = .pending then do
    let held ← context (checkedAdd old.pendingRiskPicos old.usagePicos) .riskOverflow
    pure (held - amount)
  else pure 0

namespace Db

/-- The settlement that a superseding observation writes. -/
def settlementOf (db : Db) (old : AttemptRow) (o : Observation) : Except QuotaError Settlement := do
  let snapshot ← db.cachedSnapshot old.scope.routerUrl old.scope.installationId old.pricingRevision
  let tariff ← frozenTariffOf snapshot old o.effectiveModel
  let value := o.settledValue snapshot tariff (db.reserved o.requestId o.attemptId) old
  let risk ← remainingRisk old value.1 value.2
  pure ⟨o.usageRevision, o.digest, value.1, value.2, risk⟩

/-- A report that supersedes nothing changes nothing. -/
def settleInTx (db : Db) (o : Observation) : Except QuotaError (Db × Bool) := do
  let old ← context (db.attempt? o.requestId o.attemptId) .attemptUnknown
  let key ← o.scope.key
  ensure (old.scope = key ∧ old.effectiveModel = o.effectiveModel ∧
    old.effectiveTier = o.effectiveTier) .observationScopeConflict
  ensure ((o.usageRevision : ℤ) ≤ i64Max) .integerConversion
  if old.supersededBy o then do
    let s ← db.settlementOf old o
    let db ← db.writeSettlement old s
    pure (db, true)
  else pure (db, false)

end Db

/-! ## Outcomes without a usage log -/

def AttemptOutcome.value (outcome : AttemptOutcome) (reserved : ℕ) (old : AttemptRow) : ℕ × MeteringStatus :=
  match outcome with
  | .notSent | .upstreamError => (0, .observed)
  | .unknown => (max reserved old.usagePicos, .conservative)

namespace Db

/-- Settle an attempt that is still pending; with `onlyUnobserved`, one without any observation. -/
def settleOutcomeInTx (db : Db) (requestId attemptId : String) (outcome : AttemptOutcome)
    (onlyUnobserved : Bool) : Except QuotaError (Db × Bool) :=
  match db.attempt? requestId attemptId with
  | none => pure (db, false)
  | some old =>
    if old.meteringStatus.Settled ∨
        (onlyUnobserved ∧ (old.usageRevision ≠ 0 ∨ old.observation.isSome)) then
      pure (db, false)
    else do
      let value := outcome.value (db.reserved requestId attemptId) old
      let digest : Digest := ⟨true, .outcome requestId attemptId old.usageRevision outcome value.1⟩
      let db ← db.writeSettlement old ⟨old.usageRevision, digest, value.1, value.2, 0⟩
      pure (db, true)

end Db

/-! ## Usage logs -/

def wantedAttempt (log : UsageLog) : String := toString (max log.attemptCount 1)

def observationOf (log : UsageLog) (row : AttemptRow) (attempt : Option AttemptMeta)
    (forceTerminal : Bool) (usageRevision : ℕ) : Observation :=
  let c := classifyLog log row.effectiveModel row.effectiveTier attempt forceTerminal
  { requestId := log.requestId
    attemptId := row.attemptId
    scope := row.scope
    usageRevision
    effectiveModel := row.effectiveModel
    effectiveTier := row.effectiveTier
    reportedModel := log.reportedModel
    observedTier := c.observedTier
    tokens := c.tokens
    outcome := c.outcome
    synthetic := forceTerminal }

namespace Db

def settleLogInTx (db : Db) (log : UsageLog) (forceTerminal : Bool) : Except QuotaError (Db × Bool) :=
  match db.attempt? log.requestId (wantedAttempt log) with
  | none => pure (db, false)
  | some row => do
    ensure (log.shareId = some row.scope.shareId ∧
      log.userEmail.any fun email => Text.eqIgnoreAsciiCase email row.scope.email)
      .usageScopeConflict
    let attempt := db.attemptMeta.find? (log.requestId, row.attemptId)
    let usageRevision ← context (checkedAddU64 log.usageRevision 1) .revisionOverflow
    let usageRevision := if forceTerminal then max usageRevision row.usageRevision else usageRevision
    db.settleInTx (observationOf log row attempt forceTerminal usageRevision)

/-- Block a window until its owner reconciles it; an existing block stays. -/
def blockForReconcile (db : Db) (scope : Scope) (windowId : String) : Db :=
  match db.blocks.find? (scope, some windowId) with
  | some _ => db
  | none => { db with blocks := db.blocks.upsert ⟨scope, some windowId, none⟩ }

/-- A settlement that fails is undone and blocks only the windows of its request. -/
def settleUsageLogIsolated (db : Db) (log : UsageLog) : Db :=
  match db.settleLogInTx log false with
  | .ok (db, _) => db
  | .error _ =>
    (db.attempts.rows.filter fun r => r.requestId = log.requestId).foldl
      (fun db r => db.blockForReconcile r.scope r.windowId) db

/-- Persist a usage log; an older revision than the stored one is refused. -/
def upsertUsageRow (db : Db) (log : UsageLog) : Except QuotaError Db := do
  ensure ((log.usageRevision : ℤ) ≤ i64Max) .integerConversion
  ensure ((db.usageRecords.find? log.requestId).all fun r => r.usageRevision ≤ log.usageRevision) .staleUsage
  pure { db with usageRecords := db.usageRecords.upsert ⟨log.requestId, log.usageRevision, some log⟩ }

end Db

/-! ## The sweeper -/

structure SweepReport where
  fromUsageLog : ℕ
  outcomeUnknown : ℕ
  blocked : ℕ
  deriving DecidableEq, Repr

namespace Db

def unresolved (db : Db) (requestId attemptId : String) : Bool :=
  (db.attempt? requestId attemptId).any fun r => ¬r.meteringStatus.Settled

/-- Settle a stale attempt from its persisted log; a log that cannot be applied changes nothing. -/
def sweepLog (db : Db) (requestId attemptId : String) : Db :=
  match ((db.usageRecords.find? requestId).bind UsageRecordRow.payload).filter
      fun log => wantedAttempt log = attemptId with
  | none => db
  | some log =>
    match db.settleLogInTx log true with
    | .ok (db, _) => db
    | .error _ => db

def sweepOneInTx (db : Db) (requestId attemptId : String) (report : SweepReport) :
    Except QuotaError (Db × SweepReport) :=
  if db.unresolved requestId attemptId then
    let db := db.sweepLog requestId attemptId
    if db.unresolved requestId attemptId then do
      let (db, settled) ← db.settleOutcomeInTx requestId attemptId .unknown false
      pure (db, if settled then { report with outcomeUnknown := report.outcomeUnknown + 1 } else report)
    else pure (db, { report with fromUsageLog := report.fromUsageLog + 1 })
  else pure (db, report)

/-- A candidate that fails is undone and its windows are blocked. -/
def sweepStep (s : Db × SweepReport) (candidate : String × String) : Db × SweepReport :=
  match s.1.sweepOneInTx candidate.1 candidate.2 s.2 with
  | .ok s' => s'
  | .error _ =>
    ((s.1.attempt? candidate.1 candidate.2).elim s.1 fun r => s.1.blockForReconcile r.scope r.windowId,
      { s.2 with blocked := s.2.blocked + 1 })

def sweepBatchInTx (db : Db) (candidates : List (String × String)) (report : SweepReport) : Db × SweepReport :=
  candidates.foldl sweepStep (db, report)

end Db

/-! ## Compaction -/

def AttemptRow.compact (r : AttemptRow) (now : ℤ) : AttemptRow :=
  { r with frozenTariff := none, compactedAtMs := some now }

@[simp] theorem AttemptRow.compact_key (r : AttemptRow) (now : ℤ) : (r.compact now).key = r.key := rfl

def compactOrder (r s : AttemptRow) : Prop :=
  r.startedAtMs < s.startedAtMs ∨ (r.startedAtMs = s.startedAtMs ∧
    (r.requestId < s.requestId ∨ (r.requestId = s.requestId ∧ r.attemptId ≤ s.attemptId)))

instance : DecidableRel compactOrder := fun r s =>
  inferInstanceAs (Decidable (r.startedAtMs < s.startedAtMs ∨ (r.startedAtMs = s.startedAtMs ∧
    (r.requestId < s.requestId ∨ (r.requestId = s.requestId ∧ r.attemptId ≤ s.attemptId)))))

namespace Db

/-- The oldest hundred settled attempts before the cutoff that are not compacted yet. -/
def compactable (db : Db) (cutoff : ℤ) : List AttemptRow :=
  ((db.attempts.rows.filter fun r =>
    r.startedAtMs < cutoff ∧ r.meteringStatus.Settled ∧ r.compactedAtMs = none).insertionSort compactOrder).take 100

def compactOne (db : Db) (r : AttemptRow) (now : ℤ) : Except QuotaError Db := do
  let cp ← db.readCheckpoint r.scope (dayOf r.startedAtMs)
  let count ← cp.count
  ensure (0 < count) .checkpointCorrupt
  let db := db.deleteOlderRevisions r.key ((db.attempts.find? r.key).elim 0 AttemptRow.usageRevision)
  pure { db with
    attempts := db.attempts.modify r.key (fun r => r.compact now) (fun r => r.compact_key now)
    attemptMeta := db.attemptMeta.erase r.key }

/-- The settled attempts before the cutoff, oldest first. -/
def compactInTx (db : Db) (cutoff now : ℤ) : Except QuotaError (Db × ℕ) := do
  let rows := db.compactable cutoff
  let db ← rows.foldlM (fun db r => db.compactOne r now) db
  pure (db, rows.length)

end Db

end CcSwitchServer.ValueQuota
