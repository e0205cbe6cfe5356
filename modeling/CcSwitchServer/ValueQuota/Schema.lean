import CcSwitchServer.Foundations.Table
import CcSwitchServer.ValuePricing.Identity
import CcSwitchServer.Usage.Log

/-! # The USD ledger's data (`src/repository/server_sqlite/value_quota.rs`, `value_quota_schema.sql`)

The tables of the ledger, one list of rows with a primary key each. What a column holds as text is kept as the
value that the text encodes.
-/

namespace CcSwitchServer.ValueQuota
open Foundations ValuePricing Usage Std

def dayMs : ℤ := 86400000

def dayOf (at_ : ℤ) : ℤ := at_ / dayMs * dayMs

/-- Rows that fit a database: an SQLite file has less than `2 ^ 32` pages of `2 ^ 16` bytes, and a
row takes more than one byte. -/
def maxRows : ℕ := 2 ^ 48

/-! ## Errors -/

inductive RejectionKind
  | exhausted
  | busy
  | authorizationRevoked
  | storageBusy
  | blocked
  deriving DecidableEq, Repr

/-- Diagnostic facts of a refusal before anything is sent. -/
structure PriceRejection where
  reasonCode : String
  model : String
  tier : String
  activePricingRevision : Option String
  pendingPricingRevision : Option String
  effectiveFromMs : Option ℤ
  deriving DecidableEq, Repr

inductive QuotaError
  | invalidScope
  | invalidIdentity
  | invalidEntitlement
  | invalidWindow
  | invalidWindowEnd
  | windowOutOfRange
  | coverageIncomplete
  | invalidCoverage
  | checkpointCorrupt
  | checkpointOverflow
  | checkpointCountOverflow
  | adjustedOverflow
  | arithmeticOverflow
  | riskOverflow
  | watermarkOverflow
  | revisionOverflow
  | integerConversion
  | invalidAdmissionIdentity
  | windowConflict
  | trialIdentityConflict
  | requestIdentityConflict
  | usageScopeConflict
  | observationScopeConflict
  | attemptUnknown
  | snapshotUnavailable
  | snapshotConflict
  | frozenTariffCorrupt
  | compactedTariffCorrupt
  | priceRejection (rejection : PriceRejection)
  | rejection (kind : RejectionKind) (resetsAtMs : Option ℤ)
  | targetInvalid
  | targetOutOfRange
  | revisionConflict
  | operationConflict
  | ackMismatch
  | staleUsage
  | value (error : ValueError)
  | storage
  deriving DecidableEq, Repr

def lift {α : Type} : Except ValueError α → Except QuotaError α
  | .ok a => .ok a
  | .error e => .error (.value e)

@[simp] theorem lift_eq_ok {α : Type} {x : Except ValueError α} {a : α} : lift x = .ok a ↔ x = .ok a := by
  cases x <;> simp [lift]

/-! ## Scopes and windows -/

structure Scope where
  routerUrl : String
  installationId : String
  shareId : String
  email : String
  entitlementId : Option String := none
  deriving DecidableEq, Repr

/-- The key of a well-formed scope. Its JSON text determines the scope, so the scope stands for it. -/
def Scope.key (s : Scope) : Except QuotaError Scope := do
  ensure (s.routerUrl ≠ "" ∧ s.installationId ≠ "" ∧ s.shareId ≠ "") .invalidScope
  ensure (s.email ≠ "" ∧ s.email.utf8ByteSize ≤ 320 ∧ s.email = Text.asciiLower (Text.trim s.email)) .invalidIdentity
  ensure (s.entitlementId.all fun id => id ≠ "" ∧ id.utf8ByteSize ≤ 256) .invalidEntitlement
  pure s

theorem Scope.key_eq {s k : Scope} (h : s.key = .ok k) : k = s := by
  simp only [Scope.key, bind_eq_ok, pure_eq_ok] at h
  obtain ⟨-, -, -, -, -, -, h⟩ := h
  exact h.symm

structure Window where
  id : String
  startsAtMs : ℤ
  endsAtMs : Option ℤ
  meteredFromMs : ℤ
  deriving DecidableEq, Repr

namespace Window

def validate (w : Window) : Except QuotaError Unit := do
  ensure (w.id ≠ "" ∧ 0 ≤ w.startsAtMs ∧ 0 ≤ w.meteredFromMs) .invalidWindow
  ensure (w.endsAtMs.all fun e => w.startsAtMs < e) .invalidWindowEnd

def meteredStartMs (w : Window) : ℤ := max w.startsAtMs w.meteredFromMs

/-- The end does not belong to the window. -/
def Meters (w : Window) (at_ : ℤ) : Prop := w.meteredStartMs ≤ at_ ∧ ∀ e ∈ w.endsAtMs, at_ < e

instance (w : Window) (at_ : ℤ) : Decidable (w.Meters at_) :=
  inferInstanceAs (Decidable (_ ∧ ∀ e ∈ w.endsAtMs, at_ < e))

end Window

/-! ## Observations -/

/-- How one usage observation settles an attempt. -/
inductive ObservedOutcome
  | inProgress
  | final
  | finalConservative
  | free
  | interrupted
  | unknown
  deriving DecidableEq, Repr

def ObservedOutcome.terminal (o : ObservedOutcome) : Bool := o ≠ .inProgress

structure Observation where
  requestId : String
  attemptId : String
  scope : Scope
  usageRevision : ℕ
  effectiveModel : String
  effectiveTier : String
  reportedModel : Option String
  observedTier : Option String
  tokens : Option ValueTokens
  outcome : ObservedOutcome
  synthetic : Bool
  deriving DecidableEq, Repr

/-- Outcome of an admitted attempt that produced no usage log. -/
inductive AttemptOutcome
  | notSent
  | upstreamError
  | unknown
  deriving DecidableEq, Repr

/-- What is hashed: the observation without its `synthetic` mark, or an outcome record. -/
inductive Evidence
  | observation (o : Observation)
  | outcome (requestId attemptId : String) (usageRevision : ℕ) (outcome : AttemptOutcome)
      (amountPicos : ℕ)
  deriving DecidableEq, Repr

/-- The digest of evidence; a synthetic one carries the `synthetic:` prefix. -/
structure Digest where
  synthetic : Bool
  evidence : Evidence
  deriving DecidableEq, Repr

/-- A digest is the payload that was digested. -/
def Observation.digest (o : Observation) : Digest := ⟨o.synthetic, .observation { o with synthetic := false }⟩

/-! ## Rows -/

inductive MeteringStatus
  | pending
  | observed
  | conservative
  | unavailable
  deriving DecidableEq, Repr

namespace MeteringStatus

def name : MeteringStatus → String
  | pending => "pending"
  | observed => "observed"
  | conservative => "conservative"
  | unavailable => "unavailable"

def Settled (s : MeteringStatus) : Prop := s = observed ∨ s = conservative

instance (s : MeteringStatus) : Decidable s.Settled :=
  inferInstanceAs (Decidable (s = observed ∨ s = conservative))

theorem not_settled {s : MeteringStatus} : ¬s.Settled ↔ s = pending ∨ s = unavailable := by
  cases s <;> simp [Settled]

end MeteringStatus

/-- A frozen tariff is the price row, `none` for `null`. -/
structure AttemptRow where
  requestId : String
  attemptId : String
  scope : Scope
  policyEpoch : String
  windowId : String
  startedAtMs : ℤ
  pricingRevision : String
  effectiveModel : String
  effectiveTier : String
  frozenTariff : Option ExecutionModelPrice
  usageRevision : ℕ
  usagePicos : ℕ
  pendingRiskPicos : ℕ
  meteringStatus : MeteringStatus
  observation : Option Digest
  compactedAtMs : Option ℤ
  watermark : ℕ
  deriving DecidableEq

def AttemptRow.key (r : AttemptRow) : String × String := (r.requestId, r.attemptId)

/-- One observation that an attempt was settled with. -/
structure RevisionRow where
  requestId : String
  attemptId : String
  usageRevision : ℕ
  observation : Digest
  usagePicos : ℕ
  meteringStatus : MeteringStatus
  watermark : ℕ
  deriving DecidableEq, Repr

def RevisionRow.key (r : RevisionRow) : (String × String) × ℕ := ((r.requestId, r.attemptId), r.usageRevision)

/-- A coverage gap of an earlier version; nothing inserts one any more. -/
structure GapRow where
  scope : Scope
  requestId : String
  startedAtMs : ℤ
  watermark : ℕ
  deriving DecidableEq, Repr

def GapRow.key (g : GapRow) : Scope × String := (g.scope, g.requestId)

/-- The exact totals of one scope and UTC day. -/
structure Checkpoint where
  amount : ℕ
  risk : ℕ
  states : ExtTreeMap String ℕ
  revisions : ExtTreeMap String ℕ
  watermark : ℕ
  deriving DecidableEq

/-- A stored checkpoint with the digest of its payload. -/
structure CheckpointRow where
  scope : Scope
  dayStartMs : ℤ
  checkpoint : Checkpoint
  payloadSha256 : Checkpoint
  deriving DecidableEq

def CheckpointRow.key (c : CheckpointRow) : Scope × ℤ := (c.scope, c.dayStartMs)

inductive ValueUsageEditAction
  | set
  | clear
  deriving DecidableEq, Repr

structure ValueUsageEdit where
  action : ValueUsageEditAction
  targetPicos : Option String
  expectedGrantRevision : ℕ
  windowId : String
  expectedWatermark : ℕ
  operationId : String
  reason : String
  deriving DecidableEq, Repr

structure AdjustmentRow where
  operationId : String
  scope : Scope
  windowId : String
  edit : ValueUsageEdit
  actor : String
  offsetPicos : ℕ
  watermark : ℕ
  deriving DecidableEq, Repr

structure CoverageRow where
  scope : Scope
  collectedFromMs : ℤ
  deriving DecidableEq, Repr

structure SnapshotRow where
  routerUrl : String
  installationId : String
  revision : String
  snapshot : PricingSnapshot
  deriving DecidableEq

def SnapshotRow.key (s : SnapshotRow) : String × String × String := (s.routerUrl, s.installationId, s.revision)

/-! ## Records of the `meta` table -/

/-- Reservation facts of an admission (`value_attempt:`). -/
structure AttemptMeta where
  requestId : String
  attemptId : String
  inputTokens : ℕ
  outputTokens : ℕ
  reservedPicos : ℕ
  deriving DecidableEq, Repr

def AttemptMeta.key (m : AttemptMeta) : String × String := (m.requestId, m.attemptId)

/-- The key prefix of a trial's markers: the scope without its contract, and the trial scope. -/
structure TrialPrefix where
  scope : Scope
  scopeId : String
  deriving DecidableEq, Repr

/-- One attempt charged to a trial budget (`value_trial_attempt:`). -/
structure MarketTrialAttempt where
  trial : TrialPrefix
  requestId : String
  attemptId : String
  entitlementId : String
  settledFloorPicos : Option ℕ
  deriving DecidableEq, Repr

def MarketTrialAttempt.key (m : MarketTrialAttempt) : TrialPrefix × String × String :=
  (m.trial, m.requestId, m.attemptId)

/-- Where an attempt's marker is stored (`value_trial_index:`). -/
structure TrialIndexRow where
  requestId : String
  attemptId : String
  trial : TrialPrefix
  deriving DecidableEq, Repr

def TrialIndexRow.key (i : TrialIndexRow) : String × String := (i.requestId, i.attemptId)

/-- A blocked window (`value_quota_blocked:`), or a whole scope in the legacy form. -/
structure BlockRow where
  scope : Scope
  windowId : Option String
  routerWatermark : Option ℕ
  deriving DecidableEq, Repr

def BlockRow.key (b : BlockRow) : Scope × Option String := (b.scope, b.windowId)

structure PendingTariff where
  routerUrl : String
  installationId : String
  revision : String
  effectiveFromMs : ℤ
  deriving DecidableEq, Repr

def PendingTariff.key (p : PendingTariff) : String × String := (p.routerUrl, p.installationId)

structure ActiveTariff where
  routerUrl : String
  installationId : String
  revision : String
  deriving DecidableEq, Repr

def ActiveTariff.key (t : ActiveTariff) : String × String := (t.routerUrl, t.installationId)

/-- A persisted usage log; the payload of another version may not decode. -/
structure UsageRecordRow where
  requestId : String
  usageRevision : ℕ
  payload : Option UsageLog
  deriving DecidableEq, Repr

/-! ## The database -/

/-- The tables, and the parts of `meta` that the ledger owns as tables of their own. -/
structure Db where
  watermark : ℕ
  attempts : Table AttemptRow (String × String) AttemptRow.key
  revisions : Table RevisionRow ((String × String) × ℕ) RevisionRow.key
  gaps : Table GapRow (Scope × String) GapRow.key
  checkpoints : Table CheckpointRow (Scope × ℤ) CheckpointRow.key
  adjustments : Table AdjustmentRow String AdjustmentRow.operationId
  coverage : Table CoverageRow Scope CoverageRow.scope
  snapshots : Table SnapshotRow (String × String × String) SnapshotRow.key
  attemptMeta : Table AttemptMeta (String × String) AttemptMeta.key
  trialMarkers : Table MarketTrialAttempt (TrialPrefix × String × String) MarketTrialAttempt.key
  trialIndex : Table TrialIndexRow (String × String) TrialIndexRow.key
  blocks : Table BlockRow (Scope × Option String) BlockRow.key
  pendingTariffs : Table PendingTariff (String × String) PendingTariff.key
  activeTariffs : Table ActiveTariff (String × String) ActiveTariff.key
  usageRecords : Table UsageRecordRow String UsageRecordRow.requestId

def Db.empty : Db where
  watermark := 0
  attempts := Table.empty
  revisions := Table.empty
  gaps := Table.empty
  checkpoints := Table.empty
  adjustments := Table.empty
  coverage := Table.empty
  snapshots := Table.empty
  attemptMeta := Table.empty
  trialMarkers := Table.empty
  trialIndex := Table.empty
  blocks := Table.empty
  pendingTariffs := Table.empty
  activeTariffs := Table.empty
  usageRecords := Table.empty

namespace Db

/-- One counter gives every watermark. -/
def nextWatermark (db : Db) : Except QuotaError (Db × ℕ) := do
  ensure ((db.watermark + 1 : ℕ) ≤ i64Max) .watermarkOverflow
  pure ({ db with watermark := db.watermark + 1 }, db.watermark + 1)

theorem nextWatermark_eq_ok {db db' : Db} {mark : ℕ} (h : db.nextWatermark = .ok (db', mark)) :
    mark = db.watermark + 1 ∧ db' = { db with watermark := db.watermark + 1 } := by
  simp only [nextWatermark, bind_eq_ok, pure_eq_ok, Prod.mk.injEq] at h
  obtain ⟨-, -, hdb, hmark⟩ := h
  exact ⟨hmark.symm, hdb.symm⟩

def attempt? (db : Db) (requestId attemptId : String) : Option AttemptRow := db.attempts.find? (requestId, attemptId)

def reserved (db : Db) (requestId attemptId : String) : ℕ :=
  ((db.attemptMeta.find? (requestId, attemptId)).map AttemptMeta.reservedPicos).getD 0

def cachedSnapshot (db : Db) (routerUrl installationId revision : String) : Except QuotaError PricingSnapshot :=
  context ((db.snapshots.find? (routerUrl, installationId, revision)).map SnapshotRow.snapshot) .snapshotUnavailable

end Db

end CcSwitchServer.ValueQuota
