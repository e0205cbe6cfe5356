import CcSwitchServer.Foundations.Checked
import CcSwitchServer.Foundations.OrderedMap
import CcSwitchServer.Foundations.Text

/-! # Account quota cycles: the ledger and its data

Times are `i64` milliseconds in `ℤ`, counters `u64` in `ℕ` with the saturating and checked additions of the
code.
-/

namespace CcSwitchServer.QuotaCycle
open Foundations

def quotaCycleSchema : ℕ := 1

inductive QuotaError
  | quotaBoundaryInvalid
  | quotaBoundaryUnavailable
  | unsupportedQuotaCycleSchema
  | quotaStreamInvalid
  | quotaSourceInvalid
  | quotaCycleInvalid
  | quotaCycleEventMissing
  | quotaCycleEventMismatch
  | quotaEventSourceMissing
  | quotaEventInvalid
  | quotaCorrectionInvalid
  | quotaCorrectionChainInvalid
  | quotaResetOperationInvalid
  | quotaResetReceiptEventMissing
  | quotaResetReceiptEventInvalid
  | quotaPublicCursorInvalid
  | quotaPublicEventInvalid
  | identityUnverified
  | quotaSourceScopeMismatch
  | quotaRevisionOverflow
  | quotaSourceMissing
  | quotaSourceFenceChanged
  | quotaBucketMismatch
  | quotaSequenceOverflow
  | resetOperationConflict
  | resetOperationMissing
  | resetCreditNeedsReconcile
deriving DecidableEq, Repr

/-- The generations that a source is read under. -/
structure QuotaSourceFence where
  accountIncarnation : ℕ := 0
  identityGeneration : ℕ := 0
  credentialGeneration : ℕ := 0
  quotaCredentialGeneration : ℕ := 0
deriving DecidableEq, Repr

inductive QuotaTimeBasis
  | upstreamWindow
  | derivedFromWindow
  | knownNaturalBoundary
  | publicAnnouncement
  | redeemConfirmation
deriving DecidableEq, Repr

/-! ## Observations of an upstream usage window -/

structure QuotaWindowObservation where
  bucketId : String
  startsAtMs : Option ℤ
  endsAtMs : ℤ
  durationMs : Option ℤ
  observedAtMs : ℤ
  basis : QuotaTimeBasis
deriving DecidableEq, Repr

/-- Subtraction of `i64` values. -/
def checkedSubI64 (a b : ℤ) : Option ℤ :=
  if -i64Max - 1 ≤ a - b ∧ a - b ≤ i64Max then some (a - b) else none

namespace QuotaWindowObservation

def validateEnd (o : QuotaWindowObservation) : Except QuotaError Unit :=
  ensure (o.bucketId ≠ "" ∧ 0 ≤ o.observedAtMs ∧ o.observedAtMs < o.endsAtMs ∧
    ∃ delay ∈ checkedSubI64 o.endsAtMs o.observedAtMs, delay ≤ 400 * 24 * 60 * 60 * 1000)
    .quotaBoundaryInvalid

/-- The start that upstream states, or the end less the duration. -/
def inferredStart (o : QuotaWindowObservation) : Option ℤ :=
  o.startsAtMs.or ((o.durationMs.filter fun d => 0 < d).bind fun d => checkedSubI64 o.endsAtMs d)

def start (o : QuotaWindowObservation) : Except QuotaError ℤ := do
  o.validateEnd
  let start ← context o.inferredStart .quotaBoundaryUnavailable
  ensure (o.bucketId ≠ "" ∧ 0 ≤ start ∧ start ≤ o.observedAtMs ∧ start < o.endsAtMs ∧
    o.observedAtMs < o.endsAtMs) .quotaBoundaryInvalid
  pure start

end QuotaWindowObservation

/-! ## Cycles, sources and events -/

/-- The current cycle of a source, which names the event that opened it. -/
structure AccountQuotaCycle where
  streamIncarnation : String
  sourceRef : String
  sourceEpoch : ℕ
  bucketId : String
  cycleId : String
  cycleSequence : ℕ
  cycleRevision : ℕ
  startsAtMs : ℤ
  endsAtMs : Option ℤ
  basis : QuotaTimeBasis
  observedAtMs : ℤ
  eventId : String
deriving DecidableEq, Repr

/-- An upstream account and one of its usage buckets. -/
structure QuotaCycleSource where
  sourceRef : String
  sourceEpoch : ℕ
  providerType : String
  bucketId : String
  fence : QuotaSourceFence
  cycle : Option AccountQuotaCycle
  nextBoundaryMs : Option ℤ
  lastObservedAtMs : ℤ
deriving DecidableEq, Repr

inductive QuotaEventStatus
  | committed
  | historical
  | needsReconcile
deriving DecidableEq, Repr

structure QuotaResetEvent where
  eventId : String
  sourceRef : String
  bucketId : String
  effectiveAtMs : ℤ
  discoveredAtMs : ℤ
  basis : QuotaTimeBasis
  status : QuotaEventStatus
  cycleId : String
deriving DecidableEq, Repr

structure QuotaResetCorrection where
  eventKey : String
  previousEffectiveAtMs : ℤ
  effectiveAtMs : ℤ
  discoveredAtMs : ℤ
  applied : Bool
deriving DecidableEq, Repr

def QuotaResetCorrection.mark (c : QuotaResetCorrection) : String × ℤ × ℤ × Bool :=
  (c.eventKey, c.previousEffectiveAtMs, c.effectiveAtMs, c.applied)

instance lawfulBEqMark : LawfulBEq (String × ℤ × ℤ × Bool) := inferInstance

inductive ResetCreditStatus
  | intentDurable
  | dispatched
  | unknown
  | confirmed
  | rejected
deriving DecidableEq, Repr

structure ResetCreditOperation where
  operationId : String
  requestId : String
  sourceRef : String
  fence : QuotaSourceFence
  status : ResetCreditStatus
  createdAtMs : ℤ
  confirmedAtMs : Option ℤ
  result : Option String
  creditFingerprint : String
deriving DecidableEq, Repr

/-- The fields that no function here reads are left out. -/
structure PublicResetCursor where
  etag : Option String := none
  nextCursor : Option String := none
  fromAtMs : Option ℤ := none
  checkedAtMs : Option ℤ := none
  retryAtMs : Option ℤ := none
  highWatermarkMs : Option ℤ := none
deriving DecidableEq, Repr

/-- The sources, their reset events, the corrections of these and the reset-credit operations. -/
structure QuotaCycleLedger where
  schemaVersion : ℕ
  streamIncarnation : String
  sources : OrderedMap String QuotaCycleSource
  events : OrderedMap String QuotaResetEvent
  operations : OrderedMap String ResetCreditOperation
  publicCursor : PublicResetCursor
  publicEvents : OrderedMap String ℤ
  publicStatusCursor : PublicResetCursor
  corrections : List QuotaResetCorrection
  redeemRecoveryRequired : Bool
  revision : ℕ

namespace QuotaCycleLedger

def default (streamIncarnation : String) : QuotaCycleLedger where
  schemaVersion := quotaCycleSchema
  streamIncarnation := streamIncarnation
  sources := .empty
  events := .empty
  operations := .empty
  publicCursor := {}
  publicEvents := .empty
  publicStatusCursor := {}
  corrections := []
  redeemRecoveryRequired := false
  revision := 0

def source (l : QuotaCycleLedger) (sourceRef : String) : Option QuotaCycleSource :=
  l.sources.values.find? fun s => s.sourceRef = sourceRef

end QuotaCycleLedger

def eventKey (sourceRef eventId : String) : String := sourceRef ++ ":" ++ eventId

/-- Addition of one to a `u64` counter that stays at its maximum. -/
def saturatingSucc (n : ℕ) : ℕ := min (n + 1) u64Max

theorem saturatingSucc_pos (n : ℕ) : 0 < saturatingSucc n := by
  unfold saturatingSucc u64Max
  omega

/-! ## Opaque identifiers -/

/-- The identifiers that `opaque_id` hands out, in the order of the calls: always a new one, not
empty, and without the separator of event keys. -/
structure OpaqueIds where
  id : ℕ → String
  injective : Function.Injective id
  nonempty : ∀ n, id n ≠ ""
  noColon : ∀ n, ':' ∉ (id n).toList

end CcSwitchServer.QuotaCycle
