import CcSwitchServer.Foundations.Checked
import CcSwitchServer.Foundations.Text

/-! # Usage logs (`src/domain/usage/store.rs`)

The record of one request, with the fields that the quota ledgers read.
-/

namespace CcSwitchServer.Usage
open Foundations

inductive UsageRecordKind
  | userInference
  | internalSupplemental
  | healthProbe
  deriving DecidableEq, Repr

inductive RequestKind
  | text
  | image
  | video
  deriving DecidableEq, Repr

inductive UsageState
  | pending
  | observed
  | missing
  | parseError
  | interrupted
  | notApplicable
  deriving DecidableEq, Repr

/-- The quota source, its epoch and the bucket that a request is charged to. -/
structure QuotaAttribution where
  sourceRef : String
  sourceEpoch : ℕ
  bucketId : String
  startedAtMs : ℤ
  deriving DecidableEq, Repr

structure CacheCreationDetails where
  fiveMinutes : ℕ
  oneHour : ℕ
  deriving DecidableEq, Repr

structure UsageLog where
  requestId : String
  quotaAttribution : Option QuotaAttribution := none
  recordKind : UsageRecordKind := .userInference
  requestKind : RequestKind := .text
  parentRequestId : Option String := none
  profileId : Option String := none
  model : Option String := none
  actualModel : Option String := none
  reportedModel : Option String := none
  reportedModelMismatch : Option Bool := none
  reportedModelConflict : Option Bool := none
  reportedServiceTier : Option String := none
  reportedServiceTierConflict : Option Bool := none
  effectiveServiceTier : Option String := none
  statusCode : ℕ := 200
  failureKind : Option String := none
  createdAtMs : ℕ := 0
  startedAtMs : ℕ := 0
  attemptCount : ℕ := 0
  rawInputTokens : Option ℕ := none
  inputTokens : Option ℕ := none
  outputTokens : Option ℕ := none
  cacheReadTokens : Option ℕ := none
  cacheCreationTokens : Option ℕ := none
  cacheCreationDetails : Option CacheCreationDetails := none
  totalTokens : Option ℕ := none
  shareId : Option String := none
  userEmail : Option String := none
  isHealthCheck : Bool := false
  isStreaming : Bool := false
  streamStatus : Option String := none
  usageState : UsageState := .missing
  usageRevision : ℕ := 0
  usageEstimated : Bool := false
  valueStreamedTextBytes : Option ℕ := none
  deriving DecidableEq, Repr

def saturatingAddU64 (a b : ℕ) : ℕ := min (a + b) u64Max

namespace UsageLog

def processedTokens (log : UsageLog) : ℕ :=
  saturatingAddU64 (saturatingAddU64 (saturatingAddU64 (log.inputTokens.getD 0)
    (log.outputTokens.getD 0)) (log.cacheReadTokens.getD 0)) (log.cacheCreationTokens.getD 0)

def quotaTokens (log : UsageLog) : ℕ :=
  if 0 < log.processedTokens then log.processedTokens else log.totalTokens.getD 0

end UsageLog

end CcSwitchServer.Usage
