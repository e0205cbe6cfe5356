import CcSwitchServer.QuotaCycle.Schema
import CcSwitchServer.Sharing.TokenPeriod

/-! # Shares and their grants (`src/domain/sharing/router_contract.rs`, `shares.rs`, `market_trials.rs`)

Counters are `u64` values in `ℕ`, times `i64` or `u128` milliseconds in `ℤ`.
-/

namespace CcSwitchServer.Sharing
open Foundations QuotaCycle

/-! ## Usage of one user -/

/-- The counters of one window. -/
structure ShareUserUsageBucket where
  startedAtMs : ℤ := 0
  tokensUsed : ℕ := 0
  requestsCount : ℕ := 0
deriving DecidableEq, Repr

structure ShareAnchoredUsageBucket where
  period : ShareTokenPeriod
  anchorAtMs : ℤ
  startedAtMs : ℤ
  tokensUsed : ℕ
  requestsCount : ℕ
deriving DecidableEq, Repr

structure ShareUserUsage where
  lifetime : ShareUserUsageBucket := {}
  day : ShareUserUsageBucket := {}
  week : ShareUserUsageBucket := {}
  calendarMonth : ShareUserUsageBucket := {}
  anchored : Option ShareAnchoredUsageBucket := none
deriving DecidableEq, Repr

inductive ShareUsageRebaseSource
  | manual
  | providerReset
deriving DecidableEq, Repr

/-- The baseline of an operator who reconciles a quota with an external reset. -/
structure ShareUserUsageRebase where
  period : ShareTokenPeriod
  anchorAtMs : Option ℤ
  windowStartsAtMs : Option ℤ
  windowEndsAtMs : Option ℤ
  targetTokens : ℕ
  observedTokensAtRebase : ℕ
  observedRequestsAtRebase : ℕ
  usageWatermark : ℕ
  appliedAtMs : ℤ
  appliedBy : Option String
  source : ShareUsageRebaseSource
deriving DecidableEq, Repr

/-- The quota view of the grant's current window, derived from the usage history. -/
structure ShareUserQuotaView where
  period : ShareTokenPeriod
  anchorAtMs : Option ℤ
  windowStartsAtMs : Option ℤ
  windowEndsAtMs : Option ℤ
  effectiveTokensUsed : ℕ
  observedTokensUsed : ℕ
  manualOffsetTokens : ℤ
  observedRequestsCount : ℕ
  rebaseApplies : Bool
  usageWatermark : ℕ
deriving DecidableEq, Repr

structure AccountQuotaBaseline where
  sourceRef : String
  cycleId : String
  targetTokens : ℕ
  usageWatermark : ℕ
  appliedAtMs : ℤ
  appliedBy : Option String
deriving DecidableEq, Repr

/-! ## Grants -/

inductive ShareGrantManager
  | owner
  | manual
  | routerShareMarket
deriving DecidableEq, Repr

/-- A policy that is scheduled for later. -/
structure PendingValueQuota where
  policy : ShareUserPolicy
  effectiveFromMs : ℤ
  retainAccess : Bool
deriving DecidableEq, Repr

/-- What a user of the share may use; a grant that a contract pays for names its entitlement. -/
structure ShareUserGrant where
  email : String := ""
  role : String := ""
  active : Bool := false
  policy : ShareUserPolicy := {}
  pendingValueQuota : Option PendingValueQuota := none
  usage : ShareUserUsage := {}
  usageRebase : Option ShareUserUsageRebase := none
  usageQuota : Option ShareUserQuotaView := none
  accountQuotaCycle : Option AccountQuotaCycle := none
  accountUsageBaseline : Option AccountQuotaBaseline := none
  createdAtMs : ℕ := 0
  updatedAtMs : ℕ := 0
  revokedAtMs : Option ℕ := none
  revision : ℕ := 0
  manager : ShareGrantManager := .manual
  entitlementId : Option String := none
deriving DecidableEq, Repr

abbrev UserGrants := OrderedMap String ShareUserGrant

/-! ## Market entitlements -/

inductive ShareMarketPhase
  | trial
  | paid
deriving DecidableEq, Repr

/-- A decimal amount is kept as the text that the functions parse. -/
structure ShareMarketEntitlement where
  trialScopeId : String
  trialTokenAllowance : Option ℕ
  email : String
  phase : ShareMarketPhase
  active : Bool
  trialTokenLimit : Option ℕ
  trialTokensUsed : ℕ
  usageRevision : ℕ
  usageUncertain : Bool
  appliedAtMs : ℤ
  paidStartedAtMs : Option ℤ
  trialValueAllowanceUsdMicros : Option String
  trialValueLimitUsdMicros : Option String
  trialValueUsedPicos : String
deriving DecidableEq, Repr

/-- What a request counts against its entitlement. -/
structure MarketRequestReceipt where
  entitlementId : String
  email : String
  phase : ShareMarketPhase
  startedAtMs : ℤ
  tokens : ℕ
  revision : ℕ
  countRequest : Bool := true
  parentRequestId : Option String := none
  valuePicos : String := "0"
deriving DecidableEq, Repr

/-- Totals of the receipts that were compacted. -/
structure CompactedUsage where
  trialTokens : ℕ := 0
  trialRequests : ℕ := 0
  paidTokens : ℕ := 0
  paidRequests : ℕ := 0
deriving DecidableEq, Repr

inductive ShareManagedGrantAction
  | upsert
  | revoke
deriving DecidableEq, Repr

structure TerminationFence where
  terminationId : String
  cutoffAtMs : ℤ
  periodStartMs : ℤ
  periodEndMs : ℤ
  policy : ShareUserPolicy
deriving DecidableEq, Repr

structure ShareManagedGrantOperation where
  termination : Option TerminationFence := none
  operationId : String
  entitlementId : String
  shareSequence : ℤ
  expectedConfigRevision : ℕ
  action : ShareManagedGrantAction
  email : String
  policy : Option ShareUserPolicy := none
  durationSeconds : Option ℕ := none
  marketPhase : Option ShareMarketPhase := none
  trialScopeId : Option String := none
  trialTokenAllowance : Option ℕ := none
  trialTokenLimit : Option ℕ := none
  trialValueAllowanceUsdMicros : Option String := none
  trialValueLimitUsdMicros : Option String := none
deriving DecidableEq, Repr

/-! ## Shares -/

/-- The part of a share that users and their contracts live in. -/
structure Share where
  id : String
  ownerEmail : Option String := none
  userGrants : UserGrants := .empty
  marketEntitlements : OrderedMap String ShareMarketEntitlement := .empty
  marketRequests : OrderedMap String MarketRequestReceipt := .empty
  pendingMarketTerminationAcks : OrderedMap String String := .empty
  marketCompactedUsage : OrderedMap String CompactedUsage := .empty
  marketReceiptsBeforeMs : ℤ := 0
  configRevision : ℕ := 0

end CcSwitchServer.Sharing
