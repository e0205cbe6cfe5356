import CcSwitchServer.Sharing.UserUsage
import CcSwitchServer.Usage.Log

/-! # Attribution of Market requests (`src/domain/sharing/market_trials.rs`)

A function that fails leaves the share as it was: its callers work on a copy of the store and drop it.
-/

namespace CcSwitchServer.Sharing
open Foundations Usage ValuePricing

def receiptRetentionMs : ℤ := 35 * 86400000
def maxMarketRequests : ℕ := 1000000

/-- Addition of `i64` values that stops at the largest one. -/
def saturatingAddI64 (a b : ℤ) : ℤ := min (a + b) i64Max

namespace Share

/-! ## Budgets -/

variable (share : Share)

/-- An entitlement of the trial scope has uncertain usage. -/
def uncertain (id : String) : Bool :=
  (share.marketEntitlements.get? id).any fun state =>
    share.marketEntitlements.values.any fun other =>
      other.trialScopeId = state.trialScopeId ∧ other.usageUncertain

def microsToPicos (micros : String) : Option ℕ :=
  match unsignedDecimal micros with
  | .ok n => checkedMul n picosPerMicro
  | .error _ => none

def scopeValueUsed (trialScopeId : String) : Option ℕ :=
  (share.marketEntitlements.values.filter fun e => e.trialScopeId = trialScopeId).foldlM (fun sum e =>
    match unsignedDecimal e.trialValueUsedPicos with
    | .ok used => checkedAdd sum used
    | .error _ => none) 0

/-- The limit in money is reached, or the amounts overflow. -/
def valueExhausted (state : ShareMarketEntitlement) : Bool :=
  let limitReached :=
    match state.trialValueLimitUsdMicros with
    | none => false
    | some limit =>
      match microsToPicos limit, unsignedDecimal state.trialValueUsedPicos with
      | some limit, .ok used => ¬used < limit
      | _, _ => true
  limitReached ||
    match state.trialValueAllowanceUsdMicros with
    | none => false
    | some allowance =>
      match microsToPicos allowance, share.scopeValueUsed state.trialScopeId with
      | some allowance, some sum => allowance ≤ sum
      | _, _ => true

def scopeTokensUsed (trialScopeId : String) : ℕ :=
  (share.marketEntitlements.values.filter fun e => e.trialScopeId = trialScopeId).foldl
    (fun sum e => saturatingAdd sum e.trialTokensUsed) 0

/-- A trial ends when one of its limits or allowances is reached. -/
def exhausted (id : String) : Bool :=
  match share.marketEntitlements.get? id with
  | none => false
  | some state =>
    if state.phase = .trial then
      (state.trialTokenLimit.any fun limit => limit ≤ state.trialTokensUsed) ||
        (state.trialTokenAllowance.any fun limit => limit ≤ share.scopeTokensUsed state.trialScopeId) ||
        share.valueExhausted state
    else false

end Share

/-! ## Compaction -/

def CompactedUsage.add (totals : CompactedUsage) (receipt : MarketRequestReceipt) : CompactedUsage :=
  let requests := if receipt.countRequest then 1 else 0
  match receipt.phase with
  | .trial =>
    { totals with
      trialTokens := saturatingAdd totals.trialTokens receipt.tokens
      trialRequests := saturatingAdd totals.trialRequests requests }
  | .paid =>
    { totals with
      paidTokens := saturatingAdd totals.paidTokens receipt.tokens
      paidRequests := saturatingAdd totals.paidRequests requests }

/-- A receipt that the compaction at `cutoff` keeps. -/
def MarketRequestReceipt.retained (receipt : MarketRequestReceipt) (cutoff : ℤ) : Bool :=
  cutoff ≤ receipt.startedAtMs ∨ receipt.revision = 0

def foldReceipt (totals : OrderedMap String CompactedUsage) (receipt : MarketRequestReceipt) :
    OrderedMap String CompactedUsage :=
  totals.insert receipt.entitlementId (((totals.get? receipt.entitlementId).getD {}).add receipt)

namespace Share

/-- Receipts older than the retention are folded into totals. -/
def compact (share : Share) (at_ : ℤ) : Share :=
  let cutoff := max (at_ - receiptRetentionMs) 0
  if cutoff < saturatingAddI64 share.marketReceiptsBeforeMs 86400000 then share
  else
    { share with
      marketRequests := share.marketRequests.filter fun e => e.2.retained cutoff
      marketCompactedUsage := (share.marketRequests.values.filter fun r => ¬r.retained cutoff).foldl foldReceipt
        share.marketCompactedUsage
      marketReceiptsBeforeMs := cutoff }

/-! ## Admission -/

/-- A request that a contract pays for, or that its trial gives away, gets a receipt. -/
def admitRequest (share : Share) (email requestId : String) (startedAtMs : ℤ) : Except String (Bool × Share) := do
  ensure (requestId ≠ "" ∧ requestId.utf8ByteSize ≤ 128 ∧ 0 < startedAtMs) "invalid market request identity"
  let email := Text.asciiLower (Text.trim email)
  match (share.userGrants.get? email).filter (·.active) with
  | none => pure (false, share)
  | some grant =>
    match grant.entitlementId with
    | none => pure (false, share)
    | some id =>
      match (share.marketEntitlements.get? id).filter (·.active) with
      | none => pure (false, share)
      | some entitlement => do
        ensure (¬share.uncertain id) "MARKET_USAGE_UNAVAILABLE: unresolved metering requires cleanup"
        match share.marketRequests.get? requestId with
        | some saved => do
          ensure (saved.entitlementId = id ∧ saved.email = email ∧ saved.phase = entitlement.phase)
            "market request identity or phase changed"
          pure (true, share)
        | none => do
          let share := share.compact startedAtMs
          ensure (share.marketReceiptsBeforeMs ≤ startedAtMs) "market request precedes retained revision window"
          ensure (share.marketRequests.size < maxMarketRequests)
            "MARKET_USAGE_CAPACITY: unresolved or recent receipts must be retained"
          ensure (¬share.exhausted id) "MARKET_TRIAL_EXHAUSTED: trial conversion is pending"
          pure (true, { share with
            marketRequests := share.marketRequests.insert requestId
              { entitlementId := id, email := email, phase := entitlement.phase, startedAtMs := startedAtMs,
                tokens := 0, revision := 0 } })

/-! ## Recording usage -/

/-- A supplemental request without a receipt inherits the one of its parent. -/
def inherit (share : Share) (log : UsageLog) : Share :=
  if share.marketRequests.get? log.requestId = none ∧ log.recordKind = .internalSupplemental then
    match log.parentRequestId.bind share.marketRequests.get? with
    | none => share
    | some parent =>
      { share with
        marketRequests := share.marketRequests.insert log.requestId
          { parent with
            tokens := 0
            revision := 0
            countRequest := false
            valuePicos := "0"
            parentRequestId := log.parentRequestId } }
  else share

/-- The log is of the kind, share and user of the receipt. -/
def Attributed (share : Share) (receipt : MarketRequestReceipt) (log : UsageLog) : Prop :=
  (receipt.countRequest ∨ receipt.parentRequestId = log.parentRequestId) ∧
    receipt.countRequest = decide (log.recordKind = .userInference) ∧ log.shareId = some share.id ∧
    log.userEmail.any fun e => Text.eqIgnoreAsciiCase e receipt.email

instance (share : Share) (receipt : MarketRequestReceipt) (log : UsageLog) :
    Decidable (share.Attributed receipt log) :=
  inferInstanceAs (Decidable (_ ∧ _))

end Share

def logUncertain (phase : ShareMarketPhase) (log : UsageLog) : Bool :=
  phase = .trial ∧ (log.usageState = .interrupted ∨ log.usageState = .parseError ∨
    log.usageState = .missing ∧ 200 ≤ log.statusCode ∧ log.statusCode < 300)

/-- The entitlement after `delta` more Tokens of one of its requests. -/
def chargeEntitlement (entitlement : ShareMarketEntitlement) (phase : ShareMarketPhase) (delta : ℕ)
    (uncertain : Bool) : Except String ShareMarketEntitlement := do
  let entitlement := { entitlement with usageUncertain := entitlement.usageUncertain || uncertain }
  match phase with
  | .paid => pure entitlement
  | .trial => do
    let used ← context (checkedAddU64 entitlement.trialTokensUsed delta) "market Tokens overflow"
    let revision ← context (checkedAddU64 entitlement.usageRevision 1) "market usage revision overflow"
    pure { entitlement with trialTokensUsed := used, usageRevision := revision }

/-- The user's counters after `delta` more Tokens, if the contract is still in the phase of the request. -/
def chargeGrant (wall : ℤ) (grants : UserGrants) (entitlement : ShareMarketEntitlement)
    (receipt : MarketRequestReceipt) (delta : ℕ) (countRequest : Bool) : UserGrants :=
  match grants.get? receipt.email with
  | none => grants
  | some grant =>
    if grant.entitlementId = some receipt.entitlementId ∧ entitlement.phase = receipt.phase then
      grants.insert receipt.email
        { grant with
          usage := grant.usage.recordMarketDelta wall grant.policy delta receipt.startedAtMs countRequest
          usageRebase := none
          usageQuota := none }
    else grants

namespace Share

variable (wall : ℤ)

variable (share : Share)

/-- The counters are raised by what the log adds to its receipt. -/
def record (log : UsageLog) : Except String (Bool × Share) :=
  let share := share.inherit log
  match share.marketRequests.get? log.requestId with
  | none => pure (false, share)
  | some receipt => do
    ensure (share.Attributed receipt log) "market usage identity changed"
    if log.usageState = .pending then pure (false, share)
    else
      let tokens := log.quotaTokens
      let revision := max log.usageRevision 1
      if revision < receipt.revision then pure (false, share)
      else if revision = receipt.revision then do
        ensure (tokens = receipt.tokens) "market usage revision changed payload"
        pure (false, share)
      else do
        ensure (receipt.tokens ≤ tokens) "market usage cannot erase confirmed Tokens"
        let countRequest := receipt.revision = 0 && receipt.countRequest
        let delta := tokens - receipt.tokens
        let entitlement ← context (share.marketEntitlements.get? receipt.entitlementId)
          "market entitlement missing"
        let entitlement ← chargeEntitlement entitlement receipt.phase delta (logUncertain receipt.phase log)
        pure (true, { share with
          marketRequests := share.marketRequests.insert log.requestId
            { receipt with tokens := tokens, revision := revision }
          marketEntitlements := share.marketEntitlements.insert receipt.entitlementId entitlement
          userGrants := chargeGrant wall share.userGrants entitlement receipt delta countRequest })

/-! ## Recovery -/

def markUncertain (id : String) : Except String Share := do
  let state ← context (share.marketEntitlements.get? id) "market entitlement missing during recovery"
  pure { share with marketEntitlements := share.marketEntitlements.insert id { state with usageUncertain := true } }

/-- The recovery of one request that has no final usage. -/
def recoverRequest (logs : List UsageLog) (share : Share) (id : String) : Except String Share := do
  let share ←
    match logs.find? fun l => l.requestId = id ∧ l.usageState ≠ .pending with
    | none => pure share
    | some log => Prod.snd <$> share.record wall log
  match share.marketRequests.get? id with
  | none => .error "missing receipt"
  | some receipt =>
    if receipt.revision = 0 ∧ receipt.phase = .trial then share.markUncertain receipt.entitlementId
    else pure share

/-- Open receipts are recorded from their logs; after a restore every active contract is uncertain. -/
def recover (logs : List UsageLog) (restored : Bool) : Except String Share := do
  let pending := (share.marketRequests.entries.filter fun e => e.2.revision = 0).map Prod.fst
  let share ← pending.foldlM (recoverRequest wall logs) share
  if restored then
    pure { share with
      marketEntitlements := share.marketEntitlements.mapValues fun s =>
        if s.active then { s with usageUncertain := true } else s }
  else pure share

/-! ## The counters of the current phase -/

/-- The usage of a grant, rebuilt from the receipts of its contract's current phase. -/
def projectGrant (grant : ShareUserGrant) : ShareUserGrant :=
  match grant.entitlementId with
  | none => grant
  | some id =>
    match share.marketEntitlements.get? id with
    | none => grant
    | some entitlement =>
      let receipts := (share.marketRequests.values.filter fun r =>
        r.entitlementId = id ∧ r.phase = entitlement.phase ∧ 0 < r.revision).insertionSort
          fun a b => a.startedAtMs ≤ b.startedAtMs
      let usage : ShareUserUsage :=
        match share.marketCompactedUsage.get? id with
        | none => {}
        | some compacted =>
          match entitlement.phase with
          | .trial => { lifetime := ⟨0, compacted.trialTokens, compacted.trialRequests⟩ }
          | .paid => { lifetime := ⟨0, compacted.paidTokens, compacted.paidRequests⟩ }
      let usage := receipts.foldl (fun usage receipt =>
        if receipt.countRequest then
          usage.recordForPolicy wall grant.policy receipt.tokens receipt.startedAtMs
        else usage.recordSupplementalForPolicy wall grant.policy receipt.tokens receipt.startedAtMs) usage
      { grant with usage := usage, usageRebase := none, usageQuota := none }

/-- The usage of every grant is built anew from the receipts. -/
def project : Share :=
  { share with userGrants := share.userGrants.mapValues (share.projectGrant wall) }

end Share

end CcSwitchServer.Sharing
