import CcSwitchServer.QuotaUsage.Ledger
import CcSwitchServer.Sharing.UserUsage
import CcSwitchServer.Usage.Store

/-! # Token quota of a user and its manual rebase (`src/domain/sharing/shares.rs`)

What the operations of the store do with one grant. The clock is a parameter where it is read.
-/

namespace CcSwitchServer.Sharing
open Foundations QuotaCycle QuotaUsage Usage

inductive SharePatchError
  | notFound
  | bindingImmutable
  | revisionConflict (expected current : ℕ)
  | grantRevisionConflict (email : String) (expected current : ℕ)
  | usageTargetBelowObserved (email : String) (target observed : ℕ)
  | managedGrantReadOnly (email : String)
  | quotaCycleConflict (current : AccountQuotaCycle)
  | invalid (message : String)
  | invalidPeriod (error : PeriodError)
  | invalidQuota (error : QuotaUsageError)

/-! ## Rebuilding the bucket of a policy -/

variable (wall : ℤ)

def ShareUserUsage.rebuildCurrentPolicyBucket (u : ShareUserUsage) (policy : ShareUserPolicy)
    (nowMs : ℤ) (tokensUsed requestsCount : ℕ) : Except PeriodError ShareUserUsage :=
  match policy.tokenPeriod with
  | .accountReset => pure { u with anchored := none }
  | .lifetime => pure { u with lifetime := ⟨0, tokensUsed, requestsCount⟩, anchored := none }
  | .day => pure { u with day := ⟨utcDayStartMs wall nowMs, tokensUsed, requestsCount⟩, anchored := none }
  | .week =>
    pure { u with week := ⟨utcWeekStartMs wall nowMs, tokensUsed, requestsCount⟩, anchored := none }
  | .calendarMonth =>
    pure { u with
      calendarMonth := ⟨utcCalendarMonthStartMs wall nowMs, tokensUsed, requestsCount⟩, anchored := none }
  | .sevenDays | .thirtyDays => do
    let window ← tokenPeriodWindow policy nowMs
    let anchorAtMs ← context policy.tokenPeriodAnchorAtMs .anchorRequired
    let startedAtMs ← context window.startsAtMs .anchorRequired
    pure { u with anchored := some ⟨policy.tokenPeriod, anchorAtMs, startedAtMs, tokensUsed, requestsCount⟩ }

def ShareUserUsage.rebuildAnchored (u : ShareUserUsage) (policy : ShareUserPolicy) (nowMs : ℤ)
    (tokensUsed requestsCount : ℕ) : Except PeriodError ShareUserUsage :=
  if policy.tokenPeriod.requiresAnchor then do
    let window ← tokenPeriodWindow policy nowMs
    let anchorAtMs ← context policy.tokenPeriodAnchorAtMs .anchorRequired
    let startedAtMs ← context window.startsAtMs .anchorRequired
    pure { u with anchored := some ⟨policy.tokenPeriod, anchorAtMs, startedAtMs, tokensUsed, requestsCount⟩ }
  else pure { u with anchored := none }

/-! ## Quota windows and what is observed in them -/

structure ShareUserQuotaWindow where
  period : ShareTokenPeriod
  anchorAtMs : Option ℤ
  startsAtMs : Option ℤ
  endsAtMs : Option ℤ
deriving DecidableEq, Repr

/-- What the history says about a window. -/
structure ShareUserQuotaSnapshot where
  window : ShareUserQuotaWindow
  observedTokens : ℕ
  observedRequests : ℕ
  baselineObservedTokens : Option ℕ
  usageWatermark : ℕ

def quotaWindowForPolicy (policy : ShareUserPolicy) (nowMs : ℤ) : Except PeriodError ShareUserQuotaWindow :=
  if policy.tokenPeriod = .lifetime then pure ⟨.lifetime, none, none, none⟩
  else do
    let window ← tokenPeriodWindow policy nowMs
    pure ⟨policy.tokenPeriod, policy.tokenPeriodAnchorAtMs, window.startsAtMs, window.endsAtMs⟩

/-- The usage history: the logs with their roll-ups, and the ledger of account cycles. -/
structure UsageHistory where
  store : UsageStore
  quotaLedger : QuotaUsageLedger

variable (usage : UsageHistory)

def UsageHistory.journalWatermark : ℕ := (usage.store.journalCheckpoint.map fun c => c.throughSequence).getD 0

def liftPeriod {α : Type} : Except PeriodError α → Except SharePatchError α
  | .ok a => .ok a
  | .error e => .error (.invalidPeriod e)

def liftQuota {α : Type} : Except QuotaUsageError α → Except SharePatchError α
  | .ok a => .ok a
  | .error e => .error (.invalidQuota e)

/-- What was observed in a cycle when the baseline was set, if the baseline is of that cycle. -/
def baselineObserved (shareId email : String) (grant : ShareUserGrant)
    (cycle : AccountQuotaCycle) : Except SharePatchError (Option ℕ) :=
  match grant.accountUsageBaseline with
  | none => pure none
  | some baseline =>
    if baseline.sourceRef = cycle.sourceRef ∧ baseline.cycleId = cycle.cycleId then do
      let observed ← liftQuota (usage.quotaLedger.query cycle shareId email baseline.usageWatermark)
      pure (some observed.1)
    else pure none

/-- The half-open interval of a window; a window without bounds ends now. -/
def windowBounds (window : ShareUserQuotaWindow) (nowMs : ℤ) : Except SharePatchError (ℤ × ℤ) :=
  match window.startsAtMs, window.endsAtMs with
  | some starts, some ends => pure (starts, ends)
  | none, none => pure (0, min (nowMs + 1) i64Max)
  | _, _ => .error (.invalid "quota window has only one boundary")

def observeUserQuota (shareId email : String) (grant : ShareUserGrant) (nowMs : ℤ) :
    Except SharePatchError ShareUserQuotaSnapshot :=
  if grant.policy.tokenPeriod = .accountReset then do
    let cycle ← context grant.accountQuotaCycle (.invalid "ACCOUNT_RESET_NOT_READY")
    let observed ← liftQuota (usage.quotaLedger.query cycle shareId email usage.quotaLedger.watermark)
    let baseline ← baselineObserved usage shareId email grant cycle
    pure ⟨⟨.accountReset, none, some cycle.startsAtMs, cycle.endsAtMs⟩, observed.1, observed.2, baseline,
      usage.quotaLedger.watermark⟩
  else do
    let window ← liftPeriod (quotaWindowForPolicy grant.policy nowMs)
    let bounds ← windowBounds window nowMs
    let observed := shareUserQuotaUsage usage.store shareId email bounds.1 bounds.2
    pure ⟨window, observed.1, observed.2, none, 0⟩

/-- A rebase is of one window. -/
def rebaseMatchesWindow (rebase : ShareUserUsageRebase) (window : ShareUserQuotaWindow) : Bool :=
  rebase.period = window.period ∧ rebase.anchorAtMs = window.anchorAtMs ∧
    rebase.windowStartsAtMs = window.startsAtMs ∧ rebase.windowEndsAtMs = window.endsAtMs

/-- `QuotaUsageLedger::effective_with_baseline` -/
def effectiveWithBaseline (observed target observedAtEdit : ℕ) : ℕ :=
  min (max 0 ((target : ℤ) + observed - observedAtEdit)).toNat u64Max

variable (grant : ShareUserGrant)

def effectiveUserTokens (snapshot : ShareUserQuotaSnapshot) : ℕ :=
  if grant.policy.tokenPeriod = .accountReset then
    match snapshot.baselineObservedTokens, grant.accountUsageBaseline with
    | some observedAtEdit, some baseline =>
      effectiveWithBaseline snapshot.observedTokens baseline.targetTokens observedAtEdit
    | _, _ => snapshot.observedTokens
  else
    match grant.usageRebase with
    | none => snapshot.observedTokens
    | some rebase =>
      if rebaseMatchesWindow rebase snapshot.window then
        saturatingAdd rebase.targetTokens (snapshot.observedTokens - rebase.observedTokensAtRebase)
      else snapshot.observedTokens

/-- The fast reading, by which a request is admitted. -/
def effectiveGrantTokensForPolicy (grant : ShareUserGrant) (nowMs : ℤ) : ℕ :=
  if grant.policy.tokenPeriod = .accountReset then
    (grant.usageQuota.map fun quota => quota.effectiveTokensUsed).getD u64Max
  else
    let bucket := grant.usage.tokensForPolicy wall grant.policy nowMs
    let viewed :=
      match grant.usageQuota with
      | none => bucket
      | some quota => if quota.rebaseApplies then max quota.effectiveTokensUsed bucket else bucket
    match grant.usageRebase with
    | none => viewed
    | some rebase =>
      if rebase.period = grant.policy.tokenPeriod ∧
          rebase.anchorAtMs = grant.policy.tokenPeriodAnchorAtMs then
        max (max rebase.targetTokens bucket) ((grant.usageQuota.map fun quota => quota.effectiveTokensUsed).getD 0)
      else viewed

/-- `validate_for_invocation` rejects the user with `UserExhausted`. -/
def userExhausted (grant : ShareUserGrant) (nowMs : ℤ) : Bool :=
  grant.policy.tokenLimit.any fun limit => limit ≤ effectiveGrantTokensForPolicy wall grant nowMs

def clampI64 (n : ℕ) : ℤ := min n i64Max

def quotaView (snapshot : ShareUserQuotaSnapshot) (effectiveTokens : ℕ)
    (rebaseApplies : Bool) : ShareUserQuotaView where
  period := snapshot.window.period
  anchorAtMs := snapshot.window.anchorAtMs
  windowStartsAtMs := snapshot.window.startsAtMs
  windowEndsAtMs := snapshot.window.endsAtMs
  effectiveTokensUsed := effectiveTokens
  observedTokensUsed := snapshot.observedTokens
  manualOffsetTokens := clampI64 effectiveTokens - clampI64 snapshot.observedTokens
  observedRequestsCount := snapshot.observedRequests
  rebaseApplies :=
    if grant.policy.tokenPeriod = .accountReset then snapshot.baselineObservedTokens.isSome
    else rebaseApplies && grant.usageRebase.isSome
  usageWatermark := snapshot.usageWatermark

/-! ## Operations on a grant -/

/-- A grant whose entitlement the share knows is charged by its Market receipts. -/
def ShareUserGrant.isMarket (entitlements : OrderedMap String ShareMarketEntitlement) : Bool :=
  grant.entitlementId.any fun id => (entitlements.get? id).isSome

def recordUserUsage (entitlements : OrderedMap String ShareMarketEntitlement)
    (grant : ShareUserGrant) (tokens : ℕ) (recordedAtMs : ℤ) (countRequest : Bool) (nowMs : ℕ) :
    ShareUserGrant :=
  if grant.isMarket entitlements then grant
  else
    let policy := grant.policy
    let baseline := effectiveGrantTokensForPolicy wall grant recordedAtMs
    let current := grant.usage.tokensForPolicy wall policy recordedAtMs
    let usage :=
      if current < baseline then
        match grant.usage.rebuildCurrentPolicyBucket wall policy recordedAtMs baseline
          ((grant.usageQuota.map fun quota => quota.observedRequestsCount).getD 0) with
        | .ok usage => usage
        | .error _ => grant.usage
      else grant.usage
    let usage := usage.recordForPolicyInner wall policy tokens recordedAtMs countRequest
    let used := usage.tokensForPolicy wall policy recordedAtMs
    { grant with
      usage := usage
      usageQuota :=
        if policy.tokenPeriod = .accountReset then grant.usageQuota
        else grant.usageQuota.map fun quota =>
          { quota with
            effectiveTokensUsed := used
            observedTokensUsed := saturatingAdd quota.observedTokensUsed tokens
            observedRequestsCount :=
              if countRequest then saturatingAdd quota.observedRequestsCount 1
              else quota.observedRequestsCount }
      updatedAtMs := nowMs }

inductive ShareUserUsageEditAction
  | set
  | clear
deriving DecidableEq, Repr

structure ShareUserUsageEdit where
  action : ShareUserUsageEditAction
  targetTokens : Option ℕ := none
  expectedGrantRevision : Option ℕ := none
  period : Option ShareTokenPeriod := none
  anchorAtMs : Option ℤ := none
  source : ShareUsageRebaseSource := .manual
  expectedAccountCycle : Option AccountQuotaCycle := none

def sameCycle (a b : AccountQuotaCycle) : Bool :=
  a.streamIncarnation = b.streamIncarnation ∧ a.sourceRef = b.sourceRef ∧ a.sourceEpoch = b.sourceEpoch ∧
    a.bucketId = b.bucketId ∧ a.cycleId = b.cycleId

/-- The checks that come before an edit of any period. -/
def checkUserUsageEdit (email : String) (previous : Option ShareUserGrant) (grant : ShareUserGrant)
    (edit : ShareUserUsageEdit) : Except SharePatchError Unit := do
  let current := (previous.map fun g => g.revision).getD 0
  match edit.expectedGrantRevision with
  | none => pure ()
  | some expected => ensure (current = expected) (.grantRevisionConflict email expected current)
  ensure (grant.active = true) (.invalid s!"user grant {email} is inactive")
  ensure (grant.manager ≠ .routerShareMarket) (.managedGrantReadOnly email)
  ensure (grant.policy.valueQuota = none ∧ grant.pendingValueQuota = none)
    (.invalid "Token usage edits cannot modify a USD-equivalent grant; use valueUsageEdit")
  ensure (∀ period ∈ edit.period, period = grant.policy.tokenPeriod)
    (.invalid s!"usage edit period does not match grant policy for {email}")
  ensure (∀ anchor ∈ edit.anchorAtMs, grant.policy.tokenPeriodAnchorAtMs = some anchor)
    (.invalid s!"usage edit anchor does not match grant policy for {email}")

def accountBaseline (cycle : AccountQuotaCycle) (edit : ShareUserUsageEdit)
    (appliedAtMs : ℤ) (operator : Option String) : Except SharePatchError (Option AccountQuotaBaseline) :=
  match edit.action with
  | .clear => pure none
  | .set => do
    let target ← context edit.targetTokens (.invalid "targetTokens is required")
    pure (some ⟨cycle.sourceRef, cycle.cycleId, target, usage.quotaLedger.watermark, appliedAtMs, operator⟩)

def usageRebase (shareId email : String) (grant : ShareUserGrant)
    (edit : ShareUserUsageEdit) (appliedAtMs : ℤ) (operator : Option String) :
    Except SharePatchError (Option ShareUserUsageRebase) :=
  match edit.action with
  | .clear => pure none
  | .set => do
    let target ← context edit.targetTokens
      (.invalid s!"usage edit targetTokens is required for {email}")
    let snapshot ← observeUserQuota usage shareId email grant appliedAtMs
    ensure (snapshot.observedTokens ≤ target) (.usageTargetBelowObserved email target snapshot.observedTokens)
    pure (some
      { period := grant.policy.tokenPeriod
        anchorAtMs := grant.policy.tokenPeriodAnchorAtMs
        windowStartsAtMs := snapshot.window.startsAtMs
        windowEndsAtMs := snapshot.window.endsAtMs
        targetTokens := target
        observedTokensAtRebase := snapshot.observedTokens
        observedRequestsAtRebase := snapshot.observedRequests
        usageWatermark := usage.journalWatermark
        appliedAtMs := appliedAtMs
        appliedBy := operator
        source := edit.source })

def ShareUserGrant.edited (appliedAtMs : ℤ) : ShareUserGrant :=
  { grant with updatedAtMs := appliedAtMs.toNat, revision := max (saturatingAdd grant.revision 1) 1 }

/-- A rebase is set or cleared, under a new revision of the grant. -/
def applyUserUsageEdit (shareId email : String) (previous : Option ShareUserGrant)
    (grant : ShareUserGrant) (edit : ShareUserUsageEdit) (appliedAtMs : ℤ) (operator : Option String) :
    Except SharePatchError ShareUserGrant := do
  checkUserUsageEdit email previous grant edit
  if grant.policy.tokenPeriod = .accountReset then do
    let cycle ← context grant.accountQuotaCycle (.invalid "ACCOUNT_RESET_NOT_READY")
    ensure (edit.expectedAccountCycle.any fun expected =>
      sameCycle expected cycle ∧ expected.cycleRevision = cycle.cycleRevision) (.quotaCycleConflict cycle)
    let _ ← observeUserQuota usage shareId email grant appliedAtMs
    let baseline ← accountBaseline usage cycle edit appliedAtMs operator
    pure ({ grant with accountUsageBaseline := baseline }.edited appliedAtMs)
  else do
    let rebase ← usageRebase usage shareId email grant edit appliedAtMs operator
    pure ({ grant with usageRebase := rebase }.edited appliedAtMs)

/-- The bucket and the view are derived anew. -/
def rebuildUserUsageFromHistory (entitlements : OrderedMap String ShareMarketEntitlement)
    (usage : UsageHistory) (shareId : String) (grant : ShareUserGrant) (nowMs : ℤ) :
    Except SharePatchError ShareUserGrant :=
  if grant.active = false then
    if grant.policy.tokenPeriod.requiresAnchor then do
      let u ← liftPeriod (grant.usage.rebuildAnchored grant.policy nowMs 0 0)
      pure { grant with usage := u, usageQuota := none }
    else pure { grant with usageQuota := none }
  else if grant.isMarket entitlements then pure grant
  else do
    let email := Text.asciiLower (Text.trim grant.email)
    let snapshot ← observeUserQuota usage shareId email grant nowMs
    let matching := grant.usageRebase.all fun rebase => rebaseMatchesWindow rebase snapshot.window
    let grant := if matching then grant else { grant with usageRebase := none }
    let effective := if matching then effectiveUserTokens grant snapshot else snapshot.observedTokens
    let u ← liftPeriod (grant.usage.rebuildCurrentPolicyBucket wall grant.policy nowMs effective
      snapshot.observedRequests)
    pure { grant with usage := u, usageQuota := some (quotaView grant snapshot effective matching) }

end CcSwitchServer.Sharing
