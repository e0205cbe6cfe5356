import CcSwitchServer.Sharing.Model

/-! # Usage counters of a user (`impl ShareUserUsage` in `src/domain/sharing/shares.rs`)

Buckets count every request: for the lifetime, the UTC day, week and month, and an anchored period.
-/

namespace CcSwitchServer.Sharing
open Foundations Calendar

/-! ## Starts of the calendar windows -/

section
variable (wall : ℤ)

/-- An instant that is no date of `chrono` is replaced by the wall clock. -/
def utcDay (nowMs : ℤ) : ℤ := if IsDate (nowMs / dayMs) then nowMs / dayMs else wall / dayMs

def utcDayStartMs (nowMs : ℤ) : ℤ := utcDay wall nowMs * dayMs

def utcWeekStartMs (nowMs : ℤ) : ℤ := (utcDay wall nowMs - daysFromMonday (utcDay wall nowMs)) * dayMs

def utcCalendarMonthStartMs (nowMs : ℤ) : ℤ := monthStart (monthOf (utcDay wall nowMs)) * dayMs

end

/-! ## Buckets -/

def currentBucketTokens (bucket : ShareUserUsageBucket) (expectedStartMs : ℤ) : ℕ :=
  if bucket.startedAtMs = expectedStartMs then bucket.tokensUsed else 0

/-- A request of another window makes the bucket begin anew. -/
def recordBucket (bucket : ShareUserUsageBucket) (startMs : ℤ) (tokens : ℕ) (countRequest : Bool) :
    ShareUserUsageBucket :=
  let bucket := if bucket.startedAtMs ≠ startMs then { startedAtMs := startMs } else bucket
  { bucket with
    tokensUsed := saturatingAdd bucket.tokensUsed tokens
    requestsCount := if countRequest then saturatingAdd bucket.requestsCount 1 else bucket.requestsCount }

/-- The policy's anchor and the start of its window, for a policy with a fixed period. -/
def anchoredStart (policy : ShareUserPolicy) (nowMs : ℤ) : Option (ℤ × ℤ) :=
  if policy.tokenPeriod.requiresAnchor then
    match tokenPeriodWindow policy nowMs with
    | .error _ => none
    | .ok window => do
      let anchorAtMs ← policy.tokenPeriodAnchorAtMs
      let startedAtMs ← window.startsAtMs
      pure (anchorAtMs, startedAtMs)
  else none

def emptyAnchored (policy : ShareUserPolicy) (anchorAtMs startedAtMs : ℤ) : ShareAnchoredUsageBucket :=
  ⟨policy.tokenPeriod, anchorAtMs, startedAtMs, 0, 0⟩

def ShareAnchoredUsageBucket.add (bucket : ShareAnchoredUsageBucket) (tokens : ℕ) (count : Bool) :
    ShareAnchoredUsageBucket :=
  { bucket with
    tokensUsed := saturatingAdd bucket.tokensUsed tokens
    requestsCount := if count then saturatingAdd bucket.requestsCount 1 else bucket.requestsCount }

namespace ShareUserUsage
variable (wall : ℤ)

variable (u : ShareUserUsage)

def tokensFor (period : ShareTokenPeriod) (nowMs : ℤ) : ℕ :=
  match period with
  | .lifetime => u.lifetime.tokensUsed
  | .day => currentBucketTokens u.day (utcDayStartMs wall nowMs)
  | .week => currentBucketTokens u.week (utcWeekStartMs wall nowMs)
  | .calendarMonth => currentBucketTokens u.calendarMonth (utcCalendarMonthStartMs wall nowMs)
  | .sevenDays | .thirtyDays | .accountReset => 0

variable (policy : ShareUserPolicy)

def tokensForPolicy (nowMs : ℤ) : ℕ :=
  if policy.tokenPeriod.requiresAnchor then
    match anchoredStart policy nowMs, u.anchored with
    | some (anchorAtMs, startedAtMs), some bucket =>
      if bucket.period = policy.tokenPeriod ∧ bucket.anchorAtMs = anchorAtMs ∧
          bucket.startedAtMs = startedAtMs then bucket.tokensUsed
      else 0
    | _, _ => 0
  else u.tokensFor wall policy.tokenPeriod nowMs

variable (tokens : ℕ)

def recordInner (nowMs : ℤ) (countRequest : Bool) : ShareUserUsage :=
  { u with
    lifetime := recordBucket u.lifetime 0 tokens countRequest
    day := recordBucket u.day (utcDayStartMs wall nowMs) tokens countRequest
    week := recordBucket u.week (utcWeekStartMs wall nowMs) tokens countRequest
    calendarMonth := recordBucket u.calendarMonth (utcCalendarMonthStartMs wall nowMs) tokens countRequest }

/-- A policy with a fixed period has a bucket of its own, anchored where the policy says. -/
def recordForPolicyInner (nowMs : ℤ) (countRequest : Bool) : ShareUserUsage :=
  let u := u.recordInner wall tokens nowMs countRequest
  match anchoredStart policy nowMs with
  | none => u
  | some (anchorAtMs, startedAtMs) =>
    let fresh := emptyAnchored policy anchorAtMs startedAtMs
    let bucket :=
      match u.anchored with
      | none => fresh
      | some bucket =>
        if bucket.period ≠ policy.tokenPeriod ∨ bucket.anchorAtMs ≠ anchorAtMs ∨
            bucket.startedAtMs ≠ startedAtMs then fresh
        else bucket
    { u with anchored := some (bucket.add tokens countRequest) }

def recordForPolicy (nowMs : ℤ) : ShareUserUsage :=
  u.recordForPolicyInner wall policy tokens nowMs true

def recordSupplementalForPolicy (nowMs : ℤ) : ShareUserUsage :=
  u.recordForPolicyInner wall policy tokens nowMs false

/-- A window that is newer than the bucket's, or the bucket's own. -/
def recordUnlessOlder (bucket : ShareUserUsageBucket) (start : ℤ) (tokens : ℕ) (count : Bool) : ShareUserUsageBucket :=
  if bucket.startedAtMs ≤ start then recordBucket bucket start tokens count else bucket

/-- Deltas of cumulative revisions may arrive out of order: a newer bucket is not reset for an older one. -/
def recordMarketDelta (at_ : ℤ) (count : Bool) : ShareUserUsage :=
  let u := { u with
    lifetime := recordBucket u.lifetime 0 tokens count
    day := recordUnlessOlder u.day (utcDayStartMs wall at_) tokens count
    week := recordUnlessOlder u.week (utcWeekStartMs wall at_) tokens count
    calendarMonth := recordUnlessOlder u.calendarMonth (utcCalendarMonthStartMs wall at_) tokens count }
  match anchoredStart policy at_ with
  | none => u
  | some (anchor, start) =>
    let bucket := u.anchored.getD (emptyAnchored policy anchor start)
    let bucket :=
      if bucket.period ≠ policy.tokenPeriod ∨ bucket.anchorAtMs ≠ anchor ∨ bucket.startedAtMs < start then
        emptyAnchored policy anchor start
      else bucket
    { u with anchored := some (if bucket.startedAtMs = start then bucket.add tokens count else bucket) }

end ShareUserUsage

end CcSwitchServer.Sharing
