import CcSwitchServer.Foundations.OrderedMap
import CcSwitchServer.Foundations.Runs
import CcSwitchServer.Usage.Log

/-! # The usage store in memory (`src/domain/usage/store.rs`)

The logs of the last 32 days, and roll-ups that outlive them. Clocks are arguments; the token ledger is modelled
with the quota ledgers.
-/

namespace CcSwitchServer.Usage
open Foundations

def usageDayMs : ℕ := 24 * 60 * 60 * 1000

def usageDetailRetentionMs : ℕ := 32 * usageDayMs

def usageRollupBucketMs : ℕ := 60 * 1000

def u128Max : ℕ := 2 ^ 128 - 1

def UsageRecordKind.asStr : UsageRecordKind → String
  | .userInference => "user_inference"
  | .internalSupplemental => "internal_supplemental"
  | .healthProbe => "health_probe"

/-- The user of a log, as `apply_context` stores it. -/
def contextUserEmail (email : Option String) : Option String :=
  (email.map fun e => Text.asciiLower (Text.trim e)).filter fun e => e ≠ ""

/-! ## Roll-ups -/

def isShareUserQuotaRecord (log : UsageLog) : Bool :=
  !log.isHealthCheck && log.recordKind ≠ .healthProbe && log.shareId.any (· ≠ "") && log.userEmail.any (· ≠ "")

def bucketStart (log : UsageLog) : ℕ := log.createdAtMs - log.createdAtMs % usageRollupBucketMs

def usageRollupKey (log : UsageLog) : String :=
  "\u001f".intercalate [toString (bucketStart log), log.shareId.getD "",
    (log.userEmail.map fun e => Text.asciiLower (Text.trim e)).getD "", log.recordKind.asStr]

structure UsageQuotaAccumulator where
  quotaTokens : ℕ := 0
  requestCount : ℕ := 0
  recordCount : ℕ := 0
  deriving DecidableEq, Repr

namespace UsageQuotaAccumulator

variable (stats : UsageQuotaAccumulator)

def push (log : UsageLog) : UsageQuotaAccumulator where
  quotaTokens := saturatingAddU64 stats.quotaTokens log.quotaTokens
  requestCount :=
    if log.recordKind = .userInference then saturatingAddU64 stats.requestCount 1
    else stats.requestCount
  recordCount := saturatingAddU64 stats.recordCount 1

def remove (log : UsageLog) : UsageQuotaAccumulator where
  quotaTokens := stats.quotaTokens - log.quotaTokens
  requestCount :=
    if log.recordKind = .userInference then stats.requestCount - 1 else stats.requestCount
  recordCount := stats.recordCount - 1

def isEmpty : Bool := stats.recordCount = 0

end UsageQuotaAccumulator

/-- One bucket for every minute, share, user and kind of record. -/
structure UsageRollupBucket where
  bucketStartMs : ℕ
  shareId : String
  userEmail : String
  recordKind : UsageRecordKind
  stats : UsageQuotaAccumulator := {}
  deriving DecidableEq, Repr

/-- Only called for quota records, which have a share and a user. -/
def UsageRollupBucket.new (log : UsageLog) : UsageRollupBucket where
  bucketStartMs := bucketStart log
  shareId := log.shareId.getD ""
  userEmail := (log.userEmail.map fun e => Text.asciiLower (Text.trim e)).getD ""
  recordKind := log.recordKind

/-- How far the journal is contained in a file. -/
structure UsageJournalCheckpoint where
  generation : String
  throughSequence : ℕ := 0
  deriving DecidableEq, Repr

structure UsageRollupStore where
  buckets : OrderedMap String UsageRollupBucket := .empty
  journalCheckpoint : Option UsageJournalCheckpoint := none

namespace UsageRollupStore

variable (rollups : UsageRollupStore)

def addLog (log : UsageLog) : UsageRollupStore :=
  if isShareUserQuotaRecord log then
    let bucket := (rollups.buckets.get? (usageRollupKey log)).getD (.new log)
    { rollups with
      buckets := rollups.buckets.insert (usageRollupKey log) { bucket with stats := bucket.stats.push log } }
  else rollups

def removeLog (log : UsageLog) : UsageRollupStore :=
  if isShareUserQuotaRecord log then
    match rollups.buckets.get? (usageRollupKey log) with
    | none => rollups
    | some bucket =>
      if (bucket.stats.remove log).isEmpty then
        { rollups with buckets := rollups.buckets.erase (usageRollupKey log) }
      else
        { rollups with
          buckets := rollups.buckets.insert (usageRollupKey log) { bucket with stats := bucket.stats.remove log } }
  else rollups

/-- The earlier version is taken out of its bucket first. -/
def replaceLog (previous updated : UsageLog) : UsageRollupStore := (rollups.removeLog previous).addLog updated

end UsageRollupStore

/-! ## The store -/

structure UsageStore where
  logs : List UsageLog := []
  rollups : UsageRollupStore := {}
  writesSinceCompact : ℕ := 0
  journalCheckpoint : Option UsageJournalCheckpoint := none

namespace UsageStore

def cutoff (nowMs : ℕ) : ℕ := nowMs - usageDetailRetentionMs

def trimRecentWindow (nowMs : ℕ) (store : UsageStore) : UsageStore :=
  { store with logs := store.logs.filter fun log => cutoff nowMs ≤ log.createdAtMs }

/-- The first log of the list with the id of `log` becomes `log`. -/
def replaceIn (logs : List UsageLog) (log : UsageLog) : List UsageLog :=
  logs.set (logs.findIdx fun existing => existing.requestId = log.requestId) log

def push (nowMs : ℕ) (store : UsageStore) (log : UsageLog) : UsageStore :=
  match store.logs.find? fun existing => existing.requestId = log.requestId with
  | some previous =>
    { store with
      rollups := store.rollups.replaceLog previous log
      logs := replaceIn store.logs log }
  | none =>
    trimRecentWindow nowMs { store with rollups := store.rollups.addLog log, logs := store.logs ++ [log] }

end UsageStore

/-! ## Reading the quota of a user -/

def ceilToUsageBucket (value : ℕ) : ℕ :=
  if value % usageRollupBucketMs = 0 then value
  else min (value + (usageRollupBucketMs - value % usageRollupBucketMs)) u128Max

def quotaLogMatches (log : UsageLog) (shareId userEmail : String) : Bool :=
  isShareUserQuotaRecord log && log.shareId = some shareId &&
    log.userEmail.any fun email => Text.eqIgnoreAsciiCase email userEmail

def saturatingTotals {α : Type} (tokens requests : α → ℕ) (xs : List α) : ℕ × ℕ :=
  xs.foldl (fun sums x =>
    (saturatingAddU64 sums.1 (tokens x), saturatingAddU64 sums.2 (requests x))) (0, 0)

/-- `u64::from(log.record_kind == UserInference)` -/
def requestsOf (log : UsageLog) : ℕ := if log.recordKind = .userInference then 1 else 0

/-- The quota records of the window, added up with saturation. -/
def quotaUsageFromLogs (logs : List UsageLog) (shareId userEmail : String) (startsAtMs endsAtMs : ℕ) : ℕ × ℕ :=
  saturatingTotals UsageLog.quotaTokens requestsOf
    ((logs.filter fun log => startsAtMs ≤ log.createdAtMs ∧ log.createdAtMs < endsAtMs).filter
      fun log => quotaLogMatches log shareId userEmail)

/-- The parts of the window that no full bucket covers are read from the logs. -/
def shareUserQuotaUsage (store : UsageStore) (shareId userEmail : String)
    (startsAtMs endsAtMs : ℤ) : ℕ × ℕ :=
  if startsAtMs < 0 ∨ endsAtMs < 0 then (0, 0)
  else
    let startsAtMs := startsAtMs.toNat
    let endsAtMs := endsAtMs.toNat
    let normalizedEmail := Text.trim userEmail
    if endsAtMs ≤ startsAtMs then (0, 0)
    else
      let firstFull := ceilToUsageBucket startsAtMs
      let afterLast := endsAtMs - endsAtMs % usageRollupBucketMs
      if afterLast ≤ firstFull then
        quotaUsageFromLogs store.logs shareId normalizedEmail startsAtMs endsAtMs
      else
        let rolledUp := saturatingTotals (fun b => b.stats.quotaTokens) (fun b => b.stats.requestCount)
          (store.rollups.buckets.values.filter fun b =>
            firstFull ≤ b.bucketStartMs ∧ b.bucketStartMs < afterLast ∧ b.shareId = shareId ∧
              Text.eqIgnoreAsciiCase b.userEmail normalizedEmail)
        let edge := saturatingTotals UsageLog.quotaTokens requestsOf
          ((store.logs.filter fun log =>
            (startsAtMs ≤ log.createdAtMs ∧ log.createdAtMs < firstFull) ∨
              (afterLast ≤ log.createdAtMs ∧ log.createdAtMs < endsAtMs)).filter
            fun log => quotaLogMatches log shareId normalizedEmail)
        (saturatingAddU64 rolledUp.1 edge.1, saturatingAddU64 rolledUp.2 edge.2)

end CcSwitchServer.Usage
