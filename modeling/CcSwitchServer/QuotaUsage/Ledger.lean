import CcSwitchServer.QuotaCycle.Schema
import CcSwitchServer.Usage.Log

/-! # The exact token ledger (`src/domain/usage/quota_ledger.rs`)

Every revision of every metered request is kept, in the order of its watermark.
-/

namespace CcSwitchServer.QuotaUsage
open Foundations Usage QuotaCycle

inductive QuotaUsageError
  | unsupportedQuotaUsageSchema
  | quotaUsageIntegrityError
  | quotaAttributionChanged
  | quotaAttributionInvalid
  | quotaRevisionConflict
  | quotaUsageMissingRevisions
  | quotaUsageWatermarkOverflow
  | historyIncomplete
  | quotaTokenOverflow
  | quotaRequestOverflow
deriving DecidableEq, Repr

/-- The code spells a scope as the JSON text of this tuple. -/
abbrev ScopeKey := String ×ₗ ℕ ×ₗ String ×ₗ String ×ₗ String

def scopeKey (source : String) (epoch : ℕ) (bucket share user : String) : ScopeKey :=
  toLex (source, toLex (epoch, toLex (bucket, toLex (share, Text.asciiLower user))))

structure QuotaUsageEntry where
  requestId : String
  parentRequestId : Option String
  shareId : String
  userEmail : String
  attribution : QuotaAttribution
  usageRevision : ℕ
  watermark : ℕ
  tokens : ℕ
  countRequest : Bool
  pending : Bool
deriving DecidableEq, Repr

def QuotaUsageEntry.scope (e : QuotaUsageEntry) : ScopeKey :=
  scopeKey e.attribution.sourceRef e.attribution.sourceEpoch e.attribution.bucketId e.shareId e.userEmail

/-- The revisions by scope and request. -/
structure QuotaUsageLedger where
  schemaVersion : ℕ
  watermark : ℕ
  coverageFromMs : OrderedMap String ℤ
  entries : OrderedMap ScopeKey (OrderedMap String (List QuotaUsageEntry))
  recordScopes : OrderedMap String ScopeKey
  recoveryRequired : OrderedMap String QuotaAttribution
  integrityError : Option String

def cycleContains (c : AccountQuotaCycle) (startedAtMs : ℤ) : Prop :=
  c.startsAtMs ≤ startedAtMs ∧ ∀ e ∈ c.endsAtMs, startedAtMs < e

instance (c : AccountQuotaCycle) (startedAtMs : ℤ) : Decidable (cycleContains c startedAtMs) := by
  unfold cycleContains
  infer_instance

namespace QuotaUsageLedger

def default : QuotaUsageLedger where
  schemaVersion := 1
  watermark := 0
  coverageFromMs := .empty
  entries := .empty
  recordScopes := .empty
  recoveryRequired := .empty
  integrityError := none

/-! ## The check at load -/

def AttributionFits (a : QuotaAttribution) : Prop :=
  a.sourceRef ≠ "" ∧ a.sourceEpoch ≠ 0 ∧ a.bucketId ≠ "" ∧ 0 ≤ a.startedAtMs

instance (a : QuotaAttribution) : Decidable (AttributionFits a) := by
  unfold AttributionFits
  infer_instance

variable (l : QuotaUsageLedger)

def validateMetadata : Except QuotaUsageError Unit := do
  ensure (l.schemaVersion = 1) .unsupportedQuotaUsageSchema
  ensure ((∀ c ∈ l.coverageFromMs.entries, c.1 ≠ "" ∧ 0 ≤ c.2) ∧
    ∀ a ∈ l.recoveryRequired.values, AttributionFits a) .quotaUsageIntegrityError

variable (watermark : ℕ)

variable (scope : ScopeKey)

variable (id : String)

def EntryFits (e : QuotaUsageEntry) : Prop :=
  e.requestId = id ∧ e.watermark ≠ 0 ∧ e.watermark ≤ watermark ∧ AttributionFits e.attribution ∧ e.scope = scope

instance (watermark : ℕ) (scope : ScopeKey) (id : String) (e : QuotaUsageEntry) :
    Decidable (EntryFits watermark scope id e) := by
  unfold EntryFits
  infer_instance

/-- A later revision has a later watermark and the same attribution. -/
def Precedes (prior e : QuotaUsageEntry) : Prop :=
  prior.usageRevision < e.usageRevision ∧ prior.watermark < e.watermark ∧
    prior.attribution = e.attribution ∧ prior.parentRequestId = e.parentRequestId ∧
    prior.countRequest = e.countRequest

instance (prior e : QuotaUsageEntry) : Decidable (Precedes prior e) := by
  unfold Precedes
  infer_instance

/-- The loop over the revisions of a request carries the one before and the watermarks met. -/
def validateVersion (met : Option QuotaUsageEntry × List ℕ) (e : QuotaUsageEntry) :
    Except QuotaUsageError (Option QuotaUsageEntry × List ℕ) := do
  ensure (EntryFits watermark scope id e ∧ e.watermark ∉ met.2) .quotaUsageIntegrityError
  ensure (∀ prior ∈ met.1, Precedes prior e) .quotaRevisionConflict
  pure (some e, met.2 ++ [e.watermark])

def validateRecord (met : List (String × ScopeKey) × List ℕ)
    (record : String × List QuotaUsageEntry) :
    Except QuotaUsageError (List (String × ScopeKey) × List ℕ) := do
  ensure (record.2 ≠ []) .quotaUsageIntegrityError
  ensure (record.1 ∉ met.1.map Prod.fst) .quotaAttributionChanged
  let versions ← record.2.foldlM (validateVersion watermark scope record.1) (none, met.2)
  pure (met.1 ++ [(record.1, scope)], versions.2)

def validateScope (met : List (String × ScopeKey) × List ℕ)
    (scope : ScopeKey × OrderedMap String (List QuotaUsageEntry)) :
    Except QuotaUsageError (List (String × ScopeKey) × List ℕ) :=
  scope.2.entries.foldlM (validateRecord watermark scope.1) met

def validate : Except QuotaUsageError Unit := do
  l.validateMetadata
  let met ← l.entries.entries.foldlM (validateScope l.watermark) ([], [])
  ensure (met.2.length = l.watermark ∧ met.1.length = l.recordScopes.size ∧
    ∀ identity ∈ met.1, l.recordScopes.get? identity.1 = some identity.2) .quotaUsageMissingRevisions

/-! ## Recording -/

def versionsAt : Option (List QuotaUsageEntry) :=
  (l.entries.get? scope).bind fun records => records.get? id

def setVersions (versions : List QuotaUsageEntry) : QuotaUsageLedger :=
  let records := (l.entries.get? scope).getD .empty
  { l with entries := l.entries.insert scope (records.insert id versions) }

def previousScope : Option ScopeKey :=
  (l.recordScopes.get? id).or ((l.entries.entries.find? fun scope => (scope.2.get? id).isSome).map Prod.fst)

/-- What a second log of a known request must repeat. -/
def Repeats (previous : QuotaUsageEntry) (attribution : QuotaAttribution) (log : UsageLog) : Prop :=
  previous.attribution = attribution ∧ previous.parentRequestId = log.parentRequestId ∧
    previous.countRequest = decide (log.recordKind = .userInference)

instance (previous : QuotaUsageEntry) (attribution : QuotaAttribution) (log : UsageLog) :
    Decidable (Repeats previous attribution log) := by
  unfold Repeats
  infer_instance

variable (attribution : QuotaAttribution)

variable (log : UsageLog)

def logScope : ScopeKey :=
  scopeKey attribution.sourceRef attribution.sourceEpoch attribution.bucketId (log.shareId.getD "")
    (log.userEmail.getD "")

def validateLog : Except QuotaUsageError Unit := do
  ensure (l.schemaVersion = 1) .unsupportedQuotaUsageSchema
  match log.quotaAttribution with
  | none => ensure (l.previousScope log.requestId = none) .quotaAttributionChanged
  | some attribution =>
    ensure (AttributionFits attribution ∧ log.shareId.isSome ∧ log.userEmail.isSome ∧
      (log.startedAtMs : ℤ) ≤ i64Max ∧ (log.startedAtMs : ℤ) = attribution.startedAtMs)
      .quotaAttributionInvalid
    ensure (∀ scope ∈ l.previousScope log.requestId, scope = logScope attribution log) .quotaAttributionChanged
    match (l.versionsAt (logScope attribution log) log.requestId).bind List.getLast? with
    | none => pure ()
    | some previous =>
      ensure (Repeats previous attribution log) .quotaAttributionChanged
      ensure (previous.usageRevision = log.usageRevision → previous.tokens = log.quotaTokens) .quotaRevisionConflict

/-- A restart leaves the request open until it is observed. -/
def noteRecovery : QuotaUsageLedger :=
  if log.failureKind = some "server_restarted" then
    { l with recoveryRequired := l.recoveryRequired.insert log.requestId attribution }
  else if log.usageState = .observed then
    { l with recoveryRequired := l.recoveryRequired.erase log.requestId }
  else l

def newEntry (share user : String) (log : UsageLog)
    (watermark : ℕ) : QuotaUsageEntry :=
  { requestId := log.requestId, parentRequestId := log.parentRequestId, shareId := share,
    userEmail := Text.asciiLower user, attribution := attribution,
    usageRevision := log.usageRevision, watermark := watermark, tokens := log.quotaTokens,
    countRequest := decide (log.recordKind = .userInference),
    pending := decide (log.usageState = .pending) }

/-- The attribution, the share and the user of a log that is charged. -/
def metered : Option (QuotaAttribution × String × String) := do
  let attribution ← log.quotaAttribution
  if log.recordKind = .healthProbe then none
  else
    let share ← log.shareId
    let user ← log.userEmail
    pure (attribution, share, user)

def appendVersion (share user : String)
    (log : UsageLog) : Except QuotaUsageError Bool × QuotaUsageLedger :=
  let scope := scopeKey attribution.sourceRef attribution.sourceEpoch attribution.bucketId share user
  let l := { l with recordScopes := l.recordScopes.insert log.requestId scope }
  let versions := (l.versionsAt scope log.requestId).getD []
  let l := l.setVersions scope log.requestId versions
  if ∃ previous ∈ versions.getLast?, log.usageRevision ≤ previous.usageRevision then (.ok false, l)
  else
    let l := l.noteRecovery attribution log
    match checkedAddU64 l.watermark 1 with
    | none => (.error .quotaUsageWatermarkOverflow, l)
    | some watermark =>
      (.ok true, { l with watermark := watermark }.setVersions scope log.requestId
        (versions ++ [newEntry attribution share user log watermark]))

/-- The ledger is changed in place, also where the call fails, so it is returned with the result. -/
def record : Except QuotaUsageError Bool × QuotaUsageLedger :=
  match l.validateLog log with
  | .error e => (.error e, l)
  | .ok _ =>
    match metered log with
    | none => (.ok false, l)
    | some (attribution, share, user) => l.appendVersion attribution share user log

def beginCollection (source : String) (atMs : ℤ) : QuotaUsageLedger :=
  if (l.coverageFromMs.get? source).isSome then l
  else { l with coverageFromMs := l.coverageFromMs.insert source atMs }

/-! ## Reading -/

variable (cycle : AccountQuotaCycle)

def CompleteFor : Prop :=
  l.schemaVersion = 1 ∧ l.integrityError = none ∧
    (∃ start ∈ l.coverageFromMs.get? cycle.sourceRef, start ≤ cycle.startsAtMs) ∧
    ∀ a ∈ l.recoveryRequired.values, ¬(a.sourceRef = cycle.sourceRef ∧
      a.sourceEpoch = cycle.sourceEpoch ∧ a.bucketId = cycle.bucketId ∧ cycleContains cycle a.startedAtMs)

instance (l : QuotaUsageLedger) (cycle : AccountQuotaCycle) : Decidable (l.CompleteFor cycle) := by
  unfold CompleteFor
  infer_instance

/-- The revision that a reader at this watermark sees. -/
def versionAt (versions : List QuotaUsageEntry) : Option QuotaUsageEntry :=
  versions.reverse.find? fun e => e.watermark ≤ watermark

def addVersion (watermark : ℕ) (total : ℕ × ℕ)
    (versions : List QuotaUsageEntry) : Except QuotaUsageError (ℕ × ℕ) :=
  match versionAt watermark versions with
  | none => pure total
  | some e =>
    if cycleContains cycle e.attribution.startedAtMs then do
      let tokens ← context (checkedAddU64 total.1 e.tokens) .quotaTokenOverflow
      let requests ← context (checkedAddU64 total.2 e.countRequest.toNat) .quotaRequestOverflow
      pure (tokens, requests)
    else pure total

/-- A cycle that began before the collection has no answer. -/
def query (share user : String) (watermark : ℕ) : Except QuotaUsageError (ℕ × ℕ) := do
  ensure (l.CompleteFor cycle) .historyIncomplete
  match l.entries.get? (scopeKey cycle.sourceRef cycle.sourceEpoch cycle.bucketId share user) with
  | none => pure (0, 0)
  | some records => records.values.foldlM (addVersion cycle watermark) (0, 0)

end QuotaUsageLedger

end CcSwitchServer.QuotaUsage
