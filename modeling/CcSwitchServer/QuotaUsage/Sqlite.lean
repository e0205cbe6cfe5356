import CcSwitchServer.Foundations.Table
import CcSwitchServer.QuotaUsage.Exact

/-! # The token ledger in SQLite (`src/repository/server_sqlite/quota.rs`)

Every revision is a row; the rest of the ledger is one metadata value.
-/

namespace CcSwitchServer.QuotaUsage
open Foundations Usage QuotaUsageLedger

inductive StoreError
  | metadataDigestMismatch
  | unexpectedRows
  | payloadDigestMismatch
  | columnsDisagree
  | immutableRevisionConflict
  | exceedsIntegerRange
  | constraint
  | revisionMissing
  | watermarkGap
  | ledger (e : QuotaUsageError)
deriving DecidableEq, Repr

/-- A JSON column holds the value that it encodes; a digest stands for its text and for SHA-256. -/
structure Digests where
  entry : QuotaUsageEntry → String
  metadata : QuotaUsageLedger → String

structure QuotaRow where
  requestId : String
  usageRevision : ℤ
  watermark : ℤ
  sourceRef : String
  sourceEpoch : ℤ
  bucketId : String
  shareId : String
  userEmail : String
  startedAtMs : ℤ
  payload : QuotaUsageEntry
  payloadSha256 : String
deriving DecidableEq, Repr

def QuotaRow.key (r : QuotaRow) : String × ℤ := (r.requestId, r.usageRevision)

structure QuotaStore where
  userVersion : ℤ
  metadata : Option QuotaUsageLedger
  metadataSha256 : Option String
  rows : Table QuotaRow (String × ℤ) QuotaRow.key

def QuotaStore.empty : QuotaStore where
  userVersion := 4
  metadata := none
  metadataSha256 := none
  rows := .empty

def ledgerError {α : Type} : Except QuotaUsageError α → Except StoreError α
  | .ok a => .ok a
  | .error e => .error (.ledger e)

def QuotaUsageLedger.metadata (l : QuotaUsageLedger) : QuotaUsageLedger :=
  { l with entries := .empty, recordScopes := .empty }

def QuotaUsageLedger.insertPersisted (l : QuotaUsageLedger) (e : QuotaUsageEntry) :
    Except QuotaUsageError QuotaUsageLedger := do
  ensure (∀ previous ∈ l.recordScopes.get? e.requestId, previous = e.scope) .quotaAttributionChanged
  pure ({ l with recordScopes := l.recordScopes.insert e.requestId e.scope }.setVersions e.scope
    e.requestId ((l.versionsAt e.scope e.requestId).getD [] ++ [e]))

/-- SQLite integers are `i64`. -/
def toSqlU64 (value : ℕ) : Except StoreError ℤ :=
  if (value : ℤ) ≤ i64Max then .ok value else .error .exceedsIntegerRange

/-! ## Loading -/

variable (digests : Digests)

def QuotaStore.readMetadata (t : QuotaStore) : Except StoreError QuotaUsageLedger := do
  let ledger ← match t.metadata with
    | some payload => do
      ensure (t.metadataSha256 = some (digests.metadata payload)) .metadataDigestMismatch
      pure payload
    | none => pure .default
  ledgerError ledger.validateMetadata
  ensure (ledger.entries.entries = []) .unexpectedRows
  pure ledger

def rowOf (e : QuotaUsageEntry) : Except StoreError QuotaRow := do
  let usageRevision ← toSqlU64 e.usageRevision
  let watermark ← toSqlU64 e.watermark
  let sourceEpoch ← toSqlU64 e.attribution.sourceEpoch
  pure
    { requestId := e.requestId, usageRevision := usageRevision, watermark := watermark,
      sourceRef := e.attribution.sourceRef, sourceEpoch := sourceEpoch,
      bucketId := e.attribution.bucketId, shareId := e.shareId, userEmail := e.userEmail,
      startedAtMs := e.attribution.startedAtMs, payload := e, payloadSha256 := digests.entry e }

def loadRow (l : QuotaUsageLedger) (r : QuotaRow) : Except StoreError QuotaUsageLedger := do
  ensure (digests.entry r.payload = r.payloadSha256) .payloadDigestMismatch
  let expected ← rowOf digests r.payload
  ensure (expected = r) .columnsDisagree
  ledgerError (l.insertPersisted r.payload)

/-- `ORDER BY watermark`. -/
def byWatermark (rows : List QuotaRow) : List QuotaRow := rows.mergeSort fun r r' => r.watermark ≤ r'.watermark

/-- The whole ledger is built from the rows. -/
def QuotaStore.load (t : QuotaStore) : Except StoreError QuotaUsageLedger :=
  if t.userVersion = 1 then .ok .default
  else do
    let ledger ← t.readMetadata digests
    let ledger ← (byWatermark t.rows.rows).foldlM (loadRow digests) ledger
    ledgerError ledger.validate
    ensure ((ledger.rows.map QuotaUsageEntry.watermark).max?.getD 0 = ledger.watermark) .watermarkGap
    pure ledger

/-! ## Writing -/

/-- The row constraints of the table. -/
def Insertable (t : QuotaStore) (r : QuotaRow) : Prop :=
  0 ≤ r.usageRevision ∧ 0 < r.watermark ∧ 0 ≤ r.startedAtMs ∧ ∀ r' ∈ t.rows.rows, r'.watermark ≠ r.watermark

instance (t : QuotaStore) (r : QuotaRow) : Decidable (Insertable t r) := by
  unfold Insertable
  infer_instance

def QuotaStore.insert (digests : Digests) (t : QuotaStore) (e : QuotaUsageEntry) : Except StoreError QuotaStore := do
  let row ← rowOf digests e
  match h : t.rows.find? row.key with
  | some existing =>
    ensure (existing.payloadSha256 = digests.entry e) .immutableRevisionConflict
    pure t
  | none =>
    ensure (Insertable t row) .constraint
    pure { t with rows := t.rows.insert row h }

def QuotaStore.saveMetadata (t : QuotaStore) (l : QuotaUsageLedger) : QuotaStore :=
  { t with metadata := some l.metadata, metadataSha256 := some (digests.metadata l.metadata) }

/-- `ORDER BY usage_revision DESC LIMIT 1`. -/
def QuotaStore.latestRow (t : QuotaStore) (requestId : String) : Option QuotaRow :=
  ((t.rows.rows.filter fun r => r.requestId = requestId).mergeSort
    fun r r' => r'.usageRevision ≤ r.usageRevision).head?

/-- The ledger that a write works on: the metadata and the last revision of one request. -/
def QuotaStore.smallLedger (t : QuotaStore) (requestId : String) : Except StoreError QuotaUsageLedger := do
  let ledger ← t.readMetadata digests
  match t.latestRow requestId with
  | none => pure ledger
  | some r =>
    ensure (digests.entry r.payload = r.payloadSha256) .payloadDigestMismatch
    ledgerError (ledger.insertPersisted r.payload)

def newestVersion (l : QuotaUsageLedger) : Option QuotaUsageEntry :=
  ((l.entries.values.flatMap OrderedMap.values).filterMap List.getLast?).find? fun e =>
    e.watermark = l.watermark

def QuotaStore.writeRecorded (t : QuotaStore) (l : QuotaUsageLedger) : Except StoreError QuotaStore := do
  let e ← context (newestVersion l) .revisionMissing
  let t ← t.insert digests e
  pure (t.saveMetadata digests l)

/-- The result with the tables that the transaction commits. -/
def QuotaStore.upsertLog (t : QuotaStore) (log : UsageLog) : Except StoreError Unit × QuotaStore :=
  match t.smallLedger digests log.requestId with
  | .error e => (.error e, t)
  | .ok ledger =>
    match ledger.record log with
    | (.error e, _) => (.error (.ledger e), t)
    | (.ok false, _) => (.ok (), t)
    | (.ok true, ledger) =>
      match t.writeRecorded digests ledger with
      | .error e => (.error e, t)
      | .ok t => (.ok (), t)

end CcSwitchServer.QuotaUsage
