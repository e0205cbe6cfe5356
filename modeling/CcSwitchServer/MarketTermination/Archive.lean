import CcSwitchServer.Sharing.Model
import CcSwitchServer.Foundations.Runs
import CcSwitchServer.ValueQuota.Admission

/-! # Settlement archive of Market requests (`src/repository/server_sqlite/market_termination.rs`)

Every admitted request is archived with its identity and its usage. Amounts are numbers; the triggers of the
schema refuse to change or delete a receipt.
-/

namespace CcSwitchServer.MarketTermination
open Foundations Sharing Usage
open ValueQuota (QuotaError)

inductive TerminationError
  | archiveIdentityConflict
  | archiveRevisionConflict
  | finalUsageIdentityConflict
  | finalUsageQuantityConflict
  | integerRange
  | missingFence
  | waitingForCutoff
  | requiresRevoke
  | receiptIdentityConflict
  | periodNotCovered
  | shareUnavailable
  | entitlementActive
  | invalidUsageRecord
  | usageIdentityMismatch
  | usagePending
  | attemptsUnresolved
  | missingEvidence
  | openingOverflow
  | usageOverflow
  | period (error : PeriodError)
  | quota (error : QuotaError)
  | constraint
deriving DecidableEq, Repr

inductive FinalState
  | pending
  | uncertain
  | final
deriving DecidableEq, Repr

/-- A row of `market_settlement_requests`. -/
structure SettlementRow where
  requestId : String
  shareId : String
  entitlementId : String
  email : String
  phase : ShareMarketPhase
  startedAtMs : ℤ
  revision : ℕ
  tokens : ℕ
  valuePicos : String
  finalState : FinalState := .pending
  noValueExecution : Bool := false
deriving DecidableEq, Repr

structure UsageWindow where
  startsAtMs : ℤ
  endsAtMs : ℤ
  used : ℕ
deriving DecidableEq, Repr

structure TerminationReceipt where
  terminationId : String
  entitlementId : String
  shareId : String
  email : String
  operationId : String
  cutoffAtMs : ℤ
  periodStartMs : ℤ
  periodEndMs : ℤ
  revokedAtMs : ℤ
  archiveSinceMs : ℤ
  quotaUsedBeforePeriod : ℕ
  windows : List UsageWindow
deriving DecidableEq, Repr

/-- The tables that a settlement reads and writes; `ledger` holds the USD attempts and the usage records. -/
structure Db where
  requests : Table SettlementRow String SettlementRow.requestId
  receipts : Table TerminationReceipt String TerminationReceipt.operationId
  sinceMs : ℤ
  shares : List Share
  ledger : ValueQuota.Db

/-- A `u64` as an SQL parameter. -/
def toSqlU64 (n : ℕ) : Except TerminationError ℕ := do
  ensure ((n : ℤ) ≤ i64Max) .integerRange
  pure n

/-! ## Archiving admissions -/

/-- `ON CONFLICT(request_id) DO UPDATE`, for a row with the same identity. -/
def SettlementRow.revise (row : SettlementRow) (r : MarketRequestReceipt) : SettlementRow :=
  if row.revision ≤ r.revision then
    { row with
      revision := r.revision
      tokens := r.tokens
      valuePicos := r.valuePicos
      finalState := if row.revision < r.revision then .pending else row.finalState
      noValueExecution := if row.revision < r.revision then false else row.noValueExecution }
  else row

theorem SettlementRow.requestId_revise (r : MarketRequestReceipt) (row : SettlementRow) :
    (row.revise r).requestId = row.requestId := by
  unfold revise
  split
  · rfl
  · rfl

/-- An archived request keeps its identity. -/
def archiveRequest (shareId : String) (requests : Table SettlementRow String SettlementRow.requestId)
    (entry : String × MarketRequestReceipt) :
    Except TerminationError (Table SettlementRow String SettlementRow.requestId) := do
  let (id, r) := entry
  match requests.find? id with
  | some row =>
    ensure (row.shareId = shareId ∧ row.entitlementId = r.entitlementId ∧ row.email = r.email ∧
      row.phase = r.phase ∧ row.startedAtMs = r.startedAtMs) .archiveIdentityConflict
    ensure (row.revision ≠ r.revision ∨ row.tokens = r.tokens) .archiveRevisionConflict
    let _ ← toSqlU64 r.revision
    pure (requests.modify id (·.revise r) (SettlementRow.requestId_revise r))
  | none =>
    let revision ← toSqlU64 r.revision
    context (requests.tryInsert
      { requestId := id, shareId := shareId, entitlementId := r.entitlementId, email := r.email,
        phase := r.phase, startedAtMs := r.startedAtMs, revision := revision, tokens := r.tokens,
        valuePicos := r.valuePicos }) .constraint

variable (db : Db)

def archiveIn (shares : List Share) : Except TerminationError Db := do
  let requests ← shares.foldlM (fun requests share =>
    share.marketRequests.entries.foldlM (archiveRequest share.id) requests) db.requests
  pure { db with requests := requests }

/-! ## Final usage -/

def finalStateOf (log : UsageLog) : FinalState :=
  match log.usageState with
  | .pending => .pending
  | .interrupted | .parseError => .uncertain
  | .missing => if 200 ≤ log.statusCode ∧ log.statusCode < 300 then .uncertain else .final
  | .observed | .notApplicable => .final

def SettlementRow.finalize (row : SettlementRow) (log : UsageLog) : SettlementRow :=
  if row.revision = max log.usageRevision 1 then
    { row with
      finalState := finalStateOf log
      noValueExecution := 400 ≤ log.statusCode ∧ log.quotaTokens = 0 }
  else row

theorem SettlementRow.requestId_finalize (log : UsageLog) (row : SettlementRow) :
    (row.finalize log).requestId = row.requestId := by
  unfold finalize
  split
  · rfl
  · rfl

/-- The checks of `finalize_log_in` against the archived admission. -/
def checkFinal (log : UsageLog) : Option SettlementRow → Except TerminationError Unit
  | none => pure ()
  | some row => do
    ensure (log.shareId = some row.shareId ∧
      log.userEmail.any fun e => Text.eqIgnoreAsciiCase e row.email) .finalUsageIdentityConflict
    if row.revision = max log.usageRevision 1 ∧ finalStateOf log ≠ .pending then
      ensure (row.tokens = log.quotaTokens) .finalUsageQuantityConflict
    else pure ()

variable (requests : Table SettlementRow String SettlementRow.requestId)

def finalizeLog (log : UsageLog) : Except TerminationError (Table SettlementRow String SettlementRow.requestId) := do
  checkFinal log (requests.find? log.requestId)
  let _ ← toSqlU64 (max log.usageRevision 1)
  pure (requests.modify log.requestId (·.finalize log) (SettlementRow.requestId_finalize log))

def finalizeLogIn (log : UsageLog) : Except TerminationError Db := do
  let requests ← finalizeLog db.requests log
  pure { db with requests := requests }

/-! ## Receipts -/

variable (ledger : ValueQuota.Db)

/-- `settled_request_picos_in` for one request: the total over its settled attempts, if it has any. -/
def settledRequestPicos (requestId shareId email entitlementId : String) : Except QuotaError (Option ℕ) :=
  let rows := ledger.attempts.rows.filter fun row => row.requestId = requestId ∧ row.meteringStatus.Settled
  rows.foldlM (fun total row => do
    ensure (row.scope.shareId = shareId ∧ Text.eqIgnoreAsciiCase row.scope.email email ∧
      row.scope.entitlementId = some entitlementId) .usageScopeConflict
    let marker ← ledger.readTrialAttempt requestId row.attemptId
    let floor := (marker.bind fun m => m.settledFloorPicos).getD 0
    let sum ← context (checkedAdd (total.getD 0) (max row.usagePicos floor)) .arithmeticOverflow
    pure (some sum)) none

/-- Usage records that were committed for the archived revision while the row was not final; at most 256. -/
def recoverable (shareId entitlementId : String) : List (Option UsageLog) :=
  (db.requests.rows.filterMap fun row =>
    if row.shareId = shareId ∧ row.entitlementId = entitlementId ∧ row.finalState ≠ .final then
      match db.ledger.usageRecords.find? row.requestId with
      | some record => if record.usageRevision = row.revision then some record.payload else none
      | none => none
    else none).take 256

def recoverLog (payload : Option UsageLog) :
    Except TerminationError (Table SettlementRow String SettlementRow.requestId) := do
  let log ← context payload .invalidUsageRecord
  finalizeLog requests log

/-- `ORDER BY started_at_ms, request_id` -/
def ArchivedBefore (a b : SettlementRow) : Prop :=
  a.startedAtMs < b.startedAtMs ∨ a.startedAtMs = b.startedAtMs ∧ a.requestId ≤ b.requestId

instance : DecidableRel ArchivedBefore := fun a b =>
  inferInstanceAs (Decidable (a.startedAtMs < b.startedAtMs ∨ _))

def archivedRows (shareId entitlementId : String) : List SettlementRow :=
  (requests.rows.filter fun row =>
    row.shareId = shareId ∧ row.entitlementId = entitlementId).insertionSort ArchivedBefore

/-- What a request consumed, in the unit of the contract's quota. -/
def requestAmount (fence : TerminationFence) (row : SettlementRow) : Except TerminationError ℕ :=
  if fence.policy.valueQuota.isSome then
    match settledRequestPicos ledger row.requestId row.shareId row.email row.entitlementId with
    | .error e => .error (.quota e)
    | .ok total => do
      ensure (¬ledger.attempts.rows.any fun attempt =>
        attempt.requestId = row.requestId ∧ ¬attempt.meteringStatus.Settled) .attemptsUnresolved
      match total with
      | some amount => pure amount
      | none => if row.noValueExecution then pure 0 else .error .missingEvidence
  else pure row.tokens

def windowKey (fence : TerminationFence) (startedAtMs : ℤ) : Except TerminationError (ℤ ×ₗ ℤ) :=
  match tokenPeriodWindow fence.policy startedAtMs with
  | .error e => .error (.period e)
  | .ok w => pure (toLex (w.startsAtMs.getD fence.periodStartMs, w.endsAtMs.getD fence.periodEndMs))

/-- The state of the loop over the archived rows. -/
structure Settling where
  requests : Table SettlementRow String SettlementRow.requestId
  before : ℕ := 0
  windows : OrderedMap (ℤ ×ₗ ℤ) ℕ := .empty

def archiveAmount (fence : TerminationFence)
    (requestId : String) (amount : ℕ) : Table SettlementRow String SettlementRow.requestId :=
  if fence.policy.valueQuota.isSome then
    requests.modify requestId (fun row => { row with valuePicos := toString amount }) fun _ => rfl
  else requests

/-- A request that is not final ends the settlement. -/
def settleRow (op : ShareManagedGrantOperation) (fence : TerminationFence)
    (s : Settling) (row : SettlementRow) : Except TerminationError Settling := do
  ensure (Text.eqIgnoreAsciiCase row.email op.email) .usageIdentityMismatch
  ensure (row.finalState = .final) .usagePending
  -- every admission has to be final, but only paid work before the cutoff earns rent
  if row.phase ≠ .paid ∨ fence.cutoffAtMs ≤ row.startedAtMs then pure s
  else do
    let amount ← requestAmount ledger fence row
    let requests := archiveAmount s.requests fence row.requestId amount
    if row.startedAtMs < fence.periodStartMs then do
      let before ← context (checkedAdd s.before amount) .openingOverflow
      pure { s with requests := requests, before := before }
    else if fence.periodEndMs ≤ row.startedAtMs then pure { s with requests := requests }
    else do
      let key ← windowKey fence row.startedAtMs
      let used ← context (checkedAdd ((s.windows.get? key).getD 0) amount) .usageOverflow
      pure { s with requests := requests, windows := s.windows.insert key used }

/-- A stored receipt answers the operation it was made for. -/
def SameTermination (receipt : TerminationReceipt) (fence : TerminationFence) (shareId : String)
    (op : ShareManagedGrantOperation) : Prop :=
  receipt.terminationId = fence.terminationId ∧ receipt.entitlementId = op.entitlementId ∧
    receipt.shareId = shareId ∧ Text.eqIgnoreAsciiCase receipt.email op.email ∧
    receipt.cutoffAtMs = fence.cutoffAtMs ∧ receipt.periodStartMs = fence.periodStartMs ∧
    receipt.periodEndMs = fence.periodEndMs

instance (receipt : TerminationReceipt) (fence : TerminationFence) (shareId : String)
    (op : ShareManagedGrantOperation) : Decidable (SameTermination receipt fence shareId op) :=
  inferInstanceAs (Decidable (_ ∧ _))

def EntitlementActive (share : Share) (entitlementId : String) : Prop :=
  (share.marketEntitlements.get? entitlementId).any (·.active) ∨
    share.userGrants.values.any fun g => g.active ∧ g.entitlementId = some entitlementId

instance (share : Share) (entitlementId : String) : Decidable (EntitlementActive share entitlementId) :=
  inferInstanceAs (Decidable (_ ∨ _))

def settle (shareId : String) (op : ShareManagedGrantOperation) (fence : TerminationFence)
    (now : ℤ) : Except TerminationError (TerminationReceipt × Db) := do
  ensure (db.sinceMs ≤ fence.periodStartMs ∧ fence.periodStartMs ≤ fence.cutoffAtMs ∧
    fence.cutoffAtMs ≤ fence.periodEndMs) .periodNotCovered
  let share ← context (db.shares.find? fun share => share.id = shareId) .shareUnavailable
  ensure (¬EntitlementActive share op.entitlementId) .entitlementActive
  let requests ← (recoverable db shareId op.entitlementId).foldlM recoverLog db.requests
  let s ← (archivedRows requests shareId op.entitlementId).foldlM (settleRow db.ledger op fence)
    { requests := requests }
  let receipt : TerminationReceipt :=
    { terminationId := fence.terminationId, entitlementId := op.entitlementId, shareId := shareId,
      email := op.email, operationId := op.operationId, cutoffAtMs := fence.cutoffAtMs,
      periodStartMs := fence.periodStartMs, periodEndMs := fence.periodEndMs, revokedAtMs := now,
      archiveSinceMs := db.sinceMs, quotaUsedBeforePeriod := s.before,
      windows := s.windows.entries.map fun e => ⟨(ofLex e.1).1, (ofLex e.1).2, e.2⟩ }
  let receipts ← context (db.receipts.tryInsert receipt) .constraint
  pure (receipt, { db with requests := s.requests, receipts := receipts })

/-- What the archive holds of a contract is added up and stored under the id of the operation. -/
def receiptIn (shareId : String) (op : ShareManagedGrantOperation) (now : ℤ) :
    Except TerminationError (TerminationReceipt × Db) := do
  let fence ← context op.termination .missingFence
  ensure (fence.cutoffAtMs ≤ now) .waitingForCutoff
  ensure (op.action = .revoke) .requiresRevoke
  match db.receipts.find? op.operationId with
  | some receipt => do
    ensure (SameTermination receipt fence shareId op) .receiptIdentityConflict
    pure (receipt, db)
  | none => settle db shareId op fence now

/-! ## Runs -/

/-- What happens to the archive: usage arrives, contracts are settled, and the tables of the shares and of
the USD ledger change in whatever way their owners change them. -/
inductive Op
  | archive (shares : List Share)
  | finalize (log : UsageLog)
  | receipt (shareId : String) (op : ShareManagedGrantOperation) (now : ℤ)
  | shares (shares : List Share)
  | ledger (ledger : ValueQuota.Db)

def apply : Op → Except TerminationError Db
  | .archive shares => archiveIn db shares
  | .finalize log => finalizeLogIn db log
  | .receipt shareId op now => do
    let r ← receiptIn db shareId op now
    pure r.2
  | .shares shares => pure { db with shares := shares }
  | .ledger ledger => pure { db with ledger := ledger }

def step (op : Op) : Db := commit apply db op

end CcSwitchServer.MarketTermination
