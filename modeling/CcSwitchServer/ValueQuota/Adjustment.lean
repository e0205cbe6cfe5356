import CcSwitchServer.ValueQuota.Settlement

/-! # Owner adjustments and Router acknowledgements

`set` is also the reconcile of its window.
-/

namespace CcSwitchServer.ValueQuota
open Foundations ValuePricing Usage Std

structure Adjustment where
  scope : Scope
  window : Window
  grantRevision : ℕ
  edit : ValueUsageEdit
  deriving DecidableEq, Repr

namespace Db

/-! ## The reconcile -/

variable (db : Db)

variable (scope : Scope)

/-- The attempts of the window that are open and began before the deadline. -/
def stalePending (w : Window) (startedBefore : ℤ) : List (String × String) :=
  ((db.attemptsWhere scope w.Meters).filter fun r =>
    ¬r.meteringStatus.Settled ∧ r.startedAtMs < startedBefore).map AttemptRow.key

def resolveWindowPendingInTx (w : Window) (startedBefore : ℤ) : Except QuotaError Db :=
  (db.stalePending scope w startedBefore).foldlM (fun db key => do
    let (db, _) ← db.settleOutcomeInTx key.1 key.2 .unknown false
    pure db) db

def blockedRouterWatermark (windowId : Option String) : Option ℕ :=
  (db.blocks.find? (scope, windowId)).bind BlockRow.routerWatermark

def routerWatermark (windowId : String) : Option ℕ :=
  ([db.blockedRouterWatermark scope (some windowId), db.blockedRouterWatermark scope none].filterMap id).max?

/-- The next watermark will be above `floor`. -/
def raiseWatermarkFloor (floor : ℕ) : Except QuotaError Db := do
  ensure ((floor : ℤ) ≤ i64Max) .watermarkOverflow
  pure { db with watermark := max db.watermark floor }

/-- The block of the window and that of the whole scope. -/
def clearBlocks (windowId : String) : Db :=
  { db with blocks := (db.blocks.erase (scope, some windowId)).erase (scope, none) }

/-- The checkpoints are rebuilt, the stale attempts resolved, the counter raised past every blocked Router
watermark and the blocks removed. -/
def reconcileInTx (w : Window) (staleBeforeMs : ℤ) : Except QuotaError Db := do
  let (db, _) ← db.rebuildCheckpointsInTx scope
  let db ← db.resolveWindowPendingInTx scope w staleBeforeMs
  let db ← (db.routerWatermark scope w.id).elim (pure db) db.raiseWatermarkFloor
  pure (db.clearBlocks scope w.id)

/-! ## One adjustment -/

/-- The offset that brings the observed amount to the requested balance. -/
def adjustmentOffset (edit : ValueUsageEdit) (observed : ℕ) : Except QuotaError ℕ :=
  match edit.action with
  | .clear => do
    ensure (edit.targetPicos = none) .targetInvalid
    pure 0
  | .set => do
    let raw ← context edit.targetPicos .targetInvalid
    let target ← lift (unsignedDecimal raw)
    ensure (observed ≤ target ∧ target ≤ maxLimitMicros * 1000000) .targetOutOfRange
    pure (target - observed)

/-- The offset that brings the window to the requested balance. -/
def insertAdjustment (a : Adjustment) (actor : String) : Except QuotaError Db := do
  let current ← db.statusInTx a.scope a.window
  let offset ← adjustmentOffset a.edit current.observedPicos
  let (db, mark) ← db.nextWatermark
  ensure ((current.usageWatermark : ℤ) ≤ i64Max) .integerConversion
  let adjustments ← context (db.adjustments.tryInsert
    ⟨a.edit.operationId, a.scope, a.window.id, a.edit, actor, offset, mark⟩) .storage
  pure { db with adjustments }

def applyAdjustment (a : Adjustment) (actor : String) (staleBeforeMs : ℤ) : Except QuotaError Db := do
  ensure (a.edit.operationId ≠ "" ∧ a.edit.operationId.utf8ByteSize ≤ 128 ∧
    Text.trim a.edit.reason ≠ "" ∧ a.edit.reason.utf8ByteSize ≤ 1000 ∧
    a.edit.expectedGrantRevision = a.grantRevision ∧ a.edit.windowId = a.window.id)
    .revisionConflict
  match db.adjustments.find? a.edit.operationId with
  | some old => do
    ensure (old.scope = a.scope ∧ old.edit = a.edit ∧ old.actor = actor) .operationConflict
    pure db
  | none => do
    let db ← (if a.edit.action = .set then db.reconcileInTx a.scope a.window staleBeforeMs
      else pure db)
    db.insertAdjustment a actor

/-- The loop over a batch; no scope may occur twice. -/
def applyBatch (db : Db) (actor : String) (staleBeforeMs : ℤ) (scopes : List Scope) :
    List Adjustment → Except QuotaError Db
  | [] => pure db
  | a :: rest => do
    let key ← a.scope.key
    ensure (key ∉ scopes) .targetInvalid
    let db ← db.applyAdjustment a actor staleBeforeMs
    db.applyBatch actor staleBeforeMs (key :: scopes) rest

def applyAdjustmentsInTx (edits : List Adjustment) (actor : String) (staleBeforeMs : ℤ) : Except QuotaError Db := do
  ensure (actor ≠ "" ∧ edits ≠ [] ∧ edits.length ≤ 500) .targetInvalid
  db.applyBatch actor staleBeforeMs [] edits

/-! ## Acknowledgements -/

/-- A Router acknowledgement ahead of local authority blocks the window; returns whether it did. -/
def ackInTx (w : Window) (usageWatermark ack : ℕ) : Except QuotaError (Db × Bool) :=
  if usageWatermark < ack then do
    let current ← db.statusInTx scope w
    if current.usageWatermark < ack then
      let mark := max ((db.blockedRouterWatermark scope (some w.id)).getD 0) ack
      pure ({ db with blocks := db.blocks.upsert ⟨scope, some w.id, some mark⟩ }, true)
    else pure (db, false)
  else do
    ensure (ack = usageWatermark) .ackMismatch
    pure (db, false)

/-! ## Snapshots and coverage -/

/-- Install an immutable pricing snapshot under its content hash. -/
def installInTx (hash : PricingSnapshot → String) (db : Db) (scope : Scope) (revision : String)
    (snapshot : PricingSnapshot) : Except QuotaError Db := do
  let _ ← scope.key
  ensure (hash snapshot = revision) .snapshotConflict
  match db.snapshots.find? (scope.routerUrl, scope.installationId, revision) with
  | some old => do
    ensure (old.snapshot = snapshot) .snapshotConflict
    pure db
  | none =>
    pure { db with
      snapshots := db.snapshots.upsert ⟨scope.routerUrl, scope.installationId, revision, snapshot⟩ }

def beginCoverage (now : ℤ) : Except QuotaError Db := do
  ensure (0 ≤ now) .invalidCoverage
  let key ← scope.key
  match db.coverage.find? key with
  | some _ => pure db
  | none => pure { db with coverage := db.coverage.upsert ⟨key, now⟩ }

/-- Coverage inserted at `fromMs`, or lowered to it. -/
def coverFrom (fromMs : ℤ) : Except QuotaError Db := do
  ensure (0 ≤ fromMs) .invalidCoverage
  let key ← scope.key
  let collected := (db.collectedFromMs key).elim fromMs fun at_ => min at_ fromMs
  pure { db with coverage := db.coverage.upsert ⟨key, collected⟩ }

end Db

end CcSwitchServer.ValueQuota
