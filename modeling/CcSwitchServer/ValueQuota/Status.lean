import CcSwitchServer.ValueQuota.Checkpoint

/-! # Stored checkpoints and the status of a window

The stored checkpoints of a scope, and the balance of one window.
-/

namespace CcSwitchServer.ValueQuota
open Foundations ValuePricing Std

namespace Db

/-! ## Checkpoints of a database -/

variable (db : Db)

variable (scope : Scope)

def readCheckpoint (day : ℤ) : Except QuotaError Checkpoint :=
  match db.checkpoints.find? (scope, day) with
  | none => pure Checkpoint.empty
  | some row => do
    ensure (row.checkpoint = row.payloadSha256) .checkpointCorrupt
    pure row.checkpoint

def writeCheckpoint (day : ℤ) (cp : Checkpoint) : Db :=
  { db with checkpoints := db.checkpoints.upsert ⟨scope, day, cp, cp⟩ }

theorem readCheckpoint_writeCheckpoint (scope scope' : Scope) (day day' : ℤ) (cp : Checkpoint) :
    (db.writeCheckpoint scope day cp).readCheckpoint scope' day' =
      if (scope, day) = (scope', day') then .ok cp else db.readCheckpoint scope' day' := by
  by_cases hkey : (scope, day) = (scope', day')
  · have hfind := Table.find?_upsert_self db.checkpoints
      (show CheckpointRow.key ⟨scope, day, cp, cp⟩ = (scope', day') from hkey)
    simp only [readCheckpoint, writeCheckpoint, hfind, if_pos hkey]
    exact bind_eq_ok.mpr ⟨(), by simp, rfl⟩
  · have hfind := Table.find?_upsert_of_ne db.checkpoints
      (show CheckpointRow.key ⟨scope, day, cp, cp⟩ ≠ (scope', day') from hkey)
    simp only [readCheckpoint, writeCheckpoint, hfind, if_neg hkey]

/-- Exchange one contribution of the day of `at_`. -/
def updateCheckpoint (at_ : ℤ) (old new : Option Contribution) : Except QuotaError Db := do
  let cp ← db.readCheckpoint scope (dayOf at_)
  let cp ← old.elim (pure cp) fun c => cp.change c false
  let cp ← new.elim (pure cp) fun c => cp.change c true
  pure (db.writeCheckpoint scope (dayOf at_) cp)

/-- Add one row's contribution to the checkpoint of its day. -/
def tallyDay (days : ExtTreeMap ℤ Checkpoint) (at_ : ℤ) (c : Contribution) :
    Except QuotaError (ExtTreeMap ℤ Checkpoint) := do
  let cp ← (days.getD (dayOf at_) Checkpoint.empty).change c true
  pure (days.insert (dayOf at_) cp)

def tallyDays : Except QuotaError (ExtTreeMap ℤ Checkpoint) := do
  let days ← (db.attempts.rows.filter (·.scope = scope)).foldlM
    (fun days r => tallyDay days r.startedAtMs r.contribution) ∅
  (db.gaps.rows.filter (·.scope = scope)).foldlM (fun days g => tallyDay days g.startedAtMs g.contribution) days

/-- Recompute every checkpoint of a scope; returns the number of days. -/
def rebuildCheckpointsInTx : Except QuotaError (Db × ℕ) := do
  let days ← db.tallyDays scope
  let cleared := { db with checkpoints := db.checkpoints.filter (·.scope ≠ scope) }
  pure (days.toList.foldl (fun db p => db.writeCheckpoint scope p.1 p.2) cleared, days.size)

/-! ## The status of a window -/

def windowBlocked (windowId : String) : Bool :=
  (db.blocks.find? (scope, some windowId)).isSome || (db.blocks.find? (scope, none)).isSome

def collectedFromMs (db : Db) (scope : Scope) : Option ℤ := (db.coverage.find? scope).map CoverageRow.collectedFromMs

end Db

structure QuotaStatus where
  observedPicos : ℕ
  manualOffsetPicos : ℕ
  usedPicos : ℕ
  pendingRiskPicos : ℕ
  meteringStatus : String
  usageWatermark : ℕ
  /-- The sorted revision list whose digest is reported. -/
  usagePricingRevisions : List String
  deriving DecidableEq, Repr

namespace Window

/-- The first day that the window covers from its begin. -/
def fullFrom (w : Window) : ℤ := (w.meteredStartMs + (dayMs - 1)) / dayMs * dayMs

def fullUntil (w : Window) : ℤ := w.endsAtMs.getD i64Max / dayMs * dayMs

def InFullDays (w : Window) (at_ : ℤ) : Prop := w.fullFrom ≤ at_ ∧ at_ < w.fullUntil

instance (w : Window) (at_ : ℤ) : Decidable (w.InFullDays at_) :=
  inferInstanceAs (Decidable (_ ∧ _))

def AtEdges (w : Window) (at_ : ℤ) : Prop := w.Meters at_ ∧ ¬w.InFullDays at_

instance (w : Window) (at_ : ℤ) : Decidable (w.AtEdges at_) := inferInstanceAs (Decidable (_ ∧ _))

end Window

namespace Db

variable (db : Db)

variable (scope : Scope)

variable (w : Window)

def fullDays : List ℤ :=
  (db.checkpoints.rows.filter fun c => c.scope = scope ∧ w.InFullDays c.dayStartMs).map CheckpointRow.dayStartMs

def mergeFullDays : Except QuotaError Checkpoint :=
  (db.fullDays scope w).foldlM (fun aggregate day => do
    aggregate.merge (← db.readCheckpoint scope day)) Checkpoint.empty

def attemptsWhere (p : ℤ → Prop) [DecidablePred p] : List AttemptRow :=
  db.attempts.rows.filter fun r => r.scope = scope ∧ p r.startedAtMs

def gapsWhere (p : ℤ → Prop) [DecidablePred p] : List GapRow :=
  db.gaps.rows.filter fun g => g.scope = scope ∧ p g.startedAtMs

/-- The gaps at the edges raise the `gap` state and the watermark at once. -/
def addEdgeGaps (cp : Checkpoint) : Checkpoint :=
  let gaps := db.gapsWhere scope w.AtEdges
  if 0 < gaps.length then
    { cp with states := cp.states.insert "gap" gaps.length
              watermark := max cp.watermark ((gaps.map GapRow.watermark).foldl max 0) }
  else cp

def lastAdjustment (windowId : String) : Option AdjustmentRow :=
  (db.adjustments.rows.filter fun a => a.scope = scope ∧ a.windowId = windowId).argmax AdjustmentRow.watermark

/-- What the rows and checkpoints of the window add up to. -/
def aggregate : Except QuotaError Checkpoint := do
  let cp ← db.mergeFullDays scope w
  let count ← cp.count
  ensure ((db.attemptsWhere scope w.InFullDays).length + (db.gapsWhere scope w.InFullDays).length =
    count) .checkpointCorrupt
  let cp ← (db.attemptsWhere scope w.AtEdges).foldlM (fun cp r => cp.change r.contribution true) cp
  pure (db.addEdgeGaps scope w cp)

/-- Whole days come from their checkpoints, whose count must agree with the rows, and the edges from the rows
themselves. -/
def statusInTx : Except QuotaError QuotaStatus := do
  w.validate
  let key ← scope.key
  let blocked := db.windowBlocked key w.id
  ensure ((db.collectedFromMs key).any (· ≤ w.meteredStartMs)) .coverageIncomplete
  ensure (w.meteredStartMs + (dayMs - 1) ≤ i64Max) .windowOutOfRange
  let cp ← db.aggregate key w
  let last := db.lastAdjustment key w.id
  let offset := (last.map AdjustmentRow.offsetPicos).getD 0
  let used ← context (checkedAdd cp.amount offset) .adjustedOverflow
  pure
    { observedPicos := cp.amount
      manualOffsetPicos := offset
      usedPicos := used
      pendingRiskPicos := cp.risk
      meteringStatus := if blocked then "blocked" else cp.metering
      usageWatermark := max cp.watermark ((last.map AdjustmentRow.watermark).getD 0)
      usagePricingRevisions := cp.revisions.keys }

end Db

end CcSwitchServer.ValueQuota
