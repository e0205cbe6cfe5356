import CcSwitchServer.ValueQuota.Controls
import CcSwitchServer.ValueQuota.Watermark
import CcSwitchServer.ValueQuota.Attempt

/-! # The owner's reconcile (`apply_adjustments_in_tx` with `set`)

What a `set` needs beside a valid target is one more watermark.
-/

namespace CcSwitchServer.ValueQuota
open Foundations ValuePricing Usage Db Table List Option Sample

/-! ## The status of a window -/

def Db.reported (db : Db) (scope : Scope) (w : Window) (cp : Checkpoint) : QuotaStatus where
  observedPicos := cp.amount
  manualOffsetPicos := db.manualOffset scope w.id
  usedPicos := cp.amount + db.manualOffset scope w.id
  pendingRiskPicos := cp.risk
  meteringStatus := if db.windowBlocked scope w.id then "blocked" else cp.metering
  usageWatermark := max cp.watermark (db.adjustmentMark scope w.id)
  usagePricingRevisions := cp.revisions.keys

/-- The window is valid, covered, and its whole days do not end after the largest instant. -/
structure Window.Reportable (w : Window) (db : Db) (scope : Scope) : Prop where
  validate : w.validate = .ok ()
  key : scope.key = .ok scope
  covered : (db.collectedFromMs scope).any (· ≤ w.meteredStartMs) = true
  range : w.meteredStartMs + (dayMs - 1) ≤ i64Max

section
variable {db db' : Db} {scope : Scope} {w : Window}

theorem statusInTx_eq_ok {st : QuotaStatus} : db.statusInTx scope w = .ok st ↔
    w.Reportable db scope ∧ ∃ cp, db.aggregate scope w = .ok cp ∧
      cp.amount + db.manualOffset scope w.id ≤ i128Max ∧ st = db.reported scope w cp := by
  simp only [statusInTx, bind_eq_ok, context_eq_ok, checkedAdd_eq_some, pure_eq_ok, ensure_eq_ok]
  constructor
  · rintro ⟨_, hvalid, key, hkey, _, hcovered, _, hrange, cp, hcp, used, ⟨hfits, rfl⟩, rfl⟩
    obtain rfl := Scope.key_eq hkey
    exact ⟨⟨hvalid, hkey, hcovered, hrange⟩, cp, hcp, hfits, rfl⟩
  · rintro ⟨⟨hvalid, hkey, hcovered, hrange⟩, cp, hcp, hfits, rfl⟩
    exact ⟨(), hvalid, scope, hkey, (), hcovered, (), hrange, cp, hcp, _, ⟨hfits, rfl⟩, rfl⟩

theorem aggregate_congr (hattempts : db'.attempts = db.attempts) (hgaps : db'.gaps = db.gaps)
    (hcp : db'.checkpoints = db.checkpoints) (scope : Scope) (w : Window) :
    db'.aggregate scope w = db.aggregate scope w := by
  have ha : ∀ (p : ℤ → Prop) [DecidablePred p], db'.attemptsWhere scope p = db.attemptsWhere scope p := by
    intro p _
    rw [attemptsWhere, attemptsWhere, hattempts]
  have hg : ∀ (p : ℤ → Prop) [DecidablePred p], db'.gapsWhere scope p = db.gapsWhere scope p := by
    intro p _
    rw [gapsWhere, gapsWhere, hgaps]
  have hedges : db'.addEdgeGaps scope w = db.addEdgeGaps scope w := by
    funext cp
    unfold addEdgeGaps
    rw [hg]
  have hdays : db'.mergeFullDays scope w = db.mergeFullDays scope w := by
    simp only [mergeFullDays, fullDays, hcp, readCheckpoint_congr hcp]
  unfold aggregate
  rw [hdays, hedges, ha, ha, hg]

theorem Window.Reportable.congr (h : w.Reportable db scope) (hcoverage : db'.coverage = db.coverage) :
    w.Reportable db' scope :=
  ⟨h.validate, h.key, by rw [collectedFromMs, hcoverage]; exact h.covered, h.range⟩

theorem metering_ne_blocked (cp : Checkpoint) : cp.metering ≠ "blocked" := by
  unfold Checkpoint.metering
  split
  · decide
  · split <;> decide

end

/-! ## The resolved attempts -/

section
variable {db db' : Db} {scope : Scope} {w : Window} {staleBeforeMs : ℤ}

theorem settleOutcomeInTx_open {k : String × String} {r : AttemptRow} {outcome : AttemptOutcome}
    {b : Bool} (hfind : db.attempts.find? k = some r) (hopen : ¬r.meteringStatus.Settled)
    (h : db.settleOutcomeInTx k.1 k.2 outcome false = .ok (db', b)) :
    db'.watermark = db.watermark + 1 ∧ ∀ k', k' ≠ k → db'.attempts.find? k' = db.attempts.find? k' := by
  have hfind' : db.attempt? k.1 k.2 = some r := hfind
  rcases settleOutcomeInTx_cases h with ⟨hb, -⟩ | ⟨-, old, hold, -, -, hw⟩
  · exfalso
    unfold settleOutcomeInTx at h
    rw [hfind'] at h
    dsimp only at h
    rw [if_neg (by simp [hopen])] at h
    simp only [bind_eq_ok, pure_eq_ok, Prod.mk.injEq] at h
    obtain ⟨d, -, -, hb'⟩ := h
    rw [hb] at hb'
    cases hb'
  · have hspec := writeSettlement_spec hw
    have hkey : old.key = k := find?_key hold
    refine ⟨hspec.watermark, fun k' hne => ?_⟩
    rw [hspec.find? (hkey ▸ hold) k', if_neg (hkey ▸ hne)]

theorem foldlM_resolve {keys : List (String × String)} (hnodup : keys.Nodup)
    (hopen : ∀ k ∈ keys, ∃ r, db.attempts.find? k = some r ∧ ¬r.meteringStatus.Settled)
    (h : keys.foldlM (fun db key => do
      let (db, _) ← db.settleOutcomeInTx key.1 key.2 .unknown false
      pure db) db = .ok db') : db'.watermark = db.watermark + keys.length := by
  induction keys generalizing db with
  | nil =>
    cases h
    rfl
  | cons k keys ih =>
    rw [foldlM_cons, bind_eq_ok] at h
    obtain ⟨db₁, hk, h⟩ := h
    simp only [bind_eq_ok, pure_eq_ok] at hk
    obtain ⟨⟨db₂, b⟩, hk, rfl⟩ := hk
    rw [nodup_cons] at hnodup
    obtain ⟨r, hfind, hr⟩ := hopen k (by simp)
    obtain ⟨hmark, hother⟩ := settleOutcomeInTx_open hfind hr hk
    rw [ih hnodup.2 ?_ h, hmark, length_cons]
    · omega
    · intro k' hk'
      rw [hother k' fun heq => hnodup.1 (heq ▸ hk')]
      exact hopen k' (by simp [hk'])

theorem resolveWindowPendingInTx_watermark (h : db.resolveWindowPendingInTx scope w staleBeforeMs = .ok db') :
    db'.watermark = db.watermark + (db.stalePending scope w staleBeforeMs).length := by
  refine foldlM_resolve ?_ ?_ h
  · refine (List.Sublist.map AttemptRow.key ?_).nodup db.attempts.nodup
    exact filter_sublist.trans filter_sublist
  · intro k hk
    obtain ⟨r, hr, rfl⟩ := mem_map.mp hk
    obtain ⟨hr, hcond⟩ := mem_filter.mp hr
    simp only [decide_eq_true_eq] at hcond
    exact ⟨r, find?_of_mem (mem_filter.mp hr).1, hcond.1⟩

end

/-! ## The reconcile itself -/

/-- The status of the window once its stale attempts are resolved. -/
def Db.resolvedStatus (db : Db) (scope : Scope) (w : Window) (staleBeforeMs : ℤ) : Except QuotaError QuotaStatus := do
  let (db, _) ← db.rebuildCheckpointsInTx scope
  let db ← db.resolveWindowPendingInTx scope w staleBeforeMs
  db.statusInTx scope w

/-- A well-formed `set` of the window to the target. -/
structure Adjustment.Sets (a : Adjustment) (target : ℕ) : Prop where
  action : a.edit.action = .set
  target : ∃ raw, a.edit.targetPicos = some raw ∧ unsignedDecimal raw = .ok target
  valid : a.edit.operationId ≠ "" ∧ a.edit.operationId.utf8ByteSize ≤ 128 ∧
    Text.trim a.edit.reason ≠ "" ∧ a.edit.reason.utf8ByteSize ≤ 1000 ∧
    a.edit.expectedGrantRevision = a.grantRevision ∧ a.edit.windowId = a.window.id

/-- A Router watermark recorded in a block of the window or of the whole scope. -/
def Db.Recorded (db : Db) (scope : Scope) (windowId : String) (mark : ℕ) : Prop :=
  db.blockedRouterWatermark scope (some windowId) = some mark ∨ db.blockedRouterWatermark scope none = some mark

/-- The reconcile has a watermark left: the counter after the resolved attempts and every recorded
Router watermark are below the largest one. -/
def Db.HasWatermark (db : Db) (scope : Scope) (w : Window) (staleBeforeMs : ℤ) : Prop :=
  ((db.watermark + (db.stalePending scope w staleBeforeMs).length : ℕ) : ℤ) < i64Max ∧
    ∀ mark, db.Recorded scope w.id mark → (mark : ℤ) < i64Max

section
variable {db db' : Db} {scope : Scope} {w : Window}

theorem routerWatermark_cases (db : Db) (scope : Scope) (windowId : String) :
    (db.routerWatermark scope windowId = none ∧ ∀ mark, ¬db.Recorded scope windowId mark) ∨
      ∃ top, db.routerWatermark scope windowId = some top ∧ db.Recorded scope windowId top ∧
        ∀ mark, db.Recorded scope windowId mark → mark ≤ top := by
  unfold routerWatermark Db.Recorded
  cases db.blockedRouterWatermark scope (some windowId) with
  | none =>
    cases db.blockedRouterWatermark scope none with
    | none => simp
    | some m => simp
  | some m =>
    cases db.blockedRouterWatermark scope none with
    | none => simp
    | some m' =>
      right
      refine ⟨max m m', by simp [max?], ?_, ?_⟩
      · rcases le_total m m' with h | h
        · exact .inr (by rw [max_eq_right h])
        · exact .inl (by rw [max_eq_left h])
      · rintro mark (h | h)
        · cases h
          exact le_max_left _ _
        · cases h
          exact le_max_right _ _

theorem clearBlocks_windowBlocked (db : Db) (scope : Scope) (windowId : String) :
    (db.clearBlocks scope windowId).windowBlocked scope windowId = false := by
  have hfind : ∀ k, ((db.blocks.erase (scope, some windowId)).erase (scope, none)).find? k =
      if k = (scope, none) ∨ k = (scope, some windowId) then none else db.blocks.find? k := by
    intro k
    rw [find?_erase, find?_erase]
    by_cases h₁ : k = (scope, none) <;> by_cases h₂ : k = (scope, some windowId) <;> simp [h₁, h₂]
  simp only [windowBlocked, clearBlocks, hfind]
  simp

theorem lastAdjustment_insert {row : AdjustmentRow} {h : db.adjustments.find? row.operationId = none}
    (hadj : db'.adjustments = db.adjustments.insert row h)
    (hle : ∀ a ∈ db.adjustments.rows, a.watermark < row.watermark) :
    db'.lastAdjustment row.scope row.windowId = some row := by
  have hrows : db'.adjustments.rows = db.adjustments.rows ++ [row] := by
    rw [hadj]
    rfl
  rw [lastAdjustment, hrows, filter_append, filter_cons_of_pos (by simp), filter_nil, argmax_concat]
  cases hlast : (db.adjustments.rows.filter fun a =>
      a.scope = row.scope ∧ a.windowId = row.windowId).argmax AdjustmentRow.watermark with
  | none => rfl
  | some last => exact if_pos (hle last (mem_filter.mp (argmax_mem hlast)).1)

end

section
variable {db db' db₂ : Db} {a : Adjustment} {actor : String} {target : ℕ} {staleBeforeMs : ℤ}

theorem insertAdjustment_eq_ok : db.insertAdjustment a actor = .ok db' ↔
    ∃ st offset, ∃ h : db.adjustments.find? a.edit.operationId = none,
      db.statusInTx a.scope a.window = .ok st ∧
      adjustmentOffset a.edit st.observedPicos = .ok offset ∧
      ((db.watermark + 1 : ℕ) : ℤ) ≤ i64Max ∧ (st.usageWatermark : ℤ) ≤ i64Max ∧
      db' = { db with
        watermark := db.watermark + 1
        adjustments := db.adjustments.insert
          ⟨a.edit.operationId, a.scope, a.window.id, a.edit, actor, offset, db.watermark + 1⟩ h } := by
  simp only [insertAdjustment, nextWatermark, bind_eq_ok, ensure_eq_ok, context_eq_ok, pure_eq_ok, tryInsert_eq_some]
  constructor
  · rintro ⟨st, hst, offset, hoffset, ⟨db₁, mark⟩, ⟨-, hlimit, hpair⟩, -, husage, adjustments, ⟨hfresh, rfl⟩, rfl⟩
    cases hpair
    exact ⟨st, offset, hfresh, hst, hoffset, hlimit, husage, rfl⟩
  · rintro ⟨st, offset, hfresh, hst, hoffset, hlimit, husage, rfl⟩
    exact ⟨st, hst, offset, hoffset, _, ⟨(), hlimit, rfl⟩, (), husage, _, ⟨hfresh, rfl⟩, rfl⟩

def Db.cleared (db : Db) (scope : Scope) (w : Window) : Db :=
  { db with watermark := max db.watermark ((db.routerWatermark scope w.id).getD 0) }.clearBlocks scope w.id

/-- A reconcile goes through exactly if its parts do and the recorded Router watermark is in range. -/
theorem reconcileInTx_eq_ok {scope : Scope} {w : Window} :
    db.reconcileInTx scope w staleBeforeMs = .ok db' ↔
      ∃ db₁ n db₂, db.rebuildCheckpointsInTx scope = .ok (db₁, n) ∧
        db₁.resolveWindowPendingInTx scope w staleBeforeMs = .ok db₂ ∧
        (∀ top, db₂.routerWatermark scope w.id = some top → (top : ℤ) ≤ i64Max) ∧
        db' = db₂.cleared scope w := by
  have hfloor : ∀ db₂ db₃ : Db,
      (db₂.routerWatermark scope w.id).elim (pure db₂) db₂.raiseWatermarkFloor = (.ok db₃ : Except QuotaError Db) ↔
      (∀ top, db₂.routerWatermark scope w.id = some top → (top : ℤ) ≤ i64Max) ∧
        db₃ = { db₂ with
          watermark := max db₂.watermark ((db₂.routerWatermark scope w.id).getD 0) } := by
    intro db₂ db₃
    cases db₂.routerWatermark scope w.id with
    | none =>
      simp only [elim_none, pure_eq_ok, getD_none, Nat.max_zero, reduceCtorEq, false_implies, implies_true, true_and]
      exact eq_comm
    | some top =>
      simp only [elim_some, raiseWatermarkFloor, bind_eq_ok, ensure_eq_ok, exists_const,
        pure_eq_ok, some.injEq, forall_eq', getD_some]
      exact and_congr_right fun _ => eq_comm
  simp only [reconcileInTx, bind_eq_ok, pure_eq_ok, hfloor]
  constructor
  · rintro ⟨⟨db₁, n⟩, hre, db₂, hres, db₃, ⟨hle, rfl⟩, rfl⟩
    exact ⟨db₁, n, db₂, hre, hres, hle, rfl⟩
  · rintro ⟨db₁, n, db₂, hre, hres, hle, rfl⟩
    exact ⟨(db₁, n), hre, db₂, hres, _, ⟨hle, rfl⟩, rfl⟩

theorem applyAdjustmentsInTx_set (hsets : a.Sets target) (hactor : actor ≠ "") (hkey : a.scope.key = .ok a.scope)
    (hfresh : db.adjustments.find? a.edit.operationId = none) :
    db.applyAdjustmentsInTx [a] actor staleBeforeMs = .ok db' ↔
      ∃ db₁, db.reconcileInTx a.scope a.window staleBeforeMs = .ok db₁ ∧ db₁.insertAdjustment a actor = .ok db' := by
  have hbatch : ensure (actor ≠ "" ∧ [a] ≠ [] ∧ [a].length ≤ 500) QuotaError.targetInvalid =
      .ok () := ensure_of ⟨hactor, by simp, by simp⟩
  rw [applyAdjustmentsInTx, hbatch, ok_bind, applyBatch, hkey, ok_bind,
    ensure_of (by simp), ok_bind, applyAdjustment, ensure_of hsets.valid, ok_bind, hfresh]
  simp only [if_pos hsets.action, bind_eq_ok, applyBatch, pure_eq_ok]
  constructor
  · rintro ⟨d, ⟨db₁, hre, hins⟩, rfl⟩
    exact ⟨db₁, hre, hins⟩
  · rintro ⟨db₁, hre, hins⟩
    exact ⟨db', ⟨db₁, hre, hins⟩, rfl⟩

theorem applyAdjustmentsInTx_recorded {row : AdjustmentRow}
    (hfind : db.adjustments.find? a.edit.operationId = some row)
    (h : db.applyAdjustmentsInTx [a] actor staleBeforeMs = .ok db') : db' = db := by
  simp only [applyAdjustmentsInTx, applyBatch, applyAdjustment, bind_eq_ok, hfind, pure_eq_ok] at h
  obtain ⟨-, -, key, -, -, -, d, ⟨-, -, -, -, rfl⟩, rfl⟩ := h
  rfl

end

/-! ## Recorded operations -/

section
variable {db db' : Db} {operationId : String} {row : AdjustmentRow}

theorem Change.recorded {c : Change} (h : c.Step db db') (hfind : db.adjustments.find? operationId = some row) :
    db'.adjustments.find? operationId = some row := by
  by_cases hc : ∀ a actor, c ≠ .adjust a actor
  · rw [(Change.frame h).adjustments hc]
    exact hfind
  · push Not at hc
    obtain ⟨a, actor, rfl⟩ := hc
    obtain ⟨st, offset, hfresh, -, -, -, -, rfl⟩ := insertAdjustment_eq_ok.mp h
    rw [find?_insert, if_neg, hfind]
    rintro rfl
    rw [show AdjustmentRow.operationId _ = a.edit.operationId from rfl, hfresh] at hfind
    cases hfind

theorem recorded_run (hash : PricingSnapshot → String) (ops : List Op)
    (hfind : db.adjustments.find? operationId = some row) :
    (run (step hash) db ops).adjustments.find? operationId = some row := by
  let Inv : Db → Prop := fun db => db.adjustments.find? operationId = some row
  have hchange : ∀ op db c db', Inv db → Op.Allows op db c → c.Step db db' → Inv db' :=
    fun _ _ _ _ hdb _ hc => Change.recorded hc hdb
  have hstep : ∀ db op, Inv db → True → Inv (step hash db op) :=
    fun _ op hdb _ => step_invariant hash (hchange op) hdb
  exact run_invariant hstep hfind (EachStep.of_forall (fun _ _ => trivial) db ops)

end

/-! ## Watermarks of a ledger without gaps -/

section
variable {db db' : Db} {scope : Scope} {w : Window}

theorem Change.gaps_nil {c : Change} (h : c.Step db db') (hnil : db.gaps.rows = []) : db'.gaps.rows = [] := by
  cases c with
  | admission a trial =>
    obtain ⟨model, reserved, -, hins⟩ := h
    obtain ⟨db₁, -, ⟨-, hgaps, -⟩ | ⟨g, db₂, hg, -⟩⟩ := (insertAttempt_spec hins).checkpoints
    · rw [hgaps]
      exact hnil
    · have hmem := find?_mem hg
      rw [hnil] at hmem
      cases hmem
  | observe o =>
    obtain ⟨old, s, -, hw⟩ := h
    rw [(writeSettlement_spec hw).gaps]
    exact hnil
  | outcome requestId attemptId result onlyUnobserved =>
    obtain ⟨old, -, -, -, hw⟩ := h
    rw [(writeSettlement_spec hw).gaps]
    exact hnil
  | compact r now =>
    have hone := h.2.2.2
    simp only [compactOne, bind_eq_ok, pure_eq_ok] at hone
    obtain ⟨cp, -, n, -, -, -, rfl⟩ := hone
    exact hnil
  | rebuild scope =>
    obtain ⟨n, hr⟩ := h
    obtain ⟨⟨checkpoints, rfl⟩, -⟩ := rebuildCheckpointsInTx_spec hr
    exact hnil
  | raise floor =>
    simp only [Change.Step, raiseWatermarkFloor, bind_eq_ok, pure_eq_ok] at h
    obtain ⟨-, -, rfl⟩ := h
    exact hnil
  | adjust a actor =>
    obtain ⟨st, offset, hfresh, -, -, -, -, rfl⟩ := insertAdjustment_eq_ok.mp h
    exact hnil
  | record log =>
    simp only [Change.Step, upsertUsageRow, bind_eq_ok, pure_eq_ok] at h
    obtain ⟨-, -, -, -, rfl⟩ := h
    exact hnil
  | install row =>
    obtain ⟨-, rfl⟩ := h
    exact hnil
  | aux =>
    rw [h.gaps]
    exact hnil

/-- No legacy gap is left, and the window is marked. -/
def GapFree (scope : Scope) (w : Window) (db : Db) : Prop := db.gaps.rows = [] ∧ Marked scope w db

theorem GapFree.empty (scope : Scope) (w : Window) : GapFree scope w empty := ⟨rfl, Inherited.empty.marked scope w⟩

theorem GapFree.change {c : Change} (h : GapFree scope w db) (hc : c.Step db db') : GapFree scope w db' := by
  refine ⟨Change.gaps_nil hc h.1, (h.2.change hc ?_).1⟩
  intro a trial _ g hg
  have hmem := find?_mem hg
  rw [h.1] at hmem
  cases hmem

theorem GapFree.run (h : GapFree scope w db) (hash : PricingSnapshot → String) (ops : List Op) :
    GapFree scope w (Foundations.run (step hash) db ops) := by
  have hstep : ∀ db op, GapFree scope w db → True → GapFree scope w (step hash db op) :=
    fun db op hdb _ => step_invariant hash (fun _ _ _ hdb _ hc => hdb.change hc) hdb
  exact run_invariant hstep h (EachStep.of_forall (fun _ _ => trivial) db ops)

variable {s : Scope} {v : Window} {staleBeforeMs : ℤ}

theorem GapFree.resolved {db₁ : Db} {n : ℕ} (h : GapFree scope w db) (hre : db.rebuildCheckpointsInTx s = .ok (db₁, n))
    (hres : db₁.resolveWindowPendingInTx s v staleBeforeMs = .ok db') : GapFree scope w db' := by
  have h₁ : GapFree scope w db₁ := h.change (show Change.Step (.rebuild s) db db₁ from ⟨n, hre⟩)
  have htrace : Trace Change.Step (fun _ _ => True) db₁ db' := by
    refine Trace.foldlM _ ?_ hres
    intro d d' k _ hk
    simp only [bind_eq_ok, pure_eq_ok] at hk
    obtain ⟨⟨d₁, b⟩, hk, rfl⟩ := hk
    exact settleOutcomeInTx_trace (fun _ => trivial) hk
  have hstep : ∀ d c d', GapFree scope w d → True → Change.Step c d d' → GapFree scope w d' :=
    fun d c d' hd _ hc => hd.change hc
  exact htrace.invariant hstep h₁

theorem resolveWindowPendingInTx_adjustments (hres : db.resolveWindowPendingInTx s v staleBeforeMs = .ok db') :
    db'.adjustments = db.adjustments := by
  have hrefl : ∀ d : Db, d.adjustments = d.adjustments := fun _ => rfl
  refine foldlM_relates (R := fun d d' : Db => d'.adjustments = d.adjustments) hrefl (fun h h' => h'.trans h) ?_ hres
  intro d d' k _ hk
  simp only [bind_eq_ok, pure_eq_ok] at hk
  obtain ⟨⟨d₁, b⟩, hk, rfl⟩ := hk
  rcases settleOutcomeInTx_cases hk with ⟨-, rfl⟩ | ⟨-, old, -, -, -, hw⟩
  · rfl
  · exact (writeSettlement_spec hw).adjustments

theorem resolved_tables {db₁ : Db} {n : ℕ} (hre : db.rebuildCheckpointsInTx s = .ok (db₁, n))
    (hres : db₁.resolveWindowPendingInTx s v staleBeforeMs = .ok db') :
    SameControls db db' ∧ db'.adjustments = db.adjustments ∧
      db'.watermark = db.watermark + (db.stalePending s v staleBeforeMs).length := by
  have hcontrols := (rebuildCheckpointsInTx_controls hre).trans (resolveWindowPendingInTx_controls hres)
  have hadjustments := resolveWindowPendingInTx_adjustments hres
  have hwatermark := resolveWindowPendingInTx_watermark hres
  obtain ⟨⟨checkpoints, hdb₁⟩, -⟩ := rebuildCheckpointsInTx_spec hre
  rw [hdb₁] at hadjustments hwatermark
  exact ⟨hcontrols, hadjustments, hwatermark⟩

end

/-! ## The owner's expectation -/

/-- The window reports the target and is not blocked, the Router's watermarks do not block it again,
and the operation is not applied a second time. -/
structure Unlocked (hash : PricingSnapshot → String) (db db' : Db) (a : Adjustment) (actor : String)
    (target : ℕ) : Prop where
  status : ∃ st, db'.statusInTx a.scope a.window = .ok st ∧ st.usedPicos = target ∧
    st.meteringStatus ≠ "blocked" ∧
    ∀ mark, db.Recorded a.scope a.window.id mark → mark < st.usageWatermark
  ack : ∀ mark usageWatermark, db.Recorded a.scope a.window.id mark →
    step hash db' (.ack a.scope a.window usageWatermark mark) = db'
  repeated : ∀ (later : List Op) (again : Adjustment) staleBeforeMs, again.edit = a.edit →
    step hash (run (step hash) db' later) (.adjust [again] actor staleBeforeMs) = run (step hash) db' later

section
variable {db db' db₂ : Db} {a : Adjustment} {actor : String} {target : ℕ} {staleBeforeMs : ℤ}

variable {scope : Scope} {w : Window}

theorem ack_step_of_lt (hash : PricingSnapshot → String) {st : QuotaStatus} {mark : ℕ}
    (hst : db.statusInTx scope w = .ok st) (hlt : mark < st.usageWatermark) (usageWatermark : ℕ) :
    step hash db (.ack scope w usageWatermark mark) = db := by
  have hack : ∀ d b, db.ackInTx scope w usageWatermark mark = .ok (d, b) → d = db := by
    intro d b h
    unfold ackInTx at h
    split at h
    · rw [hst, ok_bind, if_neg (by omega)] at h
      cases h
      rfl
    · simp only [bind_eq_ok, pure_eq_ok, Prod.mk.injEq] at h
      exact h.choose_spec.2.1.symm
  rcases commit_cases (transact hash) db (.ack scope w usageWatermark mark) with hok | ⟨-, heq⟩
  · simp only [transact, bind_eq_ok, pure_eq_ok] at hok
    obtain ⟨⟨d, b⟩, hd, heq⟩ := hok
    rw [step, ← heq]
    exact hack d b hd
  · exact heq

theorem adjust_step_recorded (hash : PricingSnapshot → String) {row : AdjustmentRow}
    (hfind : db.adjustments.find? a.edit.operationId = some row) :
    step hash db (.adjust [a] actor staleBeforeMs) = db := by
  rcases commit_cases (transact hash) db (.adjust [a] actor staleBeforeMs) with hok | ⟨-, heq⟩
  · exact applyAdjustmentsInTx_recorded hfind hok
  · exact heq

theorem recorded_congr (h : db'.blocks = db.blocks) (scope : Scope) (windowId : String) :
    db'.Recorded scope windowId = db.Recorded scope windowId := by
  funext mark
  simp only [Db.Recorded, blockedRouterWatermark, h]

theorem cleared_status {st : QuotaStatus} (hst : db.statusInTx scope w = .ok st) :
    w.Reportable (db.cleared scope w) scope ∧ ∃ cp, db.aggregate scope w = .ok cp ∧
      st.observedPicos = cp.amount ∧
      ((db.cleared scope w).reported scope w cp).usageWatermark = st.usageWatermark ∧
      (db.cleared scope w).statusInTx scope w = .ok ((db.cleared scope w).reported scope w cp) := by
  obtain ⟨hreportable, cp, hcp, hfits, rfl⟩ := statusInTx_eq_ok.mp hst
  have hreportable' : w.Reportable (db.cleared scope w) scope := hreportable.congr rfl
  have hcp' : (db.cleared scope w).aggregate scope w = .ok cp := (aggregate_congr rfl rfl rfl scope w).trans hcp
  exact ⟨hreportable', cp, hcp, rfl, rfl, statusInTx_eq_ok.mpr ⟨hreportable', cp, hcp', hfits, rfl⟩⟩

theorem recorded_lt_cleared {mark : ℕ} (h : db.Recorded scope w.id mark) : mark ≤ (db.cleared scope w).watermark := by
  rcases routerWatermark_cases db scope w.id with ⟨-, hnone⟩ | ⟨top, htop, -, hle⟩
  · exact absurd h (hnone mark)
  · refine (hle mark h).trans ?_
    show top ≤ max db.watermark ((db.routerWatermark scope w.id).getD 0)
    rw [htop]
    exact le_max_right _ _

theorem hasWatermark_iff (hblocks : db₂.blocks = db.blocks)
    (hwatermark : db₂.watermark = db.watermark + (db.stalePending scope w staleBeforeMs).length) :
    db.HasWatermark scope w staleBeforeMs ↔
      (∀ top, db₂.routerWatermark scope w.id = some top → (top : ℤ) ≤ i64Max) ∧
        (((db₂.cleared scope w).watermark + 1 : ℕ) : ℤ) ≤ i64Max := by
  have hcounter : (db₂.cleared scope w).watermark = max db₂.watermark ((db₂.routerWatermark scope w.id).getD 0) := rfl
  rw [Db.HasWatermark, hcounter, ← hwatermark, ← recorded_congr hblocks]
  rcases routerWatermark_cases db₂ scope w.id with ⟨hnone, hempty⟩ | ⟨top, htop, hmem, hle⟩
  · rw [hnone]
    constructor
    · rintro ⟨hlt, -⟩
      refine ⟨fun top h => (nomatch h), ?_⟩
      simp only [getD_none, Nat.max_zero]
      omega
    · rintro ⟨-, hlt⟩
      simp only [getD_none, Nat.max_zero] at hlt
      exact ⟨by omega, fun mark h => absurd h (hempty mark)⟩
  · rw [htop]
    simp only [some.injEq, forall_eq', getD_some]
    constructor
    · rintro ⟨hlt, hmarks⟩
      have hmark := hmarks top hmem
      omega
    · rintro ⟨-, hlt⟩
      refine ⟨by omega, fun mark h => ?_⟩
      have hmark := hle mark h
      omega

/-- The new adjustment is the last of its window, so the window reports the target. -/
theorem adjusted_status {offset : ℕ} {cp : Checkpoint} {h : db.adjustments.find? a.edit.operationId = none}
    (hreportable : a.window.Reportable db a.scope) (hcp : db.aggregate a.scope a.window = .ok cp)
    (hle : ∀ x ∈ db.adjustments.rows, x.watermark ≤ db.watermark) (hfits : cp.amount + offset ≤ i128Max)
    (hblocked : db.windowBlocked a.scope a.window.id = false) (hdb' : db' = { db with
      watermark := db.watermark + 1
      adjustments := db.adjustments.insert
        ⟨a.edit.operationId, a.scope, a.window.id, a.edit, actor, offset, db.watermark + 1⟩ h }) :
    ∃ st, db'.statusInTx a.scope a.window = .ok st ∧ st.usedPicos = cp.amount + offset ∧
      st.meteringStatus ≠ "blocked" ∧ db.watermark < st.usageWatermark := by
  have hadj : db'.adjustments = db.adjustments.insert
      ⟨a.edit.operationId, a.scope, a.window.id, a.edit, actor, offset, db.watermark + 1⟩ h := by
    rw [hdb']
  have hlast := lastAdjustment_insert hadj fun x hx => Nat.lt_succ_of_le (hle x hx)
  have hoffset : db'.manualOffset a.scope a.window.id = offset := by
    rw [manualOffset, hlast]
    rfl
  have hmark : db'.adjustmentMark a.scope a.window.id = db.watermark + 1 := by
    rw [adjustmentMark, hlast]
    rfl
  have hblocked' : db'.windowBlocked a.scope a.window.id = false := by
    rw [hdb']
    exact hblocked
  have hcp' : db'.aggregate a.scope a.window = .ok cp := by
    rw [hdb']
    exact (aggregate_congr rfl rfl rfl a.scope a.window).trans hcp
  have hreportable' : a.window.Reportable db' a.scope := by
    rw [hdb']
    exact hreportable.congr rfl
  refine ⟨_, statusInTx_eq_ok.mpr ⟨hreportable', cp, hcp', by rw [hoffset]; exact hfits, rfl⟩, ?_, ?_, ?_⟩
  · rw [reported, hoffset]
  · simp only [reported, hblocked', Bool.false_eq_true, if_false]
    exact metering_ne_blocked cp
  · show db.watermark < max cp.watermark (db'.adjustmentMark a.scope a.window.id)
    rw [hmark]
    exact lt_of_lt_of_le (Nat.lt_succ_self _) (le_max_right _ _)

end

/-- In every reachable ledger, a `set` to at least the observed amount unlocks its window exactly when a
watermark is left for it. -/
theorem reconcile_unlocks_iff (hash : PricingSnapshot → String) (ops : List Op) {a : Adjustment}
    {actor : String} {target : ℕ} {staleBeforeMs : ℤ} {observed : QuotaStatus}
    (hsets : a.Sets target) (hactor : actor ≠ "")
    (hfresh : (run (step hash) empty ops).adjustments.find? a.edit.operationId = none)
    (hobserved : (run (step hash) empty ops).resolvedStatus a.scope a.window staleBeforeMs = .ok observed)
    (hlow : observed.observedPicos ≤ target) (hhigh : target ≤ maxLimitMicros * 1000000) :
    (∃ db', (run (step hash) empty ops).applyAdjustmentsInTx [a] actor staleBeforeMs = .ok db' ∧
      Unlocked hash (run (step hash) empty ops) db' a actor target) ↔
    (run (step hash) empty ops).HasWatermark a.scope a.window staleBeforeMs := by
  have hgapFree := (GapFree.empty a.scope a.window).run hash ops
  generalize run (step hash) empty ops = db at *
  simp only [resolvedStatus, bind_eq_ok] at hobserved
  obtain ⟨⟨db₁, n⟩, hre, db₂, hres, hst⟩ := hobserved
  obtain ⟨hcontrols, hadjustments, hwatermark⟩ := resolved_tables hre hres
  have hmarked := (hgapFree.resolved hre hres).2
  obtain ⟨hreportable, cp, hcp, hamount, husage, hcleared⟩ := cleared_status hst
  rw [hamount] at hlow
  have hkey := hreportable.key
  rw [hasWatermark_iff hcontrols.blocks hwatermark]
  constructor
  · rintro ⟨db', happly, -⟩
    obtain ⟨db₃, hrec, hins⟩ := (applyAdjustmentsInTx_set hsets hactor hkey hfresh).mp happly
    obtain ⟨d₁, m, d₂, hre', hres', htop, rfl⟩ := reconcileInTx_eq_ok.mp hrec
    obtain ⟨-, -, -, -, -, hlimit, -⟩ := insertAdjustment_eq_ok.mp hins
    rw [hre] at hre'
    cases hre'
    rw [hres] at hres'
    cases hres'
    exact ⟨htop, hlimit⟩
  · rintro ⟨htop, hlimit⟩
    have hrec := reconcileInTx_eq_ok.mpr ⟨db₁, n, db₂, hre, hres, htop, rfl⟩
    have hmarks : ∀ mark, db.Recorded a.scope a.window.id mark → mark ≤ (db₂.cleared a.scope a.window).watermark := by
      intro mark h
      rw [← recorded_congr hcontrols.blocks] at h
      exact recorded_lt_cleared h
    have hcounter : db₂.watermark ≤ (db₂.cleared a.scope a.window).watermark := le_max_left _ _
    have hadj : (db₂.cleared a.scope a.window).adjustments = db.adjustments := hadjustments
    have hblocked := clearBlocks_windowBlocked { db₂ with
      watermark := max db₂.watermark ((db₂.routerWatermark a.scope a.window.id).getD 0) }
      a.scope a.window.id
    have hcp₃ : (db₂.cleared a.scope a.window).aggregate a.scope a.window = .ok cp :=
      (aggregate_congr rfl rfl rfl a.scope a.window).trans hcp
    have hlast : ∀ x ∈ (db₂.cleared a.scope a.window).adjustments.rows,
        x.watermark ≤ (db₂.cleared a.scope a.window).watermark :=
      fun x hx => (hmarked.adjustments_le x hx).trans hcounter
    have hread : ((db₂.cleared a.scope a.window).reported a.scope a.window cp).usageWatermark ≤
        (db₂.cleared a.scope a.window).watermark := by
      rw [husage, hmarked.usageWatermark_eq hst]
      exact hmarked.windowMark_le.trans hcounter
    change (db₂.cleared a.scope a.window).windowBlocked a.scope a.window.id = false at hblocked
    generalize db₂.cleared a.scope a.window = db₃ at *
    have hfresh₃ : db₃.adjustments.find? a.edit.operationId = none := by
      rw [hadj]
      exact hfresh
    obtain ⟨raw, hraw, hdecimal⟩ := hsets.target
    have hoffset : adjustmentOffset a.edit (db₃.reported a.scope a.window cp).observedPicos =
        .ok (target - cp.amount) := by
      unfold adjustmentOffset
      rw [hsets.action]
      simp only [bind_eq_ok, context_eq_ok, lift_eq_ok, ensure_eq_ok, pure_eq_ok]
      exact ⟨raw, hraw, target, hdecimal, (), ⟨hlow, hhigh⟩, rfl⟩
    obtain ⟨db', hdb'⟩ : ∃ db' : Db, db' = { db₃ with
        watermark := db₃.watermark + 1
        adjustments := db₃.adjustments.insert ⟨a.edit.operationId, a.scope, a.window.id, a.edit, actor,
          target - cp.amount, db₃.watermark + 1⟩ hfresh₃ } := ⟨_, rfl⟩
    have hins : db₃.insertAdjustment a actor = .ok db' :=
      insertAdjustment_eq_ok.mpr ⟨_, _, hfresh₃, hcleared, hoffset, hlimit, by omega, hdb'⟩
    have hfits : cp.amount + (target - cp.amount) ≤ i128Max := by
      have hmax : maxLimitMicros * 1000000 ≤ i128Max := by decide
      omega
    refine ⟨db', (applyAdjustmentsInTx_set hsets hactor hkey hfresh).mpr ⟨db₃, hrec, hins⟩, ?_⟩
    obtain ⟨st, hst', hused, hmetering, hmark⟩ := adjusted_status hreportable hcp₃ hlast hfits hblocked hdb'
    have habove : ∀ mark, db.Recorded a.scope a.window.id mark → mark < st.usageWatermark :=
      fun mark h => lt_of_le_of_lt (hmarks mark h) hmark
    refine ⟨⟨st, hst', by omega, hmetering, habove⟩, ?_, ?_⟩
    · intro mark usageWatermark h
      exact ack_step_of_lt hash hst' (habove mark h) usageWatermark
    · intro later again staleBeforeMs hedit
      have hrecorded : db'.adjustments.find? again.edit.operationId = some ⟨a.edit.operationId, a.scope,
          a.window.id, a.edit, actor, target - cp.amount, db₃.watermark + 1⟩ := by
        rw [hedit, hdb']
        exact find?_insert_self _ _ hfresh₃
      exact adjust_step_recorded hash (recorded_run hash later hrecorded)

namespace Sample

def routerAhead (mark : ℕ) : List Op := opening ++ [.ack scope window 0 mark]

def setZero : Adjustment := ⟨scope, window, 1, ⟨.set, some "0", 1, "window", 0, "operation", "reviewed"⟩⟩

theorem setZero_sets : setZero.Sets 0 := ⟨rfl, ⟨"0", rfl, by decide⟩, by decide⟩

end Sample

/-- A recorded watermark beyond the largest one keeps its window blocked: the reconcile fails. -/
theorem reconcile_fails_past_the_largest_watermark : setZero.Sets 0 ∧
    ((run (step hash) empty (routerAhead (2 ^ 63))).statusInTx scope
      window).map QuotaStatus.meteringStatus = .ok "blocked" ∧
    ((run (step hash) empty (routerAhead (2 ^ 63))).resolvedStatus scope
      window 0).map QuotaStatus.observedPicos = .ok 0 ∧
    ((run (step hash) empty (routerAhead (2 ^ 63))).applyAdjustmentsInTx
      [setZero] "owner" 0).map (fun _ => ()) = .error .watermarkOverflow :=
  ⟨setZero_sets, by decide, by decide, by decide⟩

theorem reconcile_unlocks_router_ahead : ∃ db',
    (run (step hash) empty (routerAhead 5)).applyAdjustmentsInTx [setZero] "owner" 0 = .ok db' ∧
    Unlocked hash (run (step hash) empty (routerAhead 5)) db' setZero "owner" 0 := by
  have hok : ((run (step hash) empty (routerAhead 5)).resolvedStatus scope
      window 0).map QuotaStatus.observedPicos = .ok 0 := by
    decide
  cases hobserved : (run (step hash) empty (routerAhead 5)).resolvedStatus
      scope window 0 with
  | error e =>
    rw [hobserved] at hok
    cases hok
  | ok observed =>
    rw [hobserved] at hok
    have hzero : observed.observedPicos = 0 := Except.ok.inj hok
    refine (reconcile_unlocks_iff hash (routerAhead 5) setZero_sets (by decide)
      (by decide) hobserved (by omega) (by decide)).mpr ⟨by decide, ?_⟩
    have hblock : (run (step hash) empty (routerAhead 5)).blockedRouterWatermark scope (some "window") = some 5 := by
      decide
    have hlegacy : (run (step hash) empty (routerAhead 5)).blockedRouterWatermark scope none = none := by
      decide
    rintro mark (h | h)
    · have hmark : mark = 5 := some.inj (h.symm.trans hblock)
      rw [hmark]
      decide
    · have hnone : some mark = none := h.symm.trans hlegacy
      cases hnone

end CcSwitchServer.ValueQuota
