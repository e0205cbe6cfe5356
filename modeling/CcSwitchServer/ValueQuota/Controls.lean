import CcSwitchServer.ValueQuota.Rebuild

/-! # Blocks, coverage and the tariff schedule

What the ledger decides with beside its balances.
-/

namespace CcSwitchServer.ValueQuota
open Foundations ValuePricing Usage Db

structure SameSchedule (db db' : Db) : Prop where
  pendingTariffs : db'.pendingTariffs = db.pendingTariffs
  activeTariffs : db'.activeTariffs = db.activeTariffs

/-- A writer of balances neither blocks a window nor covers a scope. -/
structure SameControls (db db' : Db) : Prop extends SameSchedule db db' where
  blocks : db'.blocks = db.blocks
  coverage : db'.coverage = db.coverage

theorem SameSchedule.refl (db : Db) : SameSchedule db db := ⟨rfl, rfl⟩

theorem SameSchedule.trans {db db' db'' : Db} (h : SameSchedule db db')
    (h' : SameSchedule db' db'') : SameSchedule db db'' :=
  ⟨h'.pendingTariffs.trans h.pendingTariffs, h'.activeTariffs.trans h.activeTariffs⟩

theorem SameControls.refl (db : Db) : SameControls db db := ⟨.refl db, rfl, rfl⟩

theorem SameControls.trans {db db' db'' : Db} (h : SameControls db db')
    (h' : SameControls db' db'') : SameControls db db'' :=
  ⟨h.toSameSchedule.trans h'.toSameSchedule, h'.blocks.trans h.blocks, h'.coverage.trans h.coverage⟩

theorem foldlM_relates {σ ι ε : Type} {R : σ → σ → Prop} (hrefl : ∀ s, R s s)
    (htrans : ∀ {s t u}, R s t → R t u → R s u) {f : σ → ι → Except ε σ} {xs : List ι}
    (hf : ∀ s t, ∀ x ∈ xs, f s x = .ok t → R s t) {s t : σ} (h : xs.foldlM f s = .ok t) : R s t := by
  induction xs generalizing s with
  | nil =>
    cases h
    exact hrefl _
  | cons x xs ih =>
    rw [List.foldlM_cons, bind_eq_ok] at h
    obtain ⟨u, hx, h⟩ := h
    exact htrans (hf s u x (by simp) hx) (ih (fun s t y hy => hf s t y (by simp [hy])) h)

/-! ## The writers -/

section
variable {db db' : Db}

theorem writeSettlement_controls {old : AttemptRow} {s : Settlement}
    (h : db.writeSettlement old s = .ok db') : SameControls db db' := by
  simp only [writeSettlement, bind_eq_ok, pure_eq_ok] at h
  obtain ⟨db₀, hfloor, ⟨db₁, mark⟩, hmark, db₂, hcp, hdb'⟩ := h
  obtain ⟨markers, rfl, -⟩ := settlementFloor_cases hfloor
  obtain ⟨rfl, rfl⟩ := nextWatermark_eq_ok hmark
  obtain ⟨cp, rfl⟩ := updateCheckpoint_tables hcp
  split at hdb' <;> subst hdb' <;> exact ⟨⟨rfl, rfl⟩, rfl, rfl⟩

theorem settleInTx_controls {o : Observation} {b : Bool} (h : db.settleInTx o = .ok (db', b)) :
    SameControls db db' := by
  rcases settleInTx_cases h with ⟨-, rfl⟩ | ⟨-, old, s, -, hw⟩
  · exact .refl _
  · exact writeSettlement_controls hw

theorem settleOutcomeInTx_controls {requestId attemptId : String} {outcome : AttemptOutcome} {onlyUnobserved b : Bool}
    (h : db.settleOutcomeInTx requestId attemptId outcome onlyUnobserved = .ok (db', b)) :
    SameControls db db' := by
  rcases settleOutcomeInTx_cases h with ⟨-, rfl⟩ | ⟨-, old, -, -, -, hw⟩
  · exact .refl _
  · exact writeSettlement_controls hw

theorem settleLogInTx_controls {log : UsageLog} {forceTerminal b : Bool}
    (h : db.settleLogInTx log forceTerminal = .ok (db', b)) : SameControls db db' := by
  unfold settleLogInTx at h
  split at h
  · cases h
    exact .refl _
  · simp only [bind_eq_ok] at h
    obtain ⟨-, -, revision, -, h⟩ := h
    exact settleInTx_controls h

theorem insertAttempt_controls {a : Admission} {trial : Option MarketTrialBudget}
    {model : ExecutionModelPrice} {reserved : ℕ}
    (h : db.insertAttempt a trial model reserved = .ok db') : SameControls db db' := by
  simp only [insertAttempt, bind_eq_ok, context_eq_ok] at h
  obtain ⟨⟨db₁, mark⟩, hmark, -, -, attempts, -, db₂, htrial, db₃, hcp, hgap⟩ := h
  obtain ⟨rfl, rfl⟩ := nextWatermark_eq_ok hmark
  obtain ⟨markers, index, rfl, -⟩ := insertTrialMarker_cases htrial
  obtain ⟨cp, rfl⟩ := updateCheckpoint_tables hcp
  rcases removeGap_cases hgap with ⟨rfl, -⟩ | ⟨g, db₅, -, hremove, rfl⟩
  · exact ⟨⟨rfl, rfl⟩, rfl, rfl⟩
  · obtain ⟨cp', rfl⟩ := updateCheckpoint_tables hremove
    exact ⟨⟨rfl, rfl⟩, rfl, rfl⟩

theorem admitWithTrialInTx_controls {a : Admission} {trial : Option MarketTrialBudget} {reserved : ℕ}
    (h : db.admitWithTrialInTx a trial = .ok (db', reserved)) : SameControls db db' := by
  rcases admitWithTrialInTx_cases h with ⟨rfl, -⟩ | ⟨model, -, hins⟩
  · exact .refl _
  · exact insertAttempt_controls hins

theorem compactInTx_controls {cutoff now : ℤ} {n : ℕ} (h : db.compactInTx cutoff now = .ok (db', n)) :
    SameControls db db' := by
  simp only [compactInTx, bind_eq_ok, pure_eq_ok, Prod.mk.injEq] at h
  obtain ⟨db₁, hfold, rfl, -⟩ := h
  refine foldlM_relates SameControls.refl SameControls.trans ?_ hfold
  intro s t r _ hone
  simp only [compactOne, bind_eq_ok, pure_eq_ok] at hone
  obtain ⟨cp, -, count, -, -, -, rfl⟩ := hone
  exact ⟨⟨rfl, rfl⟩, rfl, rfl⟩

theorem rebuildCheckpointsInTx_controls {scope : Scope} {n : ℕ}
    (h : db.rebuildCheckpointsInTx scope = .ok (db', n)) : SameControls db db' := by
  obtain ⟨⟨checkpoints, rfl⟩, -⟩ := rebuildCheckpointsInTx_spec h
  exact ⟨⟨rfl, rfl⟩, rfl, rfl⟩

theorem resolveWindowPendingInTx_controls {scope : Scope} {w : Window} {startedBefore : ℤ}
    (h : db.resolveWindowPendingInTx scope w startedBefore = .ok db') : SameControls db db' := by
  refine foldlM_relates SameControls.refl SameControls.trans ?_ h
  intro s t k _ hk
  simp only [bind_eq_ok, pure_eq_ok] at hk
  obtain ⟨⟨t', b⟩, hk, rfl⟩ := hk
  exact settleOutcomeInTx_controls hk

theorem insertAdjustment_controls {a : Adjustment} {actor : String}
    (h : db.insertAdjustment a actor = .ok db') : SameControls db db' := by
  simp only [insertAdjustment, bind_eq_ok, pure_eq_ok] at h
  obtain ⟨-, -, -, -, ⟨db₁, mark⟩, hmark, -, -, adjustments, -, rfl⟩ := h
  obtain ⟨-, rfl⟩ := nextWatermark_eq_ok hmark
  exact ⟨⟨rfl, rfl⟩, rfl, rfl⟩

end

/-! ## The schedule -/

section
variable {db db' : Db}

theorem blockForReconcile_schedule (db : Db) (scope : Scope) (windowId : String) :
    SameSchedule db (db.blockForReconcile scope windowId) := by
  unfold blockForReconcile
  split
  · exact .refl db
  · exact ⟨rfl, rfl⟩

theorem foldl_blockForReconcile_schedule (rows : List AttemptRow) (db : Db) :
    SameSchedule db (rows.foldl (fun db r => db.blockForReconcile r.scope r.windowId) db) := by
  induction rows generalizing db with
  | nil => exact .refl db
  | cons r rows ih => exact (blockForReconcile_schedule db r.scope r.windowId).trans (ih _)

theorem settleUsageLogIsolated_schedule (db : Db) (log : UsageLog) :
    SameSchedule db (db.settleUsageLogIsolated log) := by
  unfold settleUsageLogIsolated
  split
  · rename_i settled hok
    exact (settleLogInTx_controls hok).toSameSchedule
  · exact foldl_blockForReconcile_schedule _ db

theorem sweepLog_controls (db : Db) (requestId attemptId : String) :
    SameControls db (db.sweepLog requestId attemptId) := by
  unfold sweepLog
  split
  · exact .refl db
  · split
    · rename_i hok
      exact settleLogInTx_controls hok
    · exact .refl db

theorem sweepOneInTx_controls {requestId attemptId : String} {report report' : SweepReport}
    (h : db.sweepOneInTx requestId attemptId report = .ok (db', report')) : SameControls db db' := by
  have hlog := sweepLog_controls db requestId attemptId
  unfold sweepOneInTx at h
  split at h
  · dsimp only at h
    split at h
    · simp only [bind_eq_ok, pure_eq_ok, Prod.mk.injEq] at h
      obtain ⟨⟨db₁, settled⟩, hout, rfl, -⟩ := h
      exact hlog.trans (settleOutcomeInTx_controls hout)
    · cases h
      exact hlog
  · cases h
    exact .refl _

theorem sweepStep_schedule (s : Db × SweepReport) (candidate : String × String) :
    SameSchedule s.1 (sweepStep s candidate).1 := by
  unfold sweepStep
  split
  · rename_i s' hok
    exact (sweepOneInTx_controls hok).toSameSchedule
  · cases s.1.attempt? candidate.1 candidate.2 with
    | none => exact .refl s.1
    | some r => exact blockForReconcile_schedule s.1 r.scope r.windowId

theorem sweepBatchInTx_schedule (db : Db) (candidates : List (String × String))
    (report : SweepReport) : SameSchedule db (db.sweepBatchInTx candidates report).1 := by
  unfold sweepBatchInTx
  induction candidates generalizing db report with
  | nil => exact .refl db
  | cons candidate candidates ih =>
    exact (sweepStep_schedule (db, report) candidate).trans (ih _ _)

variable {staleBeforeMs : ℤ}

theorem reconcileInTx_schedule {scope : Scope} {w : Window}
    (h : db.reconcileInTx scope w staleBeforeMs = .ok db') : SameSchedule db db' := by
  simp only [reconcileInTx, bind_eq_ok, pure_eq_ok] at h
  obtain ⟨⟨db₁, n⟩, hre, db₂, hres, db₃, hfloor, rfl⟩ := h
  have h₁ := (rebuildCheckpointsInTx_controls hre).toSameSchedule
  have h₂ := (resolveWindowPendingInTx_controls hres).toSameSchedule
  have h₃ : SameSchedule db₂ db₃ := by
    cases hmark : db₂.routerWatermark scope w.id with
    | none =>
      rw [hmark, Option.elim_none, pure_eq_ok] at hfloor
      rw [hfloor]
      exact .refl db₃
    | some mark =>
      rw [hmark, Option.elim_some] at hfloor
      simp only [raiseWatermarkFloor, bind_eq_ok, pure_eq_ok] at hfloor
      obtain ⟨-, -, rfl⟩ := hfloor
      exact ⟨rfl, rfl⟩
  exact ((h₁.trans h₂).trans h₃).trans ⟨rfl, rfl⟩

theorem applyAdjustment_schedule {a : Adjustment} {actor : String}
    (h : db.applyAdjustment a actor staleBeforeMs = .ok db') : SameSchedule db db' := by
  simp only [applyAdjustment, bind_eq_ok] at h
  obtain ⟨-, -, h⟩ := h
  split at h
  · simp only [bind_eq_ok, pure_eq_ok] at h
    obtain ⟨-, -, rfl⟩ := h
    exact .refl db
  · rw [bind_eq_ok] at h
    obtain ⟨db₁, hre, hins⟩ := h
    refine SameSchedule.trans ?_ (insertAdjustment_controls hins).toSameSchedule
    split at hre
    · exact reconcileInTx_schedule hre
    · cases hre
      exact .refl db

theorem applyBatch_schedule {actor : String} (edits : List Adjustment)
    {scopes : List Scope} (h : db.applyBatch actor staleBeforeMs scopes edits = .ok db') :
    SameSchedule db db' := by
  induction edits generalizing db scopes with
  | nil =>
    cases h
    exact .refl _
  | cons a edits ih =>
    simp only [applyBatch, bind_eq_ok] at h
    obtain ⟨key, -, -, -, db₁, ha, h⟩ := h
    exact (applyAdjustment_schedule ha).trans (ih h)

theorem ackInTx_schedule {scope : Scope} {w : Window} {usageWatermark ack : ℕ} {b : Bool}
    (h : db.ackInTx scope w usageWatermark ack = .ok (db', b)) : SameSchedule db db' := by
  unfold ackInTx at h
  split at h
  · rw [bind_eq_ok] at h
    obtain ⟨current, -, h⟩ := h
    split at h
    · cases h
      exact ⟨rfl, rfl⟩
    · cases h
      exact .refl db
  · simp only [bind_eq_ok, pure_eq_ok, Prod.mk.injEq] at h
    obtain ⟨-, -, rfl, -⟩ := h
    exact .refl db

end

/-! ## Scheduled tariffs are installed -/

/-- A scheduled revision is installed. -/
def Scheduled (db : Db) : Prop :=
  ∀ scope pending, db.readPending scope = some pending →
    ∃ snapshot, db.cachedSnapshot scope.routerUrl scope.installationId pending.revision = .ok snapshot

section
variable {db db' : Db}

theorem Scheduled.empty : Scheduled empty := by
  intro scope pending h
  cases h

variable (h : Scheduled db)
include h

theorem Scheduled.congr (hpending : db'.pendingTariffs = db.pendingTariffs)
    (hsnap : ∀ (scope : Scope) revision snapshot,
      db.cachedSnapshot scope.routerUrl scope.installationId revision = .ok snapshot →
      ∃ snapshot', db'.cachedSnapshot scope.routerUrl scope.installationId revision =
        .ok snapshot') : Scheduled db' := by
  intro scope pending hread
  rw [readPending, hpending] at hread
  obtain ⟨snapshot, hcached⟩ := h scope pending hread
  exact hsnap scope _ snapshot hcached

theorem Scheduled.activateDueInTx (scope : Scope) (now : ℤ) :
    ∃ db' active, db.activateDueInTx scope now = .ok (db', active) := by
  unfold Db.activateDueInTx
  split
  · exact ⟨_, _, rfl⟩
  · rename_i pending hdue
    obtain ⟨snapshot, hcached⟩ := h scope pending (Option.filter_eq_some_iff.mp hdue).1
    rw [hcached, ok_bind]
    exact ⟨_, _, rfl⟩

theorem Scheduled.activated {scope : Scope} {now : ℤ} {active : Option String}
    (hact : db.activateDueInTx scope now = .ok (db', active)) : Scheduled db' := by
  unfold Db.activateDueInTx at hact
  split at hact
  · cases hact
    exact h
  · simp only [bind_eq_ok, pure_eq_ok, Prod.mk.injEq] at hact
    obtain ⟨-, -, rfl, -⟩ := hact
    intro scope' pending' hread
    rw [readPending, Table.find?_erase] at hread
    split at hread
    · cases hread
    · exact h scope' pending' hread

end

end CcSwitchServer.ValueQuota
