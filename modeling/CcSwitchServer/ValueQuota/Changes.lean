import CcSwitchServer.ValueQuota.Ledger

/-! # What a transaction can change

A transaction is made of primitive changes; what each of them keeps is kept by every run.
-/

namespace CcSwitchServer.ValueQuota
open Foundations ValuePricing Usage Std Db AttemptRow List

/-- A step that a transaction takes; `aux` stands for tables that hold no balance. -/
inductive Change
  | admission (a : Admission) (trial : Option MarketTrialBudget)
  | observe (o : Observation)
  | outcome (requestId attemptId : String) (outcome : AttemptOutcome) (onlyUnobserved : Bool)
  | compact (r : AttemptRow) (now : ℤ)
  | rebuild (scope : Scope)
  | raise (floor : ℕ)
  | adjust (a : Adjustment) (actor : String)
  | record (log : UsageLog)
  | install (row : SnapshotRow)
  | aux

/-- Only blocks, coverage and the tariff schedule may differ. -/
structure SameBalance (db db' : Db) : Prop where
  watermark : db'.watermark = db.watermark
  attempts : db'.attempts = db.attempts
  revisions : db'.revisions = db.revisions
  gaps : db'.gaps = db.gaps
  checkpoints : db'.checkpoints = db.checkpoints
  adjustments : db'.adjustments = db.adjustments
  snapshots : db'.snapshots = db.snapshots
  attemptMeta : db'.attemptMeta = db.attemptMeta
  trialMarkers : db'.trialMarkers = db.trialMarkers
  trialIndex : db'.trialIndex = db.trialIndex
  usageRecords : db'.usageRecords = db.usageRecords

/-- The settlement that an outcome without a usage log writes. -/
def AttemptOutcome.settlement (outcome : AttemptOutcome) (reserved : ℕ) (old : AttemptRow) : Settlement where
  revision := old.usageRevision
  digest := ⟨true, .outcome old.requestId old.attemptId old.usageRevision outcome (outcome.value reserved old).1⟩
  amount := (outcome.value reserved old).1
  state := (outcome.value reserved old).2
  risk := 0

namespace Change

/-- The new attempt of an admission: all checks passed and the row did not exist. -/
def Admits (db : Db) (a : Admission) (trial : Option MarketTrialBudget)
    (model : ExecutionModelPrice) (reserved : ℕ) : Prop :=
  db.admissionModel a trial = .ok model ∧ db.attempt? a.requestId a.attemptId = none ∧
    db.reserve a trial model = .ok reserved

/-- The observation belongs to the row and replaces what it stores. -/
def Observes (db : Db) (o : Observation) (old : AttemptRow) (s : Settlement) : Prop :=
  db.attempt? o.requestId o.attemptId = some old ∧ old.scope = o.scope ∧
    old.effectiveModel = o.effectiveModel ∧ old.effectiveTier = o.effectiveTier ∧
    old.supersededBy o = true ∧ db.settlementOf old o = .ok s

def Step : Change → Db → Db → Prop
  | admission a trial, db, db' => ∃ model reserved, Admits db a trial model reserved ∧
      db.insertAttempt a trial model reserved = .ok db'
  | observe o, db, db' => ∃ old s, Observes db o old s ∧ db.writeSettlement old s = .ok db'
  | outcome requestId attemptId result onlyUnobserved, db, db' => ∃ old,
      db.attempt? requestId attemptId = some old ∧ ¬old.meteringStatus.Settled ∧
      (onlyUnobserved = true → old.usageRevision = 0 ∧ old.observation = none) ∧
      db.writeSettlement old (result.settlement (db.reserved requestId attemptId) old) = .ok db'
  | compact r now, db, db' => db.attempts.find? r.key = some r ∧ r.meteringStatus.Settled ∧
      r.compactedAtMs = none ∧ db.compactOne r now = .ok db'
  | rebuild scope, db, db' => ∃ n, db.rebuildCheckpointsInTx scope = .ok (db', n)
  | raise floor, db, db' => db.raiseWatermarkFloor floor = .ok db'
  | adjust a actor, db, db' => db.insertAdjustment a actor = .ok db'
  | record log, db, db' => db.upsertUsageRow log = .ok db'
  | install row, db, db' => db.snapshots.find? row.key = none ∧
      db' = { db with snapshots := db.snapshots.upsert row }
  | aux, db, db' => SameBalance db db'

end Change

/-! ## What an operation allows -/

/-- The observation that a usage log is for its attempt in this state. -/
def Db.LogObservation (db : Db) (log : UsageLog) (o : Observation) : Prop :=
  ∃ row, db.attempt? log.requestId (wantedAttempt log) = some row ∧
    o = observationOf log row (db.attemptMeta.find? (log.requestId, row.attemptId)) false (log.usageRevision + 1)

/-- The observation that the sweeper makes of a persisted usage log. -/
def Db.SweptObservation (db : Db) (requestId attemptId : String) (o : Observation) : Prop :=
  ∃ log row, (db.usageRecords.find? requestId).bind UsageRecordRow.payload = some log ∧
    wantedAttempt log = attemptId ∧ db.attempt? log.requestId attemptId = some row ∧
    o = observationOf log row (db.attemptMeta.find? (log.requestId, row.attemptId)) true
      (max (log.usageRevision + 1) row.usageRevision)

def Op.Allows (op : Op) (db : Db) (c : Change) : Prop :=
  match op with
  | .admission a trial => c = .admission a trial
  | .admitMarket a trial _ =>
    c = .aux ∨ ∃ revision, c = .admission { a with pricingRevision := revision } trial
  | .settle o => c = .observe o
  | .usageLog log => c = .record log ∨ c = .aux ∨ ∃ o, db.LogObservation log o ∧ c = .observe o
  | .outcome requestId attemptId result onlyUnobserved =>
    c = .outcome requestId attemptId result onlyUnobserved
  | .sweep candidates => c = .aux ∨ ∃ k ∈ candidates, c = .outcome k.1 k.2 .unknown false ∨
      ∃ o, db.SweptObservation k.1 k.2 o ∧ c = .observe o
  | .compact _ now => ∃ r, c = .compact r now
  | .adjust edits actor _ => c = .aux ∨ (∃ a ∈ edits, c = .rebuild a.scope ∨ c = .adjust a actor) ∨
      (∃ requestId attemptId, c = .outcome requestId attemptId .unknown false) ∨
      ∃ floor, c = .raise floor
  | .install .. => ∃ row, c = .install row
  | .beginCoverage .. | .coverFrom .. | .schedule .. | .ack .. => c = .aux

variable {op : Op}

theorem Op.allows_admission {db : Db} {a : Admission} {trial : Option MarketTrialBudget}
    (h : op.Allows db (.admission a trial)) : op = .admission a trial ∨ ∃ a' now revision,
      op = .admitMarket a' trial now ∧ a = { a' with pricingRevision := revision } := by
  cases op with
  | admission a' trial' =>
    cases h
    exact .inl rfl
  | admitMarket a' trial' now =>
    rcases h with h | ⟨revision, h⟩
    · cases h
    · cases h
      exact .inr ⟨a', now, revision, rfl, rfl⟩
  | _ => simp [Op.Allows] at h

/-! ## Inversion of the single writers -/

section
variable {db db' : Db}

theorem SameBalance.refl (db : Db) : SameBalance db db := ⟨rfl, rfl, rfl, rfl, rfl, rfl, rfl, rfl, rfl, rfl, rfl⟩

variable {o : Observation} {b : Bool}

theorem settleInTx_cases (h : db.settleInTx o = .ok (db', b)) :
    (b = false ∧ db' = db) ∨ b = true ∧ Change.Step (.observe o) db db' := by
  simp only [settleInTx, bind_eq_ok, context_eq_ok, ensure_eq_ok] at h
  obtain ⟨old, hold, key, hkey, -, ⟨hscope, hmodel, htier⟩, -, -, h⟩ := h
  split at h
  · rename_i hsup
    simp only [bind_eq_ok, pure_eq_ok, Prod.mk.injEq] at h
    obtain ⟨s, hs, db₁, hw, rfl, rfl⟩ := h
    exact .inr ⟨rfl, old, s, ⟨hold, hscope.trans (Scope.key_eq hkey), hmodel, htier, hsup, hs⟩, hw⟩
  · simp only [pure_eq_ok, Prod.mk.injEq] at h
    exact .inl ⟨h.2.symm, h.1.symm⟩

theorem settleInTx_false (h : db.settleInTx o = .ok (db', false)) :
    ∃ old, db.attempt? o.requestId o.attemptId = some old ∧ ¬old.supersededBy o = true := by
  simp only [settleInTx, bind_eq_ok, context_eq_ok] at h
  obtain ⟨old, hold, key, -, -, -, -, -, h⟩ := h
  split at h
  · simp only [bind_eq_ok, pure_eq_ok, Prod.mk.injEq] at h
    obtain ⟨s, -, db₁, -, -, hb⟩ := h
    cases hb
  · rename_i hsup
    exact ⟨old, hold, hsup⟩

theorem settleOutcomeInTx_cases {requestId attemptId : String} {outcome : AttemptOutcome} {onlyUnobserved : Bool}
    (h : db.settleOutcomeInTx requestId attemptId outcome onlyUnobserved = .ok (db', b)) :
    (b = false ∧ db' = db) ∨ b = true ∧ Change.Step (.outcome requestId attemptId outcome onlyUnobserved) db db' := by
  unfold settleOutcomeInTx at h
  split at h
  · simp only [pure_eq_ok, Prod.mk.injEq] at h
    exact .inl ⟨h.2.symm, h.1.symm⟩
  · rename_i old hold
    split at h
    · simp only [pure_eq_ok, Prod.mk.injEq] at h
      exact .inl ⟨h.2.symm, h.1.symm⟩
    · rename_i hguard
      simp only [bind_eq_ok, pure_eq_ok, Prod.mk.injEq] at h
      obtain ⟨db₁, hw, rfl, rfl⟩ := h
      have hkey := Table.find?_key hold
      simp only [key, Prod.mk.injEq] at hkey
      refine .inr ⟨rfl, old, hold, fun hs => hguard (.inl hs), fun hu => ?_, ?_⟩
      · constructor
        · by_contra hrev
          exact hguard (.inr ⟨hu, .inl hrev⟩)
        · cases hobs : old.observation with
          | none => rfl
          | some d => exact absurd (.inr ⟨hu, .inr (by simp [hobs])⟩) hguard
      · simpa only [AttemptOutcome.settlement, hkey.1, hkey.2] using hw

theorem admitWithTrialInTx_cases {a : Admission} {trial : Option MarketTrialBudget} {reserved : ℕ}
    (h : db.admitWithTrialInTx a trial = .ok (db', reserved)) :
    (db' = db ∧ ∃ old, db.attempt? a.requestId a.attemptId = some old) ∨
      ∃ model, Change.Admits db a trial model reserved ∧ db.insertAttempt a trial model reserved = .ok db' := by
  simp only [admitWithTrialInTx, bind_eq_ok] at h
  obtain ⟨model, hmodel, h⟩ := h
  split at h
  · rename_i old hold
    simp only [bind_eq_ok, pure_eq_ok, Prod.mk.injEq] at h
    obtain ⟨r, -, rfl, -⟩ := h
    exact .inl ⟨rfl, old, hold⟩
  · rename_i hnone
    simp only [bind_eq_ok, pure_eq_ok, Prod.mk.injEq] at h
    obtain ⟨r, hres, db₁, hins, rfl, rfl⟩ := h
    exact .inr ⟨model, ⟨hmodel, hnone, hres⟩, hins⟩

theorem activateDueInTx_sameBalance {scope : Scope} {now : ℤ} {active : Option String}
    (h : db.activateDueInTx scope now = .ok (db', active)) : SameBalance db db' := by
  unfold activateDueInTx at h
  split at h
  · simp only [pure_eq_ok, Prod.mk.injEq] at h
    rw [← h.1]
    exact SameBalance.refl db
  · simp only [bind_eq_ok, pure_eq_ok, Prod.mk.injEq] at h
    obtain ⟨-, -, rfl, -⟩ := h
    exact ⟨rfl, rfl, rfl, rfl, rfl, rfl, rfl, rfl, rfl, rfl, rfl⟩

theorem admitWithMarketTrial_cases {a : Admission} {trial : Option MarketTrialBudget} {now : ℤ}
    {reserved : ℕ} (h : db.admitWithMarketTrial a trial now = .ok (db', reserved)) :
    ∃ db₀ revision, SameBalance db db₀ ∧
      (db' = db₀ ∧ (∃ old, db₀.attempt? a.requestId a.attemptId = some old) ∨
        Change.Step (.admission { a with pricingRevision := revision } trial) db₀ db') := by
  simp only [admitWithMarketTrial, admissionRevision, bind_eq_ok, pure_eq_ok] at h
  obtain ⟨⟨db₂, revision⟩, ⟨⟨db₃, active⟩, hact, rev, -, hpair⟩, hadmit⟩ := h
  rw [Prod.mk.injEq] at hpair
  obtain ⟨rfl, rfl⟩ := hpair
  refine ⟨db₃, rev, activateDueInTx_sameBalance hact, ?_⟩
  rcases admitWithTrialInTx_cases hadmit with ⟨rfl, hold⟩ | ⟨model, hadm, hins⟩
  · exact .inl ⟨rfl, hold⟩
  · exact .inr ⟨model, reserved, hadm, hins⟩

theorem settleLogInTx_cases {log : UsageLog} {forceTerminal : Bool}
    (h : db.settleLogInTx log forceTerminal = .ok (db', b)) :
    db' = db ∨ ∃ row, db.attempt? log.requestId (wantedAttempt log) = some row ∧
      Change.Step (.observe (observationOf log row (db.attemptMeta.find? (log.requestId, row.attemptId)) forceTerminal
        (if forceTerminal then max (log.usageRevision + 1) row.usageRevision else log.usageRevision + 1))) db db' := by
  unfold settleLogInTx at h
  split at h
  · simp only [pure_eq_ok, Prod.mk.injEq] at h
    exact .inl h.1.symm
  · rename_i row hrow
    simp only [bind_eq_ok, context_eq_ok, checkedAddU64_eq_some] at h
    obtain ⟨-, -, revision, ⟨-, rfl⟩, h⟩ := h
    rcases settleInTx_cases h with ⟨-, rfl⟩ | ⟨-, hstep⟩
    · exact .inl rfl
    · exact .inr ⟨row, hrow, hstep⟩

theorem settleLogInTx_observation {log : UsageLog} {result : Db × Bool}
    (h : db.settleLogInTx log false = .ok result) (ho : db.LogObservation log o) :
    db.settleInTx o = .ok result := by
  obtain ⟨row, hrow, rfl⟩ := ho
  rw [settleLogInTx, hrow] at h
  simp only [bind_eq_ok, context_eq_ok, checkedAddU64_eq_some] at h
  obtain ⟨-, -, revision, ⟨-, rfl⟩, h⟩ := h
  exact h

theorem blockForReconcile_sameBalance (db : Db) (scope : Scope) (windowId : String) :
    SameBalance db (db.blockForReconcile scope windowId) := by
  unfold blockForReconcile
  split
  · exact SameBalance.refl db
  · exact ⟨rfl, rfl, rfl, rfl, rfl, rfl, rfl, rfl, rfl, rfl, rfl⟩

end

/-! ## Transactions as traces -/

section
variable {db db' : Db} {P : Db → Change → Prop}

theorem trace_aux (hP : ∀ db, P db .aux) (h : SameBalance db db') : Trace Change.Step P db db' := .single (hP db) h

theorem settleUsageLogIsolated_trace (log : UsageLog) (haux : ∀ db, P db .aux)
    (hobs : ∀ db o, db.LogObservation log o → P db (.observe o)) :
    Trace Change.Step P db (db.settleUsageLogIsolated log) := by
  unfold settleUsageLogIsolated
  split
  · rename_i b hsettle
    rcases settleLogInTx_cases hsettle with rfl | ⟨row, hrow, hstep⟩
    · exact .nil _
    · exact .single (hobs _ _ ⟨row, hrow, rfl⟩) hstep
  · exact Trace.foldl _ fun db r _ => trace_aux haux (blockForReconcile_sameBalance db r.scope r.windowId)

theorem sweepLog_trace (db : Db) (requestId attemptId : String)
    (hobs : ∀ db o, db.SweptObservation requestId attemptId o → P db (.observe o)) :
    Trace Change.Step P db (db.sweepLog requestId attemptId) := by
  unfold sweepLog
  split
  · exact .nil _
  · rename_i log hlog
    obtain ⟨hpayload, hwanted⟩ := Option.filter_eq_some_iff.mp hlog
    have hwanted : wantedAttempt log = attemptId := by simpa using hwanted
    split
    · rename_i b hsettle
      rcases settleLogInTx_cases hsettle with rfl | ⟨row, hrow, hstep⟩
      · exact .nil _
      · exact .single (hobs _ _ ⟨log, row, hpayload, hwanted, hwanted ▸ hrow, rfl⟩) hstep
    · exact .nil _

theorem settleOutcomeInTx_trace {requestId attemptId : String} {outcome : AttemptOutcome}
    {onlyUnobserved b : Bool} (hP : ∀ db, P db (.outcome requestId attemptId outcome onlyUnobserved))
    (h : db.settleOutcomeInTx requestId attemptId outcome onlyUnobserved = .ok (db', b)) :
    Trace Change.Step P db db' := by
  rcases settleOutcomeInTx_cases h with ⟨-, rfl⟩ | ⟨-, hstep⟩
  · exact .nil _
  · exact .single (hP db) hstep

theorem sweepStep_trace (db : Db) (report : SweepReport) (k : String × String) (haux : ∀ db, P db .aux)
    (hout : ∀ db, P db (.outcome k.1 k.2 .unknown false))
    (hobs : ∀ db o, db.SweptObservation k.1 k.2 o → P db (.observe o)) :
    Trace Change.Step P db (sweepStep (db, report) k).1 := by
  unfold sweepStep
  split
  · rename_i s hs
    simp only [sweepOneInTx] at hs
    split at hs
    · have hlog := sweepLog_trace db k.1 k.2 hobs
      split at hs
      · simp only [bind_eq_ok, pure_eq_ok] at hs
        obtain ⟨⟨db₁, settled⟩, hsettle, rfl⟩ := hs
        exact hlog.append (settleOutcomeInTx_trace hout hsettle)
      · cases hs
        exact hlog
    · cases hs
      exact .nil _
  · cases hrow : db.attempt? k.1 k.2 with
    | none =>
      simp only [Option.elim_none]
      exact .nil _
    | some r =>
      simp only [Option.elim_some]
      exact trace_aux haux (blockForReconcile_sameBalance db r.scope r.windowId)

theorem sweepBatchInTx_trace (candidates : List (String × String)) (report : SweepReport)
    (haux : ∀ db, P db .aux) (hout : ∀ db, ∀ k ∈ candidates, P db (.outcome k.1 k.2 .unknown false))
    (hobs : ∀ db o, ∀ k ∈ candidates, db.SweptObservation k.1 k.2 o → P db (.observe o)) :
    Trace Change.Step P db (db.sweepBatchInTx candidates report).1 := by
  unfold sweepBatchInTx
  induction candidates generalizing db report with
  | nil => exact .nil _
  | cons k candidates ih =>
    have hk := sweepStep_trace db report k haux (fun db => hout db k (by simp)) (fun db o => hobs db o k (by simp))
    refine hk.append (ih _ (fun db k hk => hout db k (by simp [hk])) (fun db o k hk => hobs db o k (by simp [hk])))

theorem compactOne_attempts {r : AttemptRow} {now : ℤ} (h : db.compactOne r now = .ok db') :
    db'.attempts = db.attempts.modify r.key (fun r => r.compact now) (fun r => r.compact_key now) := by
  simp only [compactOne, bind_eq_ok, pure_eq_ok] at h
  obtain ⟨cp, -, n, -, -, -, rfl⟩ := h
  rfl

theorem compactInTx_trace {cutoff now : ℤ} {n : ℕ} (hP : ∀ db r, P db (.compact r now))
    (h : db.compactInTx cutoff now = .ok (db', n)) : Trace Change.Step P db db' := by
  simp only [compactInTx, bind_eq_ok, pure_eq_ok, Prod.mk.injEq] at h
  obtain ⟨db₁, hfold, rfl, -⟩ := h
  have hmem : ∀ r ∈ db.compactable cutoff, db.attempts.find? r.key = some r ∧
      r.meteringStatus.Settled ∧ r.compactedAtMs = none := by
    intro r hr
    have hr := mem_of_mem_take hr
    rw [mem_insertionSort, mem_filter] at hr
    have hsel := hr.2
    simp only [decide_eq_true_eq] at hsel
    exact ⟨Table.find?_of_mem hr.1, hsel.2⟩
  have hnodup : ((db.compactable cutoff).map key).Nodup := by
    have hfilter := (List.Sublist.map key
      (filter_sublist (l := db.attempts.rows) (p := fun r =>
        r.startedAtMs < cutoff ∧ r.meteringStatus.Settled ∧ r.compactedAtMs = none))).nodup
      db.attempts.nodup
    have hsort := ((perm_insertionSort compactOrder _).map key).nodup_iff.mpr hfilter
    exact (List.Sublist.map key (take_sublist 100 _)).nodup hsort
  generalize db.compactable cutoff = rows at hfold hmem hnodup
  -- a row is still as it was selected when its turn comes: the rows before it have other keys
  induction rows generalizing db with
  | nil =>
    cases hfold
    exact .nil _
  | cons r rows ih =>
    rw [foldlM_cons, bind_eq_ok] at hfold
    obtain ⟨db₂, hone, hfold⟩ := hfold
    rw [map_cons, nodup_cons] at hnodup
    obtain ⟨hfind, hsettled, hnew⟩ := hmem r (by simp)
    refine .cons (.compact r now) (hP db r) ⟨hfind, hsettled, hnew, hone⟩ (ih hfold ?_ hnodup.2)
    intro r' hr'
    have hne : r'.key ≠ r.key := fun heq => hnodup.1 (heq ▸ mem_map_of_mem hr')
    rw [compactOne_attempts hone, Table.find?_modify_of_ne hne]
    exact hmem r' (by simp [hr'])

variable {staleBeforeMs : ℤ}

theorem reconcileInTx_trace {scope : Scope} {w : Window} (haux : ∀ db, P db .aux)
    (hrebuild : ∀ db, P db (.rebuild scope)) (hraise : ∀ db floor, P db (.raise floor))
    (hout : ∀ db r a, P db (.outcome r a .unknown false)) (h : db.reconcileInTx scope w staleBeforeMs = .ok db') :
    Trace Change.Step P db db' := by
  simp only [reconcileInTx, bind_eq_ok, pure_eq_ok] at h
  obtain ⟨⟨db₁, n⟩, hre, db₂, hres, db₃, hfloor, rfl⟩ := h
  have hre : Trace Change.Step P db db₁ := .single (hrebuild db) ⟨n, hre⟩
  have hres : Trace Change.Step P db₁ db₂ := by
    refine Trace.foldlM _ ?_ hres
    intro s t k _ hk
    simp only [bind_eq_ok, pure_eq_ok] at hk
    obtain ⟨⟨t', b⟩, hk, rfl⟩ := hk
    exact settleOutcomeInTx_trace (fun db => hout db k.1 k.2) hk
  have hfloor : Trace Change.Step P db₂ db₃ := by
    cases hmark : db₂.routerWatermark scope w.id with
    | none =>
      rw [hmark, Option.elim_none, pure_eq_ok] at hfloor
      rw [← hfloor]
      exact .nil _
    | some mark =>
      rw [hmark, Option.elim_some] at hfloor
      exact .single (hraise db₂ mark) hfloor
  have hclear : SameBalance db₃ (db₃.clearBlocks scope w.id) := ⟨rfl, rfl, rfl, rfl, rfl, rfl, rfl, rfl, rfl, rfl, rfl⟩
  exact ((hre.append hres).append hfloor).append (trace_aux haux hclear)

theorem applyAdjustment_trace {a : Adjustment} {actor : String} (haux : ∀ db, P db .aux)
    (hrebuild : ∀ db, P db (.rebuild a.scope)) (hraise : ∀ db floor, P db (.raise floor))
    (hout : ∀ db r a, P db (.outcome r a .unknown false)) (hadjust : ∀ db, P db (.adjust a actor))
    (h : db.applyAdjustment a actor staleBeforeMs = .ok db') : Trace Change.Step P db db' := by
  simp only [applyAdjustment, bind_eq_ok] at h
  obtain ⟨-, -, h⟩ := h
  split at h
  · simp only [bind_eq_ok, pure_eq_ok] at h
    obtain ⟨-, -, rfl⟩ := h
    exact .nil _
  · simp only [bind_eq_ok] at h
    obtain ⟨db₁, hre, hins⟩ := h
    have hre : Trace Change.Step P db db₁ := by
      split at hre
      · exact reconcileInTx_trace haux hrebuild hraise hout hre
      · cases hre
        exact .nil _
    exact hre.append (.single (hadjust db₁) hins)

theorem applyBatch_trace {actor : String} {scopes : List Scope} (edits : List Adjustment) (haux : ∀ db, P db .aux)
    (hrebuild : ∀ db, ∀ a ∈ edits, P db (.rebuild a.scope)) (hraise : ∀ db floor, P db (.raise floor))
    (hout : ∀ db r a, P db (.outcome r a .unknown false)) (hadjust : ∀ db, ∀ a ∈ edits, P db (.adjust a actor))
    (h : db.applyBatch actor staleBeforeMs scopes edits = .ok db') : Trace Change.Step P db db' := by
  induction edits generalizing db scopes with
  | nil =>
    simp only [applyBatch, pure_eq_ok] at h
    rw [← h]
    exact .nil _
  | cons a edits ih =>
    simp only [applyBatch, bind_eq_ok] at h
    obtain ⟨key, -, -, -, db₁, ha, h⟩ := h
    have ha := applyAdjustment_trace haux (fun db => hrebuild db a (by simp)) hraise hout
      (fun db => hadjust db a (by simp)) ha
    exact ha.append (ih (fun db b hb => hrebuild db b (by simp [hb])) (fun db b hb => hadjust db b (by simp [hb])) h)

end

/-- Every committed transaction is a chain of changes that its operation allows. -/
theorem transact_trace {hash : PricingSnapshot → String} {db db' : Db}
    (h : transact hash db op = .ok db') : Trace Change.Step op.Allows db db' := by
  cases op with
  | install scope revision snapshot =>
    simp only [transact, installInTx, bind_eq_ok] at h
    obtain ⟨-, -, -, -, h⟩ := h
    split at h
    · simp only [bind_eq_ok, pure_eq_ok] at h
      obtain ⟨-, -, rfl⟩ := h
      exact .nil _
    · rename_i hnone
      rw [pure_eq_ok] at h
      exact .single (l := .install ⟨scope.routerUrl, scope.installationId, revision, snapshot⟩)
        ⟨_, rfl⟩ ⟨hnone, h.symm⟩
  | beginCoverage scope now =>
    simp only [transact, beginCoverage, bind_eq_ok] at h
    obtain ⟨-, -, key, -, h⟩ := h
    refine trace_aux (fun db => rfl) ?_
    split at h
    · rw [pure_eq_ok] at h
      rw [← h]
      exact SameBalance.refl db
    · rw [pure_eq_ok] at h
      rw [← h]
      exact ⟨rfl, rfl, rfl, rfl, rfl, rfl, rfl, rfl, rfl, rfl, rfl⟩
  | coverFrom scope fromMs =>
    simp only [transact, coverFrom, bind_eq_ok, pure_eq_ok] at h
    obtain ⟨-, -, key, -, rfl⟩ := h
    exact trace_aux (fun db => rfl) ⟨rfl, rfl, rfl, rfl, rfl, rfl, rfl, rfl, rfl, rfl, rfl⟩
  | schedule scope revision effectiveFromMs now =>
    simp only [transact, scheduleTariff, bind_eq_ok, pure_eq_ok] at h
    obtain ⟨⟨db₁, active⟩, ⟨-, -, hact⟩, rfl⟩ := h
    obtain ⟨h1, h2, h3, h4, h5, h6, h7, h8, h9, h10, h11⟩ := activateDueInTx_sameBalance hact
    exact trace_aux (fun db => rfl) ⟨h1, h2, h3, h4, h5, h6, h7, h8, h9, h10, h11⟩
  | admission a trial =>
    simp only [transact, bind_eq_ok, pure_eq_ok] at h
    obtain ⟨⟨db₁, reserved⟩, hadmit, rfl⟩ := h
    rcases admitWithTrialInTx_cases hadmit with ⟨rfl, -⟩ | ⟨model, hadm, hins⟩
    · exact .nil _
    · exact .single (l := .admission a trial) rfl ⟨model, reserved, hadm, hins⟩
  | admitMarket a trial now =>
    simp only [transact, bind_eq_ok, pure_eq_ok] at h
    obtain ⟨⟨db₁, reserved⟩, hadmit, rfl⟩ := h
    obtain ⟨db₀, revision, hsame, hnew⟩ := admitWithMarketTrial_cases hadmit
    have haux : Trace Change.Step (Op.Allows (.admitMarket a trial now)) db db₀ := trace_aux (fun db => .inl rfl) hsame
    rcases hnew with ⟨rfl, -⟩ | hstep
    · exact haux
    · exact haux.append (.single (.inr ⟨revision, rfl⟩) hstep)
  | settle o =>
    simp only [transact, bind_eq_ok, pure_eq_ok] at h
    obtain ⟨⟨db₁, b⟩, hsettle, rfl⟩ := h
    rcases settleInTx_cases hsettle with ⟨-, rfl⟩ | ⟨-, hstep⟩
    · exact .nil _
    · exact .single (l := .observe o) rfl hstep
  | usageLog log =>
    simp only [transact, bind_eq_ok, pure_eq_ok] at h
    obtain ⟨db₁, hrow, rfl⟩ := h
    refine .cons (.record log) (.inl rfl) hrow ?_
    exact settleUsageLogIsolated_trace log (fun db => .inr (.inl rfl)) (fun db o ho => .inr (.inr ⟨o, ho, rfl⟩))
  | outcome requestId attemptId result onlyUnobserved =>
    simp only [transact, bind_eq_ok, pure_eq_ok] at h
    obtain ⟨⟨db₁, b⟩, hsettle, rfl⟩ := h
    exact settleOutcomeInTx_trace (fun db => rfl) hsettle
  | sweep candidates =>
    simp only [transact, pure_eq_ok] at h
    rw [← h]
    exact sweepBatchInTx_trace candidates _ (fun db => .inl rfl)
      (fun db k hk => .inr ⟨k, hk, .inl rfl⟩) (fun db o k hk ho => .inr ⟨k, hk, .inr ⟨o, ho, rfl⟩⟩)
  | compact cutoff now =>
    simp only [transact, bind_eq_ok, pure_eq_ok] at h
    obtain ⟨⟨db₁, n⟩, hcompact, rfl⟩ := h
    exact compactInTx_trace (fun db r => ⟨r, rfl⟩) hcompact
  | adjust edits actor staleBeforeMs =>
    simp only [transact, applyAdjustmentsInTx, bind_eq_ok] at h
    obtain ⟨-, -, h⟩ := h
    exact applyBatch_trace edits (fun db => .inl rfl)
      (fun db a ha => .inr (.inl ⟨a, ha, .inl rfl⟩))
      (fun db floor => .inr (.inr (.inr ⟨floor, rfl⟩)))
      (fun db r a => .inr (.inr (.inl ⟨r, a, rfl⟩)))
      (fun db a ha => .inr (.inl ⟨a, ha, .inr rfl⟩)) h
  | ack scope window usageWatermark ack =>
    simp only [transact, bind_eq_ok, pure_eq_ok] at h
    obtain ⟨⟨db₁, b⟩, hack, rfl⟩ := h
    refine trace_aux (fun db => rfl) ?_
    unfold ackInTx at hack
    split at hack
    · simp only [bind_eq_ok] at hack
      obtain ⟨current, -, hack⟩ := hack
      split at hack
      · cases hack
        exact ⟨rfl, rfl, rfl, rfl, rfl, rfl, rfl, rfl, rfl, rfl, rfl⟩
      · cases hack
        exact SameBalance.refl db
    · simp only [bind_eq_ok, pure_eq_ok, Prod.mk.injEq] at hack
      obtain ⟨-, -, rfl, -⟩ := hack
      exact SameBalance.refl db

theorem step_invariant (hash : PricingSnapshot → String) {Inv : Db → Prop} {db : Db}
    (hchange : ∀ db c db', Inv db → op.Allows db c → c.Step db db' → Inv db') (hdb : Inv db) :
    Inv (step hash db op) := by
  rcases commit_cases (transact hash) db op with hok | ⟨-, heq⟩
  · exact (transact_trace hok).invariant hchange hdb
  · rw [step, heq]
    exact hdb

end CcSwitchServer.ValueQuota
