import CcSwitchServer.ValueQuota.Controls
import CcSwitchServer.ValueQuota.Attempt

/-! # Replayed admissions (`admission_revision`, `admit_with_trial_in_tx`)

An attempt keeps the terms of its admission, whatever else the ledger does.
-/

namespace CcSwitchServer.ValueQuota
open Foundations ValuePricing Usage Db Table Option Sample

/-! ## The schedule over runs -/

section
variable {db db' : Db}

/-- Only `schedule` and an admission touch the tariffs. -/
theorem transact_schedule {hash : PricingSnapshot → String} {op : Op}
    (hschedule : ∀ scope revision from_ now, op ≠ .schedule scope revision from_ now)
    (hadmitted : op.admission? = none) (h : transact hash db op = .ok db') : SameSchedule db db' := by
  cases op with
  | install scope revision snapshot =>
    simp only [transact, installInTx, bind_eq_ok] at h
    obtain ⟨-, -, -, -, h⟩ := h
    split at h
    · simp only [bind_eq_ok, pure_eq_ok] at h
      obtain ⟨-, -, rfl⟩ := h
      exact .refl db
    · cases h
      exact ⟨rfl, rfl⟩
  | beginCoverage scope now =>
    simp only [transact, beginCoverage, bind_eq_ok] at h
    obtain ⟨-, -, key, -, h⟩ := h
    split at h
    · cases h
      exact .refl db
    · cases h
      exact ⟨rfl, rfl⟩
  | coverFrom scope fromMs =>
    simp only [transact, coverFrom, bind_eq_ok, pure_eq_ok] at h
    obtain ⟨-, -, key, -, rfl⟩ := h
    exact ⟨rfl, rfl⟩
  | schedule scope revision from_ now => exact absurd rfl (hschedule scope revision from_ now)
  | admission a trial => cases hadmitted
  | admitMarket a trial now => cases hadmitted
  | settle o =>
    simp only [transact, bind_eq_ok, pure_eq_ok] at h
    obtain ⟨⟨db₁, b⟩, hsettle, rfl⟩ := h
    exact (settleInTx_controls hsettle).toSameSchedule
  | usageLog log =>
    simp only [transact, bind_eq_ok, pure_eq_ok, upsertUsageRow] at h
    obtain ⟨db₁, ⟨-, -, -, -, hrow⟩, rfl⟩ := h
    have hrecord : SameSchedule db db₁ := by
      rw [← hrow]
      exact ⟨rfl, rfl⟩
    exact hrecord.trans (settleUsageLogIsolated_schedule db₁ log)
  | outcome requestId attemptId result onlyUnobserved =>
    simp only [transact, bind_eq_ok, pure_eq_ok] at h
    obtain ⟨⟨db₁, b⟩, hsettle, rfl⟩ := h
    exact (settleOutcomeInTx_controls hsettle).toSameSchedule
  | sweep candidates =>
    simp only [transact, pure_eq_ok] at h
    rw [← h]
    exact sweepBatchInTx_schedule db candidates _
  | compact cutoff now =>
    simp only [transact, bind_eq_ok, pure_eq_ok] at h
    obtain ⟨⟨db₁, n⟩, hcompact, rfl⟩ := h
    exact (compactInTx_controls hcompact).toSameSchedule
  | adjust edits actor staleBeforeMs =>
    simp only [transact, applyAdjustmentsInTx, bind_eq_ok] at h
    obtain ⟨-, -, h⟩ := h
    exact applyBatch_schedule edits h
  | ack scope window usageWatermark ack =>
    simp only [transact, bind_eq_ok, pure_eq_ok] at h
    obtain ⟨⟨db₁, b⟩, hack, rfl⟩ := h
    exact ackInTx_schedule hack

theorem transact_cachedSnapshot {hash : PricingSnapshot → String} {op : Op}
    (h : transact hash db op = .ok db') {routerUrl installationId revision : String} {snapshot : PricingSnapshot}
    (hsnap : db.cachedSnapshot routerUrl installationId revision = .ok snapshot) :
    db'.cachedSnapshot routerUrl installationId revision = .ok snapshot := by
  have hstep : ∀ s c t, s.cachedSnapshot routerUrl installationId revision = .ok snapshot →
      op.Allows s c → Change.Step c s t →
      t.cachedSnapshot routerUrl installationId revision = .ok snapshot :=
    fun s c t hs _ hc => Change.cachedSnapshot hc hs
  have hkeep := (transact_trace h).invariant hstep
  exact hkeep hsnap

variable {a : Admission}

theorem admitWithTrialInTx_snapshots {trial : Option MarketTrialBudget} {reserved : ℕ}
    (h : db.admitWithTrialInTx a trial = .ok (db', reserved)) : db'.snapshots = db.snapshots := by
  rcases admitWithTrialInTx_cases h with ⟨rfl, -⟩ | ⟨model, -, hins⟩
  · rfl
  · exact (insertAttempt_spec hins).snapshots

theorem Scheduled.admits (h : Scheduled db) {trial : Option MarketTrialBudget}
    {reserved : ℕ} (hadmitted : db.admitWithTrialInTx a trial = .ok (db', reserved)) : Scheduled db' :=
  h.congr (admitWithTrialInTx_controls hadmitted).pendingTariffs fun scope revision snapshot hcached =>
    ⟨snapshot, by rw [cachedSnapshot, admitWithTrialInTx_snapshots hadmitted]; exact hcached⟩

theorem Scheduled.revision (h : Scheduled db) {now : ℤ} {revision : String}
    (hrev : db.admissionRevision a now = .ok (db', revision)) : Scheduled db' := by
  simp only [admissionRevision, bind_eq_ok, pure_eq_ok, Prod.mk.injEq] at hrev
  obtain ⟨⟨db₁, active⟩, hact, -, -, rfl, -⟩ := hrev
  exact h.activated hact

theorem Scheduled.step (h : Scheduled db) (hash : PricingSnapshot → String) (op : Op) :
    Scheduled (ValueQuota.step hash db op) := by
  rcases commit_cases (transact hash) db op with hok | ⟨-, heq⟩
  swap
  · rw [ValueQuota.step, heq]
    exact h
  change transact hash db op = .ok (ValueQuota.step hash db op) at hok
  generalize ValueQuota.step hash db op = db' at hok
  by_cases hplain : op.admission? = none ∧ ∀ scope revision from_ now, op ≠ .schedule scope revision from_ now
  · exact h.congr (transact_schedule hplain.2 hplain.1 hok).pendingTariffs
      fun scope revision snapshot hcached => ⟨snapshot, transact_cachedSnapshot hok hcached⟩
  · cases op with
    | schedule scope revision from_ now =>
      simp only [transact, scheduleTariff, bind_eq_ok, pure_eq_ok] at hok
      obtain ⟨⟨db₁, active⟩, ⟨snapshot, hcached, hact⟩, rfl⟩ := hok
      refine Scheduled.activated ?_ hact
      intro scope' pending hread
      rw [readPending, find?_upsert] at hread
      split at hread
      · rename_i hkey
        cases hread
        simp only [PendingTariff.key, Prod.mk.injEq] at hkey
        rw [← hkey.1, ← hkey.2]
        exact ⟨snapshot, hcached⟩
      · exact h scope' pending hread
    | admission a trial =>
      simp only [transact, bind_eq_ok, pure_eq_ok] at hok
      obtain ⟨⟨db₁, reserved⟩, hadmitted, rfl⟩ := hok
      exact h.admits hadmitted
    | admitMarket a trial now =>
      simp only [transact, admitWithMarketTrial, bind_eq_ok, pure_eq_ok] at hok
      obtain ⟨⟨db₁, reserved⟩, ⟨⟨db₂, revision⟩, hrev, hadmitted⟩, rfl⟩ := hok
      exact (h.revision hrev).admits hadmitted
    | _ => exact absurd ⟨rfl, by simp⟩ hplain

theorem Scheduled.run (h : Scheduled db) (hash : PricingSnapshot → String) (ops : List Op) :
    Scheduled (Foundations.run (ValueQuota.step hash) db ops) :=
  run_invariant (P := fun _ _ => True) (fun _ op hdb _ => hdb.step hash op) h
    (EachStep.of_forall (fun _ _ => trivial) db ops)

end

/-! ## The terms of an attempt -/

/-- A window is compared by its id: its bounds may have moved since. -/
def Admission.terms (a : Admission) : Scope × String × String × String × ℤ :=
  (a.scope, a.effectiveModel, a.effectiveTier, a.window.id, a.startedAtMs)

def AttemptRow.terms (r : AttemptRow) : Scope × String × String × String × ℤ :=
  (r.scope, r.effectiveModel, r.effectiveTier, r.windowId, r.startedAtMs)

/-- Everything a replay of the admission under this revision reads. -/
structure Frozen (a : Admission) (trial : Option MarketTrialBudget) (revision : String) (db : Db) :
    Prop where
  row : ∃ r, db.attempt? a.requestId a.attemptId = some r ∧ r.terms = a.terms ∧ r.pricingRevision = revision
  priced : ∃ snapshot model,
    db.cachedSnapshot a.scope.routerUrl a.scope.installationId revision = .ok snapshot ∧
      snapshot.model a.effectiveModel = .ok model ∧ model.supportsTier a.effectiveTier = true
  marked : ∀ t ∈ trial, (db.trialMarkers.find? (trialAttemptPrefix a.scope t, a.requestId, a.attemptId)).isSome

section
variable {db db' : Db} {a : Admission} {trial : Option MarketTrialBudget}

theorem replayAdmission_eq_ok {old : AttemptRow} {reserved : ℕ} :
    db.replayAdmission a trial old = .ok reserved ↔
      (old.terms = a.terms ∧ old.pricingRevision = a.pricingRevision) ∧
      (∀ t ∈ trial, (db.trialMarkers.find? (trialAttemptPrefix a.scope t, a.requestId, a.attemptId)).isSome) ∧
      reserved = db.reserved a.requestId a.attemptId := by
  simp only [replayAdmission, bind_eq_ok, ensure_eq_ok, pure_eq_ok, exists_const,
    AttemptRow.terms, Admission.terms, Prod.mk.injEq, all_eq_true]
  constructor
  · rintro ⟨⟨hscope, hrev, hmodel, htier, hwindow, hstart⟩, hmarker, hres⟩
    exact ⟨⟨⟨hscope, hmodel, htier, hwindow, hstart⟩, hrev⟩, hmarker, hres.symm⟩
  · rintro ⟨⟨⟨hscope, hmodel, htier, hwindow, hstart⟩, hrev⟩, hmarker, hres⟩
    exact ⟨⟨hscope, hrev, hmodel, htier, hwindow, hstart⟩, hmarker, hres.symm⟩

/-- The checks of an admission that do not read the ledger. -/
def Admission.WellFormed (a : Admission) (trial : Option MarketTrialBudget) : Prop :=
  a.window.validate = .ok () ∧ (a.policyEpoch ≠ "" ∧ a.requestId ≠ "" ∧ a.attemptId ≠ "") ∧
    a.window.Meters a.startedAtMs ∧ (∃ key, a.scope.key = .ok key) ∧
    ∀ t ∈ trial, a.enforce = true ∧ t.scopeId ≠ "" ∧ a.scope.entitlementId = some t.entitlementId

theorem admissionModel_eq_ok {model : ExecutionModelPrice} :
    db.admissionModel a trial = .ok model ↔ a.WellFormed trial ∧
      ∃ snapshot, db.cachedSnapshot a.scope.routerUrl a.scope.installationId a.pricingRevision =
        .ok snapshot ∧ snapshot.model a.effectiveModel = .ok model ∧ model.supportsTier a.effectiveTier = true := by
  simp only [admissionModel, Admission.WellFormed, bind_eq_ok, ensure_eq_ok, exists_const,
    all_eq_true, decide_eq_true_eq]
  constructor
  · rintro ⟨_, hwindow, hids, hmeters, key, hkey, htrial, snapshot, hcached, h⟩
    split at h
    · cases h
    · rename_i found hfound
      simp only [bind_eq_ok, ensure_eq_ok, pure_eq_ok, exists_const] at h
      obtain ⟨htier, rfl⟩ := h
      exact ⟨⟨hwindow, hids, hmeters, ⟨key, hkey⟩, htrial⟩, snapshot, hcached, hfound, htier⟩
  · rintro ⟨⟨hwindow, hids, hmeters, ⟨key, hkey⟩, htrial⟩, snapshot, hcached, hfound, htier⟩
    refine ⟨(), hwindow, hids, hmeters, key, hkey, htrial, snapshot, hcached, ?_⟩
    rw [hfound]
    simp only [bind_eq_ok, ensure_eq_ok, pure_eq_ok, exists_const]
    exact ⟨htier, trivial⟩

theorem Change.trialMarker {c : Change} (h : c.Step db db') {k : TrialPrefix × String × String}
    (hmarker : (db.trialMarkers.find? k).isSome) : (db'.trialMarkers.find? k).isSome := by
  have hmodify : ∀ (k' : TrialPrefix × String × String) (amount : ℕ),
      ((db.trialMarkers.modify k' (fun m => m.raiseFloor amount)
        (fun m => m.raiseFloor_key amount)).find? k).isSome := by
    intro k' amount
    obtain ⟨m, hm⟩ := isSome_iff_exists.mp hmarker
    by_cases hk : k = k'
    · subst hk
      rw [find?_modify_self hm, isSome_some]
    · rw [find?_modify_of_ne hk]
      exact hmarker
  have hsettled : ∀ {old : AttemptRow} {s : Settlement}, SettledBy db old s db' →
      (db'.trialMarkers.find? k).isSome := by
    intro old s hs
    rcases hs.trialMarkers with ⟨hsame, -⟩ | ⟨-, index, marker, -, -, -, heq⟩
    · rw [hsame]
      exact hmarker
    · rw [heq]
      exact hmodify marker.key s.amount
  cases c with
  | admission a trial =>
    obtain ⟨model, reserved, -, hins⟩ := h
    rcases (insertAttempt_spec hins).trialTables with ⟨-, hsame, -⟩ | ⟨t, -, ⟨hfresh, heq⟩, -⟩
    · rw [hsame]
      exact hmarker
    · rw [heq, find?_insert]
      split
      · rfl
      · exact hmarker
  | observe o =>
    obtain ⟨old, s, -, hw⟩ := h
    exact hsettled (writeSettlement_spec hw)
  | outcome requestId attemptId result onlyUnobserved =>
    obtain ⟨old, -, -, -, hw⟩ := h
    exact hsettled (writeSettlement_spec hw)
  | _ =>
    rw [((Change.frame h).trials (fun _ _ h => by cases h) (fun _ h => by cases h) (fun _ _ _ _ h => by cases h)).1]
    exact hmarker

variable {revision : String}

section
variable (h : Frozen a trial revision db)
include h

theorem Frozen.change {c : Change}
    (hc : c.Step db db') : Frozen a trial revision db' where
  row := by
    obtain ⟨r, hfind, hterms, hrev⟩ := h.row
    have hstep := Change.rowStep hc (a.requestId, a.attemptId)
    rw [show db.attempts.find? (a.requestId, a.attemptId) = some r from hfind] at hstep
    unfold attempt?
    generalize db'.attempts.find? (a.requestId, a.attemptId) = after at hstep
    cases hstep with
    | same => exact ⟨r, rfl, hterms, hrev⟩
    | observed o old s => exact ⟨_, rfl, hterms, hrev⟩
    | resolved old result onlyUnobserved => exact ⟨_, rfl, hterms, hrev⟩
    | compacted r now => exact ⟨_, rfl, hterms, hrev⟩
  priced := by
    obtain ⟨snapshot, model, hcached, hmodel, htier⟩ := h.priced
    exact ⟨snapshot, model, Change.cachedSnapshot hc hcached, hmodel, htier⟩
  marked t ht := Change.trialMarker hc (h.marked t ht)

theorem Frozen.run
    (hash : PricingSnapshot → String) (ops : List Op) :
    Frozen a trial revision (Foundations.run (step hash) db ops) := by
  have hstep : ∀ db op, Frozen a trial revision db → True → Frozen a trial revision (step hash db op) :=
    fun db op hdb _ => step_invariant hash (fun _ _ _ hdb _ hc => hdb.change hc) hdb
  exact run_invariant hstep h (EachStep.of_forall (fun _ _ => trivial) db ops)

theorem Frozen.sameBalance
    (hsame : SameBalance db db') : Frozen a trial revision db' :=
  h.change (show Change.Step .aux db db' from hsame)

end

/-- An admission leaves behind what its replay checks. -/
theorem Frozen.admits {reserved : ℕ} (h : db.admitWithTrialInTx a trial = .ok (db', reserved)) :
    Frozen a trial a.pricingRevision db' := by
  simp only [admitWithTrialInTx, bind_eq_ok] at h
  obtain ⟨model, hmodel, h⟩ := h
  obtain ⟨-, snapshot, hpriced⟩ := admissionModel_eq_ok.mp hmodel
  split at h
  · rename_i old hold
    simp only [bind_eq_ok, pure_eq_ok, Prod.mk.injEq] at h
    obtain ⟨r, hreplay, rfl, -⟩ := h
    obtain ⟨hrow, hmarked, -⟩ := replayAdmission_eq_ok.mp hreplay
    exact ⟨⟨old, hold, hrow⟩, ⟨snapshot, model, hpriced⟩, hmarked⟩
  · simp only [bind_eq_ok, pure_eq_ok, Prod.mk.injEq] at h
    obtain ⟨r, -, db₁, hins, rfl, -⟩ := h
    have hspec := insertAttempt_spec hins
    obtain ⟨hfresh, hattempts⟩ := hspec.attempts
    refine ⟨⟨a.row model r (db.watermark + 1), ?_, rfl, rfl⟩, ⟨snapshot, model, ?_, hpriced.2⟩, ?_⟩
    · rw [attempt?, hattempts]
      exact find?_insert_self _ _ hfresh
    · rw [cachedSnapshot, hspec.snapshots]
      exact hpriced.1
    · intro t ht
      rcases hspec.trialTables with ⟨hnone, -⟩ | ⟨t', ht', ⟨hnew, hmarkers⟩, -⟩
      · rw [hnone] at ht
        cases ht
      · rw [ht', mem_some_iff] at ht
        subst ht
        rw [hmarkers]
        exact isSome_iff_exists.mpr ⟨_, find?_insert_self _ _ hnew⟩

end

/-! ## The second admission -/

/-- The same request again. The policy epoch, the limits and the estimate may have changed, and so may
the bounds of the window as long as it still meters the start. -/
structure Admission.Retries (a' a : Admission) : Prop where
  requestId : a'.requestId = a.requestId
  attemptId : a'.attemptId = a.attemptId
  terms : a'.terms = a.terms
  enforce : a'.enforce = a.enforce
  policyEpoch : a'.policyEpoch ≠ ""
  window : a'.window = a.window ∨ a'.window.validate = .ok () ∧ a'.window.Meters a'.startedAtMs

def RetriesTrial (trial' trial : Option MarketTrialBudget) : Prop :=
  ∀ t' ∈ trial', ∃ t ∈ trial, t'.scopeId = t.scopeId ∧ t'.entitlementId = t.entitlementId

section
variable {db db' : Db} {a a' : Admission} {trial trial' : Option MarketTrialBudget} {revision : String}

section
variable (h : a'.Retries a)
include h

theorem Admission.Retries.scope_eq : a'.scope = a.scope := congrArg Prod.fst h.terms

theorem Admission.Retries.model_eq : a'.effectiveModel = a.effectiveModel :=
  congrArg (fun terms => terms.2.1) h.terms

theorem Admission.Retries.tier_eq : a'.effectiveTier = a.effectiveTier :=
  congrArg (fun terms => terms.2.2.1) h.terms

theorem Admission.Retries.start_eq : a'.startedAtMs = a.startedAtMs :=
  congrArg (fun terms => terms.2.2.2.2) h.terms

end

theorem Admission.WellFormed.retries (h : a.WellFormed trial) (hretry : a'.Retries a)
    (htrial : RetriesTrial trial' trial) : a'.WellFormed trial' := by
  obtain ⟨hwindow, ⟨-, hrequest, hattempt⟩, hmeters, hkey, hbudget⟩ := h
  have hsame : a'.window.validate = .ok () ∧ a'.window.Meters a'.startedAtMs := by
    rcases hretry.window with heq | hnew
    · rw [heq, hretry.start_eq]
      exact ⟨hwindow, hmeters⟩
    · exact hnew
  refine ⟨hsame.1, ⟨hretry.policyEpoch, ?_, ?_⟩, hsame.2, ?_, ?_⟩
  · rw [hretry.requestId]
    exact hrequest
  · rw [hretry.attemptId]
    exact hattempt
  · rw [hretry.scope_eq]
    exact hkey
  · intro t' ht'
    obtain ⟨t, ht, hscopeId, hentitlement⟩ := htrial t' ht'
    rw [hretry.enforce, hretry.scope_eq, hscopeId, hentitlement]
    exact hbudget t ht

section
variable (h : Frozen a trial revision db)
include h

theorem Frozen.retries (hretry : a'.Retries a)
    (htrial : RetriesTrial trial' trial) : Frozen a' trial' revision db where
  row := by
    rw [hretry.requestId, hretry.attemptId, hretry.terms]
    exact h.row
  priced := by
    rw [hretry.scope_eq, hretry.model_eq, hretry.tier_eq]
    exact h.priced
  marked t' ht' := by
    obtain ⟨t, ht, hscopeId, -⟩ := htrial t' ht'
    have hmarkers : trialAttemptPrefix a'.scope t' = trialAttemptPrefix a.scope t := by
      rw [trialAttemptPrefix, trialAttemptPrefix, hretry.scope_eq, hscopeId]
    rw [hmarkers, hretry.requestId, hretry.attemptId]
    exact h.marked t ht

theorem Frozen.admissionRevision (hdue : Scheduled db) (now : ℤ) :
    ∃ db', db.admissionRevision a now = .ok (db', revision) ∧ SameBalance db db' := by
  obtain ⟨db', active, hact⟩ := hdue.activateDueInTx a.scope now
  have hsame := activateDueInTx_sameBalance hact
  obtain ⟨r, hfind, -, hrev⟩ := (h.sameBalance hsame).row
  refine ⟨db', ?_, hsame⟩
  simp only [Db.admissionRevision, hact, ok_bind, hfind, Option.map_some, Option.some_or, hrev]
  rfl

theorem Frozen.admitWithTrialInTx (hform : a.WellFormed trial) :
    db.admitWithTrialInTx { a with pricingRevision := revision } trial =
      .ok (db, db.reserved a.requestId a.attemptId) := by
  obtain ⟨r, hfind, hterms, hrev⟩ := h.row
  obtain ⟨snapshot, model, hpriced⟩ := h.priced
  have hmodel : db.admissionModel { a with pricingRevision := revision } trial = .ok model :=
    admissionModel_eq_ok.mpr ⟨hform, snapshot, hpriced⟩
  have hreplay : db.replayAdmission { a with pricingRevision := revision } trial r =
      .ok (db.reserved a.requestId a.attemptId) :=
    replayAdmission_eq_ok.mpr ⟨⟨hterms, hrev⟩, h.marked, rfl⟩
  simp only [Db.admitWithTrialInTx, hmodel, ok_bind, hfind, hreplay]
  rfl

end

theorem admitWithMarketTrial_conflict {r : AttemptRow} {now : ℤ}
    (hfind : db.attempt? a.requestId a.attemptId = some r) (hterms : r.terms ≠ a.terms) :
    ∃ e, db.admitWithMarketTrial a trial now = .error e := by
  cases h : db.admitWithMarketTrial a trial now with
  | error e => exact ⟨e, rfl⟩
  | ok result =>
    simp only [admitWithMarketTrial, admissionRevision, bind_eq_ok, pure_eq_ok] at h
    obtain ⟨⟨db₁, rev⟩, ⟨⟨db₂, active⟩, hact, rev', -, hpair⟩, hadmitted⟩ := h
    cases hpair
    have hfind₂ : db₂.attempt? a.requestId a.attemptId = some r := by
      rw [attempt?, (activateDueInTx_sameBalance hact).attempts]
      exact hfind
    simp only [admitWithTrialInTx, bind_eq_ok, hfind₂, pure_eq_ok] at hadmitted
    obtain ⟨model, -, reserved, hreplay, -⟩ := hadmitted
    exact absurd (replayAdmission_eq_ok.mp hreplay).1.1 hterms

end

/-- After a successful admission, in every later state: the same request passes again under the
frozen revision and changes no balance, and a request of that identity under another scope, model,
tier, window id or start fails. -/
theorem admission_replays (hash : PricingSnapshot → String) (before after : List Op) {a : Admission}
    {trial : Option MarketTrialBudget} {now₀ : ℤ} {db₀ db₁ : Db} {revision : String} {reserved : ℕ}
    (hrevision : (run (step hash) Db.empty before).admissionRevision a now₀ = .ok (db₀, revision))
    (hfirst : db₀.admitWithTrialInTx { a with pricingRevision := revision } trial = .ok (db₁, reserved)) :
    (∀ a' trial' now, a'.Retries a → RetriesTrial trial' trial →
      ∃ db', (run (step hash) db₁ after).admissionRevision a' now = .ok (db', revision) ∧
        db'.admitWithTrialInTx { a' with pricingRevision := revision } trial' =
          .ok (db', (run (step hash) db₁ after).reserved a.requestId a.attemptId) ∧
        SameBalance (run (step hash) db₁ after) db') ∧
    ∀ a' trial' now, a'.requestId = a.requestId → a'.attemptId = a.attemptId → a'.terms ≠ a.terms →
      (∃ e, (run (step hash) db₁ after).admitWithMarketTrial a' trial' now = .error e) ∧
        step hash (run (step hash) db₁ after) (.admitMarket a' trial' now) = run (step hash) db₁ after := by
  have hdue : Scheduled (run (step hash) db₁ after) :=
    (((Scheduled.empty.run hash before).revision hrevision).admits hfirst).run hash after
  have hform : a.WellFormed trial := by
    simp only [Db.admitWithTrialInTx, bind_eq_ok] at hfirst
    obtain ⟨model, hmodel, -⟩ := hfirst
    exact (admissionModel_eq_ok.mp hmodel).1
  have hfrozen : Frozen a trial revision (run (step hash) db₁ after) := by
    obtain ⟨hrow, hpriced, hmarked⟩ := Frozen.admits hfirst
    have hadmitted : Frozen a trial revision db₁ := ⟨hrow, hpriced, hmarked⟩
    exact hadmitted.run hash after
  generalize run (step hash) db₁ after = db at hdue hfrozen
  constructor
  · intro a' trial' now hretry htrial
    have hfrozen' := hfrozen.retries hretry htrial
    obtain ⟨db', hrev, hsame⟩ := hfrozen'.admissionRevision hdue now
    refine ⟨db', hrev, ?_, hsame⟩
    rw [(hfrozen'.sameBalance hsame).admitWithTrialInTx (hform.retries hretry htrial),
      hretry.requestId, hretry.attemptId, Db.reserved, hsame.attemptMeta, Db.reserved]
  · intro a' trial' now hrequest hattempt hterms
    obtain ⟨r, hfind, hrow, -⟩ := hfrozen.row
    rw [← hrequest, ← hattempt] at hfind
    have hfails : ∃ e, db.admitWithMarketTrial a' trial' now = .error e :=
      admitWithMarketTrial_conflict hfind fun heq => hterms (heq.symm.trans hrow)
    refine ⟨hfails, ?_⟩
    obtain ⟨e, herror⟩ := hfails
    refine commit_error (e := e) ?_
    rw [transact, herror]
    rfl

namespace Sample

def renewed : PricingSnapshot := { snapshot with exactAliases := snapshot.exactAliases.insert "alias" "model" }

def renewedHash : PricingSnapshot → String :=
  fun s => if s.exactAliases.isEmpty then "revision" else "renewed"

def scheduled : List Op := opening ++ [.schedule scope "revision" 0 0]

def renewal : List Op := [.install scope "renewed" renewed, .schedule scope "renewed" 20 20,
  .settle (observation "a" 1 .final (some 1000000))]

def laterPolicy : Admission := { admission "a" 5 100 with policyEpoch := "later" }

def closedWindow : Admission := { admission "a" 5 100 with window := { window with endsAtMs := some 100 } }

end Sample

theorem admission_replays_renewal : ∃ db₁ reserved db',
    (run (step renewedHash) empty scheduled).admitWithMarketTrial (admission "a" 5 100) none 10 = .ok (db₁, reserved) ∧
    (run (step renewedHash) db₁ renewal).admissionRevision laterPolicy 30 = .ok (db', "revision") ∧
    SameBalance (run (step renewedHash) db₁ renewal) db' := by
  have hactive : ((run (step renewedHash) empty scheduled).admissionRevision
      (admission "a" 5 100) 10).map Prod.snd = .ok "revision" := by
    decide
  have hok : ((run (step renewedHash) empty scheduled).admitWithMarketTrial
      (admission "a" 5 100) none 10).toBool = true := by
    decide
  obtain ⟨⟨db₁, reserved⟩, hadmitted⟩ := exists_of_toBool hok
  have hparts := hadmitted
  simp only [admitWithMarketTrial, bind_eq_ok] at hparts
  obtain ⟨⟨db₀, revision⟩, hrevision, hfirst⟩ := hparts
  rw [hrevision] at hactive
  cases hactive
  obtain ⟨hreplays, -⟩ := admission_replays renewedHash scheduled renewal hrevision hfirst
  obtain ⟨db', hrev, -, hsame⟩ := hreplays laterPolicy none 30
    ⟨rfl, rfl, rfl, rfl, by decide, .inl rfl⟩ (fun _ h => by cases h)
  exact ⟨db₁, reserved, db', hadmitted, hrev, hsame⟩

/-- The bounds of the window are not part of the identity. -/
theorem replay_under_closed_window :
    closedWindow.window ≠ (admission "a" 5 100).window ∧
    ((run (step renewedHash) empty (scheduled ++ [.admitMarket (admission "a" 5 100) none 10])).attempt? "a"
        "1").isSome ∧
    ((run (step renewedHash) empty (scheduled ++ [.admitMarket (admission "a" 5 100) none 10])).admitWithMarketTrial
        closedWindow none 30).toBool = true := by
  decide

end CcSwitchServer.ValueQuota
