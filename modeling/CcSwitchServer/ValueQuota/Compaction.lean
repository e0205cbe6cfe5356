import CcSwitchServer.ValueQuota.Convergence
import CcSwitchServer.ValueQuota.Replay

/-! # Compaction (`compact_in_tx`)

Compaction takes from a settled attempt what is stored elsewhere, and its reservation.
-/

namespace CcSwitchServer.ValueQuota
open Foundations ValuePricing Usage Std AttemptRow List Db Table Change Sample

/-- What compaction leaves of a row; two ledgers that agree on it report the same status. -/
def AttemptRow.visible (r : AttemptRow) : AttemptRow := { r with frozenTariff := none, compactedAtMs := none }

theorem AttemptRow.visible_read {β : Type} {r r' : AttemptRow} (h : r'.visible = r.visible)
    (f : AttemptRow → β) (hf : ∀ r, f r.visible = f r) : f r' = f r := by
  rw [← hf r', h, hf]

/-- Only compaction, and what no status reads, tells the two ledgers apart. -/
structure SameUpToCompaction (db db' : Db) : Prop where
  watermark : db'.watermark = db.watermark
  gaps : db'.gaps = db.gaps
  checkpoints : db'.checkpoints = db.checkpoints
  adjustments : db'.adjustments = db.adjustments
  coverage : db'.coverage = db.coverage
  snapshots : db'.snapshots = db.snapshots
  trialMarkers : db'.trialMarkers = db.trialMarkers
  trialIndex : db'.trialIndex = db.trialIndex
  blocks : db'.blocks = db.blocks
  attempts : db'.attempts.rows.map visible = db.attempts.rows.map visible

namespace SameUpToCompaction
variable {db db' db'' : Db}

theorem refl (db : Db) : SameUpToCompaction db db := ⟨rfl, rfl, rfl, rfl, rfl, rfl, rfl, rfl, rfl, rfl⟩

theorem symm (h : SameUpToCompaction db db') : SameUpToCompaction db' db :=
  ⟨h.watermark.symm, h.gaps.symm, h.checkpoints.symm, h.adjustments.symm, h.coverage.symm,
    h.snapshots.symm, h.trialMarkers.symm, h.trialIndex.symm, h.blocks.symm, h.attempts.symm⟩

theorem trans (h : SameUpToCompaction db db') (h' : SameUpToCompaction db' db'') : SameUpToCompaction db db'' :=
  ⟨h'.watermark.trans h.watermark, h'.gaps.trans h.gaps, h'.checkpoints.trans h.checkpoints,
    h'.adjustments.trans h.adjustments, h'.coverage.trans h.coverage, h'.snapshots.trans h.snapshots,
    h'.trialMarkers.trans h.trialMarkers, h'.trialIndex.trans h.trialIndex,
    h'.blocks.trans h.blocks, h'.attempts.trans h.attempts⟩

/-! ## The status of a window -/

section
variable (h : SameUpToCompaction db db')
include h

theorem attemptsWhere (scope : Scope) (p : ℤ → Prop)
    [DecidablePred p] : (db'.attemptsWhere scope p).map visible = (db.attemptsWhere scope p).map visible := by
  have hfilter : ∀ rows : List AttemptRow,
      (rows.filter fun r => r.scope = scope ∧ p r.startedAtMs).map visible =
        (rows.map visible).filter fun r => r.scope = scope ∧ p r.startedAtMs := by
    intro rows
    rw [filter_map]
    rfl
  rw [Db.attemptsWhere, Db.attemptsWhere, hfilter, hfilter, h.attempts]

theorem contributions (scope : Scope) (p : ℤ → Prop)
    [DecidablePred p] : (db'.attemptsWhere scope p).map contribution =
      (db.attemptsWhere scope p).map contribution := by
  have hvisible : ∀ rows : List AttemptRow, rows.map contribution = (rows.map visible).map contribution := by
    intro rows
    rw [map_map]
    rfl
  rw [hvisible, h.attemptsWhere scope p, ← hvisible]

theorem length_attemptsWhere (scope : Scope) (p : ℤ → Prop)
    [DecidablePred p] : (db'.attemptsWhere scope p).length = (db.attemptsWhere scope p).length := by
  simpa only [length_map] using congrArg length (h.attemptsWhere scope p)

theorem gapsWhere (scope : Scope) (p : ℤ → Prop)
    [DecidablePred p] : db'.gapsWhere scope p = db.gapsWhere scope p := by
  rw [Db.gapsWhere, Db.gapsWhere, h.gaps]

theorem aggregate (scope : Scope) (w : Window) :
    db'.aggregate scope w = db.aggregate scope w := by
  have hfold : ∀ (rows : List AttemptRow) (cp : Checkpoint),
      rows.foldlM (fun cp r => cp.change r.contribution true) cp =
        (rows.map contribution).foldlM (fun cp c => cp.change c true) cp := by
    intro rows cp
    rw [foldlM_map]
  have hdays : db'.mergeFullDays scope w = db.mergeFullDays scope w := by
    simp only [mergeFullDays, fullDays, h.checkpoints, readCheckpoint_congr h.checkpoints]
  have hgaps : db'.addEdgeGaps scope w = db.addEdgeGaps scope w := by
    funext cp
    unfold addEdgeGaps
    rw [h.gapsWhere]
  unfold Db.aggregate
  rw [hdays, hgaps, h.length_attemptsWhere, h.gapsWhere]
  simp only [hfold, h.contributions]

theorem statusInTx (scope : Scope) (w : Window) :
    db'.statusInTx scope w = db.statusInTx scope w := by
  have hblocked : db'.windowBlocked = db.windowBlocked := by
    funext scope windowId
    rw [windowBlocked, windowBlocked, h.blocks]
  have hcovered : db'.collectedFromMs = db.collectedFromMs := by
    funext scope
    rw [collectedFromMs, collectedFromMs, h.coverage]
  have hlast : db'.lastAdjustment = db.lastAdjustment := by
    funext scope windowId
    rw [lastAdjustment, lastAdjustment, h.adjustments]
  unfold Db.statusInTx
  rw [hblocked, hcovered, hlast]
  simp only [h.aggregate]

end

end SameUpToCompaction

/-- The second ledger is the first one with some attempts compacted. -/
structure CompactedFrom (db db' : Db) : Prop extends SameUpToCompaction db db' where
  forgets : ∀ requestId attemptId, db'.reserved requestId attemptId = db.reserved requestId attemptId ∨
    db'.reserved requestId attemptId = 0

section
variable {db db' db'' : Db}

theorem CompactedFrom.refl (db : Db) : CompactedFrom db db := ⟨.refl db, fun _ _ => .inl rfl⟩

theorem CompactedFrom.trans (h : CompactedFrom db db') (h' : CompactedFrom db' db'') : CompactedFrom db db'' where
  toSameUpToCompaction := h.toSameUpToCompaction.trans h'.toSameUpToCompaction
  forgets requestId attemptId := by
    rcases h'.forgets requestId attemptId with hsame | hzero
    · rw [hsame]
      exact h.forgets requestId attemptId
    · exact .inr hzero

theorem compactOne_from {r : AttemptRow} {now : ℤ} (h : db.compactOne r now = .ok db') : CompactedFrom db db' := by
  simp only [compactOne, bind_eq_ok, pure_eq_ok] at h
  obtain ⟨cp, -, n, -, -, -, rfl⟩ := h
  refine ⟨⟨rfl, rfl, rfl, rfl, rfl, rfl, rfl, rfl, rfl,
    map_modify db.attempts r.key (fun r => r.compact_key now) fun r => rfl⟩, ?_⟩
  intro requestId attemptId
  unfold reserved
  rw [find?_erase]
  split
  · exact .inr rfl
  · exact .inl rfl

theorem compactInTx_from {cutoff now : ℤ} {n : ℕ} (h : db.compactInTx cutoff now = .ok (db', n)) :
    CompactedFrom db db' := by
  simp only [compactInTx, bind_eq_ok, pure_eq_ok, Prod.mk.injEq] at h
  obtain ⟨db₁, hfold, rfl, -⟩ := h
  exact foldlM_relates CompactedFrom.refl CompactedFrom.trans (fun s t r _ hone => compactOne_from hone) hfold

theorem compact_step (hash : PricingSnapshot → String) (db : Db) (cutoff now : ℤ) :
    CompactedFrom db (step hash db (.compact cutoff now)) := by
  rcases commit_cases (transact hash) db (.compact cutoff now) with hok | ⟨-, heq⟩
  · simp only [transact, bind_eq_ok, pure_eq_ok] at hok
    obtain ⟨⟨db₁, n⟩, hcompact, heq⟩ := hok
    rw [step, ← heq]
    exact compactInTx_from hcompact
  · rw [step, heq]
    exact .refl db

end

/-! ## Price rows of compacted attempts -/

/-- The snapshot has the price row that an attempt was admitted under. -/
def Tariffed (db : Db) : Prop :=
  ∀ k r, db.attempts.find? k = some r → ∃ snapshot tariff, Priced db r snapshot tariff ∧ KeepsTerms r tariff r

section
variable {db db' : Db}

theorem Tariffed.empty : Tariffed empty := by
  intro k r h
  cases h

theorem Tariffed.change {c : Change} (h : Tariffed db) (hc : c.Step db db') : Tariffed db' := by
  intro k r' hfind
  have hstep := rowStep hc k
  rw [hfind] at hstep
  generalize hbefore : db.attempts.find? k = before at hstep
  cases hstep with
  | same =>
    obtain ⟨snapshot, tariff, hpriced, hterms⟩ := h k r' hbefore
    exact ⟨snapshot, tariff, hpriced.change hc, hterms⟩
  | admitted a trial model reserved hc' hk hadmits =>
    obtain ⟨snapshot, hcached, hmodel⟩ := admissionModel_priced hadmits.1
    exact ⟨snapshot, model, ⟨cachedSnapshot hc hcached, hmodel⟩, rfl, rfl, rfl, rfl, rfl⟩
  | observed o old s =>
    obtain ⟨snapshot, tariff, hpriced, hterms⟩ := h k old hbefore
    exact ⟨snapshot, tariff, ⟨cachedSnapshot hc hpriced.cached, hpriced.model⟩,
      rfl, rfl, rfl, rfl, hterms.frozenTariff⟩
  | resolved old result onlyUnobserved =>
    obtain ⟨snapshot, tariff, hpriced, hterms⟩ := h k old hbefore
    exact ⟨snapshot, tariff, ⟨cachedSnapshot hc hpriced.cached, hpriced.model⟩,
      rfl, rfl, rfl, rfl, hterms.frozenTariff⟩
  | compacted r now =>
    obtain ⟨snapshot, tariff, hpriced, -⟩ := h k r hbefore
    exact ⟨snapshot, tariff, ⟨cachedSnapshot hc hpriced.cached, hpriced.model⟩, rfl, rfl, rfl, rfl, rfl⟩

theorem Tariffed.run (h : Tariffed db) (hash : PricingSnapshot → String) (ops : List Op) :
    Tariffed (Foundations.run (step hash) db ops) := by
  have hstep : ∀ db op, Tariffed db → True → Tariffed (step hash db op) :=
    fun db op hdb _ => step_invariant hash (fun _ _ _ hdb _ hc => hdb.change hc) hdb
  exact run_invariant hstep h (EachStep.of_forall (fun _ _ => trivial) db ops)

end

/-- The prices of every attempt and of every scheduled change stay installed. -/
theorem prices_stay_installed (hash : PricingSnapshot → String) (ops : List Op) :
    Tariffed (run (step hash) empty ops) ∧ Scheduled (run (step hash) empty ops) :=
  ⟨Tariffed.empty.run hash ops, Scheduled.empty.run hash ops⟩

/-! ## What the reservation decides -/

/-- The observation is charged no less without the reservation: it is not charged as unknown, or what
is priced and shown so far outweighs the reservation. -/
def Observation.Outweighs (o : Observation) (snapshot : PricingSnapshot)
    (tariff : ExecutionModelPrice) (reserved : ℕ) (old : AttemptRow) : Prop :=
  o.outcome = .inProgress ∨ o.outcome = .free ∨
    (o.outcome ≠ .unknown ∧ o.reportedMatches snapshot = true ∧ (o.price tariff o.effectiveTier).isSome) ∨
    reserved ≤ o.unknownAmount tariff 0 old

section
variable {o : Observation} {snapshot : PricingSnapshot} {tariff : ExecutionModelPrice}
  {reserved : ℕ} {old : AttemptRow}

theorem unknownAmount_eq (o : Observation) (tariff : ExecutionModelPrice) (reserved : ℕ) (old : AttemptRow) :
    o.unknownAmount tariff reserved old = max reserved (o.unknownAmount tariff 0 old) := by
  simp only [Observation.unknownAmount]
  omega

theorem settledValue_reserved_iff :
    o.settledValue snapshot tariff reserved old = o.settledValue snapshot tariff 0 old ↔
      o.Outweighs snapshot tariff reserved old := by
  have hunknown : (o.unknownAmount tariff reserved old, MeteringStatus.conservative) =
      (o.unknownAmount tariff 0 old, MeteringStatus.conservative) ↔ reserved ≤ o.unknownAmount tariff 0 old := by
    rw [Prod.mk.injEq, unknownAmount_eq o tariff reserved old]
    simp
  unfold Observation.settledValue Observation.Outweighs
  cases houtcome : o.outcome with
  | inProgress => simp
  | free => simp
  | unknown => simpa using hunknown
  | final | finalConservative | interrupted =>
    cases hmatch : o.reportedMatches snapshot with
    | false => simpa using hunknown
    | true =>
      cases hprice : o.price tariff o.effectiveTier with
      | none => simpa using hunknown
      | some priced => simp

end

/-! ## Settlements of two such ledgers -/

namespace SameUpToCompaction
variable {db db' d : Db} {r r' : AttemptRow} {s : Settlement}

section
variable (h : SameUpToCompaction db db')
include h

theorem find? {k : String × String} (hfind : db.attempts.find? k = some r) :
    ∃ r', db'.attempts.find? k = some r' ∧ r'.visible = r.visible := by
  have hmap : ∀ db : Db, (db.attempts.find? k).map visible =
      (db.attempts.rows.map visible).find? fun r => r.key = k := by
    intro db
    rw [find?_map]
    rfl
  have heq := hmap db'
  rw [h.attempts, ← hmap db, hfind, Option.map_some, Option.map_eq_some_iff] at heq
  exact heq

variable (hrow : r'.visible = r.visible)
include hrow

theorem floor
    (hf : (if s.state.Settled then db.raiseTrialFloor r s.amount else pure db) = .ok d) :
    ∃ markers, d = { db with trialMarkers := markers } ∧
      (if s.state.Settled then db'.raiseTrialFloor r' s.amount else pure db') =
        .ok { db' with trialMarkers := markers } := by
  have hread : db'.readTrialAttempt r'.requestId r'.attemptId = db.readTrialAttempt r.requestId r.attemptId := by
    have hrequest : r'.requestId = r.requestId := visible_read hrow requestId fun _ => rfl
    have hattempt : r'.attemptId = r.attemptId := visible_read hrow attemptId fun _ => rfl
    simp only [readTrialAttempt, h.trialIndex, h.trialMarkers, hrequest, hattempt]
  have hscope : r'.scope = r.scope := visible_read hrow scope fun _ => rfl
  split at hf
  · rename_i hsettled
    rw [if_pos hsettled]
    unfold raiseTrialFloor at hf ⊢
    rw [hread, hscope]
    cases hmarker : db.readTrialAttempt r.requestId r.attemptId with
    | error e =>
      rw [hmarker] at hf
      cases hf
    | ok found =>
      rw [hmarker, ok_bind] at hf
      rw [ok_bind]
      cases found with
      | none =>
        cases hf
        exact ⟨db.trialMarkers, rfl, by rw [← h.trialMarkers]; rfl⟩
      | some marker =>
        simp only [bind_eq_ok, ensure_eq_ok, pure_eq_ok] at hf ⊢
        obtain ⟨-, hent, rfl⟩ := hf
        exact ⟨_, rfl, (), hent, by rw [h.trialMarkers]⟩
  · rename_i hsettled
    cases hf
    exact ⟨db.trialMarkers, rfl, by rw [if_neg hsettled, ← h.trialMarkers]; rfl⟩

theorem settleRows (mark : ℕ) :
    (db'.attempts.modify r'.key (fun r => r.settle s mark) (fun r => r.settle_key s mark)).rows.map visible =
      (db.attempts.modify r.key (fun r => r.settle s mark) (fun r => r.settle_key s mark)).rows.map visible := by
  have hkey : r'.key = r.key := visible_read hrow key fun _ => rfl
  have hmodify : ∀ db : Db, (db.attempts.modify r.key (fun r => r.settle s mark)
      (fun r => r.settle_key s mark)).rows.map visible =
      (db.attempts.rows.map visible).map fun row => if row.key = r.key then row.settle s mark else row := by
    intro db
    simp only [Table.modify, List.map_map]
    apply List.map_congr_left
    intro row _
    simp only [Function.comp_apply, apply_ite visible]
    rfl
  rw [hkey, hmodify, hmodify, h.attempts]

theorem writeSettlement
    (hw : db.writeSettlement r s = .ok d) :
    ∃ d', db'.writeSettlement r' s = .ok d' ∧ SameUpToCompaction d d' := by
  simp only [Db.writeSettlement, bind_eq_ok, pure_eq_ok] at hw
  obtain ⟨db₀, hfloor, ⟨db₁, mark⟩, hmark, db₂, hcp, hd⟩ := hw
  obtain ⟨markers, rfl, hfloor'⟩ := h.floor hrow hfloor
  have hlimit : ((db.watermark + 1 : ℕ) : ℤ) ≤ i64Max := by
    simp only [nextWatermark, bind_eq_ok, ensure_eq_ok] at hmark
    obtain ⟨-, hlimit, -⟩ := hmark
    exact hlimit
  have hmark' : nextWatermark { db' with trialMarkers := markers } =
      .ok ({ db' with trialMarkers := markers, watermark := db.watermark + 1 }, db.watermark + 1) := by
    unfold nextWatermark
    simp only [h.watermark]
    rw [ensure_of hlimit]
    rfl
  obtain ⟨rfl, rfl⟩ := nextWatermark_eq_ok hmark
  have hscope : r'.scope = r.scope := visible_read hrow scope fun _ => rfl
  have hstart : r'.startedAtMs = r.startedAtMs := visible_read hrow startedAtMs fun _ => rfl
  have hrevision : r'.pricingRevision = r.pricingRevision := visible_read hrow pricingRevision fun _ => rfl
  have hcontribution : r'.contribution = r.contribution := visible_read hrow contribution fun _ => rfl
  rw [← hscope, ← hstart, ← hrevision, ← hcontribution] at hcp
  obtain ⟨db₃, hcp', hcps⟩ := updateCheckpoint_congr
    { db' with
      trialMarkers := markers
      watermark := db.watermark + 1
      revisions := db'.revisions.upsert
        ⟨r'.requestId, r'.attemptId, s.revision, s.digest, s.amount, s.state, db.watermark + 1⟩
      attempts := db'.attempts.modify r'.key (fun r => r.settle s (db.watermark + 1))
        (fun r => r.settle_key s (db.watermark + 1)) } hcp h.checkpoints.symm
  obtain ⟨cp, rfl⟩ := updateCheckpoint_tables hcp
  obtain ⟨cp', rfl⟩ := updateCheckpoint_tables hcp'
  have hrows := h.settleRows (s := s) hrow (db.watermark + 1)
  simp only [Db.writeSettlement, bind_eq_ok, pure_eq_ok]
  refine ⟨_, ⟨_, hfloor', _, hmark', _, hcp', rfl⟩, ?_⟩
  split at hd <;> subst hd <;> split <;>
    exact ⟨rfl, h.gaps, hcps.symm, h.adjustments, h.coverage, h.snapshots, rfl, h.trialIndex, h.blocks, hrows⟩

end

end SameUpToCompaction

/-- The two ledgers charge the observation alike, whichever still has the reservation. -/
def SameCharge (db db' : Db) (o : Observation) : Prop :=
  ∀ r snapshot tariff, db.attempt? o.requestId o.attemptId = some r →
    db.cachedSnapshot r.scope.routerUrl r.scope.installationId r.pricingRevision = .ok snapshot →
    snapshot.model o.effectiveModel = .ok tariff →
    o.settledValue snapshot tariff (db.reserved o.requestId o.attemptId) r =
      o.settledValue snapshot tariff (db'.reserved o.requestId o.attemptId) r

section
variable {db db' : Db} {o : Observation} {r r' : AttemptRow} {snapshot : PricingSnapshot}
  {tariff : ExecutionModelPrice} {s : Settlement}

theorem settlementOf_priced (hp : Priced db r snapshot tariff) (hr : KeepsTerms r tariff r)
    (hmodel : r.effectiveModel = o.effectiveModel) :
    db.settlementOf r o = (do
      let value := o.settledValue snapshot tariff (db.reserved o.requestId o.attemptId) r
      let risk ← remainingRisk r value.1 value.2
      pure ⟨o.usageRevision, o.digest, value.1, value.2, risk⟩) := by
  rw [settlementOf, hp.cached, ok_bind, ← hmodel, frozenTariffOf_eq hr hp.model, ok_bind]

section
variable (h : SameUpToCompaction db db')
include h

theorem SameUpToCompaction.priced (hrow : r'.visible = r.visible)
    (hp : Priced db r snapshot tariff) : Priced db' r' snapshot tariff := by
  have hscope : r'.scope = r.scope := visible_read hrow scope fun _ => rfl
  have hrevision : r'.pricingRevision = r.pricingRevision := visible_read hrow pricingRevision fun _ => rfl
  have hmodel : r'.effectiveModel = r.effectiveModel := visible_read hrow effectiveModel fun _ => rfl
  constructor
  · rw [Db.cachedSnapshot, h.snapshots, hscope, hrevision]
    exact hp.cached
  · rw [hmodel]
    exact hp.model

theorem SameUpToCompaction.settlementOf (ht : Tariffed db)
    (ht' : Tariffed db') {k : String × String} (hfind : db.attempts.find? k = some r)
    (hfind' : db'.attempts.find? k = some r') (hrow : r'.visible = r.visible)
    (hk : (o.requestId, o.attemptId) = k) (hmodel : r.effectiveModel = o.effectiveModel)
    (hcharge : SameCharge db db' o) : db'.settlementOf r' o = db.settlementOf r o := by
  subst hk
  obtain ⟨snapshot, tariff, hp, hr⟩ := ht _ r hfind
  obtain ⟨snapshot', tariff', hp', hr'⟩ := ht' _ r' hfind'
  have hpriced := h.priced hrow hp
  have hsnapshot : snapshot' = snapshot := Except.ok.inj (hp'.cached.symm.trans hpriced.cached)
  subst hsnapshot
  have htariff : tariff' = tariff := Except.ok.inj (hp'.model.symm.trans hpriced.model)
  subst htariff
  have hmodel' : r'.effectiveModel = o.effectiveModel := (visible_read hrow effectiveModel fun _ => rfl).trans hmodel
  have hvalue := hcharge r snapshot' tariff' hfind hp.cached (by rw [← hmodel]; exact hp.model)
  have hvisible : o.settledValue snapshot' tariff' (db'.reserved o.requestId o.attemptId) r' =
      o.settledValue snapshot' tariff' (db'.reserved o.requestId o.attemptId) r :=
    visible_read hrow
      (fun r => o.settledValue snapshot' tariff' (db'.reserved o.requestId o.attemptId) r)
      fun _ => rfl
  have hrisk : remainingRisk r' = remainingRisk r := visible_read hrow remainingRisk fun _ => rfl
  rw [settlementOf_priced hp' hr' hmodel', settlementOf_priced hp hr hmodel]
  simp only [hvisible, hvalue, hrisk]

theorem SameUpToCompaction.settleInTx (ht : Tariffed db)
    (ht' : Tariffed db') (hcharge : SameCharge db db' o) {d : Db} {b : Bool} (hok : db.settleInTx o = .ok (d, b)) :
    ∃ d', db'.settleInTx o = .ok (d', b) ∧ SameUpToCompaction d d' := by
  simp only [Db.settleInTx, bind_eq_ok, context_eq_ok, ensure_eq_ok] at hok
  obtain ⟨r, hfind, key, hkey, -, ⟨hscope, hmodel, htier⟩, -, hlimit, hok⟩ := hok
  obtain ⟨r', hfind', hrow⟩ := h.find? hfind
  have hscope' : r'.scope = r.scope := visible_read hrow scope fun _ => rfl
  have hmodel' : r'.effectiveModel = r.effectiveModel := visible_read hrow effectiveModel fun _ => rfl
  have htier' : r'.effectiveTier = r.effectiveTier := visible_read hrow effectiveTier fun _ => rfl
  have hsup : r'.supersededBy o = r.supersededBy o := visible_read hrow (fun r => r.supersededBy o) fun _ => rfl
  have hchecks : db'.settleInTx o = if r'.supersededBy o = true then do
      let s ← db'.settlementOf r' o
      let db ← db'.writeSettlement r' s
      pure (db, true)
    else pure (db', false) := by
    simp only [Db.settleInTx, Db.attempt?, hfind', hkey, context, ok_bind, hscope', hmodel', htier']
    rw [ensure_of ⟨hscope, hmodel, htier⟩, ok_bind, ensure_of hlimit, ok_bind]
  rw [hchecks, hsup, h.settlementOf ht ht' hfind hfind' hrow rfl hmodel hcharge]
  split at hok
  · rename_i hnew
    simp only [bind_eq_ok, pure_eq_ok, Prod.mk.injEq] at hok
    obtain ⟨s, hs, d₁, hw, rfl, rfl⟩ := hok
    obtain ⟨d', hw', hsame⟩ := h.writeSettlement hrow hw
    refine ⟨d', ?_, hsame⟩
    rw [if_pos hnew, hs, ok_bind, hw']
    rfl
  · rename_i hold
    cases hok
    exact ⟨db', by rw [if_neg hold]; rfl, h⟩

theorem SameCharge.symm (hcharge : SameCharge db db' o) : SameCharge db' db o := by
  intro r' snapshot tariff hfind' hcached hmodel
  obtain ⟨r, hfind, hrow⟩ := h.symm.find? hfind'
  have hscope : r.scope = r'.scope := visible_read hrow scope fun _ => rfl
  have hrevision : r.pricingRevision = r'.pricingRevision := visible_read hrow pricingRevision fun _ => rfl
  have hvisible : ∀ reserved, o.settledValue snapshot tariff reserved r =
      o.settledValue snapshot tariff reserved r' := fun reserved =>
    visible_read hrow (fun r => o.settledValue snapshot tariff reserved r) fun _ => rfl
  have hcached' : db.cachedSnapshot r.scope.routerUrl r.scope.installationId r.pricingRevision = .ok snapshot := by
    rw [hscope, hrevision, Db.cachedSnapshot, ← h.snapshots]
    exact hcached
  have heq := hcharge r snapshot tariff hfind hcached' hmodel
  rw [hvisible, hvisible] at heq
  exact heq.symm

end

variable (hash : PricingSnapshot → String)

/-- A compacted attempt is settled as before, where the reservation plays no part. -/
theorem SameUpToCompaction.settle_step (h : SameUpToCompaction db db') (ht : Tariffed db)
    (ht' : Tariffed db') (hcharge : SameCharge db db' o) :
    SameUpToCompaction (step hash db (.settle o)) (step hash db' (.settle o)) := by
  have hstep : ∀ {db d : Db} {b : Bool}, db.settleInTx o = .ok (d, b) → step hash db (.settle o) = d := by
    intro db d b hok
    refine commit_ok ?_
    rw [transact, hok]
    rfl
  have hfail : ∀ {db : Db} {e : QuotaError}, db.settleInTx o = .error e → step hash db (.settle o) = db := by
    intro db e herror
    refine commit_error (e := e) ?_
    rw [transact, herror]
    rfl
  cases hok : db.settleInTx o with
  | ok result =>
    obtain ⟨d', hok', hsame⟩ := h.settleInTx ht ht' hcharge hok
    rw [hstep hok, hstep hok']
    exact hsame
  | error e =>
    cases hok' : db'.settleInTx o with
    | ok result =>
      obtain ⟨d, hback, -⟩ := h.symm.settleInTx ht' ht (hcharge.symm h) hok'
      rw [hok] at hback
      cases hback
    | error e' =>
      rw [hfail hok, hfail hok']
      exact h

theorem settle_attemptMeta (db : Db) (o : Observation) : (step hash db (.settle o)).attemptMeta = db.attemptMeta := by
  rcases commit_cases (transact hash) db (.settle o) with hok | ⟨-, heq⟩
  · simp only [transact, bind_eq_ok, pure_eq_ok] at hok
    obtain ⟨⟨db₁, b⟩, hsettle, heq⟩ := hok
    rw [step, ← heq]
    rcases settleInTx_cases hsettle with ⟨-, rfl⟩ | ⟨-, old, s, -, hw⟩
    · rfl
    · exact (writeSettlement_spec hw).attemptMeta
  · rw [step, heq]

/-- In this ledger the observation is charged no less without the reservation. -/
def Observation.OutweighsIn (o : Observation) (db : Db) : Prop :=
  ∀ r snapshot tariff, db.attempt? o.requestId o.attemptId = some r →
    db.cachedSnapshot r.scope.routerUrl r.scope.installationId r.pricingRevision = .ok snapshot →
    snapshot.model o.effectiveModel = .ok tariff →
    o.Outweighs snapshot tariff (db.reserved o.requestId o.attemptId) r

variable (h : CompactedFrom db db')
include h

theorem CompactedFrom.sameCharge (ho : o.OutweighsIn db) : SameCharge db db' o := by
  intro r snapshot tariff hfind hcached hmodel
  rcases h.forgets o.requestId o.attemptId with hsame | hzero
  · rw [hsame]
  · rw [hzero]
    exact settledValue_reserved_iff.mpr (ho r snapshot tariff hfind hcached hmodel)

theorem CompactedFrom.settle_step
    (ht : Tariffed db) (ht' : Tariffed db') (ho : o.OutweighsIn db) :
    CompactedFrom (step hash db (.settle o)) (step hash db' (.settle o)) where
  toSameUpToCompaction := h.toSameUpToCompaction.settle_step hash ht ht' (h.sameCharge ho)
  forgets requestId attemptId := by
    simp only [reserved, settle_attemptMeta]
    exact h.forgets requestId attemptId

theorem CompactedFrom.run (ht : Tariffed db) (ht' : Tariffed db') {later : List Op}
    (hlater : EachStep (step hash) (fun db op => ∃ o, op = .settle o ∧ o.OutweighsIn db) db later) :
    CompactedFrom (Foundations.run (step hash) db later) (Foundations.run (step hash) db' later) := by
  induction later generalizing db db' with
  | nil => exact h
  | cons op later ih =>
    obtain ⟨⟨o, rfl, ho⟩, hrest⟩ := hlater
    exact ih (h.settle_step hash ht ht' ho) (ht.run hash [.settle o]) (ht'.run hash [.settle o]) hrest

end

/-! ## The dropped reservation -/

/-- A compacted attempt has lost its reservation, which nothing else holds. -/
def Forgotten (db : Db) : Prop :=
  ∀ k r, db.attempts.find? k = some r → r.compactedAtMs ≠ none → db.attemptMeta.find? k = none

section
variable {db db' : Db}

theorem Forgotten.empty : Forgotten empty := by
  intro k r h
  cases h

theorem Forgotten.change {c : Change} (h : Forgotten db) (hc : c.Step db db') : Forgotten db' := by
  intro k r' hfind hcompacted
  have hstep := rowStep hc k
  rw [hfind] at hstep
  generalize hbefore : db.attempts.find? k = before at hstep
  have hplain : db'.attemptMeta = db.attemptMeta → ∀ r, before = some r → r.compactedAtMs ≠ none →
      db'.attemptMeta.find? k = none := by
    intro hmeta r hr hat
    rw [hmeta]
    exact h k r (hbefore.trans hr) hat
  cases c with
  | admission a trial =>
    obtain ⟨model, reserved, hadmits, hins⟩ := hc
    rw [(insertAttempt_spec hins).attemptMeta, find?_upsert]
    cases hstep with
    | same =>
      rw [if_neg]
      · exact h k r' hbefore hcompacted
      · rintro rfl
        have hnew : db.attempts.find? (a.requestId, a.attemptId) = none := hadmits.2.1
        rw [show AttemptMeta.key _ = (a.requestId, a.attemptId) from rfl, hnew] at hbefore
        cases hbefore
    | admitted => exact absurd rfl hcompacted
    | observed o old s heq => cases heq
    | resolved old result onlyUnobserved heq => cases heq
    | compacted r now heq => cases heq
  | compact r now =>
    obtain ⟨hrow, -, -, hone⟩ := hc
    simp only [compactOne, bind_eq_ok, pure_eq_ok] at hone
    obtain ⟨cp, -, n, -, -, -, heq⟩ := hone
    rw [← heq]
    change (db.attemptMeta.erase r.key).find? k = none
    rw [find?_erase]
    split
    · rfl
    · rename_i hk
      cases hstep with
      | same => exact h k r' hbefore hcompacted
      | admitted a trial model reserved heq => cases heq
      | observed o old s heq => cases heq
      | resolved old result onlyUnobserved heq => cases heq
      | compacted r₁ now₁ heq₁ =>
        cases heq₁
        exact absurd (find?_key hbefore).symm hk
  | _ =>
    have hmeta := (frame hc).attemptMeta (fun _ _ h => by cases h) (fun _ _ h => by cases h)
    cases hstep with
    | same => exact hplain hmeta r' rfl hcompacted
    | admitted a trial model reserved heq => cases heq
    | observed o old s => exact hplain hmeta old rfl hcompacted
    | resolved old result onlyUnobserved => exact hplain hmeta old rfl hcompacted
    | compacted r now heq => cases heq

theorem Forgotten.run (h : Forgotten db) (hash : PricingSnapshot → String) (ops : List Op) :
    Forgotten (Foundations.run (step hash) db ops) := by
  have hstep : ∀ db op, Forgotten db → True → Forgotten (step hash db op) :=
    fun db op hdb _ => step_invariant hash (fun _ _ _ hdb _ hc => hdb.change hc) hdb
  exact run_invariant hstep h (EachStep.of_forall (fun _ _ => trivial) db ops)

theorem Forgotten.reserved (h : Forgotten db) {requestId attemptId : String} {r : AttemptRow}
    (hfind : db.attempt? requestId attemptId = some r) (hcompacted : r.compactedAtMs ≠ none) :
    db.reserved requestId attemptId = 0 := by
  rw [Db.reserved, h (requestId, attemptId) r hfind hcompacted]
  rfl

theorem admitWithMarketTrial_replay {a : Admission} {trial : Option MarketTrialBudget} {now : ℤ}
    {r : AttemptRow} {reserved : ℕ} (hfind : db.attempt? a.requestId a.attemptId = some r)
    (h : db.admitWithMarketTrial a trial now = .ok (db', reserved)) :
    reserved = db.reserved a.requestId a.attemptId := by
  simp only [admitWithMarketTrial, admissionRevision, bind_eq_ok, pure_eq_ok] at h
  obtain ⟨⟨db₁, revision⟩, ⟨⟨db₂, active⟩, hact, revision', -, hpair⟩, hadmit⟩ := h
  cases hpair
  have hsame := activateDueInTx_sameBalance hact
  have hfind₂ : db₂.attempt? a.requestId a.attemptId = some r := by
    rw [attempt?, hsame.attempts]
    exact hfind
  simp only [admitWithTrialInTx, bind_eq_ok, hfind₂, pure_eq_ok] at hadmit
  obtain ⟨model, -, found, hreplay, hpair⟩ := hadmit
  cases hpair
  simp only [replayAdmission, bind_eq_ok, pure_eq_ok] at hreplay
  obtain ⟨-, -, -, -, rfl⟩ := hreplay
  rw [reserved, hsame.attemptMeta, reserved]

end

/-! ## An attempt as it was before its compaction -/

def AttemptRow.restore (r : AttemptRow) (tariff : ExecutionModelPrice) : AttemptRow :=
  { r with frozenTariff := some tariff, compactedAtMs := none }

@[simp] theorem AttemptRow.restore_key (r : AttemptRow) (tariff : ExecutionModelPrice) :
    (r.restore tariff).key = r.key := rfl

def Db.restored (db : Db) (tariff : ExecutionModelPrice) (m : AttemptMeta) : Db :=
  { db with
    attempts := db.attempts.modify m.key (fun r => r.restore tariff) (fun r => r.restore_key tariff)
    attemptMeta := db.attemptMeta.upsert m }

section
variable {db : Db} {r : AttemptRow} {snapshot : PricingSnapshot} {tariff : ExecutionModelPrice} {m : AttemptMeta}

theorem restored_from (hforgotten : Forgotten db) (hfind : db.attempts.find? m.key = some r)
    (hcompacted : r.compactedAtMs ≠ none) (tariff : ExecutionModelPrice) :
    CompactedFrom (db.restored tariff m) db where
  toSameUpToCompaction := by
    have hrows := map_modify (g := visible) db.attempts m.key
      (f := fun r => r.restore tariff) (fun r => r.restore_key tariff) fun _ => rfl
    exact ⟨rfl, rfl, rfl, rfl, rfl, rfl, rfl, rfl, rfl, hrows.symm⟩
  forgets requestId attemptId := by
    simp only [restored, reserved, find?_upsert]
    split
    · rename_i hk
      rw [← hk, hforgotten m.key r hfind hcompacted]
      exact .inr rfl
    · exact .inl rfl

theorem restored_tariffed (h : Tariffed db) (hfind : db.attempts.find? m.key = some r)
    (hp : Priced db r snapshot tariff) : Tariffed (db.restored tariff m) := by
  intro k r' hfind'
  have hrow : (db.attempts.modify m.key (fun r => r.restore tariff)
    (fun r => r.restore_key tariff)).find? k = some r' := hfind'
  by_cases hk : k = m.key
  · subst hk
    rw [find?_modify_self hfind] at hrow
    cases hrow
    exact ⟨snapshot, tariff, ⟨hp.cached, hp.model⟩, rfl, rfl, rfl, rfl, rfl⟩
  · rw [find?_modify_of_ne hk] at hrow
    obtain ⟨snapshot', tariff', hp', hterms⟩ := h k r' hrow
    exact ⟨snapshot', tariff', ⟨hp'.cached, hp'.model⟩, hterms⟩

theorem SameUpToCompaction.settled {db' : Db} (h : SameUpToCompaction db db') (k : String × String) :
    (db'.attempts.find? k).map AttemptRow.settled = (db.attempts.find? k).map AttemptRow.settled := by
  cases hfind : db.attempts.find? k with
  | some r =>
    obtain ⟨r', hfind', hrow⟩ := h.find? hfind
    rw [hfind', Option.map_some, Option.map_some, AttemptRow.visible_read hrow AttemptRow.settled fun _ => rfl]
  | none =>
    cases hfind' : db'.attempts.find? k with
    | none => rfl
    | some r' =>
      obtain ⟨r, hr, -⟩ := h.symm.find? hfind'
      rw [hfind] at hr
      cases hr

end

/-- Compaction changes no status; a later observation that outweighs the reservation is settled as
without it, after any operations; and a replayed admission of a compacted attempt returns zero. -/
theorem compaction_invisible (hash : PricingSnapshot → String) (ops : List Op) (cutoff now : ℤ) :
    (∀ scope w, (step hash (run (step hash) empty ops) (.compact cutoff now)).statusInTx scope w =
      (run (step hash) empty ops).statusInTx scope w) ∧
    (∀ later, EachStep (step hash) (fun db op => ∃ o, op = .settle o ∧ o.OutweighsIn db)
        (run (step hash) empty ops) later →
      (∀ k, ((run (step hash) empty (ops ++ .compact cutoff now :: later)).attempts.find? k).map settled =
        ((run (step hash) empty (ops ++ later)).attempts.find? k).map settled) ∧
      ∀ scope w, (run (step hash) empty (ops ++ .compact cutoff now :: later)).statusInTx scope w =
        (run (step hash) empty (ops ++ later)).statusInTx scope w) ∧
    ∀ later r,
      (run (step hash) empty (ops ++ .compact cutoff now :: later)).attempts.find? r.key = some r →
      r.compactedAtMs ≠ none →
      (∃ snapshot tariff, Priced (run (step hash) empty (ops ++ .compact cutoff now :: later)) r snapshot tariff ∧
        ∀ m o, m.key = r.key → (o.requestId, o.attemptId) = r.key → o.OutweighsIn
            ((run (step hash) empty (ops ++ .compact cutoff now :: later)).restored tariff m) →
          ((step hash (run (step hash) empty (ops ++ .compact cutoff now :: later))
              (.settle o)).attempts.find? r.key).map settled = ((step hash
              ((run (step hash) empty (ops ++ .compact cutoff now :: later)).restored tariff m)
              (.settle o)).attempts.find? r.key).map settled) ∧
      ∀ a trial at_ d reserved, (a.requestId, a.attemptId) = r.key →
        (run (step hash) empty (ops ++ .compact cutoff now :: later)).admitWithMarketTrial a trial
          at_ = .ok (d, reserved) → reserved = 0 := by
  have htariffed : ∀ ops, Tariffed (run (step hash) empty ops) := Tariffed.empty.run hash
  have hcompact := compact_step hash (run (step hash) empty ops) cutoff now
  refine ⟨hcompact.statusInTx, fun later hlater => ?_, fun later r hfind hcompacted => ?_⟩
  · have hlast := htariffed (ops ++ [.compact cutoff now])
    rw [run_append_singleton] at hlast
    have hruns := hcompact.run hash (htariffed ops) hlast hlater
    rw [run_append_cons, run_append_singleton, run_append]
    exact ⟨hruns.settled, hruns.statusInTx⟩
  · have hforgotten : Forgotten (run (step hash) empty (ops ++ .compact cutoff now :: later)) :=
      Forgotten.empty.run hash _
    have hdb := htariffed (ops ++ .compact cutoff now :: later)
    generalize run (step hash) empty (ops ++ .compact cutoff now :: later) = db at *
    constructor
    · obtain ⟨snapshot, tariff, hp, -⟩ := hdb r.key r hfind
      refine ⟨snapshot, tariff, hp, fun m o hm _ ho => ?_⟩
      rw [← hm] at hfind ⊢
      have hrestored := restored_from hforgotten hfind hcompacted tariff
      exact (hrestored.settle_step hash (restored_tariffed hdb hfind hp) hdb ho).settled m.key
    · intro a trial at_ d reserved hk hadmit
      have hrow : db.attempt? a.requestId a.attemptId = some r := by
        rw [attempt?, hk]
        exact hfind
      rw [admitWithMarketTrial_replay hrow hadmit, hforgotten.reserved hrow hcompacted]

namespace Sample

def usedForty : List Op := opening ++ [.admission (admission "a" 5 100) none,
  .settle (observation "a" 1 .final (some 40))]

end Sample

/-- An unknown outcome that arrives late costs the reservation, and nothing once it is forgotten. -/
theorem compaction_drops_reservation :
    ((run (step hash) empty (usedForty ++ [.settle (observation "a" 2 .unknown none)])).attempts.find? ("a", "1")).map
        settled = some (100, .conservative, 0) ∧
    ((run (step hash) empty (usedForty ++ [.compact 10 20,
      .settle (observation "a" 2 .unknown none)])).attempts.find? ("a", "1")).map
        settled = some (0, .conservative, 0) ∧
    ((run (step hash) empty usedForty).admitWithTrialInTx (admission "a" 5 100) none).map Prod.snd = .ok 100 ∧
    ((run (step hash) empty (usedForty ++ [.compact 10 20])).admitWithTrialInTx
      (admission "a" 5 100) none).map Prod.snd = .ok 0 := by
  decide

end CcSwitchServer.ValueQuota
