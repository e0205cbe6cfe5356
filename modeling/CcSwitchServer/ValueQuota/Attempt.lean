import CcSwitchServer.ValueQuota.Rebuild

/-! # One attempt over time

What a primitive change can do to the row of one attempt, and what it leaves alone.
-/

namespace CcSwitchServer.ValueQuota
open Foundations ValuePricing Usage Table Db

/-- What one change does to the row of the attempt `k`. -/
inductive RowStep (db : Db) (c : Change) (k : String × String) :
    Option AttemptRow → Option AttemptRow → Prop
  | same (r : Option AttemptRow) : RowStep db c k r r
  | admitted (a : Admission) (trial : Option MarketTrialBudget) (model : ExecutionModelPrice)
      (reserved : ℕ) (hc : c = .admission a trial) (hk : (a.requestId, a.attemptId) = k)
      (hadmits : Change.Admits db a trial model reserved) :
      RowStep db c k none (some (a.row model reserved (db.watermark + 1)))
  | observed (o : Observation) (old : AttemptRow) (s : Settlement) (hc : c = .observe o)
      (hk : (o.requestId, o.attemptId) = k) (hobs : Change.Observes db o old s) :
      RowStep db c k (some old) (some (old.settle s (db.watermark + 1)))
  | resolved (old : AttemptRow) (result : AttemptOutcome) (onlyUnobserved : Bool)
      (hc : c = .outcome k.1 k.2 result onlyUnobserved) (hopen : ¬old.meteringStatus.Settled) :
      RowStep db c k (some old) (some (old.settle (result.settlement (db.reserved k.1 k.2) old) (db.watermark + 1)))
  | compacted (r : AttemptRow) (now : ℤ) (hc : c = .compact r now)
      (hsettled : r.meteringStatus.Settled) (hnew : r.compactedAtMs = none) :
      RowStep db c k (some r) (some (r.compact now))

def AttemptRow.identity (r : AttemptRow) : (String × String) × Scope × ℤ := (r.key, r.scope, r.startedAtMs)

def Db.identities (db : Db) : List ((String × String) × Scope × ℤ) := db.attempts.rows.map AttemptRow.identity

section
variable {db db' : Db} {k : String × String}

theorem SettledBy.find? {old : AttemptRow} {s : Settlement} (h : SettledBy db old s db')
    (hfind : db.attempts.find? old.key = some old) (k : String × String) :
    db'.attempts.find? k = if k = old.key then some (old.settle s (db.watermark + 1)) else db.attempts.find? k := by
  rw [h.attempts]
  by_cases hk : k = old.key
  · rw [if_pos hk, hk, find?_modify_self hfind]
  · rw [if_neg hk, find?_modify_of_ne hk]

variable {c : Change}

/-- A row is left alone, inserted, settled or compacted. -/
theorem Change.rowStep (h : c.Step db db') (k : String × String) :
    RowStep db c k (db.attempts.find? k) (db'.attempts.find? k) := by
  cases c with
  | admission a trial =>
    obtain ⟨model, reserved, hadmits, hins⟩ := h
    obtain ⟨hfresh, hattempts⟩ := (insertAttempt_spec hins).attempts
    rw [hattempts, find?_insert]
    by_cases hk : (a.row model reserved (db.watermark + 1)).key = k
    · rw [if_pos hk, ← hk, hfresh]
      exact .admitted a trial model reserved rfl rfl hadmits
    · rw [if_neg hk]
      exact .same _
  | observe o =>
    obtain ⟨old, s, hobs, hw⟩ := h
    have hkey := find?_key hobs.1
    have hold : db.attempts.find? old.key = some old := by
      rw [hkey]
      exact hobs.1
    rw [(writeSettlement_spec hw).find? hold]
    by_cases hk : k = old.key
    · rw [if_pos hk, hk, hold]
      exact .observed o old s rfl hkey.symm hobs
    · rw [if_neg hk]
      exact .same _
  | outcome requestId attemptId result onlyUnobserved =>
    obtain ⟨old, hfound, hopen, -, hw⟩ := h
    have hkey := find?_key hfound
    have hold : db.attempts.find? old.key = some old := by
      rw [hkey]
      exact hfound
    rw [(writeSettlement_spec hw).find? hold]
    by_cases hk : k = old.key
    · rw [if_pos hk, hk, hold, hkey]
      exact .resolved old result onlyUnobserved rfl hopen
    · rw [if_neg hk]
      exact .same _
  | compact r now =>
    obtain ⟨hfind, hsettled, hnew, hone⟩ := h
    rw [compactOne_attempts hone]
    by_cases hk : k = r.key
    · rw [hk, find?_modify_self hfind, hfind]
      exact .compacted r now rfl hsettled hnew
    · rw [find?_modify_of_ne hk]
      exact .same _
  | rebuild scope =>
    obtain ⟨n, hr⟩ := h
    obtain ⟨⟨checkpoints, rfl⟩, -⟩ := rebuildCheckpointsInTx_spec hr
    exact .same _
  | raise floor =>
    simp only [Change.Step, raiseWatermarkFloor, bind_eq_ok, pure_eq_ok] at h
    obtain ⟨-, -, rfl⟩ := h
    exact .same _
  | adjust a actor =>
    simp only [Change.Step, insertAdjustment, bind_eq_ok, pure_eq_ok] at h
    obtain ⟨-, -, -, -, ⟨db₁, mark⟩, hmark, -, -, -, -, rfl⟩ := h
    obtain ⟨-, rfl⟩ := nextWatermark_eq_ok hmark
    exact .same _
  | record log =>
    simp only [Change.Step, upsertUsageRow, bind_eq_ok, pure_eq_ok] at h
    obtain ⟨-, -, -, -, rfl⟩ := h
    exact .same _
  | install row =>
    obtain ⟨-, rfl⟩ := h
    exact .same _
  | aux =>
    rw [h.attempts]
    exact .same _

theorem SettledBy.identities {old : AttemptRow} {s : Settlement} (h : SettledBy db old s db') :
    db'.identities = db.identities := by
  rw [Db.identities, h.attempts]
  exact Table.map_modify db.attempts old.key _ fun r => rfl

/-- What a change leaves alone: each of these tables has one kind of change that writes it. -/
structure Change.Frame (c : Change) (db db' : Db) : Prop where
  identities : (∀ a trial, c ≠ .admission a trial) → db'.identities = db.identities
  adjustments : (∀ a actor, c ≠ .adjust a actor) → db'.adjustments = db.adjustments
  snapshots : (∀ row, c ≠ .install row) → db'.snapshots = db.snapshots
  usageRecords : (∀ log, c ≠ .record log) → db'.usageRecords = db.usageRecords
  attemptMeta : (∀ a trial, c ≠ .admission a trial) → (∀ r now, c ≠ .compact r now) → db'.attemptMeta = db.attemptMeta
  trials : (∀ a trial, c ≠ .admission a trial) → (∀ o, c ≠ .observe o) →
    (∀ r a result only, c ≠ .outcome r a result only) →
    db'.trialMarkers = db.trialMarkers ∧ db'.trialIndex = db.trialIndex

/-- Every change keeps the tables that it does not write. -/
theorem Change.frame (h : c.Step db db') : Change.Frame c db db' := by
  cases c with
  | admission a trial =>
    obtain ⟨model, reserved, -, hins⟩ := h
    have hspec := insertAttempt_spec hins
    exact ⟨fun hc => absurd rfl (hc a trial), fun _ => hspec.adjustments, fun _ => hspec.snapshots,
      fun _ => hspec.usageRecords, fun hc _ => absurd rfl (hc a trial),
      fun hc _ _ => absurd rfl (hc a trial)⟩
  | observe o =>
    obtain ⟨old, s, -, hw⟩ := h
    have hspec := writeSettlement_spec hw
    exact ⟨fun _ => hspec.identities, fun _ => hspec.adjustments, fun _ => hspec.snapshots,
      fun _ => hspec.usageRecords, fun _ _ => hspec.attemptMeta, fun _ hc _ => absurd rfl (hc o)⟩
  | outcome requestId attemptId result onlyUnobserved =>
    obtain ⟨old, -, -, -, hw⟩ := h
    have hspec := writeSettlement_spec hw
    exact ⟨fun _ => hspec.identities, fun _ => hspec.adjustments, fun _ => hspec.snapshots,
      fun _ => hspec.usageRecords, fun _ _ => hspec.attemptMeta,
      fun _ _ hc => absurd rfl (hc requestId attemptId result onlyUnobserved)⟩
  | compact r now =>
    have hone := h.2.2.2
    have hident : db'.identities = db.identities := by
      rw [identities, compactOne_attempts hone]
      exact map_modify db.attempts r.key _ fun r => rfl
    simp only [compactOne, bind_eq_ok, pure_eq_ok] at hone
    obtain ⟨cp, -, n, -, -, -, rfl⟩ := hone
    exact ⟨fun _ => hident, fun _ => rfl, fun _ => rfl, fun _ => rfl,
      fun _ hc => absurd rfl (hc r now), fun _ _ _ => ⟨rfl, rfl⟩⟩
  | rebuild scope =>
    obtain ⟨n, hr⟩ := h
    obtain ⟨⟨checkpoints, rfl⟩, -⟩ := rebuildCheckpointsInTx_spec hr
    exact ⟨fun _ => rfl, fun _ => rfl, fun _ => rfl, fun _ => rfl, fun _ _ => rfl, fun _ _ _ => ⟨rfl, rfl⟩⟩
  | raise floor =>
    simp only [Change.Step, raiseWatermarkFloor, bind_eq_ok, pure_eq_ok] at h
    obtain ⟨-, -, rfl⟩ := h
    exact ⟨fun _ => rfl, fun _ => rfl, fun _ => rfl, fun _ => rfl, fun _ _ => rfl, fun _ _ _ => ⟨rfl, rfl⟩⟩
  | adjust a actor =>
    simp only [Change.Step, insertAdjustment, bind_eq_ok, pure_eq_ok] at h
    obtain ⟨-, -, -, -, ⟨db₁, mark⟩, hmark, -, -, -, -, rfl⟩ := h
    obtain ⟨-, rfl⟩ := nextWatermark_eq_ok hmark
    exact ⟨fun _ => rfl, fun hc => absurd rfl (hc a actor), fun _ => rfl, fun _ => rfl,
      fun _ _ => rfl, fun _ _ _ => ⟨rfl, rfl⟩⟩
  | record log =>
    simp only [Change.Step, upsertUsageRow, bind_eq_ok, pure_eq_ok] at h
    obtain ⟨-, -, -, -, rfl⟩ := h
    exact ⟨fun _ => rfl, fun _ => rfl, fun _ => rfl, fun hc => absurd rfl (hc log),
      fun _ _ => rfl, fun _ _ _ => ⟨rfl, rfl⟩⟩
  | install row =>
    obtain ⟨-, rfl⟩ := h
    exact ⟨fun _ => rfl, fun _ => rfl, fun hc => absurd rfl (hc row), fun _ => rfl,
      fun _ _ => rfl, fun _ _ _ => ⟨rfl, rfl⟩⟩
  | aux =>
    have hident : db'.identities = db.identities := by
      rw [identities, h.attempts, identities]
    exact ⟨fun _ => hident, fun _ => h.adjustments, fun _ => h.snapshots, fun _ => h.usageRecords,
      fun _ _ => h.attemptMeta, fun _ _ _ => ⟨h.trialMarkers, h.trialIndex⟩⟩

theorem Change.cachedSnapshot (h : c.Step db db') {routerUrl installationId revision : String}
    {snapshot : PricingSnapshot} (hsnap : db.cachedSnapshot routerUrl installationId revision = .ok snapshot) :
    db'.cachedSnapshot routerUrl installationId revision = .ok snapshot := by
  by_cases hc : ∀ row, c ≠ .install row
  · rw [Db.cachedSnapshot, (Change.frame h).snapshots hc]
    exact hsnap
  · push Not at hc
    obtain ⟨row, rfl⟩ := hc
    obtain ⟨hnone, rfl⟩ := h
    simp only [cachedSnapshot, context_eq_ok, Option.map_eq_some_iff] at hsnap ⊢
    obtain ⟨old, hold, rfl⟩ := hsnap
    refine ⟨old, ?_, rfl⟩
    rw [find?_upsert_of_ne, hold]
    rintro hkey
    rw [hkey, hold] at hnone
    cases hnone

end

/-! ## Attempts keep their place -/

section
variable {db db' : Db}

theorem attempt?_eq_none (h : db'.identities = db.identities) (requestId attemptId : String) :
    db'.attempt? requestId attemptId = none ↔ db.attempt? requestId attemptId = none := by
  have hident : ∀ db : Db, db.attempt? requestId attemptId = none ↔
      ∀ i ∈ db.identities, i.1 ≠ (requestId, attemptId) := by
    intro db
    rw [attempt?, find?_eq_none, identities, List.forall_mem_map]
    rfl
  rw [hident, hident, h]

def Op.admission? : Op → Option (Admission × Option MarketTrialBudget)
  | .admission a trial | .admitMarket a trial _ => some (a, trial)
  | _ => none

/-- Only an admission adds a row, and no row is ever removed. -/
theorem step_identities (hash : PricingSnapshot → String) (db : Db) (op : Op) :
    (step hash db op).identities = db.identities ∨
      ∃ a trial db₀ revision, op.admission? = some (a, trial) ∧ SameBalance db db₀ ∧
        Change.Step (.admission { a with pricingRevision := revision } trial) db₀ (step hash db op) := by
  rcases commit_cases (transact hash) db op with hok | ⟨-, heq⟩
  · change transact hash db op = .ok (step hash db op) at hok
    generalize step hash db op = db' at hok
    by_cases hop : op.admission? = none
    · have hkeep : ∀ db₁ c db₂, db₁.identities = db.identities → op.Allows db₁ c →
          c.Step db₁ db₂ → db₂.identities = db.identities := by
        intro db₁ c db₂ hdb₁ hallow hc
        refine ((Change.frame hc).identities fun a trial heq => ?_).trans hdb₁
        subst heq
        rcases Op.allows_admission hallow with rfl | ⟨a', now, revision, rfl, -⟩
        · cases hop
        · cases hop
      have hsame := (transact_trace hok).invariant hkeep rfl
      exact .inl hsame
    · cases op with
      | admission a trial =>
        simp only [transact, bind_eq_ok, pure_eq_ok] at hok
        obtain ⟨⟨db₁, reserved⟩, hadmit, rfl⟩ := hok
        rcases admitWithTrialInTx_cases hadmit with ⟨rfl, -⟩ | ⟨model, hadm, hins⟩
        · exact .inl rfl
        · exact .inr ⟨a, trial, db, a.pricingRevision, rfl, SameBalance.refl db, model, reserved, hadm, hins⟩
      | admitMarket a trial now =>
        simp only [transact, bind_eq_ok, pure_eq_ok] at hok
        obtain ⟨⟨db₁, reserved⟩, hadmit, rfl⟩ := hok
        obtain ⟨db₀, revision, hsame, ⟨rfl, -⟩ | hstep⟩ := admitWithMarketTrial_cases hadmit
        · left
          show db₁.identities = db.identities
          rw [identities, hsame.attempts, identities]
        · exact .inr ⟨a, trial, db₀, revision, rfl, hsame, hstep⟩
      | _ => exact absurd rfl hop
  · left
    rw [step, heq]

end

/-! ## Precedence of observations -/

theorem supersededBy_iff {old : AttemptRow} {o : Observation} : old.supersededBy o = true ↔
    old.usageRevision < o.usageRevision ∨ old.usageRevision = o.usageRevision ∧
      ∀ previous, old.observation = some previous → previous ≠ o.digest ∧
        ((o.synthetic = true ∧ ¬old.meteringStatus.Settled) ∨ o.synthetic = false ∧ (previous.synthetic = true ∨
            old.meteringStatus = .pending ∧ o.outcome.terminal = true)) := by
  rw [AttemptRow.supersededBy]
  rcases Nat.lt_trichotomy o.usageRevision old.usageRevision with hlt | heq | hgt
  · rw [if_pos hlt]
    exact iff_of_false (by decide) (by omega)
  · rw [if_neg (by omega), if_pos heq]
    have hiff : ∀ p : Prop, (old.usageRevision < o.usageRevision ∨ old.usageRevision = o.usageRevision ∧ p) ↔ p := by
      intro p
      simp [heq]
    rw [hiff]
    cases hobs : old.observation with
    | none => simp
    | some previous =>
      simp only [Option.some.injEq, forall_eq']
      by_cases hsame : previous = o.digest
      · simp [hsame]
      · cases hsynthetic : o.synthetic with
        | true => simp [hsame, MeteringStatus.not_settled]
        | false => simp [hsame]
  · rw [if_neg (by omega), if_neg (by omega)]
    exact iff_of_true rfl (.inl hgt)

/-- What a settlement decides of a row. -/
def AttemptRow.settled (r : AttemptRow) : ℕ × MeteringStatus × ℕ :=
  (r.usagePicos, r.meteringStatus, r.pendingRiskPicos)

/-! ## Observations of an operation -/

/-- The operation hands the observation to the settlement of its attempt, which commits. -/
def Op.Settles (o : Observation) (db : Db) (result : Db × Bool) : Op → Prop
  | .settle o' => o' = o ∧ db.settleInTx o = .ok result
  | .usageLog log => ∃ db₁, db.upsertUsageRow log = .ok db₁ ∧ db₁.LogObservation log o ∧
      db₁.settleLogInTx log false = .ok result
  | _ => False

section
variable {db db' : Db} {o : Observation} {c : Change}

theorem Op.Settles.step_eq {op : Op} {result : Db × Bool} (h : op.Settles o db result)
    (hash : PricingSnapshot → String) : step hash db op = result.1 := by
  cases op with
  | settle o' =>
    obtain ⟨rfl, hsettle⟩ := h
    refine commit_ok ?_
    rw [transact, hsettle]
    rfl
  | usageLog log =>
    obtain ⟨db₁, hrow, -, hlog⟩ := h
    refine commit_ok ?_
    rw [transact, hrow, ok_bind, settleUsageLogIsolated, hlog]
    rfl
  | _ => exact absurd h id

theorem Op.Settles.settleInTx {op : Op} {result : Db × Bool} (h : op.Settles o db result) :
    ∃ db₁, (db₁ = db ∨ ∃ log, op = .usageLog log ∧ Change.Step (.record log) db db₁) ∧
      db₁.settleInTx o = .ok result := by
  cases op with
  | settle o' =>
    obtain ⟨rfl, hsettle⟩ := h
    exact ⟨db, .inl rfl, hsettle⟩
  | usageLog log =>
    obtain ⟨db₁, hrow, ho, hlog⟩ := h
    exact ⟨db₁, .inr ⟨log, rfl, hrow⟩, settleLogInTx_observation hlog ho⟩
  | _ => exact absurd h id

theorem attempt?_attemptId {requestId attemptId : String} {row : AttemptRow}
    (h : db.attempt? requestId attemptId = some row) : row.attemptId = attemptId :=
  congrArg Prod.snd (find?_key h)

theorem settlementOf_fields {db : Db} {old : AttemptRow} {o : Observation} {s : Settlement}
    (h : db.settlementOf old o = .ok s) : s.revision = o.usageRevision ∧ s.digest = o.digest := by
  simp only [settlementOf, bind_eq_ok, pure_eq_ok] at h
  obtain ⟨snapshot, -, tariff, -, risk, -, rfl⟩ := h
  exact ⟨rfl, rfl⟩

theorem LogObservation.of_change {log : UsageLog} (hallow : (Op.usageLog log).Allows db c)
    (hc : c.Step db db') (h : db'.LogObservation log o) : db.LogObservation log o := by
  obtain ⟨row', hrow', ho⟩ := h
  have hmeta : db'.attemptMeta = db.attemptMeta := by
    refine (Change.frame hc).attemptMeta (fun a trial heq => ?_) fun r now heq => ?_
    · subst heq
      rcases hallow with h | h | ⟨o', -, h⟩ <;> cases h
    · subst heq
      rcases hallow with h | h | ⟨o', -, h⟩ <;> cases h
  rw [hmeta] at ho
  have hstep := Change.rowStep hc (log.requestId, wantedAttempt log)
  rw [show db'.attempts.find? (log.requestId, wantedAttempt log) = some row' from hrow'] at hstep
  generalize hrow : db.attempts.find? (log.requestId, wantedAttempt log) = before at hstep
  cases hstep with
  | same => exact ⟨row', hrow, ho⟩
  | admitted a trial model reserved heq =>
    subst heq
    rcases hallow with h | h | ⟨o', -, h⟩ <;> cases h
  | observed o' old s heq hk hobs => exact ⟨old, hrow, ho⟩
  | resolved old result only heq =>
    subst heq
    rcases hallow with h | h | ⟨o', -, h⟩ <;> cases h
  | compacted r now heq =>
    subst heq
    rcases hallow with h | h | ⟨o', -, h⟩ <;> cases h

end

end CcSwitchServer.ValueQuota
