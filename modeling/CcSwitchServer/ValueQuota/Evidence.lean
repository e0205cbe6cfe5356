import CcSwitchServer.ValueQuota.Changes

/-! # Evidence: the rows behind a balance

What the attempts and gaps of a scope contribute, and how the writers change it.
-/

namespace CcSwitchServer.ValueQuota
open Foundations ValuePricing Usage Std AttemptRow Db List Table Option

/-- The contributions of the attempts and gaps of a scope whose start satisfies `p`. -/
def Db.evidence (db : Db) (scope : Scope) (p : ℤ → Prop) [DecidablePred p] : List Contribution :=
  (db.attemptsWhere scope p).map contribution ++ (db.gapsWhere scope p).map GapRow.contribution

def Db.dayEvidence (db : Db) (scope : Scope) (day : ℤ) : List Contribution :=
  db.evidence scope fun at_ => dayOf at_ = day

section
variable {db db' : Db} {scope : Scope} {p : ℤ → Prop} [DecidablePred p]

theorem evidence_congr (hattempts : db'.attempts = db.attempts) (hgaps : db'.gaps = db.gaps) :
    db'.evidence scope p = db.evidence scope p := by
  simp only [evidence, attemptsWhere, gapsWhere, hattempts, hgaps]

theorem length_evidence_le (db : Db) (scope : Scope) (p : ℤ → Prop) [DecidablePred p] :
    (db.evidence scope p).length ≤ db.attempts.rows.length + db.gaps.rows.length := by
  have ha := length_filter_le (fun r : AttemptRow => r.scope = scope ∧ p r.startedAtMs) db.attempts.rows
  have hg := length_filter_le (fun g : GapRow => g.scope = scope ∧ p g.startedAtMs) db.gaps.rows
  simp only [evidence, attemptsWhere, gapsWhere, length_append, length_map]
  omega

variable {r : AttemptRow}

theorem attempt_mem_evidence (h : r ∈ db.attempts.rows) (hscope : r.scope = scope) (hp : p r.startedAtMs) :
    r.contribution ∈ db.evidence scope p :=
  mem_append_left _ (mem_map_of_mem (mem_filter.mpr ⟨h, by simp [hscope, hp]⟩))

theorem gap_mem_evidence {g : GapRow} (h : g ∈ db.gaps.rows) (hscope : g.scope = scope)
    (hp : p g.startedAtMs) : g.contribution ∈ db.evidence scope p :=
  mem_append_right _ (mem_map_of_mem (mem_filter.mpr ⟨h, by simp [hscope, hp]⟩))

theorem mem_evidence {c : Contribution} (h : c ∈ db.evidence scope p) :
    (∃ r ∈ db.attempts.rows, r.scope = scope ∧ p r.startedAtMs ∧ c = r.contribution) ∨
      ∃ g ∈ db.gaps.rows, g.scope = scope ∧ p g.startedAtMs ∧ c = g.contribution := by
  rcases mem_append.mp h with h | h
  · obtain ⟨r, hr, rfl⟩ := mem_map.mp h
    obtain ⟨hr, hcond⟩ := mem_filter.mp hr
    simp only [decide_eq_true_eq] at hcond
    exact .inl ⟨r, hr, hcond.1, hcond.2, rfl⟩
  · obtain ⟨g, hg, rfl⟩ := mem_map.mp h
    obtain ⟨hg, hcond⟩ := mem_filter.mp hg
    simp only [decide_eq_true_eq] at hcond
    exact .inr ⟨g, hg, hcond.1, hcond.2, rfl⟩

theorem attemptsWhere_modify (scope : Scope) (p : ℤ → Prop) [DecidablePred p] {k : String × String}
    {f : AttemptRow → AttemptRow} {hf : ∀ r, (f r).key = r.key} (hfind : db.attempts.find? k = some r)
    (hattempts : db'.attempts = db.attempts.modify k f hf) (hscope : (f r).scope = r.scope)
    (hstart : (f r).startedAtMs = r.startedAtMs) :
    ∃ rest, (db.attemptsWhere scope p).Perm ((if r.scope = scope ∧ p r.startedAtMs then [r] else []) ++ rest) ∧
      (db'.attemptsWhere scope p).Perm ((if r.scope = scope ∧ p r.startedAtMs then [f r] else []) ++ rest) := by
  refine ⟨(db.attempts.others k).filter fun r => r.scope = scope ∧ p r.startedAtMs, ?_, ?_⟩
  · refine ((rows_perm hfind).filter _).trans ?_
    rw [filter_cons]
    by_cases hr : r.scope = scope ∧ p r.startedAtMs <;> simp [hr]
  · rw [attemptsWhere, hattempts]
    refine ((modify_perm hfind f hf).filter _).trans ?_
    rw [filter_cons]
    by_cases hr : r.scope = scope ∧ p r.startedAtMs <;> simp [hr, hscope, hstart]

theorem evidence_modify (scope : Scope) (p : ℤ → Prop) [DecidablePred p] {k : String × String}
    {f : AttemptRow → AttemptRow} {hf : ∀ r, (f r).key = r.key} (hfind : db.attempts.find? k = some r)
    (hattempts : db'.attempts = db.attempts.modify k f hf) (hscope : (f r).scope = r.scope)
    (hstart : (f r).startedAtMs = r.startedAtMs) (hgaps : db'.gaps = db.gaps) :
    ∃ rest, (db.evidence scope p).Perm ((if r.scope = scope ∧ p r.startedAtMs then [r.contribution] else []) ++ rest) ∧
      (db'.evidence scope p).Perm
        ((if r.scope = scope ∧ p r.startedAtMs then [(f r).contribution] else []) ++ rest) := by
  obtain ⟨rest, hold, hnew⟩ := attemptsWhere_modify scope p hfind hattempts hscope hstart
  refine ⟨rest.map contribution ++ (db.gapsWhere scope p).map GapRow.contribution, ?_, ?_⟩
  · refine ((hold.map contribution).append_right _).trans ?_
    by_cases hr : r.scope = scope ∧ p r.startedAtMs <;> simp [hr]
  · have hg : db'.gapsWhere scope p = db.gapsWhere scope p := by
      rw [gapsWhere, gapsWhere, hgaps]
    rw [evidence, hg]
    refine ((hnew.map contribution).append_right _).trans ?_
    by_cases hr : r.scope = scope ∧ p r.startedAtMs <;> simp [hr]

theorem evidence_insert (scope : Scope) (p : ℤ → Prop) [DecidablePred p] {h : db.attempts.find? r.key = none}
    (hattempts : db'.attempts = db.attempts.insert r h) (hgaps : db'.gaps = db.gaps) :
    (db'.evidence scope p).Perm
      ((if r.scope = scope ∧ p r.startedAtMs then [r.contribution] else []) ++ db.evidence scope p) := by
  have hg : db'.gapsWhere scope p = db.gapsWhere scope p := by
    rw [gapsWhere, gapsWhere, hgaps]
  have ha : (db'.attemptsWhere scope p).Perm
      ((if r.scope = scope ∧ p r.startedAtMs then [r] else []) ++ db.attemptsWhere scope p) := by
    rw [attemptsWhere, hattempts]
    refine ((insert_perm _ r h).filter _).trans ?_
    rw [filter_cons]
    by_cases hr : r.scope = scope ∧ p r.startedAtMs <;> simp [hr, attemptsWhere]
  rw [evidence, hg]
  refine ((ha.map contribution).append_right _).trans ?_
  by_cases hr : r.scope = scope ∧ p r.startedAtMs <;> simp [hr, evidence]

theorem evidence_eraseGap (scope : Scope) (p : ℤ → Prop) [DecidablePred p] {k : Scope × String} {g : GapRow}
    (hfind : db.gaps.find? k = some g)
    (hattempts : db'.attempts = db.attempts) (hgaps : db'.gaps = db.gaps.erase k) :
    (db.evidence scope p).Perm
      ((if g.scope = scope ∧ p g.startedAtMs then [g.contribution] else []) ++ db'.evidence scope p) := by
  have ha : db'.attemptsWhere scope p = db.attemptsWhere scope p := by
    rw [attemptsWhere, attemptsWhere, hattempts]
  have hg : (db.gapsWhere scope p).Perm
      ((if g.scope = scope ∧ p g.startedAtMs then [g] else []) ++ db'.gapsWhere scope p) := by
    refine ((rows_perm hfind).filter _).trans ?_
    rw [filter_cons, gapsWhere, hgaps, erase_rows]
    by_cases hr : g.scope = scope ∧ p g.startedAtMs <;> simp [hr]
  simp only [evidence, ha]
  refine ((hg.map GapRow.contribution).append_left _).trans ?_
  rw [map_append]
  by_cases hr : g.scope = scope ∧ p g.startedAtMs
  · simp only [if_pos hr, map_cons, map_nil, singleton_append]
    exact perm_middle
  · simp [hr]

end

/-! ## Books -/

/-- The stored checkpoints represent these contributions. -/
def Db.Books (db : Db) (E : Scope → ℤ → List Contribution) : Prop :=
  ∀ scope day, ∃ cp, db.readCheckpoint scope day = .ok cp ∧ Represents cp (E scope day)

section
variable {db db' : Db} {E E' : Scope → ℤ → List Contribution} {scope : Scope} {at_ : ℤ}

theorem readCheckpoint_congr (h : db'.checkpoints = db.checkpoints) (scope : Scope) (day : ℤ) :
    db'.readCheckpoint scope day = db.readCheckpoint scope day := by
  simp only [readCheckpoint, h]

theorem Db.Books.congr (h : db.Books E) (hcp : db'.checkpoints = db.checkpoints) : db'.Books E := by
  intro scope day
  rw [readCheckpoint_congr hcp]
  exact h scope day

theorem Db.Books.perm (h : db.Books E) (hE : ∀ scope day, (E scope day).Perm (E' scope day)) : db.Books E' := by
  intro scope day
  obtain ⟨cp, hcp, hr⟩ := h scope day
  exact ⟨cp, hcp, hr.perm (hE scope day)⟩

theorem Represents.cons_watermark {cp : Checkpoint} {c : Contribution} {cs : List Contribution}
    (h : Represents cp (c :: cs)) (mark : ℕ) : Represents cp ({ c with watermark := mark } :: cs) :=
  ⟨h.amount_eq, h.risk_eq, h.states, h.revisions⟩

variable {old new : Option Contribution}

section
variable (h : db.updateCheckpoint scope at_ old new = .ok db')
include h

theorem updateCheckpoint_spec {cp : Checkpoint} {rest : List Contribution}
    (hcp : db.readCheckpoint scope (dayOf at_) = .ok cp)
    (hr : Represents cp (old.toList ++ rest)) :
    ∃ cp', db' = db.writeCheckpoint scope (dayOf at_) cp' ∧ Represents cp' (new.toList ++ rest) := by
  simp only [updateCheckpoint, bind_eq_ok, pure_eq_ok] at h
  obtain ⟨cp₀, hcp₀, cp₁, h₁, cp₂, h₂, rfl⟩ := h
  rw [hcp] at hcp₀
  cases hcp₀
  have hold : Represents cp₁ rest := by
    cases old with
    | none =>
      simp only [elim_none, pure_eq_ok] at h₁
      subst h₁
      exact hr
    | some c =>
      obtain ⟨cp', hok, hrep⟩ := hr.change_remove
      simp only [elim_some] at h₁
      rw [hok] at h₁
      cases h₁
      exact hrep
  refine ⟨cp₂, rfl, ?_⟩
  cases new with
  | none =>
    simp only [elim_none, pure_eq_ok] at h₂
    subst h₂
    exact hold
  | some c => exact hold.change_add h₂

theorem updateCheckpoint_marks :
    ∃ cp cp', db.readCheckpoint scope (dayOf at_) = .ok cp ∧
      db' = db.writeCheckpoint scope (dayOf at_) cp' ∧
      cp'.watermark = max (max cp.watermark (old.elim 0 Contribution.watermark))
        (new.elim 0 Contribution.watermark) := by
  simp only [updateCheckpoint, bind_eq_ok, pure_eq_ok] at h
  obtain ⟨cp, hcp, cp₁, h₁, cp₂, h₂, rfl⟩ := h
  refine ⟨cp, cp₂, hcp, rfl, ?_⟩
  have hold : cp₁.watermark = max cp.watermark (old.elim 0 Contribution.watermark) := by
    cases old with
    | none =>
      simp only [elim_none, pure_eq_ok] at h₁
      rw [h₁, elim_none, Nat.max_zero]
    | some c => exact Checkpoint.change_watermark h₁
  rw [← hold]
  cases new with
  | none =>
    simp only [elim_none, pure_eq_ok] at h₂
    rw [h₂, elim_none, Nat.max_zero]
  | some c => exact Checkpoint.change_watermark h₂

end

theorem Db.Books.update (hE : db.Books E) (h : db.updateCheckpoint scope at_ old new = .ok db')
    (rest : List Contribution) (hold : ∀ cp, Represents cp (E scope (dayOf at_)) → Represents cp (old.toList ++ rest))
    (hnew : (new.toList ++ rest).Perm (E' scope (dayOf at_)))
    (hother : ∀ scope' day, (scope, dayOf at_) ≠ (scope', day) → (E scope' day).Perm (E' scope' day)) :
    db'.Books E' := by
  intro scope' day
  obtain ⟨cp, hcp, hr⟩ := hE scope (dayOf at_)
  obtain ⟨cp', rfl, hr'⟩ := updateCheckpoint_spec h hcp (hold cp hr)
  rw [readCheckpoint_writeCheckpoint]
  by_cases hkey : (scope, dayOf at_) = (scope', day)
  · rw [if_pos hkey]
    cases hkey
    exact ⟨cp', rfl, hr'.perm hnew⟩
  · rw [if_neg hkey]
    obtain ⟨cp₁, hcp₁, hr₁⟩ := hE scope' day
    exact ⟨cp₁, hcp₁, hr₁.perm (hother scope' day hkey)⟩

theorem updateCheckpoint_tables (h : db.updateCheckpoint scope at_ old new = .ok db') :
    ∃ cp, db' = db.writeCheckpoint scope (dayOf at_) cp := by
  simp only [updateCheckpoint, bind_eq_ok, pure_eq_ok] at h
  obtain ⟨-, -, -, -, cp, -, rfl⟩ := h
  exact ⟨cp, rfl⟩

theorem updateCheckpoint_congr (db : Db) {db₁ db₁' : Db} (h : db₁.updateCheckpoint scope at_ old new = .ok db₁')
    (hcp : db₁.checkpoints = db.checkpoints) :
    ∃ db₂, db.updateCheckpoint scope at_ old new = .ok db₂ ∧ db₁'.checkpoints = db₂.checkpoints := by
  simp only [updateCheckpoint, bind_eq_ok, pure_eq_ok, readCheckpoint_congr hcp] at h
  obtain ⟨cp₀, h₀, cp₁, h₁, cp₂, h₂, rfl⟩ := h
  refine ⟨db.writeCheckpoint scope (dayOf at_) cp₂, ?_, ?_⟩
  · simp only [updateCheckpoint, bind_eq_ok, pure_eq_ok]
    exact ⟨cp₀, h₀, cp₁, h₁, cp₂, h₂, rfl⟩
  · simp only [writeCheckpoint, hcp]

end

/-! ## The two row writers -/

/-- The effect of `writeSettlement` on the tables. -/
structure SettledBy (db : Db) (old : AttemptRow) (s : Settlement) (db' : Db) : Prop where
  watermark : db'.watermark = db.watermark + 1
  attempts : db'.attempts = db.attempts.modify old.key (fun r => r.settle s (db.watermark + 1))
    (fun r => r.settle_key s (db.watermark + 1))
  gaps : db'.gaps = db.gaps
  adjustments : db'.adjustments = db.adjustments
  snapshots : db'.snapshots = db.snapshots
  attemptMeta : db'.attemptMeta = db.attemptMeta
  trialIndex : db'.trialIndex = db.trialIndex
  usageRecords : db'.usageRecords = db.usageRecords
  checkpoints : ∃ db₁, db.updateCheckpoint old.scope old.startedAtMs
    (some { old.contribution with watermark := 0 })
    (some (old.settle s (db.watermark + 1)).contribution) = .ok db₁ ∧
    db'.checkpoints = db₁.checkpoints
  trialMarkers : (db'.trialMarkers = db.trialMarkers ∧ (s.state.Settled → db.trialIndex.find? old.key = none)) ∨
    s.state.Settled ∧ ∃ index marker, db.trialIndex.find? old.key = some index ∧
      db.trialMarkers.find? (index.trial, old.requestId, old.attemptId) = some marker ∧
      old.scope.entitlementId = some marker.entitlementId ∧
      db'.trialMarkers = db.trialMarkers.modify marker.key (fun m => m.raiseFloor s.amount)
        (fun m => m.raiseFloor_key s.amount)

/-- The effect of `insertAttempt` on the tables. -/
structure AdmittedBy (db : Db) (a : Admission) (trial : Option MarketTrialBudget)
    (model : ExecutionModelPrice) (reserved : ℕ) (db' : Db) : Prop where
  watermark : db'.watermark = db.watermark + 1
  fits : db.attempts.rows.length + db.gaps.rows.length < maxRows
  attempts : ∃ h, db'.attempts = db.attempts.insert (a.row model reserved (db.watermark + 1)) h
  adjustments : db'.adjustments = db.adjustments
  snapshots : db'.snapshots = db.snapshots
  usageRecords : db'.usageRecords = db.usageRecords
  attemptMeta : db'.attemptMeta = db.attemptMeta.upsert
    ⟨a.requestId, a.attemptId, a.estimate.inputTokens, a.estimate.outputTokens, reserved⟩
  checkpoints : ∃ db₁, db.updateCheckpoint a.scope a.startedAtMs none
      (some (a.row model reserved (db.watermark + 1)).contribution) = .ok db₁ ∧
    ((db.gaps.find? (a.scope, a.requestId) = none ∧ db'.gaps = db.gaps ∧ db'.checkpoints = db₁.checkpoints) ∨
      ∃ g db₂, db.gaps.find? (a.scope, a.requestId) = some g ∧ db'.gaps = db.gaps.erase (a.scope, a.requestId) ∧
        db₁.updateCheckpoint a.scope g.startedAtMs (some g.contribution) none = .ok db₂ ∧
        db'.checkpoints = db₂.checkpoints)
  trialTables : (trial = none ∧ db'.trialMarkers = db.trialMarkers ∧ db'.trialIndex = db.trialIndex) ∨
    ∃ t, trial = some t ∧
      (∃ h, db'.trialMarkers = db.trialMarkers.insert
        ⟨trialAttemptPrefix a.scope t, a.requestId, a.attemptId, t.entitlementId, some 0⟩ h) ∧
      ∃ h, db'.trialIndex = db.trialIndex.insert ⟨a.requestId, a.attemptId, trialAttemptPrefix a.scope t⟩ h
  coverage : db'.coverage = db.coverage

/-- The legacy gap that the admission supersedes, as evidence of the scope and period. -/
def Db.superseded (db : Db) (a : Admission) (scope : Scope) (p : ℤ → Prop) [DecidablePred p] : List Contribution :=
  ((db.gaps.find? (a.scope, a.requestId)).toList.filter fun g =>
    g.scope = scope ∧ p g.startedAtMs).map GapRow.contribution

theorem AdmittedBy.evidence_perm {db db' : Db} {a : Admission} {trial : Option MarketTrialBudget}
    {model : ExecutionModelPrice} {reserved : ℕ} (h : AdmittedBy db a trial model reserved db')
    (scope : Scope) (p : ℤ → Prop) [DecidablePred p] :
    (db.superseded a scope p ++ db'.evidence scope p).Perm ((if a.scope = scope ∧ p a.startedAtMs then
          [(a.row model reserved (db.watermark + 1)).contribution] else []) ++
        db.evidence scope p) := by
  obtain ⟨hfresh, hattempts⟩ := h.attempts
  obtain ⟨db₁, -, hgap⟩ := h.checkpoints
  -- the attempt is in, the gap is not out yet
  let dbAdd : Db :=
    { db with attempts := db.attempts.insert (a.row model reserved (db.watermark + 1)) hfresh }
  have hins : (dbAdd.evidence scope p).Perm
      ((if a.scope = scope ∧ p a.startedAtMs then
          [(a.row model reserved (db.watermark + 1)).contribution] else []) ++
        db.evidence scope p) :=
    evidence_insert scope p (r := a.row model reserved (db.watermark + 1)) (h := hfresh) rfl rfl
  refine List.Perm.trans ?_ hins
  rcases hgap with ⟨hnone, hgaps, -⟩ | ⟨g, db₂, hg, hgaps, -⟩
  · have hE : db'.evidence scope p = dbAdd.evidence scope p := evidence_congr hattempts hgaps
    rw [Db.superseded, hnone, hE]
    exact List.Perm.refl _
  · have herase : (dbAdd.evidence scope p).Perm
        ((if g.scope = scope ∧ p g.startedAtMs then [g.contribution] else []) ++
          db'.evidence scope p) := evidence_eraseGap scope p hg hattempts hgaps
    refine List.Perm.trans (List.Perm.of_eq ?_) herase.symm
    rw [Db.superseded, hg]
    by_cases hcond : g.scope = scope ∧ p g.startedAtMs <;> simp [hcond]

section
variable {db db' : Db}

variable {old : AttemptRow}

theorem raiseTrialFloor_cases {amount : ℕ} (h : db.raiseTrialFloor old amount = .ok db') :
    (db' = db ∧ db.trialIndex.find? old.key = none) ∨
      ∃ index marker, db.trialIndex.find? old.key = some index ∧
        db.trialMarkers.find? (index.trial, old.requestId, old.attemptId) = some marker ∧
        old.scope.entitlementId = some marker.entitlementId ∧
        db' = { db with
          trialMarkers := db.trialMarkers.modify marker.key (fun m => m.raiseFloor amount)
            (fun m => m.raiseFloor_key amount) } := by
  simp only [raiseTrialFloor, bind_eq_ok] at h
  obtain ⟨found, hread, h⟩ := h
  unfold readTrialAttempt at hread
  split at hread
  · rename_i hindex
    cases hread
    cases h
    exact .inl ⟨rfl, hindex⟩
  · rename_i index hindex
    simp only [bind_eq_ok, context_eq_ok, pure_eq_ok] at hread
    obtain ⟨marker, hmarker, rfl⟩ := hread
    simp only [bind_eq_ok, ensure_eq_ok, pure_eq_ok] at h
    obtain ⟨-, hent, h⟩ := h
    exact .inr ⟨index, marker, hindex, hmarker, hent, h.symm⟩

theorem settlementFloor_cases {s : Settlement}
    (h : (if s.state.Settled then db.raiseTrialFloor old s.amount else pure db) = .ok db') :
    ∃ markers, db' = { db with trialMarkers := markers } ∧
      ((markers = db.trialMarkers ∧ (s.state.Settled → db.trialIndex.find? old.key = none)) ∨
        s.state.Settled ∧ ∃ index marker, db.trialIndex.find? old.key = some index ∧
          db.trialMarkers.find? (index.trial, old.requestId, old.attemptId) = some marker ∧
          old.scope.entitlementId = some marker.entitlementId ∧
          markers = db.trialMarkers.modify marker.key (fun m => m.raiseFloor s.amount)
            (fun m => m.raiseFloor_key s.amount)) := by
  split at h
  · rename_i hsettled
    rcases raiseTrialFloor_cases h with ⟨rfl, hnone⟩ | ⟨index, marker, hi, hm, he, rfl⟩
    · exact ⟨_, rfl, .inl ⟨rfl, fun _ => hnone⟩⟩
    · exact ⟨_, rfl, .inr ⟨hsettled, index, marker, hi, hm, he, rfl⟩⟩
  · rename_i hsettled
    cases h
    exact ⟨_, rfl, .inl ⟨rfl, fun hs => absurd hs hsettled⟩⟩

theorem writeSettlement_spec {s : Settlement} (h : db.writeSettlement old s = .ok db') : SettledBy db old s db' := by
  simp only [writeSettlement, bind_eq_ok, pure_eq_ok] at h
  obtain ⟨db₀, hfloor, ⟨db₁, mark⟩, hmark, db₂, hcp, hdb'⟩ := h
  obtain ⟨markers, rfl, hmarkers⟩ := settlementFloor_cases hfloor
  obtain ⟨rfl, rfl⟩ := nextWatermark_eq_ok hmark
  obtain ⟨db₃, hupdate, hcps⟩ := updateCheckpoint_congr db hcp rfl
  obtain ⟨cp, rfl⟩ := updateCheckpoint_tables hcp
  split at hdb' <;> subst hdb' <;> exact ⟨rfl, rfl, rfl, rfl, rfl, rfl, rfl, rfl, ⟨db₃, hupdate, hcps⟩, hmarkers⟩

theorem removeGap_cases {scope : Scope} {requestId : String} (h : db.removeGap scope requestId = .ok db') :
    (db' = db ∧ db.gaps.find? (scope, requestId) = none) ∨
      ∃ g db₁, db.gaps.find? (scope, requestId) = some g ∧
        db.updateCheckpoint scope g.startedAtMs (some g.contribution) none = .ok db₁ ∧
        db' = { db₁ with gaps := db₁.gaps.erase (scope, requestId) } := by
  unfold removeGap at h
  split at h
  · rename_i hnone
    cases h
    exact .inl ⟨rfl, hnone⟩
  · rename_i g hg
    simp only [bind_eq_ok, pure_eq_ok] at h
    obtain ⟨db₁, hupdate, rfl⟩ := h
    exact .inr ⟨g, db₁, hg, hupdate, rfl⟩

theorem insertTrialMarker_cases {a : Admission} {trial : Option MarketTrialBudget}
    (h : trial.elim (pure db) (db.insertTrialMarker a) = .ok db') :
    ∃ markers index, db' = { db with trialMarkers := markers, trialIndex := index } ∧
      ((trial = none ∧ markers = db.trialMarkers ∧ index = db.trialIndex) ∨ ∃ t, trial = some t ∧
          (∃ h, markers = db.trialMarkers.insert
            ⟨trialAttemptPrefix a.scope t, a.requestId, a.attemptId, t.entitlementId, some 0⟩ h) ∧
          ∃ h, index = db.trialIndex.insert ⟨a.requestId, a.attemptId, trialAttemptPrefix a.scope t⟩ h) := by
  cases trial with
  | none =>
    simp only [elim_none, pure_eq_ok] at h
    subst h
    exact ⟨_, _, rfl, .inl ⟨rfl, rfl, rfl⟩⟩
  | some t =>
    simp only [elim_some, insertTrialMarker, bind_eq_ok, context_eq_ok, pure_eq_ok, tryInsert_eq_some] at h
    obtain ⟨markers, ⟨hm, rfl⟩, index, ⟨hi, rfl⟩, rfl⟩ := h
    exact ⟨_, _, rfl, .inr ⟨t, rfl, ⟨hm, rfl⟩, hi, rfl⟩⟩

theorem insertAttempt_spec {a : Admission} {trial : Option MarketTrialBudget}
    {model : ExecutionModelPrice} {reserved : ℕ} (h : db.insertAttempt a trial model reserved = .ok db') :
    AdmittedBy db a trial model reserved db' := by
  simp only [insertAttempt, bind_eq_ok, context_eq_ok, ensure_eq_ok, tryInsert_eq_some] at h
  obtain ⟨⟨db₁, mark⟩, hmark, -, hfits, attempts, ⟨hfresh, rfl⟩, db₂, htrial, db₃, hcp, hgap⟩ := h
  obtain ⟨rfl, rfl⟩ := nextWatermark_eq_ok hmark
  obtain ⟨markers, index, rfl, hmarkers⟩ := insertTrialMarker_cases htrial
  obtain ⟨db₄, hupdate, hcps⟩ := updateCheckpoint_congr db hcp rfl
  obtain ⟨cp, rfl⟩ := updateCheckpoint_tables hcp
  rcases removeGap_cases hgap with ⟨rfl, hnone⟩ | ⟨g, db₅, hg, hremove, rfl⟩
  · exact ⟨rfl, hfits, ⟨hfresh, rfl⟩, rfl, rfl, rfl, rfl, ⟨db₄, hupdate, .inl ⟨hnone, rfl, hcps⟩⟩, hmarkers, rfl⟩
  · obtain ⟨db₆, hremove', hcps'⟩ := updateCheckpoint_congr db₄ hremove hcps
    obtain ⟨cp', rfl⟩ := updateCheckpoint_tables hremove
    exact ⟨rfl, hfits, ⟨hfresh, rfl⟩, rfl, rfl, rfl, rfl,
      ⟨db₄, hupdate, .inr ⟨g, db₆, hg, rfl, hremove', hcps'⟩⟩, hmarkers, rfl⟩

end

end CcSwitchServer.ValueQuota
