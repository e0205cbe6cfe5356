import CcSwitchServer.ValueQuota.Consistency

/-! # The status of a window is a plain sum

In a consistent ledger the status of a window adds up every metered row once.
-/

namespace CcSwitchServer.ValueQuota
open Foundations ValuePricing Usage Std List List.Perm Db AttemptRow Contribution Sample

/-! ## Whole days and edges -/

namespace Window
variable (w : Window)

theorem inFullDays_dayOf (at_ : ℤ) : w.InFullDays (dayOf at_) ↔ w.InFullDays at_ := by
  simp only [InFullDays, fullFrom, fullUntil, dayOf, dayMs]
  omega

theorem InFullDays.meters {w : Window} {at_ : ℤ} (h : w.InFullDays at_) : w.Meters at_ := by
  simp only [InFullDays, fullFrom, fullUntil, dayMs] at h
  refine ⟨by omega, ?_⟩
  intro e he
  rw [Option.mem_def] at he
  rw [he, Option.getD_some] at h
  omega

theorem meters_iff (at_ : ℤ) : w.Meters at_ ↔ w.InFullDays at_ ∨ w.AtEdges at_ := by
  constructor
  · intro h
    by_cases hfull : w.InFullDays at_
    · exact .inl hfull
    · exact .inr ⟨h, hfull⟩
  · rintro (h | h)
    · exact h.meters
    · exact h.1

end Window

section
variable (db : Db) (scope : Scope) (w : Window)

private theorem filter_or_perm {α : Type} (xs : List α) (p q : α → Prop) [DecidablePred p]
    [DecidablePred q] (h : ∀ x, p x → ¬q x) :
    (xs.filter fun x => p x ∨ q x).Perm (xs.filter p ++ xs.filter q) := by
  have hsplit := filter_append_perm p (xs.filter fun x => p x ∨ q x)
  rw [filter_filter, filter_filter] at hsplit
  refine hsplit.symm.trans (append (of_eq ?_) (of_eq ?_))
  · apply filter_congr
    intro x _
    by_cases hp : p x <;> simp [hp]
  · apply filter_congr
    intro x _
    by_cases hp : p x
    · simp [hp, h x hp]
    · simp [hp]

theorem attemptsWhere_meters_perm : (db.attemptsWhere scope w.Meters).Perm
    (db.attemptsWhere scope w.InFullDays ++ db.attemptsWhere scope w.AtEdges) := by
  refine List.Perm.trans (List.Perm.of_eq ?_) (filter_or_perm db.attempts.rows
    (fun r => r.scope = scope ∧ w.InFullDays r.startedAtMs)
    (fun r => r.scope = scope ∧ w.AtEdges r.startedAtMs) (fun r h h' => h'.2.2 h.2))
  apply List.filter_congr
  intro r _
  rw [decide_eq_decide, w.meters_iff, and_or_left]

theorem gapsWhere_meters_perm : (db.gapsWhere scope w.Meters).Perm
    (db.gapsWhere scope w.InFullDays ++ db.gapsWhere scope w.AtEdges) := by
  refine List.Perm.trans (List.Perm.of_eq ?_) (filter_or_perm db.gaps.rows
    (fun g => g.scope = scope ∧ w.InFullDays g.startedAtMs)
    (fun g => g.scope = scope ∧ w.AtEdges g.startedAtMs) (fun g h h' => h'.2.2 h.2))
  apply List.filter_congr
  intro g _
  rw [decide_eq_decide, w.meters_iff, and_or_left]

end

/-! ## The aggregate -/

section
variable {db : Db} (scope : Scope) (w : Window)

theorem mem_fullDays {day : ℤ} : day ∈ db.fullDays scope w ↔
    w.InFullDays day ∧ ∃ row, db.checkpoints.find? (scope, day) = some row := by
  simp only [fullDays, mem_map, mem_filter, decide_eq_true_eq]
  constructor
  · rintro ⟨row, ⟨hmem, rfl, hfull⟩, rfl⟩
    exact ⟨hfull, row, Table.find?_of_mem hmem⟩
  · rintro ⟨hfull, row, hrow⟩
    have hkey := Table.find?_key hrow
    simp only [CheckpointRow.key, Prod.mk.injEq] at hkey
    exact ⟨row, ⟨Table.find?_mem hrow, hkey.1, hkey.2 ▸ hfull⟩, hkey.2⟩

theorem fullDays_nodup : (db.fullDays scope w).Nodup := by
  rw [fullDays, List.Nodup, pairwise_map, pairwise_filter]
  refine (pairwise_map.mp db.checkpoints.nodup).imp ?_
  intro c c' hne hc hc' hday
  simp only [decide_eq_true_eq] at hc hc'
  refine hne ?_
  simp only [CheckpointRow.key, Prod.mk.injEq]
  exact ⟨hc.1.trans hc'.1.symm, hday⟩

section
variable (h : Consistent db)
include h

theorem Consistent.exists_checkpoint {day : ℤ} (hne : db.dayEvidence scope day ≠ []) :
    ∃ row, db.checkpoints.find? (scope, day) = some row := by
  obtain ⟨cp, hcp, hr⟩ := h.books scope day
  cases hfind : db.checkpoints.find? (scope, day) with
  | some row => exact ⟨row, rfl⟩
  | none =>
    simp only [readCheckpoint, hfind, pure_eq_ok] at hcp
    exact absurd (hcp ▸ hr).eq_nil hne

theorem Consistent.fullDays_rows {α : Type} (rows : List α) (ofScope : α → Scope) (started : α → ℤ)
    (hevidence : ∀ r ∈ rows, ofScope r = scope → db.dayEvidence scope (dayOf (started r)) ≠ []) :
    (rows.filter fun r => ofScope r = scope ∧ w.InFullDays (started r)).Perm ((db.fullDays scope w).flatMap fun day =>
      rows.filter fun r => ofScope r = scope ∧ dayOf (started r) = day) := by
  have hfib := filter_perm_flatMap_fibers (fun r => dayOf (started r))
    (db.fullDays scope w) (fullDays_nodup scope w) (rows.filter fun r => ofScope r = scope)
  simp only [filter_filter, ← Bool.decide_and, and_comm] at hfib ⊢
  refine List.Perm.trans (List.Perm.of_eq ?_) hfib
  apply List.filter_congr
  intro r hr
  rw [decide_eq_decide]
  refine and_congr_right fun hscope => ?_
  rw [mem_fullDays, w.inFullDays_dayOf]
  exact ⟨fun hfull => ⟨hfull, h.exists_checkpoint scope (hevidence r hr hscope)⟩, And.left⟩

theorem Consistent.fullDays_attempts :
    (db.attemptsWhere scope w.InFullDays).Perm ((db.fullDays scope w).flatMap fun day =>
      db.attemptsWhere scope fun at_ => dayOf at_ = day) := by
  refine h.fullDays_rows scope w db.attempts.rows _ AttemptRow.startedAtMs fun r hr hscope => ?_
  refine ne_nil_of_mem (a := r.contribution) (mem_append_left _ ?_)
  exact mem_map_of_mem (mem_filter.mpr ⟨hr, by simp [hscope]⟩)

theorem Consistent.fullDays_gaps :
    (db.gapsWhere scope w.InFullDays).Perm ((db.fullDays scope w).flatMap fun day =>
      db.gapsWhere scope fun at_ => dayOf at_ = day) := by
  refine h.fullDays_rows scope w db.gaps.rows _ GapRow.startedAtMs fun g hg hscope => ?_
  refine ne_nil_of_mem (a := g.contribution) (mem_append_right _ ?_)
  exact mem_map_of_mem (mem_filter.mpr ⟨hg, by simp [hscope]⟩)

theorem Consistent.fullDays_evidence :
    (db.evidence scope w.InFullDays).Perm ((db.fullDays scope w).flatMap fun day => db.dayEvidence scope day) := by
  have ha := (h.fullDays_attempts scope w).map contribution
  have hg := (h.fullDays_gaps scope w).map GapRow.contribution
  rw [map_flatMap] at ha hg
  exact (ha.append hg).trans (flatMap_append_perm _ _ _)

theorem Consistent.length_le (p : ℤ → Prop) [DecidablePred p] :
    (db.evidence scope p).length ≤ maxRows :=
  (length_evidence_le db scope p).trans h.fits

end

theorem maxRows_lt_u64Max : maxRows < u64Max := by
  decide

theorem Consistent.mergeFullDays (h : Consistent db) :
    Tallies (db.mergeFullDays scope w) (db.evidence scope w.InFullDays) := by
  have hlen := h.length_le scope w.InFullDays
  have hperm := h.fullDays_evidence scope w
  have hmax := maxRows_lt_u64Max
  have hfold : Tallies (db.mergeFullDays scope w)
      ([] ++ (db.fullDays scope w).flatMap fun day => db.dayEvidence scope day) := by
    refine Tallies.foldlM u64Max (db.fullDays scope w) ?_ Represents.empty ?_
    · intro cp cs day _ hr hn
      obtain ⟨cp', hcp', hr'⟩ := h.books scope day
      rw [hcp']
      exact Tallies.merge hr hr' hn
    · rw [length_nil, ← hperm.length_eq]
      omega
  exact hfold.perm hperm.symm

end

/-! ## Sums over the metered attempts -/

namespace Db

/-- The plain sum over the rows of the window. -/
def meteredUsage (db : Db) (scope : Scope) (w : Window) : ℕ := ((db.attemptsWhere scope w.Meters).map usagePicos).sum

def meteredRisk (db : Db) (scope : Scope) (w : Window) : ℕ :=
  ((db.attemptsWhere scope w.Meters).map pendingRiskPicos).sum

def manualOffset (db : Db) (scope : Scope) (windowId : String) : ℕ :=
  ((db.lastAdjustment scope windowId).map AdjustmentRow.offsetPicos).getD 0

end Db

section
variable {db : Db} (scope : Scope) (w : Window)

theorem sum_map_zero {α : Type} (xs : List α) (f : α → ℕ) (hf : ∀ x, f x = 0) : (xs.map f).sum = 0 := by
  induction xs with
  | nil => rfl
  | cons x xs ih => rw [map_cons, sum_cons, hf, ih]

theorem sum_amount_evidence (p : ℤ → Prop) [DecidablePred p] :
    ((db.evidence scope p).map amount).sum = ((db.attemptsWhere scope p).map usagePicos).sum := by
  rw [evidence, map_append, sum_append, map_map, map_map,
    sum_map_zero _ (amount ∘ GapRow.contribution) (fun g => rfl), Nat.add_zero]
  rfl

theorem sum_risk_evidence (p : ℤ → Prop) [DecidablePred p] :
    ((db.evidence scope p).map risk).sum = ((db.attemptsWhere scope p).map pendingRiskPicos).sum := by
  rw [evidence, map_append, sum_append, map_map, map_map,
    sum_map_zero _ (risk ∘ GapRow.contribution) (fun g => rfl), Nat.add_zero]
  rfl

def Db.aggregated (db : Db) (scope : Scope) (w : Window) : List Contribution :=
  db.evidence scope w.InFullDays ++ (db.attemptsWhere scope w.AtEdges).map contribution

theorem sum_amount_aggregated : ((db.aggregated scope w).map amount).sum = db.meteredUsage scope w := by
  rw [aggregated, map_append, sum_append, sum_amount_evidence, map_map,
    meteredUsage, ((attemptsWhere_meters_perm db scope w).map _).sum_eq, map_append, sum_append]
  rfl

theorem sum_risk_aggregated : ((db.aggregated scope w).map risk).sum = db.meteredRisk scope w := by
  rw [aggregated, map_append, sum_append, sum_risk_evidence, map_map,
    meteredRisk, ((attemptsWhere_meters_perm db scope w).map _).sum_eq, map_append, sum_append]
  rfl

theorem fits_aggregated : Fits (db.aggregated scope w) ↔
    db.meteredUsage scope w ≤ i128Max ∧ db.meteredRisk scope w ≤ i128Max := by
  rw [Fits, sum_amount_aggregated, sum_risk_aggregated]

variable (h : Consistent db)
include h

theorem Consistent.edges {cp : Checkpoint} (hr : Represents cp (db.evidence scope w.InFullDays)) :
    Tallies ((db.attemptsWhere scope w.AtEdges).foldlM
      (fun cp r => cp.change r.contribution true) cp) (db.aggregated scope w) := by
  have hmax := maxRows_lt_u64Max
  have hlen : (db.aggregated scope w).length ≤ maxRows := by
    have hall := h.length_le scope w.Meters
    have ha := (attemptsWhere_meters_perm db scope w).length_eq
    have hg := (gapsWhere_meters_perm db scope w).length_eq
    simp only [aggregated, evidence, length_append, length_map] at *
    omega
  have hflat : ((db.attemptsWhere scope w.AtEdges).flatMap fun r => [r.contribution]) =
      (db.attemptsWhere scope w.AtEdges).map contribution := by
    rw [← map_eq_flatMap]
  have hfold := Tallies.foldlM (f := fun cp r => cp.change r.contribution true)
    (g := fun r : AttemptRow => [r.contribution]) maxRows (db.attemptsWhere scope w.AtEdges)
    (fun cp cs r _ hr hn => by
      rw [length_singleton] at hn
      exact (Tallies.change hr (by omega)).perm (perm_append_singleton _ _).symm) hr
    (by rw [hflat, ← length_append]; exact hlen)
  rwa [hflat] at hfold

/-- Whole days from their checkpoints and two edges from the rows are every row once. -/
theorem Consistent.aggregate :
    (∃ cp, db.aggregate scope w = .ok cp ∧ cp.amount = db.meteredUsage scope w ∧ cp.risk = db.meteredRisk scope w) ∨
    db.aggregate scope w = .error .checkpointOverflow ∧
      ¬(db.meteredUsage scope w ≤ i128Max ∧ db.meteredRisk scope w ≤ i128Max) := by
  have hmax := maxRows_lt_u64Max
  rcases h.mergeFullDays scope w with ⟨cp, hmerge, hr⟩ | ⟨hmerge, hfit⟩
  · have hcount := hr.count_eq (by have := h.length_le scope w.InFullDays; omega)
    have hlen : (db.attemptsWhere scope w.InFullDays).length +
        (db.gapsWhere scope w.InFullDays).length = (db.evidence scope w.InFullDays).length := by
      simp only [evidence, length_append, length_map]
    have hhead : db.aggregate scope w =
        ((db.attemptsWhere scope w.AtEdges).foldlM (fun cp r => cp.change r.contribution true) cp >>=
          fun cp => pure (db.addEdgeGaps scope w cp)) := by
      rw [Db.aggregate, hmerge, ok_bind, hcount, ok_bind, ensure_of hlen, ok_bind]
    rw [hhead]
    rcases h.edges scope w hr with ⟨cp', hedges, hr'⟩ | ⟨hedges, hfit⟩
    · refine .inl ⟨db.addEdgeGaps scope w cp', by rw [hedges]; rfl, ?_, ?_⟩
      · rw [← sum_amount_aggregated, ← hr'.amount_eq, addEdgeGaps]
        split <;> rfl
      · rw [← sum_risk_aggregated, ← hr'.risk_eq, addEdgeGaps]
        split <;> rfl
    · rw [fits_aggregated] at hfit
      exact .inr ⟨by rw [hedges]; rfl, hfit⟩
  · refine .inr ⟨by simp only [Db.aggregate, hmerge]; rfl, fun hfit' => hfit ?_⟩
    exact ((fits_aggregated scope w).mpr hfit').of_append

theorem Consistent.statusInTx_ok {st : QuotaStatus} (hst : db.statusInTx scope w = .ok st) :
    st.observedPicos = db.meteredUsage scope w ∧ st.pendingRiskPicos = db.meteredRisk scope w ∧
      st.manualOffsetPicos = db.manualOffset scope w.id ∧
      st.usedPicos = st.observedPicos + st.manualOffsetPicos := by
  simp only [statusInTx, bind_eq_ok, context_eq_ok, checkedAdd_eq_some, pure_eq_ok] at hst
  obtain ⟨-, -, key, hkey, -, -, -, -, cp, hcp, used, ⟨-, rfl⟩, rfl⟩ := hst
  obtain rfl := Scope.key_eq hkey
  rcases h.aggregate key w with ⟨cp', hcp', hamount, hrisk⟩ | ⟨herr, -⟩
  · rw [hcp] at hcp'
    cases hcp'
    exact ⟨hamount, hrisk, rfl, rfl⟩
  · rw [hcp] at herr
    cases herr

theorem Consistent.statusInTx_ne_corrupt : db.statusInTx scope w ≠ .error .checkpointCorrupt := by
  intro herr
  rw [statusInTx, bind_eq_error] at herr
  rcases herr with herr | ⟨-, -, herr⟩
  · simp only [Window.validate, bind_eq_error, ensure_eq_error, reduceCtorEq, and_false, false_or,
      exists_false] at herr
  rw [bind_eq_error] at herr
  rcases herr with herr | ⟨key, -, herr⟩
  · simp only [Scope.key, bind_eq_error, ensure_eq_error, reduceCtorEq, and_false, false_or,
      exists_false, pure_eq_error] at herr
  simp only [bind_eq_error, ensure_eq_error, context_eq_error, reduceCtorEq, and_false, false_or] at herr
  obtain ⟨-, -, -, -, herr⟩ := herr
  rcases herr with hagg | ⟨cp, -, hused⟩
  · rcases h.aggregate key w with ⟨cp, hcp, -⟩ | ⟨hover, -⟩
    · rw [hcp] at hagg
      cases hagg
    · rw [hover] at hagg
      cases hagg
  · obtain ⟨used, -, hpure⟩ := hused
    cases hpure

theorem Consistent.statusInTx_total (hwindow : w.validate = .ok ())
    (hscope : scope.key = .ok scope) (hcovered : (db.collectedFromMs scope).any (· ≤ w.meteredStartMs) = true)
    (hrange : w.meteredStartMs + (dayMs - 1) ≤ i64Max)
    (hused : db.meteredUsage scope w + db.manualOffset scope w.id ≤ i128Max)
    (hrisk : db.meteredRisk scope w ≤ i128Max) : ∃ st, db.statusInTx scope w = .ok st := by
  rcases h.aggregate scope w with ⟨cp, hcp, hamount, -⟩ | ⟨-, hfit⟩
  · have hadd : checkedAdd cp.amount (db.manualOffset scope w.id) = some (cp.amount + db.manualOffset scope w.id) :=
      checkedAdd_eq_some.mpr ⟨by rw [hamount]; exact hused, rfl⟩
    simp only [manualOffset] at hadd
    rw [statusInTx, hwindow, ok_bind, hscope, ok_bind, ensure_of hcovered, ok_bind,
      ensure_of hrange, ok_bind, hcp, ok_bind]
    simp only [hadd, context, ok_bind]
    exact ⟨_, rfl⟩
  · exact absurd ⟨by omega, hrisk⟩ hfit

end

/-! ## Every reachable ledger -/

/-- In every ledger reachable from the empty schema the stored checkpoint of every scope and day is
the fold of the rows of that day, and the status of a window is the plain sum over the attempts that
the window meters; it never reports a corrupt checkpoint, and it fails only for an invalid or
uncovered window or when an exact sum leaves the range of `i128`. -/
theorem status_eq_plain_sum (hash : PricingSnapshot → String) (ops : List Op) (scope : Scope) :
    let db := run (step hash) empty ops
    (∀ day, ∃ cp, db.readCheckpoint scope day = .ok cp ∧
      Represents cp (db.evidence scope fun at_ => dayOf at_ = day)) ∧
    ∀ w, db.statusInTx scope w ≠ .error .checkpointCorrupt ∧
      (∀ st, db.statusInTx scope w = .ok st → st.observedPicos = ((db.attempts.rows.filter fun r => r.scope = scope ∧
          w.Meters r.startedAtMs).map usagePicos).sum ∧
        st.pendingRiskPicos = ((db.attempts.rows.filter fun r => r.scope = scope ∧
          w.Meters r.startedAtMs).map pendingRiskPicos).sum) ∧
      (w.validate = .ok () → scope.key = .ok scope →
        (db.collectedFromMs scope).any (· ≤ w.meteredStartMs) = true → w.meteredStartMs + (dayMs - 1) ≤ i64Max →
        db.meteredUsage scope w + db.manualOffset scope w.id ≤ i128Max →
        db.meteredRisk scope w ≤ i128Max → ∃ st, db.statusInTx scope w = .ok st) := by
  intro db
  have h : Consistent db := Consistent.empty.run ops
  refine ⟨h.books scope, fun w => ⟨h.statusInTx_ne_corrupt scope w, ?_, ?_⟩⟩
  · intro st hst
    obtain ⟨hobserved, hpending, -⟩ := h.statusInTx_ok scope w hst
    exact ⟨hobserved, hpending⟩
  · exact h.statusInTx_total scope w

def Sample.twoDays : List Op := opening ++ [.admission (admission "a" 5 100) none,
  .settle (observation "a" 1 .final (some 70)), .admission (admission "b" 86400005 30) none]

theorem status_eq_plain_sum_twoDays :
    ∃ st, (run (step hash) empty twoDays).statusInTx scope window =
      .ok st ∧ st.observedPicos = 70 ∧ st.pendingRiskPicos = 30 := by
  obtain ⟨-, hstatus⟩ := status_eq_plain_sum hash twoDays scope
  obtain ⟨-, hsum, htotal⟩ := hstatus window
  obtain ⟨st, hst⟩ := htotal (by decide) (by decide) (by decide) (by decide) (by decide) (by decide)
  obtain ⟨hobserved, hpending⟩ := hsum st hst
  exact ⟨st, hst, hobserved.trans (by decide), hpending.trans (by decide)⟩

end CcSwitchServer.ValueQuota
