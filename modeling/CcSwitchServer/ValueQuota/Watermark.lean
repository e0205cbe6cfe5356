import CcSwitchServer.ValueQuota.Balance

/-! # The order of projections

The Router orders the projections of a window by its usage watermark alone.
-/

namespace CcSwitchServer.ValueQuota
open Foundations ValuePricing Usage Db List Option Table Sample

namespace Db

def adjustmentMark (db : Db) (scope : Scope) (windowId : String) : ℕ :=
  ((db.lastAdjustment scope windowId).map AdjustmentRow.watermark).getD 0

/-- The highest watermark of the rows that make up a balance. -/
def windowMark (db : Db) (scope : Scope) (w : Window) : ℕ :=
  max (topMark (db.evidence scope w.Meters)) (db.adjustmentMark scope w.id)

def balance (db : Db) (scope : Scope) (w : Window) : ℕ × ℕ × ℕ :=
  (db.meteredUsage scope w, db.meteredRisk scope w, db.manualOffset scope w.id)

end Db

/-! ## The reported watermark -/

section
variable {db : Db} {scope : Scope} {w : Window}

variable {n : ℕ} {cp : Checkpoint}

theorem adjustmentMark_le_iff {windowId : String} : db.adjustmentMark scope windowId ≤ n ↔
    ∀ a ∈ db.adjustments.rows, a.scope = scope → a.windowId = windowId → a.watermark ≤ n := by
  simp only [adjustmentMark, lastAdjustment]
  cases hlast : (db.adjustments.rows.filter fun a =>
      a.scope = scope ∧ a.windowId = windowId).argmax AdjustmentRow.watermark with
  | none =>
    rw [argmax_eq_none, filter_eq_nil_iff] at hlast
    simp only [map_none, getD_none, Nat.zero_le, true_iff]
    intro a ha hscope hwindow
    exact absurd (by simp [hscope, hwindow]) (hlast a ha)
  | some last =>
    have hmem := mem_filter.mp (argmax_mem hlast)
    simp only [decide_eq_true_eq] at hmem
    simp only [map_some, getD_some]
    constructor
    · intro hle a ha hscope hwindow
      refine le_trans (le_of_mem_argmax (f := AdjustmentRow.watermark) ?_ hlast) hle
      exact mem_filter.mpr ⟨ha, by simp [hscope, hwindow]⟩
    · intro hall
      exact hall last hmem.1 hmem.2.1 hmem.2.2

theorem mergeFullDays_watermark_le {days : List ℤ} {cp' : Checkpoint} (h : days.foldlM (fun aggregate day => do
      aggregate.merge (← db.readCheckpoint scope day)) cp = .ok cp') :
    cp'.watermark ≤ n ↔ cp.watermark ≤ n ∧
      ∀ day ∈ days, ∀ c, db.readCheckpoint scope day = .ok c → c.watermark ≤ n := by
  induction days generalizing cp with
  | nil =>
    cases h
    simp
  | cons day days ih =>
    rw [List.foldlM_cons, bind_eq_ok] at h
    obtain ⟨cp₁, hmerge, h⟩ := h
    rw [bind_eq_ok] at hmerge
    obtain ⟨c, hread, hmerge⟩ := hmerge
    simp only [Checkpoint.merge, bind_eq_ok, pure_eq_ok] at hmerge
    obtain ⟨amount, _, risk, _, states, _, revisions, _, rfl⟩ := hmerge
    rw [ih h, Nat.max_le, List.forall_mem_cons, and_assoc]
    refine and_congr_right fun _ => and_congr_left fun _ => ⟨?_, fun hall => hall c hread⟩
    intro hc c' hc'
    rw [hread] at hc'
    cases hc'
    exact hc

theorem edges_watermark_le {rows : List AttemptRow} {cp' : Checkpoint}
    (h : rows.foldlM (fun cp r => cp.change r.contribution true) cp = .ok cp') :
    cp'.watermark ≤ n ↔ cp.watermark ≤ n ∧ ∀ r ∈ rows, r.watermark ≤ n := by
  induction rows generalizing cp with
  | nil =>
    cases h
    simp
  | cons r rows ih =>
    rw [foldlM_cons, bind_eq_ok] at h
    obtain ⟨cp₁, hchange, h⟩ := h
    simp only [Checkpoint.change, bind_eq_ok, pure_eq_ok] at hchange
    obtain ⟨amount, _, risk, _, states, _, revisions, _, rfl⟩ := hchange
    rw [ih h, Nat.max_le, forall_mem_cons, and_assoc]
    rfl

private theorem foldl_max_le (xs : List ℕ) (a n : ℕ) : xs.foldl max a ≤ n ↔ a ≤ n ∧ ∀ x ∈ xs, x ≤ n := by
  induction xs generalizing a with
  | nil => simp
  | cons x xs ih => rw [foldl_cons, ih, Nat.max_le, forall_mem_cons, and_assoc]

theorem addEdgeGaps_watermark_le :
    (db.addEdgeGaps scope w cp).watermark ≤ n ↔
      cp.watermark ≤ n ∧ ∀ g ∈ db.gapsWhere scope w.AtEdges, g.watermark ≤ n := by
  simp only [addEdgeGaps]
  split
  · rw [Nat.max_le, foldl_max_le]
    simp
  · rename_i hlen
    have hnil : db.gapsWhere scope w.AtEdges = [] := eq_nil_of_length_eq_zero (by omega)
    simp [hnil]

theorem aggregate_watermark_le (h : db.aggregate scope w = .ok cp) :
    cp.watermark ≤ n ↔
      (∀ day ∈ db.fullDays scope w, ∀ c, db.readCheckpoint scope day = .ok c → c.watermark ≤ n) ∧
      (∀ r ∈ db.attemptsWhere scope w.AtEdges, r.watermark ≤ n) ∧
      ∀ g ∈ db.gapsWhere scope w.AtEdges, g.watermark ≤ n := by
  simp only [Db.aggregate, bind_eq_ok, pure_eq_ok] at h
  obtain ⟨cp₁, hmerge, -, -, -, -, cp₂, hedges, rfl⟩ := h
  rw [addEdgeGaps_watermark_le, edges_watermark_le hedges, mergeFullDays_watermark_le hmerge, and_assoc, and_assoc]
  simp [Checkpoint.empty]

end

/-! ## The invariant -/

/-- Every watermark is at most the counter, every checkpoint's at least that of its rows, and the
checkpoints of the window's whole days claim no more than the window's own evidence. -/
structure Marked (scope : Scope) (w : Window) (db : Db) : Prop where
  consistent : Consistent db
  attempts_le : ∀ r ∈ db.attempts.rows, r.watermark ≤ db.watermark
  gaps_le : ∀ g ∈ db.gaps.rows, g.watermark ≤ db.watermark
  adjustments_le : ∀ a ∈ db.adjustments.rows, a.watermark ≤ db.watermark
  day_le : ∀ scope day cp, db.readCheckpoint scope day = .ok cp →
    topMark (db.dayEvidence scope day) ≤ cp.watermark ∧ cp.watermark ≤ db.watermark
  full_le : ∀ day cp, w.InFullDays day → db.readCheckpoint scope day = .ok cp → cp.watermark ≤ db.windowMark scope w

variable {db : Db}

theorem topMark_evidence_le {n : ℕ} (ha : ∀ r ∈ db.attempts.rows, r.watermark ≤ n)
    (hg : ∀ g ∈ db.gaps.rows, g.watermark ≤ n) (scope : Scope) (p : ℤ → Prop) [DecidablePred p] :
    topMark (db.evidence scope p) ≤ n := by
  rw [topMark_le_iff]
  intro c hc
  rcases mem_evidence hc with ⟨r, hr, -, -, rfl⟩ | ⟨g, hgm, -, -, rfl⟩
  · exact ha r hr
  · exact hg g hgm

theorem topMark_dayEvidence_le_windowMark {scope : Scope} {w : Window} {day : ℤ}
    (hday : w.InFullDays day) : topMark (db.dayEvidence scope day) ≤ db.windowMark scope w := by
  have hmeters : ∀ at_, dayOf at_ = day → w.Meters at_ := by
    rintro at_ rfl
    exact ((w.inFullDays_dayOf at_).mp hday).meters
  refine le_trans ?_ (le_max_left _ _)
  rw [topMark_le_iff]
  intro c hc
  apply le_topMark
  rcases mem_evidence hc with ⟨r, hr, hscope, hstart, rfl⟩ | ⟨g, hg, hscope, hstart, rfl⟩
  · exact attempt_mem_evidence hr hscope (hmeters _ hstart)
  · exact gap_mem_evidence hg hscope (hmeters _ hstart)

/-! ## Order of two states -/

/-- The later state's watermark is not lower, and higher when the balance differs. -/
def Advances (scope : Scope) (w : Window) (db db' : Db) : Prop :=
  db.windowMark scope w ≤ db'.windowMark scope w ∧
    (db.balance scope w ≠ db'.balance scope w → db.windowMark scope w < db'.windowMark scope w)

theorem lastAdjustment_congr {db' : Db} (h : db'.adjustments = db.adjustments) (scope : Scope)
    (windowId : String) : db'.lastAdjustment scope windowId = db.lastAdjustment scope windowId := by
  rw [lastAdjustment, lastAdjustment, h]

namespace Advances
variable {db db' db'' : Db} {scope : Scope} {w : Window}

theorem refl (db : Db) : Advances scope w db db := ⟨le_rfl, fun h => absurd rfl h⟩

theorem trans (h : Advances scope w db db') (h' : Advances scope w db' db'') : Advances scope w db db'' := by
  refine ⟨h.1.trans h'.1, fun hne => ?_⟩
  by_cases heq : db.balance scope w = db'.balance scope w
  · exact h.1.trans_lt (h'.2 (heq ▸ hne))
  · exact (h.2 heq).trans_le h'.1

theorem of_sums (hmark : db.windowMark scope w ≤ db'.windowMark scope w)
    (hamount : ((db.evidence scope w.Meters).map Contribution.amount).sum =
      ((db'.evidence scope w.Meters).map Contribution.amount).sum)
    (hrisk : ((db.evidence scope w.Meters).map Contribution.risk).sum =
      ((db'.evidence scope w.Meters).map Contribution.risk).sum)
    (hlast : db'.lastAdjustment scope w.id = db.lastAdjustment scope w.id) :
    Advances scope w db db' := by
  refine ⟨hmark, fun hne => absurd ?_ hne⟩
  rw [sum_amount_evidence, sum_amount_evidence] at hamount
  rw [sum_risk_evidence, sum_risk_evidence] at hrisk
  simp only [balance, meteredUsage, meteredRisk, hamount, hrisk, manualOffset, hlast]

theorem of_perm (hperm : (db.evidence scope w.Meters).Perm (db'.evidence scope w.Meters))
    (hlast : db'.lastAdjustment scope w.id = db.lastAdjustment scope w.id) :
    Advances scope w db db' := by
  refine of_sums ?_ (hperm.map _).sum_eq (hperm.map _).sum_eq hlast
  rw [windowMark, windowMark, topMark_perm hperm, adjustmentMark, adjustmentMark, hlast]

theorem of_lt (h : db.windowMark scope w < db'.windowMark scope w) : Advances scope w db db' := ⟨h.le, fun _ => h⟩

end Advances

namespace Marked
variable {db db' : Db} {scope : Scope} {w : Window}

section
variable (h : Marked scope w db)
include h

theorem windowMark_le : db.windowMark scope w ≤ db.watermark :=
  max_le (topMark_evidence_le h.attempts_le h.gaps_le scope w.Meters)
    (adjustmentMark_le_iff.mpr fun a ha _ _ => h.adjustments_le a ha)

/-- The reported watermark is that of the rows. -/
theorem usageWatermark_eq {st : QuotaStatus}
    (hst : db.statusInTx scope w = .ok st) : st.usageWatermark = db.windowMark scope w := by
  simp only [Db.statusInTx, bind_eq_ok, context_eq_ok, pure_eq_ok] at hst
  obtain ⟨-, -, key, hkey, -, -, -, -, cp, hcp, used, -, rfl⟩ := hst
  obtain rfl := Scope.key_eq hkey
  show max cp.watermark (db.adjustmentMark key w.id) = _
  apply le_antisymm
  · refine max_le ?_ (le_max_right _ _)
    rw [aggregate_watermark_le hcp]
    have hmem : ∀ c ∈ db.evidence key w.Meters, c.watermark ≤ db.windowMark key w := fun c hc =>
      (le_topMark hc).trans (le_max_left _ _)
    refine ⟨fun day hday c hc => h.full_le day c ((mem_fullDays key w).mp hday).1 hc, ?_, ?_⟩
    · intro r hr
      obtain ⟨hr, hcond⟩ := List.mem_filter.mp hr
      simp only [decide_eq_true_eq] at hcond
      exact hmem r.contribution (attempt_mem_evidence hr hcond.1 hcond.2.1)
    · intro g hg
      obtain ⟨hg, hcond⟩ := List.mem_filter.mp hg
      simp only [decide_eq_true_eq] at hcond
      exact hmem g.contribution (gap_mem_evidence hg hcond.1 hcond.2.1)
  · have hagg := (aggregate_watermark_le hcp (n := cp.watermark)).mp le_rfl
    refine max_le_max ?_ le_rfl
    have hperm : (db.evidence key w.Meters).Perm
        (((db.fullDays key w).flatMap fun day => db.dayEvidence key day) ++ db.evidence key w.AtEdges) := by
      refine List.Perm.trans ?_ ((h.consistent.fullDays_evidence key w).append_right _)
      have ha := (attemptsWhere_meters_perm db key w).map AttemptRow.contribution
      have hg := (gapsWhere_meters_perm db key w).map GapRow.contribution
      rw [List.map_append] at ha hg
      refine (ha.append hg).trans ?_
      simp only [Db.evidence, List.append_assoc]
      refine List.Perm.append_left _ ?_
      rw [← List.append_assoc, ← List.append_assoc]
      exact List.perm_append_comm.append_right _
    rw [topMark_perm hperm, topMark_append]
    refine max_le ?_ ?_
    · rw [topMark_le_iff]
      intro c hc
      obtain ⟨day, hday, hc⟩ := List.mem_flatMap.mp hc
      obtain ⟨c', hc', -⟩ := h.consistent.books key day
      exact (le_topMark hc).trans ((h.day_le key day c' hc').1.trans (hagg.1 day hday c' hc'))
    · rw [topMark_le_iff]
      intro c hc
      rcases List.mem_append.mp hc with hc | hc
      · obtain ⟨r, hr, rfl⟩ := List.mem_map.mp hc
        exact hagg.2.1 r hr
      · obtain ⟨g, hg, rfl⟩ := List.mem_map.mp hc
        exact hagg.2.2 g hg

/-- How a change may leave a stored checkpoint: its watermark as it was and still high enough, or
raised to the counter together with the window, or exact. -/
theorem of_days (hc : Consistent db') (hcounter : db.watermark ≤ db'.watermark)
    (ha : ∀ r ∈ db'.attempts.rows, r.watermark ≤ db'.watermark) (hg : ∀ g ∈ db'.gaps.rows, g.watermark ≤ db'.watermark)
    (hadj : ∀ a ∈ db'.adjustments.rows, a.watermark ≤ db'.watermark)
    (hmark : db.windowMark scope w ≤ db'.windowMark scope w) (hday : ∀ s day cp', db'.readCheckpoint s day = .ok cp' →
      (∃ cp, db.readCheckpoint s day = .ok cp ∧ cp'.watermark = cp.watermark ∧
        topMark (db'.dayEvidence s day) ≤ cp.watermark) ∨ (cp'.watermark = db'.watermark ∧
        (s = scope → w.InFullDays day → db'.watermark ≤ db'.windowMark scope w)) ∨
      cp'.watermark = topMark (db'.dayEvidence s day)) : Marked scope w db' := by
  refine ⟨hc, ha, hg, hadj, ?_, ?_⟩
  · intro s day cp' hcp'
    have htop := topMark_evidence_le ha hg s fun at_ => dayOf at_ = day
    rcases hday s day cp' hcp' with ⟨cp, hcp, heq, hle⟩ | ⟨heq, -⟩ | heq
    · exact ⟨heq ▸ hle, heq ▸ (h.day_le s day cp hcp).2.trans hcounter⟩
    · exact ⟨heq ▸ htop, heq.le⟩
    · exact ⟨heq.ge, heq ▸ htop⟩
  · intro day cp' hfull hcp'
    rcases hday scope day cp' hcp' with ⟨cp, hcp, heq, -⟩ | ⟨heq, hle⟩ | heq
    · exact heq ▸ (h.full_le day cp hfull hcp).trans hmark
    · exact heq ▸ hle rfl hfull
    · exact heq ▸ topMark_dayEvidence_le_windowMark hfull

theorem congr (hwatermark : db.watermark ≤ db'.watermark)
    (hattempts : db'.attempts = db.attempts) (hgaps : db'.gaps = db.gaps)
    (hcp : db'.checkpoints = db.checkpoints) (hadjustments : db'.adjustments = db.adjustments) :
    Marked scope w db' ∧ Advances scope w db db' := by
  have hadv : Advances scope w db db' :=
    .of_perm (List.Perm.of_eq (evidence_congr hattempts hgaps).symm) (lastAdjustment_congr hadjustments scope w.id)
  refine ⟨h.of_days (h.consistent.congr hattempts hgaps hcp) hwatermark ?_ ?_ ?_ hadv.1 ?_, hadv⟩
  · rw [hattempts]
    exact fun r hr => (h.attempts_le r hr).trans hwatermark
  · rw [hgaps]
    exact fun g hg => (h.gaps_le g hg).trans hwatermark
  · rw [hadjustments]
    exact fun a ha => (h.adjustments_le a ha).trans hwatermark
  · intro s day cp' hcp'
    rw [readCheckpoint_congr hcp] at hcp'
    refine .inl ⟨cp', hcp', rfl, ?_⟩
    rw [dayEvidence, evidence_congr hattempts hgaps]
    exact (h.day_le s day cp' hcp').1

theorem settledBy {old : AttemptRow} {s : Settlement}
    (hfind : db.attempts.find? old.key = some old) (hs : SettledBy db old s db') :
    Marked scope w db' ∧ Advances scope w db db' := by
  obtain ⟨rest, hold, hnew⟩ := evidence_modify scope w.Meters hfind hs.attempts rfl rfl hs.gaps
  have hmarked : old.scope = scope → w.Meters old.startedAtMs → db.watermark + 1 ≤ db'.windowMark scope w := by
    intro hscope hmeters
    rw [if_pos ⟨hscope, hmeters⟩] at hnew
    refine le_trans ?_ (le_max_left _ _)
    rw [topMark_perm hnew]
    exact le_max_left (db.watermark + 1) (topMark rest)
  have hadv : Advances scope w db db' := by
    by_cases hcond : old.scope = scope ∧ w.Meters old.startedAtMs
    · have hlt := hmarked hcond.1 hcond.2
      exact .of_lt (lt_of_le_of_lt h.windowMark_le (by omega))
    · rw [if_neg hcond] at hold hnew
      exact .of_perm (hold.trans hnew.symm) (lastAdjustment_congr hs.adjustments scope w.id)
  obtain ⟨db₁, hupdate, hcp⟩ := hs.checkpoints
  obtain ⟨cp, cp', hread, rfl, hwm⟩ := updateCheckpoint_marks hupdate
  refine ⟨h.of_days (h.consistent.settledBy hfind hs) (by rw [hs.watermark]; omega) ?_ ?_ ?_ hadv.1 ?_, hadv⟩
  · rw [hs.attempts, hs.watermark]
    intro r hr
    obtain ⟨r₀, hr₀, rfl⟩ := mem_modify.mp hr
    split
    · exact le_rfl
    · have := h.attempts_le r₀ hr₀
      omega
  · rw [hs.gaps, hs.watermark]
    intro g hg
    have := h.gaps_le g hg
    omega
  · rw [hs.adjustments, hs.watermark]
    intro a ha
    have := h.adjustments_le a ha
    omega
  · intro sc day cp₁ hcp₁
    rw [readCheckpoint_congr hcp, readCheckpoint_writeCheckpoint] at hcp₁
    by_cases hkey : (old.scope, dayOf old.startedAtMs) = (sc, day)
    · rw [if_pos hkey] at hcp₁
      cases hkey
      cases hcp₁
      have hle := (h.day_le _ _ cp hread).2
      refine .inr (.inl ⟨?_, fun hscope hfull => ?_⟩)
      · rw [hwm, hs.watermark]
        show max (max cp.watermark 0) (db.watermark + 1) = db.watermark + 1
        omega
      · rw [hs.watermark]
        exact hmarked hscope ((w.inFullDays_dayOf _).mp hfull).meters
    · rw [if_neg hkey] at hcp₁
      refine .inl ⟨cp₁, hcp₁, rfl, ?_⟩
      rw [← topMark_perm ((dayEvidence_modify hfind hs.attempts rfl rfl hs.gaps).2 sc day hkey)]
      exact (h.day_le sc day cp₁ hcp₁).1

theorem compactOne {r : AttemptRow} {now : ℤ}
    (hfind : db.attempts.find? r.key = some r) (hc : db.compactOne r now = .ok db') :
    Marked scope w db' ∧ Advances scope w db db' := by
  have hcons := h.consistent.compactOne hfind hc
  have hattempts := compactOne_attempts hc
  simp only [Db.compactOne, bind_eq_ok, pure_eq_ok] at hc
  obtain ⟨cp, -, n, -, -, -, hdb'⟩ := hc
  have hgaps : db'.gaps = db.gaps := by rw [← hdb']; rfl
  have hcps : db'.checkpoints = db.checkpoints := by rw [← hdb']; rfl
  have hadjustments : db'.adjustments = db.adjustments := by rw [← hdb']; rfl
  have hwatermark : db'.watermark = db.watermark := by rw [← hdb']; rfl
  have hsame : ∀ (s : Scope) (p : ℤ → Prop) [DecidablePred p], (db.evidence s p).Perm (db'.evidence s p) := by
    intro s p _
    obtain ⟨rest, hold, hnew⟩ := evidence_modify s p hfind hattempts rfl rfl hgaps
    exact hold.trans hnew.symm
  have hadv : Advances scope w db db' :=
    .of_perm (hsame scope w.Meters) (lastAdjustment_congr hadjustments scope w.id)
  refine ⟨h.of_days hcons hwatermark.ge ?_ ?_ ?_ hadv.1 ?_, hadv⟩
  · rw [hattempts, hwatermark]
    intro r' hr'
    obtain ⟨r₀, hr₀, rfl⟩ := mem_modify.mp hr'
    split
    · exact h.attempts_le r₀ hr₀
    · exact h.attempts_le r₀ hr₀
  · rw [hgaps, hwatermark]
    exact h.gaps_le
  · rw [hadjustments, hwatermark]
    exact h.adjustments_le
  · intro s day cp' hcp'
    rw [readCheckpoint_congr hcps] at hcp'
    refine .inl ⟨cp', hcp', rfl, ?_⟩
    rw [dayEvidence, ← topMark_perm (hsame s fun at_ => dayOf at_ = day)]
    exact (h.day_le s day cp' hcp').1

theorem rebuild {s : Scope} {n : ℕ} (hr : db.rebuildCheckpointsInTx s = .ok (db', n)) :
    Marked scope w db' ∧ Advances scope w db db' := by
  have hcons := h.consistent.rebuild hr
  obtain ⟨⟨checkpoints, rfl⟩, hother, hscope⟩ := rebuildCheckpointsInTx_spec hr
  have hadv : Advances scope w db { db with checkpoints := checkpoints } := .of_perm (List.Perm.refl _) rfl
  refine ⟨h.of_days hcons le_rfl h.attempts_le h.gaps_le h.adjustments_le hadv.1 ?_, hadv⟩
  intro s' day cp' hcp'
  by_cases hs : s' = s
  · subst hs
    obtain ⟨cp, hcp, hexact⟩ := hscope day
    rw [hcp] at hcp'
    cases hcp'
    exact .inr (.inr hexact.watermark_eq)
  · rw [hother s' day hs] at hcp'
    exact .inl ⟨cp', hcp', rfl, (h.day_le s' day cp' hcp').1⟩

theorem adjust {a : Adjustment} {actor : String} (hc : db.insertAdjustment a actor = .ok db') :
    Marked scope w db' ∧ Advances scope w db db' := by
  simp only [insertAdjustment, bind_eq_ok, context_eq_ok, pure_eq_ok, tryInsert_eq_some] at hc
  obtain ⟨current, -, offset, -, ⟨db₁, mark⟩, hmark, -, -, adjustments, ⟨hfresh, rfl⟩, rfl⟩ := hc
  obtain ⟨rfl, rfl⟩ := nextWatermark_eq_ok hmark
  set row : AdjustmentRow := ⟨a.edit.operationId, a.scope, a.window.id, a.edit, actor, offset, db.watermark + 1⟩
  set db' : Db := { db with
    watermark := db.watermark + 1, adjustments := db.adjustments.insert row hfresh }
  have hmem : ∀ x, x ∈ db'.adjustments.rows ↔ x ∈ db.adjustments.rows ∨ x = row := fun x =>
    mem_insert (h := hfresh)
  have hadv : Advances scope w db db' := by
    by_cases hrow : a.scope = scope ∧ a.window.id = w.id
    · have hle := adjustmentMark_le_iff.mp (le_refl (db'.adjustmentMark scope w.id)) row
        ((hmem row).mpr (.inr rfl)) hrow.1 hrow.2
      have hmark : db.watermark + 1 ≤ db'.windowMark scope w := le_trans hle (le_max_right _ _)
      exact .of_lt (lt_of_le_of_lt h.windowMark_le hmark)
    · have hlast : db'.lastAdjustment scope w.id = db.lastAdjustment scope w.id := by
        show (filter _ (db.adjustments.rows ++ [row])).argmax _ = _
        rw [filter_append, filter_cons_of_neg (by simpa [row] using hrow), filter_nil, append_nil]
        rfl
      exact .of_perm (List.Perm.refl _) hlast
  refine ⟨h.of_days (h.consistent.congr rfl rfl rfl) (Nat.le_succ _) ?_ ?_ ?_ hadv.1 ?_, hadv⟩
  · intro r hr
    exact (h.attempts_le r hr).trans (Nat.le_succ _)
  · intro g hg
    exact (h.gaps_le g hg).trans (Nat.le_succ _)
  · intro x hx
    rcases (hmem x).mp hx with hx | rfl
    · exact (h.adjustments_le x hx).trans (Nat.le_succ _)
    · exact le_rfl
  · intro s day cp' hcp'
    exact .inl ⟨cp', hcp', rfl, (h.day_le s day cp' hcp').1⟩

end

end Marked

/-! ## Superseded gaps -/

/-- The gap that the admission supersedes, when the window meters it, leaves the window no lower: the
attempt starts in the window too, or another row or adjustment of the window has its watermark. -/
def GapReplaced (scope : Scope) (w : Window) (db : Db) (a : Admission) : Prop :=
  ∀ g, db.gaps.find? (a.scope, a.requestId) = some g → a.scope = scope → w.Meters g.startedAtMs →
    w.Meters a.startedAtMs ∨
    (∃ r ∈ db.attempts.rows, r.scope = scope ∧ w.Meters r.startedAtMs ∧ g.watermark ≤ r.watermark) ∨
    (∃ g' ∈ db.gaps.rows, g' ≠ g ∧ g'.scope = scope ∧ w.Meters g'.startedAtMs ∧ g.watermark ≤ g'.watermark) ∨
    ∃ x ∈ db.adjustments.rows, x.scope = scope ∧ x.windowId = w.id ∧ g.watermark ≤ x.watermark

namespace Marked
variable {db db' : Db} {scope : Scope} {w : Window} {a : Admission}
  {trial : Option MarketTrialBudget} {model : ExecutionModelPrice} {reserved : ℕ}

theorem topMark_superseded_le (hgap : GapReplaced scope w db a) (ha : AdmittedBy db a trial model reserved db')
    (hout : ¬(a.scope = scope ∧ w.Meters a.startedAtMs)) :
    topMark (db.superseded a scope w.Meters) ≤ db'.windowMark scope w := by
  rw [topMark_le_iff]
  intro c hc
  obtain ⟨g, hg, rfl⟩ := mem_map.mp hc
  obtain ⟨hg, hcond⟩ := mem_filter.mp hg
  simp only [decide_eq_true_eq, mem_toList] at hg hcond
  have hkey : g.scope = a.scope := congrArg Prod.fst (find?_key hg)
  have hscope : a.scope = scope := hkey.symm.trans hcond.1
  have hle : ∀ c ∈ db'.evidence scope w.Meters, c.watermark ≤ db'.windowMark scope w :=
    fun c hc => (le_topMark hc).trans (le_max_left _ _)
  obtain ⟨hfresh, hattempts⟩ := ha.attempts
  obtain ⟨db₁, -, ⟨hnone, -⟩ | ⟨g₁, db₂, -, hgaps, -⟩⟩ := ha.checkpoints
  · rw [hg] at hnone
    cases hnone
  rcases hgap g hg hscope hcond.2 with hin | ⟨r, hr, hs, hm, hge⟩ | ⟨g', hg', hne, hs, hm, hge⟩ | ⟨x, hx, hs, hid, hge⟩
  · exact absurd ⟨hscope, hin⟩ hout
  · refine hge.trans (hle r.contribution (attempt_mem_evidence ?_ hs hm))
    rw [hattempts]
    exact mem_insert.mpr (.inl hr)
  · refine hge.trans (hle g'.contribution (gap_mem_evidence ?_ hs hm))
    rw [hgaps, erase_rows, mem_others]
    refine ⟨hg', fun heq => hne ?_⟩
    have hfind := find?_of_mem hg'
    rw [heq, hg] at hfind
    exact (some.inj hfind).symm
  · refine hge.trans (le_trans ?_ (le_max_right _ _))
    exact adjustmentMark_le_iff.mp le_rfl x (by rw [ha.adjustments]; exact hx) hs hid

/-- An admission moves the watermark on, unless it takes a gap out of the window. -/
theorem admittedBy_advances (h : Marked scope w db) (hgap : GapReplaced scope w db a)
    (ha : AdmittedBy db a trial model reserved db') :
    Advances scope w db db' ∧ (a.scope = scope → w.Meters a.startedAtMs →
      db.watermark + 1 ≤ db'.windowMark scope w) := by
  have hlast := lastAdjustment_congr ha.adjustments scope w.id
  by_cases hin : a.scope = scope ∧ w.Meters a.startedAtMs
  · have hmark : db.watermark + 1 ≤ db'.windowMark scope w := by
      obtain ⟨hfresh, hattempts⟩ := ha.attempts
      refine le_trans (le_topMark (c := (a.row model reserved (db.watermark + 1)).contribution) ?_) (le_max_left _ _)
      refine attempt_mem_evidence ?_ hin.1 hin.2
      rw [hattempts]
      exact mem_insert.mpr (.inr rfl)
    exact ⟨.of_lt (lt_of_le_of_lt h.windowMark_le hmark), fun _ _ => hmark⟩
  · have hperm := ha.evidence_perm scope w.Meters
    rw [if_neg hin, nil_append] at hperm
    have hfree : ∀ f : Contribution → ℕ, (∀ g : GapRow, f g.contribution = 0) →
        ((db.evidence scope w.Meters).map f).sum = ((db'.evidence scope w.Meters).map f).sum := by
      intro f hf
      rw [← (hperm.map f).sum_eq, List.map_append, List.sum_append, Db.superseded, List.map_map,
        sum_map_zero _ (f ∘ GapRow.contribution) hf, Nat.zero_add]
    refine ⟨.of_sums ?_ (hfree _ fun g => rfl) (hfree _ fun g => rfl) hlast, fun hs hm => absurd ⟨hs, hm⟩ hin⟩
    refine max_le ?_ ?_
    · rw [← topMark_perm hperm, topMark_append]
      exact max_le (topMark_superseded_le hgap ha hin) (le_max_left _ _)
    · rw [adjustmentMark, ← hlast]
      exact le_max_right _ _

theorem topMark_dayEvidence_le (ha : AdmittedBy db a trial model reserved db') {s : Scope} {day : ℤ}
    (hne : (a.scope, dayOf a.startedAtMs) ≠ (s, day)) :
    topMark (db'.dayEvidence s day) ≤ topMark (db.dayEvidence s day) := by
  have hperm := ha.evidence_perm s fun at_ => dayOf at_ = day
  have hcond : ¬(a.scope = s ∧ dayOf a.startedAtMs = day) := by
    rintro ⟨rfl, rfl⟩
    exact hne rfl
  rw [if_neg hcond, nil_append] at hperm
  rw [dayEvidence, dayEvidence, ← topMark_perm hperm, topMark_append]
  exact le_max_right _ _

/-- The watermark of a stored checkpoint after an admission: the new one on the day of the attempt,
unchanged on every other day. -/
theorem admittedBy_day (h : Marked scope w db) (ha : AdmittedBy db a trial model reserved db')
    {s : Scope} {day : ℤ} {cp' : Checkpoint} (hcp' : db'.readCheckpoint s day = .ok cp') :
    ((a.scope, dayOf a.startedAtMs) = (s, day) ∧ cp'.watermark = db.watermark + 1) ∨
    (a.scope, dayOf a.startedAtMs) ≠ (s, day) ∧
      ∃ cp, db.readCheckpoint s day = .ok cp ∧ cp'.watermark = cp.watermark := by
  obtain ⟨db₁, hadd, hgap⟩ := ha.checkpoints
  obtain ⟨cp, cp₁, hread, rfl, hwm⟩ := updateCheckpoint_marks hadd
  have hnew : cp₁.watermark = db.watermark + 1 := by
    have hle := (h.day_le _ _ cp hread).2
    rw [hwm]
    show max (max cp.watermark 0) (db.watermark + 1) = db.watermark + 1
    omega
  -- the checkpoints before the gap is taken out
  have hfirst : ∀ cp₂, (db.writeCheckpoint a.scope (dayOf a.startedAtMs) cp₁).readCheckpoint s day =
      .ok cp₂ → ((a.scope, dayOf a.startedAtMs) = (s, day) ∧ cp₂.watermark = db.watermark + 1) ∨
        (a.scope, dayOf a.startedAtMs) ≠ (s, day) ∧ db.readCheckpoint s day = .ok cp₂ := by
    intro cp₂ hcp₂
    rw [readCheckpoint_writeCheckpoint] at hcp₂
    split at hcp₂
    · rename_i hkey
      cases hcp₂
      exact .inl ⟨hkey, hnew⟩
    · rename_i hkey
      exact .inr ⟨hkey, hcp₂⟩
  rcases hgap with ⟨-, -, hcps⟩ | ⟨g, db₂, hg, -, hremove, hcps⟩
  · rw [readCheckpoint_congr hcps] at hcp'
    rcases hfirst cp' hcp' with hday | ⟨hne, hread'⟩
    · exact .inl hday
    · exact .inr ⟨hne, cp', hread', rfl⟩
  · obtain ⟨cp₂, cp₃, hread₂, rfl, hwm₃⟩ := updateCheckpoint_marks hremove
    rw [readCheckpoint_congr hcps, readCheckpoint_writeCheckpoint] at hcp'
    have hgle := h.gaps_le g (find?_mem hg)
    have hwm₃ : cp₃.watermark = max cp₂.watermark g.watermark := by
      rw [hwm₃]
      exact Nat.max_zero _
    split at hcp'
    · rename_i hkey
      cases hkey
      cases hcp'
      rcases hfirst cp₂ hread₂ with ⟨hday, hmark⟩ | ⟨hne, hread'⟩
      · exact .inl ⟨hday, by rw [hwm₃, hmark]; omega⟩
      · refine .inr ⟨hne, cp₂, hread', ?_⟩
        have hgscope : g.scope = a.scope := congrArg Prod.fst (find?_key hg)
        have hmem : g.contribution ∈ db.dayEvidence a.scope (dayOf g.startedAtMs) :=
          gap_mem_evidence (find?_mem hg) hgscope rfl
        have hgcp : g.watermark ≤ cp₂.watermark := (le_topMark hmem).trans (h.day_le _ _ cp₂ hread').1
        rw [hwm₃, max_eq_left hgcp]
    · rcases hfirst cp' hcp' with hday | ⟨hne, hread'⟩
      · exact .inl hday
      · exact .inr ⟨hne, cp', hread', rfl⟩

theorem admittedBy (h : Marked scope w db) (hgap : GapReplaced scope w db a)
    (ha : AdmittedBy db a trial model reserved db') :
    Marked scope w db' ∧ Advances scope w db db' := by
  obtain ⟨hadv, hmark⟩ := h.admittedBy_advances hgap ha
  obtain ⟨hfresh, hattempts⟩ := ha.attempts
  refine ⟨h.of_days (h.consistent.admittedBy ha) (by rw [ha.watermark]; omega) ?_ ?_ ?_ hadv.1 ?_, hadv⟩
  · rw [hattempts, ha.watermark]
    intro r hr
    rcases mem_insert.mp hr with hr | rfl
    · exact (h.attempts_le r hr).trans (Nat.le_succ _)
    · exact le_rfl
  · rw [ha.watermark]
    intro g hg
    refine (h.gaps_le g ?_).trans (Nat.le_succ _)
    obtain ⟨db₁, -, ⟨-, hgaps, -⟩ | ⟨g₁, db₂, -, hgaps, -⟩⟩ := ha.checkpoints
    · exact hgaps ▸ hg
    · rw [hgaps, erase_rows, mem_others] at hg
      exact hg.1
  · rw [ha.adjustments, ha.watermark]
    exact fun x hx => (h.adjustments_le x hx).trans (Nat.le_succ _)
  · intro s day cp' hcp'
    rcases h.admittedBy_day ha hcp' with ⟨hkey, hwm⟩ | ⟨hne, cp, hread, hwm⟩
    · cases hkey
      rw [ha.watermark]
      exact .inr (.inl ⟨hwm, fun hs hfull => hmark hs ((w.inFullDays_dayOf _).mp hfull).meters⟩)
    · exact .inl ⟨cp, hread, hwm, (topMark_dayEvidence_le ha hne).trans (h.day_le s day cp hread).1⟩

/-- Checkpoints never claim more than the rows behind them. -/
theorem change {c : Change} (h : Marked scope w db) (hc : c.Step db db')
    (hgap : ∀ a trial, c = .admission a trial → GapReplaced scope w db a) :
    Marked scope w db' ∧ Advances scope w db db' := by
  cases c with
  | admission a trial =>
    obtain ⟨model, reserved, -, hins⟩ := hc
    exact h.admittedBy (hgap a trial rfl) (insertAttempt_spec hins)
  | observe o =>
    obtain ⟨old, s, ⟨hold, -⟩, hw⟩ := hc
    exact h.settledBy (find?_of_mem (find?_mem hold)) (writeSettlement_spec hw)
  | outcome requestId attemptId result onlyUnobserved =>
    obtain ⟨old, hold, -, -, hw⟩ := hc
    exact h.settledBy (find?_of_mem (find?_mem hold)) (writeSettlement_spec hw)
  | compact r now => exact h.compactOne hc.1 hc.2.2.2
  | rebuild scope =>
    obtain ⟨n, hr⟩ := hc
    exact h.rebuild hr
  | raise floor =>
    simp only [Change.Step, raiseWatermarkFloor, bind_eq_ok, pure_eq_ok] at hc
    obtain ⟨-, -, rfl⟩ := hc
    exact h.congr (le_max_left _ _) rfl rfl rfl rfl
  | adjust a actor => exact h.adjust hc
  | record log =>
    simp only [Change.Step, upsertUsageRow, bind_eq_ok, pure_eq_ok] at hc
    obtain ⟨-, -, -, -, rfl⟩ := hc
    exact h.congr le_rfl rfl rfl rfl rfl
  | install row =>
    obtain ⟨-, rfl⟩ := hc
    exact h.congr le_rfl rfl rfl rfl rfl
  | aux => exact h.congr hc.watermark.ge hc.attempts hc.gaps hc.checkpoints hc.adjustments

end Marked

/-! ## Runs -/

/-- An admission that inserts its attempt replaces the gap that it removes from the window. -/
def Op.KeepsMark (scope : Scope) (w : Window) (db : Db) : Op → Prop
  | .admission a _ | .admitMarket a _ _ =>
    db.attempt? a.requestId a.attemptId = none → GapReplaced scope w db a
  | _ => True

section
variable {db db' : Db} {scope : Scope} {w : Window}

theorem attempt?_admission {a : Admission} {trial : Option MarketTrialBudget}
    (h : Change.Step (.admission a trial) db db') :
    db'.attempt? a.requestId a.attemptId ≠ none := by
  obtain ⟨model, reserved, -, hins⟩ := h
  obtain ⟨hfresh, hattempts⟩ := (insertAttempt_spec hins).attempts
  rw [attempt?, hattempts, find?_insert,
    if_pos (show (a.row model reserved (db.watermark + 1)).key = (a.requestId, a.attemptId) from rfl)]
  exact some_ne_none _

theorem Op.KeepsMark.change {op : Op} {c : Change} (h : op.KeepsMark scope w db)
    (hallow : op.Allows db c) (hc : c.Step db db') :
    op.KeepsMark scope w db' ∧ ∀ a trial, c = .admission a trial → GapReplaced scope w db a := by
  constructor
  · cases op with
    | admission a trial =>
      obtain rfl := hallow
      exact fun hnone => absurd hnone (attempt?_admission hc)
    | admitMarket a trial now =>
      rcases hallow with rfl | ⟨revision, rfl⟩
      · intro hnone
        have hnone' : db.attempt? a.requestId a.attemptId = none := by
          rwa [attempt?, hc.attempts] at hnone
        unfold GapReplaced
        rw [hc.gaps, hc.attempts, hc.adjustments]
        exact h hnone'
      · have hsome : db'.attempt? a.requestId a.attemptId ≠ none :=
          attempt?_admission (a := { a with pricingRevision := revision }) hc
        exact fun hnone => absurd hnone hsome
    | _ => trivial
  · rintro a trial rfl
    obtain ⟨model, reserved, ⟨-, hnone, -⟩, -⟩ := hc
    rcases Op.allows_admission hallow with rfl | ⟨a', now, revision, rfl, rfl⟩
    · exact h hnone
    · exact h hnone

theorem Marked.step {hash : PricingSnapshot → String} {op : Op} (h : Marked scope w db)
    (hop : op.KeepsMark scope w db) :
    Marked scope w (step hash db op) ∧ Advances scope w db (step hash db op) := by
  rcases commit_cases (transact hash) db op with hok | ⟨-, heq⟩
  · have htrace := transact_trace hok
    let Inv : Db → Prop := fun db => Marked scope w db ∧ op.KeepsMark scope w db
    have hinv : ∀ db c db', Inv db → op.Allows db c → c.Step db db' → Inv db' := by
      intro db c db' hdb hallow hc
      obtain ⟨hkeep, hgap⟩ := hdb.2.change hallow hc
      exact ⟨(hdb.1.change hc hgap).1, hkeep⟩
    have hadv : ∀ db c db', Inv db → op.Allows db c → c.Step db db' → Advances scope w db db' := by
      intro db c db' hdb hallow hc
      exact (hdb.1.change hc (hdb.2.change hallow hc).2).2
    exact ⟨(htrace.invariant hinv ⟨h, hop⟩).1,
      htrace.relation Advances.refl (fun _ _ _ => Advances.trans) hinv hadv ⟨h, hop⟩⟩
  · rw [ValueQuota.step, heq]
    exact ⟨h, Advances.refl db⟩

theorem Marked.run {hash : PricingSnapshot → String} {ops : List Op} (h : Marked scope w db)
    (hops : EachStep (ValueQuota.step hash) (fun db op => op.KeepsMark scope w db) db ops) :
    Marked scope w (run (ValueQuota.step hash) db ops) ∧ Advances scope w db (run (ValueQuota.step hash) db ops) :=
  ⟨run_invariant (fun _ _ hdb hop => (hdb.step hop).1) h hops,
    run_relation Advances.refl (fun _ _ _ => Advances.trans) (fun _ _ hdb hop => (hdb.step hop).1)
      (fun _ _ hdb hop => (hdb.step hop).2) h hops⟩

end

/-- A ledger as an earlier version leaves it, legacy gaps included: the checkpoints are exact and no
watermark is above the counter. -/
structure Inherited (db : Db) : Prop where
  fits : db.attempts.rows.length + db.gaps.rows.length ≤ maxRows
  exact : ∀ scope day, ∃ cp, db.readCheckpoint scope day = .ok cp ∧ Exact cp (db.dayEvidence scope day)
  attempts_le : ∀ r ∈ db.attempts.rows, r.watermark ≤ db.watermark
  gaps_le : ∀ g ∈ db.gaps.rows, g.watermark ≤ db.watermark
  adjustments_le : ∀ a ∈ db.adjustments.rows, a.watermark ≤ db.watermark

theorem Inherited.marked (h : Inherited db) (scope : Scope) (w : Window) : Marked scope w db := by
  have hmark : ∀ scope day cp, db.readCheckpoint scope day = .ok cp →
      cp.watermark = topMark (db.dayEvidence scope day) := by
    intro scope day cp hcp
    obtain ⟨cp', hcp', hexact⟩ := h.exact scope day
    rw [hcp] at hcp'
    cases hcp'
    exact hexact.watermark_eq
  refine ⟨⟨?_, h.fits⟩, h.attempts_le, h.gaps_le, h.adjustments_le, ?_, ?_⟩
  · intro scope day
    obtain ⟨cp, hcp, hexact⟩ := h.exact scope day
    exact ⟨cp, hcp, hexact.toRepresents⟩
  · intro scope day cp hcp
    rw [hmark scope day cp hcp]
    exact ⟨le_rfl, topMark_evidence_le h.attempts_le h.gaps_le scope _⟩
  · intro day cp hfull hcp
    rw [hmark scope day cp hcp]
    exact topMark_dayEvidence_le_windowMark hfull

theorem Inherited.empty : Inherited empty where
  fits := Nat.zero_le _
  exact := fun _ _ => ⟨Checkpoint.empty, rfl, Exact.empty⟩
  attempts_le := by simp [Db.empty]
  gaps_le := by simp [Db.empty]
  adjustments_le := by simp [Db.empty]

/-- The projections of a window are ordered by their watermark in every run whose admissions replace
the legacy gaps that they remove from the window. -/
theorem watermark_orders_projections {hash : PricingSnapshot → String} {scope : Scope} {w : Window}
    {db : Db} (h : Inherited db) (earlier later : List Op)
    (hops : EachStep (step hash) (fun db op => op.KeepsMark scope w db) db (earlier ++ later))
    {st st' : QuotaStatus} (hst : (run (step hash) db earlier).statusInTx scope w = .ok st)
    (hst' : (run (step hash) db (earlier ++ later)).statusInTx scope w = .ok st') :
    st.usageWatermark ≤ st'.usageWatermark ∧
      (st.observedPicos ≠ st'.observedPicos ∨ st.manualOffsetPicos ≠ st'.manualOffsetPicos ∨
        st.usedPicos ≠ st'.usedPicos ∨ st.pendingRiskPicos ≠ st'.pendingRiskPicos →
        st.usageWatermark < st'.usageWatermark) := by
  rw [EachStep.append] at hops
  rw [run_append] at hst'
  have hearlier := ((h.marked scope w).run hops.1).1
  obtain ⟨hlater, hadv⟩ := hearlier.run hops.2
  rw [hearlier.usageWatermark_eq hst, hlater.usageWatermark_eq hst']
  refine ⟨hadv.1, fun hne => hadv.2 fun heq => ?_⟩
  obtain ⟨ho, hp, hm, hu⟩ := hearlier.consistent.statusInTx_ok scope w hst
  obtain ⟨ho', hp', hm', hu'⟩ := hlater.consistent.statusInTx_ok scope w hst'
  simp only [Db.balance, Prod.mk.injEq] at heq
  omega

/-! ## A gap that leaves its window -/

namespace Sample

def gap : GapRow := ⟨scope, "a", 5, 5⟩

def gapCheckpoint : Checkpoint := ⟨0, 0, (∅ : Std.ExtTreeMap String ℕ).insert "gap" 1, ∅, 5⟩

def legacy : Db :=
  { Db.empty with
    watermark := 5
    gaps := empty.insert gap rfl
    checkpoints := empty.insert ⟨scope, 0, gapCheckpoint, gapCheckpoint⟩ rfl }

theorem legacy_inherited : Inherited legacy where
  fits := by decide
  exact := by
    intro s day
    by_cases hkey : (scope, 0) = (s, day)
    · cases hkey
      have hadd : Checkpoint.empty.change gap.contribution true = .ok gapCheckpoint := by
        decide
      exact ⟨gapCheckpoint, by decide, Exact.empty.change_add hadd⟩
    · refine ⟨Checkpoint.empty, ?_, ?_⟩
      · have hfind : legacy.checkpoints.find? (s, day) = none := by
          rw [Table.find?_eq_none]
          intro r hr
          rw [List.mem_singleton.mp hr]
          exact hkey
        rw [Db.readCheckpoint, hfind]
        rfl
      · have hnil : legacy.dayEvidence s day = [] := by
          have hcond : ¬(gap.scope = s ∧ dayOf gap.startedAtMs = day) := by
            rintro ⟨rfl, rfl⟩
            exact hkey rfl
          show List.map _ (List.filter _ []) ++ List.map _ (List.filter _ [gap]) = []
          rw [List.filter_cons_of_neg (by simpa using hcond)]
          rfl
        rw [hnil]
        exact Exact.empty
  attempts_le := by simp [legacy, Db.empty]
  gaps_le := by decide
  adjustments_le := by simp [legacy, Db.empty]

def firstSecond : Window := ⟨"first", 0, some 1000, 0⟩

end Sample

/-- The admission of the request at 2000 takes the gap out of the window of the first second, which
then has no evidence left: its watermark falls from 5 to 0. -/
theorem watermark_falls_with_superseded_gap :
    Inherited Sample.legacy ∧
      ((run (step Sample.hash) Sample.legacy Sample.opening).statusInTx Sample.scope
        Sample.firstSecond).map QuotaStatus.usageWatermark = .ok 5 ∧
      ((run (step Sample.hash) Sample.legacy (Sample.opening ++
        [.admission (Sample.admission "a" 2000 100) none])).statusInTx Sample.scope
        Sample.firstSecond).map QuotaStatus.usageWatermark = .ok 0 :=
  ⟨Sample.legacy_inherited, by decide, by decide⟩

/-- The same admission seen by the open window, which meters the attempt and the gap. -/
theorem watermark_orders_projections_superseded_gap :
    ∃ st st', (run (step hash) legacy opening).statusInTx scope window = .ok st ∧
      (run (step hash) legacy (opening ++ [.admission (admission "a" 2000 100) none])).statusInTx scope
        window = .ok st' ∧
      st.pendingRiskPicos = 0 ∧ st'.pendingRiskPicos = 100 ∧
      st.usageWatermark < st'.usageWatermark := by
  have hst : (run (step hash) legacy opening).statusInTx scope
      Sample.window = .ok ⟨0, 0, 0, 0, "conservative", 5, []⟩ := by decide
  have hst' : (run (step hash) legacy (opening ++ [.admission (admission "a" 2000 100) none])).statusInTx scope
      Sample.window = .ok ⟨0, 0, 0, 100, "pending", 6, ["revision"]⟩ := by decide
  refine ⟨_, _, hst, hst', rfl, rfl, ?_⟩
  refine (watermark_orders_projections legacy_inherited opening
    [.admission (admission "a" 2000 100) none] ?_ hst hst').2 (.inr (.inr (.inr (by decide))))
  refine ⟨trivial, trivial, ?_, trivial⟩
  intro _ g _ _ _
  exact .inl (by decide)

end CcSwitchServer.ValueQuota
