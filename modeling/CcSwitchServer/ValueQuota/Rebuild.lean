import CcSwitchServer.ValueQuota.Evidence

/-! # Rebuilt checkpoints

A rebuild books every row of a scope on its day.
-/

namespace CcSwitchServer.ValueQuota
open Foundations ValuePricing Usage Std List Checkpoint Db ExtTreeMap

def topMark (cs : List Contribution) : ℕ := (cs.map Contribution.watermark).foldr max 0

@[simp] theorem topMark_nil : topMark [] = 0 := rfl

@[simp] theorem topMark_cons (c : Contribution) (cs : List Contribution) :
    topMark (c :: cs) = max c.watermark (topMark cs) := rfl

theorem topMark_append (cs cs' : List Contribution) : topMark (cs ++ cs') = max (topMark cs) (topMark cs') := by
  induction cs with
  | nil => simp
  | cons c cs ih => rw [cons_append, topMark_cons, topMark_cons, ih, max_assoc]

variable {cs : List Contribution}

theorem topMark_perm {cs' : List Contribution} (h : cs.Perm cs') : topMark cs = topMark cs' := by
  induction h with
  | nil => rfl
  | cons c _ ih => rw [topMark_cons, topMark_cons, ih]
  | swap c c' cs => simp only [topMark_cons, max_left_comm]
  | trans _ _ ih ih' => rw [ih, ih']

theorem topMark_le_iff {n : ℕ} : topMark cs ≤ n ↔ ∀ c ∈ cs, c.watermark ≤ n := by
  induction cs with
  | nil => simp
  | cons c cs ih => rw [topMark_cons, Nat.max_le, ih, forall_mem_cons]

theorem le_topMark {c : Contribution} (h : c ∈ cs) : c.watermark ≤ topMark cs :=
  topMark_le_iff.mp le_rfl c h

/-- The totals and the watermark of `cp` are those of `cs`. -/
structure Exact (cp : Checkpoint) (cs : List Contribution) : Prop extends Represents cp cs where
  watermark_eq : cp.watermark = topMark cs

namespace Exact
variable {cp cp' : Checkpoint} {c : Contribution} {cs cs' : List Contribution}

theorem empty : Exact empty [] := ⟨Represents.empty, rfl⟩

theorem perm (h : Exact cp cs) (hp : cs.Perm cs') : Exact cp cs' :=
  ⟨h.toRepresents.perm hp, by rw [h.watermark_eq, topMark_perm hp]⟩

theorem change_add (h : Exact cp cs) (hc : cp.change c true = .ok cp') : Exact cp' (c :: cs) := by
  refine ⟨h.toRepresents.change_add hc, ?_⟩
  rw [change_watermark hc, topMark_cons, h.watermark_eq, max_comm]

end Exact

/-! ## The walk over the rows -/

section
variable {ι : Type}

theorem foldlM_tallyDay {start : ι → ℤ} {c : ι → Contribution} (xs : List ι)
    {days days' : ExtTreeMap ℤ Checkpoint} {E : ℤ → List Contribution}
    (hE : ∀ day, Exact (days.getD day empty) (E day))
    (h : xs.foldlM (fun days x => tallyDay days (start x) (c x)) days = .ok days') (day : ℤ) :
    Exact (days'.getD day empty) (((xs.filter fun x => dayOf (start x) = day).map c) ++ E day) := by
  induction xs generalizing days E with
  | nil =>
    cases h
    exact hE day
  | cons x xs ih =>
    rw [foldlM_cons, bind_eq_ok] at h
    obtain ⟨days₁, hx, h⟩ := h
    simp only [tallyDay, bind_eq_ok, pure_eq_ok] at hx
    obtain ⟨cp, hcp, rfl⟩ := hx
    have hstep : ∀ day, Exact ((days.insert (dayOf (start x)) cp).getD day empty)
        ((if dayOf (start x) = day then [c x] else []) ++ E day) := by
      intro day
      rw [getD_insert]
      by_cases hday : dayOf (start x) = day
      · subst hday
        rw [if_pos ReflCmp.compare_self, if_pos rfl]
        exact (hE _).change_add hcp
      · rw [if_neg (fun hc => hday (LawfulEqCmp.eq_of_compare hc)), if_neg hday]
        exact hE day
    refine (ih hstep h).perm ?_
    rw [filter_cons]
    by_cases hday : dayOf (start x) = day
    · simp only [hday, decide_true, if_true, map_cons, cons_append, nil_append]
      exact perm_middle
    · simp [hday]

theorem tallyDays_exact {db : Db} {scope : Scope} {days : ExtTreeMap ℤ Checkpoint}
    (h : db.tallyDays scope = .ok days) (day : ℤ) :
    Exact (days.getD day empty) (db.dayEvidence scope day) := by
  simp only [tallyDays, bind_eq_ok] at h
  obtain ⟨days₁, hattempts, hgaps⟩ := h
  have h₁ := fun day => foldlM_tallyDay _ (E := fun _ => []) (fun day => by simpa using Exact.empty) hattempts day
  have h₂ := foldlM_tallyDay _ h₁ hgaps day
  refine h₂.perm (perm_append_comm.trans ?_)
  rw [append_nil]
  simp only [dayEvidence, evidence, attemptsWhere, gapsWhere, filter_filter]
  have ha : (fun r : AttemptRow => decide (dayOf r.startedAtMs = day) && decide (r.scope = scope)) =
      fun r => decide (r.scope = scope ∧ dayOf r.startedAtMs = day) := by
    funext r
    rw [Bool.and_comm, ← Bool.decide_and]
  have hg : (fun g : GapRow => decide (dayOf g.startedAtMs = day) && decide (g.scope = scope)) =
      fun g => decide (g.scope = scope ∧ dayOf g.startedAtMs = day) := by
    funext g
    rw [Bool.and_comm, ← Bool.decide_and]
  rw [ha, hg]

end

/-! ## The stored result -/

section
variable {scope : Scope}

theorem foldl_writeCheckpoint_tables (scope : Scope) (ps : List (ℤ × Checkpoint)) (db : Db) :
    ∃ checkpoints, ps.foldl (fun db p => db.writeCheckpoint scope p.1 p.2) db =
      { db with checkpoints := checkpoints } := by
  induction ps generalizing db with
  | nil => exact ⟨db.checkpoints, rfl⟩
  | cons p ps ih =>
    obtain ⟨checkpoints, h⟩ := ih (db.writeCheckpoint scope p.1 p.2)
    exact ⟨checkpoints, by rw [foldl_cons, h]; rfl⟩

theorem foldl_writeCheckpoint_of_not_mem (ps : List (ℤ × Checkpoint)) (db : Db) {scope' : Scope}
    {day : ℤ} (h : ∀ p ∈ ps, (scope, p.1) ≠ (scope', day)) :
    (ps.foldl (fun db p => db.writeCheckpoint scope p.1 p.2) db).readCheckpoint scope' day =
      db.readCheckpoint scope' day := by
  induction ps generalizing db with
  | nil => rfl
  | cons p ps ih =>
    rw [foldl_cons, ih _ fun q hq => h q (by simp [hq]), readCheckpoint_writeCheckpoint, if_neg (h p (by simp))]

theorem foldl_writeCheckpoint_of_mem (ps : List (ℤ × Checkpoint)) (db : Db) {day : ℤ}
    {cp : Checkpoint} (hps : (ps.map Prod.fst).Nodup) (h : (day, cp) ∈ ps) :
    (ps.foldl (fun db p => db.writeCheckpoint scope p.1 p.2) db).readCheckpoint scope day = .ok cp := by
  induction ps generalizing db with
  | nil => cases h
  | cons p ps ih =>
    rw [map_cons, nodup_cons] at hps
    rw [foldl_cons]
    rcases mem_cons.mp h with rfl | h
    · rw [foldl_writeCheckpoint_of_not_mem, readCheckpoint_writeCheckpoint, if_pos rfl]
      intro q hq heq
      have hday : q.1 = day := congrArg Prod.snd heq
      exact hps.1 (mem_map.mpr ⟨q, hq, hday⟩)
    · exact ih _ hps.2 h

end

/-- The new checkpoints represent the rows of their days, under the highest mark of these. -/
theorem rebuildCheckpointsInTx_spec {db db' : Db} {scope : Scope} {n : ℕ}
    (h : db.rebuildCheckpointsInTx scope = .ok (db', n)) :
    (∃ checkpoints, db' = { db with checkpoints := checkpoints }) ∧
    (∀ scope' day, scope' ≠ scope → db'.readCheckpoint scope' day = db.readCheckpoint scope' day) ∧
    ∀ day, ∃ cp, db'.readCheckpoint scope day = .ok cp ∧ Exact cp (db.dayEvidence scope day) := by
  simp only [rebuildCheckpointsInTx, bind_eq_ok, pure_eq_ok, Prod.mk.injEq] at h
  obtain ⟨days, hdays, rfl, -⟩ := h
  have hfind : ∀ scope' day, (db.checkpoints.filter (·.scope ≠ scope)).find? (scope', day) =
      if scope' ≠ scope then db.checkpoints.find? (scope', day) else none := by
    intro scope' day
    exact Table.find?_filter_of_key (q := fun k => k.1 ≠ scope) (fun r => Iff.rfl) (scope', day)
  refine ⟨?_, ?_, ?_⟩
  · obtain ⟨checkpoints, h⟩ := foldl_writeCheckpoint_tables scope days.toList
      { db with checkpoints := db.checkpoints.filter (·.scope ≠ scope) }
    exact ⟨checkpoints, h⟩
  · intro scope' day hne
    rw [foldl_writeCheckpoint_of_not_mem]
    · simp only [readCheckpoint, hfind, if_pos hne]
    · intro p _ heq
      exact hne (congrArg Prod.fst heq).symm
  · intro day
    have hexact := tallyDays_exact hdays day
    have hnodup : (days.toList.map Prod.fst).Nodup := by
      rw [List.Nodup, pairwise_map]
      refine days.distinct_keys_toList.imp ?_
      intro p q hpq heq
      exact hpq (by rw [heq]; exact ReflCmp.compare_self)
    rw [getD_eq_getD_getElem?] at hexact
    cases hday : days[day]? with
    | some cp =>
      rw [hday, Option.getD_some] at hexact
      exact ⟨cp, foldl_writeCheckpoint_of_mem _ _ hnodup (mem_toList_iff_getElem?_eq_some.mpr hday), hexact⟩
    | none =>
      rw [hday, Option.getD_none] at hexact
      refine ⟨empty, ?_, hexact⟩
      rw [foldl_writeCheckpoint_of_not_mem]
      · simp only [readCheckpoint, hfind, ne_eq, not_true_eq_false, if_false]
        rfl
      · rintro ⟨day', cp⟩ hp heq
        have hday' : day' = day := congrArg Prod.snd heq
        rw [mem_toList_iff_getElem?_eq_some, hday', hday] at hp
        cases hp

end CcSwitchServer.ValueQuota
