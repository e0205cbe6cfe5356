import CcSwitchServer.ValueQuota.Rebuild

/-! # Checkpoints agree with the rows

The main invariant of the ledger; every primitive change keeps it.
-/

namespace CcSwitchServer.ValueQuota
open Foundations ValuePricing Usage Std

/-- The checkpoint of every day represents exactly the rows that started on it. -/
structure Consistent (db : Db) : Prop where
  books : db.Books db.dayEvidence
  fits : db.attempts.rows.length + db.gaps.rows.length ≤ maxRows

section
variable {db db' : Db}

theorem Consistent.empty : Consistent Db.empty where
  books := by
    intro scope day
    exact ⟨Checkpoint.empty, rfl, Represents.empty⟩
  fits := Nat.zero_le _

theorem Consistent.congr (h : Consistent db) (hattempts : db'.attempts = db.attempts)
    (hgaps : db'.gaps = db.gaps) (hcp : db'.checkpoints = db.checkpoints) : Consistent db' where
  books := by
    have hE : db'.dayEvidence = db.dayEvidence := by
      funext scope day
      exact evidence_congr hattempts hgaps
    rw [hE]
    exact h.books.congr hcp
  fits := by
    rw [hattempts, hgaps]
    exact h.fits

theorem dayEvidence_modify {r : AttemptRow} {f : AttemptRow → AttemptRow}
    {hf : ∀ r, (f r).key = r.key} (hfind : db.attempts.find? r.key = some r)
    (hattempts : db'.attempts = db.attempts.modify r.key f hf) (hscope : (f r).scope = r.scope)
    (hstart : (f r).startedAtMs = r.startedAtMs) (hgaps : db'.gaps = db.gaps) :
    (∃ rest, (db.dayEvidence r.scope (dayOf r.startedAtMs)).Perm (r.contribution :: rest) ∧
      (db'.dayEvidence r.scope (dayOf r.startedAtMs)).Perm ((f r).contribution :: rest)) ∧
    ∀ scope day, (r.scope, dayOf r.startedAtMs) ≠ (scope, day) →
      (db.dayEvidence scope day).Perm (db'.dayEvidence scope day) := by
  constructor
  · obtain ⟨rest, hold, hnew⟩ := evidence_modify r.scope
      (fun at_ => dayOf at_ = dayOf r.startedAtMs) hfind hattempts hscope hstart hgaps
    rw [if_pos ⟨rfl, rfl⟩] at hold hnew
    exact ⟨rest, hold, hnew⟩
  · intro scope day hne
    obtain ⟨rest, hold, hnew⟩ := evidence_modify scope (fun at_ => dayOf at_ = day) hfind hattempts hscope hstart hgaps
    have hcond : ¬(r.scope = scope ∧ dayOf r.startedAtMs = day) := by
      rintro ⟨rfl, rfl⟩
      exact hne rfl
    rw [if_neg hcond] at hold hnew
    exact hold.trans hnew.symm

section
variable (h : Consistent db)
include h

theorem Consistent.settledBy {old : AttemptRow} {s : Settlement}
    (hfind : db.attempts.find? old.key = some old) (hs : SettledBy db old s db') :
    Consistent db' where
  books := by
    obtain ⟨⟨rest, hold, hnew⟩, hother⟩ := dayEvidence_modify hfind hs.attempts rfl rfl hs.gaps
    obtain ⟨db₁, hupdate, hcp⟩ := hs.checkpoints
    refine Db.Books.congr (h.books.update hupdate rest ?_ hnew.symm hother) hcp
    intro cp hr
    exact (hr.perm hold).cons_watermark 0
  fits := by
    rw [hs.attempts, hs.gaps, Table.length_modify]
    exact h.fits

theorem Consistent.admittedBy {a : Admission} {trial : Option MarketTrialBudget}
    {model : ExecutionModelPrice} {reserved : ℕ}
    (ha : AdmittedBy db a trial model reserved db') : Consistent db' := by
  obtain ⟨hfresh, hattempts⟩ := ha.attempts
  obtain ⟨db₁, hadd, hgap⟩ := ha.checkpoints
  set row := a.row model reserved (db.watermark + 1) with hrow
  -- the intermediate books: the attempt is in, the gap is not out yet
  let dbAdd : Db := { db with attempts := db.attempts.insert row hfresh }
  have hins : ∀ scope day, (dbAdd.dayEvidence scope day).Perm
      ((if row.scope = scope ∧ dayOf row.startedAtMs = day then [row.contribution] else []) ++
        db.dayEvidence scope day) := fun scope day =>
    evidence_insert scope (fun at_ => dayOf at_ = day) (h := hfresh) rfl rfl
  have hbooks₁ : db₁.Books dbAdd.dayEvidence := by
    refine h.books.update hadd (db.dayEvidence a.scope (dayOf a.startedAtMs)) (fun cp hr => hr) ?_ ?_
    · have := hins a.scope (dayOf a.startedAtMs)
      rw [if_pos ⟨rfl, rfl⟩] at this
      exact this.symm
    · intro scope day hne
      have := hins scope day
      have hcond : ¬(row.scope = scope ∧ dayOf row.startedAtMs = day) := by
        rintro ⟨rfl, rfl⟩
        exact hne rfl
      rw [if_neg hcond] at this
      exact this.symm
  have hlen : db'.attempts.rows.length = db.attempts.rows.length + 1 := by
    rw [hattempts, (Table.insert_perm _ _ hfresh).length_eq, List.length_cons]
  have hfits := ha.fits
  rcases hgap with ⟨-, hgaps, hcp⟩ | ⟨g, db₂, hg, hgaps, hremove, hcp⟩
  · have hE : db'.dayEvidence = dbAdd.dayEvidence := by
      funext scope day
      exact evidence_congr hattempts hgaps
    refine ⟨?_, ?_⟩
    · rw [hE]
      exact hbooks₁.congr hcp
    · rw [hlen, hgaps]
      omega
  · have herase : ∀ scope day, (dbAdd.dayEvidence scope day).Perm
        ((if g.scope = scope ∧ dayOf g.startedAtMs = day then [g.contribution] else []) ++
          db'.dayEvidence scope day) := fun scope day =>
      evidence_eraseGap scope (fun at_ => dayOf at_ = day) hg hattempts hgaps
    have hgscope : g.scope = a.scope := congrArg Prod.fst (Table.find?_key hg)
    refine ⟨?_, ?_⟩
    · refine Db.Books.congr (hbooks₁.update hremove
        (db'.dayEvidence a.scope (dayOf g.startedAtMs)) ?_ (List.Perm.refl _) ?_) hcp
      · have := herase a.scope (dayOf g.startedAtMs)
        rw [if_pos ⟨hgscope, rfl⟩] at this
        exact fun cp hr => hr.perm this
      · intro scope day hne
        have := herase scope day
        have hcond : ¬(g.scope = scope ∧ dayOf g.startedAtMs = day) := by
          rintro ⟨rfl, rfl⟩
          exact hne (by rw [hgscope])
        rw [if_neg hcond] at this
        exact this
    · have hle : (db.gaps.others (a.scope, a.requestId)).length ≤ db.gaps.rows.length := List.length_filter_le _ _
      rw [hlen, hgaps, Table.erase_rows]
      omega

theorem Consistent.compactOne {r : AttemptRow} {now : ℤ}
    (hfind : db.attempts.find? r.key = some r) (hc : db.compactOne r now = .ok db') :
    Consistent db' := by
  have hattempts := compactOne_attempts hc
  simp only [Db.compactOne, bind_eq_ok, pure_eq_ok] at hc
  obtain ⟨cp, -, n, -, -, -, hdb'⟩ := hc
  have hgaps : db'.gaps = db.gaps := by rw [← hdb']; rfl
  have hcps : db'.checkpoints = db.checkpoints := by rw [← hdb']; rfl
  obtain ⟨⟨rest, hold, hnew⟩, hother⟩ := dayEvidence_modify hfind hattempts rfl rfl hgaps
  refine ⟨Db.Books.congr (h.books.perm ?_) hcps, ?_⟩
  · intro scope day
    by_cases hkey : (r.scope, dayOf r.startedAtMs) = (scope, day)
    · cases hkey
      exact hold.trans hnew.symm
    · exact hother scope day hkey
  · rw [hattempts, hgaps, Table.length_modify]
    exact h.fits

theorem Consistent.rebuild {scope : Scope} {n : ℕ}
    (hr : db.rebuildCheckpointsInTx scope = .ok (db', n)) : Consistent db' := by
  obtain ⟨⟨checkpoints, rfl⟩, hother, hscope⟩ := rebuildCheckpointsInTx_spec hr
  refine ⟨?_, h.fits⟩
  intro scope' day
  by_cases hs : scope' = scope
  · subst hs
    obtain ⟨cp, hcp, hexact⟩ := hscope day
    exact ⟨cp, hcp, hexact.toRepresents⟩
  · rw [hother scope' day hs]
    exact h.books scope' day

/-- One change keeps the checkpoints exact. -/
theorem Consistent.change {c : Change} (hc : c.Step db db') : Consistent db' := by
  cases c with
  | admission a trial =>
    obtain ⟨model, reserved, -, hins⟩ := hc
    exact h.admittedBy (insertAttempt_spec hins)
  | observe o =>
    obtain ⟨old, s, ⟨hold, -⟩, hw⟩ := hc
    exact h.settledBy (Table.find?_of_mem (Table.find?_mem hold)) (writeSettlement_spec hw)
  | outcome requestId attemptId result onlyUnobserved =>
    obtain ⟨old, hold, -, -, hw⟩ := hc
    exact h.settledBy (Table.find?_of_mem (Table.find?_mem hold)) (writeSettlement_spec hw)
  | compact r now => exact h.compactOne hc.1 hc.2.2.2
  | rebuild scope =>
    obtain ⟨n, hr⟩ := hc
    exact h.rebuild hr
  | raise floor =>
    simp only [Change.Step, Db.raiseWatermarkFloor, bind_eq_ok, pure_eq_ok] at hc
    obtain ⟨-, -, rfl⟩ := hc
    exact h.congr rfl rfl rfl
  | adjust a actor =>
    simp only [Change.Step, Db.insertAdjustment, bind_eq_ok, pure_eq_ok] at hc
    obtain ⟨-, -, -, -, ⟨db₁, mark⟩, hmark, -, -, -, -, rfl⟩ := hc
    obtain ⟨-, rfl⟩ := Db.nextWatermark_eq_ok hmark
    exact h.congr rfl rfl rfl
  | record log =>
    simp only [Change.Step, Db.upsertUsageRow, bind_eq_ok, pure_eq_ok] at hc
    obtain ⟨-, -, -, -, rfl⟩ := hc
    exact h.congr rfl rfl rfl
  | install row =>
    obtain ⟨-, rfl⟩ := hc
    exact h.congr rfl rfl rfl
  | aux => exact h.congr hc.attempts hc.gaps hc.checkpoints

end

theorem Consistent.run {hash : PricingSnapshot → String} (h : Consistent db) (ops : List Op) :
    Consistent (run (step hash) db ops) := by
  refine run_invariant (P := fun _ _ => True) ?_ h (EachStep.of_forall (fun _ _ => trivial) db ops)
  intro db op hdb _
  exact step_invariant hash (fun db c db' hdb _ hc => hdb.change hc) hdb

end

end CcSwitchServer.ValueQuota
