import CcSwitchServer.ValueQuota.Convergence

/-! # Settled attempts and reopening

A settled attempt is reopened only by a report that it is still in progress.
-/

namespace CcSwitchServer.ValueQuota
open Foundations ValuePricing Usage Db Sample

/-! ## What an observation settles to -/

section
variable {db : Db} {old : AttemptRow} {o : Observation} {s : Settlement}

theorem settledValue_terminal (h : o.outcome.terminal = true) (snapshot : PricingSnapshot)
    (tariff : ExecutionModelPrice) (reserved : ℕ) (old : AttemptRow) :
    (o.settledValue snapshot tariff reserved old).2.Settled := by
  unfold Observation.settledValue
  cases houtcome : o.outcome with
  | inProgress =>
    rw [houtcome] at h
    cases h
  | free => exact .inl rfl
  | unknown => exact .inr rfl
  | final | finalConservative | interrupted =>
    dsimp only
    split
    · split
      · exact o.pricedValue_settled tariff _
      · exact .inr rfl
    · exact .inr rfl

theorem settlementOf_terminal (hs : db.settlementOf old o = .ok s)
    (h : o.outcome.terminal = true) : s.state.Settled ∧ s.risk = 0 := by
  simp only [settlementOf, bind_eq_ok, pure_eq_ok] at hs
  obtain ⟨snapshot, -, tariff, -, risk, hrisk, rfl⟩ := hs
  have hsettled := settledValue_terminal h snapshot tariff (db.reserved o.requestId o.attemptId) old
  refine ⟨hsettled, ?_⟩
  rw [remainingRisk, if_neg] at hrisk
  · exact (pure_eq_ok.mp hrisk).symm
  · intro hpending
    rw [hpending] at hsettled
    rcases hsettled with h | h <;> cases h

theorem classifyLog_forced (log : UsageLog) (model tier : String) (attempt : Option AttemptMeta) :
    (classifyLog log model tier attempt true).outcome.terminal = true := by
  simp only [classifyLog, Bool.not_true, Bool.and_false, Bool.false_eq_true, if_false]
  repeat' split
  all_goals rfl

end

/-! ## The condition -/

/-- The operation reports no progress of the attempt that would replace what its row stores. -/
def Op.NoReopen (k : String × String) (db : Db) : Op → Prop
  | .settle o => (o.requestId, o.attemptId) = k → o.outcome = .inProgress →
      ∀ r, db.attempts.find? k = some r → ¬r.supersededBy o = true
  | .usageLog log => ∀ o, db.LogObservation log o → (o.requestId, o.attemptId) = k →
      o.outcome = .inProgress → ∀ r, db.attempts.find? k = some r → ¬r.supersededBy o = true
  | _ => True

/-- The status is final and nothing stays reserved. -/
def Closed (k : String × String) (db : Db) : Prop :=
  ∃ r, db.attempts.find? k = some r ∧ r.meteringStatus.Settled ∧ r.pendingRiskPicos = 0

section
variable {db db' : Db} {k : String × String} {op : Op} {c : Change} {o : Observation}

theorem Op.NoReopen.terminal (hop : op.NoReopen k db) (hallow : op.Allows db (.observe o))
    (hk : (o.requestId, o.attemptId) = k) {r : AttemptRow} (hfind : db.attempts.find? k = some r)
    (hsup : r.supersededBy o = true) : o.outcome.terminal = true := by
  have hreport : o.outcome ≠ .inProgress → o.outcome.terminal = true := by
    intro hne
    simpa [ObservedOutcome.terminal] using hne
  cases op with
  | settle o' =>
    cases hallow
    exact hreport fun hprogress => hop hk hprogress r hfind hsup
  | usageLog log =>
    rcases hallow with h | h | ⟨o', ho', h⟩
    · cases h
    · cases h
    · cases h
      exact hreport fun hprogress => hop o ho' hk hprogress r hfind hsup
  | sweep candidates =>
    rcases hallow with h | ⟨key, -, h | ⟨o', ⟨log, row, -, -, -, ho'⟩, h⟩⟩
    · cases h
    · cases h
    · cases h
      rw [ho']
      exact classifyLog_forced log row.effectiveModel row.effectiveTier _
  | admission a trial => cases hallow
  | admitMarket a trial now =>
    rcases hallow with h | ⟨revision, h⟩
    · cases h
    · cases h
  | _ => simp [Op.Allows] at hallow

theorem LogObservation.unique {log : UsageLog} {o o' : Observation} (h : db.LogObservation log o)
    (h' : db.LogObservation log o') : o = o' := by
  obtain ⟨row, hrow, rfl⟩ := h
  obtain ⟨row', hrow', rfl⟩ := h'
  rw [hrow] at hrow'
  cases hrow'
  rfl

/-- No change turns another report into one that reopens. -/
theorem Op.NoReopen.change (hop : op.NoReopen k db) (hallow : op.Allows db c) (hc : c.Step db db') :
    op.NoReopen k db' := by
  cases op with
  | usageLog log =>
    intro o ho hk hprogress r' hfind'
    have ho' := LogObservation.of_change hallow hc ho
    have hstep := Change.rowStep hc k
    rw [hfind'] at hstep
    generalize hbefore : db.attempts.find? k = before at hstep
    cases hstep with
    | same => exact hop o ho' hk hprogress r' hbefore
    | admitted a trial model reserved heq =>
      subst heq
      rcases hallow with h | h | ⟨o', -, h⟩ <;> cases h
    | observed o₁ old s heq hk₁ hobs =>
      subst heq
      rcases hallow with h | h | ⟨o₂, ho₂, h⟩
      · cases h
      · cases h
      · cases h
        obtain rfl := LogObservation.unique ho' ho₂
        exact absurd hobs.2.2.2.2.1 (hop o ho' hk hprogress old hbefore)
    | resolved old result only heq =>
      subst heq
      rcases hallow with h | h | ⟨o', -, h⟩ <;> cases h
    | compacted r now heq =>
      subst heq
      rcases hallow with h | h | ⟨o', -, h⟩ <;> cases h
  | settle o =>
    obtain rfl := hallow
    intro hk hprogress r' hfind'
    have hstep := Change.rowStep hc k
    rw [hfind'] at hstep
    generalize hbefore : db.attempts.find? k = before at hstep
    cases hstep with
    | same => exact hop hk hprogress r' hbefore
    | admitted a trial model reserved heq => cases heq
    | observed o₁ old s heq hk₁ hobs =>
      cases heq
      exact absurd hobs.2.2.2.2.1 (hop hk hprogress old hbefore)
    | resolved old result only heq => cases heq
    | compacted r now heq => cases heq
  | _ => trivial

theorem Closed.change (h : Closed k db) (hop : op.NoReopen k db) (hallow : op.Allows db c)
    (hc : c.Step db db') : Closed k db' := by
  obtain ⟨r, hfind, hsettled, hrisk⟩ := h
  have hstep := Change.rowStep hc k
  rw [hfind] at hstep
  generalize hafter : db'.attempts.find? k = after at hstep
  cases hstep with
  | same => exact ⟨r, hafter, hsettled, hrisk⟩
  | observed o _ s heq hk hobs =>
    subst heq
    have hterminal := hop.terminal hallow hk hfind hobs.2.2.2.2.1
    obtain ⟨hstate, hzero⟩ := settlementOf_terminal hobs.2.2.2.2.2 hterminal
    exact ⟨_, hafter, hstate, hzero⟩
  | resolved _ result only heq hopen => exact absurd hsettled hopen
  | compacted _ now heq => exact ⟨_, hafter, hsettled, hrisk⟩

theorem Closed.run {hash : PricingSnapshot → String} {ops : List Op} (h : Closed k db)
    (hops : EachStep (step hash) (fun db op => op.NoReopen k db) db ops) :
    Closed k (run (step hash) db ops) := by
  refine run_invariant ?_ h hops
  intro db op hdb hop
  have hinv : ∀ db c db', Closed k db ∧ op.NoReopen k db → op.Allows db c → c.Step db db' →
      Closed k db' ∧ op.NoReopen k db' := by
    rintro db c db' ⟨hdb, hop⟩ hallow hc
    exact ⟨hdb.change hop hallow hc, hop.change hallow hc⟩
  have hstep := step_invariant hash hinv ⟨hdb, hop⟩
  exact hstep.1

theorem Closed.of_settleInTx (h : db.settleInTx o = .ok (db', true))
    (hterminal : o.outcome.terminal = true) : Closed (o.requestId, o.attemptId) db' := by
  rcases settleInTx_cases h with ⟨hfalse, -⟩ | ⟨-, old, s, hobs, hw⟩
  · cases hfalse
  · obtain ⟨hstate, hzero⟩ := settlementOf_terminal hobs.2.2.2.2.2 hterminal
    have hkey : old.key = (o.requestId, o.attemptId) := Table.find?_key hobs.1
    have hold : db.attempts.find? old.key = some old := by
      rw [hkey]
      exact hobs.1
    have hfind := (writeSettlement_spec hw).find? hold (o.requestId, o.attemptId)
    rw [if_pos hkey.symm] at hfind
    exact ⟨_, hfind, hstate, hzero⟩

end

/-- Once a terminal observation has been applied, the attempt is never pending again and reserves
nothing, in every run that reports no further progress of it. -/
theorem settled_attempt_stays_closed (hash : PricingSnapshot → String) {o : Observation}
    (before after : List Op) (delivery : Op) {db' : Db} (hterminal : o.outcome.terminal = true)
    (happlied : delivery.Settles o (run (step hash) empty before) (db', true))
    (hops : EachStep (step hash) (fun db op => op.NoReopen (o.requestId, o.attemptId) db)
      (run (step hash) empty (before ++ [delivery])) after) :
    ∃ r, (run (step hash) empty (before ++ delivery :: after)).attempts.find? (o.requestId, o.attemptId) = some r ∧
      r.meteringStatus ≠ .pending ∧ r.pendingRiskPicos = 0 := by
  obtain ⟨db₁, -, hsettle⟩ := happlied.settleInTx
  have hclosed : Closed (o.requestId, o.attemptId) (run (step hash) empty (before ++ [delivery])) := by
    rw [run_append_singleton, happlied.step_eq hash]
    exact Closed.of_settleInTx hsettle hterminal
  obtain ⟨r, hfind, hsettled, hrisk⟩ := hclosed.run hops
  rw [run_append_cons]
  refine ⟨r, hfind, fun hpending => ?_, hrisk⟩
  rw [hpending] at hsettled
  rcases hsettled with h | h <;> cases h

def Sample.finished (report : Observation) : List Op := opening ++
  [.admission (admission "a" 5 100) none, .settle (observation "a" 1 .final (some 40)), .settle report]

/-- A report of progress with a higher revision reopens a settled attempt: it is pending again,
reserves 30 and takes a slot. -/
theorem settled_attempt_reopens :
    ((run (step hash) empty (opening ++ [.admission (admission "a" 5 100) none])).settleInTx
        (observation "a" 1 .final (some 40))).map Prod.snd = .ok true ∧
    ((run (step hash) empty (finished (observation "a" 2 .inProgress (some 10)))).attempts.find? ("a", "1")).map
        AttemptRow.settled = some (10, .pending, 30) ∧
    (run (step hash) empty (finished (observation "a" 2 .inProgress (some 10)))).inFlight scope window = 1 :=
  ⟨by decide, by decide, by decide⟩

/-- A later final report keeps the attempt closed. -/
theorem settled_attempt_stays_closed_repriced :
    ∃ r, (run (step hash) empty (finished (observation "a" 2 .final (some 70)))).attempts.find? ("a", "1") = some r ∧
      r.meteringStatus ≠ .pending ∧ r.pendingRiskPicos = 0 := by
  have happlied : ((run (step hash) empty (opening ++ [.admission (admission "a" 5 100) none])).settleInTx
        (observation "a" 1 .final (some 40))).map Prod.snd = .ok true := by
    decide
  obtain ⟨result, hresult⟩ := exists_of_toBool (x := (run (step hash) empty (opening ++
      [.admission (admission "a" 5 100) none])).settleInTx (observation "a" 1 .final (some 40))) (by decide)
  obtain ⟨db', applied⟩ := result
  rw [hresult] at happlied
  obtain rfl : applied = true := Except.ok.inj happlied
  exact settled_attempt_stays_closed hash
    (opening ++ [.admission (admission "a" 5 100) none])
    [.settle (observation "a" 2 .final (some 70))]
    (.settle (observation "a" 1 .final (some 40))) rfl ⟨rfl, hresult⟩
    ⟨fun _ hprogress => (by cases hprogress), trivial⟩

end CcSwitchServer.ValueQuota
