import CcSwitchServer.ValueQuota.Attempt

/-! # Settlement converges

The observation with the highest revision decides, in whatever order the reports arrive.
-/

namespace CcSwitchServer.ValueQuota
open Foundations ValuePricing Usage Db AttemptRow Sample

/-! ## Observations that decide -/

/-- A free outcome, or a complete one of the admitted model that the tariff can price. -/
def Observation.Decisive (o : Observation) (snapshot : PricingSnapshot)
    (tariff : ExecutionModelPrice) : Prop :=
  o.outcome = .free ∨
    (o.outcome = .final ∨ o.outcome = .finalConservative ∨ o.outcome = .interrupted) ∧
      o.reportedMatches snapshot = true ∧ (o.price tariff o.effectiveTier).isSome

namespace Observation
variable {o : Observation} {snapshot : PricingSnapshot} {tariff : ExecutionModelPrice}

theorem pricedValue_settled (o : Observation) (tariff : ExecutionModelPrice) (priced : PricedValue) :
    (o.pricedValue tariff priced).2.Settled := by
  simp only [pricedValue]
  split
  · exact .inr rfl
  · exact .inl rfl

theorem Decisive.settledValue (h : o.Decisive snapshot tariff) :
    ∃ value : ℕ × MeteringStatus, value.2.Settled ∧
      ∀ reserved old, o.settledValue snapshot tariff reserved old = value := by
  rcases h with hfree | ⟨houtcome, hmatches, hprice⟩
  · refine ⟨(0, .observed), .inl rfl, fun reserved old => ?_⟩
    simp only [Observation.settledValue, hfree]
  · obtain ⟨priced, hpriced⟩ := Option.isSome_iff_exists.mp hprice
    refine ⟨o.pricedValue tariff priced, o.pricedValue_settled tariff priced, fun reserved old => ?_⟩
    rcases houtcome with heq | heq | heq <;> simp only [Observation.settledValue, heq, hmatches, hpriced, if_true]

end Observation

/-- The row still has the terms of its admission; compaction leaves the price row to the snapshot. -/
structure KeepsTerms (r₀ : AttemptRow) (tariff : ExecutionModelPrice) (r : AttemptRow) : Prop where
  scope : r.scope = r₀.scope
  pricingRevision : r.pricingRevision = r₀.pricingRevision
  effectiveModel : r.effectiveModel = r₀.effectiveModel
  effectiveTier : r.effectiveTier = r₀.effectiveTier
  frozenTariff : r.frozenTariff = if r.compactedAtMs = none then some tariff else none

/-- The snapshot that priced the admission is still installed and has the frozen price row. -/
structure Priced (db : Db) (r₀ : AttemptRow) (snapshot : PricingSnapshot)
    (tariff : ExecutionModelPrice) : Prop where
  cached : db.cachedSnapshot r₀.scope.routerUrl r₀.scope.installationId r₀.pricingRevision = .ok snapshot
  model : snapshot.model r₀.effectiveModel = .ok tariff

section
variable {db : Db} {r₀ r : AttemptRow} {snapshot : PricingSnapshot} {tariff : ExecutionModelPrice} {o : Observation}

theorem frozenTariffOf_eq (hr : KeepsTerms r₀ tariff r) (htariff : snapshot.model r₀.effectiveModel = .ok tariff) :
    frozenTariffOf snapshot r r₀.effectiveModel = .ok tariff := by
  have hfrozen := hr.frozenTariff
  have hcurrent : lift (snapshot.model r₀.effectiveModel) = .ok tariff := by rw [htariff]; rfl
  rw [frozenTariffOf, bind_eq_ok]
  refine ⟨tariff, ?_, by rw [hcurrent, ok_bind, ensure_of rfl]; rfl⟩
  cases hat : r.compactedAtMs with
  | none =>
    rw [hat, if_pos rfl] at hfrozen
    rw [hfrozen]
    rfl
  | some at_ =>
    rw [hat, if_neg (Option.some_ne_none at_)] at hfrozen
    rw [Option.isSome_some, if_pos rfl, ensure_of hfrozen, ok_bind, hcurrent]

theorem settlementOf_decisive (hp : Priced db r₀ snapshot tariff) (hr : KeepsTerms r₀ tariff r)
    (hmodel : o.effectiveModel = r₀.effectiveModel) {value : ℕ × MeteringStatus} (hsettled : value.2.Settled)
    (hvalue : ∀ reserved old, o.settledValue snapshot tariff reserved old = value) :
    db.settlementOf r o = .ok ⟨o.usageRevision, o.digest, value.1, value.2, 0⟩ := by
  have hpending : value.2 ≠ .pending := by
    rcases hsettled with h | h <;> rw [h] <;> decide
  rw [settlementOf, hr.scope, hr.pricingRevision, hp.cached, ok_bind, hmodel, frozenTariffOf_eq hr hp.model, ok_bind]
  simp only [hvalue, remainingRisk, if_neg hpending]
  rfl

end

/-! ## The two phases of a row -/

namespace AttemptRow

/-- The row would still be replaced by `best`. -/
def Awaits (r : AttemptRow) (best : Observation) : Prop :=
  r.usageRevision < best.usageRevision ∨
    r.usageRevision = best.usageRevision ∧ ∀ d, r.observation = some d → d.synthetic = true

/-- The row is settled to `value` by `best`. -/
structure Holds (r : AttemptRow) (best : Observation) (value : ℕ × MeteringStatus) : Prop where
  revision : r.usageRevision = best.usageRevision
  observation : r.observation = some best.digest
  amount : r.usagePicos = value.1
  state : r.meteringStatus = value.2
  risk : r.pendingRiskPicos = 0

end AttemptRow

section
variable {r : AttemptRow} {best o : Observation} {value : ℕ × MeteringStatus} {s : Settlement} {mark : ℕ}

theorem AttemptRow.Awaits.supersededBy (h : r.Awaits best) (hgenuine : best.synthetic = false) :
    r.supersededBy best = true := by
  rw [supersededBy_iff]
  rcases h with hlt | ⟨heq, hall⟩
  · exact .inl hlt
  · refine .inr ⟨heq, fun previous hprevious => ?_⟩
    have hsynthetic := hall previous hprevious
    refine ⟨?_, .inr ⟨hgenuine, .inl hsynthetic⟩⟩
    rintro rfl
    rw [show best.digest.synthetic = best.synthetic from rfl, hgenuine] at hsynthetic
    cases hsynthetic

/-- Nothing of the highest revision or below replaces the row that holds it, unless it is another
genuine observation of that revision. -/
theorem AttemptRow.Holds.not_supersededBy (h : r.Holds best value) (hsettled : value.2.Settled)
    (hle : o.usageRevision ≤ best.usageRevision)
    (hother : o.usageRevision = best.usageRevision → o.synthetic = false → o = best) :
    ¬r.supersededBy o = true := by
  rw [supersededBy_iff, h.revision]
  rintro (hlt | ⟨heq, hall⟩)
  · omega
  · obtain ⟨hne, ⟨hsynthetic, hopen⟩ | ⟨hreal, -⟩⟩ := hall best.digest h.observation
    · rw [h.state] at hopen
      exact hopen hsettled
    · rw [hother heq.symm hreal] at hne
      exact hne rfl

/-- A row that awaits `best` still does after another settlement of a lower revision, or a synthetic
one of the same. -/
theorem AttemptRow.Awaits.settle
    (hnew : s.revision < best.usageRevision ∨ s.revision = best.usageRevision ∧ s.digest.synthetic = true) :
    (r.settle s mark).Awaits best := by
  rcases hnew with hlt | ⟨heq, hsynthetic⟩
  · exact .inl hlt
  · refine .inr ⟨heq, fun d hd => ?_⟩
    cases hd
    exact hsynthetic

end

/-! ## What may arrive -/

/-- The genuine observations of an attempt: one a revision, and `best` is the highest. -/
structure Candidates (S : List Observation) (best : Observation) : Prop where
  genuine : ∀ o ∈ S, o.synthetic = false
  mem : best ∈ S
  highest : ∀ o ∈ S, o.usageRevision ≤ best.usageRevision
  distinct : ∀ o ∈ S, ∀ o' ∈ S, o.usageRevision = o'.usageRevision → o = o'

/-- The operation reports nothing genuine of the attempt `k` but observations of `S`. -/
def Op.Reports (S : List Observation) (k : String × String) (db : Db) : Op → Prop
  | .settle o => (o.requestId, o.attemptId) = k → o ∈ S
  | .usageLog log => (log.requestId, wantedAttempt log) = k →
      ∃ o ∈ S, o.usageRevision = log.usageRevision + 1 ∧ ∀ o', db.LogObservation log o' → o' = o
  | _ => True

/-- The persisted logs of the attempt have a revision of at most `revision`. -/
def LogsUpTo (k : String × String) (revision : ℕ) (db : Db) : Prop :=
  ∀ row ∈ db.usageRecords.rows, ∀ log, row.payload = some log →
    (log.requestId, wantedAttempt log) = k → log.usageRevision + 1 ≤ revision

section
variable {db db' : Db} {S : List Observation} {k : String × String} {best o : Observation} {op : Op} {c : Change}

theorem observe_cases (hallow : op.Allows db (.observe o)) (hop : op.Reports S k db)
    (hlogs : LogsUpTo k best.usageRevision db) (hk : (o.requestId, o.attemptId) = k)
    {old : AttemptRow} (hfind : db.attempts.find? k = some old) :
    o ∈ S ∨ o.synthetic = true ∧ o.usageRevision ≤ max best.usageRevision old.usageRevision := by
  cases op with
  | settle o' =>
    cases hallow
    exact .inl (hop hk)
  | usageLog log =>
    rcases hallow with h | h | ⟨o', ho', h⟩
    · cases h
    · cases h
    · cases h
      obtain ⟨row, hrow, ho⟩ := id ho'
      have hkey : (log.requestId, wantedAttempt log) = k := by
        rw [← hk, ho, ← attempt?_attemptId hrow]
        rfl
      obtain ⟨o'', hmem, -, heq⟩ := hop hkey
      exact .inl (heq o ho' ▸ hmem)
  | sweep candidates =>
    rcases hallow with h | ⟨key, -, h | ⟨o', ho', h⟩⟩
    · cases h
    · cases h
    · cases h
      obtain ⟨log, row, hpayload, hwanted, hrow, rfl⟩ := ho'
      obtain ⟨record, hrecord, hlog⟩ := Option.bind_eq_some_iff.mp hpayload
      have hkey : (log.requestId, wantedAttempt log) = k := by
        rw [← hk, hwanted, ← attempt?_attemptId hrow]
        rfl
      have hle := hlogs record (Table.find?_mem hrecord) log hlog hkey
      have hrow' : db.attempts.find? k = some row := by
        rw [← hkey, hwanted]
        exact hrow
      rw [hfind] at hrow'
      cases hrow'
      refine .inr ⟨rfl, ?_⟩
      show max (log.usageRevision + 1) old.usageRevision ≤ _
      omega
  | admission a trial => cases hallow
  | admitMarket a trial now =>
    rcases hallow with h | ⟨revision, h⟩
    · cases h
    · cases h
  | _ => simp [Op.Allows] at hallow

theorem Op.Reports.change (hop : op.Reports S k db) (hallow : op.Allows db c) (hc : c.Step db db') :
    op.Reports S k db' := by
  cases op with
  | usageLog log =>
    intro hk
    obtain ⟨o, hmem, hrev, hall⟩ := hop hk
    exact ⟨o, hmem, hrev, fun o' ho' => hall o' (LogObservation.of_change hallow hc ho')⟩
  | _ => exact hop

/-- No stored log carries a higher revision. -/
theorem LogsUpTo.change (hS : Candidates S best) (h : LogsUpTo k best.usageRevision db)
    (hop : op.Reports S k db) (hallow : op.Allows db c) (hc : c.Step db db') :
    LogsUpTo k best.usageRevision db' := by
  by_cases hrecord : ∀ log, c ≠ .record log
  · rw [LogsUpTo, (Change.frame hc).usageRecords hrecord]
    exact h
  · push Not at hrecord
    obtain ⟨log, rfl⟩ := hrecord
    obtain rfl : op = .usageLog log := by
      cases op with
      | usageLog log' =>
        rcases hallow with heq | heq | ⟨o, -, heq⟩
        · cases heq
          rfl
        · cases heq
        · cases heq
      | _ => simp [Op.Allows] at hallow
    simp only [Change.Step, upsertUsageRow, bind_eq_ok, pure_eq_ok] at hc
    obtain ⟨-, -, -, -, rfl⟩ := hc
    intro row hrow log' hlog' hk
    rw [Table.upsert_rows] at hrow
    rcases List.mem_append.mp hrow with hrow | hrow
    · exact h row (Table.mem_others.mp hrow).1 log' hlog' hk
    · rw [List.mem_singleton.mp hrow] at hlog'
      cases hlog'
      obtain ⟨o, hmem, hrev, -⟩ := hop hk
      rw [← hrev]
      exact hS.highest o hmem

end

/-! ## One change -/

theorem KeepsTerms.settle {r₀ r : AttemptRow} {tariff : ExecutionModelPrice}
    (h : KeepsTerms r₀ tariff r) (s : Settlement) (mark : ℕ) :
    KeepsTerms r₀ tariff (r.settle s mark) :=
  ⟨h.scope, h.pricingRevision, h.effectiveModel, h.effectiveTier, h.frozenTariff⟩

theorem Priced.change {db db' : Db} {c : Change} {r₀ : AttemptRow} {snapshot : PricingSnapshot}
    {tariff : ExecutionModelPrice} (h : Priced db r₀ snapshot tariff) (hc : c.Step db db') :
    Priced db' r₀ snapshot tariff :=
  ⟨Change.cachedSnapshot hc h.cached, h.model⟩

section
variable {db db' : Db} {S : List Observation} {k : String × String} {best : Observation} {op : Op}
  {c : Change} {r₀ : AttemptRow} {snapshot : PricingSnapshot} {tariff : ExecutionModelPrice}
  {value : ℕ × MeteringStatus}

/-- Until the highest revision arrives the row awaits it; from then on nothing replaces it. -/
theorem row_change (hS : Candidates S best) (hsettled : value.2.Settled)
    (hvalue : ∀ reserved old, best.settledValue snapshot tariff reserved old = value)
    (hp : Priced db r₀ snapshot tariff) (hlogs : LogsUpTo k best.usageRevision db) {r : AttemptRow}
    (hfind : db.attempts.find? k = some r) (hterms : KeepsTerms r₀ tariff r)
    (hallow : op.Allows db c) (hop : op.Reports S k db) (hc : c.Step db db') :
    ∃ r', db'.attempts.find? k = some r' ∧ KeepsTerms r₀ tariff r' ∧
      (r.Awaits best → r'.Awaits best ∨ r'.Holds best value) ∧
      (r.Holds best value → r'.Holds best value) := by
  have hstep := Change.rowStep hc k
  rw [hfind] at hstep
  generalize hafter : db'.attempts.find? k = after at hstep
  cases hstep with
  | same => exact ⟨r, rfl, hterms, .inl, id⟩
  | observed o _ s heq hk hobs =>
    subst heq
    obtain ⟨-, -, hmodel, -, hsup, hs⟩ := hobs
    obtain ⟨hrev, hdigest⟩ := settlementOf_fields hs
    refine ⟨_, rfl, hterms.settle s _, fun hawaits => ?_, fun hholds => ?_⟩
    · rcases observe_cases hallow hop hlogs hk hfind with hmem | ⟨hsynthetic, hle⟩
      · by_cases hbest : o.usageRevision = best.usageRevision
        · obtain rfl := hS.distinct o hmem best hS.mem hbest
          have hmodel' : o.effectiveModel = r₀.effectiveModel := hmodel.symm.trans hterms.effectiveModel
          rw [settlementOf_decisive hp hterms hmodel' hsettled hvalue] at hs
          cases hs
          exact .inr ⟨rfl, rfl, rfl, rfl, rfl⟩
        · have hle := hS.highest o hmem
          exact .inl (.settle (.inl (by omega)))
      · have hrow : r.usageRevision ≤ best.usageRevision := by
          rcases hawaits with h | ⟨h, -⟩ <;> omega
        rcases Nat.lt_or_ge s.revision best.usageRevision with hlt | hge
        · exact .inl (.settle (.inl hlt))
        · refine .inl (.settle (.inr ⟨by omega, ?_⟩))
          rw [hdigest]
          exact hsynthetic
    · exfalso
      rcases observe_cases hallow hop hlogs hk hfind with hmem | ⟨hsynthetic, hle⟩
      · exact hholds.not_supersededBy hsettled (hS.highest o hmem)
          (fun heq _ => hS.distinct o hmem best hS.mem heq) hsup
      · rw [hholds.revision, Nat.max_self] at hle
        refine hholds.not_supersededBy hsettled hle (fun _ hreal => ?_) hsup
        rw [hsynthetic] at hreal
        cases hreal
  | resolved _ result only heq hopen =>
    refine ⟨_, rfl, hterms.settle _ _, fun hawaits => ?_, fun hholds => ?_⟩
    · rcases hawaits with hlt | ⟨heq, -⟩
      · exact .inl (.settle (.inl hlt))
      · exact .inl (.settle (.inr ⟨heq, rfl⟩))
    · rw [hholds.state] at hopen
      exact absurd hsettled hopen
  | compacted _ now heq =>
    refine ⟨_, rfl, ⟨hterms.scope, hterms.pricingRevision, hterms.effectiveModel,
      hterms.effectiveTier, rfl⟩, .inl, fun hholds => ?_⟩
    exact ⟨hholds.revision, hholds.observation, hholds.amount, hholds.state, hholds.risk⟩

/-- The attempt with a row of the kind `Φ`, under the terms of its admission. -/
structure Following (k : String × String) (best : Observation) (r₀ : AttemptRow)
    (snapshot : PricingSnapshot) (tariff : ExecutionModelPrice) (Φ : AttemptRow → Prop) (db : Db) :
    Prop where
  priced : Priced db r₀ snapshot tariff
  logs : LogsUpTo k best.usageRevision db
  row : ∃ r, db.attempts.find? k = some r ∧ KeepsTerms r₀ tariff r ∧ Φ r

variable {Φ : AttemptRow → Prop}

theorem Following.change (hS : Candidates S best) (hsettled : value.2.Settled)
    (hvalue : ∀ reserved old, best.settledValue snapshot tariff reserved old = value)
    (hΦ : ∀ r r' : AttemptRow, (r.Awaits best → r'.Awaits best ∨ r'.Holds best value) →
      (r.Holds best value → r'.Holds best value) → Φ r → Φ r')
    (hallow : op.Allows db c) (hop : op.Reports S k db) (hc : c.Step db db')
    (h : Following k best r₀ snapshot tariff Φ db) :
    Following k best r₀ snapshot tariff Φ db' := by
  obtain ⟨r, hfind, hterms, hr⟩ := h.row
  obtain ⟨r', hfind', hterms', hawaits, hholds⟩ := row_change hS hsettled hvalue h.priced h.logs
    hfind hterms hallow hop hc
  exact ⟨h.priced.change hc, h.logs.change hS hop hallow hc, ⟨r', hfind', hterms', hΦ r r' hawaits hholds hr⟩⟩

theorem Following.run {hash : PricingSnapshot → String} {ops : List Op} (hS : Candidates S best)
    (hsettled : value.2.Settled) (hvalue : ∀ reserved old, best.settledValue snapshot tariff reserved old = value)
    (hΦ : ∀ r r' : AttemptRow, (r.Awaits best → r'.Awaits best ∨ r'.Holds best value) →
      (r.Holds best value → r'.Holds best value) → Φ r → Φ r')
    (hops : EachStep (step hash) (fun db op => op.Reports S k db) db ops)
    (h : Following k best r₀ snapshot tariff Φ db) :
    Following k best r₀ snapshot tariff Φ (run (step hash) db ops) := by
  refine run_invariant ?_ h hops
  intro db op hdb hop
  have hinv : ∀ db c db', Following k best r₀ snapshot tariff Φ db ∧ op.Reports S k db →
      op.Allows db c → c.Step db db' →
      Following k best r₀ snapshot tariff Φ db' ∧ op.Reports S k db' := by
    rintro db c db' ⟨hdb, hop⟩ hallow hc
    exact ⟨hdb.change hS hsettled hvalue hΦ hallow hop hc, hop.change hallow hc⟩
  have hstep := step_invariant hash hinv ⟨hdb, hop⟩
  exact hstep.1

theorem LogsUpTo.run {hash : PricingSnapshot → String} {ops : List Op} (hS : Candidates S best)
    (hops : EachStep (step hash) (fun db op => op.Reports S k db) db ops) (h : LogsUpTo k best.usageRevision db) :
    LogsUpTo k best.usageRevision (run (step hash) db ops) := by
  refine run_invariant ?_ h hops
  intro db op hdb hop
  have hinv : ∀ db c db', LogsUpTo k best.usageRevision db ∧ op.Reports S k db →
      op.Allows db c → c.Step db db' → LogsUpTo k best.usageRevision db' ∧ op.Reports S k db' := by
    rintro db c db' ⟨hdb, hop⟩ hallow hc
    exact ⟨hdb.change hS hop hallow hc, hop.change hallow hc⟩
  have hstep := step_invariant hash hinv ⟨hdb, hop⟩
  exact hstep.1

theorem Following.model (h : Following k best r₀ snapshot tariff Φ db)
    (hbest : (best.requestId, best.attemptId) = k) {result : Db × Bool}
    (hsettle : db.settleInTx best = .ok result) : best.effectiveModel = r₀.effectiveModel := by
  obtain ⟨r, hfind, hterms, -⟩ := h.row
  simp only [settleInTx, bind_eq_ok, context_eq_ok, ensure_eq_ok] at hsettle
  obtain ⟨old, hold, key, -, -, ⟨-, hmodel, -⟩, -⟩ := hsettle
  rw [attempt?, hbest, hfind] at hold
  cases hold
  exact hmodel.symm.trans hterms.effectiveModel

theorem Following.settle (hS : Candidates S best) (hbest : (best.requestId, best.attemptId) = k)
    (hsettled : value.2.Settled) (hvalue : ∀ reserved old, best.settledValue snapshot tariff reserved old = value)
    (h : Following k best r₀ snapshot tariff (fun r => r.Awaits best ∨ r.Holds best value) db)
    {result : Db × Bool} (hsettle : db.settleInTx best = .ok result) :
    Following k best r₀ snapshot tariff (fun r => r.Holds best value) result.1 := by
  obtain ⟨r, hfind, hterms, hr⟩ := h.row
  have hgenuine := hS.genuine best hS.mem
  obtain ⟨db', applied⟩ := result
  rcases settleInTx_cases hsettle with ⟨rfl, rfl⟩ | ⟨-, hstep⟩
  · obtain ⟨old, hold, hsup⟩ := settleInTx_false hsettle
    rw [attempt?, hbest, hfind] at hold
    cases hold
    refine ⟨h.priced, h.logs, r, hfind, hterms, hr.resolve_left fun hawaits => ?_⟩
    exact hsup (hawaits.supersededBy hgenuine)
  · have hop : (Op.settle best).Reports S k db := fun _ => hS.mem
    have hallow : (Op.settle best).Allows db (.observe best) := rfl
    have hfollow := h.change hS hsettled hvalue
      (fun r r' hawaits hholds hr => hr.elim hawaits fun hold => .inr (hholds hold)) hallow hop hstep
    obtain ⟨r', hfind', hterms', -⟩ := hfollow.row
    refine ⟨hfollow.priced, hfollow.logs, r', hfind', hterms', ?_⟩
    obtain ⟨old, s, hobs, hw⟩ := hstep
    obtain ⟨hold, -, hmodel, -, -, hs⟩ := hobs
    rw [attempt?, hbest, hfind] at hold
    cases hold
    have hmodel' : best.effectiveModel = r₀.effectiveModel := hmodel.symm.trans hterms.effectiveModel
    rw [settlementOf_decisive h.priced hterms hmodel' hsettled hvalue] at hs
    cases hs
    have hkey : r.key = k := Table.find?_key hfind
    rw [(writeSettlement_spec hw).find? (by rw [hkey]; exact hfind), if_pos hkey.symm] at hfind'
    cases hfind'
    exact ⟨rfl, rfl, rfl, rfl, rfl⟩

end

/-! ## Whole runs -/

/-- The observation is free, or complete with the admitted model and priced by the frozen tariff. -/
def Db.Decides (db : Db) (r : AttemptRow) (o : Observation) : Prop :=
  ∃ snapshot tariff, db.cachedSnapshot r.scope.routerUrl r.scope.installationId r.pricingRevision =
    .ok snapshot ∧ r.frozenTariff = some tariff ∧ o.Decisive snapshot tariff

section
variable {db : Db} {S : List Observation} {k : String × String} {best : Observation} {op : Op}
  {r₀ : AttemptRow} {snapshot : PricingSnapshot} {tariff : ExecutionModelPrice}
  {value : ℕ × MeteringStatus} (hash : PricingSnapshot → String)

theorem Following.deliver (hS : Candidates S best) (hbest : (best.requestId, best.attemptId) = k)
    (hsettled : value.2.Settled) (hvalue : ∀ reserved old, best.settledValue snapshot tariff reserved old = value)
    (hop : op.Reports S k db) {result : Db × Bool} (hdelivers : op.Settles best db result)
    (h : Following k best r₀ snapshot tariff (fun r => r.Awaits best ∨ r.Holds best value) db) :
    best.effectiveModel = r₀.effectiveModel ∧
      Following k best r₀ snapshot tariff (fun r => r.Holds best value) (step hash db op) := by
  obtain ⟨db₁, hdb₁, hsettle⟩ := hdelivers.settleInTx
  have h₁ : Following k best r₀ snapshot tariff (fun r => r.Awaits best ∨ r.Holds best value) db₁ := by
    rcases hdb₁ with rfl | ⟨log, rfl, hrecord⟩
    · exact h
    · have hallow : (Op.usageLog log).Allows db (.record log) := .inl rfl
      exact h.change hS hsettled hvalue
        (fun r r' hawaits hholds hr => hr.elim hawaits fun hold => .inr (hholds hold))
        hallow hop hrecord
  rw [hdelivers.step_eq hash]
  exact ⟨h₁.model hbest hsettle, h₁.settle hS hbest hsettled hvalue hsettle⟩

theorem admissionModel_priced {a : Admission} {trial : Option MarketTrialBudget}
    {model : ExecutionModelPrice} (h : db.admissionModel a trial = .ok model) :
    ∃ snapshot, db.cachedSnapshot a.scope.routerUrl a.scope.installationId a.pricingRevision =
      .ok snapshot ∧ snapshot.model a.effectiveModel = .ok model := by
  simp only [admissionModel, bind_eq_ok] at h
  obtain ⟨-, -, -, -, -, -, -, -, -, -, snapshot, hsnap, h⟩ := h
  split at h
  · cases h
  · rename_i model' hmodel
    simp only [bind_eq_ok, pure_eq_ok] at h
    obtain ⟨-, -, rfl⟩ := h
    exact ⟨snapshot, hsnap, hmodel⟩

theorem Following.admitted (op : Op) (hlogs : LogsUpTo k best.usageRevision (step hash db op))
    (hnone : db.attempts.find? k = none) (hnew : (step hash db op).attempts.find? k = some r₀) :
    ∃ snapshot tariff, r₀.frozenTariff = some tariff ∧
      Following k best r₀ snapshot tariff (fun r => r.Awaits best) (step hash db op) := by
  rcases step_identities hash db op with hsame | ⟨a, trial, db₀, revision, -, hsame, hstep⟩
  · have hgone := (attempt?_eq_none hsame k.1 k.2).mpr hnone
    rw [attempt?, hnew] at hgone
    cases hgone
  · have hrow := Change.rowStep hstep k
    rw [hsame.attempts, hnone, hnew] at hrow
    generalize step hash db op = db' at *
    cases hrow with
    | admitted a' trial' model reserved heq hk hadmits =>
      obtain ⟨snapshot, hcached, hmodel⟩ := admissionModel_priced hadmits.1
      refine ⟨snapshot, model, rfl, ⟨Change.cachedSnapshot hstep hcached, hmodel⟩, hlogs, _, hnew,
        ⟨rfl, rfl, rfl, rfl, rfl⟩, ?_⟩
      rcases Nat.eq_zero_or_pos best.usageRevision with hzero | hpos
      · exact .inr ⟨hzero.symm, fun d hd => by cases hd⟩
      · exact .inl hpos

end

/-- Whatever the order of delivery, an attempt ends with what its highest genuine observation alone
would have settled it to right after its admission. -/
theorem settlement_converges (hash : PricingSnapshot → String) {S : List Observation}
    {k : String × String} {best : Observation} (hS : Candidates S best)
    (hbest : (best.requestId, best.attemptId) = k) {r₀ : AttemptRow}
    (before mid after : List Op) (admission delivery : Op)
    (hops : EachStep (step hash) (fun db op => op.Reports S k db) empty
      (before ++ admission :: (mid ++ delivery :: after)))
    (hnone : (run (step hash) empty before).attempts.find? k = none)
    (hnew : (run (step hash) empty (before ++ [admission])).attempts.find? k = some r₀) {result : Db × Bool}
    (hdelivers : delivery.Settles best (run (step hash) empty (before ++ admission :: mid)) result)
    (hdecides : (run (step hash) empty (before ++ [admission])).Decides r₀ best) :
    ∃ r s, (run (step hash) empty (before ++ admission :: (mid ++ delivery :: after))).attempts.find? k = some r ∧
      (run (step hash) empty (before ++ [admission])).settlementOf r₀ best = .ok s ∧
      r.settled = (s.amount, s.state, s.risk) ∧
      ∀ db₁ applied, (run (step hash) empty (before ++ [admission])).settleInTx best =
        .ok (db₁, applied) → (db₁.attempts.find? k).map settled = some r.settled := by
  obtain ⟨hbefore, hadmission, hrest⟩ := hops.split
  obtain ⟨hmid, hdelivery, hafter⟩ := hrest.split
  have hlogs : LogsUpTo k best.usageRevision (run (step hash) empty (before ++ [admission])) := by
    have hempty : LogsUpTo k best.usageRevision empty := by
      intro row hrow
      cases hrow
    refine hempty.run hS (EachStep.append.mpr ⟨hbefore, hadmission, trivial⟩)
  rw [run_append_cons] at hdelivers ⊢
  rw [run_append_cons]
  generalize hdb₀ : run (step hash) empty (before ++ [admission]) = db₀ at *
  have hdb₀ : step hash (run (step hash) empty before) admission = db₀ := by
    rw [← hdb₀, run_append_singleton]
  -- the terms that the admission froze
  obtain ⟨snapshot, tariff, hfrozen, hadmitted⟩ := Following.admitted hash admission (hdb₀ ▸ hlogs) hnone (hdb₀ ▸ hnew)
  rw [hdb₀] at hadmitted
  obtain ⟨snapshot', tariff', hcached, hfrozen', hdecisive⟩ := hdecides
  rw [hadmitted.priced.cached] at hcached
  rw [hfrozen] at hfrozen'
  cases hcached
  cases hfrozen'
  obtain ⟨value, hsettled, hvalue⟩ := hdecisive.settledValue
  have hwaiting : Following k best r₀ snapshot tariff (fun r => r.Awaits best ∨ r.Holds best value) db₀ := by
    obtain ⟨r, hfind, hterms, hawaits⟩ := hadmitted.row
    exact ⟨hadmitted.priced, hadmitted.logs, r, hfind, hterms, .inl hawaits⟩
  have halone : ∀ result, db₀.settleInTx best = .ok result →
      (result.1.attempts.find? k).map settled = some (value.1, value.2, 0) := by
    intro result hresult
    obtain ⟨r, hfind, -, hr⟩ := (hwaiting.settle hS hbest hsettled hvalue hresult).row
    rw [hfind, Option.map_some, settled, hr.amount, hr.state, hr.risk]
  -- the run: waiting, then delivered, then held
  have hmidway := hwaiting.run hS hsettled hvalue
    (fun r r' hawaits hholds hr => hr.elim hawaits fun hold => .inr (hholds hold)) hmid
  obtain ⟨hmodel, hheld⟩ := hmidway.deliver hash hS hbest hsettled hvalue hdelivery hdelivers
  rw [run_append_singleton] at hafter ⊢
  obtain ⟨r, hfind, -, hr⟩ := (hheld.run hS hsettled hvalue (fun r r' _ hholds hr => hholds hr) hafter).row
  obtain ⟨r₁, hfind₁, hterms₁, -⟩ := hadmitted.row
  rw [hnew] at hfind₁
  cases hfind₁
  have htriple : r.settled = (value.1, value.2, 0) := by
    rw [settled, hr.amount, hr.state, hr.risk]
  refine ⟨r, _, hfind, settlementOf_decisive hadmitted.priced hterms₁ hmodel hsettled hvalue,
    htriple, fun db₁ applied hsettle => ?_⟩
  rw [htriple]
  exact halone _ hsettle

namespace Sample

def stream : List Observation := [observation "a" 1 .inProgress (some 10), observation "a" 2 .final (some 40)]

/-- The final usage arrives after the guard and the sweeper, the partial usage again at the end. -/
def streamed : List Op := opening ++ .admission (admission "a" 5 100) none ::
  ([.outcome "a" "1" .upstreamError true, .settle (observation "a" 1 .inProgress (some 10)),
    .sweep [("a", "1")]] ++ .settle (observation "a" 2 .final (some 40)) ::
  [.compact 10 20, .settle (observation "a" 1 .inProgress (some 10)), .settle (observation "a" 2 .final (some 40))])

theorem stream_candidates : Candidates stream (observation "a" 2 .final (some 40)) where
  genuine := by decide
  mem := by decide
  highest := by decide
  distinct := by decide

end Sample

theorem settlement_converges_streamed :
    ∃ r, (run (step hash) empty streamed).attempts.find? ("a", "1") = some r ∧ r.settled = (40, .observed, 0) := by
  have hops : EachStep (step hash) (fun db op => op.Reports stream ("a", "1") db) empty streamed :=
    ⟨trivial, trivial, trivial, trivial, fun _ => by decide, trivial, fun _ => by decide, trivial,
      fun _ => by decide, fun _ => by decide, trivial⟩
  have hdelivered : (((run (step hash) empty (opening ++
      .admission (admission "a" 5 100) none :: [.outcome "a" "1" .upstreamError true,
        .settle (observation "a" 1 .inProgress (some 10)), .sweep [("a", "1")]])).settleInTx
      (observation "a" 2 .final (some 40))).toBool = true) := by
    decide
  obtain ⟨result, hresult⟩ := exists_of_toBool hdelivered
  obtain ⟨r, s, hfind, hs, hsettled, -⟩ := settlement_converges hash stream_candidates
    rfl opening [.outcome "a" "1" .upstreamError true,
      .settle (observation "a" 1 .inProgress (some 10)), .sweep [("a", "1")]]
    [.compact 10 20, .settle (observation "a" 1 .inProgress (some 10)), .settle (observation "a" 2 .final (some 40))]
    (.admission (admission "a" 5 100) none)
    (.settle (observation "a" 2 .final (some 40))) hops (by decide)
    (show _ = some ((admission "a" 5 100).row price 100 1) by decide)
    ⟨rfl, hresult⟩
    ⟨snapshot, price, by decide, rfl, .inr ⟨.inl rfl, rfl, by decide⟩⟩
  refine ⟨r, hfind, hsettled.trans ?_⟩
  have hvalue : (run (step hash) empty (opening ++ [.admission (admission "a" 5 100) none])).settlementOf
      ((admission "a" 5 100).row price 100 1)
      (observation "a" 2 .final (some 40)) =
      .ok ⟨2, (observation "a" 2 .final (some 40)).digest, 40, .observed, 0⟩ := by
    decide
  rw [hvalue] at hs
  cases hs
  rfl

end CcSwitchServer.ValueQuota
