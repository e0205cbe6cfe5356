import CcSwitchServer.ValueQuota.Attempt
import CcSwitchServer.ValueQuota.Balance

/-! # The soft cap

An admission stays under the limit; later settlements may charge more than an attempt holds.
-/

namespace CcSwitchServer.ValueQuota
open Foundations ValuePricing Usage List Db AttemptRow Sample

/-! ## One admission -/

section
variable {db db' : Db} {a : Admission} {trial : Option MarketTrialBudget}

variable {model : ExecutionModelPrice} {reserved limit : ℕ}

theorem AdmittedBy.metered (h : AdmittedBy db a trial model reserved db') (scope : Scope) (w : Window) :
    db'.meteredUsage scope w = db.meteredUsage scope w ∧
      db'.meteredRisk scope w = db.meteredRisk scope w +
        if a.scope = scope ∧ w.Meters a.startedAtMs then reserved else 0 := by
  have hperm := h.evidence_perm scope w.Meters
  have hsum : ∀ f : Contribution → ℕ, (∀ g : GapRow, f g.contribution = 0) →
      ((db'.evidence scope w.Meters).map f).sum = ((db.evidence scope w.Meters).map f).sum +
        if a.scope = scope ∧ w.Meters a.startedAtMs then
          f (a.row model reserved (db.watermark + 1)).contribution else 0 := by
    intro f hf
    have heq := (hperm.map f).sum_eq
    rw [map_append, sum_append, map_append, sum_append, superseded,
      map_map, sum_map_zero _ (f ∘ GapRow.contribution) hf, Nat.zero_add] at heq
    rw [heq, Nat.add_comm]
    congr 1
    split
    · simp
    · simp
  constructor
  · have husage := hsum Contribution.amount fun g => rfl
    rw [sum_amount_evidence, sum_amount_evidence] at husage
    rw [meteredUsage, husage]
    split
    · rfl
    · rfl
  · have hrisk := hsum Contribution.risk fun g => rfl
    rw [sum_risk_evidence, sum_risk_evidence] at hrisk
    rw [meteredRisk, hrisk]
    rfl

theorem limitPicos_le {q : ValuePricing.ValueQuota} (h : q.limitPicos = .ok limit) : limit ≤ i128Max := by
  simp only [ValueQuota.limitPicos, bind_eq_ok] at h
  obtain ⟨micros, -, h⟩ := h
  split at h
  · cases h
  · rw [context_eq_ok, checkedMul_eq_some] at h
    omega

theorem reserve_le_available (h : db.reserve a trial model = .ok reserved) (henforce : a.enforce = true) :
    ∃ available, db.availableFor a trial = .ok available ∧ reserved ≤ available := by
  rw [reserve, if_pos henforce, bind_eq_ok] at h
  obtain ⟨available, havail, h⟩ := h
  refine ⟨available, havail, ?_⟩
  rw [bind_eq_ok] at h
  obtain ⟨-, -, h⟩ := h
  split at h
  · rw [pure_eq_ok] at h
    rw [← h]
    exact Nat.min_le_right _ _
  · rw [pure_eq_ok] at h
    exact h.symm.le

theorem reserve_le (h : db.reserve a trial model = .ok reserved) (henforce : a.enforce = true)
    (hlimit : a.quota.limitPicos = .ok limit) :
    ∃ st, db.statusInTx a.scope a.window = .ok st ∧ st.usedPicos + st.pendingRiskPicos + reserved ≤ limit := by
  obtain ⟨available, havail, hle⟩ := reserve_le_available h henforce
  simp only [availableFor, bind_eq_ok, ensure_eq_ok, lift_eq_ok] at havail
  obtain ⟨st, hst, -, -, limit', hlimit', -, hused, -, hpos, havail⟩ := havail
  rw [hlimit] at hlimit'
  cases hlimit'
  have hroom : available ≤ limit - st.usedPicos - st.pendingRiskPicos := by
    split at havail
    · rw [pure_eq_ok] at havail
      exact havail.symm.le
    · rw [bind_eq_ok] at havail
      obtain ⟨left, -, havail⟩ := havail
      rw [pure_eq_ok] at havail
      rw [← havail]
      exact Nat.min_le_left _ _
  exact ⟨st, hst, by omega⟩

/-- Right behind an enforced admission the balance is at most the limit. -/
theorem admission_within_limit (h : Consistent db) (hstep : Change.Step (.admission a trial) db db')
    (henforce : a.enforce = true) (hlimit : a.quota.limitPicos = .ok limit) :
    ∃ st, db'.statusInTx a.scope a.window = .ok st ∧ st.usedPicos + st.pendingRiskPicos ≤ limit := by
  obtain ⟨model, reserved, ⟨-, -, hreserve⟩, hins⟩ := hstep
  have hspec := insertAttempt_spec hins
  have h' := h.admittedBy hspec
  obtain ⟨st, hst, hle⟩ := reserve_le hreserve henforce hlimit
  obtain ⟨hobserved, hpending, hoffset, hused⟩ := h.statusInTx_ok a.scope a.window hst
  obtain ⟨husage', hrisk'⟩ := hspec.metered a.scope a.window
  have hoffset' : db'.manualOffset a.scope a.window.id = db.manualOffset a.scope a.window.id := by
    rw [manualOffset, manualOffset, lastAdjustment, lastAdjustment, hspec.adjustments]
  have hrise : db'.meteredRisk a.scope a.window ≤ st.pendingRiskPicos + reserved := by
    rw [hrisk', hpending]
    split <;> omega
  have hmax := limitPicos_le hlimit
  simp only [statusInTx, bind_eq_ok, ensure_eq_ok] at hst
  obtain ⟨valid, hwindow, key, hkey, -, hcovered, -, hrange, -⟩ := hst
  obtain rfl := Scope.key_eq hkey
  have hcovered' : (db'.collectedFromMs a.scope).any (· ≤ a.window.meteredStartMs) = true := by
    rw [collectedFromMs, hspec.coverage]
    exact hcovered
  obtain ⟨st', hst'⟩ := h'.statusInTx_total a.scope a.window hwindow hkey hcovered' hrange (by omega) (by omega)
  obtain ⟨hobserved', hpending', hoff', hused'⟩ := h'.statusInTx_ok a.scope a.window hst'
  exact ⟨st', hst', by omega⟩

end

/-! ## The lowest amounts -/

def AttemptRow.held (r : AttemptRow) : ℕ := r.usagePicos + r.pendingRiskPicos

/-- The least that an attempt has held since it was admitted. -/
def lowestHeld (history : List Db) (k : String × String) : ℕ :=
  (history.filterMap fun db => (db.attempts.find? k).map held).min?.getD 0

section
variable {history : List Db} {k : String × String}

theorem lowestHeld_le {db : Db} {r : AttemptRow} (hdb : db ∈ history)
    (hr : db.attempts.find? k = some r) : lowestHeld history k ≤ r.held := by
  have hmem : r.held ∈ history.filterMap fun db => (db.attempts.find? k).map held :=
    mem_filterMap.mpr ⟨db, hdb, by rw [hr, Option.map_some]⟩
  rw [lowestHeld]
  cases hmin : (history.filterMap fun db => (db.attempts.find? k).map held).min? with
  | none => exact Nat.zero_le _
  | some v => exact (min?_eq_some_iff.mp hmin).2 _ hmem

theorem lowestHeld_append_le {db : Db} {r : AttemptRow} (hdb : db ∈ history)
    (hr : db.attempts.find? k = some r) (more : List Db) :
    lowestHeld (history ++ more) k ≤ lowestHeld history k := by
  have hmem : r.held ∈ history.filterMap fun db => (db.attempts.find? k).map held :=
    mem_filterMap.mpr ⟨db, hdb, by rw [hr, Option.map_some]⟩
  obtain ⟨v, hv⟩ := Option.isSome_iff_exists.mp (isSome_min?_of_mem hmem)
  obtain ⟨db', hdb', hv'⟩ := mem_filterMap.mp (min?_eq_some_iff.mp hv).1
  obtain ⟨r', hr', rfl⟩ := Option.map_eq_some_iff.mp hv'
  have hlowest : lowestHeld history k = r'.held := by rw [lowestHeld, hv, Option.getD_some]
  rw [hlowest]
  exact lowestHeld_le (mem_append_left more hdb') hr'

end

def Db.windowSum (db : Db) (scope : Scope) (w : Window) (f : String × String → ℕ) : ℕ :=
  ((db.attemptsWhere scope w.Meters).map fun r => f r.key).sum

section
variable {db db' : Db} {scope : Scope} {w : Window}

theorem windowSum_congr (h : db'.identities = db.identities) (f : String × String → ℕ) :
    db'.windowSum scope w f = db.windowSum scope w f := by
  have hident : ∀ db : Db, db.windowSum scope w f =
      ((db.identities.filter fun i => i.2.1 = scope ∧ w.Meters i.2.2).map fun i => f i.1).sum := by
    intro db
    rw [identities, filter_map, map_map]
    rfl
  rw [hident, hident, h]

theorem windowSum_le {f g : String × String → ℕ} (h : ∀ r ∈ db.attemptsWhere scope w.Meters, f r.key ≤ g r.key) :
    db.windowSum scope w f ≤ db.windowSum scope w g :=
  sum_le_sum h

theorem sum_held : ((db.attemptsWhere scope w.Meters).map held).sum =
    db.meteredUsage scope w + db.meteredRisk scope w := by
  rw [meteredUsage, meteredRisk, ← sum_map_add]
  rfl

theorem windowSum_insert {r : AttemptRow} {h : db.attempts.find? r.key = none}
    (hattempts : db'.attempts = db.attempts.insert r h) (f : String × String → ℕ) :
    db'.windowSum scope w f = db.windowSum scope w f +
      if r.scope = scope ∧ w.Meters r.startedAtMs then f r.key else 0 := by
  have hrows : db'.attempts.rows = db.attempts.rows ++ [r] := by rw [hattempts]; rfl
  rw [windowSum, attemptsWhere, hrows, filter_append, map_append, sum_append]
  by_cases hr : r.scope = scope ∧ w.Meters r.startedAtMs
  · rw [if_pos hr, filter_cons_of_pos (by simpa using hr)]
    rfl
  · rw [if_neg hr, filter_cons_of_neg (by simpa using hr)]
    rfl

end

/-! ## Runs under one limit -/

/-- Enforced admissions that the window meters are made under the window and its limit, and no owner
adjusts a balance. -/
def Op.Capped (scope : Scope) (w : Window) (limit : ℕ) : Op → Prop
  | .admission a _ | .admitMarket a _ _ => a.enforce = true → a.scope = scope →
      w.Meters a.startedAtMs → a.window = w ∧ a.quota.limitPicos = .ok limit
  | .adjust .. => False
  | _ => True

section
variable {db db' : Db} {scope : Scope} {w : Window} {limit : ℕ}

variable {op : Op} {a : Admission} {trial : Option MarketTrialBudget}

theorem Op.Capped.admission (h : op.Capped scope w limit) (ha : op.admission? = some (a, trial))
    (henforce : a.enforce = true) (hscope : a.scope = scope) (hmeters : w.Meters a.startedAtMs) :
    a.window = w ∧ a.quota.limitPicos = .ok limit := by
  cases op with
  | admission a' trial =>
    cases ha
    exact h henforce hscope hmeters
  | admitMarket a' trial now =>
    cases ha
    exact h henforce hscope hmeters
  | _ => cases ha

theorem reserve_unenforced {model : ExecutionModelPrice} {reserved : ℕ}
    (h : db.reserve a trial model = .ok reserved) (henforce : a.enforce = false) : reserved = 0 := by
  rw [reserve, henforce] at h
  exact (pure_eq_ok.mp h).symm

/-- Between admissions the lowest amounts only fall. -/
theorem windowSum_lowest_admission (h : Consistent db) (hstep : Change.Step (.admission a trial) db db')
    (hcapped : a.enforce = true → a.scope = scope → w.Meters a.startedAtMs →
      a.window = w ∧ a.quota.limitPicos = .ok limit) {low : String × String → ℕ}
    (hold : db.windowSum scope w low ≤ limit) (hlow : ∀ r ∈ db'.attempts.rows, low r.key ≤ r.held) :
    db'.windowSum scope w low ≤ limit := by
  by_cases hnew : a.enforce = true ∧ a.scope = scope ∧ w.Meters a.startedAtMs
  · obtain ⟨rfl, hlimit⟩ := hcapped hnew.1 hnew.2.1 hnew.2.2
    obtain ⟨st, hst, hle⟩ := admission_within_limit h hstep hnew.1 hlimit
    rw [hnew.2.1] at hst
    obtain ⟨model, reserved, -, hins⟩ := hstep
    have h' := h.admittedBy (insertAttempt_spec hins)
    obtain ⟨hobserved, hpending, -, hused⟩ := h'.statusInTx_ok scope a.window hst
    have hsum : db'.windowSum scope a.window low ≤ ((db'.attemptsWhere scope a.window.Meters).map held).sum :=
      sum_le_sum fun r hr => hlow r (mem_of_mem_filter hr)
    rw [sum_held] at hsum
    omega
  · obtain ⟨model, reserved, ⟨-, -, hreserve⟩, hins⟩ := hstep
    obtain ⟨hfresh, hattempts⟩ := (insertAttempt_spec hins).attempts
    rw [windowSum_insert hattempts]
    split
    · rename_i hcond
      have henforce : a.enforce = false := by
        by_contra hne
        exact hnew ⟨by simpa using hne, hcond.1, hcond.2⟩
      have hzero := reserve_unenforced hreserve henforce
      have hrow := hlow (a.row model reserved (db.watermark + 1))
        (by rw [hattempts]; exact Table.mem_insert.mpr (.inr rfl))
      have hheld : (a.row model reserved (db.watermark + 1)).held = 0 := by
        rw [hzero]
        rfl
      omega
    · omega

theorem SameBalance.consistent (hsame : SameBalance db db') (h : Consistent db) : Consistent db' :=
  h.congr hsame.attempts hsame.gaps hsame.checkpoints

theorem windowSum_lowest_step {hash : PricingSnapshot → String} {history : List Db} (h : Consistent db)
    (hop : op.Capped scope w limit) (hdb : db ∈ history) (hle : db.windowSum scope w (lowestHeld history) ≤ limit) :
    (step hash db op).windowSum scope w (lowestHeld (history ++ [step hash db op])) ≤ limit := by
  have hfall : db.windowSum scope w (lowestHeld (history ++ [step hash db op])) ≤ limit := by
    refine le_trans (windowSum_le fun r hr => ?_) hle
    exact lowestHeld_append_le hdb (Table.find?_of_mem (mem_of_mem_filter hr)) _
  rcases step_identities hash db op with hsame | hnew
  · rw [windowSum_congr hsame]
    exact hfall
  · obtain ⟨a, trial, db₀, revision, ha, hsame, hstep⟩ := hnew
    have hcapped := hop.admission ha
    refine windowSum_lowest_admission (hsame.consistent h) hstep hcapped ?_ ?_
    · have hident : db₀.identities = db.identities := by
        rw [identities, hsame.attempts, identities]
      rw [windowSum_congr hident]
      exact hfall
    · intro r hr
      exact lowestHeld_le (mem_append_right _ (mem_singleton.mpr rfl)) (Table.find?_of_mem hr)

theorem Op.Capped.not_allows_adjust {c : Change} (h : op.Capped scope w limit) (hallow : op.Allows db c)
    (a : Adjustment) (actor : String) : c ≠ .adjust a actor := by
  rintro rfl
  cases op with
  | adjust edits actor' staleBeforeMs => exact h
  | _ => simp [Op.Allows] at hallow

theorem adjustments_run {hash : PricingSnapshot → String} {ops : List Op}
    (hops : ∀ op ∈ ops, op.Capped scope w limit) :
    (run (step hash) Db.empty ops).adjustments = Table.empty := by
  induction ops using List.reverseRecOn with
  | nil => rfl
  | append_singleton ops op ih =>
    have hop := hops op (by simp)
    have hrest := ih fun o ho => hops o (by simp [ho])
    rw [run_append_singleton]
    have hkeep : ∀ db c db', db.adjustments = Table.empty → op.Allows db c → c.Step db db' →
        db'.adjustments = Table.empty := by
      intro db c db' hdb hallow hc
      rw [(Change.frame hc).adjustments (hop.not_allows_adjust hallow), hdb]
    have hstep := step_invariant hash hkeep hrest
    exact hstep

theorem windowSum_lowest_run (hash : PricingSnapshot → String) {ops : List Op}
    (hops : ∀ op ∈ ops, op.Capped scope w limit) :
    (run (step hash) empty ops).windowSum scope w (lowestHeld (states (step hash) empty ops)) ≤ limit := by
  induction ops using reverseRecOn with
  | nil => exact Nat.zero_le _
  | append_singleton ops op ih =>
    have hop := hops op (by simp)
    have hrest := ih fun o ho => hops o (by simp [ho])
    rw [states_append_singleton, run_append_singleton]
    exact windowSum_lowest_step (Consistent.empty.run ops) hop (run_mem_states _ _ _) hrest

end

/-- The soft cap. Under one limit, with no owner adjustment, the window has a balance within the limit
right after every new enforced admission, and in every state its balance exceeds the limit by at most
what its attempts hold above the lowest amounts they have held since their admission. -/
theorem soft_cap (hash : PricingSnapshot → String) {scope : Scope} {w : Window} {limit : ℕ}
    (ops : List Op) (hops : ∀ op ∈ ops, op.Capped scope w limit) :
    (∀ before op after a trial, ops = before ++ op :: after → op.admission? = some (a, trial) →
      a.enforce = true → a.scope = scope → a.window = w →
      (run (step hash) empty before).attempt? a.requestId a.attemptId = none →
      (run (step hash) empty (before ++ [op])).attempt? a.requestId a.attemptId ≠ none →
      ∃ st, (run (step hash) empty (before ++ [op])).statusInTx scope w = .ok st ∧
        st.usedPicos + st.pendingRiskPicos ≤ limit) ∧
    ∀ st, (run (step hash) empty ops).statusInTx scope w = .ok st →
      st.usedPicos + st.pendingRiskPicos ≤ limit +
        (((run (step hash) empty ops).attemptsWhere scope w.Meters).map fun r =>
          r.held - lowestHeld (states (step hash) empty ops) r.key).sum := by
  constructor
  · intro before op after a trial hsplit ha henforce hscope hwindow hnone hsome
    have hop := hops op (by rw [hsplit]; simp)
    have hcons : Consistent (run (step hash) empty before) := Consistent.empty.run before
    rw [run_append_singleton] at hsome ⊢
    rcases step_identities hash (run (step hash) empty before) op with hsame | hnew
    · rw [Ne, attempt?_eq_none hsame a.requestId a.attemptId] at hsome
      exact absurd hnone hsome
    · obtain ⟨a', trial', db₀, revision, ha', hsame, hstep⟩ := hnew
      rw [ha] at ha'
      cases ha'
      have hmeters : w.Meters a.startedAtMs := by
        obtain ⟨model, reserved, ⟨hmodel, -⟩, -⟩ := hstep
        simp only [admissionModel, bind_eq_ok, ensure_eq_ok] at hmodel
        obtain ⟨-, -, -, -, -, hmeters, -⟩ := hmodel
        exact hwindow ▸ hmeters
      have hlimit := (hop.admission ha henforce hscope hmeters).2
      have hwithin := admission_within_limit (hsame.consistent hcons) hstep henforce hlimit
      rwa [hscope, hwindow] at hwithin
  · intro st hst
    have hcons : Consistent (run (step hash) empty ops) := Consistent.empty.run ops
    obtain ⟨hobserved, hpending, hoffset, hused⟩ := hcons.statusInTx_ok scope w hst
    have hnone : (run (step hash) empty ops).manualOffset scope w.id = 0 := by
      rw [manualOffset, lastAdjustment, adjustments_run hops]
      rfl
    have hlow := windowSum_lowest_run hash hops
    have hheld : ∀ rows : List AttemptRow, ∀ low : String × String → ℕ,
        (rows.map held).sum ≤ (rows.map fun r => low r.key).sum + (rows.map fun r => r.held - low r.key).sum := by
      intro rows low
      rw [← sum_map_add]
      exact sum_le_sum fun r _ => by omega
    have hsum := hheld ((run (step hash) empty ops).attemptsWhere scope w.Meters)
      (lowestHeld (states (step hash) empty ops))
    rw [sum_held] at hsum
    rw [windowSum] at hlow
    omega

/-- The whole limit is reserved by one attempt, given back by a free outcome and reserved by another;
then a later revision prices the first one at its own reservation. -/
def Sample.repriced : List Op := opening ++ [.admission (admission "a" 5 1000000) none,
  .settle (observation "a" 1 .free none), .admission (admission "b" 6 1000000) none,
  .settle (observation "a" 2 .final (some 1000000))]

theorem Sample.repriced_capped : ∀ op ∈ repriced, op.Capped scope window 1000000 := by
  have hlimit : (⟨"1", tariffPolicy⟩ : ValuePricing.ValueQuota).limitPicos = .ok 1000000 := by
    decide
  simp only [repriced, opening, cons_append, nil_append, forall_mem_cons]
  exact ⟨trivial, trivial, fun _ _ _ => ⟨rfl, hlimit⟩, trivial, fun _ _ _ => ⟨rfl, hlimit⟩, trivial,
    fun op hop => absurd hop not_mem_nil⟩

/-- The reservations do not bound the excess: no attempt holds more than it reserved, and the balance
is twice the limit. -/
theorem soft_cap_reservation_excess :
    (∀ op ∈ repriced, op.Capped scope window 1000000) ∧
    ((run (step hash) empty repriced).statusInTx scope window).map
      (fun st => st.usedPicos + st.pendingRiskPicos) = .ok 2000000 ∧
    (((run (step hash) empty repriced).attemptsWhere scope window.Meters).map fun r => r.held -
        (run (step hash) empty repriced).reserved r.requestId r.attemptId).sum = 0 :=
  ⟨repriced_capped, by decide, by decide⟩

theorem soft_cap_repriced :
    (∃ st, (run (step hash) empty (opening ++ [.admission (admission "a" 5 1000000) none])).statusInTx scope window =
      .ok st ∧ st.usedPicos + st.pendingRiskPicos ≤ 1000000) ∧
    ∃ st, (run (step hash) empty repriced).statusInTx scope window =
      .ok st ∧ st.usedPicos + st.pendingRiskPicos = 2000000 ∧
      st.usedPicos + st.pendingRiskPicos ≤ 1000000 +
        (((run (step hash) empty repriced).attemptsWhere scope window.Meters).map fun r =>
          r.held - lowestHeld (states (step hash) empty repriced) r.key).sum := by
  have hst : (run (step hash) empty repriced).statusInTx scope
      window = .ok ⟨1000000, 0, 1000000, 1000000, "pending", 4, ["revision"]⟩ := by
    decide
  obtain ⟨hadmitted, hbound⟩ := soft_cap hash repriced repriced_capped
  refine ⟨?_, _, hst, rfl, hbound _ hst⟩
  exact hadmitted opening (.admission (admission "a" 5 1000000) none)
    [.settle (observation "a" 1 .free none), .admission (admission "b" 6 1000000) none,
      .settle (observation "a" 2 .final (some 1000000))]
    (admission "a" 5 1000000) none rfl rfl rfl rfl rfl (by decide) (by decide)

end CcSwitchServer.ValueQuota
