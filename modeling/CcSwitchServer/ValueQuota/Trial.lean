import CcSwitchServer.ValueQuota.SoftCap

/-! # One-time trial budgets

A trial attempt is charged at its amount or at its floor, whichever is more.
-/

namespace CcSwitchServer.ValueQuota
open Foundations ValuePricing Usage Db Option Table List AttemptRow Sample

/-! ## The floor -/

/-- The highest amount at which the attempt was ever settled. -/
def MarketTrialAttempt.floor (m : MarketTrialAttempt) : ℕ := m.settledFloorPicos.getD 0

def Db.trialFloor (db : Db) (k : String × String) : ℕ :=
  ((db.trialIndex.find? k).bind fun i => db.trialMarkers.find? (i.trial, k.1, k.2)).elim 0 MarketTrialAttempt.floor

/-- The attempt is charged to a trial with the given floor, which is at least what it is settled at. -/
def FlooredAt (k : String × String) (floor : ℕ) (db : Db) : Prop :=
  ∃ index marker, db.trialIndex.find? k = some index ∧
    db.trialMarkers.find? (index.trial, k.1, k.2) = some marker ∧ marker.floor = floor ∧
    ∀ r, db.attempts.find? k = some r → r.meteringStatus.Settled → r.usagePicos ≤ floor

section
variable {db db' : Db} {k : String × String} {floor : ℕ}

section
variable (h : FlooredAt k floor db)
include h

theorem FlooredAt.trialFloor_eq : db.trialFloor k = floor := by
  obtain ⟨index, marker, hindex, hmarker, hfloor, -⟩ := h
  rw [trialFloor, hindex, bind_some, hmarker, elim_some, hfloor]

theorem FlooredAt.congr (hindex : db'.trialIndex = db.trialIndex)
    (hmarkers : db'.trialMarkers = db.trialMarkers)
    (hrow : ∀ r', db'.attempts.find? k = some r' → r'.meteringStatus.Settled →
      ∃ r, db.attempts.find? k = some r ∧ r.meteringStatus.Settled ∧ r'.usagePicos = r.usagePicos) :
    FlooredAt k floor db' := by
  obtain ⟨index, marker, hi, hm, hfloor, hle⟩ := h
  refine ⟨index, marker, by rw [hindex]; exact hi, by rw [hmarkers]; exact hm, hfloor, ?_⟩
  intro r' hr' hsettled
  obtain ⟨r, hr, hs, heq⟩ := hrow r' hr' hsettled
  rw [heq]
  exact hle r hr hs

theorem FlooredAt.settledBy {old : AttemptRow} {s : Settlement}
    (hold : db.attempts.find? old.key = some old) (hs : SettledBy db old s db') :
    ∃ floor', floor ≤ floor' ∧ FlooredAt k floor' db' := by
  obtain ⟨index, marker, hi, hm, hfloor, hle⟩ := h
  have hfind := hs.find? hold k
  rcases hs.trialMarkers with ⟨hmarkers, hnone⟩ | ⟨hsettled, index', marker', hi', hm', -, hmarkers⟩
  · refine ⟨floor, le_rfl, index, marker, by rw [hs.trialIndex]; exact hi, by rw [hmarkers]; exact hm, hfloor, ?_⟩
    intro r' hr' hsettled
    rw [hfind] at hr'
    split at hr'
    · rename_i hk
      cases hr'
      have hgone := hnone hsettled
      rw [← hk, hi] at hgone
      cases hgone
    · exact hle r' hr' hsettled
  · have hkey' : marker'.key = (index'.trial, old.requestId, old.attemptId) := find?_key hm'
    by_cases hk : k = old.key
    · subst hk
      rw [hi] at hi'
      cases hi'
      have hsame : marker' = marker := by
        have hm'' : db.trialMarkers.find? (index.trial, old.requestId, old.attemptId) = some marker := hm
        rw [hm'] at hm''
        exact some.inj hm''
      subst hsame
      refine ⟨max floor s.amount, le_max_left _ _, index, marker'.raiseFloor s.amount,
        by rw [hs.trialIndex]; exact hi, ?_, ?_, ?_⟩
      · rw [hmarkers, hkey']
        exact find?_modify_self hm' _ _
      · rw [← hfloor]
        rfl
      · intro r' hr' _
        rw [hfind, if_pos rfl] at hr'
        cases hr'
        exact le_max_right _ _
    · refine ⟨floor, le_rfl, index, marker, by rw [hs.trialIndex]; exact hi, ?_, hfloor, ?_⟩
      · rw [hmarkers, find?_modify_of_ne]
        · exact hm
        · rw [hkey']
          rintro heq
          simp only [Prod.mk.injEq] at heq
          exact hk (Prod.ext heq.2.1 heq.2.2)
      · intro r' hr' hstate
        rw [hfind, if_neg hk] at hr'
        exact hle r' hr' hstate

theorem FlooredAt.admittedBy {a : Admission}
    {trial : Option MarketTrialBudget} {model : ExecutionModelPrice} {reserved : ℕ}
    (ha : AdmittedBy db a trial model reserved db') : FlooredAt k floor db' := by
  obtain ⟨index, marker, hi, hm, hfloor, hle⟩ := h
  obtain ⟨hfresh, hattempts⟩ := ha.attempts
  have hrow : ∀ r', db'.attempts.find? k = some r' → r'.meteringStatus.Settled → r'.usagePicos ≤ floor := by
    intro r' hr' hsettled
    rw [hattempts, find?_insert] at hr'
    split at hr'
    · cases hr'
      rcases hsettled with hs | hs <;> cases hs
    · exact hle r' hr' hsettled
  rcases ha.trialTables with ⟨-, hmarkers, hindex⟩ | ⟨t, -, ⟨hfm, hmarkers⟩, ⟨hfi, hindex⟩⟩
  · exact ⟨index, marker, by rw [hindex]; exact hi, by rw [hmarkers]; exact hm, hfloor, hrow⟩
  · refine ⟨index, marker, ?_, ?_, hfloor, hrow⟩
    · rw [hindex, find?_insert, if_neg, hi]
      rintro rfl
      rw [hi] at hfi
      cases hfi
    · rw [hmarkers, find?_insert, if_neg, hm]
      intro heq
      rw [heq, hm] at hfm
      cases hfm

/-- A floor never falls. -/
theorem FlooredAt.change {c : Change} (hc : c.Step db db') :
    ∃ floor', floor ≤ floor' ∧ FlooredAt k floor' db' := by
  cases c with
  | admission a trial =>
    obtain ⟨model, reserved, -, hins⟩ := hc
    exact ⟨floor, le_rfl, h.admittedBy (insertAttempt_spec hins)⟩
  | observe o =>
    obtain ⟨old, s, ⟨hold, -⟩, hw⟩ := hc
    exact h.settledBy (find?_of_mem (find?_mem hold)) (writeSettlement_spec hw)
  | outcome requestId attemptId result onlyUnobserved =>
    obtain ⟨old, hold, -, -, hw⟩ := hc
    exact h.settledBy (find?_of_mem (find?_mem hold)) (writeSettlement_spec hw)
  | _ =>
    obtain ⟨hmarkers, hindex⟩ := (Change.frame hc).trials (fun _ _ h => by cases h)
      (fun _ h => by cases h) (fun _ _ _ _ h => by cases h)
    refine ⟨floor, le_rfl, h.congr hindex hmarkers fun r' hr' hsettled => ?_⟩
    have hstep := Change.rowStep hc k
    rw [hr'] at hstep
    generalize hbefore : db.attempts.find? k = before at hstep
    cases hstep with
    | same => exact ⟨r', rfl, hsettled, rfl⟩
    | admitted a trial model reserved heq => cases heq
    | observed o old s heq => cases heq
    | resolved old result only heq => cases heq
    | compacted r now heq hs => exact ⟨r, rfl, hs, rfl⟩

end

/-- Every trial attempt has a floor. -/
def Trials (db : Db) : Prop := ∀ k, db.trialIndex.find? k ≠ none → ∃ floor, FlooredAt k floor db

theorem Trials.empty : Trials empty := fun _ h => absurd rfl h

theorem Trials.change {c : Change} (h : Trials db) (hc : c.Step db db') : Trials db' := by
  intro k hk
  by_cases hbefore : db.trialIndex.find? k = none
  · -- a new index entry is that of a new attempt, which is pending
    cases c with
    | admission a trial =>
      obtain ⟨model, reserved, -, hins⟩ := hc
      have ha := insertAttempt_spec hins
      obtain ⟨hfresh, hattempts⟩ := ha.attempts
      rcases ha.trialTables with ⟨-, -, hindex⟩ | ⟨t, -, ⟨hfm, hmarkers⟩, ⟨hfi, hindex⟩⟩
      · rw [hindex] at hk
        exact absurd hbefore hk
      · rw [hindex, find?_insert] at hk
        by_cases hkey : TrialIndexRow.key ⟨a.requestId, a.attemptId, trialAttemptPrefix a.scope t⟩ = k
        · subst hkey
          refine ⟨0, ⟨a.requestId, a.attemptId, trialAttemptPrefix a.scope t⟩,
            ⟨trialAttemptPrefix a.scope t, a.requestId, a.attemptId, t.entitlementId, some 0⟩, ?_, ?_, rfl, ?_⟩
          · rw [hindex, find?_insert_self]
          · rw [hmarkers]
            exact find?_insert_self _ _ hfm
          · intro r hr hsettled
            have hnew : db'.attempts.find? (a.requestId, a.attemptId) =
                some (a.row model reserved (db.watermark + 1)) := by
              rw [hattempts]
              exact find?_insert_self _ _ hfresh
            obtain rfl : a.row model reserved (db.watermark + 1) = r := some.inj (hnew.symm.trans hr)
            rcases hsettled with hs | hs <;> cases hs
        · rw [if_neg hkey] at hk
          exact absurd hbefore hk
    | observe o =>
      obtain ⟨old, s, -, hw⟩ := hc
      rw [(writeSettlement_spec hw).trialIndex] at hk
      exact absurd hbefore hk
    | outcome requestId attemptId result onlyUnobserved =>
      obtain ⟨old, -, -, -, hw⟩ := hc
      rw [(writeSettlement_spec hw).trialIndex] at hk
      exact absurd hbefore hk
    | _ =>
      obtain ⟨-, hindex⟩ := (Change.frame hc).trials (fun _ _ h => by cases h)
        (fun _ h => by cases h) (fun _ _ _ _ h => by cases h)
      rw [hindex] at hk
      exact absurd hbefore hk
  · obtain ⟨floor, hfloor⟩ := h k hbefore
    obtain ⟨floor', -, hfloor'⟩ := hfloor.change hc
    exact ⟨floor', hfloor'⟩

theorem Trials.run (h : Trials db) (hash : PricingSnapshot → String) (ops : List Op) :
    Trials (run (step hash) db ops) := by
  refine run_invariant (P := fun _ _ => True) ?_ h (EachStep.of_forall (fun _ _ => trivial) db ops)
  intro db op hdb _
  exact step_invariant hash (fun db c db' hdb _ hc => hdb.change hc) hdb

theorem FlooredAt.run (h : FlooredAt k floor db) (hash : PricingSnapshot → String) (ops : List Op) :
    ∃ floor', floor ≤ floor' ∧ FlooredAt k floor' (run (step hash) db ops) := by
  have hkeep : ∀ op db c db', (∃ floor', floor ≤ floor' ∧ FlooredAt k floor' db) →
      Op.Allows op db c → c.Step db db' → ∃ floor', floor ≤ floor' ∧ FlooredAt k floor' db' := by
    rintro op db c db' ⟨floor', hle, hfloor⟩ - hc
    obtain ⟨floor'', hle', hfloor'⟩ := hfloor.change hc
    exact ⟨floor'', hle.trans hle', hfloor'⟩
  induction ops using reverseRecOn with
  | nil => exact ⟨floor, le_rfl, h⟩
  | append_singleton ops op ih =>
    rw [run_append_singleton]
    have hstep := step_invariant hash (hkeep op) ih
    exact hstep

end

/-! ## The two budgets -/

namespace Db

/-- A settled attempt gives nothing of its charge back. -/
def trialUsed (db : Db) (m : MarketTrialAttempt) : ℕ :=
  max ((db.attempt? m.requestId m.attemptId).elim 0 usagePicos) m.floor

def trialRisk (db : Db) (m : MarketTrialAttempt) : ℕ := (db.attempt? m.requestId m.attemptId).elim 0 pendingRiskPicos

def trialSpent (db : Db) (ms : List MarketTrialAttempt) : ℕ := (ms.map db.trialUsed).sum

def trialPending (db : Db) (ms : List MarketTrialAttempt) : ℕ := (ms.map db.trialRisk).sum

def ownMarkersOf (db : Db) (scope : Scope) (trial : MarketTrialBudget) : List MarketTrialAttempt :=
  (db.markersOf scope trial).filter fun m => m.entitlementId = trial.entitlementId

end Db

section
variable {db db' : Db} {scope : Scope} {trial : MarketTrialBudget}

theorem trialCharge_eq {m : MarketTrialAttempt} {t t' : TrialTotals} (h : db.trialCharge scope trial t m = .ok t') :
    db.attempt? m.requestId m.attemptId ≠ none ∧
      t'.scopeSpent = t.scopeSpent + db.trialUsed m ∧
      t'.scopePending = t.scopePending + db.trialRisk m ∧
      t'.spent = t.spent + (if m.entitlementId = trial.entitlementId then db.trialUsed m else 0) ∧
      t'.pending = t.pending + (if m.entitlementId = trial.entitlementId then db.trialRisk m else 0) := by
  simp only [trialCharge, bind_eq_ok, context_eq_ok, checkedAdd_eq_some] at h
  obtain ⟨row, hrow, -, -, -, -, scopeSpent, ⟨-, rfl⟩, scopePending, ⟨-, rfl⟩, h⟩ := h
  have hused : db.trialUsed m = max row.usagePicos (m.settledFloorPicos.getD 0) := by
    rw [trialUsed, hrow]
    rfl
  have hrisk : db.trialRisk m = row.pendingRiskPicos := by
    rw [trialRisk, hrow]
    rfl
  rw [hused, hrisk, hrow]
  refine ⟨some_ne_none _, ?_⟩
  split at h
  · rename_i hown
    simp only [bind_eq_ok, context_eq_ok, checkedAdd_eq_some, pure_eq_ok] at h
    obtain ⟨spent, ⟨-, rfl⟩, pending, ⟨-, rfl⟩, rfl⟩ := h
    rw [if_pos hown, if_pos hown]
    exact ⟨rfl, rfl, rfl, rfl⟩
  · rename_i hown
    rw [pure_eq_ok] at h
    subst h
    rw [if_neg hown, if_neg hown]
    exact ⟨rfl, rfl, rfl, rfl⟩

theorem foldlM_trialCharge (ms : List MarketTrialAttempt) {t t' : TrialTotals}
    (h : ms.foldlM (db.trialCharge scope trial) t = .ok t') :
    (∀ m ∈ ms, db.attempt? m.requestId m.attemptId ≠ none) ∧
      t'.scopeSpent = t.scopeSpent + db.trialSpent ms ∧
      t'.scopePending = t.scopePending + db.trialPending ms ∧
      t'.spent = t.spent + db.trialSpent (ms.filter fun m => m.entitlementId = trial.entitlementId) ∧
      t'.pending = t.pending + db.trialPending (ms.filter fun m => m.entitlementId = trial.entitlementId) := by
  induction ms generalizing t with
  | nil =>
    cases h
    simp [trialSpent, trialPending]
  | cons m ms ih =>
    rw [foldlM_cons, bind_eq_ok] at h
    obtain ⟨t₁, hm, h⟩ := h
    obtain ⟨hrow, hscopeSpent, hscopePending, hspent, hpending⟩ := trialCharge_eq hm
    obtain ⟨hrows, ih₁, ih₂, ih₃, ih₄⟩ := ih h
    refine ⟨forall_mem_cons.mpr ⟨hrow, hrows⟩, ?_, ?_, ?_, ?_⟩
    · simp only [trialSpent, map_cons, sum_cons] at ih₁ ⊢
      omega
    · simp only [trialPending, map_cons, sum_cons] at ih₂ ⊢
      omega
    · rw [filter_cons]
      by_cases hown : m.entitlementId = trial.entitlementId
      · rw [if_pos hown] at hspent
        simp only [hown, decide_true, if_true, trialSpent, map_cons, sum_cons] at ih₃ ⊢
        omega
      · rw [if_neg hown] at hspent
        simp only [hown, decide_false, Bool.false_eq_true, if_false] at ih₃ ⊢
        omega
    · rw [filter_cons]
      by_cases hown : m.entitlementId = trial.entitlementId
      · rw [if_pos hown] at hpending
        simp only [hown, decide_true, if_true, trialPending, map_cons, sum_cons] at ih₄ ⊢
        omega
      · rw [if_neg hown] at hpending
        simp only [hown, decide_false, Bool.false_eq_true, if_false] at ih₄ ⊢
        omega

theorem budgetRemaining_le {limitMicros : String} {spent pending left : ℕ}
    (h : budgetRemaining limitMicros spent pending = .ok left) (hpos : 0 < left) :
    ∃ micros, unsignedDecimal limitMicros = .ok micros ∧ spent + pending + left ≤ micros * picosPerMicro := by
  simp only [budgetRemaining, bind_eq_ok, lift_eq_ok, context_eq_ok, checkedMul_eq_some, ensure_eq_ok, pure_eq_ok] at h
  obtain ⟨micros, hmicros, limit, ⟨-, rfl⟩, -, -, rfl⟩ := h
  exact ⟨micros, hmicros, by omega⟩

/-- Both budgets after the markers' charges, with room for `extra` more. -/
def Db.WithinBudgets (db : Db) (scope : Scope) (trial : MarketTrialBudget) (extra : ℕ) : Prop :=
  ∃ used scopeUsed limit allowance,
    unsignedDecimal trial.usedPicos = .ok used ∧
    unsignedDecimal trial.scopeUsedPicos = .ok scopeUsed ∧
    unsignedDecimal trial.limitMicros = .ok limit ∧
    unsignedDecimal trial.allowanceMicros = .ok allowance ∧
    max (db.trialSpent (db.ownMarkersOf scope trial)) used +
      db.trialPending (db.ownMarkersOf scope trial) + extra ≤ limit * picosPerMicro ∧
    max (db.trialSpent (db.markersOf scope trial)) scopeUsed +
      db.trialPending (db.markersOf scope trial) + extra ≤ allowance * picosPerMicro

theorem trialAvailableInTx_le {left : ℕ} (h : db.trialAvailableInTx scope trial = .ok left) :
    (∀ m ∈ db.markersOf scope trial, db.attempt? m.requestId m.attemptId ≠ none) ∧
      db.WithinBudgets scope trial left := by
  simp only [trialAvailableInTx, bind_eq_ok, lift_eq_ok, ensure_eq_ok, pure_eq_ok] at h
  obtain ⟨t, ht, used, hused, scopeUsed, hscopeUsed, own, hown, shared, hshared, -, hpos, rfl⟩ := h
  obtain ⟨hrows, hscopeSpent, hscopePending, hspent, hpending⟩ := foldlM_trialCharge _ ht
  have hown_pos : 0 < own := by omega
  have hshared_pos : 0 < shared := by omega
  obtain ⟨limit, hlimit, hle⟩ := budgetRemaining_le hown hown_pos
  obtain ⟨allowance, hallowance, hle'⟩ := budgetRemaining_le hshared hshared_pos
  simp only [Nat.zero_add] at hscopeSpent hscopePending hspent hpending
  refine ⟨hrows, used, scopeUsed, limit, allowance, hused, hscopeUsed, hlimit, hallowance, ?_, ?_⟩
  · rw [hspent, hpending] at hle
    simp only [ownMarkersOf]
    omega
  · rw [hscopeSpent, hscopePending] at hle'
    omega

theorem Db.WithinBudgets.mono {extra extra' : ℕ} (h : db.WithinBudgets scope trial extra)
    (hle : extra' ≤ extra) : db.WithinBudgets scope trial extra' := by
  obtain ⟨used, scopeUsed, limit, allowance, h₁, h₂, h₃, h₄, hown, hshared⟩ := h
  exact ⟨used, scopeUsed, limit, allowance, h₁, h₂, h₃, h₄, by omega, by omega⟩

theorem reserve_withinBudgets {a : Admission} {model : ExecutionModelPrice} {reserved : ℕ}
    (h : db.reserve a (some trial) model = .ok reserved) (henforce : a.enforce = true) :
    (∀ m ∈ db.markersOf a.scope trial, db.attempt? m.requestId m.attemptId ≠ none) ∧
      db.WithinBudgets a.scope trial reserved := by
  obtain ⟨available, havail, hle⟩ := reserve_le_available h henforce
  simp only [availableFor, bind_eq_ok, pure_eq_ok] at havail
  obtain ⟨st, -, -, -, limit, -, -, -, -, -, left, hleft, rfl⟩ := havail
  obtain ⟨hrows, hwithin⟩ := trialAvailableInTx_le hleft
  exact ⟨hrows, hwithin.mono (hle.trans (Nat.min_le_right _ _))⟩

theorem trialUsed_congr {m : MarketTrialAttempt}
    (h : db'.attempt? m.requestId m.attemptId = db.attempt? m.requestId m.attemptId) :
    db'.trialUsed m = db.trialUsed m ∧ db'.trialRisk m = db.trialRisk m := by
  rw [trialUsed, trialRisk, h]
  exact ⟨rfl, rfl⟩

/-- A new admission reserves no more than both budgets have left. -/
theorem admission_withinBudgets {a : Admission} (hstep : Change.Step (.admission a (some trial)) db db') :
    db'.WithinBudgets a.scope trial 0 := by
  obtain ⟨model, reserved, ⟨hmodel, hnone, hreserve⟩, hins⟩ := hstep
  have henforce : a.enforce = true := by
    simp only [admissionModel, bind_eq_ok, ensure_eq_ok] at hmodel
    obtain ⟨-, -, -, -, -, -, -, -, -, htrial, -⟩ := hmodel
    have hall := htrial
    simp only [all_some, decide_eq_true_eq] at hall
    exact hall.1
  obtain ⟨hrows, used, scopeUsed, limit, allowance, h₁, h₂, h₃, h₄, hown, hshared⟩ :=
    reserve_withinBudgets hreserve henforce
  have ha := insertAttempt_spec hins
  obtain ⟨hfresh, hattempts⟩ := ha.attempts
  obtain ⟨hnone', -⟩ | ⟨t, ht, ⟨hfm, hmarkers⟩, -⟩ := ha.trialTables
  · cases hnone'
  cases ht
  set marker : MarketTrialAttempt :=
    ⟨trialAttemptPrefix a.scope trial, a.requestId, a.attemptId, trial.entitlementId, some 0⟩
  have hnew : db'.attempt? a.requestId a.attemptId = some (a.row model reserved (db.watermark + 1)) := by
    rw [attempt?, hattempts]
    exact find?_insert_self _ _ hfresh
  have hcharge : db'.trialUsed marker = 0 ∧ db'.trialRisk marker = reserved := by
    rw [trialUsed, trialRisk]
    show max ((db'.attempt? a.requestId a.attemptId).elim 0 usagePicos) 0 = 0 ∧
      (db'.attempt? a.requestId a.attemptId).elim 0 pendingRiskPicos = reserved
    rw [hnew]
    exact ⟨rfl, rfl⟩
  -- the other markers have attempts of their own, which the admission leaves alone
  have hold : ∀ m ∈ db.markersOf a.scope trial,
      db'.trialUsed m = db.trialUsed m ∧ db'.trialRisk m = db.trialRisk m := by
    intro m hm
    refine trialUsed_congr ?_
    have hne : (a.row model reserved (db.watermark + 1)).key ≠ (m.requestId, m.attemptId) := by
      intro heq
      refine hrows m hm ?_
      rw [attempt?, ← heq]
      exact hfresh
    rw [attempt?, hattempts, find?_insert, if_neg hne]
    rfl
  have hall : db'.markersOf a.scope trial = db.markersOf a.scope trial ++ [marker] := by
    rw [markersOf, hmarkers]
    show filter _ (db.trialMarkers.rows ++ [marker]) = _
    rw [filter_append, filter_cons_of_pos (by simp [marker])]
    rfl
  have hsum : ∀ ms : List MarketTrialAttempt, (∀ m ∈ ms, m ∈ db.markersOf a.scope trial) →
      db'.trialSpent (ms ++ [marker]) = db.trialSpent ms ∧
      db'.trialPending (ms ++ [marker]) = db.trialPending ms + reserved := by
    intro ms hms
    have hspent : ms.map db'.trialUsed = ms.map db.trialUsed := map_congr_left fun m hm => (hold m (hms m hm)).1
    have hrisk : ms.map db'.trialRisk = ms.map db.trialRisk := map_congr_left fun m hm => (hold m (hms m hm)).2
    simp only [trialSpent, trialPending, map_append, sum_append, map_cons,
      map_nil, sum_cons, sum_nil, hcharge.1, hcharge.2, hspent, hrisk, Nat.add_zero]
    exact ⟨trivial, trivial⟩
  have hown' : db'.ownMarkersOf a.scope trial = db.ownMarkersOf a.scope trial ++ [marker] := by
    rw [ownMarkersOf, hall, filter_append, filter_cons_of_pos (by simp [marker])]
    rfl
  obtain ⟨hs, hp⟩ := hsum (db.markersOf a.scope trial) fun m hm => hm
  obtain ⟨hs', hp'⟩ := hsum (db.ownMarkersOf a.scope trial) fun m hm => mem_of_mem_filter hm
  refine ⟨used, scopeUsed, limit, allowance, h₁, h₂, h₃, h₄, ?_, ?_⟩
  · rw [hown', hs', hp']
    omega
  · rw [hall, hs, hp]
    omega

end

/-- A one-time trial budget is never reopened. The floor of a trial attempt is at least every amount
it was settled at, and from every state in which the attempt is settled its charge never falls below
the charge of that state; and right after every new trial admission both the budget of the entitlement
and that of the trial scope cover what is spent and reserved. -/
theorem trial_budget_never_reopens (hash : PricingSnapshot → String) :
    (∀ (earlier later : List Op) (k : String × String) (r : AttemptRow),
      (run (step hash) empty earlier).attempts.find? k = some r →
      (run (step hash) empty earlier).trialIndex.find? k ≠ none → r.meteringStatus.Settled →
      r.usagePicos ≤ (run (step hash) empty (earlier ++ later)).trialFloor k ∧
      ∀ r', (run (step hash) empty (earlier ++ later)).attempts.find? k = some r' →
        max r.usagePicos ((run (step hash) empty earlier).trialFloor k) ≤
          max r'.usagePicos ((run (step hash) empty (earlier ++ later)).trialFloor k)) ∧
    ∀ (earlier : List Op) (op : Op) (a : Admission) (trial : MarketTrialBudget),
      op.admission? = some (a, some trial) →
      (run (step hash) empty earlier).attempt? a.requestId a.attemptId = none →
      (run (step hash) empty (earlier ++ [op])).attempt? a.requestId a.attemptId ≠ none →
      (run (step hash) empty (earlier ++ [op])).WithinBudgets a.scope trial 0 := by
  constructor
  · intro earlier later k r hfind hindex hsettled
    obtain ⟨floor, hfloor⟩ := Trials.empty.run hash earlier k hindex
    have hle : r.usagePicos ≤ floor := by
      obtain ⟨-, -, -, -, -, hle⟩ := id hfloor
      exact hle r hfind hsettled
    obtain ⟨floor', hmono, hfloor'⟩ := hfloor.run hash later
    rw [run_append, hfloor'.trialFloor_eq, hfloor.trialFloor_eq]
    refine ⟨hle.trans hmono, fun r' _ => ?_⟩
    omega
  · intro earlier op a trial hop hnone hsome
    rw [run_append_singleton] at hsome ⊢
    rcases step_identities hash (run (step hash) empty earlier) op with hsame | hnew
    · rw [Ne, attempt?_eq_none hsame a.requestId a.attemptId] at hsome
      exact absurd hnone hsome
    · obtain ⟨a', trial', db₀, revision, hop', -, hstep⟩ := hnew
      rw [hop] at hop'
      cases hop'
      have hwithin := admission_withinBudgets hstep
      exact hwithin

namespace Sample

def trialScope : Scope := { scope with entitlementId := some "trial" }

/-- Both budgets a million picos, with `used` picos of the entitlement mirrored. -/
def trialBudget (used : String) : MarketTrialBudget := ⟨"seat", "trial", "1", "1", "0", used⟩

def trialAdmission : Admission := { admission "a" 5 100 with scope := trialScope }

def trialObservation (revision : ℕ) (outcome : ObservedOutcome) (tokens : ℕ) : Observation :=
  { observation "a" revision outcome (some tokens) with scope := trialScope }

def trialSettled : List Op := [.install trialScope "revision" snapshot, .beginCoverage trialScope 0,
  .admission trialAdmission (some (trialBudget "0")), .settle (trialObservation 1 .final 10)]

end Sample

def Sample.trialCharged (ops : List Op) : Option ℕ :=
  ((run (step hash) empty ops).attempts.find? ("a", "1")).map fun r =>
    max r.usagePicos ((run (step hash) empty ops).trialFloor ("a", "1"))

/-- After its first settlement the charge rises to 50 while the attempt is reopened, and falls to 20
when it is settled again; and a replayed admission succeeds with the mirrored usage at the limit. -/
theorem trial_charge_falls_after_reopening :
    trialCharged trialSettled = some 10 ∧
    trialCharged (trialSettled ++ [.settle (trialObservation 2 .inProgress 50)]) = some 50 ∧
    trialCharged (trialSettled ++ [.settle (trialObservation 2 .inProgress 50),
        .settle (trialObservation 3 .final 20)]) = some 20 ∧
    ((run (step hash) empty (trialSettled.take 3)).admitWithTrialInTx
      trialAdmission (some (trialBudget "1000000"))).map Prod.snd = .ok 100 ∧
    ¬(run (step hash) empty (trialSettled.take 3 ++
      [.admission trialAdmission (some (trialBudget "1000000"))])).WithinBudgets
      trialScope (trialBudget "1000000") 0 := by
  refine ⟨by decide, by decide, by decide, by decide, ?_⟩
  rintro ⟨used, scopeUsed, limit, allowance, hused, -, hlimit, -, hown, -⟩
  have hused' : unsignedDecimal (trialBudget "1000000").usedPicos = .ok 1000000 := by
    decide
  have hlimit' : unsignedDecimal (trialBudget "1000000").limitMicros = .ok 1 := by
    decide
  rw [hused'] at hused
  rw [hlimit'] at hlimit
  cases hused
  cases hlimit
  revert hown
  decide

theorem trial_budget_never_reopens_repriced :
    (10 ≤ (run (step hash) empty (trialSettled ++ [.settle (trialObservation 2 .final 5)])).trialFloor ("a", "1")) ∧
    (run (step hash) empty (trialSettled.take 2 ++ [.admission trialAdmission (some (trialBudget "0"))])).WithinBudgets
      trialScope (trialBudget "0") 0 := by
  obtain ⟨hfloor, hbudget⟩ := trial_budget_never_reopens hash
  constructor
  · obtain ⟨r, hr⟩ : ∃ r, (run (step hash) empty trialSettled).attempts.find?
        ("a", "1") = some r := isSome_iff_exists.mp (by decide)
    have hrow : ((run (step hash) empty trialSettled).attempts.find?
        ("a", "1")).map settled = some (10, .observed, 0) := by decide
    rw [hr, map_some, some.injEq, settled, Prod.mk.injEq, Prod.mk.injEq] at hrow
    have hle := (hfloor trialSettled [.settle (trialObservation 2 .final 5)] _ r hr (by decide) (.inl hrow.2.1)).1
    rwa [hrow.1] at hle
  · exact hbudget (trialSettled.take 2) (.admission trialAdmission
      (some (trialBudget "0"))) trialAdmission (trialBudget "0") rfl
      (by decide) (by decide)

end CcSwitchServer.ValueQuota
