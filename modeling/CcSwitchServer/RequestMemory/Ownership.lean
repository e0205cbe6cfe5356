import CcSwitchServer.RequestMemory.Accounting

/-! # Owners over whole runs

A live reservation has its budget, and identifiers are never used twice.
-/

namespace CcSwitchServer.RequestMemory
open Foundations Option OrderedMap Memory RequestMemoryReservation ResidentMemorySnapshot

/-- `i` is a live reservation that is not released. -/
def Memory.outstanding (m : Memory) (i : ℕ) : Bool :=
  (m.reservations.get? i).any (fun r => !r.released) || (m.residents.get? i).isSome

/-- How often `i` was given back. -/
def Memory.returns (m : Memory) (i : ℕ) : ℕ := (m.returned.map Prod.fst).count i

/-- The history has one entry for every reservation that is not outstanding any more. -/
structure Linked (m : Memory) : Prop where
  budget : ∀ {i r}, m.reservations.get? i = some r → (m.budgets.get? r.budget).isSome
  budget_lt : ∀ {b budget}, m.budgets.get? b = some budget → b < m.nextBudget
  reservation_lt : ∀ {i r}, m.reservations.get? i = some r → i < m.nextReservation
  resident_lt : ∀ {i r}, m.residents.get? i = some r → i < m.nextReservation
  disjoint : ∀ {i r}, m.reservations.get? i = some r → m.residents.get? i = none
  returned : ∀ i, m.returns i = if i < m.nextReservation ∧ m.outstanding i = false then 1 else 0

theorem Linked.fresh {m : Memory} (h : Linked m) :
    m.reservations.get? m.nextReservation = none ∧ m.residents.get? m.nextReservation = none := by
  constructor
  · cases hi : m.reservations.get? m.nextReservation with
    | none => rfl
    | some r => exact absurd (h.reservation_lt hi) (lt_irrefl _)
  · cases hi : m.residents.get? m.nextReservation with
    | none => rfl
    | some r => exact absurd (h.resident_lt hi) (lt_irrefl _)

/-! ## Changes of the owners -/

section
variable {m : Memory} (h : Linked m)
include h

theorem Linked.levels {budgets : OrderedMap ℕ RequestMemoryBudget} (parent : ResidentMemorySnapshot)
    (hkeys : ∀ b, (budgets.get? b).isSome = (m.budgets.get? b).isSome) :
    Linked { m with budgets, parent } where
  budget hi := (hkeys _).trans (h.budget hi)
  budget_lt {b budget} hb := by
    have hsome : (m.budgets.get? b).isSome := by
      rw [← hkeys b]
      exact isSome_of_eq_some hb
    obtain ⟨budget', hb'⟩ := isSome_iff_exists.mp hsome
    exact h.budget_lt hb'
  reservation_lt := h.reservation_lt
  resident_lt := h.resident_lt
  disjoint := h.disjoint
  returned := h.returned

theorem Linked.level {b : ℕ} {budget budget' : RequestMemoryBudget} {parent : ResidentMemorySnapshot}
    (hb : m.budgets.get? b = some budget) :
    Linked { m with budgets := m.budgets.insert b budget', parent } := by
  refine h.levels parent fun b' => ?_
  rw [get?_insert]
  split
  · rename_i heq
    subst heq
    rw [hb]
    rfl
  · rfl

theorem Linked.set {i : ℕ} {r r' : RequestMemoryReservation} (hi : m.reservations.get? i = some r)
    (hbudget : r'.budget = r.budget) (hreleased : r'.released = r.released) :
    Linked { m with reservations := m.reservations.insert i r' } where
  budget {j r₁} hj := by
    rw [get?_insert] at hj
    split at hj
    · cases hj
      rw [hbudget]
      exact h.budget hi
    · exact h.budget hj
  budget_lt := h.budget_lt
  reservation_lt {j r₁} hj := by
    rw [get?_insert] at hj
    split at hj
    · rename_i heq
      exact heq ▸ h.reservation_lt hi
    · exact h.reservation_lt hj
  resident_lt := h.resident_lt
  disjoint {j r₁} hj := by
    rw [get?_insert] at hj
    split at hj
    · rename_i heq
      exact heq ▸ h.disjoint hi
    · exact h.disjoint hj
  returned j := by
    have hout : outstanding { m with reservations := m.reservations.insert i r' } j = m.outstanding j := by
      unfold outstanding
      rw [get?_insert]
      split
      · rename_i heq
        subst heq
        rw [hi]
        simp [hreleased]
      · rfl
    show m.returns j = _
    rw [h.returned j, hout]

theorem Linked.close {i bytes : ℕ} {reservations : OrderedMap ℕ RequestMemoryReservation}
    {residents : OrderedMap ℕ ResidentMemoryReservation} (hlt : i < m.nextReservation) (hopen : m.outstanding i = true)
    (hsub : ∀ {j r}, reservations.get? j = some r → ∃ r', m.reservations.get? j = some r' ∧ r.budget = r'.budget)
    (hresidents : ∀ {j r}, residents.get? j = some r → m.residents.get? j = some r)
    (hout : ∀ j, ((reservations.get? j).any (fun r => !r.released) || (residents.get? j).isSome) =
      if j = i then false else m.outstanding j) :
    Linked { m with reservations, residents, returned := (i, bytes) :: m.returned } where
  budget {j r} hj := by
    obtain ⟨r', hr', hbudget⟩ := hsub hj
    rw [hbudget]
    exact h.budget hr'
  budget_lt := h.budget_lt
  reservation_lt hj := by
    obtain ⟨r', hr', -⟩ := hsub hj
    exact h.reservation_lt hr'
  resident_lt hj := h.resident_lt (hresidents hj)
  disjoint {j r} hj := by
    obtain ⟨r', hr', -⟩ := hsub hj
    have hnone := h.disjoint hr'
    cases hres : residents.get? j with
    | none => rfl
    | some r₁ =>
      rw [hresidents hres] at hnone
      cases hnone
  returned j := by
    have hold := h.returned j
    unfold returns at hold ⊢
    show ((i, bytes) :: m.returned |>.map Prod.fst).count j =
      if j < m.nextReservation ∧
        ((reservations.get? j).any (fun r => !r.released) || (residents.get? j).isSome) = false
      then 1 else 0
    rw [hout j, List.map_cons, List.count_cons, hold]
    by_cases heq : j = i
    · subst heq
      simp [hopen, hlt]
    · simp [heq, Ne.symm heq]

theorem Linked.allot {b : ℕ} {budget : RequestMemoryBudget} (hb : m.budgets.get? b = some budget)
    (component : RequestMemoryComponent) (bytes : ℕ) : Linked (m.allot b component bytes) where
  budget {j r} hj := by
    unfold Memory.allot at hj ⊢
    rw [get?_insert] at hj
    split at hj
    · cases hj
      exact isSome_of_eq_some hb
    · exact h.budget hj
  budget_lt := h.budget_lt
  reservation_lt {j r} hj := by
    unfold Memory.allot at hj ⊢
    rw [get?_insert] at hj
    split at hj
    · rename_i heq
      rw [← heq]
      exact Nat.lt_succ_self _
    · exact Nat.lt_succ_of_lt (h.reservation_lt hj)
  resident_lt hj := Nat.lt_succ_of_lt (h.resident_lt hj)
  disjoint {j r} hj := by
    unfold Memory.allot at hj ⊢
    rw [get?_insert] at hj
    split at hj
    · rename_i heq
      rw [← heq]
      exact h.fresh.2
    · exact h.disjoint hj
  returned j := by
    have hold := h.returned j
    show m.returns j = if j < m.nextReservation + 1 ∧
      (((m.reservations.insert m.nextReservation _).get? j).any (fun r => !r.released) ||
        (m.residents.get? j).isSome) = false then 1 else 0
    rw [get?_insert, hold]
    by_cases heq : m.nextReservation = j
    · subst heq
      simp
    · have hlt : j < m.nextReservation + 1 ↔ j < m.nextReservation := by omega
      simp only [if_neg heq, hlt]
      rfl

theorem Linked.erase {i : ℕ} {r : RequestMemoryReservation} (hi : m.reservations.get? i = some r)
    (hreleased : r.released = true) :
    Linked { m with reservations := m.reservations.erase i } := by
  have hsub : ∀ {j r'}, (m.reservations.erase i).get? j = some r' → m.reservations.get? j = some r' := by
    intro j r' hj
    rw [get?_erase] at hj
    split at hj
    · cases hj
    · exact hj
  refine ⟨fun hj => h.budget (hsub hj), h.budget_lt, fun hj => h.reservation_lt (hsub hj),
    h.resident_lt, fun hj => h.disjoint (hsub hj), fun j => ?_⟩
  have hout : outstanding { m with reservations := m.reservations.erase i } j = m.outstanding j := by
    unfold outstanding
    rw [get?_erase]
    split
    · rename_i heq
      subst heq
      rw [hi]
      simp [hreleased]
    · rfl
  show m.returns j = _
  rw [h.returned j, hout]

end

/-! ## Every operation -/

/-- The counters are exact and the owners known. -/
structure Sound (m : Memory) : Prop where
  accounted : Accounted m
  linked : Linked m

variable {m : Memory} {i b : ℕ} {r : RequestMemoryReservation} {budget : RequestMemoryBudget}

theorem Linked.get_budget (h : Linked m) (hi : m.reservations.get? i = some r) :
    ∃ budget, m.budgets.get? r.budget = some budget :=
  isSome_iff_exists.mp (h.budget hi)

theorem Sound.resize_cases (h : Sound m) (hi : m.reservations.get? i = some r) (hlive : r.released = false)
    (bytes : ℕ) :
    ∃ budget child parent, m.budgets.get? r.budget = some budget ∧
      ((m.resize i bytes = (.ok (), { m with
            budgets := m.budgets.insert r.budget { budget with state := child }
            parent
            reservations := m.reservations.insert i { r with bytes } }) ∧
          Granted r.bytes bytes budget.state m.parent child parent) ∨ (∃ e, m.resize i bytes = (.error e,
          { m with budgets := m.budgets.insert r.budget { budget with state := child }, parent })) ∧
          Refused budget.state m.parent child parent) := by
  obtain ⟨budget, hb⟩ := h.linked.get_budget hi
  have hc : m.chargeOf r.budget i = r.bytes := by
    rw [chargeOf_budget hi, charge_of_live hlive]
  obtain ⟨child, parent, hcases⟩ := h.accounted.charge_cases hb hc r.component bytes true
  refine ⟨budget, child, parent, hb, ?_⟩
  unfold resize
  rw [hi]
  dsimp only
  rw [if_neg (by simp [hlive])]
  rcases hcases with ⟨hok, hg⟩ | ⟨⟨e, herr⟩, -, href⟩
  · exact .inl ⟨by rw [hok]; rfl, hg⟩
  · exact .inr ⟨⟨e, by rw [herr]⟩, href⟩

theorem Sound.resize (h : Sound m) (i bytes : ℕ) : Sound (m.resize i bytes).2 := by
  cases hi : m.reservations.get? i with
  | none =>
    unfold Memory.resize
    rw [hi]
    exact h
  | some r =>
    by_cases hrel : r.released = true
    · unfold Memory.resize
      rw [hi]
      dsimp only
      rw [if_pos hrel]
      exact h
    · have hlive : r.released = false := by simpa using hrel
      obtain ⟨budget, child, parent, hb, hcases⟩ := h.resize_cases hi hlive bytes
      rcases hcases with ⟨hok, hg⟩ | ⟨⟨e, herr⟩, href⟩
      · rw [hok]
        refine ⟨h.accounted.recharge hb rfl (fun r' hr' => ?_) ?_, (h.linked.level hb).set hi rfl rfl⟩
        · rw [hi] at hr'
          cases hr'
          rfl
        · rw [chargeOf_budget hi, charge_of_live hlive, charge_of_live (r := { r with bytes }) hlive]
          exact hg
      · rw [herr]
        exact ⟨h.accounted.refuse hb href, h.linked.level hb⟩

theorem Memory.outstanding_of_live (hi : m.reservations.get? i = some r) (hlive : r.released = false) :
    m.outstanding i = true := by
  unfold outstanding
  rw [hi]
  simp [hlive]

section
variable (h : Sound m)
include h

theorem Sound.giveBack_eq (hi : m.reservations.get? i = some r) (hlive : r.released = false) :
    ∃ budget child parent, m.budgets.get? r.budget = some budget ∧
      m.giveBack i r =
        { m with
          budgets := m.budgets.insert r.budget { budget with state := child }
          parent
          reservations := m.reservations.insert i { r with bytes := 0, released := true }
          returned := (i, r.bytes) :: m.returned } ∧
      Granted r.bytes 0 budget.state m.parent child parent := by
  obtain ⟨budget, hb⟩ := h.linked.get_budget hi
  have hc : m.chargeOf r.budget i = r.bytes := by
    rw [chargeOf_budget hi, charge_of_live hlive]
  obtain ⟨child, parent, hcases⟩ := h.accounted.charge_cases hb hc r.component 0 true
  refine ⟨budget, child, parent, hb, ?_⟩
  rcases hcases with ⟨hok, hg⟩ | ⟨-, hlt, -⟩
  · unfold giveBack
    rw [hok]
    exact ⟨rfl, hg⟩
  · exact absurd hlt (Nat.not_lt_zero _)

theorem Sound.giveBack (hi : m.reservations.get? i = some r) (hlive : r.released = false) :
    Sound (m.giveBack i r) := by
  obtain ⟨budget, child, parent, hb, heq, hg⟩ := h.giveBack_eq hi hlive
  rw [heq]
  constructor
  · have hacc := h.accounted.recharge (i := i) (r := { r with bytes := 0, released := true }) hb rfl
      (fun r' hr' => by
        rw [hi] at hr'
        cases hr'
        rfl)
      (by
        rw [chargeOf_budget hi, charge_of_live hlive]
        exact hg)
    exact hacc.history _ _ _
  · refine (h.linked.level hb).close (h.linked.reservation_lt hi)
      (outstanding_of_live hi hlive) (fun {j r'} hj => ?_) id fun j => ?_
    · rw [get?_insert] at hj
      split at hj
      · rename_i heq'
        subst heq'
        cases hj
        exact ⟨r, hi, rfl⟩
      · exact ⟨r', hj, rfl⟩
    · rw [get?_insert]
      by_cases hj : j = i
      · subst hj
        simp [h.linked.disjoint hi]
      · rw [if_neg (Ne.symm hj), if_neg hj]
        rfl

theorem Sound.release (i : ℕ) : Sound (m.release i) := by
  unfold Memory.release
  split
  · exact h
  · rename_i r hi
    split
    · exact h
    · rename_i hlive
      exact h.giveBack hi (by simpa using hlive)

theorem Sound.set (handles : ℕ) (hi : m.reservations.get? i = some r) :
    Sound (m.setReservation i { r with handles }) := by
  refine ⟨h.accounted.set fun b => ?_, h.linked.set hi rfl rfl⟩
  unfold chargeOf
  rw [hi]
  rfl

theorem Sound.clone (i : ℕ) : Sound (m.clone i) := by
  unfold Memory.clone
  split
  · exact h
  · rename_i r hi
    exact h.set _ hi

theorem Sound.reap (b : ℕ) : Sound (m.reap b) := by
  unfold Memory.reap
  split
  · exact h
  · rename_i budget hb
    split
    · rename_i hfree
      have hzero : ∀ r ∈ m.reservations.values, r.chargeIn b = 0 := fun r hr =>
        chargeIn_of_ne (hfree.2 r hr)
      have hcharged : m.charged b = 0 := by
        unfold charged
        rw [List.map_congr_left hzero]
        simp
      have hoccupants : m.occupants b = 0 := by
        have hle : m.occupants b ≤ m.charged b := List.sum_le_sum fun r _ => occupied_le _
        omega
      have hsub : ∀ {b' budget'}, (m.budgets.erase b).get? b' = some budget' → m.budgets.get? b' = some budget' := by
        intro b' budget' hb'
        rw [get?_erase] at hb'
        split at hb'
        · cases hb'
        · exact hb'
      refine ⟨⟨fun hb' => ?_, ?_, ?_⟩, ?_⟩
      · have hex := h.accounted.budget (hsub hb')
        exact ⟨hex.used, hex.active, hex.limit, hex.limit_le⟩
      · have hsum := sum_values_erase (fun x : RequestMemoryBudget => x.state.usedBytes) hb
        rw [(h.accounted.budget hb).used, hcharged] at hsum
        have hused := h.accounted.used
        unfold requestUsed at hused
        show m.parent.usedBytes = ((m.budgets.erase b).values.map (·.state.usedBytes)).sum + m.residentUsed
        omega
      · have hsum := sum_values_erase (fun x : RequestMemoryBudget => x.state.activeReservations) hb
        rw [(h.accounted.budget hb).active, hoccupants] at hsum
        have hactive := h.accounted.active
        unfold requestActive at hactive
        show m.parent.activeReservations =
          ((m.budgets.erase b).values.map (·.state.activeReservations)).sum + m.residentActive
        omega
      · have hl := h.linked
        refine ⟨fun {i r} hi => ?_, fun hb' => hl.budget_lt (hsub hb'), hl.reservation_lt,
          hl.resident_lt, hl.disjoint, hl.returned⟩
        have hne : b ≠ r.budget := fun heq =>
          hfree.2 r (mem_values_iff.mpr ⟨i, hi⟩) heq.symm
        show ((m.budgets.erase b).get? r.budget).isSome
        rw [get?_erase, if_neg hne]
        exact hl.budget hi
    · exact h

theorem Sound.erase_released (hi : m.reservations.get? i = some r) (hreleased : r.released = true) :
    Sound { m with reservations := m.reservations.erase i } :=
  ⟨h.accounted.erase hi (charge_of_released hreleased), h.linked.erase hi hreleased⟩

theorem Sound.erase_empty (hi : m.reservations.get? i = some r) (hlive : r.released = false)
    (hbytes : r.bytes = 0) :
    Sound { m with reservations := m.reservations.erase i, returned := (i, 0) :: m.returned } := by
  have hcharge : r.charge = 0 := (charge_of_live hlive).trans hbytes
  refine ⟨(h.accounted.erase hi hcharge).history _ _ _, ?_⟩
  refine h.linked.close (h.linked.reservation_lt hi) (outstanding_of_live hi hlive)
    (fun {j r'} hj => ?_) id fun j => ?_
  · rw [get?_erase] at hj
    split at hj
    · cases hj
    · exact ⟨r', hj, rfl⟩
  · rw [get?_erase]
    by_cases hj : j = i
    · subst hj
      simp [h.linked.disjoint hi]
    · rw [if_neg (Ne.symm hj), if_neg hj]
      rfl

theorem Sound.drop (i : ℕ) : Sound (m.drop i) := by
  unfold Memory.drop
  split
  · exact h
  · rename_i r hi
    split
    · exact h.set _ hi
    · apply Sound.reap
      unfold dropInner
      split
      · rename_i hreleased
        exact h.erase_released hi hreleased
      · rename_i hlive
        have hlive : r.released = false := by simpa using hlive
        split
        · rename_i hbytes
          exact h.erase_empty hi hlive hbytes
        · have hgone := h.giveBack hi hlive
          obtain ⟨budget, child, parent, hb, heq, hg⟩ := h.giveBack_eq hi hlive
          have hget : (m.giveBack i r).reservations.get? i = some { r with bytes := 0, released := true } := by
            rw [heq]
            exact (get?_insert _ _ _ _).trans (if_pos rfl)
          exact hgone.erase_released hget rfl

theorem Sound.allot_empty (hb : m.budgets.get? b = some budget) (component : RequestMemoryComponent) :
    Sound (m.allot b component 0) := by
  refine ⟨?_, h.linked.allot hb component 0⟩
  refine (h.accounted.set fun b' => ?_).history m.nextBudget (m.nextReservation + 1) m.returned
  unfold chargeOf
  rw [h.linked.fresh.1]
  unfold RequestMemoryReservation.chargeIn RequestMemoryReservation.charge
  simp

end

theorem Memory.Owned.get_budget (h : m.Owned b) : ∃ budget, m.budgets.get? b = some budget := by
  unfold Memory.Owned at h
  cases hb : m.budgets.get? b with
  | none =>
    rw [hb] at h
    cases h
  | some budget => exact ⟨budget, rfl⟩

section
variable (h : Sound m)
include h

section
variable (hb : m.budgets.get? b = some budget)
include hb

theorem Sound.reserve (component : RequestMemoryComponent)
    (bytes : ℕ) : Sound (m.reserve b component bytes).2 := by
  have hresize := (h.allot_empty hb component).resize m.nextReservation bytes
  unfold Memory.reserve
  split
  · rename_i e m' heq
    rw [heq] at hresize
    exact hresize.drop _
  · rename_i m' heq
    rw [heq] at hresize
    exact hresize

theorem Sound.reserveObservationScratch (bytes : ℕ) :
    Sound (m.reserveObservationScratch b bytes).2 := by
  have hc : m.chargeOf b m.nextReservation = 0 := by
    unfold chargeOf
    rw [h.linked.fresh.1]
    rfl
  obtain ⟨child, parent, hcases⟩ := h.accounted.charge_cases hb hc .streamRetainedState bytes false
  unfold Memory.reserveObservationScratch
  rcases hcases with ⟨hok, hg⟩ | ⟨⟨e, herr⟩, -, href⟩
  · rw [hok]
    refine ⟨?_, (h.linked.level hb).allot ((get?_insert _ _ _ _).trans (if_pos rfl)) .streamRetainedState bytes⟩
    have hnew : ∀ r', m.reservations.get? m.nextReservation = some r' → r'.budget = b := by
      intro r' hr'
      rw [h.linked.fresh.1] at hr'
      cases hr'
    rw [← hc] at hg
    exact (h.accounted.recharge (r := ⟨b, .streamRetainedState, bytes, false, 1⟩) hb rfl hnew hg).history _ _ _
  · rw [herr]
    exact ⟨h.accounted.refuse hb href, h.linked.level hb⟩

theorem Sound.retainBytes (component : RequestMemoryComponent)
    (length : ℕ) : Sound (m.retainBytes b component length).2 := by
  have hreserve := h.reserve hb component length
  unfold Memory.retainBytes
  split
  · exact h
  · split
    · rename_i e m' heq
      rw [heq] at hreserve
      exact hreserve
    · rename_i i m' heq
      rw [heq] at hreserve
      exact hreserve

end

theorem Sound.setHandles (b : ℕ) (handles : ℕ → ℕ) : Sound (m.setHandles b handles) := by
  unfold Memory.setHandles
  split
  · exact h
  · rename_i budget hb
    exact ⟨h.accounted.recount hb rfl rfl rfl rfl rfl, h.linked.level hb⟩

theorem Sound.reject (b : ℕ) (component : RequestMemoryComponent) (requestedBytes : ℕ) :
    Sound (m.reject b component requestedBytes).2 := by
  unfold Memory.reject
  split
  · exact h
  · rename_i budget hb
    exact ⟨h.accounted.recount hb rfl rfl rfl rfl rfl, h.linked.level hb⟩

theorem Sound.configureLimit (limitBytes : Option UInt64) : Sound (m.configureLimit limitBytes) := by
  refine ⟨⟨fun hb => ?_, h.accounted.used, h.accounted.active⟩, h.linked.levels _ fun _ => rfl⟩
  have hex := h.accounted.budget hb
  exact ⟨hex.used, hex.active, hex.limit, hex.limit_le⟩

end

theorem Linked.no_reservation (h : Linked m) (hr : r ∈ m.reservations.values) : r.budget ≠ m.nextBudget := by
  obtain ⟨i, hi⟩ := mem_values_iff.mp hr
  obtain ⟨budget, hb⟩ := h.get_budget hi
  exact ne_of_lt (h.budget_lt hb)

theorem Sound.withParent (h : Sound m) (limitBytes : UInt64) : Sound (m.withParent limitBytes) := by
  have hnone : m.budgets.get? m.nextBudget = none := by
    cases hb : m.budgets.get? m.nextBudget with
    | none => rfl
    | some budget => exact absurd (h.linked.budget_lt hb) (lt_irrefl _)
  have hcharged : m.charged m.nextBudget = 0 := by
    unfold charged
    rw [List.map_congr_left (g := fun _ => 0) fun r hr =>
      chargeIn_of_ne (h.linked.no_reservation hr)]
    simp
  have hoccupants : m.occupants m.nextBudget ≤ m.charged m.nextBudget := List.sum_le_sum fun r _ => occupied_le _
  unfold Memory.withParent
  refine ⟨⟨fun {b budget} hb => ?_, ?_, ?_⟩, ?_⟩
  · rw [get?_insert] at hb
    split at hb
    · rename_i heq
      subst heq
      cases hb
      refine ⟨hcharged.symm, (Nat.le_zero.mp (hoccupants.trans_eq hcharged)).symm, Nat.zero_le _, ?_⟩
      have hlt := limitBytes.toNat_lt
      show max limitBytes.toNat 1 ≤ u64Max
      unfold u64Max
      omega
    · have hex := h.accounted.budget hb
      exact ⟨hex.used, hex.active, hex.limit, hex.limit_le⟩
  · have hsum := sum_values_insert (fun x : RequestMemoryBudget => x.state.usedBytes)
      m.budgets m.nextBudget ⟨{ limitBytes := max limitBytes.toNat 1 }, 1⟩
    rw [hnone] at hsum
    exact h.accounted.used.trans (congrArg (· + m.residentUsed) hsum.symm)
  · have hsum := sum_values_insert
      (fun x : RequestMemoryBudget => x.state.activeReservations)
      m.budgets m.nextBudget ⟨{ limitBytes := max limitBytes.toNat 1 }, 1⟩
    rw [hnone] at hsum
    exact h.accounted.active.trans (congrArg (· + m.residentActive) hsum.symm)
  · have hl := h.linked
    refine ⟨fun {i r} hi => ?_, fun {b budget} hb => ?_, hl.reservation_lt, hl.resident_lt, hl.disjoint, hl.returned⟩
    · show ((m.budgets.insert m.nextBudget _).get? r.budget).isSome
      rw [get?_insert]
      split
      · rfl
      · exact hl.budget hi
    · rw [get?_insert] at hb
      split at hb
      · rename_i heq
        rw [← heq]
        exact Nat.lt_succ_self _
      · exact Nat.lt_succ_of_lt (hl.budget_lt hb)

/-! ### Direct reservations -/

theorem Memory.outstanding_of_resident {r : ResidentMemoryReservation} (hi : m.residents.get? i = some r) :
    m.outstanding i = true := by
  unfold outstanding
  rw [hi]
  simp

/-- The direct reservations may change as long as their charges and the parent's counters do alike. -/
theorem Accounted.residents (h : Accounted m) (parent : ResidentMemorySnapshot)
    (residents : OrderedMap ℕ ResidentMemoryReservation)
    (hused : parent.usedBytes + m.residentUsed = m.parent.usedBytes + (residents.values.map (·.bytes)).sum)
    (hactive : parent.activeReservations + m.residentActive =
      m.parent.activeReservations + (residents.values.map fun r => occupied r.bytes).sum) :
    Accounted { m with parent, residents } := by
  refine ⟨fun hb => ?_, ?_, ?_⟩
  · have hex := h.budget hb
    exact ⟨hex.used, hex.active, hex.limit, hex.limit_le⟩
  · have hold := h.used
    show parent.usedBytes = m.requestUsed + (residents.values.map (·.bytes)).sum
    omega
  · have hold := h.active
    show parent.activeReservations = m.requestActive + (residents.values.map fun r => occupied r.bytes).sum
    omega

section
variable (h : Sound m)
include h

theorem Sound.reserveResident (bytes : ℕ) : Sound (m.reserveResident bytes).2 := by
  unfold Memory.reserveResident
  split
  · rename_i parent heq
    have hparent := tryResize_false heq
    refine ⟨h.accounted.residents parent m.residents ?_ ?_, h.linked.levels parent fun _ => rfl⟩
    · rw [hparent]
      rfl
    · rw [hparent]
      rfl
  · rename_i parent heq
    have hmove := tryResize_true heq (Nat.zero_le _) (Nat.zero_le _) h.accounted.parent_le
    have hused := hmove.used
    have hactive := hmove.active
    have hsum := sum_values_insert (fun r : ResidentMemoryReservation => r.bytes)
      m.residents m.nextReservation ⟨bytes, 1⟩
    have hcount := sum_values_insert
      (fun r : ResidentMemoryReservation => occupied r.bytes)
      m.residents m.nextReservation ⟨bytes, 1⟩
    rw [h.linked.fresh.2] at hsum hcount
    simp only [map_none, getD_none] at hsum hcount
    refine ⟨(h.accounted.residents parent (m.residents.insert m.nextReservation ⟨bytes, 1⟩) ?_ ?_).history
      m.nextBudget (m.nextReservation + 1) m.returned, ?_⟩
    · unfold residentUsed
      omega
    · unfold residentActive
      rw [occupied_zero] at hactive
      omega
    · have hl := h.linked
      refine ⟨hl.budget, hl.budget_lt, fun hi => Nat.lt_succ_of_lt (hl.reservation_lt hi),
        fun {i r} hi => ?_, fun {i r} hi => ?_, fun i => ?_⟩
      · rw [get?_insert] at hi
        split at hi
        · rename_i heq'
          rw [← heq']
          exact Nat.lt_succ_self _
        · exact Nat.lt_succ_of_lt (hl.resident_lt hi)
      · show (m.residents.insert m.nextReservation _).get? i = none
        rw [get?_insert_of_ne _ _ (ne_of_gt (hl.reservation_lt hi))]
        exact hl.disjoint hi
      · show m.returns i = if i < m.nextReservation + 1 ∧
          ((m.reservations.get? i).any (fun r => !r.released) ||
            ((m.residents.insert m.nextReservation _).get? i).isSome) = false then 1 else 0
        rw [get?_insert, hl.returned i]
        by_cases heq' : m.nextReservation = i
        · subst heq'
          simp
        · have hlt : i < m.nextReservation + 1 ↔ i < m.nextReservation := by omega
          simp only [if_neg heq', hlt]
          rfl

theorem Sound.setResident {r : ResidentMemoryReservation} (handles : ℕ)
    (hi : m.residents.get? i = some r) :
    Sound { m with residents := m.residents.insert i { r with handles } } := by
  have hsum := sum_values_update (fun r : ResidentMemoryReservation => r.bytes) { r with handles } hi
  have hcount := sum_values_update (fun r : ResidentMemoryReservation => occupied r.bytes) { r with handles } hi
  refine ⟨h.accounted.residents m.parent (m.residents.insert i { r with handles }) ?_ ?_, ?_⟩
  · unfold residentUsed
    dsimp only at hsum
    omega
  · unfold residentActive
    dsimp only at hcount
    omega
  · have hl := h.linked
    refine ⟨hl.budget, hl.budget_lt, hl.reservation_lt, fun {j r'} hj => ?_, fun {j r'} hj => ?_, fun j => ?_⟩
    · rw [get?_insert] at hj
      split at hj
      · rename_i heq
        exact heq ▸ hl.resident_lt hi
      · exact hl.resident_lt hj
    · have hne : i ≠ j := by
        rintro rfl
        rw [hl.disjoint hj] at hi
        cases hi
      show (m.residents.insert i _).get? j = none
      rw [get?_insert_of_ne _ _ hne]
      exact hl.disjoint hj
    · have hout : outstanding { m with residents := m.residents.insert i { r with handles } } j = m.outstanding j := by
        unfold outstanding
        rw [get?_insert]
        split
        · rename_i heq
          subst heq
          rw [hi]
          rfl
        · rfl
      show m.returns j = _
      rw [hl.returned j, hout]

theorem Sound.cloneResident (i : ℕ) : Sound (m.cloneResident i) := by
  unfold Memory.cloneResident
  split
  · exact h
  · rename_i r hi
    exact h.setResident _ hi

theorem Sound.resident_recharged {r : ResidentMemoryReservation} (hi : m.residents.get? i = some r) :
    Recharged r.bytes 0 m.parent.usedBytes m.parent.activeReservations (m.parent.tryResize r.bytes 0).2.usedBytes
      (m.parent.tryResize r.bytes 0).2.activeReservations := by
  have hbytes := le_sum_values (fun r : ResidentMemoryReservation => r.bytes) hi
  have hone := le_sum_values (fun r : ResidentMemoryReservation => occupied r.bytes) hi
  have hused := h.accounted.used
  have hactive := h.accounted.active
  unfold residentUsed at hused
  unfold residentActive at hactive
  exact tryResize_true (m.parent.tryResize_shrink (Nat.zero_le _)) (by omega) (by omega) h.accounted.parent_le

theorem Sound.dropResident (i : ℕ) : Sound (m.dropResident i) := by
  unfold Memory.dropResident
  split
  · exact h
  · rename_i r hi
    split
    · exact h.setResident _ hi
    · have hmove := h.resident_recharged hi
      have hsum := sum_values_erase (fun r : ResidentMemoryReservation => r.bytes) hi
      have hcount := sum_values_erase (fun r : ResidentMemoryReservation => occupied r.bytes) hi
      have hused := hmove.used
      have hactive := hmove.active
      refine ⟨(h.accounted.residents (m.parent.tryResize r.bytes 0).2 (m.residents.erase i) ?_ ?_).history
        m.nextBudget m.nextReservation _, ?_⟩
      · unfold residentUsed
        omega
      · unfold residentActive
        rw [occupied_zero] at hactive
        omega
      · have hnone : m.reservations.get? i = none := by
          cases hres : m.reservations.get? i with
          | none => rfl
          | some r' =>
            rw [h.linked.disjoint hres] at hi
            cases hi
        refine (h.linked.levels (m.parent.tryResize r.bytes 0).2 fun _ => rfl).close
          (h.linked.resident_lt hi) (outstanding_of_resident hi) (fun hj => ⟨_, hj, rfl⟩)
          (fun {j r'} hj => ?_) fun j => ?_
        · rw [get?_erase] at hj
          split at hj
          · cases hj
          · exact hj
        · rw [get?_erase]
          by_cases hj : j = i
          · subst hj
            simp [hnone]
          · rw [if_neg (Ne.symm hj), if_neg hj]
            rfl

end

/-- Every operation keeps both. -/
theorem Sound.step (h : Sound m) (op : Op) : Sound (step m op) := by
  cases op with
  | configureLimit limitBytes => exact h.configureLimit limitBytes
  | withParent limitBytes => exact h.withParent limitBytes
  | cloneBudget b =>
    rw [RequestMemory.step]
    split
    · exact h.setHandles b _
    · exact h
  | budget i =>
    rw [RequestMemory.step]
    split
    · exact h
    · exact h.setHandles _ _
  | dropBudget b =>
    rw [RequestMemory.step]
    split
    · exact (h.setHandles b _).reap b
    · exact h
  | reject b component requestedBytes =>
    rw [RequestMemory.step]
    split
    · exact h.reject b component _
    · exact h
  | reserve b component bytes =>
    rw [RequestMemory.step]
    split
    · rename_i hb
      obtain ⟨budget, hb⟩ := hb.get_budget
      exact h.reserve hb component _
    · exact h
  | reserveObservationScratch b bytes =>
    rw [RequestMemory.step]
    split
    · rename_i hb
      obtain ⟨budget, hb⟩ := hb.get_budget
      exact h.reserveObservationScratch hb _
    · exact h
  | retainBytes b component length =>
    rw [RequestMemory.step]
    split
    · rename_i hb
      obtain ⟨budget, hb⟩ := hb.get_budget
      exact h.retainBytes hb component _
    · exact h
  | resize i bytes => exact h.resize i _
  | release i => exact h.release i
  | clone i => exact h.clone i
  | drop i => exact h.drop i
  | transferBytes i length =>
    rw [RequestMemory.step, Memory.transferBytes]
    split
    · exact h.drop i
    · exact h
  | reserveResident bytes => exact h.reserveResident _
  | cloneResident i => exact h.cloneResident i
  | dropResident i => exact h.dropResident i

theorem sound_new (limitBytes : Option UInt64) : Sound (new limitBytes) := by
  refine ⟨⟨fun hb => ?_, rfl, rfl⟩, ⟨fun hi => ?_, fun hb => ?_, fun hi => ?_, fun hi => ?_,
    fun hi => ?_, fun i => ?_⟩⟩
  · cases hb
  · cases hi
  · cases hb
  · cases hi
  · cases hi
  · cases hi
  · exact (if_neg fun hlt => Nat.not_lt_zero _ hlt.1).symm

theorem sound_run (limitBytes : Option UInt64) (ops : List Op) : Sound (run step (new limitBytes) ops) :=
  run_invariant (P := fun _ _ => True) (fun _ op h _ => h.step op) (sound_new limitBytes)
    (EachStep.of_forall (fun _ _ => trivial) _ _)

end CcSwitchServer.RequestMemory
