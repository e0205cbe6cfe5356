import CcSwitchServer.Foundations.Runs
import CcSwitchServer.RequestMemory.Budget

/-! # The two levels of memory accounting are exact

Every counter is the sum of the live charges that it stands for.
-/

namespace CcSwitchServer.RequestMemory
open Foundations ResidentMemorySnapshot OrderedMap Memory RequestMemoryReservation

/-! ## One charge moves -/

def occupied (bytes : ℕ) : ℕ := if bytes = 0 then 0 else 1

@[simp] theorem occupied_zero : occupied 0 = 0 := rfl

theorem occupied_le (bytes : ℕ) : occupied bytes ≤ bytes := by
  unfold occupied
  split <;> omega

/-- The counters before and after a charge goes from `current` to `next`. -/
structure Recharged (current next used active used' active' : ℕ) : Prop where
  used : used' + current = used + next
  active : active' + occupied current = active + occupied next

variable {p parent : ResidentMemorySnapshot} {current next : ℕ} {state : RequestMemoryState}

theorem ResidentMemorySnapshot.grown_eq_some {additional total : ℕ} (h : p.grown additional = some total) :
    total = p.usedBytes + additional ∧ p.usedBytes + additional ≤ u64Max := by
  unfold grown at h
  obtain ⟨h, -⟩ := Option.filter_eq_some_iff.mp h
  obtain ⟨hle, heq⟩ := checkedAddU64_eq_some.mp h
  exact ⟨heq, hle⟩

theorem ResidentMemorySnapshot.tryResize_true {p' : ResidentMemorySnapshot}
    (h : p.tryResize current next = (true, p')) (hused : current ≤ p.usedBytes)
    (hactive : occupied current ≤ p.activeReservations) (hle : p.activeReservations ≤ p.usedBytes) :
    Recharged current next p.usedBytes p.activeReservations p'.usedBytes p'.activeReservations := by
  unfold tryResize at h
  unfold occupied at hactive
  split at h
  · rename_i hgrow
    cases hg : p.grown (next - current) with
    | none =>
      rw [hg] at h
      cases h
    | some total =>
      rw [hg] at h
      cases h
      obtain ⟨rfl, htotal⟩ := grown_eq_some hg
      refine ⟨by dsimp only; omega, ?_⟩
      dsimp only
      unfold occupied saturatingAdd
      by_cases hc : current = 0
      · rw [if_pos hc, if_pos hc, if_neg (by omega)]
        omega
      · rw [if_neg hc, if_neg hc, if_neg (by omega)]
  · rename_i hshrink
    cases h
    refine ⟨by dsimp only; omega, ?_⟩
    dsimp only
    unfold occupied
    by_cases hn : next = 0
    · by_cases hc : current = 0
      · simp [hc, hn]
      · rw [if_pos ⟨Nat.pos_of_ne_zero hc, hn⟩, if_neg hc, if_pos hn]
        rw [if_neg hc] at hactive
        omega
    · rw [if_neg (fun h => hn h.2), if_neg (by omega), if_neg hn]

theorem ResidentMemorySnapshot.tryResize_false {p' : ResidentMemorySnapshot}
    (h : p.tryResize current next = (false, p')) : p' = { p with rejections := p'.rejections } := by
  unfold tryResize at h
  split at h
  · split at h
    · cases h
      rfl
    · cases h
  · cases h

theorem ResidentMemorySnapshot.tryResize_shrink (p : ResidentMemorySnapshot) (h : next ≤ current) :
    p.tryResize current next = (true, (p.tryResize current next).2) := by
  unfold tryResize
  rw [if_neg (by omega)]

/-- What a budget's counters give when they are exact. -/
structure Bounded (current : ℕ) (state : RequestMemoryState) (parent : ResidentMemorySnapshot) : Prop where
  used : current ≤ state.usedBytes
  active : occupied current ≤ state.activeReservations
  active_le : state.activeReservations ≤ state.usedBytes
  limit : state.usedBytes ≤ state.limitBytes
  limit_le : state.limitBytes ≤ u64Max
  parent_used : state.usedBytes ≤ parent.usedBytes
  parent_active : state.activeReservations ≤ parent.activeReservations
  parent_le : parent.activeReservations ≤ parent.usedBytes

/-- A resize that passed moved the charge on both levels. -/
structure Granted (current next : ℕ) (state : RequestMemoryState) (parent : ResidentMemorySnapshot)
    (child : RequestMemoryState) (parent' : ResidentMemorySnapshot) : Prop where
  request : Recharged current next state.usedBytes state.activeReservations child.usedBytes child.activeReservations
  resident : Recharged current next parent.usedBytes parent.activeReservations parent'.usedBytes
    parent'.activeReservations
  limit : child.limitBytes = state.limitBytes
  used_le : child.usedBytes ≤ child.limitBytes

/-- A resize that was refused left all counters of charges. -/
structure Refused (state : RequestMemoryState) (parent : ResidentMemorySnapshot)
    (child : RequestMemoryState) (parent' : ResidentMemorySnapshot) : Prop where
  request : child = { state with exhausted := child.exhausted }
  resident : parent' = { parent with rejections := parent'.rejections }

variable (component : RequestMemoryComponent)

theorem RequestMemoryState.resizeInner_shrink (exhaustOnFailure : Bool)
    (hb : Bounded current state parent) (h : next ≤ current) :
    let r := state.resizeInner parent component current next exhaustOnFailure
    r.result = .ok () ∧ Granted current next state parent r.child r.parent := by
  have hparent := tryResize_true (parent.tryResize_shrink h)
    (hb.used.trans hb.parent_used) (hb.active.trans hb.parent_active) hb.parent_le
  have hused := hb.used
  have hactive := hb.active
  have hlimit := hb.limit
  unfold resizeInner
  rw [if_pos h]
  refine ⟨rfl, ⟨by dsimp only; omega, ?_⟩, hparent, rfl, by dsimp only; omega⟩
  dsimp only
  unfold occupied at hactive ⊢
  by_cases hn : next = 0
  · by_cases hc : current = 0
    · simp [hc, hn]
    · rw [if_pos ⟨Nat.pos_of_ne_zero hc, hn⟩, if_neg hc, if_pos hn]
      rw [if_neg hc] at hactive
      omega
  · rw [if_neg (fun h => hn h.2), if_neg (by omega), if_neg hn]

theorem RequestMemoryState.resizeInner_grow (exhaustOnFailure : Bool)
    (hb : Bounded current state parent) (h : ¬next ≤ current) :
    let r := state.resizeInner parent component current next exhaustOnFailure
    (r.result = .ok () ∧ Granted current next state parent r.child r.parent) ∨
      (∃ e, r.result = .error e) ∧ Refused state parent r.child r.parent := by
  unfold resizeInner
  rw [if_neg h]
  split
  · exact .inr ⟨⟨_, rfl⟩, rfl, rfl⟩
  · rename_i hroom
    obtain ⟨-, hroom⟩ := not_or.mp hroom
    cases hp : parent.tryResize current next with
    | mk granted parent' =>
      cases granted with
      | false => exact .inr ⟨⟨_, rfl⟩, rfl, tryResize_false hp⟩
      | true =>
        have hparent := tryResize_true hp (hb.used.trans hb.parent_used)
          (hb.active.trans hb.parent_active) hb.parent_le
        have hle := hb.active_le
        have hlimit := hb.limit
        have hmax := hb.limit_le
        refine .inl ⟨rfl, ⟨?_, ?_⟩, hparent, rfl, ?_⟩
        · dsimp only
          unfold saturatingAdd
          omega
        · dsimp only
          unfold occupied saturatingAdd
          by_cases hc : current = 0
          · rw [if_pos hc, if_pos hc, if_neg (by omega)]
            omega
          · rw [if_neg hc, if_neg hc, if_neg (by omega)]
        · dsimp only
          unfold saturatingAdd
          omega

theorem RequestMemoryState.resizeInner_cases (next : ℕ) (exhaustOnFailure : Bool) (hb : Bounded current state parent) :
    let r := state.resizeInner parent component current next exhaustOnFailure
    (r.result = .ok () ∧ Granted current next state parent r.child r.parent) ∨
      (∃ e, r.result = .error e) ∧ current < next ∧ Refused state parent r.child r.parent := by
  by_cases h : next ≤ current
  · exact .inl (resizeInner_shrink component exhaustOnFailure hb h)
  · rcases resizeInner_grow component exhaustOnFailure hb h with hok | ⟨herr, href⟩
    · exact .inl hok
    · exact .inr ⟨herr, not_le.mp h, href⟩

/-! ## The sums behind the counters -/

namespace RequestMemoryReservation

def charge (r : RequestMemoryReservation) : ℕ := if r.released then 0 else r.bytes

def chargeIn (b : ℕ) (r : RequestMemoryReservation) : ℕ := if r.budget = b then r.charge else 0

theorem chargeIn_of_budget {b : ℕ} {r : RequestMemoryReservation} (h : r.budget = b) :
    r.chargeIn b = r.charge := if_pos h

theorem chargeIn_of_ne {b : ℕ} {r : RequestMemoryReservation} (h : r.budget ≠ b) : r.chargeIn b = 0 := if_neg h

end RequestMemoryReservation

namespace Memory

variable (m : Memory)

/-- The bytes of the live reservations of budget `b` that are not released. -/
def charged (b : ℕ) : ℕ := (m.reservations.values.map (·.chargeIn b)).sum

def occupants (b : ℕ) : ℕ := (m.reservations.values.map fun r => occupied (r.chargeIn b)).sum

def allOccupants : ℕ := (m.reservations.values.map fun r => occupied r.charge).sum

def requestUsed : ℕ := (m.budgets.values.map (·.state.usedBytes)).sum

def requestActive : ℕ := (m.budgets.values.map (·.state.activeReservations)).sum

def residentUsed : ℕ := (m.residents.values.map (·.bytes)).sum

def residentActive : ℕ := (m.residents.values.map fun r => occupied r.bytes).sum

/-- The charge that `i` holds in budget `b`. -/
def chargeOf (b i : ℕ) : ℕ := ((m.reservations.get? i).map (·.chargeIn b)).getD 0

theorem charged_insert (b i : ℕ) (r : RequestMemoryReservation) :
    ((m.reservations.insert i r).values.map (·.chargeIn b)).sum + m.chargeOf b i = m.charged b + r.chargeIn b :=
  sum_values_insert _ _ _ _

theorem occupants_insert (b i : ℕ) (r : RequestMemoryReservation) :
    ((m.reservations.insert i r).values.map fun r => occupied (r.chargeIn b)).sum + occupied (m.chargeOf b i) =
      m.occupants b + occupied (r.chargeIn b) := by
  have h := sum_values_insert (fun r => occupied (r.chargeIn b)) m.reservations i r
  unfold chargeOf
  cases hi : m.reservations.get? i with
  | none =>
    rw [hi] at h
    exact h
  | some r' =>
    rw [hi] at h
    exact h

theorem chargeOf_le (b i : ℕ) : m.chargeOf b i ≤ m.charged b := by
  unfold chargeOf
  cases h : m.reservations.get? i with
  | none => exact Nat.zero_le _
  | some r => exact le_sum_values (·.chargeIn b) h

theorem occupied_chargeOf_le (b i : ℕ) : occupied (m.chargeOf b i) ≤ m.occupants b := by
  unfold chargeOf
  cases h : m.reservations.get? i with
  | none => exact Nat.zero_le _
  | some r =>
    exact le_sum_values (fun r : RequestMemoryReservation => occupied (r.chargeIn b)) h

end Memory

/-- A request budget counts its own reservations and stays within its limit. -/
structure Exact (m : Memory) (b : ℕ) (budget : RequestMemoryBudget) : Prop where
  used : budget.state.usedBytes = m.charged b
  active : budget.state.activeReservations = m.occupants b
  limit : budget.state.usedBytes ≤ budget.state.limitBytes
  limit_le : budget.state.limitBytes ≤ u64Max

/-- Both levels hold exactly the live charges. -/
structure Accounted (m : Memory) : Prop where
  budget : ∀ {b budget}, m.budgets.get? b = some budget → Exact m b budget
  used : m.parent.usedBytes = m.requestUsed + m.residentUsed
  active : m.parent.activeReservations = m.requestActive + m.residentActive

variable {m : Memory} {b i : ℕ} {budget : RequestMemoryBudget} {parent : ResidentMemorySnapshot}
  {r : RequestMemoryReservation}

theorem Accounted.active_le (h : Accounted m) (hb : m.budgets.get? b = some budget) :
    budget.state.activeReservations ≤ budget.state.usedBytes := by
  rw [(h.budget hb).used, (h.budget hb).active]
  exact List.sum_le_sum fun r _ => occupied_le _

theorem Accounted.parent_le (h : Accounted m) : m.parent.activeReservations ≤ m.parent.usedBytes := by
  have hrequests : m.requestActive ≤ m.requestUsed := by
    refine List.sum_le_sum fun budget hmem => ?_
    obtain ⟨b, hb⟩ := mem_values_iff.mp hmem
    exact h.active_le hb
  have hresidents : m.residentActive ≤ m.residentUsed := List.sum_le_sum fun r _ => occupied_le r.bytes
  have hused := h.used
  have hactive := h.active
  omega

theorem Accounted.bounded (h : Accounted m) (hb : m.budgets.get? b = some budget) (i : ℕ) :
    Bounded (m.chargeOf b i) budget.state m.parent where
  used := by
    rw [(h.budget hb).used]
    exact m.chargeOf_le b i
  active := by
    rw [(h.budget hb).active]
    exact m.occupied_chargeOf_le b i
  active_le := h.active_le hb
  limit := (h.budget hb).limit
  limit_le := (h.budget hb).limit_le
  parent_used := by
    have hle := le_sum_values (fun x : RequestMemoryBudget => x.state.usedBytes) hb
    rw [h.used]
    exact hle.trans (Nat.le_add_right _ _)
  parent_active := by
    have hle := le_sum_values (fun x : RequestMemoryBudget => x.state.activeReservations) hb
    rw [h.active]
    exact hle.trans (Nat.le_add_right _ _)
  parent_le := h.parent_le

/-! ## What keeps the counters exact -/

section
variable (h : Accounted m)
include h

/-- A resize moves one charge, and both levels with it. -/
theorem Accounted.recharge {child : RequestMemoryState} (hb : m.budgets.get? b = some budget)
    (hr : r.budget = b) (hold : ∀ r', m.reservations.get? i = some r' → r'.budget = b)
    (hg : Granted (m.chargeOf b i) r.charge budget.state m.parent child parent) :
    Accounted { m with
        budgets := m.budgets.insert b { budget with state := child }
        parent
        reservations := m.reservations.insert i r } := by
  have hother : ∀ b', b ≠ b' → m.chargeOf b' i = 0 := by
    intro b' hne
    unfold chargeOf
    cases hi : m.reservations.get? i with
    | none => rfl
    | some r' => exact chargeIn_of_ne (hold r' hi ▸ hne)
  constructor
  · intro b' budget' hb'
    have hcharged := m.charged_insert b' i r
    have hoccupants := m.occupants_insert b' i r
    rw [get?_insert] at hb'
    split at hb'
    · rename_i heq
      subst heq
      cases hb'
      rw [chargeIn_of_budget hr] at hcharged hoccupants
      have hused := hg.request.used
      have hactive := hg.request.active
      refine ⟨?_, ?_, hg.used_le, hg.limit.trans_le (h.budget hb).limit_le⟩
      · rw [(h.budget hb).used] at hused
        show child.usedBytes = ((m.reservations.insert i r).values.map (·.chargeIn b)).sum
        omega
      · rw [(h.budget hb).active] at hactive
        show child.activeReservations = ((m.reservations.insert i r).values.map fun r => occupied (r.chargeIn b)).sum
        omega
    · rename_i hne
      have hex := h.budget hb'
      rw [hother b' hne, chargeIn_of_ne (hr ▸ hne)] at hcharged hoccupants
      exact ⟨hex.used.trans hcharged.symm, hex.active.trans hoccupants.symm, hex.limit, hex.limit_le⟩
  · have hsum := sum_values_update (fun x : RequestMemoryBudget => x.state.usedBytes) { budget with state := child } hb
    have hused := h.used
    have hchild := hg.request.used
    have hparent := hg.resident.used
    unfold requestUsed at hused
    dsimp only at hsum
    show parent.usedBytes =
      ((m.budgets.insert b { budget with state := child }).values.map (·.state.usedBytes)).sum + m.residentUsed
    omega
  · have hsum := sum_values_update
      (fun x : RequestMemoryBudget => x.state.activeReservations) { budget with state := child } hb
    have hactive := h.active
    have hchild := hg.request.active
    have hparent := hg.resident.active
    unfold requestActive at hactive
    dsimp only at hsum
    show parent.activeReservations =
      ((m.budgets.insert b { budget with state := child }).values.map
        (·.state.activeReservations)).sum + m.residentActive
    omega

theorem Accounted.recount {budget' : RequestMemoryBudget} (hb : m.budgets.get? b = some budget)
    (hused : budget'.state.usedBytes = budget.state.usedBytes)
    (hactive : budget'.state.activeReservations = budget.state.activeReservations)
    (hlimit : budget'.state.limitBytes = budget.state.limitBytes) (hparent : parent.usedBytes = m.parent.usedBytes)
    (hparent' : parent.activeReservations = m.parent.activeReservations) :
    Accounted { m with budgets := m.budgets.insert b budget', parent } := by
  constructor
  · intro b' budget₁ hb'
    rw [get?_insert] at hb'
    split at hb'
    · rename_i heq
      subst heq
      cases hb'
      have hex := h.budget hb
      exact ⟨hused.trans hex.used, hactive.trans hex.active, by rw [hused, hlimit]; exact hex.limit,
        hlimit.trans_le hex.limit_le⟩
    · have hex := h.budget hb'
      exact ⟨hex.used, hex.active, hex.limit, hex.limit_le⟩
  · have hsum := sum_values_update (fun x : RequestMemoryBudget => x.state.usedBytes) budget' hb
    have hold := h.used
    unfold requestUsed at hold
    show parent.usedBytes = ((m.budgets.insert b budget').values.map (·.state.usedBytes)).sum + m.residentUsed
    omega
  · have hsum := sum_values_update (fun x : RequestMemoryBudget => x.state.activeReservations) budget' hb
    have hold := h.active
    unfold requestActive at hold
    show parent.activeReservations =
      ((m.budgets.insert b budget').values.map (·.state.activeReservations)).sum + m.residentActive
    omega

theorem Accounted.reassign {reservations : OrderedMap ℕ RequestMemoryReservation}
    (hcharged : ∀ b, (reservations.values.map (·.chargeIn b)).sum = m.charged b)
    (hoccupants : ∀ b, (reservations.values.map fun r => occupied (r.chargeIn b)).sum = m.occupants b) :
    Accounted { m with reservations } := by
  refine ⟨fun hb => ?_, h.used, h.active⟩
  have hex := h.budget hb
  exact ⟨hex.used.trans (hcharged _).symm, hex.active.trans (hoccupants _).symm, hex.limit, hex.limit_le⟩

theorem Accounted.history (nextBudget nextReservation : ℕ) (returned : List (ℕ × ℕ)) :
    Accounted { m with nextBudget, nextReservation, returned } := by
  refine ⟨fun hb => ?_, h.used, h.active⟩
  have hex := h.budget hb
  exact ⟨hex.used, hex.active, hex.limit, hex.limit_le⟩

theorem Accounted.set (hsame : ∀ b, r.chargeIn b = m.chargeOf b i) :
    Accounted { m with reservations := m.reservations.insert i r } := by
  refine h.reassign (fun b => ?_) (fun b => ?_)
  · have hsum := m.charged_insert b i r
    rw [hsame b] at hsum
    exact Nat.add_right_cancel hsum
  · have hsum := m.occupants_insert b i r
    rw [hsame b] at hsum
    exact Nat.add_right_cancel hsum

theorem Accounted.erase (hi : m.reservations.get? i = some r) (hr : r.charge = 0) :
    Accounted { m with reservations := m.reservations.erase i } := by
  have hzero : ∀ b, r.chargeIn b = 0 := by
    intro b
    unfold chargeIn
    rw [hr, ite_self]
  refine h.reassign (fun b => ?_) (fun b => ?_)
  · have hsum := sum_values_erase (·.chargeIn b) hi
    rw [hzero b] at hsum
    exact hsum
  · have hsum := sum_values_erase (fun r : RequestMemoryReservation => occupied (r.chargeIn b)) hi
    rw [hzero b] at hsum
    exact hsum

/-- What `charge` does to exact counters: the caller writes the granted charge into its reservation. -/
theorem Accounted.charge_cases {current : ℕ} (hb : m.budgets.get? b = some budget)
    (hc : m.chargeOf b i = current) (component : RequestMemoryComponent) (next : ℕ) (exhaustOnFailure : Bool) :
    ∃ child parent,
      let m' : Memory :=
        { m with budgets := m.budgets.insert b { budget with state := child }, parent }
      (m.charge b component current next exhaustOnFailure = (.ok (), m') ∧
          Granted current next budget.state m.parent child parent) ∨
        (∃ e, m.charge b component current next exhaustOnFailure = (.error e, m')) ∧
          current < next ∧ Refused budget.state m.parent child parent := by
  subst hc
  have hcases := RequestMemoryState.resizeInner_cases component next exhaustOnFailure (h.bounded hb i)
  unfold Memory.charge
  rw [hb]
  dsimp only at hcases ⊢
  generalize budget.state.resizeInner m.parent component (m.chargeOf b i) next exhaustOnFailure = r at hcases
  refine ⟨r.child, r.parent, ?_⟩
  rcases hcases with ⟨hok, hg⟩ | ⟨⟨e, herr⟩, hlt, href⟩
  · exact .inl ⟨by rw [hok], hg⟩
  · exact .inr ⟨⟨e, by rw [herr]⟩, hlt, href⟩

theorem Accounted.refuse {child : RequestMemoryState} (hb : m.budgets.get? b = some budget)
    (href : Refused budget.state m.parent child parent) :
    Accounted { m with budgets := m.budgets.insert b { budget with state := child }, parent } := by
  apply h.recount hb
  · rw [href.request]
  · rw [href.request]
  · rw [href.request]
  · rw [href.resident]
  · rw [href.resident]

end

theorem Memory.chargeOf_budget (hi : m.reservations.get? i = some r) : m.chargeOf r.budget i = r.charge := by
  unfold chargeOf
  rw [hi]
  exact chargeIn_of_budget rfl

theorem RequestMemoryReservation.charge_of_live (h : r.released = false) : r.charge = r.bytes := by
  unfold charge
  rw [h]
  rfl

theorem RequestMemoryReservation.charge_of_released (h : r.released = true) : r.charge = 0 := by
  unfold charge
  rw [h]
  rfl

end CcSwitchServer.RequestMemory
