import CcSwitchServer.Foundations.Tally
import CcSwitchServer.RequestMemory.Ownership

/-! # Every charge comes back once

A step that gives a reservation back lowers both levels by the whole charge.
-/

namespace CcSwitchServer.RequestMemory
open Foundations Memory OrderedMap RequestMemoryReservation List

/-! ## What a step gives back -/

/-- The charge that `i` holds on the resident level. -/
def Memory.held (m : Memory) (i : ℕ) : ℕ :=
  ((m.reservations.get? i).map (·.charge)).getD (((m.residents.get? i).map (·.bytes)).getD 0)

/-- `i` gave its whole charge back, to the resident budget and to its request budget. -/
structure GivenBack (m m' : Memory) (i bytes : ℕ) : Prop where
  entry : m'.returned = (i, bytes) :: m.returned
  held : bytes = m.held i
  resident : m'.parent.usedBytes + bytes = m.parent.usedBytes
  request : ∀ {r budget'}, m.reservations.get? i = some r → m'.budgets.get? r.budget = some budget' →
    ∃ budget, m.budgets.get? r.budget = some budget ∧ budget'.state.usedBytes + bytes = budget.state.usedBytes

@[simp] theorem Memory.reap_returned (m : Memory) (b : ℕ) : (m.reap b).returned = m.returned := by
  unfold reap
  split
  · rfl
  · split <;> rfl

@[simp] theorem Memory.reap_parent (m : Memory) (b : ℕ) : (m.reap b).parent = m.parent := by
  unfold reap
  split
  · rfl
  · split <;> rfl

variable {m : Memory} {b i : ℕ} {budget : RequestMemoryBudget}

theorem Memory.get?_of_reap {b' : ℕ} (h : (m.reap b).budgets.get? b' = some budget) :
    m.budgets.get? b' = some budget := by
  unfold reap at h
  split at h
  · exact h
  · split at h
    · rw [get?_erase] at h
      split at h
      · cases h
      · exact h
    · exact h

theorem GivenBack.reap {m' : Memory} {bytes : ℕ} (h : GivenBack m m' i bytes) (b : ℕ) :
    GivenBack m (m'.reap b) i bytes where
  entry := by rw [reap_returned, h.entry]
  held := h.held
  resident := by rw [reap_parent, h.resident]
  request hi hb := h.request hi (get?_of_reap hb)

theorem Sound.giveBack_givenBack (h : Sound m) {r : RequestMemoryReservation}
    (hi : m.reservations.get? i = some r) (hlive : r.released = false) :
    GivenBack m (m.giveBack i r) i r.bytes := by
  obtain ⟨budget, child, parent, hb, heq, hg⟩ := h.giveBack_eq hi hlive
  rw [heq]
  refine ⟨rfl, ?_, hg.resident.used, fun {r' budget'} hi' hb' => ?_⟩
  · unfold held
    rw [hi]
    exact (charge_of_live hlive).symm
  · rw [hi] at hi'
    cases hi'
    rw [get?_insert, if_pos rfl] at hb'
    cases hb'
    exact ⟨budget, hb, hg.request.used⟩

theorem Sound.drop_givenBack (h : Sound m) (i : ℕ) :
    (m.drop i).returned = m.returned ∨ ∃ bytes, GivenBack m (m.drop i) i bytes := by
  unfold Memory.drop
  split
  · exact .inl rfl
  · rename_i r hi
    split
    · exact .inl rfl
    · unfold dropInner
      split
      · exact .inl (reap_returned _ _)
      · rename_i hlive
        have hlive : r.released = false := by simpa using hlive
        split
        · rename_i hbytes
          refine .inr ⟨0, GivenBack.reap ⟨rfl, ?_, rfl, fun {r' budget'} hi' hb' => ?_⟩ _⟩
          · unfold held
            rw [hi]
            exact (charge_of_live hlive |>.trans hbytes).symm
          · exact ⟨budget', hb', rfl⟩
        · have hback := h.giveBack_givenBack hi hlive
          have hgone : GivenBack m
              { m.giveBack i r with reservations := (m.giveBack i r).reservations.erase i } i r.bytes :=
            ⟨hback.entry, hback.held, hback.resident, hback.request⟩
          exact .inr ⟨r.bytes, hgone.reap _⟩

theorem Memory.charge_returned (m : Memory) (b : ℕ) (component : RequestMemoryComponent)
    (current next : ℕ) (exhaustOnFailure : Bool) :
    (m.charge b component current next exhaustOnFailure).2.returned = m.returned := by
  unfold charge
  split <;> rfl

theorem Memory.resize_returned (m : Memory) (i bytes : ℕ) : (m.resize i bytes).2.returned = m.returned := by
  unfold resize
  split
  · rfl
  · rename_i r hi
    split
    · rfl
    · have hcharge := m.charge_returned r.budget r.component r.bytes bytes true
      split
      · rename_i e m' heq
        rw [heq] at hcharge
        exact hcharge
      · rename_i m' heq
        rw [heq] at hcharge
        exact hcharge

theorem Sound.reserve_givenBack (h : Sound m) (hb : m.budgets.get? b = some budget)
    (component : RequestMemoryComponent) (bytes : ℕ) :
    (m.reserve b component bytes).2.returned = m.returned ∨ ∃ i, GivenBack m (m.reserve b component bytes).2 i 0 := by
  have hnew := h.allot_empty hb component
  have hget : (m.allot b component 0).reservations.get? m.nextReservation = some ⟨b, component, 0, false, 1⟩ :=
    (get?_insert _ _ _ _).trans (if_pos rfl)
  obtain ⟨budget₁, child, parent, hb₁, hcases⟩ := hnew.resize_cases hget rfl bytes
  unfold Memory.reserve
  rcases hcases with ⟨hok, -⟩ | ⟨⟨e, herr⟩, href⟩
  · rw [hok]
    exact .inl rfl
  · have hsound := hnew.resize m.nextReservation bytes
    rw [herr] at hsound ⊢
    have hfresh := h.linked.fresh
    rcases hsound.drop_givenBack m.nextReservation with hsame | ⟨bytes', hback⟩
    · exact .inl hsame
    · have hzero : bytes' = 0 := by
        rw [hback.held]
        unfold held
        rw [show (reservations _).get? m.nextReservation = _ from hget]
        rfl
      subst hzero
      refine .inr ⟨m.nextReservation, hback.entry, ?_, ?_, fun {r budget'} hi hb' => ?_⟩
      · unfold held
        rw [hfresh.1, hfresh.2]
        rfl
      · have hresident := hback.resident
        dsimp only at hresident ⊢
        rw [hresident, href.resident]
        rfl
      · rw [hfresh.1] at hi
        cases hi

theorem Memory.reserveObservationScratch_returned (m : Memory) (b bytes : ℕ) :
    (m.reserveObservationScratch b bytes).2.returned = m.returned := by
  have hcharge := m.charge_returned b .streamRetainedState 0 bytes false
  unfold reserveObservationScratch
  split
  · rename_i e m' heq
    rw [heq] at hcharge
    exact hcharge
  · rename_i m' heq
    rw [heq] at hcharge
    exact hcharge

theorem Sound.retainBytes_givenBack (h : Sound m) (hb : m.budgets.get? b = some budget)
    (component : RequestMemoryComponent) (length : ℕ) :
    (m.retainBytes b component length).2.returned = m.returned ∨
      ∃ i, GivenBack m (m.retainBytes b component length).2 i 0 := by
  have hreserve := h.reserve_givenBack hb component length
  unfold Memory.retainBytes
  split
  · exact .inl rfl
  · split
    · rename_i e m' heq
      rw [heq] at hreserve
      exact hreserve
    · rename_i i m' heq
      rw [heq] at hreserve
      exact hreserve

theorem Sound.release_givenBack (h : Sound m) (i : ℕ) :
    (m.release i).returned = m.returned ∨ ∃ bytes, GivenBack m (m.release i) i bytes := by
  unfold Memory.release
  split
  · exact .inl rfl
  · rename_i r hi
    split
    · exact .inl rfl
    · rename_i hlive
      exact .inr ⟨r.bytes, h.giveBack_givenBack hi (by simpa using hlive)⟩

theorem Memory.setHandles_returned (m : Memory) (b : ℕ) (handles : ℕ → ℕ) :
    (m.setHandles b handles).returned = m.returned := by
  unfold setHandles
  split <;> rfl

theorem Memory.reserveResident_returned (m : Memory) (bytes : ℕ) :
    (m.reserveResident bytes).2.returned = m.returned := by
  unfold reserveResident
  split <;> rfl

theorem Sound.dropResident_givenBack (h : Sound m) (i : ℕ) :
    (m.dropResident i).returned = m.returned ∨ ∃ bytes, GivenBack m (m.dropResident i) i bytes := by
  unfold Memory.dropResident
  split
  · exact .inl rfl
  · rename_i r hi
    split
    · exact .inl rfl
    · have hnone : m.reservations.get? i = none := by
        cases hres : m.reservations.get? i with
        | none => rfl
        | some r' =>
          rw [h.linked.disjoint hres] at hi
          cases hi
      refine .inr ⟨r.bytes, rfl, ?_, (h.resident_recharged hi).used, fun {r' budget'} hi' _ => ?_⟩
      · unfold held
        rw [hnone, hi]
        rfl
      · rw [hnone] at hi'
        cases hi'

/-- A step leaves the history alone, or one reservation gives its whole charge back to both levels. -/
theorem Sound.step_givenBack (h : Sound m) (op : Op) :
    (RequestMemory.step m op).returned = m.returned ∨ ∃ i bytes, GivenBack m (RequestMemory.step m op) i bytes := by
  cases op with
  | configureLimit limitBytes => exact .inl rfl
  | withParent limitBytes => exact .inl rfl
  | cloneBudget b =>
    rw [RequestMemory.step]
    split
    · exact .inl (m.setHandles_returned b _)
    · exact .inl rfl
  | budget i =>
    rw [RequestMemory.step]
    split
    · exact .inl rfl
    · exact .inl (m.setHandles_returned _ _)
  | dropBudget b =>
    rw [RequestMemory.step]
    split
    · exact .inl ((reap_returned _ _).trans (m.setHandles_returned b _))
    · exact .inl rfl
  | reject b component requestedBytes =>
    rw [RequestMemory.step]
    split
    · unfold Memory.reject
      split <;> exact .inl rfl
    · exact .inl rfl
  | reserve b component bytes =>
    rw [RequestMemory.step]
    split
    · rename_i hb
      obtain ⟨budget, hb⟩ := hb.get_budget
      exact (h.reserve_givenBack hb component _).imp id (Exists.imp fun i hi => ⟨0, hi⟩)
    · exact .inl rfl
  | reserveObservationScratch b bytes =>
    rw [RequestMemory.step]
    split
    · exact .inl (m.reserveObservationScratch_returned b _)
    · exact .inl rfl
  | retainBytes b component length =>
    rw [RequestMemory.step]
    split
    · rename_i hb
      obtain ⟨budget, hb⟩ := hb.get_budget
      exact (h.retainBytes_givenBack hb component _).imp id (Exists.imp fun i hi => ⟨0, hi⟩)
    · exact .inl rfl
  | resize i bytes => exact .inl (m.resize_returned i _)
  | release i => exact (h.release_givenBack i).imp id fun hi => ⟨i, hi⟩
  | clone i =>
    rw [RequestMemory.step]
    unfold Memory.clone
    split <;> exact .inl rfl
  | drop i => exact (h.drop_givenBack i).imp id fun hi => ⟨i, hi⟩
  | transferBytes i length =>
    rw [RequestMemory.step, Memory.transferBytes]
    split
    · exact (h.drop_givenBack i).imp id fun hi => ⟨i, hi⟩
    · exact .inl rfl
  | reserveResident bytes => exact .inl (m.reserveResident_returned _)
  | cloneResident i =>
    rw [RequestMemory.step]
    unfold Memory.cloneResident
    split <;> exact .inl rfl
  | dropResident i => exact (h.dropResident_givenBack i).imp id fun hi => ⟨i, hi⟩

/-! ## Refused resizes -/

/-- The two levels agree on every counter of charges, and the reservations are the same. -/
structure SameCharges (m m' : Memory) : Prop where
  request : ∀ b,
    (m'.budgets.get? b).map (fun x => { x.state with exhausted := false }) =
      (m.budgets.get? b).map fun x => { x.state with exhausted := false }
  resident : { m'.parent with rejections := 0 } = { m.parent with rejections := 0 }
  reservations : m'.reservations = m.reservations
  residents : m'.residents = m.residents

/-- A refused resize moves no counter. -/
theorem Sound.resize_refused {m' : Memory} (h : Sound m) {bytes : ℕ} {e : RequestMemoryError}
    (herr : m.resize i bytes = (.error e, m')) : SameCharges m m' := by
  cases hi : m.reservations.get? i with
  | none =>
    unfold Memory.resize at herr
    rw [hi] at herr
    cases herr
  | some r =>
    by_cases hrel : r.released = true
    · unfold Memory.resize at herr
      rw [hi] at herr
      dsimp only at herr
      rw [if_pos hrel] at herr
      cases herr
    · obtain ⟨budget, child, parent, hb, hcases⟩ := h.resize_cases hi (by simpa using hrel) bytes
      rcases hcases with ⟨hok, -⟩ | ⟨⟨e', herr'⟩, href⟩
      · rw [hok] at herr
        cases herr
      · rw [herr'] at herr
        cases herr
        refine ⟨fun b => ?_, ?_, rfl, rfl⟩
        · dsimp only
          rw [get?_insert]
          split
          · rename_i heq
            subst heq
            rw [hb, href.request]
            rfl
          · rfl
        · dsimp only
          rw [href.resident]

/-! ## All runs -/

/-- The counters of both levels are exact. -/
structure ExactLevels (m : Memory) : Prop where
  request_used : ∀ b budget, m.budgets.get? b = some budget → budget.state.usedBytes = m.charged b
  request_limit : ∀ b budget, m.budgets.get? b = some budget → budget.state.usedBytes ≤ budget.state.limitBytes
  request_active : ∀ b budget, m.budgets.get? b = some budget → budget.state.activeReservations = m.occupants b
  resident_used : m.parent.usedBytes = m.requestUsed + m.residentUsed
  resident_active : m.parent.activeReservations = m.allOccupants + m.residentActive

theorem Sound.requestActive_eq (h : Sound m) : m.requestActive = m.allOccupants := by
  have hmem : ∀ r ∈ m.reservations.values, r.budget ∈ m.budgets.entries.map Prod.fst := by
    intro r hr
    obtain ⟨i, hi⟩ := mem_values_iff.mp hr
    obtain ⟨budget, hb⟩ := h.linked.get_budget hi
    exact mem_map_of_mem (mem_entries_iff.mpr hb)
  have hfibers := sum_fibers budget (fun r => occupied r.charge) m.budgets.nodup_keys hmem
  have hcount : ∀ e ∈ m.budgets.entries, e.2.state.activeReservations =
      (m.reservations.values.map fun r => if r.budget = e.1 then occupied r.charge else 0).sum := by
    intro e he
    rw [(h.accounted.budget (mem_entries_iff.mp he)).active]
    unfold occupants chargeIn
    refine congrArg sum (map_congr_left fun r _ => ?_)
    split <;> rfl
  unfold requestActive allOccupants
  rw [← hfibers, map_map]
  show ((m.budgets.entries.map Prod.snd).map _).sum = _
  rw [map_map]
  exact congrArg sum (map_congr_left hcount)

theorem Sound.exactLevels (h : Sound m) : ExactLevels m where
  request_used b budget hb := (h.accounted.budget hb).used
  request_limit b budget hb := (h.accounted.budget hb).limit
  request_active b budget hb := (h.accounted.budget hb).active
  resident_used := h.accounted.used
  resident_active := by rw [h.accounted.active, h.requestActive_eq]

/-- In every state of every run the counters of both levels are exact. A refused resize changes no charge
on either level. A reservation that is outstanding was never given back, every other one exactly once,
and then with its whole charge. When all owners are gone the counters are zero. -/
theorem memory_accounting_exact (limitBytes : Option UInt64) (ops : List Op) :
    let m := run step (new limitBytes) ops
    ExactLevels m ∧
      (∀ i bytes e m', m.resize i bytes = (.error e, m') → SameCharges m m') ∧
      (∀ i < m.nextReservation, m.returns i = if m.outstanding i then 0 else 1) ∧
      (∀ op, (step m op).returned = m.returned ∨ ∃ i bytes, GivenBack m (step m op) i bytes) ∧
      (m.reservations.entries = [] → m.residents.entries = [] →
        m.parent.usedBytes = 0 ∧ m.parent.activeReservations = 0 ∧ ∀ b budget, m.budgets.get? b = some budget →
            budget.state.usedBytes = 0 ∧ budget.state.activeReservations = 0) := by
  intro m
  have h : Sound m := sound_run limitBytes ops
  have hlevels := h.exactLevels
  refine ⟨hlevels, fun i bytes e m' herr => h.resize_refused herr, fun i hlt => ?_,
    h.step_givenBack, fun hres hdirect => ?_⟩
  · rw [h.linked.returned i]
    cases m.outstanding i <;> simp [hlt]
  · have hbudgets : ∀ b budget, m.budgets.get? b = some budget →
        budget.state.usedBytes = 0 ∧ budget.state.activeReservations = 0 := by
      intro b budget hb
      rw [hlevels.request_used b budget hb, hlevels.request_active b budget hb]
      unfold charged occupants values
      rw [hres]
      exact ⟨rfl, rfl⟩
    have hused : m.requestUsed = 0 := by
      unfold requestUsed
      rw [map_congr_left (g := fun _ => 0) fun budget hmem => ?_]
      · simp
      · obtain ⟨b, hb⟩ := mem_values_iff.mp hmem
        exact (hbudgets b budget hb).1
    have hresident : m.residentUsed = 0 ∧ m.residentActive = 0 := by
      unfold residentUsed residentActive values
      rw [hdirect]
      exact ⟨rfl, rfl⟩
    have hactive : m.allOccupants = 0 := by
      unfold allOccupants values
      rw [hres]
      rfl
    refine ⟨?_, ?_, hbudgets⟩
    · rw [hlevels.resident_used, hused, hresident.1]
    · rw [hlevels.resident_active, hactive, hresident.2]

end CcSwitchServer.RequestMemory
