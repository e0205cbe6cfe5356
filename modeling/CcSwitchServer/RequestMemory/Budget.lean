import CcSwitchServer.Foundations.Checked
import CcSwitchServer.Foundations.OrderedMap

/-! # Request memory budgets under one resident budget

Every request has a budget of its own, and every budget charges the one of the process as well. An operation
holds the locks of the levels it changes, so it is one step.
-/

namespace CcSwitchServer.RequestMemory
open Foundations

inductive RequestMemoryComponent
  | inboundRaw
  | decodedBody
  | normalizedBody
  | transportPending
  | semanticPrelude
  | streamRetainedState
  | toolArguments
  | normalizedEvent
  | webSocketReadQueue
  | webSocketWriteQueue
  | reasoningReplay
  | groundingCitation
  deriving DecidableEq, Repr

structure RequestMemoryError where
  component : RequestMemoryComponent
  requestedBytes : ℕ
  usedBytes : ℕ
  limitBytes : ℕ
  deriving DecidableEq, Repr

/-! ## The resident budget -/

structure ResidentMemorySnapshot where
  limitBytes : Option ℕ
  usedBytes : ℕ := 0
  highWaterBytes : ℕ := 0
  activeReservations : ℕ := 0
  rejections : ℕ := 0
  deriving DecidableEq, Repr

namespace ResidentMemorySnapshot

/-- The total after `additional` bytes, when it is a `usize` within the limit. -/
def grown (state : ResidentMemorySnapshot) (additional : ℕ) : Option ℕ :=
  (checkedAddU64 state.usedBytes additional).filter fun total =>
    state.limitBytes.all fun limit => total ≤ limit

def tryResize (state : ResidentMemorySnapshot) (current next : ℕ) : Bool × ResidentMemorySnapshot :=
  if next > current then
    match state.grown (next - current) with
    | none => (false, { state with rejections := saturatingAdd state.rejections 1 })
    | some total =>
      (true, { state with
          usedBytes := total
          activeReservations :=
            if current = 0 then saturatingAdd state.activeReservations 1 else state.activeReservations
          highWaterBytes := max state.highWaterBytes total })
  else
    (true, { state with
        usedBytes := state.usedBytes - (current - next)
        activeReservations :=
          if 0 < current ∧ next = 0 then state.activeReservations - 1 else state.activeReservations })

end ResidentMemorySnapshot

/-! ## A request budget -/

/-- `usize` values are natural numbers below `2 ^ 64`. -/
structure RequestMemoryState where
  limitBytes : ℕ
  usedBytes : ℕ := 0
  highWaterBytes : ℕ := 0
  activeReservations : ℕ := 0
  exhausted : Bool := false
  deriving DecidableEq, Repr

/-- The result of a resize and the two levels after it. -/
structure Resized where
  result : Except RequestMemoryError Unit
  child : RequestMemoryState
  parent : ResidentMemorySnapshot

namespace RequestMemoryState

def refused (state : RequestMemoryState) (parent : ResidentMemorySnapshot)
    (component : RequestMemoryComponent) (additional : ℕ) (exhaustOnFailure : Bool) : Resized where
  result := .error
    { component
      requestedBytes := additional
      usedBytes := state.usedBytes
      limitBytes := state.limitBytes }
  child := { state with exhausted := state.exhausted || exhaustOnFailure }
  parent

/-- A charge that one level refuses moves neither. -/
def resizeInner (state : RequestMemoryState) (parent : ResidentMemorySnapshot)
    (component : RequestMemoryComponent) (current next : ℕ) (exhaustOnFailure : Bool) : Resized :=
  if next ≤ current then
    { result := .ok ()
      child :=
        { state with
          usedBytes := state.usedBytes - (current - next)
          activeReservations :=
            if 0 < current ∧ next = 0 then state.activeReservations - 1 else state.activeReservations }
      parent := (parent.tryResize current next).2 }
  else if state.exhausted ∨ next - current > state.limitBytes - state.usedBytes then
    state.refused parent component (next - current) exhaustOnFailure
  else
    match parent.tryResize current next with
    | (false, parent') => state.refused parent' component (next - current) exhaustOnFailure
    | (true, parent') =>
      let usedBytes := saturatingAdd state.usedBytes (next - current)
      { result := .ok ()
        child :=
          { state with
            activeReservations :=
              if current = 0 then saturatingAdd state.activeReservations 1
              else state.activeReservations
            usedBytes
            highWaterBytes := max state.highWaterBytes usedBytes }
        parent := parent' }

end RequestMemoryState

/-! ## Shared owners -/

/-- A request budget and the handles on it outside the reservations. -/
structure RequestMemoryBudget where
  state : RequestMemoryState
  handles : ℕ
  deriving DecidableEq, Repr

/-- `handles` counts the clones, the views of a body that it backs included. -/
structure RequestMemoryReservation where
  budget : ℕ
  component : RequestMemoryComponent
  bytes : ℕ
  released : Bool
  handles : ℕ
  deriving DecidableEq, Repr

/-- A reservation taken from the resident budget directly. -/
structure ResidentMemoryReservation where
  bytes : ℕ
  handles : ℕ
  deriving DecidableEq, Repr

/-- Live owners are in the maps. `returned` only records the history: an entry for every reservation that
is given back, with the bytes it gave back. -/
structure Memory where
  parent : ResidentMemorySnapshot
  budgets : OrderedMap ℕ RequestMemoryBudget
  reservations : OrderedMap ℕ RequestMemoryReservation
  residents : OrderedMap ℕ ResidentMemoryReservation
  nextBudget : ℕ
  nextReservation : ℕ
  returned : List (ℕ × ℕ)

namespace Memory

def new (limitBytes : Option UInt64) : Memory where
  parent := { limitBytes := limitBytes.map UInt64.toNat }
  budgets := .empty
  reservations := .empty
  residents := .empty
  nextBudget := 0
  nextReservation := 0
  returned := []

variable (m : Memory)

def configureLimit (limitBytes : Option UInt64) : Memory :=
  { m with parent := { m.parent with limitBytes := limitBytes.map UInt64.toNat } }

/-! ### Budgets -/

def withParent (limitBytes : UInt64) : Memory :=
  { m with
    budgets := m.budgets.insert m.nextBudget { state := { limitBytes := max limitBytes.toNat 1 }, handles := 1 }
    nextBudget := m.nextBudget + 1 }

variable (b : ℕ)

/-- A budget goes with its last owner; each of its reservations is one. -/
def reap : Memory :=
  match m.budgets.get? b with
  | none => m
  | some budget =>
    if budget.handles = 0 ∧ ∀ r ∈ m.reservations.values, r.budget ≠ b then
      { m with budgets := m.budgets.erase b }
    else m

def setHandles (handles : ℕ → ℕ) : Memory :=
  match m.budgets.get? b with
  | none => m
  | some budget =>
    { m with budgets := m.budgets.insert b { budget with handles := handles budget.handles } }

def cloneBudget : Memory := m.setHandles b (· + 1)

def dropBudget : Memory := (m.setHandles b (· - 1)).reap b

variable (component : RequestMemoryComponent)

def reject (requestedBytes : ℕ) : Option RequestMemoryError × Memory :=
  match m.budgets.get? b with
  | none => (none, m)
  | some budget =>
    (some
      { component
        requestedBytes := max requestedBytes 1
        usedBytes := budget.state.usedBytes
        limitBytes := budget.state.limitBytes },
      { m with
        budgets := m.budgets.insert b
          { budget with state := { budget.state with exhausted := true } } })

def charge (current next : ℕ)
    (exhaustOnFailure : Bool) : Except RequestMemoryError Unit × Memory :=
  match m.budgets.get? b with
  | none => (.ok (), m)
  | some budget =>
    let r := budget.state.resizeInner m.parent component current next exhaustOnFailure
    (r.result, { m with budgets := m.budgets.insert b { budget with state := r.child }, parent := r.parent })

/-! ### Reservations -/

variable (i : ℕ)

variable (r : RequestMemoryReservation)

def setReservation : Memory :=
  { m with reservations := m.reservations.insert i r }

def resize (bytes : ℕ) : Except RequestMemoryError Unit × Memory :=
  match m.reservations.get? i with
  | none => (.ok (), m)
  | some r =>
    if r.released then (.ok (), m)
    else
      match m.charge r.budget r.component r.bytes bytes true with
      | (.error e, m') => (.error e, m')
      | (.ok (), m') => (.ok (), m'.setReservation i { r with bytes })

/-- The charge of `r` goes back to both levels. -/
def giveBack : Memory :=
  let m' := (m.charge r.budget r.component r.bytes 0 true).2
  { m' with
    reservations := m'.reservations.insert i { r with bytes := 0, released := true }
    returned := (i, r.bytes) :: m'.returned }

/-- A reservation is given back by the first `release` or by the drop of its last clone. -/
def release : Memory :=
  match m.reservations.get? i with
  | none => m
  | some r => if r.released then m else m.giveBack i r

def clone : Memory :=
  match m.reservations.get? i with
  | none => m
  | some r => m.setReservation i { r with handles := r.handles + 1 }

/-- `Drop for RequestMemoryReservationInner`. -/
def dropInner : Memory :=
  if r.released then m
  else if r.bytes = 0 then { m with returned := (i, 0) :: m.returned }
  else m.giveBack i r

/-- The last clone takes the reservation with it, and the reservation its hold on the budget. -/
def drop : Memory :=
  match m.reservations.get? i with
  | none => m
  | some r =>
    if r.handles > 1 then m.setReservation i { r with handles := r.handles - 1 }
    else
      let m' := m.dropInner i r
      { m' with reservations := m'.reservations.erase i }.reap r.budget

/-- A new reservation with `bytes` charged already. -/
def allot (bytes : ℕ) : Memory :=
  { m with
    reservations := m.reservations.insert m.nextReservation
      { budget := b, component, bytes, released := false, handles := 1 }
    nextReservation := m.nextReservation + 1 }

def reserve (bytes : ℕ) : Except RequestMemoryError ℕ × Memory :=
  match (m.allot b component 0).resize m.nextReservation bytes with
  | (.error e, m') => (.error e, m'.drop m.nextReservation)
  | (.ok (), m') => (.ok m.nextReservation, m')

/-- A refusal does not exhaust the budget. -/
def reserveObservationScratch (bytes : ℕ) : Option ℕ × Memory :=
  match m.charge b .streamRetainedState 0 bytes false with
  | (.error _, m') => (none, m')
  | (.ok (), m') => (some m.nextReservation, m'.allot b .streamRetainedState bytes)

/-- The returned body holds the reservation, unless it is empty. -/
def retainBytes (length : ℕ) :
    Except RequestMemoryError (Option ℕ) × Memory :=
  if length = 0 then (.ok none, m)
  else
    match m.reserve b component length with
    | (.error e, m') => (.error e, m')
    | (.ok i, m') => (.ok (some i), m')

/-- `RequestMemoryReservation::retain_bytes`: the handle moves into the body, and an empty body drops it. -/
def transferBytes (length : ℕ) : Memory :=
  if length = 0 then m.drop i else m

/-! ### Direct reservations -/

def reserveResident (bytes : ℕ) : Option ℕ × Memory :=
  match m.parent.tryResize 0 bytes with
  | (false, parent) => (none, { m with parent })
  | (true, parent) =>
    (some m.nextReservation, { m with
        parent
        residents := m.residents.insert m.nextReservation { bytes, handles := 1 }
        nextReservation := m.nextReservation + 1 })

def cloneResident : Memory :=
  match m.residents.get? i with
  | none => m
  | some r => { m with residents := m.residents.insert i { r with handles := r.handles + 1 } }

def dropResident : Memory :=
  match m.residents.get? i with
  | none => m
  | some r =>
    if r.handles > 1 then { m with residents := m.residents.insert i { r with handles := r.handles - 1 } }
    else
      { m with
        parent := (m.parent.tryResize r.bytes 0).2
        residents := m.residents.erase i
        returned := (i, r.bytes) :: m.returned }

end Memory

/-! ## Operations -/

inductive Op
  | configureLimit (limitBytes : Option UInt64)
  | withParent (limitBytes : UInt64)
  | cloneBudget (b : ℕ)
  | budget (i : ℕ)
  | dropBudget (b : ℕ)
  | reject (b : ℕ) (component : RequestMemoryComponent) (requestedBytes : UInt64)
  | reserve (b : ℕ) (component : RequestMemoryComponent) (bytes : UInt64)
  | reserveObservationScratch (b : ℕ) (bytes : UInt64)
  | retainBytes (b : ℕ) (component : RequestMemoryComponent) (length : UInt64)
  | resize (i : ℕ) (bytes : UInt64)
  | release (i : ℕ)
  | clone (i : ℕ)
  | drop (i : ℕ)
  | transferBytes (i : ℕ) (length : UInt64)
  | reserveResident (bytes : UInt64)
  | cloneResident (i : ℕ)
  | dropResident (i : ℕ)
  deriving DecidableEq, Repr

def Memory.Owned (m : Memory) (b : ℕ) : Prop := ((m.budgets.get? b).any fun budget => budget.handles > 0) = true

instance (m : Memory) (b : ℕ) : Decidable (m.Owned b) :=
  inferInstanceAs (Decidable (_ = true))

/-- Methods are called through a live handle; there is no call without one. -/
def step (m : Memory) : Op → Memory
  | .configureLimit limitBytes => m.configureLimit limitBytes
  | .withParent limitBytes => m.withParent limitBytes
  | .cloneBudget b => if m.Owned b then m.cloneBudget b else m
  | .budget i =>
    match m.reservations.get? i with
    | none => m
    | some r => m.cloneBudget r.budget
  | .dropBudget b => if m.Owned b then m.dropBudget b else m
  | .reject b component requestedBytes =>
    if m.Owned b then (m.reject b component requestedBytes.toNat).2 else m
  | .reserve b component bytes => if m.Owned b then (m.reserve b component bytes.toNat).2 else m
  | .reserveObservationScratch b bytes =>
    if m.Owned b then (m.reserveObservationScratch b bytes.toNat).2 else m
  | .retainBytes b component length =>
    if m.Owned b then (m.retainBytes b component length.toNat).2 else m
  | .resize i bytes => (m.resize i bytes.toNat).2
  | .release i => m.release i
  | .clone i => m.clone i
  | .drop i => m.drop i
  | .transferBytes i length => m.transferBytes i length.toNat
  | .reserveResident bytes => (m.reserveResident bytes.toNat).2
  | .cloneResident i => m.cloneResident i
  | .dropResident i => m.dropResident i

end CcSwitchServer.RequestMemory
