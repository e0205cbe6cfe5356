import CcSwitchServer.Foundations.Checked
import CcSwitchServer.Foundations.Json
import CcSwitchServer.Foundations.Table
import CcSwitchServer.Foundations.Text

/-! # The outbox of the router control store (`src/clients/router/control_store.rs`)

Every call is one transaction. Whether the profile exists, and whether a payload can be read, is taken as given.
-/

namespace CcSwitchServer.RouterControl
open Foundations

inductive RouterControlStoreError
  | invalidRouterProfile (text : String)
  | invalidOutbox (text : String)
  | routerNotFound (routerId : String)
  | outboxNotFound (messageId : String)
  | outboxLeaseMismatch (messageId : String)
  | decodePayload
  | sqlite
deriving DecidableEq, Repr

/-! ## Checks of arguments -/

def validateOpaqueId (label value : String) (maxLen : ℕ) : Except RouterControlStoreError String :=
  if Text.trim value ≠ value ∨ value = "" ∨ maxLen < value.utf8ByteSize ∨ value.toList.any Text.isControl then
    .error (.invalidRouterProfile (label ++ " is invalid"))
  else .ok value

def validateRouterId (value : String) : Except RouterControlStoreError String := do
  let value ← validateOpaqueId "Router id" value 128
  if value.toList.all fun c => Text.isAsciiAlphanumeric c || c ∈ ['-', '_', '.', ':'] then return value
  else throw (.invalidRouterProfile "Router id contains unsupported characters")

def validateOperation (value : String) : Except RouterControlStoreError String := do
  let value ← validateOpaqueId "operation" value 128
  if value.toList.all fun c => ('a' ≤ c && c ≤ 'z') || Text.isAsciiDigit c || c = '_' then return value
  else throw (.invalidOutbox "operation must use lowercase letters, digits, and underscores")

def validateErrorMessage (value : String) : Except RouterControlStoreError String :=
  if Text.trim value = "" then .error (.invalidOutbox "outbox error must not be empty")
  else .ok (String.ofList (value.toList.take 2048))

def validateTimestamp (value : ℤ) : Except RouterControlStoreError Unit :=
  if value < 0 then .error (.invalidRouterProfile "timestamp must be non-negative") else .ok ()

/-! ## Messages -/

/-- The status with the two columns that are set exactly for messages in flight. -/
inductive OutboxStatus
  | pending
  | inFlight (leaseOwner : String) (leaseUntilMs : ℤ)
  | deadLetter
deriving DecidableEq, Repr

def OutboxStatus.leaseOwner? : OutboxStatus → Option String
  | .inFlight leaseOwner _ => some leaseOwner
  | _ => none

/-- A message waits, is claimed for some time, or is buried. -/
structure OutboxMessage where
  messageId : String
  routerId : String
  operation : String
  payload : Json
  dedupeKey : Option String
  status : OutboxStatus
  attemptCount : ℕ
  nextAttemptAtMs : ℤ
  lastError : Option String
  createdAtMs : ℤ
  updatedAtMs : ℤ
  /-- The checks of the table. -/
  createdAt_nonneg : 0 ≤ createdAtMs
  nextAttemptAt_nonneg : 0 ≤ nextAttemptAtMs
  ordered : createdAtMs ≤ updatedAtMs

structure NewOutboxMessage where
  routerId : String
  operation : String
  payload : Json
  dedupeKey : Option String
  availableAtMs : ℤ

structure EnqueueResult where
  messageId : String
  inserted : Bool
deriving DecidableEq, Repr

abbrev Outbox := Table OutboxMessage String OutboxMessage.messageId

/-! ## Enqueueing -/

def findDedupe (outbox : Outbox) (routerId dedupeKey : String) : Option OutboxMessage :=
  outbox.rows.find? fun row => row.routerId = routerId && row.dedupeKey = some dedupeKey

def newRow (messageId routerId operation : String) (dedupeKey : Option String) (payload : Json)
    {availableAtMs nowMs : ℤ} (havailable : 0 ≤ availableAtMs) (hnow : 0 ≤ nowMs) : OutboxMessage where
  messageId := messageId
  routerId := routerId
  operation := operation
  payload := payload
  dedupeKey := dedupeKey
  status := .pending
  attemptCount := 0
  nextAttemptAtMs := availableAtMs
  lastError := none
  createdAtMs := nowMs
  updatedAtMs := nowMs
  createdAt_nonneg := hnow
  nextAttemptAt_nonneg := havailable
  ordered := le_refl _

def validateDedupeKey (dedupeKey : Option String) : Except RouterControlStoreError (Option String) :=
  match dedupeKey with
  | none => .ok none
  | some value => (validateOpaqueId "outbox dedupe key" value 255).map some

/-- `randomId` is the id that is drawn for a new message. -/
def enqueueOutbox (profileExists : Bool) (randomId : String) (message : NewOutboxMessage) (nowMs : ℤ)
    (outbox : Outbox) : Except RouterControlStoreError (Outbox × EnqueueResult) := do
  let routerId ← validateRouterId message.routerId
  let operation ← validateOperation message.operation
  let dedupeKey ← validateDedupeKey message.dedupeKey
  if havailable : 0 ≤ message.availableAtMs then
    if hnow : 0 ≤ nowMs then
      ensure (profileExists = true) (.routerNotFound routerId)
      match dedupeKey.bind (findDedupe outbox routerId) with
      | some row => .ok (outbox, ⟨row.messageId, false⟩)
      | none =>
        match outbox.tryInsert (newRow randomId routerId operation dedupeKey message.payload havailable hnow) with
        | none => .error .sqlite
        | some outbox => .ok (outbox, ⟨randomId, true⟩)
    else .error (.invalidRouterProfile "timestamp must be non-negative")
  else .error (.invalidRouterProfile "timestamp must be non-negative")

/-! ## Claiming -/

def maxOutboxClaim : ℕ := 1000

/-- Due, and not leased at that time. -/
def OutboxMessage.isDue (routerId : String) (nowMs : ℤ) (row : OutboxMessage) : Bool :=
  row.routerId = routerId && row.nextAttemptAtMs ≤ nowMs &&
    match row.status with
    | .pending => true
    | .inFlight _ leaseUntilMs => leaseUntilMs ≤ nowMs
    | .deadLetter => false

def claimBefore (a b : OutboxMessage) : Bool :=
  toLex (a.nextAttemptAtMs, toLex (a.createdAtMs, a.messageId)) ≤
    toLex (b.nextAttemptAtMs, toLex (b.createdAtMs, b.messageId))

/-- What waits, and what a worker has held for too long. -/
def dueIds (routerId : String) (nowMs : ℤ) (limit : ℕ) (outbox : Outbox) : List String :=
  (((outbox.rows.filter (·.isDue routerId nowMs)).insertionSort fun a b => claimBefore a b).take limit).map
    OutboxMessage.messageId

/-- The row that a claim writes, if the checks of the table let it. -/
def OutboxMessage.claimed (workerId : String) (leaseUntilMs nowMs : ℤ) (row : OutboxMessage) : OutboxMessage :=
  if h : row.createdAtMs ≤ nowMs then
    { row with
      status := .inFlight workerId leaseUntilMs
      attemptCount := row.attemptCount + 1
      updatedAtMs := nowMs
      ordered := h }
  else row

theorem OutboxMessage.claimed_messageId (workerId : String) (leaseUntilMs nowMs : ℤ) (row : OutboxMessage) :
    (row.claimed workerId leaseUntilMs nowMs).messageId = row.messageId := by
  unfold OutboxMessage.claimed
  split <;> rfl

def claimRow (workerId : String) (leaseUntilMs nowMs : ℤ) (outbox : Outbox) (messageId : String) :
    Except RouterControlStoreError Outbox :=
  match outbox.find? messageId with
  | none => .ok outbox
  | some row =>
    if row.createdAtMs ≤ nowMs ∧ row.attemptCount < i64Max then
      .ok (outbox.modify messageId (·.claimed workerId leaseUntilMs nowMs)
        (OutboxMessage.claimed_messageId workerId leaseUntilMs nowMs))
    else .error .sqlite

/-- `readable` says whether a stored payload can be read back. -/
def loadOutboxMessage (readable : Json → Bool) (outbox : Outbox) (messageId : String) :
    Except RouterControlStoreError OutboxMessage :=
  match outbox.find? messageId with
  | none => .error (.outboxNotFound messageId)
  | some row => if readable row.payload then .ok row else .error .decodePayload

def claimDueOutbox (readable : Json → Bool) (profileExists : Bool) (routerId workerId : String)
    (nowMs leaseDurationMs : ℤ) (limit : ℕ) (outbox : Outbox) :
    Except RouterControlStoreError (Outbox × List OutboxMessage) := do
  let routerId ← validateRouterId routerId
  let workerId ← validateOpaqueId "outbox worker id" workerId 255
  validateTimestamp nowMs
  ensure (0 < leaseDurationMs) (.invalidOutbox "lease duration must be positive")
  if min limit maxOutboxClaim = 0 then .ok (outbox, [])
  else do
    ensure (nowMs + leaseDurationMs ≤ i64Max) (.invalidOutbox "lease deadline overflow")
    ensure (profileExists = true) (.routerNotFound routerId)
    let messageIds := dueIds routerId nowMs (min limit maxOutboxClaim) outbox
    let outbox ← messageIds.foldlM (claimRow workerId (nowMs + leaseDurationMs) nowMs) outbox
    let messages ← messageIds.mapM (loadOutboxMessage readable outbox)
    return (outbox, messages)

/-! ## Settling a claim -/

def classifyOutboxLeaseFailure (outbox : Outbox) (messageId : String) : RouterControlStoreError :=
  if (outbox.find? messageId).isSome then .outboxLeaseMismatch messageId else .outboxNotFound messageId

/-- The message, if this worker still holds it. -/
def leased (outbox : Outbox) (messageId workerId : String) : Option OutboxMessage :=
  (outbox.find? messageId).filter fun row => row.status.leaseOwner? = some workerId

variable (messageId workerId : String)

def acknowledgeOutbox (outbox : Outbox) : Except RouterControlStoreError Outbox := do
  let messageId ← validateOpaqueId "outbox message id" messageId 255
  let workerId ← validateOpaqueId "outbox worker id" workerId 255
  match leased outbox messageId workerId with
  | none => .error (classifyOutboxLeaseFailure outbox messageId)
  | some _ => .ok (outbox.erase messageId)

def OutboxMessage.rescheduled (nextAttemptAtMs : ℤ) (error : String) (nowMs : ℤ) (row : OutboxMessage) :
    OutboxMessage :=
  if h : 0 ≤ nextAttemptAtMs ∧ row.createdAtMs ≤ nowMs then
    { row with
      status := .pending
      nextAttemptAtMs := nextAttemptAtMs
      lastError := some error
      updatedAtMs := nowMs
      nextAttemptAt_nonneg := h.1
      ordered := h.2 }
  else row

theorem OutboxMessage.rescheduled_messageId (nextAttemptAtMs : ℤ) (error : String) (nowMs : ℤ)
    (row : OutboxMessage) : (row.rescheduled nextAttemptAtMs error nowMs).messageId = row.messageId := by
  unfold OutboxMessage.rescheduled
  split <;> rfl

def rescheduleOutbox (nextAttemptAtMs : ℤ) (error : String) (nowMs : ℤ)
    (outbox : Outbox) : Except RouterControlStoreError Outbox := do
  let messageId ← validateOpaqueId "outbox message id" messageId 255
  let workerId ← validateOpaqueId "outbox worker id" workerId 255
  let error ← validateErrorMessage error
  validateTimestamp nextAttemptAtMs
  validateTimestamp nowMs
  match leased outbox messageId workerId with
  | none => .error (classifyOutboxLeaseFailure outbox messageId)
  | some row =>
    if row.createdAtMs ≤ nowMs then
      .ok (outbox.modify messageId (·.rescheduled nextAttemptAtMs error nowMs)
        (OutboxMessage.rescheduled_messageId nextAttemptAtMs error nowMs))
    else .error .sqlite

def OutboxMessage.buried (error : String) (nowMs : ℤ) (row : OutboxMessage) : OutboxMessage :=
  if h : row.createdAtMs ≤ nowMs then
    { row with
      status := .deadLetter
      lastError := some error
      updatedAtMs := nowMs
      ordered := h }
  else row

theorem OutboxMessage.buried_messageId (error : String) (nowMs : ℤ) (row : OutboxMessage) :
    (row.buried error nowMs).messageId = row.messageId := by
  unfold OutboxMessage.buried
  split <;> rfl

def deadLetterOutbox (error : String) (nowMs : ℤ) (outbox : Outbox) : Except RouterControlStoreError Outbox := do
  let messageId ← validateOpaqueId "outbox message id" messageId 255
  let workerId ← validateOpaqueId "outbox worker id" workerId 255
  let error ← validateErrorMessage error
  validateTimestamp nowMs
  match leased outbox messageId workerId with
  | none => .error (classifyOutboxLeaseFailure outbox messageId)
  | some row =>
    if row.createdAtMs ≤ nowMs then
      .ok (outbox.modify messageId (·.buried error nowMs) (OutboxMessage.buried_messageId error nowMs))
    else .error .sqlite

end CcSwitchServer.RouterControl
