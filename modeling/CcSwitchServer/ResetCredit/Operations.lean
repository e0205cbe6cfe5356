import CcSwitchServer.QuotaCycle.Reload

/-! # Spending reset credits

A credit is spent in two serialised transactions around one upstream request.
-/

namespace CcSwitchServer.ResetCredit
open Foundations QuotaCycle

/-- What upstream answered. -/
structure ConsumeResetCreditResult where
  code : Option String
  creditId : String
  redeemRequestId : String
  windowsReset : Option ℤ
  availableCount : Option ℤ
  remainingCredits : List String
  sharedWeeklyConfirmed : Bool
deriving DecidableEq, Repr

/-- What the operations take from outside: identifiers that are new at every call, the digest of a
credit, and the text form of an answer. -/
structure Environment where
  ids : OpaqueIds
  requestId : ℕ → String
  requestId_injective : Function.Injective requestId
  requestId_nonempty : ∀ n, requestId n ≠ ""
  digest : String → String
  encode : ConsumeResetCreditResult → String
  decode : String → Option ConsumeResetCreditResult

structure PreparedResetCredit where
  operationId : String
  requestId : String
  receipt : Option ConsumeResetCreditResult
  dispatch : Bool
deriving DecidableEq, Repr

/-- A request that was let through. -/
structure Dispatch where
  sourceRef : String
  creditId : String
deriving DecidableEq, Repr

/-- `dispatched` records the requests that were let through; the code keeps no such list and nothing reads it.
The restore fence is a file outside the backup. -/
structure State where
  world : World
  requests : ℕ
  restoreFence : Option String
  backups : List QuotaCycleLedger
  dispatched : List Dispatch

namespace State

def initial (env : Environment) : State where
  world := World.default env.ids
  requests := 0
  restoreFence := none
  backups := []
  dispatched := []

end State

/-- The clock of the server: never negative, and capped at the largest `i64`. -/
def nowMsI64 (now : ℕ) : ℤ := min (now : ℤ) i64Max

def validOperationId (operationId : String) : Bool :=
  operationId ≠ "" && operationId.utf8ByteSize ≤ 128 && operationId.toList.all isFeedChar

def sourceIdentity (account : String) : String := "codex_oauth:" ++ account ++ ":shared_weekly"

variable (env : Environment)

def creditFingerprint (identity creditId : String) : String := env.digest (identity ++ "\x00" ++ Text.trim creditId)

def ResetCreditStatus.Unresolved (s : ResetCreditStatus) : Prop := s = .intentDurable ∨ s = .dispatched ∨ s = .unknown

instance (s : ResetCreditStatus) : Decidable (ResetCreditStatus.Unresolved s) := by
  unfold ResetCreditStatus.Unresolved
  infer_instance

/-! ## The first transaction -/

/-- The operation that already stands for this call: the one under its own identifier, else one for
the same credit. Without a credit identifier a rejected operation does not count. -/
def previousOperation (l : QuotaCycleLedger) (operationId sourceRef fingerprint creditId : String) :
    Option ResetCreditOperation :=
  (l.operations.get? operationId).or (l.operations.values.find? fun o =>
    o.sourceRef = sourceRef ∧ o.creditFingerprint = fingerprint ∧ (Text.trim creditId ≠ "" ∨ o.status ≠ .rejected))

/-- The intent in the ledger, unless the operation is there. -/
def beginRedeem (l : QuotaCycleLedger) (o : ResetCreditOperation) : Except QuotaError QuotaCycleLedger := do
  let source ← context (l.source o.sourceRef) .quotaSourceMissing
  ensure (source.fence = o.fence) .quotaSourceFenceChanged
  match l.operations.get? o.operationId with
  | some previous =>
    ensure (previous.sourceRef = o.sourceRef ∧ previous.requestId = o.requestId) .resetOperationConflict
    pure l
  | none =>
    pure { l with
      revision := saturatingSucc l.revision
      operations := l.operations.insert o.operationId o }

/-- The intent is durable; the request may be sent. -/
def dispatchCredit (st : State) (w : World) (sourceRef : String)
    (fence : QuotaSourceFence) (creditId operationId fingerprint : String) (now : ℕ) :
    Except QuotaError (PreparedResetCredit × State) := do
  let intent : ResetCreditOperation :=
    { operationId := operationId, requestId := env.requestId st.requests, sourceRef := sourceRef,
      fence := fence, status := .intentDurable, createdAtMs := nowMsI64 now, confirmedAtMs := none,
      result := none, creditFingerprint := fingerprint }
  let l ← beginRedeem w.ledger intent
  pure (⟨operationId, env.requestId st.requests, none, true⟩, { st with
      world := w.setLedger { l with
        operations := l.operations.insert operationId { intent with status := .dispatched } }
      requests := st.requests + 1
      dispatched := st.dispatched ++ [⟨sourceRef, Text.trim creditId⟩] })

/-- The intent becomes durable before the request may be sent. -/
def prepareTransaction (st : State) (account : String) (fence : QuotaSourceFence)
    (creditId operationId : String) (now : ℕ) : Except QuotaError (PreparedResetCredit × State) := do
  let identity := sourceIdentity account
  let fingerprint := creditFingerprint env identity creditId
  ensure (st.world.ledger.redeemRecoveryRequired = false) .resetCreditNeedsReconcile
  let (registered, w) := st.world.registerSource env.ids identity "codex_oauth" "shared_weekly" fence
  let sourceRef ← registered
  ensure (∀ previous ∈ w.ledger.operations.get? operationId, previous.sourceRef = sourceRef ∧ previous.fence = fence ∧
      previous.creditFingerprint = fingerprint) .resetOperationConflict
  match previousOperation w.ledger operationId sourceRef fingerprint creditId with
  | some previous =>
    pure (⟨previous.operationId, previous.requestId, previous.result.bind env.decode, false⟩, { st with world := w })
  | none =>
    ensure (∀ o ∈ w.ledger.operations.values,
      ¬(o.sourceRef = sourceRef ∧ ResetCreditStatus.Unresolved o.status)) .resetCreditNeedsReconcile
    dispatchCredit env st w sourceRef fence creditId operationId fingerprint now

/-- The checks before the transaction: the form of the identifier, and a restore that has not reached
the store yet. -/
def prepare (st : State) (account : String) (fence : QuotaSourceFence)
    (creditId operationId : String) (now : ℕ) : Except QuotaError (PreparedResetCredit × State) := do
  ensure (validOperationId operationId = true) .resetOperationConflict
  ensure (∀ stream ∈ st.restoreFence, stream = st.world.ledger.streamIncarnation) .resetCreditNeedsReconcile
  prepareTransaction env st account fence creditId operationId now

/-! ## The second transaction -/

def rejectionCodes : List String :=
  ["alreadyRedeemed", "nothingToReset", "noCredit", "already_redeemed", "nothing_to_reset", "no_credit"]

def isConfirmed (result : Option ConsumeResetCreditResult) : Bool :=
  result.any ConsumeResetCreditResult.sharedWeeklyConfirmed

/-- An answer that does not confirm leaves the operation unknown, unless it rejects. -/
def finalStatus (result : Option ConsumeResetCreditResult) : ResetCreditStatus :=
  if isConfirmed result then .confirmed
  else if (result.bind ConsumeResetCreditResult.code).any fun code => code ∈ rejectionCodes then
    .rejected
  else .unknown

/-- The reset that a confirmed answer stands for. -/
def confirmReset (w : World) (o : ResetCreditOperation)
    (result : Option ConsumeResetCreditResult) (nowMs : ℤ) : Except QuotaError World :=
  if isConfirmed result then
    match w.applyReset env.ids o.sourceRef o.fence (QuotaCycleLedger.redeemEventId o.requestId) nowMs
      nowMs .redeemConfirmation with
    | (.error e, _) => .error e
    | (.ok _, w) => .ok w
  else .ok w

def settleOperation (w : World) (operationId : String) (o : ResetCreditOperation)
    (result : Option ConsumeResetCreditResult) (nowMs : ℤ) : World :=
  let o := { o with
    status := finalStatus result
    confirmedAtMs := if isConfirmed result then some nowMs else none
    result := result.map env.encode }
  w.setLedger { w.ledger with
    operations := w.ledger.operations.insert operationId o
    revision := saturatingSucc w.ledger.revision }

/-- `projected` says whether the cycle could be written to the shares of the source. -/
def finish (st : State) (operationId : String)
    (result : Option ConsumeResetCreditResult) (now : ℕ) (projected : Bool) :
    Except QuotaError State := do
  let o ← context (st.world.ledger.operations.get? operationId) .resetOperationMissing
  if o.status = .confirmed ∨ o.status = .rejected then pure st
  else
    let w ← confirmReset env st.world o result (nowMsI64 now)
    ensure (projected = true) .quotaSourceMissing
    pure { st with world := settleOperation env w operationId o result (nowMsI64 now) }

/-! ## Restores -/

/-- The ledger under the restore fence. -/
def applyRestoreQuotaFence (stream : String) (l : QuotaCycleLedger) : QuotaCycleLedger :=
  if l.streamIncarnation = stream then l
  else
    { l with
      streamIncarnation := stream
      redeemRecoveryRequired := true
      operations := l.operations.mapValues fun o =>
        if o.status = .intentDurable ∨ o.status = .dispatched then { o with status := .unknown } else o
      sources := l.sources.mapValues fun s =>
        { s with cycle := s.cycle.map fun c => { c with streamIncarnation := stream } }
      revision := saturatingSucc l.revision }

/-! ## Steps -/

/-- The calls, a crash, a backup and its restore. -/
inductive CreditOp
  | prepare (account : String) (fence : QuotaSourceFence) (creditId operationId : String) (now : ℕ)
  | finish (operationId : String) (result : Option ConsumeResetCreditResult) (now : ℕ)
      (projected : Bool)
  | observe (op : Op)
  | backup
  | writeRestoreFence
  | reload (backup : ℕ)

def commitOp (ids : OpaqueIds) (stack : ℕ) (w : World) (op : Op) : Option World :=
  match op with
  | .registerSource identity providerType bucketId fence =>
    some (keepOk (w.registerSource ids identity providerType bucketId fence))
  | .observe sourceRef fence o => (w.observe ids stack sourceRef fence o).map keepOk
  | .applyReset sourceRef fence eventId effectiveAtMs discoveredAtMs basis =>
    some (keepOk (w.applyReset ids sourceRef fence eventId effectiveAtMs discoveredAtMs basis))
  | .advanceDue nowMs => some (keepOk (w.advanceDue ids nowMs))
  | .advanceSourceDue sourceRef nowMs => some (keepOk (w.advanceSourceDue ids sourceRef nowMs))
where
  keepOk {α : Type} (r : Outcome α) : World :=
    match r with
    | (.ok _, w') => w'
    | (.error _, _) => w

/-- One serialised step; a failed transaction leaves the state as it was. -/
def creditStep (stack : ℕ) (st : State) : CreditOp → Option State
  | .prepare account fence creditId operationId now =>
    match prepare env st account fence creditId operationId now with
    | .ok (_, st') => some st'
    | .error _ => some st
  | .finish operationId result now projected =>
    match finish env st operationId result now projected with
    | .ok st' => some st'
    | .error _ => some st
  | .observe op => (commitOp env.ids stack st.world op).map fun w => { st with world := w }
  | .backup => some { st with backups := st.backups ++ [st.world.ledger] }
  | .writeRestoreFence =>
    some { st with
      restoreFence := some (env.ids.id st.world.drawn)
      world := { st.world with drawn := st.world.drawn + 1 } }
  | .reload i =>
    match st.restoreFence, st.backups[i]? with
    | some stream, some l =>
      some { st with world := st.world.setLedger (applyRestoreQuotaFence stream l) }
    | some stream, none =>
      some { st with world := st.world.setLedger (applyRestoreQuotaFence stream st.world.ledger) }
    | none, _ => some st

end CcSwitchServer.ResetCredit
