import CcSwitchServer.Foundations.Checked
import CcSwitchServer.Foundations.OrderedMap
import CcSwitchServer.Foundations.Text

/-! # Tunnel supervisor (`clients/router/tunnel.rs`)

One tunnel key. A call holds the lock of the slot, so at most one is `pending`; actors run beside it, and every
read or write of the status is a step.
-/

namespace CcSwitchServer.Tunnel
open Foundations

/-! ## Generations in the Router's answers -/

section

/-- The second piece of a text that is split at every `pat`. -/
def secondPiece (pat cs : List Char) : Option (List Char) :=
  (Text.find pat cs).map fun i =>
    let rest := cs.drop (i + pat.length)
    match Text.find pat rest with
    | none => rest
    | some j => rest.take j

/-- The `u64` that a text starts with. -/
def leadingU64 (cs : List Char) : Option ℕ :=
  let digits := cs.takeWhile Text.isAsciiDigit
  let value := digits.foldl (fun n c => n * 10 + (c.toNat - '0'.toNat)) 0
  if digits = [] ∨ u64Max < value then none else some value

variable (message : String)

def parseRouteActiveGenerationFromLeaseError : Option ℕ := do
  let rest ← secondPiece "route generation changed: expected ".toList message.toList
  let active ← secondPiece ", active ".toList rest
  leadingU64 active

def containsText (message pat : String) : Bool := (Text.find pat.toList message.toList).isSome

def leaseIssueMessageRequiresNewRotation : Bool :=
  containsText message "rotationId belongs to an expired or retired lease" ||
    containsText message "rotationId is already bound to different lease semantics" ||
    containsText message "rotationId has already been used" ||
    containsText message "generation must be newer than persisted generation" ||
    containsText message "route already has a non-expired candidate rotation" ||
    containsText message "route generation changed: expected "

def nextRouterGenerationAfterLeaseError (current : ℕ) : ℕ :=
  match (secondPiece "generation must be newer than persisted generation ".toList message.toList).bind
      leadingU64 with
  | some maxGeneration => max (saturatingAdd maxGeneration 1) current
  | none => max (saturatingAdd current 1) 1

def syncRouterGenerationsAfterLeaseError (routerGeneration routerActiveGeneration : ℕ) : ℕ × ℕ :=
  match parseRouteActiveGenerationFromLeaseError message with
  | some active => (max (saturatingAdd active 1) routerGeneration, active)
  | none =>
    if leaseIssueMessageRequiresNewRotation message then
      (nextRouterGenerationAfterLeaseError message routerGeneration, routerActiveGeneration)
    else (routerGeneration, routerActiveGeneration)

end

/-! ## Data -/

inductive TransportState
  | candidate
  | active
  | draining
  | retired
deriving DecidableEq, Repr

/-- The status file is written with every write, so a restart keeps the status and nothing else. -/
structure TunnelRuntimeStatus where
  kind : String := ""
  status : String := ""
  lastError : Option String := none
  generation : ℕ := 0
  desiredGeneration : ℕ := 0
  routerGeneration : ℕ := 0
  routerActiveGeneration : ℕ := 0
  transportState : Option TransportState := none
  startReason : Option String := none
  specId : Option String := none
deriving DecidableEq, Repr

structure NamespaceLease where
  generation : ℕ
  expectedGeneration : ℕ
deriving DecidableEq, Repr

structure TunnelLeaseRequest where
  actor : ℕ
  generation : ℕ
  expectedGeneration : ℕ
deriving DecidableEq, Repr

/-- Handles are the numbers of actors; an actor that has finished is not in the map of actors. -/
structure TunnelTaskSlot where
  generation : ℕ
  desiredGeneration : ℕ
  specId : Option String := none
  handle : Option ℕ := none
  retiringHandles : List ℕ := []

/-- Where an actor is in its loop. -/
inductive Phase
  | top
  | leasing
  | requesting
  | leaseFailed (error : String)
  | leaseTimedOut
  | connecting (lease : NamespaceLease)
  | attached (lease : NamespaceLease)
  | activated (lease : NamespaceLease)
  | forwarding (lease : NamespaceLease)
  | renewing (lease : NamespaceLease)
  | renewal (lease : NamespaceLease)
  | renewed (lease : NamespaceLease)
  | renewalFailed (lease : NamespaceLease) (error : String)
  | ended (lease : NamespaceLease)
  | replaceRequired (lease : NamespaceLease) (error : String)
  | replacing (lease : NamespaceLease) (error : String)
  | fatalConfiguration (lease : NamespaceLease) (error : String)
  | failed (lease : NamespaceLease) (error : String)
  | pausing
deriving DecidableEq

/-- What a call was asked to start. -/
structure Job where
  kind : String
  reason : String
  specId : String

structure Actor extends Job where
  generation : ℕ
  routerGeneration : ℕ
  routerActiveGeneration : ℕ
  phase : Phase := .top

/-- What the environment answers; a lease carries the generation that was requested. -/
inductive Reply
  | proceed
  | lease (expectedGeneration : ℕ)
  | leaseError (message : String)
  | leaseTimeout
  | activated
  | renewalDue
  | renewed
  | renewalRetryable (error : String)
  | replaceRequired (error : String)
  | fatalConfiguration (error : String)
  | forwardEnded
  | failed (error : String)

inductive TunnelReplacementMode
  | graceful
  | namespaceRebind
deriving DecidableEq, Repr

/-- The fields that a transition writes over the status it has read. -/
structure Change where
  kind : String
  status : String
  generation : ℕ
  transportState : TransportState
  reason : String
  specId : String

inductive AfterTransition
  | dispose (job : Job) (handle : ℕ) (rebind : Bool)
  | stopHandles

/-- What the call that holds the slot has still to do. -/
inductive Pending
  | rebind (job : Job)
  | transition (change : Change) (next : AfterTransition)
  | transitionWrite (change : Change) (current : TunnelRuntimeStatus) (next : AfterTransition)
  | dispose (job : Job) (generation handle : ℕ) (rebind : Bool)
  | nextRouterGeneration (job : Job) (generation : ℕ)
  | startingRead (job : Job) (generation routerGeneration routerActiveGeneration : ℕ)
  | startingWrite (job : Job) (generation routerGeneration routerActiveGeneration : ℕ)
      (current : TunnelRuntimeStatus)
  | stopping (status : String) (generation : ℕ)
  | stopHandles (generation : ℕ)

/-- `history`, `started` and `requests` are what happened so far, the newest first. -/
structure Supervisor where
  slot : Option TunnelTaskSlot := none
  status : Option TunnelRuntimeStatus := none
  pending : Option Pending := none
  actors : OrderedMap ℕ Actor := .empty
  nextActor : ℕ := 0
  history : List TunnelRuntimeStatus := []
  started : List (ℕ × Actor) := []
  requests : List TunnelLeaseRequest := []

/-! ## The status -/

namespace Supervisor

variable (s : Supervisor)

def setStatus (status : TunnelRuntimeStatus) : Supervisor :=
  { s with status := some status, history := status :: s.history }

def stale (s : Supervisor) (generation : ℕ) : Bool := s.status.any fun status => status.desiredGeneration ≠ generation

/-- A write of an older generation is dropped. -/
def setStatusForGeneration (status : TunnelRuntimeStatus) : Bool × Supervisor :=
  if s.stale status.generation then (false, s) else (true, s.setStatus status)

def current : TunnelRuntimeStatus := s.status.getD {}

def abort (handle : ℕ) : Supervisor := { s with actors := s.actors.erase handle }

end Supervisor

def transitionStatus (change : Change) (current : TunnelRuntimeStatus) : TunnelRuntimeStatus :=
  { current with
    kind := if change.kind = "" then current.kind else change.kind
    status := change.status
    generation := change.generation
    desiredGeneration := change.generation
    transportState := some change.transportState
    startReason := some change.reason
    specId := some change.specId }

def startingStatus (job : Job) (generation : ℕ) (current : TunnelRuntimeStatus) : TunnelRuntimeStatus :=
  { current with
    kind := job.kind
    status := "starting"
    generation := generation
    desiredGeneration := generation
    transportState := some .candidate
    startReason := some job.reason
    specId := some job.specId }

/-! ## Actors -/

namespace Actor

/-- The status before a lease is there: what is not given is the default. -/
def status (a : Actor) (status : String) (error : Option String)
    (routerGeneration routerActiveGeneration : ℕ) : TunnelRuntimeStatus :=
  { kind := a.kind
    status := status
    lastError := error
    generation := a.generation
    desiredGeneration := a.generation
    routerGeneration := routerGeneration
    routerActiveGeneration := routerActiveGeneration
    transportState := some .candidate
    startReason := some a.reason
    specId := some a.specId }

def statusFromLease (a : Actor) (status : String) (lease : NamespaceLease) (error : Option String)
    (transportState : TransportState) : TunnelRuntimeStatus :=
  { kind := a.kind
    status := status
    lastError := error
    generation := a.generation
    desiredGeneration := a.generation
    routerGeneration := lease.generation
    routerActiveGeneration :=
      match transportState with
      | .active | .draining | .retired => lease.generation
      | .candidate => lease.expectedGeneration
    transportState := some transportState
    startReason := some a.reason
    specId := some a.specId }

/-- The next rotation after a lease that was active. -/
def rotate (a : Actor) (lease : NamespaceLease) : Actor :=
  { a with
    routerActiveGeneration := lease.generation
    routerGeneration := saturatingAdd lease.generation 1 }

end Actor

def leaseTimeoutError : String := "router tunnel lease request timed out after 15s"

namespace Supervisor

variable (s : Supervisor)

def put (id : ℕ) (a : Actor) : Supervisor := { s with actors := s.actors.insert id a }

def write (s : Supervisor) (id : ℕ) (a : Actor) (status : TunnelRuntimeStatus) (phase : Phase) : Supervisor :=
  (s.setStatusForGeneration status).2.put id { a with phase := phase }

/-- What the environment answers is an argument. -/
def actorStep (id : ℕ) (a : Actor) (reply : Reply) : Supervisor :=
  match a.phase, reply with
  | .top, _ => if s.stale a.generation then s.abort id else s.put id { a with phase := .leasing }
  | .leasing, _ =>
    let s := s.write id a (a.status "leasing" none a.routerGeneration a.routerActiveGeneration) .requesting
    { s with requests := ⟨id, a.routerGeneration, a.routerActiveGeneration⟩ :: s.requests }
  | .requesting, .lease expected => s.put id { a with phase := .connecting ⟨a.routerGeneration, expected⟩ }
  | .requesting, .leaseError message =>
    let generations :=
      syncRouterGenerationsAfterLeaseError message a.routerGeneration a.routerActiveGeneration
    s.put id
      { a with
        routerGeneration := generations.1
        routerActiveGeneration := generations.2
        phase := .leaseFailed message }
  | .requesting, .leaseTimeout => s.put id { a with phase := .leaseTimedOut }
  | .requesting, _ => s
  | .leaseFailed error, _ =>
    s.write id a (a.status "retrying" (some error) a.routerGeneration a.routerActiveGeneration) .top
  | .leaseTimedOut, _ => s.write id a (a.status "retrying" (some leaseTimeoutError) 0 0) .top
  | .connecting lease, _ =>
    s.write id a (a.statusFromLease "connecting" lease none .candidate) (.attached lease)
  | .attached lease, .activated => s.put id { a with phase := .activated lease }
  | .attached lease, .failed error => s.put id { a with phase := .failed lease error }
  | .attached _, _ => s
  | .activated lease, _ =>
    match s.setStatusForGeneration (a.statusFromLease "connected" lease none .active) with
    | (true, s) => s.put id { a with phase := .forwarding lease }
    | (false, s) => s.put id { a with phase := .ended lease }
  | .forwarding lease, .renewalDue => s.put id { a with phase := .renewing lease }
  | .forwarding lease, .forwardEnded => s.put id { a with phase := .ended lease }
  | .forwarding lease, .failed error => s.put id { a with phase := .failed lease error }
  | .forwarding _, _ => s
  | .renewing lease, _ => s.write id a (a.statusFromLease "renewing" lease none .active) (.renewal lease)
  | .renewal lease, .renewed => s.put id { a with phase := .renewed lease }
  | .renewal lease, .renewalRetryable error => s.put id { a with phase := .renewalFailed lease error }
  | .renewal lease, .replaceRequired error => s.put id { a with phase := .replaceRequired lease error }
  | .renewal lease, .fatalConfiguration error =>
    s.put id { a with phase := .fatalConfiguration lease error }
  | .renewal lease, .forwardEnded => s.put id { a with phase := .ended lease }
  | .renewal lease, .failed error => s.put id { a with phase := .failed lease error }
  | .renewal _, _ => s
  | .renewed lease, _ => s.write id a (a.statusFromLease "connected" lease none .active) (.forwarding lease)
  | .renewalFailed lease error, _ =>
    s.write id a (a.statusFromLease "renewal_retrying" lease (some error) .active) (.forwarding lease)
  | .ended lease, _ =>
    s.write id (a.rotate lease)
      (a.statusFromLease "retrying" lease (some "router ssh forward ended") .draining) .pausing
  | .replaceRequired lease error, _ =>
    if s.stale a.generation then s.abort id
    else s.put id { a.rotate lease with phase := .replacing lease error }
  | .replacing lease error, _ =>
    s.write id a (a.statusFromLease "replacement_required" lease (some error) .draining) .pausing
  | .fatalConfiguration lease error, _ =>
    (s.setStatusForGeneration (a.statusFromLease "configuration_error" lease (some error) .retired)).2.abort id
  | .failed lease error, _ =>
    s.write id a (a.statusFromLease "retrying" lease (some error) .candidate) .pausing
  | .pausing, _ => if s.stale a.generation then s.abort id else s.put id { a with phase := .top }

/-! ## Calls -/

def slotFor : TunnelTaskSlot :=
  s.slot.getD
    (let persisted := (s.status.map fun status => max status.generation status.desiredGeneration).getD 0
    { generation := persisted, desiredGeneration := persisted })

/-- Finished handles are forgotten. -/
def retained : TunnelTaskSlot :=
  { s.slotFor with
    retiringHandles := s.slotFor.retiringHandles.filter fun handle => (s.actors.get? handle).isSome }

end Supervisor

def TunnelTaskSlot.next (slot : TunnelTaskSlot) : ℕ := saturatingAdd (max slot.generation slot.desiredGeneration) 1

def TunnelTaskSlot.starting (slot : TunnelTaskSlot) (job : Job) (generation : ℕ) : TunnelTaskSlot :=
  { slot with generation := generation, desiredGeneration := generation, specId := some job.specId }

def reconnecting (job : Job) (generation : ℕ) : Change :=
  ⟨job.kind, "reconnecting", generation, .draining, job.reason, job.specId⟩

namespace Supervisor

variable (s : Supervisor)

/-- Give up the actor of the slot, if there is one, for another. -/
def replace (slot : TunnelTaskSlot) (job : Job) (rebind : Bool) : Supervisor :=
  match slot.handle with
  | none =>
    { s with
      slot := some (slot.starting job slot.next)
      pending := some (.nextRouterGeneration job slot.next) }
  | some handle =>
    { s with
      slot := some { slot with handle := none, desiredGeneration := slot.next }
      pending := some (.transition (reconnecting job slot.next) (.dispose job handle rebind)) }

def ensureRunning (job : Job) : Supervisor :=
  let slot := s.retained
  if slot.handle.any (fun handle => (s.actors.get? handle).isSome) ∧ slot.specId = some job.specId then
    { s with slot := some slot }
  else s.replace slot job false

def forceReconnect (job : Job) (mode : TunnelReplacementMode) : Supervisor :=
  let slot := s.retained
  match mode with
  | .graceful => s.replace slot job false
  | .namespaceRebind => { s with slot := some slot, pending := some (.rebind job) }

def stop (status : String) : Supervisor :=
  let slot := s.slotFor
  { s with
    slot := some { slot with desiredGeneration := slot.next }
    pending := some (.stopping status slot.next) }

/-- The retiring handles are aborted one after the other. -/
def abortRetiring (slot : TunnelTaskSlot) : Option Supervisor :=
  match slot.retiringHandles with
  | [] => none
  | handle :: rest => some { s.abort handle with slot := some { slot with retiringHandles := rest } }

/-- The next section of the pending call. -/
def advance (slot : TunnelTaskSlot) : Pending → Supervisor
  | .rebind job => (s.abortRetiring slot).getD (s.replace slot job true)
  | .transition change next => { s with pending := some (.transitionWrite change s.current next) }
  | .transitionWrite change current next =>
    let s := s.setStatus (transitionStatus change current)
    match next with
    | .dispose job handle rebind => { s with pending := some (.dispose job change.generation handle rebind) }
    | .stopHandles => { s with pending := some (.stopHandles change.generation) }
  | .dispose job generation handle rebind =>
    let slot := slot.starting job generation
    let pending := some (.nextRouterGeneration job generation)
    if (s.actors.get? handle).isNone then { s with slot := some slot, pending := pending }
    else if rebind then { s.abort handle with slot := some slot, pending := pending }
    else
      { s with
        slot := some { slot with retiringHandles := slot.retiringHandles ++ [handle] }
        pending := pending }
  | .nextRouterGeneration job generation =>
    let active := s.current.routerActiveGeneration
    { s with
      pending := some (.startingRead job generation
        (max (saturatingAdd (max s.current.routerGeneration active) 1) 1) active) }
  | .startingRead job generation routerGeneration routerActiveGeneration =>
    { s with
      pending := some (.startingWrite job generation routerGeneration routerActiveGeneration s.current) }
  | .startingWrite job generation routerGeneration routerActiveGeneration current =>
    let s := s.setStatus (startingStatus job generation current)
    let actor : Actor := { job with generation, routerGeneration, routerActiveGeneration }
    { s with
      slot := some { slot with handle := some s.nextActor }
      pending := none
      actors := s.actors.insert s.nextActor actor
      nextActor := s.nextActor + 1
      started := (s.nextActor, actor) :: s.started }
  | .stopping status generation =>
    { s with
      pending := some (.transition
        ⟨s.current.kind, status, generation, .retired, "stop", slot.specId.getD "unknown"⟩ .stopHandles) }
  | .stopHandles generation =>
    match slot.handle with
    | some handle => { s.abort handle with slot := some { slot with handle := none } }
    | none =>
      (s.abortRetiring slot).getD { s with slot := some { slot with generation := generation }, pending := none }

end Supervisor

/-! ## Events -/

inductive Event
  | ensureRunning (job : Job)
  | forceReconnect (job : Job) (mode : TunnelReplacementMode)
  | stop (status : String)
  | advance
  | actor (id : ℕ) (reply : Reply)
  | restart

/-- A call waits while another holds the slot. -/
def Supervisor.step (s : Supervisor) : Event → Supervisor
  | .ensureRunning job => if s.pending.isSome then s else s.ensureRunning job
  | .forceReconnect job mode => if s.pending.isSome then s else s.forceReconnect job mode
  | .stop status => if s.pending.isSome then s else s.stop status
  | .advance =>
    match s.slot, s.pending with
    | some slot, some pending => s.advance slot pending
    | _, _ => s
  | .actor id reply =>
    match s.actors.get? id with
    | none => s
    | some a => s.actorStep id a reply
  | .restart => { s with slot := none, pending := none, actors := .empty }

end CcSwitchServer.Tunnel
