import CcSwitchServer.Foundations.Checked
import CcSwitchServer.Foundations.OrderedMap
import CcSwitchServer.Foundations.Tasks
import CcSwitchServer.Foundations.Text

/-! # Cursor session registry (`proxy/cursor/session.rs`)

Every section between two lock acquisitions is one step of a task. An entry is named by a number in the place of
its allocation, and a weak reference is that number.
-/

namespace CcSwitchServer.CursorSessions
open Foundations

/-! ## Data -/

inductive SessionState
  | running
  | awaitingToolResult
  | closed
deriving DecidableEq, Repr

abbrev CursorSessionKey := String ×ₗ String

def CursorSessionKey.scope (key : CursorSessionKey) : String := (ofLex key).1

abbrev CursorScopedIndexKey := String ×ₗ String

/-- An id that is blank or padded has no key. -/
def CursorScopedIndexKey.new (scope rawId : String) : Option CursorScopedIndexKey :=
  if rawId ≠ "" ∧ Text.trim rawId = rawId then some (toLex (scope, rawId)) else none

/-- An upstream stream that is kept between two requests. -/
structure CursorSession where
  key : CursorSessionKey
  state : SessionState
  lastActivity : ℕ

abbrev CursorSessionReference := CursorSessionKey × ℕ

inductive Index
  | response
  | toolCall
deriving DecidableEq, Repr

/-- The sessions, and the ids that lead to them. -/
structure Registry where
  heap : OrderedMap ℕ CursorSession := .empty
  nextEntry : ℕ := 0
  sessions : OrderedMap CursorSessionKey ℕ := .empty
  responseSessions : OrderedMap CursorScopedIndexKey (List CursorSessionReference) := .empty
  toolCallSessions : OrderedMap CursorScopedIndexKey (List CursorSessionReference) := .empty

structure Limits where
  idleTtl : ℕ
  maxSessions : ℕ

/-- What a section meets: its clock, a later reading, the sessions locked elsewhere, and whether the memory
budget admits a reservation. -/
structure Circumstances where
  now : ℕ
  later : ℕ
  locked : ℕ → Bool
  granted : Bool

namespace Registry

variable (r : Registry)

def index : Index → OrderedMap CursorScopedIndexKey (List CursorSessionReference)
  | .response => r.responseSessions
  | .toolCall => r.toolCallSessions

def withIndex : Index → OrderedMap CursorScopedIndexKey (List CursorSessionReference) → Registry
  | .response, m => { r with responseSessions := m }
  | .toolCall, m => { r with toolCallSessions := m }

def update (entry : ℕ) (f : CursorSession → CursorSession) : Registry :=
  match r.heap.get? entry with
  | none => r
  | some session => { r with heap := r.heap.insert entry (f session) }

/-- Removal from the map, unless the key has another entry by now. -/
def removeCurrent (key : CursorSessionKey) (entry : ℕ) : Bool × Registry :=
  if r.sessions.get? key = some entry then (true, { r with sessions := r.sessions.erase key })
  else (false, r)

variable (limits : Limits)

def Expired (now : ℕ) (session : CursorSession) : Prop := limits.idleTtl < now - session.lastActivity

instance (limits : Limits) (now : ℕ) (session : CursorSession) : Decidable (Expired limits now session) :=
  inferInstanceAs (Decidable (_ < _))

/-- The candidates of `evict_expired`. -/
def expired (r : Registry) (c : Circumstances) : List CursorSessionReference :=
  r.sessions.entries.filter fun e =>
    !c.locked e.2 && (r.heap.get? e.2).any fun session =>
      session.state ≠ .running ∧ Expired limits c.now session

def evictExpiredCandidate (r : Registry) (key : CursorSessionKey) (entry now : ℕ) : Bool × Registry :=
  match r.heap.get? entry with
  | none => (false, r)
  | some session =>
    if session.state = .running ∨ ¬Expired limits now session then (false, r)
    else
      match r.removeCurrent key entry with
      | (false, r) => (false, r)
      | (true, r) => (true, r.update entry fun session => { session with state := .closed })

/-- A key that is taken is refused. -/
def insertNewEntry (key : CursorSessionKey) (c : Circumstances) : Except SessionState (ℕ × Registry) :=
  match r.sessions.get? key with
  | some existing =>
    .error (if c.locked existing then .running else ((r.heap.get? existing).map CursorSession.state).getD .running)
  | none =>
    .ok (r.nextEntry, { r with
        heap := r.heap.insert r.nextEntry ⟨key, .running, c.now⟩
        nextEntry := r.nextEntry + 1
        sessions := r.sessions.insert key r.nextEntry })

/-- Of equal times the first one counts. -/
def leastRecent : List (CursorSessionReference × ℕ) → Option (CursorSessionReference × ℕ)
  | [] => none
  | e :: rest =>
    match leastRecent rest with
    | none => some e
    | some m => if e.2 ≤ m.2 then some e else some m

/-- The next victim of `enforce_max_sessions`, if there are too many sessions. The source locks the map for the
length and again for the scan. They are one step here and no run is lost: `locked` is arbitrary and may hide what
changed in between, and `evictVictim` looks at the length once more. -/
def victim (r : Registry) (c : Circumstances) : Option CursorSessionReference :=
  if r.sessions.size ≤ limits.maxSessions then none
  else
    (leastRecent (r.sessions.entries.filterMap fun e =>
      if c.locked e.2 then none
      else
        match r.heap.get? e.2 with
        | none => none
        | some session => if session.state = .running then none else some (e, session.lastActivity))).map
      Prod.fst

def evictVictim (r : Registry) (key : CursorSessionKey) (entry : ℕ) : Bool × Registry :=
  match r.heap.get? entry with
  | none => (false, r)
  | some session =>
    if session.state = .running ∨ r.sessions.size ≤ limits.maxSessions then (false, r)
    else
      match r.removeCurrent key entry with
      | (false, r) => (false, r)
      | (true, r) => (true, r.update entry fun session => { session with state := .closed })

/-- The part of `acquire_resolved` under the lock of the session. -/
def acquireLocked (r : Registry) (reference : CursorSessionReference) (c : Circumstances) : Option Registry :=
  match r.heap.get? reference.2 with
  | none => none
  | some session =>
    if session.state ≠ .awaitingToolResult ∨ Expired limits c.now session then none
    else if r.sessions.get? reference.1 ≠ some reference.2 then none
    else some (r.update reference.2 fun session =>
      { session with state := .running, lastActivity := c.later })

/-- Only a running session gets a stream. -/
def attachStream (entry : ℕ) (c : Circumstances) : Registry :=
  match r.heap.get? entry with
  | none => r
  | some session =>
    if session.state = .running ∧ c.granted then
      r.update entry fun session => { session with lastActivity := c.now }
    else r

def bind (which : Index) (key : CursorSessionKey) (entry : ℕ) (indexKey : CursorScopedIndexKey) : Registry :=
  if r.sessions.get? key = some entry then
    let candidates := ((r.index which).get? indexKey).getD []
    if candidates.any fun candidate => candidate.2 = entry then r
    else r.withIndex which ((r.index which).insert indexKey (candidates ++ [(key, entry)]))
  else r

/-- Is a candidate still an owner of its id, as far as `resolve_index_binding` can see? -/
def Live (r : Registry) (c : Circumstances) (candidate : CursorSessionReference) : Bool :=
  (c.locked candidate.2 || !(r.heap.get? candidate.2).any fun session =>
      session.state = .closed ∨ session.state = .awaitingToolResult ∧ Expired limits c.now session) &&
  r.sessions.get? candidate.1 = some candidate.2

/-- An id that leads to several live sessions leads to none. -/
def resolveIndexBinding (r : Registry) (which : Index)
    (indexKey : CursorScopedIndexKey) (c : Circumstances) : Option CursorSessionReference :=
  match (((r.index which).get? indexKey).getD []).filter (r.Live limits c) with
  | [unique] => some unique
  | _ => none

def removeIndexes (which : Index) (entry : ℕ) : Registry :=
  let kept := (r.index which).mapValues fun candidates =>
    candidates.filter fun candidate => candidate.2 ≠ entry
  r.withIndex which (kept.filter fun e => e.2 ≠ [])

end Registry

/-! ## Tasks -/

/-- The atomic sections that the calls consist of. -/
inductive Section
  | evictExpired
  | evictCandidate (key : CursorSessionKey) (entry now : ℕ)
  | idleTimer (entry : ℕ)
  | removeIndexes (which : Index) (entry : ℕ)
  | insertNewEntry (key : CursorSessionKey)
  | enforceMaxSessions
  | evictVictim (key : CursorSessionKey) (entry : ℕ)
  | checkCapacity (entry : ℕ)
  | lookup (key : CursorSessionKey)
  | acquireLocked (reference : CursorSessionReference) (close : Bool)
  | attachStream (entry : ℕ)
  | release (entry : ℕ) (final : SessionState)
  | unregister (key : CursorSessionKey) (entry : ℕ)
  | reserveBinding (which : Index) (key : CursorSessionKey) (entry : ℕ) (indexKey : CursorScopedIndexKey)
  | bind (which : Index) (key : CursorSessionKey) (entry : ℕ) (indexKey : CursorScopedIndexKey)
  | resolve (which : Index) (indexKey : CursorScopedIndexKey)

inductive Happening
  | acquired (entry : ℕ)
  | parked (entry : ℕ)
  | resolved (which : Index) (indexKey : CursorScopedIndexKey) (reference : CursorSessionReference)
deriving DecidableEq

/-- The registry, the entries that were handed to callers, and what happened, the newest first. -/
structure World where
  registry : Registry := {}
  owned : List ℕ := []
  log : List Happening := []

def dropIndexes (entry : ℕ) : List Section := [.removeIndexes .response entry, .removeIndexes .toolCall entry]

open Registry in
/-- What a section does to the registry, and the sections that follow. -/
def exec (limits : Limits) (w : World) (c : Circumstances) : Section → Outcome World Section
  | .evictExpired =>
    { state := w
      next := (expired limits w.registry c).map fun e => .evictCandidate e.1 e.2 c.now }
  | .evictCandidate key entry now =>
    match evictExpiredCandidate limits w.registry key entry now with
    | (false, r) => { state := { w with registry := r } }
    | (true, r) => { state := { w with registry := r }, next := dropIndexes entry }
  | .idleTimer entry =>
    match w.registry.heap.get? entry with
    | none => { state := w }
    | some session => { state := w, next := [.evictCandidate session.key entry c.now] }
  | .removeIndexes which entry => { state := { w with registry := w.registry.removeIndexes which entry } }
  | .insertNewEntry key =>
    match w.registry.insertNewEntry key c with
    | .error _ => { state := w }
    | .ok (entry, r) =>
      { state := { w with registry := r }, next := [.enforceMaxSessions, .checkCapacity entry] }
  | .enforceMaxSessions =>
    match victim limits w.registry c with
    | none => { state := w }
    | some (key, entry) => { state := w, next := [.evictVictim key entry] }
  | .evictVictim key entry =>
    match evictVictim limits w.registry key entry with
    | (false, r) => { state := { w with registry := r }, next := [.enforceMaxSessions] }
    | (true, r) => { state := { w with registry := r }, next := dropIndexes entry ++ [.enforceMaxSessions] }
  | .checkCapacity entry =>
    if limits.maxSessions < w.registry.sessions.size then
      { state := w, next := [.release entry .closed] }
    else { state := { w with owned := entry :: w.owned } }
  | .lookup key =>
    match w.registry.sessions.get? key with
    | none => { state := w }
    | some entry => { state := w, next := [.evictExpired, .acquireLocked (key, entry) false] }
  | .acquireLocked reference close =>
    match acquireLocked limits w.registry reference c with
    | none => { state := w }
    | some r =>
      let log := .acquired reference.2 :: w.log
      if close then
        { state := { w with registry := r, log := log }, next := [.release reference.2 .closed] }
      else { state := { registry := r, owned := reference.2 :: w.owned, log := log } }
  | .attachStream entry => { state := { w with registry := w.registry.attachStream entry c } }
  | .release entry final =>
    match w.registry.heap.get? entry with
    | none => { state := w }
    | some session =>
      match final with
      | .awaitingToolResult =>
        { state :=
            { w with
              registry := w.registry.update entry fun session =>
                { session with lastActivity := c.now, state := .awaitingToolResult }
              log := .parked entry :: w.log }
          spawned := [[.idleTimer entry]] }
      | .closed | .running =>
        { state :=
            { w with
              registry := w.registry.update entry fun session =>
                { session with lastActivity := c.now, state := .closed } }
          next := [.unregister session.key entry] }
  | .unregister key entry =>
    match w.registry.removeCurrent key entry with
    | (false, r) => { state := { w with registry := r } }
    | (true, r) => { state := { w with registry := r }, next := dropIndexes entry }
  | .reserveBinding which key entry indexKey =>
    if c.granted then { state := w, next := [.bind which key entry indexKey] } else { state := w }
  | .bind which key entry indexKey =>
    { state := { w with registry := w.registry.bind which key entry indexKey } }
  | .resolve which indexKey =>
    match resolveIndexBinding limits w.registry which indexKey c with
    | none => { state := w }
    | some reference => { state := { w with log := .resolved which indexKey reference :: w.log } }

/-! ## Calls -/

inductive Call
  | reserve (key : CursorSessionKey)
  | acquire (key : CursorSessionKey)
  | acquireResolved (reference : CursorSessionReference)
  | closeParkedResolved (reference : CursorSessionReference)
  | attachStream (entry : ℕ)
  | bind (which : Index) (key : CursorSessionKey) (entry : ℕ) (rawId : String)
  | resolve (which : Index) (scope rawId : String)
  | evictExpired

/-- The lock sections of a call. -/
def Call.sections : Call → List Section
  | .reserve key => [.evictExpired, .insertNewEntry key]
  | .acquire key => [.lookup key]
  | .acquireResolved reference => [.evictExpired, .acquireLocked reference false]
  | .closeParkedResolved reference => [.evictExpired, .acquireLocked reference true]
  | .attachStream entry => [.attachStream entry]
  | .bind which key entry rawId =>
    match CursorScopedIndexKey.new key.scope rawId with
    | none => []
    | some indexKey => [.reserveBinding which key entry indexKey]
  | .resolve which scope rawId =>
    match CursorScopedIndexKey.new scope rawId with
    | none => []
    | some indexKey => [.evictExpired, .resolve which indexKey]
  | .evictExpired => [.evictExpired]

/-- Owners release what they were handed, once; everything else may be called at any time. -/
inductive Event
  | call (call : Call)
  | release (entry : ℕ) (final : SessionState)
  | run (task : ℕ) (c : Circumstances)

abbrev Manager := Tasks World Section

def step (limits : Limits) (m : Manager) : Event → Manager
  | .call call => m.start call.sections
  | .release entry final =>
    if entry ∈ m.state.owned then
      (show Manager from { m with state := { m.state with owned := m.state.owned.erase entry } }).start
        [.release entry final]
    else m
  | .run task c => m.schedule (fun w s c => exec limits w c s) task c

end CcSwitchServer.CursorSessions
