import CcSwitchServer.QuotaCycle.Validate

/-! # The mutators of the ledger

A mutator works in place and may fail after it has changed the ledger, so a call returns its result together
with the ledger it leaves.
-/

namespace CcSwitchServer.QuotaCycle
open Foundations

/-- The ledger, the number of opaque identifiers drawn, and the cycles that were replaced. The code keeps no
such list and nothing reads it; the results about the order of cycles speak about it. -/
structure World where
  ledger : QuotaCycleLedger
  drawn : ℕ
  replaced : List AccountQuotaCycle

abbrev Outcome (α : Type) := Except QuotaError α × World

namespace QuotaCycleLedger

variable (l : QuotaCycleLedger)

def sourceEntry (sourceRef : String) : Option (String × QuotaCycleSource) :=
  l.sources.entries.find? fun entry => entry.2.sourceRef = sourceRef

def putSource (identity : String) (s : QuotaCycleSource) : QuotaCycleLedger :=
  { l with sources := l.sources.insert identity s }

def putEvent (key : String) (e : QuotaResetEvent) : QuotaCycleLedger := { l with events := l.events.insert key e }

def bumpRevision : QuotaCycleLedger := { l with revision := saturatingSucc l.revision }

/-- The latest committed event of another cycle before the start of the current one. -/
def earlierBoundary (sourceRef : String) (c : AccountQuotaCycle) : Option ℤ :=
  ((l.events.values.filter fun e =>
    e.sourceRef = sourceRef ∧ e.status = .committed ∧ e.cycleId ≠ c.cycleId ∧
      e.effectiveAtMs < c.startsAtMs).map QuotaResetEvent.effectiveAtMs).max?

/-- A new time for a known event moves the current cycle only when the event opened it and the time
stays between the neighbouring boundaries. -/
def Correctable (sourceRef : String) (c : AccountQuotaCycle) (eventId : String)
    (previous : QuotaResetEvent) (effectiveAtMs : ℤ) : Prop :=
  ¬(previous.cycleId ≠ c.cycleId ∨ c.eventId ≠ eventId ∨ c.endsAtMs.getD i64Max ≤ effectiveAtMs ∨
    ∃ boundary ∈ l.earlierBoundary sourceRef c, effectiveAtMs ≤ boundary)

instance (l : QuotaCycleLedger) (sourceRef : String) (c : AccountQuotaCycle) (eventId : String)
    (previous : QuotaResetEvent) (effectiveAtMs : ℤ) :
    Decidable (l.Correctable sourceRef c eventId previous effectiveAtMs) := by
  unfold Correctable
  infer_instance

end QuotaCycleLedger

def QuotaResetEvent.moved (e : QuotaResetEvent) (correction : QuotaResetCorrection) : QuotaResetEvent :=
  { e with effectiveAtMs := correction.effectiveAtMs, discoveredAtMs := correction.discoveredAtMs }

def AccountQuotaCycle.moved (c : AccountQuotaCycle) (correction : QuotaResetCorrection)
    (basis : QuotaTimeBasis) : AccountQuotaCycle :=
  { c with
    startsAtMs := correction.effectiveAtMs
    basis := basis
    observedAtMs := max c.observedAtMs correction.discoveredAtMs
    cycleRevision := saturatingSucc c.cycleRevision }

namespace World

def default (ids : OpaqueIds) : World where
  ledger := .default (ids.id 0)
  drawn := 1
  replaced := []

variable (w : World)

def setLedger (l : QuotaCycleLedger) : World := { w with ledger := l }

/-! ## Registration -/

variable (ids : OpaqueIds)

def sourceOrInsert (identity providerType bucketId : String)
    (fence : QuotaSourceFence) : QuotaCycleSource × World :=
  match w.ledger.sources.get? identity with
  | some source => (source, w)
  | none =>
    let source : QuotaCycleSource :=
      { sourceRef := ids.id w.drawn, sourceEpoch := 1, providerType := providerType,
        bucketId := bucketId, fence := fence, cycle := none, nextBoundaryMs := none,
        lastObservedAtMs := 0 }
    (source, { w with ledger := w.ledger.putSource identity source, drawn := w.drawn + 1 })

variable (identity : String)

variable (s : QuotaCycleSource)

/-- The verified fence in the source, and the revision that tells readers about it. -/
def setFence (fence : QuotaSourceFence) : Outcome String :=
  let w := w.setLedger (w.ledger.putSource identity { s with fence := fence })
  match checkedAddU64 w.ledger.revision 1 with
  | none => (.error .quotaRevisionOverflow, w)
  | some revision => (.ok s.sourceRef, w.setLedger { w.ledger with revision := revision })

def registerSource (identity providerType bucketId : String) (fence : QuotaSourceFence) : Outcome String :=
  match w.ledger.validate with
  | .error e => (.error e, w)
  | .ok _ =>
    if identity = "" ∨ bucketId = "" then (.error .identityUnverified, w)
    else
      let existed := (w.ledger.sources.get? identity).isSome
      let (source, w) := w.sourceOrInsert ids identity providerType bucketId fence
      if source.providerType ≠ providerType ∨ source.bucketId ≠ bucketId then
        (.error .quotaSourceScopeMismatch, w)
      else if existed = false ∨ source.fence ≠ fence then w.setFence identity source fence
      else (.ok source.sourceRef, w)

/-! ## Resets -/

def openCycle (s : QuotaCycleSource)
    (eventId : String) (startsAtMs : ℤ) (endsAtMs : Option ℤ) (observedAtMs : ℤ)
    (basis : QuotaTimeBasis) : World :=
  let cycle : AccountQuotaCycle :=
    { streamIncarnation := w.ledger.streamIncarnation, sourceRef := s.sourceRef,
      sourceEpoch := s.sourceEpoch, bucketId := s.bucketId, cycleId := ids.id w.drawn,
      cycleSequence := 1, cycleRevision := 1, startsAtMs := startsAtMs, endsAtMs := endsAtMs,
      basis := basis, observedAtMs := observedAtMs, eventId := eventId }
  let event : QuotaResetEvent :=
    { eventId := eventId, sourceRef := s.sourceRef, bucketId := s.bucketId,
      effectiveAtMs := startsAtMs, discoveredAtMs := observedAtMs, basis := basis,
      status := .committed, cycleId := ids.id w.drawn }
  { w with
    ledger := ((w.ledger.putSource identity { s with cycle := some cycle }).putEvent
      (eventKey s.sourceRef eventId) event).bumpRevision
    drawn := w.drawn + 1 }

/-- A correction that does not fit is kept beside its event. -/
def quarantineEvent (previous : QuotaResetEvent) (correction : QuotaResetCorrection) : World :=
  w.setLedger ({ w.ledger with corrections := w.ledger.corrections ++ [correction] }.putEvent
    correction.eventKey { previous with status := .needsReconcile }).bumpRevision

/-- The event and the cycle that it opened move together. -/
def moveCycle (c : AccountQuotaCycle)
    (previous : QuotaResetEvent) (correction : QuotaResetCorrection) (basis : QuotaTimeBasis) :
    World :=
  w.setLedger (({ w.ledger with corrections := w.ledger.corrections ++ [correction] }.putEvent
    correction.eventKey (previous.moved correction)).putSource identity
      { s with cycle := some (c.moved correction basis) }).bumpRevision

/-- A known event is announced with another time. -/
def correctEvent (c : AccountQuotaCycle)
    (previous : QuotaResetEvent) (eventId : String) (effectiveAtMs discoveredAtMs : ℤ)
    (basis : QuotaTimeBasis) : Outcome Bool :=
  let correction : QuotaResetCorrection :=
    { eventKey := eventKey s.sourceRef eventId,
      previousEffectiveAtMs := previous.effectiveAtMs, effectiveAtMs := effectiveAtMs,
      discoveredAtMs := discoveredAtMs,
      applied := w.ledger.Correctable s.sourceRef c eventId previous effectiveAtMs }
  if correction.mark ∈ w.ledger.corrections.map QuotaResetCorrection.mark then (.ok false, w)
  else if correction.applied then
    (.ok true, w.moveCycle identity s c previous correction basis)
  else (.ok false, w.quarantineEvent previous correction)

def advanceCycle (s : QuotaCycleSource)
    (c : AccountQuotaCycle) (sequence : ℕ) (event : QuotaResetEvent) : World :=
  let cycle := { c with
    cycleId := ids.id w.drawn
    cycleSequence := sequence
    cycleRevision := 1
    startsAtMs := event.effectiveAtMs
    endsAtMs := c.endsAtMs.filter fun e => event.effectiveAtMs < e
    basis := event.basis
    observedAtMs := event.discoveredAtMs
    eventId := event.eventId }
  { w with
    ledger := ((w.ledger.putSource identity { s with cycle := some cycle }).putEvent
      (eventKey s.sourceRef event.eventId) { event with cycleId := ids.id w.drawn }).bumpRevision
    drawn := w.drawn + 1
    replaced := w.replaced ++ [c] }

/-- The counter of cycles is full: the call fails after it has given the cycle a new identifier. -/
def exhaustSequence (s : QuotaCycleSource) (c : AccountQuotaCycle) : World :=
  { w with
    ledger := w.ledger.putSource identity { s with cycle := some { c with cycleId := ids.id w.drawn } }
    drawn := w.drawn + 1 }

def fileEvent (event : QuotaResetEvent) : World :=
  w.setLedger (w.ledger.putEvent (eventKey event.sourceRef event.eventId) event).bumpRevision

/-- An event that is not known yet: a later one opens the next cycle, an earlier one is history. -/
def recordEvent (s : QuotaCycleSource)
    (c : AccountQuotaCycle) (eventId : String) (effectiveAtMs discoveredAtMs : ℤ)
    (basis : QuotaTimeBasis) : Outcome Bool :=
  let event : QuotaResetEvent :=
    { eventId := eventId, sourceRef := s.sourceRef, bucketId := s.bucketId,
      effectiveAtMs := effectiveAtMs, discoveredAtMs := discoveredAtMs, basis := basis,
      status := .committed, cycleId := c.cycleId }
  if c.startsAtMs < effectiveAtMs then
    match checkedAddU64 c.cycleSequence 1 with
    | none => (.error .quotaSequenceOverflow, w.exhaustSequence ids identity s c)
    | some sequence => (.ok true, w.advanceCycle ids identity s c sequence event)
  else if effectiveAtMs < c.startsAtMs then
    (.ok false, w.fileEvent { event with status := .historical, cycleId := "" })
  else (.ok false, w.fileEvent event)

/-- A reset opens the next cycle, is filed, or corrects an event that is there. -/
def applyReset (sourceRef : String) (fence : QuotaSourceFence)
    (eventId : String) (effectiveAtMs discoveredAtMs : ℤ) (basis : QuotaTimeBasis) : Outcome Bool :=
  if eventId = "" ∨ 256 < eventId.utf8ByteSize ∨ effectiveAtMs < 0 ∨ discoveredAtMs < effectiveAtMs
  then (.error .quotaEventInvalid, w)
  else
    match w.ledger.sourceEntry sourceRef with
    | none => (.error .quotaSourceMissing, w)
    | some (identity, source) =>
      if source.fence ≠ fence then (.error .quotaSourceFenceChanged, w)
      else
        match source.cycle with
        | none =>
          (.ok true, w.openCycle ids identity source eventId effectiveAtMs
            (source.nextBoundaryMs.filter fun e => effectiveAtMs < e) discoveredAtMs basis)
        | some cycle =>
          match w.ledger.events.get? (eventKey sourceRef eventId) with
          | some previous =>
            if previous.effectiveAtMs = effectiveAtMs then (.ok false, w)
            else w.correctEvent identity source cycle previous eventId effectiveAtMs discoveredAtMs basis
          | none =>
            w.recordEvent ids identity source cycle eventId effectiveAtMs discoveredAtMs basis

/-! ## Observations -/

def naturalEventId (boundary : ℤ) : String := "natural:" ++ toString boundary

/-- The start that `observe` works with; a missing one is not an error there. -/
def windowStart (o : QuotaWindowObservation) : Except QuotaError (Option ℤ) :=
  match o.start with
  | .ok start => .ok (some start)
  | .error .quotaBoundaryUnavailable => .ok none
  | .error e => .error e

/-- The reset that an observation implies: the elapsed end of the current cycle, else a later start
stated by upstream. -/
def pendingReset (c : AccountQuotaCycle) (o : QuotaWindowObservation) : Option (String × ℤ × QuotaTimeBasis) :=
  match c.endsAtMs.filter fun e => e ≤ o.observedAtMs with
  | some boundary => some (naturalEventId boundary, boundary, .knownNaturalBoundary)
  | none =>
    (o.startsAtMs.filter fun s => c.startsAtMs < s).map fun start =>
      ("upstream:" ++ toString start, start, o.basis)

def noteWindow (o : QuotaWindowObservation) : World :=
  let l := w.ledger.putSource identity
    { s with nextBoundaryMs := some o.endsAtMs, lastObservedAtMs := o.observedAtMs }
  w.setLedger
    (if s.nextBoundaryMs ≠ some o.endsAtMs ∨ s.lastObservedAtMs ≠ o.observedAtMs then l.bumpRevision
    else l)

/-- The observed end of a cycle that needs no reset. -/
def corroborate (c : AccountQuotaCycle)
    (o : QuotaWindowObservation) : World :=
  if c.endsAtMs ≠ some o.endsAtMs then
    w.setLedger (w.ledger.putSource identity { s with cycle := some { c with
      endsAtMs := some o.endsAtMs
      cycleRevision := saturatingSucc c.cycleRevision
      observedAtMs := o.observedAtMs } }).bumpRevision
  else
    w.setLedger (w.ledger.putSource identity { s with cycle := some { c with observedAtMs := o.observedAtMs } })

/-- The first argument is the number of stack frames left; a call that exhausts them aborts the process
(`none`). -/
def observe (ids : OpaqueIds) : ℕ → World → String → QuotaSourceFence → QuotaWindowObservation →
    Option (Outcome Bool)
  | 0, _, _, _, _ => none
  | stack + 1, w, sourceRef, fence, o =>
    match o.validateEnd, windowStart o with
    | .error e, _ => some (.error e, w)
    | .ok _, .error e => some (.error e, w)
    | .ok _, .ok inferredStart =>
      match w.ledger.sourceEntry sourceRef with
      | none => some (.error .quotaSourceMissing, w)
      | some (identity, source) =>
        if source.fence ≠ fence then some (.error .quotaSourceFenceChanged, w)
        else if source.bucketId ≠ o.bucketId then some (.error .quotaBucketMismatch, w)
        else if o.observedAtMs < source.lastObservedAtMs then some (.ok false, w)
        else
          let boundaryChanged := decide (source.nextBoundaryMs ≠ some o.endsAtMs)
          let freshnessChanged := decide (source.lastObservedAtMs ≠ o.observedAtMs)
          let w := w.noteWindow identity source o
          let source := { source with
            nextBoundaryMs := some o.endsAtMs, lastObservedAtMs := o.observedAtMs }
          match source.cycle with
          | none =>
            match inferredStart with
            | none => some (.ok (boundaryChanged || freshnessChanged), w)
            | some start =>
              some (.ok true, w.openCycle ids identity source ("initial:" ++ toString o.endsAtMs)
                start (some o.endsAtMs) o.observedAtMs o.basis)
          | some cycle =>
            if o.observedAtMs < cycle.observedAtMs then some (.ok false, w)
            else
              match pendingReset cycle o with
              | some (eventId, effectiveAtMs, basis) =>
                match w.applyReset ids sourceRef fence eventId effectiveAtMs o.observedAtMs basis with
                | (.error e, w) => some (.error e, w)
                | (.ok _, w) =>
                  (observe ids stack w sourceRef fence o).map fun r => (r.1.map fun _ => true, r.2)
              | none =>
                some (.ok (decide (cycle.endsAtMs ≠ some o.endsAtMs) || freshnessChanged),
                  w.corroborate identity source cycle o)

/-! ## Boundaries that fall due -/

def dueSources (l : QuotaCycleLedger) (nowMs : ℤ) : List (String × QuotaSourceFence × ℤ) :=
  l.sources.values.filterMap fun s => do
    let cycle ← s.cycle
    let boundary ← cycle.endsAtMs.filter fun e => e ≤ nowMs
    pure (s.sourceRef, s.fence, boundary)

/-- A source that fails ends the loop. -/
def advanceEach (ids : OpaqueIds) (nowMs : ℤ) : World → Bool → List (String × QuotaSourceFence × ℤ) → Outcome Bool
  | w, changed, [] => (.ok changed, w)
  | w, changed, (sourceRef, fence, boundary) :: due =>
    match w.applyReset ids sourceRef fence (naturalEventId boundary) boundary nowMs
      .knownNaturalBoundary with
    | (.error e, w) => (.error e, w)
    | (.ok advanced, w) => advanceEach ids nowMs w (changed || advanced) due

def advanceDue (nowMs : ℤ) : Outcome Bool := advanceEach ids nowMs w false (dueSources w.ledger nowMs)

def dueBoundary (nowMs : ℤ) : Option ℤ :=
  ((s.cycle.bind AccountQuotaCycle.endsAtMs).or s.nextBoundaryMs).filter fun e => e ≤ nowMs

def clearBoundary (sourceRef : String) : World :=
  match w.ledger.sourceEntry sourceRef with
  | none => w
  | some (identity, source) =>
    w.setLedger (w.ledger.putSource identity { source with nextBoundaryMs := none })

def advanceSourceDue (sourceRef : String) (nowMs : ℤ) : Outcome Bool :=
  match w.ledger.sourceEntry sourceRef with
  | none => (.error .quotaSourceMissing, w)
  | some (identity, source) =>
    match dueBoundary source nowMs with
    | none => (.ok false, w)
    | some boundary =>
      match source.cycle with
      | none =>
        (.ok true, w.openCycle ids identity { source with nextBoundaryMs := none }
          (naturalEventId boundary) boundary none nowMs .knownNaturalBoundary)
      | some _ =>
        match w.applyReset ids sourceRef source.fence (naturalEventId boundary) boundary nowMs
          .knownNaturalBoundary with
        | (.error e, w) => (.error e, w)
        | (.ok false, w) => (.ok false, w)
        | (.ok true, w) => (.ok true, w.clearBoundary sourceRef)

end World

/-! ## Calls -/

inductive Op
  | registerSource (identity providerType bucketId : String) (fence : QuotaSourceFence)
  | observe (sourceRef : String) (fence : QuotaSourceFence) (observation : QuotaWindowObservation)
  | applyReset (sourceRef : String) (fence : QuotaSourceFence) (eventId : String)
      (effectiveAtMs discoveredAtMs : ℤ) (basis : QuotaTimeBasis)
  | advanceDue (nowMs : ℤ)
  | advanceSourceDue (sourceRef : String) (nowMs : ℤ)

/-- The world that a call leaves, if it returns. -/
def step (ids : OpaqueIds) (stack : ℕ) (w : World) : Op → Option World
  | .registerSource identity providerType bucketId fence =>
    some (w.registerSource ids identity providerType bucketId fence).2
  | .observe sourceRef fence o => (w.observe ids stack sourceRef fence o).map Prod.snd
  | .applyReset sourceRef fence eventId effectiveAtMs discoveredAtMs basis =>
    some (w.applyReset ids sourceRef fence eventId effectiveAtMs discoveredAtMs basis).2
  | .advanceDue nowMs => some (w.advanceDue ids nowMs).2
  | .advanceSourceDue sourceRef nowMs => some (w.advanceSourceDue ids sourceRef nowMs).2

def IsI64 (n : ℤ) : Prop := -i64Max - 1 ≤ n ∧ n ≤ i64Max

instance (n : ℤ) : Decidable (IsI64 n) := by
  unfold IsI64
  infer_instance

/-- The arguments of a call: times are `i64` values and a provider type is not empty. -/
def Op.Typed : Op → Prop
  | .registerSource _ providerType _ _ => providerType ≠ ""
  | .observe _ _ o =>
    (∀ t ∈ o.startsAtMs, IsI64 t) ∧ IsI64 o.endsAtMs ∧ (∀ t ∈ o.durationMs, IsI64 t) ∧ IsI64 o.observedAtMs
  | .applyReset _ _ _ effectiveAtMs discoveredAtMs _ => IsI64 effectiveAtMs ∧ IsI64 discoveredAtMs
  | .advanceDue nowMs => IsI64 nowMs
  | .advanceSourceDue _ nowMs => IsI64 nowMs

instance : DecidablePred Op.Typed
  | .registerSource _ _ _ _ => inferInstanceAs (Decidable (_ ≠ _))
  | .observe _ _ _ => inferInstanceAs (Decidable ((∀ t ∈ _, IsI64 t) ∧ _ ∧ (∀ t ∈ _, IsI64 t) ∧ _))
  | .applyReset _ _ _ _ _ _ => inferInstanceAs (Decidable (_ ∧ _))
  | .advanceDue nowMs => inferInstanceAs (Decidable (IsI64 nowMs))
  | .advanceSourceDue _ nowMs => inferInstanceAs (Decidable (IsI64 nowMs))

end CcSwitchServer.QuotaCycle
