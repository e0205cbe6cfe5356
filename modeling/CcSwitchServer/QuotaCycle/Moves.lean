import CcSwitchServer.Foundations.Runs
import CcSwitchServer.QuotaCycle.Ledger

/-! # What a call can do to the ledger

Every call is a chain of moves, and a move changes one source, one event or both.
-/

namespace CcSwitchServer.QuotaCycle
open Foundations QuotaCycleLedger QuotaResetCorrection World OrderedMap Option

inductive Act
  | register
  | setRevision
  | reviseSource
  | openCycle
  | openAtBoundary
  | extendCycle
  | quarantine (committed : Bool)
  | moveCycle
  | advanceCycle
  | exhaustSequence
  | fileEvent
deriving DecidableEq

/-- Two states of one source that differ in the fence and the observed window only. -/
structure SameScope (s s' : QuotaCycleSource) : Prop where
  sourceRef : s'.sourceRef = s.sourceRef
  sourceEpoch : s'.sourceEpoch = s.sourceEpoch
  providerType : s'.providerType = s.providerType
  bucketId : s'.bucketId = s.bucketId
  cycle : s'.cycle = s.cycle

/-- The observed window of a source. -/
structure WindowFits (s : QuotaCycleSource) : Prop where
  observed : 0 ≤ s.lastObservedAtMs
  boundary : ∀ t ∈ s.nextBoundaryMs, 0 ≤ t ∧ t ≤ i64Max

/-- What is checked of the identifier and the times of an event before it is looked at. -/
structure EventArgs (eventId : String) (effectiveAtMs discoveredAtMs : ℤ) : Prop where
  nonempty : eventId ≠ ""
  short : eventId.utf8ByteSize ≤ 256
  nonneg : 0 ≤ effectiveAtMs
  discovered : effectiveAtMs ≤ discoveredAtMs

/-- A correction of the event `previous` of source `s`, not recorded before. -/
structure Corrects (l : QuotaCycleLedger) (s : QuotaCycleSource) (c : AccountQuotaCycle)
    (eventId : String) (previous : QuotaResetEvent) (correction : QuotaResetCorrection) : Prop where
  args : EventArgs eventId correction.effectiveAtMs correction.discoveredAtMs
  key : correction.eventKey = eventKey s.sourceRef eventId
  event : l.events.get? correction.eventKey = some previous
  origin : correction.previousEffectiveAtMs = previous.effectiveAtMs
  moved : previous.effectiveAtMs ≠ correction.effectiveAtMs
  applied : correction.applied = decide (l.Correctable s.sourceRef c eventId previous correction.effectiveAtMs)
  fresh : correction.mark ∉ l.corrections.map mark

/-- A new event of source `s`. -/
structure Announces (l : QuotaCycleLedger) (s : QuotaCycleSource) (event : QuotaResetEvent) :
    Prop where
  args : EventArgs event.eventId event.effectiveAtMs event.discoveredAtMs
  sourceRef : event.sourceRef = s.sourceRef
  bucketId : event.bucketId = s.bucketId
  fresh : l.events.get? (eventKey s.sourceRef event.eventId) = none

/-- Each move with everything that the code has checked when it makes it. -/
inductive Move (ids : OpaqueIds) : Act → World → World → Prop
  | register {w : World} {identity : String} {s : QuotaCycleSource}
      (hnew : w.ledger.sources.get? identity = none) (hfits : SourceFits identity s)
      (href : s.sourceRef = ids.id w.drawn) (hcycle : s.cycle = none) (hwindow : WindowFits s) :
      Move ids .register w { w with ledger := w.ledger.putSource identity s, drawn := w.drawn + 1 }
  | setRevision {w : World} (revision : ℕ) :
      Move ids .setRevision w (w.setLedger { w.ledger with revision := revision })
  | reviseSource {w : World} {identity : String} {s s' : QuotaCycleSource}
      (hs : w.ledger.sources.get? identity = some s) (hsame : SameScope s s')
      (hwindow : WindowFits s → WindowFits s') :
      Move ids .reviseSource w (w.setLedger (w.ledger.putSource identity s'))
  | openCycle {w : World} {identity : String} {s : QuotaCycleSource} {eventId : String}
      {startsAtMs observedAtMs : ℤ} {endsAtMs : Option ℤ} {basis : QuotaTimeBasis}
      (hs : w.ledger.sources.get? identity = some s) (hcycle : s.cycle = none)
      (hargs : EventArgs eventId startsAtMs observedAtMs) (hends : ∀ e ∈ endsAtMs, startsAtMs < e) :
      Move ids .openCycle w (w.openCycle ids identity s eventId startsAtMs endsAtMs observedAtMs basis)
  | openAtBoundary {w : World} {identity : String} {s : QuotaCycleSource} {boundary nowMs : ℤ}
      (hs : w.ledger.sources.get? identity = some s) (hcycle : s.cycle = none)
      (hboundary : s.nextBoundaryMs = some boundary) (hdue : boundary ≤ nowMs) :
      Move ids .openAtBoundary w
        (w.openCycle ids identity { s with nextBoundaryMs := none } (naturalEventId boundary)
          boundary none nowMs .knownNaturalBoundary)
  | extendCycle {w : World} {identity : String} {s : QuotaCycleSource} {c : AccountQuotaCycle}
      {endsAtMs observedAtMs : ℤ} {cycleRevision : ℕ}
      (hs : w.ledger.sources.get? identity = some s) (hcycle : s.cycle = some c)
      (hrevision : cycleRevision = c.cycleRevision ∨ 0 < cycleRevision)
      (hobserved : c.observedAtMs ≤ observedAtMs) (hends : observedAtMs < endsAtMs) :
      Move ids .extendCycle w (w.setLedger (w.ledger.putSource identity { s with
        cycle := some { c with
          endsAtMs := some endsAtMs, cycleRevision := cycleRevision, observedAtMs := observedAtMs } }))
  | quarantine {w : World} {identity : String} {s : QuotaCycleSource} {c : AccountQuotaCycle}
      {eventId : String} {previous : QuotaResetEvent} {correction : QuotaResetCorrection}
      (hs : w.ledger.sources.get? identity = some s) (hcycle : s.cycle = some c)
      (hcorrects : Corrects w.ledger s c eventId previous correction)
      (hkept : correction.applied = false) :
      Move ids (.quarantine (previous.status = .committed)) w (w.quarantineEvent previous correction)
  | moveCycle {w : World} {identity : String} {s : QuotaCycleSource} {c : AccountQuotaCycle}
      {eventId : String} {previous : QuotaResetEvent} {correction : QuotaResetCorrection}
      {basis : QuotaTimeBasis}
      (hs : w.ledger.sources.get? identity = some s) (hcycle : s.cycle = some c)
      (hcorrects : Corrects w.ledger s c eventId previous correction)
      (happlied : correction.applied = true) :
      Move ids .moveCycle w (w.moveCycle identity s c previous correction basis)
  | advanceCycle {w : World} {identity : String} {s : QuotaCycleSource} {c : AccountQuotaCycle}
      {event : QuotaResetEvent}
      (hs : w.ledger.sources.get? identity = some s) (hcycle : s.cycle = some c)
      (hevent : Announces w.ledger s event) (hstatus : event.status = .committed)
      (hlater : c.startsAtMs < event.effectiveAtMs) (hroom : c.cycleSequence + 1 ≤ u64Max) :
      Move ids .advanceCycle w (w.advanceCycle ids identity s c (c.cycleSequence + 1) event)
  | exhaustSequence {w : World} {identity : String} {s : QuotaCycleSource} {c : AccountQuotaCycle}
      (hs : w.ledger.sources.get? identity = some s) (hcycle : s.cycle = some c)
      (hfull : u64Max < c.cycleSequence + 1) :
      Move ids .exhaustSequence w (w.exhaustSequence ids identity s c)
  | fileEvent {w : World} {identity : String} {s : QuotaCycleSource} {c : AccountQuotaCycle}
      {event : QuotaResetEvent}
      (hs : w.ledger.sources.get? identity = some s) (hcycle : s.cycle = some c)
      (hevent : Announces w.ledger s event)
      (hfiled : event.status = .historical ∧ event.cycleId = "" ∧ event.effectiveAtMs < c.startsAtMs ∨
        event.status = .committed ∧ event.cycleId = c.cycleId ∧ event.effectiveAtMs = c.startsAtMs) :
      Move ids .fileEvent w (w.fileEvent event)

variable {sourceRef identity eventId : String} {s : QuotaCycleSource} {w : World} {c : AccountQuotaCycle}
  {previous : QuotaResetEvent} {o : QuotaWindowObservation}

theorem sourceEntry_some {l : QuotaCycleLedger} (h : l.sourceEntry sourceRef = some (identity, s)) :
    l.sources.get? identity = some s ∧ s.sourceRef = sourceRef := by
  unfold sourceEntry at h
  refine ⟨mem_entries_iff.mp (List.mem_of_find?_eq_some h), ?_⟩
  simpa using List.find?_some h

/-! ## A reset is at most one move -/

/-- A second time for a committed event, under the right fence, that the code does not apply. -/
def Quarantines (l : QuotaCycleLedger) (sourceRef : String) (fence : QuotaSourceFence)
    (eventId : String) (effectiveAtMs discoveredAtMs : ℤ) : Prop :=
  EventArgs eventId effectiveAtMs discoveredAtMs ∧
    ∃ identity s c previous, l.sources.get? identity = some s ∧ s.sourceRef = sourceRef ∧
      s.fence = fence ∧ s.cycle = some c ∧
      l.events.get? (eventKey sourceRef eventId) = some previous ∧
      previous.status = .committed ∧ previous.effectiveAtMs ≠ effectiveAtMs ∧
      ¬l.Correctable sourceRef c eventId previous effectiveAtMs

variable (ids : OpaqueIds)

variable (basis : QuotaTimeBasis)

theorem correctEvent_cases {effectiveAtMs discoveredAtMs : ℤ}
    (hs : w.ledger.sources.get? identity = some s) (hcycle : s.cycle = some c)
    (hargs : EventArgs eventId effectiveAtMs discoveredAtMs)
    (hevent : w.ledger.events.get? (eventKey s.sourceRef eventId) = some previous)
    (hmoved : previous.effectiveAtMs ≠ effectiveAtMs) :
    w.correctEvent identity s c previous eventId effectiveAtMs discoveredAtMs basis = (.ok false, w) ∨
    (∃ correction, w.correctEvent identity s c previous eventId effectiveAtMs discoveredAtMs basis =
        (.ok true, w.moveCycle identity s c previous correction basis) ∧
      Move ids .moveCycle w (w.moveCycle identity s c previous correction basis)) ∨
    ∃ correction, w.correctEvent identity s c previous eventId effectiveAtMs discoveredAtMs basis =
        (.ok false, w.quarantineEvent previous correction) ∧
      Corrects w.ledger s c eventId previous correction ∧ correction.applied = false ∧
      correction.effectiveAtMs = effectiveAtMs ∧ correction.discoveredAtMs = discoveredAtMs := by
  unfold correctEvent
  dsimp only
  split
  · exact .inl rfl
  · rename_i hfresh
    split
    · rename_i happlied
      have hcorrects : Corrects w.ledger s c eventId previous _ := ⟨hargs, rfl, hevent, rfl, hmoved, rfl, hfresh⟩
      exact .inr (.inl ⟨_, rfl, .moveCycle hs hcycle hcorrects happlied⟩)
    · rename_i hkept
      refine .inr (.inr ⟨_, rfl, ⟨hargs, rfl, hevent, rfl, hmoved, rfl, hfresh⟩, ?_, rfl, rfl⟩)
      simpa using hkept

theorem recordEvent_move {effectiveAtMs discoveredAtMs : ℤ}
    (hs : w.ledger.sources.get? identity = some s) (hcycle : s.cycle = some c)
    (hargs : EventArgs eventId effectiveAtMs discoveredAtMs)
    (hfresh : w.ledger.events.get? (eventKey s.sourceRef eventId) = none) :
    ∃ a, (a = .advanceCycle ∨ a = .exhaustSequence ∨ a = .fileEvent) ∧ Move ids a w
      (w.recordEvent ids identity s c eventId effectiveAtMs discoveredAtMs basis).2 := by
  unfold recordEvent
  split
  · rename_i hlater
    cases hsequence : checkedAddU64 c.cycleSequence 1 with
    | none =>
      refine ⟨_, .inr (.inl rfl), .exhaustSequence hs hcycle ?_⟩
      by_contra hroom
      have hsome := checkedAddU64_eq_some.mpr ⟨not_lt.mp hroom, rfl⟩
      rw [hsequence] at hsome
      cases hsome
    | some sequence =>
      obtain ⟨hroom, rfl⟩ := checkedAddU64_eq_some.mp hsequence
      exact ⟨_, .inl rfl, .advanceCycle hs hcycle ⟨hargs, rfl, rfl, hfresh⟩ rfl hlater hroom⟩
  · rename_i hlater
    split
    · rename_i hearlier
      exact ⟨_, .inr (.inr rfl), .fileEvent hs hcycle ⟨hargs, rfl, rfl, hfresh⟩ (.inl ⟨rfl, rfl, hearlier⟩)⟩
    · rename_i hearlier
      refine ⟨_, .inr (.inr rfl), .fileEvent hs hcycle ⟨hargs, rfl, rfl, hfresh⟩ (.inr ⟨rfl, rfl, ?_⟩)⟩
      show effectiveAtMs = c.startsAtMs
      omega

/-- A reset ends in one of its exits, with the move that it has made. -/
theorem applyReset_cases (w : World) (sourceRef : String)
    (fence : QuotaSourceFence) (eventId : String) (effectiveAtMs discoveredAtMs : ℤ) (basis : QuotaTimeBasis) :
    (w.applyReset ids sourceRef fence eventId effectiveAtMs discoveredAtMs basis).2 = w ∨
    (∃ a, (∀ b, a ≠ .quarantine b) ∧ Move ids a w
      (w.applyReset ids sourceRef fence eventId effectiveAtMs discoveredAtMs basis).2) ∨
    ∃ identity s c previous correction, w.ledger.sourceEntry sourceRef = some (identity, s) ∧
      s.fence = fence ∧ s.cycle = some c ∧
      w.applyReset ids sourceRef fence eventId effectiveAtMs discoveredAtMs basis =
        (.ok false, w.quarantineEvent previous correction) ∧
      Corrects w.ledger s c eventId previous correction ∧ correction.applied = false ∧
      correction.effectiveAtMs = effectiveAtMs ∧ correction.discoveredAtMs = discoveredAtMs := by
  unfold applyReset
  split
  · exact .inl rfl
  · rename_i hbad
    push Not at hbad
    have hargs : EventArgs eventId effectiveAtMs discoveredAtMs := ⟨hbad.1, hbad.2.1, hbad.2.2.1, hbad.2.2.2⟩
    cases hentry : w.ledger.sourceEntry sourceRef with
    | none => exact .inl rfl
    | some entry =>
      obtain ⟨identity, s⟩ := entry
      obtain ⟨hs, rfl⟩ := sourceEntry_some hentry
      dsimp only
      split
      · exact .inl rfl
      · rename_i hfence
        cases hcycle : s.cycle with
        | none =>
          refine .inr (.inl ⟨.openCycle, fun b => Act.noConfusion, .openCycle hs hcycle hargs ?_⟩)
          intro e he
          simpa using (mem_filter_iff.mp he).2
        | some c =>
          cases hevent : w.ledger.events.get? (eventKey s.sourceRef eventId) with
          | none =>
            obtain ⟨a, ha, hmove⟩ := recordEvent_move ids basis hs hcycle hargs hevent
            refine .inr (.inl ⟨a, fun b hb => ?_, hmove⟩)
            subst hb
            simp at ha
          | some previous =>
            dsimp only
            split
            · exact .inl rfl
            · rename_i hmoved
              rcases correctEvent_cases ids basis hs hcycle hargs hevent hmoved with
                heq | ⟨correction, heq, hmove⟩ | ⟨correction, heq, hcorrects, hkept, heff, hdisc⟩
              · exact .inl (by rw [heq])
              · rw [heq]
                exact .inr (.inl ⟨.moveCycle, fun b => Act.noConfusion, hmove⟩)
              · exact .inr (.inr ⟨identity, s, c, previous, correction, rfl, not_not.mp hfence, hcycle,
                  heq, hcorrects, hkept, heff, hdisc⟩)

/-! ## An observation never quarantines an event and returns

When the reset that an observation implies does not move the cycle, the next call of `observe` finds
the same reset pending, and so does every call after it. -/

theorem noteWindow_self (hs : w.ledger.sources.get? identity = some s)
    (hboundary : s.nextBoundaryMs = some o.endsAtMs) (hobserved : s.lastObservedAtMs = o.observedAtMs) :
    w.noteWindow identity s o = w := by
  have hsame : { s with nextBoundaryMs := some o.endsAtMs, lastObservedAtMs := o.observedAtMs } = s := by
    rw [← hboundary, ← hobserved]
  have hput : w.ledger.putSource identity s = w.ledger := by
    unfold putSource
    rw [insert_self hs]
  unfold noteWindow
  rw [hsame, hput]
  dsimp only
  rw [if_neg (by simp [hboundary, hobserved])]
  rfl

theorem sourceEntry_noteWindow (h : w.ledger.sourceEntry sourceRef = some (identity, s)) :
    (w.noteWindow identity s o).ledger.sourceEntry sourceRef = some (identity,
      { s with nextBoundaryMs := some o.endsAtMs, lastObservedAtMs := o.observedAtMs }) := by
  have hput : (w.ledger.putSource identity
      { s with nextBoundaryMs := some o.endsAtMs, lastObservedAtMs := o.observedAtMs }).sourceEntry
        sourceRef = some (identity,
      { s with nextBoundaryMs := some o.endsAtMs, lastObservedAtMs := o.observedAtMs }) := by
    refine find?_insert_of_find? h ?_
    simpa using (sourceEntry_some h).2
  unfold noteWindow
  split
  · exact hput
  · exact hput

/-- The observation is noted and its reset is pending. -/
structure Pending (w : World) (sourceRef : String) (fence : QuotaSourceFence)
    (o : QuotaWindowObservation) (identity : String) (s : QuotaCycleSource) (c : AccountQuotaCycle)
    (reset : String × ℤ × QuotaTimeBasis) : Prop where
  valid : o.validateEnd = .ok ()
  start : ∃ inferredStart, windowStart o = .ok inferredStart
  entry : w.ledger.sourceEntry sourceRef = some (identity, s)
  fence_eq : s.fence = fence
  bucket : s.bucketId = o.bucketId
  boundary : s.nextBoundaryMs = some o.endsAtMs
  observed : s.lastObservedAtMs = o.observedAtMs
  cycle : s.cycle = some c
  newer : c.observedAtMs ≤ o.observedAtMs
  reset_eq : pendingReset c o = some reset

theorem observe_pending {ids : OpaqueIds} {w' : World} {fence : QuotaSourceFence}
    {reset : String × ℤ × QuotaTimeBasis} {b : Bool} (h : Pending w sourceRef fence o identity s c reset)
    (hreset : w.applyReset ids sourceRef fence reset.1 reset.2.1 o.observedAtMs reset.2.2 = (.ok b, w')) (stack : ℕ) :
    w.observe ids (stack + 1) sourceRef fence o =
      (w'.observe ids stack sourceRef fence o).map fun r => (r.1.map fun _ => true, r.2) := by
  obtain ⟨inferredStart, hstart⟩ := h.start
  have hs := (sourceEntry_some h.entry).1
  rw [observe]
  simp only [h.valid, hstart, h.entry, h.fence_eq, h.bucket, h.observed, h.cycle, ne_eq,
    not_true_eq_false, if_false, lt_irrefl, noteWindow_self hs h.boundary h.observed,
    not_lt.mpr h.newer, h.reset_eq, hreset]

theorem observe_stuck {ids : OpaqueIds} {fence : QuotaSourceFence} {reset : String × ℤ × QuotaTimeBasis}
    {b : Bool} (h : Pending w sourceRef fence o identity s c reset)
    (hreset : w.applyReset ids sourceRef fence reset.1 reset.2.1 o.observedAtMs reset.2.2 = (.ok b, w))
    (stack : ℕ) : w.observe ids stack sourceRef fence o = none := by
  induction stack with
  | zero => rfl
  | succ stack ih => rw [observe_pending h hreset stack, ih, map_none]

theorem correctable_quarantineEvent {correction : QuotaResetCorrection}
    (hevent : w.ledger.events.get? correction.eventKey = some previous) (effectiveAtMs : ℤ) :
    (w.quarantineEvent previous correction).ledger.Correctable sourceRef c eventId
        { previous with status := .needsReconcile } effectiveAtMs ↔
      w.ledger.Correctable sourceRef c eventId previous effectiveAtMs := by
  unfold Correctable
  by_cases hcycle : previous.cycleId = c.cycleId
  · have hbound : (w.quarantineEvent previous correction).ledger.earlierBoundary sourceRef c =
        w.ledger.earlierBoundary sourceRef c := by
      unfold earlierBoundary
      congr 2
      exact filter_values_insert hevent (by simp [hcycle]) (by simp)
    rw [hbound]
  · simp [hcycle]

theorem applyReset_quarantined {correction : QuotaResetCorrection}
    (hentry : w.ledger.sourceEntry s.sourceRef = some (identity, s)) (hcycle : s.cycle = some c)
    (hcorrects : Corrects w.ledger s c eventId previous correction) (hkept : correction.applied = false) :
    (w.quarantineEvent previous correction).applyReset ids s.sourceRef s.fence eventId
      correction.effectiveAtMs correction.discoveredAtMs basis =
      (.ok false, w.quarantineEvent previous correction) := by
  have hargs : ¬(eventId = "" ∨ 256 < eventId.utf8ByteSize ∨ correction.effectiveAtMs < 0 ∨
      correction.discoveredAtMs < correction.effectiveAtMs) := by
    push Not
    exact ⟨hcorrects.args.nonempty, hcorrects.args.short, hcorrects.args.nonneg, hcorrects.args.discovered⟩
  have hentry' : (w.quarantineEvent previous correction).ledger.sourceEntry s.sourceRef = some (identity, s) := hentry
  have hevent : (w.quarantineEvent previous correction).ledger.events.get?
      (eventKey s.sourceRef eventId) = some { previous with status := .needsReconcile } := by
    rw [← hcorrects.key]
    exact get?_insert_self _ _ _
  have hrecorded : (⟨eventKey s.sourceRef eventId, previous.effectiveAtMs, correction.effectiveAtMs,
      correction.discoveredAtMs, (w.quarantineEvent previous correction).ledger.Correctable s.sourceRef c
        eventId { previous with status := .needsReconcile } correction.effectiveAtMs⟩ :
      QuotaResetCorrection).mark ∈ (w.quarantineEvent previous correction).ledger.corrections.map mark := by
    have hlast : correction ∈ (w.quarantineEvent previous correction).ledger.corrections := by
      simp [quarantineEvent, setLedger, putEvent, bumpRevision]
    refine List.mem_map.mpr ⟨correction, hlast, ?_⟩
    have happlied := hcorrects.applied
    rw [hkept] at happlied
    simp only [mark, hcorrects.key, hcorrects.origin, hkept, happlied, correctable_quarantineEvent hcorrects.event]
  unfold applyReset
  rw [if_neg hargs, hentry']
  simp only [ne_eq, not_true_eq_false, if_false, hcycle, hevent, if_neg hcorrects.moved]
  unfold correctEvent
  exact if_pos hrecorded

/-! ## The moves of a call -/

section
variable {ids : OpaqueIds} {P : World → Act → Prop}

def Harmless (a : Act) : Prop := ∀ b, a ≠ .quarantine b

variable {w : World} {sourceRef identity : String} {fence : QuotaSourceFence} {o : QuotaWindowObservation}
  {s : QuotaCycleSource}

theorem applyReset_trace {eventId : String} {effectiveAtMs discoveredAtMs : ℤ} {basis : QuotaTimeBasis}
    (hP : ∀ a, Harmless a → P w a) (hquarantine : ∀ b, (b = true →
      Quarantines w.ledger sourceRef fence eventId effectiveAtMs discoveredAtMs) → P w (.quarantine b)) :
    Trace (Move ids) P w (w.applyReset ids sourceRef fence eventId effectiveAtMs discoveredAtMs basis).2 := by
  rcases applyReset_cases ids w sourceRef fence eventId effectiveAtMs discoveredAtMs basis with
    hsame | ⟨a, ha, hmove⟩ |
      ⟨identity, s, c, previous, correction, hentry, hfence, hcycle, heq, hcorrects, hkept, heff, hdisc⟩
  · rw [hsame]
    exact .nil w
  · exact .single (hP a ha) hmove
  · obtain ⟨hs, rfl⟩ := sourceEntry_some hentry
    rw [heq]
    refine .single (hquarantine _ fun hcommitted => ?_) (.quarantine hs hcycle hcorrects hkept)
    have happlied := hcorrects.applied
    rw [hkept, heff] at happlied
    refine ⟨heff ▸ hdisc ▸ hcorrects.args, identity, s, c, previous, hs, rfl, hfence, hcycle,
      hcorrects.key ▸ hcorrects.event, by simpa using hcommitted, heff ▸ hcorrects.moved,
      by simpa using happlied⟩

theorem decimal_eventId_short {kind : String} {n : ℤ} (hkind : kind.utf8ByteSize ≤ 100) (hn : 0 ≤ n)
    (hmax : n ≤ i64Max) : (kind ++ toString n).utf8ByteSize ≤ 256 := by
  have hdigits := Text.utf8ByteSize_toString_le (n := n) (k := 19) hn (by omega) (by unfold i64Max at hmax; omega)
  rw [String.utf8ByteSize_append]
  omega

theorem decimal_eventId_nonempty {kind : String} (n : ℤ) (hkind : kind.utf8ByteSize ≠ 0) :
    kind ++ toString n ≠ "" := by
  intro h
  have hsize := congrArg String.utf8ByteSize h
  rw [String.utf8ByteSize_append, String.utf8ByteSize_empty] at hsize
  omega

theorem validateEnd_ok (h : o.validateEnd = .ok ()) : 0 ≤ o.observedAtMs ∧ o.observedAtMs < o.endsAtMs := by
  unfold QuotaWindowObservation.validateEnd at h
  rw [ensure_eq_ok] at h
  exact ⟨h.2.1, h.2.2.1⟩

theorem windowStart_some {start : ℤ} (h : windowStart o = .ok (some start)) :
    0 ≤ start ∧ start ≤ o.observedAtMs ∧ start < o.endsAtMs := by
  unfold windowStart at h
  split at h
  · rename_i start' hstart
    cases h
    unfold QuotaWindowObservation.start at hstart
    obtain ⟨-, -, hstart⟩ := bind_eq_ok.mp hstart
    obtain ⟨inferred, -, hstart⟩ := bind_eq_ok.mp hstart
    obtain ⟨u, hfits, hstart⟩ := bind_eq_ok.mp hstart
    rw [pure_eq_ok] at hstart
    subst hstart
    rw [ensure_eq_ok] at hfits
    exact ⟨hfits.2.1, hfits.2.2.1, hfits.2.2.2.1⟩
  · cases h
  · cases h

theorem noteWindow_trace (hP : ∀ w a, Harmless a → P w a) (hs : w.ledger.sources.get? identity = some s)
    (hvalid : o.validateEnd = .ok ()) (hmax : o.endsAtMs ≤ i64Max) :
    Trace (Move ids) P w (w.noteWindow identity s o) := by
  obtain ⟨hobserved, hends⟩ := validateEnd_ok hvalid
  have hrevise : Move ids .reviseSource w (w.setLedger (w.ledger.putSource identity
      { s with nextBoundaryMs := some o.endsAtMs, lastObservedAtMs := o.observedAtMs })) := by
    refine .reviseSource hs ⟨rfl, rfl, rfl, rfl, rfl⟩ fun _ => ⟨hobserved, fun t ht => ?_⟩
    cases ht
    exact ⟨by omega, hmax⟩
  unfold noteWindow
  split
  · exact .cons _ (hP _ _ fun b => Act.noConfusion) hrevise
      (.single (hP _ _ fun b => Act.noConfusion) (.setRevision _))
  · exact .single (hP _ _ fun b => Act.noConfusion) hrevise

theorem corroborate_trace (hP : ∀ w a, Harmless a → P w a) {c : AccountQuotaCycle}
    (hs : w.ledger.sources.get? identity = some s) (hcycle : s.cycle = some c)
    (hnewer : c.observedAtMs ≤ o.observedAtMs) (hends : o.observedAtMs < o.endsAtMs) :
    Trace (Move ids) P w (w.corroborate identity s c o) := by
  unfold corroborate
  split
  · have hextend : Move ids .extendCycle w _ :=
      .extendCycle hs hcycle (.inr (saturatingSucc_pos c.cycleRevision)) hnewer hends
    exact .cons _ (hP _ _ fun b => Act.noConfusion) hextend
      (.single (hP _ _ fun b => Act.noConfusion) (.setRevision _))
  · rename_i hsame
    rw [ne_eq, not_not] at hsame
    have hextend : Move ids .extendCycle w _ := .extendCycle hs hcycle (.inl rfl) hnewer hends
    rw [← hsame] at hextend
    exact .single (hP _ _ fun b => Act.noConfusion) hextend

theorem openCycle_observed_move {start : ℤ} (hs : w.ledger.sources.get? identity = some s)
    (hcycle : s.cycle = none) (hvalid : o.validateEnd = .ok ()) (hstart : windowStart o = .ok (some start))
    (hmax : o.endsAtMs ≤ i64Max) :
    Move ids .openCycle w (w.openCycle ids identity s ("initial:" ++ toString o.endsAtMs) start
      (some o.endsAtMs) o.observedAtMs o.basis) := by
  obtain ⟨hobserved, hends⟩ := validateEnd_ok hvalid
  obtain ⟨hnonneg, hle, hlt⟩ := windowStart_some hstart
  refine .openCycle hs hcycle ⟨decimal_eventId_nonempty _ (by decide),
    decimal_eventId_short (by decide) (by omega) hmax, hnonneg, hle⟩ fun e he => ?_
  cases he
  exact hlt

section
variable (hP : ∀ w a, Harmless a → P w a)
include hP

theorem pendingReset_trace (stack : ℕ) {w' : World} {c : AccountQuotaCycle}
    {reset : String × ℤ × QuotaTimeBasis} {res : Except QuotaError Bool}
    (h : Pending w sourceRef fence o identity s c reset)
    (hreset : w.applyReset ids sourceRef fence reset.1 reset.2.1 o.observedAtMs reset.2.2 = (res, w'))
    (hreturns : ∀ b, res = .ok b → w'.observe ids stack sourceRef fence o ≠ none) : Trace (Move ids) P w w' := by
  have hcases := applyReset_cases ids w sourceRef fence reset.1 reset.2.1 o.observedAtMs reset.2.2
  rw [hreset] at hcases
  obtain hsame | ⟨a, ha, hmove⟩ |
    ⟨identity', s', c', previous, correction, hentry, hfence, hcycle, heq, hcorrects, hkept, heff, hdisc⟩ := hcases
  · subst hsame
    exact .nil _
  · exact .single (hP w a ha) hmove
  · exfalso
    obtain ⟨rfl, rfl⟩ := Prod.mk.inj heq
    have hsource := h.entry.symm.trans hentry
    obtain ⟨rfl, rfl⟩ := Prod.mk.inj (some.inj hsource)
    obtain ⟨hs, href⟩ := sourceEntry_some hentry
    have hagain := applyReset_quarantined ids reset.2.2 (href ▸ hentry) hcycle hcorrects hkept
    rw [href, hfence, heff, hdisc] at hagain
    have hstill : Pending (w.quarantineEvent previous correction) sourceRef fence o identity s c reset :=
      { h with entry := h.entry }
    exact hreturns false rfl (observe_stuck hstill hagain stack)

/-- An observation is a chain of moves, however often it starts again. -/
theorem observe_trace (hmax : o.endsAtMs ≤ i64Max) {stack : ℕ} {r : Outcome Bool}
    (h : w.observe ids stack sourceRef fence o = some r) : Trace (Move ids) P w r.2 := by
  induction stack generalizing w r with
  | zero => cases h
  | succ stack ih =>
    rw [observe] at h
    cases hvalid : o.validateEnd with
    | error e =>
      rw [hvalid] at h
      cases h
      exact .nil w
    | ok u =>
      cases hstart : windowStart o with
      | error e =>
        rw [hvalid, hstart] at h
        cases h
        exact .nil w
      | ok inferredStart =>
        rw [hvalid, hstart] at h
        cases hentry : w.ledger.sourceEntry sourceRef with
        | none =>
          rw [hentry] at h
          cases h
          exact .nil w
        | some entry =>
          obtain ⟨identity, s⟩ := entry
          obtain ⟨hs, href⟩ := sourceEntry_some hentry
          rw [hentry] at h
          dsimp only at h
          split at h
          · cases h
            exact .nil w
          rename_i hfence
          split at h
          · cases h
            exact .nil w
          rename_i hbucket
          split at h
          · cases h
            exact .nil w
          have hentry' := sourceEntry_noteWindow (o := o) hentry
          refine (noteWindow_trace hP hs hvalid hmax).append ?_
          cases hcycle : s.cycle with
          | none =>
            rw [hcycle] at h hentry'
            have hs' := (sourceEntry_some hentry').1
            cases inferredStart with
            | none =>
              cases h
              exact .nil _
            | some start =>
              cases h
              exact .single (hP _ _ fun b => Act.noConfusion) (openCycle_observed_move hs' rfl hvalid hstart hmax)
          | some c =>
            rw [hcycle] at h hentry'
            dsimp only at h
            split at h
            · cases h
              exact .nil _
            rename_i hnewer
            rw [not_lt] at hnewer
            cases hreset : pendingReset c o with
            | none =>
              rw [hreset] at h
              cases h
              have hs' := (sourceEntry_some hentry').1
              exact corroborate_trace hP hs' rfl hnewer (validateEnd_ok hvalid).2
            | some reset =>
              rw [hreset] at h
              dsimp only at h
              have hpending : Pending (w.noteWindow identity s o) sourceRef fence o identity _ c reset :=
                { valid := hvalid, start := ⟨_, hstart⟩, entry := hentry',
                  fence_eq := not_not.mp hfence, bucket := not_not.mp hbucket, boundary := rfl,
                  observed := rfl, cycle := rfl, newer := hnewer, reset_eq := hreset }
              cases happly : (w.noteWindow identity s o).applyReset ids sourceRef fence reset.1 reset.2.1
                o.observedAtMs reset.2.2 with
              | mk res w' =>
                rw [happly] at h
                cases res with
                | error e =>
                  cases h
                  exact pendingReset_trace hP 0 hpending happly fun b hb => by cases hb
                | ok b =>
                  obtain ⟨r', hr', rfl⟩ := map_eq_some_iff.mp h
                  have hrest := ih hr'
                  refine (pendingReset_trace hP stack hpending happly fun _ _ hnone => ?_).append hrest
                  rw [hnone] at hr'
                  cases hr'

theorem setFence_trace (fence : QuotaSourceFence)
    (hs : w.ledger.sources.get? identity = some s) : Trace (Move ids) P w (w.setFence identity s fence).2 := by
  have hfence : Move ids .reviseSource w (w.setLedger (w.ledger.putSource identity { s with fence := fence })) :=
    .reviseSource hs ⟨rfl, rfl, rfl, rfl, rfl⟩ fun h => ⟨h.observed, h.boundary⟩
  unfold setFence
  dsimp only
  split
  · exact .single (hP _ _ fun b => Act.noConfusion) hfence
  · exact .cons _ (hP _ _ fun b => Act.noConfusion) hfence (.single (hP _ _ fun b => Act.noConfusion) (.setRevision _))

theorem registerSource_trace {providerType bucketId : String}
    (hprovider : providerType ≠ "") :
    Trace (Move ids) P w (w.registerSource ids identity providerType bucketId fence).2 := by
  unfold registerSource
  split
  · exact .nil w
  split
  · exact .nil w
  rename_i hargs
  push Not at hargs
  cases hs : w.ledger.sources.get? identity with
  | some s =>
    simp only [sourceOrInsert, hs]
    split
    · exact .nil w
    split
    · exact setFence_trace hP fence hs
    · exact .nil w
  | none =>
    have hregister : Move ids .register w (w.sourceOrInsert ids identity providerType bucketId fence).2 := by
      simp only [sourceOrInsert, hs]
      refine .register hs ⟨hargs.1, ids.nonempty _, hprovider, hargs.2, Nat.one_ne_zero, le_refl 0, ?_⟩
        rfl rfl ⟨le_refl 0, ?_⟩
      · intro t ht
        cases ht
      · intro t ht
        cases ht
    refine .cons _ (hP _ _ fun b => Act.noConfusion) hregister ?_
    simp only [sourceOrInsert, hs]
    split
    · exact .nil _
    split
    · exact setFence_trace hP fence (get?_insert_self _ _ _)
    · exact .nil _

end

theorem advanceEach_trace {nowMs : ℤ} (R : World → List (String × QuotaSourceFence × ℤ) → Prop)
    (hreset : ∀ w d due, R w (d :: due) →
      Trace (Move ids) P w (w.applyReset ids d.1 d.2.1 (naturalEventId d.2.2) d.2.2 nowMs
        .knownNaturalBoundary).2 ∧ R (w.applyReset ids d.1 d.2.1 (naturalEventId d.2.2) d.2.2 nowMs
        .knownNaturalBoundary).2 due) {changed : Bool} {due : List (String × QuotaSourceFence × ℤ)} (hR : R w due) :
    Trace (Move ids) P w (advanceEach ids nowMs w changed due).2 := by
  induction due generalizing w changed with
  | nil => exact .nil w
  | cons d due ih =>
    obtain ⟨htrace, hR'⟩ := hreset w d due hR
    rw [advanceEach]
    cases hd : w.applyReset ids d.1 d.2.1 (naturalEventId d.2.2) d.2.2 nowMs
        .knownNaturalBoundary with
    | mk res w' =>
      rw [hd] at htrace hR'
      cases res with
      | error e => exact htrace
      | ok advanced => exact htrace.append (ih hR')

theorem clearBoundary_trace (hP : ∀ w a, Harmless a → P w a) (w : World) (sourceRef : String) :
    Trace (Move ids) P w (w.clearBoundary sourceRef) := by
  unfold clearBoundary
  cases hentry : w.ledger.sourceEntry sourceRef with
  | none => exact .nil w
  | some entry =>
    refine .single (hP _ _ fun b => Act.noConfusion)
      (.reviseSource (sourceEntry_some hentry).1 ⟨rfl, rfl, rfl, rfl, rfl⟩ fun h => ⟨h.observed, ?_⟩)
    intro t ht
    cases ht

theorem advanceSourceDue_trace (hP : ∀ w a, Harmless a → P w a) {nowMs : ℤ}
    (hquarantine : ∀ b identity s boundary, w.ledger.sources.get? identity = some s → s.sourceRef = sourceRef →
      dueBoundary s nowMs = some boundary →
      (b = true → Quarantines w.ledger sourceRef s.fence (naturalEventId boundary) boundary nowMs) →
      P w (.quarantine b)) : Trace (Move ids) P w (w.advanceSourceDue ids sourceRef nowMs).2 := by
  unfold advanceSourceDue
  cases hentry : w.ledger.sourceEntry sourceRef with
  | none => exact .nil w
  | some entry =>
    obtain ⟨identity, s⟩ := entry
    obtain ⟨hs, href⟩ := sourceEntry_some hentry
    dsimp only
    cases hdue : dueBoundary s nowMs with
    | none => exact .nil w
    | some boundary =>
      cases hcycle : s.cycle with
      | none =>
        unfold dueBoundary at hdue
        rw [hcycle, bind_none, none_or, filter_eq_some_iff] at hdue
        exact .single (hP _ _ fun b => Act.noConfusion) (.openAtBoundary hs hcycle hdue.1 (by simpa using hdue.2))
      | some c =>
        have htrace : Trace (Move ids) P w (w.applyReset ids sourceRef s.fence
            (naturalEventId boundary) boundary nowMs .knownNaturalBoundary).2 :=
          applyReset_trace (hP w) fun b hb => hquarantine b identity s boundary hs href hdue hb
        dsimp only
        cases hreset : w.applyReset ids sourceRef s.fence (naturalEventId boundary) boundary nowMs
            .knownNaturalBoundary with
        | mk res w' =>
          rw [hreset] at htrace
          cases res with
          | error e => exact htrace
          | ok changed =>
            cases changed with
            | false => exact htrace
            | true => exact htrace.append (clearBoundary_trace hP w' sourceRef)

end

theorem step_trace {ids : OpaqueIds} {stack : ℕ} {w w' : World} {op : Op} (htyped : op.Typed)
    (h : step ids stack w op = some w') : Trace (Move ids) (fun _ _ => True) w w' := by
  cases op with
  | registerSource identity providerType bucketId fence =>
    cases h
    exact registerSource_trace (fun _ _ _ => trivial) htyped
  | observe sourceRef fence o =>
    obtain ⟨r, hr, rfl⟩ := map_eq_some_iff.mp h
    exact observe_trace (fun _ _ _ => trivial) htyped.2.1.2 hr
  | applyReset sourceRef fence eventId effectiveAtMs discoveredAtMs basis =>
    cases h
    exact applyReset_trace (fun _ _ => trivial) fun _ _ => trivial
  | advanceDue nowMs =>
    cases h
    refine advanceEach_trace (fun _ _ => True) (fun w d due _ => ⟨?_, trivial⟩) trivial
    exact applyReset_trace (fun _ _ => trivial) fun _ _ => trivial
  | advanceSourceDue sourceRef nowMs =>
    cases h
    exact advanceSourceDue_trace (fun _ _ _ => trivial) fun _ _ _ _ _ _ _ _ => trivial

end CcSwitchServer.QuotaCycle
