import CcSwitchServer.ResetCredit.Operations

/-! # What the ledger's own calls leave to the credits

A call of the ledger never touches an operation, and writes events only under identifiers of its own.
-/

namespace CcSwitchServer.QuotaCycle
open Foundations QuotaCycleLedger World

/-! ## Operations, stream and references -/

/-- The operations are left alone. -/
structure Framed (w w' : World) : Prop where
  operations : w'.ledger.operations = w.ledger.operations
  stream : w'.ledger.streamIncarnation = w.ledger.streamIncarnation
  recovery : w'.ledger.redeemRecoveryRequired = w.ledger.redeemRecoveryRequired
  drawn : w.drawn ≤ w'.drawn
  source : ∀ {i s}, w.ledger.sources.get? i = some s →
    ∃ s', w'.ledger.sources.get? i = some s' ∧ s'.sourceRef = s.sourceRef

namespace Framed

theorem refl (w : World) : Framed w w := ⟨rfl, rfl, rfl, le_refl _, fun hs => ⟨_, hs, rfl⟩⟩

theorem trans (w₁ w₂ w₃ : World) (h : Framed w₁ w₂) (h' : Framed w₂ w₃) : Framed w₁ w₃ := by
  refine ⟨h'.operations.trans h.operations, h'.stream.trans h.stream, h'.recovery.trans h.recovery,
    le_trans h.drawn h'.drawn, fun hs => ?_⟩
  obtain ⟨s₂, hs₂, href₂⟩ := h.source hs
  obtain ⟨s₃, hs₃, href₃⟩ := h'.source hs₂
  exact ⟨s₃, hs₃, href₃.trans href₂⟩

end Framed

/-- Different sources have different references, all of them drawn. -/
structure Referenced (ids : OpaqueIds) (drawn : ℕ) (l : QuotaCycleLedger) : Prop where
  drawn_ref : ∀ {i s}, l.sources.get? i = some s → ∃ n < drawn, s.sourceRef = ids.id n
  inj : ∀ {i j s t}, l.sources.get? i = some s → l.sources.get? j = some t → s.sourceRef = t.sourceRef → i = j

namespace Referenced
variable {ids : OpaqueIds} {n m : ℕ} {l : QuotaCycleLedger} {identity : String} {s s' : QuotaCycleSource}

section
variable (h : Referenced ids n l)
include h

theorem mono (hnm : n ≤ m) : Referenced ids m l := by
  refine ⟨fun hs => ?_, h.inj⟩
  obtain ⟨k, hk, href⟩ := h.drawn_ref hs
  exact ⟨k, lt_of_lt_of_le hk hnm, href⟩

theorem register (href : s.sourceRef = ids.id n) :
    Referenced ids (n + 1) (l.putSource identity s) := by
  have hnew : ∀ {i t}, l.sources.get? i = some t → t.sourceRef ≠ s.sourceRef := by
    intro i t ht heq
    obtain ⟨k, hk, hkref⟩ := h.drawn_ref ht
    have hkn := ids.injective (hkref.symm.trans (heq.trans href))
    omega
  refine ⟨fun ht => ?_, fun ht hu hrefs => ?_⟩
  · obtain ⟨rfl, rfl⟩ | ⟨-, ht⟩ := putSource_cases ht
    · exact ⟨n, Nat.lt_succ_self n, href⟩
    · exact (h.mono (Nat.le_succ n)).drawn_ref ht
  · obtain ⟨rfl, rfl⟩ | ⟨-, ht'⟩ := putSource_cases ht
    · obtain ⟨rfl, rfl⟩ | ⟨-, hu'⟩ := putSource_cases hu
      · rfl
      · exact absurd hrefs.symm (hnew hu')
    · obtain ⟨rfl, rfl⟩ | ⟨-, hu'⟩ := putSource_cases hu
      · exact absurd hrefs (hnew ht')
      · exact h.inj ht' hu' hrefs

theorem putSource (hs : l.sources.get? identity = some s)
    (href : s'.sourceRef = s.sourceRef) : Referenced ids n (l.putSource identity s') := by
  have hold : ∀ {i t}, (l.putSource identity s').sources.get? i = some t →
      ∃ t₀, l.sources.get? i = some t₀ ∧ t₀.sourceRef = t.sourceRef := by
    intro i t ht
    obtain ⟨rfl, rfl⟩ | ⟨-, ht⟩ := putSource_cases ht
    · exact ⟨s, hs, href.symm⟩
    · exact ⟨t, ht, rfl⟩
  refine ⟨fun ht => ?_, fun ht hu hrefs => ?_⟩
  · obtain ⟨t₀, ht₀, hrefs⟩ := hold ht
    exact hrefs ▸ h.drawn_ref ht₀
  · obtain ⟨t₀, ht₀, ht⟩ := hold ht
    obtain ⟨u₀, hu₀, hu⟩ := hold hu
    exact h.inj ht₀ hu₀ (ht.trans (hrefs.trans hu.symm))

theorem of_sources {l' : QuotaCycleLedger} (hsources : l'.sources = l.sources) :
    Referenced ids n l' :=
  ⟨fun hs => h.drawn_ref (hsources ▸ hs), fun hs ht => h.inj (hsources ▸ hs) (hsources ▸ ht)⟩

end

end Referenced

variable {ids : OpaqueIds} {a : Act} {w w' : World}

/-- A move registers a source under a new reference, rewrites a source under its old one, or leaves
the sources alone. -/
theorem Move.sources_cases (h : Move ids a w w') :
    (∃ identity s, w.ledger.sources.get? identity = none ∧ s.sourceRef = ids.id w.drawn ∧
      w'.drawn = w.drawn + 1 ∧ w'.ledger.sources = w.ledger.sources.insert identity s) ∨
    w.drawn ≤ w'.drawn ∧ ((∃ identity s s', w.ledger.sources.get? identity = some s ∧
      w'.ledger.sources = w.ledger.sources.insert identity s' ∧ s'.sourceRef = s.sourceRef) ∨
      w'.ledger.sources = w.ledger.sources) := by
  cases h with
  | register hnew hfits href hcycle hwindow => exact .inl ⟨_, _, hnew, href, rfl, rfl⟩
  | setRevision => exact .inr ⟨le_refl _, .inr rfl⟩
  | reviseSource hs hsame hwindow =>
    exact .inr ⟨le_refl _, .inl ⟨_, _, _, hs, rfl, hsame.sourceRef⟩⟩
  | openCycle hs => exact .inr ⟨Nat.le_succ _, .inl ⟨_, _, _, hs, rfl, rfl⟩⟩
  | openAtBoundary hs => exact .inr ⟨Nat.le_succ _, .inl ⟨_, _, _, hs, rfl, rfl⟩⟩
  | extendCycle hs => exact .inr ⟨le_refl _, .inl ⟨_, _, _, hs, rfl, rfl⟩⟩
  | quarantine => exact .inr ⟨le_refl _, .inr rfl⟩
  | moveCycle hs => exact .inr ⟨le_refl _, .inl ⟨_, _, _, hs, rfl, rfl⟩⟩
  | advanceCycle hs => exact .inr ⟨Nat.le_succ _, .inl ⟨_, _, _, hs, rfl, rfl⟩⟩
  | exhaustSequence hs => exact .inr ⟨Nat.le_succ _, .inl ⟨_, _, _, hs, rfl, rfl⟩⟩
  | fileEvent => exact .inr ⟨le_refl _, .inr rfl⟩

theorem Move.referenced (h : Move ids a w w') (hrefs : Referenced ids w.drawn w.ledger) :
    Referenced ids w'.drawn w'.ledger := by
  obtain ⟨identity, s, -, href, hdrawn, hsources⟩ |
    ⟨hdrawn, ⟨identity, s, s', hs, hsources, href⟩ | hsources⟩ := h.sources_cases
  · rw [hdrawn]
    exact (hrefs.register href).of_sources hsources
  · exact ((hrefs.putSource hs href).mono hdrawn).of_sources hsources
  · exact (hrefs.mono hdrawn).of_sources hsources

theorem Move.framed (h : Move ids a w w') : Framed w w' := by
  have hsource : w.drawn ≤ w'.drawn ∧ ∀ {i s}, w.ledger.sources.get? i = some s →
      ∃ s', w'.ledger.sources.get? i = some s' ∧ s'.sourceRef = s.sourceRef := by
    obtain ⟨identity, t, hnew, -, hdrawn, hsources⟩ |
      ⟨hdrawn, ⟨identity, t, t', ht, hsources, href⟩ | hsources⟩ := h.sources_cases
    · refine ⟨by omega, fun {i s} hs => ⟨s, ?_, rfl⟩⟩
      rw [hsources, OrderedMap.get?_insert_of_ne, hs]
      rintro rfl
      rw [hnew] at hs
      cases hs
    · refine ⟨hdrawn, fun {i s} hs => ?_⟩
      rw [hsources]
      exact putSource_of_ref (l := w.ledger) ht href hs
    · exact ⟨hdrawn, fun {i s} hs => ⟨s, hsources ▸ hs, rfl⟩⟩
  cases h <;> exact ⟨rfl, rfl, rfl, hsource.1, hsource.2⟩

section
variable {ids : OpaqueIds} {P : World → Act → Prop} {w w' : World}

theorem framed_of_moves (h : Trace (Move ids) P w w') : Framed w w' := by
  induction h with
  | nil w => exact Framed.refl w
  | cons a _ hmove _ ih => exact Framed.trans _ _ _ hmove.framed ih

theorem referenced_of_moves (h : Trace (Move ids) P w w') (hrefs : Referenced ids w.drawn w.ledger) :
    Referenced ids w'.drawn w'.ledger := by
  induction h with
  | nil w => exact hrefs
  | cons a _ hmove _ ih => exact ih (hmove.referenced hrefs)

end

/-! ## Event identifiers -/

/-- Every event of the ledger has an identifier of the kind `P`. -/
def EventIds (P : String → Prop) (l : QuotaCycleLedger) : Prop := ∀ k e, l.events.get? k = some e → P e.eventId

def MadeUp (P : String → Prop) : Prop :=
  ∀ n : ℤ, P ("initial:" ++ toString n) ∧ P ("natural:" ++ toString n) ∧ P ("upstream:" ++ toString n)

section
variable {ids : OpaqueIds} {P : String → Prop} {w : World}

theorem EventIds.putEvent {l : QuotaCycleLedger} (h : EventIds P l) {key : String}
    {e : QuotaResetEvent} (he : P e.eventId) : EventIds P (l.putEvent key e) := by
  intro k e' he'
  obtain ⟨rfl, rfl⟩ | ⟨-, he'⟩ := putEvent_cases he'
  · exact he
  · exact h k e' he'

theorem recordEvent_eventIds (h : EventIds P w.ledger) {eventId : String} (hid : P eventId)
    (identity : String) (s : QuotaCycleSource) (c : AccountQuotaCycle)
    (effectiveAtMs discoveredAtMs : ℤ) (basis : QuotaTimeBasis) :
    EventIds P (w.recordEvent ids identity s c eventId effectiveAtMs discoveredAtMs basis).2.ledger := by
  unfold recordEvent
  split
  · split
    · exact h
    · exact EventIds.putEvent h hid
  · split
    · exact EventIds.putEvent h hid
    · exact EventIds.putEvent h hid

theorem correctEvent_eventIds (h : EventIds P w.ledger) {previous : QuotaResetEvent}
    (hid : P previous.eventId) (identity eventId : String) (s : QuotaCycleSource)
    (c : AccountQuotaCycle) (effectiveAtMs discoveredAtMs : ℤ) (basis : QuotaTimeBasis) :
    EventIds P (w.correctEvent identity s c previous eventId effectiveAtMs discoveredAtMs basis).2.ledger := by
  unfold correctEvent
  dsimp only
  split
  · exact h
  · split
    · exact EventIds.putEvent (e := previous.moved _) h hid
    · exact EventIds.putEvent (e := { previous with status := .needsReconcile }) h hid

theorem applyReset_eventIds (ids : OpaqueIds) (h : EventIds P w.ledger) {eventId : String} (hid : P eventId)
    (sourceRef : String) (fence : QuotaSourceFence) (effectiveAtMs discoveredAtMs : ℤ) (basis : QuotaTimeBasis) :
    EventIds P (w.applyReset ids sourceRef fence eventId effectiveAtMs discoveredAtMs basis).2.ledger := by
  unfold applyReset
  split
  · exact h
  cases w.ledger.sourceEntry sourceRef with
  | none => exact h
  | some entry =>
    dsimp only
    split
    · exact h
    cases entry.2.cycle with
    | none => exact EventIds.putEvent h hid
    | some c =>
      cases he : w.ledger.events.get? (eventKey sourceRef eventId) with
      | none => exact recordEvent_eventIds h hid _ _ _ _ _ _
      | some previous =>
        dsimp only
        split
        · exact h
        · exact correctEvent_eventIds h (h _ _ he) _ _ _ _ _ _ _

theorem pendingReset_eventId (hP : MadeUp P) {c : AccountQuotaCycle} {o : QuotaWindowObservation}
    {reset : String × ℤ × QuotaTimeBasis} (h : pendingReset c o = some reset) : P reset.1 := by
  unfold pendingReset at h
  split at h
  · cases h
    exact (hP _).2.1
  · obtain ⟨start, -, rfl⟩ := Option.map_eq_some_iff.mp h
    exact (hP start).2.2

theorem observe_eventIds (hP : MadeUp P) {sourceRef : String} {fence : QuotaSourceFence}
    {o : QuotaWindowObservation} {stack : ℕ} (h : EventIds P w.ledger) {r : Outcome Bool}
    (hr : w.observe ids stack sourceRef fence o = some r) : EventIds P r.2.ledger := by
  induction stack generalizing w r with
  | zero => cases hr
  | succ stack ih =>
    have hnote : ∀ identity s, EventIds P (w.noteWindow identity s o).ledger := by
      intro identity s
      unfold noteWindow
      split
      · exact h
      · exact h
    rw [observe] at hr
    split at hr
    · cases hr
      exact h
    · cases hr
      exact h
    cases hentry : w.ledger.sourceEntry sourceRef with
    | none =>
      rw [hentry] at hr
      cases hr
      exact h
    | some entry =>
      obtain ⟨identity, s⟩ := entry
      simp only [hentry] at hr
      split at hr
      · cases hr
        exact h
      split at hr
      · cases hr
        exact h
      split at hr
      · cases hr
        exact h
      cases hcycle : s.cycle with
      | none =>
        simp only [hcycle] at hr
        split at hr
        · cases hr
          exact hnote identity s
        · cases hr
          exact EventIds.putEvent (hnote identity s) (hP _).1
      | some c =>
        simp only [hcycle] at hr
        split at hr
        · cases hr
          exact hnote identity s
        split at hr
        · rename_i eventId effectiveAtMs basis hpending
          have hreset := applyReset_eventIds ids (hnote identity s)
            (pendingReset_eventId hP hpending) sourceRef fence effectiveAtMs o.observedAtMs basis
          split at hr
          · rename_i e w' happly
            cases hr
            rw [happly] at hreset
            exact hreset
          · rename_i b w' happly
            rw [happly] at hreset
            obtain ⟨r', hr', rfl⟩ := Option.map_eq_some_iff.mp hr
            exact ih (r := r') hreset hr'
        · cases hr
          unfold corroborate
          split
          · exact hnote identity s
          · exact hnote identity s

theorem registerSource_events (ids : OpaqueIds) (w : World) (identity providerType bucketId : String)
    (fence : QuotaSourceFence) :
    (w.registerSource ids identity providerType bucketId fence).2.ledger.events = w.ledger.events := by
  have hset : ∀ (w : World) s, (w.setFence identity s fence).2.ledger.events = w.ledger.events := by
    intro w s
    unfold setFence
    dsimp only
    split
    · rfl
    · rfl
  have hinsert : (w.sourceOrInsert ids identity providerType bucketId fence).2.ledger.events = w.ledger.events := by
    unfold sourceOrInsert
    split
    · rfl
    · rfl
  unfold registerSource
  split
  · rfl
  split
  · rfl
  dsimp only
  split
  · exact hinsert
  split
  · exact (hset _ _).trans hinsert
  · exact hinsert

theorem advanceEach_eventIds (hP : MadeUp P) {nowMs : ℤ} {changed : Bool}
    {due : List (String × QuotaSourceFence × ℤ)} (h : EventIds P w.ledger) :
    EventIds P (advanceEach ids nowMs w changed due).2.ledger := by
  induction due generalizing w changed with
  | nil => exact h
  | cons d due ih =>
    have hreset := applyReset_eventIds ids h (hP d.2.2).2.1 d.1 d.2.1 d.2.2 nowMs .knownNaturalBoundary
    rw [advanceEach]
    split
    · rename_i e w' happly
      unfold naturalEventId at happly
      rw [happly] at hreset
      exact hreset
    · rename_i b w' happly
      unfold naturalEventId at happly
      rw [happly] at hreset
      exact ih hreset

theorem advanceSourceDue_eventIds (hP : MadeUp P) {sourceRef : String} {nowMs : ℤ}
    (h : EventIds P w.ledger) : EventIds P (w.advanceSourceDue ids sourceRef nowMs).2.ledger := by
  have hclear : ∀ w : World, EventIds P w.ledger → EventIds P (w.clearBoundary sourceRef).ledger := by
    intro w h
    unfold clearBoundary
    split
    · exact h
    · exact h
  unfold advanceSourceDue
  cases w.ledger.sourceEntry sourceRef with
  | none => exact h
  | some entry =>
    obtain ⟨identity, s⟩ := entry
    dsimp only
    cases dueBoundary s nowMs with
    | none => exact h
    | some boundary =>
      have hreset := applyReset_eventIds ids h (hP boundary).2.1 sourceRef s.fence boundary nowMs .knownNaturalBoundary
      unfold naturalEventId
      cases s.cycle with
      | none => exact EventIds.putEvent h (hP boundary).2.1
      | some c =>
        dsimp only
        cases happly : w.applyReset ids sourceRef s.fence ("natural:" ++ toString boundary) boundary
            nowMs .knownNaturalBoundary with
        | mk res w' =>
          rw [happly] at hreset
          cases res with
          | error e => exact hreset
          | ok changed =>
            cases changed with
            | false => exact hreset
            | true => exact hclear w' hreset

/-- The identifier that a call is given, if it is given one. -/
def Op.Announces (P : String → Prop) : Op → Prop
  | .applyReset _ _ eventId _ _ _ => P eventId
  | _ => True

theorem step_eventIds (hP : MadeUp P) {stack : ℕ} {w' : World} {op : Op} (hop : op.Announces P)
    (h : EventIds P w.ledger) (hstep : step ids stack w op = some w') : EventIds P w'.ledger := by
  cases op with
  | registerSource identity providerType bucketId fence =>
    cases hstep
    intro k e he
    rw [registerSource_events] at he
    exact h k e he
  | observe sourceRef fence o =>
    obtain ⟨r, hr, rfl⟩ := Option.map_eq_some_iff.mp hstep
    exact observe_eventIds hP h hr
  | applyReset sourceRef fence eventId effectiveAtMs discoveredAtMs basis =>
    cases hstep
    exact applyReset_eventIds ids h hop _ _ _ _ _
  | advanceDue nowMs =>
    cases hstep
    exact advanceEach_eventIds hP h
  | advanceSourceDue sourceRef nowMs =>
    cases hstep
    exact advanceSourceDue_eventIds hP h

end

end CcSwitchServer.QuotaCycle
