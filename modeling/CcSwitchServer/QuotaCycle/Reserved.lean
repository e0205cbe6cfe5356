import Std.Data.String.ToInt
import CcSwitchServer.QuotaCycle.Resets

/-! # Identifiers that the ledger keeps for itself

The resets that the ledger derives on its own have identifiers made of their time.
-/

namespace CcSwitchServer.QuotaCycle
open Foundations QuotaCycleLedger World OrderedMap

def upstreamEventId (start : ℤ) : String := "upstream:" ++ toString start

/-- An identifier of the ledger's own. -/
def Reserved (eventId : String) : Prop := ∃ t : ℤ, eventId = naturalEventId t ∨ eventId = upstreamEventId t

theorem naturalEventId_inj {a b : ℤ} (h : naturalEventId a = naturalEventId b) : a = b := by
  unfold naturalEventId at h
  exact Int.repr_injective ((String.append_right_inj _).mp h)

theorem upstreamEventId_inj {a b : ℤ} (h : upstreamEventId a = upstreamEventId b) : a = b := by
  unfold upstreamEventId at h
  exact Int.repr_injective ((String.append_right_inj _).mp h)

theorem naturalEventId_ne_upstream (a b : ℤ) : naturalEventId a ≠ upstreamEventId b := by
  intro h
  have hhead := congrArg (fun id : String => id.toList.head?) h
  simp [naturalEventId, upstreamEventId] at hhead

theorem not_reserved_initial (n : ℤ) : ¬Reserved ("initial:" ++ toString n) := by
  rintro ⟨t, h | h⟩
  · have hhead := congrArg (fun id : String => id.toList.head?) h
    simp [naturalEventId] at hhead
  · have hhead := congrArg (fun id : String => id.toList.head?) h
    simp [upstreamEventId] at hhead

/-- Recorded resets of the ledger's own are over: a natural one lies before the end of the cycle and
not after anything observed, an upstream one is the start of the cycle or bars the way to it. -/
structure Clear (events : OrderedMap String QuotaResetEvent) (s : QuotaCycleSource)
    (c : AccountQuotaCycle) : Prop where
  natural : ∀ {t e}, events.get? (eventKey s.sourceRef (naturalEventId t)) = some e →
    e.effectiveAtMs = t ∧ t ≤ max c.observedAtMs s.lastObservedAtMs ∧ ∀ stop ∈ c.endsAtMs, t < stop
  upstream : ∀ {t e}, events.get? (eventKey s.sourceRef (upstreamEventId t)) = some e →
    e.status = .committed ∧ e.effectiveAtMs = t ∧
      (t < c.startsAtMs ∧ e.cycleId ≠ c.cycleId ∨ t = c.startsAtMs ∧ c.eventId = upstreamEventId t)

/-- No recorded reset is pending again. -/
structure Clears (ids : OpaqueIds) (w : World) : Prop where
  drawn : ∀ {k e}, w.ledger.events.get? k = some e → e.cycleId = "" ∨ ∃ n < w.drawn, e.cycleId = ids.id n
  clear : ∀ {i s c}, w.ledger.sources.get? i = some s → s.cycle = some c → Clear w.ledger.events s c

namespace Clears
variable {ids : OpaqueIds} {w w' : World} {identity : String} {s s' : QuotaCycleSource} {c : AccountQuotaCycle}

theorem default (ids : OpaqueIds) : Clears ids (default ids) :=
  { drawn := fun he => absurd he (Option.some_ne_none _).symm
    clear := fun hs => absurd hs (Option.some_ne_none _).symm }

theorem change (h : Clears ids w) (hsound : Sound ids w) (hs : w.ledger.sources.get? identity = some s)
    (hsources : w'.ledger.sources = w.ledger.sources.insert identity s')
    (hothers : ∀ k, (∀ eventId, k ≠ eventKey s.sourceRef eventId) → w'.ledger.events.get? k = w.ledger.events.get? k)
    (hdrawn : ∀ {k e}, w'.ledger.events.get? k = some e → e.cycleId = "" ∨ ∃ n < w'.drawn, e.cycleId = ids.id n)
    (hclear : ∀ c, s'.cycle = some c → Clear w'.ledger.events s' c) : Clears ids w' := by
  refine ⟨hdrawn, fun {i t d} ht hd => ?_⟩
  rw [hsources] at ht
  obtain ⟨rfl, rfl⟩ | ⟨hi, ht⟩ := Ordered.insert_cases ht
  · exact hclear d hd
  · have hold := h.clear ht hd
    have hkeys : ∀ eventId', w'.ledger.events.get? (eventKey t.sourceRef eventId') =
        w.ledger.events.get? (eventKey t.sourceRef eventId') := by
      intro eventId'
      refine hothers _ fun eventId hkey => ?_
      have hrefs := (eventKey_inj (hsound.kept.noColon ht) (hsound.kept.noColon hs) hkey).1
      exact hi (hsound.loadable.source_inj hs ht hrefs.symm)
    refine ⟨fun {u e} he => ?_, fun {u e} he => ?_⟩
    · rw [hkeys] at he
      exact hold.natural he
    · rw [hkeys] at he
      exact hold.upstream he

theorem changeSource (h : Clears ids w) (hsound : Sound ids w) (hs : w.ledger.sources.get? identity = some s)
    (hsources : w'.ledger.sources = w.ledger.sources.insert identity s')
    (hevents : w'.ledger.events = w.ledger.events) (hdrawn : w.drawn ≤ w'.drawn)
    (hclear : ∀ c, s'.cycle = some c → Clear w.ledger.events s' c) : Clears ids w' := by
  refine h.change hsound hs hsources (fun _ _ => by rw [hevents]) (fun {k e} he => ?_) fun c hc => ?_
  · rw [hevents] at he
    refine (h.drawn he).imp id ?_
    rintro ⟨n, hn, hid⟩
    exact ⟨n, by omega, hid⟩
  · rw [hevents]
    exact hclear c hc

variable {eventId : String} {event : QuotaResetEvent}

theorem changeEvent (h : Clears ids w) (hsound : Sound ids w) (hs : w.ledger.sources.get? identity = some s)
    (hsources : w'.ledger.sources = w.ledger.sources.insert identity s')
    (hevents : w'.ledger.events = w.ledger.events.insert (eventKey s.sourceRef eventId) event)
    (hdrawn : w.drawn ≤ w'.drawn) (hid : event.cycleId = "" ∨ ∃ n < w'.drawn, event.cycleId = ids.id n)
    (hclear : ∀ c, s'.cycle = some c → Clear (w.ledger.events.insert (eventKey s.sourceRef eventId) event) s' c) :
    Clears ids w' := by
  refine h.change hsound hs hsources (fun k hk => ?_) (fun {k e} he => ?_) fun c hc => ?_
  · rw [hevents, get?_insert_of_ne _ _ (hk eventId).symm]
  · rw [hevents, get?_insert] at he
    split at he
    · cases he
      exact hid
    · refine (h.drawn he).imp id ?_
      rintro ⟨n, hn, hidn⟩
      exact ⟨n, by omega, hidn⟩
  · rw [hevents]
    exact hclear c hc

/-! ## The changes one call makes -/

theorem putEvent_other {events : OrderedMap String QuotaResetEvent} {ref id id' : String}
    {e : QuotaResetEvent} (h : id ≠ id') :
    (events.insert (eventKey ref id) e).get? (eventKey ref id') = events.get? (eventKey ref id') :=
  get?_insert_of_ne _ _ fun hkey => h (eventKey_right_inj hkey)

section
variable (h : Clears ids w)
include h

theorem revise (hsound : Sound ids w) (hs : w.ledger.sources.get? identity = some s)
    (hsources : w'.ledger.sources = w.ledger.sources.insert identity s')
    (hevents : w'.ledger.events = w.ledger.events) (hdrawn : w.drawn ≤ w'.drawn)
    (href : s'.sourceRef = s.sourceRef) (hcycle : s'.cycle = s.cycle)
    (hlater : s.lastObservedAtMs ≤ s'.lastObservedAtMs) : Clears ids w' := by
  refine h.changeSource hsound hs hsources hevents hdrawn fun c hc => ?_
  rw [hcycle] at hc
  have hold := h.clear hs hc
  refine ⟨fun {t e} he => ?_, fun {t e} he => ?_⟩
  · rw [href] at he
    obtain ⟨heff, hle, hends⟩ := hold.natural he
    exact ⟨heff, le_trans hle (max_le_max (le_refl _) hlater), hends⟩
  · rw [href] at he
    exact hold.upstream he

theorem register (hcycle : s.cycle = none) :
    Clears ids { w with ledger := w.ledger.putSource identity s, drawn := w.drawn + 1 } := by
  refine ⟨fun {k e} he => ?_, fun {i t c} ht hc => ?_⟩
  · refine (h.drawn he).imp id ?_
    rintro ⟨n, hn, hid⟩
    exact ⟨n, Nat.lt_succ_of_lt hn, hid⟩
  · obtain ⟨rfl, rfl⟩ | ⟨-, ht⟩ := putSource_cases ht
    · rw [hcycle] at hc
      cases hc
    · exact h.clear ht hc

theorem extend (hsound : Sound ids w)
    (hs : w.ledger.sources.get? identity = some s) (hc : s.cycle = some c) {c' : AccountQuotaCycle}
    (hsources : w'.ledger.sources = w.ledger.sources.insert identity { s with cycle := some c' })
    (hevents : w'.ledger.events = w.ledger.events) (hdrawn : w.drawn ≤ w'.drawn)
    (hstart : c'.startsAtMs = c.startsAtMs) (hid : c'.cycleId = c.cycleId)
    (hevent : c'.eventId = c.eventId) (hobserved : c.observedAtMs ≤ c'.observedAtMs)
    (hends : ∀ stop ∈ c'.endsAtMs, max c.observedAtMs s.lastObservedAtMs < stop) :
    Clears ids w' := by
  refine h.changeSource hsound hs hsources hevents hdrawn fun d hd => ?_
  cases hd
  have hold := h.clear hs hc
  refine ⟨fun {t e} he => ?_, fun {t e} he => ?_⟩
  · obtain ⟨heff, hle, -⟩ := hold.natural he
    exact ⟨heff, le_trans hle (max_le_max hobserved (le_refl _)), fun stop hstop =>
      lt_of_le_of_lt hle (hends stop hstop)⟩
  · rw [hstart, hid, hevent]
    exact hold.upstream he

theorem openCycle (hsound : Sound ids w) {source : QuotaCycleSource}
    (hs : w.ledger.sources.get? identity = some s) (hcycle : s.cycle = none)
    (href : source.sourceRef = s.sourceRef) {startsAtMs observedAtMs : ℤ} {endsAtMs : Option ℤ}
    {basis : QuotaTimeBasis} (hstart : startsAtMs ≤ observedAtMs) (hends : ∀ stop ∈ endsAtMs, startsAtMs < stop)
    (hid : ¬Reserved eventId ∨ eventId = naturalEventId startsAtMs) :
    Clears ids (w.openCycle ids identity source eventId startsAtMs endsAtMs observedAtMs basis) := by
  have hkey : eventKey source.sourceRef eventId = eventKey s.sourceRef eventId := by rw [href]
  have hnone : ∀ id, w.ledger.events.get? (eventKey s.sourceRef id) = none :=
    fun id => hsound.fresh_of_unopened hs hcycle id
  have hevents : (w.openCycle ids identity source eventId startsAtMs endsAtMs observedAtMs
      basis).ledger.events = w.ledger.events.insert (eventKey s.sourceRef eventId)
        { eventId := eventId, sourceRef := source.sourceRef, bucketId := source.bucketId,
          effectiveAtMs := startsAtMs, discoveredAtMs := observedAtMs, basis := basis,
          status := .committed, cycleId := ids.id w.drawn } := by
    rw [← hkey]
    rfl
  refine h.changeEvent hsound hs rfl hevents (Nat.le_succ _) (.inr ⟨w.drawn, Nat.lt_succ_self _, rfl⟩) fun c hc => ?_
  · cases hc
    refine ⟨fun {t e} he => ?_, fun {t e} he => ?_⟩
    · dsimp only at he ⊢
      rw [href] at he
      by_cases hsame : eventId = naturalEventId t
      · rw [← hsame, get?_insert_self] at he
        cases he
        obtain hfree | hnatural := hid
        · exact absurd ⟨t, .inl hsame⟩ hfree
        · have ht := naturalEventId_inj (hnatural.symm.trans hsame)
          subst ht
          exact ⟨rfl, le_trans hstart (le_max_left _ _), hends⟩
      · rw [putEvent_other hsame, hnone] at he
        cases he
    · dsimp only at he ⊢
      rw [href] at he
      by_cases hsame : eventId = upstreamEventId t
      · obtain hfree | hnatural := hid
        · exact absurd ⟨t, .inr hsame⟩ hfree
        · exact absurd (hnatural.symm.trans hsame) (naturalEventId_ne_upstream _ _)
      · rw [putEvent_other hsame, hnone] at he
        cases he

/-- A later event opens the next cycle. The time of its discovery is not before anything observed,
unless it is the end of the cycle, which comes after all natural resets. -/
theorem advanceCycle (hsound : Sound ids w) {sequence : ℕ}
    (hs : w.ledger.sources.get? identity = some s) (hc : s.cycle = some c)
    (hstatus : event.status = .committed) (hlater : c.startsAtMs < event.effectiveAtMs)
    (hdiscovered : event.effectiveAtMs ≤ event.discoveredAtMs)
    (hclock : c.observedAtMs ≤ event.discoveredAtMs ∨ c.endsAtMs = some event.effectiveAtMs)
    (hid : ¬Reserved event.eventId ∨ event.eventId = naturalEventId event.effectiveAtMs ∨
      event.eventId = upstreamEventId event.effectiveAtMs) :
    Clears ids (w.advanceCycle ids identity s c sequence event) := by
  have hold := h.clear hs hc
  refine h.changeEvent hsound hs rfl rfl (Nat.le_succ _) (.inr ⟨w.drawn, Nat.lt_succ_self _, rfl⟩) fun d hd => ?_
  cases hd
  refine ⟨fun {t e} he => ?_, fun {t e} he => ?_⟩
  · by_cases hsame : event.eventId = naturalEventId t
    · rw [← hsame, get?_insert_self] at he
      cases he
      have ht : event.effectiveAtMs = t := by
        obtain hfree | hnatural | hupstream := hid
        · exact absurd ⟨t, .inl hsame⟩ hfree
        · exact naturalEventId_inj (hnatural.symm.trans hsame)
        · exact absurd (hsame.symm.trans hupstream) (naturalEventId_ne_upstream _ _)
      subst ht
      refine ⟨rfl, le_trans hdiscovered (le_max_left _ _), fun stop hstop => ?_⟩
      simpa using (Option.mem_filter_iff.mp hstop).2
    · rw [putEvent_other hsame] at he
      obtain ⟨heff, hle, hends⟩ := hold.natural he
      refine ⟨heff, ?_, fun stop hstop => hends stop (Option.mem_filter_iff.mp hstop).1⟩
      obtain hclock | hclock := hclock
      · exact le_trans hle (max_le_max hclock (le_refl _))
      · have hlt := hends _ hclock
        exact le_trans (le_trans hlt.le hdiscovered) (le_max_left _ _)
  · by_cases hsame : event.eventId = upstreamEventId t
    · rw [← hsame, get?_insert_self] at he
      cases he
      have ht : event.effectiveAtMs = t := by
        obtain hfree | hnatural | hupstream := hid
        · exact absurd ⟨t, .inr hsame⟩ hfree
        · exact absurd (hnatural.symm.trans hsame) (naturalEventId_ne_upstream _ _)
        · exact upstreamEventId_inj (hupstream.symm.trans hsame)
      exact ⟨hstatus, ht, .inr ⟨ht.symm, hsame⟩⟩
    · rw [putEvent_other hsame] at he
      obtain ⟨hcommitted, heff, hplace⟩ := hold.upstream he
      refine ⟨hcommitted, heff, .inl ⟨?_, ?_⟩⟩
      · dsimp only
        rcases hplace with ⟨hlt, -⟩ | ⟨heq, -⟩
        · omega
        · omega
      · intro hnew
        obtain hempty | ⟨n, hn, hidn⟩ := h.drawn he
        · exact ids.nonempty w.drawn (hnew.symm.trans hempty)
        · have hdrawn := ids.injective (hidn.symm.trans hnew)
          omega

theorem fileEvent (hsound : Sound ids w) (hs : w.ledger.sources.get? identity = some s)
    (hc : s.cycle = some c) (href : event.sourceRef = s.sourceRef) (hearlier : event.effectiveAtMs ≤ c.startsAtMs)
    (hcycleId : event.cycleId = "" ∨ event.cycleId = c.cycleId)
    (hid : ¬Reserved event.eventId ∨ event.eventId = naturalEventId event.effectiveAtMs) :
    Clears ids (w.fileEvent event) := by
  have hold := h.clear hs hc
  have hfits := hsound.loadable.cycle_fits hs hc
  obtain ⟨own, hown, hopens⟩ := hsound.loadable.cycle_event hs hc
  have hsources : (w.fileEvent event).ledger.sources = w.ledger.sources.insert identity s := (insert_self hs).symm
  have hevents : (w.fileEvent event).ledger.events =
      w.ledger.events.insert (eventKey s.sourceRef event.eventId) event := by
    rw [← href]
    rfl
  refine h.changeEvent hsound hs hsources hevents (le_refl _) ?_ fun d hd => ?_
  · refine hcycleId.elim .inl fun heq => ?_
    rw [heq, ← hopens.1]
    exact h.drawn hown
  · rw [hc] at hd
    cases hd
    refine ⟨fun {t e} he => ?_, fun {t e} he => ?_⟩
    · by_cases hsame : event.eventId = naturalEventId t
      · rw [← hsame, get?_insert_self] at he
        cases he
        obtain hfree | hnatural := hid
        · exact absurd ⟨t, .inl hsame⟩ hfree
        · have ht := naturalEventId_inj (hnatural.symm.trans hsame)
          have hobserved : c.startsAtMs ≤ c.observedAtMs := hfits.2.2.2.2.2.2.2.2.1
          refine ⟨ht, le_trans (by omega) (le_max_left _ _), fun stop hstop => ?_⟩
          have hlt := hfits.2.2.2.2.2.2.2.2.2 stop hstop
          omega
      · rw [putEvent_other hsame] at he
        exact hold.natural he
    · rw [putEvent_other] at he
      · exact hold.upstream he
      · intro hsame
        obtain hfree | hnatural := hid
        · exact hfree ⟨t, .inr hsame⟩
        · exact naturalEventId_ne_upstream _ _ (hnatural.symm.trans hsame)

theorem changeForeign (hsound : Sound ids w) (hs : w.ledger.sources.get? identity = some s)
    (hfree : ¬Reserved eventId) (hsources : w'.ledger.sources = w.ledger.sources)
    (hevents : w'.ledger.events = w.ledger.events.insert (eventKey s.sourceRef eventId) event)
    (hdrawn : w.drawn ≤ w'.drawn) (hid : event.cycleId = "" ∨ ∃ n < w.drawn, event.cycleId = ids.id n) :
    Clears ids w' := by
  have hsame : w'.ledger.sources = w.ledger.sources.insert identity s := by
    rw [hsources, insert_self hs]
  refine h.changeEvent hsound hs hsame hevents hdrawn ?_ fun c hc => ?_
  · refine hid.imp id ?_
    rintro ⟨n, hn, hidn⟩
    exact ⟨n, by omega, hidn⟩
  · have hold := h.clear hs hc
    refine ⟨fun {t e} he => ?_, fun {t e} he => ?_⟩
    · rw [putEvent_other fun heq => hfree ⟨t, .inl heq⟩] at he
      exact hold.natural he
    · rw [putEvent_other fun heq => hfree ⟨t, .inr heq⟩] at he
      exact hold.upstream he

theorem quarantineEvent (hsound : Sound ids w) {previous : QuotaResetEvent}
    {correction : QuotaResetCorrection} (hs : w.ledger.sources.get? identity = some s)
    (hcorrects : Corrects w.ledger s c eventId previous correction) (hfree : ¬Reserved eventId) :
    Clears ids (w.quarantineEvent previous correction) := by
  have hold := h.drawn hcorrects.event
  have hevents : (w.quarantineEvent previous correction).ledger.events =
      w.ledger.events.insert (eventKey s.sourceRef eventId) { previous with status := .needsReconcile } := by
    rw [← hcorrects.key]
    rfl
  exact h.changeForeign hsound hs hfree rfl hevents (le_refl _) hold

theorem moveCycle (hsound : Sound ids w) {previous : QuotaResetEvent}
    {correction : QuotaResetCorrection} {basis : QuotaTimeBasis} (hs : w.ledger.sources.get? identity = some s)
    (hc : s.cycle = some c) (hcorrects : Corrects w.ledger s c eventId previous correction)
    (happlied : correction.applied = true) (hfree : ¬Reserved eventId) :
    Clears ids (w.moveCycle identity s c previous correction basis) := by
  obtain ⟨hcycleId, heventId, -, hbound⟩ := Sound.correctable_of_applied hcorrects happlied
  have hdrawn := h.drawn hcorrects.event
  have hold := h.clear hs hc
  have hevents : (w.moveCycle identity s c previous correction basis).ledger.events =
      w.ledger.events.insert (eventKey s.sourceRef eventId) (previous.moved correction) := by
    rw [← hcorrects.key]
    rfl
  refine h.changeEvent hsound hs rfl hevents (le_refl _) hdrawn fun d hd => ?_
  cases hd
  refine ⟨fun {t e} he => ?_, fun {t e} he => ?_⟩
  · rw [putEvent_other fun heq => hfree ⟨t, .inl heq⟩] at he
    obtain ⟨heff, hle, hends⟩ := hold.natural he
    exact ⟨heff, le_trans hle (max_le_max (le_max_left _ _) (le_refl _)), hends⟩
  · rw [putEvent_other fun heq => hfree ⟨t, .inr heq⟩] at he
    obtain ⟨hstatus, heff, ⟨hlt, hne⟩ | ⟨-, hown⟩⟩ := hold.upstream he
    · refine ⟨hstatus, heff, .inl ⟨?_, hne⟩⟩
      have hbars : Bars w.ledger s.sourceRef c t := ⟨_, e, he, (hsound.ref_eq_of_key hs he).1, hstatus, hne, heff⟩
      exact lt_of_bars hbars hlt hbound
    · exact absurd ⟨t, .inr (heventId ▸ hown)⟩ hfree

end

end Clears

/-! ## Resets, observations and due boundaries -/

/-- A reset that a caller may hand in, or one of the ledger's own where it is due. -/
def Admits (s : QuotaCycleSource) (eventId : String) (effectiveAtMs discoveredAtMs : ℤ) : Prop :=
  (¬Reserved eventId ∧ ∀ c ∈ s.cycle, c.observedAtMs ≤ discoveredAtMs) ∨
  ∃ c ∈ s.cycle, (c.observedAtMs ≤ discoveredAtMs ∨ c.endsAtMs = some effectiveAtMs) ∧
    (eventId = naturalEventId effectiveAtMs ∨ eventId = upstreamEventId effectiveAtMs ∧ c.startsAtMs < effectiveAtMs)

section
variable {ids : OpaqueIds} {w w' : World} {sourceRef eventId identity : String}
  {s : QuotaCycleSource} {c : AccountQuotaCycle} {fence : QuotaSourceFence}
  {effectiveAtMs discoveredAtMs : ℤ} {basis : QuotaTimeBasis}

variable (h : Clears ids w)
include h

theorem Clears.recorded_time (hs : w.ledger.sources.get? identity = some s)
    (hc : s.cycle = some c) {e : QuotaResetEvent} (he : w.ledger.events.get? (eventKey s.sourceRef eventId) = some e)
    (hid : eventId = naturalEventId effectiveAtMs ∨ eventId = upstreamEventId effectiveAtMs) :
    e.effectiveAtMs = effectiveAtMs := by
  obtain rfl | rfl := hid
  · exact ((h.clear hs hc).natural he).1
  · exact ((h.clear hs hc).upstream he).2.1

theorem Clears.recordEvent (hsound : Sound ids w) (hfits : w.ledger.FitsMemory)
    (hs : w.ledger.sources.get? identity = some s) (hc : s.cycle = some c)
    (hdiscovered : effectiveAtMs ≤ discoveredAtMs)
    (hclock : c.observedAtMs ≤ discoveredAtMs ∨ c.endsAtMs = some effectiveAtMs)
    (hid : ¬Reserved eventId ∨ eventId = naturalEventId effectiveAtMs ∨
      eventId = upstreamEventId effectiveAtMs ∧ c.startsAtMs < effectiveAtMs) :
    Clears ids (w.recordEvent ids identity s c eventId effectiveAtMs discoveredAtMs basis).2 := by
  unfold World.recordEvent
  by_cases hlater : c.startsAtMs < effectiveAtMs
  · rw [if_pos hlater]
    cases hsequence : checkedAddU64 c.cycleSequence 1 with
    | none =>
      have hcount := le_trans (hsound.kept.counted hs hc) (eventCount_le_size w.ledger _)
      have hsize : w.ledger.events.size < u64Max := hfits
      have hroom := checkedAddU64_eq_some.mpr ⟨show c.cycleSequence + 1 ≤ u64Max by omega, rfl⟩
      rw [hsequence] at hroom
      cases hroom
    | some sequence =>
      exact h.advanceCycle hsound hs hc rfl hlater hdiscovered hclock (hid.imp_right (Or.imp_right And.left))
  · have hid' : ¬Reserved eventId ∨ eventId = naturalEventId effectiveAtMs := by
      refine hid.imp_right fun hown => hown.resolve_right ?_
      exact fun hupstream => hlater hupstream.2
    have hle : effectiveAtMs ≤ c.startsAtMs := not_lt.mp hlater
    rw [if_neg hlater]
    split
    · exact h.fileEvent hsound hs hc rfl hle (.inl rfl) hid'
    · exact h.fileEvent hsound hs hc rfl hle (.inr rfl) hid'

/-- A reset keeps this when its time is not before the last observation of the cycle. -/
theorem Clears.applyReset (hsound : Sound ids w) (hfits : w.ledger.FitsMemory)
    (hadmits : ∀ {i s}, w.ledger.sources.get? i = some s → s.sourceRef = sourceRef →
      Admits s eventId effectiveAtMs discoveredAtMs) :
    Clears ids (w.applyReset ids sourceRef fence eventId effectiveAtMs discoveredAtMs basis).2 := by
  unfold World.applyReset
  split
  · exact h
  rename_i hbad
  push Not at hbad
  have hargs : EventArgs eventId effectiveAtMs discoveredAtMs := ⟨hbad.1, hbad.2.1, hbad.2.2.1, hbad.2.2.2⟩
  cases hentry : w.ledger.sourceEntry sourceRef with
  | none => exact h
  | some entry =>
    obtain ⟨identity, s⟩ := entry
    obtain ⟨hs, rfl⟩ := sourceEntry_some hentry
    have hadmit := hadmits hs rfl
    dsimp only
    split
    · exact h
    cases hc : s.cycle with
    | none =>
      obtain ⟨hfree, -⟩ | ⟨c, hc', -⟩ := hadmit
      · refine h.openCycle hsound hs hc rfl hargs.discovered (fun stop hstop => ?_) (.inl hfree)
        simpa using (Option.mem_filter_iff.mp hstop).2
      · rw [hc] at hc'
        cases hc'
    | some c =>
      have hclock : c.observedAtMs ≤ discoveredAtMs ∨ c.endsAtMs = some effectiveAtMs := by
        obtain ⟨-, hclock⟩ | ⟨c', hc', hclock, -⟩ := hadmit
        · exact .inl (hclock c hc)
        · rw [hc] at hc'
          cases hc'
          exact hclock
      have hid : ¬Reserved eventId ∨ eventId = naturalEventId effectiveAtMs ∨
          eventId = upstreamEventId effectiveAtMs ∧ c.startsAtMs < effectiveAtMs := by
        obtain ⟨hfree, -⟩ | ⟨c', hc', -, hown⟩ := hadmit
        · exact .inl hfree
        · rw [hc] at hc'
          cases hc'
          exact .inr hown
      cases hevent : w.ledger.events.get? (eventKey s.sourceRef eventId) with
      | none => exact h.recordEvent hsound hfits hs hc hargs.discovered hclock hid
      | some previous =>
        dsimp only
        split
        · exact h
        rename_i hmoved
        have hfree : ¬Reserved eventId := by
          refine hid.resolve_right fun hown => hmoved ?_
          exact h.recorded_time hs hc hevent (hown.imp_right And.left)
        unfold correctEvent
        dsimp only
        split
        · exact h
        · rename_i hfresh
          split
          · rename_i happlied
            have hcorrects : Corrects w.ledger s c eventId previous _ := ⟨hargs, rfl, hevent, rfl, hmoved, rfl, hfresh⟩
            exact h.moveCycle hsound hs hc hcorrects happlied hfree
          · exact h.quarantineEvent hsound hs ⟨hargs, rfl, hevent, rfl, hmoved, rfl, hfresh⟩ hfree

end

end CcSwitchServer.QuotaCycle
