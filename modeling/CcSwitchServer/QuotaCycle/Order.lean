import CcSwitchServer.QuotaCycle.Reload

/-! # The order of cycles

The sequence number of a cycle never falls, and its start stays after those of the cycles before it.
-/

namespace CcSwitchServer.QuotaCycle
open Foundations QuotaCycleLedger OrderedMap List Option World

/-! ## Sequence numbers -/

/-- Every source keeps its cycle, with a sequence number that is not smaller. -/
def SequencesLe (w w' : World) : Prop :=
  ∀ i s c, w.ledger.sources.get? i = some s → s.cycle = some c →
    ∃ s' c', w'.ledger.sources.get? i = some s' ∧ s'.sourceRef = s.sourceRef ∧ s'.cycle = some c' ∧
      c.cycleSequence ≤ c'.cycleSequence

theorem SequencesLe.refl (w : World) : SequencesLe w w :=
  fun _ s c hs hc => ⟨s, c, hs, rfl, hc, le_refl _⟩

theorem SequencesLe.trans (w₁ w₂ w₃ : World) (h : SequencesLe w₁ w₂) (h' : SequencesLe w₂ w₃) : SequencesLe w₁ w₃ := by
  intro i s c hs hc
  obtain ⟨s', c', hs', href, hc', hle⟩ := h i s c hs hc
  obtain ⟨s'', c'', hs'', href', hc'', hle'⟩ := h' i s' c' hs' hc'
  exact ⟨s'', c'', hs'', href'.trans href, hc'', le_trans hle hle'⟩

variable {w w' : World}

theorem sequencesLe_of_insert {identity : String} {s s' : QuotaCycleSource}
    (hs : w.ledger.sources.get? identity = some s)
    (hsources : w'.ledger.sources = w.ledger.sources.insert identity s') (href : s'.sourceRef = s.sourceRef)
    (hcycle : ∀ c, s.cycle = some c → ∃ c', s'.cycle = some c' ∧ c.cycleSequence ≤ c'.cycleSequence) :
    SequencesLe w w' := by
  intro i t c ht hc
  rw [hsources, get?_insert]
  split
  · rename_i hi
    subst hi
    rw [hs] at ht
    cases ht
    obtain ⟨c', hc', hle⟩ := hcycle c hc
    exact ⟨s', c', rfl, href, hc', hle⟩
  · exact ⟨t, c, ht, rfl, hc, le_refl _⟩

variable {ids : OpaqueIds} {l : QuotaCycleLedger} {sourceRef : String}

/-- No move lowers the number of a cycle. -/
theorem Move.sequencesLe {a : Act} (h : Move ids a w w') : SequencesLe w w' := by
  cases h with
  | register hnew hfits href hcycle hwindow =>
    intro i t c ht hc
    rename_i identity s
    refine ⟨t, c, ?_, rfl, hc, le_refl _⟩
    rw [get?_putSource, if_neg, ht]
    rintro rfl
    rw [hnew] at ht
    cases ht
  | setRevision | quarantine | fileEvent => exact SequencesLe.refl w
  | reviseSource hs hsame hwindow =>
    refine sequencesLe_of_insert hs rfl hsame.sourceRef fun c hc => ⟨c, ?_, le_refl _⟩
    rw [hsame.cycle, hc]
  | openCycle hs hcycle hargs hends =>
    refine sequencesLe_of_insert hs rfl rfl fun c hc => ?_
    rw [hcycle] at hc
    cases hc
  | openAtBoundary hs hcycle hboundary hdue =>
    refine sequencesLe_of_insert hs rfl rfl fun c hc => ?_
    rw [hcycle] at hc
    cases hc
  | extendCycle hs hcycle _ _ _ =>
    refine sequencesLe_of_insert hs rfl rfl fun c hc => ?_
    rw [hcycle] at hc
    cases hc
    exact ⟨_, rfl, le_refl _⟩
  | moveCycle hs hcycle _ _ =>
    refine sequencesLe_of_insert hs rfl rfl fun c hc => ?_
    rw [hcycle] at hc
    cases hc
    exact ⟨_, rfl, le_refl _⟩
  | advanceCycle hs hcycle _ _ _ _ =>
    refine sequencesLe_of_insert hs rfl rfl fun c hc => ?_
    rw [hcycle] at hc
    cases hc
    exact ⟨_, rfl, Nat.le_succ _⟩
  | exhaustSequence hs hcycle _ =>
    refine sequencesLe_of_insert hs rfl rfl fun c hc => ?_
    rw [hcycle] at hc
    cases hc
    exact ⟨_, rfl, le_refl _⟩

theorem sequencesLe_of_calls {Q : World → Op → Prop} (htyped : ∀ w op, Q w op → op.Typed)
    (hrun : Trace (Call ids) Q w w') : SequencesLe w w' := by
  have hcall : ∀ w op w', True → Q w op → Call ids op w w' → SequencesLe w w' := by
    rintro w op w' - hQ ⟨stack, hstep⟩
    have hmoves := step_trace (htyped w op hQ) hstep
    exact Trace.relation SequencesLe.refl SequencesLe.trans (fun _ _ _ _ _ _ => trivial)
      (fun _ _ _ _ _ hmove => hmove.sequencesLe) hmoves trivial
  exact Trace.relation SequencesLe.refl SequencesLe.trans (fun _ _ _ _ _ _ => trivial) hcall hrun trivial

/-! ## Starts -/

/-- A committed event of another cycle of the source, at the given time. -/
def Bars (l : QuotaCycleLedger) (sourceRef : String) (c : AccountQuotaCycle) (t : ℤ) : Prop :=
  ∃ k e, l.events.get? k = some e ∧ e.sourceRef = sourceRef ∧ e.status = .committed ∧
    e.cycleId ≠ c.cycleId ∧ e.effectiveAtMs = t

/-- The cycles of a source are in order, and each replaced one bars the way back. -/
structure Ordered (ids : OpaqueIds) (w : World) : Prop where
  drawn_cycle : ∀ {k e}, w.ledger.events.get? k = some e → e.cycleId = "" ∨ ∃ n < w.drawn, e.cycleId = ids.id n
  standing : ∀ {i s c e}, w.ledger.sources.get? i = some s → s.cycle = some c →
    w.ledger.events.get? (eventKey s.sourceRef c.eventId) = some e → e.status = .committed
  owner : ∀ r ∈ w.replaced, ∃ i s c, w.ledger.sources.get? i = some s ∧ s.sourceRef = r.sourceRef ∧ s.cycle = some c
  barred : ∀ r ∈ w.replaced, ∀ {i s c}, w.ledger.sources.get? i = some s →
    s.sourceRef = r.sourceRef → s.cycle = some c →
    r.startsAtMs < c.startsAtMs ∧ Bars w.ledger s.sourceRef c r.startsAtMs
  increasing : w.replaced.Pairwise fun r r' => r.sourceRef = r'.sourceRef → r.startsAtMs < r'.startsAtMs

theorem lt_of_bars {c : AccountQuotaCycle} {t eff : ℤ}
    (h : Bars l sourceRef c t) (hbefore : t < c.startsAtMs)
    (hbound : ∀ boundary ∈ l.earlierBoundary sourceRef c, boundary < eff) : t < eff := by
  obtain ⟨k, e, he, href, hstatus, hcycle, rfl⟩ := h
  have hmem : e.effectiveAtMs ∈ (l.events.values.filter fun e =>
      e.sourceRef = sourceRef ∧ e.status = .committed ∧ e.cycleId ≠ c.cycleId ∧
        e.effectiveAtMs < c.startsAtMs).map QuotaResetEvent.effectiveAtMs := by
    refine mem_map.mpr ⟨e, mem_filter.mpr ⟨mem_values_iff.mpr ⟨k, he⟩, ?_⟩, rfl⟩
    simpa using ⟨href, hstatus, hcycle, hbefore⟩
  obtain ⟨boundary, hboundary⟩ := isSome_iff_exists.mp (isSome_max?_of_mem hmem)
  have hle := (max?_eq_some_iff.mp hboundary).2 _ hmem
  have hlt := hbound boundary hboundary
  omega

namespace Ordered
variable {ids : OpaqueIds} {w w' : World} {identity : String} {s s' : QuotaCycleSource} {c : AccountQuotaCycle}

theorem default (ids : OpaqueIds) : Ordered ids (default ids) :=
  { drawn_cycle := fun he => absurd he (some_ne_none _).symm
    standing := fun hs => absurd hs (some_ne_none _).symm
    owner := fun _ hr => absurd hr not_mem_nil
    barred := fun _ hr => absurd hr not_mem_nil
    increasing := List.Pairwise.nil }

theorem insert_cases {i : String} {t : QuotaCycleSource} {sources : OrderedMap String QuotaCycleSource}
    (h : (sources.insert identity s).get? i = some t) :
    identity = i ∧ t = s ∨ identity ≠ i ∧ sources.get? i = some t := by
  rw [get?_insert] at h
  split at h
  · rename_i hi
    exact .inl ⟨hi, (some.inj h).symm⟩
  · rename_i hi
    exact .inr ⟨hi, h⟩

section
variable (h : Ordered ids w)
include h

theorem owner_insert (hs : w.ledger.sources.get? identity = some s)
    (hsources : w'.ledger.sources = w.ledger.sources.insert identity s')
    (href : s'.sourceRef = s.sourceRef) (hopen : s.cycle ≠ none → s'.cycle ≠ none)
    {r : AccountQuotaCycle} (hr : r ∈ w.replaced) :
    ∃ i t d, w'.ledger.sources.get? i = some t ∧ t.sourceRef = r.sourceRef ∧ t.cycle = some d := by
  obtain ⟨i, t, d, ht, htr, hd⟩ := h.owner r hr
  rw [hsources]
  by_cases hi : identity = i
  · subst hi
    rw [hs] at ht
    cases ht
    have hsome : s'.cycle ≠ none := hopen (by rw [hd]; exact some_ne_none d)
    obtain ⟨d', hd'⟩ := ne_none_iff_exists'.mp hsome
    exact ⟨identity, s', d', get?_insert_self _ _ _, href.trans htr, hd'⟩
  · exact ⟨i, t, d, by rw [get?_insert_of_ne _ _ hi, ht], htr, hd⟩

theorem putSource (hs : w.ledger.sources.get? identity = some s)
    (hsources : w'.ledger.sources = w.ledger.sources.insert identity s')
    (hevents : w'.ledger.events = w.ledger.events) (hdrawn : w.drawn ≤ w'.drawn)
    (hreplaced : w'.replaced = w.replaced) (href : s'.sourceRef = s.sourceRef)
    (hopen : s.cycle ≠ none → s'.cycle ≠ none)
    (hcore : ∀ c', s'.cycle = some c' → ∃ c, s.cycle = some c ∧ c'.eventId = c.eventId ∧
      c'.cycleId = c.cycleId ∧ c'.startsAtMs = c.startsAtMs) : Ordered ids w' := by
  constructor
  · intro k e he
    rw [hevents] at he
    refine (h.drawn_cycle he).imp id ?_
    rintro ⟨n, hn, hid⟩
    exact ⟨n, by omega, hid⟩
  · intro i t d e ht hd he
    rw [hsources] at ht
    rw [hevents] at he
    obtain ⟨rfl, rfl⟩ | ⟨-, ht⟩ := insert_cases ht
    · obtain ⟨c, hc, hid, -, -⟩ := hcore d hd
      rw [href, hid] at he
      exact h.standing hs hc he
    · exact h.standing ht hd he
  · intro r hr
    rw [hreplaced] at hr
    exact h.owner_insert hs hsources href hopen hr
  · intro r hr i t d ht htr hd
    rw [hreplaced] at hr
    rw [hsources] at ht
    unfold Bars
    rw [hevents]
    obtain ⟨rfl, rfl⟩ | ⟨-, ht⟩ := insert_cases ht
    · obtain ⟨c, hc, -, hid, hstart⟩ := hcore d hd
      rw [hstart, hid, href]
      exact h.barred r hr hs (href.symm.trans htr) hc
    · exact h.barred r hr ht htr hd
  · rw [hreplaced]
    exact h.increasing

theorem putEvent (hsound : Sound ids w) {key : String} {event : QuotaResetEvent}
    (hsources : w'.ledger.sources = w.ledger.sources)
    (hevents : w'.ledger.events = w.ledger.events.insert key event) (hdrawn : w.drawn ≤ w'.drawn)
    (hreplaced : w'.replaced = w.replaced) (hkey : ∀ {e}, w.ledger.events.get? key = some e → e.status ≠ .committed)
    (hid : event.cycleId = "" ∨ ∃ n < w.drawn, event.cycleId = ids.id n) : Ordered ids w' := by
  have hkeep : ∀ {k e}, w.ledger.events.get? k = some e → e.status = .committed →
      w'.ledger.events.get? k = some e := by
    intro k e he hstatus
    rw [hevents, get?_insert_of_ne _ _, he]
    rintro rfl
    exact hkey he hstatus
  constructor
  · intro k e he
    rw [hevents, get?_insert] at he
    have hold : e.cycleId = "" ∨ ∃ n < w.drawn, e.cycleId = ids.id n := by
      split at he
      · cases he
        exact hid
      · exact h.drawn_cycle he
    refine hold.imp id ?_
    rintro ⟨n, hn, hidn⟩
    exact ⟨n, by omega, hidn⟩
  · intro i t d e ht hd he
    rw [hsources] at ht
    obtain ⟨own, hown, -⟩ := hsound.loadable.cycle_event ht hd
    have hstatus := h.standing ht hd hown
    rw [hkeep hown hstatus] at he
    cases he
    exact hstatus
  · intro r hr
    rw [hreplaced] at hr
    rw [hsources]
    exact h.owner r hr
  · intro r hr i t d ht htr hd
    rw [hreplaced] at hr
    rw [hsources] at ht
    obtain ⟨hlt, k, e, he, href, hstatus, hcycle, heff⟩ := h.barred r hr ht htr hd
    exact ⟨hlt, k, e, hkeep he hstatus, href, hstatus, hcycle, heff⟩
  · rw [hreplaced]
    exact h.increasing

theorem drawn_current (hsound : Sound ids w)
    (hs : w.ledger.sources.get? identity = some s) (hc : s.cycle = some c) :
    ∃ n < w.drawn, c.cycleId = ids.id n := by
  obtain ⟨own, hown, hopens⟩ := hsound.loadable.cycle_event hs hc
  rw [← hopens.1]
  refine (h.drawn_cycle hown).resolve_left ?_
  rw [hopens.1]
  exact (hsound.loadable.cycle_fits hs hc).2.2.2.2.1

theorem ne_new_id {k : String} {e : QuotaResetEvent}
    (he : w.ledger.events.get? k = some e) : e.cycleId ≠ ids.id w.drawn := by
  intro hnew
  obtain hempty | ⟨n, hn, hid⟩ := h.drawn_cycle he
  · exact ids.nonempty w.drawn (hnew.symm.trans hempty)
  · have hdrawn := ids.injective (hid.symm.trans hnew)
    omega

variable (hsound : Sound ids w)
include hsound

/-- A new cycle starts after the one that it replaces. -/
theorem takeOver (retired : List AccountQuotaCycle)
    {c' : AccountQuotaCycle} {key : String} {event : QuotaResetEvent} (hs : w.ledger.sources.get? identity = some s)
    (hsources : w'.ledger.sources = w.ledger.sources.insert identity s')
    (hevents : w'.ledger.events = w.ledger.events.insert key event)
    (hdrawn : w'.drawn = w.drawn + 1) (hreplaced : w'.replaced = w.replaced ++ retired)
    (href : s'.sourceRef = s.sourceRef) (hc' : s'.cycle = some c')
    (hkey : key = eventKey s'.sourceRef c'.eventId) (hfresh : w.ledger.events.get? key = none)
    (hid : c'.cycleId = ids.id w.drawn) (heventId : event.cycleId = ids.id w.drawn)
    (hstatus : event.status = .committed) (hretired : ∀ r ∈ retired, s.cycle = some r)
    (hlater : ∀ r, s.cycle = some r → r ∈ retired ∧ r.startsAtMs < c'.startsAtMs)
    (hone : retired.length ≤ 1) : Ordered ids w' := by
  have hkeep : ∀ {k e}, w.ledger.events.get? k = some e → w'.ledger.events.get? k = some e := by
    intro k e he
    rw [hevents, get?_insert_of_ne _ _, he]
    rintro rfl
    rw [hfresh] at he
    cases he
  have hretired_ref : ∀ r ∈ retired, r.sourceRef = s.sourceRef := fun r hr =>
    (hsound.loadable.cycle_fits hs (hretired r hr)).2.1
  constructor
  · intro k e he
    rw [hevents, get?_insert] at he
    rw [hdrawn]
    split at he
    · cases he
      exact .inr ⟨w.drawn, by omega, heventId⟩
    · refine (h.drawn_cycle he).imp id ?_
      rintro ⟨n, hn, hidn⟩
      exact ⟨n, by omega, hidn⟩
  · intro i t d e ht hd he
    rw [hsources] at ht
    obtain ⟨rfl, rfl⟩ | ⟨-, ht⟩ := insert_cases ht
    · rw [hc'] at hd
      cases hd
      rw [hevents, ← hkey, get?_insert_self] at he
      cases he
      exact hstatus
    · obtain ⟨own, hown, -⟩ := hsound.loadable.cycle_event ht hd
      have hown_status := h.standing ht hd hown
      rw [hkeep hown] at he
      cases he
      exact hown_status
  · intro r hr
    rw [hreplaced] at hr
    rcases mem_append.mp hr with hr | hr
    · refine h.owner_insert hs hsources href (fun _ => ?_) hr
      rw [hc']
      exact some_ne_none c'
    · refine ⟨identity, s', c', ?_, href.trans (hretired_ref r hr).symm, hc'⟩
      rw [hsources, get?_insert_self]
  · intro r hr i t d ht htr hd
    rw [hreplaced] at hr
    rw [hsources] at ht
    obtain ⟨rfl, rfl⟩ | ⟨hi, ht⟩ := insert_cases ht
    · rw [hc'] at hd
      cases hd
      rcases mem_append.mp hr with hr | hr
      · obtain ⟨i', t', d', ht', htr', hd'⟩ := h.owner r hr
        have hsame := hsound.loadable.source_inj ht' hs (htr'.trans (href ▸ htr).symm)
        subst hsame
        rw [hs] at ht'
        cases ht'
        obtain ⟨hlt, k, e, he, heref, hestatus, -, heff⟩ := h.barred r hr hs htr' hd'
        have hstart := (hlater d' hd').2
        refine ⟨by omega, k, e, hkeep he, heref.trans href.symm, hestatus, ?_, heff⟩
        rw [hid]
        exact h.ne_new_id he
      · have hr' := hretired r hr
        obtain ⟨own, hown, hopens⟩ := hsound.loadable.cycle_event hs hr'
        refine ⟨(hlater r hr').2, _, own, hkeep hown, ?_, h.standing hs hr' hown, ?_, hopens.2.1⟩
        · rw [href]
          exact (hsound.ref_eq_of_key hs hown).1
        · rw [hid]
          exact h.ne_new_id hown
    · have hold : r ∈ w.replaced := by
        rcases mem_append.mp hr with hr | hr
        · exact hr
        · exact absurd (hsound.loadable.source_inj hs ht ((hretired_ref r hr).symm.trans htr.symm)) hi
      obtain ⟨hlt, k, e, he, heref, hestatus, hecycle, heff⟩ := h.barred r hold ht htr hd
      exact ⟨hlt, k, e, hkeep he, heref, hestatus, hecycle, heff⟩
  · rw [hreplaced, pairwise_append]
    refine ⟨h.increasing, ?_, fun r hr r' hr' hrefs => ?_⟩
    · match retired, hone with
      | [], _ => exact List.Pairwise.nil
      | [_], _ => exact pairwise_singleton _ _
    · have hsame : s.sourceRef = r.sourceRef := (hretired_ref r' hr').symm.trans hrefs.symm
      exact (h.barred r hr hs hsame (hretired r' hr')).1

/-- The correction of a start is bounded by the committed events of other cycles. -/
theorem moveCycle {eventId : String}
    {previous : QuotaResetEvent} {correction : QuotaResetCorrection} {basis : QuotaTimeBasis}
    (hs : w.ledger.sources.get? identity = some s) (hc : s.cycle = some c)
    (hcorrects : Corrects w.ledger s c eventId previous correction) (happlied : correction.applied = true) :
    Ordered ids (w.moveCycle identity s c previous correction basis) := by
  obtain ⟨hcycleId, heventId, -, hbound⟩ := Sound.correctable_of_applied hcorrects happlied
  have hopening := hsound.opening_of_applied hs hc hcorrects happlied
  have hevents : (w.moveCycle identity s c previous correction basis).ledger.events =
      w.ledger.events.insert correction.eventKey (previous.moved correction) := rfl
  have hother : ∀ {k e}, w.ledger.events.get? k = some e → e.cycleId ≠ c.cycleId →
      (w.moveCycle identity s c previous correction basis).ledger.events.get? k = some e := by
    intro k e he hne
    rw [hevents, get?_insert_of_ne _ _, he]
    rintro rfl
    rw [hcorrects.event] at he
    cases he
    exact hne hcycleId
  have hcommitted : previous.status = .committed := by
    have hown := hcorrects.event
    rw [hopening.1] at hown
    exact h.standing hs hc hown
  constructor
  · intro k e he
    rw [hevents, get?_insert] at he
    split at he
    · cases he
      have hdrawn := h.drawn_cycle hcorrects.event
      exact hdrawn
    · exact h.drawn_cycle he
  · intro i t d e ht hd he
    obtain ⟨rfl, rfl⟩ | ⟨hi, ht⟩ := insert_cases ht
    · cases hd
      rw [hevents, hopening.1] at he
      rw [show (c.moved correction basis).eventId = c.eventId from rfl, get?_insert_self] at he
      cases he
      exact hcommitted
    · obtain ⟨own, hown, hopens⟩ := hsound.loadable.cycle_event ht hd
      have hkeys : correction.eventKey ≠ eventKey t.sourceRef d.eventId := by
        intro heq
        rw [hopening.1] at heq
        have hrefs := (eventKey_inj (hsound.kept.noColon hs) (hsound.kept.noColon ht) heq).1
        exact hi (hsound.loadable.source_inj hs ht hrefs)
      rw [hevents, get?_insert_of_ne _ _ hkeys, hown] at he
      cases he
      exact h.standing ht hd hown
  · intro r hr
    have hsources : (w.moveCycle identity s c previous correction basis).ledger.sources =
        w.ledger.sources.insert identity { s with cycle := some (c.moved correction basis) } := rfl
    exact h.owner_insert hs hsources rfl (fun _ => some_ne_none _) hr
  · intro r hr i t d ht htr hd
    obtain ⟨rfl, rfl⟩ | ⟨hi, ht⟩ := insert_cases ht
    · cases hd
      obtain ⟨hlt, hbars⟩ := h.barred r hr hs htr hc
      refine ⟨lt_of_bars hbars hlt hbound, ?_⟩
      obtain ⟨k, e, he, heref, hestatus, hecycle, heff⟩ := hbars
      exact ⟨k, e, hother he hecycle, heref, hestatus, hecycle, heff⟩
    · obtain ⟨hlt, k, e, he, heref, hestatus, hecycle, heff⟩ := h.barred r hr ht htr hd
      have hkeys : correction.eventKey ≠ k := by
        rintro rfl
        rw [hopening.1] at he
        have hrefs := (hsound.ref_eq_of_key hs he).1.symm.trans heref
        exact hi (hsound.loadable.source_inj hs ht hrefs)
      refine ⟨hlt, k, e, ?_, heref, hestatus, hecycle, heff⟩
      rw [hevents, get?_insert_of_ne _ _ hkeys, he]
  · exact h.increasing

/-- Every move keeps the order, except a quarantine, which takes an event out of the committed ones. -/
theorem move (hfits : w.ledger.FitsMemory) {a : Act}
    (hcalm : a ≠ .quarantine true) (hmove : Move ids a w w') : Ordered ids w' := by
  cases hmove with
  | register hnew hfits href hcycle hwindow =>
    rename_i identity s
    have hkeep : ∀ {i t}, w.ledger.sources.get? i = some t →
        (w.ledger.putSource identity s).sources.get? i = some t := by
      intro i t ht
      rw [get?_putSource, if_neg, ht]
      rintro rfl
      rw [hnew] at ht
      cases ht
    refine { h with drawn_cycle := ?_, standing := ?_, owner := ?_, barred := ?_ }
    · intro k e he
      refine (h.drawn_cycle he).imp id ?_
      rintro ⟨n, hn, hid⟩
      exact ⟨n, Nat.lt_succ_of_lt hn, hid⟩
    · intro i t d e ht hd he
      obtain ⟨rfl, rfl⟩ | ⟨-, ht⟩ := putSource_cases ht
      · rw [hcycle] at hd
        cases hd
      · exact h.standing ht hd he
    · intro r hr
      obtain ⟨i, t, d, ht, htr, hd⟩ := h.owner r hr
      exact ⟨i, t, d, hkeep ht, htr, hd⟩
    · intro r hr i t d ht htr hd
      obtain ⟨rfl, rfl⟩ | ⟨-, ht⟩ := putSource_cases ht
      · rw [hcycle] at hd
        cases hd
      · exact h.barred r hr ht htr hd
  | setRevision => exact { h with }
  | reviseSource hs hsame hwindow =>
    refine h.putSource hs rfl rfl (le_refl _) rfl hsame.sourceRef (fun hne => ?_) fun c' hc' => ?_
    · rwa [hsame.cycle]
    · rw [hsame.cycle] at hc'
      exact ⟨c', hc', rfl, rfl, rfl⟩
  | openCycle hs hcycle hargs hends =>
    refine h.takeOver hsound [] hs rfl rfl rfl (append_nil _).symm rfl rfl rfl
      (hsound.fresh_of_unopened hs hcycle _) rfl rfl rfl ?_ ?_ (Nat.zero_le _)
    · exact fun r hr => absurd hr not_mem_nil
    · intro r hr
      rw [hcycle] at hr
      cases hr
  | openAtBoundary hs hcycle hboundary hdue =>
    refine h.takeOver hsound [] hs rfl rfl rfl (append_nil _).symm rfl rfl rfl
      (hsound.fresh_of_unopened hs hcycle _) rfl rfl rfl ?_ ?_ (Nat.zero_le _)
    · exact fun r hr => absurd hr not_mem_nil
    · intro r hr
      rw [hcycle] at hr
      cases hr
  | extendCycle hs hcycle _ _ _ =>
    refine h.putSource hs rfl rfl (le_refl _) rfl rfl (fun _ => some_ne_none _) fun c' hc' => ?_
    cases hc'
    exact ⟨_, hcycle, rfl, rfl, rfl⟩
  | quarantine hs hcycle hcorrects hkept =>
    have hdrawn := h.drawn_cycle hcorrects.event
    refine h.putEvent hsound rfl rfl (le_refl _) rfl (fun he hstatus => ?_) hdrawn
    rw [hcorrects.event] at he
    cases he
    exact hcalm (by simp [hstatus])
  | moveCycle hs hcycle hcorrects happlied => exact h.moveCycle hsound hs hcycle hcorrects happlied
  | advanceCycle hs hcycle hevent hstatus hlater hroom =>
    rename_i identity s c event
    refine h.takeOver hsound [c] hs rfl rfl rfl rfl rfl rfl rfl hevent.fresh rfl rfl hstatus ?_ ?_ (le_refl _)
    · intro r hr
      rw [mem_singleton.mp hr]
      exact hcycle
    · intro r hr
      rw [hcycle] at hr
      cases hr
      exact ⟨mem_singleton_self c, hlater⟩
  | exhaustSequence hs hcycle hfull =>
    have hcount := le_trans (hsound.kept.counted hs hcycle) (eventCount_le_size w.ledger _)
    have hsize : w.ledger.events.size < u64Max := hfits
    omega
  | fileEvent hs hcycle hevent hfiled =>
    refine h.putEvent hsound rfl rfl (le_refl _) rfl (fun he => ?_) ?_
    · rw [hevent.sourceRef, hevent.fresh] at he
      cases he
    · rcases hfiled with ⟨-, hid, -⟩ | ⟨-, hid, -⟩
      · exact .inl hid
      · rw [hid]
        exact .inr (h.drawn_current hsound hs hcycle)

end

end Ordered

/-! ## Calls that quarantine nothing that stands -/

/-- A call that takes a committed event out of the order of cycles. Such an event is a bound of later
corrections, and the code drops the bound with the status. A call of `observe` that returns never does
so. -/
def Op.Quarantines (w : World) : Op → Prop
  | .registerSource _ _ _ _ => False
  | .observe _ _ _ => False
  | .applyReset sourceRef fence eventId effectiveAtMs discoveredAtMs _ =>
    QuotaCycle.Quarantines w.ledger sourceRef fence eventId effectiveAtMs discoveredAtMs
  | .advanceDue nowMs => ∃ d ∈ dueSources w.ledger nowMs,
    QuotaCycle.Quarantines w.ledger d.1 d.2.1 (naturalEventId d.2.2) d.2.2 nowMs
  | .advanceSourceDue sourceRef nowMs => ∃ identity s boundary,
    w.ledger.sources.get? identity = some s ∧ s.sourceRef = sourceRef ∧
    dueBoundary s nowMs = some boundary ∧
    QuotaCycle.Quarantines w.ledger sourceRef s.fence (naturalEventId boundary) boundary nowMs

theorem applyReset_frame (ids : OpaqueIds) (w : World) (sourceRef : String) (fence : QuotaSourceFence)
    (eventId : String) (effectiveAtMs discoveredAtMs : ℤ) (basis : QuotaTimeBasis) :
    ((w.applyReset ids sourceRef fence eventId effectiveAtMs discoveredAtMs basis).2.ledger.sources =
        w.ledger.sources ∨ ∃ i s s', w.ledger.sources.get? i = some s ∧ s.sourceRef = sourceRef ∧
        (w.applyReset ids sourceRef fence eventId effectiveAtMs discoveredAtMs basis).2.ledger.sources =
          w.ledger.sources.insert i s') ∧
    ((w.applyReset ids sourceRef fence eventId effectiveAtMs discoveredAtMs basis).2.ledger.events = w.ledger.events ∨
      ∃ e, (w.applyReset ids sourceRef fence eventId effectiveAtMs discoveredAtMs basis).2.ledger.events =
        w.ledger.events.insert (eventKey sourceRef eventId) e) := by
  unfold applyReset
  split
  · exact ⟨.inl rfl, .inl rfl⟩
  cases hentry : w.ledger.sourceEntry sourceRef with
  | none => exact ⟨.inl rfl, .inl rfl⟩
  | some entry =>
    obtain ⟨identity, s⟩ := entry
    obtain ⟨hs, rfl⟩ := sourceEntry_some hentry
    dsimp only
    split
    · exact ⟨.inl rfl, .inl rfl⟩
    cases s.cycle with
    | none => exact ⟨.inr ⟨identity, s, _, hs, rfl, rfl⟩, .inr ⟨_, rfl⟩⟩
    | some c =>
      cases w.ledger.events.get? (eventKey s.sourceRef eventId) with
      | some previous =>
        dsimp only
        split
        · exact ⟨.inl rfl, .inl rfl⟩
        unfold correctEvent
        dsimp only
        split
        · exact ⟨.inl rfl, .inl rfl⟩
        split
        · exact ⟨.inr ⟨identity, s, _, hs, rfl, rfl⟩, .inr ⟨_, rfl⟩⟩
        · exact ⟨.inl rfl, .inr ⟨_, rfl⟩⟩
      | none =>
        unfold recordEvent
        dsimp only
        split
        · split
          · exact ⟨.inr ⟨identity, s, _, hs, rfl, rfl⟩, .inl rfl⟩
          · exact ⟨.inr ⟨identity, s, _, hs, rfl, rfl⟩, .inr ⟨_, rfl⟩⟩
        · split
          · exact ⟨.inl rfl, .inr ⟨_, rfl⟩⟩
          · exact ⟨.inl rfl, .inr ⟨_, rfl⟩⟩

def DueAt (w : World) (nowMs : ℤ) (d : String × QuotaSourceFence × ℤ) : Prop :=
  ∃ identity s c, w.ledger.sources.get? identity = some s ∧ s.sourceRef = d.1 ∧ s.cycle = some c ∧
    c.endsAtMs = some d.2.2 ∧ ':' ∉ d.1.toList ∧
    (EventArgs (naturalEventId d.2.2) d.2.2 nowMs →
      ∀ e, w.ledger.events.get? (eventKey d.1 (naturalEventId d.2.2)) = some e →
        e.status = .committed → e.effectiveAtMs = d.2.2)

variable {w : World} {nowMs : ℤ} {d : String × QuotaSourceFence × ℤ}

theorem DueAt.applyReset {d' : String × QuotaSourceFence × ℤ} (h : DueAt w nowMs d')
    (hd : ':' ∉ d.1.toList) (hne : d.1 ≠ d'.1) :
    DueAt (w.applyReset ids d.1 d.2.1 (naturalEventId d.2.2) d.2.2 nowMs .knownNaturalBoundary).2 nowMs d' := by
  obtain ⟨identity, s, c, hs, href, hc, hends, hcolon, hevent⟩ := h
  obtain ⟨hsources, hevents⟩ := applyReset_frame ids w d.1 d.2.1 (naturalEventId d.2.2) d.2.2
    nowMs .knownNaturalBoundary
  refine ⟨identity, s, c, ?_, href, hc, hends, hcolon, fun hargs e he => hevent hargs e ?_⟩
  · obtain hsame | ⟨i, t, t', ht, htref, hinsert⟩ := hsources
    · rw [hsame, hs]
    · rw [hinsert, get?_insert_of_ne, hs]
      rintro rfl
      rw [hs] at ht
      cases ht
      exact hne (htref.symm.trans href)
  · obtain hsame | ⟨e', hinsert⟩ := hevents
    · rwa [hsame] at he
    · rw [hinsert, get?_insert_of_ne] at he
      · exact he
      · exact fun hkey => hne (eventKey_inj hd hcolon hkey).1

theorem not_quarantines_of_dueAt (h : DueAt w nowMs d) :
    ¬Quarantines w.ledger d.1 d.2.1 (naturalEventId d.2.2) d.2.2 nowMs := by
  rintro ⟨hargs, -, -, -, previous, -, -, -, -, hprevious, hcommitted, hmoved, -⟩
  obtain ⟨-, -, -, -, -, -, -, -, hevent⟩ := h
  exact hmoved (hevent hargs previous hprevious hcommitted)

def dueOf (nowMs : ℤ) (s : QuotaCycleSource) : Option (String × QuotaSourceFence × ℤ) := do
  let cycle ← s.cycle
  let boundary ← cycle.endsAtMs.filter fun e => e ≤ nowMs
  pure (s.sourceRef, s.fence, boundary)

theorem dueOf_some {s : QuotaCycleSource} (h : dueOf nowMs s = some d) :
    d.1 = s.sourceRef ∧ d.2.1 = s.fence ∧ ∃ c, s.cycle = some c ∧ c.endsAtMs = some d.2.2 := by
  unfold dueOf at h
  simp only [Option.bind_eq_bind, Option.bind_eq_some_iff, Option.pure_def, Option.some.injEq] at h
  obtain ⟨c, hc, boundary, hboundary, rfl⟩ := h
  rw [Option.filter_eq_some_iff] at hboundary
  exact ⟨rfl, rfl, c, hc, hboundary.1⟩

theorem dueSources_refs_nodup (h : Loadable l) (nowMs : ℤ) :
    ((World.dueSources l nowMs).map Prod.fst).Nodup := by
  have hsublist : ∀ ss : List QuotaCycleSource,
      ((ss.filterMap (dueOf nowMs)).map Prod.fst).Sublist (ss.map QuotaCycleSource.sourceRef) := by
    intro ss
    induction ss with
    | nil => exact List.Sublist.refl _
    | cons s ss ih =>
      rw [filterMap_cons, map_cons]
      cases hd : dueOf nowMs s with
      | none => exact ih.cons _
      | some d =>
        rw [map_cons, (dueOf_some hd).1]
        exact ih.cons_cons _
  refine (hsublist l.sources.values).nodup ?_
  unfold values
  rw [List.map_map]
  refine List.Nodup.map_on (fun e he e' he' href => ?_) l.sources.nodup_entries
  have hkey := h.source_inj (mem_entries_iff.mp he) (mem_entries_iff.mp he') href
  exact entry_eq he he' hkey

/-- A call on a sound ledger that is not one of those makes only moves that leave every committed
event its standing. -/
theorem calm_trace {w' : World} {op : Op} (hsound : Sound ids w) (htyped : op.Typed)
    (hcalm : ¬op.Quarantines w) (hcall : Call ids op w w') :
    Trace (Move ids) (fun _ a => a ≠ .quarantine true) w w' := by
  obtain ⟨stack, h⟩ := hcall
  have hharmless : ∀ (w : World) a, Harmless a → a ≠ .quarantine true := fun _ _ ha => ha true
  cases op with
  | registerSource identity providerType bucketId fence =>
    cases h
    exact registerSource_trace hharmless htyped
  | observe sourceRef fence o =>
    obtain ⟨r, hr, rfl⟩ := map_eq_some_iff.mp h
    exact observe_trace hharmless htyped.2.1.2 hr
  | applyReset sourceRef fence eventId effectiveAtMs discoveredAtMs basis =>
    cases h
    refine applyReset_trace (hharmless w) fun b hb => ?_
    rintro ⟨rfl⟩
    exact hcalm (hb rfl)
  | advanceDue nowMs =>
    cases h
    refine advanceEach_trace (fun w due => (due.map Prod.fst).Nodup ∧ ∀ d ∈ due, DueAt w nowMs d) ?_ ⟨?_, ?_⟩
    · rintro w d due ⟨hnodup, hdue⟩
      rw [map_cons, nodup_cons] at hnodup
      have hd := hdue d mem_cons_self
      refine ⟨applyReset_trace (hharmless w) fun b hb => ?_, hnodup.2, fun d' hd' => ?_⟩
      · rintro ⟨rfl⟩
        exact not_quarantines_of_dueAt hd (hb rfl)
      · refine (hdue d' (mem_cons_of_mem _ hd')).applyReset ?_ fun heq => ?_
        · obtain ⟨-, -, -, -, -, -, -, hcolon, -⟩ := hd
          exact hcolon
        · exact hnodup.1 (heq ▸ mem_map_of_mem hd')
    · exact dueSources_refs_nodup hsound.loadable nowMs
    · intro d hd
      obtain ⟨s, hs, hdue⟩ := mem_filterMap.mp (show d ∈ filterMap (dueOf nowMs) _ from hd)
      obtain ⟨i, hi⟩ := mem_values_iff.mp hs
      obtain ⟨href, hfence, c, hc, hends⟩ := dueOf_some hdue
      refine ⟨i, s, c, hi, href.symm, hc, hends, href ▸ hsound.kept.noColon hi, ?_⟩
      intro hargs e he hcommitted
      by_contra hmoved
      refine hcalm ⟨d, hd, hargs, i, s, c, e, hi, href.symm, hfence.symm, hc, he, hcommitted, hmoved, ?_⟩
      intro hcorrectable
      refine hcorrectable (.inr (.inr (.inl ?_)))
      rw [hends, getD_some]
  | advanceSourceDue sourceRef nowMs =>
    cases h
    refine advanceSourceDue_trace hharmless fun b identity s boundary hs href hdue hb => ?_
    rintro ⟨rfl⟩
    exact hcalm ⟨identity, s, boundary, hs, href, hdue, hb rfl⟩

/-! ## The result -/

/-- In every run whose calls take no committed event out of the order, from any state of the run to
any later one the cycle numbers do not fall, and in the later state the cycles that were replaced are
in order, each with the start it had when it was replaced, and all before the current start. -/
theorem cycles_stay_in_order (ids : OpaqueIds) (w w' : World)
    (hrun : Trace (Call ids) (fun w op => op.Typed ∧ ¬op.Quarantines w) (default ids) w)
    (hrun' : Trace (Call ids) (fun w op => op.Typed ∧ ¬op.Quarantines w) w w') (hfits : w'.ledger.FitsMemory) :
    (∀ i s c, w.ledger.sources.get? i = some s → s.cycle = some c →
      ∃ s' c', w'.ledger.sources.get? i = some s' ∧ s'.sourceRef = s.sourceRef ∧
        s'.cycle = some c' ∧ c.cycleSequence ≤ c'.cycleSequence) ∧
    (w'.replaced.Pairwise fun r r' => r.sourceRef = r'.sourceRef → r.startsAtMs < r'.startsAtMs) ∧
    ∀ r ∈ w'.replaced, ∀ i s c, w'.ledger.sources.get? i = some s → s.sourceRef = r.sourceRef →
      s.cycle = some c → r.startsAtMs < c.startsAtMs := by
  have hsteady : Steady ids (Ordered ids) w' :=
    calls_steady (fun _ _ _ hsound hQ hcall => calm_trace hsound hQ.1 hQ.2 hcall)
      (fun _ _ _ hsound hfits hordered hcalm hmove => hordered.move hsound hfits hcalm hmove)
      (fun _ _ hQ => hQ.1) (hrun.append hrun') fun _ => ⟨Sound.default ids, Ordered.default ids⟩
  have hordered := (hsteady hfits).2
  refine ⟨sequencesLe_of_calls (fun _ _ hQ => hQ.1) hrun', hordered.increasing, ?_⟩
  intro r hr i s c hs href hc
  exact (hordered.barred r hr hs href hc).1

/-! ### Runs -/

instance (eventId : String) (effectiveAtMs discoveredAtMs : ℤ) :
    Decidable (EventArgs eventId effectiveAtMs discoveredAtMs) :=
  decidable_of_iff (eventId ≠ "" ∧ eventId.utf8ByteSize ≤ 256 ∧ 0 ≤ effectiveAtMs ∧ effectiveAtMs ≤ discoveredAtMs)
    ⟨fun h => ⟨h.1, h.2.1, h.2.2.1, h.2.2.2⟩, fun h => ⟨h.nonempty, h.short, h.nonneg, h.discovered⟩⟩

theorem quarantines_iff {fence : QuotaSourceFence}
    {eventId : String} {effectiveAtMs discoveredAtMs : ℤ} :
    (EventArgs eventId effectiveAtMs discoveredAtMs ∧ ∃ entry ∈ l.sources.entries,
      ∃ c ∈ entry.2.cycle, ∃ previous ∈ l.events.get? (eventKey sourceRef eventId),
        entry.2.sourceRef = sourceRef ∧ entry.2.fence = fence ∧ previous.status = .committed ∧
        previous.effectiveAtMs ≠ effectiveAtMs ∧ ¬l.Correctable sourceRef c eventId previous effectiveAtMs) ↔
      Quarantines l sourceRef fence eventId effectiveAtMs discoveredAtMs := by
  constructor
  · rintro ⟨hargs, ⟨i, s⟩, hs, c, hc, e, he, href, hfence, hstatus, hmoved, hkept⟩
    exact ⟨hargs, i, s, c, e, mem_entries_iff.mp hs, href, hfence, hc, he, hstatus, hmoved, hkept⟩
  · rintro ⟨hargs, i, s, c, e, hs, href, hfence, hc, he, hstatus, hmoved, hkept⟩
    exact ⟨hargs, (i, s), mem_entries_iff.mpr hs, c, hc, e, he, href, hfence, hstatus, hmoved, hkept⟩

instance (l : QuotaCycleLedger) (sourceRef : String) (fence : QuotaSourceFence) (eventId : String)
    (effectiveAtMs discoveredAtMs : ℤ) :
    Decidable (Quarantines l sourceRef fence eventId effectiveAtMs discoveredAtMs) :=
  decidable_of_iff _ quarantines_iff

theorem quarantines_advanceSourceDue_iff :
    (∃ entry ∈ w.ledger.sources.entries, ∃ boundary ∈ dueBoundary entry.2 nowMs,
      entry.2.sourceRef = sourceRef ∧ Quarantines w.ledger sourceRef entry.2.fence
        (naturalEventId boundary) boundary nowMs) ↔
      (Op.advanceSourceDue sourceRef nowMs).Quarantines w := by
  constructor
  · rintro ⟨⟨i, s⟩, hs, boundary, hdue, href, hquarantines⟩
    exact ⟨i, s, boundary, mem_entries_iff.mp hs, href, hdue, hquarantines⟩
  · rintro ⟨i, s, boundary, hs, href, hdue, hquarantines⟩
    exact ⟨(i, s), mem_entries_iff.mpr hs, boundary, hdue, href, hquarantines⟩

instance (w : World) : (op : Op) → Decidable (op.Quarantines w)
  | .registerSource _ _ _ _ => inferInstanceAs (Decidable False)
  | .observe _ _ _ => inferInstanceAs (Decidable False)
  | .applyReset sourceRef fence eventId effectiveAtMs discoveredAtMs _ =>
    inferInstanceAs (Decidable (Quarantines w.ledger sourceRef fence eventId effectiveAtMs discoveredAtMs))
  | .advanceDue nowMs =>
    inferInstanceAs (Decidable (∃ d ∈ dueSources w.ledger nowMs,
      Quarantines w.ledger d.1 d.2.1 (naturalEventId d.2.2) d.2.2 nowMs))
  | .advanceSourceDue _ _ => decidable_of_iff _ quarantines_advanceSourceDue_iff

def threeCycles : List Op :=
  [.registerSource "identity" "codex_oauth" "shared_weekly" {},
    .observe "xx" {} ⟨"shared_weekly", some 1000, 100000, none, 2000, .upstreamWindow⟩,
    .applyReset "xx" {} "first" 4000 4000 .publicAnnouncement,
    .applyReset "xx" {} "second" 6000 6000 .publicAnnouncement,
    .applyReset "xx" {} "second" 5000 7000 .publicAnnouncement]

theorem cycles_stay_in_order_moved :
    ∃ w, guardedRun unaryIds 4 (fun w op => op.Typed ∧ ¬op.Quarantines w) (default unaryIds) threeCycles = some w ∧
      w.replaced.map AccountQuotaCycle.startsAtMs = [1000, 4000] ∧
      ∀ r ∈ w.replaced, ∀ i s c, w.ledger.sources.get? i = some s → s.sourceRef = r.sourceRef →
        s.cycle = some c → r.startsAtMs < c.startsAtMs := by
  have hreturns : (guardedRun unaryIds 4 (fun w op => op.Typed ∧ ¬op.Quarantines w)
      (default unaryIds) threeCycles).any (fun w => decide (w.ledger.FitsMemory ∧
        w.replaced.map AccountQuotaCycle.startsAtMs = [1000, 4000])) = true := by decide
  obtain ⟨w, hw, hfacts⟩ := (any_eq_true _ _).mp hreturns
  rw [decide_eq_true_eq] at hfacts
  exact ⟨w, hw, hfacts.2, (cycles_stay_in_order unaryIds w w (calls_of_guardedRun hw) (.nil w) hfacts.1).2.2⟩

/-- The same three cycles; a second time for the event of the second cycle takes its standing, and
the third cycle moves to a start before the start of the second. -/
def backwardsRun : List Op :=
  [.registerSource "identity" "codex_oauth" "shared_weekly" {},
    .observe "xx" {} ⟨"shared_weekly", some 1000, 100000, none, 2000, .upstreamWindow⟩,
    .applyReset "xx" {} "first" 4000 4000 .publicAnnouncement,
    .applyReset "xx" {} "second" 6000 6000 .publicAnnouncement,
    .applyReset "xx" {} "first" 5000 7000 .publicAnnouncement,
    .applyReset "xx" {} "second" 3000 7000 .publicAnnouncement]

theorem cycle_runs_backwards :
    ¬∀ w, Trace (Call unaryIds) (fun _ op => op.Typed) (default unaryIds) w →
      ∀ r ∈ w.replaced, ∀ i s c, w.ledger.sources.get? i = some s → s.sourceRef = r.sourceRef →
        s.cycle = some c → c.cycleSequence = r.cycleSequence + 1 → r.startsAtMs < c.startsAtMs := by
  intro h
  have hreturns : (guardedRun unaryIds 4 (fun _ op => op.Typed) (default unaryIds)
      backwardsRun).any (fun w => decide (∃ r ∈ w.replaced, ∃ s ∈ w.ledger.sources.get? "identity",
        ∃ c ∈ s.cycle, s.sourceRef = r.sourceRef ∧ c.cycleSequence = r.cycleSequence + 1 ∧
        c.startsAtMs < r.startsAtMs)) = true := by decide
  obtain ⟨w, hw, hfacts⟩ := (any_eq_true _ _).mp hreturns
  rw [decide_eq_true_eq] at hfacts
  obtain ⟨r, hr, s, hs, c, hc, href, hseq, hlt⟩ := hfacts
  have hafter := h w (calls_of_guardedRun hw) r hr "identity" s c hs href hc hseq
  omega

end CcSwitchServer.QuotaCycle
