import CcSwitchServer.QuotaCycle.Moves

/-! # The ledger stays loadable

`Sound` adds to `Loadable` what the moves need of each other.
-/

namespace CcSwitchServer.QuotaCycle
open Foundations QuotaCycleLedger OrderedMap Option List QuotaEventStatus QuotaResetCorrection QuotaResetEvent

/-! ## Lookups after a change -/

section
variable {l : QuotaCycleLedger} {identity i key k : String} {s t : QuotaCycleSource} {e e' : QuotaResetEvent}

theorem get?_putSource (l : QuotaCycleLedger) (identity i : String) (s : QuotaCycleSource) :
    (l.putSource identity s).sources.get? i =
      if identity = i then some s else l.sources.get? i :=
  get?_insert _ _ _ _

theorem get?_putEvent (l : QuotaCycleLedger) (key k : String) (e : QuotaResetEvent) :
    (l.putEvent key e).events.get? k = if key = k then some e else l.events.get? k :=
  get?_insert _ _ _ _

theorem putSource_cases (h : (l.putSource identity s).sources.get? i = some t) :
    identity = i ∧ t = s ∨ identity ≠ i ∧ l.sources.get? i = some t := by
  rw [get?_putSource] at h
  split at h
  · rename_i hi
    exact .inl ⟨hi, (some.inj h).symm⟩
  · rename_i hi
    exact .inr ⟨hi, h⟩

theorem putEvent_cases (h : (l.putEvent key e).events.get? k = some e') :
    key = k ∧ e' = e ∨ key ≠ k ∧ l.events.get? k = some e' := by
  rw [get?_putEvent] at h
  split at h
  · rename_i hk
    exact .inl ⟨hk, (some.inj h).symm⟩
  · rename_i hk
    exact .inr ⟨hk, h⟩

theorem putEvent_of_fresh (hfresh : l.events.get? key = none) (h : l.events.get? k = some e') :
    (l.putEvent key e).events.get? k = some e' := by
  rw [get?_putEvent, if_neg, h]
  rintro rfl
  rw [hfresh] at h
  cases h

theorem putSource_of_ref (hs : l.sources.get? identity = some s) (href : t.sourceRef = s.sourceRef)
    {r : QuotaCycleSource} (hr : l.sources.get? i = some r) :
    ∃ r', (l.putSource identity t).sources.get? i = some r' ∧ r'.sourceRef = r.sourceRef := by
  rw [get?_putSource]
  split
  · rename_i hi
    subst hi
    rw [hs] at hr
    cases hr
    exact ⟨t, rfl, href⟩
  · exact ⟨r, hr, rfl⟩

theorem source_isSome_iff {ref : String} :
    (l.source ref).isSome ↔ ∃ i s, l.sources.get? i = some s ∧ s.sourceRef = ref := by
  unfold source
  rw [find?_isSome]
  constructor
  · rintro ⟨s, hs, href⟩
    obtain ⟨i, hi⟩ := mem_values_iff.mp hs
    exact ⟨i, s, hi, by simpa using href⟩
  · rintro ⟨i, s, hs, href⟩
    exact ⟨s, mem_values_iff.mpr ⟨i, hs⟩, by simpa using href⟩

end

theorem eventKey_inj {ref ref' eventId eventId' : String} (h : ':' ∉ ref.toList)
    (h' : ':' ∉ ref'.toList) (hkey : eventKey ref eventId = eventKey ref' eventId') :
    ref = ref' ∧ eventId = eventId' := by
  have hchars := congrArg String.toList hkey
  unfold eventKey at hchars
  simp only [String.toList_append, append_assoc] at hchars
  have hsplit := Text.append_separator_inj h h' hchars
  exact ⟨String.toList_inj.mp hsplit.1, String.toList_inj.mp hsplit.2⟩

theorem SameScope.fits {identity : String} {s s' : QuotaCycleSource} (hsame : SameScope s s')
    (hwindow : WindowFits s') (h : SourceFits identity s) : SourceFits identity s' := by
  refine ⟨h.1, ?_, ?_, ?_, ?_, hwindow.observed, fun t ht => (hwindow.boundary t ht).1⟩
  · exact hsame.sourceRef ▸ h.2.1
  · exact hsame.providerType ▸ h.2.2.1
  · exact hsame.bucketId ▸ h.2.2.2.1
  · exact hsame.sourceEpoch ▸ h.2.2.2.2.1

/-! ## Changes that keep a ledger loadable -/

namespace QuotaCycleLedger.Loadable
variable {l : QuotaCycleLedger} {identity : String} {s s' : QuotaCycleSource}

theorem setRevision (h : Loadable l) (revision : ℕ) : Loadable { l with revision := revision } :=
  { schema := h.schema, stream := h.stream, source_fits := h.source_fits, source_inj := h.source_inj,
    cycle_fits := h.cycle_fits, cycle_event := h.cycle_event, event_fits := h.event_fits,
    correction_fits := h.correction_fits, correction_inj := h.correction_inj, chain := h.chain,
    chain_end := h.chain_end, operation_fits := h.operation_fits, request_inj := h.request_inj,
    receipt := h.receipt, cursors := h.cursors, public_fits := h.public_fits }

variable {key : String} {c : QuotaResetCorrection}

theorem operationFits_mono {l' : QuotaCycleLedger}
    (hsource : ∀ ref, (l.source ref).isSome → (l'.source ref).isSome) {o : ResetCreditOperation}
    (h : l.OperationFits key o) : l'.OperationFits key o :=
  ⟨h.1, h.2.1, h.2.2.1, hsource _ h.2.2.2.1, h.2.2.2.2⟩

section
variable (h : Loadable l)
include h

/-- A source can be stored whose reference no other source has. -/
theorem install (hfits : SourceFits identity s')
    (hother : ∀ i t, identity ≠ i → l.sources.get? i = some t → t.sourceRef ≠ s'.sourceRef)
    (hkeep : ∀ t, l.sources.get? identity = some t → s'.sourceRef = t.sourceRef ∧ s'.bucketId = t.bucketId)
    (hcycle : ∀ c, s'.cycle = some c → CycleFits l.streamIncarnation s' c ∧
      ∃ e, l.events.get? (eventKey s'.sourceRef c.eventId) = some e ∧ OpensCycle c e) :
    Loadable (l.putSource identity s') := by
  have hstays : ∀ {i t}, l.sources.get? i = some t → ∃ t', (l.putSource identity s').sources.get? i = some t' ∧
      t'.sourceRef = t.sourceRef ∧ t'.bucketId = t.bucketId := by
    intro i t ht
    by_cases hi : identity = i
    · subst hi
      exact ⟨s', by rw [get?_putSource, if_pos rfl], hkeep t ht⟩
    · exact ⟨t, by rw [get?_putSource, if_neg hi, ht], rfl, rfl⟩
  refine { h with
    source_fits := ?_, source_inj := ?_, cycle_fits := ?_, cycle_event := ?_, event_fits := ?_,
    operation_fits := ?_ }
  · intro i t ht
    obtain ⟨rfl, rfl⟩ | ⟨-, ht⟩ := putSource_cases ht
    · exact hfits
    · exact h.source_fits ht
  · intro i j t u ht hu hrefs
    obtain ⟨rfl, rfl⟩ | ⟨hi, ht'⟩ := putSource_cases ht
    · obtain ⟨rfl, rfl⟩ | ⟨hj, hu'⟩ := putSource_cases hu
      · rfl
      · exact absurd hrefs.symm (hother j u hj hu')
    · obtain ⟨rfl, rfl⟩ | ⟨-, hu'⟩ := putSource_cases hu
      · exact absurd hrefs (hother i t hi ht')
      · exact h.source_inj ht' hu' hrefs
  · intro i t c ht hc
    obtain ⟨rfl, rfl⟩ | ⟨-, ht⟩ := putSource_cases ht
    · exact (hcycle c hc).1
    · exact h.cycle_fits ht hc
  · intro i t c ht hc
    obtain ⟨rfl, rfl⟩ | ⟨-, ht⟩ := putSource_cases ht
    · exact (hcycle c hc).2
    · exact h.cycle_event ht hc
  · intro k e he
    obtain ⟨i, t, ht, hte, hevent⟩ := h.event_fits he
    obtain ⟨t', ht', href, hbucket⟩ := hstays ht
    exact ⟨i, t', ht', href.trans hte, hevent.1, hevent.2.1, hevent.2.2.1, hbucket ▸ hevent.2.2.2.1,
      hevent.2.2.2.2⟩
  · intro k o ho
    refine operationFits_mono (fun ref => ?_) (h.operation_fits ho)
    rw [source_isSome_iff, source_isSome_iff]
    rintro ⟨i, t, ht, rfl⟩
    obtain ⟨t', ht', href, -⟩ := hstays ht
    exact ⟨i, t', ht', href⟩

theorem putSource (hs : l.sources.get? identity = some s)
    (href : s'.sourceRef = s.sourceRef) (hbucket : s'.bucketId = s.bucketId) (hfits : SourceFits identity s')
    (hcycle : ∀ c, s'.cycle = some c → CycleFits l.streamIncarnation s' c ∧
      ∃ e, l.events.get? (eventKey s'.sourceRef c.eventId) = some e ∧ OpensCycle c e) :
    Loadable (l.putSource identity s') := by
  refine h.install hfits (fun i t hi ht hrefs => hi (h.source_inj hs ht (href ▸ hrefs).symm)) (fun t ht => ?_) hcycle
  rw [hs] at ht
  cases ht
  exact ⟨href, hbucket⟩

theorem register (hnew : l.sources.get? identity = none) (hfits : SourceFits identity s)
    (hcycle : s.cycle = none) (href : ∀ i t, l.sources.get? i = some t → t.sourceRef ≠ s.sourceRef) :
    Loadable (l.putSource identity s) := by
  refine h.install hfits (fun i t _ => href i t) (fun t ht => ?_) (fun c hc => ?_)
  · rw [hnew] at ht
    cases ht
  · rw [hcycle] at hc
    cases hc

/-- An event can be stored that fits a source, while the other events stay or need a reconcile. -/
theorem installEvent {event : QuotaResetEvent}
    (hkeep : ∀ {k e}, l.events.get? k = some e → ∃ e', (l.putEvent key event).events.get? k = some e' ∧
      (e' = e ∨ e' = { e with status := .needsReconcile }))
    (hfits : ∃ i t, l.sources.get? i = some t ∧ t.sourceRef = event.sourceRef ∧ EventFits t key event) :
    Loadable (l.putEvent key event) := by
  refine { h with
    cycle_event := ?_, event_fits := ?_, correction_fits := ?_, chain_end := ?_, operation_fits := ?_,
    receipt := ?_ }
  · intro i t c ht hc
    obtain ⟨e, he, hopens⟩ := h.cycle_event ht hc
    obtain ⟨e', he', rfl | rfl⟩ := hkeep he
    · exact ⟨_, he', hopens⟩
    · exact ⟨_, he', hopens.1, hopens.2.1, noConfusion⟩
  · intro k e he
    obtain ⟨rfl, rfl⟩ | ⟨-, he⟩ := putEvent_cases he
    · exact hfits
    · exact h.event_fits he
  · intro c hc
    have hcorrection := h.correction_fits c hc
    obtain ⟨e, he⟩ := isSome_iff_exists.mp hcorrection.1
    obtain ⟨e', he', -⟩ := hkeep he
    refine ⟨?_, hcorrection.2⟩
    rw [he']
    rfl
  · intro k c hc
    obtain ⟨e, he, heff⟩ := h.chain_end hc
    obtain ⟨e', he', rfl | rfl⟩ := hkeep he
    · exact ⟨_, he', heff⟩
    · exact ⟨_, he', heff⟩
  · intro k o ho
    exact operationFits_mono (fun _ => id) (h.operation_fits ho)
  · intro k o ho hstatus
    obtain ⟨e, he, hreceipt⟩ := h.receipt ho hstatus
    obtain ⟨e', he', rfl | rfl⟩ := hkeep he
    · exact ⟨_, he', hreceipt⟩
    · exact ⟨_, he', hreceipt.1, noConfusion⟩

theorem putEvent (event : QuotaResetEvent) (hfresh : l.events.get? key = none)
    (hs : l.sources.get? identity = some s) (href : s.sourceRef = event.sourceRef) (hfits : EventFits s key event) :
    Loadable (l.putEvent key event) :=
  h.installEvent (fun he => ⟨_, putEvent_of_fresh hfresh he, .inl rfl⟩) ⟨identity, s, hs, href, hfits⟩

theorem setNeedsReconcile {previous : QuotaResetEvent}
    (hprevious : l.events.get? key = some previous) :
    Loadable (l.putEvent key { previous with status := .needsReconcile }) := by
  refine h.installEvent (fun {k e} he => ?_) ?_
  · rw [get?_putEvent]
    split
    · rename_i hk
      subst hk
      rw [hprevious] at he
      cases he
      exact ⟨_, rfl, .inr rfl⟩
    · exact ⟨e, he, .inl rfl⟩
  · obtain ⟨i, t, ht, href, hfits⟩ := h.event_fits hprevious
    exact ⟨i, t, ht, href, hfits.1, hfits.2.1, hfits.2.2.1, hfits.2.2.2.1, hfits.2.2.2.2.1,
      hfits.2.2.2.2.2.1, fun hstatus => noConfusion hstatus, fun hstatus => noConfusion hstatus⟩

end

theorem nodup_marks_append {cs : List QuotaResetCorrection} (h : (cs.map mark).Nodup)
    (hc : c.mark ∉ cs.map mark) : ((cs ++ [c]).map mark).Nodup := by
  rw [map_append, map_singleton]
  exact nodup_append_comm.mp (nodup_cons.mpr ⟨hc, h⟩)

theorem noteCorrection (h : Loadable l) (hfits : l.CorrectionFits c)
    (hfresh : c.mark ∉ l.corrections.map mark) (hkept : c.applied = false) :
    Loadable { l with corrections := l.corrections ++ [c] } := by
  have hchain : ∀ key, appliedTo key (l.corrections ++ [c]) = appliedTo key l.corrections :=
    fun key => appliedTo_append_of_not _ (by simp [hkept])
  refine { h with
    correction_fits := ?_, correction_inj := nodup_marks_append h.correction_inj hfresh, chain := ?_,
    chain_end := ?_ }
  · intro c' hc'
    rcases mem_append.mp hc' with hc' | hc'
    · exact h.correction_fits c' hc'
    · rw [mem_singleton.mp hc']
      exact hfits
  · intro key
    show GapFree (appliedTo key (l.corrections ++ [c]))
    rw [hchain key]
    exact h.chain key
  · intro key c' hc'
    have hlast : (appliedTo key (l.corrections ++ [c])).getLast? = some c' := hc'
    rw [hchain key] at hlast
    exact h.chain_end hlast

theorem gapFree_append {cs : List QuotaResetCorrection} (h : GapFree cs)
    (hlast : ∀ c' ∈ cs.getLast?, c.previousEffectiveAtMs = c'.effectiveAtMs) : GapFree (cs ++ [c]) := by
  refine isChain_append.mpr ⟨h, isChain_singleton c, fun c' hc' d hd => ?_⟩
  cases hd
  exact hlast c' hc'

/-- A corrected event extends the chain of its corrections. -/
theorem moveEvent (h : Loadable l) {previous : QuotaResetEvent} (hprevious : l.events.get? c.eventKey = some previous)
    (hidle : ∀ {i t d}, l.sources.get? i = some t → t.cycle = some d →
      eventKey t.sourceRef d.eventId ≠ c.eventKey) (horigin : c.previousEffectiveAtMs = previous.effectiveAtMs)
    (hnonneg : 0 ≤ c.effectiveAtMs) (hdiscovered : c.effectiveAtMs ≤ c.discoveredAtMs)
    (hmoved : c.previousEffectiveAtMs ≠ c.effectiveAtMs)
    (hfresh : c.mark ∉ l.corrections.map mark) (happlied : c.applied = true) :
    Loadable ({ l with corrections := l.corrections ++ [c] }.putEvent c.eventKey (previous.moved c)) := by
  obtain ⟨i, t, ht, href, hfits⟩ := h.event_fits hprevious
  have hself : ({ l with corrections := l.corrections ++ [c] }.putEvent c.eventKey
      (previous.moved c)).events.get? c.eventKey = some (previous.moved c) := by
    rw [get?_putEvent, if_pos rfl]
  have hother : ∀ {k e}, c.eventKey ≠ k → l.events.get? k = some e →
      ({ l with corrections := l.corrections ++ [c] }.putEvent c.eventKey
        (previous.moved c)).events.get? k = some e := by
    intro k e hk he
    rw [get?_putEvent, if_neg hk, he]
  refine { h with
    cycle_event := ?_, event_fits := ?_, correction_fits := ?_,
    correction_inj := nodup_marks_append h.correction_inj hfresh, chain := ?_, chain_end := ?_,
    operation_fits := ?_, receipt := ?_ }
  · intro i' t' d ht' hd
    obtain ⟨e, he, hopens⟩ := h.cycle_event ht' hd
    exact ⟨e, hother (hidle ht' hd).symm he, hopens⟩
  · intro k e he
    obtain ⟨rfl, rfl⟩ | ⟨-, he⟩ := putEvent_cases he
    · exact ⟨i, t, ht, href, hfits.1, hfits.2.1, hfits.2.2.1, hfits.2.2.2.1, hnonneg, hdiscovered, hfits.2.2.2.2.2.2⟩
    · exact h.event_fits he
  · intro d hd
    have hkey : ∀ {k}, (l.events.get? k).isSome →
        (({ l with corrections := l.corrections ++ [c] }.putEvent c.eventKey
          (previous.moved c)).events.get? k).isSome := by
      intro k hk
      rw [get?_putEvent]
      split
      · rfl
      · exact hk
    rcases mem_append.mp hd with hd | hd
    · have hfits := h.correction_fits d hd
      exact ⟨hkey hfits.1, hfits.2⟩
    · rw [mem_singleton.mp hd]
      refine ⟨hkey (by rw [hprevious]; rfl), ?_, hnonneg, hdiscovered, hmoved⟩
      rw [horigin]
      exact hfits.2.2.2.2.1
  · intro key
    show GapFree (appliedTo key (l.corrections ++ [c]))
    by_cases hkey : c.eventKey = key
    · subst hkey
      rw [appliedTo_append_self _ happlied]
      refine gapFree_append (h.chain _) fun d hd => ?_
      obtain ⟨e, he, heff⟩ := h.chain_end hd
      rw [hprevious] at he
      cases he
      rw [horigin, heff]
    · rw [appliedTo_append_of_not _ (by simp [hkey])]
      exact h.chain key
  · intro key d hd
    have hlast : (appliedTo key (l.corrections ++ [c])).getLast? = some d := hd
    by_cases hkey : c.eventKey = key
    · subst hkey
      rw [appliedTo_append_self _ happlied, getLast?_concat] at hlast
      cases hlast
      exact ⟨_, hself, rfl⟩
    · rw [appliedTo_append_of_not _ (by simp [hkey])] at hlast
      obtain ⟨e, he, heff⟩ := h.chain_end hlast
      exact ⟨e, hother hkey he, heff⟩
  · intro k o ho
    exact operationFits_mono (fun _ => id) (h.operation_fits ho)
  · intro k o ho hstatus
    obtain ⟨e, he, hreceipt⟩ := h.receipt ho hstatus
    by_cases hkey : c.eventKey = eventKey o.sourceRef (redeemEventId o.requestId)
    · rw [← hkey] at he ⊢
      rw [hprevious] at he
      cases he
      exact ⟨_, hself, hreceipt⟩
    · exact ⟨e, hother hkey he, hreceipt⟩

end QuotaCycleLedger.Loadable

/-! ## What the moves need of each other -/

def eventCount (l : QuotaCycleLedger) (sourceRef : String) : ℕ :=
  (l.events.values.map QuotaResetEvent.sourceRef).count sourceRef

/-- References are drawn, and the number of a cycle is at most the number of events of its source. -/
structure Kept (ids : OpaqueIds) (drawn : ℕ) (l : QuotaCycleLedger) : Prop where
  drawn_ref : ∀ {i s}, l.sources.get? i = some s → ∃ n < drawn, s.sourceRef = ids.id n
  unopened : ∀ {i s k e}, l.sources.get? i = some s → s.cycle = none → l.events.get? k = some e →
    e.sourceRef ≠ s.sourceRef
  counted : ∀ {i s c}, l.sources.get? i = some s → s.cycle = some c → c.cycleSequence ≤ eventCount l s.sourceRef
  window : ∀ {i s}, l.sources.get? i = some s → WindowFits s

theorem eventCount_putEvent_fresh {l : QuotaCycleLedger} {key : String} (e : QuotaResetEvent)
    (hfresh : l.events.get? key = none) (ref : String) :
    eventCount (l.putEvent key e) ref = eventCount l ref + if e.sourceRef = ref then 1 else 0 := by
  have hperm : ((l.putEvent key e).events.values.map sourceRef).Perm (e.sourceRef :: l.events.values.map sourceRef) :=
    ((insert_perm e hfresh).map Prod.snd).map sourceRef
  unfold eventCount
  rw [hperm.count_eq, count_cons]
  simp only [beq_iff_eq]

theorem eventCount_putEvent {l : QuotaCycleLedger} {key : String} {e : QuotaResetEvent}
    (he : l.events.get? key = some e) (e' : QuotaResetEvent) (href : e'.sourceRef = e.sourceRef) (ref : String) :
    eventCount (l.putEvent key e') ref = eventCount l ref := by
  unfold eventCount putEvent
  rw [map_values_insert he href]

namespace Kept
variable {ids : OpaqueIds} {n : ℕ} {l : QuotaCycleLedger} {identity key : String}
  {s s' : QuotaCycleSource} {e e' : QuotaResetEvent}

section
variable (h : Kept ids n l)
include h

theorem mono {m : ℕ} (hnm : n ≤ m) : Kept ids m l :=
  { h with
    drawn_ref := by
      intro i s hs
      obtain ⟨k, hk, href⟩ := h.drawn_ref hs
      exact ⟨k, by omega, href⟩ }

theorem noColon (hs : l.sources.get? identity = some s) : ':' ∉ s.sourceRef.toList := by
  obtain ⟨k, -, href⟩ := h.drawn_ref hs
  rw [href]
  exact ids.noColon k

theorem putSource (hs : l.sources.get? identity = some s)
    (href : s'.sourceRef = s.sourceRef) (hopen : s'.cycle = none → s.cycle = none)
    (hcount : ∀ c, s'.cycle = some c → c.cycleSequence ≤ eventCount l s.sourceRef)
    (hwindow : WindowFits s') : Kept ids n (l.putSource identity s') := by
  constructor
  · intro i t ht
    obtain ⟨rfl, rfl⟩ | ⟨-, ht⟩ := putSource_cases ht
    · rw [href]
      exact h.drawn_ref hs
    · exact h.drawn_ref ht
  · intro i t k e ht hnone he
    obtain ⟨rfl, rfl⟩ | ⟨-, ht⟩ := putSource_cases ht
    · rw [href]
      exact h.unopened hs (hopen hnone) he
    · exact h.unopened ht hnone he
  · intro i t c ht hc
    obtain ⟨rfl, rfl⟩ | ⟨-, ht⟩ := putSource_cases ht
    · rw [href]
      exact hcount c hc
    · exact h.counted ht hc
  · intro i t ht
    obtain ⟨rfl, rfl⟩ | ⟨-, ht⟩ := putSource_cases ht
    · exact hwindow
    · exact h.window ht

theorem register (href : s.sourceRef = ids.id n) (hcycle : s.cycle = none)
    (hwindow : WindowFits s) (hevents : ∀ {k e}, l.events.get? k = some e → e.sourceRef ≠ s.sourceRef) :
    Kept ids (n + 1) (l.putSource identity s) := by
  constructor
  · intro i t ht
    obtain ⟨rfl, rfl⟩ | ⟨-, ht⟩ := putSource_cases ht
    · exact ⟨n, by omega, href⟩
    · obtain ⟨k, hk, hkref⟩ := h.drawn_ref ht
      exact ⟨k, by omega, hkref⟩
  · intro i t k e ht hnone he
    obtain ⟨rfl, rfl⟩ | ⟨-, ht⟩ := putSource_cases ht
    · exact hevents he
    · exact h.unopened ht hnone he
  · intro i t c ht hc
    obtain ⟨rfl, rfl⟩ | ⟨-, ht⟩ := putSource_cases ht
    · rw [hcycle] at hc
      cases hc
    · exact h.counted ht hc
  · intro i t ht
    obtain ⟨rfl, rfl⟩ | ⟨-, ht⟩ := putSource_cases ht
    · exact hwindow
    · exact h.window ht

theorem putEvent (he : l.events.get? key = some e) (e' : QuotaResetEvent)
    (href : e'.sourceRef = e.sourceRef) : Kept ids n (l.putEvent key e') := by
  refine { h with unopened := ?_, counted := ?_ }
  · intro i t k d ht hnone hd
    obtain ⟨rfl, rfl⟩ | ⟨-, hd⟩ := putEvent_cases hd
    · rw [href]
      exact h.unopened ht hnone he
    · exact h.unopened ht hnone hd
  · intro i t c ht hc
    rw [eventCount_putEvent he e' href]
    exact h.counted ht hc

theorem putEvent_fresh (hl : Loadable l) (hfresh : l.events.get? key = none)
    (hs : l.sources.get? identity = some s) (hcycle : s.cycle ≠ none)
    (href : e.sourceRef = s.sourceRef) : Kept ids n (l.putEvent key e) := by
  refine { h with unopened := ?_, counted := ?_ }
  · intro i t k d ht hnone hd
    obtain ⟨rfl, rfl⟩ | ⟨-, hd⟩ := putEvent_cases hd
    · rw [href]
      intro hrefs
      have hi := hl.source_inj hs ht hrefs
      have hst := hs.symm.trans (hi ▸ ht)
      cases hst
      exact hcycle hnone
    · exact h.unopened ht hnone hd
  · intro i t c ht hc
    rw [eventCount_putEvent_fresh e hfresh]
    have hcount := h.counted ht hc
    omega

theorem putSource_putEvent (hl : Loadable l) {c : AccountQuotaCycle}
    (hfresh : l.events.get? key = none) (hs : l.sources.get? identity = some s)
    (href : s'.sourceRef = s.sourceRef) (hcycle : s'.cycle = some c)
    (hcount : c.cycleSequence ≤ eventCount l s.sourceRef + 1) (hwindow : WindowFits s')
    (heref : e.sourceRef = s.sourceRef) :
    Kept ids n ((l.putSource identity s').putEvent key e) := by
  constructor
  · intro i t ht
    obtain ⟨rfl, rfl⟩ | ⟨-, ht⟩ := putSource_cases ht
    · rw [href]
      exact h.drawn_ref hs
    · exact h.drawn_ref ht
  · intro i t k d ht hnone hd
    obtain ⟨rfl, rfl⟩ | ⟨hi, ht'⟩ := putSource_cases ht
    · rw [hcycle] at hnone
      cases hnone
    · obtain ⟨rfl, rfl⟩ | ⟨-, hd'⟩ := putEvent_cases hd
      · rw [heref]
        exact fun hrefs => hi (hl.source_inj hs ht' hrefs)
      · exact h.unopened ht' hnone hd'
  · intro i t d ht hd
    have heq : eventCount ((l.putSource identity s').putEvent key e) t.sourceRef =
        eventCount l t.sourceRef + if e.sourceRef = t.sourceRef then 1 else 0 :=
      eventCount_putEvent_fresh e hfresh t.sourceRef
    rw [heq]
    obtain ⟨rfl, rfl⟩ | ⟨-, ht⟩ := putSource_cases ht
    · rw [hcycle] at hd
      cases hd
      rw [if_pos (heref.trans href.symm), href]
      exact hcount
    · have hcounted := h.counted ht hd
      omega
  · intro i t ht
    obtain ⟨rfl, rfl⟩ | ⟨-, ht⟩ := putSource_cases ht
    · exact hwindow
    · exact h.window ht

end

end Kept

/-! ## Every move keeps the ledger sound -/

/-- The ledger can be loaded, and its numbers never exceed what it has seen. -/
structure Sound (ids : OpaqueIds) (w : World) : Prop where
  loadable : Loadable w.ledger
  kept : Kept ids w.drawn w.ledger

namespace Sound
variable {ids : OpaqueIds} {w : World} {identity : String} {s s' : QuotaCycleSource} {c : AccountQuotaCycle}

theorem setRevision (h : Sound ids w) (revision : ℕ) :
    Sound ids (w.setLedger { w.ledger with revision := revision }) :=
  ⟨h.loadable.setRevision revision, ⟨h.kept.drawn_ref, h.kept.unopened, h.kept.counted, h.kept.window⟩⟩

variable {eventId : String} {event previous : QuotaResetEvent} {correction : QuotaResetCorrection}

section
variable (h : Sound ids w)
include h

theorem ref_eq_of_key (hs : w.ledger.sources.get? identity = some s) {e : QuotaResetEvent}
    (he : w.ledger.events.get? (eventKey s.sourceRef eventId) = some e) :
    e.sourceRef = s.sourceRef ∧ e.eventId = eventId := by
  obtain ⟨i, t, ht, href, hfits⟩ := h.loadable.event_fits he
  have hkey := hfits.2.2.1
  rw [← href] at hkey ⊢
  obtain ⟨hrefs, hids⟩ := eventKey_inj (h.kept.noColon hs) (h.kept.noColon ht) hkey
  exact ⟨hrefs.symm, hids.symm⟩

theorem fresh_of_unopened (hs : w.ledger.sources.get? identity = some s)
    (hcycle : s.cycle = none) (eventId : String) :
    w.ledger.events.get? (eventKey s.sourceRef eventId) = none := by
  cases he : w.ledger.events.get? (eventKey s.sourceRef eventId) with
  | none => rfl
  | some e => exact absurd (h.ref_eq_of_key hs he).1 (h.kept.unopened hs hcycle he)

theorem register (hnew : w.ledger.sources.get? identity = none)
    (hfits : SourceFits identity s) (href : s.sourceRef = ids.id w.drawn) (hcycle : s.cycle = none)
    (hwindow : WindowFits s) :
    Sound ids { w with ledger := w.ledger.putSource identity s, drawn := w.drawn + 1 } := by
  have hrefs : ∀ i t, w.ledger.sources.get? i = some t → t.sourceRef ≠ s.sourceRef := by
    intro i t ht heq
    obtain ⟨k, hk, hkref⟩ := h.kept.drawn_ref ht
    have hkn := ids.injective (hkref.symm.trans (heq.trans href))
    omega
  refine ⟨h.loadable.register hnew hfits hcycle hrefs, h.kept.register href hcycle hwindow ?_⟩
  intro k e he
  obtain ⟨i, t, ht, hte, -⟩ := h.loadable.event_fits he
  rw [← hte]
  exact hrefs i t ht

theorem reviseSource (hs : w.ledger.sources.get? identity = some s)
    (hsame : SameScope s s') (hwindow : WindowFits s') :
    Sound ids (w.setLedger (w.ledger.putSource identity s')) := by
  refine ⟨h.loadable.putSource hs hsame.sourceRef hsame.bucketId
      (hsame.fits hwindow (h.loadable.source_fits hs)) fun c hc => ?_,
    h.kept.putSource hs hsame.sourceRef (fun hnone => hsame.cycle ▸ hnone) (fun c hc => ?_) hwindow⟩
  · rw [hsame.cycle] at hc
    have hcycle := h.loadable.cycle_fits hs hc
    refine ⟨?_, hsame.sourceRef ▸ h.loadable.cycle_event hs hc⟩
    exact ⟨hcycle.1, hsame.sourceRef ▸ hcycle.2.1, hsame.sourceEpoch ▸ hcycle.2.2.1,
      hsame.bucketId ▸ hcycle.2.2.2.1, hcycle.2.2.2.2⟩
  · rw [hsame.cycle] at hc
    exact h.kept.counted hs hc

theorem takeOver (replaced : List AccountQuotaCycle) (hs : w.ledger.sources.get? identity = some s)
    (hfresh : w.ledger.events.get? (eventKey s'.sourceRef eventId) = none)
    (hsame : SameScope { s with cycle := some c } s') (hwindow : WindowFits s')
    (hcycle : CycleFits w.ledger.streamIncarnation s' c) (hcycleEvent : c.eventId = eventId)
    (href : event.sourceRef = s'.sourceRef) (hfits : EventFits s' (eventKey s'.sourceRef eventId) event)
    (hopens : OpensCycle c event) (hcount : c.cycleSequence ≤ eventCount w.ledger s.sourceRef + 1) :
    Sound ids
      { ledger := ((w.ledger.putSource identity s').putEvent (eventKey s'.sourceRef eventId) event).bumpRevision,
        drawn := w.drawn + 1, replaced := replaced } := by
  have hevent := h.loadable.putEvent event hfresh hs (hsame.sourceRef.symm.trans href.symm)
    ⟨hfits.1, hfits.2.1, hfits.2.2.1, hfits.2.2.2.1.trans hsame.bucketId, hfits.2.2.2.2⟩
  have hnew : (w.ledger.putEvent (eventKey s'.sourceRef eventId) event).events.get?
      (eventKey s'.sourceRef c.eventId) = some event := by
    rw [get?_putEvent, hcycleEvent, if_pos rfl]
  have hsource := h.loadable.source_fits hs
  refine ⟨(hevent.putSource hs hsame.sourceRef hsame.bucketId (hsame.fits hwindow hsource)
    fun d hd => ?_).setRevision _, ?_⟩
  · rw [hsame.cycle] at hd
    cases hd
    exact ⟨hcycle, event, hnew, hopens⟩
  · have hkept := (h.kept.mono (Nat.le_succ w.drawn)).putSource_putEvent h.loadable hfresh hs
      hsame.sourceRef hsame.cycle hcount hwindow (href.trans hsame.sourceRef)
    exact ⟨hkept.drawn_ref, hkept.unopened, hkept.counted, hkept.window⟩

section
variable (hs : w.ledger.sources.get? identity = some s)
include hs

theorem openCycle {startsAtMs observedAtMs : ℤ} {endsAtMs : Option ℤ} {basis : QuotaTimeBasis}
    (hcycle : s.cycle = none) (hsame : SameScope s s')
    (hwindow : WindowFits s') (hargs : EventArgs eventId startsAtMs observedAtMs)
    (hends : ∀ e ∈ endsAtMs, startsAtMs < e) :
    Sound ids (w.openCycle ids identity s' eventId startsAtMs endsAtMs observedAtMs basis) := by
  have hfresh : w.ledger.events.get? (eventKey s'.sourceRef eventId) = none :=
    hsame.sourceRef ▸ h.fresh_of_unopened hs hcycle eventId
  refine h.takeOver w.replaced hs hfresh
    ⟨hsame.sourceRef, hsame.sourceEpoch, hsame.providerType, hsame.bucketId, rfl⟩
    ⟨hwindow.observed, hwindow.boundary⟩ ?_ rfl rfl ?_ ?_ ?_
  · exact ⟨rfl, rfl, rfl, rfl, ids.nonempty _, Nat.one_ne_zero, Nat.one_ne_zero, hargs.nonneg, hargs.discovered, hends⟩
  · exact ⟨hargs.nonempty, hargs.short, rfl, rfl, hargs.nonneg, hargs.discovered,
      fun _ => ids.nonempty _, fun hstatus => noConfusion hstatus⟩
  · exact ⟨rfl, rfl, noConfusion⟩
  · exact Nat.le_add_left 1 _

theorem advanceCycle (hc : s.cycle = some c)
    (hevent : Announces w.ledger s event) (hstatus : event.status = .committed) :
    Sound ids (w.advanceCycle ids identity s c (c.cycleSequence + 1) event) := by
  have hfits := h.loadable.cycle_fits hs hc
  have hwindow := h.kept.window hs
  refine h.takeOver (w.replaced ++ [c]) hs hevent.fresh ⟨rfl, rfl, rfl, rfl, rfl⟩
    ⟨hwindow.observed, hwindow.boundary⟩ ?_ rfl hevent.sourceRef ?_ ?_ ?_
  · refine ⟨hfits.1, hfits.2.1, hfits.2.2.1, hfits.2.2.2.1, ids.nonempty _, Nat.succ_ne_zero _,
      Nat.one_ne_zero, hevent.args.nonneg, hevent.args.discovered, fun e he => ?_⟩
    simpa using (mem_filter_iff.mp he).2
  · exact ⟨hevent.args.nonempty, hevent.args.short, by rw [hevent.sourceRef], hevent.bucketId,
      hevent.args.nonneg, hevent.args.discovered, fun _ => ids.nonempty _,
      fun hhistorical => noConfusion (hstatus.symm.trans hhistorical)⟩
  · exact ⟨rfl, rfl, fun hhistorical => noConfusion (hstatus.symm.trans hhistorical)⟩
  · exact Nat.succ_le_succ (h.kept.counted hs hc)

theorem extendCycle {endsAtMs observedAtMs : ℤ} {cycleRevision : ℕ} (hc : s.cycle = some c)
    (hrevision : cycleRevision = c.cycleRevision ∨ 0 < cycleRevision)
    (hobserved : c.observedAtMs ≤ observedAtMs) (hends : observedAtMs < endsAtMs) :
    Sound ids (w.setLedger (w.ledger.putSource identity { s with cycle := some { c with
      endsAtMs := some endsAtMs, cycleRevision := cycleRevision, observedAtMs := observedAtMs } })) := by
  have hfits := h.loadable.cycle_fits hs hc
  have hevent := h.loadable.cycle_event hs hc
  have hcount := h.kept.counted hs hc
  have hsource := h.loadable.source_fits hs
  have hwindow := h.kept.window hs
  refine ⟨h.loadable.putSource hs rfl rfl hsource fun d hd => ?_,
    h.kept.putSource hs rfl (fun hnone => by cases hnone) (fun d hd => ?_) ⟨hwindow.observed, hwindow.boundary⟩⟩
  · cases hd
    obtain ⟨hstream, href, hepoch, hbucket, hid, hseq, hrev, hstart, hseen, -⟩ := hfits
    refine ⟨⟨hstream, href, hepoch, hbucket, hid, hseq, ?_, hstart, ?_, fun e he => ?_⟩, hevent⟩
    · show cycleRevision ≠ 0
      omega
    · show c.startsAtMs ≤ observedAtMs
      omega
    · cases he
      show c.startsAtMs < endsAtMs
      omega
  · cases hd
    exact hcount

end

theorem quarantineEvent (hcorrects : Corrects w.ledger s c eventId previous correction)
    (hkept : correction.applied = false) : Sound ids (w.quarantineEvent previous correction) := by
  obtain ⟨i, t, -, -, hfits⟩ := h.loadable.event_fits hcorrects.event
  have hnote : Loadable { w.ledger with corrections := w.ledger.corrections ++ [correction] } := by
    refine h.loadable.noteCorrection ⟨by rw [hcorrects.event]; rfl, ?_, hcorrects.args.nonneg,
      hcorrects.args.discovered, ?_⟩ hcorrects.fresh hkept
    · rw [hcorrects.origin]
      exact hfits.2.2.2.2.1
    · rw [hcorrects.origin]
      exact hcorrects.moved
  refine ⟨(hnote.setNeedsReconcile hcorrects.event).setRevision _, ?_⟩
  have hput := h.kept.putEvent hcorrects.event { previous with status := .needsReconcile } rfl
  exact ⟨hput.drawn_ref, hput.unopened, hput.counted, hput.window⟩

theorem fileEvent (hs : w.ledger.sources.get? identity = some s) (hc : s.cycle = some c)
    (hevent : Announces w.ledger s event) (hfiled : event.status = .historical ∧ event.cycleId = "" ∨
      event.status = .committed ∧ event.cycleId = c.cycleId) : Sound ids (w.fileEvent event) := by
  have hfresh : w.ledger.events.get? (eventKey event.sourceRef event.eventId) = none := hevent.sourceRef ▸ hevent.fresh
  have hfits : EventFits s (eventKey event.sourceRef event.eventId) event := by
    refine ⟨hevent.args.nonempty, hevent.args.short, rfl, hevent.bucketId, hevent.args.nonneg,
      hevent.args.discovered, fun hcommitted => ?_, fun hhistorical => ?_⟩
    · obtain ⟨hstatus, -⟩ | ⟨-, hid⟩ := hfiled
      · exact QuotaEventStatus.noConfusion (hstatus.symm.trans hcommitted)
      · rw [hid]
        exact (h.loadable.cycle_fits hs hc).2.2.2.2.1
    · obtain ⟨-, hid⟩ | ⟨hstatus, -⟩ := hfiled
      · exact hid
      · exact QuotaEventStatus.noConfusion (hstatus.symm.trans hhistorical)
  refine ⟨(h.loadable.putEvent event hfresh hs hevent.sourceRef.symm hfits).setRevision _, ?_⟩
  have hput := h.kept.putEvent_fresh h.loadable hfresh hs (by rw [hc]; exact Option.some_ne_none c) hevent.sourceRef
  exact ⟨hput.drawn_ref, hput.unopened, hput.counted, hput.window⟩

end

theorem correctable_of_applied {l : QuotaCycleLedger} (h : Corrects l s c eventId previous correction)
    (happlied : correction.applied = true) :
    previous.cycleId = c.cycleId ∧ c.eventId = eventId ∧
      correction.effectiveAtMs < c.endsAtMs.getD i64Max ∧
      ∀ boundary ∈ l.earlierBoundary s.sourceRef c, boundary < correction.effectiveAtMs := by
  have hcorrectable := h.applied
  rw [happlied, eq_comm, decide_eq_true_eq] at hcorrectable
  unfold Correctable at hcorrectable
  push Not at hcorrectable
  exact hcorrectable

theorem opening_of_applied (h : Sound ids w) (hs : w.ledger.sources.get? identity = some s)
    (hc : s.cycle = some c) (hcorrects : Corrects w.ledger s c eventId previous correction)
    (happlied : correction.applied = true) :
    correction.eventKey = eventKey s.sourceRef c.eventId ∧ OpensCycle c previous := by
  obtain ⟨-, heventId, -, -⟩ := correctable_of_applied hcorrects happlied
  have hkey : correction.eventKey = eventKey s.sourceRef c.eventId := by
    rw [hcorrects.key, heventId]
  obtain ⟨own, hown, hopens⟩ := h.loadable.cycle_event hs hc
  rw [← hkey, hcorrects.event] at hown
  cases hown
  exact ⟨hkey, hopens⟩

theorem cycleFits_moved {stream : String} {l : QuotaCycleLedger} (basis : QuotaTimeBasis)
    (hfits : CycleFits stream s c) (hcorrects : Corrects l s c eventId previous correction)
    (happlied : correction.applied = true) : CycleFits stream s (c.moved correction basis) := by
  obtain ⟨-, -, hends, -⟩ := correctable_of_applied hcorrects happlied
  obtain ⟨hstream, href, hepoch, hbucket, hid, hseq, -, -, -, -⟩ := hfits
  refine ⟨hstream, href, hepoch, hbucket, hid, hseq, (saturatingSucc_pos _).ne',
    hcorrects.args.nonneg, le_trans hcorrects.args.discovered (le_max_right _ _), fun e he => ?_⟩
  have hsome : c.endsAtMs = some e := he
  rw [hsome, getD_some] at hends
  exact hends

theorem moveCycle (h : Sound ids w) {basis : QuotaTimeBasis} (hs : w.ledger.sources.get? identity = some s)
    (hc : s.cycle = some c) (hcorrects : Corrects w.ledger s c eventId previous correction)
    (happlied : correction.applied = true) : Sound ids (w.moveCycle identity s c previous correction basis) := by
  obtain ⟨hkey, hopens⟩ := h.opening_of_applied hs hc hcorrects happlied
  have hsource := h.loadable.source_fits hs
  have hfits := cycleFits_moved basis (h.loadable.cycle_fits hs hc) hcorrects happlied
  -- between the two states the source has no cycle, so that its event can move alone
  have hidle : Loadable (w.ledger.putSource identity { s with cycle := none }) :=
    h.loadable.putSource hs rfl rfl hsource fun d hd => by cases hd
  have hunused : ∀ {i t d},
      (w.ledger.putSource identity { s with cycle := none }).sources.get? i = some t →
      t.cycle = some d → eventKey t.sourceRef d.eventId ≠ correction.eventKey := by
    intro i t d ht hd hkeys
    obtain ⟨rfl, rfl⟩ | ⟨hi, ht⟩ := putSource_cases ht
    · cases hd
    · rw [hkey] at hkeys
      have hrefs := (eventKey_inj (h.kept.noColon ht) (h.kept.noColon hs) hkeys).1
      exact hi (h.loadable.source_inj hs ht hrefs.symm)
  have hevent := hidle.moveEvent hcorrects.event hunused hcorrects.origin hcorrects.args.nonneg
    hcorrects.args.discovered (hcorrects.origin ▸ hcorrects.moved) hcorrects.fresh happlied
  have hnone : ({ w.ledger.putSource identity { s with cycle := none } with
      corrections := w.ledger.corrections ++ [correction] }.putEvent correction.eventKey
        (previous.moved correction)).sources.get? identity = some { s with cycle := none } :=
    OrderedMap.get?_insert_self _ _ _
  have hmoved : Loadable (({ w.ledger.putSource identity { s with cycle := none } with
      corrections := w.ledger.corrections ++ [correction] }.putEvent correction.eventKey
        (previous.moved correction)).putSource identity { s with cycle := some (c.moved correction basis) }) := by
    refine hevent.putSource hnone rfl rfl hsource fun d hd => ?_
    cases hd
    refine ⟨hfits, previous.moved correction, ?_, hopens.1, rfl, hopens.2.2⟩
    show (OrderedMap.insert _ _ _).get? (eventKey s.sourceRef c.eventId) = _
    rw [← hkey, OrderedMap.get?_insert_self]
  have hdirect : ({ w.ledger.putSource identity { s with cycle := none } with
      corrections := w.ledger.corrections ++ [correction] }.putEvent correction.eventKey
        (previous.moved correction)).putSource identity { s with cycle := some (c.moved correction basis) } =
      ({ w.ledger with corrections := w.ledger.corrections ++ [correction] }.putEvent
        correction.eventKey (previous.moved correction)).putSource identity
          { s with cycle := some (c.moved correction basis) } := by
    unfold QuotaCycleLedger.putSource QuotaCycleLedger.putEvent
    rw [OrderedMap.insert_insert]
  rw [hdirect] at hmoved
  have hcount := h.kept.counted hs hc
  have hwindow := h.kept.window hs
  have hkept := h.kept.putEvent hcorrects.event (previous.moved correction) rfl
  have hput : Kept ids w.drawn ((w.ledger.putEvent correction.eventKey
      (previous.moved correction)).putSource identity { s with cycle := some (c.moved correction basis) }) := by
    refine hkept.putSource hs rfl (fun hd => by cases hd) (fun d hd => ?_) ⟨hwindow.observed, hwindow.boundary⟩
    cases hd
    rw [eventCount_putEvent hcorrects.event (previous.moved correction) rfl]
    exact hcount
  exact ⟨hmoved.setRevision _, ⟨hput.drawn_ref, hput.unopened, hput.counted, hput.window⟩⟩

theorem default (ids : OpaqueIds) : Sound ids (World.default ids) := by
  have hsource : ∀ {i s}, (World.default ids).ledger.sources.get? i ≠ some s := (some_ne_none _).symm
  have hevent : ∀ {k e}, (World.default ids).ledger.events.get? k ≠ some e := (some_ne_none _).symm
  have hcursor : CursorFits {} := by decide
  have hoperation : ∀ {k o}, (World.default ids).ledger.operations.get? k ≠ some o := (some_ne_none _).symm
  refine ⟨?_, ?_⟩
  · exact
      { schema := rfl
        stream := ids.nonempty 0
        source_fits := fun hs => absurd hs hsource
        source_inj := fun hs => absurd hs hsource
        cycle_fits := fun hs => absurd hs hsource
        cycle_event := fun hs => absurd hs hsource
        event_fits := fun he => absurd he hevent
        correction_fits := fun _ hc => absurd hc not_mem_nil
        correction_inj := nodup_nil
        chain := fun _ => List.IsChain.nil
        chain_end := fun hc => absurd hc (some_ne_none _).symm
        operation_fits := fun ho => absurd ho hoperation
        request_inj := fun ho => absurd ho hoperation
        receipt := fun ho => absurd ho hoperation
        cursors := ⟨hcursor, hcursor⟩
        public_fits := fun _ hentry => absurd hentry not_mem_nil }
  · exact
      { drawn_ref := fun hs => absurd hs hsource
        unopened := fun hs => absurd hs hsource
        counted := fun hs => absurd hs hsource
        window := fun hs => absurd hs hsource }

end Sound

/-! ## Whole calls -/

theorem Move.size_le {ids : OpaqueIds} {a : Act} {w w' : World} (h : Move ids a w w') :
    w.ledger.events.size ≤ w'.ledger.events.size := by
  cases h with
  | register | setRevision | reviseSource | extendCycle | exhaustSequence => exact le_refl _
  | openCycle | openAtBoundary | quarantine | moveCycle | advanceCycle | fileEvent =>
    exact size_le_insert _ _ _

theorem eventCount_le_size (l : QuotaCycleLedger) (ref : String) : eventCount l ref ≤ l.events.size := by
  unfold eventCount size
  refine le_trans count_le_length ?_
  simp [values]

/-- To run out of cycle numbers a source would need as many events as there are `u64` values. -/
theorem Sound.move {ids : OpaqueIds} {a : Act} {w w' : World} (h : Sound ids w)
    (hroom : w.ledger.events.size < u64Max) (hmove : Move ids a w w') : Sound ids w' := by
  cases hmove with
  | register hnew hfits href hcycle hwindow => exact h.register hnew hfits href hcycle hwindow
  | setRevision revision => exact h.setRevision revision
  | reviseSource hs hsame hwindow => exact h.reviseSource hs hsame (hwindow (h.kept.window hs))
  | openCycle hs hcycle hargs hends =>
    exact h.openCycle hs hcycle ⟨rfl, rfl, rfl, rfl, rfl⟩ (h.kept.window hs) hargs hends
  | openAtBoundary hs hcycle hboundary hdue =>
    have hwindow := h.kept.window hs
    obtain ⟨hnonneg, hmax⟩ := hwindow.boundary _ hboundary
    refine h.openCycle hs hcycle ⟨rfl, rfl, rfl, rfl, rfl⟩ ⟨hwindow.observed, ?_⟩ ?_ ?_
    · intro t ht
      cases ht
    · exact ⟨decimal_eventId_nonempty _ (by decide), decimal_eventId_short (by decide) hnonneg hmax, hnonneg, hdue⟩
    · intro e he
      cases he
  | extendCycle hs hcycle hrevision hobserved hends =>
    exact h.extendCycle hs hcycle hrevision hobserved hends
  | quarantine hs hcycle hcorrects hkept => exact h.quarantineEvent hcorrects hkept
  | moveCycle hs hcycle hcorrects happlied => exact h.moveCycle hs hcycle hcorrects happlied
  | advanceCycle hs hcycle hevent hstatus hlater _ => exact h.advanceCycle hs hcycle hevent hstatus
  | exhaustSequence hs hcycle hfull =>
    have hcount := h.kept.counted hs hcycle
    have hsize := le_trans hcount (eventCount_le_size w.ledger _)
    omega
  | fileEvent hs hcycle hevent hfiled =>
    refine h.fileEvent hs hcycle hevent (hfiled.imp ?_ ?_)
    · exact fun hhistory => ⟨hhistory.1, hhistory.2.1⟩
    · exact fun hdouble => ⟨hdouble.1, hdouble.2.1⟩

end CcSwitchServer.QuotaCycle
