import CcSwitchServer.QuotaCycle.Schema

/-! # What a loaded ledger is checked for

`validate` runs at every load; `Loadable` says the same without loops.
-/

namespace CcSwitchServer.QuotaCycle
open Foundations QuotaResetCorrection List OrderedMap

def isFeedChar (c : Char) : Bool := Text.isAsciiAlphanumeric c || c == '_' || c == '-'

namespace QuotaCycleLedger

/-! ## The checks -/

def CycleFits (stream : String) (s : QuotaCycleSource) (c : AccountQuotaCycle) : Prop :=
  c.streamIncarnation = stream ∧ c.sourceRef = s.sourceRef ∧ c.sourceEpoch = s.sourceEpoch ∧
    c.bucketId = s.bucketId ∧ c.cycleId ≠ "" ∧ c.cycleSequence ≠ 0 ∧ c.cycleRevision ≠ 0 ∧
    0 ≤ c.startsAtMs ∧ c.startsAtMs ≤ c.observedAtMs ∧ ∀ e ∈ c.endsAtMs, c.startsAtMs < e

instance (stream : String) (s : QuotaCycleSource) (c : AccountQuotaCycle) :
    Decidable (CycleFits stream s c) := by
  unfold CycleFits
  infer_instance

def OpensCycle (c : AccountQuotaCycle) (e : QuotaResetEvent) : Prop :=
  e.cycleId = c.cycleId ∧ e.effectiveAtMs = c.startsAtMs ∧ e.status ≠ .historical

instance (c : AccountQuotaCycle) (e : QuotaResetEvent) : Decidable (OpensCycle c e) := by
  unfold OpensCycle
  infer_instance

variable (l : QuotaCycleLedger)

def validateCycle (s : QuotaCycleSource) (c : AccountQuotaCycle) : Except QuotaError Unit := do
  ensure (CycleFits l.streamIncarnation s c) .quotaCycleInvalid
  let event ← context (l.events.get? (eventKey s.sourceRef c.eventId)) .quotaCycleEventMissing
  ensure (OpensCycle c event) .quotaCycleEventMismatch

def SourceFits (identity : String) (s : QuotaCycleSource) : Prop :=
  identity ≠ "" ∧ s.sourceRef ≠ "" ∧ s.providerType ≠ "" ∧ s.bucketId ≠ "" ∧ s.sourceEpoch ≠ 0 ∧
    0 ≤ s.lastObservedAtMs ∧ ∀ t ∈ s.nextBoundaryMs, 0 ≤ t

instance (identity : String) (s : QuotaCycleSource) : Decidable (SourceFits identity s) := by
  unfold SourceFits
  infer_instance

/-- References are unique, and the event of the current cycle is there. -/
def validateSource (refs : List String) (entry : String × QuotaCycleSource) : Except QuotaError (List String) := do
  ensure (SourceFits entry.1 entry.2 ∧ entry.2.sourceRef ∉ refs) .quotaSourceInvalid
  (match entry.2.cycle with
    | some cycle => l.validateCycle entry.2 cycle
    | none => pure ())
  pure (entry.2.sourceRef :: refs)

def EventFits (s : QuotaCycleSource) (key : String) (e : QuotaResetEvent) : Prop :=
  e.eventId ≠ "" ∧ e.eventId.utf8ByteSize ≤ 256 ∧ key = eventKey e.sourceRef e.eventId ∧
    e.bucketId = s.bucketId ∧ 0 ≤ e.effectiveAtMs ∧ e.effectiveAtMs ≤ e.discoveredAtMs ∧
    (e.status = .committed → e.cycleId ≠ "") ∧ (e.status = .historical → e.cycleId = "")

instance (s : QuotaCycleSource) (key : String) (e : QuotaResetEvent) :
    Decidable (EventFits s key e) := by
  unfold EventFits
  infer_instance

def validateEvent (entry : String × QuotaResetEvent) : Except QuotaError Unit := do
  let source ← context (l.source entry.2.sourceRef) .quotaEventSourceMissing
  ensure (EventFits source entry.1 entry.2) .quotaEventInvalid

def CorrectionFits (c : QuotaResetCorrection) : Prop :=
  (l.events.get? c.eventKey).isSome ∧ 0 ≤ c.previousEffectiveAtMs ∧ 0 ≤ c.effectiveAtMs ∧
    c.effectiveAtMs ≤ c.discoveredAtMs ∧ c.previousEffectiveAtMs ≠ c.effectiveAtMs

instance (l : QuotaCycleLedger) (c : QuotaResetCorrection) : Decidable (l.CorrectionFits c) := by
  unfold CorrectionFits
  infer_instance

/-- The loop carries the corrections met so far and, for each event, the time that its last applied
correction gave it. -/
def validateCorrection (met : List (String × ℤ × ℤ × Bool) × OrderedMap String ℤ) (c : QuotaResetCorrection) :
    Except QuotaError (List (String × ℤ × ℤ × Bool) × OrderedMap String ℤ) := do
  ensure (l.CorrectionFits c ∧ c.mark ∉ met.1) .quotaCorrectionInvalid
  if c.applied then
    ensure (∀ t ∈ met.2.get? c.eventKey, t = c.previousEffectiveAtMs) .quotaCorrectionChainInvalid
    pure (c.mark :: met.1, met.2.insert c.eventKey c.effectiveAtMs)
  else
    pure (c.mark :: met.1, met.2)

def OperationFits (key : String) (o : ResetCreditOperation) : Prop :=
  o.operationId ≠ "" ∧ key = o.operationId ∧ o.requestId ≠ "" ∧ (l.source o.sourceRef).isSome ∧
    0 ≤ o.createdAtMs ∧ (∀ t ∈ o.confirmedAtMs, o.createdAtMs ≤ t) ∧
    (o.status = .confirmed ↔ o.confirmedAtMs.isSome) ∧
    (o.status = .confirmed ∨ o.status = .rejected → o.result.isSome)

instance (l : QuotaCycleLedger) (key : String) (o : ResetCreditOperation) :
    Decidable (l.OperationFits key o) := by
  unfold OperationFits
  infer_instance

def redeemEventId (requestId : String) : String := "redeem:" ++ requestId

def IsReceipt (e : QuotaResetEvent) : Prop := e.basis = .redeemConfirmation ∧ e.status ≠ .historical

instance (e : QuotaResetEvent) : Decidable (IsReceipt e) := by
  unfold IsReceipt
  infer_instance

def validateOperation (requestIds : List String)
    (entry : String × ResetCreditOperation) : Except QuotaError (List String) := do
  ensure (l.OperationFits entry.1 entry.2 ∧ entry.2.requestId ∉ requestIds) .quotaResetOperationInvalid
  (if entry.2.status = .confirmed then do
    let event ← context
      (l.events.get? (eventKey entry.2.sourceRef (redeemEventId entry.2.requestId)))
      .quotaResetReceiptEventMissing
    ensure (IsReceipt event) .quotaResetReceiptEventInvalid
  else pure ())
  pure (entry.2.requestId :: requestIds)

def CursorFits (c : PublicResetCursor) : Prop :=
  (∀ t ∈ [c.fromAtMs, c.checkedAtMs, c.retryAtMs, c.highWatermarkMs].reduceOption, 0 ≤ t) ∧
    (∀ etag ∈ c.etag, etag.utf8ByteSize ≤ 1024 ∧ '\r' ∉ etag.toList ∧ '\n' ∉ etag.toList) ∧
    (∀ v ∈ c.nextCursor, v ≠ "" ∧ v.utf8ByteSize ≤ 1024 ∧ v.toList.all isFeedChar) ∧
    (c.nextCursor.isSome → c.fromAtMs.isSome)

instance (c : PublicResetCursor) : Decidable (CursorFits c) := by
  unfold CursorFits
  infer_instance

def PublicEventFits (entry : String × ℤ) : Prop :=
  entry.1 ≠ "" ∧ entry.1.utf8ByteSize ≤ 64 ∧ 0 ≤ entry.2 ∧ entry.1.toList.all isFeedChar

instance (entry : String × ℤ) : Decidable (PublicEventFits entry) := by
  unfold PublicEventFits
  infer_instance

def validate : Except QuotaError Unit := do
  ensure (l.schemaVersion = quotaCycleSchema) .unsupportedQuotaCycleSchema
  ensure (l.streamIncarnation ≠ "") .quotaStreamInvalid
  let _ ← l.sources.entries.foldlM l.validateSource []
  l.events.entries.forM l.validateEvent
  let met ← l.corrections.foldlM l.validateCorrection ([], .empty)
  ensure (∀ entry ∈ met.2.entries, (l.events.get? entry.1).map QuotaResetEvent.effectiveAtMs = some entry.2)
    .quotaCorrectionChainInvalid
  let _ ← l.operations.entries.foldlM l.validateOperation []
  [l.publicCursor, l.publicStatusCursor].forM fun c =>
    ensure (CursorFits c) .quotaPublicCursorInvalid
  ensure (∀ entry ∈ l.publicEvents.entries, PublicEventFits entry) .quotaPublicEventInvalid

/-! ## The same without loops -/

/-- The corrections that moved the event of `key`, in the order they were made. -/
def appliedTo (key : String) (cs : List QuotaResetCorrection) : List QuotaResetCorrection :=
  cs.filter fun c => c.eventKey = key ∧ c.applied

/-- Each correction begins where the one before it ended. -/
def GapFree (cs : List QuotaResetCorrection) : Prop :=
  cs.IsChain fun c c' => c'.previousEffectiveAtMs = c.effectiveAtMs

/-- What the checks say of the whole ledger. -/
structure Loadable (l : QuotaCycleLedger) : Prop where
  schema : l.schemaVersion = quotaCycleSchema
  stream : l.streamIncarnation ≠ ""
  source_fits : ∀ {i s}, l.sources.get? i = some s → SourceFits i s
  source_inj : ∀ {i j s t}, l.sources.get? i = some s → l.sources.get? j = some t → s.sourceRef = t.sourceRef → i = j
  cycle_fits : ∀ {i s c}, l.sources.get? i = some s → s.cycle = some c → CycleFits l.streamIncarnation s c
  cycle_event : ∀ {i s c}, l.sources.get? i = some s → s.cycle = some c →
    ∃ e, l.events.get? (eventKey s.sourceRef c.eventId) = some e ∧ OpensCycle c e
  event_fits : ∀ {k e}, l.events.get? k = some e →
    ∃ i s, l.sources.get? i = some s ∧ s.sourceRef = e.sourceRef ∧ EventFits s k e
  correction_fits : ∀ c ∈ l.corrections, l.CorrectionFits c
  correction_inj : (l.corrections.map mark).Nodup
  chain : ∀ key, GapFree (appliedTo key l.corrections)
  chain_end : ∀ {key c}, (appliedTo key l.corrections).getLast? = some c →
    ∃ e, l.events.get? key = some e ∧ e.effectiveAtMs = c.effectiveAtMs
  operation_fits : ∀ {k o}, l.operations.get? k = some o → l.OperationFits k o
  request_inj : ∀ {k k' o o'}, l.operations.get? k = some o → l.operations.get? k' = some o' →
    o.requestId = o'.requestId → k = k'
  receipt : ∀ {k o}, l.operations.get? k = some o → o.status = .confirmed →
    ∃ e, l.events.get? (eventKey o.sourceRef (redeemEventId o.requestId)) = some e ∧ IsReceipt e
  cursors : CursorFits l.publicCursor ∧ CursorFits l.publicStatusCursor
  public_fits : ∀ entry ∈ l.publicEvents.entries, PublicEventFits entry

namespace Loadable
variable {l : QuotaCycleLedger}

theorem source_eq (h : Loadable l) {i : String} {s : QuotaCycleSource}
    (hs : l.sources.get? i = some s) : l.source s.sourceRef = some s := by
  unfold source
  have hsome : (l.sources.values.find? fun t => t.sourceRef = s.sourceRef).isSome := by
    rw [find?_isSome]
    exact ⟨s, mem_values_iff.mpr ⟨i, hs⟩, by simp⟩
  obtain ⟨t, ht⟩ := Option.isSome_iff_exists.mp hsome
  have href : t.sourceRef = s.sourceRef := by simpa using find?_some ht
  obtain ⟨j, hj⟩ := mem_values_iff.mp (mem_of_find?_eq_some ht)
  have hij := h.source_inj hj hs href
  subst hij
  rw [hs] at hj
  rw [ht, hj]

theorem validate_source (h : Loadable l) {i : String} {s : QuotaCycleSource}
    (hs : l.sources.get? i = some s) {refs : List String} (href : s.sourceRef ∉ refs) :
    l.validateSource refs (i, s) = .ok (s.sourceRef :: refs) := by
  unfold validateSource
  rw [ensure_of ⟨h.source_fits hs, href⟩, ok_bind]
  cases hc : s.cycle with
  | none => rfl
  | some c =>
    obtain ⟨e, he, hopens⟩ := h.cycle_event hs hc
    have hcycle : l.validateCycle s c = .ok () := by
      unfold validateCycle
      rw [ensure_of (h.cycle_fits hs hc), ok_bind, he]
      exact ensure_of hopens
    simp only [hcycle]
    rfl

theorem validate_sources (h : Loadable l) : ∃ refs, l.sources.entries.foldlM l.validateSource [] = .ok refs := by
  refine foldlM_distinct (fun entry => entry.2.sourceRef) (fun refs entry hentry href => ?_) ?_ fun _ _ => not_mem_nil
  · exact h.validate_source (mem_entries_iff.mp hentry) href
  · refine List.Nodup.map_on (fun e he e' he' href => ?_) l.sources.nodup_entries
    have hkey := h.source_inj (mem_entries_iff.mp he) (mem_entries_iff.mp he') href
    exact entry_eq he he' hkey

variable {k : String} {c : QuotaResetCorrection}

theorem validate_event (h : Loadable l) {e : QuotaResetEvent} (he : l.events.get? k = some e) :
    l.validateEvent (k, e) = .ok () := by
  obtain ⟨i, s, hs, href, hfits⟩ := h.event_fits he
  unfold validateEvent
  rw [show l.source e.sourceRef = some s from href ▸ h.source_eq hs]
  exact ensure_of hfits

/-! ### The chains of corrections -/

variable (cs : List QuotaResetCorrection)

/-- What the loop over the corrections has recorded after `cs`. -/
def Met (met : List (String × ℤ × ℤ × Bool) × OrderedMap String ℤ) : Prop :=
  (∀ m, m ∈ met.1 ↔ m ∈ cs.map mark) ∧ ∀ k, met.2.get? k = (appliedTo k cs).getLast?.map effectiveAtMs

theorem appliedTo_append_self (h : c.applied = true) :
    appliedTo c.eventKey (cs ++ [c]) = appliedTo c.eventKey cs ++ [c] := by
  simp [appliedTo, h]

theorem appliedTo_append_of_not (h : ¬(c.eventKey = k ∧ c.applied = true)) :
    appliedTo k (cs ++ [c]) = appliedTo k cs := by
  simp [appliedTo, h]

theorem validate_correction {cs : List QuotaResetCorrection}
    {met : List (String × ℤ × ℤ × Bool) × OrderedMap String ℤ} (hmet : Met cs met) (hfits : l.CorrectionFits c)
    (hnew : c.mark ∉ cs.map mark) (hchain : GapFree (appliedTo c.eventKey (cs ++ [c]))) :
    ∃ met', l.validateCorrection met c = .ok met' ∧ Met (cs ++ [c]) met' := by
  have hmarks : ∀ m, m ∈ c.mark :: met.1 ↔ m ∈ (cs ++ [c]).map mark := by
    intro m
    rw [mem_cons, hmet.1 m, map_append, mem_append, map_singleton, mem_singleton, or_comm]
  unfold validateCorrection
  rw [ensure_of ⟨hfits, fun h => hnew ((hmet.1 _).mp h)⟩, ok_bind]
  cases happ : c.applied with
  | false =>
    refine ⟨(c.mark :: met.1, met.2), rfl, hmarks, fun k => ?_⟩
    rw [appliedTo_append_of_not cs (by simp [happ])]
    exact hmet.2 k
  | true =>
    rw [appliedTo_append_self cs happ] at hchain
    have hprev : ∀ t ∈ met.2.get? c.eventKey, t = c.previousEffectiveAtMs := by
      intro t ht
      rw [hmet.2, Option.mem_def, Option.map_eq_some_iff] at ht
      obtain ⟨last, hlast, rfl⟩ := ht
      exact ((isChain_append.mp hchain).2.2 last (by simpa using hlast) c (by simp)).symm
    refine ⟨(c.mark :: met.1, met.2.insert c.eventKey c.effectiveAtMs), ?_, hmarks, fun k => ?_⟩
    · rw [if_pos rfl, ensure_of hprev]
      rfl
    · by_cases hk : c.eventKey = k
      · subst hk
        rw [get?_insert_self, appliedTo_append_self cs happ]
        simp
      · rw [get?_insert_of_ne _ _ hk, appliedTo_append_of_not cs (by simp [hk])]
        exact hmet.2 k

theorem gapFree_of_append {cs cs' : List QuotaResetCorrection} (h : GapFree (appliedTo k (cs ++ cs'))) :
    GapFree (appliedTo k cs) := by
  unfold appliedTo at h ⊢
  rw [filter_append] at h
  exact (isChain_append.mp h).1

theorem validate_corrections {cs₀ : List QuotaResetCorrection}
    {met : List (String × ℤ × ℤ × Bool) × OrderedMap String ℤ} (hmet : Met cs₀ met)
    (hfits : ∀ c ∈ cs, l.CorrectionFits c) (hnodup : ((cs₀ ++ cs).map mark).Nodup)
    (hchain : ∀ k, GapFree (appliedTo k (cs₀ ++ cs))) :
    ∃ met', cs.foldlM l.validateCorrection met = .ok met' ∧ Met (cs₀ ++ cs) met' := by
  induction cs generalizing cs₀ met with
  | nil => exact ⟨met, rfl, by rwa [append_nil]⟩
  | cons c cs ih =>
    have hsplit : cs₀ ++ c :: cs = (cs₀ ++ [c]) ++ cs := by simp
    have hnew : c.mark ∉ cs₀.map mark := by
      intro hmem
      rw [map_append, nodup_append] at hnodup
      exact hnodup.2.2 _ hmem _ (by simp) rfl
    rw [hsplit] at hnodup hchain ⊢
    obtain ⟨met₁, hok, hmet₁⟩ := validate_correction hmet (hfits c mem_cons_self) hnew
      (gapFree_of_append (hchain c.eventKey))
    obtain ⟨met', hrest, hmet'⟩ := ih hmet₁ (fun c' hc' => hfits c' (mem_cons_of_mem _ hc')) hnodup hchain
    exact ⟨met', by rw [foldlM_cons, hok, ok_bind, hrest], hmet'⟩

/-! ### Operations -/

theorem validate_operation (h : Loadable l) {o : ResetCreditOperation} (ho : l.operations.get? k = some o)
    {requestIds : List String} (hreq : o.requestId ∉ requestIds) :
    l.validateOperation requestIds (k, o) = .ok (o.requestId :: requestIds) := by
  unfold validateOperation
  rw [ensure_of ⟨h.operation_fits ho, hreq⟩, ok_bind]
  by_cases hstatus : o.status = .confirmed
  · obtain ⟨e, he, hreceipt⟩ := h.receipt ho hstatus
    simp only [if_pos hstatus, he, context, ok_bind, ensure_of hreceipt]
    rfl
  · simp only [if_neg hstatus]
    rfl

theorem validate_operations (h : Loadable l) :
    ∃ ids, l.operations.entries.foldlM l.validateOperation [] = .ok ids := by
  refine foldlM_distinct (fun entry => entry.2.requestId) (fun ids entry hentry hreq => ?_) ?_ fun _ _ => not_mem_nil
  · exact h.validate_operation (mem_entries_iff.mp hentry) hreq
  · refine List.Nodup.map_on (fun e he e' he' hreq => ?_) l.operations.nodup_entries
    have hkey := h.request_inj (mem_entries_iff.mp he) (mem_entries_iff.mp he') hreq
    exact entry_eq he he' hkey

end Loadable

/-- The checks pass. -/
theorem validate_of_loadable {l : QuotaCycleLedger} (h : Loadable l) : l.validate = .ok () := by
  obtain ⟨refs, hrefs⟩ := h.validate_sources
  have hevents : l.events.entries.forM l.validateEvent = .ok () :=
    forM_ok fun entry hentry => h.validate_event (mem_entries_iff.mp hentry)
  have hstart : Loadable.Met [] ([], .empty) := ⟨fun m => by simp, fun k => rfl⟩
  obtain ⟨met, hmet, hMet⟩ := Loadable.validate_corrections l.corrections hstart h.correction_fits
    h.correction_inj h.chain
  have hends : ∀ entry ∈ met.2.entries, (l.events.get? entry.1).map QuotaResetEvent.effectiveAtMs = some entry.2 := by
    rintro ⟨k, t⟩ hentry
    rw [mem_entries_iff, hMet.2, Option.map_eq_some_iff] at hentry
    obtain ⟨c, hc, rfl⟩ := hentry
    obtain ⟨e, he, heff⟩ := h.chain_end hc
    simp [he, heff]
  obtain ⟨ids, hids⟩ := h.validate_operations
  have hcursors : ([l.publicCursor, l.publicStatusCursor].forM fun c =>
      ensure (CursorFits c) QuotaError.quotaPublicCursorInvalid) = .ok () := by
    refine forM_ok fun c hc => ensure_of ?_
    rcases mem_pair.mp hc with rfl | rfl
    · exact h.cursors.1
    · exact h.cursors.2
  unfold validate
  rw [ensure_of h.schema, ok_bind, ensure_of h.stream, ok_bind, hrefs, ok_bind, hevents, ok_bind,
    hmet, ok_bind, ensure_of hends, ok_bind, hids, ok_bind, hcursors, ok_bind]
  exact ensure_of h.public_fits

end QuotaCycleLedger

end CcSwitchServer.QuotaCycle
