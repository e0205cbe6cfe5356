import CcSwitchServer.ResponsesTransport.Chunks

/-! # The mode of a Responses stream

The first byte that is not white space decides: a brace or a bracket begins documents.
-/

namespace CcSwitchServer.ResponsesTransport
open Foundations Sse List

theorem trim_append {bytes behind trimmed : List UInt8} {first : UInt8} (h : trimAsciiStart bytes = first :: trimmed) :
    trimAsciiStart (bytes ++ behind) = first :: (trimmed ++ behind) := by
  unfold trimAsciiStart at h ⊢
  rw [dropWhile_append, h]
  rfl

theorem trim_eq_nil {bytes : List UInt8} : trimAsciiStart bytes = [] ↔ bytes.all isAsciiWhitespace = true := by
  unfold trimAsciiStart
  rw [dropWhile_eq_nil_iff, all_eq_true]

theorem trim_blank {blank : List UInt8} (h : blank.all isAsciiWhitespace = true) (bytes : List UInt8) :
    trimAsciiStart (blank ++ bytes) = trimAsciiStart bytes :=
  dropWhile_append_of_pos (all_eq_true.mp h)

def OpensDocument (byte : UInt8) : Prop := byte = 123 ∨ byte = 91

namespace ResponsesTransportDecoder
variable {serde : SerdeJson} {d : ResponsesTransportDecoder} {items : List ResponsesTransportItem}
  {chunks : List (List UInt8)} {first : UInt8} {trimmed : List UInt8}

/-! ## The decision -/

def decided (d : ResponsesTransportDecoder) (mode : ResponsesTransportMode) : ResponsesTransportDecoder :=
  { d with mode := mode, undecided := [] }

theorem detectMode_blank {finish : Bool} (h : d.undecided.all isAsciiWhitespace = true) :
    d.detectMode finish = d.mode := by
  unfold detectMode
  rw [trim_eq_nil.mpr h]

theorem detectMode_document {finish : Bool} (h : trimAsciiStart d.undecided = first :: trimmed)
    (hfirst : OpensDocument first) : d.detectMode finish = .json := by
  unfold detectMode
  rw [h]
  dsimp only
  rw [if_pos (show first = 123 ∨ first = 91 from hfirst)]

theorem detectMode_event {finish : Bool} (h : trimAsciiStart d.undecided = first :: trimmed)
    (hfirst : ¬OpensDocument first) :
    d.detectMode finish = .sse ∨ d.detectMode finish = .unknown ∧ finish = false := by
  unfold detectMode
  rw [h]
  dsimp only
  rw [if_neg (show ¬(first = 123 ∨ first = 91) from hfirst)]
  split
  · exact .inl rfl
  · split
    · exact .inl rfl
    · split
      · exact .inl rfl
      · rename_i hnot
        exact .inr ⟨rfl, by simpa using fun hf => hnot (.inl hf)⟩

theorem pushDecided_mode {bytes : List UInt8} {d' : ResponsesTransportDecoder}
    (h : d.pushDecided serde bytes = .ok (items, d')) : d'.mode = d.mode := by
  unfold pushDecided at h
  split at h
  · obtain ⟨⟨events, sse⟩, _, h⟩ := bind_eq_ok.mp h
    obtain ⟨items', _, h⟩ := bind_eq_ok.mp h
    cases h
    rfl
  · obtain ⟨rest, _, rfl⟩ := drainJson_ok h
    rfl
  · cases h
    rfl

variable {mode : ResponsesTransportMode} {chunk : List UInt8} {size : ℕ}

theorem push_decided (hmode : mode ≠ .unknown) {bytes : List UInt8}
    (hne : bytes ≠ []) : (d.decided mode).push serde bytes = (d.decided mode).pushDecided serde bytes := by
  unfold push
  rw [if_neg hne, if_neg (show (d.decided mode).mode ≠ .unknown from hmode)]

section
variable (hd : d.mode = .unknown)
include hd

section
variable (hne : chunk ≠ [])
include hne

theorem decode_of_decision (hmode : mode ≠ .unknown)
    (hdetect : { d with undecided := d.undecided ++ chunk }.detectMode false = mode) :
    d.decode serde (chunk :: chunks) = (d.decided mode).decode serde ((d.undecided ++ chunk) :: chunks) := by
  have hpush : d.push serde chunk = (d.decided mode).push serde (d.undecided ++ chunk) := by
    rw [push_decided hmode (by simp [hne]), push, if_neg hne, if_pos hd]
    dsimp only
    rw [hdetect, if_neg hmode]
    rfl
  unfold decode
  rw [hpush]

theorem decode_of_wait
    (hdetect : { d with undecided := d.undecided ++ chunk }.detectMode false = .unknown)
    (hfits : (d.undecided ++ chunk).length ≤ d.maxPendingBytes) :
    d.decode serde (chunk :: chunks) = { d with undecided := d.undecided ++ chunk }.decode serde chunks := by
  have hpush : d.push serde chunk = .ok ([], { d with undecided := d.undecided ++ chunk }) := by
    rw [push, if_neg hne, if_pos hd]
    rw [if_pos hdetect, ensureUndecidedBounded, ensure_of hfits]
    rfl
  rw [decode_of_push hpush]
  cases decode serde { d with undecided := d.undecided ++ chunk } chunks with
  | error e => rfl
  | ok later => rfl

theorem overflows_of_wait
    (hdetect : { d with undecided := d.undecided ++ chunk }.detectMode false = .unknown)
    (hfits : ¬(d.undecided ++ chunk).length ≤ d.maxPendingBytes) :
    Overflows (d.decode serde (chunk :: chunks)) := by
  have hpush : d.push serde chunk =
      .error (.capacity s!"Responses undecided transport prefix exceeded {d.maxPendingBytes} bytes") := by
    rw [push, if_neg hne, if_pos hd]
    rw [if_pos hdetect, ensureUndecidedBounded, ensure_of_not hfits]
    rfl
  exact overflows_of_push hpush rfl

theorem delivers_of_wait
    (hdetect : { d with undecided := d.undecided ++ chunk }.detectMode false = .unknown)
    (hsize : (d.undecided ++ chunk ++ chunks.flatten).length ≤ size)
    {r : Except ResponsesTransportError (List ResponsesTransportItem)}
    (h : Delivers serde { d with undecided := d.undecided ++ chunk } chunks size r) :
    Delivers serde d (chunk :: chunks) size r := by
  by_cases hfits : (d.undecided ++ chunk).length ≤ d.maxPendingBytes
  · unfold Delivers
    rw [decode_of_wait hd hne hdetect hfits]
    exact h
  · rw [length_append] at hsize
    exact .inr ⟨by omega, overflows_of_wait hd hne hdetect hfits⟩

end

theorem decode_of_last_decision
    (hmode : mode ≠ .unknown) (hne : d.undecided ≠ []) (hdetect : d.detectMode true = mode) :
    d.decode serde [] = (d.decided mode).decode serde [d.undecided] := by
  have hfinish : d.finish serde = (do
      let r ← (d.decided mode).pushDecided serde d.undecided
      let last ← r.2.finishDecided serde
      pure (r.1 ++ last.1, last.2)) := by
    rw [finish, if_pos hd, hdetect, if_neg hmode]
    rfl
  rw [decode, hfinish, decode, push_decided hmode hne]
  cases hpush : (d.decided mode).pushDecided serde d.undecided with
  | error e => rfl
  | ok r =>
    obtain ⟨items, d'⟩ := r
    have hmode' : d'.mode = mode := pushDecided_mode hpush
    rw [ok_bind, ok_bind]
    dsimp only
    rw [decode, finish, if_neg (by rw [hmode']; exact hmode)]
    cases d'.finishDecided serde with
    | error e => rfl
    | ok r => rfl

end

/-! ## Documents -/

theorem delivers_unknown_json (hd : d.mode = .unknown) (hjson : d.json = [])
    (hblank : d.undecided.all isAsciiWhitespace = true)
    (htrim : trimAsciiStart chunks.flatten = first :: trimmed) (hfirst : OpensDocument first)
    (hsize : (d.undecided ++ chunks.flatten).length ≤ size) :
    Delivers serde d chunks size ((d.decided .json).decode serde chunks) := by
  induction chunks generalizing d with
  | nil => cases htrim
  | cons chunk chunks ih =>
    rw [flatten_cons] at htrim hsize
    by_cases hne : chunk = []
    · subst hne
      unfold Delivers
      rw [decode_empty_chunk, decode_empty_chunk]
      exact ih hd hjson hblank htrim hsize
    · rw [← append_assoc] at hsize
      by_cases hchunk : chunk.all isAsciiWhitespace = true
      · have hboth : (d.undecided ++ chunk).all isAsciiWhitespace = true := by
          rw [all_append, hblank, hchunk]
          rfl
        rw [trim_blank hchunk] at htrim
        have hlater := @ih { d with undecided := d.undecided ++ chunk } hd hjson hboth htrim hsize
        have hdrain := @drain_blank serde d.maxEventBytes false chunk hchunk []
        rw [append_nil, drain_nil] at hdrain
        have hpush := @push_of_drain serde (d.decided .json) [] rfl hjson chunk hne hdrain
        have hsame : (d.decided .json).decode serde (chunk :: chunks) = (d.decided .json).decode serde chunks := by
          rw [decode_of_push hpush]
          cases (d.decided .json).decode serde chunks with
          | error e => rfl
          | ok later => rfl
        rw [hsame]
        exact delivers_of_wait hd hne ((detectMode_blank hboth).trans hd) hsize hlater
      · obtain ⟨c, rest, hc⟩ : ∃ c rest, trimAsciiStart chunk = c :: rest := by
          cases htrim' : trimAsciiStart chunk with
          | nil => exact absurd (trim_eq_nil.mp htrim') hchunk
          | cons c rest => exact ⟨c, rest, rfl⟩
        rw [trim_append hc] at htrim
        cases htrim
        have hwhole : trimAsciiStart (d.undecided ++ chunk) = first :: rest := by
          rw [trim_blank hblank, hc]
        left
        rw [decode_of_decision hd hne (by decide)
          (@detectMode_document { d with undecided := d.undecided ++ chunk } first rest false hwhole hfirst)]
        have hpush : (d.decided .json).push serde (d.undecided ++ chunk) = (d.decided .json).push serde chunk := by
          rw [push_json rfl hne, push_json rfl (by simp [hne]), drainJson, drainJson]
          dsimp only [decided]
          rw [hjson, nil_append, nil_append, drain_blank hblank]
        rw [decode, decode, hpush]

/-! ## Events -/

/-- The events of the bytes, behind an open event, and what they are classified as. -/
def Reads (serde : SerdeJson) (limit : ℕ) (e : PendingSseEvent) (bytes : List UInt8)
    (items : List ResponsesTransportItem) : Prop :=
  ∃ events, readAll limit e (linesOf bytes) = .ok events ∧ classifySseEvents serde events = .ok items

theorem classifySseEvents_append (events later : List SseEvent) :
    classifySseEvents serde (events ++ later) = (do
      let items ← classifySseEvents serde events
      let items' ← classifySseEvents serde later
      pure (items ++ items')) := mapM_append

theorem liftSse_eq_ok {α : Type} {x : Except SseDecodeError α} {a : α} : liftSse x = .ok a ↔ x = .ok a := by
  cases x with
  | ok b =>
    unfold liftSse
    rw [Except.ok.injEq, Except.ok.injEq]
  | error e =>
    constructor
    · intro h
      cases h
    · intro h
      cases h

section
variable (hd : d.mode = .sse)
include hd

theorem finish_sse :
    d.decode serde [] = (do
      let (events, _) ← liftSse d.sse.finish
      classifySseEvents serde events) := by
  rw [decode, finish, if_neg (by rw [hd]; decide), finishDecided, hd]
  cases liftSse d.sse.finish with
  | error e => rfl
  | ok r =>
    rw [ok_bind, ok_bind]
    dsimp only
    cases classifySseEvents serde r.1 with
    | error e => rfl
    | ok items => rfl

theorem push_sse (hne : chunk ≠ []) :
    d.push serde chunk = (do
      let (events, sse) ← liftSse (d.sse.push chunk)
      let items ← classifySseEvents serde events
      pure (items, { d with sse := sse })) := by
  rw [push, if_neg hne, if_neg (by rw [hd]; decide), pushDecided, hd]

theorem reads_of_decode (h : d.decode serde chunks = .ok items) :
    Reads serde d.sse.maxEventBytes d.sse.event (d.sse.pending ++ chunks.flatten) items := by
  induction chunks generalizing d items with
  | nil =>
    rw [finish_sse hd] at h
    obtain ⟨⟨events, sse⟩, hevents, hclassify⟩ := bind_eq_ok.mp h
    refine ⟨events, ?_, hclassify⟩
    rw [flatten_nil, append_nil, ← finish_eq _ _ _ d.sse.maxPendingBytes]
    exact bind_eq_ok.mpr ⟨_, liftSse_eq_ok.mp hevents, rfl⟩
  | cons chunk chunks ih =>
    by_cases hne : chunk = []
    · subst hne
      rw [decode_empty_chunk] at h
      exact ih hd h
    · obtain ⟨⟨items₁, d'⟩, hpush, h⟩ := bind_eq_ok.mp h
      obtain ⟨items₂, hlater, h⟩ := bind_eq_ok.mp h
      cases h
      rw [push_sse hd hne] at hpush
      obtain ⟨⟨out, sse⟩, hsse, hpush⟩ := bind_eq_ok.mp hpush
      obtain ⟨items', hclassify, hpush⟩ := bind_eq_ok.mp hpush
      cases hpush
      have hsse' := liftSse_eq_ok.mp hsse
      rw [show d.sse = ⟨d.sse.pending, d.sse.event, d.sse.maxPendingBytes, d.sse.maxEventBytes⟩ from rfl,
        push_eq] at hsse'
      obtain ⟨⟨out', e', pending'⟩, hdrain, hsse'⟩ := bind_eq_ok.mp hsse'
      obtain ⟨_, -, hsse'⟩ := bind_eq_ok.mp hsse'
      cases hsse'
      obtain ⟨events, hevents, hrest⟩ := @ih { d with sse := ⟨pending', e', d.sse.maxPendingBytes, d.sse.maxEventBytes⟩ }
        items₂ hd hlater
      refine ⟨out' ++ events, ?_, ?_⟩
      · rw [flatten_cons, ← append_assoc, readAll_append, hdrain, ok_bind]
        rw [hevents]
        rfl
      · rw [classifySseEvents_append, hclassify, hrest]
        rfl

theorem delivers_of_reads
    (hsize : d.sse.event.wireBytes + (d.sse.pending ++ chunks.flatten).length ≤ size)
    (hlimit : d.sse.maxPendingBytes = d.maxPendingBytes)
    (h : Reads serde d.sse.maxEventBytes d.sse.event (d.sse.pending ++ chunks.flatten) items) :
    Delivers serde d chunks size (.ok items) := by
  obtain ⟨events, hevents, hclassify⟩ := h
  induction chunks generalizing d items events with
  | nil =>
    rw [flatten_nil, append_nil, ← finish_eq _ _ _ d.sse.maxPendingBytes] at hevents
    obtain ⟨⟨events', sse⟩, hfinish, heq⟩ := bind_eq_ok.mp hevents
    cases heq
    left
    rw [finish_sse hd]
    exact bind_eq_ok.mpr ⟨_, liftSse_eq_ok.mpr hfinish, hclassify⟩
  | cons chunk chunks ih =>
    by_cases hne : chunk = []
    · subst hne
      unfold Delivers
      rw [decode_empty_chunk]
      exact ih hd hsize hlimit events hevents hclassify
    · rw [flatten_cons, ← append_assoc] at hsize hevents
      rw [readAll_append] at hevents
      obtain ⟨⟨out, e', pending'⟩, hdrain, hevents⟩ := bind_eq_ok.mp hevents
      obtain ⟨later, hlater, heq⟩ := bind_eq_ok.mp hevents
      cases heq
      rw [classifySseEvents_append] at hclassify
      obtain ⟨items₁, hfirst, hclassify⟩ := bind_eq_ok.mp hclassify
      obtain ⟨items₂, hrest, hclassify⟩ := bind_eq_ok.mp hclassify
      cases hclassify
      have hwire := drain_wireBytes_add hdrain
      have hsse := push_eq d.sse.maxPendingBytes d.sse.maxEventBytes d.sse.event d.sse.pending chunk
      rw [hdrain, ok_bind] at hsse
      rw [length_append] at hsize
      have hdelivers := @ih { d with sse := ⟨pending', e', d.sse.maxPendingBytes, d.sse.maxEventBytes⟩ } items₂ hd
        (by rw [length_append]; dsimp only; omega) hlimit later hlater hrest
      by_cases hbounded : saturatingAdd e'.wireBytes pending'.length ≤ d.sse.maxPendingBytes
      · rw [ensure_of hbounded] at hsse
        refine hdelivers.cons ?_ rfl
        rw [push_sse hd hne]
        exact bind_eq_ok.mpr ⟨_, liftSse_eq_ok.mpr hsse, bind_eq_ok.mpr ⟨_, hfirst, rfl⟩⟩
      · rw [ensure_of_not hbounded] at hsse
        have hpush : d.push serde chunk = .error (.ofSse (.eventTooLarge d.sse.maxPendingBytes)) := by
          rw [push_sse hd hne]
          exact congrArg (· >>= _) (congrArg liftSse hsse)
        refine .inr ⟨?_, overflows_of_push hpush rfl⟩
        unfold saturatingAdd at hbounded
        omega

end

/-- What was kept on the first letters of a field name is read once the mode is known. -/
theorem delivers_unknown_sse (hd : d.mode = .unknown)
    (htrim : trimAsciiStart (d.undecided ++ chunks.flatten) = first :: trimmed) (hfirst : ¬OpensDocument first)
    {size : ℕ} (hsize : (d.undecided ++ chunks.flatten).length ≤ size) :
    ∃ chunks', chunks'.flatten = d.undecided ++ chunks.flatten ∧
      Delivers serde d chunks size ((d.decided .sse).decode serde chunks') := by
  induction chunks generalizing d with
  | nil =>
    rw [flatten_nil, append_nil] at htrim
    have hne : d.undecided ≠ [] := by
      intro hnil
      rw [hnil] at htrim
      cases htrim
    have hdetect : d.detectMode true = .sse := by
      cases @detectMode_event d first trimmed true htrim hfirst with
      | inl hsse => exact hsse
      | inr hwait => exact absurd hwait.2 (by decide)
    exact ⟨[d.undecided], by simp, .inl (decode_of_last_decision hd (by decide) hne hdetect)⟩
  | cons chunk chunks ih =>
    by_cases hne : chunk = []
    · subst hne
      unfold Delivers
      rw [decode_empty_chunk]
      exact ih hd htrim hsize
    · rw [flatten_cons, ← append_assoc] at htrim hsize ⊢
      have hdetect : { d with undecided := d.undecided ++ chunk }.detectMode false = .sse ∨
          { d with undecided := d.undecided ++ chunk }.detectMode false = .unknown := by
        cases htrim' : trimAsciiStart (d.undecided ++ chunk) with
        | nil => exact .inr ((detectMode_blank (trim_eq_nil.mp htrim')).trans hd)
        | cons c rest =>
          rw [trim_append htrim'] at htrim
          cases htrim
          cases @detectMode_event { d with undecided := d.undecided ++ chunk } first rest false htrim' hfirst with
          | inl hsse => exact .inl hsse
          | inr hwait => exact .inr hwait.1
      cases hdetect with
      | inl hsse => exact ⟨_, flatten_cons, .inl (decode_of_decision hd hne (by decide) hsse)⟩
      | inr hwait =>
        obtain ⟨chunks', hflatten, hlater⟩ := @ih { d with undecided := d.undecided ++ chunk } hd htrim hsize
        exact ⟨chunks', hflatten, delivers_of_wait hd hne hwait hsize hlater⟩

section
variable (hd : d.mode = .unknown) (hpending : d.sse.pending = [])
  (htrim : trimAsciiStart (d.undecided ++ chunks.flatten) = first :: trimmed) (hfirst : ¬OpensDocument first)
include hd hpending htrim hfirst

theorem reads_of_decode_unknown (h : d.decode serde chunks = .ok items) :
    Reads serde d.sse.maxEventBytes d.sse.event (d.undecided ++ chunks.flatten) items := by
  obtain ⟨chunks', hflatten, hdelivers⟩ := @delivers_unknown_sse serde _ _ _ _ hd htrim hfirst _ le_rfl
  have hreads := reads_of_decode rfl (hdelivers.ok h)
  dsimp only [decided] at hreads
  rwa [hpending, hflatten] at hreads

theorem delivers_of_reads_unknown {size : ℕ} (hwire : d.sse.event.wireBytes = 0)
    (hlimit : d.sse.maxPendingBytes = d.maxPendingBytes) (hsize : (d.undecided ++ chunks.flatten).length ≤ size)
    (h : Reads serde d.sse.maxEventBytes d.sse.event (d.undecided ++ chunks.flatten) items) :
    Delivers serde d chunks size (.ok items) := by
  obtain ⟨chunks', hflatten, hdelivers⟩ := @delivers_unknown_sse serde _ _ _ _ hd htrim hfirst _ hsize
  have hbytes : (d.decided .sse).sse.pending ++ chunks'.flatten = d.undecided ++ chunks.flatten := by
    show d.sse.pending ++ chunks'.flatten = _
    rw [hpending, hflatten, nil_append]
  refine hdelivers.trans (delivers_of_reads rfl ?_ hlimit (hbytes.symm ▸ h)) rfl
  rw [hbytes]
  show d.sse.event.wireBytes + _ ≤ size
  omega

end

theorem delivers_blank (hd : d.mode = .unknown)
    (hblank : (d.undecided ++ chunks.flatten).all isAsciiWhitespace = true)
    (hsize : (d.undecided ++ chunks.flatten).length ≤ size) : Delivers serde d chunks size (.ok []) := by
  induction chunks generalizing d with
  | nil =>
    rw [flatten_nil, append_nil] at hblank
    left
    rw [decode, finish, if_pos hd, if_pos ((detectMode_blank hblank).trans hd), if_pos hblank]
    rfl
  | cons chunk chunks ih =>
    by_cases hne : chunk = []
    · subst hne
      unfold Delivers
      rw [decode_empty_chunk]
      exact ih hd hblank hsize
    · rw [flatten_cons, ← append_assoc] at hblank hsize
      have hfirst := hblank
      rw [all_append, Bool.and_eq_true] at hfirst
      exact delivers_of_wait hd hne ((detectMode_blank hfirst.1).trans hd) hsize
        (@ih { d with undecided := d.undecided ++ chunk } hd hblank hsize)

end ResponsesTransportDecoder

end CcSwitchServer.ResponsesTransport
