import CcSwitchServer.ResponsesTransport.Independence
import CcSwitchServer.Sse.Writing

/-! # Forwarding a Responses event

An event that the decoder let through is encoded again and decoded by the next hop.
-/

namespace CcSwitchServer.ResponsesTransport
open Foundations Sse List Text Option ResponsesTransportDecoder

/-! ## What a run returns -/

/-- An object that was not declared a keepalive, or no event at all. -/
def ResponsesTransportItem.IsBusiness : ResponsesTransportItem → Prop
  | .json declaredEvent value =>
    value.isObject = true ∧ (usableName declaredEvent).any livenessToken = false
  | .done => True
  | .liveness _ => True

section
variable {serde : SerdeJson} {items : List ResponsesTransportItem} {item : ResponsesTransportItem}

theorem classifyJsonEvent_isBusiness {event : SseEvent} {payload : List UInt8} {value : Json}
    (h : classifyJsonEvent serde event payload value = .ok item) : item.IsBusiness := by
  unfold classifyJsonEvent at h
  obtain ⟨_, hobject, h⟩ := bind_eq_ok.mp h
  obtain ⟨_, _, h⟩ := bind_eq_ok.mp h
  split at h
  · cases h
    exact trivial
  · obtain ⟨_, hdeclared, h⟩ := bind_eq_ok.mp h
    cases h
    exact ⟨ensure_eq_ok.mp hobject, ensure_eq_ok.mp hdeclared⟩

theorem classifySseEvent_isBusiness {event : SseEvent} (h : classifySseEvent serde event = .ok item) :
    item.IsBusiness := by
  unfold classifySseEvent at h
  obtain ⟨_, _, h⟩ := bind_eq_ok.mp h
  split at h
  · unfold classifyPayload at h
    split at h
    · cases h
      exact trivial
    · split at h
      · obtain ⟨_, _, h⟩ := bind_eq_ok.mp h
        cases h
        exact trivial
      · split at h
        · obtain ⟨_, _, h⟩ := bind_eq_ok.mp h
          cases h
          exact trivial
        · split at h
          · cases h
          · exact classifyJsonEvent_isBusiness h
  · cases h
    exact trivial

theorem classifySseEvents_isBusiness {events : List SseEvent}
    (h : classifySseEvents serde events = .ok items) : ∀ item ∈ items, item.IsBusiness := by
  induction events generalizing items with
  | nil =>
    cases h
    exact fun _ hmem => absurd hmem (by simp)
  | cons event events ih =>
    unfold classifySseEvents at h ih
    rw [mapM_cons] at h
    obtain ⟨first, hfirst, h⟩ := bind_eq_ok.mp h
    obtain ⟨rest, hrest, h⟩ := bind_eq_ok.mp h
    cases h
    exact forall_mem_cons.mpr ⟨classifySseEvent_isBusiness hfirst, ih hrest⟩

theorem classifyDocument_isBusiness {value : Json} (h : value.isObject = true) (payload : List UInt8) :
    (classifyDocument serde value payload).IsBusiness := by
  unfold classifyDocument
  split
  · exact trivial
  · exact ⟨h, rfl⟩

theorem drain_isBusiness {maxEventBytes : ℕ} {finish : Bool} {json rest : List UInt8}
    (h : (documentDecoder serde maxEventBytes finish).drain () json = .ok (items, (), rest)) :
    ∀ item ∈ items, item.IsBusiness := by
  generalize hs : () = s at h
  induction s, json using Decoder.drain_induction (d := documentDecoder serde maxEventBytes finish)
    generalizing items with
  | hmore hnext =>
    rw [Decoder.drain_more hnext] at h
    cases h
    exact fun _ hmem => absurd hmem (by simp)
  | hfail hnext =>
    rw [Decoder.drain_fail hnext] at h
    cases h
  | htake hnext ih =>
    rw [Decoder.drain_take hnext] at h
    obtain ⟨⟨later, s'', rest''⟩, hr, h⟩ := bind_eq_ok.mp h
    cases h
    have hlater := ih rfl hr
    refine forall_mem_append.mpr ⟨?_, hlater⟩
    cases nextDocument_cases hnext with
    | inl hcase =>
      rw [hcase.2]
      exact fun _ hmem => absurd hmem (by simp)
    | inr hcase =>
      cases hcase with
      | inl hcase =>
        obtain ⟨_, _, _, _, hout⟩ := hcase
        rw [hout]
        exact forall_mem_singleton.mpr trivial
      | inr hcase =>
        obtain ⟨v, n, _, _, hobject, _, hout⟩ := hcase
        rw [hout]
        exact forall_mem_singleton.mpr (classifyDocument_isBusiness hobject _)

namespace ResponsesTransportDecoder
variable {d d' : ResponsesTransportDecoder}

theorem drainJson_isBusiness {finish : Bool} (h : drainJson serde d finish = .ok (items, d')) :
    ∀ item ∈ items, item.IsBusiness := by
  obtain ⟨rest, hdrain, _⟩ := drainJson_ok h
  exact drain_isBusiness hdrain

theorem pushDecided_isBusiness {bytes : List UInt8} (h : d.pushDecided serde bytes = .ok (items, d')) :
    ∀ item ∈ items, item.IsBusiness := by
  unfold pushDecided at h
  split at h
  · obtain ⟨_, _, h⟩ := bind_eq_ok.mp h
    obtain ⟨items', hclassify, h⟩ := bind_eq_ok.mp h
    cases h
    exact classifySseEvents_isBusiness hclassify
  · exact drainJson_isBusiness h
  · cases h
    exact fun _ hmem => absurd hmem (by simp)

theorem finishDecided_isBusiness (h : d.finishDecided serde = .ok (items, d')) : ∀ item ∈ items, item.IsBusiness := by
  unfold finishDecided at h
  split at h
  · obtain ⟨_, _, h⟩ := bind_eq_ok.mp h
    obtain ⟨items', hclassify, h⟩ := bind_eq_ok.mp h
    cases h
    exact classifySseEvents_isBusiness hclassify
  · exact drainJson_isBusiness h
  · cases h
    exact fun _ hmem => absurd hmem (by simp)

theorem push_isBusiness {chunk : List UInt8} (h : d.push serde chunk = .ok (items, d')) :
    ∀ item ∈ items, item.IsBusiness := by
  unfold push at h
  split at h
  · cases h
    exact fun _ hmem => absurd hmem (by simp)
  · split at h
    · dsimp only at h
      split at h
      · obtain ⟨_, _, h⟩ := bind_eq_ok.mp h
        cases h
        exact fun _ hmem => absurd hmem (by simp)
      · exact pushDecided_isBusiness h
    · exact pushDecided_isBusiness h

theorem finish_isBusiness (h : d.finish serde = .ok (items, d')) : ∀ item ∈ items, item.IsBusiness := by
  unfold finish at h
  split at h
  · split at h
    · split at h
      · cases h
        exact fun _ hmem => absurd hmem (by simp)
      · cases h
    · obtain ⟨⟨items₁, d₁⟩, hpush, h⟩ := bind_eq_ok.mp h
      obtain ⟨⟨items₂, d₂⟩, hlast, h⟩ := bind_eq_ok.mp h
      cases h
      exact forall_mem_append.mpr ⟨pushDecided_isBusiness hpush, finishDecided_isBusiness hlast⟩
  · exact finishDecided_isBusiness h

/-- The items of a stream, also of one that fails. -/
def returned (serde : SerdeJson) (d : ResponsesTransportDecoder) : List (List UInt8) → List ResponsesTransportItem
  | [] =>
    match d.finish serde with
    | .ok (items, _) => items
    | .error _ => []
  | chunk :: chunks =>
    match d.push serde chunk with
    | .ok (items, d') => items ++ returned serde d' chunks
    | .error _ => []

theorem returned_isBusiness {chunks : List (List UInt8)} : ∀ item ∈ d.returned serde chunks, item.IsBusiness := by
  induction chunks generalizing d with
  | nil =>
    unfold returned
    split
    · rename_i hfinish
      exact finish_isBusiness hfinish
    · exact fun _ hmem => absurd hmem (by simp)
  | cons chunk chunks ih =>
    unfold returned
    split
    · rename_i hpush
      exact forall_mem_append.mpr ⟨push_isBusiness hpush, ih⟩
    · exact fun _ hmem => absurd hmem (by simp)

end ResponsesTransportDecoder

end

/-! ## The encoded event -/

/-- What is used of the printer: an object becomes one line between braces. -/
structure Prints (serde : SerdeJson) : Prop where
  no_lf : ∀ {v : Json}, v.isObject = true → lineFeed ∉ utf8 (serde.toText v)
  no_cr : ∀ {v : Json}, v.isObject = true → carriageReturn ∉ utf8 (serde.toText v)
  braces : ∀ {v : Json}, v.isObject = true → ∃ inner : List UInt8, utf8 (serde.toText v) = 123 :: (inner ++ [125])

def forwardedEvent (declaredEvent : Option String) (value : Json) : Option String :=
  ((((value.get "type").bind Json.asStr).or declaredEvent).map trim).filter validEventName

def usableType (value : Json) : Option String := forwardedEvent none value

def encodedLines (serde : SerdeJson) (declaredEvent : Option String) (value : Json) : List String :=
  (forwardedEvent declaredEvent value).toList.map (fieldText "event") ++ [fieldText "data" (serde.toText value)]

section
variable {serde : SerdeJson} {declaredEvent : Option String} {value : Json}

theorem encode_eq_writeEvent :
    encodeCanonicalJsonSse serde declaredEvent value = writeEvent (encodedLines serde declaredEvent value) := by
  have hevent : utf8 "event: " = utf8 "event" ++ utf8 ": " := by decide
  have hdata : utf8 "data: " = utf8 "data" ++ utf8 ": " := by decide
  have hlf : utf8 "\n" = [lineFeed] := by decide
  have hend : utf8 "\n\n" = [lineFeed] ++ [lineFeed] := by decide
  unfold encodedLines writeEvent writeLines encodeCanonicalJsonSse
  rw [← forwardedEvent, hevent, hdata, hlf, hend]
  cases forwardedEvent declaredEvent value with
  | none =>
    simp only [toList_none, map_nil, nil_append, flatMap_cons, flatMap_nil,
      append_nil, fieldText, utf8_append, append_assoc]
  | some event =>
    simp only [toList_some, map_cons, map_nil, flatMap_cons, flatMap_nil,
      append_nil, fieldText, utf8_append, append_assoc, cons_append, nil_append]

variable {event : String}

theorem validEventName_of_mem (h : event ∈ forwardedEvent declaredEvent value) :
    validEventName event = true := (filter_eq_some_iff.mp h).2

theorem ne_of_validEventName (h : validEventName event = true) : event ≠ "" := by
  unfold validEventName at h
  simp only [Bool.and_eq_true, decide_eq_true_eq] at h
  exact h.1.1

theorem oneLine_of_validEventName (h : validEventName event = true) : OneLine event := by
  have hchars : ∀ c ∈ event.toList, 33 ≤ c.toNat ∧ c.toNat < 128 := by
    unfold validEventName at h
    simp only [Bool.and_eq_true, List.all_eq_true] at h
    intro c hc
    have hchar := h.2 c hc
    simp only [Text.isAsciiAlphanumeric, Text.isAsciiDigit, Bool.or_eq_true, Bool.and_eq_true,
      decide_eq_true_eq, Char.le_def, UInt32.le_iff_toNat_le] at hchar
    have hnum : ∀ {n : ℕ}, c.val.toNat = n → c.toNat = n := fun h => h
    rcases hchar with (((((h₁ | h₁) | h₁) | h₁) | h₁) | h₁) | h₁
    all_goals first
      | (subst h₁; decide)
      | (refine ⟨le_trans ?_ h₁.1, lt_of_le_of_lt h₁.2 ?_⟩ <;> decide)
  have hbytes : ∀ byte ∈ Text.utf8 event, 33 ≤ byte.toNat := by
    intro byte hbyte
    obtain ⟨c, hc, hval⟩ := Text.exists_of_mem_utf8 (fun c hc => (hchars c hc).2) hbyte
    rw [hval]
    exact (hchars c hc).1
  refine ⟨fun hlf => ?_, fun hcr => ?_, ne_of_validEventName h⟩
  · exact absurd (hbytes _ hlf) (by decide)
  · exact absurd (hbytes _ hcr) (by decide)

theorem fieldName_event : FieldName "event" := by
  constructor <;> decide

theorem fieldName_data : FieldName "data" := by
  constructor <;> decide

theorem oneLine_encodedLines (hprints : Prints serde) (hobject : value.isObject = true) :
    ∀ text ∈ encodedLines serde declaredEvent value, OneLine text := by
  have hevent : OneLine "event" := by constructor <;> decide
  have hdata : OneLine "data" := by constructor <;> decide
  intro text htext
  unfold encodedLines at htext
  cases mem_append.mp htext with
  | inl hmem =>
    obtain ⟨event, hname, rfl⟩ := mem_map.mp hmem
    have hline := oneLine_of_validEventName (validEventName_of_mem (mem_toList.mp hname))
    exact OneLine.fieldText hevent hline.no_lf hline.no_cr
  | inr hmem =>
    rw [mem_singleton.mp hmem]
    exact OneLine.fieldText hdata (hprints.no_lf hobject) (hprints.no_cr hobject)

theorem readEvent_encodedLines :
    readEvent ((encodedLines serde declaredEvent value).map lineOfText) =
      ⟨forwardedEvent declaredEvent value, utf8 (serde.toText value), true, none, none, 0, 0⟩ := by
  have hevent := fun event : String => @valueOf_fieldText "event" event fieldName_event
  have hdata := @valueOf_fieldText "data" (serde.toText value) fieldName_data
  have hcomment := fun event : String => @isComment_fieldText "event" event fieldName_event
  have hcomment' := @isComment_fieldText "data" (serde.toText value) fieldName_data
  have hunknown := fun event : String => @isUnknown_fieldText "event" event fieldName_event
  have hunknown' := @isUnknown_fieldText "data" (serde.toText value) fieldName_data
  unfold encodedLines
  cases hname : forwardedEvent declaredEvent value with
  | none =>
    simp [readEvent, valuesOf, joinData, hdata, hcomment', hunknown']
  | some event =>
    have hne := ne_of_validEventName (validEventName_of_mem hname)
    simp [readEvent, valuesOf, joinData, hevent, hdata, hcomment, hcomment', hunknown, hunknown', hne]

theorem data_le_encode : (readEvent ((encodedLines serde declaredEvent value).map lineOfText)).data.length ≤
    (encodeCanonicalJsonSse serde declaredEvent value).length := by
  rw [readEvent_encodedLines]
  unfold encodeCanonicalJsonSse
  simp only [length_append]
  omega

/-! ## What the next hop makes of it -/

theorem trimAsciiWhitespace_braces (inner : List UInt8) :
    trimAsciiWhitespace (123 :: (inner ++ [125])) = 123 :: (inner ++ [125]) := by
  have hstart : trimAsciiStart (123 :: (inner ++ [125])) = 123 :: (inner ++ [125]) := by
    unfold trimAsciiStart
    rw [dropWhile_cons_of_neg (by decide)]
  have hreverse : (123 :: (inner ++ [125])).reverse = 125 :: (inner.reverse ++ [123]) := by
    rw [reverse_cons, reverse_append, reverse_singleton, singleton_append, cons_append]
  unfold trimAsciiWhitespace
  rw [hstart, hreverse, dropWhile_cons_of_neg (by decide), ← hreverse, reverse_reverse]

def encodedEvent (serde : SerdeJson) (declaredEvent : Option String) (value : Json) : SseEvent :=
  ⟨forwardedEvent declaredEvent value, utf8 (serde.toText value), true, none, none, 0, 0⟩

theorem classify_encodedEvent (hprints : Prints serde) (hobject : value.isObject = true) :
    classifySseEvent serde (encodedEvent serde declaredEvent value) =
      match serde.fromSlice (utf8 (serde.toText value)) with
      | .error message => .error (.new s!"Responses SSE data is not valid JSON: {message}")
      | .ok value' => classifyJsonEvent serde (encodedEvent serde declaredEvent value)
          (utf8 (serde.toText value)) value' := by
  obtain ⟨inner, hbraces⟩ := hprints.braces hobject
  have htrim : trimAsciiWhitespace (utf8 (serde.toText value)) = utf8 (serde.toText value) := by
    rw [hbraces, trimAsciiWhitespace_braces]
  have hword : ∀ word : List UInt8, word.head? ≠ some 123 → utf8 (serde.toText value) ≠ word := by
    intro word hhead heq
    rw [← heq, hbraces] at hhead
    exact hhead rfl
  have hping : ¬(utf8 (serde.toText value) = utf8 "ping" ∨ utf8 (serde.toText value) = utf8 "keepalive") :=
    not_or.mpr ⟨hword _ (by decide), hword _ (by decide)⟩
  unfold classifySseEvent
  rw [ensure_of (show (encodedEvent serde declaredEvent value).unknownFields = 0 from rfl), ok_bind,
    if_pos (show (encodedEvent serde declaredEvent value).hasData = true from rfl)]
  show classifyPayload serde _ (trimAsciiWhitespace (utf8 (serde.toText value))) = _
  rw [htrim]
  unfold classifyPayload
  rewrite [if_neg (hword _ (by decide)), if_neg (hword _ (by decide)), if_neg hping]
  cases serde.fromSlice (utf8 (serde.toText value)) with
  | error message => rfl
  | ok value' => rfl

theorem trim_encoded : ∃ first trimmed,
    trimAsciiStart (writeEvent (encodedLines serde declaredEvent value)) = first :: trimmed ∧
      ¬OpensDocument first := by
  have hevent : utf8 "event" = [101, 118, 101, 110, 116] := by decide
  have hdata : utf8 "data" = [100, 97, 116, 97] := by decide
  have hstart : ∃ first trimmed, writeEvent (encodedLines serde declaredEvent value) = first :: trimmed ∧
      (first = 101 ∨ first = 100) := by
    unfold writeEvent writeLines encodedLines
    cases forwardedEvent declaredEvent value with
    | none =>
      simp only [toList_none, map_nil, nil_append, flatMap_cons, fieldText, utf8_append, hdata, cons_append]
      exact ⟨_, _, rfl, .inr rfl⟩
    | some event =>
      simp only [toList_some, map_cons, cons_append, flatMap_cons, fieldText, utf8_append, hevent]
      exact ⟨_, _, rfl, .inl rfl⟩
  obtain ⟨first, trimmed, hbytes, hfirst⟩ := hstart
  refine ⟨first, trimmed, ?_, ?_⟩
  · rw [hbytes]
    unfold trimAsciiStart
    rw [dropWhile_cons_of_neg]
    cases hfirst with
    | inl h => rw [h]; decide
    | inr h => rw [h]; decide
  · unfold OpensDocument
    cases hfirst with
    | inl h => rw [h]; decide
    | inr h => rw [h]; decide

/-- The next hop decodes exactly the item that the encoded event is classified as. -/
theorem decode_encode_ok_iff (hprints : Prints serde) (hobject : value.isObject = true)
    {maxPendingBytes : ℕ} (maxEventBytes : ℕ) {chunks : List (List UInt8)} {items : List ResponsesTransportItem}
    (hflatten : chunks.flatten = encodeCanonicalJsonSse serde declaredEvent value)
    (hfits : (encodeCanonicalJsonSse serde declaredEvent value).length ≤ maxPendingBytes) :
    (new maxPendingBytes maxEventBytes).decode serde chunks = .ok items ↔
      ∃ item, classifySseEvent serde (encodedEvent serde declaredEvent value) = .ok item ∧ items = [item] := by
  have hlines := @oneLine_encodedLines serde declaredEvent value hprints hobject
  have hne : encodedLines serde declaredEvent value ≠ [] := by
    unfold encodedLines
    simp
  have hreading := reading_writeEvent hlines hne
  rw [readEvent_encodedLines] at hreading
  generalize hd : new maxPendingBytes maxEventBytes = d
  have hmode : d.mode = .unknown := by rw [← hd]; rfl
  have hundecided : d.undecided = [] := by rw [← hd]; rfl
  have hpending : d.sse.pending = [] := by rw [← hd]; rfl
  have hevent : d.sse.event = .default := by rw [← hd]; rfl
  have hmax : d.maxPendingBytes = max maxPendingBytes 1 := by rw [← hd]; rfl
  have hlimit : d.sse.maxPendingBytes = d.maxPendingBytes := by
    rw [← hd]
    exact max_eq_left (le_max_right _ _)
  have hroom : d.maxPendingBytes ≤ d.sse.maxEventBytes := by
    rw [← hlimit, ← hd]
    exact le_max_right _ _
  have hbytes : d.undecided ++ chunks.flatten = writeEvent (encodedLines serde declaredEvent value) := by
    rw [hundecided, hflatten, encode_eq_writeEvent, nil_append]
  rw [encode_eq_writeEvent] at hfits
  have hreadable : Readable d.sse.maxEventBytes (writeEvent (encodedLines serde declaredEvent value)) := by
    have hdata := @data_le_encode serde declaredEvent value
    rw [encode_eq_writeEvent] at hdata
    exact readable_writeEvent hlines hne (by omega) (by omega)
  obtain ⟨first, trimmed, htrim, hfirst⟩ := @trim_encoded serde declaredEvent value
  have hiff : d.decode serde chunks = .ok items ↔ ResponsesTransportDecoder.Reads serde d.sse.maxEventBytes
      d.sse.event (d.undecided ++ chunks.flatten) items := by
    refine ⟨reads_of_decode_unknown hmode hpending (hbytes ▸ htrim) hfirst, fun h => ?_⟩
    exact (delivers_of_reads_unknown hmode hpending (hbytes ▸ htrim) hfirst
      (by rw [hevent]; rfl) hlimit le_rfl h).resolve_right fun hover => absurd hover.1 (by rw [hbytes]; omega)
  rw [hiff, hbytes, hevent]
  unfold ResponsesTransportDecoder.Reads
  simp only [readAll_ok_iff_reading]
  constructor
  · rintro ⟨events, ⟨_, hevents⟩, hclassify⟩
    rw [hreading] at hevents
    cases hevents
    unfold classifySseEvents at hclassify
    rw [mapM_cons, mapM_nil] at hclassify
    obtain ⟨item, hitem, hclassify⟩ := bind_eq_ok.mp hclassify
    cases hclassify
    exact ⟨item, hitem, rfl⟩
  · rintro ⟨item, hitem, rfl⟩
    refine ⟨_, ⟨hreadable, hreading⟩, ?_⟩
    unfold classifySseEvents
    rw [mapM_cons, mapM_nil]
    show (classifySseEvent serde (encodedEvent serde declaredEvent value) >>= _) = _
    rw [hitem]
    rfl

end

/-! ## When forwarding is faithful -/

/-- A fresh decoder with enough room reads the encoded event as one JSON item with the same value, which
declares the type of the value if that can stand in an event name. -/
def Forwards (serde : SerdeJson) (declaredEvent : Option String) (value : Json) : Prop :=
  ∀ (maxPendingBytes maxEventBytes : ℕ) (chunks : List (List UInt8)),
    chunks.flatten = encodeCanonicalJsonSse serde declaredEvent value →
    (encodeCanonicalJsonSse serde declaredEvent value).length ≤ maxPendingBytes →
    ∃ declaredEvent',
      (new maxPendingBytes maxEventBytes).decode serde chunks = .ok [.json declaredEvent' value] ∧
      ∀ name ∈ usableType value, declaredEvent' = some name

section
variable {serde : SerdeJson} {declaredEvent : Option String} {value : Json}

theorem usableName_forwardedEvent :
    usableName (forwardedEvent declaredEvent value) = forwardedEvent declaredEvent value := by
  cases hname : forwardedEvent declaredEvent value with
  | none => rfl
  | some event =>
    have hne := ne_of_validEventName (validEventName_of_mem hname)
    obtain ⟨s, _, hs⟩ := map_eq_some_iff.mp (filter_eq_some_iff.mp hname).1
    have htrim : trim event = event := by rw [← hs, trim_trim]
    unfold usableName
    rw [map_some, htrim]
    exact filter_eq_some_iff.mpr ⟨rfl, by simpa using hne⟩

theorem forwardedEvent_eq_payloadEvent {event name : String}
    (hevent : event ∈ forwardedEvent declaredEvent value) (hname : name ∈ payloadEvent value) :
    event = name := by
  obtain ⟨t, ht, htrim⟩ := map_eq_some_iff.mp (filter_eq_some_iff.mp hname).1
  have hmap := (filter_eq_some_iff.mp hevent).1
  rw [ht, some_or, map_some, htrim] at hmap
  exact (some.inj hmap).symm

theorem validEventName_of_livenessToken {name : String} (h : livenessToken name = true) :
    validEventName name = true := by
  unfold livenessToken at h
  simp only [Bool.or_eq_true, decide_eq_true_eq] at h
  cases h with
  | inl h => rw [h]; decide
  | inr h => rw [h]; decide

theorem forwardedEvent_any_livenessToken (hdeclared : (usableName declaredEvent).any livenessToken = false) :
    (forwardedEvent declaredEvent value).any livenessToken = (payloadEvent value).any livenessToken := by
  rw [Bool.eq_iff_iff, Option.any_eq_true, Option.any_eq_true]
  constructor
  · rintro ⟨event, hevent, htoken⟩
    refine ⟨event, ?_, htoken⟩
    have hne := ne_of_validEventName (validEventName_of_mem hevent)
    have hmap := (Option.filter_eq_some_iff.mp hevent).1
    unfold payloadEvent usableName
    refine Option.filter_eq_some_iff.mpr ⟨?_, by simpa using hne⟩
    cases htype : (value.get "type").bind Json.asStr with
    | some t =>
      rw [htype, Option.some_or] at hmap
      exact hmap
    | none =>
      rw [htype, Option.none_or] at hmap
      have hname : usableName declaredEvent = some event := Option.filter_eq_some_iff.mpr ⟨hmap, by simpa using hne⟩
      rw [hname, Option.any_some, htoken] at hdeclared
      cases hdeclared
  · rintro ⟨name, hname, htoken⟩
    refine ⟨name, ?_, htoken⟩
    obtain ⟨t, ht, htrim⟩ := Option.map_eq_some_iff.mp (Option.filter_eq_some_iff.mp hname).1
    refine Option.filter_eq_some_iff.mpr ⟨?_, validEventName_of_livenessToken htoken⟩
    rw [ht, Option.some_or, Option.map_some, htrim]

theorem jsonLiveness_eq_none {payload : List UInt8} (h : (payloadEvent value).any livenessToken = false) :
    jsonLiveness serde value payload = none := by
  unfold jsonLiveness
  cases htype : (value.get "type").bind Json.asStr with
  | none => rfl
  | some t =>
    have htoken : livenessToken t = false := by
      by_contra hnot
      have htoken : livenessToken t = true := by simpa using hnot
      have hcases : t = "ping" ∨ t = "keepalive" := by
        unfold livenessToken at htoken
        simpa using htoken
      have hname : payloadEvent value = some t := by
        unfold payloadEvent usableName
        rw [htype, map_some]
        cases hcases with
        | inl ht => rw [ht]; decide
        | inr ht => rw [ht]; decide
      rw [hname, any_some, htoken] at h
      cases h
    show (if livenessToken t = true then _ else none) = none
    rw [if_neg (by rw [htoken]; exact Bool.false_ne_true)]

/-- Of the items that a decoder returns, exactly those are forwarded faithfully whose type is no liveness
word and whose value is read back as it was printed. -/
theorem forwards_iff (hprints : Prints serde) {d : ResponsesTransportDecoder} {chunks : List (List UInt8)}
    (h : .json declaredEvent value ∈ d.returned serde chunks) :
    Forwards serde declaredEvent value ↔
      (payloadEvent value).any livenessToken = false ∧ serde.fromSlice (utf8 (serde.toText value)) = .ok value := by
  obtain ⟨hobject, hdeclared⟩ : value.isObject = true ∧ (usableName declaredEvent).any livenessToken = false :=
    returned_isBusiness _ h
  have hclassify := @classify_encodedEvent serde declaredEvent value hprints hobject
  have hwritten := @forwardedEvent_any_livenessToken declaredEvent value hdeclared
  constructor
  · intro hforwards
    obtain ⟨declaredEvent', hdecode, _⟩ := hforwards _ 0 [encodeCanonicalJsonSse serde declaredEvent value]
      (by rw [flatten_cons, flatten_nil, append_nil]) le_rfl
    obtain ⟨item, hitem, hitems⟩ := (decode_encode_ok_iff hprints hobject 0
      (by rw [flatten_cons, flatten_nil, append_nil]) le_rfl).mp hdecode
    cases hitems
    rw [hclassify] at hitem
    split at hitem
    · cases hitem
    · rename_i value' hread
      unfold classifyJsonEvent at hitem
      obtain ⟨_, _, hitem⟩ := bind_eq_ok.mp hitem
      obtain ⟨_, _, hitem⟩ := bind_eq_ok.mp hitem
      split at hitem
      · cases hitem
      · obtain ⟨_, htoken, hitem⟩ := bind_eq_ok.mp hitem
        cases hitem
        have hnone : (usableName (forwardedEvent declaredEvent value)).any livenessToken = false :=
          ensure_eq_ok.mp htoken
        rw [usableName_forwardedEvent, hwritten] at hnone
        exact ⟨hnone, hread⟩
  · rintro ⟨hnone, hread⟩ maxPendingBytes maxEventBytes chunks' hflatten hfits
    refine ⟨forwardedEvent declaredEvent value, ?_, ?_⟩
    · refine (decode_encode_ok_iff hprints hobject maxEventBytes hflatten hfits).mpr ⟨_, ?_, rfl⟩
      rw [hclassify, hread]
      dsimp only
      have hname : usableName (encodedEvent serde declaredEvent value).event =
        forwardedEvent declaredEvent value := usableName_forwardedEvent
      unfold classifyJsonEvent
      rw [hname, ensure_of hobject, ok_bind,
        ensure_of (fun event hevent name hname => forwardedEvent_eq_payloadEvent hevent hname), ok_bind,
        jsonLiveness_eq_none hnone]
      rw [ensure_of (hwritten.trans hnone), ok_bind]
      rfl
    · intro name hname
      obtain ⟨hmap, hvalid⟩ := filter_eq_some_iff.mp hname
      refine filter_eq_some_iff.mpr ⟨?_, hvalid⟩
      cases htype : (value.get "type").bind Json.asStr with
      | none =>
        rw [htype] at hmap
        cases hmap
      | some t =>
        rw [htype, some_or] at hmap
        rw [some_or]
        exact hmap

end

theorem Prints.of_text {serde : SerdeJson} {text : String} (h : ∀ v, serde.toText v = text)
    (hlf : lineFeed ∉ utf8 text) (hcr : carriageReturn ∉ utf8 text) (inner : List UInt8)
    (hbraces : utf8 text = 123 :: (inner ++ [125])) : Prints serde where
  no_lf _ := by rwa [h]
  no_cr _ := by rwa [h]
  braces _ := ⟨inner, by rw [h, hbraces]⟩

/-- A stream of relayed events is read back event by event, however it is cut. -/
theorem relayed_stream_decodes {serde : SerdeJson} (hprints : Prints serde) (events : List (Option String × Json))
    (hobject : ∀ e ∈ events, e.2.isObject = true) (limit : ℕ)
    (hlimit : ∀ e ∈ events, (encodeCanonicalJsonSse serde e.1 e.2).length ≤ limit) (chunks : List (List UInt8))
    (hflatten : chunks.flatten = events.flatMap fun e => encodeCanonicalJsonSse serde e.1 e.2) :
    (SseEventDecoder.new limit).decode chunks = .ok (events.map fun e => encodedEvent serde e.1 e.2) := by
  have hlines : ∀ e ∈ events, ∀ text ∈ encodedLines serde e.1 e.2, OneLine text :=
    fun e he => oneLine_encodedLines hprints (hobject e he)
  have hwritten : ∀ texts ∈ events.map fun e => encodedLines serde e.1 e.2,
      texts ≠ [] ∧ ∀ text ∈ texts, OneLine text := by
    intro texts htexts
    obtain ⟨e, he, rfl⟩ := mem_map.mp htexts
    exact ⟨by simp [encodedLines], hlines e he⟩
  obtain ⟨lines, htext, hevents⟩ := lines_of_written hwritten
  rw [List.map_map] at hevents
  rw [flatMap_map] at htext
  simp only [← encode_eq_writeEvent, ← hflatten] at htext
  refine (decode_new_ok_iff limit chunks _).mpr ⟨⟨lines, htext, fun group hgroup => ?_⟩, ?_, ?_⟩
  · rw [hevents] at hgroup
    obtain ⟨e, he, rfl⟩ := mem_map.mp hgroup
    have hfits := (hlimit e he).trans (le_max_left limit 1)
    exact eventFits_written (encode_eq_writeEvent ▸ hfits) (data_le_encode.trans hfits)
  · unfold reading
    rw [htext, Option.map_some, hevents, List.map_map]
    exact congrArg some (List.map_congr_left fun e _ => readEvent_encodedLines)
  · rintro ⟨before, after, rfl, opened, hcut, -⟩
    have hcr : carriageReturn ∈ (before ++ after).flatten := by simp [flatten_append, hcut]
    rw [hflatten] at hcr
    obtain ⟨e, he, hcr⟩ := mem_flatMap.mp hcr
    rw [encode_eq_writeEvent] at hcr
    unfold writeEvent writeLines at hcr
    rw [mem_append, mem_flatMap] at hcr
    obtain ⟨text, htext, hcr⟩ | hcr := hcr
    · refine (mem_append.mp hcr).elim (hlines e he text htext).no_cr (by decide)
    · exact absurd hcr (by decide)

theorem oneObject_prints {inner : String} {members : List (String × Json)} (hlf : lineFeed ∉ utf8 (objectText inner))
    (hcr : carriageReturn ∉ utf8 (objectText inner)) : Prints (oneObject inner members) :=
  .of_text (fun _ => rfl) hlf hcr _ utf8_objectText

theorem relayed_stream_decodes_cut :
    (SseEventDecoder.new 64).decode [utf8 "data: \x7b\x7d\n\nevent: a\nda", utf8 "ta: \x7b\x7d\n\n"] =
      .ok [encodedEvent emptyObjects none (.object []), encodedEvent emptyObjects (some "a") (.object [])] :=
  relayed_stream_decodes (oneObject_prints (by decide) (by decide)) [(none, .object []), (some "a", .object [])]
    (by decide) 64 (by decide) _ (by decide)

def deltaValue : Json := .object [("type", .string "response.output_text.delta")]

def isDelta : ResponsesTransportItem → Bool
  | .json none (.object [(key, .string type)]) => key = "type" && type = "response.output_text.delta"
  | _ => false

/-- An event of a stream that ends with `[DONE]`. -/
theorem forwards_delta : Forwards deltaObjects none deltaValue := by
  have hreturned : ((new 64 64).returned deltaObjects
      [utf8 ("data: " ++ deltaText ++ "\n\ndata: [DONE]\n\n")]).any isDelta = true := by decide +kernel
  obtain ⟨item, hmem, hitem⟩ := any_eq_true.mp hreturned
  unfold isDelta at hitem
  split at hitem
  · rw [Bool.and_eq_true, decide_eq_true_eq, decide_eq_true_eq] at hitem
    obtain ⟨rfl, rfl⟩ := hitem
    exact (forwards_iff (oneObject_prints (by decide) (by decide)) hmem).mpr ⟨by decide, oneObject_fromSlice⟩
  · cases hitem

/-! ## A failure that becomes a keepalive -/

def keepaliveText : String := "\x7b\"type\":\"keepalive\",\"sequence_number\":3\x7d"

def twoTypesText : String := "\x7b\"type\":\"response.failed\",\"type\":\"keepalive\",\"sequence_number\":3\x7d"

def keepaliveValue : Json := .object [("type", .string "keepalive"), ("sequence_number", .number (.posInt 3))]

def twoTypes : SerdeJson where
  fromSlice bytes :=
    if bytes = utf8 twoTypesText ∨ bytes = utf8 keepaliveText then .ok keepaliveValue
    else .error "expected value"
  next _ := .invalid "expected value"
  next_consumed := by
    intro bytes v n h
    cases h
  livenessPayload bytes := if bytes = utf8 keepaliveText then some ("keepalive", some 3) else none
  toText _ := keepaliveText

def isKeepaliveJson : ResponsesTransportItem → Bool
  | .json none (.object [("type", .string "keepalive"), ("sequence_number", .number (.posInt 3))]) => true
  | _ => false

def isSequencedKeepalive : ResponsesTransportItem → Bool
  | .liveness .sequencedKeepalive => true
  | _ => false

/-- Without an event name, an event with a failure and a keepalive type passes as JSON; encoded again it is
a keepalive. -/
theorem forwarded_failure_becomes_keepalive :
    Prints twoTypes ∧
    .json none keepaliveValue ∈ (new 256 256).returned twoTypes [utf8 "data: " ++ utf8 twoTypesText ++ utf8 "\n\n"] ∧
    ¬Forwards twoTypes none keepaliveValue := by
  refine ⟨.of_text (fun _ => rfl) (by decide) (by decide)
    (utf8 keepaliveText).tail.dropLast (by decide), ?_, fun hforwards => ?_⟩
  · have hreturned : ((new 256 256).returned twoTypes
        [utf8 "data: " ++ utf8 twoTypesText ++ utf8 "\n\n"]).any isKeepaliveJson = true := by
      decide +kernel
    obtain ⟨item, hmem, hitem⟩ := any_eq_true.mp hreturned
    unfold isKeepaliveJson at hitem
    split at hitem
    · exact hmem
    · cases hitem
  · have hdecode : ((new 256 256).decode twoTypes [encodeCanonicalJsonSse twoTypes none keepaliveValue]).toOption.all
          (fun items => items.all isSequencedKeepalive) = true := by decide +kernel
    obtain ⟨declaredEvent', hok, _⟩ := hforwards 256 256 [encodeCanonicalJsonSse twoTypes none keepaliveValue]
      (by rw [flatten_cons, flatten_nil, append_nil]) (by decide)
    rw [hok] at hdecode
    cases hdecode

end CcSwitchServer.ResponsesTransport
