import CcSwitchServer.Foundations.Json
import CcSwitchServer.Sse.Decoder

/-! # The transport of Responses streams (`src/proxy/responses_transport.rs`)

The decoder guesses from the first bytes whether events or documents come.
-/

namespace CcSwitchServer.ResponsesTransport
open Foundations Sse Text

/-! ## `serde_json` -/

/-- What `Deserializer::into_iter().next()` says of a text. -/
inductive StreamNext
  | value (v : Json) (consumed : ℕ)
  | eof (message : String)
  | invalid (message : String)
  | finished

/-- The parsers of a text and of the first value of a stream, the typed reading of a keepalive, and the printer. -/
structure SerdeJson where
  fromSlice : List UInt8 → Except String Json
  next : List UInt8 → StreamNext
  next_consumed : ∀ {bytes v n}, next bytes = .value v n → 0 < n ∧ n ≤ bytes.length
  /-- The typed reading of a keepalive: its type and its sequence number. -/
  livenessPayload : List UInt8 → Option (String × Option ℕ)
  toText : Json → String

/-! ## Items and errors -/

inductive ResponsesLivenessKind
  | comment
  | control
  | textPing
  | eventPing
  | jsonPing
  | sequencedKeepalive
  deriving DecidableEq, Repr

/-- Everything but a keepalive is a JSON object. -/
inductive ResponsesTransportItem
  | json (declaredEvent : Option String) (value : Json)
  | done
  | liveness (kind : ResponsesLivenessKind)

inductive ResponsesTransportErrorKind
  | protocol
  | capacity
  deriving DecidableEq, Repr

/-- The text of a UTF-8 error is left out. -/
structure ResponsesTransportError where
  kind : ResponsesTransportErrorKind
  message : String
  deriving DecidableEq, Repr

namespace ResponsesTransportError

def new (message : String) : ResponsesTransportError := ⟨.protocol, message⟩

def capacity (message : String) : ResponsesTransportError := ⟨.capacity, message⟩

def ofSse : SseDecodeError → ResponsesTransportError
  | .invalidUtf8 => new "Responses SSE framing is invalid: SSE event is not UTF-8"
  | .eventTooLarge limit => capacity s!"Responses SSE framing is invalid: SSE event exceeded {limit} bytes"

end ResponsesTransportError

open ResponsesTransportError

/-! ## Bytes -/

/-- `u8::is_ascii_whitespace` -/
def isAsciiWhitespace (byte : UInt8) : Bool :=
  byte = 32 || byte = 9 || byte = 10 || byte = 12 || byte = 13

variable (bytes : List UInt8)

def trimAsciiStart : List UInt8 := bytes.dropWhile isAsciiWhitespace

def trimAsciiWhitespace : List UInt8 := ((trimAsciiStart bytes).reverse.dropWhile isAsciiWhitespace).reverse

def doneToken : List UInt8 := utf8 "[DONE]"

/-- A `[DONE]` that ends with the bytes or is followed by white space. -/
def doneTokenPrefixLen : Option ℕ :=
  if doneToken.isPrefixOf bytes then
    if (bytes[doneToken.length]?).all isAsciiWhitespace then some doneToken.length else none
  else none

def startsSseField : Bool :=
  ["data", "event", "id", "retry"].any fun field =>
    (utf8 field).isPrefixOf bytes && (bytes[(utf8 field).length]?).all fun byte => byte = 58 || byte = 13 || byte = 10

/-! ## Keepalives -/

/-- Keepalives are recognised by a strict list. -/
def livenessToken (value : String) : Bool := value = "ping" || value = "keepalive"

section
variable (serde : SerdeJson)

/-- The value only nominates; the payload is read a second time, so that duplicate keys are not hidden. -/
def jsonLiveness (value : Json) (payload : List UInt8) : Option ResponsesLivenessKind := do
  let eventType ← (value.get "type").bind Json.asStr
  if livenessToken eventType then
    let candidate ← serde.livenessPayload payload
    if (candidate.1 = "ping" ∨ candidate.1 = "keepalive") ∧ candidate.2 = none then some .jsonPing
    else if candidate.1 = "keepalive" ∧ candidate.2.isSome then some .sequencedKeepalive
    else none
  else none

/-! ## Server-sent events -/

def usableName (name : Option String) : Option String := (name.map trim).filter fun n => n ≠ ""

def payloadEvent (value : Json) : Option String := usableName ((value.get "type").bind Json.asStr)

def classifyJsonEvent (event : SseEvent) (payload : List UInt8) (value : Json) :
    Except ResponsesTransportError ResponsesTransportItem := do
  let declaredEvent := usableName event.event
  ensure (value.isObject = true) (new "Responses SSE data must be a JSON object")
  ensure (∀ declared ∈ declaredEvent, ∀ name ∈ payloadEvent value, declared = name)
    (new "Responses SSE declared event conflicted with its JSON type")
  match jsonLiveness serde value payload with
  | some kind =>
    pure (.liveness (if kind = .sequencedKeepalive then kind else if declaredEvent.isSome then .eventPing else kind))
  | none => do
    ensure (declaredEvent.any livenessToken = false)
      (new "Responses SSE liveness event contained a non-liveness payload")
    pure (.json event.event value)

def classifyPayload (event : SseEvent) (payload : List UInt8) :
    Except ResponsesTransportError ResponsesTransportItem :=
  let declaredEvent := usableName event.event
  if payload = [] then
    pure (.liveness (if declaredEvent.any livenessToken then .eventPing else .control))
  else if payload = doneToken then do
    ensure (declaredEvent = none) (new "Responses SSE [DONE] sentinel must not declare an event")
    pure .done
  else if payload = utf8 "ping" ∨ payload = utf8 "keepalive" then do
    ensure (declaredEvent = none ∨ declaredEvent.filter livenessToken = fromUtf8 payload)
      (new "Responses SSE liveness payload conflicted with its declared event")
    pure (.liveness (if declaredEvent.isSome then .eventPing else .textPing))
  else
    match serde.fromSlice payload with
    | .error message => .error (new s!"Responses SSE data is not valid JSON: {message}")
    | .ok value => classifyJsonEvent serde event payload value

def classifySseEvent (event : SseEvent) : Except ResponsesTransportError ResponsesTransportItem := do
  ensure (event.unknownFields = 0) (new "Responses SSE event contained an unknown non-control field")
  if event.hasData then classifyPayload serde event (trimAsciiWhitespace event.data)
  else
    pure (.liveness (
      if (usableName event.event).any livenessToken then .eventPing
      else if 0 < event.commentLines ∧ event.event = none ∧ event.id = none ∧ event.retry = none then
        .comment
      else .control))

def classifySseEvents (events : List SseEvent) : Except ResponsesTransportError (List ResponsesTransportItem) :=
  events.mapM (classifySseEvent serde)

/-! ## Concatenated documents -/

def classifyDocument (value : Json) (payload : List UInt8) : ResponsesTransportItem :=
  match jsonLiveness serde value payload with
  | some kind => .liveness kind
  | none => .json none value

/-- One round of the loop of `drain_json`; skipping white space is a round of its own. -/
def nextDocument (maxEventBytes : ℕ) (finish : Bool) (json : List UInt8) :
    Next Unit ResponsesTransportError ResponsesTransportItem UInt8 :=
  if json = [] then .more
  else if (json.head?).any isAsciiWhitespace then .take (trimAsciiStart json) [] ()
  else
    match doneTokenPrefixLen json with
    | some doneLen => .take (json.drop doneLen) [.done] ()
    | none =>
      if finish = false ∧ json.isPrefixOf doneToken then .more
      else
        match serde.next json with
        | .value value consumed =>
          if consumed ≤ maxEventBytes then
            if value.isObject then
              .take (json.drop consumed) [classifyDocument serde value (json.take consumed)] ()
            else .fail (new "Responses JSON payload must be an object")
          else .fail (capacity s!"Responses JSON event exceeded {maxEventBytes} bytes")
        | .eof message =>
          if finish then .fail (new s!"Responses JSON data is not valid JSON: {message}") else .more
        | .invalid message => .fail (new s!"Responses JSON data is not valid JSON: {message}")
        | .finished => .more

theorem nextDocument_shrinks {maxEventBytes : ℕ} {finish : Bool} {json rest : List UInt8}
    {out : List ResponsesTransportItem} {s : Unit}
    (h : nextDocument serde maxEventBytes finish json = .take rest out s) :
    rest.length < json.length := by
  unfold nextDocument at h
  split at h
  · cases h
  · rename_i hne
    have hpos := List.length_pos_iff.mpr hne
    split at h
    · rename_i hspace
      cases h
      cases json with
      | nil => exact absurd rfl hne
      | cons c json =>
        have hc : isAsciiWhitespace c = true := by simpa using hspace
        have hle := (List.dropWhile_sublist isAsciiWhitespace (l := json)).length_le
        rw [trimAsciiStart, List.dropWhile_cons_of_pos hc, List.length_cons]
        omega
    · split at h
      · rename_i doneLen hdone
        cases h
        have hlen : doneLen = 6 := by
          unfold doneTokenPrefixLen at hdone
          split at hdone
          · split at hdone
            · cases hdone
              decide
            · cases hdone
          · cases hdone
        rw [List.length_drop]
        omega
      · split at h
        · cases h
        · split at h
          · rename_i value consumed hvalue
            split at h
            · split at h
              · cases h
                have hconsumed := serde.next_consumed hvalue
                rw [List.length_drop]
                omega
              · cases h
            · cases h
          · split at h
            · cases h
            · cases h
          · cases h
          · cases h

def documentDecoder (maxEventBytes : ℕ) (finish : Bool) :
    Decoder Unit ResponsesTransportError ResponsesTransportItem UInt8 where
  next _ json := nextDocument serde maxEventBytes finish json
  shrinks := fun h => nextDocument_shrinks serde h

end

/-! ## The decoder -/

inductive ResponsesTransportMode
  | unknown
  | sse
  | json
  deriving DecidableEq, Repr

/-- The mode, and what was read of an event or of a document. -/
structure ResponsesTransportDecoder where
  mode : ResponsesTransportMode := .unknown
  undecided : List UInt8 := []
  sse : SseEventDecoder
  json : List UInt8 := []
  maxPendingBytes : ℕ
  maxEventBytes : ℕ

abbrev Decoded := Except ResponsesTransportError (List ResponsesTransportItem × ResponsesTransportDecoder)

namespace ResponsesTransportDecoder

def new (maxPendingBytes maxEventBytes : ℕ) : ResponsesTransportDecoder where
  sse := .withLimits (max maxPendingBytes 1) (max maxEventBytes (max maxPendingBytes 1))
  maxPendingBytes := max maxPendingBytes 1
  maxEventBytes := max maxEventBytes (max maxPendingBytes 1)

/-- Until the mode is known the bytes are kept. -/
def detectMode (d : ResponsesTransportDecoder) (finish : Bool) : ResponsesTransportMode :=
  match trimAsciiStart d.undecided with
  | [] => d.mode
  | first :: trimmed =>
    if first = 123 ∨ first = 91 then .json
    else if first = 58 then .sse
    else if startsSseField (first :: trimmed) then .sse
    else if finish ∨ lineFeed ∈ first :: trimmed ∨ carriageReturn ∈ first :: trimmed then .sse
    else .unknown

section
variable (serde : SerdeJson)

variable (d : ResponsesTransportDecoder)

def drainJson (finish : Bool) : Decoded := do
  let (items, _, json) ← (documentDecoder serde d.maxEventBytes finish).drain () d.json
  ensure (finish = true ∨ json.length ≤ d.maxPendingBytes)
    (capacity s!"Responses pending JSON event exceeded {d.maxPendingBytes} bytes")
  pure (items, { d with json := json })

def ensureUndecidedBounded : Except ResponsesTransportError Unit :=
  ensure (d.undecided.length ≤ d.maxPendingBytes)
    (capacity s!"Responses undecided transport prefix exceeded {d.maxPendingBytes} bytes")

def liftSse {α : Type} : Except SseDecodeError α → Except ResponsesTransportError α
  | .ok a => .ok a
  | .error e => .error (ofSse e)

/-- Only called once the mode is decided. -/
def pushDecided (bytes : List UInt8) : Decoded :=
  match d.mode with
  | .sse => do
    let (events, sse) ← liftSse (d.sse.push bytes)
    let items ← classifySseEvents serde events
    pure (items, { d with sse := sse })
  | .json => drainJson serde { d with json := d.json ++ bytes } false
  | .unknown => pure ([], d)

def finishDecided : Decoded :=
  match d.mode with
  | .sse => do
    let (events, sse) ← liftSse d.sse.finish
    let items ← classifySseEvents serde events
    pure (items, { d with sse := sse })
  | .json => drainJson serde d true
  | .unknown => pure ([], d)

def push (chunk : List UInt8) : Decoded :=
  if chunk = [] then pure ([], d)
  else if d.mode = .unknown then
    let d := { d with undecided := d.undecided ++ chunk }
    if d.detectMode false = .unknown then do
      ensureUndecidedBounded d
      pure ([], d)
    else pushDecided serde { d with mode := d.detectMode false, undecided := [] } d.undecided
  else pushDecided serde d chunk

def finish : Decoded :=
  if d.mode = .unknown then
    if d.detectMode true = .unknown then
      if d.undecided.all isAsciiWhitespace then pure ([], { d with undecided := [] })
      else .error (.new "Responses stream ended with an unrecognized payload")
    else do
      let (items, d) ← pushDecided serde { d with mode := d.detectMode true, undecided := [] } d.undecided
      let (last, d) ← finishDecided serde d
      pure (items ++ last, d)
  else finishDecided serde d

def decode (d : ResponsesTransportDecoder) :
    List (List UInt8) → Except ResponsesTransportError (List ResponsesTransportItem)
  | [] => do
    let (items, _) ← d.finish serde
    pure items
  | chunk :: chunks => do
    let (items, d) ← d.push serde chunk
    let later ← d.decode chunks
    pure (items ++ later)

end

end ResponsesTransportDecoder

/-! ## The canonical encoding -/

def validEventName (value : String) : Bool :=
  value ≠ "" && value.utf8ByteSize ≤ 256 && value.toList.all fun c =>
    isAsciiAlphanumeric c || c = '.' || c = '_' || c = '-' || c = ':'

/-- The event name is computed from the JSON type. -/
def encodeCanonicalJsonSse (serde : SerdeJson) (declaredEvent : Option String) (value : Json) : List UInt8 :=
  let event := ((((value.get "type").bind Json.asStr).or declaredEvent).map trim).filter validEventName
  let line := match event with
    | some event => utf8 "event: " ++ utf8 event ++ utf8 "\n"
    | none => []
  line ++ utf8 "data: " ++ utf8 (serde.toText value) ++ utf8 "\n\n"

end CcSwitchServer.ResponsesTransport
