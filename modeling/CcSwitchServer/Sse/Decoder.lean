import CcSwitchServer.Foundations.Incremental
import CcSwitchServer.Foundations.Text

/-! # The decoder of server-sent events (`src/proxy/sse_transport.rs`)

`SseEventDecoder` takes bytes in chunks and returns the events that are complete.
-/

namespace CcSwitchServer.Sse
open Foundations

/-- The fields of an event as its lines gave them. -/
structure SseEvent where
  event : Option String
  data : List UInt8
  hasData : Bool
  id : Option String
  retry : Option String
  commentLines : ℕ
  unknownFields : ℕ
deriving DecidableEq, Repr

/-- The text of a UTF-8 error is left out. -/
inductive SseDecodeError
  | invalidUtf8
  | eventTooLarge (limit : ℕ)
deriving DecidableEq, Repr

/-- An event that is still open, with the bytes it took. -/
structure PendingSseEvent extends SseEvent where
  sawField : Bool
  wireBytes : ℕ
deriving DecidableEq, Repr

namespace PendingSseEvent

def default : PendingSseEvent where
  event := none
  data := []
  hasData := false
  id := none
  retry := none
  commentLines := 0
  unknownFields := 0
  sawField := false
  wireBytes := 0

/-- An event without lines is none. -/
def intoEvent (e : PendingSseEvent) : Option SseEvent :=
  if e.sawField then some e.toSseEvent else none

end PendingSseEvent

/-! ## Lines -/

def lineFeed : UInt8 := 10

def carriageReturn : UInt8 := 13

/-- The length of the first line and of its line end. A CR at the end of the buffer may be half of a line
end, unless nothing follows. -/
def nextLineBoundary (finish : Bool) : List UInt8 → Option (ℕ × ℕ)
  | [] => none
  | byte :: rest =>
    if byte = lineFeed then some (0, 1)
    else if byte = carriageReturn then
      match rest with
      | [] => if finish then some (0, 1) else none
      | following :: _ => if following = lineFeed then some (0, 2) else some (0, 1)
    else (nextLineBoundary finish rest).map fun boundary => (boundary.1 + 1, boundary.2)

/-- A line ends within the buffer, and its end takes at least a byte. -/
theorem nextLineBoundary_le {finish : Bool} {buffer : List UInt8} {lineEnd delimiterLen : ℕ}
    (h : nextLineBoundary finish buffer = some (lineEnd, delimiterLen)) :
    0 < delimiterLen ∧ lineEnd + delimiterLen ≤ buffer.length := by
  induction buffer generalizing lineEnd with
  | nil => cases h
  | cons byte rest ih =>
    unfold nextLineBoundary at h
    split at h
    · cases h
      simp
    · split at h
      · cases rest with
        | nil =>
          cases finish with
          | false => cases h
          | true =>
            cases h
            simp
        | cons following rest =>
          dsimp only at h
          split at h
          · cases h
            simp
          · cases h
            simp
      · obtain ⟨⟨i, d⟩, hboundary, heq⟩ := Option.map_eq_some_iff.mp h
        cases heq
        obtain ⟨hpos, hle⟩ := ih hboundary
        rw [List.length_cons]
        omega

/-! ## Fields -/

/-- An empty line ends the event. -/
def dispatch (e : PendingSseEvent) : List SseEvent × PendingSseEvent := (e.intoEvent.toList, .default)

variable (maxEventBytes : ℕ)

/-- Both the bytes of an event and its data are bounded. -/
def ensureEventBounded (e : PendingSseEvent) : Except SseDecodeError Unit :=
  ensure (e.wireBytes ≤ maxEventBytes ∧ e.data.length ≤ maxEventBytes) (.eventTooLarge maxEventBytes)

/-- A line without a colon is a field without a value. -/
def fieldOf (line : String) : String × String :=
  match Text.splitOnce ':' line.toList with
  | some (field, value) =>
    (String.ofList field, String.ofList ((Text.stripPrefix [' '] value).getD value))
  | none => (line, "")

/-- An id that holds NUL is ignored, and a retry that is no number counts as none. -/
def setField (e : PendingSseEvent) (field value : String) : Except SseDecodeError PendingSseEvent :=
  if field = "event" then pure { e with event := if value = "" then none else some value }
  else if field = "data" then do
    let e :=
      { e with
        data := (if e.hasData then e.data ++ [lineFeed] else e.data) ++ Text.utf8 value
        hasData := true }
    ensureEventBounded maxEventBytes e
    pure e
  else if field = "id" then pure (if '\x00' ∈ value.toList then e else { e with id := some value })
  else if field = "retry" then
    pure { e with retry := if value.toList.all Text.isAsciiDigit then some value else none }
  else pure { e with unknownFields := saturatingAdd e.unknownFields 1 }

def interpret (e : PendingSseEvent) (text : String) : Except SseDecodeError PendingSseEvent :=
  if text.toList.head? = some ':' then
    pure { e with commentLines := saturatingAdd e.commentLines 1 }
  else setField maxEventBytes e (fieldOf text).1 (fieldOf text).2

/-- One line without its delimiter, whose bytes count. -/
def processLine (e : PendingSseEvent) (line : List UInt8) (delimiterLen : ℕ) :
    Except SseDecodeError (List SseEvent × PendingSseEvent) := do
  let text ← context (Text.fromUtf8 line) .invalidUtf8
  if text = "" then pure (dispatch e)
  else
    let wireBytes := saturatingAdd (saturatingAdd e.wireBytes line.length) delimiterLen
    ensureEventBounded maxEventBytes { e with wireBytes := wireBytes }
    let e ← interpret maxEventBytes { e with wireBytes := wireBytes, sawField := true } text
    pure ([], e)

/-! ## The decoder -/

/-- The loop of `drain`: one line after the other. -/
def lineDecoder (finish : Bool) : Decoder PendingSseEvent SseDecodeError SseEvent UInt8 where
  next e buffer :=
    match nextLineBoundary finish buffer with
    | none => .more
    | some (lineEnd, delimiterLen) =>
      match processLine maxEventBytes e (buffer.take lineEnd) delimiterLen with
      | .error error => .fail error
      | .ok (events, e) => .take (buffer.drop (lineEnd + delimiterLen)) events e
  shrinks := by
    intro e buffer rest out e' h
    split at h
    · cases h
    · rename_i lineEnd delimiterLen hboundary
      split at h
      · cases h
      · cases h
        obtain ⟨hpos, hle⟩ := nextLineBoundary_le hboundary
        rw [List.length_drop]
        omega

/-- The bytes of an unfinished line, the open event and the two limits. -/
structure SseEventDecoder where
  pending : List UInt8
  event : PendingSseEvent
  maxPendingBytes : ℕ
  maxEventBytes : ℕ

namespace SseEventDecoder

/-- The limits are at least 1, and an event may be as large as what is pending. -/
def withLimits (maxPendingBytes maxEventBytes : ℕ) : SseEventDecoder where
  pending := []
  event := .default
  maxPendingBytes := max maxPendingBytes 1
  maxEventBytes := max maxEventBytes (max maxPendingBytes 1)

def new (maxEventBytes : ℕ) : SseEventDecoder := withLimits maxEventBytes maxEventBytes

variable (d : SseEventDecoder)

def ensurePendingBounded : Except SseDecodeError Unit :=
  ensure (saturatingAdd d.event.wireBytes d.pending.length ≤ d.maxPendingBytes) (.eventTooLarge d.maxPendingBytes)

/-- A line that ends with the input counts as if it had a line end of one byte. -/
def processTail : Except SseDecodeError (List SseEvent × SseEventDecoder) :=
  if d.pending = [] then pure ([], d)
  else do
    let (events, event) ← processLine d.maxEventBytes d.event d.pending 1
    pure (events, { d with pending := [], event := event })

/-- All complete lines, and then the check of what is pending. -/
def drain (d : SseEventDecoder) (finish : Bool) : Except SseDecodeError (List SseEvent × SseEventDecoder) := do
  let (events, event, pending) ← (lineDecoder d.maxEventBytes finish).drain d.event d.pending
  let d := { d with pending := pending, event := event }
  if finish then
    let (tail, d) ← d.processTail
    let (last, event) := dispatch d.event
    pure (events ++ tail ++ last, { d with event := event })
  else
    d.ensurePendingBounded
    pure (events, d)

def push (chunk : List UInt8) : Except SseDecodeError (List SseEvent × SseEventDecoder) :=
  { d with pending := d.pending ++ chunk }.drain false

/-- The end of the stream ends the last line and the last event. -/
def finish : Except SseDecodeError (List SseEvent × SseEventDecoder) := d.drain true

def decode (d : SseEventDecoder) : List (List UInt8) → Except SseDecodeError (List SseEvent)
  | [] => do
    let (events, _) ← d.finish
    pure events
  | chunk :: chunks => do
    let (events, d) ← d.push chunk
    let later ← d.decode chunks
    pure (events ++ later)

end SseEventDecoder

end CcSwitchServer.Sse
