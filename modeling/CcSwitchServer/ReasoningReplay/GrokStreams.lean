import CcSwitchServer.ReasoningReplay.GrokProofs
import CcSwitchServer.ResponsesTransport.Independence

/-! # Proofs from streams (`GrokReplayStreamAccumulator` in `proxy/grok_replay.rs`)

A stream is trusted only if one completed response is its last event. Of `response_semantics.rs` only the
classes that are asked for are told apart.
-/

namespace CcSwitchServer.GrokReplay
open Foundations ResponsesTransport Json ResponsesTransportDecoder

/-! ## The class of an event -/

inductive SemanticObservation
  | control
  | errorFrame
  | failure
  | metadata
  | incompleteTerminal
  | other
  deriving DecidableEq

variable (value : Json)

def validResponseId : Bool := value.asStr.any fun id => Text.trim id ≠ "" ∧ id.utf8ByteSize ≤ 512

def isInterruptAck : Bool :=
  match value with
  | .object members =>
    let kind := (value.get "type").bind asStr
    (kind = some "response.interrupt.accepted" || kind = some "response.interrupt.failed") &&
      (value.get "response_id").any validResponseId &&
      (value.get "sequence_number").all (fun number => number.asU64.isSome) &&
      (if kind = some "response.interrupt.accepted" then (value.get "error").all isNull
        else (value.get "error").any isObject) &&
      members.all fun e => ["type", "response_id", "sequence_number", "error"].contains e.1
  | _ => false

def reviewedFields : String → List String
  | "response.metadata" | "codex.response.metadata" =>
    ["type", "response_id", "sequence_number", "metadata", "headers"]
  | "codex.rate_limits" | "rate_limits.updated" =>
    ["type", "response_id", "sequence_number", "rate_limits", "rate_limit", "plan_type", "credits",
      "metered_limit_name", "limit_id", "limit_name"]
  | _ => []

def reviewedField (key : String) (value : Json) : Bool :=
  if key = "type" then true
  else if key = "sequence_number" then value.asU64.isSome
  else if key = "response_id" then validResponseId value
  else if ["metadata", "headers", "rate_limits", "rate_limit", "credits"].contains key then
    value.isObject || value.isNull
  else value.asStr.isSome || value.isNull

def isReviewedResponsesMetadata : Bool :=
  match value, (value.get "type").bind asStr with
  | .object members, some kind =>
    reviewedFields kind ≠ [] && members.all fun e => (reviewedFields kind).contains e.1 && reviewedField e.1 e.2
  | _, _ => false

/-- An empty error is none. -/
def errorValueIsSubstantive : Json → Bool
  | .null => false
  | .bool value => value
  | .string value => Text.trim value ≠ ""
  | .array values => !values.isEmpty
  | .object members => !members.isEmpty
  | .number _ => true

def nestedNonNullError : Option Json :=
  ((value.get "error").filter errorValueIsSubstantive).or
    ((((value.get "status_details").bind fun details => details.get "error").filter errorValueIsSubstantive).or
      (((value.get "body").bind fun body => body.get "error").filter errorValueIsSubstantive))

def classifyValue : SemanticObservation :=
  let eventType := ((value.get "type").bind asStr).getD ""
  let response := ((value.get "response").filter isObject).getD value
  let status := (response.get "status").bind asStr
  if isInterruptAck value then .control
  else if eventType = "error" then .errorFrame
  else if status = some "failed" ∨ status = some "cancelled" ∨ (nestedNonNullError response).isSome ∨
      (nestedNonNullError value).isSome ∨ eventType = "response.failed" ∨ eventType = "response.cancelled" ∨
      eventType = "response.canceled" then .failure
  else if isReviewedResponsesMetadata value then .metadata
  else if eventType = "response.incomplete" ∨ (eventType = "" ∧ status = some "incomplete") ∨
      (eventType = "response.completed" ∧ status = some "incomplete") then .incompleteTerminal
  else .other

/-! ## The accumulator -/

def maxStreamBytes : ℕ := 8 * 1024 * 1024

def maxStreamItems : ℕ := 256

/-- What `observe` changes. -/
structure Observed where
  output : List Json := []
  terminal : Option Json := none
  doneSeen : Bool := false

/-- The first fault is final. -/
structure GrokReplayStreamAccumulator extends Observed where
  decoder : ResponsesTransportDecoder := .new maxItemBytes maxStreamBytes
  bytes : ℕ := 0
  invalid : Bool := false

def eventType (declaredEvent : Option String) (value : Json) : Option String :=
  ((value.get "type").bind asStr).or declaredEvent

def Refused (declaredEvent : Option String) (value : Json) : Prop :=
  eventType declaredEvent value ∈ ["response.failed", "response.incomplete", "response.cancelled",
      "response.canceled", "error"].map some ∨
    classifyValue value = .failure ∨ classifyValue value = .incompleteTerminal ∨ classifyValue value = .errorFrame

instance (declaredEvent : Option String) (value : Json) : Decidable (Refused declaredEvent value) :=
  inferInstanceAs (Decidable (_ ∨ _))

/-- One round of `observe`; `none` makes the accumulator invalid. -/
def observeItem (o : Observed) : ResponsesTransportItem → Option Observed
  | .liveness _ => some o
  | .done => if o.terminal.isNone ∨ o.doneSeen then none else some { o with doneSeen := true }
  | .json declaredEvent value =>
    if o.terminal.isSome ∨ o.doneSeen then none
    else if Refused declaredEvent value then none
    else if eventType declaredEvent value = some "response.output_item.done" then
      ((value.get "item").filter isObject).bind fun item =>
        if maxStreamItems ≤ o.output.length then none else some { o with output := o.output ++ [item] }
    else if eventType declaredEvent value = some "response.completed" then some { o with terminal := some value }
    else some o

def observe (o : Observed) (items : List ResponsesTransportItem) : Option Observed := items.foldlM observeItem o

section
variable {β : Type} (transport : SerdeJson) (serde : Serde β)

def captureDocument (body : β) : Option GrokReplayProof := do
  let document ← serde.fromSlice body
  let response := (document.get "response").getD document
  if (response.get "status").bind asStr ≠ some "completed" then none
  else captureOutput serde (← (response.get "output").bind asArray)

def push (a : GrokReplayStreamAccumulator) (chunk : List UInt8) : GrokReplayStreamAccumulator :=
  if a.invalid then a
  -- a sum that does not fit in `usize` is more than the limit too
  else if maxStreamBytes < a.bytes + chunk.length then { invalid := true }
  else
    match a.decoder.push transport chunk with
    | .ok (items, decoder) =>
      match observe a.toObserved items with
      | some o => { o with decoder := decoder, bytes := a.bytes + chunk.length }
      | none => { invalid := true }
    | .error _ => { invalid := true }

/-- The proof of what was observed. -/
def Observed.proof (o : Observed) : Option GrokReplayProof := do
  let terminal ← o.terminal
  let response ← terminal.get "response"
  if (response.get "status").bind asStr ≠ some "completed" then none
  else
    let items := ((response.get "output").bind asArray).getD []
    captureOutput serde (if items.isEmpty then o.output else items)

/-- A stream without a completed response has no proof. -/
def finish (a : GrokReplayStreamAccumulator) : Option GrokReplayProof :=
  if a.invalid then none
  else
    match a.decoder.finish transport with
    | .ok (items, _) => (observe a.toObserved items).bind (Observed.proof serde)
    | .error _ => none

/-- `push` for every chunk, and `finish`. -/
def captureStream (chunks : List (List UInt8)) : Option GrokReplayProof :=
  finish transport serde (chunks.foldl (push transport) {})

end

/-! ## One completed response -/

/-- An event that may stand before the last one. -/
def InProgress : ResponsesTransportItem → Prop
  | .json declaredEvent value =>
    ¬Refused declaredEvent value ∧ eventType declaredEvent value ≠ some "response.completed"
  | .done => False
  | .liveness _ => True

def isDone : ResponsesTransportItem → Bool
  | .done => true
  | _ => false

def isJson : ResponsesTransportItem → Bool
  | .json _ _ => true
  | _ => false

/-- The item that a `response.output_item.done` event brings. -/
def doneItem : ResponsesTransportItem → Option Json
  | .json declaredEvent value =>
    if eventType declaredEvent value = some "response.output_item.done" then value.get "item" else none
  | _ => none

/-- The events end with one completed response, and behind it there is at most one sentinel. -/
def Completes (items : List ResponsesTransportItem) (response : Json) (output : List Json) : Prop :=
  ∃ before declaredEvent terminal behind, items = before ++ .json declaredEvent terminal :: behind ∧
    (∀ item ∈ before, InProgress item) ∧ output = before.filterMap doneItem ∧
    eventType declaredEvent terminal = some "response.completed" ∧ ¬Refused declaredEvent terminal ∧
    terminal.get "response" = some response ∧ (response.get "status").bind asStr = some "completed" ∧
    behind.any isJson = false ∧ behind.countP isDone ≤ 1

def Decodes (transport : SerdeJson) (chunks : List (List UInt8)) (items : List ResponsesTransportItem) : Prop :=
  (new maxItemBytes maxStreamBytes).decode transport chunks = .ok items

/-- The decoder gives up because one of its buffers is full. -/
def Fills (transport : SerdeJson) (chunks : List (List UInt8)) : Prop :=
  ResponsesTransportDecoder.Overflows ((new maxItemBytes maxStreamBytes).decode transport chunks)

/-- The response with the collected items in place of an output that is missing or empty. -/
def completed (response : Json) (output : List Json) : Json :=
  if (((response.get "output").bind asArray).getD []).isEmpty then response.set "output" (.array output)
  else response

section
variable {o o' : Observed} {items : List ResponsesTransportItem} {terminal : Json}

theorem observe_cons (item : ResponsesTransportItem) :
    observe o (item :: items) = (observeItem o item).bind fun o => observe o items := List.foldlM_cons

theorem observe_append (later : List ResponsesTransportItem) :
    observe o (items ++ later) = (observe o items).bind fun o => observe o later := List.foldlM_append

/-- Behind a completed response no document may follow, and at most one `[DONE]`. -/
theorem observe_behind (hterminal : o.terminal = some terminal) (h : observe o items = some o') :
    o'.terminal = some terminal ∧ o'.output = o.output ∧ items.any isJson = false ∧
      items.countP isDone + o.doneSeen.toNat ≤ 1 := by
  induction items generalizing o with
  | nil =>
    cases h
    exact ⟨hterminal, rfl, rfl, by simpa using Bool.toNat_le o'.doneSeen⟩
  | cons item items ih =>
    rw [observe_cons] at h
    obtain ⟨o1, hitem, hlater⟩ := Option.bind_eq_some_iff.mp h
    cases item with
    | json declaredEvent value => simp [observeItem, hterminal] at hitem
    | liveness kind =>
      cases hitem
      exact ih hterminal hlater
    | done =>
      simp only [observeItem, hterminal, Option.isNone_some, Bool.false_eq_true, false_or] at hitem
      split at hitem
      · cases hitem
      · rename_i hdone
        cases hitem
        obtain ⟨hend, houtput, hall, hcount⟩ := @ih ⟨o.output, some terminal, true⟩ rfl hlater
        refine ⟨hend, houtput, hall, ?_⟩
        rw [List.countP_cons_of_pos rfl, Bool.eq_false_iff.mpr hdone]
        exact hcount

theorem observe_completes (hterminal : o.terminal = none) (hdone : o.doneSeen = false)
    (h : observe o items = some o') (hend : o'.terminal = some terminal) :
    ∃ before declaredEvent behind, items = before ++ .json declaredEvent terminal :: behind ∧
      (∀ item ∈ before, InProgress item) ∧ o'.output = o.output ++ before.filterMap doneItem ∧
      eventType declaredEvent terminal = some "response.completed" ∧ ¬Refused declaredEvent terminal ∧
      behind.any isJson = false ∧ behind.countP isDone ≤ 1 := by
  induction items generalizing o with
  | nil =>
    cases h
    cases hterminal.symm.trans hend
  | cons item items ih =>
    rw [observe_cons] at h
    obtain ⟨o1, hitem, hlater⟩ := Option.bind_eq_some_iff.mp h
    have hnext : InProgress item → o1.terminal = none → o1.doneSeen = false →
        o1.output = o.output ++ (doneItem item).toList →
        ∃ before declaredEvent behind, item :: items = before ++ .json declaredEvent terminal :: behind ∧
          (∀ item ∈ before, InProgress item) ∧ o'.output = o.output ++ before.filterMap doneItem ∧
          eventType declaredEvent terminal = some "response.completed" ∧ ¬Refused declaredEvent terminal ∧
          behind.any isJson = false ∧ behind.countP isDone ≤ 1 := by
      intro hprogress hterminal1 hdone1 houtput1
      obtain ⟨before, declaredEvent, behind, rfl, hbefore, houtput, hrest⟩ := ih hterminal1 hdone1 hlater
      refine ⟨item :: before, declaredEvent, behind, rfl, ?_, ?_, hrest⟩
      · rintro other (_ | ⟨_, hmem⟩)
        · exact hprogress
        · exact hbefore other hmem
      · rw [houtput, houtput1, List.filterMap_cons, List.append_assoc]
        cases doneItem item <;> rfl
    cases item with
    | liveness kind =>
      cases hitem
      exact hnext trivial hterminal hdone (List.append_nil _).symm
    | done => simp [observeItem, hterminal] at hitem
    | json declaredEvent value =>
      simp only [observeItem, hterminal, hdone, Option.isSome_none, Bool.false_eq_true, or_self, if_false] at hitem
      split at hitem
      · cases hitem
      · rename_i hrefused
        split at hitem
        · rename_i hkind
          obtain ⟨item, hobject, hitem⟩ := Option.bind_eq_some_iff.mp hitem
          split at hitem
          · cases hitem
          · cases hitem
            refine hnext ⟨hrefused, by rw [hkind]; decide⟩ rfl rfl ?_
            rw [doneItem, if_pos hkind, (Option.filter_eq_some_iff.mp hobject).1]
            rfl
        · rename_i hkind
          have hnone : doneItem (.json declaredEvent value) = none := if_neg hkind
          split at hitem
          · rename_i hcompleted
            cases hitem
            obtain ⟨hterminal', houtput, hbehind, hcount⟩ := @observe_behind _ _ _ value rfl hlater
            cases hterminal'.symm.trans hend
            refine ⟨[], declaredEvent, items, rfl, (fun _ hmem => nomatch hmem), ?_, hcompleted, hrefused, hbehind, ?_⟩
            · rw [houtput]
              exact (List.append_nil _).symm
            · exact le_of_add_le_left hcount
          · rename_i hcompleted
            cases hitem
            refine hnext ⟨hrefused, hcompleted⟩ hterminal hdone ?_
            rw [hnone]
            exact (List.append_nil _).symm

end

/-! ## Streams -/

section
variable {β : Type} {transport : SerdeJson} {serde : Serde β} {a : GrokReplayStreamAccumulator}
  {chunks : List (List UInt8)} {items : List ResponsesTransportItem}

theorem foldl_push_invalid (h : a.invalid = true) (chunks : List (List UInt8)) :
    chunks.foldl (push transport) a = a := by
  induction chunks with
  | nil => rfl
  | cons chunk chunks ih => rw [List.foldl_cons, push, if_pos h, ih]

theorem finish_invalid (h : a.invalid = true) : finish transport serde a = none := if_pos h

/-- The faults of the decoder and of the observation are final, so the chunks only matter to the decoder. -/
theorem finish_foldl (hvalid : a.invalid = false) (hbytes : a.bytes + chunks.flatten.length ≤ maxStreamBytes) :
    finish transport serde (chunks.foldl (push transport) a) =
      match a.decoder.decode transport chunks with
      | .ok items => (observe a.toObserved items).bind (Observed.proof serde)
      | .error _ => none := by
  induction chunks generalizing a with
  | nil =>
    rw [List.foldl_nil, finish, hvalid, if_neg (by decide), decode]
    cases a.decoder.finish transport with
    | error e => rfl
    | ok r => rfl
  | cons chunk chunks ih =>
    rw [List.flatten_cons, List.length_append] at hbytes
    rw [List.foldl_cons, decode]
    have hinvalid : finish transport serde (chunks.foldl (push transport) { invalid := true }) = none := by
      rw [foldl_push_invalid rfl, finish_invalid rfl]
    have hpush : push transport a chunk =
        match a.decoder.push transport chunk with
        | .ok (items, decoder) =>
          match observe a.toObserved items with
          | some o => { o with decoder := decoder, bytes := a.bytes + chunk.length }
          | none => { invalid := true }
        | .error _ => { invalid := true } := by
      rw [push, hvalid, if_neg (by decide), if_neg (by omega)]
    rw [hpush]
    cases a.decoder.push transport chunk with
    | error e => exact hinvalid
    | ok r =>
      obtain ⟨first, decoder⟩ := r
      rw [ok_bind]
      dsimp only
      cases hfirst : observe a.toObserved first with
      | none =>
        rw [hinvalid]
        cases decoder.decode transport chunks with
        | error e => rfl
        | ok later =>
          show none = (observe a.toObserved (first ++ later)).bind _
          rw [observe_append, hfirst]
          rfl
      | some o =>
        rw [ih rfl (by dsimp only; omega)]
        cases decoder.decode transport chunks with
        | error e => rfl
        | ok later =>
          show _ = (observe a.toObserved (first ++ later)).bind _
          rw [observe_append, hfirst]
          rfl

theorem captureStream_eq (h : chunks.flatten.length ≤ maxStreamBytes) :
    captureStream transport serde chunks =
      match (new maxItemBytes maxStreamBytes).decode transport chunks with
      | .ok items => (observe {} items).bind (Observed.proof serde)
      | .error _ => none :=
  finish_foldl rfl (by rw [Nat.zero_add]; exact h)

theorem Observed.proof_eq {o : Observed} {proof : GrokReplayProof} (h : o.proof serde = some proof) :
    ∃ terminal response, o.terminal = some terminal ∧ terminal.get "response" = some response ∧
      (response.get "status").bind asStr = some "completed" ∧
      ∀ body document, serde.fromSlice body = some document →
        (document.get "response").getD document = completed response o.output →
          captureDocument serde body = some proof := by
  unfold Observed.proof at h
  obtain ⟨terminal, hterminal, h⟩ := Option.bind_eq_some_iff.mp h
  obtain ⟨response, hresponse, h⟩ := Option.bind_eq_some_iff.mp h
  split at h
  · cases h
  · rename_i hstatus
    refine ⟨terminal, response, hterminal, hresponse, not_not.mp hstatus, fun body document hbody hdocument => ?_⟩
    have hcapture : captureDocument serde body =
        if ((completed response o.output).get "status").bind asStr ≠ some "completed" then none
        else (((completed response o.output).get "output").bind asArray).bind (captureOutput serde) := by
      rw [captureDocument, hbody, ← hdocument]
      rfl
    rw [hcapture]
    dsimp only at h
    unfold completed
    split
    · rename_i hempty
      rw [if_pos hempty] at h
      cases response with
      | object members =>
        have hkept := get_set_object "output" "status" (.array o.output) members
        have hset := get_set_object "output" "output" (.array o.output) members
        rw [if_neg (by decide)] at hkept
        rw [if_pos rfl] at hset
        rw [hkept, hset, if_neg hstatus]
        exact h
      | _ => exact (hstatus nofun).elim
    · rename_i hfull
      rw [if_neg hfull] at h
      cases hlist : (response.get "output").bind asArray with
      | none => exact absurd (by rw [hlist]; rfl) hfull
      | some values => rwa [hlist] at h

end

/-- Two ways of cutting a stream lead to the same proof when neither fills a buffer, and a proof comes from a stream
that one completed response ends. -/
theorem stream_capture {β : Type} {transport : SerdeJson} (serde : Serde β) (htransport : Rfc8259 transport)
    {bytes : List UInt8} (hlen : bytes.length ≤ maxStreamBytes) :
    (¬GluedDone transport bytes → ∀ chunks chunks', chunks.flatten = bytes → chunks'.flatten = bytes →
      ¬Fills transport chunks → ¬Fills transport chunks' →
        captureStream transport serde chunks = captureStream transport serde chunks') ∧
    ∀ chunks proof, chunks.flatten = bytes → captureStream transport serde chunks = some proof →
      ∃ items response output, Decodes transport chunks items ∧ Completes items response output ∧
        ∀ body document, serde.fromSlice body = some document →
          (document.get "response").getD document = completed response output →
            captureDocument serde body = some proof := by
  constructor
  · intro hglued
    have hsame : ∀ chunks chunks' : List (List UInt8), chunks.flatten = bytes → chunks'.flatten = bytes →
        ¬Fills transport chunks' → ∀ items, Decodes transport chunks items → Decodes transport chunks' items :=
      fun chunks chunks' h h' hfills items hdecode =>
        (new_delivers htransport h h' (hlen.trans (le_max_left _ _)) hglued hdecode).resolve_right fun hover =>
          hfills hover.2
    intro chunks chunks' h h' hfills hfills'
    rw [captureStream_eq (h ▸ hlen), captureStream_eq (h' ▸ hlen)]
    have hagree : Agree ((new maxItemBytes maxStreamBytes).decode transport chunks)
        ((new maxItemBytes maxStreamBytes).decode transport chunks') :=
      Agree.of_ok_iff fun items => ⟨hsame chunks chunks' h h' hfills' items, hsame chunks' chunks h' h hfills items⟩
    rcases hagree with ⟨items, hitems, hitems'⟩ | ⟨e, e', he, he'⟩
    · rw [hitems, hitems']
    · rw [he, he']
  · intro chunks proof h hproof
    rw [captureStream_eq (h ▸ hlen)] at hproof
    split at hproof
    · rename_i items hitems
      obtain ⟨o, hobserve, hproof⟩ := Option.bind_eq_some_iff.mp hproof
      obtain ⟨terminal, response, hterminal, hresponse, hstatus, hdocument⟩ := Observed.proof_eq hproof
      obtain ⟨before, declaredEvent, behind, hsplit, hbefore, houtput, hkind, hrefused, hbehind⟩ :=
        observe_completes rfl rfl hobserve hterminal
      exact ⟨items, response, o.output, hitems, ⟨before, declaredEvent, terminal, behind, hsplit, hbefore, houtput, hkind,
        hrefused, hresponse, hstatus, hbehind⟩, hdocument⟩
    · cases hproof

/-! ## A parser of one document -/

def onlyDocument (text : List UInt8) (value : Json) : SerdeJson where
  fromSlice bytes := if bytes = text then .ok value else .error "expected value"
  next bytes :=
    if text <+: bytes ∧ text ≠ [] then .value value text.length
    else if bytes = [] then .finished
    else if bytes <+: text then .eof "EOF while parsing an object"
    else .invalid "expected value"
  next_consumed := by
    intro bytes v n h
    split at h
    · rename_i htext
      cases h
      exact ⟨List.length_pos_iff.mpr htext.2, htext.1.length_le⟩
    · split at h
      · cases h
      · split at h <;> cases h
  livenessPayload _ := none
  toText _ := ""

theorem onlyDocument_next_eq_value {text bytes : List UInt8} {value v : Json} {n : ℕ} :
    (onlyDocument text value).next bytes = .value v n ↔ (text <+: bytes ∧ text ≠ []) ∧ v = value ∧ n = text.length := by
  unfold onlyDocument
  dsimp only
  constructor
  · intro h
    split at h
    · rename_i htext
      cases h
      exact ⟨htext, rfl, rfl⟩
    · split at h
      · cases h
      · split at h <;> cases h
  · rintro ⟨htext, rfl, rfl⟩
    exact if_pos htext

theorem onlyDocument_rfc8259 {text : List UInt8} {value : Json} (htext : text.head? = some 123)
    (hvalue : value.isObject = true) : Rfc8259 (onlyDocument text value) := by
  constructor
  · intro bytes v n h _ behind
    obtain ⟨⟨hpre, hne⟩, rfl, rfl⟩ := onlyDocument_next_eq_value.mp h
    refine onlyDocument_next_eq_value.mpr ⟨⟨?_, hne⟩, rfl, rfl⟩
    rw [← List.prefix_iff_eq_take.mp hpre]
    exact List.prefix_append _ _
  · intro bytes m h behind
    unfold onlyDocument at h ⊢
    dsimp only at h ⊢
    split at h
    · cases h
    · rename_i hvalue
      split at h
      · cases h
      · rename_i hne
        split at h
        · cases h
        · rename_i hpart
          have hwhole : ¬(text <+: bytes ++ behind ∧ text ≠ []) := fun ⟨hwhole, htext⟩ =>
            (List.prefix_or_prefix_of_prefix hwhole (List.prefix_append bytes behind)).elim
              (fun hpre => hvalue ⟨hpre, htext⟩) hpart
          rw [if_neg hwhole, if_neg (by simp [hne]), if_neg fun hlonger => hpart ((List.prefix_append _ _).trans hlonger)]
          exact ⟨_, rfl⟩
  · intro bytes v n h _
    obtain ⟨⟨⟨behind, rfl⟩, hne⟩, rfl, rfl⟩ := onlyDocument_next_eq_value.mp h
    refine iff_of_true hvalue ?_
    rw [List.head?_append_of_ne_nil _ hne, htext]
  · intro bytes h
    unfold onlyDocument at h
    dsimp only at h
    split at h
    · cases h
    · split at h
      · rename_i hnil
        rw [hnil]
        rfl
      · split at h <;> cases h

def completedEvent : Json :=
  .object [("type", .string "response.completed"), ("response", .object [("status", .string "completed"),
    ("output", .array [reasoningItem, callItem "call_1"])])]

/-- The members of the event behind its brace. -/
def completedMembers : List UInt8 := Text.utf8
  ("\"type\":\"response.completed\",\"response\":\x7b\"status\":\"completed\",\"output\":[" ++
    "\x7b\"type\":\"reasoning\",\"encrypted_content\":\"opaque-reasoning-proof-1234567890\"\x7d," ++
    "\x7b\"type\":\"function_call\",\"call_id\":\"call_1\",\"name\":\"lookup\"\x7d]\x7d\x7d")

/-- The text of the event with some blanks behind its brace. -/
def paddedText (n : ℕ) : List UInt8 := 123 :: (List.replicate n 32 ++ completedMembers)

section
variable (n : ℕ)

theorem paddedText_rfc8259 : Rfc8259 (onlyDocument (paddedText n) completedEvent) := onlyDocument_rfc8259 rfl rfl

theorem decode_paddedText (chunk : List UInt8) (chunks : List (List UInt8)) :
    (new maxItemBytes maxStreamBytes).decode (onlyDocument (paddedText n) completedEvent) ((123 :: chunk) :: chunks) =
      ((new maxItemBytes maxStreamBytes).decided .json).decode
        (onlyDocument (paddedText n) completedEvent) ((123 :: chunk) :: chunks) :=
  decode_of_decision rfl (List.cons_ne_nil _ _) (by decide) (@detectMode_document _ 123 chunk false rfl (.inl rfl))

theorem captures_paddedText (hlen : (paddedText n).length ≤ maxStreamBytes) :
    ∃ proof, captureStream (onlyDocument (paddedText n) completedEvent) valueSerde [paddedText n] = some proof := by
  have hnext : (onlyDocument (paddedText n) completedEvent).next (paddedText n) =
      .value completedEvent (paddedText n).length :=
    onlyDocument_next_eq_value.mpr ⟨⟨List.prefix_rfl, List.cons_ne_nil _ _⟩, rfl, rfl⟩
  have hdrain := drain_object (paddedText_rfc8259 n) rfl hnext hlen
  rw [List.take_length] at hdrain
  have hdecode := (decode_paddedText n (List.replicate n 32 ++ completedMembers) []).trans
    (decode_cons_of_drain rfl rfl (List.cons_ne_nil _ _) hdrain (decode_nil_json rfl rfl))
  rw [captureStream_eq (by simpa using hlen)]
  rw [show [paddedText n] = [123 :: (List.replicate n 32 ++ completedMembers)] from rfl, hdecode]
  exact ⟨_, rfl⟩

theorem push_blanks (hn : maxItemBytes ≤ n) {d : ResponsesTransportDecoder} (hmode : d.mode = .json)
    (hjson : d.json = []) (hlimit : d.maxPendingBytes = maxItemBytes) :
    d.push (onlyDocument (paddedText n) completedEvent) (123 :: List.replicate n 32) =
      .error (.capacity s!"Responses pending JSON event exceeded {d.maxPendingBytes} bytes") := by
  have heof : (onlyDocument (paddedText n) completedEvent).next (123 :: List.replicate n 32) =
      .eof "EOF while parsing an object" := by
    have hmembers : 0 < completedMembers.length := by decide +kernel
    have hshort : ¬(paddedText n <+: 123 :: List.replicate n 32 ∧ paddedText n ≠ []) := by
      rintro ⟨hpre, -⟩
      have hle := hpre.length_le
      unfold paddedText at hle
      rw [List.length_cons, List.length_cons, List.length_append] at hle
      omega
    have hpart : 123 :: List.replicate n 32 <+: paddedText n := List.prefix_append _ _
    unfold onlyDocument
    dsimp only
    rw [if_neg hshort, if_neg (List.cons_ne_nil _ _), if_pos hpart]
  have hnext : nextDocument (onlyDocument (paddedText n) completedEvent) d.maxEventBytes false
      (123 :: List.replicate n 32) = .more := by
    unfold nextDocument
    rw [if_neg (List.cons_ne_nil _ _), if_neg (by simp [isAsciiWhitespace]), heof]
    rfl
  rw [push_json hmode (List.cons_ne_nil _ _), drainJson]
  rw [hjson, List.nil_append, drain_of_more hnext, ok_bind]
  dsimp only
  rw [ensure_of_not (by simp [hlimit]; omega)]
  rfl

theorem cut_paddedText (hn : maxItemBytes ≤ n) (hlen : (paddedText n).length ≤ maxStreamBytes) :
    captureStream (onlyDocument (paddedText n) completedEvent) valueSerde
      [123 :: List.replicate n 32, completedMembers] = none := by
  obtain ⟨e, hlost, -⟩ := overflows_of_push (push_blanks n hn
    (show ((new maxItemBytes maxStreamBytes).decided .json).mode = .json from rfl) rfl rfl) rfl
  rw [captureStream_eq (by simpa [paddedText] using hlen), decode_paddedText, hlost]

end

/-- Cut behind the blanks, a document that is longer than a buffer is lost. -/
theorem cut_document_is_lost : ∃ bytes chunks chunks' transport, Rfc8259 transport ∧
    bytes.length ≤ maxStreamBytes ∧ chunks.flatten = bytes ∧ chunks'.flatten = bytes ∧
      captureStream transport valueSerde chunks ≠ captureStream transport valueSerde chunks' := by
  have hcut : ∀ n, maxItemBytes ≤ n → (paddedText n).length ≤ maxStreamBytes →
      ∃ bytes chunks chunks' transport, Rfc8259 transport ∧ bytes.length ≤ maxStreamBytes ∧ chunks.flatten = bytes ∧
        chunks'.flatten = bytes ∧
          captureStream transport valueSerde chunks ≠ captureStream transport valueSerde chunks' := by
    intro n hn hlen
    obtain ⟨proof, hproof⟩ := captures_paddedText n hlen
    refine ⟨paddedText n, [paddedText n], [123 :: List.replicate n 32, completedMembers], _, paddedText_rfc8259 n, hlen,
      by simp, by simp [paddedText], ?_⟩
    rw [hproof, cut_paddedText n hn hlen]
    exact Option.some_ne_none proof
  refine hcut maxItemBytes le_rfl ?_
  have hmembers : completedMembers.length ≤ maxItemBytes := by decide +kernel
  unfold paddedText maxStreamBytes
  rw [List.length_cons, List.length_append, List.length_replicate]
  unfold maxItemBytes at hmembers ⊢
  omega

/-- A completed response in one chunk. -/
theorem stream_capture_completed :
    ∃ proof, captureStream (onlyDocument (paddedText 0) completedEvent) valueSerde [paddedText 0] = some proof ∧
      ∃ items response output, Decodes (onlyDocument (paddedText 0) completedEvent) [paddedText 0] items ∧
        Completes items response output := by
  have hlen : (paddedText 0).length ≤ maxStreamBytes := by decide +kernel
  obtain ⟨proof, hproof⟩ := captures_paddedText 0 hlen
  obtain ⟨items, response, output, hdecodes, hcompletes, -⟩ :=
    (stream_capture valueSerde (paddedText_rfc8259 0) hlen).2 [paddedText 0] proof (by simp) hproof
  exact ⟨proof, hproof, items, response, output, hdecodes, hcompletes⟩

end CcSwitchServer.GrokReplay
