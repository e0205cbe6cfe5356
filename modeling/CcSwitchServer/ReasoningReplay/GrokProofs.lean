import CcSwitchServer.Foundations.JsonEdits
import CcSwitchServer.Foundations.OrderedMap
import Mathlib.Data.List.Destutter

/-! # Reasoning proofs of Grok (`apply` and `capture_output` in `proxy/grok_replay.rs`)

The proof of a completed response keeps for every function call the reasoning item before it. JSON texts and
digests come from outside of the repository.
-/

namespace CcSwitchServer.GrokReplay
open Foundations Json Option List

/-! ## Proofs -/

structure GrokCallProof where
  fingerprint : String
  reasoning : Json

structure GrokReplayProof where
  calls : OrderedMap String GrokCallProof

/-- The bodies of requests with `serde_json` on them. `fingerprint` is the hexadecimal digest of a tag, the
name, a zero byte and the JSON text of the canonical arguments. -/
structure Serde (β : Type) where
  fromSlice : β → Option Json
  toVec : Json → β
  fromSlice_toVec : ∀ v, fromSlice (toVec v) = some v
  textLen : Json → ℕ
  proofLen : GrokReplayProof → ℕ
  fingerprint : String → Json → String

def maxCalls : ℕ := 64

def maxItemBytes : ℕ := 1024 * 1024

def maxEntryBytes : ℕ := 4 * 1024 * 1024

def maxInputItems : ℕ := 256

def itemType (item : Json) : Option String := (item.get "type").bind asStr

/-- A text that is blank or too long counts as none. -/
def boundedText (value : Option Json) (max : ℕ) : Option String :=
  ((value.bind asStr).map Text.trim).filter fun value => value ≠ "" ∧ value.utf8ByteSize ≤ max

def boundedRawText (value : Option Json) (max : ℕ) : Option String :=
  (value.bind asStr).filter fun value => Text.trim value ≠ "" ∧ value.utf8ByteSize ≤ max

def boundedCallId (value : Option Json) (max : ℕ) : Option String :=
  (boundedRawText value max).filter fun value => Text.trim value = value

def IsFunctionCall (item : Json) : Prop := itemType item = some "function_call"

instance (item : Json) : Decidable (IsFunctionCall item) := inferInstanceAs (Decidable (_ = _))

def IsReasoning (item : Json) : Prop := itemType item = some "reasoning"

instance (item : Json) : Decidable (IsReasoning item) := inferInstanceAs (Decidable (_ = _))

section
variable {β : Type} (serde : Serde β) (proof : GrokReplayProof)

/-- `canonical_value` orders the members of every object. -/
def callFingerprint (item : Json) : Option String :=
  (boundedRawText (item.get "name") 256).map fun name =>
    serde.fingerprint name ((item.get "arguments").getD .null).sorted

/-- Only what the upstream needs of a reasoning item is kept. -/
def sanitizeReasoning (item : Json) : Option Json :=
  if IsReasoning item then do
    let encrypted ← boundedText (item.get "encrypted_content") maxItemBytes
    if encrypted.utf8ByteSize < 16 then none
    else
      let members := ["id", "summary", "content", "encrypted_content"].filterMap fun key =>
        ((item.get key).filter fun value => ¬value.isNull).map fun value => (key, value)
      let value := .object (("type", .string "reasoning") :: members)
      if serde.textLen value ≤ maxItemBytes then some value else none
  else none

/-- Parallel calls share one reasoning item. -/
def captureItem (state : Option Json × OrderedMap String GrokCallProof) (item : Json) :
    Option (Option Json × OrderedMap String GrokCallProof) :=
  if IsReasoning item then some (sanitizeReasoning serde item, state.2)
  else if IsFunctionCall item then do
    let reasoning ← state.1
    let callId ← boundedCallId (item.get "call_id") 256
    let fingerprint ← callFingerprint serde item
    if (state.2.get? callId).isSome then none
    else some (state.1, state.2.insert callId ⟨fingerprint, reasoning⟩)
  else some state

/-- Any item that does not fit spoils the proof. -/
def captureOutput (output : List Json) : Option GrokReplayProof := do
  let state ← output.foldlM (captureItem serde) (none, .empty)
  let proof : GrokReplayProof := ⟨state.2⟩
  if proof.calls.size = 0 ∨ maxCalls < proof.calls.size ∨ maxEntryBytes < serde.proofLen proof then none
  else some proof

/-! ## Restoring -/

/-- The check of the function calls; `seen` holds the ids so far. -/
def acceptsFrom (seen : List String) : List Json → Bool
  | [] => true
  | item :: rest =>
    if IsFunctionCall item then
      match boundedCallId (item.get "call_id") 256, callFingerprint serde item with
      | some callId, some fingerprint =>
        if callId ∈ seen then false
        else if (proof.calls.get? callId).any fun cached => cached.fingerprint ≠ fingerprint then false
        else acceptsFrom (callId :: seen) rest
      | _, _ => false
    else acceptsFrom seen rest

def cachedCall (item : Json) : Option GrokCallProof :=
  if IsFunctionCall item then ((item.get "call_id").bind asStr).bind proof.calls.get? else none

/-- The proof of a call that has no reasoning item directly before it. -/
def unpreceded (last : Option Json) (item : Json) : Option GrokCallProof :=
  if last.any fun last => IsReasoning last then none else cachedCall proof item

/-- The new input, and whether an item was put in. `last` is the last item of the new input so far. -/
def rebuild (last lastInjected : Option Json) : List Json → List Json × Bool
  | [] => ([], false)
  | item :: rest =>
    match (unpreceded proof last item).filter fun cached =>
        ¬lastInjected.any fun injected => injected.equal cached.reasoning with
    | some cached => (cached.reasoning :: item :: (rebuild (some item) (some cached.reasoning) rest).1, true)
    | none =>
      let later := rebuild (some item) lastInjected rest
      (item :: later.1, later.2)

structure ApplyResult (β : Type) where
  body : β
  applied : Bool
  contextMismatch : Bool

def unchanged (body : β) (contextMismatch : Bool) : ApplyResult β := ⟨body, false, contextMismatch⟩

/-- The items are put back in front of the calls, unless the context has changed. -/
def apply (body : β) : ApplyResult β :=
  match serde.fromSlice body with
  | none => unchanged body false
  | some document =>
    match (document.get "input").bind asArray with
    | none => unchanged body false
    | some input =>
      if maxInputItems < input.length ∨ acceptsFrom serde proof [] input = false then unchanged body true
      else
        let rebuilt := rebuild proof none none input
        if rebuilt.2 then ⟨serde.toVec (document.set "input" (.array rebuilt.1)), true, false⟩
        else unchanged body false

end

/-! ## What restoring should do -/

section
variable {β : Type} (serde : Serde β) (proof : GrokReplayProof)

/-- The call has a usable id and name, and it is the captured one if one was captured under the id. -/
def Known (call : Json) : Prop :=
  ∃ callId fingerprint, boundedCallId (call.get "call_id") 256 = some callId ∧
    callFingerprint serde call = some fingerprint ∧
      ∀ cached ∈ proof.calls.get? callId, cached.fingerprint = fingerprint

def callIds (input : List Json) : List (Option String) :=
  (input.filter fun item => IsFunctionCall item).map fun call => boundedCallId (call.get "call_id") 256

/-- The calls of the input are those of the proof. -/
structure Agrees (input : List Json) : Prop where
  known : ∀ call ∈ input, IsFunctionCall call → Known serde proof call
  distinct : (callIds input).Nodup

/-- A captured call that does not follow a reasoning item, with the last item before it that is no call. -/
structure Need where
  reasoning : Json
  kept : Option Json

/-- The calls that ask for their item, with the one that was put back last. -/
def needs (last kept : Option Json) : List Json → List Need
  | [] => []
  | item :: rest =>
    let later := needs (some item) (if IsFunctionCall item then kept else some item) rest
    match unpreceded proof last item with
    | some cached => ⟨cached.reasoning, kept⟩ :: later
    | none => later

def Need.Differs (need need' : Need) : Prop := need.reasoning.equal need'.reasoning = false

instance : DecidableRel Need.Differs := fun _ _ => inferInstanceAs (Decidable (_ = false))

def Need.IsKept (need : Need) : Prop := need.kept.any (fun item => item.equal need.reasoning) = true

/-- `runs` takes one of every run of successive needs with the same item. -/
def Tidy (body : β) : Prop :=
  ∀ document input, serde.fromSlice body = some document → document.get "input" = some (.array input) →
    input.length ≤ maxInputItems → Agrees serde proof input →
      let runs := (needs proof none none input).destutter Need.Differs
      (∀ need ∈ runs, ¬need.IsKept) ∧
        ((needs proof none none input).IsChain Need.Differs ∨ maxInputItems < input.length + runs.length)

end

/-! ## Captured proofs -/

section
variable {β : Type} {serde : Serde β} {proof : GrokReplayProof} {item : Json}

end

/-! ## Runs of needs -/

section
variable {β : Type} {serde : Serde β} {proof : GrokReplayProof}
variable {last lastInjected : Option Json} {item : Json} {rest : List Json}

end

/-! ## Requests -/

section
variable {β : Type} {serde : Serde β} {proof : GrokReplayProof} {item : Json} {rest : List Json}

variable {document : Json} {input : List Json} {body : β}

end

/-! ## Restoring once -/

section
variable {β : Type} {serde : Serde β} {proof : GrokReplayProof} {document : Json} {input : List Json} {body : β}

end

/-- The length of the text of an object whose members are texts without escapes. -/
def flatLength : Json → ℕ
  | .object members =>
    (members.map fun e => e.1.utf8ByteSize + ((e.2.asStr).map String.utf8ByteSize).getD 2 + 6).sum + 1
  | _ => 4

/-- Bodies are values; the name and the arguments of a call are their own fingerprint. -/
def valueSerde : Serde Json where
  fromSlice := some
  toVec := id
  fromSlice_toVec _ := rfl
  textLen := flatLength
  proofLen proof := (proof.calls.entries.map fun e =>
    e.1.utf8ByteSize + e.2.fingerprint.utf8ByteSize + flatLength e.2.reasoning + 36).sum + 12
  fingerprint name arguments := name ++ "\x00" ++ (arguments.asStr).getD ""

def reasoningItem : Json :=
  .object [("type", .string "reasoning"), ("encrypted_content", .string "opaque-reasoning-proof-1234567890")]

def callItem (callId : String) : Json :=
  .object [("type", .string "function_call"), ("call_id", .string callId), ("name", .string "lookup")]

end CcSwitchServer.GrokReplay
