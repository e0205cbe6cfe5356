import CcSwitchServer.Foundations.Checked
import CcSwitchServer.Foundations.OrderedMap
import CcSwitchServer.GeminiStream.Grounding

/-! # Gemini streams as Anthropic streams (`src/proxy/stream_transforms.rs`)

`GeminiAnthropicState` takes the events of a Gemini stream and answers with Anthropic frames.
-/

namespace CcSwitchServer.GeminiStream
open Foundations Json

/-! ## Frames -/

inductive ContentBlock
  | text
  | thinking
  | toolUse (id name : String) (signature : Option String)
  | serverToolUse (id name : String)
  | webSearchToolResult (toolUseId : String) (content : List GroundingChunk)
deriving DecidableEq, Repr

inductive Delta
  | text (text : String)
  | thinking (thinking : String)
  | signature (signature : String)
  | inputJson (partialJson : Json)
  | citations (citation : GroundingCitation)

/-- A frame before it is serialised; the usage of the last ones is left out. -/
inductive StreamFrame
  | messageStart (id model : String)
  | contentBlockStart (index : ℕ) (block : ContentBlock)
  | contentBlockDelta (index : ℕ) (delta : Delta)
  | contentBlockStop (index : ℕ)
  | messageDelta (stopReason : String)
  | messageStop

/-! ## Events -/

structure FunctionCall where
  name : Option String
  id : Option String
  args : Option Json

structure Part where
  thought : Bool
  text : Option String
  signature : Option String
  functionCall : Option FunctionCall

structure Candidate where
  index : ℤ
  grounding : Option Json
  parts : List Part
  finishReason : Option String

/-- An event is read as a whole before it is transformed. -/
structure Event where
  candidates : List Candidate
  blockReason : Option String
  responseId : String
  modelVersion : String

def nonEmpty (text : Option String) : Option String := text.filter (· ≠ "")

/-- Arguments that are null count as none. -/
def FunctionCall.read (v : Json) : FunctionCall where
  name := (v.get "name").bind asStr
  id := nonEmpty ((v.get "id").bind asStr)
  args := (v.getOr "args" "arguments").filter fun args => !args.isNull

def Part.read (v : Json) : Part where
  thought := (v.get "thought").bind asBool = some true
  text := nonEmpty ((v.get "text").bind asStr)
  signature := nonEmpty ((v.getOr "thoughtSignature" "thought_signature").bind asStr)
  functionCall := (v.getOr "functionCall" "function_call").map FunctionCall.read

/-- Without an index the candidate has that of its position. -/
def Candidate.read (position : ℕ) (v : Json) : Candidate where
  index := ((v.get "index").bind asI64).getD position
  grounding := v.getOr "groundingMetadata" "grounding_metadata"
  parts := ((((v.get "content").bind fun content => content.get "parts").bind asArray).getD []).map Part.read
  finishReason := (v.getOr "finishReason" "finish_reason").bind asStr

def Event.read (v : Json) : Event where
  candidates := (((v.get "candidates").bind asArray).getD []).mapIdx Candidate.read
  blockReason := nonEmpty ((((((v.get "promptFeedback").bind fun feedback => feedback.get "blockReason").orElse
    fun _ => (v.get "prompt_feedback").bind fun feedback => feedback.get "block_reason").bind asStr)).map Text.trim)
  responseId := ((v.getOr "responseId" "response_id").bind asStr).getD "gemini"
  modelVersion := ((v.getOr "modelVersion" "model_version").bind asStr).getD ""

/-! ## The state -/

structure BlockState where
  index : ℕ
  isOpen : Bool
deriving DecidableEq, Repr

/-- The candidate, the part, and the occurrence of the name among the parts. -/
abbrev GeminiAnthropicToolKey := ℤ ×ₗ ℕ ×ₗ ℕ

/-- The parts of a call so far, and whether its block was written. -/
structure GeminiAnthropicToolState where
  id : String
  idWasExplicit : Bool
  name : String
  arguments : Json
  signature : Option String
  emitted : Bool

/-- The open blocks, the calls that wait and what is held back for a web search. -/
structure GeminiAnthropicState where
  webSearchExpected : Bool := false
  webSearchGateResolved : Bool := true
  bufferedWebSearchInputs : List Event := []
  nextBlockIndex : ℕ := 0
  selectedCandidateIndex : Option ℤ := none
  messageStarted : Bool := false
  textBlock : Option BlockState := none
  textSeen : String := ""
  textMappings : List TextMapping := []
  textByBlock : OrderedMap ℕ String := .empty
  thinkingBlock : Option BlockState := none
  thinkingSeen : String := ""
  thinkingSignature : Option String := none
  tools : OrderedMap GeminiAnthropicToolKey GeminiAnthropicToolState := .empty
  toolOrder : List GeminiAnthropicToolKey := []
  grounding : GroundingAccumulator := {}
  groundingSearchEmitted : Bool := false
  emittedGroundingCitations : List (ℕ × String × ℕ × ℕ) := []
  pendingFinishReason : Option String := none
  pendingBlockedPrompt : Bool := false
  sawContent : Bool := false
  sawTool : Bool := false
  completed : Bool := false

def isOpen (block : Option BlockState) : Bool := block.any fun block => block.isOpen

/-- What the text adds to what was seen: the rest of a longer text, nothing of a shorter one, else all. -/
def geminiIncrementalText (seen incoming : String) : String × String :=
  let incoming := String.ofList (incoming.toList.rdropWhile (· = '\x00'))
  if incoming = "" then (seen, "")
  else if seen.toList <+: incoming.toList then
    (incoming, String.ofList (incoming.toList.drop seen.toList.length))
  else if incoming.toList <+: seen.toList then (seen, "")
  else (seen ++ incoming, incoming)

def replaceMember (members : List (String × Json)) (key : String) (value : Json) : List (String × Json) :=
  members.map fun member => if member.1 = key then (member.1, value) else member

mutual

/-- Objects are merged member by member, anything else is replaced. -/
def mergeGeminiToolArguments (current : Json) : Json → Json
  | .object incoming =>
    match current with
    | .object members => .object (mergeMembers members incoming)
    | _ => .object incoming
  | .null => .null
  | .bool b => .bool b
  | .number n => .number n
  | .string s => .string s
  | .array values => .array values

def mergeMembers (members : List (String × Json)) : List (String × Json) → List (String × Json)
  | [] => members
  | (key, value) :: incoming =>
    match (object members).get key with
    | some known => mergeMembers (replaceMember members key (mergeGeminiToolArguments known value)) incoming
    | none => mergeMembers (members ++ [(key, value)]) incoming

end

def geminiFinishReasonToAnthropic (reason : String) : String :=
  if reason = "MAX_TOKENS" then "max_tokens"
  else if reason ∈ ["SAFETY", "RECITATION", "BLOCKLIST", "PROHIBITED_CONTENT", "SPII", "LANGUAGE", "IMAGE_SAFETY",
      "IMAGE_PROHIBITED_CONTENT", "IMAGE_RECITATION"] then "refusal"
  else if reason = "STOP" then "end_turn"
  else "stop_sequence"

end CcSwitchServer.GeminiStream
