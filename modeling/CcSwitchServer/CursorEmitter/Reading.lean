import CcSwitchServer.CursorEmitter.Writer
import CcSwitchServer.Foundations.Spans

/-! # What a client reads

Blocks and items as marks of numbered spans, the text, the tool calls and the usage, in each of the formats.
Every frame that the writer builds has a lemma that says what is read from it.
-/

namespace CcSwitchServer.CursorEmitter
open Foundations

def strAt (v : Json) (key : String) : Option String := (v.get key).bind Json.asStr

def natAt (v : Json) (key : String) : Option ℕ :=
  match v.get key with
  | some (.number (.posInt n)) => some n.toNat
  | _ => none

def itemsAt (v : Json) (key : String) : List Json :=
  match v.get key with
  | some (.array items) => items
  | _ => []

def concat (texts : List String) : String := texts.foldr (· ++ ·) ""

/-! ## Blocks of a Messages stream -/

def deltaText (delta : Json) : String :=
  (((strAt delta "text").or (strAt delta "thinking")).or (strAt delta "partial_json")).getD ""

/-- What a frame says about the blocks of a message. -/
def blockMarks : Frame → List Mark
  | .event name data =>
    match natAt data "index" with
    | none => []
    | some i =>
      if name = "content_block_start" then [.opened i]
      else if name = "content_block_delta" then [.wrote i (((data.get "delta").map deltaText).getD "")]
      else if name = "content_block_stop" then [.closed i]
      else []
  | _ => []

variable (index : UInt32)

@[simp] theorem blockMarks_start (block : Json) :
    blockMarks (contentBlockStart index block) = [.opened index.toNat] := by rfl

variable (text : String)

@[simp] theorem blockMarks_text :
    blockMarks (contentBlockDelta index "text_delta" "text" text) = [.wrote index.toNat text] := by rfl

@[simp] theorem blockMarks_thinking :
    blockMarks (contentBlockDelta index "thinking_delta" "thinking" text) = [.wrote index.toNat text] := by rfl

@[simp] theorem blockMarks_json :
    blockMarks (contentBlockDelta index "input_json_delta" "partial_json" text) = [.wrote index.toNat text] := by rfl

@[simp] theorem blockMarks_stop : blockMarks (contentBlockStop index) = [.closed index.toNat] := by
  rfl

/-! ## Items of a Responses stream -/

/-- The text of a message, the summary of a reasoning item, or the input of a call. -/
def itemText (item : Json) : String :=
  match strAt item "type" with
  | some "message" => concat ((itemsAt item "content").filterMap fun part => strAt part "text")
  | some "reasoning" => concat ((itemsAt item "summary").filterMap fun part => strAt part "text")
  | some "function_call" => (strAt item "arguments").getD ""
  | some "custom_tool_call" => (strAt item "input").getD ""
  | _ => ""

/-- What a frame says about the items of a response. -/
def itemMarks : Frame → List Mark
  | .event name data =>
    match natAt data "output_index" with
    | none => []
    | some i =>
      if name = "response.output_item.added" then [.opened i]
      else if name = "response.output_item.done" then [.stated i (((data.get "item").map itemText).getD ""), .closed i]
      else
        match strAt data "delta" with
        | some text => [.wrote i text]
        | none => [.stated i (((strAt data "text").or (strAt data "arguments")).or (strAt data "input") |>.getD "")]
  | _ => []

@[simp] theorem itemMarks_added (item : Json) :
    itemMarks (outputItemAdded index item) = [.opened index.toNat] := by rfl

@[simp] theorem itemMarks_done (item : Json) :
    itemMarks (outputItemDone index item) = [.stated index.toNat (itemText item), .closed index.toNat] := by rfl

variable (itemId : String)

@[simp] theorem itemMarks_textDelta :
    itemMarks (outputTextDelta itemId index text) = [.wrote index.toNat text] := by rfl

@[simp] theorem itemMarks_textDone :
    itemMarks (outputTextDone itemId index text) = [.stated index.toNat text] := by rfl

@[simp] theorem itemMarks_reasoningDelta :
    itemMarks (reasoningSummaryTextDelta itemId index text) = [.wrote index.toNat text] := by rfl

@[simp] theorem itemMarks_argumentsDelta :
    itemMarks (callInput "response.function_call_arguments.delta" itemId index "delta" text) =
      [.wrote index.toNat text] := by rfl

@[simp] theorem itemMarks_argumentsDone :
    itemMarks (callInput "response.function_call_arguments.done" itemId index "arguments" text) =
      [.stated index.toNat text] := by rfl

@[simp] theorem itemMarks_inputDelta :
    itemMarks (callInput "response.custom_tool_call_input.delta" itemId index "delta" text) =
      [.wrote index.toNat text] := by rfl

@[simp] theorem itemMarks_inputDone :
    itemMarks (callInput "response.custom_tool_call_input.done" itemId index "input" text) =
      [.stated index.toNat text] := by rfl

@[simp] theorem itemText_message (itemId text : String) : itemText (messageOutputItem itemId [text]) = text := by
  change text ++ "" = text
  rw [String.append_empty]

@[simp] theorem itemText_reasoning (itemId text : String) : itemText (reasoningOutputItem itemId [text]) = text := by
  change text ++ "" = text
  rw [String.append_empty]

@[simp] theorem itemText_custom (itemId name callId input : String) :
    itemText (customToolItem itemId name callId input) = input := by rfl

@[simp] theorem itemText_function (itemId name callId arguments : String) (wireNamespace : Option String) :
    itemText (functionCallItem itemId name callId arguments wireNamespace) = arguments := by rfl

/-! ## Text -/

def firstChoice (data : Json) (key : String) : Option Json := (itemsAt data "choices").head?.bind fun c => c.get key

def geminiParts (data : Json) : List Json :=
  (((itemsAt data "candidates").head?.bind fun c => c.get "content").map fun content =>
    itemsAt content "parts").getD []

def partsText (parts : List Json) : String := concat (parts.filterMap fun part => strAt part "text")

variable (format : CursorResponseFormat)

def textOf (frame : Frame) : String :=
  match format, frame with
  | .anthropicMessages, .event "content_block_delta" data =>
    ((data.get "delta").bind fun delta => strAt delta "text").getD ""
  | .openAiResponses, .event "response.output_text.delta" data => (strAt data "delta").getD ""
  | .openAiChatCompletions, .data data => ((firstChoice data "delta").bind fun delta => strAt delta "content").getD ""
  | .geminiGenerateContent, .data data => partsText (geminiParts data)
  | _, _ => ""

def jsonText (answer : Json) : String :=
  match format with
  | .anthropicMessages => partsText (itemsAt answer "content")
  | .openAiResponses =>
    concat (((itemsAt answer "output").filter fun item => strAt item "type" = some "message").map itemText)
  | .openAiChatCompletions => ((firstChoice answer "message").bind fun message => strAt message "content").getD ""
  | .geminiGenerateContent => partsText (geminiParts answer)

/-! ## Tool calls -/

/-- A tool call as a client reads it. -/
structure ReadCall where
  id : String
  name : String
  /-- A text, or a value where the format has one. -/
  arguments : Json

def readCall (v function : Json) (idKey argumentsKey : String) : ReadCall :=
  ⟨(strAt v idKey).getD "", (strAt function "name").getD "", (function.get argumentsKey).getD .null⟩

def ofType (kind : String) (items : List Json) : List Json := items.filter fun item => strAt item "type" = some kind

/-- A message block that starts a call has no arguments yet; its deltas add them. -/
def blockCalls (calls : List ReadCall) : Frame → List ReadCall
  | .event "content_block_start" data =>
    calls ++ (ofType "tool_use" (data.get "content_block").toList).map fun block =>
      ⟨(strAt block "id").getD "", (strAt block "name").getD "", .string ""⟩
  | .event "content_block_delta" data =>
    match (data.get "delta").bind fun delta => strAt delta "partial_json", calls.getLast? with
    | some text, some call =>
      calls.dropLast ++ [{ call with arguments := .string ((call.arguments.asStr).getD "" ++ text) }]
    | _, _ => calls
  | _ => calls

def itemCall (item : Json) : List ReadCall :=
  if strAt item "type" = some "function_call" then [readCall item item "call_id" "arguments"]
  else if strAt item "type" = some "custom_tool_call" then [readCall item item "call_id" "input"]
  else []

def chatCalls (message : Json) : List ReadCall :=
  (itemsAt message "tool_calls").map fun call =>
    readCall call ((call.get "function").getD .null) "id" "arguments"

def partCall (part : Json) : Option ReadCall :=
  (part.get "functionCall").map fun call => readCall call call "id" "args"

/-- The calls read before a frame, and those it adds. -/
def readFrame (calls : List ReadCall) (frame : Frame) : List ReadCall :=
  match format, frame with
  | .anthropicMessages, frame => blockCalls calls frame
  | .openAiResponses, .event "response.output_item.done" data =>
    calls ++ (data.get "item").toList.flatMap itemCall
  | .openAiChatCompletions, .data data => calls ++ (firstChoice data "delta").toList.flatMap chatCalls
  | .geminiGenerateContent, .data data => calls ++ (geminiParts data).filterMap partCall
  | _, _ => calls

def callsOf (calls : List ReadCall) (frames : List Frame) : List ReadCall := frames.foldl (readFrame format) calls

def jsonCalls (answer : Json) : List ReadCall :=
  match format with
  | .anthropicMessages =>
    (ofType "tool_use" (itemsAt answer "content")).map fun block => readCall block block "id" "input"
  | .openAiResponses => (itemsAt answer "output").flatMap itemCall
  | .openAiChatCompletions => (firstChoice answer "message").toList.flatMap chatCalls
  | .geminiGenerateContent => (geminiParts answer).filterMap partCall

/-! ## Usage -/

structure ReadUsage where
  input : ℕ
  output : ℕ
  total : ℕ
  deriving DecidableEq, Repr

def readUsage (usage : Json) (input output total : String) : Option ReadUsage := do
  some ⟨← natAt usage input, ← natAt usage output, ← natAt usage total⟩

def jsonUsage (answer : Json) : Option ReadUsage :=
  match format with
  | .anthropicMessages => none
  | .openAiResponses =>
    (answer.get "usage").bind fun usage => readUsage usage "input_tokens" "output_tokens" "total_tokens"
  | .openAiChatCompletions =>
    (answer.get "usage").bind fun usage => readUsage usage "prompt_tokens" "completion_tokens" "total_tokens"
  | .geminiGenerateContent =>
    (answer.get "usageMetadata").bind fun usage =>
      readUsage usage "promptTokenCount" "candidatesTokenCount" "totalTokenCount"

def usageOf : Frame → Option ReadUsage
  | .event _ data => (data.get "response").bind (jsonUsage format)
  | .data data => jsonUsage format data
  | .done => none

end CcSwitchServer.CursorEmitter
