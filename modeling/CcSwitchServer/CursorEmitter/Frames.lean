import CcSwitchServer.Foundations.Json

/-! # Frames of the Cursor writer (`proxy/cursor/event_emitter.rs`)

What the writer sends, before it is put into text.
-/

namespace CcSwitchServer.CursorEmitter
open Foundations

inductive CursorResponseFormat
  | anthropicMessages
  | openAiResponses
  | openAiChatCompletions
  | geminiGenerateContent
  deriving DecidableEq, Repr

structure CapturedToolCall where
  id : String
  name : String
  argumentsJson : String
  deriving DecidableEq, Repr

/-- What the upstream agent reports. -/
inductive AgentEvent
  | text (t : String)
  | thinking (t : String)
  | thinkingComplete
  | toolCall (tc : CapturedToolCall)
  | turnEnded
  | usage (input output : UInt32)
  | error (msg : String)
  deriving DecidableEq, Repr

/-- A named event, a bare data line, or `[DONE]`. -/
inductive Frame
  | event (name : String) (data : Json)
  | data (data : Json)
  | done

/-! ## Values -/

def u32 (n : UInt32) : Json := .number (.posInt n.toUInt64)

def zero : Json := .number (.posInt 0)

def optional (text : Option String) : Json := (text.map Json.string).getD .null

/-! ## Chat and Gemini chunks -/

section
variable (id model : String) (created : Number)

/-- A chunk of a chat completion, with its only choice. -/
def chatChunk (delta : Json) (finish : Option String) : Frame :=
  .data (.object [("id", .string id), ("object", .string "chat.completion.chunk"), ("model", .string model),
    ("created", .number created),
    ("choices", .array [.object [("index", zero), ("delta", delta), ("finish_reason", optional finish)]])])

def chatChunkUsage (input output : UInt32) : Frame :=
  .data (.object [("id", .string id), ("object", .string "chat.completion.chunk"), ("model", .string model),
    ("created", .number created), ("choices", .array []),
    ("usage", .object [("prompt_tokens", u32 input), ("completion_tokens", u32 output),
      ("total_tokens", u32 (input + output))])])

def geminiUsage (input output : UInt32) : Json :=
  .object [("promptTokenCount", u32 input), ("candidatesTokenCount", u32 output),
    ("totalTokenCount", u32 (input + output))]

/-- A chunk with a text, with a reason to finish, or with neither, and with the usage if there is one. -/
def geminiChunk (text finishReason : Option String) (usage : Option (UInt32 × UInt32)) : Frame :=
  let content := (text.map fun text => ("content", Json.object [("role", .string "model"),
    ("parts", .array [.object [("text", .string text)]])])).toList
  let finish := (finishReason.map fun reason => ("finishReason", Json.string reason)).toList
  let candidates := if text.isSome || finishReason.isSome then
    [("candidates", Json.array [.object (content ++ finish)])] else []
  let metadata := (usage.map fun usage => ("usageMetadata", geminiUsage usage.1 usage.2)).toList
  .data (.object ([("modelVersion", .string model), ("responseId", .string id)] ++ candidates ++ metadata))

def geminiFunctionCallChunk (callId name : String) (args : Json) : Frame :=
  .data (.object [("modelVersion", .string model), ("responseId", .string id),
    ("candidates", .array [.object [("content", .object [("role", .string "model"),
      ("parts", .array [.object [("functionCall", .object [("id", .string callId), ("name", .string name),
        ("args", args)])]])]), ("finishReason", .string "FUNCTION_CALL")]])])

end

/-! ## Anthropic events -/

/-- An event whose data repeat its name as `type`. -/
def typed (name : String) (members : List (String × Json)) : Frame :=
  .event name (.object (("type", .string name) :: members))

variable (index : UInt32)

def contentBlockStart (block : Json) : Frame :=
  typed "content_block_start" [("index", u32 index), ("content_block", block)]

def contentBlockDelta (kind key text : String) : Frame :=
  typed "content_block_delta" [("index", u32 index), ("delta", .object [("type", .string kind), (key, .string text)])]

def contentBlockStop : Frame := typed "content_block_stop" [("index", u32 index)]

def messageDelta (stopReason : String) (outputTokens : UInt32) : Frame :=
  typed "message_delta" [("delta", .object [("stop_reason", .string stopReason), ("stop_sequence", .null)]),
    ("usage", .object [("output_tokens", u32 outputTokens)])]

def messageStop : Frame := typed "message_stop" []

/-! ## Responses events -/

def outputItemAdded (item : Json) : Frame :=
  typed "response.output_item.added" [("output_index", u32 index), ("item", item)]

def outputItemDone (item : Json) : Frame :=
  typed "response.output_item.done" [("output_index", u32 index), ("item", item)]

variable (itemId : String)

def outputTextDelta (index : UInt32) (text : String) : Frame :=
  typed "response.output_text.delta" [("item_id", .string itemId), ("output_index", u32 index),
    ("content_index", zero), ("delta", .string text)]

def outputTextDone (index : UInt32) (text : String) : Frame :=
  typed "response.output_text.done" [("item_id", .string itemId), ("output_index", u32 index),
    ("content_index", zero), ("text", .string text)]

def reasoningSummaryTextDelta (index : UInt32) (text : String) : Frame :=
  typed "response.reasoning_summary_text.delta" [("item_id", .string itemId), ("output_index", u32 index),
    ("summary_index", zero), ("delta", .string text)]

def callInput (name itemId : String) (index : UInt32) (key text : String) : Frame :=
  typed name [("item_id", .string itemId), ("output_index", u32 index), (key, .string text)]

def messageOutputItem (content : List String) : Json :=
  .object [("id", .string itemId), ("type", .string "message"), ("role", .string "assistant"),
    ("content", .array (content.map fun text => .object [("type", .string "output_text"), ("text", .string text)]))]

def reasoningOutputItem (summary : List String) : Json :=
  .object [("id", .string itemId), ("type", .string "reasoning"),
    ("summary", .array (summary.map fun text => .object [("type", .string "summary_text"), ("text", .string text)]))]

def customToolItem (itemId name callId input : String) : Json :=
  .object [("id", .string itemId), ("type", .string "custom_tool_call"), ("name", .string name),
    ("call_id", .string callId), ("input", .string input)]

def functionCallItem (itemId name callId arguments : String) (wireNamespace : Option String) : Json :=
  .object ([("id", .string itemId), ("type", .string "function_call"), ("name", .string name),
    ("call_id", .string callId), ("arguments", .string arguments)] ++
      (wireNamespace.map fun name => ("namespace", Json.string name)).toList)

end CcSwitchServer.CursorEmitter
