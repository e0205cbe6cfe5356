import CcSwitchServer.CursorEmitter.Frames
import CcSwitchServer.Foundations.OrderedMap

/-! # `AgentSseWriter`

The emitter of a response. Additions of `u32` wrap around, unless they saturate.
-/

namespace CcSwitchServer.CursorEmitter
open Foundations

/-- The JSON parser and writer, the token estimate, which is a computation with doubles, and random hex digits. -/
structure Externals where
  fromStr : String → Option Json
  toText : Json → String
  estimateTokens : String → UInt32
  randomIdHex : ℕ → String

/-- Where a tool with a namespace is sent. -/
structure ResponseToolNamespace where
  wireNamespace : String
  name : String
  deriving DecidableEq, Repr

/-- An output item that is still open. -/
structure OutputRef where
  index : UInt32
  itemId : String
  deriving DecidableEq, Repr

/-- One state for four formats; `drawn` counts the random identifiers. -/
structure AgentSseWriter where
  model : String
  format : CursorResponseFormat
  msgId : String
  created : Number
  nextBlockIdx : UInt32 := 0
  textBlock : Option UInt32 := none
  thinkingBlock : Option UInt32 := none
  chatToolCallCount : UInt32 := 0
  nextOutputIdx : UInt32 := 0
  reasoningItem : Option OutputRef := none
  textItem : Option OutputRef := none
  toolItems : OrderedMap String OutputRef := .empty
  customToolNames : List String := []
  responseToolNamespaces : OrderedMap String ResponseToolNamespace := .empty
  started : Bool := false
  inputTokens : UInt32
  outputTokens : UInt32 := 0
  aggregateText : String := ""
  aggregateReasoning : String := ""
  aggregateToolCalls : List CapturedToolCall := []
  errorMode : Bool := false
  drawn : ℕ

def saturatingAddU32 (a b : UInt32) : UInt32 := UInt32.ofNat (min (a.toNat + b.toNat) (2 ^ 32 - 1))

/-- Letters and digits only, in lower case. -/
def normalizeToolIdentity (name : String) : String :=
  String.ofList ((name.toList.filter Char.isAlphanum).map Char.toLower)

section
variable (x : Externals)

def customToolInput (argumentsJson : String) : String :=
  (((x.fromStr argumentsJson).bind fun arguments => arguments.get "input").bind Json.asStr).getD ""

def parsedArguments (tc : CapturedToolCall) : Json := (x.fromStr tc.argumentsJson).getD (.object [])

namespace AgentSseWriter
variable (s : AgentSseWriter)

def isCustomTool (name : String) : Bool := s.customToolNames.contains (normalizeToolIdentity name)

def responsesFunctionCallItem (itemId : String) (tc : CapturedToolCall) (arguments : String) : Json :=
  let wire := s.responseToolNamespaces.get? (normalizeToolIdentity tc.name)
  functionCallItem itemId ((wire.map ResponseToolNamespace.name).getD tc.name) tc.id arguments
    (wire.map ResponseToolNamespace.wireNamespace)

def responsesBase : Json :=
  .object [("id", .string s.msgId), ("object", .string "response"), ("model", .string s.model),
    ("status", .string "in_progress"), ("output", .array []), ("usage", .null)]

/-- All that was aggregated, as output items. -/
def responsesOutputSnapshot : Json :=
  let reasoning := if s.aggregateReasoning = "" then [] else
    [reasoningOutputItem ("rs_" ++ s.msgId) [s.aggregateReasoning]]
  let message := if s.aggregateText = "" then [] else [messageOutputItem ("msg_" ++ s.msgId) [s.aggregateText]]
  let calls := s.aggregateToolCalls.map fun tc =>
    if s.isCustomTool tc.name then customToolItem ("ctc_" ++ tc.id) tc.name tc.id (customToolInput x tc.argumentsJson)
    else s.responsesFunctionCallItem ("fc_" ++ tc.id) tc tc.argumentsJson
  .array (reasoning ++ message ++ calls)

def responsesUsage : Json :=
  .object [("input_tokens", u32 s.inputTokens), ("output_tokens", u32 s.outputTokens),
    ("total_tokens", u32 (s.inputTokens + s.outputTokens))]

/-- A Gemini answer that consists of thinking only. -/
def hasDeferredBusinessOutput : Bool :=
  s.format = .geminiGenerateContent && s.aggregateText = "" && s.aggregateToolCalls.isEmpty &&
    s.aggregateReasoning ≠ ""

/-! ## Start -/

def startEvents : List Frame × AgentSseWriter :=
  if s.started then ([], s)
  else
    (match s.format with
      | .anthropicMessages =>
        [typed "message_start" [("message", .object [("id", .string s.msgId), ("type", .string "message"),
          ("role", .string "assistant"), ("model", .string s.model), ("content", .array []),
          ("stop_reason", .null), ("stop_sequence", .null),
          ("usage", .object [("input_tokens", u32 s.inputTokens), ("output_tokens", zero)])])]]
      | .openAiResponses =>
        [typed "response.created" [("response", s.responsesBase)],
          typed "response.in_progress" [("response", s.responsesBase)]]
      | .openAiChatCompletions => []
      | .geminiGenerateContent => [],
    { s with started := true })

/-! ## Text and thinking -/

/-- The text block, and the frame that starts it when there is none. -/
def openTextBlock : List Frame × UInt32 × AgentSseWriter :=
  match s.textBlock with
  | some index => ([], index, s)
  | none =>
    ([contentBlockStart s.nextBlockIdx (.object [("type", .string "text"), ("text", .string "")])], s.nextBlockIdx,
      { s with nextBlockIdx := s.nextBlockIdx + 1, textBlock := some s.nextBlockIdx })

/-- The text item, announced when there is none. -/
def openTextItem : List Frame × OutputRef × AgentSseWriter :=
  match s.textItem with
  | some oref => ([], oref, s)
  | none =>
    let oref : OutputRef := ⟨s.nextOutputIdx, "msg_" ++ x.randomIdHex s.drawn⟩
    ([outputItemAdded oref.index (messageOutputItem oref.itemId [])], oref,
      { s with nextOutputIdx := s.nextOutputIdx + 1, drawn := s.drawn + 1, textItem := some oref })

variable (text : String)

def sendText : List Frame × AgentSseWriter :=
  match s.format with
  | .anthropicMessages =>
    let (start, index, s) := s.openTextBlock
    (start ++ [contentBlockDelta index "text_delta" "text" text], s)
  | .openAiResponses =>
    let (added, oref, s) := s.openTextItem x
    (added ++ [outputTextDelta oref.itemId oref.index text], s)
  | .openAiChatCompletions =>
    ([chatChunk s.msgId s.model s.created
      (.object [("content", .string text), ("role", .string "assistant")]) none], s)
  | .geminiGenerateContent => ([geminiChunk s.msgId s.model (some text) none none], s)

def pushText : AgentSseWriter :=
  { s with aggregateText := s.aggregateText ++ text
           outputTokens := saturatingAddU32 s.outputTokens (x.estimateTokens text) }

def textDelta : List Frame × AgentSseWriter :=
  if text = "" then ([], s) else (s.pushText x text).sendText x text

def openThinkingBlock : List Frame × UInt32 × AgentSseWriter :=
  match s.thinkingBlock with
  | some index => ([], index, s)
  | none =>
    ([contentBlockStart s.nextBlockIdx (.object [("type", .string "thinking"), ("thinking", .string "")])],
      s.nextBlockIdx, { s with nextBlockIdx := s.nextBlockIdx + 1, thinkingBlock := some s.nextBlockIdx })

/-- The item is announced with the whole summary so far. -/
def openReasoningItem : List Frame × OutputRef × AgentSseWriter :=
  match s.reasoningItem with
  | some oref => ([], oref, s)
  | none =>
    let oref : OutputRef := ⟨s.nextOutputIdx, "rs_" ++ x.randomIdHex s.drawn⟩
    ([outputItemAdded oref.index (reasoningOutputItem oref.itemId [s.aggregateReasoning])], oref,
      { s with nextOutputIdx := s.nextOutputIdx + 1, drawn := s.drawn + 1, reasoningItem := some oref })

/-- A piece of thinking; Gemini streams do not show it. -/
def sendThinking : List Frame × AgentSseWriter :=
  match s.format with
  | .anthropicMessages =>
    let (start, index, s) := s.openThinkingBlock
    (start ++ [contentBlockDelta index "thinking_delta" "thinking" text], s)
  | .openAiResponses =>
    let (added, oref, s) := s.openReasoningItem x
    (added ++ [reasoningSummaryTextDelta oref.itemId oref.index text], s)
  | .openAiChatCompletions =>
    ([chatChunk s.msgId s.model s.created (.object [("reasoning_content", .string text)]) none], s)
  | .geminiGenerateContent => ([], s)

def pushThinking : AgentSseWriter :=
  { s with aggregateReasoning := s.aggregateReasoning ++ text
           outputTokens := saturatingAddU32 s.outputTokens (x.estimateTokens text) }

def thinkingDelta : List Frame × AgentSseWriter :=
  if text = "" then ([], s) else (s.pushThinking x text).sendThinking x text

def closeThinkingBlock : List Frame × AgentSseWriter :=
  ((s.thinkingBlock.map contentBlockStop).toList, { s with thinkingBlock := none })

/-- The item is done with the whole summary of the response. -/
def closeReasoningItem : List Frame × AgentSseWriter :=
  ((s.reasoningItem.map fun r =>
      outputItemDone r.index (reasoningOutputItem r.itemId [s.aggregateReasoning])).toList,
    { s with reasoningItem := none })

def closeThinking : List Frame × AgentSseWriter :=
  match s.format with
  | .anthropicMessages => s.closeThinkingBlock
  | .openAiResponses => s.closeReasoningItem
  | .openAiChatCompletions => ([], s)
  | .geminiGenerateContent => ([], s)

/-! ## Tool calls -/

def textItemDone (oref : OutputRef) : List Frame :=
  [outputTextDone oref.itemId oref.index s.aggregateText,
    outputItemDone oref.index (messageOutputItem oref.itemId [s.aggregateText])]

/-- What a tool call closes. -/
def flushText : List Frame × AgentSseWriter :=
  let blocks := if s.format = .anthropicMessages then (s.textBlock.map contentBlockStop).toList else []
  let items := if s.format = .openAiResponses then (s.textItem.map s.textItemDone).getD [] else []
  (blocks ++ items, { s with textBlock := none, textItem := none })

variable (tc : CapturedToolCall)

def anthropicToolUse : List Frame × AgentSseWriter :=
  let index := s.nextBlockIdx
  ([contentBlockStart index (.object [("type", .string "tool_use"), ("id", .string tc.id),
      ("name", .string tc.name), ("input", .object [])]),
    contentBlockDelta index "input_json_delta" "partial_json" (x.toText (parsedArguments x tc)),
    contentBlockStop index],
    { s with nextBlockIdx := s.nextBlockIdx + 1 })

/-- A call is one item, from its announcement to its end. -/
def responsesToolItem : List Frame × AgentSseWriter :=
  let index := s.nextOutputIdx
  let custom := s.isCustomTool tc.name
  let itemId := (if custom then "ctc" else "fc") ++ "_" ++ x.randomIdHex s.drawn
  let items := s.toolItems.insert tc.id ⟨index, itemId⟩
  let frames :=
    if custom then
      let input := customToolInput x tc.argumentsJson
      [outputItemAdded index (customToolItem itemId tc.name tc.id ""),
        callInput "response.custom_tool_call_input.delta" itemId index "delta" input,
        callInput "response.custom_tool_call_input.done" itemId index "input" input,
        outputItemDone index (customToolItem itemId tc.name tc.id input)]
    else
      [outputItemAdded index (s.responsesFunctionCallItem itemId tc ""),
        callInput "response.function_call_arguments.delta" itemId index "delta" tc.argumentsJson,
        callInput "response.function_call_arguments.done" itemId index "arguments" tc.argumentsJson,
        outputItemDone index (s.responsesFunctionCallItem itemId tc tc.argumentsJson)]
  (frames, { s with nextOutputIdx := s.nextOutputIdx + 1, drawn := s.drawn + 1, toolItems := items.erase tc.id })

def chatToolCall : List Frame × AgentSseWriter :=
  ([chatChunk s.msgId s.model s.created (.object [("role", .string "assistant"),
      ("tool_calls", .array [.object [("index", u32 s.chatToolCallCount), ("id", .string tc.id),
        ("type", .string "function"),
        ("function", .object [("name", .string tc.name), ("arguments", .string tc.argumentsJson)])]])]) none],
    { s with chatToolCallCount := saturatingAddU32 s.chatToolCallCount 1 })

def pushCall : AgentSseWriter := { s with aggregateToolCalls := s.aggregateToolCalls ++ [tc] }

def sendCall : List Frame × AgentSseWriter :=
  match s.format with
  | .anthropicMessages => s.anthropicToolUse x tc
  | .openAiResponses => s.responsesToolItem x tc
  | .openAiChatCompletions => s.chatToolCall tc
  | .geminiGenerateContent =>
    ([geminiFunctionCallChunk s.msgId s.model tc.id tc.name (parsedArguments x tc)], s)

/-- Thinking and text are closed before the call. -/
def toolCall : List Frame × AgentSseWriter :=
  let (closing, s) := (s.pushCall tc).closeThinking
  let (flushed, s) := s.flushText
  let (call, s) := s.sendCall x tc
  (closing ++ flushed ++ call, s)

/-! ## Errors and the end -/

def errorEvents (message : String) : List Frame × AgentSseWriter :=
  (match s.format with
    | .anthropicMessages =>
      [typed "error" [("error", .object [("type", .string "upstream_error"), ("message", .string message)])]]
    | .openAiResponses =>
      [typed "response.failed" [("response", .object [("id", .string s.msgId), ("object", .string "response"),
        ("model", .string s.model), ("status", .string "failed"),
        ("error", .object [("message", .string message)])])]]
    | .openAiChatCompletions => [chatChunk s.msgId s.model s.created (.object []) (some "error")]
    | .geminiGenerateContent =>
      [.data (.object [("error", .object [("message", .string message), ("type", .string "upstream_error"),
        ("code", .string "cc_switch_stream_error")])]), .done],
    { s with errorMode := true })

def event : AgentEvent → List Frame × AgentSseWriter
  | .text t => s.textDelta x t
  | .thinking t => s.thinkingDelta x t
  | .thinkingComplete => s.closeThinking
  | .toolCall tc => s.toolCall x tc
  | .turnEnded => ([], s)
  | .usage input output =>
    let s := if 0 < input then { s with inputTokens := input } else s
    ([], if 0 < output then { s with outputTokens := saturatingAddU32 s.outputTokens output } else s)
  | .error msg => s.errorEvents msg

def anthropicDone : List Frame :=
  let stopReason := if s.aggregateToolCalls.isEmpty then "end_turn" else "tool_use"
  (s.thinkingBlock.map contentBlockStop).toList ++ (s.textBlock.map contentBlockStop).toList ++
    [messageDelta (if s.errorMode then "error" else stopReason) s.outputTokens, messageStop]

/-- A reasoning item that is still open ends without its summary. -/
def responsesDone : List Frame :=
  if s.errorMode then [.done]
  else
    let reasoning := (s.reasoningItem.map fun r =>
      outputItemDone r.index (reasoningOutputItem r.itemId [])).toList
    let text := (s.textItem.map s.textItemDone).getD []
    let tools := s.toolItems.values.flatMap fun oref =>
      [callInput "response.function_call_arguments.done" oref.itemId oref.index "arguments" "",
        outputItemDone oref.index (.object [("id", .string oref.itemId), ("type", .string "function_call"),
          ("arguments", .string "")])]
    reasoning ++ text ++ tools ++
      [typed "response.completed" [("response", .object [("id", .string s.msgId), ("object", .string "response"),
        ("model", .string s.model), ("status", .string "completed"), ("output", s.responsesOutputSnapshot x),
        ("usage", s.responsesUsage)])], .done]

def geminiDone : List Frame :=
  if s.errorMode then []
  else
    (if s.hasDeferredBusinessOutput then [geminiChunk s.msgId s.model (some s.aggregateReasoning) none none]
      else []) ++ [geminiChunk s.msgId s.model none (some "STOP") (some (s.inputTokens, s.outputTokens))]

def chatDone : List Frame :=
  if s.errorMode then [.done]
  else
    [chatChunk s.msgId s.model s.created (.object [])
        (some (if s.aggregateToolCalls.isEmpty then "stop" else "tool_calls")),
      chatChunkUsage s.msgId s.model s.created s.inputTokens s.outputTokens, .done]

/-- The end of a stream; it takes what is still open. -/
def doneEvents : List Frame × AgentSseWriter :=
  let taken := { s with thinkingBlock := none, textBlock := none }
  match s.format with
  | .anthropicMessages => (s.anthropicDone, taken)
  | .openAiResponses =>
    (s.responsesDone x,
      if s.errorMode then taken else { taken with reasoningItem := none, textItem := none, toolItems := .empty })
  | .geminiGenerateContent => (s.geminiDone, taken)
  | .openAiChatCompletions => (s.chatDone, taken)

/-! ## The answer in one piece -/

def anthropicJson : Json :=
  let thinking := if s.aggregateReasoning = "" then [] else
    [Json.object [("type", .string "thinking"), ("thinking", .string s.aggregateReasoning)]]
  let text := if s.aggregateText = "" then [] else
    [Json.object [("type", .string "text"), ("text", .string s.aggregateText)]]
  let calls := s.aggregateToolCalls.map fun tc =>
    Json.object [("type", .string "tool_use"), ("id", .string tc.id), ("name", .string tc.name),
      ("input", parsedArguments x tc)]
  .object [("id", .string s.msgId), ("type", .string "message"), ("role", .string "assistant"),
    ("model", .string s.model), ("content", .array (thinking ++ text ++ calls)),
    ("stop_reason", .string (if s.aggregateToolCalls.isEmpty then "end_turn" else "tool_use")),
    ("stop_sequence", .null),
    ("usage", .object [("input_tokens", u32 s.inputTokens), ("output_tokens", u32 s.outputTokens)])]

def chatJson : Json :=
  let calls := s.aggregateToolCalls.map fun tc =>
    Json.object [("id", .string tc.id), ("type", .string "function"),
      ("function", .object [("name", .string tc.name), ("arguments", .string tc.argumentsJson)])]
  let message := [("role", Json.string "assistant"),
    ("content", if s.aggregateToolCalls.isEmpty then .string s.aggregateText else .null)] ++
      if s.aggregateToolCalls.isEmpty then [] else [("tool_calls", Json.array calls)]
  .object [("id", .string s.msgId), ("object", .string "chat.completion"), ("created", .number s.created),
    ("model", .string s.model), ("choices", .array [.object [("index", zero), ("message", .object message),
      ("finish_reason", .string (if s.aggregateToolCalls.isEmpty then "stop" else "tool_calls"))]]),
    ("usage", .object [("prompt_tokens", u32 s.inputTokens), ("completion_tokens", u32 s.outputTokens),
      ("total_tokens", u32 (s.inputTokens + s.outputTokens))])]

def responsesJson : Json :=
  .object [("id", .string s.msgId), ("object", .string "response"), ("model", .string s.model),
    ("status", .string "completed"), ("output", s.responsesOutputSnapshot x), ("parallel_tool_calls", .bool true),
    ("previous_response_id", .null), ("usage", s.responsesUsage)]

def geminiJsonResponse : Json :=
  let text := if s.aggregateText ≠ "" then [Json.object [("text", .string s.aggregateText)]]
    else if s.aggregateReasoning ≠ "" then [Json.object [("text", .string s.aggregateReasoning)]] else []
  let calls := s.aggregateToolCalls.map fun tc =>
    Json.object [("functionCall", .object [("id", .string tc.id), ("name", .string tc.name),
      ("args", parsedArguments x tc)])]
  let parts := if (text ++ calls).isEmpty then [Json.object [("text", .string "")]] else text ++ calls
  .object [("candidates", .array [.object [("content", .object [("role", .string "model"), ("parts", .array parts)]),
      ("finishReason", .string (if s.aggregateToolCalls.isEmpty then "STOP" else "FUNCTION_CALL"))]]),
    ("usageMetadata", geminiUsage s.inputTokens s.outputTokens), ("modelVersion", .string s.model),
    ("responseId", .string s.msgId)]

def jsonResponse : Json :=
  match s.format with
  | .anthropicMessages => s.anthropicJson x
  | .openAiChatCompletions => s.chatJson
  | .openAiResponses => s.responsesJson x
  | .geminiGenerateContent => s.geminiJsonResponse x

end AgentSseWriter

/-! ## Streams -/

def newWriter (format : CursorResponseFormat) (model : String) (created : Number) (inputTokens : UInt32)
    (customToolNames : List String) (namespaces : OrderedMap String ResponseToolNamespace) : AgentSseWriter :=
  let kind :=
    match format with
    | .anthropicMessages => "msg"
    | .openAiChatCompletions => "chatcmpl"
    | .openAiResponses => "resp"
    | .geminiGenerateContent => "gemini"
  { model := model, format := format, msgId := kind ++ "_" ++ x.randomIdHex 0, created := created
    customToolNames := customToolNames.map normalizeToolIdentity, responseToolNamespaces := namespaces
    inputTokens := inputTokens, drawn := 1 }

def eventsOf (s : AgentSseWriter) : List AgentEvent → List Frame × AgentSseWriter
  | [] => ([], s)
  | ev :: events =>
    let (frames, s) := s.event x ev
    let (rest, s) := eventsOf s events
    (frames ++ rest, s)

/-- `start_events ++ events ++ done_events`, and the writer behind them. -/
def stream (s : AgentSseWriter) (events : List AgentEvent) : List Frame × AgentSseWriter :=
  let (start, s) := s.startEvents
  let (frames, s) := eventsOf x s events
  let (done, s) := s.doneEvents x
  (start ++ frames ++ done, s)

end

end CcSwitchServer.CursorEmitter
