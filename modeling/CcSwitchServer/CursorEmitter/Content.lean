import CcSwitchServer.CursorEmitter.Reading

/-! # What a stream says

The text and the tool calls that are read from the frames of each helper, in each format, and from the answer
in one piece.
-/

namespace CcSwitchServer.CursorEmitter
open Foundations List String Json AgentSseWriter

theorem concat_append (a b : List String) : concat (a ++ b) = concat a ++ concat b := by
  unfold concat
  induction a with
  | nil => rw [nil_append, foldr_nil, empty_append]
  | cons t a ih => rw [List.cons_append, List.foldr_cons, List.foldr_cons, ih, String.append_assoc]

theorem concat_singleton (t : String) : concat [t] = t := append_empty

variable {format : CursorResponseFormat}

/-- A total as `u32` arithmetic gives it. -/
def ReadUsage.Wrapped (u : ReadUsage) : Prop := u.total = (u.input + u.output) % 2 ^ 32

/-- What is read from some frames, whatever was read before. -/
structure Content (format : CursorResponseFormat) (frames : List Frame) (text : String) (calls : List ReadCall) :
    Prop where
  text : concat (frames.map (textOf format)) = text
  calls : ∀ before, callsOf format before frames = before ++ calls
  usage : ∀ frame ∈ frames, ∀ u, usageOf format frame = some u → u.Wrapped

theorem Content.nil : Content format [] "" [] where
  text := rfl
  calls before := (append_nil before).symm
  usage _ h := absurd h not_mem_nil

theorem Content.append {frames frames' : List Frame} {text text' : String} {calls calls' : List ReadCall}
    (h : Content format frames text calls) (h' : Content format frames' text' calls') :
    Content format (frames ++ frames') (text ++ text') (calls ++ calls') where
  text := by rw [List.map_append, concat_append, h.text, h'.text]
  calls before := by
    have hfirst := h.calls before
    unfold callsOf at hfirst ⊢
    rw [List.foldl_append, hfirst]
    have hsecond := h'.calls (before ++ calls)
    unfold callsOf at hsecond
    rw [hsecond, List.append_assoc]
  usage frame hmem := (List.mem_append.mp hmem).elim (h.usage frame) (h'.usage frame)

theorem Content.single {frame : Frame} {calls : List ReadCall}
    (hcalls : ∀ before, readFrame format before frame = before ++ calls) (husage : usageOf format frame = none) :
    Content format [frame] (textOf format frame) calls where
  text := concat_singleton _
  calls := hcalls
  usage frame' hmem u hu := by
    rw [mem_singleton.mp hmem, husage] at hu
    cases hu

/-- Frames without text and calls. -/
abbrev Silent (format : CursorResponseFormat) (frames : List Frame) : Prop := Content format frames "" []

theorem Silent.append {frames frames' : List Frame} (h : Silent format frames) (h' : Silent format frames') :
    Silent format (frames ++ frames') := Content.append h h'

theorem Silent.then {frames frames' : List Frame} {text : String} {calls : List ReadCall}
    (h : Silent format frames) (h' : Content format frames' text calls) :
    Content format (frames ++ frames') text calls := by
  have := Content.append h h'
  rwa [empty_append, nil_append] at this

theorem Content.thenSilent {frames frames' : List Frame} {text : String} {calls : List ReadCall}
    (h : Content format frames text calls) (h' : Silent format frames') :
    Content format (frames ++ frames') text calls := by
  have := Content.append h h'
  rwa [append_empty, append_nil] at this

theorem Silent.single {frame : Frame} (htext : textOf format frame = "")
    (hcalls : ∀ before, readFrame format before frame = before) (husage : usageOf format frame = none) :
    Silent format [frame] := by
  have h := Content.single (fun before => (hcalls before).trans (append_nil before).symm) husage
  rwa [htext] at h

theorem Silent.toList {α : Type} {f : α → Frame} (h : ∀ a, Silent format [f a]) (o : Option α) :
    Silent format (o.map f).toList := by
  cases o with
  | none => exact Content.nil
  | some a => exact h a

theorem Silent.getD {α : Type} {f : α → List Frame} (h : ∀ a, Silent format (f a)) (o : Option α) :
    Silent format ((o.map f).getD []) := by
  cases o with
  | none => exact Content.nil
  | some a => exact h a

/-! ## Frames -/

variable (index : UInt32)

theorem silent_textStart : Silent .anthropicMessages
    [contentBlockStart index (.object [("type", .string "text"), ("text", .string "")])] :=
  .single rfl (fun before => append_nil before) rfl

theorem silent_thinkingStart : Silent .anthropicMessages
    [contentBlockStart index (.object [("type", .string "thinking"), ("thinking", .string "")])] :=
  .single rfl (fun before => append_nil before) rfl

theorem silent_blockStop : Silent .anthropicMessages [contentBlockStop index] := .single rfl (fun _ => rfl) rfl

theorem content_textBlockDelta (text : String) :
    Content .anthropicMessages [contentBlockDelta index "text_delta" "text" text] text [] :=
  .single (fun before => (append_nil before).symm) rfl

theorem silent_thinkingBlockDelta (text : String) :
    Silent .anthropicMessages [contentBlockDelta index "thinking_delta" "thinking" text] :=
  .single rfl (fun _ => rfl) rfl

theorem silent_itemAdded (item : Json) : Silent .openAiResponses [outputItemAdded index item] :=
  .single rfl (fun _ => rfl) rfl

theorem content_itemDone (item : Json) :
    Content .openAiResponses [outputItemDone index item] "" (itemCall item) :=
  .single (fun before => congrArg (before ++ ·) (append_nil _)) rfl

theorem content_outputTextDelta (itemId : String) (index : UInt32) (text : String) :
    Content .openAiResponses [outputTextDelta itemId index text] text [] :=
  .single (fun before => (append_nil before).symm) rfl

theorem silent_outputTextDone (itemId : String) (index : UInt32) (text : String) :
    Silent .openAiResponses [outputTextDone itemId index text] := .single rfl (fun _ => rfl) rfl

theorem silent_reasoningDelta (itemId : String) (index : UInt32) (text : String) :
    Silent .openAiResponses [reasoningSummaryTextDelta itemId index text] := .single rfl (fun _ => rfl) rfl

theorem silent_callInput {name key : String} (hname : name ≠ "response.output_text.delta")
    (hdone : name ≠ "response.output_item.done") (hkey : key ≠ "response") (itemId : String) (index : UInt32)
    (text : String) : Silent .openAiResponses [callInput name itemId index key text] := by
  refine .single ?_ (fun before => ?_) ?_
  · unfold textOf callInput typed
    simp [hname]
  · unfold readFrame callInput typed
    simp [hdone]
  · unfold usageOf callInput typed Json.get
    simp [hkey]

theorem itemCall_custom (itemId name callId input : String) :
    itemCall (customToolItem itemId name callId input) = [⟨callId, name, .string input⟩] := by rfl

theorem itemCall_function (itemId name callId arguments : String) (wireNamespace : Option String) :
    itemCall (functionCallItem itemId name callId arguments wireNamespace) =
      [⟨callId, name, .string arguments⟩] := by rfl

theorem silent_messageDone (itemId : String) (content : List String) :
    Silent .openAiResponses [outputItemDone index (messageOutputItem itemId content)] :=
  content_itemDone index _

theorem silent_reasoningDone (itemId : String) (summary : List String) :
    Silent .openAiResponses [outputItemDone index (reasoningOutputItem itemId summary)] :=
  content_itemDone index _

/-! ## What an event changes -/

variable {x : Externals}

/-- What stays, and what was added to the aggregates. -/
structure Advanced (s s' : AgentSseWriter) (text thinking : String) (calls : List CapturedToolCall) : Prop where
  format : s'.format = s.format
  customToolNames : s'.customToolNames = s.customToolNames
  responseToolNamespaces : s'.responseToolNamespaces = s.responseToolNamespaces
  errorMode : s'.errorMode = s.errorMode
  aggregateText : s'.aggregateText = s.aggregateText ++ text
  aggregateReasoning : s'.aggregateReasoning = s.aggregateReasoning ++ thinking
  aggregateToolCalls : s'.aggregateToolCalls = s.aggregateToolCalls ++ calls
  toolItems : s.toolItems = .empty → s'.toolItems = .empty

variable (s : AgentSseWriter)

theorem Advanced.refl : Advanced s s "" "" [] :=
  ⟨rfl, rfl, rfl, rfl, append_empty.symm, append_empty.symm, (append_nil _).symm, id⟩

theorem Advanced.trans {s s' s'' : AgentSseWriter} {text text' thinking thinking' : String}
    {calls calls' : List CapturedToolCall} (h : Advanced s s' text thinking calls)
    (h' : Advanced s' s'' text' thinking' calls') :
    Advanced s s'' (text ++ text') (thinking ++ thinking') (calls ++ calls') where
  format := h'.format.trans h.format
  customToolNames := h'.customToolNames.trans h.customToolNames
  responseToolNamespaces := h'.responseToolNamespaces.trans h.responseToolNamespaces
  errorMode := h'.errorMode.trans h.errorMode
  aggregateText := by rw [h'.aggregateText, h.aggregateText, String.append_assoc]
  aggregateReasoning := by rw [h'.aggregateReasoning, h.aggregateReasoning, String.append_assoc]
  aggregateToolCalls := by rw [h'.aggregateToolCalls, h.aggregateToolCalls, List.append_assoc]
  toolItems hempty := h'.toolItems (h.toolItems hempty)

theorem Advanced.quiet {s s' t : AgentSseWriter} {text thinking : String} {calls : List CapturedToolCall}
    (h : Advanced s s' text thinking calls) (h' : Advanced s' t "" "" []) : Advanced s t text thinking calls := by
  have := h.trans h'
  rwa [append_empty, append_empty, append_nil] at this

theorem advanced_of_eq {s s' : AgentSseWriter} (h1 : s'.format = s.format)
    (h2 : s'.customToolNames = s.customToolNames) (h3 : s'.responseToolNamespaces = s.responseToolNamespaces)
    (h4 : s'.errorMode = s.errorMode) (h5 : s'.aggregateText = s.aggregateText)
    (h6 : s'.aggregateReasoning = s.aggregateReasoning) (h7 : s'.aggregateToolCalls = s.aggregateToolCalls)
    (h8 : s'.toolItems = s.toolItems) : Advanced s s' "" "" [] :=
  ⟨h1, h2, h3, h4, h5.trans append_empty.symm, h6.trans append_empty.symm,
    h7.trans (append_nil _).symm, fun h => h8.trans h⟩

/-! ## Text and thinking -/

theorem openTextBlock_content : Silent .anthropicMessages s.openTextBlock.1 ∧
    Advanced s s.openTextBlock.2.2 "" "" [] := by
  unfold openTextBlock
  split
  · exact ⟨Content.nil, Advanced.refl s⟩
  · exact ⟨silent_textStart _, advanced_of_eq rfl rfl rfl rfl rfl rfl rfl rfl⟩

theorem openTextItem_content : Silent .openAiResponses (s.openTextItem x).1 ∧
    Advanced s (s.openTextItem x).2.2 "" "" [] := by
  unfold openTextItem
  split
  · exact ⟨Content.nil, Advanced.refl s⟩
  · exact ⟨silent_itemAdded _ _, advanced_of_eq rfl rfl rfl rfl rfl rfl rfl rfl⟩

theorem openThinkingBlock_content : Silent .anthropicMessages s.openThinkingBlock.1 ∧
    Advanced s s.openThinkingBlock.2.2 "" "" [] := by
  unfold openThinkingBlock
  split
  · exact ⟨Content.nil, Advanced.refl s⟩
  · exact ⟨silent_thinkingStart _, advanced_of_eq rfl rfl rfl rfl rfl rfl rfl rfl⟩

theorem openReasoningItem_content : Silent .openAiResponses (s.openReasoningItem x).1 ∧
    Advanced s (s.openReasoningItem x).2.2 "" "" [] := by
  unfold openReasoningItem
  split
  · exact ⟨Content.nil, Advanced.refl s⟩
  · exact ⟨silent_itemAdded _ _, advanced_of_eq rfl rfl rfl rfl rfl rfl rfl rfl⟩

theorem content_chatText (id model : String) (created : Number) (text : String) :
    Content .openAiChatCompletions [chatChunk id model created
      (.object [("content", .string text), ("role", .string "assistant")]) none] text [] :=
  .single (fun _ => rfl) rfl

theorem content_geminiText (id model text : String) :
    Content .geminiGenerateContent [geminiChunk id model (some text) none none] text [] where
  text := (concat_singleton _).trans (concat_singleton text)
  calls _ := rfl
  usage frame hmem u hu := by
    rw [mem_singleton.mp hmem] at hu
    cases hu

theorem sendText_content (text : String) :
    Content s.format (s.sendText x text).1 text [] ∧ Advanced s (s.sendText x text).2 "" "" [] := by
  unfold sendText
  cases hformat : s.format with
  | anthropicMessages =>
    obtain ⟨hsilent, hkept⟩ := openTextBlock_content s
    exact ⟨hsilent.then (content_textBlockDelta _ text), hkept⟩
  | openAiResponses =>
    obtain ⟨hsilent, hkept⟩ := openTextItem_content (x := x) s
    exact ⟨hsilent.then (content_outputTextDelta _ _ text), hkept⟩
  | openAiChatCompletions => exact ⟨content_chatText _ _ _ text, Advanced.refl s⟩
  | geminiGenerateContent => exact ⟨content_geminiText _ _ text, Advanced.refl s⟩

theorem textDelta_content (text : String) :
    Content s.format (s.textDelta x text).1 text [] ∧ Advanced s (s.textDelta x text).2 text "" [] := by
  unfold textDelta
  split
  · rename_i hempty
    rw [hempty]
    exact ⟨Content.nil, Advanced.refl s⟩
  · have hpushed : Advanced s (s.pushText x text) text "" [] :=
      ⟨rfl, rfl, rfl, rfl, rfl, append_empty.symm, (append_nil _).symm, id⟩
    obtain ⟨hsent, hkept⟩ := sendText_content (x := x) (s.pushText x text) text
    exact ⟨hsent, hpushed.quiet hkept⟩

theorem sendThinking_content (text : String) :
    Silent s.format (s.sendThinking x text).1 ∧ Advanced s (s.sendThinking x text).2 "" "" [] := by
  unfold sendThinking
  cases hformat : s.format with
  | anthropicMessages =>
    obtain ⟨hsilent, hkept⟩ := openThinkingBlock_content s
    exact ⟨hsilent.then (silent_thinkingBlockDelta _ text), hkept⟩
  | openAiResponses =>
    obtain ⟨hsilent, hkept⟩ := openReasoningItem_content (x := x) s
    exact ⟨hsilent.then (silent_reasoningDelta _ _ text), hkept⟩
  | openAiChatCompletions => exact ⟨.single rfl (fun before => append_nil before) rfl, Advanced.refl s⟩
  | geminiGenerateContent => exact ⟨Content.nil, Advanced.refl s⟩

theorem thinkingDelta_content (text : String) :
    Silent s.format (s.thinkingDelta x text).1 ∧ Advanced s (s.thinkingDelta x text).2 "" text [] := by
  unfold thinkingDelta
  split
  · rename_i hempty
    rw [hempty]
    exact ⟨Content.nil, Advanced.refl s⟩
  · have hpushed : Advanced s (s.pushThinking x text) "" text [] :=
      ⟨rfl, rfl, rfl, rfl, append_empty.symm, rfl, (append_nil _).symm, id⟩
    obtain ⟨hsent, hkept⟩ := sendThinking_content (x := x) (s.pushThinking x text) text
    exact ⟨hsent, hpushed.quiet hkept⟩

theorem closeThinking_content :
    Silent s.format s.closeThinking.1 ∧ Advanced s s.closeThinking.2 "" "" [] := by
  unfold closeThinking
  cases hformat : s.format with
  | anthropicMessages =>
    exact ⟨Silent.toList silent_blockStop _, advanced_of_eq rfl rfl rfl rfl rfl rfl rfl rfl⟩
  | openAiResponses =>
    exact ⟨Silent.toList (f := fun r : OutputRef => outputItemDone r.index _)
      (fun r => silent_reasoningDone r.index r.itemId _) _, advanced_of_eq rfl rfl rfl rfl rfl rfl rfl rfl⟩
  | openAiChatCompletions => exact ⟨Content.nil, Advanced.refl s⟩
  | geminiGenerateContent => exact ⟨Content.nil, Advanced.refl s⟩

/-! ## Tool calls -/

theorem silent_textItemDone (oref : OutputRef) : Silent .openAiResponses (s.textItemDone oref) :=
  Silent.append (silent_outputTextDone _ _ _) (silent_messageDone _ _ _)

theorem flushText_content :
    Silent s.format s.flushText.1 ∧ Advanced s s.flushText.2 "" "" [] := by
  refine ⟨?_, advanced_of_eq rfl rfl rfl rfl rfl rfl rfl rfl⟩
  unfold flushText
  dsimp only
  cases hformat : s.format with
  | anthropicMessages =>
    rw [if_pos rfl, if_neg (by decide), append_nil]
    exact Silent.toList silent_blockStop _
  | openAiResponses =>
    rw [if_neg (by decide), if_pos rfl, nil_append]
    exact Silent.getD (silent_textItemDone s) _
  | openAiChatCompletions =>
    rw [if_neg (by decide), if_neg (by decide)]
    exact Content.nil
  | geminiGenerateContent =>
    rw [if_neg (by decide), if_neg (by decide)]
    exact Content.nil

variable (x) in
def streamCall (s : AgentSseWriter) (tc : CapturedToolCall) : ReadCall :=
  match s.format with
  | .anthropicMessages => ⟨tc.id, tc.name, .string (x.toText (parsedArguments x tc))⟩
  | .openAiResponses =>
    if s.isCustomTool tc.name then ⟨tc.id, tc.name, .string (customToolInput x tc.argumentsJson)⟩
    else ⟨tc.id, ((s.responseToolNamespaces.get? (normalizeToolIdentity tc.name)).map
      ResponseToolNamespace.name).getD tc.name, .string tc.argumentsJson⟩
  | .openAiChatCompletions => ⟨tc.id, tc.name, .string tc.argumentsJson⟩
  | .geminiGenerateContent => ⟨tc.id, tc.name, parsedArguments x tc⟩

theorem Advanced.streamCall_eq {s s' : AgentSseWriter} {text thinking : String} {calls : List CapturedToolCall}
    (h : Advanced s s' text thinking calls) : streamCall x s' = streamCall x s := by
  funext tc
  unfold streamCall isCustomTool
  rw [h.format, h.customToolNames, h.responseToolNamespaces]

theorem anthropicToolUse_content (tc : CapturedToolCall) :
    Content .anthropicMessages (s.anthropicToolUse x tc).1 ""
      [⟨tc.id, tc.name, .string (x.toText (parsedArguments x tc))⟩] where
  text := rfl
  calls before := by
    unfold AgentSseWriter.anthropicToolUse callsOf
    rw [List.foldl_cons, List.foldl_cons, List.foldl_cons, List.foldl_nil]
    have hstart : readFrame .anthropicMessages before (contentBlockStart s.nextBlockIdx
        (.object [("type", .string "tool_use"), ("id", .string tc.id), ("name", .string tc.name),
          ("input", .object [])])) = before ++ [⟨tc.id, tc.name, .string ""⟩] := by rfl
    have hdelta : ∀ text calls, readFrame .anthropicMessages calls
        (contentBlockDelta s.nextBlockIdx "input_json_delta" "partial_json" text) =
          match calls.getLast? with
          | some call => calls.dropLast ++ [{ call with arguments := .string (call.arguments.asStr.getD "" ++ text) }]
          | none => calls := by
      intro text calls
      cases hlast : calls.getLast? <;> simp [readFrame, blockCalls, contentBlockDelta, typed, Json.get, strAt,
        Json.asStr, hlast]
    rw [hstart, hdelta, List.getLast?_concat, List.dropLast_concat]
    dsimp only [Json.asStr, Option.getD_some]
    rw [String.empty_append]
    rfl
  usage frame hmem u hu := by
    unfold AgentSseWriter.anthropicToolUse at hmem
    simp only [List.mem_cons, List.not_mem_nil, or_false] at hmem
    rcases hmem with rfl | rfl | rfl <;> cases hu

theorem responsesToolItem_content (tc : CapturedToolCall) :
    Content .openAiResponses (s.responsesToolItem x tc).1 ""
      [if s.isCustomTool tc.name then ⟨tc.id, tc.name, .string (customToolInput x tc.argumentsJson)⟩
        else ⟨tc.id, ((s.responseToolNamespaces.get? (normalizeToolIdentity tc.name)).map
          ResponseToolNamespace.name).getD tc.name, .string tc.argumentsJson⟩] := by
  unfold responsesToolItem
  dsimp only
  cases s.isCustomTool tc.name with
  | true =>
    rw [if_pos rfl, if_pos rfl, if_pos rfl]
    exact (silent_itemAdded _ _).then ((silent_callInput (by decide) (by decide) (by decide) _ _ _).then
      ((silent_callInput (by decide) (by decide) (by decide) _ _ _).then (content_itemDone _ _)))
  | false =>
    rw [if_neg (by decide), if_neg (by decide), if_neg (by decide)]
    exact (silent_itemAdded _ _).then ((silent_callInput (by decide) (by decide) (by decide) _ _ _).then
      ((silent_callInput (by decide) (by decide) (by decide) _ _ _).then (content_itemDone _ _)))

theorem erase_insert_empty {α : Type} (k : String) (v : α) :
    ((OrderedMap.empty : OrderedMap String α).insert k v).erase k = .empty := by
  apply OrderedMap.ext_entries
  simp [OrderedMap.insert, OrderedMap.erase, OrderedMap.insertEntry, OrderedMap.empty]

theorem sendCall_content (tc : CapturedToolCall) :
    Content s.format (s.sendCall x tc).1 "" [streamCall x s tc] ∧ Advanced s (s.sendCall x tc).2 "" "" [] := by
  unfold sendCall streamCall
  cases hformat : s.format with
  | anthropicMessages =>
    exact ⟨anthropicToolUse_content _ tc, advanced_of_eq rfl rfl rfl rfl rfl rfl rfl rfl⟩
  | openAiResponses =>
    refine ⟨responsesToolItem_content _ tc,
      ⟨rfl, rfl, rfl, rfl, append_empty.symm, append_empty.symm, (append_nil _).symm, fun h => ?_⟩⟩
    unfold responsesToolItem
    dsimp only
    rw [h, erase_insert_empty]
  | openAiChatCompletions =>
    exact ⟨.single (fun _ => rfl) rfl, advanced_of_eq rfl rfl rfl rfl rfl rfl rfl rfl⟩
  | geminiGenerateContent => exact ⟨.single (fun _ => rfl) rfl, Advanced.refl s⟩

theorem toolCall_content (tc : CapturedToolCall) :
    Content s.format (s.toolCall x tc).1 "" [streamCall x s tc] ∧ Advanced s (s.toolCall x tc).2 "" "" [tc] := by
  have hpushed : Advanced s (s.pushCall tc) "" "" [tc] :=
    ⟨rfl, rfl, rfl, rfl, append_empty.symm, append_empty.symm, rfl, id⟩
  unfold toolCall
  obtain ⟨hclosing, hclosed⟩ := closeThinking_content (s.pushCall tc)
  generalize (s.pushCall tc).closeThinking = closing at hclosing hclosed ⊢
  obtain ⟨hflushing, hflushed⟩ := flushText_content closing.2
  dsimp only
  generalize closing.2.flushText = flushed at hflushing hflushed ⊢
  obtain ⟨hcall, hsent⟩ := sendCall_content (x := x) flushed.2 tc
  have hbefore := (hpushed.quiet hclosed).quiet hflushed
  rw [hbefore.streamCall_eq, hbefore.format] at hcall
  have hsilent : Silent s.format (closing.1 ++ flushed.1) := by
    refine Silent.append hclosing ?_
    rwa [hclosed.format] at hflushing
  exact ⟨hsilent.then hcall, hbefore.quiet hsent⟩

/-! ## Runs -/

namespace AgentEvent

/-- The text of an event. -/
def said : AgentEvent → String
  | text t => t
  | _ => ""

def thought : AgentEvent → String
  | thinking t => t
  | _ => ""

def calls : AgentEvent → List CapturedToolCall
  | toolCall tc => [tc]
  | _ => []

end AgentEvent

/-- The text of all events. -/
def said (events : List AgentEvent) : String := concat (events.map AgentEvent.said)

def thought (events : List AgentEvent) : String := concat (events.map AgentEvent.thought)

def calledTools (events : List AgentEvent) : List CapturedToolCall := events.flatMap AgentEvent.calls

variable (s : AgentSseWriter)

theorem event_content {ev : AgentEvent} (h : ∀ msg, ev ≠ .error msg) :
    Content s.format (s.event x ev).1 ev.said (ev.calls.map (streamCall x s)) ∧
      Advanced s (s.event x ev).2 ev.said ev.thought ev.calls := by
  cases ev with
  | text t => exact textDelta_content s t
  | thinking t => exact thinkingDelta_content s t
  | thinkingComplete => exact closeThinking_content s
  | toolCall tc => exact toolCall_content s tc
  | turnEnded => exact ⟨Content.nil, Advanced.refl s⟩
  | usage input output =>
    refine ⟨Content.nil, ?_⟩
    unfold event
    dsimp only
    split <;> split <;> exact advanced_of_eq rfl rfl rfl rfl rfl rfl rfl rfl
  | error msg => exact absurd rfl (h msg)

theorem eventsOf_content {events : List AgentEvent} (h : ∀ ev ∈ events, ∀ msg, ev ≠ .error msg) :
    Content s.format (eventsOf x s events).1 (said events) ((calledTools events).map (streamCall x s)) ∧
      Advanced s (eventsOf x s events).2 (said events) (thought events) (calledTools events) := by
  induction events generalizing s with
  | nil => exact ⟨Content.nil, Advanced.refl s⟩
  | cons ev events ih =>
    obtain ⟨hcontent, hadvanced⟩ := event_content (x := x) s (h ev mem_cons_self)
    obtain ⟨hrest, hlater⟩ := ih (s.event x ev).2 fun e he => h e (mem_cons_of_mem _ he)
    rw [hadvanced.format, hadvanced.streamCall_eq] at hrest
    refine ⟨?_, hadvanced.trans hlater⟩
    have hall := hcontent.append hrest
    rw [← map_append] at hall
    exact hall

theorem startEvents_content :
    Silent s.format s.startEvents.1 ∧ Advanced s s.startEvents.2 "" "" [] := by
  unfold startEvents
  split
  · exact ⟨Content.nil, Advanced.refl s⟩
  · refine ⟨?_, advanced_of_eq rfl rfl rfl rfl rfl rfl rfl rfl⟩
    cases hformat : s.format with
    | anthropicMessages => exact .single rfl (fun _ => rfl) rfl
    | openAiResponses => exact Silent.append (.single rfl (fun _ => rfl) rfl) (.single rfl (fun _ => rfl) rfl)
    | openAiChatCompletions => exact Content.nil
    | geminiGenerateContent => exact Content.nil

/-! ## The end of a stream -/

theorem wrapped_of_some {input output : UInt32} {u : ReadUsage}
    (h : some (⟨input.toNat, output.toNat, (input + output).toNat⟩ : ReadUsage) = some u) : u.Wrapped := by
  rw [← Option.some.inj h]
  exact UInt32.toNat_add input output

/-- The thinking that is sent as text at the end. -/
def deferredText : String := if s.hasDeferredBusinessOutput then s.aggregateReasoning else ""

theorem geminiDone_content (h : s.errorMode = false) :
    Content .geminiGenerateContent s.geminiDone (deferredText s) [] := by
  have hstop : Silent .geminiGenerateContent
      [geminiChunk s.msgId s.model none (some "STOP") (some (s.inputTokens, s.outputTokens))] := by
    refine ⟨rfl, fun _ => rfl, fun frame hmem u hu => ?_⟩
    rw [mem_singleton.mp hmem] at hu
    exact wrapped_of_some hu
  unfold geminiDone deferredText
  rw [h, if_neg (by decide)]
  cases s.hasDeferredBusinessOutput with
  | true => exact (content_geminiText s.msgId s.model s.aggregateReasoning).thenSilent hstop
  | false => exact hstop

theorem chatDone_content (h : s.errorMode = false) : Silent .openAiChatCompletions s.chatDone := by
  have husage : Silent .openAiChatCompletions
      [chatChunkUsage s.msgId s.model s.created s.inputTokens s.outputTokens] := by
    refine ⟨rfl, fun _ => rfl, fun frame hmem u hu => ?_⟩
    rw [mem_singleton.mp hmem] at hu
    exact wrapped_of_some hu
  have hfinish : ∀ reason, Silent .openAiChatCompletions
      [chatChunk s.msgId s.model s.created (.object []) (some reason)] :=
    fun _ => .single rfl (fun before => append_nil before) rfl
  unfold chatDone
  rw [h, if_neg (by decide)]
  exact (hfinish _).append (husage.append (.single rfl (fun _ => rfl) rfl))

theorem anthropicDone_content : Silent .anthropicMessages s.anthropicDone := by
  unfold anthropicDone
  exact ((Silent.toList silent_blockStop _).append (Silent.toList silent_blockStop _)).append
    ((Silent.single rfl (fun _ => rfl) rfl).append (Silent.single rfl (fun _ => rfl) rfl))

theorem responsesDone_content (h : s.errorMode = false) (htools : s.toolItems = .empty) :
    Silent .openAiResponses (s.responsesDone x) := by
  have hcompleted : Silent .openAiResponses
      [typed "response.completed" [("response", .object [("id", .string s.msgId), ("object", .string "response"),
        ("model", .string s.model), ("status", .string "completed"), ("output", s.responsesOutputSnapshot x),
        ("usage", s.responsesUsage)])]] := by
    refine ⟨rfl, fun before => (append_nil before).symm, fun frame hmem u hu => ?_⟩
    rw [mem_singleton.mp hmem] at hu
    exact wrapped_of_some hu
  unfold responsesDone
  rw [h, if_neg (by decide), htools]
  exact (((Silent.toList (f := fun r : OutputRef => outputItemDone r.index _)
    (fun r => silent_reasoningDone r.index r.itemId _) _).append (Silent.getD (silent_textItemDone s) _)).append
      Content.nil).append (hcompleted.append (.single rfl (fun _ => rfl) rfl))

theorem doneEvents_content (h : s.errorMode = false) (htools : s.toolItems = .empty) :
    Content s.format (s.doneEvents x).1 (deferredText s) [] := by
  have hnone : s.format ≠ .geminiGenerateContent → deferredText s = "" := by
    intro hformat
    unfold deferredText hasDeferredBusinessOutput
    rw [decide_eq_false hformat]
    rfl
  unfold doneEvents
  cases hformat : s.format with
  | anthropicMessages =>
    rw [hnone (by rw [hformat]; decide)]
    exact anthropicDone_content s
  | openAiResponses =>
    rw [hnone (by rw [hformat]; decide)]
    exact responsesDone_content s h htools
  | openAiChatCompletions =>
    rw [hnone (by rw [hformat]; decide)]
    exact chatDone_content s h
  | geminiGenerateContent => exact geminiDone_content s h

/-! ## The answer in one piece -/

variable (x) in
def answerCall (s : AgentSseWriter) (tc : CapturedToolCall) : ReadCall :=
  match s.format with
  | .anthropicMessages => ⟨tc.id, tc.name, parsedArguments x tc⟩
  | _ => streamCall x s tc

/-- The text of the answer in one piece. -/
def answerText : String :=
  match s.format with
  | .anthropicMessages => s.aggregateText
  | .openAiResponses => s.aggregateText
  | .openAiChatCompletions => if s.aggregateToolCalls.isEmpty then s.aggregateText else ""
  | .geminiGenerateContent => if s.aggregateText = "" then s.aggregateReasoning else s.aggregateText

theorem partsText_append (a b : List Json) : partsText (a ++ b) = partsText a ++ partsText b := by
  unfold partsText
  rw [filterMap_append, concat_append]

theorem partsText_map_none {α : Type} {f : α → Json} (h : ∀ a, strAt (f a) "text" = none) (xs : List α) :
    partsText (xs.map f) = "" := by
  have hnone : (xs.map f).filterMap (fun part => strAt part "text") = [] := by
    rw [filterMap_map]
    exact filterMap_eq_nil_iff.mpr fun a _ => h a
  unfold partsText
  rw [hnone]
  rfl

theorem filterMap_map_some {α β γ : Type} {f : α → β} {g : β → Option γ} {k : α → γ} (h : ∀ a, g (f a) = some (k a))
    (xs : List α) : (xs.map f).filterMap g = xs.map k := by
  induction xs with
  | nil => rfl
  | cons a xs ih => rw [map_cons, filterMap_cons_some (h a), ih, map_cons]

theorem flatMap_map_singleton {α β γ : Type} {f : α → β} {g : β → List γ} {k : α → γ} (h : ∀ a, g (f a) = [k a])
    (xs : List α) : (xs.map f).flatMap g = xs.map k := by
  induction xs with
  | nil => rfl
  | cons a xs ih => rw [map_cons, flatMap_cons, h a, ih, map_cons, singleton_append]

theorem ofType_map_all {α : Type} {kind : String} {f : α → Json} (h : ∀ a, strAt (f a) "type" = some kind)
    (xs : List α) : ofType kind (xs.map f) = xs.map f := by
  unfold ofType
  rw [filter_eq_self]
  intro v hv
  obtain ⟨a, -, rfl⟩ := mem_map.mp hv
  exact decide_eq_true (h a)

theorem partsText_unless_empty {f : String → Json} (h : ∀ t, strAt (f t) "text" = some t) (t : String) :
    partsText (if t = "" then [] else [f t]) = t := by
  split
  · rename_i hempty
    rw [hempty]
    rfl
  · have hone : [f t].filterMap (fun part => strAt part "text") = [t] := by
      rw [filterMap_cons_some (f := fun part => strAt part "text") (h t), filterMap_nil]
    unfold partsText
    rw [hone]
    exact concat_singleton t

theorem anthropicJson_content : jsonText .anthropicMessages (s.anthropicJson x) = s.aggregateText ∧
      jsonCalls .anthropicMessages (s.anthropicJson x) =
        s.aggregateToolCalls.map fun tc => ⟨tc.id, tc.name, parsedArguments x tc⟩ := by
  have hthinking : partsText (if s.aggregateReasoning = "" then [] else
      [object [("type", .string "thinking"), ("thinking", .string s.aggregateReasoning)]]) = "" := by
    split <;> rfl
  constructor
  · change partsText (_ ++ _ ++ _) = _
    rw [partsText_append, partsText_append, hthinking, partsText_map_none (fun _ => rfl), empty_append, append_empty]
    exact partsText_unless_empty (f := fun t => .object [("type", .string "text"), ("text", .string t)])
      (fun _ => rfl) s.aggregateText
  · change (ofType "tool_use" (_ ++ _ ++ _)).map _ = _
    have hnone : ∀ (t kind : String) (v : Json), strAt v "type" = some kind → kind ≠ "tool_use" →
        ofType "tool_use" (if t = "" then [] else [v]) = [] := by
      intro t kind v hv hkind
      unfold ofType
      split
      · rfl
      · refine filter_cons_of_neg ?_
        rw [decide_eq_true_iff, hv]
        exact fun heq => hkind (Option.some.inj heq)
    have hfirst := hnone s.aggregateReasoning "thinking"
      (.object [("type", .string "thinking"), ("thinking", .string s.aggregateReasoning)]) rfl (by decide)
    have hsecond := hnone s.aggregateText "text"
      (.object [("type", .string "text"), ("text", .string s.aggregateText)]) rfl (by decide)
    have hlast := @ofType_map_all _ "tool_use" (fun tc : CapturedToolCall =>
      object [("type", .string "tool_use"), ("id", .string tc.id), ("name", .string tc.name),
        ("input", parsedArguments x tc)]) (fun _ => rfl) s.aggregateToolCalls
    unfold ofType at hfirst hsecond hlast ⊢
    rw [filter_append, filter_append, hfirst, hsecond, hlast, nil_append, nil_append, List.map_map]
    rfl

theorem chatJson_content :
    jsonText .openAiChatCompletions s.chatJson = (if s.aggregateToolCalls.isEmpty then s.aggregateText else "") ∧
      jsonCalls .openAiChatCompletions s.chatJson =
        s.aggregateToolCalls.map fun tc => ⟨tc.id, tc.name, .string tc.argumentsJson⟩ := by
  unfold chatJson
  cases hcalls : s.aggregateToolCalls with
  | nil => exact ⟨rfl, rfl⟩
  | cons tc calls =>
    refine ⟨rfl, ?_⟩
    have hread : ∀ (tcs : List CapturedToolCall) (role content : Json),
        chatCalls (.object ([("role", role), ("content", content)] ++ [("tool_calls", .array (tcs.map fun tc =>
          .object [("id", .string tc.id), ("type", .string "function"),
            ("function", .object [("name", .string tc.name), ("arguments", .string tc.argumentsJson)])]))])) =
          tcs.map fun tc => ⟨tc.id, tc.name, .string tc.argumentsJson⟩ := by
      intro tcs role content
      unfold chatCalls
      change (map _ (map _ tcs)) = _
      rw [List.map_map]
      rfl
    exact (append_nil _).trans (hread (tc :: calls) (.string "assistant") .null)

theorem geminiJson_content :
    jsonText .geminiGenerateContent (s.geminiJsonResponse x) =
        (if s.aggregateText = "" then s.aggregateReasoning else s.aggregateText) ∧
      jsonCalls .geminiGenerateContent (s.geminiJsonResponse x) =
        s.aggregateToolCalls.map fun tc => ⟨tc.id, tc.name, parsedArguments x tc⟩ := by
  let text := if s.aggregateText ≠ "" then [object [("text", .string s.aggregateText)]]
    else if s.aggregateReasoning ≠ "" then [object [("text", .string s.aggregateReasoning)]] else []
  let calls := s.aggregateToolCalls.map fun tc =>
    object [("functionCall", .object [("id", .string tc.id), ("name", .string tc.name),
      ("args", parsedArguments x tc)])]
  have hparts : geminiParts (s.geminiJsonResponse x) =
      if (text ++ calls).isEmpty then [object [("text", .string "")]] else text ++ calls := by rfl
  have htext : partsText text = if s.aggregateText = "" then s.aggregateReasoning else s.aggregateText := by
    have hone : ∀ t, partsText [object [("text", .string t)]] = t := concat_singleton
    change partsText (if s.aggregateText ≠ "" then _ else _) = _
    by_cases hempty : s.aggregateText = ""
    · rw [if_neg (not_not_intro hempty), if_pos hempty]
      by_cases hnone : s.aggregateReasoning = ""
      · rw [if_neg (not_not_intro hnone), hnone]
        rfl
      · rw [if_pos hnone, hone]
    · rw [if_pos hempty, if_neg hempty, hone]
  have hnocalls : text.filterMap partCall = [] := by
    change (if s.aggregateText ≠ "" then _ else if s.aggregateReasoning ≠ "" then _ else []).filterMap partCall = []
    split
    · rfl
    · split <;> rfl
  change partsText (geminiParts _) = _ ∧ (geminiParts _).filterMap partCall = _
  rw [hparts]
  split
  · rename_i hempty
    obtain ⟨hleft, hright⟩ := append_eq_nil_iff.mp (isEmpty_iff.mp hempty)
    rw [← htext, hleft, map_eq_nil_iff.mp hright]
    exact ⟨rfl, rfl⟩
  · rw [partsText_append, htext, partsText_map_none (fun _ => rfl), append_empty, filterMap_append,
      hnocalls, nil_append]
    refine ⟨rfl, ?_⟩
    exact filterMap_map_some (g := partCall) (k := fun tc : CapturedToolCall =>
      (⟨tc.id, tc.name, parsedArguments x tc⟩ : ReadCall)) (fun _ => rfl) _

theorem snapshot_content (hformat : s.format = .openAiResponses) :
    jsonText .openAiResponses (s.responsesJson x) = s.aggregateText ∧
      jsonCalls .openAiResponses (s.responsesJson x) = s.aggregateToolCalls.map (streamCall x s) := by
  let reasoning := if s.aggregateReasoning = "" then [] else
    [reasoningOutputItem ("rs_" ++ s.msgId) [s.aggregateReasoning]]
  let message := if s.aggregateText = "" then [] else [messageOutputItem ("msg_" ++ s.msgId) [s.aggregateText]]
  let item := fun tc : CapturedToolCall =>
    if s.isCustomTool tc.name then customToolItem ("ctc_" ++ tc.id) tc.name tc.id (customToolInput x tc.argumentsJson)
    else s.responsesFunctionCallItem ("fc_" ++ tc.id) tc tc.argumentsJson
  have hitems : itemsAt (s.responsesJson x) "output" = reasoning ++ message ++ s.aggregateToolCalls.map item := by rfl
  have hcall : ∀ tc, itemCall (item tc) = [streamCall x s tc] ∧ ¬strAt (item tc) "type" = some "message" := by
    intro tc
    change itemCall (if s.isCustomTool tc.name then _ else _) = _ ∧ _
    unfold streamCall
    rw [hformat]
    dsimp only [item]
    split
    · refine ⟨itemCall_custom _ _ _ _, fun htype => ?_⟩
      exact absurd (show some "custom_tool_call" = some "message" from htype) (by decide)
    · refine ⟨itemCall_function _ _ _ _ _, fun htype => ?_⟩
      exact absurd (show some "function_call" = some "message" from htype) (by decide)
  constructor
  · change concat (((itemsAt (s.responsesJson x) "output").filter _).map itemText) = _
    rw [hitems, filter_append, filter_append]
    have hreasoning : reasoning.filter (fun item => strAt item "type" = some "message") = [] := by
      change (if s.aggregateReasoning = "" then [] else _).filter _ = _
      split <;> rfl
    have hcalls : (s.aggregateToolCalls.map item).filter (fun item => strAt item "type" = some "message") = [] := by
      rw [filter_eq_nil_iff]
      intro v hv
      obtain ⟨tc, -, rfl⟩ := mem_map.mp hv
      rw [decide_eq_true_iff]
      exact (hcall tc).2
    rw [hreasoning, hcalls, nil_append, append_nil]
    change concat (((if s.aggregateText = "" then [] else _).filter _).map itemText) = _
    split
    · rename_i hempty
      rw [hempty]
      rfl
    · exact (concat_singleton _).trans (itemText_message _ _)
  · change (itemsAt (s.responsesJson x) "output").flatMap itemCall = _
    rw [hitems, flatMap_append, flatMap_append, flatMap_map_singleton fun tc => (hcall tc).1]
    have hreasoning : reasoning.flatMap itemCall = [] := by
      change (if s.aggregateReasoning = "" then [] else _).flatMap itemCall = _
      split <;> rfl
    have hmessage : message.flatMap itemCall = [] := by
      change (if s.aggregateText = "" then [] else _).flatMap itemCall = _
      split <;> rfl
    rw [hreasoning, hmessage]
    rfl

theorem jsonResponse_content : jsonText s.format (s.jsonResponse x) = answerText s ∧
      jsonCalls s.format (s.jsonResponse x) = s.aggregateToolCalls.map (answerCall x s) ∧
      ∀ u, jsonUsage s.format (s.jsonResponse x) = some u → u.Wrapped := by
  unfold jsonResponse answerText answerCall streamCall
  cases hformat : s.format with
  | anthropicMessages =>
    obtain ⟨htext, hcalls⟩ := anthropicJson_content (x := x) s
    exact ⟨htext, hcalls, fun u hu => by cases hu⟩
  | openAiResponses =>
    obtain ⟨htext, hcalls⟩ := snapshot_content (x := x) s hformat
    unfold streamCall at hcalls
    rw [hformat] at hcalls
    exact ⟨htext, hcalls, fun u hu => wrapped_of_some hu⟩
  | openAiChatCompletions =>
    obtain ⟨htext, hcalls⟩ := chatJson_content s
    exact ⟨htext, hcalls, fun u hu => wrapped_of_some hu⟩
  | geminiGenerateContent =>
    obtain ⟨htext, hcalls⟩ := geminiJson_content (x := x) s
    exact ⟨htext, hcalls, fun u hu => wrapped_of_some hu⟩

end CcSwitchServer.CursorEmitter
