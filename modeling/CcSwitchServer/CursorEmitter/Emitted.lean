import CcSwitchServer.CursorEmitter.Streams

/-! # What the Cursor writer emits

For every list of events without an error: well-formed blocks and items, the text and the calls of the events in
the order of the events, and totals that are exact when they fit.
-/

namespace CcSwitchServer.CursorEmitter
open Foundations List AgentSseWriter Spans

variable {x : Externals}

/-- Spans are opened in order and closed. -/
def spans : SpanRules := ⟨false, false⟩

/-- No span is opened inside another one. -/
def oneAtATime : SpanRules := ⟨true, false⟩

/-- A span states what was written to it. -/
def truthful : SpanRules := ⟨false, true⟩

variable {s : AgentSseWriter}

theorem streamed {events : List AgentEvent} (htext : s.aggregateText = "")
    (hreasoning : s.aggregateReasoning = "") (hcalls : s.aggregateToolCalls = [])
    (hev : ∀ ev ∈ events, ∀ msg, ev ≠ .error msg) :
    let t := (eventsOf x s.startEvents.2 events).2
    t.format = s.format ∧ t.aggregateText = said events ∧ t.aggregateReasoning = thought events ∧
      t.aggregateToolCalls = calledTools events := by
  have h := new_runs (x := x) s hev
  refine ⟨h.format, ?_, ?_, ?_⟩
  · rw [h.aggregateText, htext, String.empty_append]
  · rw [h.aggregateReasoning, hreasoning, String.empty_append]
  · rw [h.aggregateToolCalls, hcalls, nil_append]

theorem deferredText_eq : deferredText s =
    if s.format = .geminiGenerateContent ∧ s.aggregateText = "" ∧ s.aggregateToolCalls = [] then
      s.aggregateReasoning else "" := by
  unfold deferredText
  have hiff : s.hasDeferredBusinessOutput = true ↔ (s.format = .geminiGenerateContent ∧ s.aggregateText = "" ∧
      s.aggregateToolCalls = []) ∧ s.aggregateReasoning ≠ "" := by
    unfold hasDeferredBusinessOutput
    simp [and_assoc]
  by_cases hreasoning : s.aggregateReasoning = ""
  · rw [hreasoning, if_neg fun h => (hiff.mp h).2 hreasoning, ite_self]
  · by_cases hgemini : s.format = .geminiGenerateContent ∧ s.aggregateText = "" ∧ s.aggregateToolCalls = []
    · rw [if_pos hgemini, if_pos (hiff.mpr ⟨hgemini, hreasoning⟩)]
    · rw [if_neg hgemini, if_neg fun h => hgemini (hiff.mp h).1]

theorem answerText_eq (hchat : s.format = .openAiChatCompletions → s.aggregateToolCalls = [])
    (hgemini : s.format = .geminiGenerateContent → s.aggregateText = "" → s.aggregateReasoning ≠ "" →
      s.aggregateToolCalls = []) :
    answerText s = s.aggregateText ++ deferredText s := by
  have hnone : s.format ≠ .geminiGenerateContent → s.aggregateText = s.aggregateText ++ deferredText s := by
    intro hne
    rw [deferredText_eq, if_neg fun h => hne h.1, String.append_empty]
  unfold answerText
  cases hformat : s.format with
  | anthropicMessages => exact hnone (by rw [hformat]; decide)
  | openAiResponses => exact hnone (by rw [hformat]; decide)
  | openAiChatCompletions =>
    rw [hchat hformat]
    exact hnone (by rw [hformat]; decide)
  | geminiGenerateContent =>
    rw [deferredText_eq]
    dsimp only
    by_cases htext : s.aggregateText = ""
    · rw [if_pos htext, htext, String.empty_append]
      by_cases hreasoning : s.aggregateReasoning = ""
      · rw [hreasoning, ite_self]
      · rw [if_pos ⟨hformat, rfl, hgemini hformat htext hreasoning⟩]
    · rw [if_neg htext, if_neg fun h => htext h.2.1, String.append_empty]

/-- Without an error, and up to the conditions named with each part: well-formed blocks and items, the text and the calls
of the events, in the stream and in the answer, and exact totals. -/
theorem cursor_streams (x : Externals) (format : CursorResponseFormat) (model : String) (created : Number)
    (inputTokens : UInt32) (customToolNames : List String) (namespaces : OrderedMap String ResponseToolNamespace)
    (events : List AgentEvent) (hev : ∀ ev ∈ events, ∀ msg, ev ≠ .error msg) :
    let s := newWriter x format model created inputTokens customToolNames namespaces
    let frames := (stream x s events).1
    let answer := (stream x s events).2.jsonResponse x
    (format = .anthropicMessages → events.length ≤ 2 ^ 32 → Spans.WellFormed spans (frames.flatMap blockMarks) ∧
        (EachStep (stepped x) Apart s.startEvents.2 events → Spans.WellFormed oneAtATime (frames.flatMap blockMarks)) ∧
        frames.getLast? = some messageStop) ∧
    (format = .openAiResponses → events.length ≤ 2 ^ 32 → Spans.WellFormed spans (frames.flatMap itemMarks) ∧
        (EachStep (stepped x) Fresh s.startEvents.2 events →
          (eventsOf x s.startEvents.2 events).2.reasoningItem = none → Spans.WellFormed truthful (frames.flatMap itemMarks))) ∧
    concat (frames.map (textOf format)) =
      said events ++ (if format = .geminiGenerateContent ∧ said events = "" ∧ calledTools events = [] then
        thought events else "") ∧
    ((format = .openAiChatCompletions → calledTools events = []) →
      (format = .geminiGenerateContent → said events = "" → thought events ≠ "" → calledTools events = []) →
        jsonText format answer = concat (frames.map (textOf format))) ∧
    callsOf format [] frames = (calledTools events).map (streamCall x s) ∧
    jsonCalls format answer = (calledTools events).map (answerCall x s) ∧
    ∀ u, ((∃ frame ∈ frames, usageOf format frame = some u) ∨ jsonUsage format answer = some u) →
      u.input + u.output < 2 ^ 32 → u.total = u.input + u.output := by
  intro s frames answer
  have hunused := newWriter_unused (x := x) format model created inputTokens customToolNames namespaces
  obtain ⟨hformat, htext, hreasoning, hcalls⟩ := streamed (x := x) (s := s) rfl rfl rfl hev
  have hdone := doneEvents_same (x := x) (eventsOf x s.startEvents.2 events).2
  have hanswer : answer = (eventsOf x s.startEvents.2 events).2.jsonResponse x := hdone.2
  have hcontent := stream_content (x := x) s hev rfl rfl
  obtain ⟨hjson, hjsonCalls, husage⟩ := jsonResponse_content (x := x) (eventsOf x s.startEvents.2 events).2
  rw [hformat, ← hanswer] at hjson hjsonCalls husage
  have hdeferred := deferredText_eq (s := (eventsOf x s.startEvents.2 events).2)
  rw [hformat, htext, hreasoning, hcalls] at hdeferred
  refine ⟨fun hf hn => ⟨?_, fun hapart => ?_, ?_⟩, fun hf hn => ⟨?_, fun hfresh hclosed => ?_⟩, ?_, fun hchat hgemini => ?_,
    hcontent.calls [], ?_, ?_⟩
  · exact stream_blocks hunused rfl hf hev hn fun hex => nomatch hex
  · exact stream_blocks hunused rfl hf hev hn fun _ => hapart
  · have hlast : ((eventsOf x s.startEvents.2 events).2.doneEvents x).1 =
        (eventsOf x s.startEvents.2 events).2.anthropicDone := by
      unfold doneEvents
      rw [hformat.trans hf]
    change (stream x s events).1.getLast? = _
    rw [stream_frames, hlast]
    unfold anthropicDone
    rw [getLast?_append, getLast?_append]
    rfl
  · exact stream_items hunused rfl hf rfl rfl hev hn fun hstated => nomatch hstated
  · exact stream_items hunused rfl hf rfl rfl hev hn fun _ => ⟨hfresh, hclosed⟩
  · exact hcontent.text.trans (congrArg (said events ++ ·) hdeferred)
  · have hsame := answerText_eq (s := (eventsOf x s.startEvents.2 events).2)
      (fun h => hcalls.trans (hchat (hformat.symm.trans h)))
      (fun h hnone hsome => hcalls.trans (hgemini (hformat.symm.trans h) (htext.symm.trans hnone) (hreasoning ▸ hsome)))
    refine (hjson.trans hsame).trans ?_
    rw [htext]
    exact hcontent.text.symm
  · rw [hcalls] at hjsonCalls
    refine hjsonCalls.trans (map_congr_left fun tc _ => ?_)
    have hcall := (new_runs (x := x) s hev).streamCall_eq (x := x)
    unfold answerCall
    rw [hformat, hcall]
  · rintro u (⟨frame, hmem, hu⟩ | hu) hlt
    · exact exact_total (hcontent.usage frame hmem u hu) hlt
    · exact exact_total (husage u hu) hlt

/-! ## Where streams go wrong -/

def someExternals : Externals := ⟨fun _ => none, fun _ => "\x7b\x7d", fun _ => 1, fun n => toString n⟩

def look : CapturedToolCall := ⟨"call", "look", "\x7b\x7d"⟩

def fresh (format : CursorResponseFormat) : AgentSseWriter :=
  newWriter someExternals format "composer" (.posInt 0) 0 [] .empty

def sent (format : CursorResponseFormat) (events : List AgentEvent) : List Frame :=
  (stream someExternals (fresh format) events).1

def answered (format : CursorResponseFormat) (events : List AgentEvent) : Json :=
  (stream someExternals (fresh format) events).2.jsonResponse someExternals

def planned : List AgentEvent := [.thinking "plan", .thinkingComplete, .text "hello", .toolCall look, .usage 10 5]

/-- Thinking, text, a call and usage in a Responses stream. -/
theorem cursor_streams_planned :
    Spans.WellFormed truthful ((sent .openAiResponses planned).flatMap itemMarks) ∧
      concat ((sent .openAiResponses planned).map (textOf .openAiResponses)) = "hello" ∧
      callsOf .openAiResponses [] (sent .openAiResponses planned) =
        [streamCall someExternals (fresh .openAiResponses) look] ∧
      ∃ u, jsonUsage .openAiResponses (answered .openAiResponses planned) = some u ∧ u.total = u.input + u.output := by
  have hfresh : EachStep (stepped someExternals) Fresh (fresh .openAiResponses).startEvents.2 planned := by
    refine ⟨?_, ?_, ?_, ?_, ?_, trivial⟩ <;> (unfold Fresh; decide)
  have husage : jsonUsage .openAiResponses (answered .openAiResponses planned) = some ⟨10, 7, 17⟩ := by decide
  obtain ⟨-, hitems, htext, -, hcalls, -, htotal⟩ := cursor_streams someExternals .openAiResponses "composer" (.posInt 0)
    0 [] .empty planned (by simp [planned])
  exact ⟨(hitems rfl (by decide)).2 hfresh (by decide), htext.trans (by decide), hcalls, _, husage,
    htotal _ (.inr husage) (by decide)⟩

theorem toolCall_opens (s : AgentSseWriter) (hformat : s.format = .anthropicMessages) (tc : CapturedToolCall) :
    (((s.toolCall x tc).1.flatMap blockMarks).filterMap opens) = [s.nextBlockIdx.toNat] := by
  have hstops : ∀ o : Option UInt32, ((o.map contentBlockStop).toList.flatMap blockMarks).filterMap opens = [] := by
    intro o
    cases o <;> rfl
  have hclose : (s.pushCall tc).closeThinking = (s.pushCall tc).closeThinkingBlock := by
    have hpushed : (s.pushCall tc).format = .anthropicMessages := hformat
    unfold closeThinking
    rw [hpushed]
  have hflush : (s.pushCall tc).closeThinkingBlock.2.flushText.1 = (s.textBlock.map contentBlockStop).toList := by
    unfold flushText
    change (if s.format = _ then _ else _) ++ (if s.format = _ then _ else _) = _
    rw [hformat, if_pos rfl, if_neg (by decide), append_nil]
    rfl
  have hsend : (s.pushCall tc).closeThinkingBlock.2.flushText.2.sendCall x tc =
      (s.pushCall tc).closeThinkingBlock.2.flushText.2.anthropicToolUse x tc := by
    have hlast : (s.pushCall tc).closeThinkingBlock.2.flushText.2.format = .anthropicMessages := hformat
    unfold sendCall
    rw [hlast]
  unfold toolCall
  rw [hclose]
  dsimp only
  rw [hflush, hsend, flatMap_append, flatMap_append, filterMap_append, filterMap_append, hstops, append_nil]
  have hfirst := hstops s.thinkingBlock
  unfold closeThinkingBlock
  change filterMap opens ((s.thinkingBlock.map contentBlockStop).toList.flatMap blockMarks) ++ _ = _
  rw [hfirst]
  rfl

theorem calls_open (s : AgentSseWriter) (hformat : s.format = .anthropicMessages) (k : ℕ) (tc : CapturedToolCall) :
    let opens := ((eventsOf x s (replicate k (.toolCall tc))).1.flatMap blockMarks).filterMap opens
    opens.length = k ∧ ∀ i ∈ opens, i < 2 ^ 32 := by
  induction k generalizing s with
  | zero => exact ⟨rfl, fun _ hi => absurd hi not_mem_nil⟩
  | succ k ih =>
    obtain ⟨-, hadvanced⟩ := toolCall_content (x := x) s tc
    obtain ⟨hlength, hlt⟩ := ih (s.toolCall x tc).2 (hadvanced.format.trans hformat)
    rw [replicate_succ]
    change (((((s.toolCall x tc).1 ++ (eventsOf x (s.toolCall x tc).2 _).1).flatMap blockMarks).filterMap
      opens).length = k + 1) ∧ ∀ i ∈ (((s.toolCall x tc).1 ++ (eventsOf x (s.toolCall x tc).2 _).1).flatMap
        blockMarks).filterMap opens, i < 2 ^ 32
    rw [flatMap_append, filterMap_append, toolCall_opens s hformat, singleton_append]
    refine ⟨by rw [length_cons, hlength], fun i hi => ?_⟩
    rcases mem_cons.mp hi with rfl | hrest
    · exact s.nextBlockIdx.toNat_lt
    · exact hlt i hrest

theorem overflowing_blocks {k : ℕ} (hk : 2 ^ 32 < k) : ¬Spans.WellFormed spans
    ((sent .anthropicMessages (List.replicate k (.toolCall look))).flatMap blockMarks) := by
  rintro ⟨n, hrun⟩
  have hformat : (fresh .anthropicMessages).startEvents.2.format = .anthropicMessages := rfl
  obtain ⟨hlength, hlt⟩ := calls_open (x := someExternals) _ hformat k look
  unfold sent at hrun
  rw [stream_frames, flatMap_append, flatMap_append, (startEvents_marks _).1, nil_append, Spans.run_append] at hrun
  obtain ⟨t, hfirst, -⟩ := Option.bind_eq_some_iff.mp hrun
  obtain ⟨hopens, -⟩ := opens_run hfirst
  rw [hopens] at hlength hlt
  rw [length_range'] at hlength
  have hmem : 2 ^ 32 ∈ range' 0 (t.count - 0) := by
    rw [hlength, mem_range'_1]
    omega
  exact absurd (hlt _ hmem) (lt_irrefl _)

theorem not_wellFormed {rules : SpanRules} {marks : List Mark} (h : (run rules {} marks).isNone = true) :
    ¬Spans.WellFormed rules marks := by
  rintro ⟨n, hrun⟩
  rw [hrun] at h
  cases h

/-- Text inside thinking; items that state more, or less, than was written to them; thinking as text; answers
with another text than the stream; a total that does not fit; and a counter that starts again. -/
theorem cursor_streams_fail :
    ¬Spans.WellFormed oneAtATime ((sent .anthropicMessages [.thinking "a", .text "b"]).flatMap blockMarks) ∧
      ¬Spans.WellFormed truthful ((sent .openAiResponses [.text "a", .toolCall look, .text "b"]).flatMap itemMarks) ∧
      ¬Spans.WellFormed truthful ((sent .openAiResponses [.thinking "a"]).flatMap itemMarks) ∧
      concat ((sent .geminiGenerateContent [.thinking "a"]).map (textOf .geminiGenerateContent)) = "a" ∧
      said [.thinking "a"] = "" ∧
      jsonText .openAiChatCompletions (answered .openAiChatCompletions [.text "a", .toolCall look]) = "" ∧
      concat ((sent .openAiChatCompletions [.text "a", .toolCall look]).map (textOf .openAiChatCompletions)) = "a" ∧
      jsonText .geminiGenerateContent (answered .geminiGenerateContent [.thinking "a", .toolCall look]) = "a" ∧
      concat ((sent .geminiGenerateContent [.thinking "a", .toolCall look]).map (textOf .geminiGenerateContent)) = "" ∧
      jsonUsage .openAiChatCompletions (answered .openAiChatCompletions [.usage 4294967295 1]) =
        some ⟨4294967295, 1, 0⟩ ∧
      ¬Spans.WellFormed spans
        ((sent .anthropicMessages (replicate (2 ^ 32 + 1) (.toolCall look))).flatMap blockMarks) := by
  refine ⟨not_wellFormed (by decide), not_wellFormed (by decide), not_wellFormed (by decide),
    by decide, by decide, by decide, by decide, by decide, by decide,
    by decide, overflowing_blocks (Nat.lt_succ_self _)⟩

end CcSwitchServer.CursorEmitter
