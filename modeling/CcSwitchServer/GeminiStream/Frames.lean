import CcSwitchServer.GeminiStream.Transform

/-! # What the emitters leave alone

Every emitter changes a few fields of the state and writes frames of a few kinds.
-/

namespace CcSwitchServer.GeminiStream
open Foundations StreamFrame Emitter.Leaves Emitter

inductive FrameKind
  | text
  | thinking
  | toolUse
  | citation
  | other
deriving DecidableEq

/-- The deltas of text, thinking and citations, and the starts of tool blocks. -/
def StreamFrame.kind : StreamFrame → FrameKind
  | .contentBlockDelta _ (.text _) => .text
  | .contentBlockDelta _ (.thinking _) => .thinking
  | .contentBlockDelta _ (.citations _) => .citation
  | .contentBlockStart _ (.toolUse ..) => .toolUse
  | _ => .other

def StreamFrame.Outside (kinds : List FrameKind) (frame : StreamFrame) : Prop := frame.kind ∉ kinds

section
variable {α : Type} {view : GeminiAnthropicState → α} {kinds kinds' : List FrameKind} {f : Writing}
  {s s' : GeminiAnthropicState} {frames : List StreamFrame}

theorem inside_nil : ∀ frame ∈ ([] : List StreamFrame), ¬ frame.Outside kinds := fun _ h => nomatch h

theorem inside_cons {frame : StreamFrame} (h : frame.kind ∈ kinds)
    (hrest : ∀ frame ∈ frames, ¬ frame.Outside kinds) : ∀ frame' ∈ frame :: frames, ¬ frame'.Outside kinds := by
  intro frame' hframe'
  rcases List.mem_cons.mp hframe' with rfl | hframe'
  · exact not_not_intro h
  · exact hrest frame' hframe'

theorem inside_other {frame : StreamFrame} (h : frame.kind = .other)
    (hrest : ∀ frame ∈ frames, ¬ frame.Outside [.other]) : ∀ frame' ∈ frame :: frames, ¬ frame'.Outside [.other] :=
  inside_cons (by rw [h]; exact List.mem_cons_self) hrest

theorem inside_append {frames' : List StreamFrame} (h : ∀ frame ∈ frames, ¬ frame.Outside kinds)
    (h' : ∀ frame ∈ frames', ¬ frame.Outside kinds) : ∀ frame ∈ frames ++ frames', ¬ frame.Outside kinds := by
  intro frame hframe
  exact (List.mem_append.mp hframe).elim (h frame) (h' frame)

end

/-! ## Closing -/

theorem closeTextBlock_leaves : Emitter.Leaves
    (fun s : GeminiAnthropicState => { s with textBlock := none, textSeen := "" })
    (StreamFrame.Outside [.other]) closeTextBlock := by
  intro s
  unfold closeTextBlock
  split
  · split
    · exact ⟨rfl, inside_cons (by simp [kind]) inside_nil⟩
    · exact ⟨rfl, inside_nil⟩
  · exact ⟨rfl, inside_nil⟩

theorem signatureFrames_inside (index : ℕ) (signature : Option String) :
    ∀ frame ∈ signatureFrames index signature, ¬ frame.Outside [.other] := by
  cases signature with
  | none => exact inside_nil
  | some signature => exact inside_cons (by simp [kind]) inside_nil

theorem closeThinkingBlock_leaves : Emitter.Leaves (fun s : GeminiAnthropicState =>
      { s with thinkingBlock := none, thinkingSeen := "", thinkingSignature := none })
    (StreamFrame.Outside [.other]) closeThinkingBlock := by
  intro s
  unfold closeThinkingBlock
  split
  · split
    · exact ⟨rfl, inside_append (signatureFrames_inside _ _) (inside_cons (by simp [kind]) inside_nil)⟩
    · exact ⟨rfl, inside_nil⟩
  · exact ⟨rfl, inside_nil⟩

theorem toolFrames_inside (index : ℕ) (tool : GeminiAnthropicToolState) :
    ∀ frame ∈ toolFrames index tool, ¬ frame.Outside [.toolUse, .other] := by
  unfold toolFrames
  refine inside_cons (by simp [kind]) (inside_append ?_ (inside_cons (by simp [kind]) inside_nil))
  split
  · exact inside_nil
  · exact inside_cons (by simp [kind]) inside_nil

theorem closeTool_leaves (key : GeminiAnthropicToolKey) : Emitter.Leaves
    (fun s : GeminiAnthropicState => { s with tools := .empty, nextBlockIndex := 0 })
    (StreamFrame.Outside [.toolUse, .other]) (closeTool key) := by
  intro s
  unfold closeTool
  split
  · exact ⟨rfl, toolFrames_inside _ _⟩
  · exact ⟨rfl, inside_nil⟩

theorem closeToolBlocks_leaves : Emitter.Leaves
    (fun s : GeminiAnthropicState => { s with tools := .empty, nextBlockIndex := 0 })
    (StreamFrame.Outside [.toolUse, .other]) closeToolBlocks :=
  of_apply fun s => ⟨each closeTool s.toolOrder, rfl, each fun key _ => closeTool_leaves key⟩

/-! ## Text and thinking -/

theorem ensureMessageStart_leaves (event : Event) : Emitter.Leaves
    (fun s : GeminiAnthropicState => { s with messageStarted := false })
    (StreamFrame.Outside [.other]) (ensureMessageStart event) := by
  intro s
  unfold ensureMessageStart
  split
  · exact ⟨rfl, inside_nil⟩
  · exact ⟨rfl, inside_cons (by simp [kind]) inside_nil⟩

theorem openTextBlock_leaves : Emitter.Leaves (fun s : GeminiAnthropicState =>
      { s with textBlock := none, nextBlockIndex := 0, textSeen := "", sawContent := false })
    (StreamFrame.Outside [.other]) openTextBlock := by
  intro s
  unfold openTextBlock
  split
  · exact ⟨rfl, inside_nil⟩
  · exact ⟨rfl, inside_cons (by simp [kind]) inside_nil⟩

theorem fillTextBlock_leaves (partIndex : ℕ) (text : String) : Emitter.Leaves
    (fun s : GeminiAnthropicState => { s with textSeen := "", textByBlock := .empty, textMappings := [] })
    (StreamFrame.Outside [.text]) (fillTextBlock partIndex text) := by
  intro s
  unfold fillTextBlock
  cases geminiIncrementalText s.textSeen text with
  | mk seen delta =>
    simp only
    split
    · exact ⟨rfl, inside_nil⟩
    · exact ⟨rfl, inside_cons (by simp [kind]) inside_nil⟩

theorem openThinkingBlock_leaves : Emitter.Leaves (fun s : GeminiAnthropicState =>
      { s with thinkingBlock := none, nextBlockIndex := 0, thinkingSeen := "", sawContent := false })
    (StreamFrame.Outside [.other]) openThinkingBlock := by
  intro s
  unfold openThinkingBlock
  split
  · exact ⟨rfl, inside_nil⟩
  · exact ⟨rfl, inside_cons (by simp [kind]) inside_nil⟩

theorem closeResignedBlock_leaves (signature : Option String) : Emitter.Leaves (fun s : GeminiAnthropicState =>
      { s with thinkingBlock := none, thinkingSeen := "", thinkingSignature := none })
    (StreamFrame.Outside [.other]) (closeResignedBlock signature) := by
  intro s
  unfold closeResignedBlock
  split
  · exact closeThinkingBlock_leaves s
  · exact ⟨rfl, inside_nil⟩

theorem fillThinkingBlock_leaves (text : Option String) : Emitter.Leaves
    (fun s : GeminiAnthropicState => { s with thinkingSeen := "" })
    (StreamFrame.Outside [.thinking]) (fillThinkingBlock text) := by
  intro s
  unfold fillThinkingBlock
  split
  · exact ⟨rfl, inside_nil⟩
  · refine ⟨rfl, ?_⟩
    simp only
    split
    · exact inside_nil
    · exact inside_cons (by simp [kind]) inside_nil

/-! ## Grounding -/

theorem searchBlocks_leaves : Emitter.Leaves (fun s : GeminiAnthropicState => { s with nextBlockIndex := 0 })
    (StreamFrame.Outside [.other]) searchBlocks := by
  intro s
  exact ⟨rfl, inside_other rfl (inside_other rfl (inside_other rfl (inside_other rfl (inside_other rfl inside_nil))))⟩

theorem emitCitation_leaves (citation : GroundingCitation) : Emitter.Leaves
    (fun s : GeminiAnthropicState => { s with emittedGroundingCitations := [] })
    (StreamFrame.Outside [.citation]) (emitCitation citation) := by
  intro s
  unfold emitCitation
  split
  · exact ⟨rfl, inside_nil⟩
  · split
    · exact ⟨rfl, inside_nil⟩
    · exact ⟨rfl, inside_cons (by simp [kind]) inside_nil⟩

theorem emitGroundingCitations_leaves : Emitter.Leaves
    (fun s : GeminiAnthropicState => { s with emittedGroundingCitations := [] })
    (StreamFrame.Outside [.citation]) emitGroundingCitations :=
  of_apply fun s => ⟨each emitCitation (s.grounding.citations s.textMappings), rfl,
    each fun citation _ => emitCitation_leaves citation⟩

/-! ## The control of a stream -/

/-- What decides which events are written: the state without its blocks. -/
def control (s : GeminiAnthropicState) : GeminiAnthropicState :=
  { s with
    nextBlockIndex := 0
    messageStarted := false
    textBlock := none
    textSeen := ""
    textMappings := []
    textByBlock := .empty
    thinkingBlock := none
    thinkingSeen := ""
    thinkingSignature := none
    tools := .empty
    toolOrder := []
    emittedGroundingCitations := []
    sawContent := false
    sawTool := false }

def allKinds : List FrameKind := [.text, .thinking, .toolUse, .citation, .other]

theorem mem_allKinds (kind : FrameKind) : kind ∈ allKinds := by cases kind <;> decide

/-- The emitter keeps the state without its blocks and writes none of these kinds. -/
abbrev LeavesControl (f : Writing) : Prop := Emitter.Leaves control (StreamFrame.Outside allKinds) f

section
variable {α : Type} {view : GeminiAnthropicState → α} {kinds : List FrameKind} {f : Writing}

theorem leavesControl_of (h : Emitter.Leaves view (StreamFrame.Outside kinds) f)
    (hview : ∀ s t, view s = view t → control s = control t) : LeavesControl f :=
  h.mono hview fun frame hframe _ => hframe (mem_allKinds frame.kind)

theorem leavesControl_comp {view : GeminiAnthropicState → GeminiAnthropicState}
    (h : Emitter.Leaves view (StreamFrame.Outside kinds) f) (hview : ∀ s, control (view s) = control s) :
    LeavesControl f :=
  leavesControl_of h fun s t hst => by rw [← hview s, ← hview t, hst]

end

theorem closeTextBlock_control : LeavesControl closeTextBlock := leavesControl_comp closeTextBlock_leaves fun _ => rfl

theorem closeThinkingBlock_control : LeavesControl closeThinkingBlock :=
  leavesControl_comp closeThinkingBlock_leaves fun _ => rfl

theorem closeToolBlocks_control : LeavesControl closeToolBlocks :=
  leavesControl_comp closeToolBlocks_leaves fun _ => rfl

theorem ensureMessageStart_control (event : Event) : LeavesControl (ensureMessageStart event) :=
  leavesControl_comp (ensureMessageStart_leaves event) fun _ => rfl

theorem emitGroundingCitations_control : LeavesControl emitGroundingCitations :=
  leavesControl_comp emitGroundingCitations_leaves fun _ => rfl

theorem textDelta_control (partIndex : ℕ) (text : String) : LeavesControl (textDelta partIndex text) :=
  closeThinkingBlock_control.andThen (closeToolBlocks_control.andThen
    ((leavesControl_comp openTextBlock_leaves fun _ => rfl).andThen
      (leavesControl_comp (fillTextBlock_leaves partIndex text) fun _ => rfl)))

theorem thinkingDelta_control (part : Part) : LeavesControl (thinkingDelta part) :=
  closeTextBlock_control.andThen (closeToolBlocks_control.andThen
    ((leavesControl_comp (closeResignedBlock_leaves part.signature) fun _ => rfl).andThen
      ((leavesControl_comp openThinkingBlock_leaves fun _ => rfl).andThen
        ((leavesControl_comp (fillThinkingBlock_leaves part.text) fun _ => rfl).andThen
          (leaves_silent fun _ => rfl)))))

theorem writeText_control (partIndex : ℕ) (part : Part) : LeavesControl (writeText partIndex part) := by
  unfold writeText
  split
  · split
    · exact thinkingDelta_control part
    · exact leaves_skip
  · split
    · exact textDelta_control partIndex _
    · exact leaves_skip

theorem writeCall_control (candidateIndex : ℤ) (before : List Part) (part : Part) :
    LeavesControl (writeCall candidateIndex before part) := by
  unfold writeCall
  split
  · exact closeTextBlock_control.andThen (closeThinkingBlock_control.andThen (leaves_silent fun _ => rfl))
  · exact leaves_skip

theorem writeParts_control (candidateIndex : ℤ) (before parts : List Part) :
    LeavesControl (writeParts candidateIndex before parts) := by
  induction parts generalizing before with
  | nil => exact leaves_skip
  | cons part parts ih =>
    exact ((writeText_control before.length part).andThen (writeCall_control candidateIndex before part)).andThen
      (ih (before ++ [part]))

/-- Of the control the search only sets its own flag. -/
theorem emitGroundingSearch_control (s : GeminiAnthropicState) : control (emitGroundingSearch s).1 =
    { control s with groundingSearchEmitted := s.groundingSearchEmitted || s.grounding.hasWebGrounding } := by
  unfold emitGroundingSearch
  split
  · rename_i hskip
    have hsame : (s.groundingSearchEmitted || s.grounding.hasWebGrounding) = s.groundingSearchEmitted := by
      cases hemitted : s.groundingSearchEmitted with
      | true => rfl
      | false =>
        rw [hemitted, Bool.false_or, Bool.not_eq_true'] at hskip
        rw [Bool.false_or, hskip]
    rw [hsame]
    rfl
  · rename_i hwrite
    have hgrounded : (s.groundingSearchEmitted || s.grounding.hasWebGrounding) = true := by
      cases hweb : s.grounding.hasWebGrounding with
      | true => exact Bool.or_true _
      | false =>
        rw [hweb, Bool.not_false, Bool.or_true] at hwrite
        exact absurd rfl hwrite
    have hleaves : LeavesControl (closeThinkingBlock.andThen (closeTextBlock.andThen
        (closeToolBlocks.andThen searchBlocks))) :=
      closeThinkingBlock_control.andThen (closeTextBlock_control.andThen
        (closeToolBlocks_control.andThen (leavesControl_comp searchBlocks_leaves fun _ => rfl)))
    rw [hgrounded]
    exact (hleaves { s with groundingSearchEmitted := true, sawContent := true }).1

end CcSwitchServer.GeminiStream
