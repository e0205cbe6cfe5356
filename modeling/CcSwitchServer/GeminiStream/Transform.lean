import CcSwitchServer.Foundations.Emitters
import CcSwitchServer.GeminiStream.State

/-! # The transformation of an event

Every function of the source takes the state and answers with frames: it is an emitter.
-/

namespace CcSwitchServer.GeminiStream
open Foundations Emitter Candidate

abbrev Writing := Emitter GeminiAnthropicState StreamFrame

/-! ## Closing blocks -/

def closeTextBlock : Writing := fun s =>
  match s.textBlock with
  | some block =>
    if block.isOpen then
      ({ s with textBlock := some { block with isOpen := false }, textSeen := "" }, [.contentBlockStop block.index])
    else (s, [])
  | none => (s, [])

def signatureFrames (index : ℕ) (signature : Option String) : List StreamFrame :=
  signature.toList.map fun signature => .contentBlockDelta index (.signature signature)

/-- A block that is not open still loses its signature. -/
def closeThinkingBlock : Writing := fun s =>
  match s.thinkingBlock with
  | some block =>
    if block.isOpen then
      ({ s with
          thinkingBlock := some { block with isOpen := false }
          thinkingSeen := ""
          thinkingSignature := none },
        signatureFrames block.index s.thinkingSignature ++ [.contentBlockStop block.index])
    else ({ s with thinkingSignature := none }, [])
  | none => ({ s with thinkingSignature := none }, [])

def toolFrames (index : ℕ) (tool : GeminiAnthropicToolState) : List StreamFrame :=
  .contentBlockStart index (.toolUse tool.id tool.name tool.signature) ::
    ((if tool.arguments.isNull then [] else [.contentBlockDelta index (.inputJson tool.arguments)]) ++
      [.contentBlockStop index])

/-- The block of a call is written at once, from its begin to its end. -/
def closeTool (key : GeminiAnthropicToolKey) : Writing := fun s =>
  match (s.tools.get? key).filter fun tool => !tool.emitted with
  | some tool =>
    ({ s with
        tools := s.tools.insert key { tool with emitted := true }
        nextBlockIndex := s.nextBlockIndex + 1 }, toolFrames s.nextBlockIndex tool)
  | none => (s, [])

def closeToolBlocks : Writing := fun s => each closeTool s.toolOrder s

/-! ## Text and thinking -/

variable (event : Event)

def ensureMessageStart : Writing := fun s =>
  if s.messageStarted then (s, [])
  else ({ s with messageStarted := true }, [.messageStart event.responseId event.modelVersion])

def openTextBlock : Writing := fun s =>
  if isOpen s.textBlock then (s, [])
  else
    ({ s with
        textBlock := some ⟨s.nextBlockIndex, true⟩
        nextBlockIndex := s.nextBlockIndex + 1
        textSeen := ""
        sawContent := true }, [.contentBlockStart s.nextBlockIndex .text])

/-- Text that goes on in one block extends the last mapping. -/
def mapText (mappings : List TextMapping) (partIndex index start : ℕ) (text : String) : List TextMapping :=
  match mappings.getLast?.filter fun mapping => mapping.partIndex = partIndex ∧ mapping.blockIndex = index with
  | some mapping => mappings.dropLast ++ [{ mapping with text := mapping.text ++ text }]
  | none => mappings ++ [⟨partIndex, index, start, text⟩]

/-- Only what is new is written. -/
def fillTextBlock (partIndex : ℕ) (text : String) : Writing := fun s =>
  let (seen, text) := geminiIncrementalText s.textSeen text
  if text = "" then ({ s with textSeen := seen }, [])
  else
    let index := (s.textBlock.map BlockState.index).getD 0
    let blockText := (s.textByBlock.get? index).getD ""
    ({ s with
        textSeen := seen
        textByBlock := s.textByBlock.insert index (blockText ++ text)
        textMappings := mapText s.textMappings partIndex index blockText.toList.length text },
      [.contentBlockDelta index (.text text)])

def textDelta (partIndex : ℕ) (text : String) : Writing :=
  closeThinkingBlock.andThen (closeToolBlocks.andThen (openTextBlock.andThen (fillTextBlock partIndex text)))

def openThinkingBlock : Writing := fun s =>
  if isOpen s.thinkingBlock then (s, [])
  else
    ({ s with
        thinkingBlock := some ⟨s.nextBlockIndex, true⟩
        nextBlockIndex := s.nextBlockIndex + 1
        thinkingSeen := ""
        sawContent := true }, [.contentBlockStart s.nextBlockIndex .thinking])

/-- A new signature begins a new block. -/
def closeResignedBlock (signature : Option String) : Writing := fun s =>
  if s.thinkingSignature.isSome ∧ signature.isSome ∧ s.thinkingSignature ≠ signature then closeThinkingBlock s
  else (s, [])

def fillThinkingBlock (text : Option String) : Writing := fun s =>
  match text with
  | none => (s, [])
  | some text =>
    let (seen, text) := geminiIncrementalText s.thinkingSeen text
    ({ s with thinkingSeen := seen },
      if text = "" then []
      else [.contentBlockDelta ((s.thinkingBlock.map BlockState.index).getD 0) (.thinking text)])

def storeSignature (signature : Option String) (s : GeminiAnthropicState) : GeminiAnthropicState :=
  { s with thinkingSignature := signature.orElse fun _ => s.thinkingSignature }

def thinkingDelta (part : Part) : Writing :=
  closeTextBlock.andThen (closeToolBlocks.andThen ((closeResignedBlock part.signature).andThen
    (openThinkingBlock.andThen ((fillThinkingBlock part.text).andThen (silent (storeSignature part.signature))))))

/-! ## Calls -/

/-- An identifier of its own excludes every other one. -/
def compatibleIdentity (explicitId : Option String) (tool : GeminiAnthropicToolState) : Bool :=
  !tool.emitted && explicitId.all fun id => !tool.idWasExplicit || tool.id = id

variable (candidateIndex : ℤ)

def slotOf (partIndex occurrence : ℕ) : GeminiAnthropicToolKey := toLex (candidateIndex, toLex (partIndex, occurrence))

/-- The loop that looks for a free occurrence, at most `fuel` times. -/
def vacantSlot (tools : OrderedMap GeminiAnthropicToolKey GeminiAnthropicToolState)
    (candidateIndex : ℤ) (partIndex : ℕ) : ℕ → ℕ → Option GeminiAnthropicToolKey
  | 0, _ => none
  | fuel + 1, occurrence =>
    let slot := slotOf candidateIndex partIndex occurrence
    if (tools.get? slot).isSome then vacantSlot tools candidateIndex partIndex fuel (occurrence + 1)
    else some slot

variable (tools : OrderedMap GeminiAnthropicToolKey GeminiAnthropicToolState)

/-- A call with an id is found by it before any position is looked at. -/
def keyOfId (explicitId : Option String) : Option GeminiAnthropicToolKey :=
  explicitId.bind fun id =>
    (tools.entries.find? fun entry => !entry.2.emitted && entry.2.id = id).map Prod.fst

def keyOfSlot (explicitId : Option String)
    (name : String) (slot : GeminiAnthropicToolKey) : Option GeminiAnthropicToolKey :=
  ((tools.get? slot).filter fun tool => compatibleIdentity explicitId tool && tool.name = name).map fun _ => slot

def keyOfOccurrence (explicitId : Option String) (name : String) (candidateIndex : ℤ) (occurrence : ℕ) :
    Option GeminiAnthropicToolKey :=
  (tools.entries.find? fun entry => compatibleIdentity explicitId entry.2 && (ofLex entry.1).1 = candidateIndex &&
    (ofLex (ofLex entry.1).2).2 = occurrence && entry.2.name = name).map Prod.fst

/-- By id, by slot, by name and occurrence, or a free slot. -/
def keyOfCall (explicitId : Option String)
    (name : String) (candidateIndex : ℤ) (partIndex occurrence : ℕ) : GeminiAnthropicToolKey :=
  let slot := slotOf candidateIndex partIndex occurrence
  (((keyOfId tools explicitId).orElse fun _ => keyOfSlot tools explicitId name slot).orElse fun _ =>
    keyOfOccurrence tools explicitId name candidateIndex occurrence).getD
      ((vacantSlot tools candidateIndex partIndex (tools.size + 1) occurrence).getD slot)

def FunctionCall.toolName (call : FunctionCall) : String := call.name.getD "tool"

def positionalId (name : String) (key : GeminiAnthropicToolKey) : String :=
  name ++ "_" ++ toString (ofLex key).1 ++ "_" ++ toString (ofLex (ofLex key).2).1 ++ "_" ++
    toString (ofLex (ofLex key).2).2

def newTool (call : FunctionCall) (key : GeminiAnthropicToolKey) : GeminiAnthropicToolState where
  id := call.id.getD (positionalId call.toolName key)
  idWasExplicit := call.id.isSome
  name := call.toolName
  arguments := .object []
  signature := none
  emitted := false

def updateTool (call : FunctionCall) (signature : Option String) (tool : GeminiAnthropicToolState) :
    GeminiAnthropicToolState :=
  { tool with
    id := call.id.getD tool.id
    idWasExplicit := call.id.isSome || tool.idWasExplicit
    arguments := call.args.elim tool.arguments (mergeGeminiToolArguments tool.arguments)
    signature := signature.orElse fun _ => tool.signature }

/-- The part joins the call under its key or begins one. -/
def recordCall (partIndex occurrence : ℕ) (signature : Option String) (call : FunctionCall)
    (s : GeminiAnthropicState) : GeminiAnthropicState :=
  let key := keyOfCall s.tools call.id call.toolName candidateIndex partIndex occurrence
  let known := s.tools.get? key
  { s with
    toolOrder := if known.isSome then s.toolOrder else s.toolOrder ++ [key]
    tools := s.tools.insert key (updateTool call signature (known.getD (newTool call key)))
    sawContent := true
    sawTool := true }

def functionCall (partIndex occurrence : ℕ) (signature : Option String) (call : FunctionCall) : Writing :=
  closeTextBlock.andThen (closeThinkingBlock.andThen
    (silent (recordCall candidateIndex partIndex occurrence signature call)))

/-! ## Grounding -/

def searchToolUseId : String := "srvtoolu_gemini_search"

def searchBlocks : Writing := fun s =>
  ({ s with nextBlockIndex := s.nextBlockIndex + 2 },
    [.contentBlockStart s.nextBlockIndex (.serverToolUse searchToolUseId "web_search"),
      .contentBlockDelta s.nextBlockIndex (.inputJson (.object [("query", .string s.grounding.primaryQuery)])),
      .contentBlockStop s.nextBlockIndex,
      .contentBlockStart (s.nextBlockIndex + 1) (.webSearchToolResult searchToolUseId s.grounding.chunks),
      .contentBlockStop (s.nextBlockIndex + 1)])

/-- The blocks of the search, once and as soon as there is web grounding. -/
def emitGroundingSearch : Writing := fun s =>
  if s.groundingSearchEmitted || !s.grounding.hasWebGrounding then (s, [])
  else
    (closeThinkingBlock.andThen (closeTextBlock.andThen (closeToolBlocks.andThen searchBlocks)))
      { s with groundingSearchEmitted := true, sawContent := true }

def openIndex (block : Option BlockState) : Option ℕ := (block.filter fun block => block.isOpen).map BlockState.index

/-- A citation of the open block that was not written before. -/
def emitCitation (citation : GroundingCitation) : Writing := fun s =>
  if openIndex s.textBlock ≠ some citation.blockIndex then (s, [])
  else if citation.key ∈ s.emittedGroundingCitations then (s, [])
  else
    ({ s with emittedGroundingCitations := s.emittedGroundingCitations ++ [citation.key] },
      [.contentBlockDelta citation.blockIndex (.citations citation)])

def emitGroundingCitations : Writing := fun s =>
  each emitCitation (s.grounding.citations s.textMappings) s

/-! ## Events -/

/-- The first event selects a candidate, and later ones only go on with it. -/
def selectedGeminiCandidate (selected : Option ℤ) : Option Candidate :=
  (event.candidates.find? fun candidate => candidate.index = selected.getD 0).orElse fun _ =>
    if selected.isNone then event.candidates.head? else none

def Part.hasThinking (part : Part) : Bool := part.text.isSome || part.signature.isSome

def writeText (partIndex : ℕ) (part : Part) : Writing :=
  if part.thought then
    if part.hasThinking then thinkingDelta part else skip
  else
    match part.text with
    | some text => textDelta partIndex text
    | none => skip

def occurrence (parts : List Part) (name : String) : ℕ :=
  (parts.filterMap fun part => part.functionCall.map FunctionCall.toolName).count name

def writeCall (before : List Part) (part : Part) : Writing :=
  match part.functionCall with
  | some call =>
    functionCall candidateIndex before.length (occurrence before call.toolName) part.signature call
  | none => skip

def writePart (before : List Part) (part : Part) : Writing :=
  (writeText before.length part).andThen (writeCall candidateIndex before part)

def writeParts (candidateIndex : ℤ) : List Part → List Part → Writing
  | _, [] => skip
  | before, part :: parts =>
    (writePart candidateIndex before part).andThen (writeParts candidateIndex (before ++ [part]) parts)

/-- What is selected stays selected, and its grounding is observed. -/
def observe (candidate : Option Candidate) (s : GeminiAnthropicState) : GeminiAnthropicState :=
  match candidate with
  | none => s
  | some candidate =>
    { s with
      selectedCandidateIndex := some (s.selectedCandidateIndex.getD candidate.index)
      grounding := candidate.grounding.elim s.grounding s.grounding.observeMetadata }

/-- Behind the finish reason only grounding is written. -/
def transformFinished : Writing := fun s =>
  ((if s.grounding.hasWebGrounding then ensureMessageStart event else skip).andThen
    (emitGroundingCitations.andThen emitGroundingSearch)) s

def blockPrompt (reason : String) (s : GeminiAnthropicState) : GeminiAnthropicState :=
  { s with pendingFinishReason := some reason, pendingBlockedPrompt := true }

def setFinish (reason : Option String) (s : GeminiAnthropicState) : GeminiAnthropicState :=
  { s with pendingFinishReason := reason.orElse fun _ => s.pendingFinishReason }

def emitGrounding : Writing := fun s =>
  if isOpen s.textBlock then (emitGroundingCitations.andThen emitGroundingSearch) s else emitGroundingSearch s

def transformParts (candidate : Option Candidate) : Writing :=
  (ensureMessageStart event).andThen (emitGrounding.andThen
    ((candidate.elim skip fun candidate => writeParts candidate.index [] candidate.parts).andThen
      (emitGroundingCitations.andThen (silent (setFinish (candidate.bind finishReason))))))

/-- An event that is written, with the candidate that was selected and observed. -/
def transformObserved (candidate : Option Candidate) : Writing := fun s =>
  if s.pendingFinishReason.isSome then transformFinished event s
  else
    match if candidate.isNone then event.blockReason else none with
    | some reason => (ensureMessageStart event).andThen (silent (blockPrompt reason)) s
    | none =>
      if (candidate.elim [] parts).isEmpty ∧ (candidate.bind finishReason).isNone ∧
          s.grounding.hasWebGrounding = false then (s, [])
      else transformParts event candidate s

def transformNow : Writing := fun s =>
  if s.completed then (s, [])
  else
    let candidate := selectedGeminiCandidate event s.selectedCandidateIndex
    transformObserved event candidate (observe candidate s)

def Candidate.observed (candidate : Candidate) : GroundingAccumulator :=
  candidate.grounding.elim {} ({} : GroundingAccumulator).observeMetadata

def isTerminal (candidate : Option Candidate) : Bool :=
  (candidate.bind finishReason).isSome || (candidate.isNone && event.blockReason.isSome)

variable (s : GeminiAnthropicState)

def heldBack : Bool := s.webSearchExpected && !s.webSearchGateResolved

def release (grounding : Option Json) (s : GeminiAnthropicState) : GeminiAnthropicState :=
  { s with
    webSearchGateResolved := true
    grounding := grounding.elim s.grounding s.grounding.observeMetadata
    bufferedWebSearchInputs := [] }

/-- While a search is expected events are held back, up to grounding or the end. -/
def transform : Writing := fun s =>
  if s.completed then (s, [])
  else if heldBack s then
    let candidate := selectedGeminiCandidate event s.selectedCandidateIndex
    let hasGrounding := candidate.any fun candidate => candidate.observed.hasWebGrounding
    if !hasGrounding && !isTerminal event candidate then
      ({ s with bufferedWebSearchInputs := s.bufferedWebSearchInputs ++ [event] }, [])
    else
      each transformNow (s.bufferedWebSearchInputs ++ [event])
        (release (if hasGrounding then candidate.bind grounding else none) s)
  else transformNow event s

/-! ## The end -/

/-- An answer without content gets an empty block. -/
def closeContent : Writing := fun s =>
  if !s.sawContent && !s.pendingBlockedPrompt then
    ({ s with nextBlockIndex := s.nextBlockIndex + 1, sawContent := true },
      [.contentBlockStart s.nextBlockIndex .text, .contentBlockStop s.nextBlockIndex])
  else (closeTextBlock.andThen closeThinkingBlock) s

def stopReason (finishReason : String) : String :=
  if s.pendingBlockedPrompt then "refusal"
  else
    let mapped := geminiFinishReasonToAnthropic finishReason
    if mapped = "refusal" ∨ mapped = "max_tokens" then mapped
    else if s.sawTool then "tool_use"
    else mapped

def endMessage (finishReason : String) : Writing := fun s =>
  ({ s with completed := true }, [.messageDelta (stopReason s finishReason), .messageStop])

def finish (finishReason : String) : Writing :=
  emitGroundingCitations.andThen (emitGroundingSearch.andThen (closeContent.andThen
    (closeToolBlocks.andThen (endMessage finishReason))))

/-- What is still held back is written. -/
def releaseBuffered : Writing := fun s =>
  if heldBack s then
    each transformNow s.bufferedWebSearchInputs (release none s)
  else (s, [])

def streamEnded : String := "Gemini stream ended before candidate.finishReason"

/-- A stream may end only behind a finish reason. -/
def finishStream : Except String (GeminiAnthropicState × List StreamFrame) :=
  if s.completed then .ok (s, [])
  else
    let released := releaseBuffered s
    if released.1.completed then .ok released
    else
      match released.1.pendingFinishReason with
      | none => .error streamEnded
      | some reason =>
        let finished := finish reason { released.1 with pendingFinishReason := none }
        .ok (finished.1, released.2 ++ finished.2)

/-! ## The whole stream -/

def withWebSearchExpected (expected : Bool) : GeminiAnthropicState :=
  { webSearchExpected := expected, webSearchGateResolved := !expected }

def transformStream (expected : Bool) (events : List Event) : Except String (List StreamFrame) := do
  let transformed := each transform events (withWebSearchExpected expected)
  let finished ← finishStream transformed.1
  return transformed.2 ++ finished.2

end CcSwitchServer.GeminiStream
