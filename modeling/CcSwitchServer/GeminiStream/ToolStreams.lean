import CcSwitchServer.Foundations.Runs
import CcSwitchServer.GeminiStream.ToolRuns

/-! # The calls of a stream

A stream is read as calls and the boundaries between them.
-/

namespace CcSwitchServer.GeminiStream
open Foundations Candidate Calls List Emitter

/-! ## Calls and boundaries -/

/-- A call, or what closes the open blocks: text, thinking and the first web search. -/
inductive Mark
  | boundary
  | call (call : FunctionCall)

def Mark.call? : Mark → Option FunctionCall
  | .boundary => none
  | .call c => some c

def callsIn (marks : List Mark) : List FunctionCall := marks.filterMap Mark.call?

def Part.writes (part : Part) : Bool := if part.thought then part.hasThinking else part.text.isSome

def Part.marks (part : Part) : List Mark :=
  (if part.writes then [.boundary] else []) ++ part.functionCall.toList.map Mark.call

def groundingAfter (grounding : GroundingAccumulator) (candidate : Option Candidate) : GroundingAccumulator :=
  (candidate.bind Candidate.grounding).elim grounding grounding.observeMetadata

def eventMarks (grounding : GroundingAccumulator) (searched : Bool) (candidate : Option Candidate) : List Mark :=
  (if !searched && (groundingAfter grounding candidate).hasWebGrounding then [.boundary] else []) ++
    (candidate.elim [] parts).flatMap Part.marks

def selectedAfter (selected : Option ℤ) (candidate : Option Candidate) : Option ℤ :=
  selected.orElse fun _ => candidate.map index

/-- The calls of the selected candidate and the boundaries between them, up to the end of the answer. -/
def marks (selected : Option ℤ) (grounding : GroundingAccumulator) (searched : Bool) : List Event → List Mark
  | [] => []
  | event :: events =>
    let candidate := selectedGeminiCandidate event selected
    let after := groundingAfter grounding candidate
    eventMarks grounding searched candidate ++
      if isTerminal event candidate then []
      else marks (selectedAfter selected candidate) after (searched || after.hasWebGrounding) events

/-- Whether the selected candidate finishes, or the prompt is blocked. -/
def ends (selected : Option ℤ) : List Event → Bool
  | [] => false
  | event :: events =>
    let candidate := selectedGeminiCandidate event selected
    isTerminal event candidate || ends (selectedAfter selected candidate) events

/-- A boundary closes all calls so far. -/
def Calls.move (calls : Calls) : Mark → Calls
  | .boundary => ⟨calls.read, callIds calls.read⟩
  | .call call => ⟨calls.read ++ [call], calls.closed⟩

/-- A call has an id of which more may come. -/
def Calls.Allows (calls : Calls) : Mark → Prop
  | .boundary => True
  | .call call => (∃ id, call.id = some id ∧ id ∉ calls.closed) ∧ ∀ json ∈ call.args, json.isNull = false

/-- No call has parts on both sides of a boundary. -/
abbrev Calls.Allowed (calls : Calls) (marks : List Mark) : Prop := EachStep move Calls.Allows calls marks

theorem read_run (calls : Calls) (marks : List Mark) : (run move calls marks).read = calls.read ++ callsIn marks := by
  induction marks generalizing calls with
  | nil => exact (append_nil _).symm
  | cons mark marks ih =>
    rw [run_cons, ih]
    cases mark with
    | boundary => rfl
    | call call => exact append_assoc _ _ _

/-- No call has parts on both sides of a boundary. -/
def Unsplit (marks : List Mark) : Prop :=
  ∀ before after, marks = before ++ .boundary :: after → ∀ id ∈ callIds (callsIn before), id ∉ callIds (callsIn after)

def AllNamed (marks : List Mark) : Prop := ∀ call ∈ callsIn marks, call.id.isSome

instance (marks : List Mark) : Decidable (AllNamed marks) :=
  inferInstanceAs (Decidable (∀ call ∈ callsIn marks, call.id.isSome))

def ArgsGiven (marks : List Mark) : Prop := ∀ call ∈ callsIn marks, ∀ json ∈ call.args, json.isNull = false

theorem mem_callIds_cons {call : FunctionCall} {calls : List FunctionCall} {id : String} (h : call.id = some id) :
    id ∈ callIds (call :: calls) := mem_filterMap.mpr ⟨call, mem_cons_self, h⟩

/-- Calls that are not split may be read one after the other. -/
theorem allowed_from {calls : Calls} {marks : List Mark} (hnamed : AllNamed marks) (hargs : ArgsGiven marks)
    (hclosed : ∀ id ∈ calls.closed, id ∉ callIds (callsIn marks))
    (hunsplit : ∀ before after, marks = before ++ .boundary :: after →
      ∀ id ∈ callIds (calls.read ++ callsIn before), id ∉ callIds (callsIn after)) : calls.Allowed marks := by
  induction marks generalizing calls with
  | nil => trivial
  | cons mark marks ih =>
    cases mark with
    | boundary =>
      refine ⟨trivial, ih hnamed hargs (fun id hid => ?_) fun before after hmarks => ?_⟩
      · exact hunsplit [] marks rfl id (by rwa [callsIn, filterMap_nil, append_nil])
      · exact hunsplit (.boundary :: before) after (by rw [hmarks, cons_append])
    | call call =>
      have hcalls : callsIn (.call call :: marks) = call :: callsIn marks := rfl
      obtain ⟨id, hid⟩ := Option.isSome_iff_exists.mp (hnamed call (hcalls ▸ mem_cons_self))
      refine ⟨⟨⟨id, hid, fun hmem => hclosed id hmem (hcalls ▸ mem_callIds_cons hid)⟩,
        hargs call (hcalls ▸ mem_cons_self)⟩,
        ih (fun other hother => hnamed other (hcalls ▸ mem_cons_of_mem call hother))
          (fun other hother => hargs other (hcalls ▸ mem_cons_of_mem call hother))
          (fun other hother hmem => ?_) fun before after hmarks => ?_⟩
      · refine hclosed other hother ?_
        rw [hcalls, callIds, filterMap_cons_some hid]
        exact mem_cons_of_mem id hmem
      · have := hunsplit (.call call :: before) after (by rw [hmarks, cons_append])
        change ∀ id ∈ callIds (calls.read ++ (call :: callsIn before)), _ at this
        rwa [append_cons] at this

theorem allowed_of_unsplit {marks : List Mark} (hnamed : AllNamed marks) (hargs : ArgsGiven marks)
    (hunsplit : Unsplit marks) : Calls.Allowed ⟨[], []⟩ marks :=
  allowed_from hnamed hargs (fun _ hid => nomatch hid) fun before after hmarks id hid =>
    hunsplit before after hmarks id (by rwa [nil_append] at hid)

/-! ## Parts -/

/-- The emitter takes the calls from the one to the other. -/
abbrev TakesCalls (calls calls' : Calls) (f : Writing) : Prop := Emitter.Takes (Collected calls) (Collected calls') f

section
variable {calls : Calls}

theorem closeTextBlock_calls : TakesCalls calls calls closeTextBlock :=
  takes_collected closeTextBlock_leaves (fun _ => ⟨rfl, rfl⟩) (by decide)

theorem closeThinkingBlock_calls : TakesCalls calls calls closeThinkingBlock :=
  takes_collected closeThinkingBlock_leaves (fun _ => ⟨rfl, rfl⟩) (by decide)

theorem closeToolBlocks_calls : TakesCalls calls (calls.move .boundary) closeToolBlocks :=
  fun _ _ h => h.closeToolBlocks.1

theorem ensureMessageStart_calls (event : Event) : TakesCalls calls calls (ensureMessageStart event) :=
  takes_collected (ensureMessageStart_leaves event) (fun _ => ⟨rfl, rfl⟩) (by decide)

theorem emitGroundingCitations_calls : TakesCalls calls calls emitGroundingCitations :=
  takes_collected emitGroundingCitations_leaves (fun _ => ⟨rfl, rfl⟩) (by decide)

theorem silent_calls {change : GeminiAnthropicState → GeminiAnthropicState}
    (htools : ∀ s, (change s).tools = s.tools) (horder : ∀ s, (change s).toolOrder = s.toolOrder) :
    TakesCalls calls calls (silent change) := by
  exact takes_silent fun s written h => h.of_tools (htools s) (horder s)

theorem openTextBlock_calls : TakesCalls calls calls openTextBlock :=
  takes_collected openTextBlock_leaves (fun _ => ⟨rfl, rfl⟩) (by decide)

theorem fillTextBlock_calls (partIndex : ℕ) (text : String) : TakesCalls calls calls (fillTextBlock partIndex text) :=
  takes_collected (fillTextBlock_leaves partIndex text) (fun _ => ⟨rfl, rfl⟩) (by decide)

theorem textDelta_calls (partIndex : ℕ) (text : String) :
    TakesCalls calls (calls.move .boundary) (textDelta partIndex text) :=
  closeThinkingBlock_calls.andThen (closeToolBlocks_calls.andThen
    (openTextBlock_calls.andThen (fillTextBlock_calls partIndex text)))

theorem closeResignedBlock_calls (signature : Option String) : TakesCalls calls calls (closeResignedBlock signature) :=
  takes_collected (closeResignedBlock_leaves signature) (fun _ => ⟨rfl, rfl⟩) (by decide)

theorem openThinkingBlock_calls : TakesCalls calls calls openThinkingBlock :=
  takes_collected openThinkingBlock_leaves (fun _ => ⟨rfl, rfl⟩) (by decide)

theorem fillThinkingBlock_calls (text : Option String) : TakesCalls calls calls (fillThinkingBlock text) :=
  takes_collected (fillThinkingBlock_leaves text) (fun _ => ⟨rfl, rfl⟩) (by decide)

theorem thinkingDelta_calls (part : Part) : TakesCalls calls (calls.move .boundary) (thinkingDelta part) :=
  closeTextBlock_calls.andThen (closeToolBlocks_calls.andThen ((closeResignedBlock_calls part.signature).andThen
    (openThinkingBlock_calls.andThen ((fillThinkingBlock_calls part.text).andThen
      (silent_calls (fun _ => rfl) fun _ => rfl)))))

theorem writeText_calls (partIndex : ℕ) (part : Part) :
    TakesCalls calls (run move calls (if part.writes then [.boundary] else [])) (writeText partIndex part) := by
  unfold writeText Part.writes
  cases part.thought with
  | true =>
    cases part.hasThinking with
    | true => exact thinkingDelta_calls part
    | false => exact takes_skip
  | false =>
    cases part.text with
    | some text => exact textDelta_calls partIndex text
    | none => exact takes_skip

theorem writeCall_calls (candidateIndex : ℤ) (before : List Part) (part : Part)
    (h : calls.Allowed (part.functionCall.toList.map Mark.call)) :
    TakesCalls calls (run move calls (part.functionCall.toList.map Mark.call))
      (writeCall candidateIndex before part) := by
  unfold writeCall
  cases hcall : part.functionCall with
  | none => exact takes_skip
  | some call =>
    rw [hcall] at h
    obtain ⟨⟨id, hid, hopen⟩, hargs⟩ := h.1
    exact closeTextBlock_calls.andThen (closeThinkingBlock_calls.andThen
      (takes_silent fun s written hs => hs.recordCall part.signature hid hargs hopen candidateIndex
        before.length (occurrence before call.toolName)))

theorem writeParts_calls (candidateIndex : ℤ) (before parts : List Part)
    (h : calls.Allowed (parts.flatMap Part.marks)) :
    TakesCalls calls (run Calls.move calls (parts.flatMap Part.marks)) (writeParts candidateIndex before parts) := by
  induction parts generalizing calls before with
  | nil => exact takes_skip
  | cons part parts ih =>
    rw [flatMap_cons, Part.marks] at h ⊢
    obtain ⟨hpart, hrest⟩ := EachStep.append.mp h
    obtain ⟨_, hcall⟩ := EachStep.append.mp hpart
    rw [run_append, run_append]
    rw [run_append] at hrest
    exact ((writeText_calls before.length part).andThen (writeCall_calls candidateIndex before part hcall)).andThen
      (ih (before ++ [part]) hrest)

theorem emitGroundingSearch_calls {s : GeminiAnthropicState} {written : List StreamFrame}
    (h : Collected calls s written) : Collected (run move calls
      (if !s.groundingSearchEmitted && s.grounding.hasWebGrounding then [.boundary] else []))
      (emitGroundingSearch s).1 (written ++ (emitGroundingSearch s).2) := by
  unfold emitGroundingSearch
  cases hemitted : s.groundingSearchEmitted with
  | true =>
    rw [Bool.true_or, if_pos rfl, Bool.not_true, Bool.false_and, if_neg Bool.false_ne_true]
    exact takes_skip s written h
  | false =>
    cases hweb : s.grounding.hasWebGrounding with
    | false =>
      rw [Bool.not_false, Bool.or_true, if_pos rfl, Bool.and_false, if_neg Bool.false_ne_true]
      exact takes_skip s written h
    | true =>
      rw [Bool.not_true, Bool.or_false, if_neg Bool.false_ne_true, Bool.and_true, Bool.not_false, if_pos rfl]
      have hstart : Collected calls { s with groundingSearchEmitted := true, sawContent := true } written :=
        h.of_tools rfl rfl
      have hblocks : TakesCalls (calls.move .boundary) (calls.move .boundary) searchBlocks :=
        takes_collected searchBlocks_leaves (fun _ => ⟨rfl, rfl⟩) (by decide)
      exact (closeThinkingBlock_calls.andThen (closeTextBlock_calls.andThen
        (closeToolBlocks_calls.andThen hblocks))) _ written hstart

end

/-! ## Events -/

def searchMarks (s : GeminiAnthropicState) : List Mark :=
  if !s.groundingSearchEmitted && s.grounding.hasWebGrounding then [.boundary] else []

theorem searchMarks_congr {s s' : GeminiAnthropicState} (h : control s = control s') :
    searchMarks s = searchMarks s' := by
  have hemitted := congrArg GeminiAnthropicState.groundingSearchEmitted h
  have hgrounding := congrArg GeminiAnthropicState.grounding h
  change s.groundingSearchEmitted = s'.groundingSearchEmitted at hemitted
  change s.grounding = s'.grounding at hgrounding
  unfold searchMarks
  rw [hemitted, hgrounding]

def searched (s : GeminiAnthropicState) : GeminiAnthropicState :=
  { s with groundingSearchEmitted := s.groundingSearchEmitted || s.grounding.hasWebGrounding }

theorem citedSearch_control (s : GeminiAnthropicState) :
    control ((emitGroundingCitations.andThen emitGroundingSearch) s).1 = searched (control s) := by
  have hcited := (emitGroundingCitations_control s).1
  rw [andThen_fst, emitGroundingSearch_control]
  exact congrArg searched hcited

theorem emitGrounding_control (s : GeminiAnthropicState) : control (emitGrounding s).1 = searched (control s) := by
  unfold emitGrounding
  split
  · exact citedSearch_control s
  · exact emitGroundingSearch_control s

section
variable {calls : Calls} {s : GeminiAnthropicState} {written : List StreamFrame}

theorem citedSearch_calls (h : Collected calls s written) :
    Collected (run move calls (searchMarks s)) ((emitGroundingCitations.andThen emitGroundingSearch) s).1
      (written ++ ((emitGroundingCitations.andThen emitGroundingSearch) s).2) := by
  have hcited := emitGroundingSearch_calls (emitGroundingCitations_calls s written h)
  rw [append_assoc] at hcited
  have hmarks := searchMarks_congr (emitGroundingCitations_control s).1
  rw [← hmarks]
  exact hcited

theorem emitGrounding_calls (h : Collected calls s written) :
    Collected (run move calls (searchMarks s)) (emitGrounding s).1 (written ++ (emitGrounding s).2) := by
  unfold emitGrounding
  split
  · exact citedSearch_calls h
  · exact emitGroundingSearch_calls h

theorem transformParts_calls (event : Event) (candidate : Option Candidate) (h : Collected calls s written)
    (hallowed : calls.Allowed (searchMarks s ++ (candidate.elim [] Candidate.parts).flatMap Part.marks)) :
    Collected (run Calls.move calls (searchMarks s ++ (candidate.elim [] Candidate.parts).flatMap Part.marks))
      (transformParts event candidate s).1 (written ++ (transformParts event candidate s).2) := by
  have hstart := ensureMessageStart_calls event s written h
  have hmarks := searchMarks_congr (ensureMessageStart_control event s).1
  have hgrounding := emitGrounding_calls hstart
  rw [hmarks] at hgrounding
  obtain ⟨_, hparts⟩ := EachStep.append.mp hallowed
  have hrest : TakesCalls (run move calls (searchMarks s)) (run move (run move calls (searchMarks s))
      ((candidate.elim [] parts).flatMap Part.marks))
      ((candidate.elim skip fun candidate => writeParts candidate.index [] candidate.parts).andThen
        (emitGroundingCitations.andThen (silent (setFinish (candidate.bind finishReason))))) := by
    refine Emitter.Takes.andThen ?_ (emitGroundingCitations_calls.andThen (silent_calls (fun _ => rfl) fun _ => rfl))
    cases candidate with
    | none => exact takes_skip
    | some candidate => exact writeParts_calls candidate.index [] candidate.parts hparts
  have hdone := hrest _ _ hgrounding
  rw [run_append]
  rw [append_assoc, append_assoc] at hdone
  exact hdone

theorem transformParts_control (event : Event) (candidate : Option Candidate) :
    control (transformParts event candidate s).1 = setFinish (candidate.bind finishReason) (searched (control s)) := by
  have hstart := (ensureMessageStart_control event s).1
  have hgrounding := emitGrounding_control (ensureMessageStart event s).1
  rw [hstart] at hgrounding
  have hparts : LeavesControl ((candidate.elim skip fun candidate =>
      writeParts candidate.index [] candidate.parts).andThen emitGroundingCitations) := by
    refine Emitter.Leaves.andThen ?_ emitGroundingCitations_control
    cases candidate with
    | none => exact leaves_skip
    | some candidate => exact writeParts_control candidate.index [] candidate.parts
  have hdone := (hparts (emitGrounding (ensureMessageStart event s).1).1).1
  rw [hgrounding] at hdone
  rw [← hdone]
  rfl

end

/-- The state of a stream that goes on, as far as it decides which calls are read. -/
structure Follows (selected : Option ℤ) (grounding : GroundingAccumulator) (emitted : Bool)
    (s : GeminiAnthropicState) : Prop where
  selected : s.selectedCandidateIndex = selected
  grounding : s.grounding = grounding
  emitted : s.groundingSearchEmitted = emitted
  pending : s.pendingFinishReason = none
  completed : s.completed = false

/-- The answer has ended, and only the finish is missing. -/
structure Ended (s : GeminiAnthropicState) : Prop where
  pending : s.pendingFinishReason.isSome
  completed : s.completed = false

section
variable {selected : Option ℤ} {grounding : GroundingAccumulator} {emitted : Bool} {calls : Calls}
  {s : GeminiAnthropicState} {written : List StreamFrame}

theorem observe_calls (candidate : Option Candidate) (h : Collected calls s written) :
    Collected calls (observe candidate s) written := by
  exact h.of_tools (by cases candidate <;> rfl) (by cases candidate <;> rfl)

theorem observe_follows (h : Follows selected grounding emitted s) (candidate : Option Candidate) :
    Follows (selectedAfter selected candidate) (groundingAfter grounding candidate) emitted (observe candidate s) := by
  cases candidate with
  | none =>
    refine ⟨?_, h.grounding, h.emitted, h.pending, h.completed⟩
    rw [selectedAfter, Option.map_none, Option.orElse_eq_or, Option.or_none]
    exact h.selected
  | some candidate =>
    refine ⟨?_, ?_, h.emitted, h.pending, h.completed⟩
    · unfold observe selectedAfter
      rw [h.selected]
      cases selected <;> rfl
    · unfold observe groundingAfter
      rw [h.grounding]
      rfl

theorem searchMarks_of_follows (h : Follows selected grounding emitted s) :
    searchMarks s = if !emitted && grounding.hasWebGrounding then [.boundary] else [] := by
  unfold searchMarks
  rw [h.emitted, h.grounding]

/-- An event that does not end the answer is read, and the stream goes on; one that ends it is read too. -/
theorem transformNow_spec (event : Event) (hfollows : Follows selected grounding emitted s)
    (h : Collected calls s written) {candidate : Option Candidate}
    (hcandidate : selectedGeminiCandidate event selected = candidate)
    (hallowed : calls.Allowed (eventMarks grounding emitted candidate)) :
    (∃ calls', Collected calls' (transformNow event s).1 (written ++ (transformNow event s).2) ∧
      calls'.read = (run Calls.move calls (eventMarks grounding emitted candidate)).read ∧
      (isTerminal event candidate = false → calls' = run Calls.move calls (eventMarks grounding emitted candidate))) ∧
    if isTerminal event candidate then Ended (transformNow event s).1
    else Follows (selectedAfter selected candidate) (groundingAfter grounding candidate)
      (emitted || (groundingAfter grounding candidate).hasWebGrounding) (transformNow event s).1 := by
  have hnow : transformNow event s = transformObserved event candidate (observe candidate s) := by
    unfold transformNow
    rw [hfollows.completed, if_neg Bool.false_ne_true, hfollows.selected, hcandidate]
  rw [hnow]
  have hobserved := observe_follows hfollows candidate
  have hcollected := observe_calls candidate h
  generalize observe candidate s = t at hobserved hcollected
  unfold transformObserved
  rw [hobserved.pending, Option.isSome_none, if_neg Bool.false_ne_true]
  have hmarks := searchMarks_of_follows hobserved
  cases hblocked : if candidate.isNone then event.blockReason else none with
  | some reason =>
    obtain rfl : candidate = none := by
      cases candidate with
      | none => rfl
      | some _ => cases hblocked
    have hreason : event.blockReason = some reason := hblocked
    have hterminal : isTerminal event none = true := by
      unfold isTerminal
      rw [hreason]
      rfl
    rw [hterminal, if_pos rfl]
    have hstart := ensureMessageStart_calls event t written hcollected
    have hkept : Collected calls (blockPrompt reason (ensureMessageStart event t).1)
        (written ++ (ensureMessageStart event t).2) := hstart.of_tools rfl rfl
    have hcompleted := congrArg GeminiAnthropicState.completed (ensureMessageStart_control event t).1
    refine ⟨⟨calls, ?_, ?_, fun hfalse => (Bool.false_ne_true hfalse.symm).elim⟩, rfl,
      hcompleted.trans hobserved.completed⟩
    · have hframes : ((ensureMessageStart event).andThen (Emitter.silent (blockPrompt reason)) t).2 =
          (ensureMessageStart event t).2 := List.append_nil _
      rw [hframes]
      exact hkept
    · rw [read_run]
      unfold eventMarks
      split <;> exact (List.append_nil _).symm
  | none =>
    have hterminal : isTerminal event candidate = (candidate.bind Candidate.finishReason).isSome := by
      unfold isTerminal
      cases candidate with
      | none =>
        have hreason : event.blockReason = none := hblocked
        rw [hreason]
        rfl
      | some candidate => exact Bool.or_false _
    rw [hterminal]
    simp only
    split
    · rename_i hskip
      obtain ⟨hparts, hfinish, hweb⟩ := hskip
      rw [hobserved.grounding] at hweb
      rw [Option.isNone_iff_eq_none] at hfinish
      have hnone : eventMarks grounding emitted candidate = [] := by
        unfold eventMarks
        rw [hweb, Bool.and_false, if_neg Bool.false_ne_true, List.isEmpty_iff.mp hparts]
        rfl
      rw [hnone, hfinish, Option.isSome_none, if_neg Bool.false_ne_true, hweb, Bool.or_false]
      refine ⟨⟨calls, ?_, rfl, fun _ => rfl⟩, hobserved⟩
      exact Emitter.takes_skip t written hcollected
    · have hallowed' : calls.Allowed (searchMarks t ++ (candidate.elim [] Candidate.parts).flatMap Part.marks) := by
        rw [hmarks]
        exact hallowed
      have hdone := transformParts_calls event candidate hcollected hallowed'
      have hcontrol := transformParts_control (s := t) event candidate
      rw [hmarks] at hdone
      refine ⟨⟨_, hdone, rfl, fun _ => rfl⟩, ?_⟩
      have hpending := congrArg GeminiAnthropicState.pendingFinishReason hcontrol
      have hcompleted := congrArg GeminiAnthropicState.completed hcontrol
      have hselected := congrArg GeminiAnthropicState.selectedCandidateIndex hcontrol
      have hgrounding := congrArg GeminiAnthropicState.grounding hcontrol
      have hemitted := congrArg GeminiAnthropicState.groundingSearchEmitted hcontrol
      change (transformParts event candidate t).1.pendingFinishReason =
        (candidate.bind Candidate.finishReason).orElse fun _ => t.pendingFinishReason at hpending
      change (transformParts event candidate t).1.groundingSearchEmitted =
        (t.groundingSearchEmitted || t.grounding.hasWebGrounding) at hemitted
      rw [hobserved.pending, Option.orElse_eq_or, Option.or_none] at hpending
      rw [hobserved.emitted, hobserved.grounding] at hemitted
      cases hfinish : candidate.bind Candidate.finishReason with
      | some reason =>
        rw [hfinish] at hpending
        exact ⟨Option.isSome_of_eq_some hpending, hcompleted.trans hobserved.completed⟩
      | none =>
        rw [hfinish] at hpending
        exact ⟨hselected.trans hobserved.selected, hgrounding.trans hobserved.grounding, hemitted, hpending,
          hcompleted.trans hobserved.completed⟩

end

end CcSwitchServer.GeminiStream
