import CcSwitchServer.GeminiStream.ToolStreams

/-! # The tool blocks of a stream

What was held back is transformed later, with the grounding that released it.
-/

namespace CcSwitchServer.GeminiStream
open Foundations List GeminiAnthropicState Option Emitter Event

/-! ## Behind the end -/

def Calls.close (calls : Calls) : Calls := ⟨calls.read, callIds calls.read⟩

theorem run_close (calls : Calls) {marks : List Mark} (h : ∀ mark ∈ marks, mark = .boundary) :
    run Calls.move calls.close marks = calls.close := by
  induction marks with
  | nil => rfl
  | cons mark marks ih =>
    obtain rfl := h mark mem_cons_self
    exact ih fun mark' hmark' => h mark' (mem_cons_of_mem _ hmark')

theorem searchMarks_boundary (s : GeminiAnthropicState) : ∀ mark ∈ searchMarks s, mark = .boundary := by
  intro mark hmark
  unfold searchMarks at hmark
  split at hmark
  · exact mem_singleton.mp hmark
  · cases hmark

section
variable {calls : Calls} {s : GeminiAnthropicState} {written : List StreamFrame}

theorem citedSearch_closed : TakesCalls calls.close calls.close
    (emitGroundingCitations.andThen emitGroundingSearch) := by
  intro s written h
  have := citedSearch_calls h
  rwa [run_close calls (searchMarks_boundary s)] at this

theorem citedSearch_ended (h : Ended s) : Ended ((emitGroundingCitations.andThen emitGroundingSearch) s).1 := by
  have hcontrol := citedSearch_control s
  have hpending := congrArg pendingFinishReason hcontrol
  have hcompleted := congrArg completed hcontrol
  change _ = s.pendingFinishReason at hpending
  exact ⟨(congrArg isSome hpending).trans h.pending, hcompleted.trans h.completed⟩

theorem observe_ended (h : Ended s) (candidate : Option Candidate) : Ended (observe candidate s) := by
  cases candidate with
  | none => exact h
  | some candidate => exact ⟨h.pending, h.completed⟩

theorem ensureMessageStart_ended (h : Ended s) (event : Event) : Ended (ensureMessageStart event s).1 := by
  have hcontrol := (ensureMessageStart_control event s).1
  have hpending := congrArg pendingFinishReason hcontrol
  have hcompleted := congrArg completed hcontrol
  change _ = s.pendingFinishReason at hpending
  exact ⟨(congrArg isSome hpending).trans h.pending, hcompleted.trans h.completed⟩

theorem transformNow_ended (event : Event) (hended : Ended s) (h : Collected calls.close s written) :
    Ended (transformNow event s).1 ∧
      Collected calls.close (transformNow event s).1 (written ++ (transformNow event s).2) := by
  have hobserved := observe_ended hended (selectedGeminiCandidate event s.selectedCandidateIndex)
  have hcollected := observe_calls (selectedGeminiCandidate event s.selectedCandidateIndex) h
  unfold transformNow
  rw [hended.completed, if_neg Bool.false_ne_true]
  simp only
  generalize observe (selectedGeminiCandidate event s.selectedCandidateIndex) s = t at hobserved hcollected
  unfold transformObserved
  rw [if_pos hobserved.pending]
  unfold transformFinished
  split
  · exact ⟨citedSearch_ended (ensureMessageStart_ended hobserved event),
      ((ensureMessageStart_calls event).andThen citedSearch_closed) t written hcollected⟩
  · exact ⟨citedSearch_ended hobserved, (takes_skip.andThen citedSearch_closed) t written hcollected⟩

theorem events_ended (events : List Event) (hended : Ended s) (h : Collected calls.close s written) :
    Ended (each transformNow events s).1 ∧ Collected calls.close (each transformNow events s).1
      (written ++ (each transformNow events s).2) := by
  induction events generalizing s written with
  | nil => exact ⟨hended, takes_skip s written h⟩
  | cons event events ih =>
    obtain ⟨hnext, hcollected⟩ := transformNow_ended event hended h
    have hrest := ih hnext hcollected
    rwa [append_assoc] at hrest

end

/-! ## The events of a stream -/

variable {calls : Calls} {s : GeminiAnthropicState} {written : List StreamFrame}

variable (events : List Event)

/-- The events of a stream write the blocks of the calls that they carry. -/
theorem events_spec {selected : Option ℤ} {grounding : GroundingAccumulator}
    {emitted : Bool} (hfollows : Follows selected grounding emitted s) (h : Collected calls s written)
    (hallowed : calls.Allowed (marks selected grounding emitted events)) (hends : ends selected events = true) :
    Ended (each transformNow events s).1 ∧ ∃ calls' : Calls,
      Collected calls'.close (each transformNow events s).1 (written ++ (each transformNow events s).2) ∧
      calls'.read = calls.read ++ callsIn (marks selected grounding emitted events) := by
  induction events generalizing selected grounding emitted calls s written with
  | nil => cases hends
  | cons event events ih =>
    obtain ⟨candidate, hcandidate⟩ : ∃ candidate, selectedGeminiCandidate event selected = candidate := ⟨_, rfl⟩
    rw [marks, hcandidate] at hallowed ⊢
    rw [ends, hcandidate] at hends
    obtain ⟨hevent, hlater⟩ := EachStep.append.mp hallowed
    obtain ⟨⟨calls', hcollected, hread, hgoes⟩, hstate⟩ := transformNow_spec event hfollows h hcandidate hevent
    rw [each_cons, andThen_fst, andThen_snd, ← append_assoc]
    rw [read_run] at hread
    cases hterminal : isTerminal event candidate with
    | true =>
      rw [hterminal, if_pos rfl] at hstate
      obtain ⟨hended, hdone⟩ := events_ended events hstate hcollected.close
      refine ⟨hended, calls', hdone, ?_⟩
      rw [if_pos rfl, append_nil]
      exact hread
    | false =>
      rw [hterminal, if_neg Bool.false_ne_true] at hstate
      rw [hterminal, Bool.false_or] at hends
      rw [hterminal, if_neg Bool.false_ne_true] at hlater
      have hcalls := hgoes hterminal
      subst hcalls
      obtain ⟨hended, calls'', hdone, hrest⟩ := ih hstate hcollected hlater hends
      refine ⟨hended, calls'', hdone, ?_⟩
      rw [hrest, read_run, if_neg Bool.false_ne_true, append_assoc]
      exact congrArg (calls.read ++ ·) filterMap_append.symm

/-! ## The finish -/

theorem closeContent_calls : TakesCalls calls calls closeContent := by
  intro s written h
  unfold closeContent
  split
  · refine h.congr rfl rfl fun frame hframe hkind => ?_
    rcases mem_cons.mp hframe with rfl | hframe
    · cases hkind
    · obtain rfl := mem_singleton.mp hframe
      cases hkind
  · exact (closeTextBlock_calls.andThen closeThinkingBlock_calls) s written h

theorem finish_toolUses (reason : String) (h : Collected calls.close s written) :
    toolUses (written ++ (finish reason s).2) = expectedUses calls.read := by
  have hcited := citedSearch_closed s written h
  have hclosed := closeContent_calls _ _ hcited
  generalize hsearch : (emitGroundingCitations.andThen emitGroundingSearch) s = search at hcited hclosed
  generalize hcontent : closeContent search.1 = content at hclosed
  obtain ⟨hcollected, huses⟩ := hclosed.closeToolBlocks
  have hframes : (finish reason s).2 = search.2 ++ (content.2 ++ ((closeToolBlocks content.1).2 ++
      (endMessage reason (closeToolBlocks content.1).1).2)) := by
    rw [finish, ← andThen_assoc, andThen_snd, hsearch, andThen_snd, hcontent]
    rfl
  have hlast : ∀ frame ∈ (endMessage reason (closeToolBlocks content.1).1).2, frame.kind ≠ .toolUse := by
    intro frame hframe hkind
    rcases mem_cons.mp hframe with rfl | hframe
    · cases hkind
    · obtain rfl := mem_singleton.mp hframe
      cases hkind
  obtain ⟨hnone, _⟩ := toolUses_of_kind hlast
  rw [hframes, ← append_assoc, ← append_assoc, ← append_assoc, toolUses_append hcollected.stopped, hnone, append_nil]
  exact huses

/-! ## Streams that are held back -/

/-- What decides whether events are held back. -/
def gate (s : GeminiAnthropicState) : Bool × Bool × Bool := (s.webSearchExpected, s.webSearchGateResolved, s.completed)

theorem transformNow_gate (event : Event) (s : GeminiAnthropicState) : gate (transformNow event s).1 = gate s := by
  unfold transformNow
  split
  · rfl
  · simp only
    have hobserve : gate (observe (selectedGeminiCandidate event s.selectedCandidateIndex) s) = gate s := by
      cases selectedGeminiCandidate event s.selectedCandidateIndex <;> rfl
    rw [← hobserve]
    generalize observe (selectedGeminiCandidate event s.selectedCandidateIndex) s = t
    unfold transformObserved
    split
    · unfold transformFinished
      split
      · have hstart := congrArg gate (ensureMessageStart_control event t).1
        have hsearch := congrArg gate (citedSearch_control (ensureMessageStart event t).1)
        exact Eq.trans hsearch hstart
      · have hsearch := congrArg gate (citedSearch_control t)
        exact hsearch
    · split
      · have hstart := congrArg gate (ensureMessageStart_control event t).1
        exact hstart
      · split
        · rfl
        · have hparts := congrArg gate (transformParts_control (s := t) event
            (selectedGeminiCandidate event s.selectedCandidateIndex))
          exact hparts

theorem events_gate (s : GeminiAnthropicState) : gate (each transformNow events s).1 = gate s := by
  induction events generalizing s with
  | nil => rfl
  | cons event events ih =>
    rw [each_cons, andThen_fst, ih, transformNow_gate]

theorem heldBack_of_gate {s' : GeminiAnthropicState} (h : gate s = gate s') : heldBack s = heldBack s' := by
  obtain ⟨hexpected, hresolved, _⟩ := Prod.mk.injEq .. ▸ Prod.mk.injEq .. ▸ h
  unfold heldBack
  rw [hexpected, hresolved]

theorem transform_released {event : Event} (h : heldBack s = false) : transform event s = transformNow event s := by
  unfold transform
  rw [h]
  split
  · rename_i hcompleted
    unfold transformNow
    rw [if_pos hcompleted]
  · rfl

theorem events_released {events : List Event} (h : heldBack s = false) :
    each transform events s = each transformNow events s := by
  induction events generalizing s with
  | nil => rfl
  | cons event events ih =>
    have hnext : heldBack (transformNow event s).1 = false := (heldBack_of_gate (transformNow_gate event s)).trans h
    rw [each_cons, each_cons]
    unfold andThen
    rw [transform_released h, ih hnext]

/-- The grounding that releases a stream: that of the first event which has some or ends the waiting. -/
def releaseGrounding : List Event → GroundingAccumulator
  | [] => {}
  | event :: events =>
    let candidate := selectedGeminiCandidate event none
    if candidate.any fun candidate => candidate.observed.hasWebGrounding then
      (candidate.bind Candidate.grounding).elim {} ({} : GroundingAccumulator).observeMetadata
    else if isTerminal event candidate then {}
    else releaseGrounding events

variable (expected : Bool)

/-- The grounding that the first event of the stream is transformed with. -/
def startGrounding (events : List Event) : GroundingAccumulator :=
  if expected then releaseGrounding events else {}

variable (grounding : GroundingAccumulator)

def released : GeminiAnthropicState :=
  { webSearchExpected := expected, webSearchGateResolved := true, grounding := grounding }

def holding : GeminiAnthropicState :=
  { webSearchExpected := true, webSearchGateResolved := false, bufferedWebSearchInputs := events }

theorem heldBack_released : heldBack (released expected grounding) = false := by
  unfold heldBack released
  rw [Bool.not_true, Bool.and_false]

theorem release_holding (grounding : Option Json) : release grounding (holding events) =
    released true (grounding.elim {} ({} : GroundingAccumulator).observeMetadata) := by
  cases grounding <;> rfl

theorem releaseBuffered_released (h : heldBack s = false) : releaseBuffered s = (s, []) := by
  unfold releaseBuffered
  rw [h]
  rfl

theorem holding_events (events held : List Event) :
    ((each transform events).andThen releaseBuffered) (holding held) =
      each transformNow (held ++ events) (released true (releaseGrounding events)) := by
  induction events generalizing held with
  | nil =>
    rw [each_nil, skip_andThen, append_nil, releaseGrounding]
    have hheld : heldBack (holding held) = true := rfl
    unfold releaseBuffered
    rw [if_pos hheld, release_holding]
    rfl
  | cons event events ih =>
    rw [each_cons, andThen_assoc]
    have hstep : transform event (holding held) =
        if (!(selectedGeminiCandidate event none).any fun candidate => candidate.observed.hasWebGrounding) &&
            !isTerminal event (selectedGeminiCandidate event none) then (holding (held ++ [event]), [])
        else each transformNow (held ++ [event]) (release
          (if (selectedGeminiCandidate event none).any fun candidate => candidate.observed.hasWebGrounding then
            (selectedGeminiCandidate event none).bind Candidate.grounding else none) (holding held)) := rfl
    have hthen : ∀ grounding, transform event (holding held) =
        each transformNow (held ++ [event]) (released true grounding) →
        ((transform event).andThen ((each transform events).andThen releaseBuffered)) (holding held) =
          each transformNow (held ++ event :: events) (released true grounding) := by
      intro grounding htransform
      have hgate : heldBack (each transformNow (held ++ [event]) (released true grounding)).1 = false :=
        (heldBack_of_gate (events_gate _ _)).trans (heldBack_released true grounding)
      have hlast : heldBack (each transformNow events
          (each transformNow (held ++ [event]) (released true grounding)).1).1 = false :=
        (heldBack_of_gate (events_gate _ _)).trans hgate
      have hsplit : held ++ event :: events = (held ++ [event]) ++ events := append_cons held event events
      rw [hsplit, each_append]
      unfold andThen
      simp only [htransform, events_released hgate, releaseBuffered_released hlast, append_nil]
    rw [releaseGrounding]
    cases hgrounded : (selectedGeminiCandidate event none).any fun candidate => candidate.observed.hasWebGrounding with
    | true =>
      rw [if_pos rfl]
      refine hthen _ ?_
      rw [hstep, hgrounded, Bool.not_true, Bool.false_and, if_neg Bool.false_ne_true, if_pos rfl, release_holding]
    | false =>
      rw [if_neg Bool.false_ne_true]
      rw [hgrounded, Bool.not_false, Bool.true_and, if_neg Bool.false_ne_true] at hstep
      cases hterminal : isTerminal event (selectedGeminiCandidate event none) with
      | true =>
        rw [if_pos rfl]
        refine hthen _ ?_
        rw [hstep, hterminal, Bool.not_true, if_neg Bool.false_ne_true, release_holding]
        rfl
      | false =>
        rw [hterminal, Bool.not_false, if_pos rfl] at hstep
        rw [if_neg Bool.false_ne_true]
        have hrest := ih (held ++ [event])
        rw [← append_cons] at hrest
        rw [← hrest]
        unfold andThen
        simp only [hstep, nil_append]

theorem transform_events (events : List Event) :
    ((each transform events).andThen releaseBuffered) (withWebSearchExpected expected) =
      each transformNow events (released expected (startGrounding expected events)) := by
  cases expected with
  | true => exact holding_events events []
  | false =>
    have hfree : heldBack (withWebSearchExpected false) = false := rfl
    have hlast : heldBack (each transformNow events (withWebSearchExpected false)).1 = false :=
      (heldBack_of_gate (events_gate _ _)).trans hfree
    unfold andThen
    simp only [events_released hfree, releaseBuffered_released hlast, append_nil]
    rfl

/-! ## Arguments that were read -/

theorem read_args (v : Json) : ∀ json ∈ (FunctionCall.read v).args, json.isNull = false := by
  intro json hjson
  obtain ⟨_, hnull⟩ := filter_eq_some_iff.mp hjson
  exact Bool.not_eq_true' _ |>.mp hnull

theorem read_parts {v : Json} {position : ℕ} {part : Part} (h : part ∈ (Candidate.read position v).parts) :
    ∀ call ∈ part.functionCall, ∀ json ∈ call.args, json.isNull = false := by
  obtain ⟨value, _, rfl⟩ := mem_map.mp h
  intro call hcall
  obtain ⟨read, _, rfl⟩ := map_eq_some_iff.mp hcall
  exact read_args read

theorem selected_mem {event : Event} {selected : Option ℤ} {candidate : Candidate}
    (h : selectedGeminiCandidate event selected = some candidate) : candidate ∈ event.candidates := by
  unfold selectedGeminiCandidate at h
  cases hfound : event.candidates.find? fun candidate => candidate.index = selected.getD 0 with
  | some found =>
    rw [hfound] at h
    obtain rfl := some.inj h
    exact mem_of_find?_eq_some hfound
  | none =>
    rw [hfound, orElse_none] at h
    split at h
    · exact mem_of_mem_head? h
    · cases h

theorem callsIn_append (marks marks' : List Mark) : callsIn (marks ++ marks') = callsIn marks ++ callsIn marks' :=
  filterMap_append

theorem callsIn_parts {parts : List Part} {call : FunctionCall} (h : call ∈ callsIn (parts.flatMap Part.marks)) :
    ∃ part ∈ parts, call ∈ part.functionCall := by
  obtain ⟨mark, hmark, hcall⟩ := mem_filterMap.mp h
  obtain ⟨part, hpart, hmem⟩ := mem_flatMap.mp hmark
  refine ⟨part, hpart, ?_⟩
  rcases mem_append.mp hmem with hboundary | hread
  · split at hboundary
    · rw [mem_singleton.mp hboundary] at hcall
      cases hcall
    · cases hboundary
  · obtain ⟨found, hfound, rfl⟩ := mem_map.mp hread
    cases hcall
    exact mem_toList.mp hfound

theorem argsGiven_read (inputs : List Json) (selected : Option ℤ) (grounding : GroundingAccumulator)
    (emitted : Bool) : ArgsGiven (marks selected grounding emitted (inputs.map read)) := by
  induction inputs generalizing selected grounding emitted with
  | nil => exact fun _ hcall => nomatch hcall
  | cons input inputs ih =>
    intro call hcall
    rw [map_cons, marks, callsIn_append, mem_append] at hcall
    rcases hcall with hcall | hcall
    · unfold eventMarks at hcall
      rw [callsIn_append, mem_append] at hcall
      rcases hcall with hcall | hcall
      · split at hcall <;> cases hcall
      · obtain ⟨part, hpart, hread⟩ := callsIn_parts hcall
        cases hselected : selectedGeminiCandidate (read input) selected with
        | none =>
          rw [hselected] at hpart
          cases hpart
        | some candidate =>
          rw [hselected] at hpart
          obtain ⟨position, value, rfl⟩ := mem_mapIdx.mp (selected_mem hselected)
          exact read_parts hpart call hread
    · split at hcall
      · cases hcall
      · exact ih _ _ _ call hcall

/-! ## The whole stream -/

theorem collected_start : Collected ⟨[], []⟩ (released expected grounding) [] where
  stopped := trivial
  order := nodup_nil
  keys := fun _ => ⟨fun h => (Bool.false_ne_true h).elim, fun h => nomatch h⟩
  allExplicit := fun _ _ h => nomatch h
  arguments := fun _ _ h => nomatch h
  uses := rfl
  behind := fun _ h => nomatch h

theorem releaseBuffered_completed (s : GeminiAnthropicState) : (releaseBuffered s).1.completed = s.completed := by
  unfold releaseBuffered
  split
  · have hgate := congrArg (fun g : Bool × Bool × Bool => g.2.2)
      (events_gate s.bufferedWebSearchInputs (release none s))
    exact hgate
  · rfl

theorem finishStream_ended {reason : String} (hbefore : s.completed = false)
    (hcompleted : (releaseBuffered s).1.completed = false)
    (hpending : (releaseBuffered s).1.pendingFinishReason = some reason) :
    finishStream s = .ok ((finish reason { (releaseBuffered s).1 with pendingFinishReason := none }).1,
      (releaseBuffered s).2 ++ (finish reason { (releaseBuffered s).1 with pendingFinishReason := none }).2) := by
  unfold finishStream
  rw [hbefore, if_neg Bool.false_ne_true]
  simp only [hcompleted, hpending]
  rfl

theorem transformStream_ended {expected : Bool} {events : List Event} {last : GeminiAnthropicState} {reason : String}
    (h : each transformNow events (released expected (startGrounding expected events)) = (last, written))
    (hpending : last.pendingFinishReason = some reason) (hcompleted : last.completed = false) :
    transformStream expected events =
      .ok (written ++ (finish reason { last with pendingFinishReason := none }).2) := by
  have hall := transform_events expected events
  rw [h] at hall
  obtain ⟨hstate, hframes⟩ := Prod.mk.inj hall
  have hbefore := (releaseBuffered_completed (each transform events (withWebSearchExpected expected)).1).symm
  rw [hstate, hcompleted] at hbefore
  have hfinish := finishStream_ended hbefore (hstate ▸ hcompleted) (hstate ▸ hpending)
  change ((finishStream (each transform events (withWebSearchExpected expected)).1).bind fun finished =>
    .ok ((each transform events (withWebSearchExpected expected)).2 ++ finished.2)) = _
  rw [hfinish, hstate]
  change Except.ok (_ ++ (_ ++ _)) = _
  rw [← append_assoc, hframes]

/-- In a stream that ends, whose calls all carry ids and have no parts on both sides of a boundary, every id becomes
one tool block, in the order of first appearance and with the merged arguments; a free slot is always found. -/
theorem one_block_per_call (expected : Bool) (inputs : List Json) {events : List Event} {read : List Mark}
    (hevents : events = inputs.map Event.read)
    (hread : read = marks none (startGrounding expected events) false events)
    (hends : ends none events = true) (hnamed : AllNamed read) (hunsplit : Unsplit read) :
    (∃ frames, transformStream expected events = .ok frames ∧ toolUses frames = expectedUses (callsIn read)) ∧
      ∀ (tools : ToolMap) candidateIndex partIndex occurrence, ∃ fuel key,
        vacantSlot tools candidateIndex partIndex fuel occurrence = some key := by
  refine ⟨?_, fun tools candidateIndex partIndex occurrence =>
    ⟨tools.size + 1, vacantSlot_succeeds tools candidateIndex partIndex occurrence⟩⟩
  subst hread hevents
  have hargs := argsGiven_read inputs none (startGrounding expected (inputs.map read)) false
  have hfollows : Follows none (startGrounding expected (inputs.map read)) false
      (released expected (startGrounding expected (inputs.map read))) := ⟨rfl, rfl, rfl, rfl, rfl⟩
  obtain ⟨hended, calls, hcollected, hcalls⟩ := events_spec (inputs.map read) hfollows
    (collected_start expected _) (allowed_of_unsplit hnamed hargs hunsplit) hends
  rw [nil_append] at hcollected hcalls
  obtain ⟨reason, hreason⟩ := isSome_iff_exists.mp hended.pending
  refine ⟨_, transformStream_ended rfl hreason hended.completed, ?_⟩
  have hcleared : Collected calls.close { (each transformNow (inputs.map read)
      (released expected (startGrounding expected (inputs.map read)))).1 with pendingFinishReason := none }
      (each transformNow (inputs.map read)
        (released expected (startGrounding expected (inputs.map read)))).2 := hcollected.of_tools rfl rfl
  rw [finish_toolUses reason hcleared, hcalls]

def partEvent (parts : List Json) (members : List (String × Json)) : Json :=
  .object [("candidates", .array [.object (("content", .object [("parts", .array parts)]) :: members)])]

def callPart (id member : String) : Json :=
  .object [("functionCall", .object [("id", .string id), ("name", .string "look"),
    ("args", .object [(member, .bool true)])])]

theorem one_block_for_two_parts : ∃ frames, transformStream false ([partEvent [.object [("text", .string "so")],
      callPart "a" "x"] [], partEvent [callPart "a" "y"] [("finishReason", .string "STOP")]].map Event.read) =
        .ok frames ∧ (toolUses frames).map ToolUse.id = ["a"] := by
  have hunsplit : Unsplit (marks none {} false ([partEvent [.object [("text", .string "so")], callPart "a" "x"] [],
      partEvent [callPart "a" "y"] [("finishReason", .string "STOP")]].map Event.read)) := by
    intro before after hsplit id hid
    have hmarks : ∃ first second, [Mark.boundary, .call first, .call second] = before ++ .boundary :: after :=
      ⟨_, _, hsplit⟩
    obtain ⟨first, second, hmarks⟩ := hmarks
    rcases before with _ | ⟨_, _ | ⟨_, _ | ⟨_, before⟩⟩⟩
    · cases hid
    · cases hmarks
    · cases hmarks
    · cases before <;> cases hmarks
  obtain ⟨⟨frames, hframes, huses⟩, _⟩ := one_block_per_call false [partEvent [.object [("text", .string "so")],
    callPart "a" "x"] [], partEvent [callPart "a" "y"] [("finishReason", .string "STOP")]] rfl rfl (by decide)
    (by decide) hunsplit
  refine ⟨frames, hframes, ?_⟩
  rw [huses]
  decide

/-- The search is written between the two parts of a call, which becomes two blocks. -/
theorem search_splits_call : ∃ events : List Event,
    events = [partEvent [callPart "a" "x"] [], partEvent [callPart "a" "y"]
      [("groundingMetadata", .object [("webSearchQueries", .array [.string "q"])]),
        ("finishReason", .string "STOP")]].map read ∧
      (∀ event ∈ events, ∀ candidate ∈ event.candidates, ∀ part ∈ candidate.parts, part.writes = false) ∧
      ends none events = true ∧
      ((callsIn (marks none {} false events)).map fun call => (call.id, call.toolName)) =
        [(some "a", "look"), (some "a", "look")] ∧
      (transformStream false events).toOption.map (fun frames => (toolUses frames).map ToolUse.id) = some ["a", "a"] :=
  ⟨_, rfl, by decide, by decide, by decide, by decide⟩

end CcSwitchServer.GeminiStream
