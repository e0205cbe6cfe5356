import CcSwitchServer.GeminiStream.ToolCalls

/-! # One block for every call

The blocks written so far and the calls that wait are the blocks that the calls ask for.
-/

namespace CcSwitchServer.GeminiStream
open Foundations List Option OrderedMap GeminiAnthropicToolState Emitter

/-! ## The slot of a call -/

abbrev ToolMap := OrderedMap GeminiAnthropicToolKey GeminiAnthropicToolState

variable {candidateIndex : ℤ} {partIndex : ℕ}

theorem slotOf_injective : Function.Injective (slotOf candidateIndex partIndex) := by
  intro a b h
  have hinner := (Prod.mk.inj (toLex.injective h)).2
  exact (Prod.mk.inj (toLex.injective hinner)).2

variable {tools : ToolMap} {key : GeminiAnthropicToolKey}

theorem taken_of_vacantSlot {fuel occurrence : ℕ}
    (h : vacantSlot tools candidateIndex partIndex fuel occurrence = none) :
    ∀ i < fuel, (tools.get? (slotOf candidateIndex partIndex (occurrence + i))).isSome := by
  induction fuel generalizing occurrence with
  | zero => exact fun i hi => absurd hi (Nat.not_lt_zero i)
  | succ fuel ih =>
    rw [vacantSlot] at h
    split at h
    · rename_i htaken
      intro i hi
      cases i with
      | zero => exact htaken
      | succ i =>
        have := ih h i (by omega)
        rwa [show occurrence + 1 + i = occurrence + (i + 1) by omega] at this
    · cases h

theorem vacantSlot_succeeds (tools : ToolMap) (candidateIndex : ℤ) (partIndex occurrence : ℕ) :
    ∃ key, vacantSlot tools candidateIndex partIndex (tools.size + 1) occurrence = some key := by
  cases h : vacantSlot tools candidateIndex partIndex (tools.size + 1) occurrence with
  | some key => exact ⟨key, rfl⟩
  | none =>
    have htaken := taken_of_vacantSlot h
    let slots := (range (tools.size + 1)).map fun i => slotOf candidateIndex partIndex (occurrence + i)
    have hnodup : slots.Nodup := by
      refine List.Nodup.map (fun a b hab => ?_) nodup_range
      have := slotOf_injective hab
      omega
    have hsub : slots ⊆ tools.entries.map Prod.fst := by
      intro key hkey
      obtain ⟨i, hi, rfl⟩ := mem_map.mp hkey
      obtain ⟨tool, htool⟩ := isSome_iff_exists.mp (htaken i (mem_range.mp hi))
      exact mem_map.mpr ⟨_, mem_entries_iff.mpr htool, rfl⟩
    have hlength := (hnodup.subperm hsub).length_le
    rw [length_map, length_map, length_range] at hlength
    exact absurd hlength (Nat.not_succ_le_self tools.size)

theorem vacantSlot_vacant {fuel occurrence : ℕ}
    (h : vacantSlot tools candidateIndex partIndex fuel occurrence = some key) : tools.get? key = none := by
  induction fuel generalizing occurrence with
  | zero => cases h
  | succ fuel ih =>
    rw [vacantSlot] at h
    split at h
    · exact ih h
    · rename_i hfree
      obtain rfl := some.inj h
      exact not_isSome_iff_eq_none.mp hfree

/-! ## Calls with ids -/

def AllExplicit (tools : ToolMap) : Prop := ∀ key tool, tools.get? key = some tool → tool.idWasExplicit = true

def Waiting (tools : ToolMap) (key : GeminiAnthropicToolKey) (tool : GeminiAnthropicToolState) : Prop :=
  tools.get? key = some tool ∧ tool.emitted = false

section
variable {tools : ToolMap} {id : String} (name : String) (candidateIndex : ℤ) (partIndex occurrence : ℕ)

theorem keyOfId_eq_none (h : ∀ key tool, Waiting tools key tool → tool.id ≠ id) : keyOfId tools (some id) = none := by
  rw [keyOfId, bind_some, map_eq_none_iff, find?_eq_none]
  rintro ⟨key, tool⟩ hmem hfound
  rw [Bool.and_eq_true, Bool.not_eq_true', decide_eq_true_eq] at hfound
  exact h key tool ⟨mem_entries_iff.mp hmem, hfound.1⟩ hfound.2

theorem keyOfId_eq_some (h : ∃ key tool, Waiting tools key tool ∧ tool.id = id) :
    ∃ key tool, keyOfId tools (some id) = some key ∧ Waiting tools key tool ∧ tool.id = id := by
  obtain ⟨key, tool, hwaiting, hid⟩ := h
  rw [keyOfId, bind_some]
  cases hfound : tools.entries.find? fun entry => !entry.2.emitted && entry.2.id = id with
  | none =>
    have := find?_eq_none.mp hfound (key, tool) (mem_entries_iff.mpr hwaiting.1)
    rw [Bool.and_eq_true, Bool.not_eq_true', decide_eq_true_eq] at this
    exact absurd ⟨hwaiting.2, hid⟩ this
  | some entry =>
    have hmatch := find?_some hfound
    rw [Bool.and_eq_true, Bool.not_eq_true', decide_eq_true_eq] at hmatch
    exact ⟨entry.1, entry.2, rfl, ⟨mem_entries_iff.mp (mem_of_find?_eq_some hfound), hmatch.1⟩, hmatch.2⟩

section
variable (hexplicit : AllExplicit tools)
include hexplicit

variable (h : ∀ key tool, Waiting tools key tool → tool.id ≠ id)
include h

theorem not_compatible
    {key : GeminiAnthropicToolKey} {tool : GeminiAnthropicToolState} (htool : tools.get? key = some tool) :
    compatibleIdentity (some id) tool = false := by
  cases hemitted : tool.emitted with
  | true =>
    unfold compatibleIdentity
    rw [hemitted]
    rfl
  | false =>
    unfold compatibleIdentity
    rw [all_some, hexplicit key tool htool, decide_eq_false (h key tool ⟨htool, hemitted⟩)]
    exact Bool.and_false _

theorem keyOfSlot_eq_none
    (slot : GeminiAnthropicToolKey) : keyOfSlot tools (some id) name slot = none := by
  rw [keyOfSlot, map_eq_none_iff, filter_eq_none_iff]
  intro tool htool hmatch
  rw [not_compatible hexplicit h htool, Bool.false_and] at hmatch
  cases hmatch

theorem keyOfOccurrence_eq_none :
    keyOfOccurrence tools (some id) name candidateIndex occurrence = none := by
  rw [keyOfOccurrence, map_eq_none_iff, find?_eq_none]
  rintro ⟨key, tool⟩ hmem hmatch
  rw [not_compatible hexplicit h (mem_entries_iff.mp hmem), Bool.false_and, Bool.false_and, Bool.false_and] at hmatch
  cases hmatch

theorem keyOfCall_new :
    tools.get? (keyOfCall tools (some id) name candidateIndex partIndex occurrence) = none := by
  obtain ⟨key, hkey⟩ := vacantSlot_succeeds tools candidateIndex partIndex occurrence
  have hcall : keyOfCall tools (some id) name candidateIndex partIndex occurrence = key := by
    unfold keyOfCall
    simp only [keyOfId_eq_none h, keyOfSlot_eq_none name hexplicit h,
      keyOfOccurrence_eq_none name candidateIndex occurrence hexplicit h, orElse_none, getD_none, hkey, getD_some]
  rw [hcall]
  exact vacantSlot_vacant hkey

end

theorem keyOfCall_known (h : ∃ key tool, Waiting tools key tool ∧ tool.id = id) :
    ∃ tool, Waiting tools (keyOfCall tools (some id) name candidateIndex partIndex occurrence) tool ∧
      tool.id = id := by
  obtain ⟨key, tool, hkey, hwaiting, hid⟩ := keyOfId_eq_some h
  have hcall : keyOfCall tools (some id) name candidateIndex partIndex occurrence = key := by
    unfold keyOfCall
    rw [hkey]
    rfl
  rw [hcall]
  exact ⟨tool, hwaiting, hid⟩

end

/-! ## Calls that were read -/

def GeminiAnthropicToolState.use (tool : GeminiAnthropicToolState) : ToolUse := ⟨tool.id, tool.name, [tool.arguments]⟩

def waitingTools (s : GeminiAnthropicState) : List GeminiAnthropicToolState :=
  s.toolOrder.filterMap fun key => (s.tools.get? key).filter fun tool => !tool.emitted

/-- The calls that were read, and the ids of which nothing more may come. -/
structure Calls where
  read : List FunctionCall
  closed : List String

/-- The blocks that were written, and behind them those that wait, are the blocks that the calls ask for. -/
structure Collected (calls : Calls) (s : GeminiAnthropicState) (written : List StreamFrame) : Prop where
  stopped : Stopped written
  order : s.toolOrder.Nodup
  keys : ∀ key, (s.tools.get? key).isSome ↔ key ∈ s.toolOrder
  allExplicit : AllExplicit s.tools
  arguments : ∀ key tool, s.tools.get? key = some tool → tool.arguments.isNull = false
  uses : toolUses written ++ (waitingTools s).map use = expectedUses calls.read
  behind : ∀ use ∈ toolUses written, use.id ∈ calls.closed

section
variable {calls : Calls} {s : GeminiAnthropicState} {written : List StreamFrame}

section
variable (h : Collected calls s written)
include h

theorem mem_waitingTools {tool : GeminiAnthropicToolState} :
    tool ∈ waitingTools s ↔ ∃ key, Waiting s.tools key tool := by
  unfold waitingTools
  rw [mem_filterMap]
  constructor
  · rintro ⟨key, _, htool⟩
    obtain ⟨hget, hemitted⟩ := filter_eq_some_iff.mp htool
    exact ⟨key, hget, Bool.not_eq_true' _ |>.mp hemitted⟩
  · rintro ⟨key, hget, hemitted⟩
    refine ⟨key, (h.keys key).mp (isSome_of_eq_some hget), filter_eq_some_iff.mpr ⟨hget, ?_⟩⟩
    rw [hemitted]
    rfl

theorem Collected.congr {s' : GeminiAnthropicState} {frames : List StreamFrame}
    (htools : s'.tools = s.tools) (horder : s'.toolOrder = s.toolOrder)
    (hframes : ∀ frame ∈ frames, frame.kind ≠ .toolUse) : Collected calls s' (written ++ frames) := by
  obtain ⟨hnone, hstopped⟩ := toolUses_of_kind hframes
  have hread : toolUses (written ++ frames) = toolUses written := by
    rw [toolUses_append h.stopped, hnone, append_nil]
  have hwaiting : waitingTools s' = waitingTools s := by
    unfold waitingTools
    rw [htools, horder]
  exact
    { stopped := h.stopped.append hstopped
      order := horder ▸ h.order
      keys := by
        rw [htools, horder]
        exact h.keys
      allExplicit := htools ▸ h.allExplicit
      arguments := htools ▸ h.arguments
      uses := by
        rw [hread, hwaiting]
        exact h.uses
      behind := by
        rw [hread]
        exact h.behind }

theorem Collected.of_tools {s' : GeminiAnthropicState}
    (htools : s'.tools = s.tools) (horder : s'.toolOrder = s.toolOrder) : Collected calls s' written := by
  have hsame : Collected calls s' (written ++ []) := h.congr htools horder fun _ hframe => nomatch hframe
  rwa [append_nil] at hsame

end

theorem takes_collected {view : GeminiAnthropicState → GeminiAnthropicState} {kinds : List FrameKind}
    {f : Writing} (h : Emitter.Leaves view (StreamFrame.Outside kinds) f)
    (hview : ∀ s, (view s).tools = s.tools ∧ (view s).toolOrder = s.toolOrder) (hkinds : .toolUse ∉ kinds) :
    Emitter.Takes (Collected calls) (Collected calls) f := by
  intro s written hs
  have htools : (f s).1.tools = s.tools := by rw [← (hview _).1, (h s).1, (hview s).1]
  have horder : (f s).1.toolOrder = s.toolOrder := by rw [← (hview _).2, (h s).1, (hview s).2]
  exact hs.congr htools horder fun frame hframe hkind => (h s).2 frame hframe (by
    rw [StreamFrame.Outside, hkind]
    exact hkinds)

theorem Collected.close (h : Collected calls s written) : Collected ⟨calls.read, callIds calls.read⟩ s written :=
  { h with
    behind := fun use huse => by
      rw [← mem_expectedUses_ids, ← h.uses, map_append]
      exact mem_append_left _ (mem_map_of_mem huse) }

end

/-! ## Closing the tool blocks -/

def waitingAt (tools : ToolMap) (keys : List GeminiAnthropicToolKey) : List GeminiAnthropicToolState :=
  keys.filterMap fun key => (tools.get? key).filter fun tool => !tool.emitted

theorem waitingAt_insert {keys : List GeminiAnthropicToolKey}
    (tool : GeminiAnthropicToolState) (h : key ∉ keys) :
    waitingAt (tools.insert key tool) keys = waitingAt tools keys := by
  unfold waitingAt
  apply filterMap_congr
  intro other hother
  have hne : key ≠ other := fun heq => h (heq ▸ hother)
  rw [get?_insert_of_ne tools tool hne]

theorem waitingAt_append (tools : ToolMap) (keys keys' : List GeminiAnthropicToolKey) :
    waitingAt tools (keys ++ keys') = waitingAt tools keys ++ waitingAt tools keys' := filterMap_append

theorem waitingAt_singleton (tools : ToolMap) (key : GeminiAnthropicToolKey) :
    waitingAt tools [key] = ((tools.get? key).filter fun tool => !tool.emitted).toList := by
  unfold waitingAt
  rw [filterMap_cons]
  cases (tools.get? key).filter fun tool => !tool.emitted <;> rfl

variable {tool : GeminiAnthropicToolState} {s : GeminiAnthropicState}

theorem waitingAt_of_waiting (h : Waiting tools key tool) :
    waitingAt tools [key] = [tool] := by
  have hkept : (tools.get? key).filter (fun tool => !tool.emitted) = some tool :=
    filter_eq_some_iff.mpr ⟨h.1, by rw [h.2]; rfl⟩
  rw [waitingAt_singleton, hkept, toList_some]

theorem toolUses_toolFrames (index : ℕ) (h : tool.arguments.isNull = false) :
    toolUses (toolFrames index tool) = [tool.use] ∧ Stopped (toolFrames index tool) := by
  have hframes : toolFrames index tool =
      [.contentBlockStart index (.toolUse tool.id tool.name tool.signature),
        .contentBlockDelta index (.inputJson tool.arguments), .contentBlockStop index] := by
    unfold toolFrames
    rw [h]
    rfl
  rw [hframes]
  constructor
  · have harguments : argumentsOf index [.contentBlockDelta index (.inputJson tool.arguments),
        .contentBlockStop index] = [tool.arguments] := by
      simp [argumentsOf, StreamFrame.stops, StreamFrame.argument?]
    change [ToolUse.mk tool.id tool.name (argumentsOf index _)] = _
    rw [harguments]
    rfl
  · refine ⟨fun start hstart => ?_, by rintro _ ⟨⟩, by rintro _ ⟨⟩, trivial⟩
    obtain rfl := some.inj hstart
    exact ⟨.contentBlockStop index, by simp, decide_eq_true rfl⟩

def GeminiAnthropicToolState.written (tool : GeminiAnthropicToolState) : GeminiAnthropicToolState :=
  { tool with emitted := true }

/-- What closing the tools of some keys does. -/
structure ClosesTools (keys : List GeminiAnthropicToolKey) (s s' : GeminiAnthropicState)
    (frames : List StreamFrame) : Prop where
  uses : toolUses frames = (waitingAt s.tools keys).map use
  stopped : Stopped frames
  order : s'.toolOrder = s.toolOrder
  tools : ∀ key, s'.tools.get? key =
    if key ∈ keys then (s.tools.get? key).map written else s.tools.get? key

theorem closeTool_closes (key : GeminiAnthropicToolKey)
    (h : ∀ key tool, s.tools.get? key = some tool → tool.arguments.isNull = false) :
    ClosesTools [key] s (closeTool key s).1 (closeTool key s).2 := by
  unfold closeTool
  cases htool : (s.tools.get? key).filter fun tool => !tool.emitted with
  | some tool =>
    obtain ⟨hget, _⟩ := filter_eq_some_iff.mp htool
    obtain ⟨huses, hstopped⟩ := toolUses_toolFrames s.nextBlockIndex (h key tool hget)
    refine ⟨?_, hstopped, rfl, fun other => ?_⟩
    · rw [waitingAt_singleton, htool]
      exact huses
    · change (s.tools.insert key tool.written).get? other = _
      by_cases hother : key = other
      · rw [← hother, get?_insert_self, if_pos (mem_singleton.mpr rfl), hget, map_some]
      · rw [get?_insert_of_ne _ _ hother, if_neg]
        exact fun hmem => hother (mem_singleton.mp hmem).symm
  | none =>
    refine ⟨?_, trivial, rfl, fun other => ?_⟩
    · rw [waitingAt_singleton, htool]
      rfl
    · change s.tools.get? other = _
      by_cases hmem : other ∈ [key]
      · rw [if_pos hmem]
        obtain rfl := mem_singleton.mp hmem
        cases hget : s.tools.get? other with
        | none => rfl
        | some tool =>
          have hemitted : tool.emitted = true := by
            have := filter_eq_none_iff.mp htool tool hget
            simpa using this
          rw [map_some, written, ← hemitted]
      · rw [if_neg hmem]

/-- Closing moves calls from those that wait to those that are written. -/
theorem closeTools_closes {keys : List GeminiAnthropicToolKey} (hkeys : keys.Nodup)
    (h : ∀ key tool, s.tools.get? key = some tool → tool.arguments.isNull = false) :
    ClosesTools keys s (each closeTool keys s).1 (each closeTool keys s).2 := by
  induction keys generalizing s with
  | nil => exact ⟨rfl, trivial, rfl, fun key => (if_neg not_mem_nil).symm⟩
  | cons key keys ih =>
    obtain ⟨hnotin, hrest⟩ := nodup_cons.mp hkeys
    have hfirst := closeTool_closes key h
    have hsame : ∀ other ∈ keys, (closeTool key s).1.tools.get? other = s.tools.get? other := by
      intro other hother
      rw [hfirst.tools other, if_neg]
      exact fun hmem => hnotin (mem_singleton.mp hmem ▸ hother)
    have harguments : ∀ other tool, (closeTool key s).1.tools.get? other = some tool →
        tool.arguments.isNull = false := by
      intro other tool htool
      rw [hfirst.tools other] at htool
      split at htool
      · obtain ⟨known, hknown, rfl⟩ := map_eq_some_iff.mp htool
        exact h other known hknown
      · exact h other tool htool
    have hlater := ih hrest harguments
    rw [each_cons, andThen_fst, andThen_snd]
    refine ⟨?_, hfirst.stopped.append hlater.stopped, hlater.order.trans hfirst.order, fun other => ?_⟩
    · have hwaiting : waitingAt (closeTool key s).1.tools keys = waitingAt s.tools keys := by
        unfold waitingAt
        exact filterMap_congr fun other hother => by rw [hsame other hother]
      have hsplit : waitingAt s.tools (key :: keys) = waitingAt s.tools [key] ++ waitingAt s.tools keys :=
        filterMap_append (l := [key])
      rw [toolUses_append hfirst.stopped, hfirst.uses, hlater.uses, hwaiting, hsplit, map_append]
    · rw [hlater.tools other]
      by_cases hother : other ∈ keys
      · rw [if_pos hother, if_pos (mem_cons_of_mem key hother), hsame other hother]
      · rw [if_neg hother, hfirst.tools other]
        by_cases hkey : other = key
        · rw [if_pos (mem_singleton.mpr hkey), if_pos (mem_cons.mpr (.inl hkey))]
        · rw [if_neg (fun hmem => hkey (mem_singleton.mp hmem)),
            if_neg (fun hmem => (mem_cons.mp hmem).elim hkey hother)]

/-- Behind a boundary nothing waits. -/
theorem Collected.closeToolBlocks {calls : Calls} {written : List StreamFrame} (h : Collected calls s written) :
    Collected ⟨calls.read, callIds calls.read⟩ (closeToolBlocks s).1 (written ++ (closeToolBlocks s).2) ∧
      toolUses (written ++ (closeToolBlocks s).2) = expectedUses calls.read := by
  have hcloses := closeTools_closes h.order h.arguments
  change ClosesTools s.toolOrder s (GeminiStream.closeToolBlocks s).1 (GeminiStream.closeToolBlocks s).2 at hcloses
  generalize GeminiStream.closeToolBlocks s = step at hcloses
  have hget : ∀ key tool, step.1.tools.get? key = some tool →
      ∃ known, s.tools.get? key = some known ∧ tool = known.written := by
    intro key tool htool
    rw [hcloses.tools key] at htool
    split at htool
    · obtain ⟨known, hknown, rfl⟩ := Option.map_eq_some_iff.mp htool
      exact ⟨known, hknown, rfl⟩
    · rename_i hnotin
      exact absurd ((h.keys key).mp (Option.isSome_of_eq_some htool)) hnotin
  have hnone : waitingTools step.1 = [] := by
    unfold waitingTools
    rw [List.filterMap_eq_nil_iff]
    intro key _
    rw [Option.filter_eq_none_iff]
    intro tool htool
    obtain ⟨known, _, rfl⟩ := hget key tool htool
    exact Bool.false_ne_true
  have huses : toolUses (written ++ step.2) = expectedUses calls.read := by
    rw [toolUses_append h.stopped, hcloses.uses]
    exact h.uses
  refine ⟨?_, huses⟩
  exact
    { stopped := h.stopped.append hcloses.stopped
      order := hcloses.order ▸ h.order
      keys := fun key => by
        rw [hcloses.order, ← h.keys key, hcloses.tools key]
        split
        · exact Iff.of_eq (congrArg (· = true) Option.isSome_map)
        · rfl
      allExplicit := fun key tool htool => by
        obtain ⟨known, hknown, rfl⟩ := hget key tool htool
        exact h.allExplicit key known hknown
      arguments := fun key tool htool => by
        obtain ⟨known, hknown, rfl⟩ := hget key tool htool
        exact h.arguments key known hknown
      uses := by rw [huses, hnone, List.map_nil, List.append_nil]
      behind := fun use huse => by
        rw [← mem_expectedUses_ids, ← huses]
        exact List.mem_map_of_mem huse }

/-! ## Recording a call -/

theorem mergeArgs_isNull {arguments : Json} {args : Option Json} (h : arguments.isNull = false)
    (hargs : ∀ json ∈ args, json.isNull = false) : (mergeArgs arguments args).isNull = false := by
  unfold mergeArgs
  cases args with
  | none => exact h
  | some json =>
    have hjson := hargs json rfl
    cases json with
    | null => cases hjson
    | object incoming => cases arguments <;> rfl
    | bool _ => rfl
    | number _ => rfl
    | string _ => rfl
    | array _ => rfl

theorem use_updateTool {call : FunctionCall} {id : String} (signature : Option String) (hid : call.id = some id)
    (htool : tool.id = id) : (updateTool call signature tool).use = tool.use.merge call := by
  unfold ToolUse.merge
  have hsame : call.id = some tool.use.id := hid.trans (congrArg some htool.symm)
  rw [if_pos hsame]
  unfold updateTool use
  rw [hid, getD_some, htool]
  rfl

section
variable {calls : Calls} {s : GeminiAnthropicState} {written : List StreamFrame} {call : FunctionCall} {id : String}
  (signature : Option String)

theorem map_merge_of_ne {uses : List ToolUse} (hid : call.id = some id) (h : ∀ use ∈ uses, use.id ≠ id) :
    uses.map (ToolUse.merge call) = uses := by
  refine (map_congr_left fun use huse => ?_).trans (map_id uses)
  exact ToolUse.merge_of_ne fun heq => h use huse (some.inj (heq.symm.trans hid))

/-- A further part of a call joins the call that waits under its id. -/
theorem Collected.recordKnown (h : Collected calls s written) (hid : call.id = some id)
    (hargs : ∀ json ∈ call.args, json.isNull = false) (hopen : id ∉ calls.closed) {key : GeminiAnthropicToolKey}
    {tool : GeminiAnthropicToolState} (hwaiting : Waiting s.tools key tool) (htool : tool.id = id)
    {s' : GeminiAnthropicState} (horder : s'.toolOrder = s.toolOrder)
    (htools : s'.tools = s.tools.insert key (updateTool call signature tool)) :
    Collected ⟨calls.read ++ [call], calls.closed⟩ s' written := by
  have hmem : key ∈ s.toolOrder := (h.keys key).mp (Option.isSome_of_eq_some hwaiting.1)
  obtain ⟨before, after, hsplit⟩ : ∃ before after, s.toolOrder = before ++ ([key] ++ after) := List.append_of_mem hmem
  have hnodup := h.order
  rw [hsplit, List.singleton_append, List.nodup_middle, List.nodup_cons, List.mem_append, not_or] at hnodup
  have hnow : waitingTools s = waitingAt s.tools before ++ tool :: waitingAt s.tools after := by
    change waitingAt s.tools s.toolOrder = _
    rw [hsplit, waitingAt_append, waitingAt_append, waitingAt_of_waiting hwaiting, List.singleton_append]
  have hthen : waitingTools s' =
      waitingAt s.tools before ++ updateTool call signature tool :: waitingAt s.tools after := by
    have hnew : Waiting (s.tools.insert key (updateTool call signature tool)) key
        (updateTool call signature tool) := ⟨OrderedMap.get?_insert_self _ _ _, hwaiting.2⟩
    change waitingAt s'.tools s'.toolOrder = _
    rw [htools, horder, hsplit, waitingAt_append, waitingAt_append, waitingAt_of_waiting hnew,
      waitingAt_insert _ hnodup.1.1, waitingAt_insert _ hnodup.1.2, List.singleton_append]
  have huses := h.uses
  rw [hnow, List.map_append, List.map_cons] at huses
  have hids := nodup_expectedUses_ids calls.read
  rw [← huses, List.map_append, List.map_append, List.map_cons, ← List.append_assoc, List.nodup_middle,
    List.nodup_cons, List.mem_append, List.mem_append, not_or, not_or] at hids
  obtain ⟨⟨⟨_, hbefore⟩, hafter⟩, _⟩ := hids
  have hknown : id ∈ callIds calls.read := by
    rw [← mem_expectedUses_ids, ← huses, List.map_append, List.map_append, List.map_cons]
    exact List.mem_append_right _ (List.mem_append_right _ (htool ▸ List.mem_cons_self))
  have hother : ∀ tools : List GeminiAnthropicToolState, tool.use.id ∉ (tools.map (·.use)).map ToolUse.id →
      (tools.map (·.use)).map (ToolUse.merge call) = tools.map (·.use) := fun tools hnotin =>
    map_merge_of_ne hid fun use huse heq =>
      hnotin (List.mem_map.mpr ⟨use, huse, heq.trans htool.symm⟩)
  exact
    { stopped := h.stopped
      order := horder ▸ h.order
      keys := fun other => by
        rw [htools, horder, ← h.keys other]
        by_cases hkey : key = other
        · rw [← hkey, OrderedMap.get?_insert_self, hwaiting.1]
          rfl
        · rw [OrderedMap.get?_insert_of_ne _ _ hkey]
      allExplicit := fun other found hfound => by
        rw [htools, OrderedMap.get?_insert] at hfound
        split at hfound
        · obtain rfl := Option.some.inj hfound
          rw [updateTool, hid]
          rfl
        · exact h.allExplicit other found hfound
      arguments := fun other found hfound => by
        rw [htools, OrderedMap.get?_insert] at hfound
        split at hfound
        · obtain rfl := Option.some.inj hfound
          exact mergeArgs_isNull (h.arguments key tool hwaiting.1) hargs
        · exact h.arguments other found hfound
      uses := by
        rw [expectedUses_known hid hknown, ← huses, hthen, List.map_append, List.map_cons, List.map_append,
          List.map_append, List.map_cons, use_updateTool signature hid htool, hother _ hbefore, hother _ hafter,
          map_merge_of_ne hid fun use huse heq => hopen (heq ▸ h.behind use huse)]
      behind := h.behind }

/-- The first part of a call takes a slot that is free. -/
theorem Collected.recordNew (h : Collected calls s written) (hid : call.id = some id)
    (hargs : ∀ json ∈ call.args, json.isNull = false) (hnew : id ∉ callIds calls.read)
    {key : GeminiAnthropicToolKey} (hfree : s.tools.get? key = none) {s' : GeminiAnthropicState}
    (horder : s'.toolOrder = s.toolOrder ++ [key])
    (htools : s'.tools = s.tools.insert key (updateTool call signature (newTool call key))) :
    Collected ⟨calls.read ++ [call], calls.closed⟩ s' written := by
  have hnotin : key ∉ s.toolOrder := by
    intro hmem
    have := (h.keys key).mpr hmem
    rw [hfree] at this
    cases this
  have huse : (updateTool call signature (newTool call key)).use =
      ⟨id, call.toolName, [mergeArgs (.object []) call.args]⟩ := by
    unfold updateTool use newTool
    rw [hid, getD_some]
    rfl
  have hthen : waitingTools s' = waitingTools s ++ [updateTool call signature (newTool call key)] := by
    have hwaits : Waiting (s.tools.insert key (updateTool call signature (newTool call key))) key
        (updateTool call signature (newTool call key)) := ⟨get?_insert_self _ _ _, rfl⟩
    change waitingAt s'.tools s'.toolOrder = waitingAt s.tools s.toolOrder ++ _
    rw [htools, horder, waitingAt_append, waitingAt_of_waiting hwaits, waitingAt_insert _ hnotin]
  exact
    { stopped := h.stopped
      order := by
        rw [horder, nodup_append]
        refine ⟨h.order, nodup_singleton key, fun other hother last hlast => ?_⟩
        rw [mem_singleton.mp hlast]
        exact fun heq => hnotin (heq ▸ hother)
      keys := fun other => by
        rw [htools, horder, mem_append, mem_singleton, ← h.keys other]
        by_cases hkey : key = other
        · rw [← hkey, get?_insert_self]
          exact ⟨fun _ => .inr rfl, fun _ => rfl⟩
        · rw [get?_insert_of_ne _ _ hkey]
          exact ⟨.inl, fun hmem => hmem.resolve_right fun heq => hkey heq.symm⟩
      allExplicit := fun other found hfound => by
        rw [htools, get?_insert] at hfound
        split at hfound
        · obtain rfl := some.inj hfound
          rw [updateTool, hid]
          rfl
        · exact h.allExplicit other found hfound
      arguments := fun other found hfound => by
        rw [htools, get?_insert] at hfound
        split at hfound
        · obtain rfl := some.inj hfound
          exact mergeArgs_isNull rfl hargs
        · exact h.arguments other found hfound
      uses := by
        rw [expectedUses_new hid hnew, ← h.uses, hthen, map_append, map_singleton, huse, append_assoc]
      behind := h.behind }

theorem Collected.recordCall (h : Collected calls s written) (hid : call.id = some id)
    (hargs : ∀ json ∈ call.args, json.isNull = false) (hopen : id ∉ calls.closed) (candidateIndex : ℤ)
    (partIndex occurrence : ℕ) : Collected ⟨calls.read ++ [call], calls.closed⟩
      (recordCall candidateIndex partIndex occurrence signature call s) written := by
  by_cases hwaiting : ∃ key tool, Waiting s.tools key tool ∧ tool.id = id
  · obtain ⟨tool, hfound, htool⟩ := keyOfCall_known call.toolName candidateIndex partIndex occurrence hwaiting
    refine h.recordKnown signature hid hargs hopen hfound htool ?_ ?_
    · unfold GeminiStream.recordCall
      simp only [hid, hfound.1, isSome_some, if_true]
    · unfold GeminiStream.recordCall
      simp only [hid, hfound.1, getD_some]
  · push Not at hwaiting
    have hnew : id ∉ callIds calls.read := by
      rw [← mem_expectedUses_ids, ← h.uses, map_append, mem_append]
      rintro (hmem | hmem)
      · obtain ⟨use, huse, rfl⟩ := mem_map.mp hmem
        exact hopen (h.behind use huse)
      · obtain ⟨use, huse, heq⟩ := mem_map.mp hmem
        obtain ⟨tool, htool, rfl⟩ := mem_map.mp huse
        obtain ⟨key, hkey⟩ := (mem_waitingTools h).mp htool
        exact hwaiting key tool hkey heq
    have hfree := keyOfCall_new call.toolName candidateIndex partIndex occurrence h.allExplicit hwaiting
    refine h.recordNew signature hid hargs hnew hfree ?_ ?_
    · unfold GeminiStream.recordCall
      simp only [hid, hfree]
      rfl
    · unfold GeminiStream.recordCall
      simp only [hid, hfree, getD_none]

end

end CcSwitchServer.GeminiStream
