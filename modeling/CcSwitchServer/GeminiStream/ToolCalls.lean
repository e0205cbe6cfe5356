import CcSwitchServer.Foundations.Lists
import CcSwitchServer.GeminiStream.Frames

/-! # Tool calls

The parts of a call are collected under a key that is built from positions, or found by their id.
-/

namespace CcSwitchServer.GeminiStream
open Foundations List

/-! ## Reading the blocks of a stream -/

structure ToolUse where
  id : String
  name : String
  /-- The arguments, one for each delta of the block. -/
  arguments : List Json

def StreamFrame.toolStart? : StreamFrame → Option (ℕ × String × String)
  | .contentBlockStart index (.toolUse id name _) => some (index, id, name)
  | _ => none

def StreamFrame.stops (index : ℕ) : StreamFrame → Bool
  | .contentBlockStop i => i = index
  | _ => false

def StreamFrame.argument? (index : ℕ) : StreamFrame → Option Json
  | .contentBlockDelta i (.inputJson json) => if i = index then some json else none
  | _ => none

/-- The arguments of the block that is open under this index. -/
def argumentsOf (index : ℕ) : List StreamFrame → List Json
  | [] => []
  | frame :: frames =>
    if frame.stops index then [] else (frame.argument? index).toList ++ argumentsOf index frames

/-- The tool blocks of a stream, in order. -/
def toolUses : List StreamFrame → List ToolUse
  | [] => []
  | frame :: frames =>
    match frame.toolStart? with
    | some (index, id, name) => ⟨id, name, argumentsOf index frames⟩ :: toolUses frames
    | none => toolUses frames

/-- Every tool block that is opened is closed. -/
def Stopped : List StreamFrame → Prop
  | [] => True
  | frame :: frames =>
    (∀ start ∈ frame.toolStart?, ∃ stop ∈ frames, stop.stops start.1 = true) ∧ Stopped frames

variable {frames frames' : List StreamFrame}

theorem argumentsOf_append {index : ℕ} (h : ∃ stop ∈ frames, stop.stops index = true) :
    argumentsOf index (frames ++ frames') = argumentsOf index frames := by
  induction frames with
  | nil =>
    obtain ⟨stop, hstop, _⟩ := h
    cases hstop
  | cons frame frames ih =>
    rw [cons_append, argumentsOf, argumentsOf]
    split
    · rfl
    · rename_i hgo
      obtain ⟨stop, hstop, hstops⟩ := h
      rcases mem_cons.mp hstop with rfl | hstop
      · exact absurd hstops hgo
      · rw [ih ⟨stop, hstop, hstops⟩]

theorem toolUses_append (h : Stopped frames) : toolUses (frames ++ frames') = toolUses frames ++ toolUses frames' := by
  induction frames with
  | nil => rfl
  | cons frame frames ih =>
    rw [cons_append, toolUses, toolUses]
    cases hstart : frame.toolStart? with
    | none => exact ih h.2
    | some start =>
      obtain ⟨index, id, name⟩ := start
      simp only
      rw [argumentsOf_append (h.1 (index, id, name) hstart), ih h.2, cons_append]

theorem Stopped.append (h : Stopped frames) (h' : Stopped frames') : Stopped (frames ++ frames') := by
  induction frames with
  | nil => exact h'
  | cons frame frames ih =>
    refine ⟨fun start hstart => ?_, ih h.2⟩
    obtain ⟨stop, hstop, hstops⟩ := h.1 start hstart
    exact ⟨stop, mem_append_left _ hstop, hstops⟩

theorem kind_of_toolStart {frame : StreamFrame} {start : ℕ × String × String}
    (h : frame.toolStart? = some start) : frame.kind = .toolUse := by
  unfold StreamFrame.toolStart? at h
  split at h
  · rfl
  · cases h

theorem toolUses_of_kind (h : ∀ frame ∈ frames, frame.kind ≠ .toolUse) : toolUses frames = [] ∧ Stopped frames := by
  induction frames with
  | nil => exact ⟨rfl, trivial⟩
  | cons frame frames ih =>
    have hstart : frame.toolStart? = none := by
      rw [Option.eq_none_iff_forall_not_mem]
      exact fun start hstart => h frame mem_cons_self (kind_of_toolStart hstart)
    obtain ⟨hrest, hstopped⟩ := ih fun frame' hframe' => h frame' (mem_cons_of_mem frame hframe')
    rw [toolUses, hstart]
    exact ⟨hrest, fun start hmem => absurd (hstart.symm.trans hmem) nofun, hstopped⟩

/-! ## What a stream says of its calls -/

variable (calls : List FunctionCall)

def callIds : List String := calls.filterMap FunctionCall.id

def callsOf (id : String) : List FunctionCall := calls.filter fun call => call.id = some id

def mergedArguments (id : String) : Json :=
  ((callsOf calls id).filterMap FunctionCall.args).foldl mergeGeminiToolArguments (.object [])

def firstName (id : String) : String := ((callsOf calls id).head?.map FunctionCall.toolName).getD ""

/-- One block for every id, in the order of first appearance. -/
def expectedUses : List ToolUse :=
  (callIds calls).eraseDups.map fun id => ⟨id, firstName calls id, [mergedArguments calls id]⟩

section
variable {calls : List FunctionCall} {call : FunctionCall} {id : String}

theorem callIds_append (h : call.id = some id) : callIds (calls ++ [call]) = callIds calls ++ [id] := by
  unfold callIds
  rw [filterMap_append, filterMap_cons_some h, filterMap_nil]

theorem callsOf_append_self (h : call.id = some id) : callsOf (calls ++ [call]) id = callsOf calls id ++ [call] := by
  unfold callsOf
  have hkeep : [call].filter (fun call => call.id = some id) = [call] := by simp [h]
  rw [filter_append, hkeep]

theorem callsOf_append_of_ne {other : String} (h : call.id = some id) (hne : other ≠ id) :
    callsOf (calls ++ [call]) other = callsOf calls other := by
  unfold callsOf
  have hother : ¬ call.id = some other := fun hid => hne (Option.some.inj (hid.symm.trans h))
  have hdrop : [call].filter (fun call => call.id = some other) = [] := by simp [hother]
  rw [filter_append, hdrop, append_nil]

theorem callsOf_eq_nil (h : id ∉ callIds calls) : callsOf calls id = [] := by
  unfold callsOf
  rw [filter_eq_nil_iff]
  intro call hcall hid
  exact h (mem_filterMap.mpr ⟨call, hcall, of_decide_eq_true hid⟩)

theorem callsOf_ne_nil (h : id ∈ callIds calls) : callsOf calls id ≠ [] := by
  obtain ⟨call, hcall, hid⟩ := mem_filterMap.mp h
  exact ne_nil_of_mem (mem_filter.mpr ⟨hcall, decide_eq_true hid⟩)

def mergeArgs (arguments : Json) (args : Option Json) : Json :=
  args.elim arguments (mergeGeminiToolArguments arguments)

theorem mergedArguments_append_self (h : call.id = some id) :
    mergedArguments (calls ++ [call]) id = mergeArgs (mergedArguments calls id) call.args := by
  unfold mergedArguments mergeArgs
  rw [callsOf_append_self h, filterMap_append, foldl_append]
  cases hargs : call.args with
  | none => rw [filterMap_cons_none hargs, filterMap_nil, foldl_nil, Option.elim_none]
  | some args =>
    rw [filterMap_cons_some hargs, filterMap_nil, foldl_cons, foldl_nil, Option.elim_some]

theorem firstName_append_self (h : call.id = some id) (hid : id ∈ callIds calls) :
    firstName (calls ++ [call]) id = firstName calls id := by
  unfold firstName
  rw [callsOf_append_self h, head?_append_of_ne_nil _ (callsOf_ne_nil hid)]

theorem expectedUses_ids (calls : List FunctionCall) :
    (expectedUses calls).map ToolUse.id = (callIds calls).eraseDups := by
  unfold expectedUses
  rw [map_map]
  exact map_id _

theorem mem_expectedUses_ids : id ∈ (expectedUses calls).map ToolUse.id ↔ id ∈ callIds calls := by
  rw [expectedUses_ids, mem_eraseDups]

theorem nodup_expectedUses_ids (calls : List FunctionCall) : ((expectedUses calls).map ToolUse.id).Nodup := by
  rw [expectedUses_ids]
  exact nodup_eraseDups _

def ToolUse.merge (call : FunctionCall) (use : ToolUse) : ToolUse :=
  if call.id = some use.id then { use with arguments := use.arguments.map fun json => mergeArgs json call.args }
  else use

theorem ToolUse.merge_of_ne {use : ToolUse} (h : call.id ≠ some use.id) : use.merge call = use := if_neg h

theorem expectedUses_known (h : call.id = some id) (hid : id ∈ callIds calls) :
    expectedUses (calls ++ [call]) = (expectedUses calls).map (ToolUse.merge call) := by
  unfold expectedUses
  have hids : (callIds calls ++ [id]).eraseDups = (callIds calls).eraseDups := by
    have hnone : [id].removeAll (callIds calls) = [] := by simp [removeAll, hid]
    rw [eraseDups_append, hnone, eraseDups_nil, append_nil]
  rw [callIds_append h, hids, map_map]
  apply map_congr_left
  intro other _
  rw [Function.comp_apply, ToolUse.merge]
  by_cases hother : other = id
  · subst hother
    rw [if_pos h, firstName_append_self h hid, mergedArguments_append_self h, map_singleton]
  · have hne : ¬ call.id = some other := fun heq => hother (Option.some.inj (heq.symm.trans h))
    rw [if_neg hne, firstName, mergedArguments, callsOf_append_of_ne h hother, ← firstName, ← mergedArguments]

theorem expectedUses_new (h : call.id = some id) (hid : id ∉ callIds calls) :
    expectedUses (calls ++ [call]) =
      expectedUses calls ++ [⟨id, call.toolName, [mergeArgs (.object []) call.args]⟩] := by
  unfold expectedUses
  have hids : (callIds calls ++ [id]).eraseDups = (callIds calls).eraseDups ++ [id] := by
    have hsome : [id].removeAll (callIds calls) = [id] := by simp [removeAll, hid]
    rw [eraseDups_append, hsome, eraseDups_cons, filter_nil, eraseDups_nil]
  rw [callIds_append h, hids, map_append, map_singleton]
  congr 1
  · apply map_congr_left
    intro other hother
    have hne : other ≠ id := fun heq => hid (heq ▸ mem_eraseDups.mp hother)
    rw [firstName, mergedArguments, callsOf_append_of_ne h hne, ← firstName, ← mergedArguments]
  · have hempty : mergedArguments calls id = .object [] := by
      unfold mergedArguments
      rw [callsOf_eq_nil hid]
      rfl
    rw [mergedArguments_append_self h, hempty, firstName, callsOf_append_self h, callsOf_eq_nil hid]
    rfl

end

end CcSwitchServer.GeminiStream
