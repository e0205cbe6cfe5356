import CcSwitchServer.Foundations.Json
import CcSwitchServer.Foundations.Text

/-! # Pairing tool calls and their outputs (`src/proxy/overflow_compact.rs`)

An output that has lost its call becomes a message, and a call without an output gets one.
-/

namespace CcSwitchServer.OverflowCompact
open Foundations Option List

/-! ## Items -/

/-- The types of calls, each with the type of its output. -/
def toolTypes : List (String × String) :=
  [("function_call", "function_call_output"), ("tool_call", "tool_call_output"),
    ("local_shell_call", "local_shell_call_output"), ("shell_call", "shell_call_output"),
    ("apply_patch_call", "apply_patch_call_output"), ("tool_search_call", "tool_search_call_output"),
    ("custom_tool_call", "custom_tool_call_output"), ("mcp_tool_call", "mcp_tool_call_output")]

def isToolCallType (itemType : String) : Bool := toolTypes.any fun t => t.1 = itemType

def isToolOutputType (itemType : String) : Bool := toolTypes.any fun t => t.2 = itemType

def outputTypeForCall (itemType : String) : Option String := (toolTypes.find? fun t => t.1 = itemType).map (·.2)

theorem outputTypeForCall_isSome (itemType : String) :
    (outputTypeForCall itemType).isSome = isToolCallType itemType := by
  unfold outputTypeForCall isToolCallType
  rw [Option.isSome_map, Bool.eq_iff_iff, List.find?_isSome, List.any_eq_true]

theorem isToolOutputType_of_outputTypeForCall {itemType outputType : String}
    (h : outputTypeForCall itemType = some outputType) : isToolOutputType outputType = true := by
  obtain ⟨t, ht, rfl⟩ := map_eq_some_iff.mp h
  exact any_eq_true.mpr ⟨t, mem_of_find?_eq_some ht, decide_eq_true rfl⟩

theorem isToolCallType_not_output {itemType : String} (h : isToolCallType itemType = true) :
    isToolOutputType itemType = false := by
  obtain ⟨t, ht, heq⟩ := any_eq_true.mp h
  have hall : ∀ t ∈ toolTypes, isToolOutputType t.1 = false := by decide
  exact of_decide_eq_true heq ▸ hall t ht

def itemType (item : Json) : String := ((item.get "type").bind Json.asStr).getD ""

def isToolCall (item : Json) : Bool := isToolCallType (itemType item)

def isToolOutput (item : Json) : Bool := isToolOutputType (itemType item)

/-- An identifier that is blank counts as none. -/
def callId (item : Json) : Option String :=
  (((item.get "call_id").bind Json.asStr).map Text.trim).filter fun id => id ≠ ""

/-- An item without a type is a message when its role is one of the four. -/
def isMessageItem (item : Json) : Bool :=
  match (item.get "type").bind Json.asStr with
  | some "message" => true
  | some "" | none =>
    ((item.get "role").bind Json.asStr).any fun role => role ∈ ["developer", "system", "user", "assistant"]
  | _ => false

theorem isToolCall_not_output {item : Json} (h : isToolCall item = true) : isToolOutput item = false :=
  isToolCallType_not_output h

theorem message_not_tool {item : Json} (h : isMessageItem item = true) :
    isToolCall item = false ∧ isToolOutput item = false := by
  unfold isMessageItem at h
  unfold isToolCall isToolOutput itemType
  split at h
  · rename_i htype
    rw [htype]
    decide
  · rename_i htype
    rw [htype]
    decide
  · rename_i htype
    rw [htype]
    decide
  · cases h

/-! ## The repair -/

section

variable (text : Json → String)

def partTexts (parts : List Json) : List String := parts.filterMap fun part => (part.get "text").bind Json.asStr

/-- The text of an output. The JSON text of a value is a parameter. -/
def flattenToolOutput : Option Json → String
  | none | some .null => ""
  | some (.string s) => s
  | some (.array parts) =>
    if "\n".intercalate (partTexts parts) = "" then text (.array parts) else "\n".intercalate (partTexts parts)
  | some value => text value

def inputMessage (message : String) : Json :=
  .object [("type", .string "message"), ("role", .string "user"),
    ("content", .array [.object [("type", .string "input_text"), ("text", .string message)]])]

def orphanLabel : Option String → String
  | none => "[Tool output from an earlier turn]"
  | some id => "[Tool output from an earlier turn, call_id " ++ id ++ "]"

def orphanMessage (item : Json) : Json :=
  inputMessage (orphanLabel (callId item) ++ "\n" ++ flattenToolOutput text (item.get "output"))

def placeholder (outputType id : String) : Json :=
  .object [("type", .string outputType), ("call_id", .string id), ("output", .string "[tool output was not recorded]")]

def isOrphan (calls : List String) (item : Json) : Bool := isToolOutput item && (callId item).all fun id => id ∉ calls

def lacking (outputs : List String) (item : Json) : Option (String × String) :=
  (callId item).bind fun id => if id ∈ outputs then none else (outputTypeForCall (itemType item)).map fun t => (id, t)

/-- The items from the left; an identifier that got its output joins `outputs`. -/
def repairFrom (calls : List String) : List String → List Json → List Json
  | _, [] => []
  | outputs, item :: rest =>
    if isOrphan calls item then orphanMessage text item :: repairFrom calls outputs rest
    else
      match lacking outputs item with
      | some (id, outputType) => item :: placeholder outputType id :: repairFrom calls (id :: outputs) rest
      | none => item :: repairFrom calls outputs rest

def idsOf (p : Json → Bool) (input : List Json) : List String := (input.filter p).filterMap callId

def repairToolPairing (input : List Json) : List Json :=
  repairFrom text (idsOf isToolCall input) (idsOf isToolOutput input) input

/-! ## What the repair changes -/

/-- Outputs without a call have become messages, and outputs have been added right after calls. -/
inductive Repairs (calls : List String) : List Json → List Json → Prop
  | nil : Repairs calls [] []
  | kept {item : Json} {rest rest' : List Json} (hkept : isOrphan calls item = false)
      (hrest : Repairs calls rest rest') : Repairs calls (item :: rest) (item :: rest')
  | answered {call : Json} {id outputType : String} {rest rest' : List Json} (hcall : callId call = some id)
      (htype : outputTypeForCall (itemType call) = some outputType) (hrest : Repairs calls rest rest') :
      Repairs calls (call :: rest) (call :: placeholder outputType id :: rest')
  | orphan {item : Json} {rest rest' : List Json} (horphan : isOrphan calls item = true)
      (hrest : Repairs calls rest rest') : Repairs calls (item :: rest) (orphanMessage text item :: rest')

variable {text} {calls outputs : List String} {item : Json}

theorem lacking_eq_some {id outputType : String} (h : lacking outputs item = some (id, outputType)) :
    callId item = some id ∧ id ∉ outputs ∧ outputTypeForCall (itemType item) = some outputType := by
  obtain ⟨found, hfound, hif⟩ := bind_eq_some_iff.mp h
  split at hif
  · cases hif
  · rename_i hout
    obtain ⟨t, ht, heq⟩ := map_eq_some_iff.mp hif
    obtain ⟨rfl, rfl⟩ := Prod.mk.inj heq
    exact ⟨hfound, hout, ht⟩

theorem lacking_eq_none {id : String} (h : lacking outputs item = none) (hcall : isToolCall item = true)
    (hid : callId item = some id) : id ∈ outputs := by
  by_contra hout
  unfold lacking at h
  rw [hid, bind_some, if_neg hout, map_eq_none_iff] at h
  have hsome := outputTypeForCall_isSome (itemType item)
  rw [h] at hsome
  exact absurd (hsome.trans hcall) Bool.false_ne_true

theorem isToolCall_of_outputType {outputType : String} (h : outputTypeForCall (itemType item) = some outputType) :
    isToolCall item = true := by
  unfold isToolCall
  rw [← outputTypeForCall_isSome, h, isSome_some]

theorem repairs_repairFrom (text : Json → String) (calls outputs : List String) (input : List Json) :
    Repairs text calls input (repairFrom text calls outputs input) := by
  induction input generalizing outputs with
  | nil => exact .nil
  | cons item rest ih =>
    rw [repairFrom]
    by_cases horphan : isOrphan calls item = true
    · rw [if_pos horphan]
      exact .orphan horphan (ih outputs)
    · rw [if_neg horphan]
      split
      · rename_i id outputType hlacking
        obtain ⟨hid, _, htype⟩ := lacking_eq_some hlacking
        exact .answered hid htype (ih _)
      · exact .kept (Bool.eq_false_of_not_eq_true horphan) (ih outputs)

theorem Repairs.mem_of_call {input repaired : List Json} (h : Repairs text calls input repaired) {call : Json}
    (hmem : call ∈ repaired) (hcall : isToolCall call = true) : call ∈ input := by
  induction h with
  | nil => exact hmem
  | kept _ _ ih => exact (mem_cons.mp hmem).elim (fun h => h ▸ mem_cons_self) fun h =>
      mem_cons_of_mem _ (ih h)
  | @answered _ id outputType _ _ _ htype _ ih =>
    rcases mem_cons.mp hmem with rfl | hmem
    · exact mem_cons_self
    · rcases mem_cons.mp hmem with rfl | hmem
      · have hout : isToolOutput (placeholder outputType id) = true := isToolOutputType_of_outputTypeForCall htype
        exact absurd ((isToolCall_not_output hcall).symm.trans hout) Bool.false_ne_true
      · exact mem_cons_of_mem _ (ih hmem)
  | orphan _ _ ih =>
    rcases mem_cons.mp hmem with rfl | hmem
    · exact absurd hcall Bool.false_ne_true
    · exact mem_cons_of_mem _ (ih hmem)

theorem isOrphan_output (h : isOrphan calls item = true) : isToolOutput item = true := (Bool.and_eq_true_iff.mp h).1

theorem isOrphan_callId (h : isOrphan calls item = true) {id : String} (hid : callId item = some id) : id ∉ calls := by
  have hall := (Bool.and_eq_true_iff.mp h).2
  rw [hid] at hall
  exact of_decide_eq_true hall

theorem callId_of_not_orphan (h : isOrphan calls item = false) (hout : isToolOutput item = true) :
    ∃ id ∈ calls, callId item = some id := by
  unfold isOrphan at h
  rw [hout, Bool.true_and] at h
  cases hid : callId item with
  | none =>
    rw [hid] at h
    cases h
  | some id =>
    rw [hid] at h
    exact ⟨id, by simpa using h, rfl⟩

theorem repairFrom_message {message : Json} (h : isMessageItem message = true) (calls outputs : List String)
    (rest : List Json) :
    repairFrom text calls outputs (message :: rest) = message :: repairFrom text calls outputs rest := by
  obtain ⟨hcall, hout⟩ := message_not_tool h
  have horphan : isOrphan calls message = false := by
    unfold isOrphan
    rw [hout, Bool.false_and]
  have hlacking : lacking outputs message = none := by
    cases hl : lacking outputs message with
    | none => rfl
    | some found => exact absurd ((isToolCall_of_outputType (lacking_eq_some hl).2.2).symm.trans hcall) (by decide)
  rw [repairFrom, horphan, if_neg Bool.false_ne_true, hlacking]

end

/-! ## How often a call is answered -/

section

/-- `output` is an output of the call `call`. -/
def Answers (output call : Json) : Prop :=
  isToolOutput output = true ∧ isToolCall call = true ∧ ∃ id, callId output = some id ∧ callId call = some id

instance (output call : Json) : Decidable (Answers output call) :=
  decidable_of_iff (isToolOutput output = true ∧ isToolCall call = true ∧
      (callId call).isSome ∧ callId output = callId call) <| by
    refine and_congr_right fun _ => and_congr_right fun _ => ⟨?_, ?_⟩
    · rintro ⟨hsome, hsame⟩
      obtain ⟨id, hid⟩ := isSome_iff_exists.mp hsome
      exact ⟨id, hsame.trans hid, hid⟩
    · rintro ⟨id, houtput, hcall⟩
      exact ⟨isSome_of_eq_some hcall, houtput.trans hcall.symm⟩

def outputsFor (id : String) (items : List Json) : ℕ :=
  items.countP fun item => isToolOutput item && callId item = some id

/-- Every output has its call before it, or among the items `seen`. -/
def OutputsPreceded : List Json → List Json → Prop
  | _, [] => True
  | seen, item :: rest =>
    (isToolOutput item = true → ∃ call ∈ seen, Answers item call) ∧ OutputsPreceded (item :: seen) rest

theorem outputsFor_cons (id : String) (item : Json) (items : List Json) :
    outputsFor id (item :: items) =
      outputsFor id items + if isToolOutput item = true ∧ callId item = some id then 1 else 0 := by
  unfold outputsFor
  rw [countP_cons]
  simp

variable {text : Json → String} {calls outputs : List String} {id : String} {items : List Json}

theorem outputsFor_message {message : Json} (h : isMessageItem message = true) (items : List Json) :
    outputsFor id (message :: items) = outputsFor id items := by
  rw [outputsFor_cons, if_neg fun hboth => Bool.false_ne_true ((message_not_tool h).2.symm.trans hboth.1), Nat.add_zero]

theorem outputsFor_call {call : Json} (h : isToolCall call = true) (items : List Json) :
    outputsFor id (call :: items) = outputsFor id items := by
  rw [outputsFor_cons, if_neg fun hboth => Bool.false_ne_true ((isToolCall_not_output h).symm.trans hboth.1),
    Nat.add_zero]

theorem inputMessage_isMessage (message : String) : isMessageItem (inputMessage message) = true := rfl

theorem orphanMessage_isMessage (text : Json → String) (item : Json) :
    isMessageItem (orphanMessage text item) = true :=
  inputMessage_isMessage _

variable {item : Json}

theorem outputsFor_orphan (horphan : isOrphan calls item = true) (hid : id ∈ calls) :
    outputsFor id (item :: items) = outputsFor id items := by
  rw [outputsFor_cons, if_neg fun hboth => isOrphan_callId horphan hboth.2 hid, Nat.add_zero]

theorem isToolOutput_placeholder {outputType : String}
    (h : outputTypeForCall (itemType item) = some outputType) (id : String) :
    isToolOutput (placeholder outputType id) = true :=
  isToolOutputType_of_outputTypeForCall h

theorem callId_placeholder (h : callId item = some id) (outputType : String) :
    callId (placeholder outputType id) = some id := by
  obtain ⟨hmap, hne⟩ := filter_eq_some_iff.mp h
  obtain ⟨s, _, rfl⟩ := map_eq_some_iff.mp hmap
  have hread : ((placeholder outputType (Text.trim s)).get "call_id").bind Json.asStr = some (Text.trim s) := rfl
  unfold callId
  rw [hread, map_some, Text.trim_trim]
  exact filter_eq_some_iff.mpr ⟨rfl, hne⟩

theorem outputsFor_repairFrom_kept (hid : id ∈ calls) (hout : id ∈ outputs) :
    outputsFor id (repairFrom text calls outputs items) = outputsFor id items := by
  induction items generalizing outputs with
  | nil => rfl
  | cons item rest ih =>
    rw [repairFrom]
    by_cases horphan : isOrphan calls item = true
    · rw [if_pos horphan, outputsFor_message (orphanMessage_isMessage _ _), outputsFor_orphan horphan hid, ih hout]
    · rw [if_neg horphan]
      split
      · rename_i found outputType hlacking
        obtain ⟨hfound, hnot, htype⟩ := lacking_eq_some hlacking
        have hcall := isToolCall_of_outputType htype
        have hne : ¬(isToolOutput (placeholder outputType found) = true ∧
            callId (placeholder outputType found) = some id) := by
          rintro ⟨_, hsame⟩
          rw [callId_placeholder hfound] at hsame
          exact hnot (some.inj hsame ▸ hout)
        rw [outputsFor_call hcall, outputsFor_call hcall, outputsFor_cons, if_neg hne, Nat.add_zero,
          ih (mem_cons_of_mem _ hout)]
      · rw [outputsFor_cons, outputsFor_cons, ih hout]

/-- A call without an output gets exactly one. -/
theorem outputsFor_repairFrom_added (hid : id ∈ calls) (hout : id ∉ outputs) (hnone : outputsFor id items = 0)
    (hcall : ∃ call ∈ items, isToolCall call = true ∧ callId call = some id) :
    outputsFor id (repairFrom text calls outputs items) = 1 := by
  induction items generalizing outputs with
  | nil => exact absurd hcall (by simp)
  | cons item rest ih =>
    rw [repairFrom]
    have hrest : outputsFor id rest = 0 := by
      rw [outputsFor_cons] at hnone
      omega
    by_cases horphan : isOrphan calls item = true
    · rw [if_pos horphan, outputsFor_message (orphanMessage_isMessage _ _)]
      refine ih hout hrest ?_
      obtain ⟨call, hmem, hboth⟩ := hcall
      rcases mem_cons.mp hmem with rfl | hmem
      · exact absurd hid (isOrphan_callId horphan hboth.2)
      · exact ⟨call, hmem, hboth⟩
    · rw [if_neg horphan]
      split
      · rename_i found outputType hlacking
        obtain ⟨hfound, hnot, htype⟩ := lacking_eq_some hlacking
        rw [outputsFor_call (isToolCall_of_outputType htype), outputsFor_cons, callId_placeholder hfound]
        by_cases hsame : found = id
        · subst hsame
          rw [if_pos ⟨isToolOutput_placeholder htype _, rfl⟩, outputsFor_repairFrom_kept hid mem_cons_self, hrest]
        · rw [if_neg fun hboth => hsame (some.inj hboth.2), Nat.add_zero]
          refine ih (fun hmem => ?_) hrest ?_
          · rcases mem_cons.mp hmem with heq | hmem
            · exact hsame heq.symm
            · exact hout hmem
          · obtain ⟨call, hmem, hboth⟩ := hcall
            rcases mem_cons.mp hmem with rfl | hmem
            · exact absurd (some.inj (hfound.symm.trans hboth.2)) hsame
            · exact ⟨call, hmem, hboth⟩
      · rename_i hlacking
        rw [outputsFor_cons] at hnone ⊢
        rw [ih hout hrest]
        · omega
        · obtain ⟨call, hmem, hboth⟩ := hcall
          rcases mem_cons.mp hmem with rfl | hmem
          · exact absurd (lacking_eq_none hlacking hboth.1 hboth.2) hout
          · exact ⟨call, hmem, hboth⟩

theorem mem_idsOf {p : Json → Bool} : id ∈ idsOf p items ↔ ∃ item ∈ items, p item = true ∧ callId item = some id := by
  unfold idsOf
  simp only [mem_filterMap, mem_filter, and_assoc]

theorem outputsFor_eq_zero : outputsFor id items = 0 ↔ id ∉ idsOf isToolOutput items := by
  unfold outputsFor
  rw [countP_eq_zero, mem_idsOf]
  simp

theorem outputsFor_repairToolPairing {call : Json} (hmem : call ∈ items) (hcall : isToolCall call = true)
    (hid : callId call = some id) : outputsFor id (repairToolPairing text items) = max 1 (outputsFor id items) := by
  have hcalls : id ∈ idsOf isToolCall items := mem_idsOf.mpr ⟨call, hmem, hcall, hid⟩
  unfold repairToolPairing
  by_cases hout : id ∈ idsOf isToolOutput items
  · have hpos : outputsFor id items ≠ 0 := fun hzero => outputsFor_eq_zero.mp hzero hout
    rw [outputsFor_repairFrom_kept hcalls hout]
    omega
  · have hzero := outputsFor_eq_zero.mpr hout
    rw [outputsFor_repairFrom_added hcalls hout hzero ⟨call, hmem, hcall, hid⟩, hzero]
    rfl

/-! ## The order of calls and outputs -/

/-- No output stands in front of its call. -/
def OutputsAfterCalls (items : List Json) : Prop := items.Pairwise fun earlier later => ¬Answers earlier later

instance (items : List Json) : Decidable (OutputsAfterCalls items) :=
  inferInstanceAs (Decidable (items.Pairwise fun earlier later => ¬Answers earlier later))

/-- In the repaired input a call stands in front of every output. -/
theorem preceded_repairFrom {seen : List Json}
    (hcalls : ∀ id ∈ calls, ∃ call ∈ seen ++ items, isToolCall call = true ∧ callId call = some id)
    (hafter : OutputsAfterCalls items) : OutputsPreceded seen (repairFrom text calls outputs items) := by
  induction items generalizing outputs seen with
  | nil => trivial
  | cons item rest ih =>
    obtain ⟨hitem, hrest⟩ := pairwise_cons.mp hafter
    -- a call that is neither seen nor ahead is the item itself
    have hseen : ∀ seen', (∀ call ∈ seen, call ∈ seen') → (isToolCall item = true → item ∈ seen') →
        ∀ id ∈ calls, ∃ call ∈ seen' ++ rest, isToolCall call = true ∧ callId call = some id := by
      intro seen' hsub hself id hid
      obtain ⟨call, hmem, hcall, hcallId⟩ := hcalls id hid
      refine ⟨call, mem_append.mpr ?_, hcall, hcallId⟩
      rcases mem_append.mp hmem with hmem | hmem
      · exact .inl (hsub call hmem)
      · rcases mem_cons.mp hmem with rfl | hmem
        · exact .inl (hself hcall)
        · exact .inr hmem
    have hpreceded : isOrphan calls item = false → isToolOutput item = true → ∃ call ∈ seen, Answers item call := by
      intro hkept hout
      obtain ⟨id, hid, hitemId⟩ := callId_of_not_orphan hkept hout
      obtain ⟨call, hmem, hcall, hcallId⟩ := hcalls id hid
      have hanswers : Answers item call := ⟨hout, hcall, id, hitemId, hcallId⟩
      rcases mem_append.mp hmem with hmem | hmem
      · exact ⟨call, hmem, hanswers⟩
      · rcases mem_cons.mp hmem with rfl | hmem
        · exact absurd ((isToolCall_not_output hcall).symm.trans hout) Bool.false_ne_true
        · exact absurd hanswers (hitem call hmem)
    rw [repairFrom]
    by_cases horphan : isOrphan calls item = true
    · rw [if_pos horphan]
      refine ⟨fun hout => absurd ((message_not_tool (orphanMessage_isMessage _ _)).2.symm.trans hout) Bool.false_ne_true,
        ih (hseen _ (fun call hmem => mem_cons_of_mem _ hmem) fun hcall => ?_) hrest⟩
      exact absurd ((isToolCall_not_output hcall).symm.trans (isOrphan_output horphan)) Bool.false_ne_true
    · have hkept := Bool.eq_false_of_not_eq_true horphan
      rw [if_neg horphan]
      split
      · rename_i found outputType hlacking
        obtain ⟨hfound, _, htype⟩ := lacking_eq_some hlacking
        refine ⟨hpreceded hkept, fun hout => ⟨item, mem_cons_self, hout, isToolCall_of_outputType htype, found,
          callId_placeholder hfound _, hfound⟩, ih (hseen _ (fun call hmem => ?_) fun _ => ?_) hrest⟩
        · exact mem_cons_of_mem _ (mem_cons_of_mem _ hmem)
        · exact mem_cons_of_mem _ mem_cons_self
      · exact ⟨hpreceded hkept, ih (hseen _ (fun call hmem => mem_cons_of_mem _ hmem) fun _ => mem_cons_self) hrest⟩

theorem preceded_repairToolPairing (text : Json → String) (hafter : OutputsAfterCalls items) :
    OutputsPreceded [] (repairToolPairing text items) :=
  preceded_repairFrom (fun _ hid => mem_idsOf.mp hid) hafter

end

end CcSwitchServer.OverflowCompact
