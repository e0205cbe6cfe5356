import CcSwitchServer.Foundations.Checked
import CcSwitchServer.Foundations.JsonEdits
import CcSwitchServer.OverflowCompact.Pairing

/-! # Compacting a conversation (`src/proxy/overflow_compact.rs`)

The older part of an input that overflows the context window is replaced by a summary.
-/

namespace CcSwitchServer.OverflowCompact
open Foundations Json List Option

def defaultTailBytes : ℕ := 200 * 1024

def defaultSummaryInputBytes : ℕ := 512 * 1024

def minInputItems : ℕ := 4

def itemTextCapBytes : ℕ := 8 * 1024

def summaryOutputCapBytes : ℕ := 64 * 1024

def truncationMarker : String := "...[truncated]"

def summaryPrefix : String := "[Conversation summary from earlier turns]\n"

def omittedMarker : String :=
  "[Earlier conversation turns were omitted because the input exceeded the model context window.]"

/-! ## Truncating texts -/

/-- The longest start of at most `n` bytes. -/
def takeBytes : ℕ → List Char → List Char
  | _, [] => []
  | n, c :: cs => if c.utf8Size ≤ n then c :: takeBytes (n - c.utf8Size) cs else []

/-- The rest after the shortest start of at least `n` bytes. -/
def dropBytes : ℕ → List Char → List Char
  | _, [] => []
  | n, c :: cs => if n = 0 then c :: cs else dropBytes (n - c.utf8Size) cs

/-- The marker takes the place of what is cut off, at a boundary of a character. -/
def truncateUtf8 (value : String) (maxBytes : ℕ) : String :=
  if value.utf8ByteSize ≤ maxBytes then value
  else String.ofList (takeBytes (maxBytes - truncationMarker.utf8ByteSize) value.toList) ++ truncationMarker

def middleMarker : String := "\n[... middle of the transcript truncated ...]\n"

/-- A long text keeps its two ends. -/
def truncateMiddleUtf8 (value : String) (maxBytes : ℕ) : String :=
  if value.utf8ByteSize ≤ maxBytes then value
  else
    let available := maxBytes - middleMarker.utf8ByteSize
    let head := String.ofList (takeBytes (available / 2) value.toList)
    let tail := dropBytes (value.utf8ByteSize - (available - head.utf8ByteSize)) value.toList
    head ++ middleMarker ++ String.ofList tail

/-! ## The transcript -/

def flattenContentText : Option Json → String
  | some (.string s) => s
  | some (.array parts) => "\n".intercalate (partTexts parts)
  | _ => ""

def stringOr (item : Json) (key : String) : String := ((item.get key).bind asStr).getD ""

/-- What the transcript says of an item. The JSON text of a value is a parameter. -/
def transcriptLine (text : Json → String) (item : Json) : Option String :=
  if isMessageItem item then
    let role := (((item.get "role").bind asStr).filter fun role => Text.trim role ≠ "").getD "user"
    let content := flattenContentText (item.get "content")
    if content = "" then none else some (role ++ ": " ++ truncateUtf8 content itemTextCapBytes)
  else if isToolCallType (itemType item) then
    some ("assistant tool call " ++ stringOr item "name" ++ "(" ++ truncateUtf8 (stringOr item "arguments") 1024 ++ ")")
  else if isToolOutputType (itemType item) then
    some ("tool output: " ++ truncateUtf8 (flattenToolOutput text (item.get "output")) itemTextCapBytes)
  else none

def flattenTranscript (text : Json → String) (items : List Json) (capBytes : ℕ) : String :=
  truncateMiddleUtf8 ("\n".intercalate (items.filterMap (transcriptLine text))) capBytes

/-! ## The plan -/

/-- The body with a placeholder where the summary goes, and the transcript that is to be summarised. -/
structure OverflowCompactPlan where
  body : Json
  model : String
  transcript : String
  summaryIndex : ℕ
  removedItems : ℕ
  retainedItems : ℕ

/-- The cut, from the last item on; `cut` is the length of the input until an item is kept. -/
def chooseCut (size : Json → ℕ) (length : ℕ) : List Json → ℕ → ℕ → Option ℕ
  | [], cut, _ => some cut
  | item :: earlier, cut, used =>
    if cut = length ∧ size item > defaultTailBytes then none
    else if used + size item > defaultTailBytes ∧ cut < length then some cut
    else chooseCut size length earlier earlier.length (used + size item)

/-- Only such an item at the head is kept apart. -/
def isInstruction (item : Json) : Bool :=
  isMessageItem item && ((item.get "role").bind asStr).any fun role => Text.trim role ∈ ["developer", "system"]

def headStart (input : List Json) : ℕ := if input.head?.any isInstruction then 1 else 0

/-- The cut is chosen by the size of the items as JSON text, which is a parameter. -/
def prepare (size : Json → ℕ) (text : Json → String) (body : Json) : Option OverflowCompactPlan := do
  let input ← (body.get "input").bind asArray
  if input.length < minInputItems then none
  else
    let cut ← chooseCut size input.length input.reverse input.length 0
    if cut ≤ headStart input then none
    else
      let replacement := input.take (headStart input) ++ inputMessage omittedMarker :: input.drop cut
      some
        { body := body.set "input" (.array (repairToolPairing text replacement))
          model := stringOr body "model"
          transcript := flattenTranscript text ((input.take cut).drop (headStart input)) defaultSummaryInputBytes
          summaryIndex := headStart input
          removedItems := cut - headStart input
          retainedItems := input.length - cut + headStart input }

/-- Without a summary the text says that turns were omitted. -/
def replacementText (summary : Option String) : String :=
  (((summary.map Text.trim).filter fun summary => summary ≠ "").map fun summary =>
    summaryPrefix ++ truncateUtf8 summary summaryOutputCapBytes).getD omittedMarker

def setFirstText (replacement : String) (item : Json) : Json :=
  item.update "content" fun
    | .array (part :: parts) => .array (part.set "text" (.string replacement) :: parts)
    | content => content

/-- The summary takes the place of the placeholder. -/
def OverflowCompactPlan.finish (plan : OverflowCompactPlan) (summary : Option String) : Option Json := do
  let input ← (plan.body.get "input").bind asArray
  let summaryItem ← input[plan.summaryIndex]?
  return plan.body.set "input" (.array (input.set plan.summaryIndex (setFirstText (replacementText summary) summaryItem)))

/-! ## The compacted conversation -/

section

variable {text : Json → String} {id : String}

theorem idsOf_cons_of_not {p : Json → Bool} {item : Json} (h : p item = false) (items : List Json) :
    idsOf p (item :: items) = idsOf p items := by
  unfold idsOf
  rw [filter_cons, h, if_neg Bool.false_ne_true]

variable {items : List Json}

theorem outputsAfterCalls_message {message : Json} (h : isMessageItem message = true)
    (hafter : OutputsAfterCalls items) : OutputsAfterCalls (message :: items) :=
  pairwise_cons.mpr ⟨fun _ _ hanswers => Bool.false_ne_true ((message_not_tool h).2.symm.trans hanswers.1), hafter⟩

theorem repairToolPairing_message {message : Json} (h : isMessageItem message = true) (items : List Json) :
    repairToolPairing text (message :: items) = message :: repairToolPairing text items := by
  obtain ⟨hcall, hout⟩ := message_not_tool h
  unfold repairToolPairing
  rw [idsOf_cons_of_not hcall, idsOf_cons_of_not hout, repairFrom_message h]

def leading (input : List Json) : List Json := (input.head?.filter isInstruction).toList

theorem take_headStart (input : List Json) : input.take (headStart input) = leading input := by
  cases input with
  | nil => rfl
  | cons item input =>
    unfold headStart leading
    rw [head?_cons, any_some, filter_some]
    split
    · rfl
    · rfl

theorem leading_messages {input : List Json} {message : Json} (h : message ∈ leading input) :
    isMessageItem message = true := by
  obtain ⟨_, hinstruction⟩ := filter_eq_some_iff.mp (mem_toList.mp h)
  exact (Bool.and_eq_true_iff.mp hinstruction).1

theorem leading_induction {P : List Json → Prop} (step : ∀ {message items}, isMessageItem message = true → P items →
    P (message :: items)) (input : List Json) (message : String) {tail : List Json} (h : P tail) :
    P (leading input ++ inputMessage message :: tail) := by
  have hsummary : P (inputMessage message :: tail) := step (inputMessage_isMessage message) h
  have hmessages := @leading_messages input
  unfold leading at hmessages ⊢
  cases hhead : input.head?.filter isInstruction with
  | none => exact hsummary
  | some item => exact step (hmessages (by rw [hhead]; exact mem_cons_self)) hsummary

theorem repairToolPairing_leading (input : List Json) (message : String) (tail : List Json) :
    repairToolPairing text (leading input ++ inputMessage message :: tail) =
      leading input ++ inputMessage message :: repairToolPairing text tail := by
  have hmessages := @leading_messages input
  unfold leading at hmessages ⊢
  cases hhead : input.head?.filter isInstruction with
  | none => exact repairToolPairing_message (inputMessage_isMessage message) tail
  | some item =>
    have hitem : isMessageItem item = true := hmessages (by rw [hhead]; exact mem_cons_self)
    change repairToolPairing text (item :: inputMessage message :: tail) = _
    rw [repairToolPairing_message hitem, repairToolPairing_message (inputMessage_isMessage message)]
    rfl

/-- The outputs follow their calls, and every call has the outputs it has in the retained items, or one if it has
none there. -/
structure WellPaired (retained items : List Json) : Prop where
  preceded : OutputsPreceded [] items
  answered : ∀ call ∈ items, isToolCall call = true → ∀ id, callId call = some id →
    outputsFor id items = max 1 (outputsFor id retained)

theorem wellPaired_repairToolPairing (text : Json → String) {retained : List Json}
    (hafter : OutputsAfterCalls items) (hsame : ∀ id, outputsFor id items = outputsFor id retained) :
    WellPaired retained (repairToolPairing text items) where
  preceded := preceded_repairToolPairing text hafter
  answered := by
    intro call hmem hcall id hid
    have hitem : call ∈ items := (repairs_repairFrom text _ _ items).mem_of_call hmem hcall
    rw [outputsFor_repairToolPairing hitem hcall hid, hsame]

theorem setFirstText_inputMessage (replacement message : String) :
    setFirstText replacement (inputMessage message) = inputMessage replacement := rfl

theorem chooseCut_le {size : Json → ℕ} {length : ℕ} {cut used found : ℕ}
    (h : chooseCut size length items cut used = some found) (hcut : cut ≤ length) (hitems : items.length ≤ length) :
    found ≤ length := by
  induction items generalizing cut used with
  | nil => exact some.inj h ▸ hcut
  | cons item earlier ih =>
    rw [length_cons] at hitems
    rw [chooseCut] at h
    split at h
    · cases h
    · split at h
      · exact some.inj h ▸ hcut
      · exact ih h (by omega) (by omega)

/-- A plan holds the head, the placeholder and the repaired tail, in this order. -/
theorem prepare_spec {size : Json → ℕ} {body : Json} {plan : OverflowCompactPlan} {input : List Json}
    (h : prepare size text body = some plan) (hinput : body.get "input" = some (.array input)) :
    ∃ removed retained, input = leading input ++ removed ++ retained ∧ removed ≠ [] ∧
      plan.removedItems = removed.length ∧ plan.summaryIndex = (leading input).length ∧
      plan.body = body.set "input"
        (.array (leading input ++ inputMessage omittedMarker :: repairToolPairing text retained)) := by
  unfold prepare at h
  rw [hinput] at h
  change (if input.length < minInputItems then none else _) = some plan at h
  split at h
  · cases h
  · obtain ⟨cut, hchoose, hif⟩ := bind_eq_some_iff.mp h
    split at hif
    · cases hif
    · rename_i hlong hcut
      rw [take_headStart] at hif
      obtain rfl := some.inj hif
      have hle : cut ≤ input.length := chooseCut_le hchoose le_rfl (length_reverse.le)
      have hremoved : ((input.take cut).drop (headStart input)).length = cut - headStart input := by
        rw [length_drop, length_take, min_eq_left hle]
      have hleading : (input.take cut).take (headStart input) = leading input := by
        rw [take_take, min_eq_left (Nat.le_of_not_le hcut), take_headStart]
      refine ⟨(input.take cut).drop (headStart input), input.drop cut, ?_, fun hnil => ?_, hremoved.symm, ?_,
        congrArg (fun items => body.set "input" (.array items)) (repairToolPairing_leading input _ _)⟩
      · rw [← hleading, take_append_drop, take_append_drop]
      · rw [hnil, length_nil] at hremoved
        exact hcut (Nat.sub_eq_zero_iff_le.mp hremoved.symm)
      · rw [← take_headStart, length_take]
        exact (min_eq_left ((Nat.le_of_not_le hcut).trans hle)).symm

theorem finish_spec {body : Json} {plan : OverflowCompactPlan} {before after : List Json}
    (hobject : (body.get "input").isSome)
    (hbody : plan.body = body.set "input" (.array (before ++ inputMessage omittedMarker :: after)))
    (hindex : plan.summaryIndex = before.length) (summary : Option String) :
    plan.finish summary =
      some (body.set "input" (.array (before ++ inputMessage (replacementText summary) :: after))) := by
  have hget : plan.body.get "input" = some (.array (before ++ inputMessage omittedMarker :: after)) := by
    rw [hbody, Json.get_set hobject]
  have hitem : (before ++ inputMessage omittedMarker :: after)[plan.summaryIndex]? =
      some (inputMessage omittedMarker) := by
    rw [hindex, List.getElem?_append_right le_rfl, Nat.sub_self]
    rfl
  have hset : (before ++ inputMessage omittedMarker :: after).set plan.summaryIndex
      (inputMessage (replacementText summary)) = before ++ inputMessage (replacementText summary) :: after := by
    rw [hindex, List.set_append_right _ _ le_rfl, Nat.sub_self]
    rfl
  unfold OverflowCompactPlan.finish
  rw [hget]
  change ((before ++ inputMessage omittedMarker :: after)[plan.summaryIndex]?).bind _ = _
  rw [hitem, Option.bind_some, setFirstText_inputMessage, hset, hbody, Json.set_set]
  rfl

/-- A compacted conversation has its leading instruction, one summary and the repaired items after the cut, in which
outputs and calls are paired; finishing with another summary changes nothing else. -/
theorem finish_wellPaired {size : Json → ℕ} {body : Json} {plan : OverflowCompactPlan} {input : List Json}
    (h : prepare size text body = some plan) (hinput : body.get "input" = some (.array input))
    (hafter : OutputsAfterCalls input) :
    ∃ removed retained repaired, input = leading input ++ removed ++ retained ∧ removed ≠ [] ∧
      plan.removedItems = removed.length ∧ Repairs text (idsOf isToolCall retained) retained repaired ∧
      ∀ summary, plan.finish summary = some (body.set "input"
          (.array (leading input ++ inputMessage (replacementText summary) :: repaired))) ∧
        WellPaired retained (leading input ++ inputMessage (replacementText summary) :: repaired) := by
  obtain ⟨removed, retained, hsplit, hne, hcount, hindex, hbody⟩ := prepare_spec h hinput
  refine ⟨removed, retained, repairToolPairing text retained, hsplit, hne, hcount, repairs_repairFrom text _ _ retained,
    fun summary => ⟨finish_spec (by rw [hinput]; rfl) hbody hindex summary, ?_⟩⟩
  rw [← repairToolPairing_leading]
  have hretained : OutputsAfterCalls retained := by
    unfold OutputsAfterCalls at hafter ⊢
    rw [hsplit] at hafter
    exact (pairwise_append.mp hafter).2.1
  refine wellPaired_repairToolPairing text ?_ fun id => ?_
  · exact leading_induction (fun hmessage hitems => outputsAfterCalls_message hmessage hitems) input _ hretained
  · exact leading_induction (P := fun items => outputsFor id items = outputsFor id retained)
      (fun hmessage hitems => (outputsFor_message hmessage _).trans hitems) input _ rfl

end

/-! ## A call with two outputs -/

section

/-- Two messages to drop, a call answered twice, an output without its call and a call without output. -/
def answeredTwice : List Json :=
  [inputMessage "old", inputMessage (String.ofList (replicate 215040 'x')),
    .object [("type", .string "function_call"), ("call_id", .string "c")],
    .object [("type", .string "function_call_output"), ("call_id", .string "c"), ("output", .string "1")],
    .object [("type", .string "function_call_output"), ("call_id", .string "c"), ("output", .string "2")],
    .object [("type", .string "function_call_output"), ("call_id", .string "o"), ("output", .string "3")],
    .object [("type", .string "function_call"), ("call_id", .string "u")]]

def answeredTwiceBody : Json := .object [("input", .array answeredTwice)]

def answeredTwiceSize (item : Json) : ℕ :=
  match itemType item with
  | "function_call" => 38
  | "function_call_output" => 58
  | _ => 215116

theorem finish_answeredTwice :
    OutputsAfterCalls answeredTwice ∧ (idsOf isToolCall answeredTwice).Nodup ∧
    (((prepare answeredTwiceSize (fun _ => "") answeredTwiceBody).bind fun plan => plan.finish none).bind fun body =>
      ((body.get "input").bind asArray).map (outputsFor "c")) = some 2 := by
  decide

theorem prepare_answeredTwice :
    (prepare answeredTwiceSize (fun _ => "") answeredTwiceBody).map (·.removedItems) = some 2 := by
  decide

theorem finish_wellPaired_answeredTwice :
    ∃ plan, prepare answeredTwiceSize (fun _ => "") answeredTwiceBody = some plan ∧ plan.removedItems = 2 ∧
    ∃ removed retained repaired, answeredTwice = leading answeredTwice ++ removed ++ retained ∧ removed ≠ [] ∧
      plan.removedItems = removed.length ∧
      Repairs (fun _ => "") (idsOf isToolCall retained) retained repaired ∧
      ∀ summary, plan.finish summary = some (answeredTwiceBody.set "input"
          (.array (leading answeredTwice ++ inputMessage (replacementText summary) :: repaired))) ∧
        WellPaired retained (leading answeredTwice ++ inputMessage (replacementText summary) :: repaired) := by
  obtain ⟨plan, hplan, hremoved⟩ := map_eq_some_iff.mp prepare_answeredTwice
  exact ⟨plan, hplan, hremoved, finish_wellPaired hplan rfl (by decide)⟩

end

end CcSwitchServer.OverflowCompact
