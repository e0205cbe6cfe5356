import CcSwitchServer.GeminiStream.Frames

/-! # The text of a block

The upstream sends new text in every part, or all text so far; which of the two is guessed from the texts.
-/

namespace CcSwitchServer.GeminiStream
open Foundations List String StreamFrame Emitter GeminiAnthropicState

/-! ## Incremental text -/

/-- What the parts of a block add, one after the other. -/
def deltas : String → List String → List String
  | _, [] => []
  | seen, part :: parts => (geminiIncrementalText seen part).2 :: deltas (geminiIncrementalText seen part).1 parts

/-- One of the two texts begins with the other, so the part may be a snapshot. -/
def Ambiguous (seen part : String) : Prop := seen.toList <+: part.toList ∨ part.toList <+: seen.toList

/-- The part holds text, and no NUL that would be cut off. -/
def Written (part : String) : Prop := part ≠ "" ∧ '\x00' ∉ part.toList

theorem rdropWhile_nul {cs : List Char} (h : '\x00' ∉ cs) : cs.rdropWhile (· = '\x00') = cs := by
  rw [rdropWhile_eq_self_iff]
  intro hne hlast
  exact h (of_decide_eq_true hlast ▸ getLast_mem hne)

section
variable {seen part : String}

variable (h : Written part)
include h

theorem geminiIncrementalText_eq : geminiIncrementalText seen part =
    if seen.toList <+: part.toList then (part, ofList (part.toList.drop seen.toList.length))
    else if part.toList <+: seen.toList then (seen, "")
    else (seen ++ part, part) := by
  unfold geminiIncrementalText
  rw [rdropWhile_nul h.2, ofList_toList]
  exact if_neg h.1

theorem incremental_of_extends (hseen : seen.toList <+: part.toList) :
    geminiIncrementalText seen part = (part, ofList (part.toList.drop seen.toList.length)) := by
  rw [geminiIncrementalText_eq h, if_pos hseen]

theorem incremental_of_not_ambiguous (hnew : ¬ Ambiguous seen part) :
    geminiIncrementalText seen part = (seen ++ part, part) := by
  unfold Ambiguous at hnew
  push Not at hnew
  rw [geminiIncrementalText_eq h, if_neg hnew.1, if_neg hnew.2]

theorem incremental_first : geminiIncrementalText "" part = (part, part) := by
  have hempty : ("" : String).toList <+: part.toList := by
    rw [toList_empty]
    exact nil_prefix
  rw [incremental_of_extends h hempty, toList_empty, length_nil, drop_zero, ofList_toList]

theorem delta_length_le :
    (geminiIncrementalText seen part).2.toList.length ≤ part.toList.length := by
  rw [geminiIncrementalText_eq h]
  split
  · rw [toList_ofList, length_drop]
    omega
  · split
    · exact Nat.zero_le _
    · exact le_refl _

theorem delta_length_lt (hseen : seen ≠ "") (hamb : Ambiguous seen part) :
    (geminiIncrementalText seen part).2.toList.length < part.toList.length := by
  have hpart : 0 < part.toList.length := by
    rw [length_pos_iff]
    exact fun hnil => h.1 (toList_eq_nil_iff.mp hnil)
  have hpos : 0 < seen.toList.length := by
    rw [length_pos_iff]
    exact fun hnil => hseen (toList_eq_nil_iff.mp hnil)
  rw [geminiIncrementalText_eq h]
  split
  · rw [toList_ofList, length_drop]
    omega
  · rename_i hext
    rw [if_pos (hamb.resolve_left hext)]
    exact hpart

end

/-! ## Many parts -/

variable {parts : List String} {seen : String}

theorem join_deltas_length_le (seen : String) (h : ∀ part ∈ parts, Written part) :
    (join (deltas seen parts)).toList.length ≤ (join parts).toList.length := by
  induction parts generalizing seen with
  | nil => exact le_refl _
  | cons part parts ih =>
    have hhead : (geminiIncrementalText seen part).2.toList.length ≤ part.toList.length :=
      delta_length_le (h part mem_cons_self)
    have htail := ih (geminiIncrementalText seen part).1 fun part' hpart' => h part' (mem_cons_of_mem part hpart')
    rw [deltas, join_cons, join_cons, toList_append, toList_append, List.length_append, List.length_append]
    omega

/-- No part could be taken for a snapshot of the text before it. -/
def Unambiguous (seen : String) (parts : List String) : Prop :=
  ∀ before part after, parts = before ++ part :: after → ¬ Ambiguous (seen ++ join before) part

theorem unambiguous_cons {part : String} :
    Unambiguous seen (part :: parts) ↔ ¬ Ambiguous seen part ∧ Unambiguous (seen ++ part) parts := by
  constructor
  · intro h
    refine ⟨?_, fun before part' after hparts => ?_⟩
    · have := h [] part parts rfl
      rwa [join_nil, append_empty] at this
    · have := h (part :: before) part' after (by rw [hparts, cons_append])
      rwa [String.join_cons, ← String.append_assoc] at this
  · rintro ⟨hhead, htail⟩ before part' after hparts
    cases before with
    | nil =>
      obtain ⟨rfl, rfl⟩ := cons.inj hparts
      rwa [join_nil, append_empty]
    | cons first before =>
      obtain ⟨rfl, hrest⟩ := cons.inj hparts
      rw [String.join_cons, ← String.append_assoc]
      exact htail before part' after hrest

/-- New text is read right exactly as long as no part could be taken for a snapshot. -/
theorem join_deltas_eq_iff (hseen : seen ≠ "") (h : ∀ part ∈ parts, Written part) :
    String.join (deltas seen parts) = String.join parts ↔ Unambiguous seen parts := by
  induction parts generalizing seen with
  | nil =>
    refine ⟨fun _ before part after hparts => ?_, fun _ => rfl⟩
    cases before <;> cases hparts
  | cons part parts ih =>
    have hpart := h part List.mem_cons_self
    have hparts := fun part' hpart' => h part' (List.mem_cons_of_mem part hpart')
    rw [unambiguous_cons, deltas, String.join_cons, String.join_cons]
    by_cases hamb : Ambiguous seen part
    · refine ⟨fun heq => ?_, fun hnew => absurd hamb hnew.1⟩
      have hlt := delta_length_lt hpart hseen hamb
      have hle := join_deltas_length_le (geminiIncrementalText seen part).1 hparts
      have hlength := congrArg (fun text : String => text.toList.length) heq
      simp only [String.toList_append, List.length_append] at hlength
      omega
    · rw [incremental_of_not_ambiguous hpart hamb]
      have hne : seen ++ part ≠ "" := fun hempty =>
        hseen (String.append_eq_empty_iff.mp hempty).1
      rw [String.append_right_inj, ih hne hparts]
      exact ⟨fun hrest => ⟨hamb, hrest⟩, fun hrest => hrest.2⟩

/-- Every part is all text so far. -/
def Cumulative (parts : List String) : Prop := parts.IsChain fun before part => before.toList <+: part.toList

theorem join_deltas_cumulative (h : ∀ part ∈ parts, Written part) (hchain : Cumulative (seen :: parts)) :
    seen ++ join (deltas seen parts) = parts.getLast?.getD seen := by
  induction parts generalizing seen with
  | nil => exact append_empty
  | cons part parts ih =>
    have hpart := h part mem_cons_self
    obtain ⟨hext, hrest⟩ := isChain_cons_cons.mp hchain
    have hgrown : seen ++ ofList (part.toList.drop seen.toList.length) = part := by
      rw [← toList_inj, toList_append, toList_ofList]
      exact prefix_iff_eq_append.mp hext
    rw [deltas, String.join_cons, incremental_of_extends hpart hext, ← String.append_assoc, hgrown,
      ih (fun part' hpart' => h part' (mem_cons_of_mem part hpart')) hrest, getLast?_cons, Option.getD_some]

/-! ## Written text -/

def StreamFrame.text? : StreamFrame → Option String
  | .contentBlockDelta _ (.text text) => some text
  | _ => none

def StreamFrame.thinking? : StreamFrame → Option String
  | .contentBlockDelta _ (.thinking thinking) => some thinking
  | _ => none

def writtenText (frames : List StreamFrame) : String := join (frames.filterMap text?)

def writtenThinking (frames : List StreamFrame) : String := join (frames.filterMap thinking?)

theorem kind_of_text {frame : StreamFrame} (h : frame.text?.isSome) : frame.kind = .text := by
  unfold text? at h
  split at h
  · rfl
  · cases h

theorem kind_of_thinking {frame : StreamFrame} (h : frame.thinking?.isSome) : frame.kind = .thinking := by
  unfold thinking? at h
  split at h
  · rfl
  · cases h

/-! ## One block -/

/-- What arrives inside a block: a part of it, or grounding that is cited in it. -/
inductive BlockInput (π : Type)
  | part (input : π)
  | grounding (metadata : Json)

namespace BlockInput
variable {π : Type}

def part? : BlockInput π → Option π
  | .part input => some input
  | .grounding _ => none

def observeGrounding (metadata : Json) (s : GeminiAnthropicState) : GeminiAnthropicState :=
  { s with grounding := s.grounding.observeMetadata metadata }

def write (writePart : π → Writing) : BlockInput π → Writing
  | .part input => writePart input
  | .grounding metadata => (silent (observeGrounding metadata)).andThen emitGroundingCitations

end BlockInput

/-- An open block goes on; otherwise the text begins anew. -/
def seenInText (s : GeminiAnthropicState) : String := if isOpen s.textBlock then s.textSeen else ""

def seenInThinking (s : GeminiAnthropicState) : String := if isOpen s.thinkingBlock then s.thinkingSeen else ""

theorem seenInText_of_closed {s : GeminiAnthropicState} (h : isOpen s.textBlock = false) : seenInText s = "" :=
  if_neg (by rw [h]; exact Bool.false_ne_true)

theorem seenInThinking_of_closed {s : GeminiAnthropicState} (h : isOpen s.thinkingBlock = false) :
    seenInThinking s = "" :=
  if_neg (by rw [h]; exact Bool.false_ne_true)

theorem writtenText_append (frames frames' : List StreamFrame) :
    writtenText (frames ++ frames') = writtenText frames ++ writtenText frames' := by
  unfold writtenText
  rw [filterMap_append, join_append]

theorem writtenThinking_append (frames frames' : List StreamFrame) :
    writtenThinking (frames ++ frames') = writtenThinking frames ++ writtenThinking frames' := by
  unfold writtenThinking
  rw [filterMap_append, join_append]

section
variable {f : Writing} {α : Type} {view : GeminiAnthropicState → α} {kinds : List FrameKind}

variable (h : Emitter.Leaves view (StreamFrame.Outside kinds) f)
include h

theorem writtenText_of_leaves (hkinds : .text ∉ kinds)
    (s : GeminiAnthropicState) : writtenText (f s).2 = "" := by
  unfold writtenText
  have hsilent : (f s).2.filterMap text? = [] := h.filterMap_eq_nil (fun frame hframe => by
    rw [StreamFrame.Outside, kind_of_text hframe]
    exact hkinds) s
  rw [hsilent, join_nil]

theorem writtenThinking_of_leaves
    (hkinds : .thinking ∉ kinds) (s : GeminiAnthropicState) : writtenThinking (f s).2 = "" := by
  unfold writtenThinking
  have hsilent : (f s).2.filterMap thinking? = [] := h.filterMap_eq_nil (fun frame hframe => by
    rw [StreamFrame.Outside, kind_of_thinking hframe]
    exact hkinds) s
  rw [hsilent, join_nil]

end

/-! ## Text parts -/

variable (s : GeminiAnthropicState)

theorem openTextBlock_spec :
    writtenText (openTextBlock s).2 = "" ∧ isOpen (openTextBlock s).1.textBlock = true ∧
      (openTextBlock s).1.textSeen = seenInText s := by
  unfold openTextBlock seenInText
  split
  · rename_i hopen
    exact ⟨join_nil, hopen, rfl⟩
  · exact ⟨join_nil, rfl, rfl⟩

theorem fillTextBlock_spec (partIndex : ℕ) (text : String) (s : GeminiAnthropicState) :
    writtenText (fillTextBlock partIndex text s).2 = (geminiIncrementalText s.textSeen text).2 ∧
      (fillTextBlock partIndex text s).1.textBlock = s.textBlock ∧
      (fillTextBlock partIndex text s).1.textSeen = (geminiIncrementalText s.textSeen text).1 := by
  unfold fillTextBlock
  cases geminiIncrementalText s.textSeen text with
  | mk seen delta =>
    simp only
    split
    · rename_i hempty
      exact ⟨join_nil.trans hempty.symm, rfl, rfl⟩
    · refine ⟨?_, rfl, rfl⟩
      change join [delta] = delta
      rw [join_cons, join_nil, append_empty]

/-- A part of text writes what it adds to the open block. -/
theorem textDelta_spec (partIndex : ℕ) (text : String) (s : GeminiAnthropicState) :
    writtenText (textDelta partIndex text s).2 = (geminiIncrementalText (seenInText s) text).2 ∧
      seenInText (textDelta partIndex text s).1 = (geminiIncrementalText (seenInText s) text).1 := by
  unfold textDelta
  simp only [andThen_fst, andThen_snd]
  have hthinking := closeThinkingBlock_leaves s
  have hfirst := writtenText_of_leaves closeThinkingBlock_leaves (by decide) s
  generalize closeThinkingBlock s = step at hthinking hfirst ⊢
  have htools := closeToolBlocks_leaves step.1
  have hsecond := writtenText_of_leaves closeToolBlocks_leaves (by decide) step.1
  generalize closeToolBlocks step.1 = closed at htools hsecond ⊢
  have hsame : seenInText closed.1 = seenInText s := by
    have hafterTools := congrArg seenInText htools.1
    have hafterThinking := congrArg seenInText hthinking.1
    exact Eq.trans hafterTools hafterThinking
  obtain ⟨hthird, hopen, hopened⟩ := openTextBlock_spec closed.1
  obtain ⟨hfourth, hkept, hfilled⟩ := fillTextBlock_spec partIndex text (openTextBlock closed.1).1
  rw [hopened, hsame] at hfourth hfilled
  constructor
  · rw [writtenText_append, writtenText_append, writtenText_append, hfirst, hsecond, hthird, hfourth,
      empty_append, empty_append, empty_append]
  · unfold seenInText at hfilled ⊢
    rw [if_pos (hkept.symm ▸ hopen), hfilled]

theorem textRun_spec (inputs : List (BlockInput (ℕ × String))) (s : GeminiAnthropicState) :
    writtenText (each (BlockInput.write fun part => textDelta part.1 part.2) inputs s).2 =
      join (deltas (seenInText s) ((inputs.filterMap BlockInput.part?).map Prod.snd)) := by
  induction inputs generalizing s with
  | nil => rfl
  | cons input inputs ih =>
    rw [each_cons, andThen_snd, writtenText_append, ih]
    cases input with
    | part input =>
      obtain ⟨hwritten, hseen⟩ := textDelta_spec input.1 input.2 s
      change _ = join (deltas (seenInText s) (input.2 :: (inputs.filterMap BlockInput.part?).map Prod.snd))
      rw [deltas, join_cons, ← hwritten, ← hseen]
      rfl
    | grounding metadata =>
      have hsame := congrArg seenInText (emitGroundingCitations_leaves (BlockInput.observeGrounding metadata s)).1
      have hsilent := writtenText_of_leaves emitGroundingCitations_leaves (by decide)
        (BlockInput.observeGrounding metadata s)
      refine (congrArg₂ _ hsilent ?_).trans empty_append
      exact congrArg (fun seen => join (deltas seen _)) hsame

/-! ## Thinking parts -/

theorem closeResignedBlock_of_agree {signature : Option String} {s : GeminiAnthropicState}
    (h : ∀ x ∈ s.thinkingSignature, ∀ y ∈ signature, x = y) : closeResignedBlock signature s = (s, []) := by
  refine if_neg ?_
  rintro ⟨hknown, hgiven, hne⟩
  obtain ⟨x, hx⟩ := Option.isSome_iff_exists.mp hknown
  obtain ⟨y, hy⟩ := Option.isSome_iff_exists.mp hgiven
  exact hne (by rw [hx, hy, h x hx y hy])

theorem openThinkingBlock_spec :
    writtenThinking (openThinkingBlock s).2 = "" ∧ isOpen (openThinkingBlock s).1.thinkingBlock = true ∧
      (openThinkingBlock s).1.thinkingSeen = seenInThinking s ∧
      (openThinkingBlock s).1.thinkingSignature = s.thinkingSignature := by
  unfold openThinkingBlock seenInThinking
  split
  · rename_i hopen
    exact ⟨join_nil, hopen, rfl, rfl⟩
  · exact ⟨join_nil, rfl, rfl, rfl⟩

theorem fillThinkingBlock_spec (text : Option String) (s : GeminiAnthropicState) :
    writtenThinking (fillThinkingBlock text s).2 = join (deltas s.thinkingSeen text.toList) ∧
      (fillThinkingBlock text s).1.thinkingBlock = s.thinkingBlock ∧
      (fillThinkingBlock text s).1.thinkingSeen =
        text.elim s.thinkingSeen (fun text => (geminiIncrementalText s.thinkingSeen text).1) ∧
      (fillThinkingBlock text s).1.thinkingSignature = s.thinkingSignature := by
  unfold fillThinkingBlock
  cases text with
  | none => exact ⟨rfl, rfl, rfl, rfl⟩
  | some text =>
    refine ⟨?_, rfl, rfl, rfl⟩
    change writtenThinking (if (geminiIncrementalText s.thinkingSeen text).2 = "" then [] else _) =
      join [(geminiIncrementalText s.thinkingSeen text).2]
    split
    · rename_i hempty
      rw [hempty]
      rfl
    · rfl

theorem thinkingDelta_spec (part : Part) (s : GeminiAnthropicState)
    (h : ∀ x ∈ s.thinkingSignature, ∀ y ∈ part.signature, x = y) :
    writtenThinking (thinkingDelta part s).2 = join (deltas (seenInThinking s) part.text.toList) ∧
      seenInThinking (thinkingDelta part s).1 =
        part.text.elim (seenInThinking s) (fun text => (geminiIncrementalText (seenInThinking s) text).1) ∧
      (thinkingDelta part s).1.thinkingSignature = part.signature.orElse fun _ => s.thinkingSignature := by
  unfold thinkingDelta
  simp only [andThen_fst, andThen_snd, silent_apply, append_nil]
  have htext := (closeTextBlock_leaves s).1
  have hfirst := writtenThinking_of_leaves closeTextBlock_leaves (by decide) s
  generalize closeTextBlock s = step at htext hfirst ⊢
  have htools := (closeToolBlocks_leaves step.1).1
  have hsecond := writtenThinking_of_leaves closeToolBlocks_leaves (by decide) step.1
  generalize closeToolBlocks step.1 = closed at htools hsecond ⊢
  have hsame : seenInThinking closed.1 = seenInThinking s := by
    have hafterTools := congrArg seenInThinking htools
    have hafterText := congrArg seenInThinking htext
    exact Eq.trans hafterTools hafterText
  have hsignature : closed.1.thinkingSignature = s.thinkingSignature := by
    have hafterTools := congrArg thinkingSignature htools
    have hafterText := congrArg thinkingSignature htext
    exact Eq.trans hafterTools hafterText
  rw [closeResignedBlock_of_agree (hsignature ▸ h)]
  obtain ⟨hthird, hopen, hopened, hkeptSignature⟩ := openThinkingBlock_spec closed.1
  obtain ⟨hfourth, hkept, hfilled, hlast⟩ := fillThinkingBlock_spec part.text (openThinkingBlock closed.1).1
  rw [hopened, hsame] at hfourth hfilled
  refine ⟨?_, ?_, ?_⟩
  · simp only [writtenThinking_append]
    rw [hfirst, hsecond, hthird, hfourth, empty_append, empty_append, empty_append]
    exact empty_append
  · change (if isOpen (fillThinkingBlock part.text (openThinkingBlock closed.1).1).1.thinkingBlock = true then
      (fillThinkingBlock part.text (openThinkingBlock closed.1).1).1.thinkingSeen else "") = _
    rw [if_pos (hkept.symm ▸ hopen), hfilled]
  · change part.signature.orElse (fun _ =>
      (fillThinkingBlock part.text (openThinkingBlock closed.1).1).1.thinkingSignature) = _
    rw [hlast, hkeptSignature, hsignature]

/-- No part is signed anew, which would begin a block. -/
def SameSignature (parts : List Part) : Prop :=
  ∃ signature, (∀ x ∈ s.thinkingSignature, x = signature) ∧ ∀ part ∈ parts, ∀ x ∈ part.signature, x = signature

theorem deltas_append_option (seen : String) (text : Option String) (texts : List String) :
    join (deltas seen (text.toList ++ texts)) = join (deltas seen text.toList) ++
      join (deltas (text.elim seen fun text => (geminiIncrementalText seen text).1) texts) := by
  cases text with
  | none => exact empty_append.symm
  | some text =>
    change join (_ :: deltas (geminiIncrementalText seen text).1 texts) = join [_] ++ _
    rw [join_cons, join_cons, join_nil, append_empty]
    rfl

/-- Under one signature all thinking goes to one block. -/
theorem thinkingRun_spec (inputs : List (BlockInput Part)) (s : GeminiAnthropicState)
    (h : SameSignature s (inputs.filterMap BlockInput.part?)) :
    writtenThinking (each (BlockInput.write thinkingDelta) inputs s).2 =
      join (deltas (seenInThinking s) ((inputs.filterMap BlockInput.part?).filterMap Part.text)) := by
  induction inputs generalizing s with
  | nil => rfl
  | cons input inputs ih =>
    obtain ⟨signature, hstate, hparts⟩ := h
    rw [each_cons, andThen_snd, writtenThinking_append]
    cases input with
    | part input =>
      have hinput := hparts input mem_cons_self
      obtain ⟨hwritten, hseen, hstored⟩ := thinkingDelta_spec input s fun x hx y hy =>
        (hstate x hx).trans (hinput y hy).symm
      have hrest := ih (thinkingDelta input s).1 ⟨signature, fun x hx => by
        rw [hstored] at hx
        cases hgiven : input.signature with
        | none =>
          rw [hgiven] at hx
          exact hstate x hx
        | some given =>
          rw [hgiven] at hx
          exact hinput x (hgiven.trans hx), fun part hpart => hparts part (mem_cons_of_mem input hpart)⟩
      have hsplit : (((BlockInput.part input :: inputs).filterMap BlockInput.part?).filterMap Part.text) =
          input.text.toList ++ (inputs.filterMap BlockInput.part?).filterMap Part.text := by
        change (input :: inputs.filterMap BlockInput.part?).filterMap Part.text = _
        rw [filterMap_cons]
        cases input.text <;> rfl
      rw [hsplit, deltas_append_option, ← hwritten, ← hseen, ← hrest]
      rfl
    | grounding metadata =>
      have hstep := (emitGroundingCitations_leaves (BlockInput.observeGrounding metadata s)).1
      have hsame := congrArg seenInThinking hstep
      have hsignature := congrArg thinkingSignature hstep
      have hsilent := writtenThinking_of_leaves emitGroundingCitations_leaves (by decide)
        (BlockInput.observeGrounding metadata s)
      have hrest := ih (emitGroundingCitations (BlockInput.observeGrounding metadata s)).1 ⟨signature, fun x hx =>
        hstate x (Eq.trans hsignature.symm hx), hparts⟩
      refine (congrArg₂ _ hsilent hrest).trans (empty_append.trans ?_)
      exact congrArg (fun seen => join (deltas seen _)) hsame

/-! ## Snapshots and new text -/

/-- The parts are new text, none of which could be a snapshot. -/
def AllNew (parts : List String) : Prop :=
  ∀ before part after, parts = before ++ part :: after → before ≠ [] → ¬ Ambiguous (join before) part

theorem allNew_cons {part : String} {parts : List String} : AllNew (part :: parts) ↔ Unambiguous part parts := by
  constructor
  · intro h before part' after hparts
    have := h (part :: before) part' after (by rw [hparts, cons_append]) (cons_ne_nil _ _)
    rwa [join_cons] at this
  · intro h before part' after hparts hbefore
    cases before with
    | nil => exact absurd rfl hbefore
    | cons first before =>
      obtain ⟨rfl, hrest⟩ := cons.inj hparts
      rw [join_cons]
      exact h before part' after hrest

/-- The deltas of a block from its begin: the last snapshot, and all of the new text if none is ambiguous. -/
theorem block_deltas {parts : List String} (h : ∀ part ∈ parts, Written part) :
    (Cumulative parts → join (deltas "" parts) = parts.getLast?.getD "") ∧
      (join (deltas "" parts) = join parts ↔ AllNew parts) := by
  constructor
  · intro hchain
    have hfromEmpty : Cumulative ("" :: parts) := by
      cases parts with
      | nil => exact isChain_singleton _
      | cons part parts =>
        refine isChain_cons_cons.mpr ⟨?_, hchain⟩
        rw [toList_empty]
        exact nil_prefix
    have := join_deltas_cumulative h hfromEmpty
    rwa [empty_append] at this
  · cases parts with
    | nil =>
      refine ⟨fun _ before part after hparts => ?_, fun _ => rfl⟩
      cases before <;> cases hparts
    | cons part parts =>
      have hpart := h part mem_cons_self
      rw [allNew_cons, deltas, incremental_first hpart, String.join_cons, String.join_cons, String.append_right_inj]
      exact join_deltas_eq_iff hpart.1 fun part' hpart' => h part' (mem_cons_of_mem part hpart')

/-- Inside one block, snapshots are read right, and new text exactly if no part could be a snapshot. -/
theorem block_text (s : GeminiAnthropicState) :
    (isOpen s.textBlock = false → ∀ (inputs : List (BlockInput (ℕ × String))) (parts : List String),
      (inputs.filterMap BlockInput.part?).map Prod.snd = parts → (∀ part ∈ parts, Written part) →
      (Cumulative parts → writtenText (each (BlockInput.write fun part => textDelta part.1 part.2) inputs s).2 =
          parts.getLast?.getD "") ∧
      (writtenText (each (BlockInput.write fun part => textDelta part.1 part.2) inputs s).2 =
        join parts ↔ AllNew parts)) ∧
    (isOpen s.thinkingBlock = false → ∀ (inputs : List (BlockInput Part)) (parts : List String),
      (inputs.filterMap BlockInput.part?).filterMap Part.text = parts → (∀ part ∈ parts, Written part) →
      SameSignature s (inputs.filterMap BlockInput.part?) → (Cumulative parts →
        writtenThinking (each (BlockInput.write thinkingDelta) inputs s).2 = parts.getLast?.getD "") ∧
      (writtenThinking (each (BlockInput.write thinkingDelta) inputs s).2 = join parts ↔ AllNew parts)) := by
  constructor
  · rintro hclosed inputs parts rfl hwritten
    rw [textRun_spec, seenInText_of_closed hclosed]
    exact block_deltas hwritten
  · rintro hclosed inputs parts rfl hwritten hsignature
    rw [thinkingRun_spec inputs s hsignature, seenInThinking_of_closed hclosed]
    exact block_deltas hwritten

/-- Snapshots and new text around a grounding, and snapshots of a signed thinking block. -/
theorem block_text_hello :
    writtenText (each (BlockInput.write fun part => textDelta part.1 part.2)
      [.part (0, "He"), .grounding .null, .part (0, "Hello")] ({} : GeminiAnthropicState)).2 = "Hello" ∧
    AllNew ["He", "llo"] ∧
    writtenThinking (each (BlockInput.write thinkingDelta)
      [.part ⟨true, some "Hm", some "s", none⟩, .part ⟨true, some "Hmm", some "s", none⟩]
      ({} : GeminiAnthropicState)).2 = "Hmm" := by
  have hwritten : ∀ parts ∈ [["He", "Hello"], ["He", "llo"], ["Hm", "Hmm"]], ∀ part ∈ parts, Written part := by
    unfold Written
    decide
  obtain ⟨htext, hthinking⟩ := block_text {}
  refine ⟨?_, ?_, ?_⟩
  · exact (htext rfl [.part (0, "He"), .grounding .null, .part (0, "Hello")] ["He", "Hello"] rfl
      (hwritten _ (by decide))).1 (by unfold Cumulative; decide)
  · exact (htext rfl [.part (0, "He"), .part (0, "llo")] ["He", "llo"] rfl (hwritten _ (by decide))).2.mp (by decide)
  · exact (hthinking rfl _ ["Hm", "Hmm"] rfl (hwritten _ (by decide))
      ⟨"s", by decide, by decide⟩).1 (by unfold Cumulative; decide)

/-- New text that repeats the text before it is lost. -/
theorem repeated_text_lost :
    (∀ part ∈ ["ha", "ha"], Written part) ∧
      writtenText (each (BlockInput.write fun part => textDelta part.1 part.2)
        [.part (0, "ha"), .part (0, "ha")] ({} : GeminiAnthropicState)).2 ≠ join ["ha", "ha"] := by
  constructor
  · intro part hpart
    obtain rfl : part = "ha" := by simpa using hpart
    exact ⟨by decide, by decide⟩
  · decide

end CcSwitchServer.GeminiStream
