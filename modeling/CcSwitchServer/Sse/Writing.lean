import CcSwitchServer.Sse.Chunks

/-! # Written events

A reader makes the same lines of lines that were written one after the other.
-/

namespace CcSwitchServer.Sse
open Foundations Text List String

def lineOfText (text : String) : Line := ⟨text, (utf8 text).length + 1⟩

def writeLines (texts : List String) : List UInt8 := texts.flatMap fun text => utf8 text ++ [lineFeed]

/-- An event is its lines and an empty one. -/
def writeEvent (texts : List String) : List UInt8 := writeLines texts ++ [lineFeed]

/-- A text of one line that is not empty. -/
structure OneLine (text : String) : Prop where
  no_lf : lineFeed ∉ utf8 text
  no_cr : carriageReturn ∉ utf8 text
  ne : text ≠ ""

section
variable {texts : List String}

theorem linesOf_writeLines (h : ∀ text ∈ texts, OneLine text) (rest : List UInt8) :
    linesOf (writeLines texts ++ rest) = texts.map (fun text => (utf8 text, 1)) ++ linesOf rest := by
  induction texts with
  | nil => rfl
  | cons text texts ih =>
    have htext := h text mem_cons_self
    have hbytes : writeLines (text :: texts) ++ rest = utf8 text ++ lineFeed :: (writeLines texts ++ rest) := by
      unfold writeLines
      rw [List.flatMap_cons, List.append_assoc, List.append_assoc, List.singleton_append]
    rw [hbytes, linesOf_append_lf htext.no_lf htext.no_cr, ih fun text' hmem => h text' (mem_cons_of_mem _ hmem)]
    rfl

theorem textLines_writeEvent (h : ∀ text ∈ texts, OneLine text) {rest : List UInt8} {lines : List Line}
    (hrest : textLines rest = some lines) :
    textLines (writeEvent texts ++ rest) = some (texts.map lineOfText ++ ⟨"", 1⟩ :: lines) := by
  have hmap : (texts.map fun text => (utf8 text, 1)).mapM lineOf = some (texts.map lineOfText) := by
    clear h
    induction texts with
    | nil => rfl
    | cons text texts ih =>
      have hline : lineOf (utf8 text, 1) = some (lineOfText text) := by
        unfold lineOf
        rw [fromUtf8_utf8]
        rfl
      rw [map_cons, mapM_cons, hline, ih]
      rfl
  have hend : lineOf ([], 1) = some ⟨"", 1⟩ := by decide
  have hempty : linesOf (lineFeed :: rest) = ([], 1) :: linesOf rest :=
    @linesOf_append_lf [] not_mem_nil not_mem_nil rest
  unfold textLines at hrest ⊢
  unfold writeEvent
  rw [List.append_assoc, linesOf_writeLines h, singleton_append, hempty, mapM_append, mapM_cons, hmap, hend, hrest]
  rfl

theorem eventsOf_written (h : ∀ text ∈ texts, OneLine text) (hne : texts ≠ []) (later : List Line) :
    eventsOf (texts.map lineOfText ++ ⟨"", 1⟩ :: later) = texts.map lineOfText :: eventsOf later := by
  have hopen : ∀ line ∈ texts.map lineOfText, line.text ≠ "" := by
    intro line hline
    obtain ⟨text, htext, rfl⟩ := mem_map.mp hline
    exact (h text htext).ne
  rw [eventsOf_append_cons _ _ rfl, eventsOf_open hopen, if_neg (by simpa using hne)]
  rfl

theorem lines_of_written {written : List (List String)}
    (h : ∀ texts ∈ written, texts ≠ [] ∧ ∀ text ∈ texts, OneLine text) :
    ∃ lines, textLines (written.flatMap writeEvent) = some lines ∧
      eventsOf lines = written.map (·.map lineOfText) := by
  induction written with
  | nil => exact ⟨[], rfl, rfl⟩
  | cons texts written ih =>
    obtain ⟨lines, hlines, hevents⟩ := ih fun texts' hmem => h texts' (mem_cons_of_mem _ hmem)
    obtain ⟨hne, hone⟩ := h texts mem_cons_self
    refine ⟨_, textLines_writeEvent hone hlines, ?_⟩
    rw [eventsOf_written hone hne, hevents, map_cons]

theorem reading_writeEvent (h : ∀ text ∈ texts, OneLine text) (hne : texts ≠ []) :
    reading (writeEvent texts) = some [readEvent (texts.map lineOfText)] := by
  have hlines := @textLines_writeEvent _ h [] [] rfl
  rw [append_nil] at hlines
  unfold reading
  rw [hlines, Option.map_some, eventsOf_written h hne]
  rfl

theorem width_writeLines : ((texts.map lineOfText).map Line.width).sum = (writeLines texts).length := by
  induction texts with
  | nil => rfl
  | cons text texts ih =>
    unfold writeLines at ih ⊢
    rw [List.map_cons, List.map_cons, List.sum_cons, ih, List.flatMap_cons, List.length_append, List.length_append]
    rfl

theorem eventFits_written {limit : ℕ} (hlimit : (writeEvent texts).length ≤ limit)
    (hdata : (readEvent (texts.map lineOfText)).data.length ≤ limit) : EventFits limit (texts.map lineOfText) := by
  refine ⟨?_, hdata⟩
  have hwidth := @width_writeLines texts
  unfold writeEvent at hlimit
  rw [List.length_append] at hlimit
  unfold eventBytes
  omega

theorem readable_writeEvent (h : ∀ text ∈ texts, OneLine text) (hne : texts ≠ []) {limit : ℕ}
    (hlimit : (writeEvent texts).length ≤ limit) (hdata : (readEvent (texts.map lineOfText)).data.length ≤ limit) :
    Readable limit (writeEvent texts) := by
  refine ⟨_, append_nil (writeEvent texts) ▸ textLines_writeEvent h rfl, ?_⟩
  rw [eventsOf_written h hne]
  intro lines hlines
  rw [List.mem_singleton.mp hlines]
  exact eventFits_written hlimit hdata

end

/-! ## Fields -/

def fieldText (field value : String) : String := field ++ ": " ++ value

def FieldName (field : String) : Prop := field ≠ "" ∧ ':' ∉ field.toList

section
variable {field value : String}

theorem toList_fieldText : (fieldText field value).toList = field.toList ++ ':' :: ' ' :: value.toList := by
  have hsep : (": " : String).toList = [':', ' '] := by decide
  unfold fieldText
  rw [String.toList_append, String.toList_append, hsep, List.append_assoc]
  rfl

theorem fieldOf_fieldText (h : FieldName field) : fieldOf (fieldText field value) = (field, value) := by
  have hstrip : stripPrefix [' '] (' ' :: value.toList) = some value.toList := by
    unfold Text.stripPrefix
    rw [if_pos (by simp)]
    rfl
  unfold fieldOf
  rw [toList_fieldText, splitOnce_append h.2]
  dsimp only
  rw [hstrip, Option.getD_some, ofList_toList, ofList_toList]

theorem isComment_fieldText (h : FieldName field) : (lineOfText (fieldText field value)).isComment = false := by
  obtain ⟨hne, hcolon⟩ := h
  unfold Line.isComment lineOfText
  dsimp only
  rw [toList_fieldText]
  cases hlist : field.toList with
  | nil => exact absurd (toList_eq_nil_iff.mp hlist) hne
  | cons c cs =>
    rw [hlist, mem_cons, not_or] at hcolon
    simpa using Ne.symm hcolon.1

theorem valueOf_fieldText (h : FieldName field) (name : String) :
    (lineOfText (fieldText field value)).valueOf name = if field = name then some value else none := by
  have hcomment := @isComment_fieldText field value h
  have hfield : fieldOf (lineOfText (fieldText field value)).text = (field, value) := fieldOf_fieldText h
  simp only [Line.valueOf, hcomment, hfield, Bool.not_false, true_and]

theorem isUnknown_fieldText (h : FieldName field) :
    (lineOfText (fieldText field value)).isUnknown = decide (field ∉ ["event", "data", "id", "retry"]) := by
  have hcomment := @isComment_fieldText field value h
  have hfield : fieldOf (lineOfText (fieldText field value)).text = (field, value) := fieldOf_fieldText h
  simp only [Line.isUnknown, hcomment, hfield, Bool.not_false, true_and]

theorem OneLine.fieldText (hfield : OneLine field) (hvalue : lineFeed ∉ utf8 value)
    (hvalue' : carriageReturn ∉ utf8 value) : OneLine (fieldText field value) := by
  have hbytes : utf8 (Sse.fieldText field value) = utf8 field ++ [58, 32] ++ utf8 value := by
    have hsep : utf8 ": " = [58, 32] := by decide
    unfold Sse.fieldText
    rw [utf8_append, utf8_append, hsep]
  constructor
  · have hsep : lineFeed ∉ [(58 : UInt8), 32] := by decide
    rw [hbytes, mem_append, mem_append]
    exact fun hmem => hmem.elim (fun hmem => hmem.elim hfield.no_lf hsep) hvalue
  · have hsep : carriageReturn ∉ [(58 : UInt8), 32] := by decide
    rw [hbytes, mem_append, mem_append]
    exact fun hmem => hmem.elim (fun hmem => hmem.elim hfield.no_cr hsep) hvalue'
  · intro hempty
    have hlist := congrArg toList hempty
    rw [toList_fieldText] at hlist
    simp at hlist

end

end CcSwitchServer.Sse
