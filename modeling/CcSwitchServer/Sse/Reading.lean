import CcSwitchServer.Sse.Decoder

/-! # The reading of a byte string

What the bytes of a whole stream mean, without chunks and without a decoder.
-/

namespace CcSwitchServer.Sse
open Foundations Text List

/-! ## The reference -/

/-- The lines, each with the length of its delimiter: LF, CRLF or a lone CR. -/
def linesOf : List UInt8 → List (List UInt8 × ℕ)
  | [] => []
  | [byte] => if byte = lineFeed ∨ byte = carriageReturn then [([], 1)] else [([byte], 1)]
  | byte :: following :: rest =>
    if byte = lineFeed then ([], 1) :: linesOf (following :: rest)
    else if byte = carriageReturn then
      if following = lineFeed then ([], 2) :: linesOf rest else ([], 1) :: linesOf (following :: rest)
    else (linesOf (following :: rest)).modifyHead fun line => (byte :: line.1, line.2)

/-- A line as text, and the bytes that it takes with its line end. -/
structure Line where
  text : String
  width : ℕ
deriving DecidableEq, Repr

def lineOf (line : List UInt8 × ℕ) : Option Line := (fromUtf8 line.1).map fun text => ⟨text, line.1.length + line.2⟩

def textLines (bytes : List UInt8) : Option (List Line) := (linesOf bytes).mapM lineOf

/-- The events are what stands between empty lines. -/
def eventsOf (lines : List Line) : List (List Line) := (lines.splitOnP fun line => line.text = "").filter (· ≠ [])

def Line.isComment (line : Line) : Bool := line.text.toList.head? = some ':'

def Line.valueOf (field : String) (line : Line) : Option String :=
  if !line.isComment ∧ (fieldOf line.text).1 = field then some (fieldOf line.text).2 else none

def valuesOf (field : String) (lines : List Line) : List String := lines.filterMap (Line.valueOf field)

def Line.isUnknown (line : Line) : Bool := !line.isComment ∧ (fieldOf line.text).1 ∉ ["event", "data", "id", "retry"]

/-- The values of several data lines are joined by LF. -/
def joinData (values : List String) : List UInt8 := intercalate [lineFeed] (values.map utf8)

def readEvent (lines : List Line) : SseEvent where
  event := (valuesOf "event" lines).getLast?.filter (· ≠ "")
  data := joinData (valuesOf "data" lines)
  hasData := valuesOf "data" lines ≠ []
  id := ((valuesOf "id" lines).filter fun value => '\x00' ∉ value.toList).getLast?
  retry := (valuesOf "retry" lines).getLast?.filter fun value => value.toList.all isAsciiDigit
  commentLines := min (lines.countP Line.isComment) u64Max
  unknownFields := min (lines.countP Line.isUnknown) u64Max

def reading (bytes : List UInt8) : Option (List SseEvent) :=
  (textLines bytes).map fun lines => (eventsOf lines).map readEvent

def eventBytes (lines : List Line) : ℕ := min (lines.map Line.width).sum u64Max

/-- The bytes of the event and of its data are within the limit. -/
def EventFits (limit : ℕ) (lines : List Line) : Prop :=
  eventBytes lines ≤ limit ∧ (readEvent lines).data.length ≤ limit

instance (limit : ℕ) (lines : List Line) : Decidable (EventFits limit lines) := by
  unfold EventFits
  infer_instance

/-- Every line is UTF-8 and every event fits. -/
def Readable (limit : ℕ) (bytes : List UInt8) : Prop :=
  ∃ lines, textLines bytes = some lines ∧ ∀ e ∈ eventsOf lines, EventFits limit e

/-! ## One more line -/

/-- What the decoder holds behind these lines of an event. -/
def pendingOf (lines : List Line) : PendingSseEvent :=
  { readEvent lines with sawField := lines ≠ [], wireBytes := eventBytes lines }

theorem pendingOf_nil : pendingOf [] = .default := rfl

theorem joinData_concat (values : List String) (value : String) :
    joinData (values ++ [value]) =
      (if values ≠ [] then joinData values ++ [lineFeed] else joinData values) ++ utf8 value := by
  unfold joinData
  induction values with
  | nil => simp [intercalate]
  | cons first values ih =>
    cases values with
    | nil => simp [intercalate]
    | cons second values =>
      simp only [intercalate, map_cons, cons_append, intersperse_cons_cons,
        flatten_cons, ne_eq, reduceCtorEq, not_false_eq_true, if_true] at ih ⊢
      rw [ih]
      simp only [append_assoc, nil_append, cons_append]

theorem eventBytes_concat (lines : List Line) (text : String) (length delimiterLen : ℕ) :
    eventBytes (lines ++ [⟨text, length + delimiterLen⟩]) =
      saturatingAdd (saturatingAdd (eventBytes lines) length) delimiterLen := by
  unfold eventBytes saturatingAdd
  rw [map_append, sum_append, map_singleton, sum_singleton]
  dsimp only
  omega

theorem valuesOf_concat (field : String) (lines : List Line) (line : Line) :
    valuesOf field (lines ++ [line]) = valuesOf field lines ++ (line.valueOf field).toList := by
  unfold valuesOf
  rw [filterMap_append, filterMap_cons]
  cases line.valueOf field with
  | none => rfl
  | some value => rfl

theorem data_length_concat (lines : List Line) (line : Line) :
    (readEvent lines).data.length ≤ (readEvent (lines ++ [line])).data.length := by
  show (joinData (valuesOf "data" lines)).length ≤ (joinData (valuesOf "data" (lines ++ [line]))).length
  rw [valuesOf_concat]
  cases line.valueOf "data" with
  | none => simp
  | some value =>
    rw [Option.toList_some, joinData_concat]
    split <;> simp only [length_append] <;> omega

variable {line : Line} {lines : List Line}

theorem readEvent_comment (lines : List Line) (h : line.isComment = true) :
    readEvent (lines ++ [line]) =
      { readEvent lines with commentLines := saturatingAdd (readEvent lines).commentLines 1 } := by
  have hvalue : ∀ field, line.valueOf field = none := fun field => by simp [Line.valueOf, h]
  have hunknown : line.isUnknown = false := by simp [Line.isUnknown, h]
  unfold readEvent
  simp only [valuesOf_concat, hvalue, Option.toList_none, append_nil, countP_append,
    countP_singleton, h, hunknown, if_true, saturatingAdd, SseEvent.mk.injEq, true_and,
    Bool.false_eq_true, if_false, Nat.add_zero, and_true]
  omega

/-- A field of the decoder is the field of the reading. -/
theorem setField_readEvent (maxEventBytes : ℕ) (lines : List Line) (h : line.isComment = false) (sawField : Bool)
    (wireBytes : ℕ) (hfits : wireBytes ≤ maxEventBytes ∧ (readEvent lines).data.length ≤ maxEventBytes) :
    setField maxEventBytes { readEvent lines with sawField := sawField, wireBytes := wireBytes }
      (fieldOf line.text).1 (fieldOf line.text).2 =
    if (readEvent (lines ++ [line])).data.length ≤ maxEventBytes then
      .ok { readEvent (lines ++ [line]) with sawField := sawField, wireBytes := wireBytes }
    else .error (.eventTooLarge maxEventBytes) := by
  have hvalue : ∀ field, line.valueOf field =
      if (fieldOf line.text).1 = field then some (fieldOf line.text).2 else none := by
    intro field
    simp [Line.valueOf, h]
  have hdata : (fieldOf line.text).1 ≠ "data" → (readEvent (lines ++ [line])).data = (readEvent lines).data := by
    intro hfield
    show joinData (valuesOf "data" (lines ++ [line])) = joinData (valuesOf "data" lines)
    rw [valuesOf_concat, hvalue, if_neg hfield, Option.toList_none, List.append_nil]
  have hunknown : line.isUnknown = decide ((fieldOf line.text).1 ∉ ["event", "data", "id", "retry"]) := by
    simp [Line.isUnknown, h]
  have hcount : (lines ++ [line]).countP Line.isComment = lines.countP Line.isComment := by
    simp [List.countP_append, h]
  have hother : (lines ++ [line]).countP Line.isUnknown =
      lines.countP Line.isUnknown + if line.isUnknown then 1 else 0 := by
    rw [List.countP_append, List.countP_singleton]
  unfold setField
  by_cases hevent : (fieldOf line.text).1 = "event"
  · rw [if_pos hevent, hdata (by rw [hevent]; decide), if_pos hfits.2]
    simp [readEvent, valuesOf_concat, hvalue, hevent, hunknown, hcount, hother, pure, Except.pure, Option.filter]
  rw [if_neg hevent]
  by_cases hdata' : (fieldOf line.text).1 = "data"
  · have hread : readEvent (lines ++ [line]) =
        { readEvent lines with
          data := (if (readEvent lines).hasData then (readEvent lines).data ++ [lineFeed]
            else (readEvent lines).data) ++ Text.utf8 (fieldOf line.text).2
          hasData := true } := by
      simp [readEvent, valuesOf_concat, hvalue, hdata', hunknown, hcount, hother, joinData_concat]
    rw [if_pos hdata', hread]
    unfold ensureEventBounded
    dsimp only
    by_cases hle : ((if (readEvent lines).hasData then (readEvent lines).data ++ [lineFeed]
        else (readEvent lines).data) ++ Text.utf8 (fieldOf line.text).2).length ≤ maxEventBytes
    · rw [if_pos hle, ensure_of ⟨hfits.1, hle⟩]
      rfl
    · rw [if_neg hle, ensure_of_not fun hboth => hle hboth.2]
      rfl
  rw [if_neg hdata', hdata hdata', if_pos hfits.2]
  by_cases hid : (fieldOf line.text).1 = "id"
  · rw [if_pos hid]
    simp [readEvent, valuesOf_concat, hvalue, hid, hunknown, hcount, hother, pure, Except.pure]
    by_cases hnul : '\x00' ∈ (fieldOf line.text).2.toList <;> simp [hnul]
  rw [if_neg hid]
  by_cases hretry : (fieldOf line.text).1 = "retry"
  · rw [if_pos hretry]
    simp [readEvent, valuesOf_concat, hvalue, hretry, hunknown, hcount, hother, pure, Except.pure, Option.filter]
  · rw [if_neg hretry]
    simp [readEvent, valuesOf_concat, hvalue, hevent, hdata', hid, hretry, hunknown, hcount, hother,
      pure, Except.pure, saturatingAdd]
    omega

theorem processLine_empty (maxEventBytes : ℕ) (e : PendingSseEvent) {line : List UInt8}
    (h : fromUtf8 line = some "") (delimiterLen : ℕ) :
    processLine maxEventBytes e line delimiterLen = .ok (dispatch e) := by
  unfold processLine
  rw [h]
  rfl

theorem processLine_invalid (maxEventBytes : ℕ) (e : PendingSseEvent) {line : List UInt8}
    (h : fromUtf8 line = none) (delimiterLen : ℕ) :
    processLine maxEventBytes e line delimiterLen = .error .invalidUtf8 := by
  unfold processLine
  rw [h]
  rfl

theorem pendingOf_concat (lines : List Line) (line : Line) :
    pendingOf (lines ++ [line]) = { readEvent (lines ++ [line]) with
      sawField := true, wireBytes := eventBytes (lines ++ [line]) } := by
  unfold pendingOf
  simp

theorem interpret_pendingOf (maxEventBytes : ℕ) (hbytes : eventBytes (lines ++ [line]) ≤ maxEventBytes)
    (hdata : (readEvent lines).data.length ≤ maxEventBytes) :
    interpret maxEventBytes { pendingOf lines with
      wireBytes := eventBytes (lines ++ [line]), sawField := true } line.text =
    if EventFits maxEventBytes (lines ++ [line]) then .ok (pendingOf (lines ++ [line]))
    else .error (.eventTooLarge maxEventBytes) := by
  rw [pendingOf_concat]
  unfold interpret
  by_cases hcomment : line.text.toList.head? = some ':'
  · have hread := readEvent_comment lines (decide_eq_true hcomment)
    have hfits : EventFits maxEventBytes (lines ++ [line]) := by
      refine ⟨hbytes, ?_⟩
      rw [hread]
      exact hdata
    rw [if_pos hcomment, if_pos hfits, hread]
    rfl
  · rw [if_neg hcomment]
    have hset := setField_readEvent maxEventBytes lines (decide_eq_false hcomment) true
      (eventBytes (lines ++ [line])) ⟨hbytes, hdata⟩
    refine hset.trans ?_
    by_cases hle : (readEvent (lines ++ [line])).data.length ≤ maxEventBytes
    · have hfits : EventFits maxEventBytes (lines ++ [line]) := ⟨hbytes, hle⟩
      rw [if_pos hle, if_pos hfits]
    · have hfits : ¬EventFits maxEventBytes (lines ++ [line]) := fun hboth => hle hboth.2
      rw [if_neg hle, if_neg hfits]

/-- A further line is read if and only if the event still fits. -/
theorem processLine_pendingOf (maxEventBytes : ℕ) {bytes : List UInt8} {text : String}
    (htext : fromUtf8 bytes = some text) (hne : text ≠ "") (delimiterLen : ℕ)
    (hdata : (readEvent lines).data.length ≤ maxEventBytes) :
    processLine maxEventBytes (pendingOf lines) bytes delimiterLen =
      if EventFits maxEventBytes (lines ++ [⟨text, bytes.length + delimiterLen⟩]) then
        .ok ([], pendingOf (lines ++ [⟨text, bytes.length + delimiterLen⟩]))
      else .error (.eventTooLarge maxEventBytes) := by
  unfold processLine
  rw [htext]
  show (if text = "" then _ else _) = _
  rw [if_neg hne]
  show (do
    ensure (saturatingAdd (saturatingAdd (eventBytes lines) bytes.length) delimiterLen ≤ maxEventBytes ∧
      (readEvent lines).data.length ≤ maxEventBytes) (SseDecodeError.eventTooLarge maxEventBytes)
    let e ← interpret maxEventBytes { pendingOf lines with
      wireBytes := saturatingAdd (saturatingAdd (eventBytes lines) bytes.length) delimiterLen
      sawField := true } text
    pure ([], e)) = _
  rw [← eventBytes_concat lines text bytes.length delimiterLen]
  by_cases hle : eventBytes (lines ++ [⟨text, bytes.length + delimiterLen⟩]) ≤ maxEventBytes
  · rw [ensure_of ⟨hle, hdata⟩, ok_bind, interpret_pendingOf maxEventBytes hle hdata]
    split
    · rfl
    · rfl
  · have hfits : ¬EventFits maxEventBytes (lines ++ [⟨text, bytes.length + delimiterLen⟩]) :=
      fun hboth => hle hboth.1
    rw [ensure_of_not fun hboth => hle hboth.1, if_neg hfits]
    rfl

/-! ## Line by line -/

def readLines (maxEventBytes : ℕ) (e : PendingSseEvent) :
    List (List UInt8 × ℕ) → Except SseDecodeError (List SseEvent × PendingSseEvent)
  | [] => .ok ([], e)
  | line :: lines => do
    let (events, e) ← processLine maxEventBytes e line.1 line.2
    let (later, e) ← readLines maxEventBytes e lines
    pure (events ++ later, e)

/-- The decoder without chunks: one line after the other. -/
def readAll (maxEventBytes : ℕ) (e : PendingSseEvent) (lines : List (List UInt8 × ℕ)) :
    Except SseDecodeError (List SseEvent) := do
  let (events, e) ← readLines maxEventBytes e lines
  pure (events ++ (dispatch e).1)

theorem eventsOf_append_cons (lines later : List Line) (h : line.text = "") :
    eventsOf (lines ++ line :: later) = eventsOf lines ++ eventsOf later := by
  unfold eventsOf
  rw [splitOnP_append_cons _ _ (by simpa using h), filter_append]

theorem eventsOf_open (h : ∀ line ∈ lines, line.text ≠ "") : eventsOf lines = if lines = [] then [] else [lines] := by
  unfold eventsOf
  rw [splitOnP_eq_singleton fun line hline => by simpa using h line hline]
  split
  · rename_i hnil
    rw [hnil]
    rfl
  · rename_i hne
    simp [hne]

theorem dispatch_pendingOf (h : ∀ line ∈ lines, line.text ≠ "") :
    dispatch (pendingOf lines) = ((eventsOf lines).map readEvent, pendingOf []) := by
  rw [eventsOf_open h]
  unfold dispatch PendingSseEvent.intoEvent
  by_cases hnil : lines = []
  · rw [hnil]
    rfl
  · have hsaw : (pendingOf lines).sawField = true := decide_eq_true hnil
    rw [if_pos hsaw, if_neg hnil]
    rfl

theorem EventFits.nil (limit : ℕ) : EventFits limit [] := ⟨Nat.zero_le _, Nat.zero_le _⟩

theorem EventFits.of_prefix {limit : ℕ} {later : List Line} (h : EventFits limit (lines ++ later)) :
    EventFits limit lines := by
  induction later using reverseRecOn with
  | nil => rwa [append_nil] at h
  | append_singleton later line ih =>
    rw [← append_assoc] at h
    obtain ⟨hbytes, hdata⟩ := h
    have hlonger := data_length_concat (lines ++ later) line
    have hmore : eventBytes (lines ++ later ++ [line]) =
        saturatingAdd (saturatingAdd (eventBytes (lines ++ later)) line.width) 0 :=
      eventBytes_concat (lines ++ later) line.text line.width 0
    unfold saturatingAdd at hmore
    have hle : eventBytes (lines ++ later) ≤ u64Max := Nat.min_le_right _ _
    exact ih ⟨by omega, by omega⟩

theorem open_event_prefix (h : ∀ line ∈ lines, line.text ≠ "") (hne : lines ≠ []) (later : List Line) :
    ∃ rest, lines ++ rest ∈ eventsOf (lines ++ later) := by
  induction later generalizing lines with
  | nil =>
    refine ⟨[], ?_⟩
    rw [append_nil, eventsOf_open h, if_neg hne]
    exact mem_singleton_self _
  | cons line later ih =>
    by_cases hempty : line.text = ""
    · refine ⟨[], ?_⟩
      rw [eventsOf_append_cons lines later hempty, eventsOf_open h, if_neg hne, append_nil]
      exact mem_append_left _ (mem_singleton_self _)
    · have hopen : ∀ l ∈ lines ++ [line], l.text ≠ "" := by
        intro l hl
        rcases mem_append.mp hl with hl | hl
        · exact h l hl
        · rw [mem_singleton.mp hl]
          exact hempty
      obtain ⟨rest, hrest⟩ := ih hopen (by simp)
      refine ⟨line :: rest, ?_⟩
      rwa [append_assoc, append_assoc, singleton_append, singleton_append] at hrest

theorem mapM_cons_eq_some {lines : List (List UInt8 × ℕ)} {line : List UInt8 × ℕ} {text : String}
    (h : fromUtf8 line.1 = some text) {result : List Line} :
    (line :: lines).mapM lineOf = some result ↔
      ∃ later, lines.mapM lineOf = some later ∧ result = ⟨text, line.1.length + line.2⟩ :: later := by
  have hline : lineOf line = some ⟨text, line.1.length + line.2⟩ := by
    unfold lineOf
    rw [h]
    rfl
  rw [mapM_cons, hline]
  cases hlines : lines.mapM lineOf with
  | none => simp
  | some later => simp [eq_comm]

/-- Reading line by line succeeds when every line is UTF-8 and every event fits, and then returns the
events that stand between the empty lines. -/
theorem readAll_ok_iff {maxEventBytes : ℕ} {opened : List Line}
    (hopen : ∀ line ∈ opened, line.text ≠ "") (hfits : EventFits maxEventBytes opened)
    (rest : List (List UInt8 × ℕ)) (events : List SseEvent) :
    readAll maxEventBytes (pendingOf opened) rest = .ok events ↔
      ∃ lines, rest.mapM lineOf = some lines ∧
        (∀ e ∈ eventsOf (opened ++ lines), EventFits maxEventBytes e) ∧
        events = (eventsOf (opened ++ lines)).map readEvent := by
  have hopened : ∀ {opened : List Line}, (∀ line ∈ opened, line.text ≠ "") →
      EventFits maxEventBytes opened → ∀ e ∈ eventsOf opened, EventFits maxEventBytes e := by
    intro opened hopen hfits e he
    rw [eventsOf_open hopen] at he
    split at he
    · cases he
    · rw [List.mem_singleton.mp he]
      exact hfits
  induction rest generalizing opened events with
  | nil =>
    have hread : readAll maxEventBytes (pendingOf opened) [] = .ok (dispatch (pendingOf opened)).1 := rfl
    rw [hread, dispatch_pendingOf hopen, List.mapM_nil]
    constructor
    · intro h
      cases h
      refine ⟨[], rfl, ?_, ?_⟩
      · rw [List.append_nil]
        exact hopened hopen hfits
      · rw [List.append_nil]
    · rintro ⟨lines, hlines, -, rfl⟩
      obtain rfl : [] = lines := Option.some.inj hlines
      rw [List.append_nil]
  | cons line rest ih =>
    cases htext : Text.fromUtf8 line.1 with
    | none =>
      have hread : readAll maxEventBytes (pendingOf opened) (line :: rest) = .error .invalidUtf8 := by
        unfold readAll readLines
        rw [processLine_invalid maxEventBytes _ htext]
        rfl
      have hline : lineOf line = none := by
        unfold lineOf
        rw [htext]
        rfl
      rw [hread, List.mapM_cons, hline]
      simp
    | some text =>
      by_cases hempty : text = ""
      · subst hempty
        have hread : readAll maxEventBytes (pendingOf opened) (line :: rest) = (do
            let later ← readAll maxEventBytes (pendingOf []) rest
            pure ((eventsOf opened).map readEvent ++ later)) := by
          unfold readAll
          rw [readLines, processLine_empty maxEventBytes _ htext, dispatch_pendingOf hopen]
          simp only [ok_bind, bind_assoc, pure_bind, List.append_assoc]
        have hlater := @ih [] (fun _ h => absurd h List.not_mem_nil) (EventFits.nil _)
        simp only [List.nil_append] at hlater
        rw [hread]
        constructor
        · intro h
          obtain ⟨later, hok, h⟩ := bind_eq_ok.mp h
          cases h
          obtain ⟨lines, hlines, hall, rfl⟩ := (hlater later).mp hok
          refine ⟨_, (mapM_cons_eq_some htext).mpr ⟨lines, hlines, rfl⟩, ?_, ?_⟩
          · rw [eventsOf_append_cons opened lines rfl]
            intro e he
            rcases List.mem_append.mp he with he | he
            · exact hopened hopen hfits e he
            · exact hall e he
          · rw [eventsOf_append_cons opened lines rfl, List.map_append]
        · rintro ⟨result, hresult, hall, rfl⟩
          obtain ⟨lines, hlines, rfl⟩ := (mapM_cons_eq_some htext).mp hresult
          rw [eventsOf_append_cons opened lines rfl] at hall ⊢
          have hok := (hlater _).mpr ⟨lines, hlines, fun e he =>
            hall e (List.mem_append_right _ he), rfl⟩
          rw [hok, ok_bind, List.map_append]
          rfl
      · have hstep := processLine_pendingOf maxEventBytes htext hempty line.2 hfits.2
        have hopen' : ∀ l ∈ opened ++ [⟨text, line.1.length + line.2⟩], l.text ≠ "" := by
          intro l hl
          rcases List.mem_append.mp hl with hl | hl
          · exact hopen l hl
          · rw [List.mem_singleton.mp hl]
            exact hempty
        have hassoc : ∀ lines : List Line, opened ++ ⟨text, line.1.length + line.2⟩ :: lines =
            opened ++ [⟨text, line.1.length + line.2⟩] ++ lines := fun lines => by
          rw [List.append_assoc, List.singleton_append]
        by_cases hroom : EventFits maxEventBytes (opened ++ [⟨text, line.1.length + line.2⟩])
        · have hread : readAll maxEventBytes (pendingOf opened) (line :: rest) =
              readAll maxEventBytes (pendingOf (opened ++ [⟨text, line.1.length + line.2⟩])) rest := by
            unfold readAll
            rw [readLines, hstep, if_pos hroom]
            simp only [ok_bind, bind_assoc, pure_bind, List.nil_append]
          rw [hread]
          refine (ih hopen' hroom events).trans ?_
          constructor
          · rintro ⟨lines, hlines, hall, rfl⟩
            refine ⟨_, (mapM_cons_eq_some htext).mpr ⟨lines, hlines, rfl⟩, ?_, ?_⟩
            · rwa [hassoc lines]
            · rw [hassoc lines]
          · rintro ⟨result, hresult, hall, rfl⟩
            obtain ⟨lines, hlines, rfl⟩ := (mapM_cons_eq_some htext).mp hresult
            rw [hassoc lines] at hall ⊢
            exact ⟨lines, hlines, hall, rfl⟩
        · have hread : readAll maxEventBytes (pendingOf opened) (line :: rest) =
              .error (.eventTooLarge maxEventBytes) := by
            unfold readAll
            rw [readLines, hstep, if_neg hroom]
            rfl
          rw [hread]
          constructor
          · intro h
            cases h
          · rintro ⟨result, hresult, hall, rfl⟩
            obtain ⟨lines, hlines, rfl⟩ := (mapM_cons_eq_some htext).mp hresult
            rw [hassoc lines] at hall
            obtain ⟨later, hmem⟩ := open_event_prefix hopen' (by simp) lines
            exact absurd (EventFits.of_prefix (hall _ hmem)) hroom

theorem readAll_ok_iff_reading (maxEventBytes : ℕ) (bytes : List UInt8) (events : List SseEvent) :
    readAll maxEventBytes .default (linesOf bytes) = .ok events ↔
      Readable maxEventBytes bytes ∧ reading bytes = some events := by
  rw [← pendingOf_nil, readAll_ok_iff (fun _ h => absurd h not_mem_nil) (EventFits.nil _)]
  unfold Readable reading textLines
  simp only [nil_append]
  constructor
  · rintro ⟨lines, hlines, hall, rfl⟩
    exact ⟨⟨lines, hlines, hall⟩, by rw [hlines]; rfl⟩
  · rintro ⟨⟨lines, hlines, hall⟩, hevents⟩
    rw [hlines] at hevents
    exact ⟨lines, hlines, hall, (Option.some.inj hevents).symm⟩

end CcSwitchServer.Sse
