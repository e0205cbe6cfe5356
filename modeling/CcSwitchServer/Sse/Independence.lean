import CcSwitchServer.Sse.Chunks

/-! # When the cuts matter

A chunk that ends behind the CR of an empty line is refused when the open event fills the limit.
-/

namespace CcSwitchServer.Sse
open Foundations Text Decoder SseEventDecoder

/-- The bytes end with the end of a line. -/
def AtLineStart (bytes : List UInt8) : Prop := ∀ byte ∈ bytes.getLast?, byte = lineFeed ∨ byte = carriageReturn

instance (bytes : List UInt8) : Decidable (AtLineStart bytes) := Option.decidableForallMem _

/-- The bytes of the event that is open behind the last line. -/
def openBytes (bytes : List UInt8) : ℕ :=
  (linesOf bytes).foldl (fun n line => if line.1 = [] then 0 else n + line.1.length + line.2) 0

/-- The bytes end in the CR of an empty line, and the event before it fills the limit. -/
def EndsFull (limit : ℕ) (bytes : List UInt8) : Prop :=
  ∃ before, bytes = before ++ [carriageReturn] ∧ AtLineStart before ∧ limit < saturatingAdd (openBytes before) 1

/-- One of the chunks ends behind the CR of an empty line while the open event fills the limit. -/
def CutsFull (limit : ℕ) (chunks : List (List UInt8)) : Prop :=
  ∃ before after, chunks = before ++ after ∧ EndsFull limit before.flatten

/-! ## The size of the open event -/

variable {limit : ℕ} {e e' : PendingSseEvent} {events out : List SseEvent} {buffer pending bytes : List UInt8}

/-- What a line adds to the bytes of the open event. -/
theorem processLine_wireBytes {line : List UInt8} {delimiterLen : ℕ}
    (h : processLine limit e line delimiterLen = .ok (events, e')) :
    e'.wireBytes ≤ limit ∧ e'.wireBytes =
      if line = [] then 0 else saturatingAdd (saturatingAdd e.wireBytes line.length) delimiterLen := by
  have hset : ∀ {e e' : PendingSseEvent} {field value : String},
      setField limit e field value = .ok e' → e'.wireBytes = e.wireBytes := by
    intro e e' field value h
    unfold setField at h
    split at h
    · cases h
      rfl
    · split at h
      · obtain ⟨u, -, h⟩ := bind_eq_ok.mp h
        cases h
        rfl
      · split at h
        · cases h
          split
          · rfl
          · rfl
        · split at h
          · cases h
            rfl
          · cases h
            rfl
  have hinterpret : ∀ {e e' : PendingSseEvent} {text : String},
      interpret limit e text = .ok e' → e'.wireBytes = e.wireBytes := by
    intro e e' text h
    unfold interpret at h
    split at h
    · cases h
      rfl
    · exact hset h
  unfold processLine at h
  obtain ⟨text, htext, h⟩ := bind_eq_ok.mp h
  have hbytes := utf8_of_fromUtf8 (context_eq_ok.mp htext)
  split at h
  · rename_i hempty
    cases h
    have hline : line = [] := by
      rw [← hbytes, hempty]
      rfl
    rw [if_pos hline]
    exact ⟨Nat.zero_le _, rfl⟩
  · rename_i hne
    have hline : line ≠ [] := by
      rintro rfl
      have hsome : fromUtf8 [] = some text := context_eq_ok.mp htext
      have hnil : fromUtf8 [] = some "" := fromUtf8_utf8 ""
      rw [hnil] at hsome
      exact hne (Option.some.inj hsome).symm
    obtain ⟨u, hfits, h⟩ := bind_eq_ok.mp h
    obtain ⟨e₁, he₁, h⟩ := bind_eq_ok.mp h
    cases h
    have hwire := hinterpret he₁
    rw [if_neg hline, hwire]
    exact ⟨(ensure_eq_ok.mp hfits).1, rfl⟩

theorem readLines_wireBytes {lines : List (List UInt8 × ℕ)} (h : readLines limit e lines = .ok (events, e'))
    {n : ℕ} (hn : e.wireBytes = min n u64Max) :
    e'.wireBytes = min (lines.foldl (fun n line =>
      if line.1 = [] then 0 else n + line.1.length + line.2) n) u64Max := by
  induction lines generalizing e events n with
  | nil =>
    cases h
    exact hn
  | cons line lines ih =>
    rw [readLines] at h
    obtain ⟨⟨events₁, e₁⟩, hline, h⟩ := bind_eq_ok.mp h
    obtain ⟨⟨events₂, e₂⟩, hlines, h⟩ := bind_eq_ok.mp h
    cases h
    rw [List.foldl_cons]
    refine ih hlines ?_
    rw [(processLine_wireBytes hline).2]
    unfold saturatingAdd
    split
    · rfl
    · omega

theorem drain_wireBytes_le (he : e.wireBytes ≤ limit)
    (h : (lineDecoder limit false).drain e buffer = .ok (out, e', pending)) : e'.wireBytes ≤ limit := by
  induction e, buffer using drain_induction (d := lineDecoder limit false) generalizing out with
  | hmore hnext =>
    rw [drain_more hnext] at h
    cases h
    exact he
  | hfail hnext =>
    rw [drain_fail hnext] at h
    cases h
  | htake hnext ih =>
    rw [drain_take hnext] at h
    obtain ⟨⟨out₁, e₁, pending₁⟩, hr, h⟩ := bind_eq_ok.mp h
    cases h
    obtain ⟨lineEnd, delimiterLen, -, hline, -⟩ := boundary_of_take hnext
    exact ih (processLine_wireBytes hline).1 hr

theorem drain_wireBytes_add (h : (lineDecoder limit false).drain e buffer = .ok (out, e', pending)) :
    e'.wireBytes + pending.length ≤ e.wireBytes + buffer.length := by
  induction e, buffer using drain_induction (d := lineDecoder limit false) generalizing out with
  | hmore hnext =>
    rw [drain_more hnext] at h
    cases h
    exact Nat.le_refl _
  | hfail hnext =>
    rw [drain_fail hnext] at h
    cases h
  | htake hnext ih =>
    rw [drain_take hnext] at h
    obtain ⟨⟨out₁, e₁, pending₁⟩, hr, h⟩ := bind_eq_ok.mp h
    cases h
    obtain ⟨lineEnd, delimiterLen, hboundary, hline, rfl⟩ := boundary_of_take hnext
    have hrest := ih hr
    have hle := (nextLineBoundary_le hboundary).2
    have hsize := (processLine_wireBytes hline).2
    rw [List.length_drop] at hrest
    split at hsize
    · omega
    · rw [List.length_take] at hsize
      unfold saturatingAdd at hsize
      omega

/-! ## A CR at the end of a chunk -/

theorem AtLineStart.nil : AtLineStart [] := fun _ h => nomatch h

theorem AtLineStart.of_append {before after : List UInt8} (h : AtLineStart (before ++ after)) : AtLineStart after := by
  intro byte hbyte
  refine h byte ?_
  rw [List.getLast?_append, Option.mem_def.mp hbyte]
  rfl

theorem AtLineStart.append {before after : List UInt8} (h : AtLineStart before)
    (h' : AtLineStart after) : AtLineStart (before ++ after) := by
  intro byte hbyte
  rw [Option.mem_def, List.getLast?_append, Option.or_eq_some_iff] at hbyte
  rcases hbyte with hbyte | ⟨-, hbyte⟩
  · exact h' byte hbyte
  · exact h byte hbyte

theorem AtLineStart.boundary (h : AtLineStart bytes) (hne : bytes ≠ []) :
    ∃ boundary, nextLineBoundary true bytes = some boundary := by
  induction bytes with
  | nil => exact absurd rfl hne
  | cons byte rest ih =>
    unfold nextLineBoundary
    split
    · exact ⟨_, rfl⟩
    · rename_i hlf
      split
      · cases rest with
        | nil => exact ⟨_, rfl⟩
        | cons following rest =>
          dsimp only
          split
          · exact ⟨_, rfl⟩
          · exact ⟨_, rfl⟩
      · rename_i hcr
        cases rest with
        | nil =>
          rcases h byte rfl with hbyte | hbyte
          · exact absurd hbyte hlf
          · exact absurd hbyte hcr
        | cons following rest =>
          obtain ⟨boundary, hboundary⟩ := ih (@AtLineStart.of_append [byte] _ h) (by simp)
          rw [hboundary]
          exact ⟨_, rfl⟩

theorem boundary_before_cr {boundary : ℕ × ℕ} (h : nextLineBoundary true bytes = some boundary) :
    nextLineBoundary false (bytes ++ [carriageReturn]) = some boundary := by
  induction bytes generalizing boundary with
  | nil => cases h
  | cons byte rest ih =>
    rw [List.cons_append]
    unfold nextLineBoundary at h ⊢
    split at h
    · rename_i hlf
      rw [if_pos hlf]
      exact h
    · rename_i hlf
      rw [if_neg hlf]
      split at h
      · rename_i hcr
        rw [if_pos hcr]
        cases rest with
        | nil => exact h
        | cons following rest => exact h
      · rename_i hcr
        rw [if_neg hcr]
        obtain ⟨inner, hinner, heq⟩ := Option.map_eq_some_iff.mp h
        rw [ih hinner, ← heq]
        rfl

theorem atLineStart_take {finish : Bool} {lineEnd delimiterLen : ℕ}
    (h : nextLineBoundary finish bytes = some (lineEnd, delimiterLen)) :
    AtLineStart (bytes.take (lineEnd + delimiterLen)) := by
  induction bytes generalizing lineEnd with
  | nil => cases h
  | cons byte rest ih =>
    unfold nextLineBoundary at h
    split at h
    · rename_i hlf
      cases h
      intro last hlast
      cases hlast
      exact .inl hlf
    · split at h
      · rename_i hcr
        cases rest with
        | nil =>
          cases finish with
          | false => cases h
          | true =>
            cases h
            intro last hlast
            cases hlast
            exact .inr hcr
        | cons following rest =>
          dsimp only at h
          split at h
          · rename_i hfollowing
            cases h
            intro last hlast
            cases hlast
            exact .inl hfollowing
          · cases h
            intro last hlast
            cases hlast
            exact .inr hcr
      · obtain ⟨⟨i, d⟩, hinner, heq⟩ := Option.map_eq_some_iff.mp h
        cases heq
        have hpos := (nextLineBoundary_le hinner).1
        have hle := (nextLineBoundary_le hinner).2
        have hrest := ih hinner
        rw [Nat.add_right_comm, List.take_succ_cons]
        intro last hlast
        refine hrest last ?_
        rw [Option.mem_def, List.getLast?_cons] at hlast
        cases hnil : (rest.take (i + d)).getLast? with
        | none =>
          have hlength := congrArg List.length (List.getLast?_eq_none_iff.mp hnil)
          rw [List.length_take, List.length_nil] at hlength
          omega
        | some last' =>
          rw [hnil] at hlast
          exact hlast

theorem drain_consumes (h : (lineDecoder limit false).drain e buffer = .ok (out, e', pending)) :
    ∃ before, buffer = before ++ pending ∧ AtLineStart before := by
  induction e, buffer using drain_induction (d := lineDecoder limit false) generalizing out with
  | hmore hnext =>
    rw [drain_more hnext] at h
    cases h
    exact ⟨[], rfl, AtLineStart.nil⟩
  | hfail hnext =>
    rw [drain_fail hnext] at h
    cases h
  | htake hnext ih =>
    rename_i buffer rest out₀ e₀
    rw [drain_take hnext] at h
    obtain ⟨⟨out₁, e₁, pending₁⟩, hr, h⟩ := bind_eq_ok.mp h
    cases h
    obtain ⟨lineEnd, delimiterLen, hboundary, -, rfl⟩ := boundary_of_take hnext
    obtain ⟨before, hbefore, hstart⟩ := ih hr
    refine ⟨buffer.take (lineEnd + delimiterLen) ++ before, ?_, (atLineStart_take hboundary).append hstart⟩
    rw [List.append_assoc, ← hbefore, List.take_append_drop]

/-- A CR at the end of a chunk waits for what follows. -/
theorem drain_before_cr (limit : ℕ) (e : PendingSseEvent) {before : List UInt8} (h : AtLineStart before) :
    (lineDecoder limit false).drain e (before ++ [carriageReturn]) = (do
      let (events, e) ← readLines limit e (linesOf before)
      pure (events, e, [carriageReturn])) := by
  induction hn : before.length using Nat.strongRecOn generalizing e before with
  | ind n ih =>
    by_cases hnil : before = []
    · rw [hnil, List.nil_append]
      exact Decoder.drain_more rfl
    · obtain ⟨⟨lineEnd, delimiterLen⟩, hboundary⟩ := h.boundary hnil
      obtain ⟨hpos, hle⟩ := nextLineBoundary_le hboundary
      have hdrop : AtLineStart (before.drop (lineEnd + delimiterLen)) := by
        rw [← List.take_append_drop (lineEnd + delimiterLen) before] at h
        exact h.of_append
      have hlength : (before.drop (lineEnd + delimiterLen)).length < n := by
        rw [List.length_drop]
        omega
      have hnext := @next_of_boundary limit _ _ _ _ _ (boundary_before_cr hboundary) hle e
      rw [linesOf_of_boundary hboundary, readLines]
      cases hline : processLine limit e (before.take lineEnd) delimiterLen with
      | error error =>
        rw [Decoder.drain_fail (hnext.2 error hline)]
        rfl
      | ok result =>
        obtain ⟨events, e'⟩ := result
        rw [Decoder.drain_take (hnext.1 _ hline), ih _ hlength e' hdrop rfl]
        simp only [ok_bind, bind_assoc, pure_bind]

/-- Where the whole input is readable, only an event that fills the limit makes the end of a chunk fail. -/
theorem bounded_iff_not_endsFull {behind : List UInt8}
    (hread : readAll limit .default (linesOf (bytes ++ behind)) = .ok events) :
    Bounded limit .default bytes ↔ ¬EndsFull limit bytes := by
  rw [readAll_append] at hread
  obtain ⟨⟨out, e, pending⟩, hdrain, hread⟩ := bind_eq_ok.mp hread
  obtain ⟨later, hlater, -⟩ := bind_eq_ok.mp hread
  have hwire := drain_wireBytes_le (Nat.zero_le _) hdrain
  have hfull : ∀ before, AtLineStart before → bytes = before ++ [carriageReturn] →
      pending = [carriageReturn] ∧ e.wireBytes = min (openBytes before) u64Max := by
    intro before hstart hbytes
    rw [hbytes, drain_before_cr limit _ hstart] at hdrain
    obtain ⟨⟨out', e'⟩, hlines, hdrain⟩ := bind_eq_ok.mp hdrain
    cases hdrain
    exact ⟨rfl, readLines_wireBytes hlines rfl⟩
  rw [bounded_iff hdrain]
  constructor
  · rintro hle ⟨before, hbytes, hstart, hlimit⟩
    obtain ⟨hpending, hsize⟩ := hfull before hstart hbytes
    rw [hpending, hsize, List.length_singleton] at hle
    unfold saturatingAdd at hle hlimit
    omega
  · intro hnot
    by_cases hnil : pending = []
    · rw [hnil, List.length_nil]
      exact (Nat.min_le_left _ _).trans hwire
    · by_cases hcr : pending = [carriageReturn]
      · obtain ⟨before, hbytes, hstart⟩ := drain_consumes hdrain
        rw [hcr] at hbytes
        have hsize := (hfull before hstart hbytes).2
        have hlimit : ¬limit < saturatingAdd (openBytes before) 1 :=
          fun hlt => hnot ⟨before, hbytes, hstart, hlt⟩
        rw [hcr, hsize, List.length_singleton]
        unfold saturatingAdd at hlimit ⊢
        omega
      · have hnone := boundary_of_more (drain_idle hdrain)
        unfold readAll at hlater
        obtain ⟨⟨tail, e'⟩, hlines, -⟩ := bind_eq_ok.mp hlater
        dsimp only at hlines
        cases hboundary : nextLineBoundary true (pending ++ behind) with
        | none =>
          rw [linesOf_of_none hboundary (by simp [hnil]), readLines] at hlines
          obtain ⟨⟨events₁, e₁⟩, hline, -⟩ := bind_eq_ok.mp hlines
          obtain ⟨hfits, hsize⟩ := processLine_wireBytes hline
          rw [if_neg (by simp [hnil]), List.length_append] at hsize
          unfold saturatingAdd at hsize ⊢
          omega
        | some boundary =>
          obtain ⟨lineEnd, delimiterLen⟩ := boundary
          obtain ⟨hpos, hle⟩ := pending_le_boundary hnone hnil hcr hboundary
          have hlength := (nextLineBoundary_le hboundary).2
          rw [linesOf_of_boundary hboundary, readLines] at hlines
          obtain ⟨⟨events₁, e₁⟩, hline, -⟩ := bind_eq_ok.mp hlines
          obtain ⟨hfits, hsize⟩ := processLine_wireBytes hline
          have htake : ((pending ++ behind).take lineEnd).length = lineEnd := by
            rw [List.length_take]
            omega
          have hne : (pending ++ behind).take lineEnd ≠ [] := by
            intro hempty
            rw [hempty, List.length_nil] at htake
            omega
          rw [if_neg hne, htake] at hsize
          unfold saturatingAdd at hsize ⊢
          omega

/-! ## Two ways of cutting -/

/-- A cut stream decodes to its reading, unless a line is not UTF-8, an event is too large, or a chunk ends
in the CR of an empty line behind an event that fills the limit. -/
theorem decode_new_ok_iff (limit : ℕ) (chunks : List (List UInt8)) (events : List SseEvent) :
    (new limit).decode chunks = .ok events ↔
      Readable (max limit 1) chunks.flatten ∧ reading chunks.flatten = some events ∧
        ¬CutsFull (max limit 1) chunks := by
  have hnew : new limit = ⟨[], .default, max limit 1, max limit 1⟩ := by
    unfold new withLimits
    rw [max_eq_right (le_max_left limit 1)]
  rw [hnew, decode_ok_iff, List.nil_append, readAll_ok_iff_reading, and_assoc]
  refine and_congr_right fun hreadable => and_congr_right fun hreading => ?_
  have hread := (readAll_ok_iff_reading _ _ _).mpr ⟨hreadable, hreading⟩
  have hbounded : ∀ before after, chunks = before ++ after →
      (Bounded (max limit 1) .default before.flatten ↔ ¬EndsFull (max limit 1) before.flatten) := by
    intro before after hsplit
    rw [hsplit, List.flatten_append] at hread
    exact bounded_iff_not_endsFull hread
  constructor
  · rintro hall ⟨before, after, hsplit, hfull⟩
    have hne : before ≠ [] := by
      rintro rfl
      obtain ⟨before, hnil, -⟩ := hfull
      exact absurd hnil (by simp)
    have hend := hall before after hsplit hne
    rw [List.nil_append] at hend
    exact (hbounded before after hsplit).mp hend hfull
  · intro hnot before after hsplit hne
    rw [List.nil_append]
    exact (hbounded before after hsplit).mpr fun hfull => hnot ⟨before, after, hsplit, hfull⟩

theorem Readable.exists_reading (h : Readable limit bytes) : ∃ events, reading bytes = some events := by
  obtain ⟨lines, hlines, -⟩ := h
  refine ⟨(eventsOf lines).map readEvent, ?_⟩
  unfold reading
  rw [hlines]
  rfl

/-- Two ways of cutting a stream lead to the reading of the stream, or both fail. -/
def SameReading (limit : ℕ) (chunks chunks' : List (List UInt8)) : Prop :=
  (∃ events, (new limit).decode chunks = .ok events ∧ (new limit).decode chunks' = .ok events ∧
    reading chunks.flatten = some events) ∨
  (∃ e e', (new limit).decode chunks = .error e ∧ (new limit).decode chunks' = .error e')

/-- Two cuttings of the same bytes are read alike if and only if both or neither of them cut at such a CR,
provided the bytes are readable at all. -/
theorem same_reading_iff (limit : ℕ) (chunks chunks' : List (List UInt8)) (h : chunks.flatten = chunks'.flatten) :
    SameReading limit chunks chunks' ↔
      (Readable (max limit 1) chunks.flatten → (CutsFull (max limit 1) chunks ↔ CutsFull (max limit 1) chunks')) := by
  have herror : ∀ {chunks : List (List UInt8)},
      ¬(Readable (max limit 1) chunks.flatten ∧ ¬CutsFull (max limit 1) chunks) →
      ∃ e, (new limit).decode chunks = .error e := by
    intro chunks hnot
    cases hdecode : (new limit).decode chunks with
    | error e => exact ⟨e, rfl⟩
    | ok events =>
      obtain ⟨hreadable, -, hcuts⟩ := (decode_new_ok_iff limit chunks events).mp hdecode
      exact absurd ⟨hreadable, hcuts⟩ hnot
  have hok : ∀ {chunks : List (List UInt8)} {e : SseDecodeError},
      (new limit).decode chunks = .error e →
      Readable (max limit 1) chunks.flatten → CutsFull (max limit 1) chunks := by
    intro chunks e hdecode hreadable
    by_contra hcuts
    obtain ⟨events, hreading⟩ := hreadable.exists_reading
    rw [(decode_new_ok_iff limit chunks events).mpr ⟨hreadable, hreading, hcuts⟩] at hdecode
    cases hdecode
  constructor
  · rintro (⟨events, hdecode, hdecode', -⟩ | ⟨e, e', hdecode, hdecode'⟩) hreadable
    · have hcuts := ((decode_new_ok_iff limit chunks events).mp hdecode).2.2
      have hcuts' := ((decode_new_ok_iff limit chunks' events).mp hdecode').2.2
      exact iff_of_false hcuts hcuts'
    · exact iff_of_true (hok hdecode hreadable) (hok hdecode' (h ▸ hreadable))
  · intro hcuts
    by_cases hgood : Readable (max limit 1) chunks.flatten ∧ ¬CutsFull (max limit 1) chunks
    · obtain ⟨hreadable, hnot⟩ := hgood
      obtain ⟨events, hreading⟩ := hreadable.exists_reading
      have hnot' : ¬CutsFull (max limit 1) chunks' :=
        fun hcut => hnot ((hcuts hreadable).mpr hcut)
      refine .inl ⟨events, (decode_new_ok_iff limit chunks events).mpr ⟨hreadable, hreading, hnot⟩,
        (decode_new_ok_iff limit chunks' events).mpr ?_, hreading⟩
      rw [← h]
      exact ⟨hreadable, hreading, hnot'⟩
    · obtain ⟨e, he⟩ := herror hgood
      obtain ⟨e', he'⟩ : ∃ e', (new limit).decode chunks' = .error e' := by
        refine herror fun hgood' => hgood ?_
        rw [← h] at hgood'
        exact ⟨hgood'.1, fun hcut => hgood'.2 ((hcuts hgood'.1).mp hcut)⟩
      exact .inr ⟨e, e', he, he'⟩

theorem same_reading_iff_crlf : SameReading 7 [utf8 "data:x\n", utf8 "\r\n"] [utf8 "data:x\n\r\n"] := by
  have hdecode : ∀ chunks ∈ [[utf8 "data:x\n", utf8 "\r\n"], [utf8 "data:x\n\r\n"]],
      (new 7).decode chunks = .ok [⟨none, [120], true, none, none, 0, 0⟩] := by
    decide +kernel
  refine (same_reading_iff 7 _ _ (by decide)).mpr fun _ => ?_
  have hcuts := ((decode_new_ok_iff 7 _ _).mp (hdecode _ List.mem_cons_self)).2.2
  have hcuts' := ((decode_new_ok_iff 7 _ _).mp (hdecode _ (List.mem_cons_of_mem _ List.mem_cons_self))).2.2
  exact iff_of_false hcuts hcuts'

/-- Cut between the CR and the LF of the empty line, an event of exactly the limit is refused. -/
theorem crlf_cut_refused :
    [utf8 "data:x\n\r\n"].flatten = [utf8 "data:x\n\r", utf8 "\n"].flatten ∧
    ¬SameReading 7 [utf8 "data:x\n\r\n"] [utf8 "data:x\n\r", utf8 "\n"] := by
  refine ⟨by decide, ?_⟩
  have hwhole : (new 7).decode [utf8 "data:x\n\r\n"] = .ok [⟨none, [120], true, none, none, 0, 0⟩] := by decide +kernel
  have hcut : (new 7).decode [utf8 "data:x\n\r", utf8 "\n"] = .error (.eventTooLarge 7) := by decide +kernel
  rintro (⟨events, -, hok, -⟩ | ⟨e, e', herror, -⟩)
  · rw [hcut] at hok
    cases hok
  · rw [hwhole] at herror
    cases herror

end CcSwitchServer.Sse
