import CcSwitchServer.ResponsesTransport.Modes

/-! # When the cuts of a Responses stream matter

Two cuttings lead to the same items or to two errors, unless a document is glued to a `[DONE]`.
-/

namespace CcSwitchServer.ResponsesTransport
open Foundations Sse ResponsesTransportDecoder List Text

/-- The same items or two errors. -/
def Agree {ε α : Type} (r r' : Except ε α) : Prop :=
  (∃ a, r = .ok a ∧ r' = .ok a) ∨ ∃ e e', r = .error e ∧ r' = .error e'

/-- The cuts of these bytes leave no trace. -/
def Independent (serde : SerdeJson) (maxPendingBytes maxEventBytes : ℕ) (bytes : List UInt8) : Prop :=
  ∀ chunks chunks' : List (List UInt8), chunks.flatten = bytes → chunks'.flatten = bytes →
    Agree ((new maxPendingBytes maxEventBytes).decode serde chunks)
      ((new maxPendingBytes maxEventBytes).decode serde chunks')

/-- A stream of documents, but only if something may be glued to a `[DONE]`. -/
def GluedDone (serde : SerdeJson) (bytes : List UInt8) : Prop :=
  (∃ items, Documents serde true bytes items) ∧ ¬∃ items, Documents serde false bytes items

section
variable {ε α : Type} {r r' : Except ε α}

theorem Agree.of_ok_iff (h : ∀ a, r = .ok a ↔ r' = .ok a) : Agree r r' := by
  cases hr : r with
  | ok a => exact .inl ⟨a, rfl, (h a).mp hr⟩
  | error e =>
    cases hr' : r' with
    | ok a =>
      rw [(h a).mpr hr'] at hr
      cases hr
    | error e' => exact .inr ⟨e, e', rfl, rfl⟩

theorem Agree.ok {a : α} (h : Agree r r') (hr : r = .ok a) : r' = .ok a := by
  cases h with
  | inl hok =>
    obtain ⟨b, hb, hb'⟩ := hok
    rw [hb] at hr
    cases hr
    exact hb'
  | inr herror =>
    obtain ⟨e, e', he, _⟩ := herror
    rw [he] at hr
    cases hr

end

section
variable {serde : SerdeJson} {glued : Bool} {bytes trimmed : List UInt8} {first : UInt8}
  {items : List ResponsesTransportItem}

theorem Documents.of_trim (h : Documents serde glued (trimAsciiStart bytes) items) :
    Documents serde glued bytes items := by
  have hdocs := @documents_trim serde glued items bytes []
  rw [append_nil, append_nil] at hdocs
  exact hdocs.mp h

theorem Documents.opens (h : Documents serde glued bytes items)
    (htrim : trimAsciiStart bytes = first :: trimmed) : OpensDocument first := by
  have hdocs := @documents_trim serde glued items bytes []
  rw [append_nil, append_nil, htrim] at hdocs
  have hspace : isAsciiWhitespace first = false := by
    have hhead := head?_dropWhile_not isAsciiWhitespace bytes
    unfold trimAsciiStart at htrim
    rw [htrim] at hhead
    simpa using hhead
  have hfirst := hdocs.mpr h
  generalize hall : first :: trimmed = all at hfirst
  cases hfirst with
  | nil => cases hall
  | space hc _ =>
    cases hall
    rw [hspace] at hc
    cases hc
  | done _ _ =>
    rw [doneToken_eq] at hall
    cases hall
    exact .inr rfl
  | object hbrace _ _ =>
    rw [← hall] at hbrace
    cases hbrace
    exact .inl rfl

end

section
variable {serde : SerdeJson} {maxPendingBytes maxEventBytes : ℕ} {chunks chunks' : List (List UInt8)}
  {bytes : List UInt8} {items : List ResponsesTransportItem}

/-- What one way of cutting delivers, every other one delivers too, unless a buffer is too small for it. -/
theorem new_delivers (hserde : Rfc8259 serde) (hchunks : chunks.flatten = bytes) (hchunks' : chunks'.flatten = bytes)
    (hevent : bytes.length ≤ (new maxPendingBytes maxEventBytes).maxEventBytes) (hglued : ¬GluedDone serde bytes)
    (h : (new maxPendingBytes maxEventBytes).decode serde chunks = .ok items) :
    (new maxPendingBytes maxEventBytes).Delivers serde chunks' bytes.length (.ok items) := by
  generalize hd : new maxPendingBytes maxEventBytes = d at hevent h ⊢
  have hmode : d.mode = .unknown := by rw [← hd]; rfl
  have hundecided : d.undecided = [] := by rw [← hd]; rfl
  have hjson : d.json = [] := by rw [← hd]; rfl
  have hsse : d.sse.pending = [] ∧ d.sse.event.wireBytes = 0 := by rw [← hd]; exact ⟨rfl, rfl⟩
  have hlimit : d.sse.maxPendingBytes = d.maxPendingBytes := by
    rw [← hd]
    exact max_eq_left (le_max_right _ _)
  have hall : ∀ {cs : List (List UInt8)}, cs.flatten = bytes → d.undecided ++ cs.flatten = bytes := by
    intro cs hcs
    rw [hundecided, hcs, nil_append]
  cases htrim : trimAsciiStart bytes with
  | nil =>
    have hblank : ∀ {cs : List (List UInt8)}, cs.flatten = bytes → d.Delivers serde cs bytes.length (.ok []) :=
      fun hcs => delivers_blank hmode (hall hcs ▸ trim_eq_nil.mp htrim) (hall hcs ▸ le_rfl)
    exact (hblank hchunks).ok h ▸ hblank hchunks'
  | cons first trimmed =>
    by_cases hfirst : OpensDocument first
    · have hknown : ∀ {cs : List (List UInt8)}, cs.flatten = bytes →
          d.Delivers serde cs bytes.length ((d.decided .json).decode serde cs) := fun hcs =>
        delivers_unknown_json hmode hjson (hundecided ▸ rfl) (hcs ▸ htrim) hfirst (hall hcs ▸ le_rfl)
      have hbytes : ∀ {cs : List (List UInt8)}, cs.flatten = bytes → (d.decided .json).json ++ cs.flatten = bytes := by
        intro cs hcs
        show d.json ++ cs.flatten = bytes
        rw [hjson, hcs, nil_append]
      have hdocs := documents_of_decode hserde rfl ((hknown hchunks).ok h)
      rw [hbytes hchunks] at hdocs
      obtain ⟨items', hstrict⟩ : ∃ items', Documents serde false bytes items' :=
        not_not.mp fun hnot => hglued ⟨⟨items, hdocs⟩, hnot⟩
      have hok : ∀ {cs : List (List UInt8)}, cs.flatten = bytes → d.Delivers serde cs bytes.length (.ok items') := by
        intro cs hcs
        refine (hknown hcs).trans (delivers_of_documents hserde rfl ?_ ?_ ?_) rfl
        · rw [hbytes hcs]
        · rw [hbytes hcs]
          exact hevent
        · rw [hbytes hcs]
          exact hstrict
      exact (hok hchunks).ok h ▸ hok hchunks'
    · have hreads := reads_of_decode_unknown hmode hsse.1 (hall hchunks ▸ htrim) hfirst h
      rw [hall hchunks, ← hall hchunks'] at hreads
      exact delivers_of_reads_unknown hmode hsse.1 (hall hchunks' ▸ htrim) hfirst hsse.2 hlimit
        (hall hchunks' ▸ le_rfl) hreads

end

/-- The cuts leave no trace exactly when nothing is glued to a token. -/
theorem independent_iff_not_gluedDone {serde : SerdeJson} (hserde : Rfc8259 serde)
    (maxPendingBytes maxEventBytes : ℕ) {bytes : List UInt8}
    (hfits : bytes.length ≤ (new maxPendingBytes maxEventBytes).maxPendingBytes) :
    Independent serde maxPendingBytes maxEventBytes bytes ↔ ¬GluedDone serde bytes := by
  have hevent := hfits.trans (show _ ≤ (new maxPendingBytes maxEventBytes).maxEventBytes from
    le_max_right _ _)
  constructor
  · rintro hagree ⟨⟨items, hglued⟩, hnot⟩
    generalize hd : new maxPendingBytes maxEventBytes = d at hfits hevent
    unfold Independent at hagree
    rw [hd] at hagree
    have hmode : d.mode = .unknown := by rw [← hd]; rfl
    have hundecided : d.undecided = [] := by rw [← hd]; rfl
    have hjson : d.json = [] := by rw [← hd]; rfl
    cases htrim : trimAsciiStart bytes with
    | nil => exact hnot ⟨[], Documents.of_trim (htrim ▸ .nil)⟩
    | cons first trimmed =>
      have hknown : ∀ cs : List (List UInt8), cs.flatten = bytes →
          d.decode serde cs = (d.decided .json).decode serde cs := by
        intro cs hcs
        have hsize : (d.undecided ++ cs.flatten).length ≤ bytes.length := by rw [hundecided, hcs, nil_append]
        exact (delivers_unknown_json hmode hjson (hundecided ▸ rfl) (hcs ▸ htrim)
          (hglued.opens htrim) hsize).resolve_right fun hover => absurd hover.1 (Nat.not_lt.mpr hfits)
      obtain ⟨chunks, hflatten, hdecode⟩ := @exists_cuts serde
        (d.decided .json) items hserde rfl hjson bytes hevent true hglued
      have hwhole : [bytes].flatten = bytes := by
        rw [flatten_cons, flatten_nil, append_nil]
      have hone := (hagree chunks [bytes] hflatten hwhole).ok ((hknown chunks hflatten).trans hdecode)
      rw [hknown [bytes] hwhole] at hone
      exact hnot ⟨items, @documents_of_decode_one serde (d.decided .json) items hserde rfl hjson bytes hone⟩
  · intro hnot chunks chunks' h h'
    have hok : ∀ {cs cs' : List (List UInt8)}, cs.flatten = bytes → cs'.flatten = bytes → ∀ items,
        (new maxPendingBytes maxEventBytes).decode serde cs = .ok items →
          (new maxPendingBytes maxEventBytes).decode serde cs' = .ok items :=
      fun hcs hcs' _ hdecode => (new_delivers hserde hcs hcs' hevent hnot hdecode).resolve_right
        fun hover => absurd hover.1 (Nat.not_lt.mpr hfits)
    exact Agree.of_ok_iff fun items => ⟨hok h h' items, hok h' h items⟩

/-! ## A parser of one object -/

/-- A text between braces. -/
def objectText (inner : String) : String := "\x7b" ++ inner ++ "\x7d"

/-- A parser that knows the text of one object. -/
def oneObject (inner : String) (members : List (String × Json)) : SerdeJson where
  fromSlice bytes := if bytes = utf8 (objectText inner) then .ok (.object members) else .error "expected value"
  next bytes :=
    if utf8 (objectText inner) <+: bytes then .value (.object members) (utf8 (objectText inner)).length
    else if bytes = [] then .finished
    else if bytes = [91] ∨ bytes <+: utf8 (objectText inner) then .eof "EOF while parsing a value"
    else .invalid "expected value"
  next_consumed := by
    intro bytes v n h
    split at h
    · rename_i hprefix
      cases h
      refine ⟨?_, hprefix.length_le⟩
      rw [objectText, utf8_append, utf8_append, length_append, length_append]
      exact Nat.lt_add_left _ (by decide)
    · split at h
      · cases h
      · split at h <;> cases h
  livenessPayload _ := none
  toText _ := objectText inner

section
variable {inner : String} {members : List (String × Json)}

theorem utf8_objectText : utf8 (objectText inner) = 123 :: (utf8 inner ++ [125]) := by
  rw [objectText, utf8_append, utf8_append]
  rfl

theorem oneObject_fromSlice : (oneObject inner members).fromSlice (utf8 (objectText inner)) = .ok (.object members) :=
  if_pos rfl

theorem oneObject_next (rest : List UInt8) : (oneObject inner members).next (utf8 (objectText inner) ++ rest) =
    .value (.object members) (utf8 (objectText inner)).length := if_pos (prefix_append _ _)

theorem oneObject_value {bytes : List UInt8} {v : Json} {n : ℕ} (h : (oneObject inner members).next bytes = .value v n) :
    utf8 (objectText inner) <+: bytes ∧ v = .object members ∧ n = (utf8 (objectText inner)).length := by
  unfold oneObject at h
  dsimp only at h
  split at h
  · cases h
    exact ⟨by assumption, rfl, rfl⟩
  · split at h
    · cases h
    · split at h <;> cases h

theorem oneObject_rfc8259 : Rfc8259 (oneObject inner members) := by
  constructor
  · intro bytes v n h _ behind
    obtain ⟨⟨rest, rfl⟩, rfl, rfl⟩ := oneObject_value h
    rw [take_left]
    exact oneObject_next behind
  · intro bytes m h behind
    unfold oneObject at h ⊢
    dsimp only at h ⊢
    split at h
    · cases h
    · rename_i hprefix
      split at h
      · cases h
      · rename_i hempty
        split at h
        · cases h
        · rename_i hpart
          rw [not_or] at hpart
          rw [if_neg, if_neg, if_neg]
          · exact ⟨_, rfl⟩
          · rintro (hbracket | hwhole)
            · rcases append_eq_singleton_iff.mp hbracket with ⟨hnil, -⟩ | ⟨hone, -⟩
              · exact hempty hnil
              · exact hpart.1 hone
            · exact hpart.2 ((prefix_append _ _).trans hwhole)
          · exact fun hnil => hempty (append_eq_nil_iff.mp hnil).1
          · intro hwhole
            rcases prefix_or_prefix_of_prefix hwhole (prefix_append bytes behind) with hfront | hback
            · exact hprefix hfront
            · exact hpart.2 hback
  · intro bytes v n h _
    obtain ⟨⟨rest, rfl⟩, rfl, rfl⟩ := oneObject_value h
    rw [utf8_objectText]
    exact iff_of_true rfl rfl
  · intro bytes h
    unfold oneObject at h
    dsimp only at h
    split at h
    · cases h
    · split at h
      · rename_i hempty
        rw [hempty]
        rfl
      · split at h <;> cases h

end

def emptyObjects : SerdeJson := oneObject "" []

/-- It reads one event with text. -/
def deltaObjects : SerdeJson :=
  oneObject "\"type\":\"response.output_text.delta\"" [("type", .string "response.output_text.delta")]

def deltaText : String := objectText "\"type\":\"response.output_text.delta\""

/-- An event and a `[DONE]` behind a blank: no cut of them leaves a trace. -/
theorem independent_delta_done : Independent deltaObjects 64 64 (utf8 deltaText ++ 32 :: doneToken) := by
  have hnext : deltaObjects.next (utf8 deltaText ++ 32 :: doneToken) =
      .value (.object [("type", .string "response.output_text.delta")]) (utf8 deltaText).length := oneObject_next _
  have hdone : Documents deltaObjects false ((utf8 deltaText ++ 32 :: doneToken).drop (utf8 deltaText).length)
      [.done] := by
    rw [drop_left, ← append_nil doneToken]
    exact .space (by decide) (.done (.inr (by decide)) .nil)
  exact (independent_iff_not_gluedDone oneObject_rfc8259 64 64 (by decide)).mpr fun hglued =>
    hglued.2 ⟨_, .object (by decide) hnext hdone⟩

/-- Behind a `[DONE]` and without a cut, an object is refused; cut behind the token, it is read. -/
theorem cut_behind_done_matters :
    Rfc8259 emptyObjects ∧
    (utf8 "[DONE]{}").length ≤ (new 64 64).maxPendingBytes ∧
    ¬Independent emptyObjects 64 64 (utf8 "[DONE]{}") := by
  refine ⟨oneObject_rfc8259, by decide, fun h => ?_⟩
  have hagree := h [utf8 "[DONE]", utf8 "{}"] [utf8 "[DONE]{}"] (by decide) (by decide)
  have hcut : ((new 64 64).decode emptyObjects [utf8 "[DONE]", utf8 "{}"]).toBool = true := by decide +kernel
  have hwhole : ((new 64 64).decode emptyObjects [utf8 "[DONE]{}"]).toBool = false := by decide +kernel
  obtain ⟨items, hitems⟩ := exists_of_toBool hcut
  rw [hagree.ok hitems] at hwhole
  cases hwhole

end CcSwitchServer.ResponsesTransport
