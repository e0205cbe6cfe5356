import CcSwitchServer.ResponsesTransport.Documents
import CcSwitchServer.Sse.Independence

/-! # The cuts of a Responses stream

Events are read line by line and documents one by one; what remains is the `[DONE]` at the end of a chunk.
-/

namespace CcSwitchServer.ResponsesTransport
open Foundations Sse List

namespace ResponsesTransportDecoder

/-! ## One chunk -/

section
variable {serde : SerdeJson} {d : ResponsesTransportDecoder} {items : List ResponsesTransportItem}
  {chunks : List (List UInt8)}

theorem decode_of_push {chunk : List UInt8} {d' : ResponsesTransportDecoder}
    (h : d.push serde chunk = .ok (items, d')) :
    d.decode serde (chunk :: chunks) = (do
      let later ← d'.decode serde chunks
      pure (items ++ later)) := by
  rw [decode, h]
  rfl

theorem decode_empty_chunk : d.decode serde ([] :: chunks) = d.decode serde chunks := by
  have hpush : d.push serde [] = .ok ([], d) := by
    rw [push, if_pos rfl]
    rfl
  rw [decode_of_push hpush]
  cases d.decode serde chunks with
  | error e => rfl
  | ok later => rfl

/-- A buffer was full. -/
def Overflows {α : Type} (r : Except ResponsesTransportError α) : Prop := ∃ e, r = .error e ∧ e.kind = .capacity

/-- The run has this result, unless the bytes are too many for a buffer. -/
def Delivers (serde : SerdeJson) (d : ResponsesTransportDecoder) (chunks : List (List UInt8)) (size : ℕ)
    (r : Except ResponsesTransportError (List ResponsesTransportItem)) : Prop :=
  d.decode serde chunks = r ∨ d.maxPendingBytes < size ∧ Overflows (d.decode serde chunks)

theorem overflows_of_push {chunk : List UInt8} {e : ResponsesTransportError} (h : d.push serde chunk = .error e)
    (he : e.kind = .capacity) : Overflows (d.decode serde (chunk :: chunks)) := by
  refine ⟨e, ?_, he⟩
  rw [decode, h]
  rfl

theorem Delivers.cons {chunk : List UInt8} {size : ℕ} {d' : ResponsesTransportDecoder}
    {out : List ResponsesTransportItem} (h : Delivers serde d' chunks size (.ok items))
    (hpush : d.push serde chunk = .ok (out, d')) (hlimit : d'.maxPendingBytes = d.maxPendingBytes) :
    Delivers serde d (chunk :: chunks) size (.ok (out ++ items)) := by
  unfold Delivers
  rw [decode_of_push hpush, ← hlimit]
  refine h.imp (fun hok => ?_) (And.imp_right ?_)
  · rw [hok]
    rfl
  · rintro ⟨e, he, hkind⟩
    exact ⟨e, by rw [he]; rfl, hkind⟩

theorem Delivers.trans {size : ℕ} {d' : ResponsesTransportDecoder} {chunks' : List (List UInt8)}
    {r : Except ResponsesTransportError (List ResponsesTransportItem)}
    (h : Delivers serde d chunks size (d'.decode serde chunks')) (h' : Delivers serde d' chunks' size r)
    (hlimit : d'.maxPendingBytes = d.maxPendingBytes) : Delivers serde d chunks size r := by
  rcases h with heq | hover
  · unfold Delivers
    rw [heq, ← hlimit]
    exact h'
  · exact .inr hover

theorem Delivers.ok {size : ℕ} {r : Except ResponsesTransportError (List ResponsesTransportItem)}
    (h : Delivers serde d chunks size r) (hok : d.decode serde chunks = .ok items) : r = .ok items := by
  rcases h with heq | ⟨-, e, he, -⟩
  · exact heq.symm.trans hok
  · cases he.symm.trans hok

end

/-! ## Documents -/

section
variable {serde : SerdeJson} {d : ResponsesTransportDecoder} {items : List ResponsesTransportItem}

theorem push_json (hmode : d.mode = .json) {chunk : List UInt8} (hne : chunk ≠ []) :
    d.push serde chunk = drainJson serde { d with json := d.json ++ chunk } false := by
  unfold push
  rw [if_neg hne, if_neg (by rw [hmode]; decide)]
  unfold pushDecided
  rw [hmode]

theorem finish_json (hmode : d.mode = .json) : d.finish serde = drainJson serde d true := by
  unfold finish
  rw [if_neg (by rw [hmode]; decide)]
  unfold finishDecided
  rw [hmode]

variable {finish : Bool} {maxEventBytes : ℕ} {json : List UInt8}

theorem drainJson_ok {d' : ResponsesTransportDecoder} (h : drainJson serde d finish = .ok (items, d')) :
    ∃ rest, (documentDecoder serde d.maxEventBytes finish).drain () d.json = .ok (items, (), rest) ∧
      d' = { d with json := rest } := by
  unfold drainJson at h
  obtain ⟨⟨items', s, rest⟩, hdrain, h⟩ := bind_eq_ok.mp h
  obtain ⟨_, _, h⟩ := bind_eq_ok.mp h
  cases h
  exact ⟨rest, hdrain, rfl⟩

section
variable (hserde : Rfc8259 serde)
include hserde

theorem finish_rest {rest : List UInt8}
    (h : (documentDecoder serde maxEventBytes true).drain () json = .ok (items, (), rest)) : rest = [] := by
  have hidle : nextDocument serde maxEventBytes true rest = .more := Decoder.drain_idle h
  unfold nextDocument at hidle
  split at hidle
  · assumption
  · rename_i hne
    split at hidle
    · cases hidle
    · rename_i hspace
      split at hidle
      · cases hidle
      · split at hidle
        · rename_i hfalse
          exact absurd hfalse.1 (by decide)
        · split at hidle
          · split at hidle
            · split at hidle
              · cases hidle
              · cases hidle
            · cases hidle
          · split at hidle
            · cases hidle
            · rename_i hfalse
              exact absurd rfl hfalse
          · cases hidle
          · rename_i hfinished
            have hblank := hserde.finished_blank hfinished
            cases rest with
            | nil => rfl
            | cons c rest =>
              simp only [all_cons, Bool.and_eq_true] at hblank
              simp [hblank.1] at hspace

theorem documents_of_finish (glued : Bool) {rest : List UInt8}
    (h : (documentDecoder serde maxEventBytes true).drain () json = .ok (items, (), rest)) :
    Documents serde glued json items := by
  have hrest := finish_rest hserde h
  subst hrest
  have hdocs := @documents_of_drain serde glued json [] [] _ true items [] hserde (.inr rfl) h .nil
  rwa [append_nil, append_nil] at hdocs

/-- Whatever the cuts, the items of a run are those of the documents, where a document may be glued to a
token. -/
theorem documents_of_decode (hmode : d.mode = .json) {chunks : List (List UInt8)}
    (h : d.decode serde chunks = .ok items) : Documents serde true (d.json ++ chunks.flatten) items := by
  induction chunks generalizing d items with
  | nil =>
    unfold decode at h
    obtain ⟨⟨items', d'⟩, hfinish, h⟩ := bind_eq_ok.mp h
    cases h
    rw [finish_json hmode] at hfinish
    obtain ⟨rest, hdrain, _⟩ := drainJson_ok hfinish
    rw [flatten_nil, append_nil]
    exact documents_of_finish hserde true hdrain
  | cons chunk chunks ih =>
    unfold decode at h
    obtain ⟨⟨items₁, d'⟩, hpush, h⟩ := bind_eq_ok.mp h
    obtain ⟨items₂, hdecode, h⟩ := bind_eq_ok.mp h
    cases h
    by_cases hne : chunk = []
    · subst hne
      unfold push at hpush
      rw [if_pos rfl] at hpush
      cases hpush
      exact ih hmode hdecode
    · rw [push_json hmode hne] at hpush
      obtain ⟨rest, hdrain, rfl⟩ := drainJson_ok hpush
      have hlater := @ih { d with json := rest } items₂ hmode hdecode
      rw [flatten_cons, ← append_assoc]
      exact documents_of_drain hserde (.inl rfl) hdrain hlater

/-- A stream of documents is delivered however it is cut, if it is read without the exception. -/
theorem delivers_of_documents (hmode : d.mode = .json) {chunks : List (List UInt8)}
    {size : ℕ} (hsize : (d.json ++ chunks.flatten).length ≤ size)
    (hevent : (d.json ++ chunks.flatten).length ≤ d.maxEventBytes)
    (h : Documents serde false (d.json ++ chunks.flatten) items) : Delivers serde d chunks size (.ok items) := by
  induction chunks generalizing d items with
  | nil =>
    rw [flatten_nil, append_nil] at h hevent
    have hdocs : Documents serde false (d.json ++ []) items := by rwa [append_nil]
    obtain ⟨items', rest, later, hdrain, hlater, hall, _, hempty⟩ :=
      @drain_of_documents serde _ _ _ true _ hserde hevent (fun _ => rfl) hdocs
    rw [hempty rfl] at hlater
    have hnil : later = [] := by
      rw [append_nil] at hlater
      generalize hbytes : ([] : List UInt8) = bytes at hlater
      cases hlater with
      | nil => rfl
      | space _ _ => cases hbytes
      | done _ _ => rw [doneToken_eq] at hbytes; cases hbytes
      | object hbrace _ _ => rw [← hbytes] at hbrace; cases hbrace
    rw [hnil, append_nil] at hall
    left
    unfold decode
    rw [finish_json hmode, drainJson, hdrain, hall]
    rfl
  | cons chunk chunks ih =>
    by_cases hne : chunk = []
    · subst hne
      unfold Delivers
      rw [decode_empty_chunk]
      exact ih hmode hsize hevent h
    · rw [flatten_cons, ← append_assoc] at h hsize hevent
      rw [length_append] at hsize hevent
      obtain ⟨items', rest, later, hdrain, hlater, hall, hle, _⟩ :=
        @drain_of_documents serde _ _ _ false _ hserde (Nat.le_of_add_right_le hevent) (fun hf => by cases hf) h
      have hlen : (rest ++ chunks.flatten).length ≤ (d.json ++ chunk).length + chunks.flatten.length := by
        rw [length_append]
        omega
      have hrest := @ih { d with json := rest } later hmode (hlen.trans hsize) (hlen.trans hevent) hlater
      by_cases hfits : rest.length ≤ d.maxPendingBytes
      · have hpush : d.push serde chunk = .ok (items', { d with json := rest }) := by
          rw [push_json hmode hne, drainJson]
          rw [hdrain, ok_bind]
          dsimp only
          rw [ensure_of (.inr hfits)]
          rfl
        rw [hall]
        exact hrest.cons hpush rfl
      · have hpush : d.push serde chunk =
            .error (.capacity s!"Responses pending JSON event exceeded {d.maxPendingBytes} bytes") := by
          rw [push_json hmode hne, drainJson]
          rw [hdrain, ok_bind]
          dsimp only
          rw [ensure_of_not (by simpa using hfits)]
          rfl
        exact .inr ⟨by omega, overflows_of_push hpush rfl⟩

end

/-! ### Cuts between the documents -/

theorem push_of_drain (hmode : d.mode = .json) (hjson : d.json = []) {chunk : List UInt8} (hne : chunk ≠ [])
    (h : (documentDecoder serde d.maxEventBytes false).drain () chunk = .ok (items, (), [])) :
    d.push serde chunk = .ok (items, d) := by
  rw [push_json hmode hne, drainJson]
  rw [hjson, nil_append, h, ok_bind]
  dsimp only
  rw [ensure_of (.inr (Nat.zero_le _)), ok_bind]
  have hd : ({ d with json := [] } : ResponsesTransportDecoder) = d := by
    cases d
    cases hjson
    rfl
  rw [hd]
  rfl

theorem decode_cons_of_drain (hmode : d.mode = .json) (hjson : d.json = []) {chunk : List UInt8}
    {chunks : List (List UInt8)} {out : List ResponsesTransportItem} (hne : chunk ≠ [])
    (h : (documentDecoder serde d.maxEventBytes false).drain () chunk = .ok (out, (), []))
    (hrest : d.decode serde chunks = .ok items) : d.decode serde (chunk :: chunks) = .ok (out ++ items) := by
  rw [decode_of_push (push_of_drain hmode hjson hne h), hrest]
  rfl

theorem drain_of_more {json : List UInt8} (h : nextDocument serde maxEventBytes finish json = .more) :
    (documentDecoder serde maxEventBytes finish).drain () json = .ok ([], (), json) :=
  Decoder.drain_more (d := documentDecoder serde maxEventBytes finish) h

theorem drain_nil : (documentDecoder serde maxEventBytes finish).drain () [] = .ok ([], (), []) := by
  refine drain_of_more ?_
  unfold nextDocument
  rw [if_pos rfl]

theorem drain_of_round {out : List ResponsesTransportItem}
    (h : nextDocument serde maxEventBytes finish json = .take [] out ()) :
    (documentDecoder serde maxEventBytes finish).drain () json = .ok (out, (), []) := by
  rw [Decoder.drain_take (d := documentDecoder serde maxEventBytes finish) h, drain_nil, ok_bind, append_nil]
  rfl

theorem drain_object (hserde : Rfc8259 serde) {bytes : List UInt8} {v : Json} {n : ℕ}
    (hbrace : bytes.head? = some 123) (hnext : serde.next bytes = .value v n) (hlimit : bytes.length ≤ maxEventBytes) :
    (documentDecoder serde maxEventBytes false).drain () (bytes.take n) =
      .ok ([classifyDocument serde v (bytes.take n)], (), []) := by
  have hn := serde.next_consumed hnext
  have hspace : (bytes.head?).any isAsciiWhitespace = false := by
    rw [hbrace]
    rfl
  have hobject := (hserde.object_brace hnext hspace).mpr hbrace
  have halone := hserde.object_alone hnext hobject []
  rw [append_nil] at halone
  obtain ⟨rest, hrest⟩ : ∃ rest, bytes.take n = 123 :: rest := by
    cases bytes with
    | nil => cases hbrace
    | cons c rest =>
      cases hbrace
      cases n with
      | zero => omega
      | succ n => exact ⟨_, rfl⟩
  refine drain_of_round ?_
  unfold nextDocument
  have hnodone : doneTokenPrefixLen (bytes.take n) = none := by
    unfold doneTokenPrefixLen
    rw [hrest, doneToken_eq]
    rfl
  have hnopart : (bytes.take n).isPrefixOf doneToken = false := by
    rw [hrest, doneToken_eq]
    rfl
  rw [if_neg (by simp [hrest]), if_neg (by simp [hrest, isAsciiWhitespace]), hnodone]
  rw [if_neg (by simp [hnopart]), halone]
  dsimp only
  rw [if_pos (by omega), if_pos hobject, drop_take_self, take_take, min_self]

theorem drain_done : (documentDecoder serde maxEventBytes false).drain () doneToken = .ok ([.done], (), []) := by
  refine drain_of_round ?_
  have hlen := @doneTokenPrefixLen_append [] rfl
  rw [append_nil] at hlen
  unfold nextDocument
  rw [if_neg (by decide), if_neg (by decide), hlen]
  dsimp only
  rw [drop_length]

theorem decode_nil_json (hmode : d.mode = .json) (hjson : d.json = []) : d.decode serde [] = .ok [] := by
  unfold decode
  rw [finish_json hmode, drainJson, hjson, drain_nil]
  rfl

/-- Cut behind every token and every document, a stream is read even where a document is glued to a token. -/
theorem exists_cuts (hserde : Rfc8259 serde) (hmode : d.mode = .json) (hjson : d.json = [])
    {bytes : List UInt8} (hlimit : bytes.length ≤ d.maxEventBytes) {glued : Bool}
    (h : Documents serde glued bytes items) :
    ∃ chunks, chunks.flatten = bytes ∧ d.decode serde chunks = .ok items := by
  induction h with
  | nil =>
    exact ⟨[], rfl, decode_nil_json hmode hjson⟩
  | @space c rest items hc _ ih =>
    rw [length_cons] at hlimit
    obtain ⟨chunks, hflatten, hdecode⟩ := ih (by omega)
    refine ⟨[c] :: chunks, by rw [flatten_cons, hflatten]; rfl, ?_⟩
    refine @decode_cons_of_drain serde d items hmode hjson [c] chunks [] (by simp) ?_ hdecode
    refine drain_of_round ?_
    have htrim : trimAsciiStart [c] = [] := by
      unfold trimAsciiStart
      rw [dropWhile_cons_of_pos hc]
      rfl
    unfold nextDocument
    rw [if_neg (by simp), if_pos (by simpa using hc), htrim]
  | @done rest items _ _ ih =>
    rw [length_append] at hlimit
    obtain ⟨chunks, hflatten, hdecode⟩ := ih (by omega)
    refine ⟨doneToken :: chunks, by rw [flatten_cons, hflatten], ?_⟩
    exact decode_cons_of_drain hmode hjson (by decide) drain_done hdecode
  | @object bytes v n items hbrace hnext _ ih =>
    have hn := serde.next_consumed hnext
    obtain ⟨chunks, hflatten, hdecode⟩ := ih (by rw [length_drop]; omega)
    refine ⟨bytes.take n :: chunks, by rw [flatten_cons, hflatten, take_append_drop], ?_⟩
    refine decode_cons_of_drain hmode hjson ?_ (drain_object hserde hbrace hnext hlimit) hdecode
    intro hnil
    have hlen := congrArg length hnil
    rw [length_take, length_nil] at hlen
    omega

theorem documents_of_decode_one (hserde : Rfc8259 serde) (hmode : d.mode = .json) (hjson : d.json = [])
    {bytes : List UInt8} (h : d.decode serde [bytes] = .ok items) : Documents serde false bytes items := by
  unfold decode at h
  obtain ⟨⟨items₁, d'⟩, hpush, h⟩ := bind_eq_ok.mp h
  obtain ⟨items₂, hdecode, h⟩ := bind_eq_ok.mp h
  cases h
  unfold decode at hdecode
  obtain ⟨⟨items₃, d''⟩, hfinish, hdecode⟩ := bind_eq_ok.mp hdecode
  cases hdecode
  by_cases hne : bytes = []
  · subst hne
    unfold push at hpush
    rw [if_pos rfl] at hpush
    cases hpush
    rw [finish_json hmode] at hfinish
    obtain ⟨rest, hdrain, _⟩ := drainJson_ok hfinish
    rw [hjson] at hdrain
    exact documents_of_finish hserde false hdrain
  · rw [push_json hmode hne] at hpush
    obtain ⟨rest, hdrain, rfl⟩ := drainJson_ok hpush
    have hlast := (@finish_json serde { d with json := rest } hmode).symm.trans hfinish
    obtain ⟨rest', hdrain', _⟩ := drainJson_ok hlast
    have hlater := documents_of_finish hserde false hdrain'
    rw [hjson, nil_append] at hdrain
    have hdocs := @documents_of_drain serde false bytes rest [] _ false items₁ _ hserde (.inr rfl) hdrain
      (by rwa [append_nil])
    rwa [append_nil] at hdocs

/-! ### White space in front -/

theorem drain_trim (json : List UInt8) :
    (documentDecoder serde maxEventBytes finish).drain () (trimAsciiStart json) =
      (documentDecoder serde maxEventBytes finish).drain () json := by
  cases json with
  | nil => rfl
  | cons c json =>
    by_cases hc : isAsciiWhitespace c = true
    · have hnext : (documentDecoder serde maxEventBytes finish).next () (c :: json) =
          .take (trimAsciiStart (c :: json)) [] () := by
        show nextDocument serde maxEventBytes finish (c :: json) = _
        unfold nextDocument
        rw [if_neg (by simp), if_pos (by simpa using hc)]
      rw [Decoder.drain_take hnext]
      cases (documentDecoder serde maxEventBytes finish).drain () (trimAsciiStart (c :: json)) with
      | error e => rfl
      | ok r => rfl
    · unfold trimAsciiStart
      rw [dropWhile_cons_of_neg hc]

theorem drain_blank {maxEventBytes : ℕ} {finish : Bool} {blank : List UInt8}
    (h : blank.all isAsciiWhitespace = true) (json : List UInt8) :
    (documentDecoder serde maxEventBytes finish).drain () (blank ++ json) =
      (documentDecoder serde maxEventBytes finish).drain () json := by
  have htrim : trimAsciiStart (blank ++ json) = trimAsciiStart json := dropWhile_append_of_pos (all_eq_true.mp h)
  rw [← drain_trim, htrim, drain_trim]

end

end ResponsesTransportDecoder

end CcSwitchServer.ResponsesTransport
