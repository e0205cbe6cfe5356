import CcSwitchServer.ResponsesTransport.Decoder

/-! # Concatenated JSON documents

Documents and `[DONE]` tokens with white space between them. A token at the end of the buffer is taken for one,
whatever comes next.
-/

namespace CcSwitchServer.ResponsesTransport
open Foundations List Decoder

/-- The parser of the first value of a text that does not begin with white space. -/
structure Rfc8259 (serde : SerdeJson) : Prop where
  /-- An object ends with its closing brace, and nothing behind it is looked at. -/
  object_alone : ∀ {bytes v n}, serde.next bytes = .value v n → v.isObject = true →
    ∀ behind, serde.next (bytes.take n ++ behind) = .value v n
  /-- What no value begins with does not become one. -/
  invalid_stays : ∀ {bytes m}, serde.next bytes = .invalid m → ∀ behind,
    ∃ m', serde.next (bytes ++ behind) = .invalid m'
  /-- Exactly the objects begin with a brace. -/
  object_brace : ∀ {bytes v n}, serde.next bytes = .value v n →
    (bytes.head?).any isAsciiWhitespace = false → (v.isObject = true ↔ bytes.head? = some 123)
  finished_blank : ∀ {bytes}, serde.next bytes = .finished → bytes.all isAsciiWhitespace = true

/-- A stream of documents and its items; with `glued`, a document may follow a `[DONE]` directly. -/
inductive Documents (serde : SerdeJson) (glued : Bool) : List UInt8 → List ResponsesTransportItem → Prop
  | nil : Documents serde glued [] []
  | space {c : UInt8} {rest : List UInt8} {items : List ResponsesTransportItem}
      (hc : isAsciiWhitespace c = true) (h : Documents serde glued rest items) :
      Documents serde glued (c :: rest) items
  | done {rest : List UInt8} {items : List ResponsesTransportItem}
      (hend : glued = true ∨ (rest.head?).all isAsciiWhitespace = true)
      (h : Documents serde glued rest items) :
      Documents serde glued (doneToken ++ rest) (.done :: items)
  | object {bytes : List UInt8} {v : Json} {n : ℕ} {items : List ResponsesTransportItem}
      (hbrace : bytes.head? = some 123) (hnext : serde.next bytes = .value v n)
      (h : Documents serde glued (bytes.drop n) items) :
      Documents serde glued bytes (classifyDocument serde v (bytes.take n) :: items)

theorem doneToken_eq : doneToken = [91, 68, 79, 78, 69, 93] := by decide

theorem doneTokenPrefixLen_eq_some {bytes : List UInt8} {n : ℕ} (h : doneTokenPrefixLen bytes = some n) :
    n = doneToken.length ∧ ∃ rest, bytes = doneToken ++ rest ∧ (rest.head?).all isAsciiWhitespace = true := by
  unfold doneTokenPrefixLen at h
  split at h
  · rename_i hpre
    split at h
    · rename_i hend
      cases h
      obtain ⟨rest, hrest⟩ := isPrefixOf_iff_prefix.mp hpre
      refine ⟨rfl, rest, hrest.symm, ?_⟩
      rw [← hrest, getElem?_append_right (Nat.le_refl _), Nat.sub_self, ← head?_eq_getElem?] at hend
      exact hend
    · cases h
  · cases h

theorem doneTokenPrefixLen_append {rest : List UInt8} (h : (rest.head?).all isAsciiWhitespace = true) :
    doneTokenPrefixLen (doneToken ++ rest) = some doneToken.length := by
  unfold doneTokenPrefixLen
  have hpre : doneToken.isPrefixOf (doneToken ++ rest) = true := isPrefixOf_iff_prefix.mpr (prefix_append _ _)
  rw [if_pos hpre, getElem?_append_right (Nat.le_refl _), Nat.sub_self, ← head?_eq_getElem?, if_pos h]

/-! ## White space -/

section
variable {serde : SerdeJson} {glued : Bool} {json future : List UInt8} {items all : List ResponsesTransportItem}

theorem Documents.of_space {c : UInt8} {rest : List UInt8} (hc : isAsciiWhitespace c = true)
    (h : Documents serde glued (c :: rest) items) : Documents serde glued rest items := by
  generalize hbytes : c :: rest = bytes at h
  cases h with
  | nil => cases hbytes
  | space _ h =>
    cases hbytes
    exact h
  | done _ _ =>
    rw [doneToken_eq] at hbytes
    cases hbytes
    cases hc
  | object hbrace _ _ =>
    rw [← hbytes] at hbrace
    cases hbrace
    cases hc

theorem documents_trim (json future : List UInt8) :
    Documents serde glued (trimAsciiStart json ++ future) items ↔ Documents serde glued (json ++ future) items := by
  induction json with
  | nil => exact Iff.rfl
  | cons c json ih =>
    unfold trimAsciiStart at ih ⊢
    by_cases hc : isAsciiWhitespace c = true
    · rw [dropWhile_cons_of_pos hc, ih, cons_append]
      exact ⟨fun h => .space hc h, fun h => h.of_space hc⟩
    · rw [dropWhile_cons_of_neg hc]

theorem Documents.of_done {rest : List UInt8} (h : Documents serde glued (doneToken ++ rest) all) :
    ∃ items, all = .done :: items ∧ Documents serde glued rest items ∧
      (glued = true ∨ (rest.head?).all isAsciiWhitespace = true) := by
  generalize hbytes : doneToken ++ rest = bytes at h
  cases h with
  | nil =>
    rw [doneToken_eq] at hbytes
    cases hbytes
  | space hc _ =>
    rw [doneToken_eq] at hbytes
    cases hbytes
    cases hc
  | done hend h =>
    have hrest := append_cancel_left hbytes
    rw [hrest]
    exact ⟨_, rfl, h, hend⟩
  | object hbrace _ _ =>
    rw [← hbytes, doneToken_eq] at hbrace
    cases hbrace

theorem Documents.of_other (h : Documents serde glued json all) (hne : json ≠ [])
    (hspace : (json.head?).any isAsciiWhitespace = false) (hdone : ¬doneToken <+: json) :
    ∃ v n items, json.head? = some 123 ∧ serde.next json = .value v n ∧
      all = classifyDocument serde v (json.take n) :: items ∧
      Documents serde glued (json.drop n) items := by
  cases h with
  | nil => exact absurd rfl hne
  | space hc _ => simp [hc] at hspace
  | done _ _ => exact absurd (prefix_append _ _) hdone
  | object hbrace hnext h => exact ⟨_, _, _, hbrace, hnext, rfl, h⟩

end

/-! ## What the loop reads -/

section
variable {serde : SerdeJson} {glued : Bool} {json rest future : List UInt8} {maxEventBytes : ℕ}
  {finish : Bool} {items later all : List ResponsesTransportItem}

theorem nextDocument_cases {out : List ResponsesTransportItem}
    (h : nextDocument serde maxEventBytes finish json = .take rest out ()) :
    (rest = trimAsciiStart json ∧ out = []) ∨
      (∃ behind, json = doneToken ++ behind ∧ (behind.head?).all isAsciiWhitespace = true ∧
        rest = behind ∧ out = [.done]) ∨
      ∃ v n, (json.head?).any isAsciiWhitespace = false ∧ serde.next json = .value v n ∧
        v.isObject = true ∧ rest = json.drop n ∧ out = [classifyDocument serde v (json.take n)] := by
  unfold nextDocument at h
  split at h
  · cases h
  · split at h
    · cases h
      exact .inl ⟨rfl, rfl⟩
    · rename_i hspace
      split at h
      · rename_i doneLen hdone
        cases h
        obtain ⟨rfl, behind, rfl, hend⟩ := doneTokenPrefixLen_eq_some hdone
        refine .inr (.inl ⟨behind, rfl, hend, ?_, rfl⟩)
        rw [drop_left]
      · split at h
        · cases h
        · split at h
          · rename_i v n hnext
            split at h
            · split at h
              · rename_i hobject
                cases h
                exact .inr (.inr ⟨v, n, by simpa using hspace, hnext, hobject, rfl, rfl⟩)
              · cases h
            · cases h
          · split at h
            · cases h
            · cases h
          · cases h
          · cases h

theorem next_append (hserde : Rfc8259 serde) {v : Json} {n : ℕ} (h : serde.next json = .value v n)
    (hobject : v.isObject = true) (future : List UInt8) :
    serde.next (json ++ future) = .value v n ∧ (json ++ future).drop n = json.drop n ++ future ∧
      (json ++ future).take n = json.take n := by
  have hle := (serde.next_consumed h).2
  have halone := hserde.object_alone h hobject (json.drop n ++ future)
  rw [← append_assoc, take_append_drop] at halone
  exact ⟨halone, drop_append_of_le_length hle, take_append_of_le_length hle⟩

/-- What the loop takes off the buffer are documents; only at the end of the buffer may one be glued. -/
theorem documents_of_drain (hserde : Rfc8259 serde) (hglued : glued = true ∨ future = [])
    (h : (documentDecoder serde maxEventBytes finish).drain () json = .ok (items, (), rest))
    (hlater : Documents serde glued (rest ++ future) later) :
    Documents serde glued (json ++ future) (items ++ later) := by
  generalize hs : () = s at h
  induction s, json using drain_induction (d := documentDecoder serde maxEventBytes finish) generalizing items with
  | hmore hnext =>
    rw [drain_more hnext] at h
    cases h
    exact hlater
  | hfail hnext =>
    rw [drain_fail hnext] at h
    cases h
  | htake hnext ih =>
    rename_i s json rest' out s'
    rw [drain_take hnext] at h
    obtain ⟨⟨items', s'', rest''⟩, hr, h⟩ := bind_eq_ok.mp h
    cases h
    have htail := ih rfl hr
    cases nextDocument_cases hnext with
    | inl hcase =>
      obtain ⟨rfl, rfl⟩ := hcase
      exact (documents_trim json future).mp htail
    | inr hcase =>
      cases hcase with
      | inl hcase =>
        obtain ⟨behind, rfl, hend, rfl, rfl⟩ := hcase
        rw [append_assoc]
        refine .done ?_ htail
        cases hglued with
        | inl hg => exact .inl hg
        | inr hf => rw [hf, append_nil]; exact .inr hend
      | inr hcase =>
        obtain ⟨v, n, hspace, hvalue, hobject, rfl, rfl⟩ := hcase
        have hbrace := (hserde.object_brace hvalue hspace).mp hobject
        obtain ⟨hnext', hdrop, htake⟩ := next_append hserde hvalue hobject future
        rw [← htake]
        refine .object ?_ hnext' (hdrop ▸ htail)
        cases json with
        | nil => cases hbrace
        | cons c json => exact hbrace

/-- A token at the front of what is still to come: at the front of the buffer, or the buffer is a part
of it. -/
theorem done_in_front (hpre : doneToken <+: json ++ future) :
    json <+: doneToken ∨ ∃ behind, json = doneToken ++ behind := by
  cases prefix_or_prefix_of_prefix hpre (prefix_append json future) with
  | inl hle => exact .inr (by obtain ⟨behind, h⟩ := hle; exact ⟨behind, h.symm⟩)
  | inr hle => exact .inl hle

/-- Where there is a document behind the buffer's white space and tokens, the loop takes it or waits. -/
theorem nextDocument_of_object (hserde : Rfc8259 serde) (hne : json ≠ [])
    (hspace : (json.head?).any isAsciiWhitespace = false) (hdone : ¬doneToken <+: json ++ future)
    (hlimit : json.length ≤ maxEventBytes) (hfinish : finish = true → future = [])
    (h : Documents serde glued (json ++ future) all) :
    nextDocument serde maxEventBytes finish json = .more ∧ finish = false ∨
      ∃ v n items, nextDocument serde maxEventBytes finish json =
          .take (json.drop n) [classifyDocument serde v (json.take n)] () ∧
        all = classifyDocument serde v (json.take n) :: items ∧
        Documents serde glued (json.drop n ++ future) items := by
  have hhead : (json ++ future).head? = json.head? := by
    cases json with
    | nil => exact absurd rfl hne
    | cons c json => rfl
  obtain ⟨v, n, items, hbrace, hvalue, hall, htail⟩ := h.of_other (by simp [hne]) (by rw [hhead]; exact hspace) hdone
  rw [hhead] at hbrace
  have hnodone : doneTokenPrefixLen json = none := by
    cases hlen : doneTokenPrefixLen json with
    | none => rfl
    | some len =>
      obtain ⟨_, rest, hrest, _⟩ := doneTokenPrefixLen_eq_some hlen
      exact absurd ⟨rest ++ future, by rw [← append_assoc, hrest]⟩ hdone
  unfold nextDocument
  rw [if_neg hne, if_neg (by simp [hspace]), hnodone]
  by_cases hpart : finish = false ∧ json.isPrefixOf doneToken = true
  · rw [if_pos hpart]
    exact .inl ⟨rfl, hpart.1⟩
  · rw [if_neg hpart]
    cases hnext : serde.next json with
    | value v' n' =>
      have hobject' := (hserde.object_brace hnext hspace).mpr hbrace
      obtain ⟨hnext', hdrop, htake⟩ := next_append hserde hnext hobject' future
      rw [hnext'] at hvalue
      cases hvalue
      have hle := (serde.next_consumed hnext).2
      dsimp only
      rw [if_pos (by omega), if_pos hobject']
      exact .inr ⟨v, n, items, rfl, htake ▸ hall, hdrop ▸ htail⟩
    | eof message =>
      by_cases hf : finish = true
      · rw [hfinish hf, append_nil, hnext] at hvalue
        cases hvalue
      · dsimp only
        rw [if_neg hf]
        exact .inl ⟨rfl, by simpa using hf⟩
    | invalid message =>
      obtain ⟨m', hinvalid⟩ := hserde.invalid_stays hnext future
      rw [hinvalid] at hvalue
      cases hvalue
    | finished =>
      have hblank := hserde.finished_blank hnext
      cases json with
      | nil => exact absurd rfl hne
      | cons c json =>
        simp only [all_cons, Bool.and_eq_true] at hblank
        simp [hblank.1] at hspace

/-- What stands in the buffer is read as documents. -/
theorem drain_of_documents (hserde : Rfc8259 serde) (hlimit : json.length ≤ maxEventBytes)
    (hfinish : finish = true → future = []) (h : Documents serde false (json ++ future) all) :
    ∃ items rest later, (documentDecoder serde maxEventBytes finish).drain () json = .ok (items, (), rest) ∧
      Documents serde false (rest ++ future) later ∧ all = items ++ later ∧
      rest.length ≤ json.length ∧ (finish = true → rest = []) := by
  induction hn : json.length using Nat.strongRecOn generalizing json all with
  | ind n ih =>
    have hround : ∀ {rest out items}, nextDocument serde maxEventBytes finish json = .take rest out () →
        Documents serde false (rest ++ future) items → all = out ++ items →
        ∃ items rest later,
          (documentDecoder serde maxEventBytes finish).drain () json = .ok (items, (), rest) ∧
          Documents serde false (rest ++ future) later ∧ all = items ++ later ∧
          rest.length ≤ n ∧ (finish = true → rest = []) := by
      intro rest out items hnext hdocs hall
      have hlt := nextDocument_shrinks serde hnext
      obtain ⟨items', rest', later, hdrain, hlater, heq, hle, hempty⟩ := ih rest.length (by omega) (by omega) hdocs rfl
      refine ⟨out ++ items', rest', later, ?_, hlater, ?_, by omega, hempty⟩
      · rw [drain_take (d := documentDecoder serde maxEventBytes finish) hnext, hdrain]
        rfl
      · rw [hall, heq, append_assoc]
    have hstop : nextDocument serde maxEventBytes finish json = .more → (finish = true → json = []) →
        ∃ items rest later,
          (documentDecoder serde maxEventBytes finish).drain () json = .ok (items, (), rest) ∧
          Documents serde false (rest ++ future) later ∧ all = items ++ later ∧
          rest.length ≤ n ∧ (finish = true → rest = []) := by
      intro hnext hempty
      exact ⟨[], json, all, drain_more (d := documentDecoder serde maxEventBytes finish) hnext, h, rfl, hn.le, hempty⟩
    by_cases hne : json = []
    · refine hstop ?_ fun _ => hne
      unfold nextDocument
      rw [if_pos hne]
    · by_cases hspace : (json.head?).any isAsciiWhitespace = true
      · refine @hround (trimAsciiStart json) [] all ?_ ((documents_trim json future).mpr h) rfl
        unfold nextDocument
        rw [if_neg hne, if_pos hspace]
      · by_cases hdone : doneToken <+: json ++ future
        · cases done_in_front hdone with
          | inl hpart =>
            by_cases hfull : json = doneToken
            · obtain ⟨items, hall, htail, hend⟩ := Documents.of_done (hfull ▸ h)
              refine @hround [] [.done] items ?_ htail hall
              have hlen := @doneTokenPrefixLen_append [] rfl
              rw [append_nil] at hlen
              unfold nextDocument
              rw [if_neg hne, if_neg (by simpa using hspace), hfull, hlen]
              dsimp only
              rw [drop_length]
            · by_cases hf : finish = true
              · rw [hfinish hf, append_nil] at hdone
                exact absurd (List.IsPrefix.eq_of_length hpart (Nat.le_antisymm hpart.length_le hdone.length_le)) hfull
              · refine hstop ?_ fun hf' => absurd hf' hf
                have hlen : doneTokenPrefixLen json = none := by
                  cases hlen : doneTokenPrefixLen json with
                  | none => rfl
                  | some len =>
                    obtain ⟨_, rest, hrest, _⟩ := doneTokenPrefixLen_eq_some hlen
                    have hback : doneToken <+: json := ⟨rest, hrest.symm⟩
                    exact absurd (List.IsPrefix.eq_of_length hpart
                      (Nat.le_antisymm hpart.length_le hback.length_le)) hfull
                unfold nextDocument
                rw [if_neg hne, if_neg (by simpa using hspace), hlen]
                rw [if_pos ⟨by simpa using hf, isPrefixOf_iff_prefix.mpr hpart⟩]
          | inr hfront =>
            obtain ⟨behind, rfl⟩ := hfront
            rw [append_assoc] at h
            obtain ⟨items, hall, htail, hend⟩ := h.of_done
            have hhead : (behind.head?).all isAsciiWhitespace = true := by
              cases behind with
              | nil => rfl
              | cons c behind =>
                cases hend with
                | inl hfalse => cases hfalse
                | inr hsep => exact hsep
            refine @hround behind [.done] items ?_ htail hall
            unfold nextDocument
            rw [if_neg hne, if_neg (by simpa using hspace), doneTokenPrefixLen_append hhead]
            dsimp only
            rw [drop_left]
        · cases nextDocument_of_object hserde hne (by simpa using hspace) hdone hlimit hfinish h with
          | inl hwait =>
            exact hstop hwait.1 fun hf => absurd (hf.symm.trans hwait.2) (by decide)
          | inr htake =>
            obtain ⟨v, k, items, hnext, hall, htail⟩ := htake
            exact hround hnext htail hall

end

end CcSwitchServer.ResponsesTransport
