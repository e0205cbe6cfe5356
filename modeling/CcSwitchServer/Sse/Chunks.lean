import CcSwitchServer.Sse.Reading

/-! # Cuts in the stream

The lines do not depend on the cuts; the limit on what is pending at the end of a chunk does.
-/

namespace CcSwitchServer.Sse
open Foundations List Decoder SseEventDecoder

/-! ## Boundaries of lines -/

theorem nextLineBoundary_append {buffer : List UInt8} {boundary : ℕ × ℕ}
    (h : nextLineBoundary false buffer = some boundary) (finish : Bool) (behind : List UInt8) :
    nextLineBoundary finish (buffer ++ behind) = some boundary := by
  induction buffer generalizing boundary with
  | nil => cases h
  | cons byte rest ih =>
    rw [cons_append]
    unfold nextLineBoundary at h ⊢
    split at h
    · rename_i hlf
      rw [if_pos hlf]
      exact h
    · rename_i hlf
      rw [if_neg hlf]
      split at h
      · rename_i hcr
        rw [if_pos hcr]
        cases rest with
        | nil => cases h
        | cons following rest => exact h
      · rename_i hcr
        rw [if_neg hcr]
        obtain ⟨inner, hinner, heq⟩ := Option.map_eq_some_iff.mp h
        rw [ih hinner, ← heq]
        rfl

/-- A pending line that is not empty counts no more than it will when it is complete. -/
theorem pending_le_boundary {pending : List UInt8} (h : nextLineBoundary false pending = none)
    (hne : pending ≠ []) (hcr : pending ≠ [carriageReturn]) {behind : List UInt8} {lineEnd delimiterLen : ℕ}
    (hboundary : nextLineBoundary true (pending ++ behind) = some (lineEnd, delimiterLen)) :
    0 < lineEnd ∧ pending.length ≤ lineEnd + delimiterLen := by
  induction pending generalizing lineEnd with
  | nil => exact absurd rfl hne
  | cons byte rest ih =>
    rw [cons_append] at hboundary
    unfold nextLineBoundary at h hboundary
    split at h
    · cases h
    · rename_i hbyte
      rw [if_neg hbyte] at hboundary
      split at h
      · rename_i hbyte
        cases rest with
        | nil => exact absurd (by rw [hbyte]) hcr
        | cons following rest =>
          dsimp only at h
          split at h
          · cases h
          · cases h
      · rename_i hbyte
        rw [if_neg hbyte] at hboundary
        obtain ⟨⟨i, d⟩, hinner, heq⟩ := Option.map_eq_some_iff.mp hboundary
        cases heq
        have hrest := Option.map_eq_none_iff.mp h
        have hpos := (nextLineBoundary_le hinner).1
        refine ⟨Nat.succ_pos _, ?_⟩
        rw [length_cons]
        by_cases hnil : rest = []
        · rw [hnil, length_nil]
          omega
        · by_cases hsingle : rest = [carriageReturn]
          · rw [hsingle, length_singleton]
            omega
          · have hle := (ih hrest hnil hsingle hinner).2
            omega

/-- The first line of the decoder is the first line of the text. -/
theorem linesOf_of_boundary {bytes : List UInt8} {lineEnd delimiterLen : ℕ}
    (h : nextLineBoundary true bytes = some (lineEnd, delimiterLen)) :
    linesOf bytes = (bytes.take lineEnd, delimiterLen) :: linesOf (bytes.drop (lineEnd + delimiterLen)) := by
  induction bytes generalizing lineEnd with
  | nil => cases h
  | cons byte rest ih =>
    unfold nextLineBoundary at h
    split at h
    · rename_i hlf
      cases h
      cases rest with
      | nil => simp [linesOf, hlf]
      | cons following rest => simp [linesOf, hlf]
    · rename_i hlf
      split at h
      · rename_i hcr
        cases rest with
        | nil =>
          cases h
          simp [linesOf, hcr]
        | cons following rest =>
          dsimp only at h
          split at h
          · rename_i hfollowing
            cases h
            rw [linesOf, if_neg hlf, if_pos hcr, if_pos hfollowing]
            rfl
          · rename_i hfollowing
            cases h
            rw [linesOf, if_neg hlf, if_pos hcr, if_neg hfollowing]
            rfl
      · rename_i hcr
        obtain ⟨⟨i, d⟩, hinner, heq⟩ := Option.map_eq_some_iff.mp h
        cases heq
        cases rest with
        | nil => cases hinner
        | cons following rest =>
          rw [linesOf, if_neg hlf, if_neg hcr, ih hinner, Nat.add_right_comm]
          rfl

theorem linesOf_append_lf {line : List UInt8} (hlf : lineFeed ∉ line) (hcr : carriageReturn ∉ line)
    (rest : List UInt8) : linesOf (line ++ lineFeed :: rest) = (line, 1) :: linesOf rest := by
  have hboundary : nextLineBoundary true (line ++ lineFeed :: rest) = some (line.length, 1) := by
    induction line with
    | nil => rfl
    | cons c line ih =>
      rw [mem_cons, not_or] at hlf hcr
      rw [cons_append]
      unfold nextLineBoundary
      rw [if_neg (Ne.symm hlf.1), if_neg (Ne.symm hcr.1), ih hlf.2 hcr.2]
      rfl
  have hdrop : (line ++ lineFeed :: rest).drop (line.length + 1) = rest := by
    rw [drop_append, drop_eq_nil_of_le (by omega), Nat.add_sub_cancel_left]
    rfl
  rw [linesOf_of_boundary hboundary, take_left, hdrop]

theorem linesOf_of_none {bytes : List UInt8} (h : nextLineBoundary true bytes = none)
    (hne : bytes ≠ []) : linesOf bytes = [(bytes, 1)] := by
  induction bytes with
  | nil => exact absurd rfl hne
  | cons byte rest ih =>
    unfold nextLineBoundary at h
    split at h
    · cases h
    · rename_i hlf
      split at h
      · cases rest with
        | nil => cases h
        | cons following rest =>
          dsimp only at h
          split at h
          · cases h
          · cases h
      · rename_i hcr
        cases rest with
        | nil => simp [linesOf, hlf, hcr]
        | cons following rest =>
          rw [linesOf, if_neg hlf, if_neg hcr, ih (Option.map_eq_none_iff.mp h) (by simp)]
          rfl

/-! ## Chunk after chunk -/

section
variable {maxEventBytes : ℕ} {finish : Bool} {e e' : PendingSseEvent} {buffer rest : List UInt8}
  {out : List SseEvent} {error : SseDecodeError}

theorem boundary_of_more (h : (lineDecoder maxEventBytes finish).next e buffer = .more) :
    nextLineBoundary finish buffer = none := by
  unfold lineDecoder at h
  dsimp only at h
  split at h
  · assumption
  · split at h
    · cases h
    · cases h

theorem boundary_of_fail (h : (lineDecoder maxEventBytes finish).next e buffer = .fail error) :
    ∃ lineEnd delimiterLen, nextLineBoundary finish buffer = some (lineEnd, delimiterLen) ∧
      processLine maxEventBytes e (buffer.take lineEnd) delimiterLen = .error error := by
  unfold lineDecoder at h
  dsimp only at h
  split at h
  · cases h
  · rename_i lineEnd delimiterLen hboundary
    split at h
    · rename_i error' hline
      cases h
      exact ⟨lineEnd, delimiterLen, hboundary, hline⟩
    · cases h

theorem boundary_of_take (h : (lineDecoder maxEventBytes finish).next e buffer = .take rest out e') :
    ∃ lineEnd delimiterLen, nextLineBoundary finish buffer = some (lineEnd, delimiterLen) ∧
      processLine maxEventBytes e (buffer.take lineEnd) delimiterLen = .ok (out, e') ∧
      rest = buffer.drop (lineEnd + delimiterLen) := by
  unfold lineDecoder at h
  dsimp only at h
  split at h
  · cases h
  · rename_i lineEnd delimiterLen hboundary
    split at h
    · cases h
    · rename_i events e₁ hline
      cases h
      exact ⟨lineEnd, delimiterLen, hboundary, hline, rfl⟩

end

/-- A line that ends within the buffer is processed whatever stands behind it. -/
theorem next_of_boundary {maxEventBytes lineEnd delimiterLen : ℕ} {finish : Bool} {buffer behind : List UInt8}
    (hboundary : nextLineBoundary finish (buffer ++ behind) = some (lineEnd, delimiterLen))
    (hle : lineEnd + delimiterLen ≤ buffer.length) (e : PendingSseEvent) :
    (∀ r, processLine maxEventBytes e (buffer.take lineEnd) delimiterLen = .ok r →
      (lineDecoder maxEventBytes finish).next e (buffer ++ behind) =
        .take (buffer.drop (lineEnd + delimiterLen) ++ behind) r.1 r.2) ∧
    ∀ error, processLine maxEventBytes e (buffer.take lineEnd) delimiterLen = .error error →
      (lineDecoder maxEventBytes finish).next e (buffer ++ behind) = .fail error := by
  unfold lineDecoder
  dsimp only
  rw [hboundary]
  dsimp only
  rewrite [take_append_of_le_length (by omega), drop_append_of_le_length hle]
  constructor
  · intro r hline
    rw [hline]
  · intro error hline
    rw [hline]

variable (maxEventBytes : ℕ)

theorem lineDecoder_continues (finish : Bool) :
    (lineDecoder maxEventBytes false).Continues (lineDecoder maxEventBytes finish) := by
  constructor
  · intro e buffer rest out e' h behind
    obtain ⟨lineEnd, delimiterLen, hboundary, hline, rfl⟩ := boundary_of_take h
    exact (next_of_boundary (nextLineBoundary_append hboundary finish behind) (nextLineBoundary_le hboundary).2
      e).1 _ hline
  · intro e buffer error h behind
    obtain ⟨lineEnd, delimiterLen, hboundary, hline⟩ := boundary_of_fail h
    exact (next_of_boundary (nextLineBoundary_append hboundary finish behind) (nextLineBoundary_le hboundary).2
      e).2 _ hline

/-- What is left when no line end is found any more: the last line, if there is one. -/
def readTail (r : List SseEvent × PendingSseEvent × List UInt8) :
    Except SseDecodeError (List SseEvent × PendingSseEvent) :=
  if r.2.2 = [] then .ok (r.1, r.2.1)
  else do
    let (tail, e) ← processLine maxEventBytes r.2.1 r.2.2 1
    pure (r.1 ++ tail, e)

/-- At the end of the stream the decoder reads line by line. -/
theorem drain_true_eq (e : PendingSseEvent) (bytes : List UInt8) :
    ((lineDecoder maxEventBytes true).drain e bytes >>= readTail maxEventBytes) =
      readLines maxEventBytes e (linesOf bytes) := by
  induction e, bytes using drain_induction (d := lineDecoder maxEventBytes true) with
  | hmore hnext =>
    rename_i e bytes
    rw [drain_more hnext, ok_bind]
    have hnone := boundary_of_more hnext
    unfold readTail
    by_cases hnil : bytes = []
    · rw [if_pos hnil, hnil]
      rfl
    · rw [if_neg hnil, linesOf_of_none hnone hnil, readLines]
      cases processLine maxEventBytes e bytes 1 with
      | error error => rfl
      | ok result =>
        simp only [ok_bind, readLines, nil_append, append_nil]
  | hfail hnext =>
    obtain ⟨lineEnd, delimiterLen, hboundary, hline⟩ := boundary_of_fail hnext
    rw [drain_fail hnext, linesOf_of_boundary hboundary, readLines, hline]
    rfl
  | htake hnext ih =>
    obtain ⟨lineEnd, delimiterLen, hboundary, hline, rfl⟩ := boundary_of_take hnext
    rw [drain_take hnext, linesOf_of_boundary hboundary, readLines, hline, ok_bind]
    dsimp only
    rw [← ih]
    simp only [bind_assoc, pure_bind]
    congr 1
    funext r
    unfold readTail
    split
    · rfl
    · simp only [bind_assoc, pure_bind, append_assoc]

theorem readAll_append (e : PendingSseEvent) (buffer behind : List UInt8) :
    readAll maxEventBytes e (linesOf (buffer ++ behind)) = (do
      let r ← (lineDecoder maxEventBytes false).drain e buffer
      let later ← readAll maxEventBytes r.2.1 (linesOf (r.2.2 ++ behind))
      pure (r.1 ++ later)) := by
  unfold readAll
  simp only [← drain_true_eq,
    drain_append (lineDecoder_continues maxEventBytes true) e buffer behind, bind_assoc, pure_bind]
  congr 1
  funext r
  congr 1
  funext r'
  unfold readTail
  split
  · simp
  · simp

/-- At the end of a chunk the pending bytes fit with the open event. -/
def Bounded (limit : ℕ) (e : PendingSseEvent) (bytes : List UInt8) : Prop :=
  ∀ out e' pending, (lineDecoder limit false).drain e bytes = .ok (out, e', pending) →
    saturatingAdd e'.wireBytes pending.length ≤ limit

theorem finish_eq (limit : ℕ) (e : PendingSseEvent) (pending : List UInt8) (maxPendingBytes : ℕ) :
    (do
      let (events, _) ← finish ⟨pending, e, maxPendingBytes, limit⟩
      pure events) = readAll limit e (linesOf pending) := by
  unfold readAll SseEventDecoder.finish SseEventDecoder.drain
  rw [← drain_true_eq]
  simp only [bind_assoc, pure_bind, if_true]
  congr 1
  funext r
  unfold readTail processTail
  by_cases hnil : r.2.2 = []
  · simp only [hnil, if_true, pure_bind, append_nil]
    rfl
  · simp only [hnil, if_false, bind_assoc, pure_bind]

section
variable {limit : ℕ} {e e' : PendingSseEvent} {buffer pending : List UInt8} {out : List SseEvent}

variable (h : (lineDecoder limit false).drain e buffer = .ok (out, e', pending))
include h

theorem bounded_iff :
    Bounded limit e buffer ↔ saturatingAdd e'.wireBytes pending.length ≤ limit := by
  constructor
  · exact fun hbounded => hbounded out e' pending h
  · intro hle out' e'' pending' h'
    rw [h] at h'
    cases h'
    exact hle

theorem bounded_append (behind : List UInt8) :
    Bounded limit e (buffer ++ behind) ↔ Bounded limit e' (pending ++ behind) := by
  have happend := drain_append (lineDecoder_continues limit false) e buffer behind
  rw [h, ok_bind] at happend
  unfold Bounded
  constructor
  · intro hbounded out' e'' pending' hdrain
    refine hbounded (out ++ out') e'' pending' ?_
    rw [happend]
    rw [hdrain]
    rfl
  · intro hbounded out' e'' pending' hdrain
    rw [happend] at hdrain
    obtain ⟨⟨out₁, e₁, pending₁⟩, hr, hdrain⟩ := bind_eq_ok.mp hdrain
    cases hdrain
    exact hbounded out₁ e'' pending' hr

end

theorem push_eq (maxPendingBytes limit : ℕ) (e : PendingSseEvent) (pending chunk : List UInt8) :
    push ⟨pending, e, maxPendingBytes, limit⟩ chunk = (do
      let r ← (lineDecoder limit false).drain e (pending ++ chunk)
      ensure (saturatingAdd r.2.1.wireBytes r.2.2.length ≤ maxPendingBytes)
        (SseDecodeError.eventTooLarge maxPendingBytes)
      pure (r.1, (⟨r.2.2, r.2.1, maxPendingBytes, limit⟩ : SseEventDecoder))) := rfl

/-- The events of a cutting are those of the whole text, as long as what is pending at each cut fits. -/
theorem decode_ok_iff (limit : ℕ) (chunks : List (List UInt8)) (e : PendingSseEvent)
    (pending : List UInt8) (events : List SseEvent) :
    decode ⟨pending, e, limit, limit⟩ chunks = .ok events ↔
      readAll limit e (linesOf (pending ++ chunks.flatten)) = .ok events ∧
        ∀ before after, chunks = before ++ after → before ≠ [] → Bounded limit e (pending ++ before.flatten) := by
  induction chunks generalizing e pending events with
  | nil =>
    have hfinish := finish_eq limit e pending limit
    unfold decode
    rw [hfinish, flatten_nil, append_nil]
    refine ⟨fun h => ⟨h, fun before after hsplit hne => ?_⟩, fun h => h.1⟩
    exact absurd (append_eq_nil_iff.mp hsplit.symm).1 hne
  | cons chunk chunks ih =>
    have happend := readAll_append limit e (pending ++ chunk) chunks.flatten
    rw [flatten_cons, ← append_assoc, happend, decode, push_eq]
    cases hdrain : (lineDecoder limit false).drain e (pending ++ chunk) with
    | error error =>
      constructor
      · intro h
        cases h
      · rintro ⟨h, -⟩
        cases h
    | ok r =>
      obtain ⟨out, e', pending'⟩ := r
      rw [ok_bind, ok_bind]
      by_cases hle : saturatingAdd e'.wireBytes pending'.length ≤ limit
      · rw [ensure_of hle, ok_bind, pure_bind]
        constructor
        · intro h
          obtain ⟨later, hlater, h⟩ := bind_eq_ok.mp h
          cases h
          obtain ⟨hread, hbounded⟩ := (ih e' pending' later).mp hlater
          refine ⟨?_, fun before after hsplit hne => ?_⟩
          · dsimp only
            rw [hread]
            rfl
          · cases before with
            | nil => exact absurd rfl hne
            | cons first before =>
              obtain ⟨rfl, hrest⟩ := cons.inj hsplit
              rw [flatten_cons, ← append_assoc]
              by_cases hnil : before = []
              · rw [hnil, flatten_nil, append_nil]
                exact (bounded_iff hdrain).mpr hle
              · exact (bounded_append hdrain _).mpr (hbounded before after hrest hnil)
        · rintro ⟨hread, hbounded⟩
          obtain ⟨later, hlater, heq⟩ := bind_eq_ok.mp hread
          cases heq
          have hdecode := (ih e' pending' later).mpr ⟨hlater, fun before after hsplit _ => by
            have hfull := hbounded (chunk :: before) after (by rw [hsplit]; rfl) (by simp)
            rw [flatten_cons, ← append_assoc] at hfull
            exact (bounded_append hdrain _).mp hfull⟩
          dsimp only
          rw [hdecode]
          rfl
      · rw [ensure_of_not hle]
        constructor
        · intro h
          cases h
        · rintro ⟨-, hbounded⟩
          have hfirst := hbounded [chunk] chunks rfl (by simp)
          rw [flatten_cons, flatten_nil, append_nil] at hfirst
          exact absurd ((bounded_iff hdrain).mp hfirst) hle

end CcSwitchServer.Sse
