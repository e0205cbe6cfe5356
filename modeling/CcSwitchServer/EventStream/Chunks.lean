import CcSwitchServer.EventStream.Decoder

/-! # Cuts in an event stream

A strict decoder reads a stream of bytes the same way however it is cut.
-/

namespace CcSwitchServer.EventStream
open Foundations List

/-- The frames of the whole stream, if nothing is left behind the last of them. -/
def readAll (bytes : List UInt8) : Except Fault (List Frame) := do
  let r ← (frameDecoder defaultMaxFrameLength .strict).drain ⟨0, 0⟩ bytes
  if r.2.2 = [] then pure r.1 else .error (.wire (.unexpectedEof r.2.2.length))

namespace EventStreamDecoder

/-- A strict decoder between two calls, as long as it has not failed. -/
structure Idle (d : EventStreamDecoder) : Prop where
  recovery : d.recovery = .strict
  maxFrameLength : d.maxFrameLength = defaultMaxFrameLength
  maxBufferLength : d.maxBufferLength = defaultMaxBufferLength
  open' : d.failed = none
  waits : (frameDecoder defaultMaxFrameLength .strict).next ⟨d.errors, d.skipped⟩ d.buffer = .more

/-- What the loop finds in the bytes that the decoder holds and those behind them. -/
def reading (d : EventStreamDecoder) (behind : List UInt8) : Except Fault (List Frame × Recovery × List UInt8) :=
  (frameDecoder defaultMaxFrameLength .strict).drain ⟨d.errors, d.skipped⟩ (d.buffer ++ behind)

theorem strict_idle : Idle strict := by
  refine ⟨rfl, rfl, rfl, rfl, ?_⟩
  exact frameDecoder_incomplete rfl

section
variable {d : EventStreamDecoder}

theorem Idle.room (hd : d.Idle) : d.maxBufferLength - d.buffer.length ≠ 0 := by
  have hlength := length_of_incomplete (frameDecoder_more hd.waits)
  rw [hd.maxBufferLength]
  unfold defaultMaxFrameLength at hlength
  unfold defaultMaxBufferLength
  omega

theorem Idle.advance (hd : d.Idle) {s s' : Recovery} {bytes rest : List UInt8} {frames : List Frame}
    (h : (frameDecoder defaultMaxFrameLength .strict).drain s bytes = .ok (frames, s', rest)) :
    (d.advance s' rest).Idle := by
  refine ⟨hd.recovery, hd.maxFrameLength, hd.maxBufferLength, hd.open', ?_⟩
  exact Decoder.drain_idle h

theorem Idle.reading_nil (hd : d.Idle) : d.reading [] = .ok ([], ⟨d.errors, d.skipped⟩, d.buffer) := by
  unfold reading
  rw [append_nil]
  exact Decoder.drain_more hd.waits

theorem reading_append (before behind : List UInt8) :
    d.reading (before ++ behind) = (do
      let r ← d.reading before
      let r' ← (d.advance r.2.1 r.2.2).reading behind
      pure (r.1 ++ r'.1, r'.2)) := by
  unfold reading
  rw [← append_assoc]
  exact Decoder.drain_append strict_continues _ _ _

/-! ## Feeding is reading -/

variable (hd : d.Idle)
include hd

theorem Idle.drain_ok {bytes rest : List UInt8} {frames : List Frame} {s : Recovery}
    (h : d.reading bytes = .ok (frames, s, rest)) :
    { d with buffer := d.buffer ++ bytes }.drain = (.ok frames, d.advance s rest) := by
  unfold reading at h
  rw [← hd.maxFrameLength, ← hd.recovery] at h
  unfold drain
  rw [h]
  rfl

theorem Idle.drain_error {bytes : List UInt8} {fault : Fault} (h : d.reading bytes = .error fault) :
    ({ d with buffer := d.buffer ++ bytes }.drain).1 = .error fault := by
  unfold reading at h
  rw [← hd.maxFrameLength, ← hd.recovery] at h
  unfold drain
  rw [h]
  cases fault with
  | wire e => rfl
  | panic => rfl

theorem Idle.drain : d.drain = (.ok [], d) := by
  have h := hd.drain_ok hd.reading_nil
  rw [append_nil] at h
  exact h

theorem Idle.feedLoop_step {remaining : List UInt8} (hne : remaining ≠ []) (frames : List Frame) :
    ∃ bytes behind, bytes ≠ [] ∧ remaining = bytes ++ behind ∧
      d.feedLoop remaining frames =
        match { d with buffer := d.buffer ++ bytes }.drain with
        | (.error fault, d) => (.error fault, d)
        | (.ok more, d) => d.feedLoop behind (frames ++ more) := by
  have hroom := hd.room
  have hpos := length_pos_iff.mpr hne
  generalize hcount : min remaining.length (d.maxBufferLength - d.buffer.length) = count
  refine ⟨remaining.take count, remaining.drop count, ?_, (take_append_drop _ _).symm, ?_⟩
  · intro hnil
    have hlength := congrArg length hnil
    rw [length_take, length_nil] at hlength
    omega
  · have hslice : slice remaining 0 count = .ok (remaining.take count) := by
      rw [slice_ok (Nat.zero_le _) (by omega)]
      rfl
    rw [feedLoop, if_neg hne, if_neg hroom]
    dsimp only
    rewrite [hcount, hslice]
    rfl

/-- Between two chunks there is always room for more. -/
theorem Idle.feedLoop (remaining : List UInt8) (frames : List Frame) :
    (∀ {more s rest}, d.reading remaining = .ok (more, s, rest) →
      d.feedLoop remaining frames = (.ok (frames ++ more), d.advance s rest)) ∧
    (∀ {fault}, d.reading remaining = .error fault → (d.feedLoop remaining frames).1 = .error fault) := by
  induction hn : remaining.length using Nat.strongRecOn generalizing d remaining frames with
  | ind n ih =>
    by_cases hne : remaining = []
    · subst hne
      rw [EventStreamDecoder.feedLoop, if_pos rfl]
      constructor
      · intro more s rest h
        rw [hd.reading_nil] at h
        cases h
        rw [append_nil]
        rfl
      · intro fault h
        rw [hd.reading_nil] at h
        cases h
    · obtain ⟨bytes, behind, hbytes, rfl, hstep⟩ := hd.feedLoop_step hne frames
      have hpos := length_pos_iff.mpr hbytes
      have hshort : behind.length < n := by
        rw [← hn, length_append]
        omega
      rw [hstep, reading_append]
      cases hread : d.reading bytes with
      | error fault =>
        have hdrain := hd.drain_error hread
        generalize ({ d with buffer := d.buffer ++ bytes }).drain = r at hdrain
        obtain ⟨r, d'⟩ := r
        cases hdrain
        constructor
        · intro more s rest h
          cases h
        · intro fault' h
          cases h
          rfl
      | ok r =>
        obtain ⟨more₁, s₁, rest₁⟩ := r
        have hrest := ih behind.length hshort (hd.advance hread) behind (frames ++ more₁) rfl
        rw [hd.drain_ok hread]
        dsimp only
        constructor
        · intro more s rest h
          rw [ok_bind] at h
          obtain ⟨⟨more₂, s₂, rest₂⟩, hread₂, h⟩ := bind_eq_ok.mp h
          cases h
          rw [hrest.1 hread₂, append_assoc]
          rfl
        · intro fault h
          apply hrest.2
          cases hread₂ : (d.advance s₁ rest₁).reading behind with
          | error fault₂ =>
            rw [ok_bind, hread₂] at h
            exact h
          | ok r₂ =>
            rw [ok_bind, hread₂] at h
            cases h

theorem Idle.feed (bytes : List UInt8) : d.feed bytes = d.feedLoop bytes [] := by
  unfold EventStreamDecoder.feed
  rw [hd.open']
  rw [hd.drain]

theorem Idle.finish :
    d.finish.1 = if d.buffer = [] then .ok [] else .error (.wire (.unexpectedEof d.buffer.length)) := by
  unfold EventStreamDecoder.finish
  rw [hd.open']
  rw [hd.drain]
  dsimp only
  split
  · rfl
  · rfl

/-- The frames of a cutting are those of the whole stream. -/
theorem Idle.decode (chunks : List (List UInt8)) :
    d.decode chunks = (do
      let r ← d.reading chunks.flatten
      if r.2.2 = [] then pure r.1 else .error (.wire (.unexpectedEof r.2.2.length))) := by
  induction chunks generalizing d with
  | nil =>
    rw [flatten_nil, hd.reading_nil, ok_bind]
    exact hd.finish
  | cons chunk chunks ih =>
    rw [flatten_cons, reading_append, EventStreamDecoder.decode, hd.feed]
    cases hread : d.reading chunk with
    | error fault =>
      have hloop := (hd.feedLoop chunk []).2 hread
      generalize d.feedLoop chunk [] = r at hloop
      obtain ⟨r, d'⟩ := r
      cases hloop
      rfl
    | ok r =>
      obtain ⟨frames, s, rest⟩ := r
      rw [(hd.feedLoop chunk []).1 hread]
      dsimp only
      rw [ih (hd.advance hread)]
      simp only [ok_bind, bind_assoc, pure_bind, nil_append]
      congr 1
      funext r
      split
      · rfl
      · rfl

end

end EventStreamDecoder

open EventStreamDecoder

theorem strict_decode (chunks : List (List UInt8)) : strict.decode chunks = readAll chunks.flatten :=
  strict_idle.decode chunks

theorem readAll_iff {bytes : List UInt8} {frames : List Frame} :
    readAll bytes = .ok frames ↔
      ∃ data : List FrameData, (∀ f ∈ data, WellFormed defaultMaxFrameLength f.1 f.2) ∧
        bytes = encodeFrames data ∧ frames = framesOf data := by
  unfold readAll
  constructor
  · intro h
    obtain ⟨⟨frames', s, rest⟩, hread, h⟩ := bind_eq_ok.mp h
    obtain ⟨data, hall, hbytes, hframes⟩ := strict_drain_sound hread
    split at h
    · rename_i hnil
      cases h
      subst hnil
      rw [append_nil] at hbytes
      exact ⟨data, hall, hbytes, hframes⟩
    · cases h
  · rintro ⟨data, hall, rfl, rfl⟩
    obtain ⟨s, hread⟩ := strict_drain_complete (by decide) data hall ⟨0, 0⟩
    rw [hread, ok_bind, if_pos rfl]
    rfl

theorem readAll_regular (bytes : List UInt8) : Regular (readAll bytes) := by
  refine strict_drain_regular.bind fun r _ => ?_
  split
  · exact regular_ok _
  · exact regular_error trivial

/-- A strict decoder accepts exactly the concatenations of well-formed frames, returns their headers and
payloads, and refuses every other stream with an error that does not depend on the cuts. -/
theorem strict_decode_exact (chunks : List (List UInt8)) :
    (∀ frames, strict.decode chunks = .ok frames ↔
      ∃ data : List FrameData, (∀ f ∈ data, WellFormed defaultMaxFrameLength f.1 f.2) ∧
        chunks.flatten = encodeFrames data ∧ frames = framesOf data) ∧
    (∀ chunks', chunks'.flatten = chunks.flatten → strict.decode chunks' = strict.decode chunks) ∧
    (∀ fault, strict.decode chunks = .error fault →
      ∃ e : WireError, fault = .wire e ∧ ∀ size max, e ≠ .bufferOverflow size max) := by
  rw [strict_decode]
  refine ⟨fun frames => readAll_iff, ?_, ?_⟩
  · intro chunks' h
    rw [strict_decode, h]
  · intro fault h
    have hregular := readAll_regular _ fault h
    cases fault with
    | panic => exact absurd hregular id
    | wire e =>
      refine ⟨e, rfl, ?_⟩
      rintro size max rfl
      exact hregular

end CcSwitchServer.EventStream
