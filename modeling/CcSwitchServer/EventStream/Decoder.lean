import CcSwitchServer.EventStream.Grammar

/-! # The event stream decoder (`src/proxy/kiro/wire/decoder.rs`)

The decoder keeps the bytes of the frame that is not complete.
-/

namespace CcSwitchServer.EventStream
open Foundations List Decoder

/-- How many errors and skipped bytes are allowed; none in a strict decoder. -/
structure RecoveryPolicy where
  maxErrors : ℕ
  maxSkippedBytes : ℕ
deriving DecidableEq, Repr

def RecoveryPolicy.strict : RecoveryPolicy := ⟨0, 0⟩

/-- The errors in a row and the bytes that were skipped. -/
structure Recovery where
  errors : ℕ
  skipped : ℕ

/-- The loop of `drain`. -/
def frameDecoder (maxFrameLength : ℕ) (policy : RecoveryPolicy) : Decoder Recovery Fault Frame UInt8 where
  next s buffer :=
    match parseFrame buffer maxFrameLength with
    | .ok .incomplete => .more
    | .ok (.complete frame consumed) =>
      if consumed ≤ buffer.length then .take (buffer.drop consumed) [frame] { s with errors := 0 }
      else .fail .panic
    | .error .panic => .fail .panic
    | .error (.wire e) =>
      if policy = .strict then .fail (.wire e)
      else
        let errors := saturatingAdd s.errors 1
        if policy.maxErrors < errors ∨ policy.maxSkippedBytes ≤ s.skipped then
          .fail (.wire (.recoveryLimitExceeded errors s.skipped))
        else
          match buffer with
          | [] => .fail .panic
          | _ :: rest => .take rest [] ⟨errors, saturatingAdd s.skipped 1⟩
  shrinks := by
    intro s buffer rest out s' h
    split at h
    · cases h
    · rename_i frame consumed hparse
      split at h
      · cases h
        obtain ⟨headers, payload, -, -, hconsumed, -⟩ := parseFrame_sound hparse
        rw [length_encodeFrame] at hconsumed
        rw [length_drop]
        omega
      · cases h
    · cases h
    · split at h
      · cases h
      · dsimp only at h
        split at h
        · cases h
        · split at h
          · cases h
          · cases h
            exact Nat.lt_succ_self _

structure EventStreamDecoder where
  buffer : List UInt8
  maxBufferLength : ℕ
  maxFrameLength : ℕ
  recovery : RecoveryPolicy
  errors : ℕ
  skipped : ℕ
  failed : Option WireError

def defaultMaxBufferLength : ℕ := 16 * 1024 * 1024 + 12

namespace EventStreamDecoder

def withPolicy (recovery : RecoveryPolicy) : EventStreamDecoder where
  buffer := []
  maxBufferLength := defaultMaxBufferLength
  maxFrameLength := defaultMaxFrameLength
  recovery := recovery
  errors := 0
  skipped := 0
  failed := none

def strict : EventStreamDecoder := withPolicy .strict

variable (d : EventStreamDecoder)

/-- The code never looks at the buffer again, so it is left as it was before the call. -/
def fail (e : WireError) : Except Fault (List Frame) × EventStreamDecoder :=
  (.error (.wire e), { d with failed := some e })

def advance (s : Recovery) (buffer : List UInt8) : EventStreamDecoder :=
  { d with buffer := buffer, errors := s.errors, skipped := s.skipped }

def drain (d : EventStreamDecoder) : Except Fault (List Frame) × EventStreamDecoder :=
  match (frameDecoder d.maxFrameLength d.recovery).drain ⟨d.errors, d.skipped⟩ d.buffer with
  | .ok (frames, s, buffer) => (.ok frames, d.advance s buffer)
  | .error (.wire e) => d.fail e
  | .error .panic => (.error .panic, d)

/-- The loop of `feed`: as many bytes as there is room for, then the frames that are complete. -/
def feedLoop (d : EventStreamDecoder) (remaining : List UInt8) (frames : List Frame) :
    Except Fault (List Frame) × EventStreamDecoder :=
  if remaining = [] then (.ok frames, d)
  else if d.maxBufferLength - d.buffer.length = 0 then
    d.fail (.bufferOverflow (saturatingAdd d.buffer.length remaining.length) d.maxBufferLength)
  else
    let count := min remaining.length (d.maxBufferLength - d.buffer.length)
    match slice remaining 0 count with
    | .error fault => (.error fault, d)
    | .ok bytes =>
      match { d with buffer := d.buffer ++ bytes }.drain with
      | (.error fault, d) => (.error fault, d)
      | (.ok more, d) => d.feedLoop (remaining.drop count) (frames ++ more)
termination_by remaining.length
decreasing_by
  have hpos := length_pos_iff.mpr ‹¬remaining = []›
  rw [length_drop]
  omega

/-- A decoder that has failed gives the same error again. -/
def feed (bytes : List UInt8) : Except Fault (List Frame) × EventStreamDecoder :=
  match d.failed with
  | some e => (.error (.wire e), d)
  | none =>
    match d.drain with
    | (.error fault, d) => (.error fault, d)
    | (.ok frames, d) => d.feedLoop bytes frames

/-- The stream may not end inside a frame. -/
def finish : Except Fault (List Frame) × EventStreamDecoder :=
  match d.failed with
  | some e => (.error (.wire e), d)
  | none =>
    match d.drain with
    | (.error fault, d) => (.error fault, d)
    | (.ok frames, d) =>
      if d.buffer = [] then (.ok frames, d) else d.fail (.unexpectedEof d.buffer.length)

def decode (d : EventStreamDecoder) : List (List UInt8) → Except Fault (List Frame)
  | [] => d.finish.1
  | chunk :: chunks =>
    match d.feed chunk with
    | (.error fault, _) => .error fault
    | (.ok frames, d) => do
      let later ← d.decode chunks
      pure (frames ++ later)

end EventStreamDecoder

/-! ## The loop finds the frames of the layout -/

section
variable {maxFrameLength : ℕ} {policy : RecoveryPolicy} {s s' : Recovery} {buffer rest : List UInt8}

theorem frameDecoder_more (h : (frameDecoder maxFrameLength policy).next s buffer = .more) :
    parseFrame buffer maxFrameLength = .ok .incomplete := by
  unfold frameDecoder at h
  dsimp only at h
  split at h
  · assumption
  · split at h
    · cases h
    · cases h
  · cases h
  · split at h
    · cases h
    · split at h
      · cases h
      · split at h
        · cases h
        · cases h

theorem frameDecoder_incomplete (h : parseFrame buffer maxFrameLength = .ok .incomplete) :
    (frameDecoder maxFrameLength policy).next s buffer = .more := by
  unfold frameDecoder
  dsimp only
  rw [h]

theorem strict_fail {fault : Fault} (h : (frameDecoder maxFrameLength .strict).next s buffer = .fail fault) :
    parseFrame buffer maxFrameLength = .error fault := by
  unfold frameDecoder at h
  dsimp only at h
  split at h
  · cases h
  · rename_i frame consumed hparse
    obtain ⟨headers, payload, -, -, hconsumed, hbuffer⟩ := parseFrame_sound hparse
    have hle : consumed ≤ buffer.length := by
      rw [hbuffer, length_append, hconsumed]
      omega
    rw [if_pos hle] at h
    cases h
  · cases h
    assumption
  · cases h
    assumption

theorem strict_take {out : List Frame} (h : (frameDecoder maxFrameLength .strict).next s buffer = .take rest out s') :
    ∃ headers payload, WellFormed maxFrameLength headers payload ∧
      out = [⟨headersOf headers, payload⟩] ∧ buffer = encodeFrame headers payload ++ rest ∧
      s' = { s with errors := 0 } := by
  unfold frameDecoder at h
  dsimp only at h
  split at h
  · cases h
  · rename_i frame consumed hparse
    split at h
    · cases h
      obtain ⟨headers, payload, hwell, rfl, -, hbuffer⟩ := parseFrame_sound hparse
      exact ⟨headers, payload, hwell, rfl, hbuffer, rfl⟩
    · cases h
  · cases h
  · cases h

theorem strict_continues : (frameDecoder maxFrameLength .strict).Continues (frameDecoder maxFrameLength .strict) := by
  constructor
  · intro s buffer rest out s' h behind
    have hparse : parseFrame buffer maxFrameLength ≠ .ok .incomplete := by
      intro hincomplete
      rw [frameDecoder_incomplete hincomplete] at h
      cases h
    unfold frameDecoder at h ⊢
    dsimp only at h ⊢
    rw [parseFrame_append hparse]
    split at h
    · cases h
    · split at h
      · rename_i hle
        cases h
        rw [if_pos (by rw [length_append]; omega), drop_append_of_le_length hle]
      · cases h
    · cases h
    · cases h
  · intro s buffer fault h behind
    have hparse := strict_fail h
    have hsame : parseFrame (buffer ++ behind) maxFrameLength = .error fault := by
      rw [parseFrame_append (by rw [hparse]; exact fun heq => nomatch heq), hparse]
    unfold frameDecoder
    dsimp only
    rw [hsame]
    cases fault with
    | wire e => rfl
    | panic => rfl

theorem strict_drain_regular : Regular ((frameDecoder maxFrameLength .strict).drain s buffer) := by
  induction s, buffer using drain_induction (d := frameDecoder maxFrameLength .strict) with
  | hmore hnext =>
    rw [drain_more hnext]
    exact regular_ok _
  | hfail hnext =>
    rw [drain_fail hnext]
    intro fault hfault
    cases hfault
    exact parseFrame_regular _ (strict_fail hnext)
  | htake hnext ih =>
    rw [drain_take hnext]
    exact ih.bind fun _ _ => regular_ok _

end

abbrev FrameData := List (String × HeaderValue) × List UInt8

def encodeFrames (data : List FrameData) : List UInt8 := data.flatMap fun f => encodeFrame f.1 f.2

def framesOf (data : List FrameData) : List Frame := data.map fun f => ⟨headersOf f.1, f.2⟩

/-- What is read is the layout of frames. -/
theorem strict_drain_sound {maxFrameLength : ℕ} {s s' : Recovery} {buffer rest : List UInt8} {frames : List Frame}
    (h : (frameDecoder maxFrameLength .strict).drain s buffer = .ok (frames, s', rest)) :
    ∃ data : List FrameData, (∀ f ∈ data, WellFormed maxFrameLength f.1 f.2) ∧
      buffer = encodeFrames data ++ rest ∧ frames = framesOf data := by
  induction s, buffer using drain_induction (d := frameDecoder maxFrameLength .strict) generalizing frames with
  | hmore hnext =>
    rw [drain_more hnext] at h
    cases h
    exact ⟨[], fun _ hmem => absurd hmem not_mem_nil, rfl, rfl⟩
  | hfail hnext =>
    rw [drain_fail hnext] at h
    cases h
  | htake hnext ih =>
    rw [drain_take hnext] at h
    obtain ⟨⟨frames₁, s₁, rest₁⟩, hr, h⟩ := bind_eq_ok.mp h
    cases h
    obtain ⟨headers, payload, hwell, rfl, hbuffer, -⟩ := strict_take hnext
    obtain ⟨data, hall, hrest, hframes⟩ := ih hr
    refine ⟨(headers, payload) :: data, ?_, ?_, ?_⟩
    · intro f hf
      rcases mem_cons.mp hf with rfl | hf
      · exact hwell
      · exact hall f hf
    · rw [hbuffer, hrest]
      show _ = encodeFrame headers payload ++ encodeFrames data ++ rest
      rw [append_assoc]
    · rw [hframes]
      rfl

theorem strict_drain_complete {maxFrameLength : ℕ} (hfits : maxFrameLength < 256 ^ 4)
    (data : List FrameData) (hall : ∀ f ∈ data, WellFormed maxFrameLength f.1 f.2) (s : Recovery) :
    ∃ s', (frameDecoder maxFrameLength .strict).drain s (encodeFrames data) = .ok (framesOf data, s', []) := by
  induction data generalizing s with
  | nil => exact ⟨s, drain_more (frameDecoder_incomplete rfl)⟩
  | cons f data ih =>
    have hbytes : encodeFrames (f :: data) = encodeFrame f.1 f.2 ++ encodeFrames data := rfl
    have hnext : (frameDecoder maxFrameLength .strict).next s (encodeFrames (f :: data)) =
        .take (encodeFrames data) [⟨headersOf f.1, f.2⟩] { s with errors := 0 } := by
      unfold frameDecoder
      dsimp only
      rw [hbytes, parseFrame_complete hfits (hall f mem_cons_self)]
      dsimp only
      rw [if_pos (by rw [length_append]; omega), drop_left]
    obtain ⟨s', hs'⟩ := ih (fun f hf => hall f (mem_cons_of_mem _ hf)) { s with errors := 0 }
    refine ⟨s', ?_⟩
    rw [drain_take hnext, hs']
    rfl

end CcSwitchServer.EventStream
