import CcSwitchServer.AgentProto.Wire
import CcSwitchServer.Foundations.Incremental

/-! # Connect frames

A frame is a flags byte, a big-endian length and the payload. Decompression is a parameter.
-/

namespace CcSwitchServer.AgentProto
open Foundations

def flagNone : UInt8 := 0x00
def flagGzip : UInt8 := 0x01
def flagEndStream : UInt8 := 0x02

def connectMaxFrameBytes : ℕ := 16 * 1024 * 1024

/-- The length is written as a `u32`. -/
def wrapConnectFrame (payload : List UInt8) : List UInt8 := flagNone :: (beBytes 4 payload.length ++ payload)

structure ConnectFrame where
  flags : UInt8
  payload : List UInt8
  deriving DecidableEq, Repr

/-- The first frame of the buffer as it stands on the wire, and the bytes behind it; `none` when the frame
is not complete yet. -/
def splitFrame (buffer : List UInt8) : Except ProtoError (Option (ConnectFrame × List UInt8)) :=
  if buffer.length < 5 then .ok none
  else
    let flags := buffer.headD 0
    if flags ≠ flagNone ∧ flags ≠ flagGzip ∧ flags ≠ flagEndStream then
      .error (.invalidFrameFlags flags)
    else
      let length := beNat ((buffer.drop 1).take 4)
      if length > connectMaxFrameBytes then .error (.frameTooLarge length connectMaxFrameBytes)
      else if buffer.length < 5 + length then .ok none
      else .ok (some (⟨flags, (buffer.drop 5).take length⟩, buffer.drop (5 + length)))

section
variable (gunzip : List UInt8 → Except String (List UInt8))

/-- At most one byte more than the limit is unpacked. -/
def gunzipLimited (src : List UInt8) (decodedLimit : ℕ) : Except ProtoError (List UInt8) :=
  match gunzip src with
  | .error message => .error (.gzip message)
  | .ok whole =>
    let out := whole.take (min decodedLimit connectMaxFrameBytes + 1)
    if out.length > decodedLimit then .error (.decodedLimit out.length decodedLimit)
    else if out.length > connectMaxFrameBytes then
      .error (.frameTooLarge out.length connectMaxFrameBytes)
    else .ok out

/-- The payload as the caller gets it, and the bytes unpacked in this call so far. -/
def decodeFrame (decodedLimit decodedBytes : ℕ) (raw : ConnectFrame) : Except ProtoError (ConnectFrame × ℕ) :=
  if raw.flags &&& flagGzip ≠ 0 then
    match gunzipLimited gunzip raw.payload (decodedLimit - decodedBytes) with
    | .error e => .error e
    | .ok decoded => .ok (⟨raw.flags, decoded⟩, saturatingAdd decodedBytes decoded.length)
  else .ok (raw, decodedBytes)

/-- One turn of the loop of `feed_with_decoded_limit`. -/
def nextFrame (decodedLimit decodedBytes : ℕ) (buffer : List UInt8) : Next ℕ ProtoError ConnectFrame UInt8 :=
  match splitFrame buffer with
  | .error e => .fail e
  | .ok none => .more
  | .ok (some (raw, rest)) =>
    match decodeFrame gunzip decodedLimit decodedBytes raw with
    | .error e => .fail e
    | .ok (frame, decodedBytes) => .take rest [frame] decodedBytes

end

variable {raw : ConnectFrame} {rest : List UInt8}

theorem splitFrame_eq_some {buffer : List UInt8}
    (h : splitFrame buffer = .ok (some (raw, rest))) : rest.length < buffer.length := by
  unfold splitFrame at h
  split at h
  · cases h
  · dsimp only at h
    split at h
    · cases h
    · split at h
      · cases h
      · split at h
        · cases h
        · cases h
          rw [List.length_drop]
          omega

section
variable (gunzip : List UInt8 → Except String (List UInt8))

/-- How much gzip may unpack is counted anew in every call. -/
def frameParser (decodedLimit : ℕ) : Decoder ℕ ProtoError ConnectFrame UInt8 where
  next := nextFrame gunzip decodedLimit
  shrinks {decodedBytes buffer rest out decodedBytes'} h := by
    unfold nextFrame at h
    split at h
    · cases h
    · cases h
    · rename_i raw rest' hsplit
      split at h
      · cases h
      · cases h
        exact splitFrame_eq_some hsplit

/-- A call of `feed_with_decoded_limit` on a parser that holds `buffer`. -/
def feedWithDecodedLimit (decodedLimit : ℕ) (buffer chunk : List UInt8) :
    Except ProtoError (List ConnectFrame × List UInt8) := do
  let r ← (frameParser gunzip decodedLimit).drain 0 (buffer ++ chunk)
  pure (r.1, r.2.2)

def feed (buffer chunk : List UInt8) : Except ProtoError (List ConnectFrame × List UInt8) :=
  feedWithDecodedLimit gunzip connectMaxFrameBytes buffer chunk

/-- The stream may not end inside a frame. -/
def finish (buffer : List UInt8) : Except ProtoError Unit :=
  if buffer = [] then .ok () else .error (.incompleteFrame buffer.length)

/-- The frames that the calls return, one chunk each, up to the first error; and the error, or the bytes
that are held at the end. -/
def feedChunks (decodedLimit : ℕ) : List UInt8 → List (List UInt8) →
    List ConnectFrame × Except ProtoError (List UInt8)
  | buffer, [] => ([], .ok buffer)
  | buffer, chunk :: chunks =>
    match feedWithDecodedLimit gunzip decodedLimit buffer chunk with
    | .error e => ([], .error e)
    | .ok (frames, buffer') =>
      let r := feedChunks decodedLimit buffer' chunks
      (frames ++ r.1, r.2)

end

/-! ## Frames on the wire -/

/-- The frames of a byte stream, without their payloads unpacked. -/
def rawParser : Decoder Unit ProtoError ConnectFrame UInt8 where
  next _ buffer :=
    match splitFrame buffer with
    | .error e => .fail e
    | .ok none => .more
    | .ok (some (raw, rest)) => .take rest [raw] ()
  shrinks {s buffer rest out s'} h := by
    split at h
    · cases h
    · cases h
    · rename_i raw rest' hsplit
      cases h
      exact splitFrame_eq_some hsplit

variable {buffer : List UInt8}

theorem header_append (hlen : ¬buffer.length < 5) (behind : List UInt8) :
    (buffer ++ behind).headD 0 = buffer.headD 0 ∧ ((buffer ++ behind).drop 1).take 4 = (buffer.drop 1).take 4 := by
  constructor
  · cases buffer with
    | nil => exact absurd (by decide) hlen
    | cons byte buffer => rfl
  · rw [List.drop_append_of_le_length (by omega), List.take_append_of_le_length]
    rw [List.length_drop]
    omega

theorem splitFrame_append
    (h : splitFrame buffer = .ok (some (raw, rest))) (behind : List UInt8) :
    splitFrame (buffer ++ behind) = .ok (some (raw, rest ++ behind)) := by
  unfold splitFrame at h ⊢
  split at h
  · cases h
  · rename_i hlen
    obtain ⟨hhead, hbytes⟩ := header_append hlen behind
    dsimp only at h ⊢
    rw [hhead, hbytes, if_neg (by rw [List.length_append]; omega)]
    split at h
    · cases h
    · rename_i hflags
      rw [if_neg hflags]
      split at h
      · cases h
      · rename_i hmax
        rw [if_neg hmax]
        split at h
        · cases h
        · rename_i hroom
          cases h
          rw [if_neg (by rw [List.length_append]; omega), List.drop_append_of_le_length (by omega),
            List.take_append_of_le_length (by rw [List.length_drop]; omega), List.drop_append_of_le_length (by omega)]

theorem splitFrame_error {e : ProtoError} (h : splitFrame buffer = .error e) (behind : List UInt8) :
    splitFrame (buffer ++ behind) = .error e := by
  unfold splitFrame at h ⊢
  split at h
  · cases h
  · rename_i hlen
    obtain ⟨hhead, hbytes⟩ := header_append hlen behind
    dsimp only at h ⊢
    rw [hhead, hbytes, if_neg (by rw [List.length_append]; omega)]
    split at h
    · rename_i hflags
      rw [if_pos hflags]
      exact h
    · rename_i hflags
      rw [if_neg hflags]
      split at h
      · rename_i hmax
        rw [if_pos hmax]
        exact h
      · split at h
        · cases h
        · cases h

theorem rawParser_more (h : splitFrame buffer = .ok none) : rawParser.next () buffer = .more := by
  unfold rawParser
  dsimp only
  rw [h]

theorem rawParser_fail {e : ProtoError} (h : splitFrame buffer = .error e) : rawParser.next () buffer = .fail e := by
  unfold rawParser
  dsimp only
  rw [h]

theorem rawParser_take (h : splitFrame buffer = .ok (some (raw, rest))) :
    rawParser.next () buffer = .take rest [raw] () := by
  unfold rawParser
  dsimp only
  rw [h]

/-- What is decided about a frame no byte behind it can change. -/
theorem rawParser_continues : Decoder.Continues rawParser rawParser where
  take {s buffer rest out s'} h behind := by
    cases hsplit : splitFrame buffer with
    | error e =>
      rw [rawParser_fail hsplit] at h
      cases h
    | ok r =>
      cases r with
      | none =>
        rw [rawParser_more hsplit] at h
        cases h
      | some r =>
        rw [rawParser_take hsplit] at h
        cases h
        exact rawParser_take (splitFrame_append hsplit behind)
  fail {s buffer e} h behind := by
    cases hsplit : splitFrame buffer with
    | error e' =>
      rw [rawParser_fail hsplit] at h
      cases h
      exact rawParser_fail (splitFrame_error hsplit behind)
    | ok r =>
      cases r with
      | none =>
        rw [rawParser_more hsplit] at h
        cases h
      | some r =>
        rw [rawParser_take hsplit] at h
        cases h

end CcSwitchServer.AgentProto
