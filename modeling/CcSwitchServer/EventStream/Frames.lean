import CcSwitchServer.EventStream.Headers

/-! # Frames (`src/proxy/kiro/wire/header.rs`, `frame.rs`)

`parseHeaders` reads a block of headers to its end, and `parseFrame` takes a frame off a buffer.
-/

namespace CcSwitchServer.EventStream
open Foundations List Decoder OrderedMap

/-! ## A block of headers -/

/-- The loop of `parse_headers`: one header after the other, until nothing is left. -/
def headerDecoder : Decoder Headers Fault Empty UInt8 where
  next headers rest :=
    if rest = [] then .more
    else
      match takeHeader rest with
      | .error fault => .fail fault
      | .ok (header, rest) =>
        if (headers.get? header.1).isSome then .fail (.wire (.duplicateHeader header.1))
        else .take rest [] (headers.insert header.1 header.2)
  shrinks := by
    intro headers rest rest' out headers' h
    split at h
    · cases h
    · split at h
      · cases h
      · rename_i header rest₁ hheader
        split at h
        · cases h
        · cases h
          obtain ⟨-, hrest⟩ := takeHeader_sound hheader
          rw [hrest, length_append]
          unfold encodeHeader
          simp

def parseHeaders (bytes : List UInt8) : Except Fault Headers := do
  let (_, headers, _) ← headerDecoder.drain .empty bytes
  pure headers

variable (headers : List (String × HeaderValue))

/-- Of headers with one name the last counts. -/
def headersOf : Headers := headers.foldl (fun m header => m.insert header.1 header.2) .empty

/-! ## A frame -/

def crcStep (crc : UInt32) : UInt32 :=
  let mask := 0 - (crc &&& 1)
  (crc >>> 1) ^^^ (0xedb88320 &&& mask)

def crcByte (crc : UInt32) (byte : UInt8) : UInt32 := crcStep^[8] (crc ^^^ byte.toUInt32)

/-- The reflected polynomial of IEEE 802.3. -/
def crc32 (bytes : List UInt8) : UInt32 := ~~~(bytes.foldl crcByte 0xffffffff)

structure Frame where
  headers : Headers
  payload : List UInt8

inductive ParseOutcome
  | incomplete
  | complete (frame : Frame) (consumed : ℕ)

def preludeLength : ℕ := 12

def minFrameLength : ℕ := preludeLength + 4

def defaultMaxFrameLength : ℕ := 16 * 1024 * 1024

variable (buffer : List UInt8)

/-- A big-endian `u32` at a place of the buffer. -/
def sliceU32 (start stop : ℕ) : Except Fault ℕ := do
  let bytes ← slice buffer start stop
  let bytes ← array 4 bytes
  pure (beNat bytes)

def parseBody (totalLength headersLength : ℕ) : Except Fault ParseOutcome := do
  let expected ← sliceU32 buffer (totalLength - 4) totalLength
  let message ← slice buffer 0 (totalLength - 4)
  ensure (UInt32.ofNat expected = crc32 message) (.wire (.messageCrcMismatch (UInt32.ofNat expected) (crc32 message)))
  let headersEnd := preludeLength + headersLength
  let block ← slice buffer preludeLength headersEnd
  let headers ← parseHeaders block
  let payload ← slice buffer headersEnd (totalLength - 4)
  pure (.complete ⟨headers, payload⟩ totalLength)

/-- Two lengths and their checksum. -/
def parsePrelude (maxFrameLength : ℕ) : Except Fault (ℕ × ℕ) := do
  let totalLength ← sliceU32 buffer 0 4
  let headersLength ← sliceU32 buffer 4 8
  ensure (minFrameLength ≤ totalLength) (.wire (.frameTooSmall totalLength))
  ensure (totalLength ≤ maxFrameLength) (.wire (.frameTooLarge totalLength maxFrameLength))
  ensure (headersLength ≤ totalLength - minFrameLength) (.wire (.invalidFrameLayout totalLength headersLength))
  let expected ← sliceU32 buffer 8 12
  let lengths ← slice buffer 0 8
  ensure (UInt32.ofNat expected = crc32 lengths) (.wire (.preludeCrcMismatch (UInt32.ofNat expected) (crc32 lengths)))
  pure (totalLength, headersLength)

def parseFrame (maxFrameLength : ℕ) : Except Fault ParseOutcome :=
  if buffer.length < preludeLength then pure .incomplete
  else do
    let (totalLength, headersLength) ← parsePrelude buffer maxFrameLength
    if buffer.length < totalLength then pure .incomplete
    else parseBody buffer totalLength headersLength

/-! ## The layout of a frame -/

def encodeHeaders : List UInt8 := headers.flatMap encodeHeader

def encodeU32 (n : ℕ) : List UInt8 := beBytes 4 n

def encodePrelude (totalLength headersLength : ℕ) : List UInt8 :=
  let lengths := encodeU32 totalLength ++ encodeU32 headersLength
  lengths ++ encodeU32 (crc32 lengths).toNat

/-- The layout that the parser accepts. -/
def encodeFrame (payload : List UInt8) : List UInt8 :=
  let block := encodeHeaders headers
  let message := encodePrelude (12 + block.length + payload.length + 4) block.length ++ block ++ payload
  message ++ encodeU32 (crc32 message).toNat

/-- Headers with distinct names, and a frame that is not too long. -/
structure WellFormed (maxFrameLength : ℕ) (headers : List (String × HeaderValue))
    (payload : List UInt8) : Prop where
  fits : ∀ header ∈ headers, HeaderFits header
  distinct : (headers.map Prod.fst).Nodup
  length : 12 + (encodeHeaders headers).length + payload.length + 4 ≤ maxFrameLength

/-! ## Blocks of headers follow the layout -/

theorem headerDecoder_take {headers headers' : Headers} {rest rest' : List UInt8} {out : List Empty}
    (h : headerDecoder.next headers rest = .take rest' out headers') :
    ∃ header, HeaderFits header ∧ rest = encodeHeader header ++ rest' ∧
      headers.get? header.1 = none ∧ headers' = headers.insert header.1 header.2 ∧ out = [] := by
  unfold headerDecoder at h
  dsimp only at h
  split at h
  · cases h
  · split at h
    · cases h
    · rename_i header rest₁ hheader
      split at h
      · cases h
      · rename_i hnew
        cases h
        obtain ⟨hfits, hrest⟩ := takeHeader_sound hheader
        exact ⟨header, hfits, hrest, Option.not_isSome_iff_eq_none.mp hnew, rfl, rfl⟩

theorem headers_sound {headers headers' : Headers} {bytes rest : List UInt8} {out : List Empty}
    (h : headerDecoder.drain headers bytes = .ok (out, headers', rest)) :
    ∃ added : List (String × HeaderValue), (∀ header ∈ added, HeaderFits header) ∧
      (added.map Prod.fst).Nodup ∧ (∀ header ∈ added, headers.get? header.1 = none) ∧
      bytes = encodeHeaders added ∧
      headers' = added.foldl (fun m header => m.insert header.1 header.2) headers := by
  induction headers, bytes using drain_induction (d := headerDecoder) generalizing out with
  | hmore hnext =>
    rename_i headers bytes
    rw [drain_more hnext] at h
    cases h
    have hnil : rest = [] := by
      by_contra hne
      unfold headerDecoder at hnext
      dsimp only at hnext
      rw [if_neg hne] at hnext
      split at hnext
      · cases hnext
      · split at hnext
        · cases hnext
        · cases hnext
    exact ⟨[], fun _ hmem => absurd hmem not_mem_nil, nodup_nil, fun _ hmem => absurd hmem not_mem_nil, hnil, rfl⟩
  | hfail hnext =>
    rw [drain_fail hnext] at h
    cases h
  | htake hnext ih =>
    rw [drain_take hnext] at h
    obtain ⟨⟨out₁, headers₁, rest₁⟩, hr, h⟩ := bind_eq_ok.mp h
    cases h
    obtain ⟨header, hfits, hbytes, hnew, hinsert, -⟩ := headerDecoder_take hnext
    obtain ⟨added, hall, hnodup, hfresh, hrest, hfold⟩ := ih hr
    have hfresh' : ∀ other ∈ added, other.1 ≠ header.1 := by
      intro other hother heq
      have hnone := hfresh other hother
      rw [heq, hinsert, get?_insert_self] at hnone
      cases hnone
    refine ⟨header :: added, ?_, ?_, ?_, ?_, ?_⟩
    · intro other hother
      rcases mem_cons.mp hother with rfl | hother
      · exact hfits
      · exact hall other hother
    · rw [map_cons, nodup_cons]
      refine ⟨fun hmem => ?_, hnodup⟩
      obtain ⟨other, hother, heq⟩ := mem_map.mp hmem
      exact hfresh' other hother heq
    · intro other hother
      rcases mem_cons.mp hother with rfl | hother
      · exact hnew
      · have hnone := hfresh other hother
        rwa [hinsert, get?_insert_of_ne _ _ (hfresh' other hother).symm] at hnone
    · rw [hbytes, hrest]
      rfl
    · rw [hfold, hinsert]
      rfl

theorem headers_complete (added : List (String × HeaderValue)) {headers : Headers}
    (hall : ∀ header ∈ added, HeaderFits header) (hnodup : (added.map Prod.fst).Nodup)
    (hfresh : ∀ header ∈ added, headers.get? header.1 = none) :
    headerDecoder.drain headers (encodeHeaders added) =
      .ok ([], added.foldl (fun m header => m.insert header.1 header.2) headers, []) := by
  induction added generalizing headers with
  | nil => exact drain_more rfl
  | cons header added ih =>
    rw [map_cons, nodup_cons] at hnodup
    have hbytes : encodeHeaders (header :: added) = encodeHeader header ++ encodeHeaders added := rfl
    have hnext : headerDecoder.next headers (encodeHeaders (header :: added)) =
        .take (encodeHeaders added) [] (headers.insert header.1 header.2) := by
      unfold headerDecoder
      dsimp only
      rw [hbytes, if_neg (by simp [encodeHeader]), takeHeader_complete (hall header mem_cons_self)]
      dsimp only
      rw [hfresh header mem_cons_self]
      rfl
    rw [drain_take hnext, ih (fun other hother => hall other (mem_cons_of_mem _ hother))
      hnodup.2 fun other hother => ?_]
    · rfl
    · have hne : header.1 ≠ other.1 := fun heq =>
        hnodup.1 (heq ▸ mem_map_of_mem hother)
      rw [get?_insert_of_ne _ _ hne]
      exact hfresh other (mem_cons_of_mem _ hother)

theorem parseHeaders_sound {bytes : List UInt8} {headers : Headers} (h : parseHeaders bytes = .ok headers) :
    ∃ added, (∀ header ∈ added, HeaderFits header) ∧ (added.map Prod.fst).Nodup ∧
      bytes = encodeHeaders added ∧ headers = headersOf added := by
  obtain ⟨⟨out, headers₁, rest⟩, hdrain, h⟩ := bind_eq_ok.mp h
  cases h
  obtain ⟨added, hall, hnodup, -, hbytes, hfold⟩ := headers_sound hdrain
  exact ⟨added, hall, hnodup, hbytes, hfold⟩

theorem parseHeaders_complete {added : List (String × HeaderValue)}
    (hall : ∀ header ∈ added, HeaderFits header) (hnodup : (added.map Prod.fst).Nodup) :
    parseHeaders (encodeHeaders added) = .ok (headersOf added) := by
  unfold parseHeaders
  rw [headers_complete added hall hnodup fun _ _ => rfl]
  rfl

theorem parseHeaders_regular (bytes : List UInt8) : Regular (parseHeaders bytes) := by
  refine Regular.bind ?_ fun r hr => regular_ok _
  generalize (empty : Headers) = headers
  induction headers, bytes using drain_induction (d := headerDecoder) with
  | hmore hnext =>
    rw [drain_more hnext]
    exact regular_ok _
  | hfail hnext =>
    rename_i headers bytes fault
    rw [drain_fail hnext]
    intro fault' hfault
    cases hfault
    unfold headerDecoder at hnext
    dsimp only at hnext
    split at hnext
    · cases hnext
    · split at hnext
      · rename_i hheader
        cases hnext
        exact takeHeader_regular _ hheader
      · split at hnext
        · cases hnext
          trivial
        · cases hnext
  | htake hnext ih =>
    rw [drain_take hnext]
    exact ih.bind fun _ _ => regular_ok _

end CcSwitchServer.EventStream
