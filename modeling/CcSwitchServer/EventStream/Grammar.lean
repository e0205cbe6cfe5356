import CcSwitchServer.EventStream.Frames

/-! # What `parseFrame` accepts

`parseFrame` returns a frame exactly for a buffer that begins with the layout of a well-formed one.
-/

namespace CcSwitchServer.EventStream
open Foundations List

/-! ## Slices -/

section
variable {buffer : List UInt8} {start stop : ℕ}

theorem slice_ok (hle : start ≤ stop) (hstop : stop ≤ buffer.length) :
    slice buffer start stop = .ok ((buffer.take stop).drop start) := if_pos ⟨hle, hstop⟩

theorem slice_sound {bytes : List UInt8} (h : slice buffer start stop = .ok bytes) :
    start ≤ stop ∧ stop ≤ buffer.length ∧ bytes.length = stop - start ∧
      buffer.take stop = buffer.take start ++ bytes := by
  unfold slice at h
  split at h
  · rename_i hrange
    cases h
    refine ⟨hrange.1, hrange.2, ?_, ?_⟩
    · rw [length_drop, length_take, Nat.min_eq_left hrange.2]
    · have hsplit := (take_append_drop start (buffer.take stop)).symm
      rw [take_take, Nat.min_eq_left hrange.1] at hsplit
      exact hsplit
  · cases h

theorem slice_append (hstop : stop ≤ buffer.length) (behind : List UInt8) :
    slice (buffer ++ behind) start stop = slice buffer start stop := by
  unfold slice
  rw [take_append_of_le_length hstop, length_append]
  by_cases hle : start ≤ stop
  · rw [if_pos ⟨hle, by omega⟩, if_pos ⟨hle, hstop⟩]
  · rw [if_neg fun hrange => hle hrange.1, if_neg fun hrange => hle hrange.1]

theorem slice_of_eq {before middle after : List UInt8} (h : buffer = before ++ (middle ++ after))
    (hstart : before.length = start) (hstop : start + middle.length = stop) :
    slice buffer start stop = .ok middle := by
  subst hstart hstop h
  rw [slice_ok (by omega) (by simp), ← append_assoc, take_left' (by simp), drop_left]

theorem slice_front {middle : List UInt8} (after : List UInt8) (hstop : middle.length = stop) :
    slice (middle ++ after) 0 stop = .ok middle := by
  have hsplit : middle ++ after = [] ++ (middle ++ after) := (nil_append _).symm
  exact slice_of_eq hsplit length_nil (by rw [Nat.zero_add, hstop])

theorem sliceU32_append (hstop : stop ≤ buffer.length) (behind : List UInt8) :
    sliceU32 (buffer ++ behind) start stop = sliceU32 buffer start stop := by
  unfold sliceU32
  rw [slice_append hstop]

theorem sliceU32_sound {n : ℕ} (h : sliceU32 buffer start stop = .ok n) :
    n < 256 ^ 4 ∧ buffer.take stop = buffer.take start ++ encodeU32 n := by
  obtain ⟨bytes, hslice, h⟩ := bind_eq_ok.mp h
  obtain ⟨bytes₁, harray, h⟩ := bind_eq_ok.mp h
  cases h
  unfold array at harray
  split at harray
  · rename_i hlength
    cases harray
    obtain ⟨-, -, -, htake⟩ := slice_sound hslice
    have hlt := beNat_lt bytes
    have hbytes := beBytes_beNat bytes
    rw [hlength] at hlt hbytes
    refine ⟨hlt, ?_⟩
    unfold encodeU32
    rw [hbytes]
    exact htake
  · cases harray

theorem sliceU32_of_eq {before after : List UInt8} {n : ℕ} (hn : n < 256 ^ 4)
    (h : buffer = before ++ (encodeU32 n ++ after)) (hstart : before.length = start)
    (hstop : start + 4 = stop) : sliceU32 buffer start stop = .ok n := by
  have hlength : (encodeU32 n).length = 4 := length_beBytes 4 n
  unfold sliceU32 array
  rw [slice_of_eq h hstart (by rw [hlength]; exact hstop), ok_bind, if_pos hlength, ok_bind]
  unfold encodeU32
  rw [beNat_beBytes hn]
  rfl

theorem slice_regular (hle : start ≤ stop) (hstop : stop ≤ buffer.length) : Regular (slice buffer start stop) := by
  rw [slice_ok hle hstop]
  exact regular_ok _

theorem sliceU32_regular (hle : start + 4 = stop) (hstop : stop ≤ buffer.length) :
    Regular (sliceU32 buffer start stop) := by
  unfold sliceU32 array
  rw [slice_ok (by omega) hstop, ok_bind, if_pos]
  · exact regular_ok _
  · rw [length_drop, length_take]
    omega

end

theorem toNat_eq_of_ofNat {n : ℕ} {crc : UInt32} (hn : n < 256 ^ 4) (h : UInt32.ofNat n = crc) : n = crc.toNat := by
  rw [← h, UInt32.toNat_ofNat']
  exact (Nat.mod_eq_of_lt (by simpa using hn)).symm

/-! ## The prelude -/

section
variable {buffer : List UInt8} {maxFrameLength totalLength headersLength : ℕ}

theorem parsePrelude_sound (h : parsePrelude buffer maxFrameLength = .ok (totalLength, headersLength)) :
    16 ≤ totalLength ∧ totalLength ≤ maxFrameLength ∧ headersLength ≤ totalLength - 16 ∧
      buffer.take 12 = encodePrelude totalLength headersLength := by
  obtain ⟨total, htotal, h⟩ := bind_eq_ok.mp h
  obtain ⟨headers, hheaders, h⟩ := bind_eq_ok.mp h
  obtain ⟨u, hmin, h⟩ := bind_eq_ok.mp h
  obtain ⟨u', hmax, h⟩ := bind_eq_ok.mp h
  obtain ⟨u'', hlayout, h⟩ := bind_eq_ok.mp h
  obtain ⟨expected, hexpected, h⟩ := bind_eq_ok.mp h
  obtain ⟨lengths, hlengths, h⟩ := bind_eq_ok.mp h
  obtain ⟨uCrc, hcrc, h⟩ := bind_eq_ok.mp h
  cases h
  obtain ⟨-, htake⟩ := sliceU32_sound htotal
  obtain ⟨-, htake'⟩ := sliceU32_sound hheaders
  obtain ⟨hlt, htake''⟩ := sliceU32_sound hexpected
  obtain ⟨-, -, -, height⟩ := slice_sound hlengths
  rw [take_zero, nil_append] at height htake
  have hcrc := toNat_eq_of_ofNat hlt (ensure_eq_ok.mp hcrc)
  refine ⟨ensure_eq_ok.mp hmin, ensure_eq_ok.mp hmax, ensure_eq_ok.mp hlayout, ?_⟩
  unfold encodePrelude
  rw [htake'', ← htake, ← htake', hcrc, height]

theorem parsePrelude_complete {after : List UInt8} (hmin : 16 ≤ totalLength)
    (hmax : totalLength ≤ maxFrameLength) (hheaders : headersLength ≤ totalLength - 16)
    (hfits : maxFrameLength < 256 ^ 4) :
    parsePrelude (encodePrelude totalLength headersLength ++ after) maxFrameLength =
      .ok (totalLength, headersLength) := by
  have hcrc : ∀ crc : UInt32, crc.toNat < 256 ^ 4 := fun crc => by simpa using crc.toNat_lt
  have hlength : ∀ n, (encodeU32 n).length = 4 := length_beBytes 4
  generalize hlengths : encodeU32 totalLength ++ encodeU32 headersLength = lengths
  have hbuffer : encodePrelude totalLength headersLength ++ after =
      lengths ++ (encodeU32 (crc32 lengths).toNat ++ after) := by
    unfold encodePrelude
    rw [hlengths, append_assoc]
  have hlen : lengths.length = 8 := by
    rw [← hlengths, length_append, hlength, hlength]
  have hfirst : sliceU32 (lengths ++ (encodeU32 (crc32 lengths).toNat ++ after)) 0 4 = .ok totalLength := by
    have hsplit : lengths ++ (encodeU32 (crc32 lengths).toNat ++ after) = [] ++ (encodeU32 totalLength ++
        (encodeU32 headersLength ++ (encodeU32 (crc32 lengths).toNat ++ after))) := by
      rw [← hlengths, nil_append, append_assoc]
    exact sliceU32_of_eq (by omega) hsplit length_nil rfl
  have hsecond : sliceU32 (lengths ++ (encodeU32 (crc32 lengths).toNat ++ after)) 4 8 = .ok headersLength := by
    have hsplit : lengths ++ (encodeU32 (crc32 lengths).toNat ++ after) = encodeU32 totalLength ++
        (encodeU32 headersLength ++ (encodeU32 (crc32 lengths).toNat ++ after)) := by
      rw [← hlengths, append_assoc]
    exact sliceU32_of_eq (by omega) hsplit (hlength totalLength) rfl
  have hthird : sliceU32 (lengths ++ (encodeU32 (crc32 lengths).toNat ++ after)) 8 12 =
      .ok (crc32 lengths).toNat := sliceU32_of_eq (hcrc _) rfl hlen rfl
  have hslice : slice (lengths ++ (encodeU32 (crc32 lengths).toNat ++ after)) 0 8 = .ok lengths := slice_front _ hlen
  have hmin' : minFrameLength ≤ totalLength := hmin
  have hheaders' : headersLength ≤ totalLength - minFrameLength := hheaders
  unfold parsePrelude
  rw [hbuffer, hfirst, ok_bind, hsecond, ok_bind, ensure_of hmin', ok_bind, ensure_of hmax, ok_bind,
    ensure_of hheaders', ok_bind, hthird, ok_bind, hslice, ok_bind, ensure_of UInt32.ofNat_toNat]
  rfl

theorem parsePrelude_append (h : 12 ≤ buffer.length) (behind : List UInt8) :
    parsePrelude (buffer ++ behind) maxFrameLength = parsePrelude buffer maxFrameLength := by
  unfold parsePrelude
  rw [sliceU32_append (by omega), sliceU32_append (by omega), sliceU32_append (by omega), slice_append (by omega)]

theorem parsePrelude_regular (h : 12 ≤ buffer.length) : Regular (parsePrelude buffer maxFrameLength) := by
  refine (sliceU32_regular rfl (by omega)).bind fun _ _ => ?_
  refine (sliceU32_regular rfl (by omega)).bind fun _ _ => ?_
  refine (regular_ensure (by trivial)).bind fun _ _ => ?_
  refine (regular_ensure (by trivial)).bind fun _ _ => ?_
  refine (regular_ensure (by trivial)).bind fun _ _ => ?_
  refine (sliceU32_regular rfl (by omega)).bind fun _ _ => ?_
  refine (slice_regular (by omega) (by omega)).bind fun _ _ => ?_
  exact (regular_ensure (by trivial)).bind fun _ _ => regular_ok _

end

/-! ## The frame -/

section
variable {buffer : List UInt8} {totalLength headersLength : ℕ}

theorem parseBody_append (htotal : totalLength ≤ buffer.length) (hmin : 16 ≤ totalLength)
    (hheaders : headersLength ≤ totalLength - 16) (behind : List UInt8) :
    parseBody (buffer ++ behind) totalLength headersLength = parseBody buffer totalLength headersLength := by
  unfold parseBody preludeLength
  dsimp only
  rw [sliceU32_append htotal, slice_append (by omega), slice_append (by omega), slice_append (by omega)]

theorem parseBody_regular (htotal : totalLength ≤ buffer.length) (hmin : 16 ≤ totalLength)
    (hheaders : headersLength ≤ totalLength - 16) :
    Regular (parseBody buffer totalLength headersLength) := by
  refine (sliceU32_regular (by omega) htotal).bind fun _ _ => ?_
  refine (slice_regular (by omega) (by omega)).bind fun _ _ => ?_
  refine (regular_ensure (by trivial)).bind fun _ _ => ?_
  refine (slice_regular (Nat.le_add_right _ _) (by unfold preludeLength; omega)).bind fun _ _ => ?_
  refine (parseHeaders_regular _).bind fun _ _ => ?_
  exact (slice_regular (by unfold preludeLength; omega) (by omega)).bind fun _ _ => regular_ok _

theorem parseBody_sound {outcome : ParseOutcome}
    (h : parseBody buffer totalLength headersLength = .ok outcome) (hmin : 16 ≤ totalLength)
    (hheaders : headersLength ≤ totalLength - 16)
    (hprelude : buffer.take 12 = encodePrelude totalLength headersLength) :
    ∃ headers payload, (∀ header ∈ headers, HeaderFits header) ∧ (headers.map Prod.fst).Nodup ∧
      12 + (encodeHeaders headers).length + payload.length + 4 = totalLength ∧
      outcome = .complete ⟨headersOf headers, payload⟩ totalLength ∧
      buffer.take totalLength = encodeFrame headers payload := by
  obtain ⟨expected, hexpected, h⟩ := bind_eq_ok.mp h
  obtain ⟨message, hmessage, h⟩ := bind_eq_ok.mp h
  obtain ⟨u, hcrc, h⟩ := bind_eq_ok.mp h
  obtain ⟨block, hblock, h⟩ := bind_eq_ok.mp h
  obtain ⟨parsed, hparsed, h⟩ := bind_eq_ok.mp h
  obtain ⟨payload, hpayload, h⟩ := bind_eq_ok.mp h
  cases h
  unfold preludeLength at hblock hpayload
  obtain ⟨hlt, htake⟩ := sliceU32_sound hexpected
  obtain ⟨-, -, -, htake'⟩ := slice_sound hmessage
  obtain ⟨-, -, hblockLength, htake''⟩ := slice_sound hblock
  obtain ⟨-, -, hpayloadLength, htake'''⟩ := slice_sound hpayload
  obtain ⟨headers, hall, hnodup, rfl, rfl⟩ := parseHeaders_sound hparsed
  have hcrc := toNat_eq_of_ofNat hlt (ensure_eq_ok.mp hcrc)
  rw [take_zero, nil_append] at htake'
  have htotal : 12 + (encodeHeaders headers).length + payload.length + 4 = totalLength := by omega
  have hlength : (encodeHeaders headers).length = headersLength := by omega
  refine ⟨headers, payload, hall, hnodup, htotal, rfl, ?_⟩
  unfold encodeFrame
  dsimp only
  rw [htotal, hlength, ← hprelude, ← htake'', ← htake''', htake, hcrc, htake']

/-- The layout of a body is read back. -/
theorem parseBody_complete {headers : List (String × HeaderValue)} {payload : List UInt8}
    (hall : ∀ header ∈ headers, HeaderFits header) (hnodup : (headers.map Prod.fst).Nodup) (behind : List UInt8) :
    parseBody (encodeFrame headers payload ++ behind)
      (12 + (encodeHeaders headers).length + payload.length + 4) (encodeHeaders headers).length =
    .ok (.complete ⟨headersOf headers, payload⟩ (12 + (encodeHeaders headers).length + payload.length + 4)) := by
  have hcrc : ∀ crc : UInt32, crc.toNat < 256 ^ 4 := fun crc => by simpa using crc.toNat_lt
  generalize hblock : encodeHeaders headers = block
  generalize hprelude : encodePrelude (12 + block.length + payload.length + 4) block.length = start
  have hstart : start.length = 12 := by
    rw [← hprelude]
    unfold encodePrelude
    simp only [length_append, encodeU32, length_beBytes]
  generalize hmessage : start ++ block ++ payload = message
  have hlength : message.length = 12 + block.length + payload.length := by
    rw [← hmessage, length_append, length_append, hstart]
  have hframe : encodeFrame headers payload ++ behind = message ++ (encodeU32 (crc32 message).toNat ++ behind) := by
    unfold encodeFrame
    dsimp only
    rw [hblock, hprelude, hmessage, append_assoc]
  have hlast : sliceU32 (message ++ (encodeU32 (crc32 message).toNat ++ behind))
      (12 + block.length + payload.length + 4 - 4) (12 + block.length + payload.length + 4) =
      .ok (crc32 message).toNat := sliceU32_of_eq (hcrc _) rfl (by omega) (by omega)
  have hfirst : slice (message ++ (encodeU32 (crc32 message).toNat ++ behind)) 0
      (12 + block.length + payload.length + 4 - 4) = .ok message :=
    slice_front _ (by omega)
  have hheaders : slice (message ++ (encodeU32 (crc32 message).toNat ++ behind)) 12
      (12 + block.length) = .ok block := by
    have hsplit : message ++ (encodeU32 (crc32 message).toNat ++ behind) =
        start ++ (block ++ (payload ++ (encodeU32 (crc32 message).toNat ++ behind))) := by
      nth_rewrite 1 [← hmessage]
      rw [append_assoc, append_assoc]
    exact slice_of_eq hsplit hstart rfl
  have hpayload : slice (message ++ (encodeU32 (crc32 message).toNat ++ behind)) (12 + block.length)
      (12 + block.length + payload.length + 4 - 4) = .ok payload := by
    have hsplit : message ++ (encodeU32 (crc32 message).toNat ++ behind) =
        start ++ block ++ (payload ++ (encodeU32 (crc32 message).toNat ++ behind)) := by
      nth_rewrite 1 [← hmessage]
      rw [append_assoc]
    refine slice_of_eq hsplit ?_ (by omega)
    rw [length_append, hstart]
  have hparsed : parseHeaders block = .ok (headersOf headers) := by
    rw [← hblock]
    exact parseHeaders_complete hall hnodup
  unfold parseBody preludeLength
  dsimp only
  rw [hframe, hlast, ok_bind, hfirst, ok_bind, ensure_of UInt32.ofNat_toNat, ok_bind, hheaders, ok_bind,
    hparsed, ok_bind, hpayload]
  rfl

end

theorem length_encodeFrame (headers : List (String × HeaderValue)) (payload : List UInt8) :
    (encodeFrame headers payload).length = 12 + (encodeHeaders headers).length + payload.length + 4 := by
  unfold encodeFrame encodePrelude
  simp only [length_append, encodeU32, length_beBytes]

section
variable {buffer : List UInt8} {maxFrameLength : ℕ}

theorem parseFrame_sound {frame : Frame} {consumed : ℕ}
    (h : parseFrame buffer maxFrameLength = .ok (.complete frame consumed)) :
    ∃ headers payload, WellFormed maxFrameLength headers payload ∧
      frame = ⟨headersOf headers, payload⟩ ∧ consumed = (encodeFrame headers payload).length ∧
      buffer = encodeFrame headers payload ++ buffer.drop consumed := by
  unfold parseFrame at h
  split at h
  · cases h
  · obtain ⟨⟨totalLength, headersLength⟩, hprelude, h⟩ := bind_eq_ok.mp h
    obtain ⟨hmin, hmax, hheaders, htake⟩ := parsePrelude_sound hprelude
    dsimp only at h
    split at h
    · cases h
    · obtain ⟨headers, payload, hall, hnodup, htotal, houtcome, hbytes⟩ := parseBody_sound h hmin hheaders htake
      cases houtcome
      refine ⟨headers, payload, ⟨hall, hnodup, by omega⟩, rfl, ?_, ?_⟩
      · rw [length_encodeFrame, htotal]
      · rw [← hbytes, take_append_drop]

theorem parseFrame_complete {headers : List (String × HeaderValue)} {payload : List UInt8}
    (hfits : maxFrameLength < 256 ^ 4) (h : WellFormed maxFrameLength headers payload) (behind : List UInt8) :
    parseFrame (encodeFrame headers payload ++ behind) maxFrameLength =
      .ok (.complete ⟨headersOf headers, payload⟩ (encodeFrame headers payload).length) := by
  have hlength := length_encodeFrame headers payload
  have hprelude : parsePrelude (encodeFrame headers payload ++ behind) maxFrameLength =
      .ok ((encodeFrame headers payload).length, (encodeHeaders headers).length) := by
    have hbound := h.length
    rw [hlength]
    unfold encodeFrame
    simp only [append_assoc]
    exact parsePrelude_complete (by omega) hbound (by omega) hfits
  unfold parseFrame
  rw [if_neg (by rw [length_append, hlength]; unfold preludeLength; omega), hprelude, ok_bind]
  dsimp only
  rw [if_neg (by rw [length_append]; omega), hlength]
  exact parseBody_complete h.fits h.distinct behind

/-- The decision does not change with more bytes, unless bytes were missing. -/
theorem parseFrame_append (h : parseFrame buffer maxFrameLength ≠ .ok .incomplete) (behind : List UInt8) :
    parseFrame (buffer ++ behind) maxFrameLength = parseFrame buffer maxFrameLength := by
  unfold parseFrame at h ⊢
  by_cases hshort : buffer.length < preludeLength
  · rw [if_pos hshort] at h
    exact absurd rfl h
  · have hlong : 12 ≤ buffer.length := not_lt.mp hshort
    rw [if_neg hshort] at h ⊢
    rw [if_neg (by rw [length_append]; omega), parsePrelude_append hlong]
    cases hprelude : parsePrelude buffer maxFrameLength with
    | error fault => rfl
    | ok lengths =>
      obtain ⟨totalLength, headersLength⟩ := lengths
      obtain ⟨hmin, hmax, hheaders, htake⟩ := parsePrelude_sound hprelude
      rw [hprelude, ok_bind] at h
      rw [ok_bind, ok_bind]
      dsimp only at h ⊢
      by_cases htotal : buffer.length < totalLength
      · rw [if_pos htotal] at h
        exact absurd rfl h
      · rw [if_neg htotal, if_neg (by rw [length_append]; omega)]
        exact parseBody_append (not_lt.mp htotal) hmin hheaders behind

theorem parseFrame_regular : Regular (parseFrame buffer maxFrameLength) := by
  unfold parseFrame
  split
  · exact regular_ok _
  · rename_i hshort
    refine (parsePrelude_regular (not_lt.mp hshort)).bind fun lengths hprelude => ?_
    obtain ⟨totalLength, headersLength⟩ := lengths
    obtain ⟨hmin, -, hheaders, -⟩ := parsePrelude_sound hprelude
    dsimp only
    split
    · exact regular_ok _
    · rename_i htotal
      exact parseBody_regular (not_lt.mp htotal) hmin hheaders

theorem length_of_incomplete (h : parseFrame buffer maxFrameLength = .ok .incomplete) :
    buffer.length < maxFrameLength ∨ buffer.length < 12 := by
  unfold parseFrame at h
  split at h
  · rename_i hshort
    exact .inr hshort
  · obtain ⟨⟨totalLength, headersLength⟩, hprelude, h⟩ := bind_eq_ok.mp h
    obtain ⟨hmin, hmax, hheaders, htake⟩ := parsePrelude_sound hprelude
    dsimp only at h
    split at h
    · rename_i htotal
      exact .inl (by omega)
    · obtain ⟨headers, payload, -, -, -, houtcome, -⟩ := parseBody_sound h hmin hheaders htake
      cases houtcome

end

end CcSwitchServer.EventStream
