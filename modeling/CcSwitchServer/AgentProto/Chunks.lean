import CcSwitchServer.AgentProto.Connect

/-! # Cuts in a stream of Connect frames

A call that fails returns no frame, not even those it has read before the error.
-/

namespace CcSwitchServer.AgentProto
open Foundations List ConnectFrame Decoder

section
variable (gunzip : List UInt8 → Except String (List UInt8))

def ConnectFrame.unpacked (raw : ConnectFrame) : ConnectFrame :=
  if raw.flags &&& flagGzip ≠ 0 then ⟨raw.flags, (gunzip raw.payload).toOption.getD []⟩ else raw

/-- What gzip unpacks counts against the limit. -/
def ConnectFrame.decodedSize (raw : ConnectFrame) : ℕ :=
  if raw.flags &&& flagGzip ≠ 0 then (raw.unpacked gunzip).payload.length else 0

def decodedTotal (raws : List ConnectFrame) : ℕ := (raws.map (·.decodedSize gunzip)).sum

/-- Every gzip payload unpacks, and all together within the limits. -/
structure Unpacks (decodedLimit : ℕ) (raws : List ConnectFrame) : Prop where
  defined : ∀ raw ∈ raws, raw.flags &&& flagGzip ≠ 0 → ∃ out, gunzip raw.payload = .ok out
  total : decodedTotal gunzip raws ≤ decodedLimit
  total_max : decodedTotal gunzip raws ≤ connectMaxFrameBytes

/-- The loop of one call over the frames on the wire. -/
def decodeFrames (decodedLimit : ℕ) : ℕ → List ConnectFrame → Except ProtoError (List ConnectFrame × ℕ)
  | decodedBytes, [] => .ok ([], decodedBytes)
  | decodedBytes, raw :: raws => do
    let (frame, decodedBytes) ← decodeFrame gunzip decodedLimit decodedBytes raw
    let r ← decodeFrames decodedLimit decodedBytes raws
    pure (frame :: r.1, r.2)

variable {gunzip}

variable {decodedLimit : ℕ} {raws : List ConnectFrame} {buffer : List UInt8}

theorem Unpacks.append {raws' : List ConnectFrame} :
    Unpacks gunzip decodedLimit (raws ++ raws') →
      Unpacks gunzip decodedLimit raws ∧ Unpacks gunzip decodedLimit raws' := by
  intro h
  have htotal := h.total
  have hmax := h.total_max
  unfold decodedTotal at htotal hmax
  rw [map_append, sum_append] at htotal hmax
  refine ⟨⟨fun raw hmem => h.defined raw (mem_append_left _ hmem), ?_, ?_⟩,
    ⟨fun raw hmem => h.defined raw (mem_append_right _ hmem), ?_, ?_⟩⟩
  all_goals
    unfold decodedTotal
    omega

theorem unpacks_of_plain (h : ∀ raw ∈ raws, raw.flags &&& flagGzip = 0) (decodedLimit : ℕ) :
    Unpacks gunzip decodedLimit raws := by
  have hzero : decodedTotal gunzip raws = 0 := by
    unfold decodedTotal
    rw [map_congr_left (g := fun _ => 0) fun raw hmem => ?_]
    · simp
    · unfold decodedSize
      rw [if_neg (not_not.mpr (h raw hmem))]
  exact ⟨fun raw hmem hne => absurd (h raw hmem) hne, by omega, by omega⟩

theorem unpacked_of_plain {raw : ConnectFrame} (h : raw.flags &&& flagGzip = 0) :
    raw.unpacked gunzip = raw := if_neg (not_not.mpr h)

theorem decodeFrame_ok {decodedBytes : ℕ} {raw : ConnectFrame}
    (hdefined : raw.flags &&& flagGzip ≠ 0 → ∃ out, gunzip raw.payload = .ok out)
    (hlimit : decodedBytes + raw.decodedSize gunzip ≤ decodedLimit)
    (hmax : decodedBytes + raw.decodedSize gunzip ≤ connectMaxFrameBytes) :
    decodeFrame gunzip decodedLimit decodedBytes raw =
      .ok (raw.unpacked gunzip, decodedBytes + raw.decodedSize gunzip) := by
  unfold decodedSize unpacked at hlimit hmax ⊢
  unfold decodeFrame
  by_cases hgzip : raw.flags &&& flagGzip ≠ 0
  · obtain ⟨out, hout⟩ := hdefined hgzip
    rw [if_pos hgzip] at hlimit hmax ⊢
    rw [if_pos hgzip, hout] at hlimit hmax
    rw [if_pos hgzip, if_pos hgzip, hout]
    have hlength : out.length ≤ decodedLimit - decodedBytes := by
      have : decodedBytes + out.length ≤ decodedLimit := hlimit
      omega
    have hlength' : decodedBytes + out.length ≤ connectMaxFrameBytes := hmax
    have hunzip : gunzipLimited gunzip raw.payload (decodedLimit - decodedBytes) = .ok out := by
      unfold gunzipLimited
      rw [hout]
      dsimp only
      rw [take_of_length_le (by omega), if_neg (by omega), if_neg (by omega)]
    rw [hunzip]
    show Except.ok _ = Except.ok (_, decodedBytes + out.length)
    have hsat : saturatingAdd decodedBytes out.length = decodedBytes + out.length := by
      unfold saturatingAdd u64Max
      unfold connectMaxFrameBytes at hlength'
      omega
    rw [hsat]
    rfl
  · rw [if_neg hgzip, if_neg hgzip, if_neg hgzip]
    rfl

theorem decodeFrames_ok {decodedBytes : ℕ}
    (hdefined : ∀ raw ∈ raws, raw.flags &&& flagGzip ≠ 0 → ∃ out, gunzip raw.payload = .ok out)
    (hlimit : decodedBytes + decodedTotal gunzip raws ≤ decodedLimit)
    (hmax : decodedBytes + decodedTotal gunzip raws ≤ connectMaxFrameBytes) :
    decodeFrames gunzip decodedLimit decodedBytes raws =
      .ok (raws.map (·.unpacked gunzip), decodedBytes + decodedTotal gunzip raws) := by
  induction raws generalizing decodedBytes with
  | nil => rfl
  | cons raw raws ih =>
    have hcons : decodedTotal gunzip (raw :: raws) = raw.decodedSize gunzip + decodedTotal gunzip raws := by
      unfold decodedTotal
      rw [map_cons, sum_cons]
    rw [hcons] at hlimit hmax ⊢
    rw [decodeFrames, decodeFrame_ok (hdefined raw mem_cons_self) (by omega) (by omega), ok_bind]
    dsimp only
    rw [ih (fun raw' hmem => hdefined raw' (mem_cons_of_mem _ hmem)) (by omega) (by omega), ok_bind, Nat.add_assoc]
    rfl

/-- A call reads the frames on the wire and then unpacks them. -/
theorem drain_eq_decodeFrames (decodedLimit decodedBytes : ℕ) (buffer : List UInt8) :
    (frameParser gunzip decodedLimit).drain decodedBytes buffer = (do
      let r ← decodeFrames gunzip decodedLimit decodedBytes (rawParser.trail () buffer).1
      let t ← (rawParser.trail () buffer).2
      pure (r.1, r.2, t.2)) := by
  induction hn : buffer.length using Nat.strongRecOn generalizing decodedBytes buffer with
  | ind n ih =>
    cases hsplit : splitFrame buffer with
    | error e =>
      have hnext : (frameParser gunzip decodedLimit).next decodedBytes buffer = .fail e := by
        show nextFrame gunzip decodedLimit decodedBytes buffer = _
        unfold nextFrame
        rw [hsplit]
      rw [drain_fail hnext, trail_fail (rawParser_fail hsplit)]
      rfl
    | ok r =>
      cases r with
      | none =>
        have hnext : (frameParser gunzip decodedLimit).next decodedBytes buffer = .more := by
          show nextFrame gunzip decodedLimit decodedBytes buffer = _
          unfold nextFrame
          rw [hsplit]
        rw [drain_more hnext, trail_more (rawParser_more hsplit)]
        rfl
      | some r =>
        obtain ⟨raw, rest⟩ := r
        rw [trail_take (rawParser_take hsplit), singleton_append, decodeFrames]
        cases hframe : decodeFrame gunzip decodedLimit decodedBytes raw with
        | error e =>
          have hnext : (frameParser gunzip decodedLimit).next decodedBytes buffer = .fail e := by
            show nextFrame gunzip decodedLimit decodedBytes buffer = _
            unfold nextFrame
            rw [hsplit]
            dsimp only
            rw [hframe]
          rw [drain_fail hnext]
          rfl
        | ok d =>
          obtain ⟨frame, decodedBytes'⟩ := d
          have hnext : (frameParser gunzip decodedLimit).next decodedBytes buffer =
              .take rest [frame] decodedBytes' := by
            show nextFrame gunzip decodedLimit decodedBytes buffer = _
            unfold nextFrame
            rw [hsplit]
            dsimp only
            rw [hframe]
          rw [drain_take hnext, ih rest.length (hn ▸ splitFrame_eq_some hsplit) _ rest rfl]
          simp only [ok_bind, bind_assoc, pure_bind, singleton_append]

theorem feed_of_unpacks {chunk : List UInt8}
    (h : Unpacks gunzip decodedLimit (rawParser.trail () (buffer ++ chunk)).1) :
    feedWithDecodedLimit gunzip decodedLimit buffer chunk = (do
      let t ← (rawParser.trail () (buffer ++ chunk)).2
      pure ((rawParser.trail () (buffer ++ chunk)).1.map (·.unpacked gunzip), t.2)) := by
  have htotal := h.total
  have hmax := h.total_max
  unfold feedWithDecodedLimit
  rw [drain_eq_decodeFrames, decodeFrames_ok h.defined (by omega) (by omega)]
  simp only [ok_bind, bind_assoc, pure_bind]

theorem feedChunks_ok {rest : List UInt8} (chunks : List (List UInt8)) (hidle : rawParser.next () buffer = .more)
    (hunpacks : Unpacks gunzip decodedLimit (rawParser.trail () (buffer ++ chunks.flatten)).1)
    (hend : (rawParser.trail () (buffer ++ chunks.flatten)).2 = .ok ((), rest)) :
    feedChunks gunzip decodedLimit buffer chunks =
      ((rawParser.trail () (buffer ++ chunks.flatten)).1.map (·.unpacked gunzip), .ok rest) := by
  induction chunks generalizing buffer with
  | nil =>
    rw [flatten_nil, append_nil, trail_more hidle] at hend ⊢
    cases hend
    rfl
  | cons chunk chunks ih =>
    rw [flatten_cons, ← append_assoc] at hunpacks hend ⊢
    rw [feedChunks]
    cases hstop : (rawParser.trail () (buffer ++ chunk)).2 with
    | error e =>
      rw [trail_append_error rawParser_continues hstop, hstop] at hend
      cases hend
    | ok t =>
      obtain ⟨⟨⟩, held⟩ := t
      rw [trail_append_ok rawParser_continues hstop] at hunpacks hend ⊢
      obtain ⟨hfirst, hrest⟩ := hunpacks.append
      rw [feed_of_unpacks hfirst, hstop]
      show (map _ _ ++ (feedChunks gunzip decodedLimit held chunks).1,
        (feedChunks gunzip decodedLimit held chunks).2) = _
      rw [ih (trail_idle hstop) hrest hend, map_append]

/-- An error of the stream comes with the call that completes its bytes, and that call returns nothing. -/
theorem feedChunks_error (chunks : List (List UInt8)) {e : ProtoError} (hidle : rawParser.next () buffer = .more)
    (hunpacks : Unpacks gunzip decodedLimit (rawParser.trail () (buffer ++ chunks.flatten)).1)
    (hend : (rawParser.trail () (buffer ++ chunks.flatten)).2 = .error e) :
    (feedChunks gunzip decodedLimit buffer chunks).2 = .error e ∧
      ∃ before chunk behind, chunks = before ++ chunk :: behind ∧
        (∃ held, (rawParser.trail () (buffer ++ before.flatten)).2 = .ok ((), held)) ∧
        (rawParser.trail () (buffer ++ (before ++ [chunk]).flatten)).2 = .error e ∧
        (feedChunks gunzip decodedLimit buffer chunks).1 =
          (rawParser.trail () (buffer ++ before.flatten)).1.map (·.unpacked gunzip) := by
  induction chunks generalizing buffer with
  | nil =>
    rw [flatten_nil, append_nil, trail_more hidle] at hend
    cases hend
  | cons chunk chunks ih =>
    rw [flatten_cons, ← append_assoc] at hunpacks hend
    rw [feedChunks]
    cases hstop : (rawParser.trail () (buffer ++ chunk)).2 with
    | error e' =>
      rw [trail_append_error rawParser_continues hstop] at hunpacks hend
      rw [feed_of_unpacks hunpacks, hstop]
      rw [hstop] at hend
      cases hend
      refine ⟨rfl, [], chunk, chunks, rfl, ⟨buffer, ?_⟩, ?_, ?_⟩
      · rw [flatten_nil, append_nil, trail_more hidle]
      · rw [nil_append, flatten_singleton, hstop]
      · rw [flatten_nil, append_nil, trail_more hidle]
        rfl
    | ok t =>
      obtain ⟨⟨⟩, held⟩ := t
      rw [trail_append_ok rawParser_continues hstop] at hunpacks hend
      obtain ⟨hfirst, hrest⟩ := hunpacks.append
      obtain ⟨herr, before, next, behind, rfl, ⟨held', hheld⟩, hfail, hframes⟩ := ih (trail_idle hstop) hrest hend
      rw [feed_of_unpacks hfirst, hstop]
      dsimp only [ok_bind]
      refine ⟨herr, chunk :: before, next, behind, rfl, ⟨held', ?_⟩, ?_, ?_⟩
      · rw [flatten_cons, ← append_assoc, trail_append_ok rawParser_continues hstop, hheld]
      · rw [cons_append, flatten_cons, ← append_assoc, trail_append_ok rawParser_continues hstop, hfail]
      · rw [flatten_cons, ← append_assoc, trail_append_ok rawParser_continues hstop, map_append, ← hframes]
        rfl

end

/-! ## Streams of wrapped payloads -/

theorem length_wrapConnectFrame (payload : List UInt8) : (wrapConnectFrame payload).length = 5 + payload.length := by
  unfold wrapConnectFrame
  rw [length_cons, length_append, length_beBytes]
  omega

variable {payload buffer bytes : List UInt8} {payloads : List (List UInt8)}

theorem wrapConnectFrame_header {behind : List UInt8} (hlen : ¬buffer.length < 5)
    (hmax : payload.length ≤ connectMaxFrameBytes) (h : buffer ++ behind = wrapConnectFrame payload) :
    buffer.headD 0 = flagNone ∧ beNat ((buffer.drop 1).take 4) = payload.length := by
  obtain ⟨hhead, hbytes⟩ := header_append hlen behind
  rw [← hhead, ← hbytes, h]
  refine ⟨rfl, ?_⟩
  unfold wrapConnectFrame
  rw [drop_succ_cons, drop_zero, take_append_of_le_length (length_beBytes 4 _).ge,
    take_of_length_le (length_beBytes 4 _).le, beNat_beBytes]
  unfold connectMaxFrameBytes at hmax
  omega

theorem splitFrame_wrap (hmax : payload.length ≤ connectMaxFrameBytes) (behind : List UInt8) :
    splitFrame (wrapConnectFrame payload ++ behind) = .ok (some (⟨flagNone, payload⟩, behind)) := by
  have hlen : ¬(wrapConnectFrame payload).length < 5 := by
    rw [length_wrapConnectFrame]
    omega
  obtain ⟨hhead, hlength⟩ := wrapConnectFrame_header hlen hmax (append_nil _)
  have hdrop : (wrapConnectFrame payload).drop 5 = payload := by
    unfold wrapConnectFrame
    rw [drop_succ_cons, drop_append_of_le_length (length_beBytes 4 _).ge,
      drop_of_length_le (length_beBytes 4 _).le, nil_append]
  have hall : (wrapConnectFrame payload).drop (5 + payload.length) = [] := by
    rw [← length_wrapConnectFrame, drop_length]
  have hone : splitFrame (wrapConnectFrame payload) = .ok (some (⟨flagNone, payload⟩, [])) := by
    unfold splitFrame
    rw [if_neg hlen]
    rw [hhead, hlength, if_neg (by decide), if_neg (by omega),
      if_neg (by rw [length_wrapConnectFrame]; omega), hdrop, hall, take_length]
  have happend := splitFrame_append hone behind
  rwa [nil_append] at happend

theorem splitFrame_partial {behind : List UInt8} (hmax : payload.length ≤ connectMaxFrameBytes)
    (h : buffer ++ behind = wrapConnectFrame payload) (hne : behind ≠ []) : splitFrame buffer = .ok none := by
  have hlength := congrArg length h
  rw [length_append, length_wrapConnectFrame] at hlength
  have hpos := length_pos_iff.mpr hne
  unfold splitFrame
  split
  · rfl
  · rename_i hlen
    obtain ⟨hhead, hbytes⟩ := wrapConnectFrame_header hlen hmax h
    rw [hhead, hbytes, if_neg (by decide), if_neg (by omega), if_pos (by omega)]

section
variable (hmax : ∀ payload ∈ payloads, payload.length ≤ connectMaxFrameBytes)
include hmax

theorem trail_wrapped :
    rawParser.trail () (payloads.map wrapConnectFrame).flatten = (payloads.map (mk flagNone), .ok ((), [])) := by
  induction payloads with
  | nil => exact trail_more (rawParser_more rfl)
  | cons payload payloads ih =>
    have hsplit := splitFrame_wrap (hmax payload mem_cons_self) (payloads.map wrapConnectFrame).flatten
    rw [map_cons, flatten_cons, trail_take (rawParser_take hsplit),
      ih fun payload' hmem => hmax payload' (mem_cons_of_mem _ hmem)]
    rfl

theorem trail_front
    (h : bytes <+: (payloads.map wrapConnectFrame).flatten) :
    ∃ n held, rawParser.trail () bytes = ((payloads.take n).map (mk flagNone), .ok ((), held)) ∧
      bytes = ((payloads.take n).map wrapConnectFrame).flatten ++ held := by
  induction payloads generalizing bytes with
  | nil =>
    have hnil : bytes = [] := prefix_nil.mp h
    subst hnil
    exact ⟨0, [], trail_more (rawParser_more rfl), rfl⟩
  | cons payload payloads ih =>
    have hpayload := hmax payload mem_cons_self
    rw [map_cons, flatten_cons] at h
    obtain ⟨after, hafter⟩ := h
    rcases append_eq_append_iff.mp hafter with ⟨behind, hbehind, -⟩ | ⟨tail, rfl, htail⟩
    · have hbehind := hbehind.symm
      by_cases hne : behind = []
      · subst hne
        rw [append_nil] at hbehind
        subst hbehind
        refine ⟨1, [], ?_, ?_⟩
        · have hone : rawParser.trail () ([payload].map wrapConnectFrame).flatten = _ :=
            trail_wrapped (by simpa using hpayload)
          simpa using hone
        · simp
      · refine ⟨0, bytes, trail_more (rawParser_more ?_), rfl⟩
        exact splitFrame_partial hpayload hbehind hne
    · obtain ⟨n, held, htrail, hbytes⟩ :=
        ih (fun payload' hmem => hmax payload' (mem_cons_of_mem _ hmem)) ⟨after, htail.symm⟩
      refine ⟨n + 1, held, ?_, ?_⟩
      · rw [trail_take (rawParser_take (splitFrame_wrap hpayload tail)), htrail]
        rfl
      · rw [take_succ_cons, map_cons, flatten_cons, append_assoc, ← hbytes]

end

theorem feedChunks_plain (gunzip : List UInt8 → Except String (List UInt8)) (decodedLimit : ℕ)
    {chunks : List (List UInt8)} {held : List UInt8}
    (h : rawParser.trail () chunks.flatten = (payloads.map (mk flagNone), .ok ((), held))) :
    feedChunks gunzip decodedLimit [] chunks = (payloads.map (mk flagNone), .ok held) := by
  have hplain : ∀ raw ∈ payloads.map (mk flagNone), raw.flags &&& flagGzip = 0 := by
    intro raw hmem
    obtain ⟨payload, -, rfl⟩ := mem_map.mp hmem
    show flagNone &&& flagGzip = 0
    decide
  have hunpacks : Unpacks gunzip decodedLimit (rawParser.trail () ([] ++ chunks.flatten)).1 := by
    rw [nil_append, h]
    exact unpacks_of_plain hplain decodedLimit
  have hsame : (payloads.map (mk flagNone)).map (·.unpacked gunzip) = payloads.map (mk flagNone) := by
    conv_rhs => rw [← map_id (payloads.map (mk flagNone))]
    exact map_congr_left fun raw hmem => unpacked_of_plain (hplain raw hmem)
  rw [feedChunks_ok chunks (rawParser_more rfl) hunpacks (by rw [nil_append, h]), nil_append, h, hsame]

/-! ## Any two cuts -/

/-- The frames that stand on the wire do not depend on the cuts. -/
def framesOn (bytes : List UInt8) : List ConnectFrame := (rawParser.trail () bytes).1

def WithoutGzip (bytes : List UInt8) : Prop := ∀ raw ∈ framesOn bytes, raw.flags ≠ flagGzip

theorem splitFrame_flags {rest : List UInt8} {raw : ConnectFrame} (h : splitFrame buffer = .ok (some (raw, rest))) :
    raw.flags = flagNone ∨ raw.flags = flagGzip ∨ raw.flags = flagEndStream := by
  unfold splitFrame at h
  split at h
  · cases h
  · dsimp only at h
    split at h
    · cases h
    · rename_i hflags
      split at h
      · cases h
      · split at h
        · cases h
        · cases h
          tauto

theorem framesOn_flags {raw : ConnectFrame} (h : raw ∈ framesOn bytes) :
    raw.flags = flagNone ∨ raw.flags = flagGzip ∨ raw.flags = flagEndStream := by
  unfold framesOn at h
  induction hn : bytes.length using Nat.strongRecOn generalizing bytes with
  | ind n ih =>
    cases hsplit : splitFrame bytes with
    | error e =>
      rw [trail_fail (rawParser_fail hsplit)] at h
      cases h
    | ok r =>
      cases r with
      | none =>
        rw [trail_more (rawParser_more hsplit)] at h
        cases h
      | some r =>
        rw [trail_take (rawParser_take hsplit)] at h
        rcases mem_append.mp h with h | h
        · rw [mem_singleton.mp h]
          exact splitFrame_flags hsplit
        · exact ih _ (hn ▸ splitFrame_eq_some hsplit) h rfl

theorem unpacks_of_withoutGzip (h : WithoutGzip bytes) (gunzip : List UInt8 → Except String (List UInt8))
    (decodedLimit : ℕ) : Unpacks gunzip decodedLimit (framesOn bytes) := by
  refine unpacks_of_plain (fun raw hmem => ?_) decodedLimit
  rcases framesOn_flags hmem with hflags | hflags | hflags
  · rw [hflags]
    decide
  · exact absurd hflags (h raw hmem)
  · rw [hflags]
    decide

/-- The two readings stop alike, with the same bytes held or the same error. They return the same frames
unless there is an error; then each returns the frames that its calls before the failing one complete. -/
structure Agree (gunzip : List UInt8 → Except String (List UInt8)) (decodedLimit : ℕ)
    (chunks chunks' : List (List UInt8)) : Prop where
  stop : (feedChunks gunzip decodedLimit [] chunks).2 = (feedChunks gunzip decodedLimit [] chunks').2
  frames : ∀ held, (feedChunks gunzip decodedLimit [] chunks).2 = .ok held →
    (feedChunks gunzip decodedLimit [] chunks).1 = (feedChunks gunzip decodedLimit [] chunks').1
  before : ∀ e, (feedChunks gunzip decodedLimit [] chunks).2 = .error e →
    ∃ front chunk behind, chunks = front ++ chunk :: behind ∧
      (∃ held, (feedChunks gunzip decodedLimit [] front).2 = .ok held) ∧
      (feedChunks gunzip decodedLimit [] (front ++ [chunk])).2 = .error e ∧
      (feedChunks gunzip decodedLimit [] chunks).1 = (framesOn front.flatten).map (·.unpacked gunzip)

/-- While all payloads together stay within the limit no cut makes a difference. -/
theorem agree_of_unpacks {gunzip : List UInt8 → Except String (List UInt8)} {decodedLimit : ℕ}
    {chunks chunks' : List (List UInt8)} (hbytes : chunks.flatten = chunks'.flatten)
    (hunpacks : Unpacks gunzip decodedLimit (framesOn chunks.flatten)) :
    Agree gunzip decodedLimit chunks chunks' := by
  have hidle : rawParser.next () [] = .more := rawParser_more rfl
  cases hend : (rawParser.trail () chunks.flatten).2 with
  | ok t =>
    obtain ⟨⟨⟩, held⟩ := t
    have hleft := feedChunks_ok chunks hidle hunpacks hend
    have hright := feedChunks_ok chunks' hidle (hbytes ▸ hunpacks) (hbytes ▸ hend)
    rw [← hbytes] at hright
    refine ⟨?_, fun held' _ => ?_, fun e he => ?_⟩
    · rw [hleft, hright]
    · rw [hleft, hright]
    · rw [hleft] at he
      cases he
  | error e =>
    obtain ⟨hleft, front, chunk, behind, hchunks, ⟨held, hheld⟩, hfail, hframes⟩ :=
      feedChunks_error chunks hidle hunpacks hend
    obtain ⟨hright, -⟩ := feedChunks_error chunks' hidle (hbytes ▸ hunpacks) (hbytes ▸ hend)
    refine ⟨hleft.trans hright.symm, fun held' hheld' => ?_, fun e' he' => ?_⟩
    · rw [hleft] at hheld'
      cases hheld'
    · have heq : e = e' := by
        rw [hleft] at he'
        exact Except.error.inj he'
      subst heq
      have hall : Unpacks gunzip decodedLimit (rawParser.trail () (front ++ [chunk]).flatten).1 := by
        have hsame := trail_append_error rawParser_continues hfail behind.flatten
        rw [nil_append] at hsame
        rw [← hsame, ← flatten_append, append_assoc, singleton_append, ← hchunks]
        exact hunpacks
      have hfront : Unpacks gunzip decodedLimit (rawParser.trail () front.flatten).1 := by
        have hsplit := trail_append_ok rawParser_continues hheld chunk
        rw [nil_append] at hsplit
        rw [flatten_append, flatten_singleton, hsplit] at hall
        exact hall.append.1
      refine ⟨front, chunk, behind, hchunks, ⟨held, ?_⟩, ?_, hframes⟩
      · rw [feedChunks_ok front hidle hfront hheld]
      · exact (feedChunks_error (front ++ [chunk]) hidle hall hfail).1

/-- Wrapped payloads come back in order from every cut of their stream, and only a stream that ends inside
a frame cannot be finished. Any two cuts of a stream agree if it has no gzip frame, or if what its gzip
frames unpack to stays within the limit altogether. -/
theorem connect_frames_independent_of_cuts (gunzip : List UInt8 → Except String (List UInt8)) (decodedLimit : ℕ) :
    (∀ payloads chunks : List (List UInt8), (∀ payload ∈ payloads, payload.length ≤ connectMaxFrameBytes) →
        chunks.flatten = (payloads.map wrapConnectFrame).flatten → feedChunks gunzip decodedLimit [] chunks =
              (payloads.map (mk flagNone), .ok []) ∧ finish [] = .ok ()) ∧
      (∀ payloads chunks : List (List UInt8), (∀ payload ∈ payloads, payload.length ≤ connectMaxFrameBytes) →
          chunks.flatten <+: (payloads.map wrapConnectFrame).flatten →
            ∃ held, (feedChunks gunzip decodedLimit [] chunks).2 = .ok held ∧ ((∃ e, finish held = .error e) ↔
                ¬∃ n, chunks.flatten = ((payloads.take n).map wrapConnectFrame).flatten)) ∧
      (∀ chunks chunks' : List (List UInt8), chunks.flatten = chunks'.flatten →
        WithoutGzip chunks.flatten → Agree gunzip decodedLimit chunks chunks') ∧
      ∀ chunks chunks' : List (List UInt8), chunks.flatten = chunks'.flatten →
        Unpacks gunzip decodedLimit (framesOn chunks.flatten) → Agree gunzip decodedLimit chunks chunks' := by
  refine ⟨fun payloads chunks hmax hbytes => ?_, fun payloads chunks hmax hfront => ?_,
    fun chunks chunks' hbytes hgzip => ?_, fun chunks chunks' hbytes hunpacks => ?_⟩
  · exact ⟨feedChunks_plain gunzip decodedLimit (hbytes ▸ trail_wrapped hmax), rfl⟩
  · obtain ⟨n, held, htrail, hbytes⟩ := trail_front hmax hfront
    refine ⟨held, ?_, ?_⟩
    · rw [feedChunks_plain gunzip decodedLimit htrail]
    · constructor
      · rintro ⟨e, he⟩ ⟨k, hk⟩
        rw [hk, trail_wrapped fun payload hmem => hmax payload (mem_of_mem_take hmem)] at htrail
        have hheld : [] = held := congrArg Prod.snd (Except.ok.inj (congrArg Prod.snd htrail))
        rw [← hheld] at he
        cases he
      · intro hinside
        have hne : held ≠ [] := by
          rintro rfl
          exact hinside ⟨n, by rw [hbytes, append_nil]⟩
        exact ⟨.incompleteFrame held.length, if_neg hne⟩
  · exact agree_of_unpacks hbytes (unpacks_of_withoutGzip hgzip gunzip decodedLimit)
  · exact agree_of_unpacks hbytes hunpacks

/-- An empty frame and a header with unknown flags: in one chunk the frame is lost with the call that
fails, in two chunks it is returned before. -/
theorem failing_call_loses_frames :
    let gunzip : List UInt8 → Except String (List UInt8) := fun _ => .error "not gzip"
    let whole : List (List UInt8) := [[0, 0, 0, 0, 0, 3, 0, 0, 0, 0]]
    let cut : List (List UInt8) := [[0, 0, 0, 0, 0], [3, 0, 0, 0, 0]]
    whole.flatten = cut.flatten ∧ WithoutGzip whole.flatten ∧
      feedChunks gunzip connectMaxFrameBytes [] whole = ([], .error (.invalidFrameFlags 3)) ∧
      feedChunks gunzip connectMaxFrameBytes [] cut = ([⟨flagNone, []⟩], .error (.invalidFrameFlags 3)) := by
  refine ⟨rfl, ?_, by decide +kernel, by decide +kernel⟩
  have hframes : framesOn [[0, 0, 0, 0, 0, 3, 0, 0, 0, 0]].flatten = [⟨flagNone, []⟩] := by
    decide +kernel
  intro raw hmem
  rw [hframes, mem_singleton] at hmem
  rw [hmem]
  decide

end CcSwitchServer.AgentProto
