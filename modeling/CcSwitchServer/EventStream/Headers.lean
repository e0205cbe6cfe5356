import CcSwitchServer.Foundations.BigEndian
import CcSwitchServer.Foundations.Incremental
import CcSwitchServer.Foundations.OrderedMap
import CcSwitchServer.Foundations.Text

/-! # The decoder of AWS event streams (`src/proxy/kiro/wire/`)

The cursor into a block of headers is the part that is left. The errors of `parse_event` are left out.
-/

namespace CcSwitchServer.EventStream
open Foundations Text List

inductive WireError
  | bufferOverflow (size max : ℕ)
  | frameTooSmall (size : ℕ)
  | frameTooLarge (size max : ℕ)
  | invalidFrameLayout (totalLength headersLength : ℕ)
  | preludeCrcMismatch (expected actual : UInt32)
  | messageCrcMismatch (expected actual : UInt32)
  | invalidHeaderName
  | invalidHeaderType (valueType : UInt8)
  | invalidHeaderValue (kind : String)
  | duplicateHeader (name : String)
  | unexpectedEof (buffered : ℕ)
  | recoveryLimitExceeded (errors skipped : ℕ)
deriving DecidableEq, Repr

/-- A slice or an index out of range is a panic, so that its absence can be stated. -/
inductive Fault
  | wire (e : WireError)
  | panic
deriving DecidableEq, Repr

/-- `bytes[start..stop]`. -/
def slice (bytes : List UInt8) (start stop : ℕ) : Except Fault (List UInt8) :=
  if start ≤ stop ∧ stop ≤ bytes.length then .ok ((bytes.take stop).drop start) else .error .panic

/-- The conversion of a slice to an array of `width` bytes. -/
def array (width : ℕ) (bytes : List UInt8) : Except Fault (List UInt8) :=
  if bytes.length = width then .ok bytes else .error .panic

/-! ## Headers -/

abbrev Uuid := { bytes : List UInt8 // bytes.length = 16 }

inductive HeaderValue
  | bool (value : Bool)
  | byte (value : Int8)
  | short (value : Int16)
  | integer (value : Int32)
  | long (value : Int64)
  | byteArray (value : List UInt8)
  | string (value : String)
  | timestamp (value : Int64)
  | uuid (value : Uuid)
deriving DecidableEq

abbrev Headers := OrderedMap String HeaderValue

def take (rest : List UInt8) (length : ℕ) (kind : String) : Except Fault (List UInt8 × List UInt8) :=
  if length ≤ rest.length then .ok (rest.take length, rest.drop length)
  else .error (.wire (.invalidHeaderValue kind))

variable (rest : List UInt8)

def takeU8 : Except Fault (UInt8 × List UInt8) := do
  let (bytes, rest) ← take rest 1 "byte"
  let byte ← context bytes[0]? .panic
  pure (byte, rest)

/-- A big-endian number of `width` bytes. -/
def takeNat (width : ℕ) (kind : String) : Except Fault (ℕ × List UInt8) := do
  let (bytes, rest) ← take rest width kind
  let bytes ← array width bytes
  pure (beNat bytes, rest)

def takeUuid : Except Fault (Uuid × List UInt8) := do
  let (bytes, rest) ← take rest 16 "UUID"
  if h : bytes.length = 16 then pure (⟨bytes, h⟩, rest) else .error .panic

def takeValue (valueType : UInt8) (rest : List UInt8) : Except Fault (HeaderValue × List UInt8) :=
  match valueType.toNat with
  | 0 => pure (.bool true, rest)
  | 1 => pure (.bool false, rest)
  | 2 => do
    let (byte, rest) ← takeU8 rest
    pure (.byte (Int8.ofBitVec byte.toBitVec), rest)
  | 3 => do
    let (n, rest) ← takeNat rest 2 "short"
    pure (.short (Int16.ofBitVec (BitVec.ofNat 16 n)), rest)
  | 4 => do
    let (n, rest) ← takeNat rest 4 "integer"
    pure (.integer (Int32.ofBitVec (BitVec.ofNat 32 n)), rest)
  | 5 => do
    let (n, rest) ← takeNat rest 8 "long"
    pure (.long (Int64.ofBitVec (BitVec.ofNat 64 n)), rest)
  | 6 => do
    let (length, rest) ← takeNat rest 2 "byte array length"
    let (bytes, rest) ← take rest length "byte array"
    pure (.byteArray bytes, rest)
  | 7 => do
    let (length, rest) ← takeNat rest 2 "string length"
    let (bytes, rest) ← take rest length "string"
    let value ← context (fromUtf8 bytes) (.wire (.invalidHeaderValue "UTF-8 string"))
    pure (.string value, rest)
  | 8 => do
    let (n, rest) ← takeNat rest 8 "timestamp"
    pure (.timestamp (Int64.ofBitVec (BitVec.ofNat 64 n)), rest)
  | 9 => do
    let (value, rest) ← takeUuid rest
    pure (.uuid value, rest)
  | _ => .error (.wire (.invalidHeaderType valueType))

/-- A name with its length, a type and a value. -/
def takeHeader : Except Fault ((String × HeaderValue) × List UInt8) := do
  let (nameLength, rest) ← takeU8 rest
  ensure (nameLength ≠ 0) (.wire .invalidHeaderName)
  let (nameBytes, rest) ← take rest nameLength.toNat "header name"
  let name ← context (fromUtf8 nameBytes) (.wire .invalidHeaderName)
  let (valueType, rest) ← takeU8 rest
  let (value, rest) ← takeValue valueType rest
  pure ((name, value), rest)

/-! ## The layout of a header -/

def HeaderValue.typeByte : HeaderValue → UInt8
  | .bool true => 0
  | .bool false => 1
  | .byte _ => 2
  | .short _ => 3
  | .integer _ => 4
  | .long _ => 5
  | .byteArray _ => 6
  | .string _ => 7
  | .timestamp _ => 8
  | .uuid _ => 9

def HeaderValue.bytes : HeaderValue → List UInt8
  | .bool _ => []
  | .byte value => [UInt8.ofBitVec value.toBitVec]
  | .short value => beBytes 2 value.toBitVec.toNat
  | .integer value => beBytes 4 value.toBitVec.toNat
  | .long value => beBytes 8 value.toBitVec.toNat
  | .byteArray value => beBytes 2 value.length ++ value
  | .string value => beBytes 2 (utf8 value).length ++ utf8 value
  | .timestamp value => beBytes 8 value.toBitVec.toNat
  | .uuid value => value.1

/-- The length of a byte array or a string takes two bytes. -/
def HeaderValue.Fits : HeaderValue → Prop
  | .byteArray value => value.length < 256 ^ 2
  | .string value => (utf8 value).length < 256 ^ 2
  | _ => True

def encodeHeader (header : String × HeaderValue) : List UInt8 :=
  UInt8.ofNat (utf8 header.1).length :: utf8 header.1 ++ header.2.typeByte :: header.2.bytes

/-- The name and the value have lengths that can be written. -/
def HeaderFits (header : String × HeaderValue) : Prop :=
  0 < (utf8 header.1).length ∧ (utf8 header.1).length < 256 ∧ header.2.Fits

/-! ## The readers follow the layout -/

variable {rest rest' : List UInt8}

theorem take_iff {bytes : List UInt8} {length : ℕ} {kind : String} :
    take rest length kind = .ok (bytes, rest') ↔ bytes.length = length ∧ rest = bytes ++ rest' := by
  unfold take
  constructor
  · intro h
    split at h
    · rename_i hle
      cases h
      exact ⟨length_take_of_le hle, (take_append_drop length rest).symm⟩
    · cases h
  · rintro ⟨rfl, rfl⟩
    rw [if_pos (by simp), take_left, drop_left]

theorem takeU8_iff {byte : UInt8} : takeU8 rest = .ok (byte, rest') ↔ rest = byte :: rest' := by
  constructor
  · intro h
    obtain ⟨⟨bytes, rest₁⟩, htake, h⟩ := bind_eq_ok.mp h
    obtain ⟨byte₁, hbyte, h⟩ := bind_eq_ok.mp h
    cases h
    obtain ⟨hlength, rfl⟩ := take_iff.mp htake
    obtain ⟨first, rfl⟩ := length_eq_one_iff.mp hlength
    cases context_eq_ok.mp hbyte
    rfl
  · rintro rfl
    have htake : take (byte :: rest') 1 "byte" = .ok ([byte], rest') := take_iff.mpr ⟨rfl, rfl⟩
    unfold takeU8
    rw [htake]
    rfl

theorem takeNat_iff {width n : ℕ} {kind : String} :
    takeNat rest width kind = .ok (n, rest') ↔ n < 256 ^ width ∧ rest = beBytes width n ++ rest' := by
  constructor
  · intro h
    obtain ⟨⟨bytes, rest₁⟩, htake, h⟩ := bind_eq_ok.mp h
    obtain ⟨bytes₁, harray, h⟩ := bind_eq_ok.mp h
    cases h
    obtain ⟨hlength, rfl⟩ := take_iff.mp htake
    unfold array at harray
    rw [if_pos hlength] at harray
    cases harray
    rw [← hlength]
    exact ⟨beNat_lt bytes, by rw [beBytes_beNat]⟩
  · rintro ⟨hlt, rfl⟩
    have htake : take (beBytes width n ++ rest') width kind = .ok (beBytes width n, rest') :=
      take_iff.mpr ⟨length_beBytes width n, rfl⟩
    unfold takeNat array
    rw [htake, ok_bind]
    dsimp only
    rw [if_pos (length_beBytes width n), ok_bind, beNat_beBytes hlt]
    rfl

theorem takeUuid_iff {value : Uuid} : takeUuid rest = .ok (value, rest') ↔ rest = value.1 ++ rest' := by
  constructor
  · intro h
    obtain ⟨⟨bytes, rest₁⟩, htake, h⟩ := bind_eq_ok.mp h
    obtain ⟨hlength, hrest⟩ := take_iff.mp htake
    dsimp only at h
    rw [dif_pos hlength] at h
    cases h
    exact hrest
  · rintro rfl
    have htake : take (value.1 ++ rest') 16 "UUID" = .ok (value.1, rest') := take_iff.mpr ⟨value.2, rfl⟩
    unfold takeUuid
    rw [htake, ok_bind]
    dsimp only
    rw [dif_pos value.2]
    rfl

/-- A value that is read is written so. -/
theorem takeValue_sound {valueType : UInt8} {value : HeaderValue} (h : takeValue valueType rest = .ok (value, rest')) :
    valueType = value.typeByte ∧ value.Fits ∧ rest = value.bytes ++ rest' := by
  have htype : ∀ {t : UInt8} {n : ℕ}, t.toNat = n → n < 256 → t = UInt8.ofNat n := by
    intro t n ht hn
    apply UInt8.toNat.inj
    rw [UInt8.toNat_ofNat', ht]
    omega
  have hnumber : ∀ {width bits n : ℕ} {kind : String} {rest₁ : List UInt8}, 256 ^ width = 2 ^ bits →
      takeNat rest width kind = .ok (n, rest₁) →
      rest = beBytes width (BitVec.ofNat bits n).toNat ++ rest₁ := by
    intro width bits n kind rest₁ hpow hread
    obtain ⟨hlt, hrest⟩ := takeNat_iff.mp hread
    rw [BitVec.toNat_ofNat, Nat.mod_eq_of_lt (hpow ▸ hlt)]
    exact hrest
  unfold takeValue at h
  split at h
  · rename_i ht
    cases h
    exact ⟨htype ht (by decide), trivial, rfl⟩
  · rename_i ht
    cases h
    exact ⟨htype ht (by decide), trivial, rfl⟩
  · rename_i ht
    obtain ⟨⟨byte, rest₁⟩, hread, h⟩ := bind_eq_ok.mp h
    cases h
    exact ⟨htype ht (by decide), trivial, takeU8_iff.mp hread⟩
  · rename_i ht
    obtain ⟨⟨n, rest₁⟩, hread, h⟩ := bind_eq_ok.mp h
    cases h
    exact ⟨htype ht (by decide), trivial, hnumber (by decide) hread⟩
  · rename_i ht
    obtain ⟨⟨n, rest₁⟩, hread, h⟩ := bind_eq_ok.mp h
    cases h
    exact ⟨htype ht (by decide), trivial, hnumber (by decide) hread⟩
  · rename_i ht
    obtain ⟨⟨n, rest₁⟩, hread, h⟩ := bind_eq_ok.mp h
    cases h
    exact ⟨htype ht (by decide), trivial, hnumber (by decide) hread⟩
  · rename_i ht
    obtain ⟨⟨n, rest₁⟩, hread, h⟩ := bind_eq_ok.mp h
    obtain ⟨⟨bytes, rest₂⟩, hread', h⟩ := bind_eq_ok.mp h
    cases h
    obtain ⟨hlt, hrest⟩ := takeNat_iff.mp hread
    obtain ⟨hlength, hrest'⟩ := take_iff.mp hread'
    refine ⟨htype ht (by decide), ?_, ?_⟩
    · show bytes.length < 256 ^ 2
      rwa [hlength]
    · show rest = beBytes 2 bytes.length ++ bytes ++ rest'
      rw [hlength, hrest, append_assoc, ← hrest']
  · rename_i ht
    obtain ⟨⟨n, rest₁⟩, hread, h⟩ := bind_eq_ok.mp h
    obtain ⟨⟨bytes, rest₂⟩, hread', h⟩ := bind_eq_ok.mp h
    obtain ⟨text, htext, h⟩ := bind_eq_ok.mp h
    cases h
    obtain ⟨hlt, hrest⟩ := takeNat_iff.mp hread
    obtain ⟨hlength, hrest'⟩ := take_iff.mp hread'
    have hbytes := utf8_of_fromUtf8 (context_eq_ok.mp htext)
    refine ⟨htype ht (by decide), ?_, ?_⟩
    · show (utf8 text).length < 256 ^ 2
      rwa [hbytes, hlength]
    · show rest = beBytes 2 (utf8 text).length ++ utf8 text ++ rest'
      rw [hbytes, hlength, hrest, append_assoc, ← hrest']
  · rename_i ht
    obtain ⟨⟨n, rest₁⟩, hread, h⟩ := bind_eq_ok.mp h
    cases h
    exact ⟨htype ht (by decide), trivial, hnumber (by decide) hread⟩
  · rename_i ht
    obtain ⟨⟨value, rest₁⟩, hread, h⟩ := bind_eq_ok.mp h
    cases h
    exact ⟨htype ht (by decide), trivial, takeUuid_iff.mp hread⟩
  · cases h

/-- A value that is written is read so. -/
theorem takeValue_complete (value : HeaderValue) (hfits : value.Fits) (rest : List UInt8) :
    takeValue value.typeByte (value.bytes ++ rest) = .ok (value, rest) := by
  have hnumber : ∀ {width bits : ℕ} (v : BitVec bits) (kind : String), 2 ^ bits = 256 ^ width →
      takeNat (beBytes width v.toNat ++ rest) width kind = .ok (v.toNat, rest) :=
    fun v kind hpow => takeNat_iff.mpr ⟨hpow ▸ v.isLt, rfl⟩
  have hbits : ∀ {bits : ℕ} (v : BitVec bits), BitVec.ofNat bits v.toNat = v := fun v => by
    rw [BitVec.ofNat_toNat, BitVec.setWidth_eq]
  cases value with
  | bool value =>
    cases value with
    | true => rfl
    | false => rfl
  | byte value =>
    have hread : takeU8 ((HeaderValue.byte value).bytes ++ rest) =
        .ok (UInt8.ofBitVec value.toBitVec, rest) := takeU8_iff.mpr rfl
    show (takeU8 _ >>= fun _ => _) = _
    rw [hread]
    rfl
  | short value =>
    show (takeNat (beBytes 2 value.toBitVec.toNat ++ rest) 2 "short" >>= fun _ => _) = _
    rw [hnumber _ _ (by decide), ok_bind]
    dsimp only
    rw [hbits]
    rfl
  | integer value =>
    show (takeNat (beBytes 4 value.toBitVec.toNat ++ rest) 4 "integer" >>= fun _ => _) = _
    rw [hnumber _ _ (by decide), ok_bind]
    dsimp only
    rw [hbits]
    rfl
  | long value =>
    show (takeNat (beBytes 8 value.toBitVec.toNat ++ rest) 8 "long" >>= fun _ => _) = _
    rw [hnumber _ _ (by decide), ok_bind]
    dsimp only
    rw [hbits]
    rfl
  | byteArray value =>
    have hlength : takeNat (beBytes 2 value.length ++ (value ++ rest)) 2 "byte array length" =
        .ok (value.length, value ++ rest) := takeNat_iff.mpr ⟨hfits, rfl⟩
    have hvalue : take (value ++ rest) value.length "byte array" = .ok (value, rest) := take_iff.mpr ⟨rfl, rfl⟩
    show (takeNat (beBytes 2 value.length ++ value ++ rest) 2 _ >>= fun _ => _) = _
    rw [append_assoc, hlength, ok_bind]
    dsimp only
    rw [hvalue]
    rfl
  | string value =>
    have hlength : takeNat (beBytes 2 (utf8 value).length ++ (utf8 value ++ rest)) 2
        "string length" = .ok ((utf8 value).length, utf8 value ++ rest) :=
      takeNat_iff.mpr ⟨hfits, rfl⟩
    have hvalue : take (utf8 value ++ rest) (utf8 value).length "string" =
        .ok (utf8 value, rest) := take_iff.mpr ⟨rfl, rfl⟩
    show (takeNat (beBytes 2 (utf8 value).length ++ utf8 value ++ rest) 2 _ >>= fun _ => _) = _
    rw [append_assoc, hlength, ok_bind]
    dsimp only
    rw [hvalue, ok_bind]
    rw [fromUtf8_utf8]
    rfl
  | timestamp value =>
    show (takeNat (beBytes 8 value.toBitVec.toNat ++ rest) 8 "timestamp" >>= fun _ => _) = _
    rw [hnumber _ _ (by decide), ok_bind]
    dsimp only
    rw [hbits]
    rfl
  | uuid value =>
    have hread : takeUuid (value.1 ++ rest) = .ok (value, rest) := takeUuid_iff.mpr rfl
    show (takeUuid (value.1 ++ rest) >>= fun _ => _) = _
    rw [hread]
    rfl

theorem takeHeader_sound {header : String × HeaderValue} (h : takeHeader rest = .ok (header, rest')) :
    HeaderFits header ∧ rest = encodeHeader header ++ rest' := by
  obtain ⟨⟨nameLength, rest₁⟩, hread, h⟩ := bind_eq_ok.mp h
  obtain ⟨u, hzero, h⟩ := bind_eq_ok.mp h
  obtain ⟨⟨nameBytes, rest₂⟩, hname, h⟩ := bind_eq_ok.mp h
  obtain ⟨name, htext, h⟩ := bind_eq_ok.mp h
  obtain ⟨⟨valueType, rest₃⟩, htype, h⟩ := bind_eq_ok.mp h
  obtain ⟨⟨value, rest₄⟩, hvalue, h⟩ := bind_eq_ok.mp h
  cases h
  have hrest := takeU8_iff.mp hread
  obtain ⟨hlength, hrest₁⟩ := take_iff.mp hname
  have hrest₂ := takeU8_iff.mp htype
  obtain ⟨hbyte, hfits, hrest₃⟩ := takeValue_sound hvalue
  have hbytes := utf8_of_fromUtf8 (context_eq_ok.mp htext)
  have hlt := nameLength.toNat_lt
  have hpos : nameLength.toNat ≠ 0 := fun hzero' =>
    ensure_eq_ok.mp hzero (UInt8.toNat.inj hzero')
  refine ⟨⟨?_, ?_, hfits⟩, ?_⟩
  · show 0 < (utf8 name).length
    rw [hbytes, hlength]
    omega
  · show (utf8 name).length < 256
    rw [hbytes, hlength]
    exact hlt
  · show rest = UInt8.ofNat (utf8 name).length :: utf8 name ++ value.typeByte :: value.bytes ++ rest'
    rw [hbytes, hlength, UInt8.ofNat_toNat, hrest, hrest₁, hrest₂, hbyte, hrest₃]
    simp

theorem takeHeader_complete {header : String × HeaderValue} (hfits : HeaderFits header)
    (rest : List UInt8) : takeHeader (encodeHeader header ++ rest) = .ok (header, rest) := by
  obtain ⟨name, value⟩ := header
  obtain ⟨hpos, hlt, hvalue⟩ := hfits
  have hlength : (UInt8.ofNat (utf8 name).length).toNat = (utf8 name).length := by
    rw [UInt8.toNat_ofNat']
    exact Nat.mod_eq_of_lt hlt
  have hne : UInt8.ofNat (utf8 name).length ≠ 0 := by
    intro hzero
    rw [hzero] at hlength
    exact absurd hlength.symm (by simpa using Nat.pos_iff_ne_zero.mp hpos)
  have hbytes : encodeHeader (name, value) ++ rest = UInt8.ofNat (utf8 name).length ::
      (utf8 name ++ (value.typeByte :: (value.bytes ++ rest))) := by
    unfold encodeHeader
    simp
  unfold takeHeader
  rw [hbytes, takeU8_iff.mpr rfl, ok_bind]
  dsimp only
  rw [ensure_of hne, ok_bind, take_iff.mpr ⟨hlength.symm, rfl⟩, ok_bind]
  rw [fromUtf8_utf8]
  show (takeU8 (value.typeByte :: (value.bytes ++ rest)) >>= fun _ => _) = _
  rw [takeU8_iff.mpr rfl]
  show (takeValue value.typeByte (value.bytes ++ rest) >>= fun _ => _) = _
  rw [takeValue_complete value hvalue]
  rfl

/-! ## No reader panics -/

/-- A fault that a reader may return: no panic, and no overflow of the buffer. -/
def Fault.Regular : Fault → Prop
  | .panic => False
  | .wire (.bufferOverflow _ _) => False
  | .wire _ => True

def Regular {α : Type} (x : Except Fault α) : Prop := ∀ fault, x = .error fault → fault.Regular

section
variable {α β : Type} {rest : List UInt8}

theorem regular_ok (a : α) : Regular (.ok a) := fun _ h => nomatch h

variable {e : WireError}

theorem regular_error (h : (Fault.wire e).Regular) : Regular (.error (.wire e) : Except Fault α) := by
  intro fault hfault
  cases hfault
  exact h

theorem Regular.bind {x : Except Fault α} {f : α → Except Fault β} (hx : Regular x)
    (hf : ∀ a, x = .ok a → Regular (f a)) : Regular (x >>= f) := by
  intro fault h
  rcases bind_eq_error.mp h with h | ⟨a, ha, h⟩
  · exact hx fault h
  · exact hf a ha fault h

theorem regular_ensure {p : Prop} [Decidable p] (h : (Fault.wire e).Regular) : Regular (ensure p (Fault.wire e)) := by
  intro fault hfault
  rw [← (ensure_eq_error.mp hfault).2]
  exact h

theorem regular_context {x : Option α} (h : (Fault.wire e).Regular) : Regular (context x (Fault.wire e)) := by
  intro fault hfault
  rw [← (context_eq_error.mp hfault).2]
  exact h

theorem take_regular (length : ℕ) (kind : String) : Regular (take rest length kind) := by
  unfold take
  split
  · exact regular_ok _
  · exact regular_error trivial

theorem takeU8_regular : Regular (takeU8 rest) := by
  refine (take_regular 1 "byte").bind fun r hr => ?_
  obtain ⟨bytes, rest'⟩ := r
  obtain ⟨first, rfl⟩ := length_eq_one_iff.mp (take_iff.mp hr).1
  exact regular_ok _

theorem takeNat_regular (width : ℕ) (kind : String) : Regular (takeNat rest width kind) := by
  refine (take_regular width kind).bind fun r hr => ?_
  obtain ⟨bytes, rest'⟩ := r
  unfold array
  dsimp only
  rw [if_pos (take_iff.mp hr).1]
  exact regular_ok _

theorem takeUuid_regular : Regular (takeUuid rest) := by
  refine (take_regular 16 "UUID").bind fun r hr => ?_
  obtain ⟨bytes, rest'⟩ := r
  dsimp only
  rw [dif_pos (take_iff.mp hr).1]
  exact regular_ok _

theorem takeValue_regular (valueType : UInt8) : Regular (takeValue valueType rest) := by
  unfold takeValue
  split
  · exact regular_ok _
  · exact regular_ok _
  · exact takeU8_regular.bind fun _ _ => regular_ok _
  · exact (takeNat_regular _ _).bind fun _ _ => regular_ok _
  · exact (takeNat_regular _ _).bind fun _ _ => regular_ok _
  · exact (takeNat_regular _ _).bind fun _ _ => regular_ok _
  · exact (takeNat_regular _ _).bind fun _ _ => (take_regular _ _).bind fun _ _ => regular_ok _
  · exact (takeNat_regular _ _).bind fun _ _ => (take_regular _ _).bind fun _ _ =>
      (regular_context (by trivial)).bind fun _ _ => regular_ok _
  · exact (takeNat_regular _ _).bind fun _ _ => regular_ok _
  · exact takeUuid_regular.bind fun _ _ => regular_ok _
  · exact regular_error trivial

theorem takeHeader_regular : Regular (takeHeader rest) := by
  refine takeU8_regular.bind fun _ _ => ?_
  refine (regular_ensure (by trivial)).bind fun _ _ => ?_
  refine (take_regular _ _).bind fun _ _ => ?_
  refine (regular_context (by trivial)).bind fun _ _ => ?_
  refine takeU8_regular.bind fun _ _ => ?_
  exact (takeValue_regular _).bind fun _ _ => regular_ok _

end

end CcSwitchServer.EventStream
