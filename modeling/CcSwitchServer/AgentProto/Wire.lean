import CcSwitchServer.Foundations.BigEndian
import CcSwitchServer.Foundations.Checked
import CcSwitchServer.Foundations.Text

/-! # The protobuf wire format

Varints, tags and the fields of a message. A position in a slice is the list of the bytes from there on.
-/

namespace CcSwitchServer.AgentProto
open Foundations List

/-- The text of a UTF-8 error is left out. -/
inductive ProtoError
  | varintTruncated
  | varintOverflow
  | invalidFieldNumber (field : ℕ)
  | lengthOverrun (len remaining : ℕ)
  | unsupportedWireType (wire : ℕ)
  | gzip (message : String)
  | frameTooLarge (size max : ℕ)
  | decodedLimit (size max : ℕ)
  | invalidFrameFlags (flags : UInt8)
  | incompleteFrame (buffered : ℕ)
  | invalidUtf8
  deriving DecidableEq, Repr

def wtVarint : ℕ := 0
def wtFixed64 : ℕ := 1
def wtLen : ℕ := 2
def wtFixed32 : ℕ := 5

def maxProtoFieldNumber : ℕ := 2 ^ 29 - 1

/-! ## Varints -/

/-- Seven bits a byte, the lowest first. -/
def putVarint (value : ℕ) : List UInt8 :=
  if value > 0x7F then UInt8.ofNat (value % 128 + 128) :: putVarint (value / 128)
  else [UInt8.ofNat value]
termination_by value
decreasing_by omega

/-- The turns of the loop from byte `byteIndex` on; the tenth byte has one bit of the value left. -/
def readVarintFrom (byteIndex result : ℕ) : List UInt8 → Except ProtoError (ℕ × List UInt8)
  | [] => .error .varintTruncated
  | byte :: rest =>
    if byteIndex = 9 then
      if byte > 1 then .error .varintOverflow else .ok (result ||| byte.toNat <<< 63, rest)
    else
      let result := result ||| (byte &&& 0x7F).toNat <<< (byteIndex * 7)
      if byte &&& 0x80 = 0 then .ok (result, rest) else readVarintFrom (byteIndex + 1) result rest

def readVarint (src : List UInt8) : Except ProtoError (ℕ × List UInt8) := readVarintFrom 0 0 src

def putTag (field wire : ℕ) : List UInt8 := putVarint (field * 8 + wire)

/-- A length beyond the slice is refused. -/
def checkedLen (len : ℕ) (src : List UInt8) : Except ProtoError ℕ :=
  if len > src.length then .error (.lengthOverrun len src.length) else .ok len

/-! ## Encoders -/

def encodeBytes (field : ℕ) (value : List UInt8) : List UInt8 :=
  putTag field wtLen ++ (putVarint value.length ++ value)

def encodeString (field : ℕ) (value : String) : List UInt8 := encodeBytes field (Text.utf8 value)

def encodeMessage (field : ℕ) (parts : List (List UInt8)) : List UInt8 := encodeBytes field parts.flatten

def encodeUint32 (field value : ℕ) : List UInt8 := putTag field wtVarint ++ putVarint value

def encodeDouble (field : ℕ) (bits : UInt64) : List UInt8 := putTag field wtFixed64 ++ (beBytes 8 bits.toNat).reverse

/-! ## Fields -/

inductive FieldValue
  | varint (value : ℕ)
  | bytes (value : List UInt8)
  | fixed64 (value : List UInt8)
  | fixed32 (value : List UInt8)
  deriving DecidableEq, Repr

structure Field where
  field : ℕ
  value : FieldValue
  deriving DecidableEq, Repr

def fixedField (width : ℕ) (src : List UInt8) : Except ProtoError (List UInt8 × List UInt8) :=
  if src.length < width then .error (.lengthOverrun width src.length)
  else .ok (src.take width, src.drop width)

def fieldValue (wire : ℕ) (src : List UInt8) : Except ProtoError (FieldValue × List UInt8) :=
  if wire = wtVarint then do
    let (value, rest) ← readVarint src
    pure (.varint value, rest)
  else if wire = wtLen then do
    let (len, rest) ← readVarint src
    let n ← checkedLen len rest
    pure (.bytes (rest.take n), rest.drop n)
  else if wire = wtFixed64 then do
    let (value, rest) ← fixedField 8 src
    pure (.fixed64 value, rest)
  else if wire = wtFixed32 then do
    let (value, rest) ← fixedField 4 src
    pure (.fixed32 value, rest)
  else .error (.unsupportedWireType wire)

/-- A tag and its value; groups and field number 0 are refused. -/
def nextField (src : List UInt8) : Except ProtoError (Field × List UInt8) := do
  let (tag, rest) ← readVarint src
  let field := tag / 8
  ensure (¬(field = 0 ∨ field > maxProtoFieldNumber)) (.invalidFieldNumber field)
  let (value, rest) ← fieldValue (tag % 8) rest
  pure (⟨field, value⟩, rest)

variable {src rest : List UInt8}

theorem length_of_readVarintFrom {byteIndex result value : ℕ}
    (h : readVarintFrom byteIndex result src = .ok (value, rest)) : rest.length < src.length := by
  induction src generalizing byteIndex result with
  | nil => cases h
  | cons byte src ih =>
    rw [readVarintFrom] at h
    split at h
    · split at h
      · cases h
      · cases h
        exact Nat.lt_succ_self _
    · dsimp only at h
      split at h
      · cases h
        exact Nat.lt_succ_self _
      · exact Nat.lt_succ_of_lt (ih h)

theorem length_of_fieldValue {wire : ℕ} {value : FieldValue} (h : fieldValue wire src = .ok (value, rest)) :
    rest.length ≤ src.length := by
  have hfixed : ∀ {width : ℕ} {bytes rest' : List UInt8},
      fixedField width src = .ok (bytes, rest') → rest'.length ≤ src.length := by
    intro width bytes rest' hf
    unfold fixedField at hf
    split at hf
    · cases hf
    · cases hf
      rw [length_drop]
      omega
  unfold fieldValue at h
  split at h
  · obtain ⟨⟨v, rest'⟩, hread, h⟩ := bind_eq_ok.mp h
    cases h
    exact (length_of_readVarintFrom hread).le
  · split at h
    · obtain ⟨⟨len, rest'⟩, hread, h⟩ := bind_eq_ok.mp h
      obtain ⟨n, -, h⟩ := bind_eq_ok.mp h
      cases h
      have hlt := length_of_readVarintFrom hread
      rw [length_drop]
      omega
    · split at h
      · obtain ⟨⟨v, rest'⟩, hread, h⟩ := bind_eq_ok.mp h
        cases h
        exact hfixed hread
      · split at h
        · obtain ⟨⟨v, rest'⟩, hread, h⟩ := bind_eq_ok.mp h
          cases h
          exact hfixed hread
        · cases h

theorem length_of_nextField {field : Field} (h : nextField src = .ok (field, rest)) : rest.length < src.length := by
  unfold nextField at h
  obtain ⟨⟨tag, rest₁⟩, hread, h⟩ := bind_eq_ok.mp h
  obtain ⟨u, -, h⟩ := bind_eq_ok.mp h
  obtain ⟨⟨value, rest₂⟩, hvalue, h⟩ := bind_eq_ok.mp h
  cases h
  have hlt := length_of_readVarintFrom hread
  have hle := length_of_fieldValue hvalue
  omega

/-- The items of a `FieldIter`: it stops after an error. -/
def fieldIter (src : List UInt8) : List (Except ProtoError Field) :=
  if src = [] then []
  else
    match h : nextField src with
    | .error e => [.error e]
    | .ok (field, rest) =>
      have := length_of_nextField h
      .ok field :: fieldIter rest
termination_by src.length

theorem fieldIter_nil : fieldIter [] = [] := by rw [fieldIter, if_pos rfl]

theorem fieldIter_cons {field : Field} (h : nextField src = .ok (field, rest)) :
    fieldIter src = .ok field :: fieldIter rest := by
  have hne : src ≠ [] := by
    rintro rfl
    cases h
  rw [fieldIter, if_neg hne]
  split
  · rename_i e heq
    rw [h] at heq
    cases heq
  · rename_i field' rest' heq
    rw [h] at heq
    cases heq
    rfl

/-! ## Reading what was put -/

theorem or_shift {result i : ℕ} (x : ℕ) (h : result < 2 ^ i) : result ||| x <<< i = result + x * 2 ^ i := by
  rw [Nat.shiftLeft_eq, Nat.or_comm, Nat.mul_comm, ← Nat.two_pow_add_eq_or_of_lt h, Nat.add_comm]

theorem low7_continued {n : ℕ} (h : n < 128) :
    (UInt8.ofNat (n + 128) &&& 0x7F).toNat = n ∧ UInt8.ofNat (n + 128) &&& 0x80 ≠ 0 := by
  have hall : ∀ m : Fin 128, (UInt8.ofNat (m.val + 128) &&& 0x7F).toNat = m.val ∧
      UInt8.ofNat (m.val + 128) &&& 0x80 ≠ 0 := by decide
  exact hall ⟨n, h⟩

theorem low7_last {n : ℕ} (h : n < 128) : (UInt8.ofNat n &&& 0x7F).toNat = n ∧ UInt8.ofNat n &&& 0x80 = 0 := by
  have hall : ∀ m : Fin 128, (UInt8.ofNat m.val &&& 0x7F).toNat = m.val ∧ UInt8.ofNat m.val &&& 0x80 = 0 := by decide
  exact hall ⟨n, h⟩

theorem readVarintFrom_putVarint {byteIndex result value : ℕ} (hi : byteIndex ≤ 9)
    (hr : result < 2 ^ (byteIndex * 7)) (hv : value * 2 ^ (byteIndex * 7) < 2 ^ 64) (rest : List UInt8) :
    readVarintFrom byteIndex result (putVarint value ++ rest) = .ok (result + value * 2 ^ (byteIndex * 7), rest) := by
  induction value using Nat.strongRecOn generalizing byteIndex result with
  | ind value ih =>
    rw [putVarint]
    by_cases hnine : byteIndex = 9
    · subst hnine
      have hsmall : value ≤ 1 := by omega
      rw [if_neg (by omega), singleton_append, readVarintFrom, if_pos rfl]
      have hbyte : (UInt8.ofNat value).toNat = value := by
        rw [UInt8.toNat_ofNat']
        omega
      rw [if_neg (by rw [gt_iff_lt, UInt8.lt_iff_toNat_lt, hbyte]; simpa using hsmall), hbyte, or_shift value hr]
    · by_cases hbig : value > 0x7F
      · have hmod := low7_continued (Nat.mod_lt value (by decide : 128 > 0))
        have hpow : 2 ^ ((byteIndex + 1) * 7) = 128 * 2 ^ (byteIndex * 7) := by
          rw [Nat.add_mul, pow_add]
          omega
        have hdiv : value % 128 * 2 ^ (byteIndex * 7) + value / 128 * 2 ^ ((byteIndex + 1) * 7) =
            value * 2 ^ (byteIndex * 7) := by
          rw [hpow, ← Nat.mul_assoc, ← Nat.add_mul]
          congr 1
          omega
        rw [if_pos hbig, cons_append, readVarintFrom, if_neg hnine]
        rw [hmod.1, if_neg hmod.2, or_shift _ hr, ih (value / 128) (by omega) (by omega) ?_ ?_, Nat.add_assoc, hdiv]
        · have hlt := Nat.mod_lt value (by decide : 128 > 0)
          have hle : value % 128 * 2 ^ (byteIndex * 7) ≤ 127 * 2 ^ (byteIndex * 7) := Nat.mul_le_mul_right _ (by omega)
          omega
        · omega
      · have hlast := low7_last (by omega : value < 128)
        rw [if_neg hbig, singleton_append, readVarintFrom, if_neg hnine]
        rw [hlast.1, if_pos hlast.2, or_shift _ hr]

theorem readVarint_putVarint {value : ℕ} (h : value < 2 ^ 64) (rest : List UInt8) :
    readVarint (putVarint value ++ rest) = .ok (value, rest) := by
  have hread := @readVarintFrom_putVarint 0 0 value (by decide) (by decide) (by simpa using h) rest
  unfold readVarint
  simpa using hread

theorem length_putTag_append (field wire : ℕ) (rest : List UInt8) :
    rest.length < (putTag field wire ++ rest).length := by
  have hpos : 0 < (putVarint (field * 8 + wire)).length := by
    rw [putVarint]
    split <;> simp
  unfold putTag
  rw [length_append]
  omega

section
variable {field : ℕ} (hpos : 0 < field) (hmax : field ≤ maxProtoFieldNumber)
include hpos hmax

omit hpos in
theorem readVarint_putTag {wire : ℕ} (hwire : wire < 8) (src : List UInt8) :
    readVarint (putTag field wire ++ src) = .ok (field * 8 + wire, src) := by
  unfold maxProtoFieldNumber at hmax
  exact readVarint_putVarint (by omega) src

theorem nextField_putTag {wire : ℕ} (hwire : wire < 8) {value : FieldValue} {src rest : List UInt8}
    (h : fieldValue wire src = .ok (value, rest)) :
    nextField (putTag field wire ++ src) = .ok (⟨field, value⟩, rest) := by
  have hdiv : (field * 8 + wire) / 8 = field := by omega
  have hmod : (field * 8 + wire) % 8 = wire := by omega
  unfold nextField
  rw [readVarint_putTag hmax hwire, ok_bind]
  dsimp only
  rw [hdiv, hmod, ensure_of (by omega), ok_bind, h, ok_bind]
  rfl

theorem nextField_encodeUint32 {value : ℕ} (hvalue : value < 2 ^ 64) (rest : List UInt8) :
    nextField (encodeUint32 field value ++ rest) = .ok (⟨field, .varint value⟩, rest) := by
  unfold encodeUint32
  rw [append_assoc]
  apply nextField_putTag hpos hmax (by decide)
  unfold fieldValue
  rw [if_pos rfl, readVarint_putVarint hvalue, ok_bind]
  rfl

theorem nextField_encodeBytes {value : List UInt8} (hlength : value.length < 2 ^ 64) (rest : List UInt8) :
    nextField (encodeBytes field value ++ rest) = .ok (⟨field, .bytes value⟩, rest) := by
  unfold encodeBytes
  rw [append_assoc, append_assoc]
  apply nextField_putTag hpos hmax (by decide)
  unfold fieldValue
  rw [if_neg (by decide), if_pos rfl, readVarint_putVarint hlength, ok_bind]
  dsimp only
  unfold checkedLen
  rw [if_neg (by rw [length_append]; omega), ok_bind, take_left, drop_left]
  rfl

theorem nextField_encodeDouble (bits : UInt64) (rest : List UInt8) :
    nextField (encodeDouble field bits ++ rest) =
      .ok (⟨field, .fixed64 (beBytes 8 bits.toNat).reverse⟩, rest) := by
  have hlength : (beBytes 8 bits.toNat).reverse.length = 8 := by
    rw [length_reverse, length_beBytes]
  unfold encodeDouble
  rw [append_assoc]
  apply nextField_putTag hpos hmax (by decide)
  unfold fieldValue
  rw [if_neg (by decide), if_neg (by decide), if_pos rfl]
  unfold fixedField
  rw [if_neg (by rw [length_append]; omega), ok_bind]
  rw [take_append_of_le_length hlength.ge, take_of_length_le hlength.le,
    drop_append_of_le_length hlength.ge, drop_of_length_le hlength.le, nil_append]
  rfl

end

end CcSwitchServer.AgentProto
