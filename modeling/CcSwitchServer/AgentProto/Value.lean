import CcSwitchServer.AgentProto.Wire
import CcSwitchServer.Foundations.Json

/-! # JSON values as protobuf messages

There are two decoders: the strict one refuses malformed input, the lenient one makes the best of it.
-/

namespace CcSwitchServer.AgentProto
open Foundations

def mcaArgs : ℕ := 2
@[match_pattern] def valNull : ℕ := 1
@[match_pattern] def valNumber : ℕ := 2
@[match_pattern] def valString : ℕ := 3
@[match_pattern] def valBool : ℕ := 4
@[match_pattern] def valStruct : ℕ := 5
@[match_pattern] def valList : ℕ := 6
@[match_pattern] def structFields : ℕ := 1
@[match_pattern] def listValues : ℕ := 1
@[match_pattern] def mapKey : ℕ := 1
@[match_pattern] def mapValue : ℕ := 2

/-! ## Encoding -/

/-- A member is a message with a key and a value. -/
def encodeEntry (key : String) (value : List UInt8) : List UInt8 :=
  encodeString mapKey key ++ encodeMessage mapValue [value]

mutual
/-- A value is one field of a `google.protobuf.Value`. -/
def encodeProtoValue : Json → List UInt8
  | .null => encodeUint32 valNull 0
  | .bool b => encodeUint32 valBool (if b then 1 else 0)
  | .number n => encodeDouble valNumber n.asF64.bits
  | .string s => encodeString valString s
  | .array values =>
    encodeMessage valList ((encodeValues values).map fun value => encodeMessage listValues [value])
  | .object members =>
    encodeMessage valStruct ((Json.sortMembers (encodeMembers members)).map fun e =>
      encodeMessage structFields [encodeEntry e.1 e.2])

def encodeValues : List Json → List (List UInt8)
  | [] => []
  | v :: values => encodeProtoValue v :: encodeValues values

def encodeMembers : List (String × Json) → List (String × List UInt8)
  | [] => []
  | (key, v) :: members => (key, encodeProtoValue v) :: encodeMembers members
end

def encodeMcpArgs (args : List (String × Json)) : List UInt8 :=
  (args.map fun e => encodeMessage mcaArgs [encodeEntry e.1 (encodeProtoValue e.2)]).flatten

/-! ## Strict decoding -/

def utf8Strict (bytes : List UInt8) : Except ProtoError String := context (Text.fromUtf8 bytes) .invalidUtf8

/-- `Number::from_f64`: only finite doubles are numbers. -/
def jsonOfDouble (bytes : List UInt8) : Json :=
  let bits := UInt64.ofNat (beNat bytes.reverse)
  if h : bits.toNat / 2 ^ 52 % 2 ^ 11 ≠ 2047 then .number (.float ⟨bits, h⟩) else .null

section
variable (decode : List UInt8 → Except ProtoError Json)

def entryFieldStrict (entry : Option String × Option (List UInt8)) (item : Except ProtoError Field) :
    Except ProtoError (Option String × Option (List UInt8)) := do
  let field ← item
  match field.field, field.value with
  | mapKey, .bytes bytes => do
    let key ← utf8Strict bytes
    pure (some key, entry.2)
  | mapValue, .bytes bytes => pure (entry.1, some bytes)
  | _, _ => pure entry

def entryFieldsStrict (entry : List UInt8) : Except ProtoError (Option String × Option (List UInt8)) :=
  (fieldIter entry).foldlM entryFieldStrict (none, none)

def entryValueStrict : Option (List UInt8) → Except ProtoError Json
  | none => .ok .null
  | some bytes => decode bytes

def structFieldStrict (out : List (String × Json)) (item : Except ProtoError Field) :
    Except ProtoError (List (String × Json)) := do
  let field ← item
  match field.field, field.value with
  | structFields, .bytes entry => do
    let (key, value) ← entryFieldsStrict entry
    let value ← entryValueStrict decode value
    pure (Json.insertMember (key.getD "") value out)
  | _, _ => pure out

def decodeProtoStructStrict (src : List UInt8) : Except ProtoError (List (String × Json)) :=
  (fieldIter src).foldlM (structFieldStrict decode) []

def listFieldStrict (out : List Json) (item : Except ProtoError Field) : Except ProtoError (List Json) := do
  let field ← item
  match field.field, field.value with
  | listValues, .bytes bytes => do
    let value ← decode bytes
    pure (out ++ [value])
  | _, _ => pure out

def decodeProtoListStrict (src : List UInt8) : Except ProtoError (List Json) :=
  (fieldIter src).foldlM (listFieldStrict decode) []

/-- The value of one field, if it is one of the fields of a `Value`. -/
def fieldValueStrict (field : Field) : Except ProtoError (Option Json) :=
  match field.field, field.value with
  | valNull, .varint _ => .ok (some .null)
  | valNumber, .fixed64 bytes => .ok (some (jsonOfDouble bytes))
  | valString, .bytes bytes => do
    let s ← utf8Strict bytes
    pure (some (.string s))
  | valBool, .varint value => .ok (some (.bool (value ≠ 0)))
  | valStruct, .bytes bytes => do
    let members ← decodeProtoStructStrict decode bytes
    pure (some (.object members))
  | valList, .bytes bytes => do
    let values ← decodeProtoListStrict decode bytes
    pure (some (.array values))
  | _, _ => .ok none

def valueFieldStrict (decoded : Option Json) (item : Except ProtoError Field) : Except ProtoError (Option Json) := do
  let field ← item
  let value ← fieldValueStrict decode field
  pure (value <|> decoded)

/-- The last field that is one of a `Value` counts. -/
def valueFieldsStrict (src : List UInt8) : Except ProtoError Json := do
  let decoded ← (fieldIter src).foldlM (valueFieldStrict decode) none
  pure (decoded.getD .null)

end

/-- The recursion is on a bound for the length of the input, which the slices stay below. -/
def decodeValueStrict : ℕ → List UInt8 → Except ProtoError Json
  | 0, _ => .ok .null
  | bound + 1, src => valueFieldsStrict (decodeValueStrict bound) src

def decodeProtoValueStrict (src : List UInt8) : Except ProtoError Json := decodeValueStrict src.length src

def mapEntryStrict (entryField : ℕ) (map : List (String × Json)) (item : Except ProtoError Field) :
    Except ProtoError (List (String × Json)) := do
  let field ← item
  match field.value with
  | .bytes entry =>
    if field.field ≠ entryField then pure map
    else do
      let (key, value) ← entryFieldsStrict entry
      match key with
      | none => pure map
      | some key => do
        let value ← entryValueStrict decodeProtoValueStrict value
        pure (Json.insertMember key value map)
  | _ => pure map

def decodeRepeatedMapEntriesStrict (payload : List UInt8) (entryField : ℕ) :
    Except ProtoError (List (String × Json)) :=
  (fieldIter payload).foldlM (mapEntryStrict entryField) []

/-- An entry read as a message whose field 2 is an entry. -/
def nestedEntriesStrict (args : List (String × Json)) (item : Except ProtoError Field) :
    Except ProtoError (List (String × Json)) := do
  let field ← item
  match field.value with
  | .bytes value =>
    if field.field ≠ mcaArgs then pure args
    else do
      let nested ← decodeRepeatedMapEntriesStrict value 2
      pure (nested.foldl (fun args e => Json.insertMember e.1 e.2 args) args)
  | _ => pure args

def decodeMcpArgsMapStrict (body : List UInt8) : Except ProtoError (List (String × Json)) := do
  let args ← decodeRepeatedMapEntriesStrict body mcaArgs
  (fieldIter body).foldlM nestedEntriesStrict args

/-! ## Lenient decoding

`none` stands for a position that overflows: the length of a field that is skipped is added unchecked. -/

/-- `FieldIter::flatten`: errors are left out. -/
def goodFields (src : List UInt8) : List Field := (fieldIter src).filterMap Except.toOption

section
variable (decode : List UInt8 → Option Json)

/-- A key that is no UTF-8 is replaced, not refused. -/
def entryField (entry : String × Option (List UInt8)) (field : Field) : String × Option (List UInt8) :=
  match field.field, field.value with
  | mapKey, .bytes bytes => (Text.fromUtf8Lossy bytes, entry.2)
  | mapValue, .bytes bytes => (entry.1, some bytes)
  | _, _ => entry

def entryFields (entry : List UInt8) : String × Option (List UInt8) := (goodFields entry).foldl entryField ("", none)

/-- Members without a key are left out. -/
def structField (out : List (String × Json)) (field : Field) : Option (List (String × Json)) :=
  match field.field, field.value with
  | structFields, .bytes entry =>
    match entryFields entry with
    | (key, some bytes) =>
      if key ≠ "" then do
        let value ← decode bytes
        pure (Json.insertMember key value out)
      else pure out
    | (_, none) => pure out
  | _, _ => pure out

def decodeProtoStruct (src : List UInt8) : Option (List (String × Json)) :=
  (goodFields src).foldlM (structField decode) []

def listField (out : List Json) (field : Field) : Option (List Json) :=
  match field.field, field.value with
  | listValues, .bytes bytes => do
    let value ← decode bytes
    pure (out ++ [value])
  | _, _ => pure out

def decodeProtoList (src : List UInt8) : Option (List Json) := (goodFields src).foldlM (listField decode) []

def lenSlice (src : List UInt8) : Option (List UInt8) :=
  match readVarint src with
  | .error _ => none
  | .ok (len, rest) =>
    match checkedLen len rest with
    | .error _ => none
    | .ok n => some (rest.take n)

/-- The bytes behind a field that is not known, where the whole slice has `total` bytes; a varint that
cannot be read is not skipped. -/
def skipUnknown (total wire : ℕ) (src : List UInt8) : Option (List UInt8) :=
  if wire = wtVarint then
    match readVarint src with
    | .error _ => some src
    | .ok (_, rest) => some rest
  else if wire = wtLen then
    match readVarint src with
    | .error _ => some src
    | .ok (len, rest) =>
      if total - rest.length + len < 2 ^ 64 then some (rest.drop len) else none
  else if wire = wtFixed64 then some (src.drop 8)
  else some (src.drop 4)

/-- The loop of `decode_proto_value`: the first known field counts. -/
def valueFields (total : ℕ) : ℕ → List UInt8 → Option Json
  | 0, _ => some .null
  | bound + 1, src =>
    if src = [] then some .null
    else
      match readVarint src with
      | .error _ => some .null
      | .ok (tag, rest) =>
        let field := tag / 8
        let wire := tag % 8
        if field = valNull ∧ wire = wtVarint then some .null
        else if field = valNumber ∧ wire = wtFixed64 then
          if rest.length < 8 then some .null else some (jsonOfDouble (rest.take 8))
        else if field = valString ∧ wire = wtLen then
          match lenSlice rest with
          | none => some .null
          | some bytes => some (.string (Text.fromUtf8Lossy bytes))
        else if field = valBool ∧ wire = wtVarint then
          match readVarint rest with
          | .error _ => some (.bool false)
          | .ok (value, _) => some (.bool (value ≠ 0))
        else if field = valStruct ∧ wire = wtLen then
          match lenSlice rest with
          | none => some .null
          | some bytes => (decodeProtoStruct decode bytes).map .object
        else if field = valList ∧ wire = wtLen then
          match lenSlice rest with
          | none => some .null
          | some bytes => (decodeProtoList decode bytes).map .array
        else if wire ≠ wtVarint ∧ wire ≠ wtLen ∧ wire ≠ wtFixed64 ∧ wire ≠ wtFixed32 then some .null
        else
          match skipUnknown total wire rest with
          | none => none
          | some rest => valueFields total bound rest

end

def decodeValue : ℕ → List UInt8 → Option Json
  | 0, _ => some .null
  | bound + 1, src => valueFields (decodeValue bound) src.length src.length src

def decodeProtoValue (src : List UInt8) : Option Json := decodeValue src.length src

end CcSwitchServer.AgentProto
