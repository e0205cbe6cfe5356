import CcSwitchServer.AgentProto.Value

/-! # What is encoded comes back

The encoding of a value is a single field, and both decoders go on with the values inside.
-/

namespace CcSwitchServer.AgentProto
open Foundations List Text Json

/-! ## Messages as lists of fields -/

/-- `bytes` stand for one field, whatever follows them. -/
def Encodes (bytes : List UInt8) (field : Field) : Prop := ∀ rest, nextField (bytes ++ rest) = .ok (field, rest)

theorem fieldIter_flatten {α : Type} {bytes : α → List UInt8} {field : α → Field} {xs : List α}
    (h : ∀ x ∈ xs, Encodes (bytes x) (field x)) :
    fieldIter (xs.map bytes).flatten = xs.map fun x => .ok (field x) := by
  induction xs with
  | nil => exact fieldIter_nil
  | cons x xs ih =>
    rw [map_cons, flatten_cons, fieldIter_cons (h x mem_cons_self _), map_cons,
      ih fun y hy => h y (mem_cons_of_mem _ hy)]

variable {bytes : List UInt8} {field : Field} {bound : ℕ}

theorem fieldIter_single (h : Encodes bytes field) :
    fieldIter bytes = [.ok field] := by
  have hrest := h []
  rw [append_nil] at hrest
  rw [fieldIter_cons hrest, fieldIter_nil]

theorem fieldIter_pair {bytes' : List UInt8} {field' : Field} (h : Encodes bytes field)
    (h' : Encodes bytes' field') : fieldIter (bytes ++ bytes') = [.ok field, .ok field'] := by
  rw [fieldIter_cons (h bytes'), fieldIter_single h']

variable {value : List UInt8} {key : String}

theorem encodes_message {field : ℕ} (hpos : 0 < field) (hmax : field ≤ maxProtoFieldNumber)
    (hlength : value.length < 2 ^ 64) : Encodes (encodeMessage field [value]) ⟨field, .bytes value⟩ := by
  unfold encodeMessage
  rw [flatten_singleton]
  exact nextField_encodeBytes hpos hmax hlength

theorem length_le_encodeBytes (field : ℕ) (value : List UInt8) : value.length < (encodeBytes field value).length := by
  have htag := length_putTag_append field wtLen (putVarint value.length ++ value)
  have hle : value.length ≤ (putVarint value.length ++ value).length := by
    rw [length_append]
    omega
  exact hle.trans_lt htag

theorem length_le_encodeMessage (field : ℕ) (parts : List (List UInt8)) {part : List UInt8}
    (h : part ∈ parts) : part.length < (encodeMessage field parts).length := by
  have hlt := length_le_encodeBytes field parts.flatten
  have hle : part.length ≤ parts.flatten.length := by
    rw [length_flatten]
    exact le_sum_of_mem (mem_map_of_mem h)
  unfold encodeMessage
  omega

theorem length_le_encodeEntry (key : String) (value : List UInt8) :
    (utf8 key).length < (encodeEntry key value).length ∧ value.length < (encodeEntry key value).length := by
  have hkey := length_le_encodeBytes mapKey (utf8 key)
  have hvalue := length_le_encodeMessage mapValue [value] (mem_singleton.mpr rfl)
  unfold encodeEntry encodeString
  rw [length_append]
  omega

/-! ## Entries -/

section
variable (hlength : (encodeEntry key value).length < 2 ^ 64)
include hlength

theorem fieldIter_entry :
    fieldIter (encodeEntry key value) = [.ok ⟨mapKey, .bytes (utf8 key)⟩, .ok ⟨mapValue, .bytes value⟩] := by
  have hle := length_le_encodeEntry key value
  exact fieldIter_pair (nextField_encodeBytes (by decide) (by decide) (by omega))
    (encodes_message (by decide) (by decide) (by omega))

theorem entryFieldsStrict_encode :
    entryFieldsStrict (encodeEntry key value) = .ok (some key, some value) := by
  have hkey : entryFieldStrict (none, none) (.ok ⟨mapKey, .bytes (utf8 key)⟩) = .ok (some key, none) := by
    show (utf8Strict (utf8 key) >>= fun key => pure (some key, none)) = _
    unfold utf8Strict
    rw [fromUtf8_utf8]
    rfl
  unfold entryFieldsStrict
  rw [fieldIter_entry hlength, foldlM_cons, hkey, ok_bind]
  rfl

theorem entryFields_encode :
    entryFields (encodeEntry key value) = (key, some value) := by
  unfold entryFields goodFields
  rw [fieldIter_entry hlength]
  show (fromUtf8Lossy (utf8 key), some value) = _
  rw [fromUtf8Lossy_utf8]

end

/-! ## Lists and structs -/

/-- An encoded value and what a decoder makes of it. -/
structure Coded where
  bytes : List UInt8
  value : Json

theorem fieldIter_values {xs : List Coded} (hlength : ∀ x ∈ xs, x.bytes.length < 2 ^ 64) :
    fieldIter (xs.map fun x => encodeMessage listValues [x.bytes]).flatten =
      xs.map fun x => .ok ⟨listValues, .bytes x.bytes⟩ :=
  fieldIter_flatten fun x hx => encodes_message (by decide) (by decide) (hlength x hx)

theorem fieldIter_members {field : ℕ} (hpos : 0 < field) (hmax : field ≤ maxProtoFieldNumber)
    {xs : List (String × Coded)} (hlength : ∀ x ∈ xs, (encodeEntry x.1 x.2.bytes).length < 2 ^ 64) :
    fieldIter (xs.map fun x => encodeMessage field [encodeEntry x.1 x.2.bytes]).flatten =
      xs.map fun x => .ok ⟨field, .bytes (encodeEntry x.1 x.2.bytes)⟩ :=
  fieldIter_flatten fun x hx => encodes_message hpos hmax (hlength x hx)

theorem foldl_append_values (xs : List Coded) : xs.foldl (fun out x => out ++ [x.value]) [] = xs.map Coded.value := by
  suffices h : ∀ out, xs.foldl (fun out x => out ++ [x.value]) out = out ++ xs.map Coded.value by
    exact h []
  induction xs with
  | nil =>
    intro out
    rw [foldl_nil, map_nil, append_nil]
  | cons x xs ih =>
    intro out
    rw [foldl_cons, ih, map_cons, append_assoc, singleton_append]

def members (xs : List (String × Coded)) : List (String × Json) := xs.map fun x => (x.1, x.2.value)

theorem foldl_insert_members {xs : List (String × Coded)} (hkeys : (xs.map Prod.fst).Nodup) :
    xs.foldl (fun out x => insertMember x.1 x.2.value out) [] = members xs := by
  have hnodup : (([] ++ members xs).map Prod.fst).Nodup := by
    unfold members
    rw [nil_append, map_map]
    exact hkeys
  exact foldl_insertMember (fun x : String × Coded => (x.1, x.2.value)) hnodup

section
variable {decode : List UInt8 → Except ProtoError Json}

theorem decodeProtoListStrict_encode {xs : List Coded}
    (hlength : ∀ x ∈ xs, x.bytes.length < 2 ^ 64) (hdecode : ∀ x ∈ xs, decode x.bytes = .ok x.value) :
    decodeProtoListStrict decode (xs.map fun x => encodeMessage listValues [x.bytes]).flatten =
      .ok (xs.map Coded.value) := by
  unfold decodeProtoListStrict
  rw [fieldIter_values hlength, ← foldl_append_values]
  refine foldlM_map_ok (fun out x hx => ?_) []
  show (decode x.bytes >>= fun value => pure (out ++ [value])) = _
  rw [hdecode x hx]
  rfl

theorem decodeProtoStructStrict_encode {xs : List (String × Coded)} (hkeys : (xs.map Prod.fst).Nodup)
    (hlength : ∀ x ∈ xs, (encodeEntry x.1 x.2.bytes).length < 2 ^ 64)
    (hdecode : ∀ x ∈ xs, decode x.2.bytes = .ok x.2.value) :
    decodeProtoStructStrict decode (xs.map fun x => encodeMessage structFields [encodeEntry x.1 x.2.bytes]).flatten =
      .ok (members xs) := by
  unfold decodeProtoStructStrict
  rw [fieldIter_members (by decide) (by decide) hlength, ← foldl_insert_members hkeys]
  refine foldlM_map_ok (fun out x hx => ?_) []
  show (entryFieldsStrict (encodeEntry x.1 x.2.bytes) >>= fun _ => _) = _
  rw [entryFieldsStrict_encode (hlength x hx), ok_bind]
  show (decode x.2.bytes >>= fun _ => _) = _
  rw [hdecode x hx]
  rfl

end

section
variable {decode : List UInt8 → Option Json}

theorem goodFields_of_ok {α : Type} {src : List UInt8} {field : α → Field} {xs : List α}
    (h : fieldIter src = xs.map fun x => .ok (field x)) : goodFields src = xs.map field := by
  unfold goodFields
  rw [h, filterMap_map]
  exact congrFun filterMap_eq_map xs

theorem decodeProtoList_encode {xs : List Coded} (hlength : ∀ x ∈ xs, x.bytes.length < 2 ^ 64)
    (hdecode : ∀ x ∈ xs, decode x.bytes = some x.value) :
    decodeProtoList decode (xs.map fun x => encodeMessage listValues [x.bytes]).flatten =
      some (xs.map Coded.value) := by
  unfold decodeProtoList
  rw [goodFields_of_ok (fieldIter_values hlength), ← foldl_append_values]
  refine foldlM_map_some (fun out x hx => ?_) []
  show (decode x.bytes >>= fun value => pure (out ++ [value])) = _
  rw [hdecode x hx]
  rfl

def named {α : Type} (members : List (String × α)) : List (String × α) := members.filter fun e => e.1 ≠ ""

theorem decodeProtoStruct_encode {xs : List (String × Coded)} (hkeys : (xs.map Prod.fst).Nodup)
    (hlength : ∀ x ∈ xs, (encodeEntry x.1 x.2.bytes).length < 2 ^ 64)
    (hdecode : ∀ x ∈ xs, decode x.2.bytes = some x.2.value) :
    decodeProtoStruct decode (xs.map fun x => encodeMessage structFields [encodeEntry x.1 x.2.bytes]).flatten =
      some (named (members xs)) := by
  have hnamed : named (members xs) = members (named xs) := by
    unfold named members
    rw [filter_map]
    rfl
  have hkeys' : ((named xs).map Prod.fst).Nodup := hkeys.sublist (filter_sublist.map _)
  unfold decodeProtoStruct
  rw [goodFields_of_ok (fieldIter_members (by decide) (by decide) hlength), hnamed, ← foldl_insert_members hkeys']
  unfold named
  rw [foldl_filter]
  refine foldlM_map_some (fun out x hx => ?_) []
  unfold structField
  simp only [structFields, entryFields_encode (hlength x hx)]
  by_cases hkey : x.1 = ""
  · simp [hkey]
  · rw [if_pos hkey, hdecode x hx]
    simp [hkey]

end

/-! ## The field of a value -/

theorem encodeValues_eq (values : List Json) : encodeValues values = values.map encodeProtoValue := by
  induction values with
  | nil => rw [encodeValues, map_nil]
  | cons v values ih => rw [encodeValues, ih, map_cons]

theorem encodeMembers_eq (members : List (String × Json)) :
    encodeMembers members = members.map fun e => (e.1, encodeProtoValue e.2) := by
  induction members with
  | nil => rw [encodeMembers, map_nil]
  | cons e members ih => rw [encodeMembers, ih, map_cons]

variable (result : Json → Json)

def codedMembers (members : List (String × Json)) : List (String × Coded) :=
  (sortMembers members).map fun e => (e.1, ⟨encodeProtoValue e.2, result e.2⟩)

def codedValues (values : List Json) : List Coded := values.map fun v => ⟨encodeProtoValue v, result v⟩

theorem encode_array (values : List Json) : encodeProtoValue (.array values) = encodeMessage valList
      ((codedValues result values).map fun x => encodeMessage listValues [x.bytes]) := by
  rw [encodeProtoValue, encodeValues_eq]
  unfold codedValues
  rw [map_map, map_map]
  rfl

theorem encode_object (members : List (String × Json)) :
    encodeProtoValue (.object members) = encodeMessage valStruct ((codedMembers result members).map fun x =>
        encodeMessage structFields [encodeEntry x.1 x.2.bytes]) := by
  rw [encodeProtoValue, encodeMembers_eq, sortMembers_map encodeProtoValue]
  unfold codedMembers
  rw [map_map, map_map]
  rfl

theorem members_codedMembers (ms : List (String × Json)) :
    members (codedMembers result ms) = sortMembers (ms.map fun e => (e.1, result e.2)) := by
  rw [sortMembers_map result]
  unfold members codedMembers
  rw [map_map]
  rfl

theorem codedMembers_keys {ms : List (String × Json)}
    (h : (ms.map Prod.fst).Nodup) : ((codedMembers result ms).map Prod.fst).Nodup := by
  unfold codedMembers
  rw [map_map]
  exact ((sortMembers_perm ms).map Prod.fst).nodup_iff.mpr h

theorem length_value_lt {result : Json → Json} {values : List Json} {x : Coded} (hx : x ∈ codedValues result values) :
    x.bytes.length < (encodeProtoValue (.array values)).length := by
  have hone := length_le_encodeMessage listValues [x.bytes] (mem_singleton.mpr rfl)
  have hall := length_le_encodeMessage valList _
    (mem_map_of_mem (f := fun x : Coded => encodeMessage listValues [x.bytes]) hx)
  rw [encode_array result]
  omega

theorem length_member_lt {result : Json → Json} {ms : List (String × Json)} {x : String × Coded}
    (hx : x ∈ codedMembers result ms) :
    (encodeEntry x.1 x.2.bytes).length < (encodeProtoValue (.object ms)).length ∧
      x.2.bytes.length < (encodeProtoValue (.object ms)).length := by
  have hentry := length_le_encodeEntry x.1 x.2.bytes
  have hone := length_le_encodeMessage structFields [encodeEntry x.1 x.2.bytes] (mem_singleton.mpr rfl)
  have hall := length_le_encodeMessage valStruct _
    (mem_map_of_mem (f := fun x : String × Coded => encodeMessage structFields [encodeEntry x.1 x.2.bytes]) hx)
  rw [encode_object result]
  omega

theorem jsonOfDouble_encode (f : F64) : jsonOfDouble (beBytes 8 f.bits.toNat).reverse = .number (.float f) := by
  have hbits : UInt64.ofNat (beNat (beBytes 8 f.bits.toNat).reverse.reverse) = f.bits := by
    rw [reverse_reverse, beNat_beBytes f.bits.toNat_lt, UInt64.ofNat_toNat]
  unfold jsonOfDouble
  simp only [hbits]
  rw [dif_pos f.finite]

/-! ## Strict decoding -/

theorem valueFieldsStrict_single {decode : List UInt8 → Except ProtoError Json} (h : Encodes bytes field) {value : Json}
    (hvalue : fieldValueStrict decode field = .ok (some value)) :
    valueFieldsStrict decode bytes = .ok value := by
  unfold valueFieldsStrict
  rw [fieldIter_single h, foldlM_cons]
  show ((fieldValueStrict decode field >>= fun value => pure (value <|> none)) >>= fun _ => _) >>= _ = _
  rw [hvalue]
  rfl

theorem bound_ne_zero {v : Json} (h : (encodeProtoValue v).length ≤ bound) : bound ≠ 0 := by
  have hlength : 0 < (encodeProtoValue v).length := by
    cases v <;> rw [encodeProtoValue] <;>
      exact lt_of_le_of_lt (Nat.zero_le _) (length_putTag_append _ _ _)
  omega

/-- Numbers come back as doubles and members in the order of their keys. -/
def decodedStrict : Json → Json := rebuild (fun n => .float n.asF64) sortMembers

/-- The strict decoder gives the value back. -/
theorem decodeValueStrict_encode {v : Json} (hv : v.Distinct)
    (hbound : (encodeProtoValue v).length ≤ bound) (hlength : (encodeProtoValue v).length < 2 ^ 64) :
    decodeValueStrict bound (encodeProtoValue v) = .ok (decodedStrict v) := by
  induction hv generalizing bound with
  | null =>
    obtain ⟨bound, rfl⟩ := Nat.exists_eq_succ_of_ne_zero (bound_ne_zero hbound)
    rw [encodeProtoValue]
    exact valueFieldsStrict_single (nextField_encodeUint32 (by decide) (by decide) (by decide)) rfl
  | bool b =>
    obtain ⟨bound, rfl⟩ := Nat.exists_eq_succ_of_ne_zero (bound_ne_zero hbound)
    rw [encodeProtoValue]
    refine valueFieldsStrict_single (nextField_encodeUint32 (by decide) (by decide) (by cases b <;> decide)) ?_
    cases b <;> rfl
  | number n =>
    obtain ⟨bound, rfl⟩ := Nat.exists_eq_succ_of_ne_zero (bound_ne_zero hbound)
    rw [encodeProtoValue]
    refine valueFieldsStrict_single (nextField_encodeDouble (by decide) (by decide) _) ?_
    show Except.ok (some (jsonOfDouble _)) = _
    rw [jsonOfDouble_encode]
    rfl
  | string s =>
    obtain ⟨bound, rfl⟩ := Nat.exists_eq_succ_of_ne_zero (bound_ne_zero hbound)
    rw [encodeProtoValue] at hlength ⊢
    have hshort := length_le_encodeBytes valString (utf8 s)
    unfold encodeString at hlength ⊢
    refine valueFieldsStrict_single (nextField_encodeBytes (by decide) (by decide) (by omega)) ?_
    show (utf8Strict (utf8 s) >>= fun s => pure (some (string s))) = _
    unfold utf8Strict
    rw [fromUtf8_utf8]
    rfl
  | array values h ih =>
    obtain ⟨bound, rfl⟩ := Nat.exists_eq_succ_of_ne_zero (bound_ne_zero hbound)
    have hshort : ∀ x ∈ codedValues decodedStrict values, x.bytes.length < 2 ^ 64 :=
      fun x hx => (length_value_lt hx).trans hlength
    have hdecode : ∀ x ∈ codedValues decodedStrict values, decodeValueStrict bound x.bytes = .ok x.value := by
      intro x hx
      have hlt := length_value_lt hx
      obtain ⟨v, hmem, rfl⟩ := mem_map.mp hx
      exact ih v hmem (by dsimp only at hlt; omega) (hshort _ hx)
    have hinner := length_le_encodeBytes valList
      ((codedValues decodedStrict values).map fun x => encodeMessage listValues [x.bytes]).flatten
    rw [encode_array decodedStrict] at hlength ⊢
    unfold encodeMessage at hlength ⊢
    refine valueFieldsStrict_single (nextField_encodeBytes (by decide) (by decide) (hinner.trans hlength)) ?_
    show (decodeProtoListStrict _ _ >>= fun values => pure (some (array values))) = _
    rw [show _ = _ from decodeProtoListStrict_encode hshort hdecode]
    unfold decodedStrict codedValues
    rw [rebuild_array, map_map]
    rfl
  | object ms hkeys h ih =>
    obtain ⟨bound, rfl⟩ := Nat.exists_eq_succ_of_ne_zero (bound_ne_zero hbound)
    have hshort : ∀ x ∈ codedMembers decodedStrict ms, (encodeEntry x.1 x.2.bytes).length < 2 ^ 64 :=
      fun x hx => (length_member_lt hx).1.trans hlength
    have hdecode : ∀ x ∈ codedMembers decodedStrict ms, decodeValueStrict bound x.2.bytes = .ok x.2.value := by
      intro x hx
      have hlt := (length_member_lt hx).2
      obtain ⟨e, hmem, rfl⟩ := mem_map.mp hx
      exact ih e (mem_sortMembers.mp hmem) (by dsimp only at hlt; omega) (hlt.trans hlength)
    have hinner := length_le_encodeBytes valStruct
      ((codedMembers decodedStrict ms).map fun x =>
        encodeMessage structFields [encodeEntry x.1 x.2.bytes]).flatten
    rw [encode_object decodedStrict] at hlength ⊢
    unfold encodeMessage at hlength ⊢
    refine valueFieldsStrict_single (nextField_encodeBytes (by decide) (by decide) (hinner.trans hlength)) ?_
    show (decodeProtoStructStrict _ _ >>= fun members => pure (some (object members))) = _
    rw [show _ = _ from decodeProtoStructStrict_encode (codedMembers_keys _ hkeys) hshort hdecode,
      members_codedMembers]
    unfold decodedStrict
    rw [rebuild_object]
    rfl

/-! ## Lenient decoding -/

theorem lenSlice_encode {value : List UInt8} (h : value.length < 2 ^ 64) :
    lenSlice (putVarint value.length ++ value) = some value := by
  unfold lenSlice
  rw [readVarint_putVarint h]
  dsimp only
  unfold checkedLen
  rw [if_neg (lt_irrefl _)]
  dsimp only
  rw [take_length]

section
variable {decode : List UInt8 → Option Json} {total bound : ℕ}

theorem valueFields_tag {field wire : ℕ} (hmax : field ≤ maxProtoFieldNumber) (hwire : wire < 8) (src : List UInt8) :
    valueFields decode total (bound + 1) (putTag field wire ++ src) =
      if field = valNull ∧ wire = wtVarint then some .null
      else if field = valNumber ∧ wire = wtFixed64 then
        if src.length < 8 then some .null else some (jsonOfDouble (src.take 8))
      else if field = valString ∧ wire = wtLen then
        match lenSlice src with
        | none => some .null
        | some bytes => some (.string (fromUtf8Lossy bytes))
      else if field = valBool ∧ wire = wtVarint then
        match readVarint src with
        | .error _ => some (.bool false)
        | .ok (value, _) => some (.bool (value ≠ 0))
      else if field = valStruct ∧ wire = wtLen then
        match lenSlice src with
        | none => some .null
        | some bytes => (decodeProtoStruct decode bytes).map .object
      else if field = valList ∧ wire = wtLen then
        match lenSlice src with
        | none => some .null
        | some bytes => (decodeProtoList decode bytes).map .array
      else if wire ≠ wtVarint ∧ wire ≠ wtLen ∧ wire ≠ wtFixed64 ∧ wire ≠ wtFixed32 then some .null
      else
        match skipUnknown total wire src with
        | none => none
        | some rest => valueFields decode total bound rest := by
  have hne : putTag field wire ++ src ≠ [] := by
    intro h
    have hlt := length_putTag_append field wire src
    rw [h] at hlt
    exact absurd hlt (Nat.not_lt_zero _)
  have hfield : (field * 8 + wire) / 8 = field := by omega
  have htype : (field * 8 + wire) % 8 = wire := by omega
  rewrite [valueFields, if_neg hne, readVarint_putTag hmax hwire src]
  dsimp only
  rewrite [hfield, htype]
  rfl

theorem valueFields_null : valueFields decode total (bound + 1) (encodeUint32 valNull 0) = some .null := by
  unfold encodeUint32
  rw [valueFields_tag (by decide) (by decide), if_pos ⟨rfl, rfl⟩]

theorem valueFields_bool (b : Bool) :
    valueFields decode total (bound + 1) (encodeUint32 valBool (if b then 1 else 0)) = some (.bool b) := by
  have hvalue := @readVarint_putVarint (if b then 1 else 0) (by cases b <;> decide) []
  rw [append_nil] at hvalue
  unfold encodeUint32
  rw [valueFields_tag (by decide) (by decide), if_neg (by decide), if_neg (by decide),
    if_neg (by decide), if_pos ⟨rfl, rfl⟩, hvalue]
  cases b <;> rfl

theorem valueFields_number (f : F64) :
    valueFields decode total (bound + 1) (encodeDouble valNumber f.bits) = some (.number (.float f)) := by
  have hlength : (beBytes 8 f.bits.toNat).reverse.length = 8 := by
    rw [length_reverse, length_beBytes]
  unfold encodeDouble
  rw [valueFields_tag (by decide) (by decide), if_neg (by decide), if_pos ⟨rfl, rfl⟩,
    if_neg (by omega), take_of_length_le hlength.le, jsonOfDouble_encode]

theorem valueFields_string {s : String} (h : (utf8 s).length < 2 ^ 64) :
    valueFields decode total (bound + 1) (encodeString valString s) = some (.string s) := by
  unfold encodeString encodeBytes
  rw [valueFields_tag (by decide) (by decide), if_neg (by decide), if_neg (by decide),
    if_pos ⟨rfl, rfl⟩, lenSlice_encode h]
  dsimp only
  rw [fromUtf8Lossy_utf8]

theorem valueFields_struct {parts : List (List UInt8)} (h : parts.flatten.length < 2 ^ 64) :
    valueFields decode total (bound + 1) (encodeMessage valStruct parts) =
      (decodeProtoStruct decode parts.flatten).map .object := by
  unfold encodeMessage encodeBytes
  rw [valueFields_tag (by decide) (by decide), if_neg (by decide), if_neg (by decide),
    if_neg (by decide), if_neg (by decide), if_pos ⟨rfl, rfl⟩, lenSlice_encode h]

theorem valueFields_list {parts : List (List UInt8)} (h : parts.flatten.length < 2 ^ 64) :
    valueFields decode total (bound + 1) (encodeMessage valList parts) =
      (decodeProtoList decode parts.flatten).map .array := by
  unfold encodeMessage encodeBytes
  rw [valueFields_tag (by decide) (by decide), if_neg (by decide), if_neg (by decide),
    if_neg (by decide), if_neg (by decide), if_neg (by decide), if_pos ⟨rfl, rfl⟩, lenSlice_encode h]

end

/-- Members without a key are left out. -/
def decodedLenient : Json → Json := rebuild (fun n => .float n.asF64) fun members => sortMembers (named members)

variable {v : Json}

/-- The lenient decoder gives back what has a key. -/
theorem decodeValue_encode (hv : v.Distinct) (hbound : (encodeProtoValue v).length ≤ bound)
    (hlength : (encodeProtoValue v).length < 2 ^ 64) :
    decodeValue bound (encodeProtoValue v) = some (decodedLenient v) := by
  have hstep : ∀ {bound : ℕ} (v : Json), (encodeProtoValue v).length ≤ bound → ∃ b b',
      bound = b + 1 ∧ decodeValue bound (encodeProtoValue v) =
        valueFields (decodeValue b) (b' + 1) (b' + 1) (encodeProtoValue v) := by
    intro bound v hle
    obtain ⟨b, rfl⟩ := Nat.exists_eq_succ_of_ne_zero (bound_ne_zero hle)
    obtain ⟨b', hb'⟩ := Nat.exists_eq_succ_of_ne_zero (bound_ne_zero (v := v) (le_refl _))
    refine ⟨b, b', rfl, ?_⟩
    rw [decodeValue, hb']
  induction hv generalizing bound with
  | null =>
    obtain ⟨b, b', rfl, heq⟩ := hstep _ hbound
    rw [heq, encodeProtoValue]
    exact valueFields_null
  | bool b =>
    obtain ⟨b, b', rfl, heq⟩ := hstep _ hbound
    rw [heq, encodeProtoValue]
    exact valueFields_bool _
  | number n =>
    obtain ⟨b, b', rfl, heq⟩ := hstep _ hbound
    rw [heq, encodeProtoValue]
    exact valueFields_number _
  | string s =>
    obtain ⟨b, b', rfl, heq⟩ := hstep _ hbound
    rw [heq, encodeProtoValue]
    rw [encodeProtoValue] at hlength
    exact valueFields_string ((length_le_encodeBytes valString (utf8 s)).trans hlength)
  | array values h ih =>
    obtain ⟨b, b', rfl, heq⟩ := hstep _ hbound
    have hshort : ∀ x ∈ codedValues decodedLenient values, x.bytes.length < 2 ^ 64 :=
      fun x hx => (length_value_lt hx).trans hlength
    have hdecode : ∀ x ∈ codedValues decodedLenient values, decodeValue b x.bytes = some x.value := by
      intro x hx
      have hlt := length_value_lt hx
      obtain ⟨v, hmem, rfl⟩ := mem_map.mp hx
      exact ih v hmem (by dsimp only at hlt; omega) (hshort _ hx)
    have hinner := length_le_encodeBytes valList
      ((codedValues decodedLenient values).map fun x => encodeMessage listValues [x.bytes]).flatten
    rw [heq]
    rw [encode_array decodedLenient] at hlength ⊢
    rw [valueFields_list (hinner.trans hlength), decodeProtoList_encode hshort hdecode]
    unfold decodedLenient codedValues
    rw [rebuild_array, map_map]
    rfl
  | object ms hkeys h ih =>
    obtain ⟨b, b', rfl, heq⟩ := hstep _ hbound
    have hshort : ∀ x ∈ codedMembers decodedLenient ms, (encodeEntry x.1 x.2.bytes).length < 2 ^ 64 :=
      fun x hx => (length_member_lt hx).1.trans hlength
    have hdecode : ∀ x ∈ codedMembers decodedLenient ms, decodeValue b x.2.bytes = some x.2.value := by
      intro x hx
      have hlt := (length_member_lt hx).2
      obtain ⟨e, hmem, rfl⟩ := mem_map.mp hx
      exact ih e (mem_sortMembers.mp hmem) (by dsimp only at hlt; omega) (hlt.trans hlength)
    have hinner := length_le_encodeBytes valStruct
      ((codedMembers decodedLenient ms).map fun x =>
        encodeMessage structFields [encodeEntry x.1 x.2.bytes]).flatten
    rw [heq]
    rw [encode_object decodedLenient] at hlength ⊢
    rw [valueFields_struct (hinner.trans hlength),
      decodeProtoStruct_encode (codedMembers_keys _ hkeys) hshort hdecode, members_codedMembers]
    unfold decodedLenient
    rw [rebuild_object]
    unfold named
    rw [sortMembers_filter]
    rfl

/-! ## Tool-call arguments -/

/-- Read as an entry, a value has neither a key nor a value: its fields of those numbers are no slices. -/
theorem entryFieldsStrict_value (hlength : (encodeProtoValue v).length < 2 ^ 64) :
    entryFieldsStrict (encodeProtoValue v) = .ok (none, none) := by
  have hsingle : ∀ {bytes : List UInt8} {field : Field}, Encodes bytes field →
      entryFieldStrict (none, none) (.ok field) = .ok (none, none) → entryFieldsStrict bytes = .ok (none, none) := by
    intro bytes field hbytes hfield
    unfold entryFieldsStrict
    rw [fieldIter_single hbytes, foldlM_cons, hfield]
    rfl
  cases v with
  | null =>
    rw [encodeProtoValue]
    exact hsingle (nextField_encodeUint32 (by decide) (by decide) (by decide)) rfl
  | bool b =>
    rw [encodeProtoValue]
    exact hsingle (nextField_encodeUint32 (by decide) (by decide) (by cases b <;> decide)) rfl
  | number n =>
    rw [encodeProtoValue]
    exact hsingle (nextField_encodeDouble (by decide) (by decide) _) rfl
  | string s =>
    rw [encodeProtoValue] at hlength ⊢
    exact hsingle (nextField_encodeBytes (by decide) (by decide)
      ((length_le_encodeBytes valString _).trans hlength)) rfl
  | array values =>
    rw [encodeProtoValue] at hlength ⊢
    exact hsingle (nextField_encodeBytes (by decide) (by decide) ((length_le_encodeBytes valList _).trans hlength)) rfl
  | object ms =>
    rw [encodeProtoValue] at hlength ⊢
    exact hsingle (nextField_encodeBytes (by decide) (by decide)
      ((length_le_encodeBytes valStruct _).trans hlength)) rfl

theorem nested_entry {key : String} (hlength : (encodeEntry key (encodeProtoValue v)).length < 2 ^ 64) :
    decodeRepeatedMapEntriesStrict (encodeEntry key (encodeProtoValue v)) 2 = .ok [] := by
  have hvalue : mapEntryStrict 2 [] (.ok ⟨mapValue, .bytes (encodeProtoValue v)⟩) = .ok [] := by
    show (entryFieldsStrict (encodeProtoValue v) >>= fun _ => _) = _
    rw [entryFieldsStrict_value ((length_le_encodeEntry key _).2.trans hlength), ok_bind]
    rfl
  unfold decodeRepeatedMapEntriesStrict
  rw [fieldIter_entry hlength, foldlM_cons]
  show ([.ok ⟨mapValue, .bytes (encodeProtoValue v)⟩].foldlM (mapEntryStrict 2) []) = _
  rw [foldlM_cons, hvalue]
  rfl

def codedArgs (args : List (String × Json)) : List (String × Coded) :=
  args.map fun e => (e.1, ⟨encodeProtoValue e.2, decodedStrict e.2⟩)

theorem encodeMcpArgs_eq (args : List (String × Json)) :
    encodeMcpArgs args =
      ((codedArgs args).map fun x => encodeMessage mcaArgs [encodeEntry x.1 x.2.bytes]).flatten := by
  unfold encodeMcpArgs codedArgs
  rw [map_map]
  rfl

section
variable {args : List (String × Json)}

theorem length_arg_lt {x : String × Coded} (hx : x ∈ codedArgs args) :
    (encodeEntry x.1 x.2.bytes).length < (encodeMcpArgs args).length := by
  have hone := length_le_encodeMessage mcaArgs [encodeEntry x.1 x.2.bytes] (mem_singleton.mpr rfl)
  have hall : (encodeMessage mcaArgs [encodeEntry x.1 x.2.bytes]).length ≤ (encodeMcpArgs args).length := by
    rw [encodeMcpArgs_eq, length_flatten]
    exact le_sum_of_mem (mem_map_of_mem (mem_map_of_mem hx))
  omega

variable (hkeys : (args.map Prod.fst).Nodup) (hargs : ∀ e ∈ args, e.2.Distinct)
  (hlength : (encodeMcpArgs args).length < 2 ^ 64)
include hkeys hargs hlength

theorem decodeMcpArgsMapStrict_encode :
    decodeMcpArgsMapStrict (encodeMcpArgs args) = .ok (members (codedArgs args)) := by
  have hshort : ∀ x ∈ codedArgs args, (encodeEntry x.1 x.2.bytes).length < 2 ^ 64 :=
    fun x hx => (length_arg_lt hx).trans hlength
  have hfields := @fieldIter_members mcaArgs (by decide) (by decide) _ hshort
  have hdecode : ∀ x ∈ codedArgs args, decodeProtoValueStrict x.2.bytes = .ok x.2.value := by
    intro x hx
    have hvalue := (length_le_encodeEntry x.1 x.2.bytes).2.trans (hshort x hx)
    obtain ⟨e, hmem, rfl⟩ := mem_map.mp hx
    exact decodeValueStrict_encode (hargs e hmem) (le_refl _) hvalue
  have hcoded : ((codedArgs args).map Prod.fst).Nodup := by
    unfold codedArgs
    rw [map_map]
    exact hkeys
  have hfirst : decodeRepeatedMapEntriesStrict (encodeMcpArgs args) mcaArgs = .ok (members (codedArgs args)) := by
    unfold decodeRepeatedMapEntriesStrict
    rw [encodeMcpArgs_eq, hfields, ← foldl_insert_members hcoded]
    refine foldlM_map_ok (fun out x hx => ?_) []
    show (entryFieldsStrict (encodeEntry x.1 x.2.bytes) >>= fun _ => _) = _
    rw [entryFieldsStrict_encode (hshort x hx), ok_bind]
    show (decodeProtoValueStrict x.2.bytes >>= fun _ => _) = _
    rw [hdecode x hx]
    rfl
  have hsecond : ∀ out, ∀ x ∈ codedArgs args,
      nestedEntriesStrict out (.ok ⟨mcaArgs, .bytes (encodeEntry x.1 x.2.bytes)⟩) = .ok out := by
    intro out x hx
    have hentry := hshort x hx
    obtain ⟨e, hmem, rfl⟩ := mem_map.mp hx
    show (decodeRepeatedMapEntriesStrict _ 2 >>= fun _ => _) = _
    rw [nested_entry hentry]
    rfl
  unfold decodeMcpArgsMapStrict
  rw [hfirst, ok_bind, encodeMcpArgs_eq, hfields, foldlM_map_ok hsecond]
  exact congrArg Except.ok (foldl_fixed _)

end

/-! ## Round trip -/

def namedFloats : Json → Json := rebuild (fun n => .float n.asF64) named

theorem decodedStrict_same (v : Json) : (decodedStrict v).Same v.asFloats := same_rebuild _ id (fun _ _ => rfl) v

theorem decodedLenient_same (v : Json) : (decodedLenient v).Same (namedFloats v) := by
  refine same_rebuild _ named (fun φ members => ?_) v
  unfold named
  rw [filter_map]
  rfl

theorem same_args (args : List (String × Json)) : (object (members (codedArgs args))).Same (object args).asFloats := by
  unfold Json.Same sorted asFloats members codedArgs
  rw [rebuild_object, rebuild_object, rebuild_object, map_map, map_map]
  refine congrArg (fun ms => object (sortMembers ms)) ?_
  rw [id, map_map]
  exact map_congr_left fun e _ => congrArg (Prod.mk e.1) (decodedStrict_same e.2)

/-- The strict decoders give back what was encoded, up to numbers as doubles and the order of members; the
lenient one leaves out the members without a key. A slice of bytes has fewer than `2 ^ 64` of them. -/
theorem proto_values_round_trip :
    (∀ v : Json, v.Distinct → (encodeProtoValue v).length < 2 ^ 64 →
      ∃ w, decodeProtoValueStrict (encodeProtoValue v) = .ok w ∧ w.Same v.asFloats) ∧
      (∀ v : Json, v.Distinct → (encodeProtoValue v).length < 2 ^ 64 →
        ∃ w, decodeProtoValue (encodeProtoValue v) = some w ∧ w.Same (namedFloats v)) ∧
      (∀ args : List (String × Json), (args.map Prod.fst).Nodup → (∀ e ∈ args, e.2.Distinct) →
        (encodeMcpArgs args).length < 2 ^ 64 → ∃ out, decodeMcpArgsMapStrict (encodeMcpArgs args) = .ok out ∧
            out.map Prod.fst = args.map Prod.fst ∧ (object out).Same (object args).asFloats) ∧
      ∀ (value : UInt64) (rest : List UInt8),
        readVarint (putVarint value.toNat ++ rest) = .ok (value.toNat, rest) := by
  refine ⟨fun v hv hlength => ?_, fun v hv hlength => ?_, fun args hkeys hargs hlength => ?_, fun value rest => ?_⟩
  · exact ⟨_, decodeValueStrict_encode hv (le_refl _) hlength, decodedStrict_same v⟩
  · exact ⟨_, decodeValue_encode hv (le_refl _) hlength, decodedLenient_same v⟩
  · refine ⟨_, decodeMcpArgsMapStrict_encode hkeys hargs hlength, ?_, same_args args⟩
    unfold members codedArgs
    rw [map_map, map_map]
    rfl
  · exact readVarint_putVarint value.toNat_lt rest

/-- The member without a key is lost. -/
theorem lenient_decoder_drops_empty_key :
    let v : Json := .object [("", .null)]
    v.Distinct ∧ (encodeProtoValue v).length < 2 ^ 64 ∧
      decodeProtoValue (encodeProtoValue v) = some (.object []) ∧
      ¬(object []).Same v.asFloats := by
  have hv : (object [("", .null)]).Distinct :=
    .object _ (by decide) fun e he => by
      rw [mem_singleton.mp he]
      exact .null
  have hlength : (encodeProtoValue (.object [("", .null)])).length < 2 ^ 64 := by decide +kernel
  refine ⟨hv, hlength, ?_, ?_⟩
  · have hdecoded := decodeValue_encode hv (le_refl _) hlength
    exact hdecoded.trans rfl
  · intro hsame
    cases hsame

end CcSwitchServer.AgentProto
