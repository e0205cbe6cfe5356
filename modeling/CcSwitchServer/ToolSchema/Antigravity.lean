import CcSwitchServer.Foundations.JsonEdits

/-! # Cleaning schemas for Antigravity (`src/proxy/tool_schema.rs`)

A schema is cut down to what the upstream accepts. The JSON text of a value is a parameter.
-/

namespace CcSwitchServer.ToolSchema
open Foundations Foundations.Json

abbrev Members := List (String × Json)

inductive AntigravitySchemaMode
  | tool
  | response
  deriving DecidableEq, Repr

variable (object : Members)

def schemaTypeIs (expected : String) : Bool :=
  ((lookup object "type").bind asStr).any fun value => Text.eqIgnoreAsciiCase value expected

/-! ## Local references -/

def namedSchemas : List String := ["properties", "patternProperties", "$defs", "definitions", "dependentSchemas"]

def singleSchemas : List String :=
  ["items", "additionalProperties", "not", "if", "then", "else", "propertyNames", "contains"]

def listedSchemas : List String := ["allOf", "anyOf", "oneOf", "prefixItems"]

def mapSchemas (f : Json → Json) (object : Members) : Members :=
  let object := namedSchemas.foldl (fun object key => updateMember key (mapValues f) object) object
  let object := singleSchemas.foldl (fun object key => updateMember key f object) object
  listedSchemas.foldl (fun object key => updateMember key (mapItems f) object) object

def localReference : Option String :=
  ((lookup object "$ref").bind asStr).filter fun reference => "#/".toList.isPrefixOf reference.toList

/-- What stands beside a reference comes first. -/
def inlineTarget (object target : Members) : Members :=
  target.foldl (fun object e => orInsert e.1 e.2 object) (removeMember "$ref" object)

/-- `levels` is what is left of the 17 levels that are resolved. -/
def resolveAntigravityLocalRefs (root : Json) : ℕ → List String → Json → Json
  | 0, _, value => value
  | levels + 1, resolving, .object members =>
    let inlined :=
      match localReference members with
      | none => members
      | some reference =>
        if reference ∈ resolving then members
        else
          match (root.pointer (String.ofList (reference.toList.dropWhile (· = '#')))).map
            (resolveAntigravityLocalRefs root levels (reference :: resolving)) with
          | some (.object target) => inlineTarget members target
          | _ => members
    .object (mapSchemas (resolveAntigravityLocalRefs root levels resolving) inlined)
  | _, _, value => value

/-! ## Merging branches -/

def normalizeAntigravityTypeArray : Members :=
  match lookup object "type" with
  | some (.array types) =>
    let selected := ((types.filterMap asStr).find? fun value => value ≠ "null").getD "string"
    let object' := insertMember "type" (.string selected) object
    if types.any fun value => value.asStr = some "null" then insertMember "nullable" (.bool true) object' else object'
  | _ => object

def arrayItems (v : Option Json) : List Json := (v.bind asArray).getD []

def addRequired (required : List Json) (item : Json) : List Json :=
  if required.any fun value => value.equal item then required else required ++ [item]

def mergeAllOfField (field : String × Json) : Members :=
  if field.1 = "required" then
    insertMember "required"
      (.array ((arrayItems (some field.2)).foldl addRequired (arrayItems (lookup object "required")))) object
  else if field.1 = "properties" then
    let object := orInsert "properties" (.object []) object
    match lookup object "properties", field.2 with
    | some (.object properties), .object incoming =>
      insertMember "properties" (.object (incoming.foldl (fun ps e => orInsert e.1 e.2 ps) properties)) object
    | _, _ => object
  else orInsert field.1 field.2 object

def membersOf : Json → Members
  | .object members => members
  | _ => []

/-- The branches are merged into the node. -/
def mergeAntigravityAllOf : Members :=
  (arrayItems (lookup object "allOf")).foldl (fun object branch => (membersOf branch).foldl mergeAllOfField object)
    (removeMember "allOf" object)

def typeOf (branch : Json) : Option String := (branch.get "type").bind asStr

/-- Objects before arrays, and arrays before the rest. -/
def unionRank (branch : Json) : ℕ :=
  if typeOf branch = some "object" ∨ (branch.get "properties").isSome then 3
  else if typeOf branch = some "array" ∨ (branch.get "items").isSome then 2
  else if typeOf branch = some "null" then 0
  else 1

def maxByRank : List Json → Option Json
  | [] => none
  | branch :: branches =>
    match maxByRank branches with
    | none => some branch
    | some best => if unionRank best < unionRank branch then some branch else some best

/-- A union is replaced by its highest branch. -/
def projectAntigravityUnion (key : String) (object : Members) : Members :=
  let branches := arrayItems (lookup object key)
  let object := ((maxByRank branches).map membersOf).getD [] |>.foldl (fun object e => orInsert e.1 e.2 object)
    (removeMember key object)
  if branches.any fun branch => typeOf branch = some "null" then insertMember "nullable" (.bool true) object
  else object

/-! ## Required properties -/

def booleanRequired (schema : Json) : Option Bool := (schema.get "required").bind asBool

/-- A property that says itself whether it is required no longer does. -/
def dropBooleanRequired (schema : Json) : Json :=
  match schema, booleanRequired schema with
  | .object members, some _ => .object (removeMember "required" members)
  | _, _ => schema

def sortedNames (names : List String) : List String := names.eraseDups.insertionSort (· ≤ ·)

/-- A property that calls itself required is named by its object. -/
def promoteBooleanRequiredProperties : Members :=
  match lookup object "properties" with
  | some (.object properties) =>
    let promoted := (properties.filter fun e => booleanRequired e.2 = some true).map Prod.fst
    let object' := insertMember "properties" (.object (properties.map fun e => (e.1, dropBooleanRequired e.2))) object
    if promoted = [] then object'
    else
      insertMember "required"
        (.array ((sortedNames ((arrayItems (lookup object "required")).filterMap asStr ++ promoted)).map .string)) object'
  | _ => object

/-! ## Cleaning a node -/

/-- The node with its branches, before its schemas are cleaned. -/
def mergeBranches : Members :=
  promoteBooleanRequiredProperties
    (projectAntigravityUnion "oneOf"
      (projectAntigravityUnion "anyOf" (mergeAntigravityAllOf (normalizeAntigravityTypeArray object))))

def anyString : Json := .object [("type", .string "string")]

def cleanSchemas (clean : Json → Json) (object : Members) : Members :=
  let object := updateMember "properties" (mapValues clean) object
  if (lookup object "items").isSome then updateMember "items" clean object
  else if schemaTypeIs object "array" then insertMember "items" anyString object
  else object

def constAsEnum : Members :=
  match lookup object "const" with
  | some constant => orInsert "enum" (.array [constant]) (removeMember "const" object)
  | none => object

section

variable (text : Json → String) (mode : AntigravitySchemaMode)

def enumText : Json → Json
  | .string s => .string s
  | .null => .string "null"
  | value => .string (text value)

def isBool : Json → Bool
  | .bool _ => true
  | _ => false

variable (object : Members)

/-- Values become texts. -/
def cleanEnum : Members :=
  match lookup object "enum" with
  | some (.array values) =>
    if mode = .tool ∨ values.any isBool then removeMember "enum" object
    else insertMember "enum" (.array (values.map (enumText text))) object
  | _ => object

def allowedKeys : List String :=
  ["type", "properties", "items", "required", "description", "enum", "nullable", "additionalProperties"]

def isFalse : Json → Bool
  | .bool false => true
  | _ => false

def isAllowed (e : String × Json) : Bool :=
  allowedKeys.contains e.1 && !"x-".toList.isPrefixOf e.1.toList && (e.1 ≠ "additionalProperties" || (mode = .response && isFalse e.2))

def namesProperty (properties : Option Json) (name : Json) : Bool :=
  name.asStr.any fun s => (properties.bind fun ps => ps.get s).isSome

/-- Only properties can be required. -/
def cleanRequired : Members :=
  match lookup object "required" with
  | some (.array names) =>
    let kept := names.filter (namesProperty (lookup object "properties"))
    if kept = [] then removeMember "required" object else insertMember "required" (.array kept) object
  | _ => removeMember "required" object

def reasonProperties : Json :=
  .object [("reason", .object [("type", .string "string"),
    ("description", .string "Brief explanation of why you are calling this tool")])]

def hasNoProperties : Bool :=
  match lookup object "properties" with
  | some (.object (_ :: _)) => false
  | _ => true

/-- A tool without properties gets one. -/
def addReason : Members :=
  if mode = .tool ∧ schemaTypeIs object "object" = true ∧ hasNoProperties object = true then
    insertMember "required" (.array [.string "reason"]) (insertMember "properties" reasonProperties object)
  else object

def finishNode : Members :=
  addReason mode (cleanRequired ((cleanEnum text mode (constAsEnum object)).filter (isAllowed mode)))

def nodeMembers : Json → Members
  | .object members => members
  | _ => [("type", .string "string")]

/-- The recursion into a node takes its depth as fuel. -/
def cleanNode : ℕ → Json → Json
  | 0, value => value
  | fuel + 1, value => .object (finishNode text mode (cleanSchemas (cleanNode fuel) (mergeBranches (nodeMembers value))))

def cleanAntigravitySchemaNode (value : Json) : Json := cleanNode text mode (value.depth + 1) value

def rootSchema : Json → Json
  | .object members => .object members
  | _ => .object [("type", .string "object"), ("properties", .object [])]

def inlined (schema : Json) : Json := resolveAntigravityLocalRefs (rootSchema schema) 17 [] (rootSchema schema)

def cleanAntigravitySchema (schema : Json) : Json := cleanAntigravitySchemaNode text mode (inlined schema)

end

end CcSwitchServer.ToolSchema
