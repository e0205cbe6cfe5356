import CcSwitchServer.ToolSchema.Antigravity

/-! # The normal form of cleaned schemas

Every node of a cleaned schema has allowed members only, and cleaning it again changes nothing.
-/

namespace CcSwitchServer.ToolSchema
open Foundations Foundations.Json List Option Json

/-! ## The schemas of a node -/

def propertySchemas (object : Members) : List Json :=
  match lookup object "properties" with
  | some (.object properties) => properties.map Prod.snd
  | _ => []

def childSchemas (object : Members) : List Json := propertySchemas object ++ (lookup object "items").toList

section

variable {object : Members}

theorem normalizeAntigravityTypeArray_eq_self (h : ∀ types, lookup object "type" ≠ some (.array types)) :
    normalizeAntigravityTypeArray object = object := by
  unfold normalizeAntigravityTypeArray
  split
  · rename_i types htypes
    exact absurd htypes (h types)
  · rfl

theorem mergeAntigravityAllOf_eq_self (h : lookup object "allOf" = none) : mergeAntigravityAllOf object = object := by
  unfold mergeAntigravityAllOf
  rw [h, removeMember_eq_self h]
  rfl

theorem projectAntigravityUnion_eq_self {key : String} (h : lookup object key = none) :
    projectAntigravityUnion key object = object := by
  unfold projectAntigravityUnion
  rw [h, removeMember_eq_self h]
  rfl

theorem dropBooleanRequired_eq_self {schema : Json} (h : booleanRequired schema = none) :
    dropBooleanRequired schema = schema := by
  unfold dropBooleanRequired
  split
  · rename_i hsome
    rw [h] at hsome
    cases hsome
  · rfl

theorem promote_eq_self (h : ∀ schema ∈ propertySchemas object, booleanRequired schema = none) :
    promoteBooleanRequiredProperties object = object := by
  unfold propertySchemas at h
  unfold promoteBooleanRequiredProperties
  split
  · rename_i properties hproperties
    rw [hproperties] at h
    have hkept : (properties.map fun e => (e.1, dropBooleanRequired e.2)) = properties := by
      have hsame : ∀ e ∈ properties, (e.1, dropBooleanRequired e.2) = id e := fun e he =>
        Prod.ext rfl (dropBooleanRequired_eq_self (h e.2 (mem_map_of_mem he)))
      rw [List.map_congr_left hsame, List.map_id]
    have hpromoted : (properties.filter fun e => booleanRequired e.2 = some true).map Prod.fst = [] := by
      rw [map_eq_nil_iff, filter_eq_nil_iff]
      intro e he
      rw [h e.2 (mem_map_of_mem he)]
      decide
    rw [hkept, hpromoted, if_pos rfl, insertMember_eq_self hproperties]
  · rfl

theorem mergeBranches_eq_self (htype : ∀ types, lookup object "type" ≠ some (.array types))
    (hbranches : ∀ key ∈ ["allOf", "anyOf", "oneOf"], lookup object key = none)
    (hrequired : ∀ schema ∈ propertySchemas object, booleanRequired schema = none) : mergeBranches object = object := by
  unfold mergeBranches
  rw [normalizeAntigravityTypeArray_eq_self htype, mergeAntigravityAllOf_eq_self (hbranches _ (by decide)),
    projectAntigravityUnion_eq_self (hbranches _ (by decide)),
    projectAntigravityUnion_eq_self (hbranches _ (by decide)), promote_eq_self hrequired]

end

def schemasOf (value : Json) : List Json := childSchemas (mergeBranches (nodeMembers value))

theorem nodeMembers_of_not_object {value : Json} (h : value.isObject = false) :
    nodeMembers value = [("type", .string "string")] := by
  cases value with
  | object _ => cases h
  | _ => rfl

theorem mergeBranches_anyString : mergeBranches [("type", .string "string")] = [("type", .string "string")] := by
  refine mergeBranches_eq_self (fun types h => ?_) (fun key hkey => lookup_eq_none fun e he => ?_) fun schema h => ?_
  · cases h
  · rw [mem_singleton.mp he]
    revert key
    decide
  · cases h

theorem schemasOf_of_not_object {value : Json} (h : value.isObject = false) : schemasOf value = [] := by
  unfold schemasOf
  rw [nodeMembers_of_not_object h, mergeBranches_anyString]
  rfl

section

/-- Nothing but the required names is deeper than `d`. -/
def Shallow (d : ℕ) (object : Members) : Prop := ∀ key v, key ≠ "required" → lookup object key = some v → v.depth ≤ d

variable {d : ℕ} {object : Members}

theorem shallow_of_depth (h : depthMembers object ≤ d) : Shallow d object :=
  fun _ _ _ hv => (depth_le_depthMembers (mem_of_lookup hv)).trans h

theorem Shallow.removeMember (h : Shallow d object) (key : String) : Shallow d (removeMember key object) := by
  intro name v hname hv
  rw [lookup_removeMember] at hv
  split at hv
  · cases hv
  · exact h name v hname hv

variable {key : String} {value : Json} {fields : Members}

theorem Shallow.insertMember (h : Shallow d object) (hvalue : key = "required" ∨ value.depth ≤ d) :
    Shallow d (insertMember key value object) := by
  intro name v hname hv
  rw [lookup_insertMember] at hv
  split at hv
  · rename_i hkey
    rcases hvalue with hrequired | hle
    · exact absurd (hkey.symm.trans hrequired) hname
    · exact some.inj hv ▸ hle
  · exact h name v hname hv

theorem Shallow.orInsert (h : Shallow d object) (hvalue : value.depth ≤ d) :
    Shallow d (orInsert key value object) := by
  intro name v hname hv
  rw [lookup_orInsert] at hv
  split at hv
  · rename_i hkey
    cases hfound : lookup object key with
    | none =>
      rw [hfound, getD_none] at hv
      exact some.inj hv ▸ hvalue
    | some found =>
      rw [hfound, getD_some] at hv
      exact some.inj hv ▸ h name found hname (hkey ▸ hfound)
  · exact h name v hname hv

theorem Shallow.orInsertAll (h : Shallow d object) (hfields : ∀ e ∈ fields, e.2.depth ≤ d) :
    Shallow d (fields.foldl (fun object e => Json.orInsert e.1 e.2 object) object) := by
  induction fields generalizing object with
  | nil => exact h
  | cons e fields ih =>
    exact ih (h.orInsert (hfields e List.mem_cons_self)) fun f hf => hfields f (List.mem_cons_of_mem _ hf)

theorem shallow_normalizeAntigravityTypeArray (h : Shallow d object) :
    Shallow d (normalizeAntigravityTypeArray object) := by
  unfold normalizeAntigravityTypeArray
  split
  · dsimp only
    have htype : ∀ s, Shallow d (insertMember "type" (.string s) object) :=
      fun _ => h.insertMember (.inr (Nat.zero_le d))
    split
    · exact (htype _).insertMember (.inr (Nat.zero_le d))
    · exact htype _
  · exact h

theorem depth_membersOf {v : Json} {e : String × Json} (h : e ∈ membersOf v) : e.2.depth + 1 ≤ v.depth := by
  cases v with
  | object members => exact Nat.succ_le_succ (depth_le_depthMembers h)
  | _ => cases h

theorem depth_arrayItems {v : Json} {found : Option Json} (h : v ∈ arrayItems found) :
    ∃ w, found = some w ∧ v.depth + 1 ≤ w.depth := by
  cases found with
  | none => cases h
  | some w =>
    refine ⟨w, rfl, ?_⟩
    cases w with
    | array values => exact Nat.succ_le_succ (depth_le_depthAll h)
    | _ => cases h

theorem depth_mem_insertAll {members : Members} {n : ℕ} (hmembers : ∀ e ∈ members, e.2.depth ≤ n)
    (hfields : ∀ e ∈ fields, e.2.depth ≤ n) :
    ∀ e ∈ fields.foldl (fun members e => orInsert e.1 e.2 members) members, e.2.depth ≤ n := by
  induction fields generalizing members with
  | nil => exact hmembers
  | cons f fields ih =>
    refine ih ?_ fun e he => hfields e (mem_cons_of_mem _ he)
    intro e he
    rcases mem_orInsert he with he | rfl
    · exact hmembers e he
    · exact hfields f mem_cons_self

theorem shallow_mergeAllOfField (h : Shallow d object) {field : String × Json} (hfield : field.2.depth + 1 ≤ d) :
    Shallow d (mergeAllOfField object field) := by
  unfold mergeAllOfField
  split
  · exact h.insertMember (.inl rfl)
  · split
    · have hempty : (Json.object []).depth ≤ d := le_trans (Nat.succ_le_succ (Nat.zero_le _)) hfield
      have hprops : Shallow d (orInsert "properties" (.object []) object) := h.orInsert hempty
      dsimp only
      split
      · rename_i properties incoming hfound hincoming
        refine hprops.insertMember (.inr ?_)
        have hold := hprops "properties" _ (by decide) hfound
        rw [hincoming] at hfield
        obtain ⟨n, rfl⟩ : ∃ n, d = n + 1 := ⟨d - 1, by omega⟩
        refine Nat.succ_le_succ (depthMembers_le (depth_mem_insertAll (fun e he => ?_) fun e he => ?_))
        · exact (depth_le_depthMembers he).trans (Nat.le_of_succ_le_succ hold)
        · exact (depth_le_depthMembers he).trans (by have := Nat.le_of_succ_le_succ hfield; exact Nat.le_of_succ_le this)
      · exact hprops
    · exact h.orInsert (Nat.le_of_succ_le hfield)

theorem shallow_mergeFields (h : Shallow d object) (hfields : ∀ e ∈ fields, e.2.depth + 1 ≤ d) :
    Shallow d (fields.foldl mergeAllOfField object) := by
  induction fields generalizing object with
  | nil => exact h
  | cons field fields ih =>
    exact ih (shallow_mergeAllOfField h (hfields field mem_cons_self)) fun e he => hfields e (mem_cons_of_mem _ he)

theorem shallow_mergeAntigravityAllOf (h : Shallow d object) : Shallow d (mergeAntigravityAllOf object) := by
  have hbranches : ∀ branch ∈ arrayItems (lookup object "allOf"), ∀ e ∈ membersOf branch, e.2.depth + 1 ≤ d := by
    intro branch hbranch e he
    obtain ⟨w, hw, hdepth⟩ := depth_arrayItems hbranch
    have := depth_membersOf he
    have := h "allOf" w (by decide) hw
    omega
  unfold mergeAntigravityAllOf
  generalize arrayItems (lookup object "allOf") = branches at hbranches ⊢
  have hstart := h.removeMember "allOf"
  generalize removeMember "allOf" object = start at hstart ⊢
  induction branches generalizing start with
  | nil => exact hstart
  | cons branch branches ih =>
    exact ih (fun b hb => hbranches b (mem_cons_of_mem _ hb)) _
      (shallow_mergeFields hstart (hbranches branch mem_cons_self))

theorem maxByRank_mem {branches : List Json} {branch : Json} (h : maxByRank branches = some branch) :
    branch ∈ branches := by
  induction branches with
  | nil => cases h
  | cons first branches ih =>
    rw [maxByRank] at h
    split at h
    · exact some.inj h ▸ mem_cons_self
    · rename_i best hbest
      split at h
      · exact some.inj h ▸ mem_cons_self
      · exact mem_cons_of_mem _ (ih (hbest.trans h))

theorem shallow_projectAntigravityUnion (hkey : key ≠ "required") (h : Shallow d object) :
    Shallow d (projectAntigravityUnion key object) := by
  have hselected : ∀ e ∈ ((maxByRank (arrayItems (lookup object key))).map membersOf).getD [], e.2.depth ≤ d := by
    intro e he
    cases hmax : maxByRank (arrayItems (lookup object key)) with
    | none =>
      rw [hmax] at he
      cases he
    | some branch =>
      rw [hmax] at he
      obtain ⟨w, hw, hdepth⟩ := depth_arrayItems (maxByRank_mem hmax)
      have := depth_membersOf (v := branch) he
      have := h key w hkey hw
      omega
  have hmerged := (h.removeMember key).orInsertAll hselected
  unfold projectAntigravityUnion
  dsimp only
  split
  · exact hmerged.insertMember (.inr (Nat.zero_le d))
  · exact hmerged

theorem depth_dropBooleanRequired (schema : Json) : (dropBooleanRequired schema).depth ≤ schema.depth := by
  unfold dropBooleanRequired
  split
  · exact Nat.succ_le_succ (depthMembers_le fun e he => depth_le_depthMembers (mem_of_mem_filter he))
  · exact le_rfl

theorem shallow_promote (h : Shallow d object) : Shallow d (promoteBooleanRequiredProperties object) := by
  unfold promoteBooleanRequiredProperties
  split
  · rename_i properties hproperties
    have hold := h "properties" _ (by decide) hproperties
    have hmapped : (Json.object (properties.map fun e => (e.1, dropBooleanRequired e.2))).depth ≤ d := by
      refine le_trans (Nat.succ_le_succ (depthMembers_le fun e he => ?_)) hold
      obtain ⟨f, hf, rfl⟩ := mem_map.mp he
      exact (depth_dropBooleanRequired f.2).trans (depth_le_depthMembers hf)
    dsimp only
    split
    · exact h.insertMember (.inr hmapped)
    · exact (h.insertMember (.inr hmapped)).insertMember (.inl rfl)
  · exact h

theorem shallow_mergeBranches (h : Shallow d object) : Shallow d (mergeBranches object) :=
  shallow_promote (shallow_projectAntigravityUnion (by decide) (shallow_projectAntigravityUnion (by decide)
    (shallow_mergeAntigravityAllOf (shallow_normalizeAntigravityTypeArray h))))

theorem depth_childSchemas (h : Shallow d object) {child : Json} (hchild : child ∈ childSchemas object) :
    child.depth ≤ d := by
  rcases mem_append.mp hchild with hchild | hchild
  · unfold propertySchemas at hchild
    split at hchild
    · rename_i properties hproperties
      obtain ⟨e, he, rfl⟩ := mem_map.mp hchild
      exact (depth_le_depthMembers he).trans (Nat.le_of_succ_le (h "properties" _ (by decide) hproperties))
    · cases hchild
  · exact h "items" child (by decide) (mem_toList.mp hchild)

theorem depth_schemasOf {child : Json} (h : child ∈ schemasOf value) : child.depth < value.depth := by
  cases value with
  | object members => exact Nat.lt_succ_of_le (depth_childSchemas (shallow_mergeBranches (shallow_of_depth le_rfl)) h)
  | _ => exact absurd h (by rw [schemasOf_of_not_object rfl]; exact not_mem_nil)

end

/-! ## The recursion -/

section

variable {text : Json → String} {mode : AntigravitySchemaMode} {object : Members} {f g : Json → Json}

theorem mapValues_congr {v : Json} (h : ∀ members, v = .object members → ∀ e ∈ members, f e.2 = g e.2) :
    mapValues f v = mapValues g v := by
  cases v with
  | object members =>
    exact congrArg object (map_congr_left fun e he => Prod.ext rfl (h members rfl e he))
  | _ => rfl

theorem mem_propertySchemas {members : Members} (h : lookup object "properties" = some (.object members))
    {e : String × Json} (he : e ∈ members) : e.2 ∈ childSchemas object := by
  refine mem_append_left _ ?_
  unfold propertySchemas
  rw [h]
  exact mem_map_of_mem he

theorem mem_childSchemas_items {v : Json} (h : lookup object "items" = some v) : v ∈ childSchemas object :=
  mem_append_right _ (mem_toList.mpr h)

theorem cleanSchemas_congr (h : ∀ child ∈ childSchemas object, f child = g child) :
    cleanSchemas f object = cleanSchemas g object := by
  have hproperties : updateMember "properties" (mapValues f) object = updateMember "properties" (mapValues g) object :=
    updateMember_congr fun v hv => mapValues_congr fun members hmembers e he =>
      h e.2 (mem_propertySchemas (hmembers ▸ hv) he)
  unfold cleanSchemas
  rw [hproperties]
  dsimp only
  split
  · refine updateMember_congr fun v hv => h v (mem_childSchemas_items ?_)
    rwa [lookup_updateMember, if_neg (by decide)] at hv
  · rfl

theorem cleanNode_fuel (n : ℕ) {value : Json} {m : ℕ} (hn : value.depth < n) (hm : value.depth < m) :
    cleanNode text mode n value = cleanNode text mode m value := by
  induction n generalizing value m with
  | zero => exact absurd hn (Nat.not_lt_zero _)
  | succ n ih =>
    cases m with
    | zero => exact absurd hm (Nat.not_lt_zero _)
    | succ m =>
      rw [cleanNode, cleanNode]
      refine congrArg (fun o => object (finishNode text mode o)) (cleanSchemas_congr fun child hchild => ?_)
      have : child.depth < value.depth := depth_schemasOf hchild
      exact ih (by omega) (by omega)

theorem clean_eq (value : Json) : cleanAntigravitySchemaNode text mode value =
    .object (finishNode text mode (cleanSchemas (cleanAntigravitySchemaNode text mode)
      (mergeBranches (nodeMembers value)))) := by
  rw [cleanAntigravitySchemaNode, cleanNode]
  refine congrArg (fun o => object (finishNode text mode o)) (cleanSchemas_congr fun child hchild => ?_)
  exact cleanNode_fuel _ (depth_schemasOf hchild) (Nat.lt_succ_self _)

theorem schema_induction {P : Json → Prop} (step : ∀ value, (∀ child ∈ schemasOf value, P child) → P value)
    (value : Json) : P value := by
  induction hd : value.depth using Nat.strong_induction_on generalizing value with
  | _ d ih => exact step value fun child hchild => ih child.depth (hd ▸ depth_schemasOf hchild) child rfl

end

/-! ## What the rules for a node change -/

section

variable {text : Json → String} {mode : AntigravitySchemaMode} {object : Members} {clean : Json → Json} {key : String}

theorem schemaTypeIs_congr {object object' : Members} (h : lookup object "type" = lookup object' "type")
    (expected : String) : schemaTypeIs object expected = schemaTypeIs object' expected := by
  unfold schemaTypeIs
  rw [h]

theorem lookup_cleanSchemas (hproperties : key ≠ "properties") (hitems : key ≠ "items") :
    lookup (cleanSchemas clean object) key = lookup object key := by
  unfold cleanSchemas
  dsimp only
  split
  · rw [lookup_updateMember, if_neg hitems.symm, lookup_updateMember, if_neg hproperties.symm]
  · split
    · rw [lookup_insertMember, if_neg hitems.symm, lookup_updateMember, if_neg hproperties.symm]
    · rw [lookup_updateMember, if_neg hproperties.symm]

theorem properties_cleanSchemas :
    lookup (cleanSchemas clean object) "properties" = (lookup object "properties").map (mapValues clean) := by
  unfold cleanSchemas
  dsimp only
  split
  · rw [lookup_updateMember, if_neg (by decide), lookup_updateMember, if_pos rfl]
  · split
    · rw [lookup_insertMember, if_neg (by decide), lookup_updateMember, if_pos rfl]
    · rw [lookup_updateMember, if_pos rfl]

theorem items_cleanSchemas : lookup (cleanSchemas clean object) "items" =
    ((lookup object "items").map clean).or (if schemaTypeIs object "array" then some anyString else none) := by
  have hitems : lookup (updateMember "properties" (mapValues clean) object) "items" = lookup object "items" := by
    rw [lookup_updateMember, if_neg (by decide)]
  have htype : schemaTypeIs (updateMember "properties" (mapValues clean) object) "array" = schemaTypeIs object "array" :=
    schemaTypeIs_congr (by rw [lookup_updateMember, if_neg (by decide)]) _
  unfold cleanSchemas
  dsimp only
  rw [hitems, htype]
  cases hfound : lookup object "items" with
  | some v => rw [isSome_some, if_pos rfl, lookup_updateMember, if_pos rfl, hitems, hfound]; rfl
  | none =>
    rw [isSome_none, if_neg Bool.false_ne_true, map_none, none_or]
    split
    · rw [lookup_insertMember, if_pos rfl]
    · rw [hitems, hfound]

theorem lookup_constAsEnum (hconst : key ≠ "const") (henum : key ≠ "enum") :
    lookup (constAsEnum object) key = lookup object key := by
  unfold constAsEnum
  split
  · rw [lookup_orInsert, if_neg henum.symm, lookup_removeMember, if_neg hconst.symm]
  · rfl

theorem lookup_cleanEnum (henum : key ≠ "enum") : lookup (cleanEnum text mode object) key = lookup object key := by
  unfold cleanEnum
  split
  · split
    · rw [lookup_removeMember, if_neg henum.symm]
    · rw [lookup_insertMember, if_neg henum.symm]
  · rfl

def retained (text : Json → String) (mode : AntigravitySchemaMode) (object : Members) : Members :=
  (cleanEnum text mode (constAsEnum object)).filter (isAllowed mode)

theorem isAllowed_of_key (hkey : key ∈ ["type", "properties", "items", "required", "description", "enum", "nullable"])
    (v : Json) : isAllowed mode (key, v) = true := by
  have hall : ∀ key ∈ ["type", "properties", "items", "required", "description", "enum", "nullable"],
      allowedKeys.contains key = true ∧ "x-".toList.isPrefixOf key.toList = false ∧ key ≠ "additionalProperties" := by
    decide
  obtain ⟨hallowed, hprivate, hne⟩ := hall key hkey
  unfold isAllowed
  rw [hallowed, hprivate, decide_eq_true hne]
  rfl

theorem lookup_retained (hkey : key ∈ ["type", "properties", "items", "required", "description", "nullable"]) :
    lookup (retained text mode object) key = lookup object key := by
  have hsub : key ∈ ["type", "properties", "items", "required", "description", "enum", "nullable"] := by
    revert key
    decide
  have hne : key ≠ "const" ∧ key ≠ "enum" := by
    revert key
    decide
  unfold retained
  rw [lookup_filter (isAllowed_of_key hsub), if_pos rfl, lookup_cleanEnum hne.2, lookup_constAsEnum hne.1 hne.2]

theorem lookup_cleanRequired (hkey : key ≠ "required") : lookup (cleanRequired object) key = lookup object key := by
  unfold cleanRequired
  split
  · dsimp only
    split
    · rw [lookup_removeMember, if_neg hkey.symm]
    · rw [lookup_insertMember, if_neg hkey.symm]
  · rw [lookup_removeMember, if_neg hkey.symm]

theorem required_cleanRequired {v : Json} (h : lookup (cleanRequired object) "required" = some v) :
    ∃ names, v = .array names ∧ names ≠ [] ∧ ∀ name ∈ names, namesProperty (lookup object "properties") name = true := by
  unfold cleanRequired at h
  split at h
  · dsimp only at h
    split at h
    · rw [lookup_removeMember, if_pos rfl] at h
      cases h
    · rename_i hkept
      rw [lookup_insertMember, if_pos rfl] at h
      exact ⟨_, (some.inj h).symm, hkept, fun name hname => (mem_filter.mp hname).2⟩
  · rw [lookup_removeMember, if_pos rfl] at h
    cases h

theorem enum_retained {values : List Json} (h : lookup (retained text mode object) "enum" = some (.array values)) :
    mode ≠ .tool ∧ ∀ v ∈ values, ∃ s, v = .string s := by
  unfold retained at h
  rw [lookup_filter (isAllowed_of_key (by decide)), if_pos rfl] at h
  unfold cleanEnum at h
  split at h
  · split at h
    · rw [lookup_removeMember, if_pos rfl] at h
      cases h
    · rename_i hmode
      push Not at hmode
      rw [lookup_insertMember, if_pos rfl] at h
      obtain rfl := array.inj (some.inj h)
      refine ⟨hmode.1, fun v hv => ?_⟩
      obtain ⟨w, _, rfl⟩ := mem_map.mp hv
      cases w <;> exact ⟨_, rfl⟩
  · rename_i hnot
    exact absurd h (hnot values)

def NeedsReason (mode : AntigravitySchemaMode) (object : Members) : Prop :=
  mode = .tool ∧ schemaTypeIs object "object" = true ∧ hasNoProperties object = true

instance (mode : AntigravitySchemaMode) (object : Members) : Decidable (NeedsReason mode object) :=
  inferInstanceAs (Decidable (mode = .tool ∧ schemaTypeIs object "object" = true ∧ hasNoProperties object = true))

theorem hasNoProperties_mapValues {object object' : Members}
    (h : lookup object' "properties" = (lookup object "properties").map (mapValues clean)) :
    hasNoProperties object' = hasNoProperties object := by
  unfold hasNoProperties
  rw [h]
  cases lookup object "properties" with
  | none => rfl
  | some v =>
    cases v with
    | object members => cases members <;> rfl
    | _ => rfl

def beforeReason (text : Json → String) (mode : AntigravitySchemaMode) (clean : Json → Json) (object : Members) :
    Members :=
  cleanRequired (retained text mode (cleanSchemas clean object))

theorem type_beforeReason : lookup (beforeReason text mode clean object) "type" = lookup object "type" := by
  unfold beforeReason
  rw [lookup_cleanRequired (by decide), lookup_retained (by decide), lookup_cleanSchemas (by decide) (by decide)]

theorem properties_beforeReason : lookup (beforeReason text mode clean object) "properties" =
    (lookup object "properties").map (mapValues clean) := by
  unfold beforeReason
  rw [lookup_cleanRequired (by decide), lookup_retained (by decide), properties_cleanSchemas]

theorem items_beforeReason : lookup (beforeReason text mode clean object) "items" =
    ((lookup object "items").map clean).or (if schemaTypeIs object "array" then some anyString else none) := by
  unfold beforeReason
  rw [lookup_cleanRequired (by decide), lookup_retained (by decide), items_cleanSchemas]

def cleaned (text : Json → String) (mode : AntigravitySchemaMode) (clean : Json → Json) (object : Members) : Members :=
  finishNode text mode (cleanSchemas clean object)

theorem cleaned_eq : cleaned text mode clean object =
    if NeedsReason mode object then
      insertMember "required" (.array [.string "reason"])
        (insertMember "properties" reasonProperties (beforeReason text mode clean object))
    else beforeReason text mode clean object := by
  have hneeds : NeedsReason mode (beforeReason text mode clean object) ↔ NeedsReason mode object := by
    unfold NeedsReason
    rw [schemaTypeIs_congr type_beforeReason, hasNoProperties_mapValues properties_beforeReason]
  change (if NeedsReason mode (beforeReason text mode clean object) then _ else _) = _
  by_cases h : NeedsReason mode object
  · rw [if_pos h, if_pos (hneeds.mpr h)]
    rfl
  · rw [if_neg h, if_neg (mt hneeds.mp h)]
    rfl

theorem lookup_cleaned (hproperties : key ≠ "properties") (hrequired : key ≠ "required") :
    lookup (cleaned text mode clean object) key = lookup (beforeReason text mode clean object) key := by
  rw [cleaned_eq]
  split
  · rw [lookup_insertMember, if_neg hrequired.symm, lookup_insertMember, if_neg hproperties.symm]
  · rfl

theorem properties_cleaned : lookup (cleaned text mode clean object) "properties" =
    if NeedsReason mode object then some reasonProperties
    else (lookup object "properties").map (mapValues clean) := by
  rw [cleaned_eq]
  split
  · rw [lookup_insertMember, if_neg (by decide), lookup_insertMember, if_pos rfl]
  · exact properties_beforeReason

theorem mem_cleanRequired {e : String × Json} (h : e ∈ cleanRequired object) : e ∈ object ∨ e.1 = "required" := by
  unfold cleanRequired at h
  split at h
  · dsimp only at h
    split at h
    · exact .inl (mem_of_mem_filter h)
    · exact (mem_insertMember h).imp_right fun heq => by rw [heq]
  · exact .inl (mem_of_mem_filter h)

theorem allowed_cleaned {e : String × Json} (h : e ∈ cleaned text mode clean object) : isAllowed mode e = true := by
  have hkey : ∀ e : String × Json, e.1 = "required" ∨ e.1 = "properties" → isAllowed mode e = true := by
    rintro ⟨name, v⟩ (rfl | rfl)
    · exact isAllowed_of_key (by decide) v
    · exact isAllowed_of_key (by decide) v
  have hbefore : ∀ e ∈ beforeReason text mode clean object, isAllowed mode e = true := by
    intro e he
    rcases mem_cleanRequired he with he | he
    · exact (mem_filter.mp he).2
    · exact hkey e (.inl he)
  rw [cleaned_eq] at h
  split at h
  · rcases mem_insertMember h with h | rfl
    · rcases mem_insertMember h with h | rfl
      · exact hbefore e h
      · exact hkey _ (.inr rfl)
    · exact hkey _ (.inl rfl)
  · exact hbefore e h

theorem required_cleaned {v : Json} (h : lookup (cleaned text mode clean object) "required" = some v) :
    ∃ names, v = .array names ∧ names ≠ [] ∧
      ∀ name ∈ names, namesProperty (lookup (cleaned text mode clean object) "properties") name = true := by
  rw [properties_cleaned]
  rw [cleaned_eq] at h
  split at h
  · rename_i hneeds
    rw [lookup_insertMember, if_pos rfl] at h
    rw [if_pos hneeds]
    refine ⟨_, (some.inj h).symm, cons_ne_nil _ _, fun name hname => ?_⟩
    rw [mem_singleton.mp hname]
    rfl
  · rename_i hneeds
    rw [if_neg hneeds, ← @properties_beforeReason text mode]
    unfold beforeReason
    rw [lookup_cleanRequired (by decide)]
    exact required_cleanRequired h

end

/-! ## Normal forms -/

/-- A tree of objects whose nodes are as `P` says. -/
inductive SchemaTree (P : Members → Prop) : Json → Prop
  | node {members : Members} (hnode : P members) (hchildren : ∀ child ∈ childSchemas members, SchemaTree P child) :
      SchemaTree P (.object members)

theorem SchemaTree.imp {P Q : Members → Prop} (h : ∀ members, P members → Q members) {schema : Json}
    (hschema : SchemaTree P schema) : SchemaTree Q schema := by
  induction hschema with
  | node hnode _ ih => exact .node (h _ hnode) ih

/-- The normal form of a node. -/
structure NodeNormal (mode : AntigravitySchemaMode) (members : Members) : Prop where
  allowed : ∀ e ∈ members, isAllowed mode e = true
  type : ∀ v, lookup members "type" = some v → ∃ s, v = .string s
  properties : ∀ v, lookup members "properties" = some v → ∃ ps, v = .object ps
  required : ∀ v, lookup members "required" = some v → ∃ names, v = .array names ∧ names ≠ [] ∧
    ∀ name ∈ names, namesProperty (lookup members "properties") name = true
  items : schemaTypeIs members "array" = true → (lookup members "items").isSome

/-- What else is true of the nodes of cleaned schemas. -/
structure NodeClean (mode : AntigravitySchemaMode) (members : Members) : Prop extends NodeNormal mode members where
  enum : ∀ values, lookup members "enum" = some (.array values) → mode ≠ .tool ∧ ∀ v ∈ values, ∃ s, v = .string s
  reason : ¬NeedsReason mode members

/-- The type is a text and the properties are an object. -/
def MergedTyped (mode : AntigravitySchemaMode) (object : Members) : Prop :=
  (∀ v, lookup object "type" = some v → ∃ s, v = .string s) ∧
    ∀ v, lookup object "properties" = some v →
      (∃ ps, v = .object ps) ∨ (mode = .tool ∧ schemaTypeIs object "object" = true)

/-! ## What a node takes from its branches -/

section

/-- The member of a node, or else of the first branch of its `allOf` that has one. -/
def withAllOf (members : Members) (key : String) : Option Json :=
  (lookup members key).or ((arrayItems (lookup members "allOf")).findSome? fun branch => lookup (membersOf branch) key)

def chosenBranch (union : Option Json) : Members := ((maxByRank (arrayItems union)).map membersOf).getD []

/-- The same, or else the member of the chosen branch of its `anyOf`. -/
def withAnyOf (members : Members) (key : String) : Option Json :=
  (withAllOf members key).or (lookup (chosenBranch (withAllOf members "anyOf")) key)

/-- The same, or else the member of the chosen branch of its `oneOf`. -/
def inherited (members : Members) (key : String) : Option Json :=
  (withAnyOf members key).or (lookup (chosenBranch (withAnyOf members "oneOf")) key)

/-- Is there a branch of `allOf` that has properties? -/
def allOfProperties (members : Members) : Bool :=
  (arrayItems (lookup members "allOf")).any fun branch => (lookup (membersOf branch) "properties").isSome

/-- The type that a node has or inherits is a text; its properties are an object, of its own or merged from `allOf`
or inherited, or are replaced since it is an object of a tool. -/
def NodeTyped (mode : AntigravitySchemaMode) (members : Members) : Prop :=
  (∀ v, inherited members "type" = some v → ∃ s, v = .string s) ∧
    ∀ v, inherited members "properties" = some v → v.isObject = true ∨
      (lookup members "properties" = none ∧ allOfProperties members = true) ∨
      (mode = .tool ∧ ∃ s, inherited members "type" = some (.string s) ∧ Text.eqIgnoreAsciiCase s "object" = true)

/-- This is so for all nodes that the cleaning goes into, lists of types apart. -/
inductive Typed (mode : AntigravitySchemaMode) : Json → Prop
  | node {value : Json} (hnode : NodeTyped mode (normalizeAntigravityTypeArray (nodeMembers value)))
      (hchildren : ∀ child ∈ schemasOf value, Typed mode child) : Typed mode value

variable {object members : Members} {key : String} {mode : AntigravitySchemaMode}

theorem lookup_orInsertAll (object fields : Members) (key : String) :
    lookup (fields.foldl (fun object e => orInsert e.1 e.2 object) object) key =
      (lookup object key).or (lookup fields key) := by
  induction fields generalizing object with
  | nil => exact or_none.symm
  | cons e fields ih =>
    rw [foldl_cons, ih, lookup_orInsert, lookup_cons]
    split
    · rename_i hkey
      rw [← hkey]
      cases lookup object e.1 <;> rfl
    · rfl

theorem lookup_projectAntigravityUnion {union : String} (hunion : key ≠ union) (hnullable : key ≠ "nullable") :
    lookup (projectAntigravityUnion union object) key =
      (lookup object key).or (lookup (chosenBranch (lookup object union)) key) := by
  have hmerged : lookup ((chosenBranch (lookup object union)).foldl (fun object e => orInsert e.1 e.2 object)
      (removeMember union object)) key = (lookup object key).or (lookup (chosenBranch (lookup object union)) key) := by
    rw [lookup_orInsertAll, lookup_removeMember, if_neg hunion.symm]
  unfold projectAntigravityUnion
  dsimp only
  split
  · rw [lookup_insertMember, if_neg hnullable.symm]
    exact hmerged
  · exact hmerged

section
variable (hrequired : key ≠ "required")
include hrequired

variable (hproperties : key ≠ "properties")
include hproperties

theorem lookup_mergeAllOfField {field : String × Json} :
    lookup (mergeAllOfField object field) key =
      (lookup object key).or (if field.1 = key then some field.2 else none) := by
  unfold mergeAllOfField
  split
  · rename_i hfield
    rw [lookup_insertMember, if_neg hrequired.symm, if_neg fun h => hrequired (h.symm.trans hfield), or_none]
  · split
    · rename_i hfield
      rw [if_neg fun h => hproperties (h.symm.trans hfield), or_none]
      dsimp only
      split
      · rw [lookup_insertMember, if_neg hproperties.symm, lookup_orInsert, if_neg hproperties.symm]
      · rw [lookup_orInsert, if_neg hproperties.symm]
    · rw [lookup_orInsert]
      split
      · rename_i hkey
        rw [hkey]
        cases lookup object key <;> rfl
      · rw [or_none]

theorem lookup_mergeFields {fields : Members} :
    lookup (fields.foldl mergeAllOfField object) key = (lookup object key).or (lookup fields key) := by
  induction fields generalizing object with
  | nil => exact or_none.symm
  | cons field fields ih =>
    rw [foldl_cons, ih, lookup_mergeAllOfField hrequired hproperties, lookup_cons]
    split
    · cases lookup object key <;> rfl
    · rw [or_none]

theorem lookup_mergeAntigravityAllOf
    (hallOf : key ≠ "allOf") : lookup (mergeAntigravityAllOf object) key = withAllOf object key := by
  have hfold : ∀ (branches : List Json) (start : Members),
      lookup (branches.foldl (fun object branch => (membersOf branch).foldl mergeAllOfField object) start) key =
        (lookup start key).or (branches.findSome? fun branch => lookup (membersOf branch) key) := by
    intro branches
    induction branches with
    | nil => exact fun start => or_none.symm
    | cons branch branches ih =>
      intro start
      rw [List.foldl_cons, ih, lookup_mergeFields hrequired hproperties, List.findSome?_cons, Option.or_assoc]
      cases lookup (membersOf branch) key <;> rfl
  unfold mergeAntigravityAllOf withAllOf
  rw [hfold, lookup_removeMember, if_neg hallOf.symm]

theorem lookup_promote :
    lookup (promoteBooleanRequiredProperties object) key = lookup object key := by
  unfold promoteBooleanRequiredProperties
  split
  · dsimp only
    split
    · rw [lookup_insertMember, if_neg hproperties.symm]
    · rw [lookup_insertMember, if_neg hrequired.symm, lookup_insertMember, if_neg hproperties.symm]
  · rfl

end

def projected (members : Members) : Members :=
  projectAntigravityUnion "oneOf" (projectAntigravityUnion "anyOf" (mergeAntigravityAllOf members))

theorem lookup_projected (hkey : key ∉ ["anyOf", "oneOf", "nullable"]) :
    lookup (projected members) key = ((lookup (mergeAntigravityAllOf members) key).or
      (lookup (chosenBranch (withAllOf members "anyOf")) key)).or
        (lookup (chosenBranch (withAnyOf members "oneOf")) key) := by
  simp only [mem_cons, not_mem_nil, or_false, not_or] at hkey
  have hanyOf : lookup (mergeAntigravityAllOf members) "anyOf" = withAllOf members "anyOf" :=
    lookup_mergeAntigravityAllOf (by decide) (by decide) (by decide)
  have honeOf : lookup (projectAntigravityUnion "anyOf" (mergeAntigravityAllOf members)) "oneOf" =
      withAnyOf members "oneOf" := by
    rw [lookup_projectAntigravityUnion (by decide) (by decide), hanyOf,
      lookup_mergeAntigravityAllOf (by decide) (by decide) (by decide)]
    rfl
  unfold projected
  rw [lookup_projectAntigravityUnion hkey.2.1 hkey.2.2, honeOf, lookup_projectAntigravityUnion hkey.1 hkey.2.2, hanyOf]

theorem type_merged : lookup (promoteBooleanRequiredProperties (projected members)) "type" = inherited members "type" := by
  rw [lookup_promote (by decide) (by decide), lookup_projected (by decide),
    lookup_mergeAntigravityAllOf (by decide) (by decide) (by decide)]
  rfl

def propertiesKind (object : Members) : Option Bool := (lookup object "properties").map isObject

theorem propertiesKind_mergeAllOfField (object : Members) (field : String × Json) :
    propertiesKind (mergeAllOfField object field) =
      (propertiesKind object).or (if field.1 = "properties" then some true else none) := by
  unfold mergeAllOfField propertiesKind
  split
  · rename_i hfield
    rw [lookup_insertMember, if_neg (by decide), if_neg (by rw [hfield]; decide), or_none]
  · split
    · have hfound := lookup_orInsert "properties" "properties" (Json.object []) object
      rw [if_pos rfl] at hfound
      dsimp only
      split
      · rename_i properties incoming hproperties _
        rw [lookup_insertMember, if_pos rfl]
        rw [hproperties] at hfound
        cases hown : lookup object "properties" with
        | none => rfl
        | some w =>
          rw [hown, getD_some] at hfound
          rw [← some.inj hfound]
          rfl
      · rw [hfound]
        cases lookup object "properties" <;> rfl
    · rename_i hfield
      rw [lookup_orInsert, if_neg hfield, or_none]

theorem propertiesKind_mergeFields (object fields : Members) :
    propertiesKind (fields.foldl mergeAllOfField object) =
      (propertiesKind object).or (if (lookup fields "properties").isSome then some true else none) := by
  induction fields generalizing object with
  | nil => exact or_none.symm
  | cons field fields ih =>
    rw [List.foldl_cons, ih, propertiesKind_mergeAllOfField, lookup_cons, Option.or_assoc]
    split
    · rfl
    · rw [none_or]

theorem propertiesKind_mergeAntigravityAllOf (members : Members) :
    propertiesKind (mergeAntigravityAllOf members) =
      (propertiesKind members).or (if allOfProperties members then some true else none) := by
  have hfold : ∀ (branches : List Json) (start : Members),
      propertiesKind (branches.foldl (fun object branch => (membersOf branch).foldl mergeAllOfField object) start) =
        (propertiesKind start).or (if branches.any fun branch => (lookup (membersOf branch) "properties").isSome then
          some true else none) := by
    intro branches
    induction branches with
    | nil => exact fun start => or_none.symm
    | cons branch branches ih =>
      intro start
      rw [List.foldl_cons, ih, propertiesKind_mergeFields, List.any_cons, Option.or_assoc]
      cases (lookup (membersOf branch) "properties").isSome <;> rfl
  unfold mergeAntigravityAllOf allOfProperties
  rw [hfold]
  unfold propertiesKind
  rw [lookup_removeMember, if_neg (by decide)]

theorem propertiesKind_promote (object : Members) :
    propertiesKind (promoteBooleanRequiredProperties object) = propertiesKind object := by
  unfold promoteBooleanRequiredProperties propertiesKind
  split
  · rename_i properties hproperties
    dsimp only
    split
    · rw [lookup_insertMember, if_pos rfl, hproperties]
      rfl
    · rw [lookup_insertMember, if_neg (by decide), lookup_insertMember, if_pos rfl, hproperties]
      rfl
  · rfl

theorem propertiesKind_merged (members : Members) :
    propertiesKind (promoteBooleanRequiredProperties (projected members)) =
      if lookup members "properties" = none ∧ allOfProperties members = true then some true
      else (inherited members "properties").map isObject := by
  have hmerged := propertiesKind_mergeAntigravityAllOf members
  have hprojected : propertiesKind (projected members) =
      ((propertiesKind (mergeAntigravityAllOf members)).or
        ((lookup (chosenBranch (withAllOf members "anyOf")) "properties").map isObject)).or
          ((lookup (chosenBranch (withAnyOf members "oneOf")) "properties").map isObject) := by
    unfold propertiesKind
    rw [lookup_projected (by decide), Option.map_or, Option.map_or]
  have hinherited : (inherited members "properties").map isObject =
      (((lookup members "properties").or ((arrayItems (lookup members "allOf")).findSome? fun branch =>
        lookup (membersOf branch) "properties")).map isObject).or
        (((lookup (chosenBranch (withAllOf members "anyOf")) "properties").map isObject).or
          ((lookup (chosenBranch (withAnyOf members "oneOf")) "properties").map isObject)) := by
    unfold inherited withAnyOf
    rw [Option.map_or, Option.map_or, Option.or_assoc]
    rfl
  rw [propertiesKind_promote, hprojected, hinherited, hmerged, Option.or_assoc]
  unfold propertiesKind
  cases hown : lookup members "properties" with
  | some w =>
    have hcond : ¬(some w = none ∧ allOfProperties members = true) := fun h => nomatch h.1
    rw [if_neg hcond]
    rfl
  | none =>
    cases hall : allOfProperties members with
    | true => rfl
    | false =>
      have hnone : ((arrayItems (lookup members "allOf")).findSome? fun branch =>
          lookup (membersOf branch) "properties") = none := by
        refine List.findSome?_eq_none_iff.mpr fun branch hbranch => ?_
        exact Option.not_isSome_iff_eq_none.mp (List.any_eq_false.mp hall branch hbranch)
      have hcond : ¬((none : Option Json) = none ∧ false = true) := fun h => nomatch h.2
      rw [if_neg hcond, hnone]
      rfl

theorem isObject_iff {v : Json} : v.isObject = true ↔ ∃ ps, v = .object ps := by
  cases v with
  | object ps => exact ⟨fun _ => ⟨ps, rfl⟩, fun _ => rfl⟩
  | _ => exact ⟨fun h => (nomatch h), fun ⟨_, h⟩ => (nomatch h)⟩

theorem schemaTypeIs_iff {expected : String} : schemaTypeIs object expected = true ↔
    ∃ s, lookup object "type" = some (.string s) ∧ Text.eqIgnoreAsciiCase s expected = true := by
  unfold schemaTypeIs
  cases lookup object "type" with
  | none => simp
  | some v => cases v <;> simp [asStr]

theorem nodeTyped_iff {members : Members} : NodeTyped mode (normalizeAntigravityTypeArray members) ↔
    MergedTyped mode (mergeBranches members) := by
  change NodeTyped mode (normalizeAntigravityTypeArray members) ↔
    MergedTyped mode (promoteBooleanRequiredProperties (projected (normalizeAntigravityTypeArray members)))
  generalize normalizeAntigravityTypeArray members = own
  have hkind := propertiesKind_merged own
  unfold NodeTyped MergedTyped
  rw [type_merged, schemaTypeIs_iff, type_merged]
  refine and_congr_right fun _ => ⟨fun h v hv => ?_, fun h v hv => ?_⟩
  · unfold propertiesKind at hkind
    rw [hv, map_some] at hkind
    rw [← isObject_iff]
    split at hkind
    · exact .inl (some.inj hkind)
    · rename_i hnot
      obtain ⟨w, hw, hsame⟩ := map_eq_some_iff.mp hkind.symm
      rcases h w hw with hobject | hmerged | hreason
      · exact .inl (hsame.symm.trans hobject)
      · exact absurd hmerged hnot
      · exact .inr hreason
  · by_cases hmerged : lookup own "properties" = none ∧ allOfProperties own = true
    · exact .inr (.inl hmerged)
    · rw [if_neg hmerged, hv, map_some] at hkind
      obtain ⟨w, hw, hsame⟩ := map_eq_some_iff.mp hkind
      rcases h w hw with hobject | hreason
      · exact .inl (hsame.symm.trans (isObject_iff.mpr hobject))
      · exact .inr (.inr hreason)

end

section

variable {text : Json → String} {mode : AntigravitySchemaMode} {object : Members} {clean : Json → Json}

/-- A cleaned node has allowed members only. -/
theorem nodeClean_cleaned (h : MergedTyped mode object) : NodeClean mode (cleaned text mode clean object) where
  allowed := fun _ he => allowed_cleaned he
  type := by
    rw [lookup_cleaned (by decide) (by decide), type_beforeReason]
    exact h.1
  properties := by
    intro v hv
    rw [properties_cleaned] at hv
    split at hv
    · exact ⟨_, (some.inj hv).symm⟩
    · rename_i hneeds
      obtain ⟨w, hw, rfl⟩ := map_eq_some_iff.mp hv
      rcases h.2 w hw with ⟨ps, rfl⟩ | ⟨hmode, htype⟩
      · exact ⟨_, rfl⟩
      · cases w with
        | object ps => exact ⟨_, rfl⟩
        | _ => exact absurd ⟨hmode, htype, by unfold hasNoProperties; rw [hw]⟩ hneeds
  required := fun _ hv => required_cleaned hv
  items := by
    intro htype
    have hsame : lookup (cleaned text mode clean object) "type" = lookup object "type" := by
      rw [lookup_cleaned (by decide) (by decide), type_beforeReason]
    rw [schemaTypeIs_congr hsame] at htype
    rw [lookup_cleaned (by decide) (by decide), items_beforeReason, htype, if_pos rfl]
    cases (lookup object "items").map clean <;> rfl
  enum := by
    intro values hvalues
    rw [lookup_cleaned (by decide) (by decide)] at hvalues
    unfold beforeReason at hvalues
    rw [lookup_cleanRequired (by decide)] at hvalues
    exact enum_retained hvalues
  reason := by
    rintro ⟨hmode, htype, hnone⟩
    have hsame : lookup (cleaned text mode clean object) "type" = lookup object "type" := by
      rw [lookup_cleaned (by decide) (by decide), type_beforeReason]
    rw [schemaTypeIs_congr hsame] at htype
    have hproperties := @properties_cleaned text mode object clean
    by_cases hneeds : NeedsReason mode object
    · rw [if_pos hneeds] at hproperties
      unfold hasNoProperties at hnone
      rw [hproperties] at hnone
      exact Bool.false_ne_true hnone
    · rw [if_neg hneeds] at hproperties
      rw [hasNoProperties_mapValues hproperties] at hnone
      exact hneeds ⟨hmode, htype, hnone⟩

variable {child : Json}

theorem mem_propertySchemas_iff :
    child ∈ propertySchemas object ↔
      ∃ ps, lookup object "properties" = some (.object ps) ∧ child ∈ ps.map Prod.snd := by
  unfold propertySchemas
  constructor
  · intro h
    split at h
    · rename_i ps hps
      exact ⟨ps, hps, h⟩
    · cases h
  · rintro ⟨ps, hps, h⟩
    rw [hps]
    exact h

theorem childSchemas_cleaned (h : child ∈ childSchemas (cleaned text mode clean object)) :
    (∃ schema ∈ childSchemas object, child = clean schema) ∨ child = anyString ∨
      child ∈ propertySchemas [("properties", reasonProperties)] := by
  rcases List.mem_append.mp h with h | h
  · obtain ⟨ps, hps, hmem⟩ := mem_propertySchemas_iff.mp h
    rw [properties_cleaned] at hps
    split at hps
    · exact .inr (.inr (mem_propertySchemas_iff.mpr ⟨ps, hps, hmem⟩))
    · obtain ⟨w, hw, hvalues⟩ := Option.map_eq_some_iff.mp hps
      cases w with
      | object members =>
        obtain rfl := Json.object.inj hvalues
        rw [List.map_map] at hmem
        obtain ⟨e, he, rfl⟩ := List.mem_map.mp hmem
        exact .inl ⟨e.2, mem_propertySchemas hw he, rfl⟩
      | _ => cases hvalues
  · have hitems := Option.mem_toList.mp h
    rw [lookup_cleaned (by decide) (by decide), items_beforeReason] at hitems
    rcases Option.or_eq_some_iff.mp hitems with hitems | ⟨_, hitems⟩
    · obtain ⟨w, hw, rfl⟩ := Option.map_eq_some_iff.mp hitems
      exact .inl ⟨w, mem_childSchemas_items hw, rfl⟩
    · split at hitems
      · exact .inr (.inl (Option.some.inj hitems).symm)
      · cases hitems

theorem clean_mem_childSchemas {schema : Json} (h : schema ∈ childSchemas object) :
    clean schema ∈ childSchemas (cleaned text mode clean object) := by
  rcases mem_append.mp h with h | h
  · obtain ⟨ps, hps, hmem⟩ := mem_propertySchemas_iff.mp h
    obtain ⟨e, he, rfl⟩ := mem_map.mp hmem
    have hneeds : ¬NeedsReason mode object := by
      rintro ⟨_, _, hnone⟩
      unfold hasNoProperties at hnone
      rw [hps] at hnone
      cases ps with
      | nil => cases he
      | cons _ _ => exact Bool.false_ne_true hnone
    refine mem_append_left _ (mem_propertySchemas_iff.mpr ⟨ps.map fun e => (e.1, clean e.2), ?_, ?_⟩)
    · rw [properties_cleaned, if_neg hneeds, hps]
      rfl
    · rw [List.map_map]
      exact mem_map.mpr ⟨e, he, rfl⟩
  · have hitems := mem_toList.mp h
    refine mem_childSchemas_items ?_
    rw [lookup_cleaned (by decide) (by decide), items_beforeReason, hitems]
    rfl

theorem nodeClean_text {members : Members} (hkeys : ∀ e ∈ members, e.1 = "type" ∨ e.1 = "description")
    (htype : lookup members "type" = some (.string "string")) : SchemaTree (NodeClean mode) (.object members) := by
  have hnone : ∀ key, key ≠ "type" → key ≠ "description" → lookup members key = none := fun key hne hne' =>
    lookup_eq_none fun e he heq => (hkeys e he).elim (fun h => hne (heq.symm.trans h)) fun h => hne' (heq.symm.trans h)
  have hitems := hnone "items" (by decide) (by decide)
  have hproperties := hnone "properties" (by decide) (by decide)
  have hschemas : childSchemas members = [] := by
    unfold childSchemas propertySchemas
    rw [hitems, hproperties]
    rfl
  have hother : ∀ expected, Text.eqIgnoreAsciiCase "string" expected = false →
      schemaTypeIs members expected = false := by
    intro expected hexpected
    unfold schemaTypeIs
    rw [htype]
    exact hexpected
  refine .node ?_ fun child hchild => by rw [hschemas] at hchild; cases hchild
  exact
    { allowed := fun e he => by
        obtain ⟨name, v⟩ := e
        rcases hkeys _ he with rfl | rfl <;> exact isAllowed_of_key (by decide) v
      type := fun v hv => ⟨"string", some.inj (hv.symm.trans htype)⟩
      properties := fun v hv => by rw [hproperties] at hv; cases hv
      required := fun v hv => by rw [hnone _ (by decide) (by decide)] at hv; cases hv
      items := fun h => by rw [hother "array" (by decide)] at h; cases h
      enum := fun values hv => by rw [hnone _ (by decide) (by decide)] at hv; cases hv
      reason := fun h => by
        have htype := h.2.1
        rw [hother "object" (by decide)] at htype
        cases htype }

theorem anyString_clean : SchemaTree (NodeClean mode) anyString :=
  nodeClean_text (fun _ he => .inl (congrArg Prod.fst (mem_singleton.mp he))) rfl

theorem reason_clean (h : child ∈ propertySchemas [("properties", reasonProperties)]) :
    SchemaTree (NodeClean mode) child := by
  obtain rfl := mem_singleton.mp (show child ∈ [_] from h)
  refine nodeClean_text (fun e he => ?_) rfl
  rcases mem_cons.mp he with rfl | he
  · exact .inl rfl
  · exact .inr (congrArg Prod.fst (mem_singleton.mp he))

theorem clean_of_typed {value : Json} (h : Typed mode value) :
    SchemaTree (NodeClean mode) (cleanAntigravitySchemaNode text mode value) := by
  induction h with
  | @node value hnode _ ih =>
    rw [clean_eq]
    refine .node (nodeClean_cleaned (nodeTyped_iff.mp hnode)) fun child hchild => ?_
    rcases childSchemas_cleaned hchild with ⟨schema, hschema, rfl⟩ | rfl | hreason
    · exact ih schema hschema
    · exact anyString_clean
    · exact reason_clean hreason

theorem typed_of_normal (value : Json) :
    SchemaTree (NodeNormal mode) (cleanAntigravitySchemaNode text mode value) → Typed mode value := by
  refine schema_induction (P := fun value =>
    SchemaTree (NodeNormal mode) (cleanAntigravitySchemaNode text mode value) → Typed mode value) ?_ value
  intro value ih h
  rw [clean_eq] at h
  cases h with
  | node hnode hchildren =>
    refine .node (nodeTyped_iff.mpr ⟨fun v hv => hnode.type v ?_, fun v hv => ?_⟩) fun child hchild =>
      ih child hchild (hchildren _ (clean_mem_childSchemas hchild))
    · change lookup (cleaned text mode _ _) "type" = some v
      rw [lookup_cleaned (by decide) (by decide), type_beforeReason, hv]
    · by_cases hneeds : NeedsReason mode (mergeBranches (nodeMembers value))
      · exact .inr ⟨hneeds.1, hneeds.2.1⟩
      · have hproperties : lookup (cleaned text mode (cleanAntigravitySchemaNode text mode)
            (mergeBranches (nodeMembers value))) "properties" =
            some (mapValues (cleanAntigravitySchemaNode text mode) v) := by
          rw [properties_cleaned, if_neg hneeds, hv]
          rfl
        obtain ⟨ps, hps⟩ := hnode.properties _ hproperties
        cases v with
        | object members => exact .inl ⟨members, rfl⟩
        | _ => cases hps

/-! ## Cleaning again -/

section

variable {members : Members}

theorem NodeNormal.lookup_eq_none (h : NodeNormal mode members) {key : String} (hkey : key ∉ allowedKeys) :
    lookup members key = none := by
  refine Json.lookup_eq_none fun e he heq => ?_
  have hallowed := h.allowed e he
  unfold isAllowed at hallowed
  rw [Bool.and_eq_true, Bool.and_eq_true] at hallowed
  exact hkey (heq ▸ contains_iff_mem.mp hallowed.1.1)

theorem NodeNormal.booleanRequired (h : NodeNormal mode members) : booleanRequired (.object members) = none := by
  unfold ToolSchema.booleanRequired
  rw [get_object]
  cases hrequired : lookup members "required" with
  | none => rfl
  | some v =>
    obtain ⟨names, rfl, _⟩ := h.required v hrequired
    rfl

variable {schema : Json}

theorem SchemaTree.booleanRequired (h : SchemaTree (NodeClean mode) schema) : booleanRequired schema = none := by
  cases h with
  | node hnode _ => exact hnode.toNodeNormal.booleanRequired

theorem mapValues_eq_self {v : Json} (h : ∀ ps, v = .object ps → ∀ e ∈ ps, clean e.2 = e.2) : mapValues clean v = v := by
  cases v with
  | object ps =>
    have hsame : ∀ e ∈ ps, (e.1, clean e.2) = id e := fun e he => Prod.ext rfl (h ps rfl e he)
    exact congrArg object ((map_congr_left hsame).trans (map_id _))
  | _ => rfl

theorem cleanSchemas_eq_self (h : NodeClean mode members)
    (hclean : ∀ child ∈ childSchemas members, clean child = child) :
    cleanSchemas clean members = members := by
  have hproperties : updateMember "properties" (mapValues clean) members = members :=
    updateMember_eq_self fun v hv => mapValues_eq_self fun ps hps e he =>
      hclean e.2 (mem_propertySchemas (hps ▸ hv) he)
  unfold cleanSchemas
  rw [hproperties]
  dsimp only
  split
  · exact updateMember_eq_self fun v hv => hclean v (mem_childSchemas_items hv)
  · rename_i hitems
    rw [if_neg fun htype => hitems (h.items htype)]

/-- A clean node is left as it is. -/
theorem finishNode_eq_self (h : NodeClean mode members) : finishNode text mode members = members := by
  have hconst : constAsEnum members = members := by
    unfold constAsEnum
    rw [h.toNodeNormal.lookup_eq_none (by decide)]
  have henum : cleanEnum text mode members = members := by
    unfold cleanEnum
    split
    · rename_i values hvalues
      obtain ⟨hmode, hstrings⟩ := h.enum values hvalues
      have hbool : values.any isBool = false := by
        refine any_eq_false.mpr fun v hv => ?_
        obtain ⟨s, rfl⟩ := hstrings v hv
        exact Bool.false_ne_true
      have hsame : values.map (enumText text) = values := by
        have hid : ∀ v ∈ values, enumText text v = id v := by
          intro v hv
          obtain ⟨s, rfl⟩ := hstrings v hv
          rfl
        rw [List.map_congr_left hid, List.map_id]
      rw [hbool, if_neg (by simp [hmode]), hsame, insertMember_eq_self hvalues]
    · rfl
  have hallowed : members.filter (isAllowed mode) = members := filter_eq_self.mpr h.allowed
  have hrequired : cleanRequired members = members := by
    unfold cleanRequired
    split
    · rename_i names hnames
      obtain ⟨names', heq, hne, hnamed⟩ := h.required _ hnames
      obtain rfl := array.inj heq
      have hkept : names.filter (namesProperty (lookup members "properties")) = names := filter_eq_self.mpr hnamed
      rw [hkept]
      rw [if_neg hne, insertMember_eq_self hnames]
    · rename_i hnot
      cases hfound : lookup members "required" with
      | none => exact removeMember_eq_self hfound
      | some v =>
        obtain ⟨names, rfl, _⟩ := h.required v hfound
        exact absurd hfound (hnot names)
  unfold finishNode
  rw [hconst, henum, hallowed, hrequired]
  exact if_neg h.reason

theorem clean_eq_self (h : SchemaTree (NodeClean mode) schema) :
    cleanAntigravitySchemaNode text mode schema = schema := by
  induction h with
  | @node members hnode hchildren ih =>
    have hmerged : mergeBranches members = members := by
      refine mergeBranches_eq_self (fun types htypes => ?_) (fun key hkey => ?_) fun schema hschema => ?_
      · obtain ⟨s, hs⟩ := hnode.type _ htypes
        cases hs
      · refine hnode.toNodeNormal.lookup_eq_none ?_
        revert key
        decide
      · exact (hchildren schema (mem_append_left _ hschema)).booleanRequired
    rw [clean_eq]
    change object (finishNode text mode (cleanSchemas _ (mergeBranches members))) = _
    rw [hmerged, cleanSchemas_eq_self hnode ih, finishNode_eq_self hnode]

theorem foldl_eq_self {step : Members → String → Members} {keys : List String}
    (h : ∀ key ∈ keys, step members key = members) : keys.foldl step members = members := by
  induction keys with
  | nil => rfl
  | cons key keys ih =>
    rw [foldl_cons, h key mem_cons_self]
    exact ih fun other hother => h other (mem_cons_of_mem _ hother)

theorem mapSchemas_eq_self (h : NodeClean mode members) (hchildren : ∀ child ∈ childSchemas members, clean child = child)
    (hbool : clean (.bool false) = .bool false) : mapSchemas clean members = members := by
  have habsent : ∀ {key : String} {f : Json → Json}, key ∉ allowedKeys → updateMember key f members = members :=
    fun hkey => updateMember_eq_self fun v hv => by
      rw [h.toNodeNormal.lookup_eq_none hkey] at hv
      cases hv
  have hnamed : namedSchemas.foldl (fun object key => updateMember key (mapValues clean) object) members = members := by
    refine foldl_eq_self fun key hkey => ?_
    by_cases hproperties : key = "properties"
    · subst hproperties
      exact updateMember_eq_self fun v hv => mapValues_eq_self fun ps hps e he =>
        hchildren e.2 (mem_propertySchemas (hps ▸ hv) he)
    · refine habsent ?_
      revert key
      decide
  have hsingle : singleSchemas.foldl (fun object key => updateMember key clean object) members = members := by
    refine foldl_eq_self fun key hkey => ?_
    by_cases hitems : key = "items"
    · subst hitems
      exact updateMember_eq_self fun v hv => hchildren v (mem_childSchemas_items hv)
    · by_cases hadditional : key = "additionalProperties"
      · subst hadditional
        refine updateMember_eq_self fun v hv => ?_
        have hallowed := h.allowed _ (mem_of_lookup hv)
        unfold isAllowed at hallowed
        have hfalse : isFalse v = true := by
          have hvalue := (Bool.and_eq_true_iff.mp hallowed).2
          simp at hvalue
          exact hvalue.2
        cases v with
        | bool b =>
          cases b with
          | false => exact hbool
          | true => cases hfalse
        | _ => cases hfalse
      · refine habsent ?_
        revert key
        decide
  have hlisted : listedSchemas.foldl (fun object key => updateMember key (mapItems clean) object) members = members := by
    refine foldl_eq_self fun key hkey => habsent ?_
    revert key
    decide
  unfold mapSchemas
  dsimp only
  rw [hnamed, hsingle, hlisted]

theorem resolve_bool (root : Json) (levels : ℕ) (resolving : List String) (b : Bool) :
    resolveAntigravityLocalRefs root levels resolving (.bool b) = .bool b := by
  cases levels <;> rfl

variable (h : SchemaTree (NodeClean mode) schema)
include h

theorem resolve_eq_self (root : Json) (levels : ℕ)
    (resolving : List String) : resolveAntigravityLocalRefs root levels resolving schema = schema := by
  induction h generalizing levels with
  | @node members hnode _ ih =>
    cases levels with
    | zero => rfl
    | succ levels =>
      have hreference : localReference members = none := by
        unfold localReference
        rw [hnode.toNodeNormal.lookup_eq_none (by decide)]
        rfl
      rw [resolveAntigravityLocalRefs, hreference]
      exact congrArg object (mapSchemas_eq_self hnode (fun child hchild => ih child hchild levels)
        (resolve_bool root levels resolving false))

theorem inlined_eq_self : inlined schema = schema := by
  have hroot : rootSchema schema = schema := by
    cases h
    rfl
  unfold inlined
  rw [hroot, resolve_eq_self h]

end

end

/-- Cleaning gives the normal form, in which cleaning changes nothing, exactly if the types and the properties that
the nodes of the inlined schema have or inherit are texts and objects. -/
theorem cleanAntigravitySchema_normal_iff (text : Json → String) (mode : AntigravitySchemaMode) (schema : Json) :
    (SchemaTree (NodeNormal mode) (cleanAntigravitySchema text mode schema) ∧
      cleanAntigravitySchema text mode (cleanAntigravitySchema text mode schema) =
        cleanAntigravitySchema text mode schema) ↔ Typed mode (inlined schema) := by
  constructor
  · rintro ⟨hnormal, -⟩
    exact typed_of_normal _ hnormal
  · intro htyped
    have hclean : SchemaTree (NodeClean mode) (cleanAntigravitySchema text mode schema) := clean_of_typed htyped
    refine ⟨hclean.imp fun _ hnode => hnode.toNodeNormal, ?_⟩
    rw [cleanAntigravitySchema, inlined_eq_self hclean, clean_eq_self hclean]

def branchWithTypes : Json :=
  .object [("allOf", .array [.object [("type", .array [.string "string", .string "null"])]])]

theorem cleanAntigravitySchema_branchWithTypes :
    ¬SchemaTree (NodeNormal .tool) (cleanAntigravitySchema (fun _ => "") .tool branchWithTypes) := by
  have hclean : cleanAntigravitySchema (fun _ => "") .tool branchWithTypes =
      .object [("type", .array [.string "string", .string "null"])] := rfl
  rw [hclean]
  intro h
  cases h with
  | node hnode _ =>
    obtain ⟨s, hs⟩ := hnode.type _ rfl
    cases hs

end CcSwitchServer.ToolSchema
