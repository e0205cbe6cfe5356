import CcSwitchServer.Foundations.JsonPaths

/-! # Changing the members of JSON objects

Lookups after an insertion and after a removal.
-/

namespace CcSwitchServer.Foundations.Json
open List Option

variable {α : Type}

def lookup (members : List (String × α)) (key : String) : Option α := (members.find? fun e => e.1 = key).map Prod.snd

/-- The order of the other members is kept. -/
def removeMember (key : String) (members : List (String × α)) : List (String × α) := members.filter fun e => e.1 ≠ key

/-- A member that is there stays. -/
def orInsert (key : String) (value : α) (members : List (String × α)) : List (String × α) :=
  if (lookup members key).isSome then members else members ++ [(key, value)]

theorem lookup_nil (key : String) : lookup ([] : List (String × α)) key = none := rfl

theorem lookup_cons (e : String × α) (members : List (String × α)) (key : String) :
    lookup (e :: members) key = if e.1 = key then some e.2 else lookup members key := by
  unfold lookup
  by_cases h : e.1 = key
  · rw [find?_cons_of_pos (by simpa using h), if_pos h, map_some]
  · rw [find?_cons_of_neg (by simpa using h), if_neg h]

theorem lookup_append (members members' : List (String × α)) (key : String) :
    lookup (members ++ members') key = (lookup members key).or (lookup members' key) := by
  unfold lookup
  rw [find?_append, map_or]

variable {members : List (String × α)} {key : String} {value : α} {e : String × α}

theorem mem_of_lookup (h : lookup members key = some value) : (key, value) ∈ members := by
  obtain ⟨e, he, rfl⟩ := map_eq_some_iff.mp h
  have hkey : e.1 = key := by simpa using find?_some he
  exact hkey ▸ mem_of_find?_eq_some he

theorem lookup_insertMember (key name : String) (value : α) (members : List (String × α)) :
    lookup (insertMember key value members) name = if key = name then some value else lookup members name := by
  induction members with
  | nil => rw [insertMember, lookup_cons]
  | cons e members ih =>
    rw [insertMember]
    split
    · rename_i hkey
      rw [lookup_cons, lookup_cons, hkey]
      split <;> rfl
    · rename_i hkey
      rw [lookup_cons, lookup_cons, ih]
      by_cases hname : e.1 = name
      · rw [if_pos hname, if_neg fun h => hkey (hname.trans h.symm), if_pos hname]
      · rw [if_neg hname, if_neg hname]

theorem insertMember_insertMember (key : String) (value value' : α) (members : List (String × α)) :
    insertMember key value' (insertMember key value members) = insertMember key value' members := by
  induction members with
  | nil => exact if_pos rfl
  | cons e members ih =>
    rw [insertMember, insertMember]
    split
    · rw [insertMember, if_pos rfl]
    · rename_i hkey
      rw [insertMember, if_neg hkey, ih]

theorem lookup_removeMember (key name : String) (members : List (String × α)) :
    lookup (removeMember key members) name = if key = name then none else lookup members name := by
  induction members with
  | nil => split <;> rfl
  | cons e members ih =>
    unfold removeMember at ih ⊢
    rw [filter_cons]
    by_cases hkey : e.1 = key
    · rw [if_neg (by simpa using hkey), ih, lookup_cons]
      split
      · rfl
      · rename_i hne
        rw [if_neg fun h => hne (hkey.symm.trans h)]
    · rw [if_pos (by simpa using hkey), lookup_cons, lookup_cons, ih]
      by_cases hname : e.1 = name
      · rw [if_pos hname, if_neg fun h => hkey (hname.trans h.symm), if_pos hname]
      · rw [if_neg hname, if_neg hname]

theorem lookup_orInsert (key name : String) (value : α) (members : List (String × α)) :
    lookup (orInsert key value members) name =
      if key = name then some ((lookup members key).getD value) else lookup members name := by
  unfold orInsert
  by_cases hsome : (lookup members key).isSome
  · rw [if_pos hsome]
    split
    · rename_i hname
      obtain ⟨found, hfound⟩ := isSome_iff_exists.mp hsome
      rw [← hname, hfound, getD_some]
    · rfl
  · rw [if_neg hsome, lookup_append, lookup_cons, lookup_nil]
    split
    · rename_i hname
      rw [← hname, not_isSome_iff_eq_none.mp hsome, none_or, getD_none]
    · exact or_none

theorem lookup_isSome_iff : (lookup members key).isSome ↔ key ∈ members.map Prod.fst := by
  induction members with
  | nil => simp [lookup_nil]
  | cons e members ih =>
    rw [lookup_cons, map_cons, mem_cons, ← ih]
    by_cases h : e.1 = key
    · simp [h]
    · simp [h, Ne.symm h]

theorem lookup_eq_none (h : ∀ e ∈ members, e.1 ≠ key) : lookup members key = none := by
  refine not_isSome_iff_eq_none.mp fun hsome => ?_
  obtain ⟨e, he, hkey⟩ := mem_map.mp (lookup_isSome_iff.mp hsome)
  exact h e he hkey

theorem lookup_of_mem (he : e ∈ members) : (lookup members e.1).isSome := lookup_isSome_iff.mpr (mem_map_of_mem he)

theorem lookup_filter {p : String × α → Bool} {keep : Bool} (h : ∀ value, p (key, value) = keep)
    (members : List (String × α)) :
    lookup (members.filter p) key = if keep then lookup members key else none := by
  induction members with
  | nil => cases keep <;> rfl
  | cons e members ih =>
    rw [filter_cons]
    by_cases hkey : e.1 = key
    · obtain ⟨name, value⟩ := e
      subst hkey
      rw [h value]
      cases keep with
      | true => rw [if_pos rfl, lookup_cons, lookup_cons, if_pos rfl, if_pos rfl, if_pos rfl]
      | false => exact ih
    · rw [lookup_cons, if_neg hkey, ← ih]
      split
      · rw [lookup_cons, if_neg hkey]
      · rfl

theorem mem_insertMember (h : e ∈ insertMember key value members) : e ∈ members ∨ e = (key, value) := by
  induction members with
  | nil => exact .inr (mem_singleton.mp h)
  | cons first members ih =>
    rw [insertMember] at h
    split at h
    · rcases mem_cons.mp h with rfl | h
      · exact .inr rfl
      · exact .inl (mem_cons_of_mem _ h)
    · rcases mem_cons.mp h with rfl | h
      · exact .inl mem_cons_self
      · exact (ih h).imp_left (mem_cons_of_mem _)

theorem mem_orInsert (h : e ∈ orInsert key value members) : e ∈ members ∨ e = (key, value) := by
  unfold orInsert at h
  split at h
  · exact .inl h
  · exact (mem_append.mp h).imp_right mem_singleton.mp

theorem removeMember_eq_self (h : lookup members key = none) : removeMember key members = members := by
  refine filter_eq_self.mpr fun e he => ?_
  have hne : e.1 ≠ key := fun hkey => by
    have hsome := lookup_of_mem he
    rw [hkey, h] at hsome
    exact Bool.false_ne_true hsome
  exact decide_eq_true hne

theorem insertMember_eq_self (h : lookup members key = some value) : insertMember key value members = members := by
  induction members with
  | nil => cases h
  | cons e members ih =>
    rw [lookup_cons] at h
    rw [insertMember]
    split
    · rename_i hkey
      rw [if_pos hkey] at h
      rw [← hkey, ← some.inj h]
    · rename_i hkey
      rw [if_neg hkey] at h
      rw [ih h]

theorem lookup_updateMember (key name : String) (f : Json → Json) (members : List (String × Json)) :
    lookup (updateMember key f members) name =
      if key = name then (lookup members name).map f else lookup members name :=
  find?_updateMember key name f members

theorem updateMember_congr {f g : Json → Json} {members : List (String × Json)}
    (h : ∀ v, lookup members key = some v → f v = g v) :
    updateMember key f members = updateMember key g members := by
  induction members with
  | nil => rfl
  | cons e members ih =>
    rw [updateMember, updateMember]
    by_cases hkey : e.1 = key
    · rw [if_pos hkey, if_pos hkey, h e.2 (by rw [lookup_cons, if_pos hkey])]
    · rw [if_neg hkey, if_neg hkey, ih fun v hv => h v (by rw [lookup_cons, if_neg hkey, hv])]

theorem updateMember_id (key : String) (members : List (String × Json)) : updateMember key id members = members := by
  induction members with
  | nil => rfl
  | cons e members ih =>
    rw [updateMember, ih]
    split <;> rfl

theorem updateMember_eq_self {f : Json → Json} {members : List (String × Json)}
    (h : ∀ v, lookup members key = some v → f v = v) : updateMember key f members = members :=
  (updateMember_congr h).trans (updateMember_id key members)

theorem get_object (members : List (String × Json)) (key : String) : (object members).get key = lookup members key :=
  rfl

def set (v : Json) (key : String) (value : Json) : Json :=
  match v with
  | object members => object (insertMember key value members)
  | _ => v

theorem get_set_object (key name : String) (value : Json) (members : List (String × Json)) :
    ((object members).set key value).get name = if key = name then some value else (object members).get name :=
  lookup_insertMember key name value members

theorem get_set {v : Json} {key : String} (h : (v.get key).isSome) (value : Json) :
    (v.set key value).get key = some value := by
  cases v with
  | object members => exact (get_set_object key key value members).trans (if_pos rfl)
  | _ => cases h

theorem set_set (v : Json) (key : String) (value value' : Json) :
    (v.set key value).set key value' = v.set key value' := by
  cases v with
  | object members => exact congrArg object (insertMember_insertMember key value value' members)
  | _ => rfl

def mapValues (f : Json → Json) : Json → Json
  | object members => object (members.map fun e => (e.1, f e.2))
  | v => v

/-! ## Depth -/

mutual

def depth : Json → ℕ
  | .array values => depthAll values + 1
  | .object members => depthMembers members + 1
  | _ => 0

def depthAll : List Json → ℕ
  | [] => 0
  | v :: values => max v.depth (depthAll values)

def depthMembers : List (String × Json) → ℕ
  | [] => 0
  | (_, v) :: members => max v.depth (depthMembers members)

end

theorem depth_le_depthAll {v : Json} {values : List Json} (h : v ∈ values) : v.depth ≤ depthAll values := by
  induction values with
  | nil => cases h
  | cons w values ih =>
    rw [depthAll]
    rcases mem_cons.mp h with rfl | h
    · exact le_max_left _ _
    · exact (ih h).trans (le_max_right _ _)

theorem depth_le_depthMembers {e : String × Json} {members : List (String × Json)} (h : e ∈ members) :
    e.2.depth ≤ depthMembers members := by
  induction members with
  | nil => cases h
  | cons d members ih =>
    obtain ⟨key, v⟩ := d
    rw [depthMembers]
    rcases mem_cons.mp h with rfl | h
    · exact le_max_left _ _
    · exact (ih h).trans (le_max_right _ _)

theorem depthMembers_le {members : List (String × Json)} {n : ℕ} (h : ∀ e ∈ members, e.2.depth ≤ n) :
    depthMembers members ≤ n := by
  induction members with
  | nil => exact Nat.zero_le n
  | cons e members ih =>
    obtain ⟨key, v⟩ := e
    rw [depthMembers]
    exact max_le (h _ mem_cons_self) (ih fun w hw => h w (mem_cons_of_mem _ hw))

end CcSwitchServer.Foundations.Json
