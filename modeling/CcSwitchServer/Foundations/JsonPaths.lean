import CcSwitchServer.Foundations.Json
import CcSwitchServer.Foundations.Text

/-! # Paths into JSON values

A value is known by its nodes: what stands at each path, without what stands below it.
-/

namespace CcSwitchServer.Foundations

inductive PathStep
  | key (name : String)
  | index (i : ℕ)
  deriving DecidableEq, Repr

abbrev Path := List PathStep

/-- A value without the values inside it. -/
inductive Node
  | null
  | bool (b : Bool)
  | number (n : Number)
  | string (s : String)
  | array (length : ℕ)
  | object (keys : List String)
  deriving DecidableEq

def Node.rename (f : String → String) : Node → Node
  | .string s => .string (f s)
  | node => node

namespace Json

variable (v : Json)

def item (i : ℕ) : Option Json :=
  match v with
  | array items => items[i]?
  | _ => none

def child : PathStep → Option Json
  | .key name => v.get name
  | .index i => v.item i

def at? (v : Json) : Path → Option Json
  | [] => some v
  | step :: p => (v.child step).bind fun c => c.at? p

def node : Json → Node
  | null => .null
  | bool b => .bool b
  | number n => .number n
  | string s => .string s
  | array items => .array items.length
  | object members => .object (members.map Prod.fst)

def nodeAt (p : Path) : Option Node := (v.at? p).map node

@[simp] theorem nodeAt_nil : v.nodeAt [] = some v.node := rfl

theorem nodeAt_cons (step : PathStep) (p : Path) : v.nodeAt (step :: p) = (v.child step).bind fun c => c.nodeAt p := by
  change ((v.child step).bind fun c => c.at? p).map node = _
  rw [Option.map_bind]
  rfl

/-! ## Pointers -/

/-- Two characters that stand side by side become one. -/
def replacePair (a b c : Char) : List Char → List Char
  | x :: y :: rest => if x = a ∧ y = b then c :: replacePair a b c rest else x :: replacePair a b c (y :: rest)
  | rest => rest

/-- The token of a pointer, with `~1` and `~0` read. -/
def pointerToken (token : List Char) : String := String.ofList (replacePair '~' '0' '~' (replacePair '~' '1' '/' token))

/-- An index has no sign and no leading zero. -/
def pointerIndex (token : String) : Option ℕ :=
  if token.toList.all Text.isAsciiDigit ∧ token ≠ "" ∧ (token.toList.head? ≠ some '0' ∨ token = "0") then
    some (token.toList.foldl (fun n c => n * 10 + (c.toNat - '0'.toNat)) 0)
  else none

def pointerStep (token : String) : Option Json :=
  match v with
  | object _ => v.get token
  | array _ => (pointerIndex token).bind v.item
  | _ => none

def pointer (path : String) : Option Json :=
  if path = "" then some v
  else
    match Text.splitOn '/' path.toList with
    | [] :: tokens => tokens.foldlM (fun v token => v.pointerStep (pointerToken token)) v
    | _ => none

/-! ## Changes in one place -/

def updateMember (key : String) (f : Json → Json) : List (String × Json) → List (String × Json)
  | [] => []
  | e :: members => if e.1 = key then (e.1, f e.2) :: members else e :: updateMember key f members

variable (key : String)

theorem updateMember_keys (f : Json → Json) (members : List (String × Json)) :
    (updateMember key f members).map Prod.fst = members.map Prod.fst := by
  induction members with
  | nil => rfl
  | cons e members ih =>
    rw [updateMember]
    split
    · rfl
    · rw [List.map_cons, ih, List.map_cons]

theorem find?_updateMember (key name : String) (f : Json → Json) (members : List (String × Json)) :
    ((updateMember key f members).find? fun e => e.1 = name).map Prod.snd =
      if key = name then ((members.find? fun e => e.1 = name).map Prod.snd).map f
      else (members.find? fun e => e.1 = name).map Prod.snd := by
  induction members with
  | nil => by_cases h : key = name <;> simp [updateMember, h]
  | cons e members ih =>
    rw [updateMember]
    by_cases hkey : e.1 = key
    · rw [if_pos hkey]
      by_cases hname : key = name
      · simp [hkey, hname]
      · have hne : e.1 ≠ name := fun h => hname (hkey.symm.trans h)
        simp [hne, hname]
    · rw [if_neg hkey]
      by_cases hname : e.1 = name
      · have hne : key ≠ name := fun h => hkey (hname.trans h.symm)
        simp [hname, hne]
      · rw [List.find?_cons_of_neg (by simpa using hname), List.find?_cons_of_neg (by simpa using hname)]
        exact ih

def update (f : Json → Json) : Json → Json
  | object members => object (updateMember key f members)
  | v => v

variable (f : Json → Json)

def mapItems : Json → Json
  | array items => array (items.map f)
  | v => v

def mapText (f : String → String) : Json → Json
  | string s => string (f s)
  | v => v

@[simp] theorem node_update (f : Json → Json) (v : Json) : (v.update key f).node = v.node := by
  cases v with
  | object members => exact congrArg Node.object (updateMember_keys key f members)
  | _ => rfl

@[simp] theorem node_mapItems (v : Json) : (v.mapItems f).node = v.node := by
  cases v with
  | array items => exact congrArg Node.array (List.length_map _)
  | _ => rfl

theorem get_update (key name : String) (f : Json → Json) (v : Json) :
    (v.update key f).get name = if key = name then (v.get name).map f else v.get name := by
  cases v with
  | object members => exact find?_updateMember key name f members
  | _ => split <;> rfl

theorem item_update (f : Json → Json) (v : Json) (i : ℕ) : (v.update key f).item i = v.item i := by
  cases v <;> rfl

theorem get_mapItems (v : Json) (name : String) : (v.mapItems f).get name = v.get name := by
  cases v <;> rfl

theorem item_mapItems (v : Json) (i : ℕ) : (v.mapItems f).item i = (v.item i).map f := by
  cases v with
  | array items => exact List.getElem?_map
  | _ => rfl

/-! ## Renaming -/

/-- `T` renames the texts at the paths of `L`, and changes nothing else. -/
def Renames (rename : String → String) (T : Json → Json) (L : Json → Path → Bool) : Prop :=
  ∀ v p, (T v).nodeAt p = if L v p then (v.nodeAt p).map (Node.rename rename) else v.nodeAt p

variable {rename : String → String}

/-- The positions of a member, below its key. -/
def under (L : Json → Path → Bool) (v : Json) : Path → Bool
  | .key name :: p => name = key && (v.get key).any fun c => L c p
  | _ => false

def inItems (L : Json → Path → Bool) (v : Json) : Path → Bool
  | .index i :: p => (v.item i).any fun c => L c p
  | _ => false

variable {L : Json → Path → Bool} {T : Json → Json}

/-- A renaming below a key is one at the positions below it. -/
theorem Renames.update (h : Renames rename T L) (key : String) :
    Renames rename (update key T) (under key L) := by
  intro v p
  cases p with
  | nil =>
    rw [nodeAt_nil, node_update]
    rfl
  | cons step p =>
    rw [nodeAt_cons, nodeAt_cons]
    cases step with
    | index i =>
      change ((v.update key T).item i).bind _ = _
      rw [item_update]
      rfl
    | key name =>
      change ((v.update key T).get name).bind _ = if under key L v (.key name :: p) then _ else _
      rw [get_update]
      by_cases hname : key = name
      · subst hname
        rw [if_pos rfl]
        have hunder : under key L v (.key key :: p) = (v.get key).any fun c => L c p := by
          unfold under
          dsimp only
          rw [decide_eq_true rfl, Bool.true_and]
        rw [hunder]
        change ((v.get key).map T).bind _ = if _ then ((v.get key).bind _).map _ else (v.get key).bind _
        cases v.get key with
        | none => rfl
        | some c => exact h c p
      · have hne : name ≠ key := fun heq => hname heq.symm
        rw [if_neg hname, if_neg]
        · rfl
        · unfold under
          dsimp only
          rw [decide_eq_false hne, Bool.false_and]
          decide

theorem Renames.mapItems (h : Renames rename T L) :
    Renames rename (mapItems T) (inItems L) := by
  intro v p
  cases p with
  | nil =>
    rw [nodeAt_nil, node_mapItems]
    rfl
  | cons step p =>
    rw [nodeAt_cons, nodeAt_cons]
    cases step with
    | key name =>
      change ((v.mapItems T).get name).bind _ = _
      rw [get_mapItems]
      rfl
    | index i =>
      change ((v.mapItems T).item i).bind _ = if inItems L v (.index i :: p) then _ else _
      have hin : inItems L v (.index i :: p) = (v.item i).any fun c => L c p := rfl
      rw [item_mapItems, hin]
      change ((v.item i).map T).bind _ = if _ then ((v.item i).bind _).map _ else (v.item i).bind _
      cases v.item i with
      | none => rfl
      | some c => exact h c p

end Json

end CcSwitchServer.Foundations
