import Mathlib.Data.List.Sort
import Mathlib.Data.String.Basic
import Mathlib.Tactic

/-! # JSON values

The members of an object stay in the order they were put in, and objects are compared without it.
-/

namespace CcSwitchServer.Foundations
open List

/-- A finite IEEE double. -/
structure F64 where
  bits : UInt64
  finite : bits.toNat / 2 ^ 52 % 2 ^ 11 ≠ 2047
  deriving DecidableEq

/-- `negInt n` is the integer `-(n + 1)`. -/
inductive Number
  | posInt (n : UInt64)
  | negInt (n : Fin (2 ^ 63))
  | float (f : F64)
  deriving DecidableEq

/-! ## Integers as doubles -/

/-- `n` divided by `2 ^ shift`, to the nearest integer and in a tie to the even one. -/
def roundShift (n shift : ℕ) : ℕ :=
  let q := n / 2 ^ shift
  let r := n % 2 ^ shift
  if 2 * r > 2 ^ shift ∨ (2 * r = 2 ^ shift ∧ q % 2 = 1) then q + 1 else q

/-- The bits of the double nearest to `n`; a carry out of the mantissa goes to the exponent. -/
def doubleBits (n : ℕ) : ℕ :=
  if n = 0 then 0
  else
    let e := Nat.log2 n
    (e + 1022) * 2 ^ 52 + if e ≤ 52 then n * 2 ^ (52 - e) else roundShift n (e - 52)

theorem doubleBits_lt {n : ℕ} (h : n < 2 ^ 64) : doubleBits n < 2047 * 2 ^ 52 := by
  unfold doubleBits
  split
  · decide
  · rename_i hn
    have he : Nat.log2 n < 64 := (Nat.log2_lt hn).mpr h
    have hlt : n < 2 ^ (Nat.log2 n + 1) := Nat.lt_log2_self
    dsimp only
    have hm : (if Nat.log2 n ≤ 52 then n * 2 ^ (52 - Nat.log2 n) else roundShift n (Nat.log2 n - 52)) ≤ 2 ^ 53 := by
      split
      · rename_i hle
        have hmul : n * 2 ^ (52 - Nat.log2 n) ≤ 2 ^ (Nat.log2 n + 1) * 2 ^ (52 - Nat.log2 n) :=
          Nat.mul_le_mul_right _ hlt.le
        rw [← pow_add] at hmul
        have hexp : Nat.log2 n + 1 + (52 - Nat.log2 n) = 53 := by omega
        rwa [hexp] at hmul
      · rename_i hgt
        have hq : n / 2 ^ (Nat.log2 n - 52) < 2 ^ 53 := by
          rw [Nat.div_lt_iff_lt_mul (by positivity), ← pow_add]
          have hexp : 53 + (Nat.log2 n - 52) = Nat.log2 n + 1 := by omega
          rwa [hexp]
        unfold roundShift
        dsimp only
        split <;> omega
    omega

/-- The integer `n`, or `-n`, as a double. -/
def F64.ofMagnitude (negative : Bool) (n : ℕ) (h : n < 2 ^ 64) : F64 where
  bits := UInt64.ofNat ((if negative then 2 ^ 63 else 0) + doubleBits n)
  finite := by
    have hlt := doubleBits_lt h
    rw [UInt64.toNat_ofNat']
    split <;> omega

def Number.asF64 : Number → F64
  | .posInt n => F64.ofMagnitude false n.toNat n.toNat_lt
  | .negInt n => F64.ofMagnitude true (n.val + 1) (by omega)
  | .float f => f

/-! ## Values -/

inductive Json
  | null
  | bool (b : Bool)
  | number (n : Number)
  | string (s : String)
  | array (values : List Json)
  | object (members : List (String × Json))

namespace Json

def get (v : Json) (key : String) : Option Json :=
  match v with
  | object members => (members.find? fun e => e.1 = key).map Prod.snd
  | _ => none

def asStr : Json → Option String
  | string s => some s
  | _ => none

def isObject : Json → Bool
  | object _ => true
  | _ => false

theorem induction {P : Json → Prop} (null : P null) (bool : ∀ b, P (bool b))
    (number : ∀ n, P (number n)) (string : ∀ s, P (string s))
    (array : ∀ values, (∀ v ∈ values, P v) → P (array values))
    (object : ∀ members, (∀ e ∈ members, P e.2) → P (object members)) : ∀ v, P v
  | .null => null
  | .bool b => bool b
  | .number n => number n
  | .string s => string s
  | .array values => array values fun v _ => induction null bool number string array object v
  | .object members =>
    object members fun e _ => induction null bool number string array object e.2
termination_by v => sizeOf v
decreasing_by
  · rename_i hv
    have := sizeOf_lt_of_mem hv
    simp only [Json.array.sizeOf_spec]
    omega
  · rename_i he
    have := sizeOf_lt_of_mem he
    have hsnd : sizeOf e.2 < sizeOf e := by
      cases e
      simp only [Prod.mk.sizeOf_spec]
      omega
    simp only [Json.object.sizeOf_spec]
    omega

def sortMembers {α : Type} (members : List (String × α)) : List (String × α) :=
  members.insertionSort fun a b => a.1 ≤ b.1

variable {α : Type}

theorem sortMembers_map {β : Type} (f : α → β) (members : List (String × α)) :
    sortMembers (members.map fun e => (e.1, f e.2)) = (sortMembers members).map fun e => (e.1, f e.2) := by
  unfold sortMembers
  exact (map_insertionSort (fun a b : String × α => a.1 ≤ b.1)
    (fun a b : String × β => a.1 ≤ b.1) (fun e => (e.1, f e.2)) members fun _ _ _ _ => Iff.rfl).symm

theorem sortMembers_perm (members : List (String × α)) : (sortMembers members).Perm members :=
  perm_insertionSort _ _

theorem filter_orderedInsert (p : String × α → Bool) (e : String × α)
    {members : List (String × α)} (h : members.Pairwise fun a b => a.1 ≤ b.1) :
    (members.orderedInsert (fun a b => a.1 ≤ b.1) e).filter p =
      if p e then (members.filter p).orderedInsert (fun a b => a.1 ≤ b.1) e else members.filter p := by
  induction members with
  | nil => cases hp : p e <;> simp [hp]
  | cons a members ih =>
    obtain ⟨ha, hrest⟩ := pairwise_cons.mp h
    rw [orderedInsert_cons]
    by_cases hle : e.1 ≤ a.1
    · rw [if_pos hle]
      have hfirst : (filter p (a :: members)).orderedInsert (fun a b => a.1 ≤ b.1) e =
          e :: filter p (a :: members) := by
        cases hm : filter p (a :: members) with
        | nil => rfl
        | cons b rest =>
          have hmem : b ∈ a :: members := mem_of_mem_filter (hm ▸ mem_cons_self)
          have hb : e.1 ≤ b.1 := by
            rcases mem_cons.mp hmem with rfl | hmem
            · exact hle
            · exact hle.trans (ha b hmem)
          rw [orderedInsert_cons, if_pos hb]
      rw [hfirst, filter_cons]
    · rw [if_neg hle, filter_cons, filter_cons, ih hrest]
      cases p a <;> cases p e <;> simp [hle]

theorem sortMembers_filter (p : String × α → Bool) (members : List (String × α)) :
    (sortMembers members).filter p = sortMembers (members.filter p) := by
  unfold sortMembers
  induction members with
  | nil => rfl
  | cons e members ih =>
    rw [insertionSort_cons, filter_orderedInsert p e (pairwise_insertionSort _ members), ih, filter_cons]
    split <;> rfl

theorem mem_sortMembers {members : List (String × α)} {e : String × α} :
    e ∈ sortMembers members ↔ e ∈ members :=
  (sortMembers_perm members).mem_iff

/-- `insert` of an ordered map: a key that is there keeps its place. -/
def insertMember {α : Type} (key : String) (value : α) : List (String × α) → List (String × α)
  | [] => [(key, value)]
  | e :: members => if e.1 = key then (key, value) :: members else e :: insertMember key value members

theorem insertMember_of_not_mem {key : String} (value : α) {members : List (String × α)}
    (h : key ∉ members.map Prod.fst) : insertMember key value members = members ++ [(key, value)] := by
  induction members with
  | nil => rfl
  | cons e members ih =>
    rw [map_cons, mem_cons, not_or] at h
    rw [insertMember, if_neg (Ne.symm h.1), ih h.2, cons_append]

theorem foldl_insertMember {γ : Type} (member : γ → String × α) {xs : List γ}
    {out : List (String × α)} (h : ((out ++ xs.map member).map Prod.fst).Nodup) :
    xs.foldl (fun out x => insertMember (member x).1 (member x).2 out) out = out ++ xs.map member := by
  induction xs generalizing out with
  | nil => rw [foldl_nil, map_nil, append_nil]
  | cons x xs ih =>
    rw [map_cons, ← singleton_append, ← append_assoc] at h
    have hnew : (member x).1 ∉ out.map Prod.fst := by
      rw [map_append, map_append] at h
      exact fun hmem => (disjoint_of_nodup_append h.of_append_left) hmem mem_cons_self
    rw [foldl_cons, insertMember_of_not_mem _ hnew, ih h, map_cons, append_assoc, singleton_append]

/-! ### Rewriting a value throughout -/

section
variable (f : Number → Number) (g : List (String × Json) → List (String × Json))

mutual
/-- `f` at every number and `g` at the members of every object, the inner ones first. -/
def rebuild : Json → Json
  | .null => .null
  | .bool b => .bool b
  | .number n => .number (f n)
  | .string s => .string s
  | .array values => .array (rebuildAll values)
  | .object members => .object (g (rebuildMembers members))

def rebuildAll : List Json → List Json
  | [] => []
  | v :: values => v.rebuild :: rebuildAll values

def rebuildMembers : List (String × Json) → List (String × Json)
  | [] => []
  | (key, v) :: members => (key, v.rebuild) :: rebuildMembers members
end

theorem rebuildAll_eq (values : List Json) : rebuildAll f g values = values.map (rebuild f g) := by
  induction values with
  | nil => rw [rebuildAll, map_nil]
  | cons v values ih => rw [rebuildAll, ih, map_cons]

theorem rebuildMembers_eq (members : List (String × Json)) :
    rebuildMembers f g members = members.map fun e => (e.1, e.2.rebuild f g) := by
  induction members with
  | nil => rw [rebuildMembers, map_nil]
  | cons e members ih => rw [rebuildMembers, ih, map_cons]

theorem rebuild_array (values : List Json) : (array values).rebuild f g = array (values.map (rebuild f g)) := by
  rw [rebuild, rebuildAll_eq]

theorem rebuild_object (members : List (String × Json)) :
    (object members).rebuild f g = object (g (members.map fun e => (e.1, e.2.rebuild f g))) := by
  rw [rebuild, rebuildMembers_eq]

end

/-- The members in the order of their keys, at every depth. -/
def sorted : Json → Json := rebuild id sortMembers

def asFloats : Json → Json := rebuild (fun n => .float n.asF64) id

/-- Equal but for the order of the members. -/
def Same (v w : Json) : Prop := v.sorted = w.sorted

theorem sortMembers_sortMembers {α : Type} (members : List (String × α)) :
    sortMembers (sortMembers members) = sortMembers members := by
  unfold sortMembers
  exact List.Pairwise.insertionSort_eq (pairwise_insertionSort _ members)

theorem same_rebuild (f : Number → Number) (h : List (String × Json) → List (String × Json))
    (hmap : ∀ (φ : Json → Json) members, h (members.map fun e => (e.1, φ e.2)) =
      (h members).map fun e => (e.1, φ e.2)) (v : Json) :
    (v.rebuild f fun members => sortMembers (h members)).Same (v.rebuild f h) := by
  unfold Same sorted
  induction v using Json.induction with
  | null => rfl
  | bool b => rfl
  | number n => rfl
  | string s => rfl
  | array values ih =>
    rw [rebuild_array, rebuild_array, rebuild_array, rebuild_array, map_map, map_map]
    exact congrArg array (map_congr_left ih)
  | object members ih =>
    rw [rebuild_object, rebuild_object, rebuild_object, rebuild_object, ← sortMembers_map,
      ← hmap, ← hmap, sortMembers_sortMembers, map_map, map_map]
    refine congrArg (fun ms => object (sortMembers (h ms))) (map_congr_left fun e he => ?_)
    exact congrArg (Prod.mk e.1) (ih e he)

/-- No object has two members with one key. -/
inductive Distinct : Json → Prop
  | null : Distinct .null
  | bool (b : Bool) : Distinct (.bool b)
  | number (n : Number) : Distinct (.number n)
  | string (s : String) : Distinct (.string s)
  | array (values : List Json) (h : ∀ v ∈ values, Distinct v) : Distinct (.array values)
  | object (members : List (String × Json)) (hkeys : (members.map Prod.fst).Nodup)
      (h : ∀ e ∈ members, Distinct e.2) : Distinct (.object members)

/-! ### Equality that can be computed -/

/-- Zero and minus zero are equal. -/
def numberEqual : Number → Number → Bool
  | .float f, .float g => f = g || (f.bits.toNat % 2 ^ 63 = 0 && g.bits.toNat % 2 ^ 63 = 0)
  | n, m => n = m

mutual
/-- Equality of values whose members are in one order. -/
def equalInOrder : Json → Json → Bool
  | .null, .null => true
  | .bool b, .bool c => b = c
  | .number n, .number m => numberEqual n m
  | .string s, .string t => s = t
  | .array vs, .array ws => equalAll vs ws
  | .object ms, .object ns => equalMembers ms ns
  | _, _ => false

def equalAll : List Json → List Json → Bool
  | [], [] => true
  | v :: vs, w :: ws => equalInOrder v w && equalAll vs ws
  | _, _ => false

def equalMembers : List (String × Json) → List (String × Json) → Bool
  | [], [] => true
  | (k, v) :: ms, (l, w) :: ns => k = l && equalInOrder v w && equalMembers ms ns
  | _, _ => false
end

/-- `==` of values. -/
def equal (v w : Json) : Bool := equalInOrder v.sorted w.sorted

/-! ### Readings -/

def asArray : Json → Option (List Json)
  | array values => some values
  | _ => none

def asBool : Json → Option Bool
  | bool b => some b
  | _ => none

def asU64 : Json → Option ℕ
  | number (.posInt n) => some n.toNat
  | _ => none

/-- A number above the range is none. -/
def asI64 : Json → Option ℤ
  | number (.posInt n) => if n.toNat < 2 ^ 63 then some n.toNat else none
  | number (.negInt n) => some (-(n.val + 1 : ℤ))
  | _ => none

def isNull : Json → Bool
  | null => true
  | _ => false

/-- The member `key`, or else the member `other`. -/
def getOr (v : Json) (key other : String) : Option Json := (v.get key).orElse fun _ => v.get other

end Json

end CcSwitchServer.Foundations
