import Mathlib.Algebra.BigOperators.Group.List.Basic
import Mathlib.Algebra.GroupWithZero.Nat
import Mathlib.Data.List.Find
import Mathlib.Data.List.Nodup
import Mathlib.Order.Basic

/-! # Ordered maps

The list of the entries in strictly increasing key order, described by lookup.
-/

namespace CcSwitchServer.Foundations
open List Option

/-- Entries in strictly increasing key order. -/
structure OrderedMap (κ ν : Type) [LinearOrder κ] where
  entries : List (κ × ν)
  sorted : entries.Pairwise fun a b => a.1 < b.1

namespace OrderedMap
variable {κ ν : Type} [LinearOrder κ]

def empty : OrderedMap κ ν := ⟨[], List.Pairwise.nil⟩

@[simp] theorem empty_entries : (empty : OrderedMap κ ν).entries = [] := rfl

variable (m : OrderedMap κ ν)

def values : List ν := m.entries.map Prod.snd

def size : ℕ := m.entries.length

def get? (k : κ) : Option ν := (m.entries.find? fun e => e.1 = k).map Prod.snd

@[simp] theorem get?_empty (k : κ) : (empty : OrderedMap κ ν).get? k = none := rfl

theorem nodup_keys : (m.entries.map Prod.fst).Nodup := by
  rw [List.Nodup, pairwise_map]
  exact m.sorted.imp fun h => ne_of_lt h

theorem nodup_entries : m.entries.Nodup := List.Nodup.of_map _ m.nodup_keys

variable {m : OrderedMap κ ν} {k : κ} {v v' : ν} {p : κ × ν → Bool} {es : List (κ × ν)} {τ : Type}

theorem entry_eq {e e' : κ × ν} (h : e ∈ m.entries) (h' : e' ∈ m.entries) (hk : e.1 = e'.1) : e = e' :=
  inj_on_of_nodup_map m.nodup_keys h h' hk

theorem mem_entries_iff : (k, v) ∈ m.entries ↔ m.get? k = some v := by
  unfold get?
  constructor
  · intro h
    have hsome : (m.entries.find? fun e => e.1 = k).isSome := by
      rw [find?_isSome]
      exact ⟨(k, v), h, by simp⟩
    obtain ⟨e, he⟩ := isSome_iff_exists.mp hsome
    have hk : e.1 = k := by simpa using find?_some he
    have heq : e = (k, v) := entry_eq (mem_of_find?_eq_some he) h hk
    rw [he, heq, map_some]
  · intro h
    obtain ⟨e, he, hv⟩ := map_eq_some_iff.mp h
    have hk : e.1 = k := by simpa using find?_some he
    have heq : e = (k, v) := Prod.ext hk hv
    rw [← heq]
    exact mem_of_find?_eq_some he

theorem mem_values_iff : v ∈ m.values ↔ ∃ k, m.get? k = some v := by
  unfold values
  rw [List.mem_map]
  constructor
  · rintro ⟨⟨k, v'⟩, h, rfl⟩
    exact ⟨k, mem_entries_iff.mp h⟩
  · rintro ⟨k, h⟩
    exact ⟨(k, v), mem_entries_iff.mpr h, rfl⟩

/-- A search finds the entry with the lowest key that passes. -/
theorem find?_entries_eq_some :
    m.entries.find? p = some (k, v) ↔
      m.get? k = some v ∧ p (k, v) = true ∧ ∀ k' v', m.get? k' = some v' → p (k', v') = true → k ≤ k' := by
  constructor
  · intro h
    refine ⟨mem_entries_iff.mp (mem_of_find?_eq_some h), find?_some h, ?_⟩
    intro k' v' hk' hp
    obtain ⟨hpk, before, after, heq, hbefore⟩ := find?_eq_some_iff_append.mp h
    have hmem := mem_entries_iff.mpr hk'
    have hsorted := m.sorted
    rw [heq, pairwise_append] at hsorted
    rw [heq, mem_append] at hmem
    rcases hmem with hmem | hmem
    · have := hbefore _ hmem
      simp [hp] at this
    · rcases mem_cons.mp hmem with hmem | hmem
      · rw [(Prod.mk.inj hmem).1]
      · exact le_of_lt ((pairwise_cons.mp hsorted.2.1).1 _ hmem)
  · rintro ⟨hk, hp, hfirst⟩
    cases hf : m.entries.find? p with
    | none =>
      have := find?_eq_none.mp hf _ (mem_entries_iff.mpr hk)
      simp [hp] at this
    | some e =>
      obtain ⟨k', v'⟩ := e
      obtain ⟨_, before, after, heq, hbefore⟩ := find?_eq_some_iff_append.mp hf
      have hk' := mem_entries_iff.mp (mem_of_find?_eq_some hf)
      have hle := hfirst k' v' hk' (find?_some hf)
      have hmem := mem_entries_iff.mpr hk
      have hsorted := m.sorted
      rw [heq, pairwise_append] at hsorted
      rw [heq, mem_append] at hmem
      rcases hmem with hmem | hmem
      · have := hbefore _ hmem
        simp [hp] at this
      · rcases mem_cons.mp hmem with hmem | hmem
        · rw [hmem]
        · exact absurd ((pairwise_cons.mp hsorted.2.1).1 _ hmem) (not_lt.mpr hle)

/-! ## Insertion -/

def insertEntry (k : κ) (v : ν) : List (κ × ν) → List (κ × ν)
  | [] => [(k, v)]
  | e :: es =>
    if k < e.1 then (k, v) :: e :: es
    else if k = e.1 then (k, v) :: es
    else e :: insertEntry k v es

theorem mem_insertEntry {e : κ × ν} (h : e ∈ insertEntry k v es) : e = (k, v) ∨ e ∈ es := by
  induction es with
  | nil => exact .inl (by simpa [insertEntry] using h)
  | cons e' es ih =>
    rw [insertEntry] at h
    split at h
    · simpa using h
    · split at h
      · rcases mem_cons.mp h with h | h
        · exact .inl h
        · exact .inr (mem_cons_of_mem _ h)
      · rcases mem_cons.mp h with h | h
        · exact .inr (h ▸ mem_cons_self)
        · exact (ih h).imp id (mem_cons_of_mem _)

theorem sorted_insertEntry (k : κ) (v : ν) (h : es.Pairwise fun a b => a.1 < b.1) :
    (insertEntry k v es).Pairwise fun a b => a.1 < b.1 := by
  induction es with
  | nil => simp [insertEntry]
  | cons e es ih =>
    have hcons := pairwise_cons.mp h
    rw [insertEntry]
    split
    · rename_i hlt
      refine pairwise_cons.mpr ⟨fun e' he' => ?_, h⟩
      rcases mem_cons.mp he' with rfl | he'
      · exact hlt
      · exact lt_trans hlt (hcons.1 e' he')
    · split
      · rename_i hge heq
        refine pairwise_cons.mpr ⟨fun e' he' => ?_, hcons.2⟩
        rw [heq]
        exact hcons.1 e' he'
      · rename_i hge hne
        refine pairwise_cons.mpr ⟨fun e' he' => ?_, ih hcons.2⟩
        rcases mem_insertEntry he' with rfl | he'
        · exact lt_of_le_of_ne (not_lt.mp hge) (Ne.symm hne)
        · exact hcons.1 e' he'

theorem find?_insertEntry (k k' : κ) (v : ν) (es : List (κ × ν)) :
    ((insertEntry k v es).find? fun e => e.1 = k').map Prod.snd =
      if k = k' then some v else (es.find? fun e => e.1 = k').map Prod.snd := by
  induction es with
  | nil => by_cases h : k = k' <;> simp [insertEntry, h]
  | cons e es ih =>
    rw [insertEntry]
    split
    · by_cases h : k = k' <;> simp [h]
    · split
      · rename_i hge heq
        by_cases h : k = k'
        · simp [h]
        · have he : e.1 ≠ k' := heq ▸ h
          simp [h, he]
      · rename_i hge hne
        by_cases he : e.1 = k'
        · have h : k ≠ k' := he ▸ hne
          simp [h, he]
        · rw [find?_cons_of_neg (by simpa using he), ih, find?_cons_of_neg (by simpa using he)]

variable (m)

/-- Insert an entry, or replace the value of its key. -/
def insert (k : κ) (v : ν) : OrderedMap κ ν where
  entries := insertEntry k v m.entries
  sorted := sorted_insertEntry k v m.sorted

theorem get?_insert (k k' : κ) (v : ν) : (m.insert k v).get? k' = if k = k' then some v else m.get? k' :=
  find?_insertEntry k k' v m.entries

@[simp] theorem get?_insert_self (k : κ) (v : ν) : (m.insert k v).get? k = some v := by
  rw [get?_insert, if_pos rfl]

theorem get?_insert_of_ne {k' : κ} (v : ν) (h : k ≠ k') : (m.insert k v).get? k' = m.get? k' := by
  rw [get?_insert, if_neg h]

variable {m}

theorem ext_entries {m' : OrderedMap κ ν} (h : m.entries = m'.entries) : m = m' := by
  cases m
  cases m'
  cases h
  rfl

theorem insert_insert (m : OrderedMap κ ν) (k : κ) (v v' : ν) : (m.insert k v).insert k v' = m.insert k v' := by
  have hentries : ∀ es : List (κ × ν), insertEntry k v' (insertEntry k v es) = insertEntry k v' es := by
    intro es
    induction es with
    | nil => simp [insertEntry]
    | cons e es ih =>
      by_cases hlt : k < e.1
      · simp [insertEntry, hlt]
      · by_cases heq : k = e.1
        · simp [insertEntry, heq]
        · simp only [insertEntry, if_neg hlt, if_neg heq, ih]
  exact ext_entries (hentries m.entries)

theorem get?_eq_none : m.get? k = none ↔ ∀ e ∈ m.entries, e.1 ≠ k := by
  simp [get?]

theorem insertEntry_perm (v : ν) (h : ∀ e ∈ es, e.1 ≠ k) : (insertEntry k v es).Perm ((k, v) :: es) := by
  induction es with
  | nil => exact List.Perm.refl _
  | cons e es ih =>
    have hne : k ≠ e.1 := (h e mem_cons_self).symm
    rw [insertEntry, if_neg hne]
    split
    · exact List.Perm.refl _
    · have ih' := ih fun e' he' => h e' (mem_cons_of_mem _ he')
      exact (ih'.cons e).trans (List.Perm.swap _ _ _)

theorem insert_perm (v : ν) (h : m.get? k = none) : (m.insert k v).entries.Perm ((k, v) :: m.entries) :=
  insertEntry_perm v (get?_eq_none.mp h)

/-! ## Replacing the value of a key -/

theorem insertEntry_of_mem (v' : ν) (hsorted : es.Pairwise fun a b => a.1 < b.1) (h : (k, v) ∈ es) :
    insertEntry k v' es = es.map fun e => if e.1 = k then (k, v') else e := by
  induction es with
  | nil => cases h
  | cons e es ih =>
    have hcons := pairwise_cons.mp hsorted
    rw [insertEntry, map_cons]
    rcases mem_cons.mp h with rfl | hmem
    · rw [if_neg (lt_irrefl k), if_pos rfl, if_pos rfl]
      have hrest : (es.map fun e => if e.1 = k then (k, v') else e) = es := by
        refine (map_congr_left fun e he => ?_).trans (map_id _)
        exact if_neg (ne_of_gt (hcons.1 e he))
      rw [hrest]
    · have hlt : e.1 < k := hcons.1 _ hmem
      rw [if_neg (not_lt.mpr (le_of_lt hlt)), if_neg (ne_of_gt hlt), if_neg (ne_of_lt hlt), ih hcons.2 hmem]

theorem insert_of_get? (v' : ν) (h : m.get? k = some v) :
    (m.insert k v').entries = m.entries.map fun e => if e.1 = k then (k, v') else e :=
  insertEntry_of_mem v' m.sorted (mem_entries_iff.mpr h)

theorem insert_self (h : m.get? k = some v) : m.insert k v = m := by
  apply ext_entries
  rw [insert_of_get? v h]
  refine (map_congr_left fun e he => ?_).trans (map_id _)
  split
  · rename_i hk
    exact (entry_eq he (mem_entries_iff.mpr h) hk).symm
  · rfl

theorem map_values_insert {g : ν → τ} (h : m.get? k = some v) (hg : g v' = g v) :
    (m.insert k v').values.map g = m.values.map g := by
  unfold values
  rw [insert_of_get? v' h, List.map_map, List.map_map, List.map_map]
  refine List.map_congr_left fun e he => ?_
  simp only [Function.comp_apply]
  split
  · rename_i hk
    rw [entry_eq he (mem_entries_iff.mpr h) hk]
    exact hg
  · rfl

theorem filter_values_insert {p : ν → Bool} (h : m.get? k = some v) (hv : p v = false) (hv' : p v' = false) :
    (m.insert k v').values.filter p = m.values.filter p := by
  unfold values
  rw [insert_of_get? v' h, List.filter_map, List.filter_map, List.filter_map, List.map_map]
  have hsame : ∀ e ∈ m.entries,
      ((p ∘ Prod.snd) ∘ fun e : κ × ν => if e.1 = k then (k, v') else e) e = (p ∘ Prod.snd) e := by
    intro e he
    simp only [Function.comp_apply]
    split
    · rename_i hk
      rw [entry_eq he (mem_entries_iff.mpr h) hk, hv, hv']
    · rfl
  rw [List.filter_congr hsame]
  refine List.map_congr_left fun e he => ?_
  rw [List.mem_filter] at he
  simp only [Function.comp_apply] at he ⊢
  split
  · rename_i hk
    rw [entry_eq he.1 (mem_entries_iff.mpr h) hk, hv] at he
    cases he.2
  · rfl

theorem filterMap_insertEntry {f : ν → Option τ} (hs : es.Pairwise fun a b => a.1 < b.1)
    (h : f v' = ((es.find? fun e => e.1 = k).map Prod.snd).bind f) :
    ((insertEntry k v' es).map Prod.snd).filterMap f = (es.map Prod.snd).filterMap f := by
  induction es with
  | nil =>
    have hnone : f v' = none := h
    simp [insertEntry, hnone]
  | cons e es ih =>
    have hcons := pairwise_cons.mp hs
    rw [insertEntry]
    split
    · rename_i hlt
      have habsent : ((e :: es).find? fun e => e.1 = k) = none := by
        refine find?_eq_none.mpr fun e' he' => ?_
        have hlt' : k < e'.1 := by
          rcases mem_cons.mp he' with rfl | he'
          · exact hlt
          · exact lt_trans hlt (hcons.1 e' he')
        simpa using ne_of_gt hlt'
      have hnone : f v' = none := by rw [h, habsent, map_none, bind_none]
      rw [map_cons, filterMap_cons_none hnone]
    · split
      · rename_i heq
        rw [find?_cons_of_pos (by simp [heq]), map_some, bind_some] at h
        rw [map_cons, map_cons, filterMap_cons, filterMap_cons, h]
      · rename_i hne
        rw [find?_cons_of_neg (by simpa using Ne.symm hne)] at h
        rw [map_cons, map_cons, filterMap_cons, filterMap_cons, ih hcons.2 h]

theorem filterMap_values_insert {f : ν → Option τ} (h : f v' = (m.get? k).bind f) :
    (m.insert k v').values.filterMap f = m.values.filterMap f :=
  filterMap_insertEntry m.sorted h

/-- The first entry that meets a condition is still the first when its value is replaced by one that
meets it. -/
theorem find?_insert_of_find? (h : m.entries.find? p = some (k, v)) (hp : p (k, v') = true) :
    (m.insert k v').entries.find? p = some (k, v') := by
  have hmem := mem_of_find?_eq_some h
  rw [insert_of_get? v' (mem_entries_iff.mp hmem), find?_map]
  have hfirst : (m.entries.find? (p ∘ fun e => if e.1 = k then (k, v') else e)) = some (k, v) := by
    rw [← h]
    refine find?_congr fun e he => ?_
    simp only [Function.comp_apply]
    split
    · rename_i hk
      rw [entry_eq he hmem hk, hp, find?_some h]
    · rfl
  rw [hfirst, map_some, if_pos rfl]

theorem size_insert_of_get? (v' : ν) (h : m.get? k = some v) : (m.insert k v').size = m.size := by
  unfold size
  rw [insert_of_get? v' h, length_map]

theorem size_insert_of_none (v : ν) (h : m.get? k = none) : (m.insert k v).size = m.size + 1 :=
  (insert_perm v h).length_eq

variable (m)

theorem size_le_insert (k : κ) (v : ν) : m.size ≤ (m.insert k v).size := by
  cases h : m.get? k with
  | none =>
    rw [size_insert_of_none v h]
    exact Nat.le_succ _
  | some v' => rw [size_insert_of_get? v h]

/-! ## Removal -/

def erase (k : κ) : OrderedMap κ ν where
  entries := m.entries.filter fun e => e.1 ≠ k
  sorted := m.sorted.filter _

theorem get?_erase (k k' : κ) : (m.erase k).get? k' = if k = k' then none else m.get? k' := by
  split
  · rename_i hk
    subst hk
    cases h : (m.erase k).get? k with
    | none => rfl
    | some v =>
      have hmem := (mem_filter.mp (mem_entries_iff.mpr h)).2
      simp at hmem
  · rename_i hk
    have hiff : ∀ v, (m.erase k).get? k' = some v ↔ m.get? k' = some v := by
      intro v
      rw [← mem_entries_iff, ← mem_entries_iff]
      show (k', v) ∈ m.entries.filter _ ↔ _
      rw [mem_filter]
      simp [Ne.symm hk]
    cases h : m.get? k' with
    | some v => rw [(hiff v).mpr h]
    | none =>
      cases h' : (m.erase k).get? k' with
      | none => rfl
      | some v =>
        rw [(hiff v).mp h'] at h
        cases h

variable {m}

/-- Keep the entries with `p`. -/
def filter (m : OrderedMap κ ν) (p : κ × ν → Bool) : OrderedMap κ ν where
  entries := m.entries.filter p
  sorted := m.sorted.filter _

theorem get?_filter_eq_some : (m.filter p).get? k = some v ↔ m.get? k = some v ∧ p (k, v) = true := by
  rw [← mem_entries_iff, ← mem_entries_iff]
  exact mem_filter

theorem insert_perm_erase (m : OrderedMap κ ν) (k : κ) (v : ν) :
    (m.insert k v).entries.Perm ((k, v) :: (m.erase k).entries) := by
  have hfresh : (k, v) ∉ (m.erase k).entries := by
    intro hmem
    have h := mem_entries_iff.mp hmem
    rw [get?_erase, if_pos rfl] at h
    cases h
  refine (perm_ext_iff_of_nodup (nodup_entries _) (nodup_cons.mpr ⟨hfresh, nodup_entries _⟩)).mpr fun e => ?_
  obtain ⟨k', v'⟩ := e
  rw [mem_cons, mem_entries_iff, mem_entries_iff, get?_insert, get?_erase]
  by_cases hk : k = k'
  · subst hk
    simp [eq_comm]
  · simp [hk, Ne.symm hk]

theorem perm_erase (h : m.get? k = some v) : m.entries.Perm ((k, v) :: (m.erase k).entries) := by
  have hperm := insert_perm_erase m k v
  rwa [insert_self h] at hperm

theorem size_erase_of_get? (h : m.get? k = some v) : (m.erase k).size + 1 = m.size := by
  have := (perm_erase h).length_eq
  rw [length_cons] at this
  exact this.symm

variable (g : ν → ℕ)

theorem sum_values_insert (m : OrderedMap κ ν) (k : κ) (v : ν) :
    ((m.insert k v).values.map g).sum + ((m.get? k).map g).getD 0 = (m.values.map g).sum + g v := by
  have hinsert := ((insert_perm_erase m k v).map fun e => g e.2).sum_eq
  unfold values
  rw [List.map_map, List.map_map]
  cases h : m.get? k with
  | none =>
    have hnone := ((insert_perm v h).map fun e => g e.2).sum_eq
    rw [List.map_cons, List.sum_cons] at hnone
    exact hnone.trans (Nat.add_comm _ _)
  | some old =>
    have hold := ((perm_erase h).map fun e => g e.2).sum_eq
    rw [List.map_cons, List.sum_cons] at hinsert hold
    dsimp only at hinsert hold
    show (List.map (fun e : κ × ν => g e.2) _).sum + g old = (List.map (fun e : κ × ν => g e.2) _).sum + g v
    omega

theorem sum_values_update (v' : ν) (h : m.get? k = some v) :
    ((m.insert k v').values.map g).sum + g v = (m.values.map g).sum + g v' := by
  have hsum := sum_values_insert g m k v'
  rw [h] at hsum
  exact hsum

theorem sum_values_erase (h : m.get? k = some v) : ((m.erase k).values.map g).sum + g v = (m.values.map g).sum := by
  have hperm := ((perm_erase h).map fun e => g e.2).sum_eq
  rw [List.map_cons, List.sum_cons] at hperm
  unfold values
  rw [List.map_map, List.map_map]
  exact (Nat.add_comm _ _).trans hperm.symm

theorem le_sum_values (h : m.get? k = some v) : g v ≤ (m.values.map g).sum := by
  have := sum_values_erase g h
  omega

theorem flatMap_values_insert {f : ν → List τ} {new : List τ} (h : (f v').Perm (new ++ ((m.get? k).map f).getD [])) :
    ((m.insert k v').values.flatMap f).Perm (new ++ m.values.flatMap f) := by
  have hinsert := ((insert_perm_erase m k v').map Prod.snd).flatMap_right f
  rw [map_cons, flatMap_cons] at hinsert
  refine hinsert.trans ?_
  cases hk : m.get? k with
  | none =>
    have herase : m.erase k = m := by
      apply ext_entries
      refine filter_eq_self.mpr fun e he => ?_
      have hne : e.1 ≠ k := by
        intro heq
        have hget := mem_entries_iff.mp (show (k, e.2) ∈ m.entries from heq ▸ he)
        rw [hk] at hget
        cases hget
      simpa using hne
    rw [hk, map_none, getD_none, append_nil] at h
    rw [herase]
    exact h.append_right _
  | some v =>
    have hold := ((perm_erase hk).map Prod.snd).flatMap_right f
    rw [map_cons, flatMap_cons] at hold
    rw [hk, map_some, getD_some] at h
    refine (h.append_right _).trans ?_
    rw [append_assoc]
    exact hold.symm.append_left new

/-! ## Loops over the entries -/

/-- A loop over the entries visits every key once. -/
theorem foldl_entries {σ α β : Type} (changes : OrderedMap κ α) (step : σ → κ × α → σ) (get : σ → κ → β)
    (put : α → β → β)
    (hstep : ∀ s e k, get (step s e) k = if e.1 = k then put e.2 (get s k) else get s k) (s : σ) (k : κ) :
    get (changes.entries.foldl step s) k =
      match changes.get? k with
      | some a => put a (get s k)
      | none => get s k := by
  have hlist : ∀ es : List (κ × α), (es.map Prod.fst).Nodup → ∀ s, get (es.foldl step s) k =
      match (es.find? fun e => e.1 = k).map Prod.snd with
      | some a => put a (get s k)
      | none => get s k := by
    intro es hnodup
    induction es with
    | nil => exact fun s => rfl
    | cons e es ih =>
      intro s
      rw [map_cons, nodup_cons] at hnodup
      rw [foldl_cons, ih hnodup.2, hstep]
      by_cases hk : e.1 = k
      · have hnone : (es.find? fun e => e.1 = k) = none := by
          rw [find?_eq_none]
          intro e' he' heq
          refine hnodup.1 (mem_map.mpr ⟨e', he', ?_⟩)
          rw [hk]
          simpa using heq
        rw [hnone, find?_cons_of_pos (by simpa using hk), if_pos hk]
        rfl
      · rw [find?_cons_of_neg (by simpa using hk), if_neg hk]
  exact hlist changes.entries changes.nodup_keys s

theorem size_le_of_keys {α : Type} {m : OrderedMap κ ν} {keys : List (κ × α)}
    (h : ∀ {k v}, m.get? k = some v → k ∈ keys.map Prod.fst) : m.size ≤ keys.length := by
  have hsub : m.entries.map Prod.fst ⊆ keys.map Prod.fst := by
    intro k hk
    obtain ⟨e, he, rfl⟩ := mem_map.mp hk
    exact h (mem_entries_iff.mp he)
  have hle := (subperm_of_subset m.nodup_keys hsub).length_le
  rwa [length_map, length_map] at hle

theorem ext_get? {m' : OrderedMap κ ν} (h : ∀ k, m.get? k = m'.get? k) : m = m' := by
  apply ext_entries
  have hperm : m.entries.Perm m'.entries := by
    refine (perm_ext_iff_of_nodup m.nodup_entries m'.nodup_entries).mpr fun e => ?_
    have hread : m.get? e.1 = some e.2 ↔ m'.get? e.1 = some e.2 := by rw [h e.1]
    exact mem_entries_iff.trans (hread.trans mem_entries_iff.symm)
  exact hperm.eq_of_pairwise (fun a b _ _ hab hba => absurd (lt_trans hab hba) (lt_irrefl _)) m.sorted m'.sorted

/-! ## Rewriting every value -/

def mapValues (m : OrderedMap κ ν) (f : ν → ν) : OrderedMap κ ν where
  entries := m.entries.map fun e => (e.1, f e.2)
  sorted := by
    rw [pairwise_map]
    exact m.sorted

theorem get?_mapValues (m : OrderedMap κ ν) (f : ν → ν) (k : κ) : (m.mapValues f).get? k = (m.get? k).map f := by
  have hmap : ∀ es : List (κ × ν),
      ((es.map fun e => (e.1, f e.2)).find? fun e => e.1 = k).map Prod.snd =
        ((es.find? fun e => e.1 = k).map Prod.snd).map f := by
    intro es
    induction es with
    | nil => rfl
    | cons e es ih =>
      rw [map_cons]
      by_cases h : e.1 = k
      · rw [find?_cons_of_pos (by simpa using h), find?_cons_of_pos (by simpa using h)]
        rfl
      · rw [find?_cons_of_neg (by simpa using h), find?_cons_of_neg (by simpa using h), ih]
  exact hmap m.entries

end OrderedMap

end CcSwitchServer.Foundations
