import Mathlib.Tactic

/-! # Tables with a primary key

A table is a list of rows whose keys are pairwise different.
-/

namespace CcSwitchServer.Foundations
open List

/-- Rows with pairwise different keys. -/
structure Table (ρ κ : Type) (key : ρ → κ) where
  rows : List ρ
  nodup : (rows.map key).Nodup

namespace Table
variable {ρ κ : Type} {key : ρ → κ}

def empty : Table ρ κ key := ⟨[], nodup_nil⟩

@[simp] theorem empty_rows : (empty : Table ρ κ key).rows = [] := rfl

/-- Delete every row that `p` does not keep. -/
def filter (t : Table ρ κ key) (p : ρ → Prop) [DecidablePred p] : Table ρ κ key where
  rows := t.rows.filter p
  nodup := (List.Sublist.map key (filter_sublist (l := t.rows))).nodup t.nodup

variable [DecidableEq κ]

def find? (t : Table ρ κ key) (k : κ) : Option ρ := t.rows.find? fun r => key r = k

variable {t : Table ρ κ key} {k : κ} {r : ρ}

theorem find?_mem (h : t.find? k = some r) : r ∈ t.rows := mem_of_find?_eq_some h

theorem find?_key (h : t.find? k = some r) : key r = k := by
  simpa using find?_some h

theorem find?_eq_none : t.find? k = none ↔ ∀ r ∈ t.rows, key r ≠ k := by
  simp [find?]

theorem find?_of_mem (h : r ∈ t.rows) : t.find? (key r) = some r := by
  have hsome : (t.find? (key r)).isSome := by
    rw [find?, find?_isSome]
    exact ⟨r, h, by simp⟩
  obtain ⟨r', hr'⟩ := Option.isSome_iff_exists.mp hsome
  have hkey := find?_key hr'
  rw [hr', inj_on_of_nodup_map t.nodup (find?_mem hr') h hkey]

theorem find?_eq_some : t.find? k = some r ↔ r ∈ t.rows ∧ key r = k := by
  constructor
  · intro h
    exact ⟨find?_mem h, find?_key h⟩
  · rintro ⟨h, rfl⟩
    exact find?_of_mem h

/-! ## The rows under other keys -/

def others (t : Table ρ κ key) (k : κ) : List ρ := t.rows.filter fun r => key r ≠ k

theorem mem_others : r ∈ t.others k ↔ r ∈ t.rows ∧ key r ≠ k := by
  simp [others]

theorem others_of_none (h : t.find? k = none) : t.others k = t.rows := by
  rw [others, filter_eq_self]
  intro r hr
  simpa using find?_eq_none.mp h r hr

private theorem perm_filter_ne (k : κ) (r : ρ) (hk : key r = k) :
    ∀ rows : List ρ, (rows.map key).Nodup → r ∈ rows → rows.Perm (r :: rows.filter fun x => key x ≠ k)
  | [], _, h => by simp at h
  | x :: rows, hn, h => by
      rw [map_cons, nodup_cons] at hn
      rcases mem_cons.mp h with rfl | hr
      · have hall : (rows.filter fun y => key y ≠ k) = rows := by
          rw [filter_eq_self]
          intro y hy
          have : key y ≠ k := by
            rintro rfl
            exact hn.1 (hk ▸ mem_map_of_mem hy)
          simpa using this
        rw [filter_cons_of_neg (by simpa using hk), hall]
      · have hx : key x ≠ k := by
          rintro rfl
          exact hn.1 (hk ▸ mem_map_of_mem hr)
        rw [filter_cons_of_pos (by simpa using hx)]
        exact ((perm_filter_ne k r hk rows hn.2 hr).cons x).trans (List.Perm.swap r x _)

theorem rows_perm (h : t.find? k = some r) : t.rows.Perm (r :: t.others k) :=
  perm_filter_ne k r (find?_key h) t.rows t.nodup (find?_mem h)

/-! ## Insertion -/

def insert (t : Table ρ κ key) (r : ρ) (h : t.find? (key r) = none) : Table ρ κ key where
  rows := t.rows ++ [r]
  nodup := by
    rw [map_append, map_singleton, nodup_append]
    refine ⟨t.nodup, nodup_singleton _, ?_⟩
    intro k hk k' hk'
    obtain ⟨r', hr', rfl⟩ := mem_map.mp hk
    rw [mem_singleton] at hk'
    rw [hk']
    exact find?_eq_none.mp h r' hr'

theorem insert_perm (t : Table ρ κ key) (r : ρ) (h : t.find? (key r) = none) :
    (t.insert r h).rows.Perm (r :: t.rows) := by
  exact perm_append_comm

@[simp] theorem mem_insert {x : ρ} {h : t.find? (key r) = none} : x ∈ (t.insert r h).rows ↔ x ∈ t.rows ∨ x = r := by
  simp [insert]

theorem find?_insert (t : Table ρ κ key) (r : ρ) (h : t.find? (key r) = none) (k : κ) :
    (t.insert r h).find? k = if key r = k then some r else t.find? k := by
  by_cases hk : key r = k
  · subst hk
    rw [if_pos rfl, find?_of_mem (by simp)]
  · rw [if_neg hk]
    simp only [find?, insert, find?_append]
    simp [hk]

theorem find?_insert_self (t : Table ρ κ key) (r : ρ) (h : t.find? (key r) = none) :
    (t.insert r h).find? (key r) = some r := by
  rw [find?_insert, if_pos rfl]

/-- A key that is taken is refused. -/
def tryInsert (t : Table ρ κ key) (r : ρ) : Option (Table ρ κ key) :=
  if h : t.find? (key r) = none then some (t.insert r h) else none

theorem tryInsert_eq_some {t' : Table ρ κ key} :
    t.tryInsert r = some t' ↔ ∃ h : t.find? (key r) = none, t' = t.insert r h := by
  unfold tryInsert
  split
  · rename_i h
    simp [h, eq_comm]
  · rename_i h
    simp [h]

/-! ## Rewriting one row -/

/-- The row of a key is rewritten under the same key. -/
def modify (t : Table ρ κ key) (k : κ) (f : ρ → ρ) (hf : ∀ r, key (f r) = key r) : Table ρ κ key where
  rows := t.rows.map fun r => if key r = k then f r else r
  nodup := by
    have : (t.rows.map fun r => if key r = k then f r else r).map key = t.rows.map key := by
      rw [map_map]
      apply map_congr_left
      intro r _
      simp only [Function.comp_apply]
      split
      · exact hf r
      · rfl
    rw [this]
    exact t.nodup

theorem mem_modify {f : ρ → ρ} {hf : ∀ r, key (f r) = key r} {x : ρ} :
    x ∈ (t.modify k f hf).rows ↔ ∃ r ∈ t.rows, x = if key r = k then f r else r := by
  simp [modify, eq_comm]

theorem find?_modify (t : Table ρ κ key) (k : κ) (f : ρ → ρ) (hf : ∀ r, key (f r) = key r)
    (k' : κ) : (t.modify k f hf).find? k' = if k' = k then (t.find? k').map f else t.find? k' := by
  have hmap : ∀ rows : List ρ,
      (rows.map fun r => if key r = k then f r else r).find? (fun r => key r = k') =
        if k' = k then (rows.find? fun r => key r = k').map f else rows.find? fun r => key r = k' := by
    intro rows
    induction rows with
    | nil => simp
    | cons r rows ih =>
      by_cases hr : key r = k'
      · subst hr
        by_cases hk : key r = k <;> simp [hk, hf]
      · have hr' : key (if key r = k then f r else r) ≠ k' := by
          split
          · rwa [hf]
          · exact hr
        rw [map_cons, find?_cons_of_neg (by simpa using hr'), ih, find?_cons_of_neg (by simpa using hr)]
  exact hmap t.rows

theorem find?_modify_self (h : t.find? k = some r) (f : ρ → ρ) (hf : ∀ r, key (f r) = key r) :
    (t.modify k f hf).find? k = some (f r) := by
  rw [find?_modify, if_pos rfl, h, Option.map_some]

theorem find?_modify_of_ne {k' : κ} (h : k' ≠ k) (f : ρ → ρ) (hf : ∀ r, key (f r) = key r) :
    (t.modify k f hf).find? k' = t.find? k' := by
  rw [find?_modify, if_neg h]

theorem others_modify (t : Table ρ κ key) (k : κ) (f : ρ → ρ) (hf : ∀ r, key (f r) = key r) :
    (t.modify k f hf).others k = t.others k := by
  simp only [others, modify]
  induction t.rows with
  | nil => rfl
  | cons r rows ih =>
    rw [map_cons]
    by_cases hr : key r = k
    · rw [filter_cons_of_neg (by simp [hr, hf]), filter_cons_of_neg (by simpa using hr), ih]
    · rw [if_neg hr, filter_cons_of_pos (by simpa using hr), filter_cons_of_pos (by simpa using hr), ih]

theorem modify_perm (h : t.find? k = some r) (f : ρ → ρ) (hf : ∀ r, key (f r) = key r) :
    (t.modify k f hf).rows.Perm (f r :: t.others k) := by
  have hp := rows_perm (find?_modify_self h f hf)
  rwa [others_modify] at hp

variable (t)

theorem map_modify {τ : Type} {g : ρ → τ} (k : κ) {f : ρ → ρ} (hf : ∀ r, key (f r) = key r) (hg : ∀ r, g (f r) = g r) :
    (t.modify k f hf).rows.map g = t.rows.map g := by
  simp only [modify, map_map]
  apply map_congr_left
  intro r _
  simp only [Function.comp_apply]
  split
  · exact hg r
  · rfl

@[simp] theorem length_modify (k : κ) (f : ρ → ρ)
    (hf : ∀ r, key (f r) = key r) : (t.modify k f hf).rows.length = t.rows.length := by
  simp [modify]

/-! ## Deletion -/

def erase (k : κ) : Table ρ κ key where
  rows := t.others k
  nodup := (List.Sublist.map key (filter_sublist (l := t.rows))).nodup t.nodup

@[simp] theorem erase_rows (k : κ) : (t.erase k).rows = t.others k := rfl

theorem find?_erase (k k' : κ) : (t.erase k).find? k' = if k' = k then none else t.find? k' := by
  by_cases hk : k' = k
  · subst hk
    rw [if_pos rfl, find?_eq_none]
    intro r hr
    exact (mem_others.mp hr).2
  · rw [if_neg hk]
    cases h : t.find? k' with
    | none =>
      rw [find?_eq_none] at h ⊢
      intro r hr
      exact h r (mem_others.mp hr).1
    | some r =>
      rw [find?_eq_some] at h ⊢
      exact ⟨mem_others.mpr ⟨h.1, h.2 ▸ hk⟩, h.2⟩

variable {t}

theorem find?_filter_of_key {p : ρ → Prop} [DecidablePred p] {q : κ → Prop} [DecidablePred q]
    (hpq : ∀ r, p r ↔ q (key r)) (k : κ) : (t.filter p).find? k = if q k then t.find? k else none := by
  by_cases hk : q k
  · rw [if_pos hk]
    cases h : t.find? k with
    | none =>
      rw [find?_eq_none] at h ⊢
      intro r hr
      exact h r (mem_of_mem_filter hr)
    | some r =>
      rw [find?_eq_some] at h ⊢
      exact ⟨mem_filter.mpr ⟨h.1, by simpa [hpq, h.2] using hk⟩, h.2⟩
  · rw [if_neg hk, find?_eq_none]
    rintro r hr rfl
    exact hk ((hpq r).mp (by simpa using (mem_filter.mp hr).2))

/-! ## Insert or replace -/

variable (t)

def upsert (r : ρ) : Table ρ κ key := (t.erase (key r)).insert r (by rw [find?_erase, if_pos rfl])

theorem upsert_rows (r : ρ) : (t.upsert r).rows = t.others (key r) ++ [r] := rfl

theorem find?_upsert (r : ρ) (k : κ) : (t.upsert r).find? k = if key r = k then some r else t.find? k := by
  rw [upsert, find?_insert]
  by_cases hk : key r = k
  · rw [if_pos hk, if_pos hk]
  · rw [if_neg hk, if_neg hk, find?_erase, if_neg (Ne.symm hk)]

theorem find?_upsert_self (h : key r = k) : (t.upsert r).find? k = some r := by
  rw [find?_upsert, if_pos h]

theorem find?_upsert_of_ne (h : key r ≠ k) : (t.upsert r).find? k = t.find? k := by
  rw [find?_upsert, if_neg h]

end Table

end CcSwitchServer.Foundations
