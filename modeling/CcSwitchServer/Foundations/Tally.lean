import Mathlib.Tactic

/-! # Ordered maps of counters

An ordered map to `ℕ` in which an absent key counts as zero.
-/

namespace CcSwitchServer.Foundations
open Std List ExtTreeMap LawfulEqCmp

/-! ## Fibers of a list -/

theorem filter_perm_flatMap_fibers {α β : Type} [DecidableEq β] (g : α → β) (ds : List β)
    (hd : ds.Nodup) (xs : List α) :
    (xs.filter fun x => g x ∈ ds).Perm (ds.flatMap fun d => xs.filter fun x => g x = d) := by
  induction ds with
  | nil => simp
  | cons d ds ih =>
    rw [nodup_cons] at hd
    rw [flatMap_cons]
    have hsplit := filter_append_perm (fun x => g x = d) (xs.filter fun x => g x ∈ d :: ds)
    rw [filter_filter, filter_filter] at hsplit
    have hfst : (xs.filter fun x => decide (g x = d) && decide (g x ∈ d :: ds)) = xs.filter fun x => g x = d := by
      apply filter_congr
      intro x _
      by_cases hx : g x = d <;> simp [hx]
    have hsnd : (xs.filter fun x => !decide (g x = d) && decide (g x ∈ d :: ds)) = xs.filter fun x => g x ∈ ds := by
      apply filter_congr
      intro x _
      by_cases hx : g x = d
      · simp [hx, hd.1]
      · simp [hx]
    rw [hfst, hsnd] at hsplit
    exact hsplit.symm.trans ((ih hd.2).append_left _)

section
variable {κ ν : Type} {cmp : κ → κ → Ordering} [TransCmp cmp] [LawfulEqCmp cmp]

variable (m : ExtTreeMap κ ν cmp)

theorem toList_nodup : m.toList.Nodup := by
  have h := m.distinct_keys_toList
  refine h.imp ?_
  rintro a b hab rfl
  exact hab ReflCmp.compare_self

variable [DecidableEq κ]

theorem toList_insert_perm (k : κ) (v : ν) :
    (m.insert k v).toList.Perm ((k, v) :: m.toList.filter fun p => p.1 ≠ k) := by
  have hcons : ((k, v) :: m.toList.filter fun p => p.1 ≠ k).Nodup := by
    rw [List.nodup_cons]
    exact ⟨by simp, (toList_nodup m).filter _⟩
  rw [List.perm_ext_iff_of_nodup (toList_nodup _) hcons]
  rintro ⟨k', v'⟩
  rw [ExtTreeMap.mem_toList_iff_getElem?_eq_some, ExtTreeMap.getElem?_insert, List.mem_cons,
    List.mem_filter, ExtTreeMap.mem_toList_iff_getElem?_eq_some]
  by_cases hk : k' = k
  · subst hk
    have hc : cmp k' k' = .eq := ReflCmp.compare_self
    simp [hc, eq_comm (a := v)]
  · have hk' : cmp k k' ≠ .eq := fun h => hk (LawfulEqCmp.eq_of_compare h).symm
    simp [hk, hk']

theorem toList_erase_perm (k : κ) : (m.erase k).toList.Perm (m.toList.filter fun p => p.1 ≠ k) := by
  rw [perm_ext_iff_of_nodup (toList_nodup _) ((toList_nodup m).filter _)]
  rintro ⟨k', v'⟩
  rw [mem_toList_iff_getElem?_eq_some, getElem?_erase, mem_filter, mem_toList_iff_getElem?_eq_some]
  by_cases hk : k' = k
  · subst hk
    simp
  · have hk' : cmp k k' ≠ .eq := fun h => hk (eq_of_compare h).symm
    simp [hk, hk']

theorem toList_perm_of_getElem? {m : ExtTreeMap κ ν cmp} {k : κ} {v : ν} (h : m[k]? = some v) :
    m.toList.Perm ((k, v) :: m.toList.filter fun p => p.1 ≠ k) := by
  have hi := toList_insert_perm m k v
  have hm : m.insert k v = m := by
    apply ExtTreeMap.ext_getElem?
    intro k'
    rw [ExtTreeMap.getElem?_insert]
    split
    · rename_i hc
      rw [← eq_of_compare hc, h]
    · rfl
  rwa [hm] at hi

end

theorem sum_fibers {α β : Type} [DecidableEq β] (g : α → β) (f : α → ℕ) {ds : List β} (hd : ds.Nodup)
    {xs : List α} (h : ∀ x ∈ xs, g x ∈ ds) :
    (ds.map fun d => (xs.map fun x => if g x = d then f x else 0).sum).sum = (xs.map f).sum := by
  induction xs with
  | nil => simp
  | cons x xs ih =>
    have hx : (ds.map fun d => if g x = d then f x else 0).sum = f x := by
      rw [sum_map_eq_nsmul_single (g x) _ fun d hne _ => if_neg (Ne.symm hne),
        count_eq_one_of_mem hd (h x mem_cons_self), if_pos rfl, one_nsmul]
    simp only [map_cons, sum_cons, sum_map_add]
    rw [hx, ih fun y hy => h y (mem_cons_of_mem _ hy)]

theorem sum_filter_ite {α : Type} (p : α → Bool) (g : α → ℕ) (xs : List α) :
    ((xs.filter p).map g).sum = (xs.map fun x => if p x then g x else 0).sum := by
  induction xs with
  | nil => rfl
  | cons x xs ih =>
    rw [map_cons, sum_cons, ← ih]
    by_cases hp : p x = true
    · rw [filter_cons_of_pos hp, map_cons, sum_cons, if_pos hp]
    · rw [filter_cons_of_neg hp, if_neg hp, Nat.zero_add]

/-! ## Counters -/

section
variable {κ : Type} {cmp : κ → κ → Ordering} [TransCmp cmp]

def total (m : ExtTreeMap κ ℕ cmp) : ℕ := (m.toList.map Prod.snd).sum

@[simp] theorem total_empty : total (∅ : ExtTreeMap κ ℕ cmp) = 0 := by
  simp [total, toList_eq_nil_iff.mpr rfl]

variable {m : ExtTreeMap κ ℕ cmp} {ks : List κ}

theorem insert_nonzero (hm : ∀ k : κ, m[k]? ≠ some 0) (k : κ) {v : ℕ} (hv : v ≠ 0) (k' : κ) :
    (m.insert k v)[k']? ≠ some 0 := by
  rw [ExtTreeMap.getElem?_insert]
  split
  · simpa using hv
  · exact hm k'

theorem erase_nonzero (hm : ∀ k : κ, m[k]? ≠ some 0) (k k' : κ) : (m.erase k)[k']? ≠ some 0 := by
  rw [getElem?_erase]
  split
  · simp
  · exact hm k'

variable [DecidableEq κ]

/-- `m` counts the occurrences of keys in `ks`, and holds no zero counter. -/
structure Counts (m : ExtTreeMap κ ℕ cmp) (ks : List κ) : Prop where
  getD_eq : ∀ k, m.getD k 0 = ks.count k
  nonzero : ∀ k : κ, m[k]? ≠ some 0
  total_eq : total m = ks.length

theorem Counts.empty : Counts (∅ : ExtTreeMap κ ℕ cmp) [] where
  getD_eq := by simp
  nonzero := by simp
  total_eq := by simp

theorem Counts.perm {ks' : List κ} (h : Counts m ks) (hp : ks.Perm ks') : Counts m ks' where
  getD_eq k := by rw [h.getD_eq, hp.count_eq]
  nonzero := h.nonzero
  total_eq := by rw [h.total_eq, hp.length_eq]

variable [LawfulEqCmp cmp]

private theorem filter_of_none {m : ExtTreeMap κ ℕ cmp} {k : κ} (h : m[k]? = none) :
    (m.toList.filter fun p => p.1 ≠ k) = m.toList := by
  rw [filter_eq_self]
  rintro ⟨k', v⟩ hm
  have hk : k' ≠ k := by
    rintro rfl
    rw [mem_toList_iff_getElem?_eq_some, h] at hm
    cases hm
  simpa using hk

variable (m)

theorem total_filter_ne (k : κ) : total m = m.getD k 0 + ((m.toList.filter fun p => p.1 ≠ k).map Prod.snd).sum := by
  rw [getD_eq_getD_getElem?]
  cases h : m[k]? with
  | none => rw [filter_of_none h, total, Option.getD_none, Nat.zero_add]
  | some v =>
    have hp := (toList_perm_of_getElem? h).map Prod.snd
    simpa [total] using hp.sum_eq

theorem total_insert (k : κ) (v : ℕ) : total (m.insert k v) + m.getD k 0 = total m + v := by
  have hi := ((toList_insert_perm m k v).map Prod.snd).sum_eq
  have hm := total_filter_ne m k
  simp only [map_cons, sum_cons] at hi
  simp only [total] at hm ⊢
  omega

theorem total_erase (k : κ) : total (m.erase k) + m.getD k 0 = total m := by
  have he := ((toList_erase_perm m k).map Prod.snd).sum_eq
  have hm := total_filter_ne m k
  simp only [total] at hm ⊢
  omega

theorem getD_le_total (k : κ) : m.getD k 0 ≤ total m := by
  have := total_filter_ne m k
  omega

theorem getD_insert_ite (k k' : κ) (v : ℕ) : (m.insert k v).getD k' 0 = if k = k' then v else m.getD k' 0 := by
  rw [getD_insert]
  by_cases hk : k = k'
  · rw [if_pos hk, if_pos (by rw [hk]; exact ReflCmp.compare_self)]
  · rw [if_neg hk, if_neg (fun h => hk (eq_of_compare h))]

theorem getD_erase_ite (k k' : κ) : (m.erase k).getD k' 0 = if k = k' then 0 else m.getD k' 0 := by
  rw [getD_erase]
  by_cases hk : k = k'
  · rw [if_pos hk, if_pos (by rw [hk]; exact ReflCmp.compare_self)]
  · rw [if_neg hk, if_neg (fun h => hk (eq_of_compare h))]

/-! ## The list a map counts -/

def expand : List κ := m.toList.flatMap fun p => replicate p.2 p.1

private theorem count_flatMap_replicate (ps : List (κ × ℕ)) (k : κ) :
    (ps.flatMap fun p => replicate p.2 p.1).count k = ((ps.filter fun p => p.1 = k).map Prod.snd).sum := by
  induction ps with
  | nil => rfl
  | cons p ps ih =>
    rw [flatMap_cons, count_append, ih, count_replicate]
    by_cases hp : p.1 = k <;> simp [hp]

theorem count_expand (k : κ) : (expand m).count k = m.getD k 0 := by
  rw [expand, count_flatMap_replicate, getD_eq_getD_getElem?]
  cases h : m[k]? with
  | none =>
    have hnil : (m.toList.filter fun p => p.1 = k) = [] := by
      rw [filter_eq_nil_iff]
      rintro ⟨k', v⟩ hm
      rw [mem_toList_iff_getElem?_eq_some] at hm
      simp only [decide_eq_true_eq]
      rintro rfl
      rw [h] at hm
      cases hm
    rw [hnil]
    rfl
  | some v =>
    have hp := (((toList_perm_of_getElem? h).filter fun p => p.1 = k).map Prod.snd).sum_eq
    rw [hp]
    simp

variable {m}

theorem Counts.perm_expand (h : Counts m ks) : ks.Perm (expand m) := by
  rw [perm_iff_count]
  intro k
  rw [count_expand, h.getD_eq]

theorem Counts.insert_succ (h : Counts m ks) (k : κ) : Counts (m.insert k (m.getD k 0 + 1)) (k :: ks) where
  getD_eq k' := by
    rw [getD_insert_ite, count_cons]
    by_cases hk : k = k'
    · subst hk
      simp [h.getD_eq]
    · simp [hk, h.getD_eq]
  nonzero := insert_nonzero h.nonzero k (by omega)
  total_eq := by
    have := total_insert m k (m.getD k 0 + 1)
    rw [length_cons, ← h.total_eq]
    omega

theorem Counts.insert_add (h : Counts m ks) (k : κ) (v : ℕ) (hv : v ≠ 0) :
    Counts (m.insert k (m.getD k 0 + v)) (replicate v k ++ ks) where
  getD_eq k' := by
    rw [getD_insert_ite, count_append, count_replicate]
    by_cases hk : k = k'
    · subst hk
      simp [h.getD_eq, Nat.add_comm]
    · simp [hk, h.getD_eq]
  nonzero := insert_nonzero h.nonzero k (by omega)
  total_eq := by
    have := total_insert m k (m.getD k 0 + v)
    rw [length_append, length_replicate, ← h.total_eq]
    omega

private theorem count_of_cons {ks : List κ} (k k' : κ) :
    (k :: ks).count k' = ks.count k' + if k = k' then 1 else 0 := by
  rw [count_cons]
  by_cases hk : k = k' <;> simp [hk]

theorem Counts.erase_last {k : κ} (h : Counts m (k :: ks)) (h1 : m.getD k 0 = 1) : Counts (m.erase k) ks where
  getD_eq k' := by
    have := h.getD_eq k'
    rw [count_of_cons] at this
    rw [getD_erase_ite]
    by_cases hk : k = k'
    · subst hk
      simp only [if_true] at this ⊢
      omega
    · simp only [if_neg hk] at this ⊢
      omega
  nonzero := erase_nonzero h.nonzero k
  total_eq := by
    have he := total_erase m k
    have ht := h.total_eq
    rw [length_cons] at ht
    omega

theorem Counts.insert_pred {k : κ} (h : Counts m (k :: ks)) (h1 : m.getD k 0 ≠ 1) :
    Counts (m.insert k (m.getD k 0 - 1)) ks where
  getD_eq k' := by
    have := h.getD_eq k'
    rw [count_of_cons] at this
    rw [getD_insert_ite]
    by_cases hk : k = k'
    · subst hk
      simp only [if_true] at this ⊢
      omega
    · simp only [if_neg hk] at this ⊢
      omega
  nonzero := by
    have := h.getD_eq k
    rw [count_of_cons, if_pos rfl] at this
    exact insert_nonzero h.nonzero k (by omega)
  total_eq := by
    have hi := total_insert m k (m.getD k 0 - 1)
    have ht := h.total_eq
    have hg := h.getD_eq k
    rw [count_of_cons, if_pos rfl] at hg
    rw [length_cons] at ht
    omega

end

end CcSwitchServer.Foundations
