import CcSwitchServer.Foundations.OrderedMap
import CcSwitchServer.Foundations.Checked

/-! # Tables written from lists

A store that keeps a list in memory writes it to a table.
-/

namespace CcSwitchServer.Foundations.OrderedMap
open List.Perm List

variable {κ ν α ε : Type} [LinearOrder κ]

/-- The entries are the rows of the items, in some order. -/
def Lists (m : OrderedMap κ ν) (f : α → κ × ν) (xs : List α) : Prop := m.entries.Perm (xs.map f)

variable {m m' : OrderedMap κ ν} {f : α → κ × ν} {xs ys : List α}

theorem lists_empty : Lists (empty : OrderedMap κ ν) f [] := List.Perm.refl []

theorem Lists.nodup (h : Lists m f xs) : (xs.map fun x => (f x).1).Nodup := by
  have hkeys := (map Prod.fst h).nodup_iff.mp m.nodup_keys
  rwa [map_map] at hkeys

theorem Lists.get? (h : Lists m f xs) {k : κ} {v : ν} : m.get? k = some v ↔ ∃ x ∈ xs, f x = (k, v) := by
  rw [← mem_entries_iff, h.mem_iff, mem_map]

theorem Lists.map_entries {τ : Type} (h : Lists m f xs) (g : κ × ν → τ) :
    (m.entries.map g).Perm (xs.map fun x => g (f x)) := by
  have hperm := map g h
  rwa [map_map] at hperm

theorem lists_of_get? (hnodup : (xs.map fun x => (f x).1).Nodup)
    (h : ∀ k v, m.get? k = some v ↔ ∃ x ∈ xs, f x = (k, v)) : Lists m f xs := by
  have hrows : (xs.map f).Nodup := by
    apply List.Nodup.of_map Prod.fst
    rwa [map_map]
  refine (perm_ext_iff_of_nodup m.nodup_entries hrows).mpr ?_
  rintro ⟨k, v⟩
  rw [mem_entries_iff, h, mem_map]

theorem Lists.insert (h : Lists m f xs) {x : α} (hnew : m.get? (f x).1 = none) :
    Lists (m.insert (f x).1 (f x).2) f (xs ++ [x]) := by
  unfold Lists
  rw [map_append, map_singleton]
  exact ((insert_perm _ hnew).trans (h.cons _)).trans (perm_append_singleton _ _).symm

theorem Lists.mapM {β : Type} {d : κ × ν → Except ε β} {g : α → β} (h : Lists m f xs)
    (hd : ∀ x ∈ xs, d (f x) = .ok (g x)) : ∃ ys, m.entries.mapM d = .ok ys ∧ ys.Perm (xs.map g) := by
  have hperm : ∀ {es : List (κ × ν)} {rows : List (κ × ν)}, es.Perm rows → ∀ {zs : List β},
      rows.mapM d = .ok zs → ∃ ys, es.mapM d = .ok ys ∧ ys.Perm zs := by
    intro es rows hes
    induction hes with
    | nil => exact fun {zs} hzs => ⟨zs, hzs, List.Perm.refl _⟩
    | cons row _ ih =>
      intro zs hzs
      rw [mapM_cons] at hzs ⊢
      obtain ⟨y, hy, hzs⟩ := bind_eq_ok.mp hzs
      obtain ⟨ys, hys, hzs⟩ := bind_eq_ok.mp hzs
      cases hzs
      obtain ⟨ys', hys', hys''⟩ := ih hys
      exact ⟨y :: ys', by rw [hy, ok_bind, hys', ok_bind]; rfl, hys''.cons y⟩
    | swap row row' rows =>
      intro zs hzs
      rw [mapM_cons, mapM_cons] at hzs ⊢
      obtain ⟨y, hy, hzs⟩ := bind_eq_ok.mp hzs
      obtain ⟨ys, hys, hzs⟩ := bind_eq_ok.mp hzs
      obtain ⟨y', hy', hys⟩ := bind_eq_ok.mp hys
      obtain ⟨ys', hys', hys⟩ := bind_eq_ok.mp hys
      cases hys
      cases hzs
      refine ⟨y' :: y :: ys', ?_, swap y y' ys'⟩
      rw [hy', ok_bind, hy, ok_bind, hys', ok_bind]
      rfl
    | trans _ _ ih ih' =>
      intro zs hzs
      obtain ⟨ys, hys, hperm⟩ := ih' hzs
      obtain ⟨ys', hys', hperm'⟩ := ih hys
      exact ⟨ys', hys', hperm'.trans hperm⟩
  have hitems : ∀ {zs : List α}, (∀ x ∈ zs, d (f x) = .ok (g x)) → (zs.map f).mapM d = .ok (zs.map g) := by
    intro zs hzs
    induction zs with
    | nil => rfl
    | cons x zs ih =>
      rw [map_cons, mapM_cons, hzs x mem_cons_self, ok_bind, ih fun y hy => hzs y (mem_cons_of_mem _ hy), ok_bind]
      rfl
  exact hperm h (hitems hd)

theorem get?_foldl_entries {τ : Type} (g : ν → τ) (m : OrderedMap κ ν) (k : κ) :
    (m.entries.foldl (fun (out : OrderedMap κ τ) row => out.insert row.1 (g row.2)) empty).get? k =
      (m.get? k).map g := by
  have hgen : ∀ {es : List (κ × ν)} {out : OrderedMap κ τ}, (es.map Prod.fst).Nodup →
      (es.foldl (fun (out : OrderedMap κ τ) row => out.insert row.1 (g row.2)) out).get? k =
        ((es.find? fun row => row.1 = k).map fun row => g row.2).or (out.get? k) := by
    intro es
    induction es with
    | nil => exact fun _ => rfl
    | cons row es ih =>
      intro out hnodup
      rw [map_cons, nodup_cons] at hnodup
      rw [foldl_cons, ih hnodup.2]
      by_cases hk : row.1 = k
      · have hnone : es.find? (fun row => row.1 = k) = none := by
          rw [find?_eq_none]
          intro row' hrow' heq
          have heq : row'.1 = k := by simpa using heq
          exact hnodup.1 (hk ▸ heq ▸ mem_map_of_mem hrow')
        rw [hnone, find?_cons_of_pos (by simpa using hk), hk, get?_insert_self]
        rfl
      · rw [find?_cons_of_neg (by simpa using hk), get?_insert_of_ne _ _ hk]
  rw [hgen m.nodup_keys, get?_empty, Option.or_none]
  unfold get?
  rw [Option.map_map]
  rfl

/-! ## Inserting -/

theorem Lists.foldlM_insert {g : OrderedMap κ ν → α → Except ε (OrderedMap κ ν)}
    (hg : ∀ t t', ∀ x ∈ xs, g t x = .ok t' → t.get? (f x).1 = none ∧ t' = t.insert (f x).1 (f x).2)
    (hm : Lists m f ys) (h : xs.foldlM g m = .ok m') : Lists m' f (ys ++ xs) := by
  induction xs generalizing m ys with
  | nil =>
    cases h
    rwa [append_nil]
  | cons x xs ih =>
    rw [foldlM_cons] at h
    obtain ⟨t, ht, h⟩ := bind_eq_ok.mp h
    obtain ⟨hnew, rfl⟩ := hg m t x mem_cons_self ht
    have hrest := ih (fun t t' y hy => hg t t' y (mem_cons_of_mem _ hy)) (hm.insert hnew) h
    rwa [append_assoc, singleton_append] at hrest

/-! ## Upserting -/

/-- The items' rows are written over the table, each over an old row that allows it. -/
structure Upserted (m m' : OrderedMap κ ν) (f : α → κ × ν) (xs : List α) (allows : ν → ν → Prop) : Prop where
  written : ∀ x ∈ xs, m'.get? (f x).1 = some (f x).2
  kept : ∀ k, k ∉ xs.map (fun x => (f x).1) → m'.get? k = m.get? k
  allowed : ∀ x ∈ xs, ∀ old, m.get? (f x).1 = some old → allows old (f x).2

variable {allows : ν → ν → Prop}

theorem upserted_foldlM {g : OrderedMap κ ν → α → Except ε (OrderedMap κ ν)} (hg : ∀ t t', ∀ x ∈ xs, g t x = .ok t' →
      (∀ old, t.get? (f x).1 = some old → allows old (f x).2) ∧ t' = t.insert (f x).1 (f x).2)
    (hnodup : (xs.map fun x => (f x).1).Nodup) (h : xs.foldlM g m = .ok m') : Upserted m m' f xs allows := by
  induction xs generalizing m with
  | nil =>
    cases h
    exact ⟨(fun x hx => nomatch hx), fun _ _ => rfl, (fun x hx => nomatch hx)⟩
  | cons x xs ih =>
    rw [foldlM_cons] at h
    obtain ⟨t, ht, h⟩ := bind_eq_ok.mp h
    obtain ⟨hallowed, rfl⟩ := hg m t x mem_cons_self ht
    rw [map_cons, nodup_cons] at hnodup
    have hrest := ih (fun t t' y hy => hg t t' y (mem_cons_of_mem _ hy)) hnodup.2 h
    refine ⟨fun y hy => ?_, fun k hk => ?_, fun y hy old hold => ?_⟩
    · rcases mem_cons.mp hy with rfl | hy
      · rw [hrest.kept _ hnodup.1, get?_insert_self]
      · exact hrest.written y hy
    · rw [map_cons, mem_cons, not_or] at hk
      rw [hrest.kept k hk.2, get?_insert_of_ne _ _ (Ne.symm hk.1)]
    · rcases mem_cons.mp hy with rfl | hy
      · exact hallowed old hold
      · refine hrest.allowed y hy old ?_
        rwa [get?_insert_of_ne]
        intro heq
        exact hnodup.1 (heq ▸ mem_map_of_mem (f := fun x => (f x).1) hy)

variable {t : OrderedMap κ ν}

theorem Upserted.lists (h : Upserted m m' f xs allows) (hnodup : (xs.map fun x => (f x).1).Nodup)
    (ht : ∀ k, t.get? k = if k ∈ xs.map (fun x => (f x).1) then m'.get? k else none) :
    Lists t f xs := by
  refine lists_of_get? hnodup fun k v => ?_
  rw [ht]
  constructor
  · intro hget
    split at hget
    · rename_i hmem
      obtain ⟨x, hx, rfl⟩ := mem_map.mp hmem
      rw [h.written x hx] at hget
      cases hget
      exact ⟨x, hx, rfl⟩
    · cases hget
  · rintro ⟨x, hx, hfx⟩
    have hkey : k ∈ xs.map fun x => (f x).1 := mem_map.mpr ⟨x, hx, by rw [hfx]⟩
    have hwritten := h.written x hx
    rw [if_pos hkey]
    rwa [hfx] at hwritten

theorem Upserted.advances (h : Upserted m m' f xs allows) (hlists : Lists t f xs) {k : κ}
    {old new : ν} (hold : m.get? k = some old) (hnew : t.get? k = some new) : allows old new := by
  obtain ⟨x, hx, hfx⟩ := hlists.get?.mp hnew
  have hallowed := h.allowed x hx old
  rw [hfx] at hallowed
  exact hallowed hold

/-! ## Deleting -/

/-- Delete the rows of the keys that are not expected; a row that is referred to cannot go. -/
def deleteMissing (referred : κ → Bool) (expected : List κ) (e : ε) (m : OrderedMap κ ν) : Except ε (OrderedMap κ ν) :=
  (m.entries.filter fun row => row.1 ∉ expected).foldlM
    (fun t row => if referred row.1 then Except.error e else .ok (t.erase row.1)) m

variable {referred : κ → Bool} {expected : List κ} {e : ε}

theorem get?_foldlM_erase {rows : List (κ × ν)} {t' : OrderedMap κ ν}
    (h : rows.foldlM (fun t row => if referred row.1 then Except.error e else .ok (t.erase row.1)) t = .ok t') :
    (∀ k, t'.get? k = if k ∈ rows.map Prod.fst then none else t.get? k) ∧ ∀ row ∈ rows, referred row.1 = false := by
  induction rows generalizing t with
  | nil =>
    cases h
    exact ⟨(fun k => by rw [map_nil, if_neg not_mem_nil]), (fun row hrow => nomatch hrow)⟩
  | cons row rows ih =>
    rw [foldlM_cons] at h
    obtain ⟨t₁, ht₁, h⟩ := bind_eq_ok.mp h
    split at ht₁
    · cases ht₁
    · rename_i hfree
      cases ht₁
      obtain ⟨hget, hrest⟩ := ih h
      refine ⟨fun k => ?_, fun row' hrow' => ?_⟩
      · rw [hget, map_cons]
        by_cases hk : k ∈ rows.map Prod.fst
        · rw [if_pos hk, if_pos (mem_cons_of_mem _ hk)]
        · rw [if_neg hk, get?_erase]
          by_cases heq : row.1 = k
          · rw [if_pos heq, if_pos (by rw [← heq]; exact mem_cons_self)]
          · rw [if_neg heq, if_neg]
            rw [mem_cons, not_or]
            exact ⟨Ne.symm heq, hk⟩
      · rcases mem_cons.mp hrow' with rfl | hrow'
        · simpa using hfree
        · exact hrest row' hrow'

/-- Only the rows of expected keys stay. -/
theorem deleteMissing_ok (h : deleteMissing referred expected e m = .ok m') :
    (∀ k, m'.get? k = if k ∈ expected then m.get? k else none) ∧
      ∀ k, m.get? k ≠ none → m'.get? k = none → referred k = false := by
  obtain ⟨hget, hfree⟩ := get?_foldlM_erase h
  have hmem : ∀ k, k ∈ (m.entries.filter fun row => row.1 ∉ expected).map Prod.fst ↔
      m.get? k ≠ none ∧ k ∉ expected := by
    intro k
    rw [mem_map]
    constructor
    · rintro ⟨⟨k, v⟩, hrow, rfl⟩
      obtain ⟨hrow, hk⟩ := mem_filter.mp hrow
      refine ⟨?_, by simpa using hk⟩
      rw [mem_entries_iff.mp hrow]
      exact Option.some_ne_none v
    · rintro ⟨hget, hk⟩
      obtain ⟨v, hv⟩ := Option.ne_none_iff_exists'.mp hget
      exact ⟨(k, v), mem_filter.mpr ⟨mem_entries_iff.mpr hv, by simpa using hk⟩, rfl⟩
  refine ⟨fun k => ?_, fun k hk hgone => ?_⟩
  · rw [hget]
    by_cases hk : k ∈ expected
    · rw [if_pos hk, if_neg fun h => ((hmem k).mp h).2 hk]
    · rw [if_neg hk]
      split
      · rfl
      · rename_i hnot
        by_contra hne
        exact hnot ((hmem k).mpr ⟨hne, hk⟩)
  · rw [hget] at hgone
    split at hgone
    · rename_i hmem'
      obtain ⟨row, hrow, rfl⟩ := mem_map.mp hmem'
      exact hfree row hrow
    · exact absurd hgone hk

end CcSwitchServer.Foundations.OrderedMap
