import CcSwitchServer.ClaudeTools.References
import CcSwitchServer.Foundations.Checked

/-! # Alias maps of a continued thread (`proxy/claude_thread_alias.rs`)

Two maps from wire names to declared names are merged when their union can still be inverted.
-/

namespace CcSwitchServer.ClaudeThread
open Foundations ClaudeTools Text OrderedMap List

def maxAliases : ℕ := 128

/-- The inverse of a map, by names without case. -/
def namesOf (aliases : Names) : Names :=
  aliases.entries.foldl (fun names e => names.insert (asciiLower e.2) e.1) .empty

/-- One alias joins a map and its inverse, unless it disagrees with either. -/
def mergeOne (s : Names × Names) (e : String × String) : Except String (Names × Names) :=
  if (s.1.get? e.1).any (· ≠ e.2) || (s.2.get? (asciiLower e.2)).any (· ≠ e.1) then
    .error "Claude thread tool aliases conflict with previous state"
  else
    let merged := s.1.insert e.1 e.2
    if maxAliases < merged.size then .error "Claude thread tool aliases exceed 128 declarations"
    else .ok (merged, s.2.insert (asciiLower e.2) e.1)

def mergeAliasMaps (previous current : Names) : Except String Names :=
  (current.entries.foldlM mergeOne (previous, namesOf previous)).map Prod.fst

/-! ## Maps that can be inverted -/

/-- No two wire names stand for one name, whatever its case. -/
def Injective (aliases : Names) : Prop :=
  ∀ w w' o o', aliases.get? w = some o → aliases.get? w' = some o' → asciiLower o = asciiLower o' → w = w'

/-- At most 128 entries, and originals that are distinct without case. -/
structure Valid (aliases : Names) : Prop where
  injective : Injective aliases
  size : aliases.size ≤ maxAliases

def IsUnion (u a b : Names) : Prop := ∀ w o, u.get? w = some o ↔ a.get? w = some o ∨ b.get? w = some o

/-- The names without case lead back to the wire names. -/
def Inverse (aliases names : Names) : Prop :=
  ∀ l w, names.get? l = some w ↔ ∃ o, aliases.get? w = some o ∧ asciiLower o = l

variable {aliases names a b u : Names}

theorem inverse_insert {w o : String} (h : Inverse aliases names) (hinj : Injective (aliases.insert w o))
    (hold : ∀ o', aliases.get? w = some o' → o' = o) :
    Inverse (aliases.insert w o) (names.insert (asciiLower o) w) := by
  intro l w'
  rw [get?_insert]
  constructor
  · intro hget
    split at hget
    · rename_i hl
      cases hget
      exact ⟨o, get?_insert_self _ _ _, hl⟩
    · obtain ⟨o', ho', hl⟩ := (h l w').mp hget
      refine ⟨o', ?_, hl⟩
      rw [get?_insert]
      split
      · rename_i hw
        rw [hold o' (hw ▸ ho')]
      · exact ho'
  · rintro ⟨o', ho', hl⟩
    split
    · rename_i heq
      rw [hinj w w' o o' (get?_insert_self _ _ _) ho' (heq.trans hl.symm)]
    · rename_i hne
      rw [get?_insert] at ho'
      split at ho'
      · cases ho'
        exact absurd hl hne
      · exact (h l w').mpr ⟨o', ho', hl⟩

theorem injective_of_sub (hu : Injective u) (hsub : ∀ w o, aliases.get? w = some o → u.get? w = some o) :
    Injective aliases :=
  fun w w' o o' h h' heq => hu w w' o o' (hsub w o h) (hsub w' o' h') heq

theorem inverse_namesOf (h : Injective aliases) : Inverse aliases (namesOf aliases) := by
  have hgeneral : ∀ (es : List (String × String)) (done names : Names), Inverse done names →
      (∀ w o, aliases.get? w = some o ↔ done.get? w = some o ∨ (w, o) ∈ es) →
        Inverse aliases (es.foldl (fun names e => names.insert (asciiLower e.2) e.1) names) := by
    intro es
    induction es with
    | nil =>
      intro done names hinverse hsplit
      have heq : aliases = done := ext_get? fun w => by
        apply Option.ext
        intro o
        rw [hsplit w o]
        simp
      rw [heq]
      exact hinverse
    | cons e es ih =>
      intro done names hinverse hsplit
      rw [foldl_cons]
      have hnew : aliases.get? e.1 = some e.2 := (hsplit e.1 e.2).mpr (.inr mem_cons_self)
      have hsub : ∀ w o, (done.insert e.1 e.2).get? w = some o → aliases.get? w = some o := by
        intro w o hget
        rw [get?_insert] at hget
        split at hget
        · rename_i hw
          cases hget
          rw [← hw]
          exact hnew
        · exact (hsplit w o).mpr (.inl hget)
      refine ih (done.insert e.1 e.2) _ (inverse_insert hinverse (injective_of_sub h hsub) fun o' ho' => ?_)
        fun w o => ?_
      · have hold := (hsplit e.1 o').mpr (.inl ho')
        rw [hnew] at hold
        exact (Option.some.inj hold).symm
      · rw [hsplit w o, mem_cons, get?_insert]
        constructor
        · rintro (hdone | heq | hrest)
          · split
            · rename_i hw
              have hold := (hsplit w o).mpr (.inl hdone)
              rw [← hw, hnew] at hold
              exact .inl hold
            · exact .inl hdone
          · cases heq
            rw [if_pos rfl]
            exact .inl rfl
          · exact .inr hrest
        · rintro (hget | hrest)
          · split at hget
            · rename_i hw
              cases hget
              exact .inr (.inl (by rw [← hw]))
            · exact .inl hget
          · exact .inr (.inr hrest)
  refine hgeneral aliases.entries .empty .empty (fun l w => ?_) fun w o => ?_
  · constructor
    · intro hget
      cases hget
    · rintro ⟨o, ho, -⟩
      cases ho
  · rw [mem_entries_iff, get?_empty]
    simp

/-! ## Merging -/

theorem any_ne_false {o : Option String} {t : String} : o.any (· ≠ t) = false ↔ ∀ t', o = some t' → t' = t := by
  cases o with
  | none => simp
  | some t' => simp

theorem mergeOne_spec {s s' : Names × Names} {e : String × String} (h : mergeOne s e = .ok s') :
    (∀ o, s.1.get? e.1 = some o → o = e.2) ∧ (∀ w, s.2.get? (asciiLower e.2) = some w → w = e.1) ∧
      (s.1.insert e.1 e.2).size ≤ maxAliases ∧
      s' = (s.1.insert e.1 e.2, s.2.insert (asciiLower e.2) e.1) := by
  unfold mergeOne at h
  split at h
  · cases h
  · rename_i hfree
    rw [Bool.not_eq_true, Bool.or_eq_false_iff] at hfree
    dsimp only at h
    split at h
    · cases h
    · rename_i hsize
      cases h
      exact ⟨any_ne_false.mp hfree.1, any_ne_false.mp hfree.2, Nat.le_of_not_lt hsize, rfl⟩

theorem mergeOne_ok {s : Names × Names} {e : String × String} (hold : ∀ o, s.1.get? e.1 = some o → o = e.2)
    (hname : ∀ w, s.2.get? (asciiLower e.2) = some w → w = e.1) (hsize : (s.1.insert e.1 e.2).size ≤ maxAliases) :
    mergeOne s e = .ok (s.1.insert e.1 e.2, s.2.insert (asciiLower e.2) e.1) := by
  unfold mergeOne
  rw [if_neg]
  · dsimp only
    rw [if_neg (Nat.not_lt.mpr hsize)]
  · rw [Bool.not_eq_true, Bool.or_eq_false_iff]
    exact ⟨any_ne_false.mpr hold, any_ne_false.mpr hname⟩

theorem get?_insert_iff {w o : String} (hold : ∀ o', aliases.get? w = some o' → o' = o) (w' o' : String) :
    (aliases.insert w o).get? w' = some o' ↔ aliases.get? w' = some o' ∨ (w', o') = (w, o) := by
  rw [get?_insert]
  split
  · rename_i hw
    subst hw
    constructor
    · intro h
      cases h
      exact .inr rfl
    · rintro (h | h)
      · rw [hold o' h]
      · cases h
        rfl
  · rename_i hne
    constructor
    · exact .inl
    · rintro (h | h)
      · exact h
      · cases h
        exact absurd rfl hne

theorem injective_insert {w o : String} (hinverse : Inverse aliases names) (hinj : Injective aliases)
    (hold : ∀ o', aliases.get? w = some o' → o' = o)
    (hname : ∀ w', names.get? (asciiLower o) = some w' → w' = w) : Injective (aliases.insert w o) := by
  intro w₁ w₂ o₁ o₂ h₁ h₂ heq
  rcases (get?_insert_iff hold w₁ o₁).mp h₁ with h₁ | h₁ <;> rcases (get?_insert_iff hold w₂ o₂).mp h₂ with h₂ | h₂
  · exact hinj w₁ w₂ o₁ o₂ h₁ h₂ heq
  · cases h₂
    exact hname w₁ ((hinverse _ _).mpr ⟨o₁, h₁, heq⟩)
  · cases h₁
    exact (hname w₂ ((hinverse _ _).mpr ⟨o₂, h₂, heq.symm⟩)).symm
  · cases h₁
    cases h₂
    rfl

theorem merge_sound {es : List (String × String)} {s r : Names × Names} (hinverse : Inverse s.1 s.2)
    (hvalid : Valid s.1) (h : es.foldlM mergeOne s = .ok r) :
    (∀ w o, r.1.get? w = some o ↔ s.1.get? w = some o ∨ (w, o) ∈ es) ∧ Valid r.1 := by
  induction es generalizing s with
  | nil =>
    cases h
    exact ⟨fun w o => by simp, hvalid⟩
  | cons e es ih =>
    rw [foldlM_cons] at h
    obtain ⟨s', hstep, hrest⟩ := bind_eq_ok.mp h
    obtain ⟨hold, hname, hsize, rfl⟩ := mergeOne_spec hstep
    have hinj := injective_insert hinverse hvalid.injective hold hname
    obtain ⟨hread, hlast⟩ := ih (inverse_insert hinverse hinj hold) ⟨hinj, hsize⟩ hrest
    refine ⟨fun w o => ?_, hlast⟩
    rw [hread w o, mem_cons]
    exact (or_congr_left (get?_insert_iff hold w o)).trans or_assoc

theorem merge_complete {es : List (String × String)} {s : Names × Names} (hinverse : Inverse s.1 s.2) (hu : Valid u)
    (hsub : ∀ w o, s.1.get? w = some o ∨ (w, o) ∈ es → u.get? w = some o) :
    ∃ r, es.foldlM mergeOne s = .ok r := by
  induction es generalizing s with
  | nil => exact ⟨s, rfl⟩
  | cons e es ih =>
    have hnew : u.get? e.1 = some e.2 := hsub e.1 e.2 (.inr mem_cons_self)
    have hold : ∀ o, s.1.get? e.1 = some o → o = e.2 := by
      intro o ho
      have hget := hsub e.1 o (.inl ho)
      rw [hnew] at hget
      exact (Option.some.inj hget).symm
    have hname : ∀ w, s.2.get? (asciiLower e.2) = some w → w = e.1 := by
      intro w hw
      obtain ⟨o, ho, heq⟩ := (hinverse _ _).mp hw
      exact hu.injective w e.1 o e.2 (hsub w o (.inl ho)) hnew heq
    have hsub' : ∀ w o, (s.1.insert e.1 e.2).get? w = some o ∨ (w, o) ∈ es → u.get? w = some o := by
      rintro w o (hget | hmem)
      · rcases (get?_insert_iff hold w o).mp hget with hget | heq
        · exact hsub w o (.inl hget)
        · cases heq
          exact hnew
      · exact hsub w o (.inr (mem_cons_of_mem _ hmem))
    have hsize : (s.1.insert e.1 e.2).size ≤ maxAliases := by
      refine le_trans ?_ hu.size
      refine size_le_of_keys fun {w o} hget => ?_
      have hmem := mem_entries_iff.mpr (hsub' w o (.inl hget))
      exact mem_map.mpr ⟨(w, o), hmem, rfl⟩
    have hinj := injective_insert hinverse (injective_of_sub hu.injective fun w o h => hsub w o (.inl h)) hold hname
    rw [foldlM_cons, mergeOne_ok hold hname hsize]
    exact ih (inverse_insert hinverse hinj hold) hsub'

/-- The merge of two maps is their union, and it exists if and only if the union is valid. -/
theorem mergeAliasMaps_ok (ha : Valid a) : mergeAliasMaps a b = .ok u ↔ IsUnion u a b ∧ Valid u := by
  have hinverse := inverse_namesOf ha.injective
  have hmem : ∀ w o, (w, o) ∈ b.entries ↔ b.get? w = some o := fun w o => mem_entries_iff
  unfold mergeAliasMaps
  constructor
  · intro h
    cases hfold : b.entries.foldlM mergeOne (a, namesOf a) with
    | error e =>
      rw [hfold] at h
      cases h
    | ok r =>
      rw [hfold] at h
      cases h
      obtain ⟨hread, hvalid⟩ := merge_sound hinverse ha hfold
      exact ⟨fun w o => (hread w o).trans (or_congr_right (hmem w o)), hvalid⟩
  · rintro ⟨hunion, hvalid⟩
    obtain ⟨r, hfold⟩ := @merge_complete _ b.entries (a, namesOf a) hinverse hvalid fun w o h =>
      (hunion w o).mpr (h.imp_right (hmem w o).mp)
    obtain ⟨hread, -⟩ := merge_sound hinverse ha hfold
    rw [hfold]
    refine congrArg Except.ok (ext_get? fun w => Option.ext fun o => ?_)
    exact (hread w o).trans ((or_congr_right (hmem w o)).trans (hunion w o).symm)

theorem IsUnion.symm (h : IsUnion u a b) : IsUnion u b a := fun w o => (h w o).trans or_comm

theorem valid_empty : Valid .empty := ⟨fun _ _ _ _ h => absurd h (by simp), Nat.zero_le _⟩

/-- The same of any number of maps. -/
theorem mergeAll_ok {maps : List Names} (ha : Valid a) :
    maps.foldlM mergeAliasMaps a = .ok u ↔
      (∀ w o, u.get? w = some o ↔ a.get? w = some o ∨ ∃ m ∈ maps, m.get? w = some o) ∧ Valid u := by
  induction maps generalizing a with
  | nil =>
    rw [foldlM_nil, pure_eq_ok]
    constructor
    · rintro rfl
      exact ⟨fun w o => by simp, ha⟩
    · rintro ⟨hread, -⟩
      exact ext_get? fun w => Option.ext fun o => by simp [hread w o]
  | cons m maps ih =>
    constructor
    · intro h
      obtain ⟨next, hnext, h⟩ := bind_eq_ok.mp h
      obtain ⟨hunion, hvalid⟩ := (mergeAliasMaps_ok ha).mp hnext
      obtain ⟨hread, hlast⟩ := (ih hvalid).mp h
      refine ⟨fun w o => ?_, hlast⟩
      rw [hread w o, hunion w o, exists_mem_cons_iff, or_assoc]
    · rintro ⟨hread, hvalid⟩
      obtain ⟨r, hfold⟩ := @merge_complete _ m.entries (a, namesOf a) (inverse_namesOf ha.injective) hvalid
        fun w o h => (hread w o).mpr (h.imp_right fun hmem => ⟨m, mem_cons_self, mem_entries_iff.mp hmem⟩)
      have hnext : mergeAliasMaps a m = .ok r.1 := by
        unfold mergeAliasMaps
        rw [hfold]
        rfl
      obtain ⟨hunion, hmerged⟩ := (mergeAliasMaps_ok ha).mp hnext
      refine bind_eq_ok.mpr ⟨r.1, hnext, (ih hmerged).mpr ⟨fun w o => ?_, hvalid⟩⟩
      rw [hread w o, hunion w o, exists_mem_cons_iff, or_assoc]

/-- The maps of a thread's turns are merged exactly when their union can be inverted, and the order of the turns
makes no difference. -/
theorem merged_in_any_order (maps maps' : List Names) (hperm : maps.Perm maps') (u : Names) :
    (maps.foldlM mergeAliasMaps .empty = .ok u ↔
      (∀ w o, u.get? w = some o ↔ ∃ m ∈ maps, m.get? w = some o) ∧ Valid u) ∧
    (maps.foldlM mergeAliasMaps .empty = .ok u ↔ maps'.foldlM mergeAliasMaps .empty = .ok u) := by
  rw [mergeAll_ok valid_empty, mergeAll_ok valid_empty]
  simp [hperm.mem_iff]

def oneAlias (w o : String) : Names := OrderedMap.empty.insert w o

theorem merged_in_any_order_two :
    [oneAlias "mcp__a" "Read", oneAlias "mcp__b" "Search"].foldlM mergeAliasMaps .empty =
      .ok ((oneAlias "mcp__a" "Read").insert "mcp__b" "Search") :=
  (merged_in_any_order [oneAlias "mcp__b" "Search", oneAlias "mcp__a" "Read"] _ (.swap _ _ _) _).2.mp (by rfl)

/-! ## Restoring -/

end CcSwitchServer.ClaudeThread
