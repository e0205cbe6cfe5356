import CcSwitchServer.ValuePricing.IdentityRules

/-! # Slicing at byte offsets

A slice at byte offsets inside a character has no result; no slice of the rule does that.
-/

namespace CcSwitchServer.ValuePricing
open Foundations Foundations.Text String

/-- `stem_at.map_or(at, |current| current.min(at))` -/
def lower (found : Option ℕ) (at_ : ℕ) : Option ℕ := some (found.elim at_ fun current => min current at_)

variable (value : List Char)

def byteOffset (i : ℕ) : ℕ := utf8Len (value.take i)

/-- The named stem at its first occurrence, if a dot byte comes before. -/
def lowerNamed (found : Option ℕ) (stem : List Char) : Option (Option ℕ) :=
  match find stem value with
  | none => some found
  | some i =>
    if 0 < byteOffset value i then do
      let byte ← (encoded value)[byteOffset value i - 1]?
      some (if byte = 0x2E then lower found (byteOffset value i) else found)
    else some found

/-- An `o` at the index, if a dot byte comes before and a digit after. -/
def lowerSeries (found : Option ℕ) (i : ℕ) : Option (Option ℕ) :=
  if byteOffset value i = 0 then some found
  else do
    let byte ← (encoded value)[byteOffset value i - 1]?
    if byte ≠ 0x2E then some found
    else do
      let (_, after) ← splitAtByte (byteOffset value i + 1) value
      some (if after.head?.any isAsciiDigit then lower found (byteOffset value i) else found)

/-- The rule on byte offsets; none is a panic. -/
def stripProviderDotPrefixBytes : Option (Option (List Char)) := do
  let named ← stems.foldlM (lowerNamed value) none
  let found ← ((List.range value.length).filter fun i => value[i]? == some 'o').foldlM
    (lowerSeries value) named
  match found with
  | none => some none
  | some at_ =>
    let (pre, _) ← splitAtByte (at_ - 1) value
    if pre ≠ [] ∧ (splitOn '.' pre).all fun part => part ≠ [] ∧ part.all isAsciiAlphanumeric then do
      let (_, rest) ← splitAtByte at_ value
      some (some rest)
    else some none

section
variable {value : List Char} {i j : ℕ} {found : Option ℕ}

/-! ## Offsets and indices -/

theorem byteOffset_succ (h : i < value.length) :
    byteOffset value (i + 1) = byteOffset value i + value[i].utf8Size := by
  unfold byteOffset
  rw [List.take_add_one, List.getElem?_eq_getElem h, Option.toList_some, utf8Len_append,
    utf8Len_cons, utf8Len_nil, Nat.zero_add]

theorem byteOffset_mono (h : i ≤ j) : byteOffset value i ≤ byteOffset value j := by
  unfold byteOffset
  exact utf8Len_le_of_sublist (List.take_sublist_take_left h)

theorem byteOffset_min (i j : ℕ) : byteOffset value (min i j) = min (byteOffset value i) (byteOffset value j) := by
  obtain h | h := Nat.le_total i j
  · rw [Nat.min_eq_left h, Nat.min_eq_left (byteOffset_mono h)]
  · rw [Nat.min_eq_right h, Nat.min_eq_right (byteOffset_mono h)]

variable (found)

theorem lower_map (i : ℕ) :
    lower (found.map (byteOffset value)) (byteOffset value i) = (lower found i).map (byteOffset value) := by
  cases found with
  | none => rfl
  | some current =>
    unfold lower
    simp only [Option.map_some, Option.elim_some, byteOffset_min]

theorem byteOffset_pos (hpos : 0 < i) (hle : i ≤ value.length) : 0 < byteOffset value i := by
  obtain ⟨m, rfl⟩ := Nat.exists_eq_succ_of_ne_zero (by omega : i ≠ 0)
  rw [byteOffset_succ hle]
  have hsize := (value[m]).utf8Size_pos
  omega

theorem byteOffset_zero (value : List Char) : byteOffset value 0 = 0 := by
  unfold byteOffset
  rw [List.take_zero, utf8Len_nil]

theorem byte_before (hpos : 0 < i) (hle : i ≤ value.length) :
    ∃ byte, (encoded value)[byteOffset value i - 1]? = some byte ∧ (byte = 0x2E ↔ dotBefore value i = true) := by
  obtain ⟨k, rfl⟩ := Nat.exists_eq_succ_of_ne_zero (by omega : i ≠ 0)
  have hcut : value = value.take k ++ value[k] :: value.drop (k + 1) := by
    have hdrop := List.take_append_drop k value
    rw [List.drop_eq_getElem_cons hle] at hdrop
    exact hdrop.symm
  have htake : value.take (k + 1) = value.take k ++ [value[k]] := by
    rw [List.take_add_one, List.getElem?_eq_getElem hle, Option.toList_some]
  have hdot := encoded_dot_before (value.take k) value[k] (value.drop (k + 1))
  rw [← hcut, ← htake] at hdot
  have hinside : byteOffset value (k + 1) - 1 < (encoded value).length := by
    rw [length_encoded]
    have hmono : byteOffset value (k + 1) ≤ byteOffset value value.length := byteOffset_mono hle
    have hall : byteOffset value value.length = utf8Len value := by
      unfold byteOffset
      rw [List.take_length]
    have hbyte : 0 < byteOffset value (k + 1) := byteOffset_pos hpos hle
    omega
  refine ⟨_, List.getElem?_eq_getElem hinside, ?_⟩
  have hdotChar : dotBefore value (k + 1) = true ↔ value[k] = '.' := by
    unfold dotBefore
    rw [Nat.add_sub_cancel, List.getElem?_eq_getElem hle]
    simp
  rw [hdotChar, ← hdot]
  unfold byteOffset
  rw [List.getElem?_eq_some_iff]
  constructor
  · exact fun hbyte => ⟨hinside, hbyte⟩
  · rintro ⟨_, hbyte⟩
    exact hbyte

theorem split_at_offset (value : List Char) (i : ℕ) :
    splitAtByte (byteOffset value i) value = some (value.take i, value.drop i) := by
  have hsplit := splitAtByte_utf8Len (value.take i) (value.drop i)
  rw [List.take_append_drop] at hsplit
  exact hsplit

theorem byteOffset_one_after (h : i < value.length) (hsize : value[i].utf8Size = 1) :
    byteOffset value i + 1 = byteOffset value (i + 1) := by
  rw [byteOffset_succ h, hsize]

/-! ## The stem -/

def namedAt (value stem : List Char) : Option ℕ := (find stem value).filter (dotBefore value)

theorem lowerNamed_eq (stem : List Char) : lowerNamed value (found.map (byteOffset value)) stem =
      some (((namedAt value stem).elim found (lower found)).map (byteOffset value)) := by
  unfold lowerNamed namedAt
  cases hfind : find stem value with
  | none => rfl
  | some i =>
    dsimp only
    have hle := (find_some hfind).2
    by_cases hpos : 0 < i
    · obtain ⟨byte, hbyte, hdot⟩ := byte_before hpos hle
      rw [if_pos (byteOffset_pos hpos hle), hbyte]
      by_cases hi : dotBefore value i = true
      · rw [Option.filter_some_pos hi]
        simp only [Option.bind_eq_bind, Option.bind_some, if_pos (hdot.mpr hi), Option.elim_some, lower_map]
      · rw [Option.filter_some_neg (Bool.not_eq_true _ ▸ hi)]
        simp only [Option.bind_eq_bind, Option.bind_some, if_neg (fun h => hi (hdot.mp h)), Option.elim_none]
    · obtain rfl : i = 0 := by omega
      have hzero : dotBefore value 0 = false := by
        unfold dotBefore
        simp
      rw [byteOffset_zero, if_neg (lt_irrefl 0), Option.filter_some_neg hzero]
      rfl

def seriesAt (value : List Char) (i : ℕ) : Bool :=
  dotBefore value i && value[i + 1]?.any isAsciiDigit

theorem lowerSeries_eq (ho : value[i]? = some 'o') : lowerSeries value (found.map (byteOffset value)) i =
      some ((if seriesAt value i then lower found i else found).map (byteOffset value)) := by
  obtain ⟨hlt, hchar⟩ := List.getElem?_eq_some_iff.mp ho
  unfold lowerSeries seriesAt
  by_cases hpos : 0 < i
  · obtain ⟨byte, hbyte, hdot⟩ := byte_before hpos hlt.le
    have hoffset := byteOffset_pos hpos hlt.le
    rw [if_neg (by omega), hbyte]
    by_cases hi : dotBefore value i = true
    · have hone : byteOffset value i + 1 = byteOffset value (i + 1) :=
        byteOffset_one_after hlt (by rw [hchar]; decide)
      have hhead : (value.drop (i + 1)).head? = value[i + 1]? := List.head?_drop
      simp only [Option.bind_eq_bind, Option.bind_some, hdot.mpr hi, ne_eq, not_true_eq_false, if_false,
        hone, split_at_offset, hhead, hi, Bool.true_and, lower_map]
      split <;> rfl
    · have hne : byte ≠ 0x2E := fun h => hi (hdot.mp h)
      simp only [Option.bind_eq_bind, Option.bind_some, if_pos hne, hi, Bool.false_and, Bool.false_eq_true, if_false]
  · obtain rfl : i = 0 := by omega
    rw [if_pos (byteOffset_zero value)]
    rfl

theorem named_fold (value : List Char) (found : Option ℕ) (xs : List (List Char)) :
    xs.foldlM (lowerNamed value) (found.map (byteOffset value)) =
      some (((xs.filterMap (namedAt value)).foldl lower found).map (byteOffset value)) := by
  induction xs generalizing found with
  | nil => rfl
  | cons stem xs ih =>
    rw [List.foldlM_cons, lowerNamed_eq]
    refine (ih _).trans ?_
    cases hnamed : namedAt value stem with
    | none => rw [List.filterMap_cons_none hnamed, Option.elim_none]
    | some i => rw [List.filterMap_cons_some hnamed, Option.elim_some, List.foldl_cons]

theorem series_fold {xs : List ℕ} (hxs : ∀ i ∈ xs, value[i]? = some 'o') :
    xs.foldlM (lowerSeries value) (found.map (byteOffset value)) =
      some (((xs.filter (seriesAt value)).foldl lower found).map (byteOffset value)) := by
  induction xs generalizing found with
  | nil => rfl
  | cons i xs ih =>
    rw [List.foldlM_cons, lowerSeries_eq found (hxs i List.mem_cons_self)]
    refine (ih _ fun j hj => hxs j (List.mem_cons_of_mem _ hj)).trans ?_
    by_cases hi : seriesAt value i = true
    · rw [if_pos hi, List.filter_cons_of_pos hi, List.foldl_cons]
    · rw [if_neg hi, List.filter_cons_of_neg hi]

theorem foldl_lower (xs : List ℕ) : xs.foldl lower none = xs.min? := by
  cases xs with
  | nil => rfl
  | cons x xs =>
    rw [List.foldl_cons, List.min?_cons']
    have hloop : ∀ current, xs.foldl lower (some current) = some (xs.foldl min current) := by
      induction xs with
      | nil => exact fun _ => rfl
      | cons y ys ih => exact fun current => ih (min current y)
    exact hloop x

theorem stemAt_eq_fold (value : List Char) :
    stemAt value = (((List.range value.length).filter fun i => value[i]? == some 'o').filter
      (seriesAt value)).foldl lower ((stems.filterMap (namedAt value)).foldl lower none) := by
  rw [← List.foldl_append, foldl_lower, List.filter_filter]
  unfold stemAt
  dsimp only
  congr 2
  refine List.filter_congr fun i _ => ?_
  unfold seriesAt
  rw [Bool.and_assoc, Bool.and_comm (value[i]? == some 'o'), Bool.and_assoc]

/-- No slice of the rule falls inside a character, and the rule on bytes is the rule on characters. -/
theorem stripProviderDotPrefixBytes_eq (value : List Char) :
    stripProviderDotPrefixBytes value = some (stripProviderDotPrefix value) := by
  have hindices : ∀ i ∈ (List.range value.length).filter fun i => value[i]? == some 'o',
      value[i]? = some 'o' := fun i hi => beq_iff_eq.mp (List.mem_filter.mp hi).2
  have hnamed := named_fold value none stems
  have hseries := series_fold ((stems.filterMap (namedAt value)).foldl lower none) hindices
  rw [← stemAt_eq_fold] at hseries
  unfold stripProviderDotPrefixBytes stripProviderDotPrefix
  rw [Option.map_none] at hnamed
  simp only [hnamed, hseries, Option.bind_eq_bind, Option.bind_some]
  cases hstem : stemAt value with
  | none => rfl
  | some i =>
    obtain ⟨hpos, hle, hcut⟩ := dotBefore_cut (stemAt_some hstem).1
    obtain ⟨k, rfl⟩ := Nat.exists_eq_succ_of_ne_zero (by omega : i ≠ 0)
    have hdot : value[k] = '.' := by
      have hbefore := (stemAt_some hstem).1
      unfold dotBefore at hbefore
      rw [Nat.succ_sub_one, List.getElem?_eq_getElem hle] at hbefore
      simpa using hbefore
    have hprev : byteOffset value (k + 1) - 1 = byteOffset value k := by
      rw [← byteOffset_one_after hle (by rw [hdot]; decide), Nat.add_sub_cancel]
    simp only [Option.map_some, Nat.succ_eq_add_one, hprev, split_at_offset, Option.bind_some, Nat.add_sub_cancel]
    split
    · rfl
    · rfl

end

end CcSwitchServer.ValuePricing
