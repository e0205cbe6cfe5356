import CcSwitchServer.Foundations.Affixes
import CcSwitchServer.Foundations.Lists
import CcSwitchServer.ValuePricing.Identity

/-! # What one layer of peeling takes away

What one layer of peeling takes away.
-/

namespace CcSwitchServer.ValuePricing
open Foundations Foundations.Text

variable {value n : List Char}

/-! ## Paths -/

def PathLeaf (value n : List Char) : Prop :=
  ∃ front leaf, value = front ++ leaf ∧ (front = [] ∨ ∃ front', front = front' ++ ['/']) ∧ '/' ∉ leaf ∧
    n = trimChars leaf

theorem stripPathLeaf_some (h : stripPathLeaf value = some n) : n ≠ [] ∧ n ≠ value ∧ PathLeaf value n := by
  unfold stripPathLeaf at h
  dsimp only at h
  split at h
  · cases h
  · rename_i hkeep
    rw [not_or] at hkeep
    cases h
    obtain ⟨front, hvalue, hnone, hfront⟩ := splitOn_last '/' value
    refine ⟨hkeep.1, hkeep.2, front, _, hvalue, ?_, hnone, rfl⟩
    obtain ⟨-, hempty⟩ | ⟨-, hslash⟩ := hfront
    · exact .inl hempty
    · exact .inr hslash

theorem PathLeaf.is_infix (h : PathLeaf value n) : n <:+: value := by
  obtain ⟨front, leaf, rfl, -, -, rfl⟩ := h
  obtain ⟨a, b, hleaf, -, -⟩ := trimChars_infix leaf
  refine ⟨front ++ a, b, ?_⟩
  nth_rewrite 2 [hleaf]
  simp only [List.append_assoc]

/-! ## Vendors -/

/-- A model name begins here: one of the stems, or an `o` and a digit. -/
def Stem (cs : List Char) : Prop :=
  (∃ stem ∈ stems, stem <+: cs) ∨ ∃ digit rest, cs = 'o' :: digit :: rest ∧ isAsciiDigit digit

def VendorPrefix (value n : List Char) : Prop :=
  ∃ pre, value = pre ++ '.' :: n ∧ pre ≠ [] ∧
    (∀ part ∈ splitOn '.' pre, part ≠ [] ∧ part.all isAsciiAlphanumeric) ∧ Stem n

theorem dotBefore_cut {i : ℕ} (h : dotBefore value i = true) :
    0 < i ∧ i ≤ value.length ∧ value = value.take (i - 1) ++ '.' :: value.drop i := by
  unfold dotBefore at h
  rw [Bool.and_eq_true, decide_eq_true_eq, beq_iff_eq] at h
  obtain ⟨hpos, hdot⟩ := h
  obtain ⟨hlt, hget⟩ := List.getElem?_eq_some_iff.mp hdot
  have hnext : i - 1 + 1 = i := by omega
  refine ⟨hpos, by omega, ?_⟩
  have hcut := List.take_append_drop (i - 1) value
  rw [List.drop_eq_getElem_cons hlt, hget, hnext] at hcut
  exact hcut.symm

theorem stemAt_some {i : ℕ} (h : stemAt value = some i) : dotBefore value i = true ∧ Stem (value.drop i) := by
  have hmem := List.min?_mem h
  obtain hnamed | hseries := List.mem_append.mp hmem
  · obtain ⟨stem, hstem, hfound⟩ := List.mem_filterMap.mp hnamed
    obtain ⟨hfind, hdot⟩ := Option.filter_eq_some_iff.mp hfound
    exact ⟨hdot, .inl ⟨stem, hstem, (find_some hfind).1⟩⟩
  · obtain ⟨-, hchar⟩ := List.mem_filter.mp hseries
    rw [Bool.and_eq_true, Bool.and_eq_true, beq_iff_eq] at hchar
    obtain ⟨⟨ho, hdot⟩, hdigit⟩ := hchar
    obtain ⟨digit, hget, hdigit⟩ := (Option.any_eq_true _ _).mp hdigit
    obtain ⟨hlt, ho⟩ := List.getElem?_eq_some_iff.mp ho
    obtain ⟨hlt', hget⟩ := List.getElem?_eq_some_iff.mp hget
    refine ⟨hdot, .inr ⟨digit, value.drop (i + 1 + 1), ?_, hdigit⟩⟩
    rw [List.drop_eq_getElem_cons hlt, ho, List.drop_eq_getElem_cons hlt', hget]

theorem stripProviderDotPrefix_some (h : stripProviderDotPrefix value = some n) : VendorPrefix value n := by
  unfold stripProviderDotPrefix at h
  obtain ⟨i, hi, h⟩ := Option.bind_eq_some_iff.mp h
  dsimp only at h
  split at h
  · rename_i hparts
    cases h
    obtain ⟨hdot, hstem⟩ := stemAt_some hi
    refine ⟨value.take (i - 1), (dotBefore_cut hdot).2.2, hparts.1, fun part hpart => ?_, hstem⟩
    have hall := List.all_eq_true.mp hparts.2 part hpart
    simpa using hall
  · cases h

/-! ## Packaging -/

def Package (x : List Char) : Prop :=
  x ∈ ["-thinking", "-latest", "[1m]", "-1m", ":0"].map String.toList ∨
    ∃ digits, digits.all isAsciiDigit ∧ x = "-v".toList ++ digits ++ ":0".toList

def Packaged (value n : List Char) : Prop :=
  ∃ packages : List (List Char), (∀ x ∈ packages, Package x) ∧ value = n ++ packages.flatten

theorem Packaged.refl (value : List Char) : Packaged value value :=
  ⟨[], (fun _ hx => nomatch hx), (List.append_nil _).symm⟩

theorem Packaged.of_package {package : List Char} (h : Package package) : Packaged (n ++ package) n := by
  refine ⟨[package], fun x hx => ?_, ?_⟩
  · rw [List.mem_singleton] at hx
    rw [hx]
    exact h
  · rw [List.flatten_singleton]

theorem Packaged.trans {middle : List Char} (h : Packaged value middle) (h' : Packaged middle n) :
    Packaged value n := by
  obtain ⟨packages, hall, rfl⟩ := h
  obtain ⟨packages', hall', rfl⟩ := h'
  refine ⟨packages' ++ packages, fun x hx => ?_, ?_⟩
  · obtain hx | hx := List.mem_append.mp hx
    · exact hall' x hx
    · exact hall x hx
  · rw [List.flatten_append, List.append_assoc]

/-- A text, what is left of it, and whether anything was stripped. -/
structure Strips (value left : List Char) (stripped : Bool) : Prop where
  packaged : Packaged value left
  unchanged : stripped = false → left = value
  shorter : stripped = true → left.length < value.length ∧ left ≠ []

theorem Strips.none (value : List Char) : Strips value value false := ⟨.refl value, fun _ => rfl, (fun h => nomatch h)⟩

theorem Strips.one {package : List Char} (h : Package package) (hpos : 0 < package.length)
    (hleft : n ≠ []) : Strips (n ++ package) n true := by
  refine ⟨.of_package h, (fun h' => nomatch h'), fun _ => ⟨?_, hleft⟩⟩
  rw [List.length_append]
  omega

theorem Strips.trans {middle : List Char} {x y : Bool} (h : Strips value middle x)
    (h' : Strips middle n y) : Strips value n (x || y) := by
  refine ⟨h.packaged.trans h'.packaged, fun hnone => ?_, fun hsome => ?_⟩
  · rw [Bool.or_eq_false_iff] at hnone
    rw [h'.unchanged hnone.2, h.unchanged hnone.1]
  · cases y with
    | false =>
      rw [Bool.or_false] at hsome
      rw [h'.unchanged rfl]
      exact h.shorter hsome
    | true =>
      obtain ⟨hlt, hleft⟩ := h'.shorter rfl
      refine ⟨?_, hleft⟩
      cases x with
      | false =>
        rw [h.unchanged rfl] at hlt
        exact hlt
      | true => exact hlt.trans (h.shorter rfl).1

theorem stripSuffixes_strips (suffixes : List (List Char)) (value : List Char)
    (h : ∀ x ∈ suffixes, Package x ∧ 0 < x.length) :
    Strips value (stripSuffixes suffixes value).1 (stripSuffixes suffixes value).2 := by
  induction suffixes generalizing value with
  | nil => exact .none value
  | cons suffix rest ih =>
    have hrest : ∀ x ∈ rest, Package x ∧ 0 < x.length := fun x hx => h x (List.mem_cons_of_mem _ hx)
    unfold stripSuffixes
    split
    · exact ih value hrest
    · exact .none value
    · rename_i next hnonempty hstrip
      obtain ⟨hpackage, hpos⟩ := h suffix List.mem_cons_self
      have hleft : next ≠ [] := fun hnil => hnonempty hnil
      rw [stripSuffix_some hstrip]
      exact (Strips.one hpackage hpos hleft).trans (ih next hrest)

theorem stripBedrockRevision_some (h : stripBedrockRevision value = some n) : Strips value n true := by
  have hplain : Package ":0".toList := .inl (by decide)
  unfold stripBedrockRevision at h
  obtain ⟨next, hnext, h⟩ := Option.bind_eq_some_iff.mp h
  rw [stripSuffix_some hnext]
  split at h
  · rename_i base revision hsplit
    split at h
    · rename_i hdigits
      cases h
      have hbase : next ++ ":0".toList = n ++ ("-v".toList ++ revision ++ ":0".toList) := by
        rw [rsplitOnce_some hsplit]
        simp only [List.append_assoc]
      rw [hbase]
      exact .one (.inr ⟨revision, hdigits.2, rfl⟩) (by simp) hdigits.1
    · split at h
      · rename_i hleft
        cases h
        exact .one hplain (by decide) hleft
      · cases h
  · split at h
    · rename_i hleft
      cases h
      exact .one hplain (by decide) hleft
    · cases h

theorem stripRound_strips (value : List Char) : Strips value (stripRound value).1 (stripRound value).2 := by
  have hmodes := stripSuffixes_strips ["-thinking".toList, "-latest".toList] value (by unfold Package; simp)
  have hsizes := stripSuffixes_strips ["[1m]".toList, "-1m".toList]
    (stripSuffixes ["-thinking".toList, "-latest".toList] value).1 (by unfold Package; simp)
  unfold stripRound
  dsimp only
  split
  · rename_i next hnext
    have hall := (hmodes.trans hsizes).trans (stripBedrockRevision_some hnext)
    rw [Bool.or_true] at hall
    exact hall
  · exact hmodes.trans hsizes

theorem stripLoop_strips {fuel : ℕ} (h : value.length ≤ fuel) :
    Strips value (stripLoop fuel value) (stripRound value).2 ∧ (stripRound (stripLoop fuel value)).2 = false := by
  induction fuel generalizing value with
  | zero =>
    have hvalue : value = [] := List.eq_nil_of_length_eq_zero (Nat.le_zero.mp h)
    subst hvalue
    have hround : (stripRound []).2 = false := by decide
    rw [hround]
    exact ⟨.none [], hround⟩
  | succ fuel ih =>
    unfold stripLoop
    have hround := stripRound_strips value
    cases hstripped : (stripRound value).2 with
    | false =>
      rw [if_neg Bool.false_ne_true]
      exact ⟨.none value, hstripped⟩
    | true =>
      rw [if_pos rfl]
      rw [hstripped] at hround
      have hshorter := (hround.shorter rfl).1
      have hfits : (stripRound value).1.length ≤ fuel := by omega
      obtain ⟨hstrips, hend⟩ := ih hfits
      exact ⟨hround.trans hstrips, hend⟩

theorem stripRuntimeSuffix_some (h : stripRuntimeSuffix value = some n) :
    Strips value n true ∧ (stripRound n).2 = false := by
  unfold stripRuntimeSuffix at h
  split at h
  · rename_i hstripped
    cases h
    obtain ⟨hstrips, hend⟩ := stripLoop_strips (Nat.le_refl value.length)
    rw [hstripped] at hstrips
    exact ⟨hstrips, hend⟩
  · cases h

/-! ## Dates and versions -/

def DateStamped (value n : List Char) : Prop :=
  ∃ stamp, value = n ++ '-' :: stamp ∧ stamp.length = 8 ∧ stamp.all isAsciiDigit

theorem stripDateStamp_some (h : stripDateStamp value = some n) : n ≠ [] ∧ DateStamped value n := by
  unfold stripDateStamp at h
  obtain ⟨⟨base, stamp⟩, hsplit, h⟩ := Option.bind_eq_some_iff.mp h
  dsimp only at h
  split at h
  · rename_i hstamp
    cases h
    refine ⟨hstamp.2.2, stamp, ?_, hstamp.1, hstamp.2.1⟩
    rw [rsplitOnce_some hsplit, List.append_assoc, List.singleton_append]
  · cases h

theorem claudeDotVersionToHyphen_some (h : claudeDotVersionToHyphen value = some n) :
    ∃ front version, value = front ++ version ∧ '.' ∈ version ∧ '-' ∈ front ∧
      n = front ++ version.map fun c => if c = '.' then '-' else c := by
  unfold claudeDotVersionToHyphen at h
  obtain ⟨rest, hrest, h⟩ := Option.bind_eq_some_iff.mp h
  obtain ⟨⟨family, version⟩, hsplit, h⟩ := Option.bind_eq_some_iff.mp h
  dsimp only at h
  split at h
  · rename_i hversion
    cases h
    refine ⟨"claude-".toList ++ family ++ ['-'], version, ?_, hversion.2.1, ?_, rfl⟩
    · rw [stripPrefix_some hrest, (splitOnce_some hsplit).1]
      simp only [List.append_assoc, List.singleton_append]
    · exact List.mem_append_right _ List.mem_cons_self
  · cases h

/-! ## One layer -/

/-- A piece of the name, cut off by one of four rules. -/
def Peeled (value n : List Char) : Prop :=
  n <:+: value ∧ (PathLeaf value n ∨ VendorPrefix value n ∨ Packaged value n ∨ DateStamped value n)

theorem Packaged.is_infix (h : Packaged value n) : n <:+: value := by
  obtain ⟨packages, -, rfl⟩ := h
  exact (List.prefix_append _ _).isInfix

/-- Every rule shortens the name or writes a dot as a hyphen. -/
theorem mem_unwrapIdentity (h : n ∈ unwrapIdentity value) : n.length < value.length ∧ Peeled value n ∨
    claudeDotVersionToHyphen value = some n := by
  unfold unwrapIdentity at h
  rw [List.mem_eraseDups] at h
  simp only [List.mem_filterMap, List.mem_cons, List.not_mem_nil, or_false, id] at h
  obtain ⟨_, hrule, rfl⟩ := h
  obtain hpath | hvendor | hruntime | hdate | hclaude := hrule
  · obtain ⟨-, hne, hleaf⟩ := stripPathLeaf_some hpath.symm
    have hpart := hleaf.is_infix
    have hlt : n.length < value.length := lt_of_le_of_ne hpart.length_le fun heq => hne (hpart.eq_of_length heq)
    exact .inl ⟨hlt, hpart, .inl hleaf⟩
  · have hcut := stripProviderDotPrefix_some hvendor.symm
    have ⟨pre, hvalue, _⟩ := hcut
    refine .inl ⟨?_, ⟨pre ++ ['.'], [], ?_⟩, .inr (.inl hcut)⟩
    · rw [hvalue, List.length_append, List.length_cons]
      omega
    · rw [hvalue, List.append_nil, List.append_assoc, List.singleton_append]
  · obtain ⟨hstrips, -⟩ := stripRuntimeSuffix_some hruntime.symm
    exact .inl ⟨(hstrips.shorter rfl).1, hstrips.packaged.is_infix, .inr (.inr (.inl hstrips.packaged))⟩
  · obtain ⟨-, hstamped⟩ := stripDateStamp_some hdate.symm
    have ⟨stamp, hvalue, _⟩ := hstamped
    refine .inl ⟨?_, ⟨[], '-' :: stamp, ?_⟩, .inr (.inr (.inr hstamped))⟩
    · rw [hvalue, List.length_append, List.length_cons]
      omega
    · rw [hvalue, List.nil_append]
  · exact .inr hclaude.symm

theorem count_hyphened (version : List Char) : (version.map fun c => if c = '.' then '-' else c).count '.' = 0 := by
  rw [List.count_eq_zero]
  intro hmem
  obtain ⟨c, -, hc⟩ := List.mem_map.mp hmem
  split at hc
  · cases hc
  · rename_i hne
    exact hne hc

theorem identityWeight_lt (h : n ∈ unwrapIdentity value) : identityWeight n < identityWeight value := by
  unfold identityWeight
  obtain ⟨hlt, hpart, -⟩ | hclaude := mem_unwrapIdentity h
  · have hcount := hpart.sublist.count_le '.'
    omega
  · obtain ⟨front, version, rfl, hdot, -, rfl⟩ := claudeDotVersionToHyphen_some hclaude
    have hpos := List.count_pos_iff.mpr hdot
    rw [List.count_append, List.count_append, count_hyphened, List.length_append, List.length_append, List.length_map]
    omega

theorem unwrapIdentity_length (value : List Char) : (unwrapIdentity value).length ≤ 5 := by
  unfold unwrapIdentity
  refine (length_eraseDups_le (_ : List (List Char))).trans ?_
  exact List.length_filterMap_le _ _

theorem mem_of_mem_unwrapIdentity (h : n ∈ unwrapIdentity value) {c : Char} (hc : c ∈ n) : c ∈ value ∨ c = '-' := by
  obtain ⟨-, hpart, -⟩ | hclaude := mem_unwrapIdentity h
  · exact .inl (hpart.subset hc)
  · obtain ⟨front, version, rfl, -, -, rfl⟩ := claudeDotVersionToHyphen_some hclaude
    obtain hc | hc := List.mem_append.mp hc
    · exact .inl (List.mem_append_left _ hc)
    · obtain ⟨d, hd, rfl⟩ := List.mem_map.mp hc
      split
      · exact .inr rfl
      · exact .inl (List.mem_append_right _ hd)

end CcSwitchServer.ValuePricing
