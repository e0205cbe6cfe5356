import CcSwitchServer.Foundations.Search
import CcSwitchServer.ValuePricing.IdentityBytes

/-! # The identity candidates of a model name

A breadth-first search over `unwrap_identity`, which ends because every layer lowers `identityWeight`.
-/

namespace CcSwitchServer.ValuePricing
open Foundations Foundations.Text Search

/-! ## The search -/

def blank (value : List Char) : Bool := decide (value = [])

variable (modelText : String)

/-- `model_text.trim().to_ascii_lowercase()` -/
def identityStart : List Char := (trimChars modelText.toList).map Char.toLower

def identityRounds (n : ℕ) : List (List Char) × List (List Char) :=
  rounds unwrapIdentity blank (identityStart modelText) n

theorem identitySearch_eq (fuel : ℕ) (queue ordered : List (List Char)) :
    identitySearch fuel queue ordered = ((round unwrapIdentity blank)^[fuel] (queue, ordered)).2 := by
  induction fuel generalizing queue ordered with
  | zero => rfl
  | succ fuel ih =>
    rw [Function.iterate_succ_apply]
    cases queue with
    | nil =>
      rw [round_nil, ← ih, identitySearch]
      cases fuel <;> rfl
    | cons current queue =>
      rw [identitySearch]
      have hblank : (blank current = true ∨ current ∈ ordered) ↔ current = [] ∨ current ∈ ordered := by
        unfold blank
        rw [decide_eq_true_eq]
      by_cases hskip : current = [] ∨ current ∈ ordered
      · rw [if_pos hskip, round_skip (hblank.mpr hskip), ih]
      · rw [if_neg hskip, round_meet (fun h => hskip (hblank.mp h)), ih]
        refine congrArg (fun next => ((round unwrapIdentity blank)^[fuel]
          (queue ++ next, current :: ordered)).2) (List.filter_congr fun n _ => ?_)
        unfold blank
        rw [Bool.eq_iff_iff]
        simp

theorem identityRounds_end : (identityRounds modelText (6 ^ identityWeight (identityStart modelText))).1 = [] := by
  have hcost : cost 5 identityWeight [identityStart modelText] ≤ 6 ^ identityWeight (identityStart modelText) := by
    unfold cost
    simp
  exact exhausted unwrapIdentity_length (fun _ _ => identityWeight_lt) hcost

theorem identityCandidates_eq : (identityCandidates modelText).map String.toList =
    (identityRounds modelText (6 ^ identityWeight (identityStart modelText))).2.reverse := by
  unfold identityCandidates
  dsimp only
  rw [identitySearch_eq, List.map_map]
  have hid : String.toList ∘ String.ofList = id := funext fun cs => String.toList_ofList
  rw [hid, List.map_id]
  rfl

section
variable {modelText : String} {c n : List Char}

/-- The candidates are closed under peeling, and each but the first comes from an earlier one. -/
def identitySeen (modelText : String) : List (List Char) :=
  (identityRounds modelText (6 ^ identityWeight (identityStart modelText))).2

theorem mem_identityCandidates {c : String} :
    c ∈ identityCandidates modelText ↔ c.toList ∈ identitySeen modelText := by
  have hmap : c ∈ identityCandidates modelText ↔ c.toList ∈ (identityCandidates modelText).map String.toList := by
    rw [List.mem_map]
    constructor
    · exact fun h => ⟨c, h, rfl⟩
    · rintro ⟨d, hd, heq⟩
      rw [← String.toList_inj.mp heq]
      exact hd
  rw [hmap, identityCandidates_eq, List.mem_reverse]
  rfl

theorem nodup_identityCandidates (modelText : String) : (identityCandidates modelText).Nodup := by
  refine List.Nodup.of_map String.toList ?_
  rw [identityCandidates_eq, List.nodup_reverse]
  exact rounds_nodup _ _

theorem nonempty_of_seen (h : c ∈ identitySeen modelText) : c ≠ [] := of_decide_eq_false (rounds_accepted _ _ c h)

/-! ## Closure -/

theorem seen_closed (h : c ∈ identitySeen modelText) (hn : n ∈ unwrapIdentity c) (hne : n ≠ []) :
    n ∈ identitySeen modelText := by
  obtain hwaits | hmet := rounds_closed _ _ c h n hn (decide_eq_false hne)
  · have hend := identityRounds_end modelText
    unfold identityRounds at hend
    rw [hend] at hwaits
    cases hwaits
  · exact hmet

theorem seen_lower (h : c ∈ identitySeen modelText) : ∀ x ∈ c, x.toLower = x := by
  have hkept : ∀ value : List Char, (∀ x ∈ value, x.toLower = x) → ∀ n ∈ unwrapIdentity value,
      blank n = false → ∀ x ∈ n, x.toLower = x := by
    intro value hvalue n hn _ x hx
    obtain hold | rfl := mem_of_mem_unwrapIdentity hn hx
    · exact hvalue x hold
    · decide
  refine rounds_subset hkept ?_ _ c h
  intro x hx
  obtain ⟨y, -, rfl⟩ := List.mem_map.mp hx
  exact toLower_toLower y

theorem seen_of_seen {d : String} (h : d ∈ identityCandidates modelText) (htrim : trim d = d)
    {e : String} (he : e ∈ identityCandidates d) : e ∈ identityCandidates modelText := by
  rw [mem_identityCandidates] at h he ⊢
  have hstart : identityStart d = d.toList := by
    have htrimmed : trimChars d.toList = d.toList := by
      have hlist := congrArg String.toList htrim
      unfold trim at hlist
      rw [String.toList_ofList] at hlist
      exact hlist
    unfold identityStart
    rw [htrimmed]
    exact (List.map_congr_left fun x hx => seen_lower h x hx).trans (List.map_id _)
  refine Search.rounds_subset (fun value hvalue n hn hfine => ?_) ?_ _ e.toList he
  · exact seen_closed hvalue hn (of_decide_eq_false hfine)
  · rw [hstart]
    exact h

/-! ## Order -/

theorem seen_rooted (modelText : String) :
    Search.Rooted unwrapIdentity (identityStart modelText) (identitySeen modelText) :=
  (rounds_traced _ _).1

theorem head_identityCandidates (modelText : String) : (identityCandidates modelText).head? =
    if identityStart modelText = [] then none else some (String.ofList (identityStart modelText)) := by
  have hlast : ((identityCandidates modelText).map String.toList).head? = (identitySeen modelText).getLast? := by
    rw [identityCandidates_eq, List.head?_reverse]
    rfl
  have hrooted := seen_rooted modelText
  split
  · rename_i hblank
    have hnone : identitySeen modelText = [] := by
      by_contra hne
      have hmem := List.mem_of_getLast? (hrooted.last hne)
      exact nonempty_of_seen hmem hblank
    rw [hnone, List.getLast?_nil, List.head?_map, Option.map_eq_none_iff] at hlast
    exact hlast
  · rename_i hne
    have hmet : identityStart modelText ∈ identitySeen modelText :=
      start_met (decide_eq_false hne) (identityRounds_end modelText)
    rw [hrooted.last (List.ne_nil_of_mem hmet), List.head?_map] at hlast
    obtain ⟨first, hfirst, heq⟩ := Option.map_eq_some_iff.mp hlast
    rw [hfirst, ← heq, String.ofList_toList]

theorem earlier_identityCandidates {before after : List String} {d : String}
    (h : identityCandidates modelText = before ++ d :: after) (hne : before ≠ []) :
    ∃ e ∈ before, Peeled e.toList d.toList ∨ claudeDotVersionToHyphen e.toList = some d.toList := by
  have hseen : identitySeen modelText =
      (after.map String.toList).reverse ++ d.toList :: (before.map String.toList).reverse := by
    have hreverse := congrArg List.reverse (identityCandidates_eq modelText)
    rw [List.reverse_reverse, h, List.map_append, List.map_cons, List.reverse_append,
      List.reverse_cons, List.append_assoc, List.singleton_append] at hreverse
    exact hreverse.symm
  have hrooted := seen_rooted modelText
  rw [hseen] at hrooted
  have hbefore : (before.map String.toList).reverse ≠ [] := by simpa using hne
  obtain ⟨parent, hparent, hnext⟩ := hrooted.parent hbefore
  rw [List.mem_reverse, List.mem_map] at hparent
  obtain ⟨e, he, rfl⟩ := hparent
  refine ⟨e, he, ?_⟩
  obtain ⟨-, hpeeled⟩ | hclaude := mem_unwrapIdentity hnext
  · exact .inl hpeeled
  · exact .inr hclaude

end

/-! ## The result -/

/-- The search empties its queue, and so does the suffix loop inside. The candidates are distinct and
nonempty and begin with the trimmed name in lower case, where that is not empty. A candidate's peelings
are candidates, and so are the candidates of a candidate without white space at its ends. Each later one
is the hyphenated version of an earlier one, or a piece that one of the four other rules cuts out of it;
the rule that slices at byte offsets always slices between characters. -/
theorem identity_candidates_closed (modelText : String) :
    (∃ turns, ∀ n, turns ≤ n → identityRounds modelText n =
      ([], ((identityCandidates modelText).map String.toList).reverse)) ∧
    (∀ value, (stripRound (stripLoop value.length value)).2 = false ∧
      ((stripRound value).2 = true → (stripRound value).1.length < value.length)) ∧
    (identityCandidates modelText).Nodup ∧ "" ∉ identityCandidates modelText ∧
    (identityCandidates modelText).head? = (if identityStart modelText = [] then none
      else some (String.ofList (identityStart modelText))) ∧
    (∀ c ∈ identityCandidates modelText,
      (∀ n ∈ unwrapIdentity c.toList, n ≠ [] → String.ofList n ∈ identityCandidates modelText) ∧
      (trim c = c → ∀ d ∈ identityCandidates c, d ∈ identityCandidates modelText)) ∧
    (∀ before c after, identityCandidates modelText = before ++ c :: after → before ≠ [] →
      ∃ e ∈ before, Peeled e.toList c.toList ∨ claudeDotVersionToHyphen e.toList = some c.toList) ∧
    ∀ value, stripProviderDotPrefixBytes value = some (stripProviderDotPrefix value) := by
  refine ⟨⟨6 ^ identityWeight (identityStart modelText), fun n hn => ?_⟩, fun value => ⟨?_, ?_⟩,
    nodup_identityCandidates modelText, fun hempty => ?_, head_identityCandidates modelText,
    fun c hc => ⟨fun n hn hne => ?_, fun htrim d hd => seen_of_seen hc htrim hd⟩,
    fun before c after h hne => earlier_identityCandidates h hne, stripProviderDotPrefixBytes_eq⟩
  · have hend := identityRounds_end modelText
    have hstable : identityRounds modelText n =
        identityRounds modelText (6 ^ identityWeight (identityStart modelText)) :=
      Search.rounds_stable hend hn
    rw [hstable, identityCandidates_eq, List.reverse_reverse, ← hend]
  · exact (stripLoop_strips (Nat.le_refl value.length)).2
  · exact fun hstripped => ((stripRound_strips value).shorter hstripped).1
  · rw [mem_identityCandidates] at hempty
    exact nonempty_of_seen hempty String.toList_empty
  · rw [mem_identityCandidates] at hc ⊢
    rw [String.toList_ofList]
    exact seen_closed hc hn hne

/-- Peeling a suffix may leave white space at the end, which a new search would trim first; and a blank
name has no candidates at all. -/
theorem identity_candidates_not_closed :
    (¬∀ modelText c d, c ∈ identityCandidates modelText → d ∈ identityCandidates c →
      d ∈ identityCandidates modelText) ∧
    identityCandidates " " = [] ∧
    (identityCandidates "b -thinking" = ["b -thinking", "b ", "b"] ∧ '/' ∉ "b ".toList) := by
  have hcandidate : "a/b " ∈ identityCandidates "a/b -thinking" := by decide
  have hnext : "a/b" ∈ identityCandidates "a/b " := by decide
  have hmissing : "a/b" ∉ identityCandidates "a/b -thinking" := by decide
  exact ⟨fun h => hmissing (h _ _ _ hcandidate hnext), by decide, by decide, by decide⟩

end CcSwitchServer.ValuePricing
