import CcSwitchServer.Foundations.Runs
import CcSwitchServer.Usage.Normalization

/-! # Usage over the frames of a stream (`src/proxy/streaming.rs`)

Upstreams spread the counts of an answer over several frames.
-/

namespace CcSwitchServer.Usage
open Foundations TokenUsage

namespace TokenUsage

def empty : TokenUsage := ⟨none, none, none, none, none, none, none⟩

def hasCache (u : TokenUsage) : Bool := u.cacheReadTokens.isSome || u.cacheCreationTokens.isSome

def cached (u : TokenUsage) : ℕ := u.cacheReadTokens.getD 0 + u.cacheCreationTokens.getD 0

/-! ## Merging -/

variable (target next : TokenUsage)

/-- The counts that `next` reports, and the others of `target`. -/
def overlay : TokenUsage where
  rawInputTokens := next.rawInputTokens.or target.rawInputTokens
  inputTokens := next.inputTokens.or target.inputTokens
  outputTokens := next.outputTokens.or target.outputTokens
  cacheReadTokens := next.cacheReadTokens.or target.cacheReadTokens
  cacheCreationTokens := next.cacheCreationTokens.or target.cacheCreationTokens
  cacheCreationDetails :=
    if next.cacheCreationTokens.isSome then next.cacheCreationDetails
    else next.cacheCreationDetails.or target.cacheCreationDetails
  totalTokens := target.totalTokens

variable (semantics : InputTokenSemantics)

/-- Cached tokens that are reported without an input are taken off the raw one. -/
def repairedInput : Option ℕ :=
  if semantics ≠ .exclusive ∧ next.rawInputTokens = none ∧ next.hasCache then
    (target.rawInputTokens.map fun raw =>
      raw - target.cacheReadTokens.getD 0 - target.cacheCreationTokens.getD 0).or target.inputTokens
  else target.inputTokens

def bucketSum (u : TokenUsage) : ℕ :=
  saturatingAddU64 (saturatingAddU64 (u.inputTokens.getD 0) (u.cacheReadTokens.getD 0)) (u.cacheCreationTokens.getD 0)

def repairedTotal : Option ℕ :=
  let total :=
    if next.totalTokens.isSome ∧
        (next.rawInputTokens.isSome ∨ next.outputTokens.isSome ∨ target.totalTokens = none) then next.totalTokens
    else target.totalTokens
  if next.outputTokens.isSome ∧ next.rawInputTokens = none ∧ next.inputTokens = none ∧ ¬next.hasCache ∧
      (target.inputTokens.isSome ∨ target.outputTokens.isSome) then
    some (saturatingAddU64 (target.rawInputTokens.getD target.bucketSum) (target.outputTokens.getD 0))
  else total

/-- A frame with fresh counts recomputes the sums. -/
def Recomputes (next : TokenUsage) (semantics : InputTokenSemantics) : Prop :=
  semantics = .exclusive ∧ (next.inputTokens.isSome ∨ next.hasCache ∨ next.outputTokens.isSome)

instance (next : TokenUsage) (semantics : InputTokenSemantics) : Decidable (next.Recomputes semantics) :=
  inferInstanceAs (Decidable (_ ∧ _))

def exclusiveRaw : Option ℕ :=
  if next.Recomputes semantics ∧ (target.inputTokens.isSome ∨ target.hasCache) then some target.bucketSum
  else target.rawInputTokens

def exclusiveTotal : Option ℕ :=
  if next.Recomputes semantics ∧ (target.rawInputTokens.isSome ∨ target.outputTokens.isSome) then
    some (saturatingAddU64 (target.rawInputTokens.getD 0) (target.outputTokens.getD 0))
  else target.totalTokens

end TokenUsage

variable (semantics : InputTokenSemantics)

/-- The count of each kind that was reported last, and the derived ones repaired by what the new frame has. -/
def mergeUsage (target next : TokenUsage) : TokenUsage :=
  let target := target.overlay next
  let target := { target with inputTokens := target.repairedInput next semantics }
  let target := { target with totalTokens := target.repairedTotal next }
  let target := { target with rawInputTokens := target.exclusiveRaw next semantics }
  { target with totalTokens := target.exclusiveTotal next semantics }

/-- The usage after a list of frames. -/
def streamUsage (frames : List TokenUsage) : TokenUsage := run (mergeUsage semantics) .empty frames

/-! ## Frames -/

def Frame (next : TokenUsage) : Prop := ∃ value, usageFromJsonWithSemantics value semantics = some next

/-- A frame that reports no total of its own. -/
def DerivedFrame (next : TokenUsage) : Prop :=
  ∃ value, usageFromJsonWithSemantics value semantics = some next ∧ readTotal (usageValue value) = none

section
variable {next : TokenUsage}

theorem Frame.inclusive (h : Frame .inclusive next) :
    next.inputTokens = next.rawInputTokens.map (fun raw => raw - min next.cached u64Max) ∧
    ∀ raw, next.rawInputTokens = some raw → raw ≤ u64Max := by
  obtain ⟨value, hvalue⟩ := h
  obtain ⟨total, _, rfl⟩ := Option.map_eq_some_iff.mp hvalue
  exact ⟨rfl, (readCounts_bounded (usageValue value)).input⟩

theorem Frame.exclusive (h : Frame .exclusive next) :
    ∃ raw : ℕ → ℕ, next.rawInputTokens = next.inputTokens.map raw := by
  obtain ⟨value, hvalue⟩ := h
  obtain ⟨total, _, rfl⟩ := Option.map_eq_some_iff.mp hvalue
  exact ⟨_, rfl⟩

theorem DerivedFrame.frame {semantics : InputTokenSemantics} (h : DerivedFrame semantics next) :
    Frame semantics next := h.imp fun _ h => h.1

theorem DerivedFrame.total {semantics : InputTokenSemantics} (h : DerivedFrame semantics next)
    (hreports : next.rawInputTokens.isSome ∨ next.outputTokens.isSome) :
    next.totalTokens = some (next.rawInputTokens.getD 0 + next.outputTokens.getD 0) := by
  obtain ⟨value, hvalue, hnone⟩ := h
  obtain ⟨total, htotal, rfl⟩ := Option.map_eq_some_iff.mp hvalue
  unfold TokenCounts.sumTotal at htotal
  rw [show (readCounts (usageValue value)).total = none from hnone, Option.isSome_none, if_neg Bool.false_ne_true,
    if_pos hreports] at htotal
  obtain ⟨sum, hsum, rfl⟩ := Option.map_eq_some_iff.mp htotal
  exact congrArg some (checkedAddU64_eq_some.mp hsum).2

end

/-! ## One frame -/

/-- A count that is reported, or was zero. -/
def Covers (count old : Option ℕ) : Prop := count.isSome ∨ old.getD 0 = 0

theorem Covers.getD {count old : Option ℕ} (h : Covers count old) : (count.or old).getD 0 = count.getD 0 := by
  cases count with
  | some n => rfl
  | none => exact h.resolve_left Bool.false_ne_true

/-- An inclusive frame with a prompt count repeats the cache counts; an exclusive one keeps the sum in 64 bits. -/
def KeepsBuckets : InputTokenSemantics → TokenUsage → TokenUsage → Prop
  | .inclusive, target, next => next.rawInputTokens.isSome →
      Covers next.cacheReadTokens target.cacheReadTokens ∧ Covers next.cacheCreationTokens target.cacheCreationTokens
  | _, target, next => ∀ input, (target.overlay next).inputTokens = some input →
      input + (target.overlay next).cached ≤ u64Max

/-- An inclusive frame with a prompt count repeats the output, and one without has no cache counts beside an output;
the sum fits into 64 bits. -/
def KeepsTotal : InputTokenSemantics → TokenUsage → TokenUsage → Prop
  | .inclusive, target, next =>
      (next.rawInputTokens.isSome → Covers next.outputTokens target.outputTokens) ∧
      (next.rawInputTokens = none → next.outputTokens.isSome → next.hasCache → target.rawInputTokens.getD 0 = 0) ∧
      ∀ raw, (target.overlay next).rawInputTokens = some raw → raw + (target.overlay next).outputTokens.getD 0 ≤ u64Max
  | _, target, next => ∀ input, (target.overlay next).inputTokens = some input →
      input + (target.overlay next).cached + (target.overlay next).outputTokens.getD 0 ≤ u64Max

/-- The buckets add up to the raw input. -/
def Balanced (u : TokenUsage) : Prop := u.inputTokens.map (· + u.cached) = u.rawInputTokens

section
variable {target next : TokenUsage}

theorem merge_inclusive (target next : TokenUsage) :
    mergeUsage .inclusive target next =
      { target.overlay next with
        inputTokens := (target.overlay next).repairedInput next .inclusive
        totalTokens := { target.overlay next with
          inputTokens := (target.overlay next).repairedInput next .inclusive : TokenUsage }.repairedTotal next } := by
  simp [mergeUsage, exclusiveRaw, exclusiveTotal, TokenUsage.Recomputes]

theorem merge_balanced (hframe : Frame .inclusive next) (hkeeps : KeepsBuckets .inclusive target next)
    (hwithin : ∀ raw, next.rawInputTokens.or target.rawInputTokens = some raw → (target.overlay next).cached ≤ raw)
    (hbalanced : Balanced target) : Balanced (mergeUsage .inclusive target next) := by
  obtain ⟨hfresh, hbound⟩ := hframe.inclusive
  rw [merge_inclusive]
  unfold Balanced TokenUsage.repairedInput
  change Option.map (· + (target.overlay next).cached) _ = next.rawInputTokens.or target.rawInputTokens
  cases hraw : next.rawInputTokens with
  | some raw =>
    have hcovers := hkeeps (by rw [hraw]; rfl)
    have hcached : (target.overlay next).cached = next.cached := congrArg₂ (· + ·) hcovers.1.getD hcovers.2.getD
    have hle := hwithin raw (by rw [hraw]; rfl)
    rw [hcached] at hle
    have hsum : raw - min next.cached u64Max + next.cached = raw := by
      have := hbound raw hraw
      omega
    rw [if_neg (by simp)]
    change Option.map _ (next.inputTokens.or target.inputTokens) = some raw
    rw [hfresh, hraw, hcached]
    exact congrArg some hsum
  | none =>
    have hinput : next.inputTokens.or target.inputTokens = target.inputTokens := by
      rw [hfresh, hraw]
      rfl
    rw [hraw, Option.none_or] at hwithin
    unfold Balanced at hbalanced
    split
    · change Option.map _ (((next.rawInputTokens.or target.rawInputTokens).map _).or
        (next.inputTokens.or target.inputTokens)) = _
      rw [hinput, hraw, Option.none_or]
      cases hold : target.rawInputTokens with
      | none =>
        rw [hold, Option.map_eq_none_iff] at hbalanced
        rw [hbalanced]
        rfl
      | some raw =>
        have hle := hwithin raw hold
        unfold TokenUsage.cached at hle ⊢
        have hsum : ∀ read creation : ℕ, read + creation ≤ raw → raw - read - creation + (read + creation) = raw := by
          omega
        exact congrArg some (hsum _ _ hle)
    · rename_i hcache
      have hnone : next.cacheReadTokens = none ∧ next.cacheCreationTokens = none := by
        simpa [TokenUsage.hasCache] using hcache
      change Option.map _ (next.inputTokens.or target.inputTokens) = none.or target.rawInputTokens
      rw [hinput, Option.none_or, ← hbalanced]
      unfold TokenUsage.cached TokenUsage.overlay
      rw [hnone.1, hnone.2]
      rfl

/-- The total is the raw input and the output. -/
def Totalled (u : TokenUsage) : Prop :=
  ∀ raw, u.rawInputTokens = some raw → u.totalTokens = some (raw + u.outputTokens.getD 0)

theorem merge_totalled (hframe : DerivedFrame .inclusive next) (hkeeps : KeepsTotal .inclusive target next)
    (htotalled : Totalled target) : Totalled (mergeUsage .inclusive target next) := by
  obtain ⟨hcovers, hlate, hfits⟩ := hkeeps
  have hinput := hframe.frame.inclusive.1
  rw [merge_inclusive]
  intro raw hraw
  change next.rawInputTokens.or target.rawInputTokens = some raw at hraw
  change repairedTotal _ next = some (raw + (next.outputTokens.or target.outputTokens).getD 0)
  unfold repairedTotal
  cases hnext : next.rawInputTokens with
  | some found =>
    have htotal := hframe.total (.inl (by rw [hnext]; rfl))
    have hcovered := (hcovers (by rw [hnext]; rfl)).getD
    rw [hnext, Option.some_or] at hraw
    obtain rfl := Option.some.inj hraw
    rw [if_neg (by simp), if_pos ⟨by rw [htotal]; rfl, .inl rfl⟩, htotal, hnext, hcovered]
    rfl
  | none =>
    rw [hnext, Option.none_or] at hraw
    have hold := htotalled raw hraw
    have hle : raw + (next.outputTokens.or target.outputTokens).getD 0 ≤ u64Max :=
      hfits raw (by change next.rawInputTokens.or _ = _; rw [hnext, Option.none_or, hraw])
    cases houtput : next.outputTokens with
    | none =>
      rw [if_neg (by simp), Option.none_or]
      split
      · rename_i h
        have hnone : (target.overlay next).totalTokens = none := by simpa using h.2
        cases hold.symm.trans hnone
      · exact hold
    | some output =>
      have htotal := hframe.total (.inr (by rw [houtput]; rfl))
      rw [hnext, houtput, Option.getD_none, Option.getD_some, Nat.zero_add] at htotal
      by_cases hcache : next.hasCache
      · have hzero := hlate hnext (by rw [houtput]; rfl) hcache
        rw [hraw, Option.getD_some] at hzero
        rw [if_neg (by simp [hcache]), if_pos ⟨by rw [htotal]; rfl, .inr (.inl rfl)⟩, htotal, hzero, Nat.zero_add]
        rfl
      · rw [if_pos ⟨rfl, rfl, by rw [hinput, hnext]; rfl, hcache, .inr (by simp [overlay, houtput])⟩]
        change some (saturatingAddU64 ((next.rawInputTokens.or target.rawInputTokens).getD _)
          ((next.outputTokens.or target.outputTokens).getD 0)) = _
        rw [hnext, Option.none_or, hraw, houtput]
        rw [houtput] at hle
        exact congrArg some (min_eq_left hle)

/-- What an exclusive stream keeps from its first input on. -/
def Recomputed (u : TokenUsage) : Prop :=
  ∀ input, u.inputTokens = some input → u.rawInputTokens = some (min (input + u.cached) u64Max) ∧
    u.totalTokens = some (min (min (input + u.cached) u64Max + u.outputTokens.getD 0) u64Max)

theorem TokenUsage.bucketSum_eq (u : TokenUsage) : u.bucketSum = min (u.inputTokens.getD 0 + u.cached) u64Max := by
  unfold bucketSum saturatingAddU64 cached
  generalize u64Max = cap
  omega

variable (semantics : InputTokenSemantics)

theorem merge_total (target next : TokenUsage) : (mergeUsage semantics target next).totalTokens =
      if next.Recomputes semantics ∧ ((mergeUsage semantics target next).rawInputTokens.isSome ∨
          (mergeUsage semantics target next).outputTokens.isSome) then
        some (saturatingAddU64 ((mergeUsage semantics target next).rawInputTokens.getD 0)
          ((mergeUsage semantics target next).outputTokens.getD 0))
      else { target.overlay next with
        inputTokens := (target.overlay next).repairedInput next semantics : TokenUsage }.repairedTotal next := rfl

theorem exclusive_input (target next : TokenUsage) :
    (mergeUsage .exclusive target next).inputTokens = next.inputTokens.or target.inputTokens := by
  change repairedInput _ next .exclusive = _
  exact if_neg (by simp)

theorem merge_recomputed (hframe : Frame .exclusive next) (hold : Recomputed target) :
    Recomputed (mergeUsage .exclusive target next) := by
  intro input hinput
  have hrepaired : (target.overlay next).repairedInput next .exclusive = _ := exclusive_input target next
  rw [exclusive_input] at hinput
  rw [merge_total]
  by_cases hcounts : next.Recomputes .exclusive
  · have hraw : (mergeUsage .exclusive target next).rawInputTokens =
        some (min (input + (target.overlay next).cached) u64Max) := by
      change exclusiveRaw _ next .exclusive = _
      rw [exclusiveRaw, if_pos ⟨hcounts, .inl (by rw [hrepaired, hinput]; rfl)⟩, bucketSum_eq, hrepaired, hinput]
      rfl
    rw [if_pos ⟨hcounts, .inl (by rw [hraw]; rfl)⟩, hraw]
    exact ⟨rfl, rfl⟩
  · have hnone : next.inputTokens = none ∧ next.cacheReadTokens = none ∧ next.cacheCreationTokens = none ∧
        next.outputTokens = none := by
      simpa [TokenUsage.Recomputes, hasCache, and_assoc] using hcounts
    obtain ⟨hinput', hread, hcreation, houtput⟩ := hnone
    obtain ⟨raw, hraw⟩ := hframe.exclusive
    rw [hinput', Option.map_none] at hraw
    rw [hinput', Option.none_or] at hinput
    obtain ⟨hkept, htotal⟩ := hold input hinput
    have hcached : (mergeUsage .exclusive target next).cached = target.cached := by
      change (next.cacheReadTokens.or target.cacheReadTokens).getD 0 +
        (next.cacheCreationTokens.or target.cacheCreationTokens).getD 0 = _
      rw [hread, hcreation]
      rfl
    rw [hcached, if_neg fun h => hcounts h.1]
    constructor
    · change exclusiveRaw _ next .exclusive = _
      rw [exclusiveRaw, if_neg fun h => hcounts h.1, ← hkept]
      change next.rawInputTokens.or target.rawInputTokens = _
      rw [hraw, Option.none_or]
    · change _ = some (min (_ + (next.outputTokens.or target.outputTokens).getD 0) u64Max)
      rw [houtput, Option.none_or, ← htotal, repairedTotal, houtput, hraw, if_neg (by simp)]
      refine if_neg fun h => ?_
      have hnone : (target.overlay next).totalTokens = none := by simpa using h.2
      cases htotal.symm.trans hnone

/-! ## The same frame again -/

theorem or_or_self {α : Type} (count old : Option α) : count.or (count.or old) = count.or old := by
  rw [← Option.or_assoc, Option.or_self]

theorem or_or_or (a b c : Option ℕ) : a.or (b.or (a.or (b.or c))) = a.or (b.or c) := by
  cases a with
  | none => exact or_or_self b c
  | some n => rfl

attribute [ext] TokenUsage

theorem repairedInput_again (target next : TokenUsage) :
    ((mergeUsage semantics target next).overlay next).repairedInput next semantics =
      (target.overlay next).repairedInput next semantics := by
  unfold TokenUsage.repairedInput
  split
  · rename_i hrepairs
    have hraw : (mergeUsage semantics target next).rawInputTokens = (target.overlay next).rawInputTokens :=
      if_neg fun h => hrepairs.1 h.1.1
    change (Option.map _ (next.rawInputTokens.or (mergeUsage semantics target next).rawInputTokens)).or
      (next.inputTokens.or ((target.overlay next).repairedInput next semantics)) = _
    rw [hraw, TokenUsage.repairedInput, if_pos hrepairs]
    change (Option.map (fun raw => raw - (next.cacheReadTokens.or (next.cacheReadTokens.or _)).getD 0 -
      (next.cacheCreationTokens.or (next.cacheCreationTokens.or _)).getD 0)
      (next.rawInputTokens.or (next.rawInputTokens.or _))).or
      (next.inputTokens.or (Option.or _ (next.inputTokens.or target.inputTokens))) = _
    rw [or_or_self, or_or_self, or_or_self]
    exact or_or_or _ _ _
  · rename_i hkeeps
    change next.inputTokens.or ((target.overlay next).repairedInput next semantics) = _
    rw [TokenUsage.repairedInput, if_neg hkeeps]
    exact or_or_self _ _

theorem exclusiveRaw_congr {semantics : InputTokenSemantics} {u v : TokenUsage} (hinput : u.inputTokens = v.inputTokens)
    (hread : u.cacheReadTokens = v.cacheReadTokens) (hcreation : u.cacheCreationTokens = v.cacheCreationTokens)
    (hraw : ¬(next.Recomputes semantics ∧ (v.inputTokens.isSome ∨ v.hasCache)) → u.rawInputTokens = v.rawInputTokens) :
    u.exclusiveRaw next semantics = v.exclusiveRaw next semantics := by
  have hcache : u.hasCache = v.hasCache := congrArg₂ (· || ·) (congrArg _ hread) (congrArg _ hcreation)
  unfold exclusiveRaw bucketSum
  rw [hinput, hread, hcreation, hcache]
  split
  · rfl
  · exact hraw ‹_›

theorem repairedTotal_again {u v : TokenUsage} (hinput : u.inputTokens = v.inputTokens)
    (hread : u.cacheReadTokens = v.cacheReadTokens) (hcreation : u.cacheCreationTokens = v.cacheCreationTokens)
    (houtput : u.outputTokens = v.outputTokens) (hraw : next.outputTokens.isSome → u.rawInputTokens = v.rawInputTokens)
    (htotal : u.totalTokens = v.repairedTotal next) : u.repairedTotal next = v.repairedTotal next := by
  unfold repairedTotal at htotal ⊢
  dsimp only at htotal ⊢
  rw [hinput, houtput]
  split
  · rename_i hrepairs
    have hsum : u.bucketSum = v.bucketSum := by
      unfold bucketSum
      rw [hinput, hread, hcreation]
    rw [hraw hrepairs.1, hsum]
  · rename_i hkeeps
    rw [if_neg hkeeps] at htotal
    rw [← htotal]
    split
    · rename_i htaken
      split at htotal
      · exact htotal.symm
      · rename_i hskipped
        rw [htotal] at htaken
        exact absurd htaken hskipped
    · rfl

/-- A frame that comes twice changes nothing. -/
theorem merge_again (target next : TokenUsage) :
    mergeUsage semantics (mergeUsage semantics target next) next = mergeUsage semantics target next := by
  have hinput := repairedInput_again semantics target next
  have hread : ((mergeUsage semantics target next).overlay next).cacheReadTokens =
      (target.overlay next).cacheReadTokens := or_or_self _ _
  have hcreation : ((mergeUsage semantics target next).overlay next).cacheCreationTokens =
      (target.overlay next).cacheCreationTokens := or_or_self _ _
  have houtput : ((mergeUsage semantics target next).overlay next).outputTokens =
      (target.overlay next).outputTokens := or_or_self _ _
  have hraw : (mergeUsage semantics (mergeUsage semantics target next) next).rawInputTokens =
      (mergeUsage semantics target next).rawInputTokens := by
    change exclusiveRaw _ next semantics = exclusiveRaw _ next semantics
    refine exclusiveRaw_congr hinput hread hcreation fun h => ?_
    change next.rawInputTokens.or (exclusiveRaw _ next semantics) = next.rawInputTokens.or _
    rw [exclusiveRaw, if_neg h]
    exact or_or_self _ _
  ext1
  · exact hraw
  · exact hinput
  · exact houtput
  · exact hread
  · exact hcreation
  · change (if _ then _ else next.cacheCreationDetails.or (if _ then _ else _)) = if _ then _ else _
    split
    · rfl
    · exact or_or_self _ _
  · rw [merge_total, hraw]
    rw [show (mergeUsage semantics (mergeUsage semantics target next) next).outputTokens =
      (mergeUsage semantics target next).outputTokens from houtput, merge_total semantics target next]
    split
    · rfl
    · rename_i hcounts
      have hold : (mergeUsage semantics target next).totalTokens = _ := if_neg hcounts
      refine repairedTotal_again hinput hread hcreation houtput (fun hsome => ?_) hold
      have hskipped : ¬next.Recomputes semantics := fun h => hcounts ⟨h, .inr ?_⟩
      · change next.rawInputTokens.or (exclusiveRaw _ next semantics) = _
        rw [exclusiveRaw, if_neg fun h => hskipped h.1]
        exact or_or_self _ _
      · change (next.outputTokens.or target.outputTokens).isSome
        rw [Option.isSome_or, hsome]
        rfl

end

/-! ## Streams -/

/-- The count of the last frame that has one. -/
def lastReported (count : TokenUsage → Option ℕ) (frames : List TokenUsage) : Option ℕ := frames.reverse.findSome? count

/-- The cache counts reported last are never more than the raw input reported last. -/
def CachesWithin (frames : List TokenUsage) : Prop :=
  ∀ seen ∈ frames.inits, ∀ raw ∈ lastReported rawInputTokens seen,
    (lastReported cacheReadTokens seen).getD 0 + (lastReported cacheCreationTokens seen).getD 0 ≤ raw

section
variable {semantics : InputTokenSemantics} {frames : List TokenUsage}

theorem lastReported_concat (count : TokenUsage → Option ℕ) (frames : List TokenUsage) (next : TokenUsage) :
    lastReported count (frames ++ [next]) = (count next).or (lastReported count frames) := by
  unfold lastReported
  rw [List.reverse_append, List.reverse_singleton, List.singleton_append, List.findSome?_cons]
  cases count next <;> rfl

theorem stream_concat (semantics : InputTokenSemantics) (frames : List TokenUsage) (next : TokenUsage) :
    streamUsage semantics (frames ++ [next]) = mergeUsage semantics (streamUsage semantics frames) next :=
  run_append_singleton _ _ _ _

theorem stream_last {count : TokenUsage → Option ℕ}
    (hcount : ∀ target next, count (mergeUsage semantics target next) = (count next).or (count target))
    (hempty : count .empty = none) : count (streamUsage semantics frames) = lastReported count frames := by
  induction frames using List.reverseRecOn with
  | nil => exact hempty
  | append_singleton frames next ih => rw [stream_concat, hcount, ih, lastReported_concat]

theorem stream_counts (semantics : InputTokenSemantics) (frames : List TokenUsage) :
    (streamUsage semantics frames).cacheReadTokens = lastReported cacheReadTokens frames ∧
    (streamUsage semantics frames).cacheCreationTokens = lastReported cacheCreationTokens frames ∧
    (streamUsage semantics frames).outputTokens = lastReported outputTokens frames :=
  ⟨stream_last (fun _ _ => rfl) rfl, stream_last (fun _ _ => rfl) rfl, stream_last (fun _ _ => rfl) rfl⟩

theorem stream_balanced (hframes : ∀ next ∈ frames, Frame .inclusive next) (hwithin : CachesWithin frames)
    (hkeeps : EachStep (mergeUsage .inclusive) (KeepsBuckets .inclusive) .empty frames) :
    Balanced (streamUsage .inclusive frames) := by
  induction frames using List.reverseRecOn with
  | nil => exact rfl
  | append_singleton frames next ih =>
    have hprefix : CachesWithin frames := fun seen hseen =>
      hwithin seen ((List.mem_inits _ _).mpr (((List.mem_inits _ _).mp hseen).trans (List.prefix_append _ _)))
    obtain ⟨hrun, hlast, -⟩ := hkeeps.split
    rw [stream_concat]
    refine merge_balanced (hframes next (by simp)) hlast (fun raw hraw => ?_)
      (ih (fun n hn => hframes n (by simp [hn])) hprefix hrun)
    have hlastRaw : (streamUsage .inclusive frames).rawInputTokens = lastReported rawInputTokens frames :=
      stream_last (fun target next => by rw [merge_inclusive]; rfl) rfl
    obtain ⟨hread, hcreation, -⟩ := stream_counts .inclusive frames
    have hle := hwithin (frames ++ [next]) ((List.mem_inits _ _).mpr List.prefix_rfl) raw
      (by rw [lastReported_concat, ← hlastRaw]; exact hraw)
    rw [lastReported_concat, lastReported_concat, ← hread, ← hcreation] at hle
    exact hle

theorem stream_totalled (hframes : ∀ next ∈ frames, DerivedFrame .inclusive next)
    (hkeeps : EachStep (mergeUsage .inclusive) (KeepsTotal .inclusive) .empty frames) :
    Totalled (streamUsage .inclusive frames) := by
  induction frames using List.reverseRecOn with
  | nil => rintro raw ⟨⟩
  | append_singleton frames next ih =>
    obtain ⟨hrun, hlast, -⟩ := hkeeps.split
    rw [stream_concat]
    exact merge_totalled (hframes next (by simp)) hlast (ih (fun n hn => hframes n (by simp [hn])) hrun)

theorem stream_recomputed (hframes : ∀ next ∈ frames, Frame .exclusive next) :
    Recomputed (streamUsage .exclusive frames) :=
  run_invariant (fun _ _ hold hframe => merge_recomputed hframe hold) (by rintro input ⟨⟩) (EachStep.of_mem hframes _)

/-- A stream that has an input count ends with a step that meets the condition of all steps. -/
theorem last_meets {P : TokenUsage → TokenUsage → Prop} {input : ℕ}
    (hinput : (streamUsage .exclusive frames).inputTokens = some input)
    (hkeeps : EachStep (mergeUsage .exclusive) P .empty frames) :
    ∃ target next, P target next ∧ (target.overlay next).inputTokens = some input ∧
      (target.overlay next).cached = (streamUsage .exclusive frames).cached ∧
      (target.overlay next).outputTokens = (streamUsage .exclusive frames).outputTokens := by
  induction frames using List.reverseRecOn with
  | nil => cases hinput
  | append_singleton frames next _ =>
    rw [stream_concat, exclusive_input] at hinput
    rw [stream_concat]
    exact ⟨_, next, hkeeps.split.2.1, hinput, rfl, rfl⟩

end

/-! ## What a stream keeps -/

/-- The same prompt count, first with the cached tokens in it and then without a word of them. -/
def repeatedPrompt : List Json :=
  [.object [("prompt_tokens", .number (.posInt 100)), ("cached_tokens", .number (.posInt 30))],
    .object [("prompt_tokens", .number (.posInt 100)), ("completion_tokens", .number (.posInt 5))]]

theorem prompt_counted_twice :
    ∃ frames, repeatedPrompt.mapM (usageFromJsonWithSemantics · .inclusive) = some frames ∧ CachesWithin frames ∧
      (streamUsage .inclusive frames).inputTokens = some 100 ∧ (streamUsage .inclusive frames).cacheReadTokens = some 30 ∧
      (streamUsage .inclusive frames).rawInputTokens ≠ some (100 + (streamUsage .inclusive frames).cached) :=
  ⟨_, rfl, by unfold CachesWithin; decide, by decide, by decide, by decide⟩

/-- Merged frames report the last counts, and their buckets and totals add up while no frame leaves out a count that
its own sums need. -/
theorem stream_usage_consistent (semantics : InputTokenSemantics) (frames : List TokenUsage)
    (hsemantics : semantics ≠ .auto) (hframes : ∀ next ∈ frames, Frame semantics next) (hwithin : CachesWithin frames) :
    (EachStep (mergeUsage semantics) (KeepsBuckets semantics) .empty frames →
      ∀ input, (streamUsage semantics frames).inputTokens = some input →
        (streamUsage semantics frames).rawInputTokens = some (input + (streamUsage semantics frames).cached)) ∧
    ((∀ next ∈ frames, DerivedFrame semantics next) →
      EachStep (mergeUsage semantics) (KeepsTotal semantics) .empty frames →
      ∀ input raw, (streamUsage semantics frames).inputTokens = some input →
        (streamUsage semantics frames).rawInputTokens = some raw →
        (streamUsage semantics frames).totalTokens = some (raw + (streamUsage semantics frames).outputTokens.getD 0)) ∧
    (streamUsage semantics frames).cacheReadTokens = lastReported TokenUsage.cacheReadTokens frames ∧
    (streamUsage semantics frames).cacheCreationTokens = lastReported TokenUsage.cacheCreationTokens frames ∧
    (streamUsage semantics frames).outputTokens = lastReported TokenUsage.outputTokens frames ∧
    ∀ seen next, frames = seen ++ [next] →
      mergeUsage semantics (streamUsage semantics frames) next = streamUsage semantics frames := by
  obtain ⟨hread, hcreation, houtput⟩ := stream_counts semantics frames
  refine ⟨fun hkeeps input hinput => ?_, fun hderived hkeeps input raw hinput hraw => ?_, hread, hcreation, houtput,
    fun seen next hlast => ?_⟩
  · cases semantics with
    | inclusive =>
      have hbalanced := stream_balanced hframes hwithin hkeeps
      rw [Balanced, hinput] at hbalanced
      exact hbalanced.symm
    | exclusive =>
      obtain ⟨target, next, hfits, hlast, hcached, -⟩ := last_meets hinput hkeeps
      rw [(stream_recomputed hframes input hinput).1, ← hcached, min_eq_left (hfits input hlast)]
    | auto => exact absurd rfl hsemantics
  · cases semantics with
    | inclusive => exact stream_totalled hderived hkeeps raw hraw
    | exclusive =>
      obtain ⟨target, next, hfits, hlast, hcached, houtput'⟩ := last_meets hinput hkeeps
      obtain ⟨hraw', htotal⟩ := stream_recomputed hframes input hinput
      obtain rfl := Option.some.inj (hraw'.symm.trans hraw)
      have hsum := hfits input hlast
      rw [htotal, ← houtput', ← hcached, min_eq_left (by omega)]
    | auto => exact absurd rfl hsemantics
  · rw [hlast, stream_concat, merge_again]

/-- The two frames of a short answer with cached input. -/
def shortAnswer : List TokenUsage :=
  [⟨some 15, some 10, some 1, some 5, none, none, some 16⟩, ⟨none, none, some 7, none, none, none, some 7⟩]

/-- Two frames that count the cached tokens as input. -/
def cachedPrompt : List TokenUsage :=
  [⟨some 100, some 70, none, some 30, none, none, some 100⟩, ⟨some 100, some 70, some 5, some 30, none, none, some 105⟩]

/-- The buckets of both answers, and the total of the second. -/
theorem shortAnswer_consistent :
    (streamUsage .exclusive shortAnswer).rawInputTokens = some (10 + (streamUsage .exclusive shortAnswer).cached) ∧
    (streamUsage .inclusive cachedPrompt).rawInputTokens = some (70 + (streamUsage .inclusive cachedPrompt).cached) ∧
    (streamUsage .inclusive cachedPrompt).totalTokens =
      some (100 + (streamUsage .inclusive cachedPrompt).outputTokens.getD 0) := by
  have hframes : ∀ next ∈ shortAnswer, Frame .exclusive next := by
    unfold shortAnswer
    rw [List.forall_mem_cons, List.forall_mem_singleton]
    exact ⟨⟨.object [("input_tokens", .number (.posInt 10)), ("cache_read_input_tokens", .number (.posInt 5)),
      ("output_tokens", .number (.posInt 1))], rfl⟩, ⟨.object [("output_tokens", .number (.posInt 7))], rfl⟩⟩
  have hkeeps : EachStep (mergeUsage .exclusive) (KeepsBuckets .exclusive) .empty shortAnswer :=
    ⟨by rintro input ⟨⟩; decide, by rintro input ⟨⟩; decide, trivial⟩
  have hderived : ∀ next ∈ cachedPrompt, DerivedFrame .inclusive next := by
    unfold cachedPrompt
    rw [List.forall_mem_cons, List.forall_mem_singleton]
    exact ⟨⟨.object [("prompt_tokens", .number (.posInt 100)), ("cached_tokens", .number (.posInt 30))], rfl, rfl⟩,
      ⟨.object [("prompt_tokens", .number (.posInt 100)), ("cached_tokens", .number (.posInt 30)),
        ("completion_tokens", .number (.posInt 5))], rfl, rfl⟩⟩
  have hbuckets : EachStep (mergeUsage .inclusive) (KeepsBuckets .inclusive) .empty cachedPrompt := by
    refine ⟨?_, ?_, trivial⟩ <;> (unfold KeepsBuckets Covers; decide)
  have htotal : EachStep (mergeUsage .inclusive) (KeepsTotal .inclusive) .empty cachedPrompt := by
    refine ⟨⟨by unfold Covers; decide, by decide, ?_⟩, ⟨by unfold Covers; decide, by decide, ?_⟩, trivial⟩
    · rintro raw ⟨⟩
      decide
    · rintro raw ⟨⟩
      decide
  have hcached := stream_usage_consistent .inclusive cachedPrompt (by decide)
    (fun next hnext => (hderived next hnext).imp fun _ h => h.1) (by unfold CachesWithin; decide)
  exact ⟨(stream_usage_consistent .exclusive shortAnswer (by decide) hframes (by unfold CachesWithin; decide)).1 hkeeps
    10 rfl, hcached.1 hbuckets 70 rfl, hcached.2.1 hderived htotal 70 100 rfl rfl⟩

end CcSwitchServer.Usage
