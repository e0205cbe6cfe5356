import CcSwitchServer.Foundations.Json
import CcSwitchServer.Usage.Log

/-! # Token counts in answers (`src/domain/usage/store.rs`)

Upstreams report their counts under many names, and some count cached tokens as input. Credits are left out.
-/

namespace CcSwitchServer.Usage
open Foundations Json Option

structure TokenUsage where
  rawInputTokens : Option ℕ
  inputTokens : Option ℕ
  outputTokens : Option ℕ
  cacheReadTokens : Option ℕ
  cacheCreationTokens : Option ℕ
  cacheCreationDetails : Option CacheCreationDetails
  totalTokens : Option ℕ
deriving DecidableEq, Repr

/-- Whether cached tokens are counted as input. -/
inductive InputTokenSemantics
  | inclusive
  | exclusive
  | auto
deriving DecidableEq, Repr

/-! ## Reading -/

def pointer (v : Json) (keys : List String) : Option Json := keys.foldlM get v

def firstU64 (v : Json) (keys : List String) : Option ℕ := keys.findSome? fun key => (v.get key).bind asU64

def u64At (v : Json) (keys : List String) : Option ℕ := (pointer v keys).bind asU64

def imageToolKeys : List String :=
  ["input_tokens", "inputTokens", "output_tokens", "outputTokens", "total_tokens", "totalTokens"]

/-- The counts of the image tool, if one of them is not zero. -/
def preferredImageToolTokenUsage (value : Json) : Option Json :=
  ((pointer value ["response", "tool_usage", "image_gen"]).orElse fun _ =>
    pointer value ["tool_usage", "image_gen"]).filter fun usage =>
      (imageToolKeys.filterMap fun key => (usage.get key).bind asU64).any (0 < ·)

def usageValue (value : Json) : Json :=
  ((preferredImageToolTokenUsage value).or ((value.get "usage").or ((pointer value ["message", "usage"]).or
    ((pointer value ["response", "usage"]).or ((pointer value ["response", "usageMetadata"]).or
      ((pointer value ["delta", "usage"]).or (value.get "usageMetadata"))))))).getD value

variable (usage : Json)

def readInput : Option ℕ :=
  firstU64 usage ["input_tokens", "inputTokens", "prompt_tokens", "promptTokens", "promptTokenCount",
    "inputTokenCount"]

def readCandidates : Option ℕ :=
  match firstU64 usage ["candidatesTokenCount"], firstU64 usage ["thoughtsTokenCount", "thoughts_token_count"] with
  | some candidates, some thoughts => some (saturatingAddU64 candidates thoughts)
  | some candidates, none => some candidates
  | none, thoughts => thoughts

def readOutput : Option ℕ :=
  (firstU64 usage ["output_tokens", "outputTokens", "completion_tokens", "completionTokens", "outputTokenCount"]).or
    (readCandidates usage)

def readCacheRead : Option ℕ :=
  (firstU64 usage ["cache_read_tokens", "cacheReadTokens"]).or
    ((u64At usage ["prompt_tokens_details", "cached_tokens"]).or
      ((u64At usage ["input_tokens_details", "cached_tokens"]).or
        (firstU64 usage ["cache_read_input_tokens", "cacheReadInputTokens", "cached_tokens", "cachedTokens",
          "prompt_cache_hit_tokens", "cachedContentTokenCount", "cached_content_token_count"])))

def readCacheCreationDetails : Option CacheCreationDetails := do
  let detail ← usage.get "cache_creation"
  let fiveMinutes ← (detail.get "ephemeral_5m_input_tokens").bind asU64
  let oneHour ← (detail.get "ephemeral_1h_input_tokens").bind asU64
  return ⟨fiveMinutes, oneHour⟩

def readCacheCreation : Option ℕ :=
  (firstU64 usage ["cache_write_tokens", "cacheWriteTokens"]).or
    ((u64At usage ["prompt_tokens_details", "cache_write_tokens"]).or
      ((u64At usage ["prompt_tokens_details", "cache_creation_tokens"]).or
        ((u64At usage ["prompt_tokens_details", "cached_creation_tokens"]).or
          ((u64At usage ["input_tokens_details", "cache_write_tokens"]).or
            ((u64At usage ["input_tokens_details", "cache_creation_tokens"]).or
              ((firstU64 usage ["cache_creation_input_tokens", "cacheCreationInputTokens", "cache_creation_tokens",
                "cacheCreationTokens", "cacheWriteInputTokens", "cache_write_input_tokens",
                "prompt_cache_write_tokens"]).or
                ((readCacheCreationDetails usage).bind fun d => checkedAddU64 d.fiveMinutes d.oneHour)))))))

def readTotal : Option ℕ := firstU64 usage ["total_tokens", "totalTokens", "totalTokenCount"]

def inclusiveShapes : List String :=
  ["prompt_tokens", "promptTokens", "promptTokenCount", "inputTokenCount", "input_tokens_details",
    "prompt_tokens_details", "usageMetadata"]

def inferInputTokenSemantics : InputTokenSemantics :=
  if inclusiveShapes.any fun key => (usage.get key).isSome then .inclusive else .exclusive

def resolveSemantics : InputTokenSemantics → InputTokenSemantics
  | .auto => inferInputTokenSemantics usage
  | semantics => semantics

/-! ## Normalising -/

/-- The counts of an answer. -/
structure TokenCounts where
  input : Option ℕ
  output : Option ℕ
  cacheRead : Option ℕ
  cacheCreation : Option ℕ
  total : Option ℕ
deriving DecidableEq, Repr

def readCounts : TokenCounts where
  input := readInput usage
  output := readOutput usage
  cacheRead := readCacheRead usage
  cacheCreation := readCacheCreation usage
  total := readTotal usage

namespace TokenCounts

variable (c : TokenCounts)

def cacheTotal : ℕ := saturatingAddU64 (c.cacheRead.getD 0) (c.cacheCreation.getD 0)

def splitInput : InputTokenSemantics → Option ℕ × Option ℕ
  | .inclusive => (c.input.map fun input => input - c.cacheTotal, c.input)
  | _ => (c.input, c.input.map fun input => saturatingAddU64 input c.cacheTotal)

/-- The total, or `none` where an unchecked sum overflows. -/
def sumTotal (raw : Option ℕ) : Option (Option ℕ) :=
  if c.total.isSome then some c.total
  else if raw.isSome ∨ c.output.isSome then (checkedAddU64 (raw.getD 0) (c.output.getD 0)).map some
  else if c.cacheRead.isSome ∨ c.cacheCreation.isSome then
    (checkedAddU64 (c.cacheRead.getD 0) (c.cacheCreation.getD 0)).map some
  else some none

/-- All sums saturate but the one of the total, which may overflow: `none`. -/
def normalize (semantics : InputTokenSemantics) (details : Option CacheCreationDetails) : Option TokenUsage :=
  (c.sumTotal (c.splitInput semantics).2).map fun total =>
    { rawInputTokens := (c.splitInput semantics).2
      inputTokens := (c.splitInput semantics).1
      outputTokens := c.output
      cacheReadTokens := c.cacheRead
      cacheCreationTokens := c.cacheCreation
      cacheCreationDetails := details
      totalTokens := total }

end TokenCounts

def usageFromJsonWithSemantics (value : Json) (semantics : InputTokenSemantics) : Option TokenUsage :=
  let usage := usageValue value
  (readCounts usage).normalize (resolveSemantics usage semantics) (readCacheCreationDetails usage)

/-! ## Bounds -/

theorem asU64_le {v : Json} {n : ℕ} (h : v.asU64 = some n) : n ≤ u64Max := by
  unfold asU64 at h
  split at h
  · rename_i m
    obtain rfl := some.inj h
    have := m.toNat_lt
    unfold u64Max
    omega
  · cases h

theorem firstU64_le {v : Json} {keys : List String} {n : ℕ} (h : firstU64 v keys = some n) : n ≤ u64Max := by
  obtain ⟨key, _, hkey⟩ := List.exists_of_findSome?_eq_some h
  obtain ⟨found, _, hfound⟩ := bind_eq_some_iff.mp hkey
  exact asU64_le hfound

theorem saturatingAddU64_le (a b : ℕ) : saturatingAddU64 a b ≤ u64Max := min_le_right _ _

/-! ## What is conserved -/

section

/-- The buckets add up to the raw input, and the raw input and the output to the total. -/
structure Conserved (c : TokenCounts) (semantics : InputTokenSemantics) (usage : TokenUsage) : Prop where
  buckets : ∀ found, c.input = some found →
    semantics ≠ .inclusive ∨ c.cacheRead.getD 0 + c.cacheCreation.getD 0 ≤ found →
    ∃ fresh raw, usage.inputTokens = some fresh ∧ usage.rawInputTokens = some raw ∧
      raw = min (fresh + usage.cacheReadTokens.getD 0 + usage.cacheCreationTokens.getD 0) u64Max ∧
      (c.total = none → usage.totalTokens = some (raw + usage.outputTokens.getD 0))

/-- The sum of the total is one of 64 bits. -/
def TokenCounts.Fits (c : TokenCounts) (semantics : InputTokenSemantics) : Prop :=
  c.total = none →
    (∀ found, c.input = some found → (if semantics = .inclusive then found
        else min (found + (c.cacheRead.getD 0 + c.cacheCreation.getD 0)) u64Max) + c.output.getD 0 ≤ u64Max) ∧
    (c.input = none → c.output = none → c.cacheRead.getD 0 + c.cacheCreation.getD 0 ≤ u64Max)

variable {c : TokenCounts} {semantics : InputTokenSemantics} {details : Option CacheCreationDetails}

theorem min_add_min (a b cap : ℕ) : min (a + min b cap) cap = min (a + b) cap := by omega

def TokenCounts.raw (c : TokenCounts) (semantics : InputTokenSemantics) (found : ℕ) : ℕ :=
  if semantics = .inclusive then found
  else min (found + (c.cacheRead.getD 0 + c.cacheCreation.getD 0)) u64Max

theorem splitInput_raw (c : TokenCounts) (semantics : InputTokenSemantics) :
    (c.splitInput semantics).2 = c.input.map (c.raw semantics) := by
  cases semantics with
  | inclusive => exact (congrFun map_id c.input).symm
  | exclusive => exact congrArg (fun f => c.input.map f) (funext fun found => min_add_min found _ u64Max)
  | auto => exact congrArg (fun f => c.input.map f) (funext fun found => min_add_min found _ u64Max)

theorem checkedAddU64_isSome {a b : ℕ} : (checkedAddU64 a b).isSome ↔ a + b ≤ u64Max := by
  unfold checkedAddU64
  split
  · rename_i h
    exact ⟨fun _ => h, fun _ => rfl⟩
  · rename_i h
    exact ⟨fun hsome => (nomatch hsome), fun hle => absurd hle h⟩

/-- The counts are of 64 bits. -/
structure TokenCounts.Bounded (c : TokenCounts) : Prop where
  input : ∀ n, c.input = some n → n ≤ u64Max
  output : ∀ n, c.output = some n → n ≤ u64Max

theorem normalize_isSome (hc : c.Bounded) : (c.normalize semantics details).isSome ↔ c.Fits semantics := by
  unfold TokenCounts.normalize TokenCounts.Fits
  rw [isSome_map, splitInput_raw]
  unfold TokenCounts.sumTotal
  cases htotal : c.total with
  | some total => exact ⟨fun _ hnone => (nomatch hnone), fun _ => rfl⟩
  | none =>
    rw [isSome_none, if_neg Bool.false_ne_true]
    cases hinput : c.input with
    | some found =>
      rw [map_some, isSome_some, if_pos (.inl rfl), isSome_map, checkedAddU64_isSome, getD_some]
      constructor
      · rintro h -
        refine ⟨fun n hn => ?_, fun hnone => (nomatch hnone)⟩
        obtain rfl := some.inj hn
        exact h
      · intro h
        exact (h rfl).1 found rfl
    | none =>
      rw [map_none, isSome_none, getD_none]
      cases houtput : c.output with
      | some output =>
        rw [if_pos (.inr rfl), isSome_map, checkedAddU64_isSome, getD_some, Nat.zero_add]
        exact ⟨fun _ _ => ⟨fun _ hn => (nomatch hn), fun _ hnone => (nomatch hnone)⟩, fun _ => hc.output output houtput⟩
      | none =>
        rw [isSome_none, if_neg (by decide), getD_none]
        have hsum : (if c.cacheRead.isSome = true ∨ c.cacheCreation.isSome = true then
            (checkedAddU64 (c.cacheRead.getD 0) (c.cacheCreation.getD 0)).map some else some none).isSome ↔
            c.cacheRead.getD 0 + c.cacheCreation.getD 0 ≤ u64Max := by
          split
          · rw [isSome_map, checkedAddU64_isSome]
          · rename_i hcache
            push Not at hcache
            refine ⟨fun _ => ?_, fun _ => rfl⟩
            rw [not_isSome_iff_eq_none.mp hcache.1, not_isSome_iff_eq_none.mp hcache.2]
            exact Nat.zero_le _
        rw [hsum]
        exact ⟨fun h _ => ⟨fun _ hn => (nomatch hn), fun _ _ => h⟩, fun h => (h rfl).2 rfl rfl⟩

/-- Fresh, read and written tokens are the raw ones. -/
theorem normalize_conserved (hc : c.Bounded) {usage : TokenUsage} (h : c.normalize semantics details = some usage) :
    Conserved c semantics usage := by
  obtain ⟨total, htotal, rfl⟩ := map_eq_some_iff.mp h
  refine ⟨fun found hfound hcaches => ?_⟩
  have hraw : (c.splitInput semantics).2 = some (c.raw semantics found) := by
    rw [splitInput_raw, hfound, map_some]
  have hsum : c.total = none → total = some (c.raw semantics found + c.output.getD 0) := by
    intro hnone
    unfold TokenCounts.sumTotal at htotal
    rw [hnone, hraw, isSome_none, if_neg Bool.false_ne_true, if_pos (.inl rfl), getD_some] at htotal
    obtain ⟨sum, hadd, rfl⟩ := map_eq_some_iff.mp htotal
    exact congrArg some (checkedAddU64_eq_some.mp hadd).2
  have hbound := hc.input found hfound
  cases semantics with
  | inclusive =>
    have hle : c.cacheRead.getD 0 + c.cacheCreation.getD 0 ≤ found := hcaches.resolve_left fun hne => hne rfl
    have hfresh : (c.splitInput .inclusive).1 = some (found - c.cacheTotal) := by
      rw [TokenCounts.splitInput, hfound, map_some]
    refine ⟨_, _, hfresh, hraw, ?_, hsum⟩
    have hcacheTotal : c.cacheTotal = c.cacheRead.getD 0 + c.cacheCreation.getD 0 := min_eq_left (le_trans hle hbound)
    have hsplit : found - c.cacheTotal + c.cacheRead.getD 0 + c.cacheCreation.getD 0 = found := by
      rw [hcacheTotal]
      omega
    change found = min (found - c.cacheTotal + c.cacheRead.getD 0 + c.cacheCreation.getD 0) u64Max
    rw [hsplit, min_eq_left hbound]
  | exclusive =>
    refine ⟨found, _, hfound, hraw, ?_, hsum⟩
    exact congrArg (fun n => min n u64Max) (Nat.add_assoc _ _ _).symm
  | auto =>
    refine ⟨found, _, hfound, hraw, ?_, hsum⟩
    exact congrArg (fun n => min n u64Max) (Nat.add_assoc _ _ _).symm

theorem readCounts_bounded (usage : Json) : (readCounts usage).Bounded where
  input := fun _ h => firstU64_le h
  output := fun n h => by
    change (firstU64 usage _).or (readCandidates usage) = some n at h
    rcases or_eq_some_iff.mp h with hfirst | ⟨_, hcandidates⟩
    · exact firstU64_le hfirst
    · unfold readCandidates at hcandidates
      split at hcandidates
      · rw [← some.inj hcandidates]
        exact saturatingAddU64_le _ _
      · rename_i hfound _
        exact firstU64_le (hfound.trans hcandidates)
      · exact firstU64_le hcandidates

end

/-! ## Two readings of the same counts -/

def TokenUsage.buckets (usage : TokenUsage) : Option ℕ × Option ℕ × Option ℕ × Option ℕ :=
  (usage.inputTokens, usage.cacheReadTokens, usage.cacheCreationTokens, usage.outputTokens)

def UsageLog.withUsage (log : UsageLog) (usage : TokenUsage) : UsageLog :=
  { log with
    rawInputTokens := usage.rawInputTokens
    inputTokens := usage.inputTokens
    outputTokens := usage.outputTokens
    cacheReadTokens := usage.cacheReadTokens
    cacheCreationTokens := usage.cacheCreationTokens
    cacheCreationDetails := usage.cacheCreationDetails
    totalTokens := usage.totalTokens }

/-- The counts of `c'` with `fresh` as input, and in `c` with the cached tokens in it. -/
structure SameCounts (c c' : TokenCounts) (fresh : ℕ) : Prop where
  inclusive : c.input = some (fresh + (c.cacheRead.getD 0 + c.cacheCreation.getD 0))
  exclusive : c'.input = some fresh
  output : c.output = c'.output
  cacheRead : c.cacheRead = c'.cacheRead
  cacheCreation : c.cacheCreation = c'.cacheCreation

section

variable {c c' : TokenCounts} {fresh : ℕ}

theorem splitInput_same (hsame : SameCounts c c' fresh)
    (hfits : fresh + (c.cacheRead.getD 0 + c.cacheCreation.getD 0) ≤ u64Max) :
    c.splitInput .inclusive = c'.splitInput .exclusive := by
  have hcacheTotal : c.cacheTotal = c.cacheRead.getD 0 + c.cacheCreation.getD 0 := min_eq_left (by omega)
  have hcacheTotal' : c'.cacheTotal = c.cacheTotal := by
    unfold TokenCounts.cacheTotal
    rw [hsame.cacheRead, hsame.cacheCreation]
  have hfresh : fresh + (c.cacheRead.getD 0 + c.cacheCreation.getD 0) - c.cacheTotal = fresh := by
    rw [hcacheTotal]
    omega
  have hraw : saturatingAddU64 fresh c.cacheTotal = fresh + (c.cacheRead.getD 0 + c.cacheCreation.getD 0) := by
    rw [hcacheTotal]
    exact min_eq_left hfits
  rw [TokenCounts.splitInput, TokenCounts.splitInput, hsame.inclusive, hsame.exclusive, hcacheTotal']
  · exact Prod.ext (congrArg some hfresh) (congrArg some hraw.symm)
  · rintro ⟨⟩

variable {details details' : Option CacheCreationDetails} {usage usage' : TokenUsage}

theorem normalize_buckets (hsame : SameCounts c c' fresh)
    (hfits : fresh + (c.cacheRead.getD 0 + c.cacheCreation.getD 0) ≤ u64Max)
    (h : c.normalize .inclusive details = some usage) (h' : c'.normalize .exclusive details' = some usage') :
    usage.buckets = usage'.buckets := by
  obtain ⟨total, _, rfl⟩ := map_eq_some_iff.mp h
  obtain ⟨total', _, rfl⟩ := map_eq_some_iff.mp h'
  unfold TokenUsage.buckets
  rw [splitInput_same hsame hfits, hsame.output, hsame.cacheRead, hsame.cacheCreation]

theorem normalize_total (hsame : SameCounts c c' fresh)
    (hfits : fresh + (c.cacheRead.getD 0 + c.cacheCreation.getD 0) ≤ u64Max) (htotal : c.total = c'.total)
    (h : c.normalize .inclusive details = some usage) (h' : c'.normalize .exclusive details' = some usage') :
    usage.totalTokens = usage'.totalTokens := by
  obtain ⟨total, hsum, rfl⟩ := map_eq_some_iff.mp h
  obtain ⟨total', hsum', rfl⟩ := map_eq_some_iff.mp h'
  have heq : c.sumTotal (c.splitInput .inclusive).2 = c'.sumTotal (c'.splitInput .exclusive).2 := by
    unfold TokenCounts.sumTotal
    rw [splitInput_same hsame hfits, htotal, hsame.output, hsame.cacheRead, hsame.cacheCreation]
  exact some.inj (hsum.symm.trans (heq.trans hsum'))

theorem withUsage_quotaTokens (hbuckets : usage.buckets = usage'.buckets)
    (htotal : usage.totalTokens = usage'.totalTokens) (log : UsageLog) :
    (log.withUsage usage).quotaTokens = (log.withUsage usage').quotaTokens := by
  have hinput : usage.inputTokens = usage'.inputTokens := congrArg (·.1) hbuckets
  have hread : usage.cacheReadTokens = usage'.cacheReadTokens := congrArg (·.2.1) hbuckets
  have hcreation : usage.cacheCreationTokens = usage'.cacheCreationTokens := congrArg (·.2.2.1) hbuckets
  have houtput : usage.outputTokens = usage'.outputTokens := congrArg (·.2.2.2) hbuckets
  unfold UsageLog.quotaTokens UsageLog.processedTokens UsageLog.withUsage
  rw [hinput, hread, hcreation, houtput, htotal]

end

def overflowingUsage : Json :=
  .object [("input_tokens", .number (.posInt 18446744073709551615)), ("output_tokens", .number (.posInt 1))]

theorem usage_overflows : usageFromJsonWithSemantics overflowingUsage .auto = none := by decide

/-- The counting completes exactly if the sum of the total fits into 64 bits, and then conserves the tokens. The
inclusive reading agrees with the exclusive one of the same counts. -/
theorem usage_conserved_iff (value : Json) (semantics : InputTokenSemantics) :
    ((∃ usage, usageFromJsonWithSemantics value semantics = some usage ∧
        Conserved (readCounts (usageValue value)) (resolveSemantics (usageValue value) semantics) usage) ↔
      (readCounts (usageValue value)).Fits (resolveSemantics (usageValue value) semantics)) ∧
    ∀ value' fresh, SameCounts (readCounts (usageValue value)) (readCounts (usageValue value')) fresh →
      fresh + ((readCounts (usageValue value)).cacheRead.getD 0 +
        (readCounts (usageValue value)).cacheCreation.getD 0) ≤ u64Max →
      ∀ usage usage', usageFromJsonWithSemantics value .inclusive = some usage →
        usageFromJsonWithSemantics value' .exclusive = some usage' →
        usage.buckets = usage'.buckets ∧
        ((readCounts (usageValue value)).total = (readCounts (usageValue value')).total →
          ∀ log : UsageLog, (log.withUsage usage).quotaTokens = (log.withUsage usage').quotaTokens) := by
  constructor
  · have hbounded := readCounts_bounded (usageValue value)
    constructor
    · rintro ⟨usage, husage, -⟩
      exact (normalize_isSome hbounded).mp (isSome_of_eq_some husage)
    · intro hfits
      obtain ⟨usage, husage⟩ := isSome_iff_exists.mp ((normalize_isSome hbounded).mpr hfits)
      exact ⟨usage, husage, normalize_conserved hbounded husage⟩
  · intro value' fresh hsame hfits usage usage' h h'
    have hbuckets := normalize_buckets hsame hfits h h'
    exact ⟨hbuckets, fun htotal => withUsage_quotaTokens hbuckets (normalize_total hsame hfits htotal h h')⟩

end CcSwitchServer.Usage
