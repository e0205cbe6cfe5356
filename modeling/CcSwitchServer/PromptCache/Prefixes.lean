import CcSwitchServer.PromptCache.Cache

/-! # What a prompt hash stands for

The bytes hashed up to a block determine the namespace, the context and the blocks up to there.
-/

namespace CcSwitchServer.PromptCache
open Foundations Json List

/-! ## Canonical values -/

theorem sorted_sorted (v : Json) : v.sorted.sorted = v.sorted := by
  unfold sorted
  induction v using induction with
  | null => rfl
  | bool b => rfl
  | number n => rfl
  | string s => rfl
  | array values ih =>
    rw [rebuild_array, rebuild_array, map_map]
    exact congrArg array (map_congr_left ih)
  | object members ih =>
    rw [rebuild_object, rebuild_object, ← sortMembers_map, sortMembers_sortMembers, map_map]
    refine congrArg (fun ms => object (sortMembers ms)) (map_congr_left fun e he => ?_)
    exact congrArg (Prod.mk e.1) (ih e he)

theorem canonical_canonical (v : Json) :
    canonicalWithoutCacheControl (canonicalWithoutCacheControl v) = canonicalWithoutCacheControl v := by
  unfold canonicalWithoutCacheControl
  cases v with
  | object members =>
    have hkept : ∀ ms : List (String × Json), sorted (.object ms) =
        .object (sortMembers (ms.map fun e => (e.1, e.2.sorted))) := by
      intro ms
      unfold sorted
      rw [rebuild_object]
    have hfilter : ∀ ms : List (String × Json), (∀ e ∈ ms, e.1 ≠ "cache_control") →
        (sortMembers (ms.map fun e => (e.1, e.2.sorted))).filter (fun e => !true || e.1 ≠ "cache_control") =
          sortMembers (ms.map fun e => (e.1, e.2.sorted)) := by
      intro ms hms
      rw [filter_eq_self]
      intro e he
      obtain ⟨e', he', rfl⟩ := mem_map.mp (mem_sortMembers.mp he)
      simpa using hms e' he'
    have hms : ∀ e ∈ members.filter fun e => !true || e.1 ≠ "cache_control", e.1 ≠ "cache_control" := by
      intro e he
      simpa using (mem_filter.mp he).2
    have hcanonical : canonicalCacheValue true (.object members) =
        sorted (.object (members.filter fun e => !true || e.1 ≠ "cache_control")) := rfl
    rw [hcanonical, hkept, canonicalCacheValue, hfilter _ hms, ← hkept, sorted_sorted]
  | null => rfl
  | bool b => rfl
  | number n => rfl
  | string s => rfl
  | array values =>
    have hsorted : sorted (.array values) = .array (values.map sorted) := by
      unfold sorted
      rw [rebuild_array]
    have hcanonical : ∀ vs, canonicalCacheValue true (.array vs) = sorted (.array vs) := fun _ => rfl
    rw [hcanonical, hsorted, hcanonical, ← hsorted, sorted_sorted]

/-! ## Keys -/

/-- A block up to its own cache control and the order of members. -/
structure Key where
  section_ : String
  role : Option String
  content : Json

def Key.value (key : Key) : Json :=
  .object [("section", .string key.section_), ("role", (key.role.map string).getD .null), ("content", key.content)]

def contentKeys (section_ : String) (role : Option String) (content : Option Json) : List Key :=
  match content with
  | some (.array items) => items.map fun item => ⟨section_, role, canonicalWithoutCacheControl item⟩
  | some other => [⟨section_, role, canonicalWithoutCacheControl other⟩]
  | none => []

/-- The blocks of a request by section, role and canonical content. -/
def keys (body : Json) : List Key :=
  ((asArray (body.get "tools")).map fun tool => ⟨"tool", none, canonicalWithoutCacheControl tool⟩) ++
    contentKeys "system" none (body.get "system") ++
    (asArray (body.get "messages")).flatMap fun message =>
      contentKeys "message" (some (messageRole message)) (message.get "content")

section
variable (x : Externals)

def Described (block : PromptBlock) (key : Key) : Prop :=
  block.signature = x.jsonText key.value ∧ block.tokens = estimateBlockTokens x key.content

theorem described_promptBlock (section_ : String) (role : Option String) (value : Json) (current : Bool) :
    Described x (promptBlock x section_ role value current) ⟨section_, role, canonicalWithoutCacheControl value⟩ := by
  refine ⟨?_, rfl⟩
  unfold promptBlock blockSignature signatureValue
  dsimp only
  rw [canonical_canonical]
  rfl

theorem described_contentBlocks (section_ : String) (role : Option String) (content : Option Json) (current : Bool) :
    List.Forall₂ (Described x) (contentBlocks x section_ role content current)
      (contentKeys section_ role content) := by
  have hone : ∀ value, List.Forall₂ (Described x) [promptBlock x section_ role value current]
      [⟨section_, role, canonicalWithoutCacheControl value⟩] :=
    fun value => .cons (described_promptBlock x section_ role value current) .nil
  cases content with
  | none => exact .nil
  | some value =>
    cases value with
    | string text => exact .cons ⟨rfl, rfl⟩ .nil
    | array items =>
      unfold contentBlocks contentKeys
      dsimp only
      rw [forall₂_map_left_iff, forall₂_map_right_iff, forall₂_same]
      exact fun item _ => described_promptBlock x section_ role item current
    | null => exact hone .null
    | bool b => exact hone (.bool b)
    | number n => exact hone (.number n)
    | object members => exact hone (.object members)

variable {ks : List Key}

theorem described_last {init : List PromptBlock} {block block' : PromptBlock}
    (h : List.Forall₂ (Described x) (init ++ [block]) ks)
    (hlast : ∀ {key}, Described x block key → Described x block' key) :
    List.Forall₂ (Described x) (init ++ [block']) ks := by
  induction init generalizing ks with
  | nil =>
    cases h with
    | cons hkey hnil => exact .cons (hlast hkey) hnil
  | cons first init ih =>
    cases h with
    | cons hkey hrest => exact .cons hkey (ih hrest)

theorem described_applyMessageControl (control : Option Json) {blocks : List PromptBlock}
    (h : List.Forall₂ (Described x) blocks ks) :
    List.Forall₂ (Described x) (applyMessageControl control blocks) ks := by
  unfold applyMessageControl
  split
  · rename_i control last hlast
    have hblocks : blocks = blocks.dropLast ++ [last] := by
      rw [dropLast_append_getLast? last hlast]
    rw [hblocks] at h
    exact described_last x h id
  · exact h

theorem described_conversation (messages : List Json) :
    List.Forall₂ (Described x) (conversationBlocks x messages) (messages.flatMap fun message =>
      contentKeys "message" (some (messageRole message)) (message.get "content")) := by
  induction messages with
  | nil => exact .nil
  | cons message messages ih =>
    rw [flatMap_cons, conversationBlocks]
    refine rel_append ?_ ih
    unfold messageBlocks
    exact described_applyMessageControl x _ (described_contentBlocks x _ _ _ _)

theorem described_extractBlocks (body : Json) : List.Forall₂ (Described x) (extractBlocks x body) (keys body) := by
  unfold extractBlocks keys
  refine rel_append (rel_append ?_ (described_contentBlocks x _ _ _ _)) (described_conversation x _)
  rw [forall₂_map_left_iff, forall₂_map_right_iff, forall₂_same]
  exact fun tool _ => described_promptBlock x "tool" none tool false

theorem length_extractBlocks (body : Json) : (extractBlocks x body).length = (keys body).length :=
  (described_extractBlocks x body).length_eq

/-! ## Running estimates and hashes -/

def prefixTokens (ks : List Key) : ℕ :=
  ks.foldl (fun tokens key => min (tokens + estimateBlockTokens x key.content) u32Max) 0

def prefixInput (namespace_ : Str) (body : Json) (ks : List Key) : List UInt8 :=
  header x namespace_ body ++ ks.flatMap fun key => hashFrame (x.jsonText key.value)

theorem cumulativeFrom_get {blocks : List PromptBlock}
    (h : List.Forall₂ (Described x) blocks ks) (fed : List UInt8) (tokens : ℕ) {i : ℕ} (hi : i < blocks.length) :
    (cumulativeFrom x fed tokens blocks).getD i (0, 0) =
      ((ks.take (i + 1)).foldl (fun tokens key => min (tokens + estimateBlockTokens x key.content) u32Max) tokens,
        shortHash x (fed ++ (ks.take (i + 1)).flatMap fun key => hashFrame (x.jsonText key.value))) := by
  induction h generalizing fed tokens i with
  | nil => exact absurd hi (Nat.not_lt_zero i)
  | @cons block key blocks ks hkey _ ih =>
    rw [cumulativeFrom, hkey.1, hkey.2]
    cases i with
    | zero =>
      rw [getD_cons_zero, take_succ_cons, take_zero, foldl_cons, foldl_nil, flatMap_cons, flatMap_nil, append_nil]
    | succ i =>
      rw [getD_cons_succ, ih _ _ (Nat.lt_of_succ_lt_succ hi), take_succ_cons, foldl_cons, flatMap_cons, append_assoc]

theorem cumulativePrompt_get (namespace_ : Str) (body : Json) {i : ℕ} (hi : i < (keys body).length) :
    (cumulativePrompt x (extractBlocks x body) namespace_ body).getD i (0, 0) =
      (prefixTokens x ((keys body).take (i + 1)),
        shortHash x (prefixInput x namespace_ body ((keys body).take (i + 1)))) := by
  rw [← length_extractBlocks x] at hi
  exact cumulativeFrom_get x (described_extractBlocks x body) _ 0 hi

theorem foldl_tokens_le (ks : List Key) (tokens : ℕ) (h : tokens ≤ u32Max) :
    tokens ≤ ks.foldl (fun tokens key => min (tokens + estimateBlockTokens x key.content) u32Max) tokens := by
  induction ks generalizing tokens with
  | nil => exact le_rfl
  | cons key ks ih =>
    rw [foldl_cons]
    refine le_trans ?_ (ih _ (min_le_right _ _))
    omega

theorem foldl_tokens_max (ks : List Key) (tokens : ℕ) (h : tokens ≤ u32Max) :
    ks.foldl (fun tokens key => min (tokens + estimateBlockTokens x key.content) u32Max) tokens ≤ u32Max := by
  induction ks generalizing tokens with
  | nil => exact h
  | cons key ks ih =>
    rw [foldl_cons]
    exact ih _ (min_le_right _ _)

theorem prefixTokens_take_le (ks : List Key) (n : ℕ) : prefixTokens x (ks.take n) ≤ prefixTokens x ks := by
  have hsplit := congrArg (prefixTokens x) (take_append_drop n ks)
  unfold prefixTokens at hsplit ⊢
  rw [foldl_append] at hsplit
  rw [← hsplit]
  exact foldl_tokens_le x _ _ (foldl_tokens_max x _ 0 (Nat.zero_le _))

theorem total_eq (namespace_ : Str) (body : Json) : (prepare x body namespace_).total = prefixTokens x (keys body) := by
  have hfold : ∀ {blocks : List PromptBlock} {ks : List Key}, List.Forall₂ (Described x) blocks ks → ∀ tokens,
      blocks.foldl (fun total block => min (total + block.tokens) u32Max) tokens =
        ks.foldl (fun tokens key => min (tokens + estimateBlockTokens x key.content) u32Max) tokens := by
    intro blocks ks h
    induction h with
    | nil => exact fun _ => rfl
    | cons hkey _ ih =>
      intro tokens
      rw [foldl_cons, foldl_cons, hkey.2]
      exact ih _
  exact hfold (described_extractBlocks x body) 0

end

/-! ## Frames -/

theorem utf8_inj {s t : String} (h : Text.utf8 s = Text.utf8 t) : s = t := by
  have hs := Text.fromUtf8_utf8 s
  rw [h, Text.fromUtf8_utf8] at hs
  exact (Option.some.inj hs).symm

theorem hashFrame_append_inj {a b : Str} {s t : List UInt8} (h : hashFrame a ++ s = hashFrame b ++ t) :
    a.text = b.text ∧ s = t := by
  unfold hashFrame at h
  rw [append_assoc, append_assoc] at h
  obtain ⟨hlength, hrest⟩ := append_inj h (by rw [length_beBytes, length_beBytes])
  have hbound : ∀ c : Str, (Text.utf8 c.text).length < 256 ^ 8 := by
    intro c
    have := c.bounded
    unfold isizeMax at this
    omega
  have hsame := congrArg beNat hlength
  rw [beNat_beBytes (hbound a), beNat_beBytes (hbound b)] at hsame
  obtain ⟨htext, htail⟩ := append_inj hrest hsame
  exact ⟨utf8_inj htext, htail⟩

theorem flatMap_hashFrame_inj {as bs : List Str} (h : as.flatMap hashFrame = bs.flatMap hashFrame) :
    as.map Str.text = bs.map Str.text := by
  have hne : ∀ (a : Str) (rest : List UInt8), hashFrame a ++ rest ≠ [] := by
    intro a rest hnil
    have := congrArg length hnil
    unfold hashFrame at this
    rw [length_append, length_append, length_beBytes, length_nil] at this
    omega
  induction as generalizing bs with
  | nil =>
    cases bs with
    | nil => rfl
    | cons b bs => exact absurd h.symm (hne b _)
  | cons a as ih =>
    cases bs with
    | nil => exact absurd h (hne a _)
    | cons b bs =>
      rw [flatMap_cons, flatMap_cons] at h
      obtain ⟨htext, hrest⟩ := hashFrame_append_inj h
      rw [map_cons, map_cons, htext, ih hrest]

theorem prefixInput_inj {x : Externals} {n n' : Str} {body body' : Json} {ks ks' : List Key}
    (h : prefixInput x n body ks = prefixInput x n' body' ks') :
    n.text = n'.text ∧ (globalCacheContext x body).text = (globalCacheContext x body').text ∧
      (ks.map fun key => (x.jsonText key.value).text) = ks'.map fun key => (x.jsonText key.value).text := by
  unfold prefixInput header at h
  rw [append_assoc, append_assoc, append_assoc, append_assoc] at h
  obtain ⟨-, hnamespace⟩ := hashFrame_append_inj h
  obtain ⟨htext, hcontext⟩ := hashFrame_append_inj hnamespace
  obtain ⟨hcontextText, hkeys⟩ := hashFrame_append_inj hcontext
  have hmap : ∀ ks : List Key, (ks.flatMap fun key => hashFrame (x.jsonText key.value)) =
      (ks.map fun key => x.jsonText key.value).flatMap hashFrame := fun ks => (flatMap_map _ _ ks).symm
  rw [hmap, hmap] at hkeys
  have htexts := flatMap_hashFrame_inj hkeys
  rw [map_map, map_map] at htexts
  exact ⟨htext, hcontextText, htexts⟩

end CcSwitchServer.PromptCache
