import CcSwitchServer.Foundations.OrderedMap
import CcSwitchServer.PromptCache.Blocks

/-! # Prompt-cache accounting (`proxy/kiro_prompt_cache.rs`, `resident.rs`)

The state behind the lock, and the call that reads and publishes it.
-/

namespace CcSwitchServer.PromptCache
open Foundations

def cacheCapacity : ℕ := 4096
def maxPendingMutations : ℕ := 8192

structure CacheEntry where
  tokens : ℕ
  ttlSecs : ℤ
  expiresAt : ℤ
  lastHitAt : ℤ
deriving DecidableEq, Repr

structure PendingMutation where
  generation : ℕ
  entry : Option CacheEntry
deriving DecidableEq

/-- Entries own their reservations; slots of mutations are counted, those of a batch that the writer holds
included. -/
structure CacheState where
  entries : OrderedMap ℕ CacheEntry := .empty
  pending : OrderedMap ℕ PendingMutation := .empty
  generation : ℕ := 0
  /-- The hashes whose entries own a reservation. -/
  resident : OrderedMap ℕ Unit := .empty
  slotsUsed : ℕ := 0
  persistEnabled : Bool := false

/-- What the memory budget answers, for the scratch space and for each hash. -/
structure Grants where
  scratch : Bool
  entry : ℕ → Bool
  pending : ℕ → Bool

def saturatingTime (now ttl : ℤ) : ℤ := min (now + ttl) i64Max

/-! ## Usage -/

structure PromptCacheUsage where
  cacheReadEstimate : ℕ := 0
  cacheCoveredEstimate : ℕ := 0
  promptTotalEstimate : ℕ := 0
  decision : CacheDecision := .noCacheControl
deriving DecidableEq

def roundedRatio (value numerator denominator : ℕ) : ℕ :=
  if denominator = 0 then 0
  else min ((value * numerator + denominator / 2) / denominator) u64Max

/-- Input, cache creation and cache read. -/
def PromptCacheUsage.splitAgainstTotal (usage : PromptCacheUsage) (total : ℤ) : ℕ × ℕ × ℕ :=
  let total := total.toNat
  let prompt := usage.promptTotalEstimate
  let covered := min usage.cacheCoveredEstimate prompt
  if total = 0 ∨ prompt = 0 ∨ covered = 0 then (min total i32Max, 0, 0)
  else
    let cacheTotal := min (roundedRatio total covered prompt) total
    let read := min usage.cacheReadEstimate covered
    let cacheRead := min (roundedRatio cacheTotal read covered) cacheTotal
    (min (total - cacheTotal) i32Max, min (cacheTotal - cacheRead) i32Max, min cacheRead i32Max)

/-! ## Planned changes -/

/-- What a call is going to write; `none` takes an entry away. -/
abbrev Touched := OrderedMap ℕ (Option CacheEntry)

variable (entries : OrderedMap ℕ CacheEntry)

def expiredHashes (now : ℤ) : List ℕ := (entries.entries.filter fun e => e.2.expiresAt ≤ now).map Prod.fst

/-- A hit puts the expiry off. -/
def renewed (entry : CacheEntry) (now : ℤ) : CacheEntry :=
  let ttl := max 60 (min entry.ttlSecs maxTtlSecs)
  { entry with ttlSecs := ttl, lastHitAt := now, expiresAt := saturatingTime now ttl }

/-- The first hash of a window that is in memory and alive. -/
def windowHit (entries : OrderedMap ℕ CacheEntry) (now : ℤ) : List ℕ → Option (ℕ × CacheEntry)
  | [] => none
  | hash :: window =>
    match entries.get? hash with
    | some entry => if now < entry.expiresAt then some (hash, entry) else windowHit entries now window
    | none => windowHit entries now window

/-- The blocks that a breakpoint looks back on, the last one first. -/
def lookback (blocks : List PromptBlock) (breakpoint : Breakpoint) : List ℕ :=
  let start := lookbackStartIndex blocks breakpoint.blockIndex
  (List.range' start (breakpoint.blockIndex + 1 - start)).reverse

/-- A request against the cache: the hashes of each window, and the entry of each breakpoint. -/
structure Prompt where
  windows : List (List ℕ)
  writes : List (ℕ × ℕ × ℤ)
  covered : ℕ
deriving DecidableEq

def prompt (blocks : List PromptBlock) (breakpoints : List Breakpoint) (cumulative : List (ℕ × ℕ)) : Prompt :=
  let at_ (index : ℕ) : ℕ × ℕ := cumulative.getD index (0, 0)
  { windows := breakpoints.map fun breakpoint => (lookback blocks breakpoint).map fun index => (at_ index).2
    writes := breakpoints.map fun breakpoint =>
      ((at_ breakpoint.blockIndex).2, (at_ breakpoint.blockIndex).1, breakpoint.ttlSecs)
    covered := (breakpoints.getLast?.map fun breakpoint => (at_ breakpoint.blockIndex).1).getD 0 }

def hits (now : ℤ) (request : Prompt) : List (ℕ × CacheEntry) := request.windows.filterMap (windowHit entries now)

def older (a b : ℕ × ℤ) : Prop := a.2 < b.2 ∨ a.2 = b.2 ∧ a.1 ≤ b.1

instance : DecidableRel older := fun a b => inferInstanceAs (Decidable (a.2 < b.2 ∨ a.2 = b.2 ∧ a.1 ≤ b.1))

def remaining (touched : Touched) : List (ℕ × ℤ) :=
  (entries.entries.filter fun e => (touched.get? e.1).isNone).map (fun e => (e.1, e.2.lastHitAt)) ++
    touched.entries.filterMap fun e => e.2.map fun entry => (e.1, entry.lastHitAt)

/-- The entries used longest ago are dropped. -/
def enforceCapacity (touched : Touched) : Touched :=
  let added := (touched.entries.filter fun e => e.2.isSome && (entries.get? e.1).isNone).length
  let deleted := (touched.entries.filter fun e => e.2.isNone && (entries.get? e.1).isSome).length
  let nextCount := entries.size + added - deleted
  if nextCount ≤ cacheCapacity then touched
  else
    (((remaining entries touched).insertionSort older).take (nextCount - cacheCapacity)).foldl
      (fun touched victim => touched.insert victim.1 none) touched

/-- Expired entries go, entries that were hit are renewed, and every breakpoint writes its own. -/
def plan (now : ℤ) (request : Prompt) : Touched :=
  let expired := (expiredHashes entries now).foldl (fun touched hash => touched.insert hash none) .empty
  let renewals := (hits entries now request).foldl
    (fun touched hit => touched.insert hit.1 (some (renewed hit.2 now))) expired
  let written := request.writes.foldl
    (fun touched write => touched.insert write.1
      (some ⟨write.2.1, write.2.2, saturatingTime now write.2.2, now⟩)) renewals
  enforceCapacity entries written

def deepestRead (found : List (ℕ × CacheEntry)) : ℕ := found.foldl (fun deepest hit => max deepest hit.2.tokens) 0

/-! ## Publication -/

namespace CacheState

/-- The slots after every new mutation has got one, unless memory or slots run out. -/
def reserve (s : CacheState) (grants : Grants) : List (ℕ × Option CacheEntry) → ℕ → Option ℕ
  | [], used => some used
  | (hash, entry) :: rest, used =>
    if entry.isSome ∧ (s.entries.get? hash).isNone ∧ !grants.entry hash then none
    else if s.persistEnabled ∧ (s.pending.get? hash).isNone then
      if grants.pending hash ∧ used < maxPendingMutations then reserve s grants rest (used + 1) else none
    else reserve s grants rest used

def publishOne (generation : ℕ) (s : CacheState) (change : ℕ × Option CacheEntry) : CacheState :=
  let s :=
    match change.2 with
    | some entry =>
      { s with entries := s.entries.insert change.1 entry, resident := s.resident.insert change.1 () }
    | none => { s with entries := s.entries.erase change.1, resident := s.resident.erase change.1 }
  if s.persistEnabled then { s with pending := s.pending.insert change.1 ⟨generation, change.2⟩ } else s

/-- A call that changes nothing takes no generation. -/
def publish (s : CacheState) (touched : Touched) (slotsUsed : ℕ) : CacheState :=
  if touched.entries = [] then s
  else
    let generation := saturatingAdd s.generation 1
    touched.entries.foldl (publishOne generation) { s with generation := generation, slotsUsed := slotsUsed }

/-- The call behind the lock: what it has read, or nothing when memory is refused. -/
def lockedUsage (s : CacheState) (now : ℤ) (grants : Grants) (request : Prompt) : Option ℕ × CacheState :=
  if grants.scratch then
    let touched := plan s.entries now request
    match s.reserve grants touched.entries s.slotsUsed with
    | none => (none, s)
    | some slotsUsed => (some (deepestRead (hits s.entries now request)), s.publish touched slotsUsed)
  else (none, s)

end CacheState

/-- What `compute_usage` prepares before it takes the lock. -/
structure Prepared where
  blocks : List PromptBlock
  total : ℕ
  breakpoints : List Breakpoint
  decision : CacheDecision
  cumulative : List (ℕ × ℕ)

def Prepared.skipped (p : Prepared) : Bool := p.breakpoints.isEmpty || !p.decision.simulatesCache

section
variable (x : Externals)

def prepare (body : Json) (namespace_ : Str) : Prepared :=
  let blocks := extractBlocks x body
  let resolved := resolveBreakpoints blocks (body.get "cache_control")
  { blocks := blocks
    total := blocks.foldl (fun total block => min (total + block.tokens) u32Max) 0
    breakpoints := resolved.1
    decision := resolved.2
    cumulative := cumulativePrompt x blocks namespace_ body }

def Prepared.request (p : Prepared) : Prompt := prompt p.blocks p.breakpoints p.cumulative

def computeUsage (s : CacheState) (body : Json) (namespace_ : Str) (now : ℤ) (grants : Grants) :
    PromptCacheUsage × CacheState :=
  let p := prepare x body namespace_
  if p.skipped then ({ promptTotalEstimate := p.total, decision := p.decision }, s)
  else
    match s.lockedUsage now grants p.request with
    | (none, s) => ({ promptTotalEstimate := p.total, decision := .localCapacity }, s)
    | (some deepest, s) =>
      ({ cacheReadEstimate := min deepest p.request.covered
         cacheCoveredEstimate := p.request.covered
         promptTotalEstimate := p.total
         decision := p.decision }, s)

end

/-! ## Libraries on small inputs -/

section

def quoted (text : String) : String := "\"" ++ text ++ "\""

mutual
/-- The text of a value without fractions, negative numbers and characters that are escaped. -/
def compactText : Json → String
  | .null => "null"
  | .bool b => if b then "true" else "false"
  | .number (.posInt n) => toString n.toNat
  | .number _ => "0"
  | .string text => quoted text
  | .array items => "[" ++ compactItems items ++ "]"
  | .object members => "\x7b" ++ compactMembers members ++ "\x7d"

def compactItems : List Json → String
  | [] => ""
  | [item] => compactText item
  | item :: items => compactText item ++ "," ++ compactItems items

def compactMembers : List (String × Json) → String
  | [] => ""
  | [(key, value)] => quoted key ++ ":" ++ compactText value
  | (key, value) :: members => quoted key ++ ":" ++ compactText value ++ "," ++ compactMembers members
end

def Str.ofString (text : String) : Str :=
  if h : (Text.utf8 text).length ≤ isizeMax then ⟨text, h⟩ else ⟨"", by decide⟩

/-- JSON text as above, the given digests, and no images. -/
def someExternals (digests : List (List UInt8 × List UInt8)) : Externals where
  sha256 bytes := ((digests.find? fun digest => digest.1 = bytes).map Prod.snd).getD (List.replicate 32 0)
  jsonText value := .ofString (compactText value)
  blobSize _ := none

def stablePrompt : Json :=
  .object [("model", .string "claude-sonnet-4"),
    ("system", .array [.object [("type", .string "text"), ("text", .string "stable"),
      ("cache_control", .object [("type", .string "ephemeral")])]])]

def alice : Str := .ofString "alice"
def bob : Str := .ofString "bob"

def stableInput (namespace_ : Str) : List UInt8 :=
  header (someExternals []) namespace_ stablePrompt ++
    (extractBlocks (someExternals []) stablePrompt).flatMap fun block => hashFrame block.signature

def aliceDigest : List UInt8 :=
  [177, 90, 2, 235, 178, 242, 221, 51, 1, 146, 123, 83, 73, 47, 72, 105, 65, 15, 185, 183, 63, 178, 62, 181, 191,
    96, 110, 37, 19, 38, 5, 22]

def bobDigest : List UInt8 :=
  [121, 215, 140, 152, 245, 236, 136, 40, 151, 167, 236, 39, 49, 204, 4, 150, 37, 93, 169, 182, 33, 200, 118, 31,
    160, 82, 147, 107, 32, 220, 249, 241]

def stableExternals : Externals := someExternals [(stableInput alice, aliceDigest), (stableInput bob, bobDigest)]

def aliceHash : ℕ := beNat (aliceDigest.take 8)

def granted : Grants := ⟨true, fun _ => true, fun _ => true⟩

end

end CcSwitchServer.PromptCache
