import CcSwitchServer.Foundations.BigEndian
import CcSwitchServer.Foundations.Checked
import CcSwitchServer.Foundations.Json
import CcSwitchServer.Foundations.Text

/-! # Prompt blocks (`proxy/kiro_prompt_cache.rs`)

JSON text, SHA-256 and the size of an image come from libraries and are a parameter.
-/

namespace CcSwitchServer.PromptCache
open Foundations Json

def u32Max : ℕ := 2 ^ 32 - 1
def i32Max : ℕ := 2 ^ 31 - 1
def isizeMax : ℕ := 2 ^ 63 - 1

/-- A text that fits in memory. -/
structure Str where
  text : String
  bounded : (Text.utf8 text).length ≤ isizeMax

structure Externals where
  sha256 : List UInt8 → List UInt8
  jsonText : Json → Str
  /-- Width and height of a Base64 image. -/
  blobSize : String → Option (ℕ × ℕ)

/-! ## Token estimates -/

/-- Four characters a token. -/
def estimateTextTokens (text : String) : ℕ := min (saturatingAdd text.length 3 / 4) u32Max

/-- `estimate_tokens` of the Kiro client: a quarter of the characters, rounded up, as an `i32`. -/
def estimateTokens (text : String) : ℕ := min ((text.length + 3) / 4) i32Max

mutual
def countValueTokens : Json → ℕ
  | .null => 0
  | .bool _ => 1
  | .number _ => 1
  | .string text => estimateTokens text
  | .array items => countItems items 0
  | .object members => countMembers members 0

def countItems : List Json → ℕ → ℕ
  | [], tokens => tokens
  | item :: items, tokens => countItems items (saturatingAdd (saturatingAdd tokens 2) (countValueTokens item))

def countMembers : List (String × Json) → ℕ → ℕ
  | [], tokens => tokens
  | (key, child) :: members, tokens =>
    if key = "cache_control" then countMembers members tokens
    else countMembers members (saturatingAdd (saturatingAdd tokens (estimateTokens key)) (countValueTokens child))
end

section
variable (x : Externals)

/-- An image that cannot be read is an error. -/
def countImageTokens (image : Json) : Option ℕ := do
  let data ← ((image.get "source").bind fun source => source.get "data").bind asStr
  let dimensions ← x.blobSize data
  some (max (saturatingAdd (min (dimensions.1 * dimensions.2) u64Max) 749 / 750) 85)

mutual
/-- An image whose size is not known has no count. -/
def countContentBlockTokens : Json → Option ℕ
  | .object members =>
    match ((object members).get "type").bind asStr with
    | some "image" => countImageTokens x (.object members)
    | some "tool_result" => countToolResult members 0
    | _ => some (countValueTokens (.object members))
  | value => some (countValueTokens value)

def countToolResult : List (String × Json) → ℕ → Option ℕ
  | [], tokens => some tokens
  | (key, child) :: members, tokens =>
    if key = "cache_control" then countToolResult members tokens
    else
      let childTokens :=
        if key = "content" then
          match child with
          | .array items => countContentItems items 0
          | child => countContentBlockTokens child
        else some (countValueTokens child)
      childTokens.bind fun childTokens =>
        countToolResult members (saturatingAdd (saturatingAdd tokens (estimateTokens key)) childTokens)

def countContentItems : List Json → ℕ → Option ℕ
  | [], tokens => some tokens
  | item :: items, tokens =>
    (countContentBlockTokens item).bind fun itemTokens =>
      countContentItems items (saturatingAdd (saturatingAdd tokens 2) itemTokens)
end

def estimateBlockTokens (value : Json) : ℕ :=
  match value.asStr with
  | some text => estimateTextTokens text
  | none => min ((countContentBlockTokens x value).getD (estimateTextTokens (x.jsonText value).text)) u32Max

/-! ## Signatures -/

/-- Members in the order of their keys, without the cache control. -/
def canonicalCacheValue (stripBlockControl : Bool) : Json → Json
  | .object members =>
    sorted (.object (members.filter fun e => !stripBlockControl || e.1 ≠ "cache_control"))
  | value => value.sorted

def canonicalWithoutCacheControl (value : Json) : Json := canonicalCacheValue true value

variable (section_ : String)

def signatureValue (role : Option String) (value : Json) : Json :=
  .object [("section", .string section_), ("role", (role.map string).getD .null),
    ("content", canonicalWithoutCacheControl value)]

def blockSignature (role : Option String) (value : Json) : Str := x.jsonText (signatureValue section_ role value)

/-! ## Blocks -/

inductive LookbackGroup
  | toolUse
  | toolResult
deriving DecidableEq, Repr

structure PromptBlock where
  signature : Str
  tokens : ℕ
  cacheControl : Option Json
  cacheControlPresent : Bool
  cacheable : Bool
  lookbackGroup : Option LookbackGroup
  currentUserInput : Bool

def blank (text : String) : Bool := Text.trim text = ""

def blockIsCacheable : Json → Bool
  | .string text => !blank text
  | .object members =>
    match ((object members).get "type").bind asStr with
    | some "thinking" => false
    | some "redacted_thinking" => false
    | some "text" => (((object members).get "text").bind asStr).any fun text => !blank text
    | some _ => true
    | none => !members.isEmpty
  | .null => false
  | _ => true

def promptBlock (role : Option String) (value : Json) (currentUserInput : Bool) : PromptBlock :=
  let canonical := canonicalWithoutCacheControl value
  { signature := blockSignature x section_ role canonical
    tokens := estimateBlockTokens x canonical
    cacheControl := value.get "cache_control"
    cacheControlPresent := (value.get "cache_control").isSome
    cacheable := blockIsCacheable canonical
    lookbackGroup :=
      match (canonical.get "type").bind asStr with
      | some "tool_use" => some .toolUse
      | some "tool_result" => some .toolResult
      | _ => none
    currentUserInput := currentUserInput }

def textBlock (role : Option String) (text : String) (currentUserInput : Bool) : PromptBlock where
  signature := blockSignature x section_ role (.string text)
  tokens := estimateTextTokens text
  cacheControl := none
  cacheControlPresent := false
  cacheable := !blank text
  lookbackGroup := none
  currentUserInput := currentUserInput

def contentBlocks (role : Option String) (content : Option Json) (currentUserInput : Bool) : List PromptBlock :=
  match content with
  | some (.string text) => [textBlock x section_ role text currentUserInput]
  | some (.array items) => items.map fun item => promptBlock x section_ role item currentUserInput
  | some other => [promptBlock x section_ role other currentUserInput]
  | none => []

def asArray : Option Json → List Json
  | some (.array items) => items
  | _ => []

def messageContainsToolResult (message : Json) : Bool :=
  (asArray (message.get "content")).any fun item => (item.get "type").bind asStr = some "tool_result"

/-- A control on the message goes to its last block; two that differ are invalid. -/
def applyMessageControl (control : Option Json) (blocks : List PromptBlock) : List PromptBlock :=
  match control, blocks.getLast? with
  | some control, some last =>
    blocks.dropLast ++
      [{ last with
          cacheControl :=
            if last.cacheControlPresent ∧ !(last.cacheControl.any fun own => own.equal control) then none
            else some control
          cacheControlPresent := true }]
  | _, _ => blocks

def messageRole (message : Json) : String := ((message.get "role").bind asStr).getD ""

def messageBlocks (message : Json) (isLast : Bool) : List PromptBlock :=
  let role := messageRole message
  let isLastUser := isLast && role = "user" && !messageContainsToolResult message
  applyMessageControl (message.get "cache_control")
    (contentBlocks x "message" (some role) (message.get "content") isLastUser)

def conversationBlocks : List Json → List PromptBlock
  | [] => []
  | message :: messages => messageBlocks x message messages.isEmpty ++ conversationBlocks messages

/-- Tools, system and messages, in this order. -/
def extractBlocks (body : Json) : List PromptBlock :=
  ((asArray (body.get "tools")).map fun tool => promptBlock x "tool" none tool false) ++
    contentBlocks x "system" none (body.get "system") false ++
    conversationBlocks x (asArray (body.get "messages"))

end

/-! ## Breakpoints -/

inductive CacheDecision
  | explicit
  | auto
  | explicitAndAuto
  | noCacheControl
  | emptyPrompt
  | invalidCacheControl
  | invalidTtl
  | uncacheableBreakpoint
  | tooManyBreakpoints
  | mixedTtlOrder
  | localCapacity
deriving DecidableEq, Repr

def CacheDecision.simulatesCache : CacheDecision → Bool
  | .explicit | .auto | .explicitAndAuto => true
  | _ => false

structure Breakpoint where
  blockIndex : ℕ
  ttlSecs : ℤ
deriving DecidableEq, Repr

def defaultTtlSecs : ℤ := 5 * 60
def maxTtlSecs : ℤ := 60 * 60
def maxBreakpoints : ℕ := 4
def lookbackPositions : ℕ := 20

/-- Five minutes or an hour. -/
def validatedTtl (control : Json) : Except CacheDecision ℤ :=
  if control.isObject then
    if (control.get "type").bind asStr = some "ephemeral" then
      match control.get "ttl" with
      | none => .ok defaultTtlSecs
      | some (.string ttl) =>
        if Text.eqIgnoreAsciiCase ttl "5m" then .ok defaultTtlSecs
        else if Text.eqIgnoreAsciiCase ttl "1h" then .ok maxTtlSecs
        else .error .invalidTtl
      | some _ => .error .invalidTtl
    else .error .invalidCacheControl
  else .error .invalidCacheControl

/-- The blocks with a valid cache control. -/
def explicitBreakpoints : ℕ → List PromptBlock → Except CacheDecision (List Breakpoint)
  | _, [] => .ok []
  | index, block :: blocks =>
    if block.cacheControlPresent then
      match block.cacheControl with
      | none => .error .invalidCacheControl
      | some control =>
        if block.cacheable then do
          let ttl ← validatedTtl control
          let rest ← explicitBreakpoints (index + 1) blocks
          return ⟨index, ttl⟩ :: rest
        else .error .uncacheableBreakpoint
    else explicitBreakpoints (index + 1) blocks

def rposition (p : PromptBlock → Bool) (blocks : List PromptBlock) : Option ℕ :=
  (blocks.reverse.findIdx? p).map fun i => blocks.length - 1 - i

variable (blocks : List PromptBlock)

/-- The block that a control of the whole request is put on. -/
def autoTarget : Option ℕ :=
  (rposition (fun block => block.cacheable && !block.currentUserInput) blocks).or
    (rposition (fun block => block.cacheable) blocks)

/-- A control of the whole request ends at its last cacheable block. -/
def withAuto (topControl : Option Json) (breakpoints : List Breakpoint) : Except CacheDecision (List Breakpoint) :=
  match topControl with
  | none => .ok breakpoints
  | some control => do
    let ttl ← validatedTtl control
    match autoTarget blocks with
    | none => .error .uncacheableBreakpoint
    | some target =>
      match breakpoints.find? fun breakpoint => breakpoint.blockIndex = target with
      | some existing => if existing.ttlSecs = ttl then .ok breakpoints else .error .invalidCacheControl
      | none => .ok (breakpoints ++ [⟨target, ttl⟩])

/-- No longer time to live after the short one. -/
def ttlOrdered : List Breakpoint → Bool
  | [] => true
  | breakpoint :: rest =>
    if breakpoint.ttlSecs = defaultTtlSecs then rest.all fun later => later.ttlSecs = defaultTtlSecs
    else ttlOrdered rest

def requestedBreakpoints (topControl : Option Json) : Except CacheDecision (List Breakpoint × CacheDecision) :=
  if blocks = [] then .error .emptyPrompt
  else do
    let found ← explicitBreakpoints 0 blocks
    let breakpoints ← withAuto blocks topControl found
    let explicit := blocks.any fun block => block.cacheControlPresent
    let sorted := breakpoints.insertionSort fun a b => a.blockIndex ≤ b.blockIndex
    if !explicit && topControl.isNone then .error .noCacheControl
    else if maxBreakpoints < sorted.length then .error .tooManyBreakpoints
    else if !ttlOrdered sorted then .error .mixedTtlOrder
    else
      return (sorted,
        if explicit && topControl.isSome then .explicitAndAuto else if explicit then .explicit else .auto)

/-- An error has no breakpoints. -/
def resolveBreakpoints (topControl : Option Json) : List Breakpoint × CacheDecision :=
  match requestedBreakpoints blocks topControl with
  | .ok resolved => resolved
  | .error decision => ([], decision)

/-! ## The look-back window -/

def sameGroup (i j : ℕ) : Bool :=
  let group (k : ℕ) := blocks[k]?.bind fun block => block.lookbackGroup
  (group i).isSome && group i = group j

/-- A group of tool blocks counts as one position. -/
def lookbackFrom (blocks : List PromptBlock) : ℕ → ℕ → ℕ
  | 0, _ => 0
  | previous + 1, positions =>
    if sameGroup blocks (previous + 1) previous then lookbackFrom blocks previous positions
    else if positions = lookbackPositions then previous + 1
    else lookbackFrom blocks previous (positions + 1)

def lookbackStartIndex (breakpointIndex : ℕ) : ℕ := lookbackFrom blocks breakpointIndex 1

/-! ## Running hashes -/

section
variable (x : Externals)

/-- Every part is framed by its length. -/
def hashFrame (bytes : Str) : List UInt8 := beBytes 8 (Text.utf8 bytes.text).length ++ Text.utf8 bytes.text

def version : Str := ⟨"cc-switch-kiro-cache-v4", by decide⟩

def contextValue (body : Json) : Json :=
  sorted (.object [("model", (body.get "model").getD .null),
    ("tool_choice", (body.get "tool_choice").getD .null), ("thinking", (body.get "thinking").getD .null),
    ("output_config", (body.get "output_config").getD .null)])

def globalCacheContext (body : Json) : Str := x.jsonText (contextValue body)

def shortHash (bytes : List UInt8) : ℕ := beNat ((x.sha256 bytes).take 8)

/-- `fed` is what the hasher has been given. -/
def cumulativeFrom : List UInt8 → ℕ → List PromptBlock → List (ℕ × ℕ)
  | _, _, [] => []
  | fed, tokens, block :: blocks =>
    (min (tokens + block.tokens) u32Max, shortHash x (fed ++ hashFrame block.signature)) ::
      cumulativeFrom (fed ++ hashFrame block.signature) (min (tokens + block.tokens) u32Max) blocks

def header (namespace_ : Str) (body : Json) : List UInt8 :=
  hashFrame version ++ hashFrame namespace_ ++ hashFrame (globalCacheContext x body)

def cumulativePrompt (blocks : List PromptBlock) (namespace_ : Str) (body : Json) : List (ℕ × ℕ) :=
  cumulativeFrom x (header x namespace_ body) 0 blocks

end

end CcSwitchServer.PromptCache
