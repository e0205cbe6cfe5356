import CcSwitchServer.ValuePricing.Tariff

/-! # Model identity and pricing snapshots (`src/domain/usage/value_pricing.rs`)

A logged model name is matched as sent, then with qualifiers and suffixes peeled.
-/

namespace CcSwitchServer.ValuePricing
open Foundations Foundations.Text Std

/-! ## Peeling one layer -/

variable (value : List Char)

def stripPathLeaf : Option (List Char) :=
  let leaf := trimChars ((splitOn '/' value).getLastD [])
  if leaf = [] ∨ leaf = value then none else some leaf

def stems : List (List Char) :=
  ["claude-", "gpt-", "gemini-", "kimi-", "glm-", "deepseek-", "codex-"].map String.toList

def dotBefore (at_ : ℕ) : Bool := 0 < at_ && value[at_ - 1]? == some '.'

/-- The smallest position of a vendor stem that follows a dot: a named stem at its first occurrence,
or an `o` with a digit after it. -/
def stemAt : Option ℕ :=
  let named := stems.filterMap fun stem => (find stem value).filter (dotBefore value)
  let series := (List.range value.length).filter fun i =>
    value[i]? == some 'o' && dotBefore value i && (value[i + 1]?.any isAsciiDigit)
  (named ++ series).min?

/-- Any dotted prefix of letters and digits is peeled before a known stem. -/
def stripProviderDotPrefix : Option (List Char) := do
  let at_ ← stemAt value
  let pre := value.take (at_ - 1)
  if pre ≠ [] ∧ (splitOn '.' pre).all fun part => part ≠ [] ∧ part.all isAsciiAlphanumeric then
    some (value.drop at_)
  else none

def stripBedrockRevision : Option (List Char) := do
  let next ← stripSuffix ":0".toList value
  match rsplitOnce "-v".toList next with
  | some (base, revision) =>
    if base ≠ [] ∧ revision.all isAsciiDigit then some base
    else if next ≠ [] then some next else none
  | none => if next ≠ [] then some next else none

/-- Strip each suffix once, in order; a suffix that is the whole text ends the pass. -/
def stripSuffixes : List (List Char) → List Char → List Char × Bool
  | [], current => (current, false)
  | suffix :: rest, current =>
    match stripSuffix suffix current with
    | none => stripSuffixes rest current
    | some [] => (current, false)
    | some next => ((stripSuffixes rest next).1, true)

/-- One round of the suffix loop, and whether it stripped anything. -/
def stripRound : List Char × Bool :=
  let modes := stripSuffixes ["-thinking".toList, "-latest".toList] value
  let sizes := stripSuffixes ["[1m]".toList, "-1m".toList] modes.1
  match stripBedrockRevision sizes.1 with
  | some next => (next, true)
  | none => (sizes.1, modes.2 || sizes.2)

/-- The suffix loop. Every round that strips shortens the text, so the length bounds the rounds. -/
def stripLoop : ℕ → List Char → List Char
  | 0, value => value
  | fuel + 1, value => if (stripRound value).2 then stripLoop fuel (stripRound value).1 else value

def stripRuntimeSuffix : Option (List Char) :=
  if (stripRound value).2 then some (stripLoop value.length value) else none

def stripDateStamp : Option (List Char) := do
  let (base, suffix) ← rsplitOnce ['-'] value
  if suffix.length = 8 ∧ suffix.all isAsciiDigit ∧ base ≠ [] then some base else none

def claudeDotVersionToHyphen : Option (List Char) := do
  let rest ← stripPrefix "claude-".toList value
  let (family, version) ← splitOnce '-' rest
  if family ∈ ["sonnet", "opus", "haiku"].map String.toList ∧ '.' ∈ version ∧
      version.all fun c => isAsciiDigit c || c == '.' then
    some ("claude-".toList ++ family ++ ['-'] ++ version.map fun c => if c = '.' then '-' else c)
  else none

/-- One layer less, by each of the five rules. -/
def unwrapIdentity : List (List Char) :=
  ([stripPathLeaf value, stripProviderDotPrefix value, stripRuntimeSuffix value,
    stripDateStamp value, claudeDotVersionToHyphen value].filterMap id).eraseDups

/-! ## All candidates -/

/-- The breadth-first search: `queue` is pending, `ordered` (latest first) has been seen. -/
def identitySearch : ℕ → List (List Char) → List (List Char) → List (List Char)
  | 0, _, ordered => ordered
  | _ + 1, [], ordered => ordered
  | fuel + 1, current :: queue, ordered =>
    if current = [] ∨ current ∈ ordered then identitySearch fuel queue ordered
    else
      let next := (unwrapIdentity current).filter fun n => n ≠ [] ∧ n ∉ current :: ordered
      identitySearch fuel (queue ++ next) (current :: ordered)

/-- A rule shortens the name or takes a dot away. -/
def identityWeight : ℕ := 2 * value.length + value.count '.'

/-- The search pops at most `6 ^ weight` texts: each has at most five successors of less weight. -/
def identityCandidates (modelText : String) : List String :=
  let start := (trimChars modelText.toList).map Char.toLower
  ((identitySearch (6 ^ identityWeight start) [start] []).reverse).map String.ofList

/-! ## Snapshots -/

structure PricingSnapshot where
  models : ExtTreeMap String ExecutionModelPrice
  exactAliases : ExtTreeMap String String
  deriving DecidableEq

namespace PricingSnapshot

def lookup (s : PricingSnapshot) (candidate : String) : Option ExecutionModelPrice :=
  s.models[s.exactAliases.getD candidate candidate]?

def model (s : PricingSnapshot) (effectiveModel : String) : Except ValueError ExecutionModelPrice :=
  context ((effectiveModel :: identityCandidates effectiveModel).findSome? s.lookup) .priceUnavailable

def canonical (s : PricingSnapshot) (name : String) : String := s.exactAliases.getD name name

end PricingSnapshot

end CcSwitchServer.ValuePricing
