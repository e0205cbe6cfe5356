import CcSwitchServer.Foundations.Checked
import CcSwitchServer.Foundations.Text

/-! # Execution tariffs (`src/domain/usage/value_pricing.rs`)

Amounts are exact integers of pico-dollars, on the wire as canonical unsigned decimal texts.
-/

namespace CcSwitchServer.ValuePricing
open Foundations Std

def tariffPolicy : String := "api-equivalent-v1"
def picosPerMicro : ℕ := 1000000
def maxLimitMicros : ℕ := 1000000000000000
def maxOutputCeiling : ℕ := 128000

inductive ValueError
  | invalidDecimal
  | outOfRange
  | invalidPolicy
  | invalidSnapshot
  | priceUnavailable
  | usageUnavailable
  | overflow
  deriving DecidableEq, Repr

/-! ## Decimal texts -/

def digitsValue (cs : List Char) : ℕ := cs.foldl (fun n c => n * 10 + (c.toNat - '0'.toNat)) 0

/-- A canonical unsigned decimal of at most 39 digits, in the range of `i128`. -/
def unsignedDecimal (raw : String) : Except ValueError ℕ :=
  let cs := raw.toList
  if cs = [] ∨ raw.utf8ByteSize > 39 ∨ (1 < raw.utf8ByteSize ∧ cs.head? = some '0') ∨
      ¬cs.all Text.isAsciiDigit then
    .error .invalidDecimal
  else if digitsValue cs ≤ i128Max then .ok (digitsValue cs)
  else .error .outOfRange

/-! ## Quotas -/

structure ValueQuota where
  limitUsdMicros : String
  tariffPolicyId : String
  deriving DecidableEq, Repr

def ValueQuota.limitPicos (q : ValueQuota) : Except ValueError ℕ := do
  let micros ← unsignedDecimal q.limitUsdMicros
  if q.tariffPolicyId ≠ tariffPolicy ∨ micros = 0 ∨ micros > maxLimitMicros then
    .error .invalidPolicy
  else context (checkedMul micros picosPerMicro) .overflow

/-! ## Tokens -/

structure ValueTokens where
  freshInput : ℕ := 0
  output : ℕ := 0
  cacheRead : ℕ := 0
  cacheWrite5m : ℕ := 0
  cacheWrite1h : ℕ := 0
  cacheWriteUnknown : ℕ := 0
  deriving DecidableEq, Repr

/-- All input tokens, cached or not; the sum is a checked `u64` sum. -/
def ValueTokens.rawInput (t : ValueTokens) : Except ValueError ℕ :=
  [t.cacheRead, t.cacheWrite5m, t.cacheWrite1h, t.cacheWriteUnknown].foldlM
    (fun sum n => context (checkedAddU64 sum n) .overflow) t.freshInput

/-- Bounded reservation input of one request. -/
structure RiskEstimate where
  inputTokens : ℕ
  outputTokens : ℕ
  deriving DecidableEq, Repr

def RiskEstimate.tokens (e : RiskEstimate) : ValueTokens := { freshInput := e.inputTokens, output := e.outputTokens }

/-! ## Rates -/

inductive ContextInputBasis
  | freshInput
  | rawInput
  deriving DecidableEq, Repr

/-- Which lifetimes of a cache write have a price. -/
inductive CacheWritePolicy
  | unavailable
  | fiveMinutesOnly
  | oneHourOnly
  | both
  deriving DecidableEq, Repr

/-- A rate stays a text where it arrives from outside. -/
structure ExecutionRates where
  input : Option String
  output : Option String
  cacheRead : Option String
  cacheWrite5m : Option String
  cacheWrite1h : Option String
  cacheWritePolicy : CacheWritePolicy
  deriving DecidableEq, Repr

structure PricedValue where
  usagePicos : ℕ
  conservativeCacheTtl : Bool
  deriving DecidableEq, Repr

namespace ExecutionRates

def rate : Option String → Except ValueError (Option ℕ)
  | none => .ok none
  | some raw => do
    let value ← unsignedDecimal raw
    if (value : ℤ) > i64Max then .error .outOfRange else .ok (some value)

def validate (r : ExecutionRates) : Except ValueError Unit := do
  for raw in [r.input, r.output, r.cacheRead, r.cacheWrite5m, r.cacheWrite1h] do
    let _ ← rate raw
  ensure (r.input.isSome ∧ r.output.isSome) .priceUnavailable
  match r.cacheWritePolicy with
  | .unavailable => ensure (r.cacheWrite5m = none ∧ r.cacheWrite1h = none) .invalidSnapshot
  | .fiveMinutesOnly => ensure (r.cacheWrite5m.isSome ∧ r.cacheWrite1h = none) .invalidSnapshot
  | .oneHourOnly => ensure (r.cacheWrite1h.isSome ∧ r.cacheWrite5m = none) .invalidSnapshot
  | .both => ensure (r.cacheWrite5m.isSome ∧ r.cacheWrite1h.isSome) .invalidSnapshot

/-- One summand of a price; a token kind that does not occur needs no rate. -/
def add (total count : ℕ) (rate : Option ℕ) : Except ValueError ℕ :=
  if count = 0 then .ok total
  else do
    let rate ← context rate .priceUnavailable
    let value ← context (checkedMul count rate) .overflow
    context (checkedAdd total value) .overflow

/-- The rate of cache writes of unknown lifetime: the dearer one when both are possible. -/
def unknownRate (r : ExecutionRates) : Except ValueError (Option ℕ) :=
  match r.cacheWritePolicy with
  | .unavailable => .ok none
  | .fiveMinutesOnly => rate r.cacheWrite5m
  | .oneHourOnly => rate r.cacheWrite1h
  | .both => do
    let short ← context (← rate r.cacheWrite5m) .priceUnavailable
    let long ← context (← rate r.cacheWrite1h) .priceUnavailable
    .ok (some (max short long))

/-- Every product and sum is checked. -/
def price (r : ExecutionRates) (tokens : ValueTokens) : Except ValueError PricedValue := do
  r.validate
  let total ← add 0 tokens.freshInput (← rate r.input)
  let total ← add total tokens.output (← rate r.output)
  let total ← add total tokens.cacheRead (← rate r.cacheRead)
  let total ← add total tokens.cacheWrite5m (← rate r.cacheWrite5m)
  let total ← add total tokens.cacheWrite1h (← rate r.cacheWrite1h)
  let total ← add total tokens.cacheWriteUnknown (← r.unknownRate)
  .ok { usagePicos := total
        conservativeCacheTtl := 0 < tokens.cacheWriteUnknown && r.cacheWritePolicy == .both }

end ExecutionRates

/-! ## Model prices -/

structure ExecutionModelPrice where
  contextInputBasis : ContextInputBasis
  longContextThreshold : Option ℕ
  longContextInclusive : Bool
  rates : ExtTreeMap String ExecutionRates
  deriving DecidableEq

namespace ExecutionModelPrice

variable (m : ExecutionModelPrice)

/-- Whether this much context is charged at the long-context rates. -/
def isLong (contextInput : ℕ) : Bool :=
  match m.longContextThreshold with
  | none => false
  | some n => if m.longContextInclusive then n ≤ contextInput else n < contextInput

def contextInput (tokens : ValueTokens) : Except ValueError ℕ :=
  match m.contextInputBasis with
  | .freshInput => .ok tokens.freshInput
  | .rawInput => tokens.rawInput

/-- The service tier and the context size choose the rate row. -/
def price (m : ExecutionModelPrice) (effectiveTier : String) (tokens : ValueTokens) :
    Except ValueError PricedValue := do
  ensure (effectiveTier ∈ ["standard", "priority", "flex"]) .priceUnavailable
  let input ← m.contextInput tokens
  let key := effectiveTier ++ "/" ++ if m.isLong input then "long" else "base"
  let rates ← context m.rates[key]? .priceUnavailable
  rates.price tokens

def supportsTier (tier : String) : Bool :=
  m.rates.contains (tier ++ "/base") && (m.longContextThreshold.isNone || m.rates.contains (tier ++ "/long"))

end ExecutionModelPrice

end CcSwitchServer.ValuePricing
