import CcSwitchServer.ValueQuota.Schema

/-! # Classification of usage logs (`classify_log`)

A usage log is read as one observation of its attempt.
-/

namespace CcSwitchServer.ValueQuota
open Foundations ValuePricing Usage

/-- The canonical service tier of a text, when it is a known one. -/
def canonicalServiceTier (raw : Option String) : Option String :=
  match raw.map Text.trim with
  | none => some "standard"
  | some raw =>
    if raw = "" ∨ ["auto", "default", "standard"].any (Text.eqIgnoreAsciiCase raw) then
      some "standard"
    else if Text.eqIgnoreAsciiCase raw "priority" then some "priority"
    else if Text.eqIgnoreAsciiCase raw "flex" then some "flex"
    else none

variable (log : UsageLog)

def inProgressLog : Bool :=
  log.usageState == .pending ||
    (log.isStreaming && (log.streamStatus == some "pending" || log.streamStatus == some "streaming"))

/-- Complete usage: both directions reported and every partial sum consistent. -/
def tokensForLog : Option ValueTokens := do
  let freshInput ← log.inputTokens
  let output ← log.outputTokens
  let cache := log.cacheCreationTokens.getD 0
  let (cacheWrite5m, cacheWrite1h, cacheWriteUnknown) ← match log.cacheCreationDetails with
    | some d => do
      let sum ← checkedAddU64 d.fiveMinutes d.oneHour
      if sum = cache then some (d.fiveMinutes, d.oneHour, 0) else none
    | none => some (0, 0, cache)
  let tokens : ValueTokens :=
    { freshInput, output, cacheRead := log.cacheReadTokens.getD 0, cacheWrite5m, cacheWrite1h, cacheWriteUnknown }
  if log.rawInputTokens.any fun raw => tokens.rawInput.toOption ≠ some raw then none
  else some tokens

/-- Lenient partial usage: an interrupted stream may lack a direction. -/
def partialTokens (attempt : Option AttemptMeta) : ValueTokens :=
  let cache := log.cacheCreationTokens.getD 0
  let split := match log.cacheCreationDetails with
    | some d =>
      if checkedAddU64 d.fiveMinutes d.oneHour = some cache then (d.fiveMinutes, d.oneHour, 0)
      else (0, 0, cache)
    | none => (0, 0, cache)
  let ceiling := attempt.elim maxOutputCeiling fun m => max m.outputTokens 1
  let streamed := (log.valueStreamedTextBytes.getD 0 + 2) / 3
  { freshInput := (log.inputTokens.or (attempt.map AttemptMeta.inputTokens)).getD 0
    output := min (max (log.outputTokens.getD 0) streamed) ceiling
    cacheRead := log.cacheReadTokens.getD 0
    cacheWrite5m := split.1
    cacheWrite1h := split.2.1
    cacheWriteUnknown := split.2.2 }

/-- The log names the admitted model and nothing contradicts it. -/
def evidenceOk (model : String) : Bool :=
  let missingWorkbuddyModel :=
    log.profileId.any (fun p => ".workbuddy_oauth".toList.isSuffixOf p.toList) && log.reportedModel.isNone
  log.actualModel.or log.model == some model && !missingWorkbuddyModel &&
    !log.reportedModelMismatch.getD false && !log.reportedModelConflict.getD false &&
    !log.reportedServiceTierConflict.getD false && log.usageState != .parseError &&
    log.requestKind == .text && !log.isHealthCheck

structure Classification where
  outcome : ObservedOutcome
  tokens : Option ValueTokens
  observedTier : Option String
  deriving DecidableEq, Repr

/-- What cannot be trusted is charged as unknown, never as free. -/
def classifyLog (model admittedTier : String) (attempt : Option AttemptMeta) (forceTerminal : Bool) : Classification :=
  let evidence := evidenceOk log model
  let tokens := if log.usageEstimated then none else tokensForLog log
  let hasUsage := tokens.any (· ≠ {}) || 0 < log.processedTokens ||
    0 < log.rawInputTokens.getD 0 || 0 < log.totalTokens.getD 0
  let uncertainTokens :=
    tokens.or (if !log.usageEstimated && hasUsage then some (partialTokens log attempt) else none)
  let tier := canonicalServiceTier (log.reportedServiceTier.or log.effectiveServiceTier)
  let observedTier := tier.filter (· ≠ admittedTier)
  if inProgressLog log && !forceTerminal then
    ⟨.inProgress, if evidence then tokens else none, none⟩
  else if 400 ≤ log.statusCode && !hasUsage && log.valueStreamedTextBytes.getD 0 == 0 &&
      log.failureKind != some "upstream_outcome_unknown" then
    ⟨.free, none, none⟩
  else if !evidence || tier.isNone then ⟨.unknown, uncertainTokens, observedTier⟩
  else
    let completed :=
      if log.isStreaming then log.streamStatus == some "completed" else !inProgressLog log
    if completed && ((200 ≤ log.statusCode && log.statusCode < 300) || hasUsage) then
      match tokens with
      | some tokens =>
        if 1 < log.attemptCount || observedTier.isSome then
          ⟨.finalConservative, some tokens, observedTier⟩
        else ⟨.final, some tokens, none⟩
      | none => ⟨.unknown, uncertainTokens, observedTier⟩
    else if log.isStreaming then
      ⟨.interrupted, some (partialTokens log attempt), observedTier⟩
    else ⟨.unknown, uncertainTokens, observedTier⟩

end CcSwitchServer.ValueQuota
