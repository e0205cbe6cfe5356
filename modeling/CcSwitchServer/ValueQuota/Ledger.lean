import CcSwitchServer.Foundations.Runs
import CcSwitchServer.ValueQuota.Adjustment

/-! # The ledger as a transaction system

Every writer takes one serialised transaction, and a run folds a list of operations.
-/

namespace CcSwitchServer.ValueQuota
open Foundations ValuePricing Usage Std

inductive Op
  | install (scope : Scope) (revision : String) (snapshot : PricingSnapshot)
  | beginCoverage (scope : Scope) (now : ℤ)
  | coverFrom (scope : Scope) (fromMs : ℤ)
  | schedule (scope : Scope) (revision : String) (effectiveFromMs now : ℤ)
  | admission (a : Admission) (trial : Option MarketTrialBudget)
  | admitMarket (a : Admission) (trial : Option MarketTrialBudget) (now : ℤ)
  | settle (o : Observation)
  | usageLog (log : UsageLog)
  | outcome (requestId attemptId : String) (outcome : AttemptOutcome) (onlyUnobserved : Bool)
  | sweep (candidates : List (String × String))
  | compact (cutoff now : ℤ)
  | adjust (edits : List Adjustment) (actor : String) (staleBeforeMs : ℤ)
  | ack (scope : Scope) (window : Window) (usageWatermark ack : ℕ)

section
variable (hash : PricingSnapshot → String)

def transact (db : Db) : Op → Except QuotaError Db
  | .install scope revision snapshot => db.installInTx hash scope revision snapshot
  | .beginCoverage scope now => db.beginCoverage scope now
  | .coverFrom scope fromMs => db.coverFrom scope fromMs
  | .schedule scope revision effectiveFromMs now => do
    let (db, _) ← db.scheduleTariff scope revision effectiveFromMs now
    pure db
  | .admission a trial => do
    let (db, _) ← db.admitWithTrialInTx a trial
    pure db
  | .admitMarket a trial now => do
    let (db, _) ← db.admitWithMarketTrial a trial now
    pure db
  | .settle o => do
    let (db, _) ← db.settleInTx o
    pure db
  | .usageLog log => do
    let db ← db.upsertUsageRow log
    pure (db.settleUsageLogIsolated log)
  | .outcome requestId attemptId outcome onlyUnobserved => do
    let (db, _) ← db.settleOutcomeInTx requestId attemptId outcome onlyUnobserved
    pure db
  | .sweep candidates => pure (db.sweepBatchInTx candidates ⟨0, 0, 0⟩).1
  | .compact cutoff now => do
    let (db, _) ← db.compactInTx cutoff now
    pure db
  | .adjust edits actor staleBeforeMs => db.applyAdjustmentsInTx edits actor staleBeforeMs
  | .ack scope window usageWatermark ack => do
    let (db, _) ← db.ackInTx scope window usageWatermark ack
    pure db

/-- A transaction that fails leaves the database as it was. -/
def step : Db → Op → Db := commit (transact hash)

end

/-! ## A sample scope

One scope, one model at one pico-dollar a token and one open window, for concrete runs. -/

namespace Sample

def scope : Scope := ⟨"router", "installation", "share", "user@example.com", none⟩

def price : ExecutionModelPrice where
  contextInputBasis := .freshInput
  longContextThreshold := none
  longContextInclusive := false
  rates := (∅ : ExtTreeMap String ExecutionRates).insert "standard/base"
    ⟨some "1", some "1", none, none, none, .unavailable⟩

def snapshot : PricingSnapshot where
  models := (∅ : ExtTreeMap String ExecutionModelPrice).insert "model" price
  exactAliases := ∅

def window : Window := ⟨"window", 0, none, 0⟩

/-- An enforced admission under a limit of a million picos that reserves `estimate`. -/
def admission (requestId : String) (startedAtMs : ℤ) (estimate : ℕ) : Admission where
  enforce := true
  scope := scope
  window := window
  policyEpoch := "epoch"
  quota := ⟨"1", tariffPolicy⟩
  pricingRevision := "revision"
  requestId := requestId
  attemptId := "1"
  effectiveModel := "model"
  effectiveTier := "standard"
  startedAtMs := startedAtMs
  estimate := ⟨estimate, 0⟩
  parallelLimit := 4

def observation (requestId : String) (revision : ℕ) (outcome : ObservedOutcome)
    (tokens : Option ℕ) : Observation where
  requestId := requestId
  attemptId := "1"
  scope := scope
  usageRevision := revision
  effectiveModel := "model"
  effectiveTier := "standard"
  reportedModel := none
  observedTier := none
  tokens := tokens.map fun n => { freshInput := n }
  outcome := outcome
  synthetic := false

def hash : PricingSnapshot → String := fun _ => "revision"

def opening : List Op := [.install scope "revision" snapshot, .beginCoverage scope 0]

end Sample

end CcSwitchServer.ValueQuota
