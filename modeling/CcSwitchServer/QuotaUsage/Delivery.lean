import CcSwitchServer.Foundations.Runs
import CcSwitchServer.QuotaUsage.Exact

/-! # What a reader of the token ledger sees

Logs arrive in any order, repeated and with several revisions.
-/

namespace CcSwitchServer.QuotaUsage
open Foundations Usage QuotaCycle QuotaUsageLedger

/-! ## The purpose: each request once, at its highest revision -/

/-- A log that is charged to the user of a share in a cycle. -/
def Charged (cycle : AccountQuotaCycle) (share user : String) (log : UsageLog) : Prop :=
  ∃ m ∈ metered log, logScope m.1 log = scopeKey cycle.sourceRef cycle.sourceEpoch cycle.bucketId share user ∧
    cycleContains cycle m.1.startedAtMs

instance (cycle : AccountQuotaCycle) (share user : String) (log : UsageLog) :
    Decidable (Charged cycle share user log) := by
  unfold Charged
  infer_instance

/-- The requests of a user that count in the cycle, each once. -/
def chargedRequests (logs : List UsageLog) (cycle : AccountQuotaCycle) (share user : String) : List String :=
  ((logs.filter fun log => Charged cycle share user log).map UsageLog.requestId).dedup

/-- The delivered log with the highest revision of a request. -/
def highest (logs : List UsageLog) (id : String) : Option UsageLog :=
  (logs.filter fun log => (metered log).isSome ∧ log.requestId = id).argmax UsageLog.usageRevision

def chargedTotal (f : UsageLog → ℕ) (logs : List UsageLog) (cycle : AccountQuotaCycle)
    (share user : String) : ℕ :=
  ((chargedRequests logs cycle share user).map fun id => ((highest logs id).map f).getD 0).sum

def usedTokens : List UsageLog → AccountQuotaCycle → String → String → ℕ := chargedTotal UsageLog.quotaTokens

def usedRequests : List UsageLog → AccountQuotaCycle → String → String → ℕ :=
  chargedTotal fun log => (decide (log.recordKind = .userInference)).toNat

/-! ## Runs -/

/-- The ledger, and the logs that were taken so far. Nothing reads the list. -/
structure Meter where
  ledger : QuotaUsageLedger
  delivered : List UsageLog

/-- A delivery, or the begin of the collection. -/
inductive QuotaOp
  | beginCollection (source : String) (atMs : ℤ)
  | record (log : UsageLog)

def QuotaOp.Typed : QuotaOp → Prop
  | .beginCollection source atMs => source ≠ "" ∧ 0 ≤ atMs
  | .record _ => True

instance : DecidablePred QuotaOp.Typed := fun op => by
  cases op <;> (unfold QuotaOp.Typed; infer_instance)

namespace Meter

def default : Meter := ⟨.default, []⟩

def step (m : Meter) : QuotaOp → Meter
  | .beginCollection source atMs => { m with ledger := m.ledger.beginCollection source atMs }
  | .record log =>
    match m.ledger.record log with
    | (.ok _, l) => ⟨l, m.delivered ++ [log]⟩
    | (.error _, l) => ⟨l, m.delivered⟩

def FitsMemory (m : Meter) : Prop := m.ledger.watermark < u64Max

instance (m : Meter) : Decidable m.FitsMemory := by
  unfold FitsMemory
  infer_instance

end Meter

theorem record_watermark_le (l : QuotaUsageLedger) (log : UsageLog) : l.watermark ≤ (l.record log).2.watermark := by
  unfold record
  split
  · exact le_refl _
  · split
    · exact le_refl _
    · unfold appendVersion
      dsimp only
      split
      · exact le_refl _
      · rw [noteRecovery_frame]
        split
        · exact le_refl _
        · rename_i w hw
          obtain ⟨-, rfl⟩ := checkedAddU64_eq_some.mp hw
          exact Nat.le_succ _

theorem Meter.watermark_le (m : Meter) (op : QuotaOp) : m.ledger.watermark ≤ (m.step op).ledger.watermark := by
  cases op with
  | beginCollection source atMs =>
    show _ ≤ (m.ledger.beginCollection source atMs).watermark
    unfold beginCollection
    split
    · exact le_refl _
    · exact le_refl _
  | record log =>
    have hle := record_watermark_le m.ledger log
    unfold Meter.step
    dsimp only
    split
    · rename_i b l hrecord
      rw [hrecord] at hle
      exact hle
    · rename_i e l hrecord
      rw [hrecord] at hle
      exact hle

/-! ## The ledger follows the logs -/

/-- The ledger holds the delivered logs, and nothing else. -/
structure Tracks (l : QuotaUsageLedger) (delivered : List UsageLog) : Prop where
  covered : ∀ log ∈ delivered, ∀ a share user, metered log = some (a, share, user) →
    ∃ versions last, l.versionsAt (logScope a log) log.requestId = some versions ∧
      versions.getLast? = some last ∧ log.usageRevision ≤ last.usageRevision ∧
      (log.usageRevision = last.usageRevision → last.tokens = log.quotaTokens) ∧ Repeats last a log
  origin : ∀ {scope id versions last}, l.versionsAt scope id = some versions →
    versions.getLast? = some last →
    ∃ log ∈ delivered, ∃ a share user watermark, metered log = some (a, share, user) ∧
      logScope a log = scope ∧ log.requestId = id ∧ last = newEntry a share user log watermark

namespace Tracks
variable {l : QuotaUsageLedger} {delivered : List UsageLog} {log : UsageLog}

theorem default : Tracks .default [] where
  covered := fun _ h => absurd h List.not_mem_nil
  origin := fun h => absurd h (Option.some_ne_none _).symm

theorem skip (h : Tracks l delivered) (hcovered : ∀ a share user, metered log = some (a, share, user) →
      ∃ versions last, l.versionsAt (logScope a log) log.requestId = some versions ∧
        versions.getLast? = some last ∧ log.usageRevision ≤ last.usageRevision ∧
        (log.usageRevision = last.usageRevision → last.tokens = log.quotaTokens) ∧ Repeats last a log) :
    Tracks l (delivered ++ [log]) := by
  refine ⟨fun log' hlog' => ?_, fun hv hlast => ?_⟩
  · rcases List.mem_append.mp hlog' with hold | hnew
    · exact h.covered log' hold
    · rw [List.mem_singleton] at hnew
      subst hnew
      exact hcovered
  · obtain ⟨log', hlog', hrest⟩ := h.origin hv hlast
    exact ⟨log', List.mem_append_left _ hlog', hrest⟩

theorem append (h : Tracks l delivered) {a : QuotaAttribution} {share user : String}
    (hm : metered log = some (a, share, user)) (hfits : Fitting l log a)
    (hrev : ∀ versions last, l.versionsAt (logScope a log) log.requestId = some versions →
      versions.getLast? = some last → last.usageRevision < log.usageRevision) :
    Tracks (l.withVersion a share user log) (delivered ++ [log]) := by
  have hnew : (l.withVersion a share user log).versionsAt (logScope a log) log.requestId = some
      ((l.versionsAt (logScope a log) log.requestId).getD [] ++ [newEntry a share user log (l.watermark + 1)]) := by
    rw [versionsAt_withVersion hm, if_pos ⟨rfl, rfl⟩]
  have hlastnew : ((l.versionsAt (logScope a log) log.requestId).getD [] ++
      [newEntry a share user log (l.watermark + 1)]).getLast? =
        some (newEntry a share user log (l.watermark + 1)) := by simp
  refine ⟨fun log' hlog' a' share' user' hm' => ?_, fun hv hlast => ?_⟩
  · rcases List.mem_append.mp hlog' with hold | heq
    · obtain ⟨versions, last, hv, hlast, hle, htokens, hrepeats⟩ := h.covered log' hold a' share' user' hm'
      by_cases hsame : logScope a log = logScope a' log' ∧ log.requestId = log'.requestId
      · rw [← hsame.1, ← hsame.2] at hv ⊢
        have hlt := hrev versions last hv hlast
        obtain ⟨hattribution, hparent, hcount⟩ := (hfits.repeats versions last hv hlast).1
        refine ⟨_, _, hnew, hlastnew, le_of_lt (lt_of_le_of_lt hle hlt), fun heq => ?_, ?_⟩
        · have hrevision : log'.usageRevision = log.usageRevision := heq
          omega
        · exact ⟨hattribution.symm.trans hrepeats.1, hparent.symm.trans hrepeats.2.1, hcount.symm.trans hrepeats.2.2⟩
      · refine ⟨versions, last, ?_, hlast, hle, htokens, hrepeats⟩
        rw [versionsAt_withVersion hm, if_neg hsame, hv]
    · rw [List.mem_singleton] at heq
      subst heq
      rw [hm] at hm'
      cases hm'
      exact ⟨_, _, hnew, hlastnew, le_refl _, fun _ => rfl, rfl, rfl, rfl⟩
  · obtain ⟨rfl, rfl, rfl⟩ | ⟨hold, -⟩ := withVersion_cases hm hv
    · rw [hlastnew] at hlast
      cases hlast
      exact ⟨log, List.mem_append_right _ (List.mem_singleton.mpr rfl), a, share, user, _, hm, rfl, rfl, rfl⟩
    · obtain ⟨log', hlog', hrest⟩ := h.origin hold hlast
      exact ⟨log', List.mem_append_left _ hlog', hrest⟩

theorem beginCollection (h : Tracks l delivered) (source : String) (atMs : ℤ) :
    Tracks (l.beginCollection source atMs) delivered := by
  unfold QuotaUsageLedger.beginCollection
  split
  · exact h
  · exact ⟨h.covered, h.origin⟩

end Tracks

def Meter.Steady (m : Meter) : Prop := m.FitsMemory → Exact m.ledger ∧ Tracks m.ledger m.delivered

/-- A delivery keeps the ledger exact and on the delivered logs. -/
theorem Meter.Steady.step {m : Meter} {op : QuotaOp} (h : m.Steady) (htyped : op.Typed) : (m.step op).Steady := by
  intro hfits
  have hroom : m.FitsMemory := lt_of_le_of_lt (m.watermark_le op) hfits
  obtain ⟨hexact, htracks⟩ := h hroom
  cases op with
  | beginCollection source atMs =>
    exact ⟨hexact.beginCollection htyped.1 htyped.2, htracks.beginCollection source atMs⟩
  | record log =>
    have hcases := record_cases hexact hroom log
    unfold Meter.step
    dsimp only
    generalize m.ledger.record log = r at hcases ⊢
    cases hcases with
    | rejected he => exact ⟨hexact, htracks⟩
    | unmetered hok hm =>
      refine ⟨hexact, htracks.skip fun a share user hsome => ?_⟩
      rw [hm] at hsome
      cases hsome
    | @stale a share user versions last hok hm hlog hv hlast hrev =>
      refine ⟨hexact, htracks.skip fun a' share' user' hsome => ?_⟩
      rw [hm] at hsome
      cases hsome
      obtain ⟨hrepeats, htokens⟩ := hlog.repeats versions last hv hlast
      exact ⟨versions, last, hv, hlast, hrev, fun heq => htokens heq.symm, hrepeats⟩
    | appended hok hm hlog hrev =>
      exact ⟨hexact.withVersion hm hlog hrev, htracks.append hm hlog hrev⟩

theorem Meter.steady_of_run {ops : List QuotaOp} (htyped : ∀ op ∈ ops, op.Typed) :
    (run Meter.step Meter.default ops).Steady :=
  run_invariant (fun _ _ h htyped => h.step htyped) (fun _ => ⟨Exact.default, Tracks.default⟩)
    (EachStep.of_mem htyped Meter.default)

end CcSwitchServer.QuotaUsage
