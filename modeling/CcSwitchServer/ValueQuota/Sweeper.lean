import CcSwitchServer.ValueQuota.Controls
import CcSwitchServer.ValueQuota.Reopening

/-! # The sweeper and settlements that fail (`sweep_batch_in_tx`, `settle_usage_log_isolated`)

The sweeper takes stale attempts one after the other, and the course of one is that of the rest.
-/

namespace CcSwitchServer.ValueQuota
open Foundations ValuePricing Usage Db List UsageRecordRow Sample

def Db.Blocked (db : Db) (scope : Scope) (windowId : String) : Prop :=
  (db.blocks.find? (scope, some windowId)).isSome = true

instance (db : Db) (scope : Scope) (windowId : String) : Decidable (db.Blocked scope windowId) :=
  inferInstanceAs (Decidable ((db.blocks.find? (scope, some windowId)).isSome = true))

def Db.windowsOf (db : Db) (requestId : String) : List (Scope × String) :=
  (db.attempts.rows.filter fun r => r.requestId = requestId).map fun r => (r.scope, r.windowId)

/-- The second ledger is the first one with these windows blocked; a block that was there stays. -/
structure BlockedAlso (windows : List (Scope × String)) (db db' : Db) : Prop where
  tables : db' = { db with blocks := db'.blocks }
  blocks : ∀ k, db'.blocks.find? k =
    if ∃ w ∈ windows, (w.1, some w.2) = k then
      some ((db.blocks.find? k).getD ⟨k.1, k.2, none⟩)
    else db.blocks.find? k

/-! ## Blocks -/

section
variable {db db' db'' : Db} {windows : List (Scope × String)}

theorem find?_blockForReconcile (db : Db) (scope : Scope) (windowId : String)
    (k : Scope × Option String) : (db.blockForReconcile scope windowId).blocks.find? k =
      if (scope, some windowId) = k then some ((db.blocks.find? k).getD ⟨k.1, k.2, none⟩)
      else db.blocks.find? k := by
  unfold blockForReconcile
  by_cases hk : (scope, some windowId) = k
  · subst hk
    rw [if_pos rfl]
    cases hfind : db.blocks.find? (scope, some windowId) with
    | some b => exact hfind
    | none => exact Table.find?_upsert_self db.blocks rfl
  · rw [if_neg hk]
    cases hfind : db.blocks.find? (scope, some windowId) with
    | some b => rfl
    | none => exact Table.find?_upsert_of_ne db.blocks hk

theorem blockForReconcile_tables (db : Db) (scope : Scope) (windowId : String) :
    db.blockForReconcile scope windowId = { db with blocks := (db.blockForReconcile scope windowId).blocks } := by
  unfold blockForReconcile
  split <;> rfl

theorem BlockedAlso.refl (db : Db) : BlockedAlso [] db db := ⟨rfl, by simp⟩

theorem BlockedAlso.block (h : BlockedAlso windows db db') (scope : Scope) (windowId : String) :
    BlockedAlso (windows ++ [(scope, windowId)]) db (db'.blockForReconcile scope windowId) where
  tables := by
    rw [blockForReconcile_tables, h.tables]
  blocks k := by
    rw [find?_blockForReconcile, h.blocks]
    by_cases hold : ∃ w ∈ windows, (w.1, some w.2) = k <;>
      by_cases hnew : (scope, some windowId) = k <;>
      simp [mem_append, or_and_right, exists_or, hold, hnew]

theorem blockForReconcile_blockedAlso (db : Db) (scope : Scope) (windowId : String) :
    BlockedAlso [(scope, windowId)] db (db.blockForReconcile scope windowId) :=
  (BlockedAlso.refl db).block scope windowId

theorem BlockedAlso.foldl (rows : List AttemptRow) (h : BlockedAlso windows db db') :
    BlockedAlso (windows ++ rows.map fun r => (r.scope, r.windowId)) db
      (rows.foldl (fun db r => db.blockForReconcile r.scope r.windowId) db') := by
  induction rows generalizing windows db' with
  | nil =>
    rw [map_nil, append_nil]
    exact h
  | cons r rows ih =>
    rw [map_cons, append_cons]
    exact ih (h.block r.scope r.windowId)

theorem BlockedAlso.both (h : BlockedAlso windows db db') (scope : Scope) (windowId : String) :
    BlockedAlso windows (db.blockForReconcile scope windowId) (db'.blockForReconcile scope windowId) where
  tables := by
    rw [blockForReconcile_tables db', blockForReconcile_tables db, h.tables]
  blocks k := by
    rw [find?_blockForReconcile, find?_blockForReconcile, h.blocks]
    by_cases hold : ∃ w ∈ windows, (w.1, some w.2) = k <;>
      by_cases hnew : (scope, some windowId) = k <;> simp [hold, hnew]

theorem Db.Blocked.also {scope : Scope} {windowId : String} (h : db.Blocked scope windowId)
    (hdb : BlockedAlso windows db db') : db'.Blocked scope windowId := by
  unfold Db.Blocked at h ⊢
  rw [hdb.blocks]
  split
  · rfl
  · exact h

theorem BlockedAlso.blocked (h : BlockedAlso windows db db') {w : Scope × String} (hw : w ∈ windows) :
    db'.Blocked w.1 w.2 := by
  unfold Db.Blocked
  rw [h.blocks, if_pos ⟨w, hw, rfl⟩]
  rfl

end

/-! ## No settlement reads a block -/

/-- No settlement reads a block. -/
def Db.withBlocks (db : Db) (blocks : Table BlockRow (Scope × Option String) BlockRow.key) : Db := { db with blocks }

section
variable (db : Db) (blocks : Table BlockRow (Scope × Option String) BlockRow.key)

theorem raiseTrialFloor_withBlocks (old : AttemptRow) (amount : ℕ) :
    (db.withBlocks blocks).raiseTrialFloor old amount =
      (fun db => db.withBlocks blocks) <$> db.raiseTrialFloor old amount := by
  have hread : (db.withBlocks blocks).readTrialAttempt old.requestId old.attemptId =
      db.readTrialAttempt old.requestId old.attemptId := rfl
  unfold raiseTrialFloor
  rw [hread, map_bind]
  refine bind_congr fun marker => ?_
  cases marker with
  | none => rfl
  | some marker =>
    rw [map_bind]
    rfl

theorem nextWatermark_withBlocks : (db.withBlocks blocks).nextWatermark =
    (fun p => (p.1.withBlocks blocks, p.2)) <$> db.nextWatermark := by
  unfold nextWatermark
  rw [map_bind]
  rfl

theorem updateCheckpoint_withBlocks (scope : Scope) (at_ : ℤ) (old new : Option Contribution) :
    (db.withBlocks blocks).updateCheckpoint scope at_ old new =
      (fun db => db.withBlocks blocks) <$> db.updateCheckpoint scope at_ old new := by
  unfold updateCheckpoint
  simp only [map_bind]
  rfl

theorem writeSettlement_withBlocks (old : AttemptRow) (s : Settlement) :
    (db.withBlocks blocks).writeSettlement old s = (fun db => db.withBlocks blocks) <$> db.writeSettlement old s := by
  have hfloor : (if s.state.Settled then (db.withBlocks blocks).raiseTrialFloor old s.amount
        else pure (db.withBlocks blocks)) =
      (fun db => withBlocks db blocks) <$> (if s.state.Settled then db.raiseTrialFloor old s.amount else pure db) := by
    split
    · exact raiseTrialFloor_withBlocks db blocks old s.amount
    · rfl
  unfold writeSettlement
  rw [hfloor, map_bind, bind_map_left]
  refine bind_congr fun db₁ => ?_
  rw [nextWatermark_withBlocks, map_bind, bind_map_left]
  refine bind_congr fun p => ?_
  have hcp := updateCheckpoint_withBlocks { p.1 with
    revisions := p.1.revisions.upsert ⟨old.requestId, old.attemptId, s.revision, s.digest, s.amount, s.state, p.2⟩
    attempts := p.1.attempts.modify old.key (fun r => r.settle s p.2)
      (fun r => r.settle_key s p.2) } blocks old.scope old.startedAtMs
    (some { old.contribution with watermark := 0 })
    (some ⟨s.amount, s.risk, s.state.name, some old.pricingRevision, p.2⟩)
  rw [map_bind]
  refine (congrArg (fun x => x >>= _) hcp).trans ?_
  rw [bind_map_left]
  refine bind_congr fun db₂ => ?_
  split <;> rfl

theorem settleInTx_withBlocks (o : Observation) : (db.withBlocks blocks).settleInTx o =
    (fun p => (p.1.withBlocks blocks, p.2)) <$> db.settleInTx o := by
  unfold settleInTx
  have hold : (db.withBlocks blocks).attempt? o.requestId o.attemptId = db.attempt? o.requestId o.attemptId := rfl
  rw [hold, map_bind]
  refine bind_congr fun old => ?_
  rw [map_bind]
  refine bind_congr fun key => ?_
  rw [map_bind]
  refine bind_congr fun _ => ?_
  rw [map_bind]
  refine bind_congr fun _ => ?_
  split
  · have hs : (db.withBlocks blocks).settlementOf old o = db.settlementOf old o := rfl
    rw [hs, map_bind]
    refine bind_congr fun s => ?_
    rw [writeSettlement_withBlocks, map_bind, bind_map_left]
    rfl
  · rfl

theorem settleLogInTx_withBlocks (log : UsageLog) (forceTerminal : Bool) :
    (db.withBlocks blocks).settleLogInTx log forceTerminal =
      (fun p => (p.1.withBlocks blocks, p.2)) <$> db.settleLogInTx log forceTerminal := by
  unfold settleLogInTx
  have hold : (db.withBlocks blocks).attempt? log.requestId (wantedAttempt log) =
      db.attempt? log.requestId (wantedAttempt log) := rfl
  rw [hold]
  cases db.attempt? log.requestId (wantedAttempt log) with
  | none => rfl
  | some row =>
    rw [map_bind]
    refine bind_congr fun _ => ?_
    rw [map_bind]
    refine bind_congr fun revision => ?_
    exact settleInTx_withBlocks db blocks _

variable (requestId attemptId : String)

theorem settleOutcomeInTx_withBlocks (outcome : AttemptOutcome) (onlyUnobserved : Bool) :
    (db.withBlocks blocks).settleOutcomeInTx requestId attemptId outcome onlyUnobserved =
      (fun p => (p.1.withBlocks blocks, p.2)) <$> db.settleOutcomeInTx requestId attemptId outcome onlyUnobserved := by
  unfold settleOutcomeInTx
  have hold : (db.withBlocks blocks).attempt? requestId attemptId = db.attempt? requestId attemptId := rfl
  rw [hold]
  cases db.attempt? requestId attemptId with
  | none => rfl
  | some old =>
    dsimp only
    split
    · rfl
    · rw [map_bind, writeSettlement_withBlocks, bind_map_left]
      rfl

theorem sweepLog_withBlocks :
    (db.withBlocks blocks).sweepLog requestId attemptId = (db.sweepLog requestId attemptId).withBlocks blocks := by
  unfold sweepLog
  have hlog : ((db.withBlocks blocks).usageRecords.find? requestId).bind payload =
      (db.usageRecords.find? requestId).bind payload := rfl
  rw [hlog]
  cases ((db.usageRecords.find? requestId).bind payload).filter
      fun log => wantedAttempt log = attemptId with
  | none => rfl
  | some log =>
    dsimp only
    rw [settleLogInTx_withBlocks]
    cases db.settleLogInTx log true with
    | ok p => rfl
    | error e => rfl

theorem sweepOneInTx_withBlocks (report report' : SweepReport) :
    Prod.fst <$> (db.withBlocks blocks).sweepOneInTx requestId attemptId report' =
      (fun p => p.1.withBlocks blocks) <$> db.sweepOneInTx requestId attemptId report := by
  have hopen : ∀ db : Db, (db.withBlocks blocks).unresolved requestId attemptId =
      db.unresolved requestId attemptId := fun _ => rfl
  unfold sweepOneInTx
  rw [hopen, sweepLog_withBlocks]
  dsimp only
  rw [hopen]
  split
  · split
    · rw [settleOutcomeInTx_withBlocks, bind_map_left, map_bind, map_bind]
      rfl
    · rfl
  · rfl

end

/-! ## A batch with and without a failure -/

section
variable {db db' : Db} {windows : List (Scope × String)}

theorem BlockedAlso.withBlocks (h : BlockedAlso windows db db') : db' = db.withBlocks db'.blocks := h.tables

/-- A failure adds blocks and nothing else to what the next candidate meets. -/
theorem BlockedAlso.sweepStep (h : BlockedAlso windows db db') (c : String × String) (report report' : SweepReport) :
    BlockedAlso windows (sweepStep (db, report) c).1 (sweepStep (db', report') c).1 := by
  have hsame := sweepOneInTx_withBlocks db db'.blocks c.1 c.2 report report'
  rw [← h.withBlocks] at hsame
  unfold Db.sweepStep
  cases hone : db.sweepOneInTx c.1 c.2 report with
  | ok p =>
    rw [hone] at hsame
    cases hone' : db'.sweepOneInTx c.1 c.2 report' with
    | error e =>
      rw [hone'] at hsame
      cases hsame
    | ok p' =>
      rw [hone'] at hsame
      have hp' : p'.1 = p.1.withBlocks db'.blocks := Except.ok.inj hsame
      have hblocks : p.1.blocks = db.blocks := (sweepOneInTx_controls hone).blocks
      rw [hp']
      refine ⟨rfl, fun k => ?_⟩
      rw [hblocks]
      exact h.blocks k
  | error e =>
    rw [hone] at hsame
    cases hone' : db'.sweepOneInTx c.1 c.2 report' with
    | ok p' =>
      rw [hone'] at hsame
      cases hsame
    | error e' =>
      have hrow : db'.attempt? c.1 c.2 = db.attempt? c.1 c.2 := by
        rw [h.withBlocks]
        rfl
      rw [hrow]
      cases db.attempt? c.1 c.2 with
      | none => exact h
      | some r => exact h.both r.scope r.windowId

theorem BlockedAlso.sweepBatch (h : BlockedAlso windows db db') (candidates : List (String × String))
    (report report' : SweepReport) :
    BlockedAlso windows (db.sweepBatchInTx candidates report).1 (db'.sweepBatchInTx candidates report').1 := by
  unfold sweepBatchInTx
  induction candidates generalizing db db' report report' with
  | nil => exact h
  | cons c candidates ih =>
    rw [foldl_cons, foldl_cons]
    exact ih (h.sweepStep c report report') _ _

theorem unresolved_iff {requestId attemptId : String} : db.unresolved requestId attemptId = true ↔
    ∃ r, db.attempt? requestId attemptId = some r ∧ ¬r.meteringStatus.Settled := by
  simp [unresolved, Option.any_eq_true]

theorem sweepOneInTx_error {requestId attemptId : String} {report : SweepReport} {e : QuotaError}
    (h : db.sweepOneInTx requestId attemptId report = .error e) :
    ∃ r, db.attempt? requestId attemptId = some r ∧ ¬r.meteringStatus.Settled := by
  unfold sweepOneInTx at h
  split at h
  · rename_i hopen
    exact unresolved_iff.mp hopen
  · cases h

theorem sweepStep_failed {c : String × String} {report : SweepReport} {e : QuotaError}
    (h : db.sweepOneInTx c.1 c.2 report = .error e) :
    ∃ r, db.attempt? c.1 c.2 = some r ∧ BlockedAlso [(r.scope, r.windowId)] db (sweepStep (db, report) c).1 := by
  obtain ⟨r, hfind, -⟩ := sweepOneInTx_error h
  refine ⟨r, hfind, ?_⟩
  simp only [sweepStep, h, hfind, Option.elim_some]
  exact blockForReconcile_blockedAlso db r.scope r.windowId

end

/-! ## Every candidate is closed or blocked -/

section
variable {db db' : Db} {k : String × String}

def ClearAt (k : String × String) (db : Db) : Prop :=
  ∀ r, db.attempts.find? k = some r → r.meteringStatus.Settled → r.pendingRiskPicos = 0

theorem settlementOf_settled {old : AttemptRow} {o : Observation} {s : Settlement}
    (hs : db.settlementOf old o = .ok s) (h : s.state.Settled) : s.risk = 0 := by
  simp only [settlementOf, bind_eq_ok, pure_eq_ok] at hs
  obtain ⟨snapshot, -, tariff, -, risk, hrisk, rfl⟩ := hs
  rw [remainingRisk, if_neg] at hrisk
  · exact (pure_eq_ok.mp hrisk).symm
  · intro hpending
    rw [hpending] at h
    rcases h with h | h <;> cases h

variable {c : Change}

theorem ClearAt.change (h : ClearAt k db) (hc : c.Step db db') : ClearAt k db' := by
  intro r' hfind' hsettled
  have hstep := Change.rowStep hc k
  rw [hfind'] at hstep
  generalize hbefore : db.attempts.find? k = before at hstep
  cases hstep with
  | same => exact h r' hbefore hsettled
  | admitted a trial model reserved heq hk hadmits => rcases hsettled with h | h <;> cases h
  | observed o old s heq hk hobs => exact settlementOf_settled hobs.2.2.2.2.2 hsettled
  | resolved old result only heq hopen => rfl
  | compacted r now heq hold hnew => exact h r hbefore hsettled

theorem attempt_kept (hc : c.Step db db') {r : AttemptRow} (h : db.attempts.find? k = some r) :
    ∃ r', db'.attempts.find? k = some r' ∧ r'.scope = r.scope ∧ r'.windowId = r.windowId := by
  have hstep := Change.rowStep hc k
  rw [h] at hstep
  generalize db'.attempts.find? k = after at hstep ⊢
  cases hstep with
  | same => exact ⟨r, rfl, rfl, rfl⟩
  | observed o old s heq hk hobs => exact ⟨_, rfl, rfl, rfl⟩
  | resolved old result only heq hopen => exact ⟨_, rfl, rfl, rfl⟩
  | compacted _ now heq hold hnew => exact ⟨_, rfl, rfl, rfl⟩

/-- What is known of a candidate before its turn. -/
structure Awaits (k : String × String) (scope : Scope) (windowId : String) (db : Db) : Prop where
  found : ∃ r, db.attempts.find? k = some r ∧ r.scope = scope ∧ r.windowId = windowId
  clear : ClearAt k db

/-- The attempt is settled, or its window is blocked. -/
def Resolved (k : String × String) (scope : Scope) (windowId : String) (db : Db) : Prop :=
  Closed k db ∨ db.Blocked scope windowId

theorem sweepStep_allowed (db : Db) (report : SweepReport) (c : String × String) :
    Trace Change.Step (fun db ch => (Op.sweep [c]).Allows db ch) db (sweepStep (db, report) c).1 :=
  sweepStep_trace db report c (fun _ => .inl rfl)
    (fun _ => .inr ⟨c, mem_singleton.mpr rfl, .inl rfl⟩)
    (fun _ o ho => .inr ⟨c, mem_singleton.mpr rfl, .inr ⟨o, ho, rfl⟩⟩)

variable {scope : Scope} {windowId : String}

theorem Awaits.change (h : Awaits k scope windowId db) (hc : c.Step db db') :
    Awaits k scope windowId db' := by
  obtain ⟨⟨r, hfind, hscope, hwindow⟩, hclear⟩ := h
  obtain ⟨r', hfind', hscope', hwindow'⟩ := attempt_kept hc hfind
  exact ⟨⟨r', hfind', hscope'.trans hscope, hwindow'.trans hwindow⟩, hclear.change hc⟩

theorem Awaits.sweepStep (h : Awaits k scope windowId db) (report : SweepReport)
    (c : String × String) : Awaits k scope windowId (sweepStep (db, report) c).1 :=
  (sweepStep_allowed db report c).invariant (fun _ _ _ hdb _ hc => hdb.change hc) h

theorem Closed.sweepStep (h : Closed k db) (report : SweepReport) (c : String × String) :
    Closed k (sweepStep (db, report) c).1 :=
  (sweepStep_allowed db report c).invariant
    (fun db _ _ hdb hallow hc =>
      have hop : (Op.sweep [c]).NoReopen k db := trivial
      hdb.change hop hallow hc) h

theorem Db.Blocked.sweepStep (h : db.Blocked scope windowId) (report : SweepReport)
    (c : String × String) : (sweepStep (db, report) c).1.Blocked scope windowId := by
  cases hone : db.sweepOneInTx c.1 c.2 report with
  | ok p =>
    simp only [Db.sweepStep, hone]
    unfold Db.Blocked
    rw [(sweepOneInTx_controls hone).blocks]
    exact h
  | error e =>
    obtain ⟨r, -, hblock⟩ := sweepStep_failed hone
    exact h.also hblock

theorem Resolved.sweepStep (h : Resolved k scope windowId db) (report : SweepReport)
    (c : String × String) : Resolved k scope windowId (sweepStep (db, report) c).1 := by
  rcases h with h | h
  · exact .inl (h.sweepStep report c)
  · exact .inr (h.sweepStep report c)

theorem settleOutcomeInTx_closed {b : Bool} (hopen : db.unresolved k.1 k.2 = true)
    (h : db.settleOutcomeInTx k.1 k.2 .unknown false = .ok (db', b)) : Closed k db' := by
  obtain ⟨old, hold, hstate⟩ := unresolved_iff.mp hopen
  rw [settleOutcomeInTx, hold] at h
  simp only [hstate, false_or, Bool.false_eq_true, false_and, if_false, bind_eq_ok, pure_eq_ok, Prod.mk.injEq] at h
  obtain ⟨db₁, hw, rfl, -⟩ := h
  have hkey : old.key = k := Table.find?_key hold
  have hfind := (writeSettlement_spec hw).find? (hkey ▸ hold) k
  rw [if_pos hkey.symm] at hfind
  exact ⟨_, hfind, .inr rfl, rfl⟩

theorem sweepOneInTx_closed {report report' : SweepReport} (h : Awaits k scope windowId db)
    (hone : db.sweepOneInTx k.1 k.2 report = .ok (db', report')) : Closed k db' := by
  have hlog : Awaits k scope windowId (db.sweepLog k.1 k.2) :=
    (sweepLog_trace (P := fun _ _ => True) db k.1 k.2 (fun _ _ _ => trivial)).invariant
      (fun _ _ _ hdb _ hc => hdb.change hc) h
  have hclosed : ∀ db, Awaits k scope windowId db → ¬db.unresolved k.1 k.2 = true → Closed k db := by
    rintro db ⟨⟨r, hfind, -, -⟩, hclear⟩ hopen
    have hsettled : r.meteringStatus.Settled := by
      by_contra hstate
      exact hopen (unresolved_iff.mpr ⟨r, hfind, hstate⟩)
    exact ⟨r, hfind, hsettled, hclear r hfind hsettled⟩
  unfold sweepOneInTx at hone
  split at hone
  · dsimp only at hone
    split at hone
    · rename_i hopen
      simp only [bind_eq_ok, pure_eq_ok, Prod.mk.injEq] at hone
      obtain ⟨⟨db₁, settled⟩, hout, rfl, -⟩ := hone
      exact settleOutcomeInTx_closed hopen hout
    · rename_i hopen
      cases hone
      exact hclosed _ hlog hopen
  · rename_i hopen
    cases hone
    exact hclosed _ h hopen

theorem Awaits.swept (h : Awaits k scope windowId db) (report : SweepReport) :
    Resolved k scope windowId (Db.sweepStep (db, report) k).1 := by
  cases hone : db.sweepOneInTx k.1 k.2 report with
  | ok p =>
    have hclosed : Closed k p.1 := sweepOneInTx_closed h hone
    simp only [Db.sweepStep, hone]
    exact .inl hclosed
  | error e =>
    obtain ⟨r, hfind, hblock⟩ := sweepStep_failed hone
    obtain ⟨⟨r', hfind', rfl, rfl⟩, -⟩ := h
    obtain rfl : r' = r := Option.some.inj (hfind'.symm.trans hfind)
    exact .inr (hblock.blocked (mem_singleton.mpr rfl))

theorem Resolved.sweepBatch (h : Resolved k scope windowId db) (candidates : List (String × String))
    (report : SweepReport) : Resolved k scope windowId (db.sweepBatchInTx candidates report).1 := by
  unfold sweepBatchInTx
  induction candidates generalizing db report with
  | nil => exact h
  | cons c candidates ih =>
    rw [foldl_cons]
    exact ih (h.sweepStep report c) _

theorem Awaits.sweepBatch (h : Awaits k scope windowId db) (candidates : List (String × String))
    (hk : k ∈ candidates) (report : SweepReport) :
    Resolved k scope windowId (db.sweepBatchInTx candidates report).1 := by
  induction candidates generalizing db report with
  | nil => cases hk
  | cons c candidates ih =>
    have hturn := h.sweepStep report c
    rcases mem_cons.mp hk with rfl | hk
    · exact (h.swept report).sweepBatch candidates _
    · exact ih hturn hk _

end

/-! ## Totality and isolation -/

/-- A usage log that cannot be settled leaves the blocks of its request's windows and nothing else. -/
theorem settleUsageLogIsolated_failed {db : Db} {log : UsageLog} {e : QuotaError}
    (h : db.settleLogInTx log false = .error e) :
    BlockedAlso (db.windowsOf log.requestId) db (db.settleUsageLogIsolated log) := by
  rw [settleUsageLogIsolated, h]
  exact (BlockedAlso.refl db).foldl (db.attempts.rows.filter fun r => r.requestId = log.requestId)

/-- After a batch every candidate is closed or its window is blocked. A failed candidate changes
nothing but the block of its window: not in its own turn, and not for the rest of the batch, which ends
as it does without the candidate. A usage log that fails blocks the windows of its request only. -/
theorem sweep_is_total_and_isolated (db : Db) (candidates : List (String × String)) (report : SweepReport) :
    (∀ c ∈ candidates, ∀ r, db.attempt? c.1 c.2 = some r → (r.meteringStatus.Settled → r.pendingRiskPicos = 0) →
        Closed c (db.sweepBatchInTx candidates report).1 ∨
          (db.sweepBatchInTx candidates report).1.Blocked r.scope r.windowId) ∧
    (∀ before c after, candidates = before ++ c :: after →
      ∀ s e, s = db.sweepBatchInTx before report → s.1.sweepOneInTx c.1 c.2 s.2 = .error e →
        ∃ r, s.1.attempt? c.1 c.2 = some r ∧
          BlockedAlso [(r.scope, r.windowId)] s.1 (db.sweepBatchInTx (before ++ [c]) report).1 ∧
          BlockedAlso [(r.scope, r.windowId)] (db.sweepBatchInTx (before ++ after) report).1
            (db.sweepBatchInTx candidates report).1) ∧
    ∀ log e, db.settleLogInTx log false = .error e →
      BlockedAlso (db.windowsOf log.requestId) db (db.settleUsageLogIsolated log) := by
  refine ⟨?_, ?_, fun log e h => settleUsageLogIsolated_failed h⟩
  · intro c hc r hfind hclear
    have hawaits : Awaits c r.scope r.windowId db := by
      refine ⟨⟨r, hfind, rfl, rfl⟩, fun r' hfind' => ?_⟩
      obtain rfl : r = r' := Option.some.inj (hfind.symm.trans hfind')
      exact hclear
    exact hawaits.sweepBatch candidates hc report
  · rintro before c after rfl s e rfl hfail
    obtain ⟨r, hfind, hblock⟩ := sweepStep_failed hfail
    have hturn : db.sweepBatchInTx (before ++ [c]) report = sweepStep (db.sweepBatchInTx before report) c := by
      rw [sweepBatchInTx, foldl_append]
      rfl
    have hwith : db.sweepBatchInTx (before ++ c :: after) report =
        (sweepStep (db.sweepBatchInTx before report) c).1.sweepBatchInTx after
          (sweepStep (db.sweepBatchInTx before report) c).2 := by
      rw [sweepBatchInTx, foldl_append]
      rfl
    have hwithout : db.sweepBatchInTx (before ++ after) report =
        (db.sweepBatchInTx before report).1.sweepBatchInTx after (db.sweepBatchInTx before report).2 := by
      rw [sweepBatchInTx, foldl_append]
      rfl
    refine ⟨r, hfind, ?_, ?_⟩
    · rw [hturn]
      exact hblock
    · rw [hwith, hwithout]
      exact hblock.sweepBatch after _ _

def Sample.reentitled : Scope := { scope with entitlementId := some "entitlement" }

def Sample.retried : Db := run (step hash) empty (opening ++
  [.beginCoverage reentitled 0, .admission (admission "a" 5 100) none,
    .admission { admission "a" 6 100 with attemptId := "2", scope := reentitled } none])

def Sample.conflicting : UsageLog where
  requestId := "a"
  attemptCount := 2
  shareId := some "share"
  userEmail := some "other@example.com"

/-- The log fails for the attempt of the one scope, and the window of the other scope is blocked. -/
theorem failed_usage_log_blocks_another_scope :
    (retried.attempt? "a" (wantedAttempt conflicting)).map AttemptRow.scope = some reentitled ∧
    (retried.settleLogInTx conflicting false).map (fun _ => ()) = .error .usageScopeConflict ∧
    ¬retried.Blocked scope "window" ∧
    (retried.settleUsageLogIsolated conflicting).Blocked scope "window" :=
  ⟨by decide, by decide, by decide, by decide⟩

end CcSwitchServer.ValueQuota
