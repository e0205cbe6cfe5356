import CcSwitchServer.Foundations.Lists
import CcSwitchServer.MarketTermination.Replay

/-! # When a termination can be receipted

A receipt is given to the first call after the cutoff or never.
-/

namespace CcSwitchServer.MarketTermination
open Foundations Sharing Usage List SettlementRow Table Option

/-! ## The archive of one contract -/

def OfContract (shareId entitlementId : String) (row : SettlementRow) : Prop :=
  row.shareId = shareId ∧ row.entitlementId = entitlementId

instance (shareId entitlementId : String) : DecidablePred (OfContract shareId entitlementId) :=
  fun row => inferInstanceAs (Decidable (row.shareId = shareId ∧ row.entitlementId = entitlementId))

variable (db : Db)

def unfinished (shareId entitlementId : String) : List SettlementRow :=
  db.requests.rows.filter fun row =>
    OfContract shareId entitlementId row ∧ row.finalState ≠ .final

def usageLog (requestId : String) : Option UsageLog :=
  (db.ledger.usageRecords.find? requestId).bind ValueQuota.UsageRecordRow.payload

/-- The records are written from their logs: same request, same revision, an SQL integer. -/
def UsageWritten : Prop :=
  ∀ record ∈ db.ledger.usageRecords.rows, (record.usageRevision : ℤ) ≤ i64Max ∧
    ∀ log ∈ record.payload, log.requestId = record.requestId ∧ log.usageRevision = record.usageRevision

/-- The usage record of the archived revision is final and agrees with the admission. -/
def FinalUsage (row : SettlementRow) : Prop :=
  ∃ log, usageLog db row.requestId = some log ∧ log.usageRevision = row.revision ∧
    1 ≤ row.revision ∧ finalStateOf log = .final ∧ checkFinal log (some row) = .ok ()

def finished (row : SettlementRow) : SettlementRow :=
  match usageLog db row.requestId with
  | some log => row.finalize log
  | none => row

def drained (row : SettlementRow) : SettlementRow :=
  if row.finalState = .final then row else finished db row

/-- What a receipt needs besides final usage. -/
structure Settleable (db : Db) (shareId : String) (op : ShareManagedGrantOperation)
    (fence : TerminationFence) : Prop where
  fence_eq : op.termination = some fence
  revoke : op.action = .revoke
  fresh : db.receipts.find? op.operationId = none
  covered : db.sinceMs ≤ fence.periodStartMs ∧ fence.periodStartMs ≤ fence.cutoffAtMs ∧
    fence.cutoffAtMs ≤ fence.periodEndMs
  revoked : ∃ share, db.shares.find? (fun share => share.id = shareId) = some share ∧
    ¬EntitlementActive share op.entitlementId
  owner : ∀ row ∈ db.requests.rows, OfContract shareId op.entitlementId row →
    Text.eqIgnoreAsciiCase row.email op.email = true
  priced : ∀ row ∈ db.requests.rows, IsPaid shareId op.entitlementId row →
    row.startedAtMs < fence.cutoffAtMs → ∃ amount, requestAmount db.ledger fence (drained db row) = .ok amount
  placed : ∀ row ∈ db.requests.rows, IsPaid shareId op.entitlementId row →
    fence.periodStartMs ≤ row.startedAtMs → row.startedAtMs < fence.cutoffAtMs →
      ∃ key, windowKey fence row.startedAtMs = .ok key
  range : (paidUsage db.ledger fence.policy.valueQuota.isSome shareId op.entitlementId db.requests.rows
    fun t => t < fence.cutoffAtMs) ≤ i128Max

/-- Some finite number of calls, each a transaction of its own, and then one that returns the receipt. -/
def Answers (shareId : String) (op : ShareManagedGrantOperation) : Prop :=
  ∃ (times : List ℤ) (now : ℤ) (receipt : TerminationReceipt) (db' : Db),
    receiptIn (run step db (times.map fun t => .receipt shareId op t)) shareId op now = .ok (receipt, db')

section
variable {db db' : Db} {shareId : String} {op : ShareManagedGrantOperation} {fence : TerminationFence}
  {receipt : TerminationReceipt}

theorem answers_iff_once : Answers db shareId op ↔
    ∃ now receipt db', receiptIn db shareId op now = .ok (receipt, db') := by
  constructor
  · rintro ⟨times, now, receipt, db', h⟩
    induction times generalizing db with
    | nil => exact ⟨now, receipt, db', h⟩
    | cons t times ih =>
      rw [map_cons, run_cons] at h
      cases hfirst : receiptIn db shareId op t with
      | ok r => exact ⟨t, r.1, r.2, hfirst⟩
      | error e =>
        have hrolled : step db (.receipt shareId op t) = db := by
          refine commit_error (e := e) ?_
          show (receiptIn db shareId op t >>= fun r => pure r.2) = _
          rw [hfirst]
          rfl
        rw [hrolled] at h
        exact ih h
  · rintro ⟨now, receipt, db', h⟩
    exact ⟨[], now, receipt, db', h⟩

end

/-! ## The batch -/

section
variable {db : Db} {shareId entitlementId : String} {log : UsageLog} {row row' : SettlementRow}
  {requests requests' : Table SettlementRow String requestId}

/-- The same admission, whatever its final state. -/
structure SameAdmission (row row' : SettlementRow) : Prop where
  requestId : row'.requestId = row.requestId
  shareId : row'.shareId = row.shareId
  entitlementId : row'.entitlementId = row.entitlementId
  email : row'.email = row.email
  revision : row'.revision = row.revision
  tokens : row'.tokens = row.tokens

theorem SameAdmission.refl (row : SettlementRow) : SameAdmission row row := ⟨rfl, rfl, rfl, rfl, rfl, rfl⟩

theorem SameAdmission.trans {row'' : SettlementRow} (h : SameAdmission row row')
    (h' : SameAdmission row' row'') : SameAdmission row row'' :=
  ⟨h'.requestId.trans h.requestId, h'.shareId.trans h.shareId, h'.entitlementId.trans h.entitlementId,
    h'.email.trans h.email, h'.revision.trans h.revision, h'.tokens.trans h.tokens⟩

theorem SameAdmission.finalize (h : SameAdmission row row') (log : UsageLog) :
    SameAdmission row (row'.finalize log) := by
  unfold SettlementRow.finalize
  split
  · exact ⟨h.requestId, h.shareId, h.entitlementId, h.email, h.revision, h.tokens⟩
  · exact h

theorem SameAdmission.checkFinal (h : SameAdmission row row') (log : UsageLog) :
    checkFinal log (some row') = checkFinal log (some row) := by
  unfold MarketTermination.checkFinal
  dsimp only
  rw [h.shareId, h.email, h.revision, h.tokens]

theorem finalizeLog_ok (h : finalizeLog requests log = .ok requests') :
    checkFinal log (requests.find? log.requestId) = .ok () ∧
      requests' = requests.modify log.requestId (·.finalize log) (requestId_finalize log) := by
  obtain ⟨_, hcheck, h⟩ := bind_eq_ok.mp h
  obtain ⟨_, -, h⟩ := bind_eq_ok.mp h
  cases h
  exact ⟨hcheck, rfl⟩

theorem recover_final {payloads : List (Option UsageLog)}
    (h : payloads.foldlM recoverLog requests = .ok requests') {id : String}
    (hrow : requests.find? id = some row) (hrow' : requests'.find? id = some row')
    (hfinal : row'.finalState = .final) (hopen : row.finalState ≠ .final) :
    ∃ log, some log ∈ payloads ∧ log.requestId = id ∧ max log.usageRevision 1 = row.revision ∧
      finalStateOf log = .final ∧ checkFinal log (some row) = .ok () := by
  induction payloads generalizing requests row with
  | nil =>
    cases h
    rw [hrow] at hrow'
    cases hrow'
    exact absurd hfinal hopen
  | cons payload payloads ih =>
    rw [foldlM_cons] at h
    obtain ⟨next, hnext, h⟩ := bind_eq_ok.mp h
    obtain ⟨log, hpayload, hlog⟩ := bind_eq_ok.mp hnext
    obtain rfl := context_eq_ok.mp hpayload
    obtain ⟨hcheck, rfl⟩ := finalizeLog_ok hlog
    by_cases hid : id = log.requestId
    · subst hid
      rw [hrow] at hcheck
      have hself := find?_modify_self hrow (·.finalize log) (requestId_finalize log)
      by_cases hdone : (row.finalize log).finalState = .final
      · have hrevision : row.revision = max log.usageRevision 1 := by
          by_contra hne
          unfold finalize at hdone
          rw [if_neg hne] at hdone
          exact hopen hdone
        have hstate : finalStateOf log = .final := by
          unfold finalize at hdone
          rw [if_pos hrevision] at hdone
          exact hdone
        exact ⟨log, mem_cons_self, rfl, hrevision.symm, hstate, hcheck⟩
      · obtain ⟨log', hmem, hid, hrevision, hstate, hcheck'⟩ := ih h hself hdone
        have hsame := (SameAdmission.refl row).finalize log
        rw [hsame.revision] at hrevision
        rw [hsame.checkFinal] at hcheck'
        exact ⟨log', mem_cons_of_mem _ hmem, hid, hrevision, hstate, hcheck'⟩
    · have hother := find?_modify_of_ne (t := requests) hid (·.finalize log) (requestId_finalize log)
      rw [hrow] at hother
      obtain ⟨log', hmem, hrest⟩ := ih h hother hopen
      exact ⟨log', mem_cons_of_mem _ hmem, hrest⟩

theorem recover_kept {payloads : List (Option UsageLog)}
    (h : payloads.foldlM recoverLog requests = .ok requests') {id : String} (hrow : requests.find? id = some row) :
    ∃ row', requests'.find? id = some row' ∧ SameAdmission row row' := by
  induction payloads generalizing requests row with
  | nil =>
    cases h
    exact ⟨row, hrow, .refl row⟩
  | cons payload payloads ih =>
    rw [foldlM_cons] at h
    obtain ⟨next, hnext, h⟩ := bind_eq_ok.mp h
    obtain ⟨log, -, hlog⟩ := bind_eq_ok.mp hnext
    obtain ⟨-, rfl⟩ := finalizeLog_ok hlog
    by_cases hid : id = log.requestId
    · subst hid
      obtain ⟨row', hrow', hsame⟩ := ih h (find?_modify_self hrow (·.finalize log) (requestId_finalize log))
      have hfirst := (SameAdmission.refl row).finalize log
      exact ⟨row', hrow', hfirst.trans hsame⟩
    · refine ih h ?_
      rw [find?_modify_of_ne hid, hrow]

theorem settleRows_final {ledger : ValueQuota.Db} {op : ShareManagedGrantOperation}
    {fence : TerminationFence} {rows : List SettlementRow} {s s' : Settling}
    (h : rows.foldlM (settleRow ledger op fence) s = .ok s') : ∀ row ∈ rows, row.finalState = .final := by
  induction rows generalizing s with
  | nil => exact fun _ hrow => absurd hrow not_mem_nil
  | cons row rows ih =>
    rw [foldlM_cons] at h
    obtain ⟨next, hnext, h⟩ := bind_eq_ok.mp h
    intro row' hrow'
    obtain rfl | hrow' := mem_cons.mp hrow'
    · unfold settleRow at hnext
      obtain ⟨-, -, hnext⟩ := bind_eq_ok.mp hnext
      obtain ⟨_, hfinal, -⟩ := bind_eq_ok.mp hnext
      exact ensure_eq_ok.mp hfinal
    · exact ih h row' hrow'

theorem mem_recoverable {log : UsageLog} (h : some log ∈ recoverable db shareId entitlementId) :
    ∃ row ∈ unfinished db shareId entitlementId, ∃ record,
      db.ledger.usageRecords.find? row.requestId = some record ∧ record.usageRevision = row.revision ∧
      record.payload = some log := by
  obtain ⟨row, hrow, hpayload⟩ := mem_filterMap.mp (mem_of_mem_take h)
  split at hpayload
  · rename_i hopen
    split at hpayload
    · rename_i record hrecord
      split at hpayload
      · rename_i hrevision
        refine ⟨row, mem_filter.mpr ⟨hrow, decide_eq_true ⟨⟨hopen.1, hopen.2.1⟩, hopen.2.2⟩⟩, record,
          hrecord, hrevision, some.inj hpayload⟩
      · cases hpayload
    · cases hpayload
  · cases hpayload

theorem drained_of_settle {op : ShareManagedGrantOperation} {fence : TerminationFence} {now : ℤ}
    {receipt : TerminationReceipt} {db' : Db} (hwritten : UsageWritten db)
    (h : settle db shareId op fence now = .ok (receipt, db')) :
    (∀ row ∈ unfinished db shareId op.entitlementId, FinalUsage db row) ∧
      (unfinished db shareId op.entitlementId).length ≤ 256 := by
  obtain ⟨-, -, -, -, -, -, requests, s, hrequests, hs, -⟩ := settle_ok h
  have hfinal : ∀ row ∈ requests.rows, OfContract shareId op.entitlementId row → row.finalState = .final := by
    intro row hrow hcontract
    have hmem : row ∈ archivedRows requests shareId op.entitlementId :=
      (perm_insertionSort _ _).mem_iff.mpr (mem_filter.mpr ⟨hrow, decide_eq_true hcontract⟩)
    exact settleRows_final hs row hmem
  have hlogs : ∀ row ∈ unfinished db shareId op.entitlementId, ∃ log,
      some log ∈ recoverable db shareId op.entitlementId ∧ log.requestId = row.requestId ∧
      max log.usageRevision 1 = row.revision ∧ finalStateOf log = .final ∧
      checkFinal log (some row) = .ok () := by
    intro row hrow
    obtain ⟨hrow, hopen⟩ := mem_filter.mp hrow
    obtain ⟨hcontract, hopen⟩ := of_decide_eq_true hopen
    have hfind := find?_of_mem hrow
    obtain ⟨row', hfind', hsame⟩ := recover_kept hrequests hfind
    refine recover_final hrequests hfind hfind' (hfinal row' (find?_mem hfind') ?_) hopen
    exact ⟨hsame.shareId.trans hcontract.1, hsame.entitlementId.trans hcontract.2⟩
  refine ⟨fun row hrow => ?_, ?_⟩
  · obtain ⟨log, hmem, hid, hrevision, hstate, hcheck⟩ := hlogs row hrow
    obtain ⟨row', hopen, record, hrecord, hrecordRevision, hpayload⟩ := mem_recoverable hmem
    obtain ⟨-, hlog⟩ := hwritten record (find?_mem hrecord)
    obtain ⟨hrequest, hrev⟩ := hlog log hpayload
    have hrow' : row'.requestId = row.requestId := by
      rw [← hid, hrequest]
      exact (find?_key hrecord).symm
    have hunique : row' = row := by
      have hother := find?_of_mem (mem_of_mem_filter hopen)
      rw [hrow', find?_of_mem (mem_of_mem_filter hrow)] at hother
      exact (some.inj hother).symm
    subst hunique
    have hlogRevision := hrev.trans hrecordRevision
    refine ⟨log, ?_, hlogRevision, ?_, hstate, hcheck⟩
    · unfold usageLog
      rw [hrecord, bind_some, hpayload]
    · omega
  · have hnodup : ((unfinished db shareId op.entitlementId).map requestId).Nodup :=
      (filter_sublist.map _).nodup db.requests.nodup
    have hsub : (unfinished db shareId op.entitlementId).map requestId ⊆
        (recoverable db shareId op.entitlementId).filterMap fun payload =>
          payload.map UsageLog.requestId := by
      intro id hid
      obtain ⟨row, hrow, rfl⟩ := mem_map.mp hid
      obtain ⟨log, hmem, hlog, -⟩ := hlogs row hrow
      exact mem_filterMap.mpr ⟨some log, hmem, by rw [map_some, hlog]⟩
    have hlength := (hnodup.subperm hsub).length_le
    rw [length_map] at hlength
    have hbatch : (recoverable db shareId op.entitlementId).length ≤ 256 := length_take_le _ _
    exact hlength.trans ((length_filterMap_le _ _).trans hbatch)

end

/-! ## Draining in one batch -/

section
variable {db : Db} {shareId : String} {op : ShareManagedGrantOperation} {fence : TerminationFence}
  {row : SettlementRow} {requests requests' : Table SettlementRow String requestId}

theorem finished_of_log {log : UsageLog} (h : usageLog db row.requestId = some log) :
    finished db row = row.finalize log := by
  unfold finished
  rw [h]

theorem finished_final (h : FinalUsage db row) : (finished db row).finalState = .final := by
  obtain ⟨log, hlog, hrevision, hpos, hstate, -⟩ := h
  rw [finished_of_log hlog]
  unfold finalize
  rw [if_pos (by omega)]
  exact hstate

theorem drained_final (h : row.finalState = .final ∨ FinalUsage db row) : (drained db row).finalState = .final := by
  unfold drained
  split
  · assumption
  · rename_i hopen
    exact finished_final (h.resolve_left hopen)

theorem drained_same (db : Db) (row : SettlementRow) : SameAdmission row (drained db row) ∧
    (drained db row).phase = row.phase ∧ (drained db row).startedAtMs = row.startedAtMs := by
  unfold drained
  split
  · exact ⟨.refl row, rfl, rfl⟩
  · unfold finished
    split
    · refine ⟨(SameAdmission.refl row).finalize _, ?_, ?_⟩
      · unfold finalize
        split <;> rfl
      · unfold finalize
        split <;> rfl
    · exact ⟨.refl row, rfl, rfl⟩

theorem finalizeLog_passes {log : UsageLog} (hcheck : checkFinal log (requests.find? log.requestId) = .ok ())
    (hrange : ((max log.usageRevision 1 : ℕ) : ℤ) ≤ i64Max) : finalizeLog requests log =
      .ok (requests.modify log.requestId (·.finalize log) (requestId_finalize log)) := by
  unfold finalizeLog toSqlU64
  rw [hcheck, ok_bind, ensure_of hrange]
  rfl

theorem recover_finishes (hwritten : UsageWritten db) {rows : List SettlementRow}
    (hnodup : (rows.map requestId).Nodup) (hfinal : ∀ row ∈ rows, FinalUsage db row)
    (hrows : ∀ row ∈ rows, requests.find? row.requestId = some row) :
    ∃ requests', (rows.map fun row => usageLog db row.requestId).foldlM recoverLog requests = .ok requests' ∧
      ∀ id, requests'.find? id = (requests.find? id).map fun row =>
        if id ∈ rows.map requestId then finished db row else row := by
  induction rows generalizing requests with
  | nil =>
    refine ⟨requests, rfl, fun id => ?_⟩
    simp
  | cons row rows ih =>
    rw [map_cons, nodup_cons] at hnodup
    obtain ⟨log, hlog, hrevision, hpos, hstate, hcheck⟩ := hfinal row mem_cons_self
    have hrow := hrows row mem_cons_self
    have hrecord : ∃ record, db.ledger.usageRecords.find? row.requestId = some record ∧
        record.payload = some log := bind_eq_some_iff.mp hlog
    obtain ⟨record, hrecord, hpayload⟩ := hrecord
    obtain ⟨hrange, hsame⟩ := hwritten record (find?_mem hrecord)
    obtain ⟨hid, hrev⟩ := hsame log hpayload
    have hid : log.requestId = row.requestId := hid.trans (find?_key hrecord)
    have hpasses : finalizeLog requests log = .ok (requests.modify log.requestId (·.finalize log)
        (requestId_finalize log)) := by
      refine finalizeLog_passes ?_ ?_
      · rw [hid, hrow]
        exact hcheck
      · omega
    obtain ⟨requests', hfold, hfound⟩ := ih hnodup.2
      (fun row' hrow' => hfinal row' (mem_cons_of_mem _ hrow')) (fun row' hrow' => by
        have hne : row'.requestId ≠ log.requestId := by
          rw [hid]
          exact fun heq => hnodup.1 (heq ▸ mem_map_of_mem hrow')
        rw [find?_modify_of_ne hne]
        exact hrows row' (mem_cons_of_mem _ hrow'))
    refine ⟨requests', ?_, fun id => ?_⟩
    · rw [map_cons, hlog, foldlM_cons]
      have hfirst : recoverLog requests (some log) = finalizeLog requests log := rfl
      rw [hfirst, hpasses, ok_bind]
      exact hfold
    · rw [hfound, find?_modify, hid]
      by_cases heq : id = row.requestId
      · subst heq
        rw [if_pos rfl, hrow, map_some, map_some, map_some, if_neg hnodup.1, if_pos (by simp), finished_of_log hlog]
      · rw [if_neg heq]
        have hiff : id ∈ (row :: rows).map requestId ↔ id ∈ rows.map requestId := by
          rw [map_cons, mem_cons]
          exact ⟨fun h => h.resolve_left heq, .inr⟩
        simp only [hiff]

theorem recoverable_eq (hwritten : UsageWritten db)
    (hfinal : ∀ row ∈ unfinished db shareId op.entitlementId, FinalUsage db row)
    (hbatch : (unfinished db shareId op.entitlementId).length ≤ 256) :
    recoverable db shareId op.entitlementId =
      (unfinished db shareId op.entitlementId).map fun row => usageLog db row.requestId := by
  unfold recoverable
  refine (congrArg (take 256) (filterMap_eq_map_filter
    (p := fun row => decide (OfContract shareId op.entitlementId row ∧ row.finalState ≠ .final))
    (g := fun row => usageLog db row.requestId) (fun row hrow hp => ?_) fun row hrow hp => ?_)).trans ?_
  · obtain ⟨hcontract, hopen⟩ := of_decide_eq_true hp
    obtain ⟨log, hlog, hrevision, -⟩ := hfinal row (mem_filter.mpr ⟨hrow, hp⟩)
    have hrecord : ∃ record, db.ledger.usageRecords.find? row.requestId = some record ∧
        record.payload = some log := bind_eq_some_iff.mp hlog
    obtain ⟨record, hrecord, hpayload⟩ := hrecord
    have hrev := ((hwritten record (find?_mem hrecord)).2 log hpayload).2
    rw [if_pos ⟨hcontract.1, hcontract.2, hopen⟩, hrecord, hlog, ← hpayload]
    exact if_pos (hrev.symm.trans hrevision)
  · refine if_neg fun hopen => ?_
    rw [decide_eq_false_iff_not] at hp
    exact hp ⟨⟨hopen.1, hopen.2.1⟩, hopen.2.2⟩
  · refine take_of_length_le ?_
    rw [length_map]
    exact hbatch

/-- One batch makes everything final, if it holds all that are not. -/
theorem recover_drains (hwritten : UsageWritten db)
    (hfinal : ∀ row ∈ unfinished db shareId op.entitlementId, FinalUsage db row)
    (hbatch : (unfinished db shareId op.entitlementId).length ≤ 256) :
    ∃ requests', (recoverable db shareId op.entitlementId).foldlM recoverLog db.requests = .ok requests' ∧
      ∀ row' ∈ requests'.rows, OfContract shareId op.entitlementId row' →
        ∃ row ∈ db.requests.rows, OfContract shareId op.entitlementId row ∧ row' = drained db row := by
  have hnodup : ((unfinished db shareId op.entitlementId).map requestId).Nodup :=
    (filter_sublist.map _).nodup db.requests.nodup
  have hrows : ∀ row ∈ unfinished db shareId op.entitlementId, db.requests.find? row.requestId = some row :=
    fun row hrow => find?_of_mem (mem_of_mem_filter hrow)
  obtain ⟨requests', hfold, hfound⟩ := recover_finishes hwritten hnodup hfinal hrows
  rw [recoverable_eq hwritten hfinal hbatch]
  refine ⟨requests', hfold, fun row' hrow' hcontract' => ?_⟩
  have hfind := hfound row'.requestId
  rw [find?_of_mem hrow'] at hfind
  obtain ⟨row, hrow, heq⟩ := map_eq_some_iff.mp hfind.symm
  have hid := find?_key hrow
  by_cases hopen : row'.requestId ∈ (unfinished db shareId op.entitlementId).map requestId
  · rw [if_pos hopen] at heq
    obtain ⟨row'', hrow'', hid''⟩ := mem_map.mp hopen
    have hsame := hrows row'' hrow''
    rw [hid'', hrow] at hsame
    obtain rfl := some.inj hsame
    obtain ⟨hcontract, hnotFinal⟩ := of_decide_eq_true (mem_filter.mp hrow'').2
    refine ⟨row, find?_mem hrow, hcontract, ?_⟩
    unfold drained
    rw [if_neg hnotFinal, heq]
  · rw [if_neg hopen] at heq
    subst heq
    refine ⟨row, find?_mem hrow, hcontract', ?_⟩
    have hdone : row.finalState = .final := by
      by_contra hnotFinal
      have hmem : row ∈ unfinished db shareId op.entitlementId :=
        mem_filter.mpr ⟨find?_mem hrow, decide_eq_true ⟨hcontract', hnotFinal⟩⟩
      exact hopen (mem_map_of_mem hmem)
    unfold drained
    rw [if_pos hdone]

/-! ## The sum of final requests -/

theorem get?_le_sum (m : OrderedMap (ℤ ×ₗ ℤ) ℕ) (key : ℤ ×ₗ ℤ) : (m.get? key).getD 0 ≤ m.values.sum := by
  cases hkey : m.get? key with
  | none => exact Nat.zero_le _
  | some used => exact le_sum_of_mem (OrderedMap.mem_values_iff.mpr ⟨key, hkey⟩)

theorem settleRow_ok {ledger : ValueQuota.Db} (hend : fence.cutoffAtMs ≤ fence.periodEndMs)
    (howner : Text.eqIgnoreAsciiCase row.email op.email = true) (hfinal : row.finalState = .final)
    (hpriced : row.phase = .paid → row.startedAtMs < fence.cutoffAtMs →
      ∃ amount, requestAmount ledger fence row = .ok amount)
    (hplaced : row.phase = .paid → fence.periodStartMs ≤ row.startedAtMs →
      row.startedAtMs < fence.cutoffAtMs → ∃ key, windowKey fence row.startedAtMs = .ok key)
    {s : Settling} (hrange : row.phase = .paid → row.startedAtMs < fence.cutoffAtMs →
      s.before + s.windows.values.sum + amountOf ledger fence.policy.valueQuota.isSome row ≤ i128Max) :
    ∃ s', settleRow ledger op fence s row = .ok s' := by
  unfold settleRow
  rw [ensure_of howner, ok_bind, ensure_of hfinal, ok_bind]
  split
  · exact ⟨s, rfl⟩
  · rename_i hcounted
    rw [not_or, not_not, not_le] at hcounted
    obtain ⟨hpaid, hcutoff⟩ := hcounted
    obtain ⟨amount, hamount⟩ := hpriced hpaid hcutoff
    have hsum := hrange hpaid hcutoff
    rw [requestAmount_eq hamount] at hsum
    rw [hamount, ok_bind]
    split
    · have hadd : checkedAdd s.before amount = some (s.before + amount) := checkedAdd_eq_some.mpr ⟨by omega, rfl⟩
      rw [hadd]
      exact ⟨_, rfl⟩
    · rename_i hstart
      rw [if_neg (by omega)]
      obtain ⟨key, hkey⟩ := hplaced hpaid (not_lt.mp hstart) hcutoff
      have hle := get?_le_sum s.windows key
      have hadd : checkedAdd ((s.windows.get? key).getD 0) amount =
          some ((s.windows.get? key).getD 0 + amount) := checkedAdd_eq_some.mpr ⟨by omega, rfl⟩
      rw [hkey, ok_bind, hadd]
      exact ⟨_, rfl⟩

theorem settleRows_ok {ledger : ValueQuota.Db} (hperiod : fence.periodStartMs ≤ fence.cutoffAtMs)
    (hend : fence.cutoffAtMs ≤ fence.periodEndMs) {rows : List SettlementRow}
    (hrows : ∀ row ∈ rows, OfContract shareId op.entitlementId row)
    (howner : ∀ row ∈ rows, Text.eqIgnoreAsciiCase row.email op.email = true)
    (hfinal : ∀ row ∈ rows, row.finalState = .final)
    (hpriced : ∀ row ∈ rows, row.phase = .paid → row.startedAtMs < fence.cutoffAtMs →
      ∃ amount, requestAmount ledger fence row = .ok amount)
    (hplaced : ∀ row ∈ rows, row.phase = .paid → fence.periodStartMs ≤ row.startedAtMs →
      row.startedAtMs < fence.cutoffAtMs → ∃ key, windowKey fence row.startedAtMs = .ok key)
    {s : Settling} (hrange : s.before + s.windows.values.sum +
      (paidUsage ledger fence.policy.valueQuota.isSome shareId op.entitlementId rows fun t =>
        t < fence.cutoffAtMs) ≤ i128Max) :
    ∃ s', rows.foldlM (settleRow ledger op fence) s = .ok s' := by
  induction rows generalizing s with
  | nil => exact ⟨s, rfl⟩
  | cons row rows ih =>
    have hself := mem_cons_self (a := row) (l := rows)
    rw [paidUsage_cons] at hrange
    obtain ⟨s', hs'⟩ := settleRow_ok (s := s) hend (howner row hself) (hfinal row hself)
      (hpriced row hself) (hplaced row hself) fun hpaid hcutoff => by
        rw [if_pos ⟨⟨(hrows row hself).1, (hrows row hself).2, hpaid⟩, hcutoff⟩] at hrange
        omega
    have hcounted := (settleRow_counted hend hs').summed hperiod (hrows row hself)
    have htotal : s'.before + s'.windows.values.sum = s.before + s.windows.values.sum +
        (paidUsage ledger fence.policy.valueQuota.isSome shareId op.entitlementId [row] fun t =>
          t < fence.cutoffAtMs) := by
      rw [hcounted.before, hcounted.total,
        paidUsage_split (P := fun t => t < fence.cutoffAtMs) (Q := fun t => t < fence.periodStartMs)]
      have hbefore : (paidUsage ledger fence.policy.valueQuota.isSome shareId op.entitlementId [row]
          fun t => t < fence.periodStartMs) =
          paidUsage ledger fence.policy.valueQuota.isSome shareId op.entitlementId [row] fun t =>
            t < fence.cutoffAtMs ∧ t < fence.periodStartMs := by
        apply paidUsage_congr
        intro row' _ _
        omega
      have hafter : (paidUsage ledger fence.policy.valueQuota.isSome shareId op.entitlementId [row]
          fun t => fence.periodStartMs ≤ t ∧ t < fence.cutoffAtMs) =
          paidUsage ledger fence.policy.valueQuota.isSome shareId op.entitlementId [row] fun t =>
            t < fence.cutoffAtMs ∧ ¬t < fence.periodStartMs := by
        apply paidUsage_congr
        intro row' _ _
        omega
      rw [hbefore, hafter]
      omega
    have hone : (paidUsage ledger fence.policy.valueQuota.isSome shareId op.entitlementId [row] fun t =>
        t < fence.cutoffAtMs) =
        if IsPaid shareId op.entitlementId row ∧ row.startedAtMs < fence.cutoffAtMs then
          amountOf ledger fence.policy.valueQuota.isSome row else 0 := by
      rw [paidUsage_cons]
      exact Nat.add_zero _
    rw [foldlM_cons, hs', ok_bind]
    refine ih (fun r hr => hrows r (mem_cons_of_mem _ hr))
      (fun r hr => howner r (mem_cons_of_mem _ hr))
      (fun r hr => hfinal r (mem_cons_of_mem _ hr))
      (fun r hr => hpriced r (mem_cons_of_mem _ hr))
      (fun r hr => hplaced r (mem_cons_of_mem _ hr)) ?_
    rw [htotal, hone]
    omega

/-- The refusal rolls the batch back, so the next call starts from the same archive. -/
theorem receiptIn_answers (hwritten : UsageWritten db) (hready : Settleable db shareId op fence)
    (hfinal : ∀ row ∈ unfinished db shareId op.entitlementId, FinalUsage db row)
    (hbatch : (unfinished db shareId op.entitlementId).length ≤ 256) {now : ℤ}
    (hnow : fence.cutoffAtMs ≤ now) : ∃ receipt db', receiptIn db shareId op now = .ok (receipt, db') := by
  obtain ⟨share, hshare, hrevoked⟩ := hready.revoked
  obtain ⟨requests, hrequests, hdrained⟩ := recover_drains hwritten hfinal hbatch
  have hrow : ∀ row' ∈ archivedRows requests shareId op.entitlementId,
      OfContract shareId op.entitlementId row' ∧
        ∃ row ∈ db.requests.rows, OfContract shareId op.entitlementId row ∧ row' = drained db row := by
    intro row' hrow'
    have hmem := mem_filter.mp ((perm_insertionSort _ _).mem_iff.mp hrow')
    have hcontract : OfContract shareId op.entitlementId row' := of_decide_eq_true hmem.2
    exact ⟨hcontract, hdrained row' hmem.1 hcontract⟩
  have hrange : (paidUsage db.ledger fence.policy.valueQuota.isSome shareId op.entitlementId
      (archivedRows requests shareId op.entitlementId) fun t => t < fence.cutoffAtMs) ≤ i128Max := by
    refine le_trans (le_of_eq ?_) hready.range
    rw [← recover_paidUsage hrequests, ← paidUsage_filter requests.rows]
    exact paidUsage_perm (perm_insertionSort _ _)
  obtain ⟨s, hs⟩ : ∃ s, (archivedRows requests shareId op.entitlementId).foldlM
      (settleRow db.ledger op fence) { requests := requests } = .ok s := by
    refine settleRows_ok hready.covered.2.1 hready.covered.2.2 (fun row' hrow' => (hrow row' hrow').1)
      (fun row' hrow' => ?_) (fun row' hrow' => ?_) (fun row' hrow' hpaid hcutoff => ?_)
      (fun row' hrow' hpaid hstart hcutoff => ?_) ((Nat.zero_add _).le.trans hrange)
    all_goals obtain ⟨-, row, hmem, hcontract, rfl⟩ := hrow row' hrow'
    all_goals obtain ⟨hsame, hphase, hstarted⟩ := drained_same db row
    · rw [hsame.email]
      exact hready.owner row hmem hcontract
    · refine drained_final ?_
      by_cases hopen : row.finalState = .final
      · exact .inl hopen
      · exact .inr (hfinal row (mem_filter.mpr ⟨hmem, decide_eq_true ⟨hcontract, hopen⟩⟩))
    · rw [hphase] at hpaid
      rw [hstarted] at hcutoff
      exact hready.priced row hmem ⟨hcontract.1, hcontract.2, hpaid⟩ hcutoff
    · rw [hphase] at hpaid
      rw [hstarted] at hstart hcutoff ⊢
      exact hready.placed row hmem ⟨hcontract.1, hcontract.2, hpaid⟩ hstart hcutoff
  unfold receiptIn settle
  rw [hready.fence_eq]
  have hinsert : ∀ receipt : TerminationReceipt, receipt.operationId = op.operationId →
      db.receipts.find? receipt.operationId = none := fun receipt hid => hid ▸ hready.fresh
  show ∃ receipt db', (ensure _ _ >>= _) = _
  rw [ensure_of hnow, ok_bind, ensure_of hready.revoke, ok_bind, hready.fresh]
  dsimp only
  rw [ensure_of hready.covered, ok_bind, hshare]
  show ∃ receipt db', (ensure _ _ >>= _) = _
  rw [ensure_of hrevoked, ok_bind, hrequests, ok_bind, hs, ok_bind]
  unfold tryInsert
  rw [dif_pos hready.fresh]
  exact ⟨_, _, rfl⟩

end

/-! ## The result -/

/-- Repeated calls come to a receipt exactly if the contract's requests that are not final all have their
final usage records and fit in one batch. -/
theorem termination_receipted_iff {db : Db} (hwritten : UsageWritten db) {shareId : String}
    {op : ShareManagedGrantOperation} {fence : TerminationFence} (hready : Settleable db shareId op fence) :
    Answers db shareId op ↔
      (∀ row ∈ unfinished db shareId op.entitlementId, FinalUsage db row) ∧
        (unfinished db shareId op.entitlementId).length ≤ 256 := by
  rw [answers_iff_once]
  constructor
  · rintro ⟨now, receipt, db', h⟩
    obtain ⟨fence', -, -, -, ⟨hstored, -⟩ | ⟨-, hsettle⟩⟩ := receiptIn_cases h
    · rw [hready.fresh] at hstored
      cases hstored
    · exact drained_of_settle hwritten hsettle
  · rintro ⟨hfinal, hbatch⟩
    exact ⟨fence.cutoffAtMs, receiptIn_answers hwritten hready hfinal hbatch (le_refl _)⟩

/-! ## Contracts of any size -/

def burstId (i : ℕ) : String := String.ofList (replicate i 'r')

def burstRow (i : ℕ) : SettlementRow :=
  { requestId := burstId i, shareId := "share", entitlementId := "entitlement",
    email := "user@example.test", phase := .paid, startedAtMs := 200, revision := 1, tokens := 1,
    valuePicos := "0" }

theorem burstId_inj {i j : ℕ} (h : burstId i = burstId j) : i = j := by
  have hlength := congrArg (fun s => s.toList.length) h
  simpa [burstId] using hlength

/-- Admissions that were imported after their usage had been committed. -/
def burstDb (n : ℕ) : Db where
  requests := ⟨(List.range n).map burstRow, by
    rw [List.map_map]
    exact nodup_range.map fun _ _ h => burstId_inj h⟩
  receipts := empty
  sinceMs := 0
  shares := [{ id := "share" }]
  ledger := { ValueQuota.Db.empty with
    usageRecords := ⟨(List.range n).map fun i => ⟨burstId i, 1, some (finalLog (burstId i) 1)⟩, by
      rw [List.map_map]
      exact nodup_range.map fun _ _ h => burstId_inj h⟩ }

def burstFence : TerminationFence := ⟨"termination", 500, 100, 1000, { tokenLimit := some 100 }⟩

theorem burst_written (n : ℕ) : UsageWritten (burstDb n) := by
  intro record hrecord
  obtain ⟨i, -, rfl⟩ := mem_map.mp hrecord
  refine ⟨?_, fun log hlog => ?_⟩
  · show ((1 : ℕ) : ℤ) ≤ i64Max
    decide
  · cases hlog
    exact ⟨rfl, rfl⟩

theorem burst_final (n : ℕ) : ∀ row ∈ (burstDb n).requests.rows, FinalUsage (burstDb n) row := by
  intro row hrow
  obtain ⟨i, hi, rfl⟩ := mem_map.mp hrow
  have hmem : (⟨burstId i, 1, some (finalLog (burstId i) 1)⟩ : ValueQuota.UsageRecordRow) ∈
      (burstDb n).ledger.usageRecords.rows := mem_map.mpr ⟨i, hi, rfl⟩
  have hrecord : (burstDb n).ledger.usageRecords.find? (burstId i) =
      some ⟨burstId i, 1, some (finalLog (burstId i) 1)⟩ := find?_of_mem hmem
  have howner : Text.eqIgnoreAsciiCase "User@example.test" "user@example.test" = true := by decide
  have hcheck : checkFinal (finalLog (burstId i) 1) (some (burstRow i)) = .ok () := by
    unfold checkFinal
    dsimp only
    rw [ensure_of ⟨rfl, howner⟩]
    rfl
  refine ⟨finalLog (burstId i) 1, ?_, rfl, Nat.le_refl 1, rfl, hcheck⟩
  show ((burstDb n).ledger.usageRecords.find? (burstId i)).bind _ = _
  rw [hrecord]
  rfl

theorem burst_unfinished (n : ℕ) : (unfinished (burstDb n) "share" "entitlement").length = n := by
  have hall : unfinished (burstDb n) "share" "entitlement" = (range n).map burstRow := by
    refine filter_eq_self.mpr fun row hrow => ?_
    obtain ⟨i, -, rfl⟩ := mem_map.mp hrow
    exact decide_eq_true ⟨⟨rfl, rfl⟩, FinalState.noConfusion⟩
  rw [hall, length_map, length_range]

theorem paidUsage_le_length {ledger : ValueQuota.Db} {usd : Bool} {shareId entitlementId : String}
    {rows : List SettlementRow} {P : ℤ → Prop} [DecidablePred P] (h : ∀ row ∈ rows, amountOf ledger usd row ≤ 1) :
    paidUsage ledger usd shareId entitlementId rows P ≤ rows.length := by
  induction rows with
  | nil => exact Nat.le_refl 0
  | cons row rows ih =>
    have hrow := h row mem_cons_self
    have hrest := ih fun row' hrow' => h row' (mem_cons_of_mem _ hrow')
    rw [paidUsage_cons, length_cons]
    split <;> omega

theorem burst_paidUsage_le (n : ℕ) :
    (paidUsage (burstDb n).ledger false "share" "entitlement" (burstDb n).requests.rows fun t => t < 500) ≤ n := by
  have hone : ∀ row ∈ (burstDb n).requests.rows, amountOf (burstDb n).ledger false row ≤ 1 := by
    intro row hrow
    obtain ⟨i, -, rfl⟩ := mem_map.mp hrow
    exact le_refl 1
  have hlength : (burstDb n).requests.rows.length = n := by
    show ((range n).map burstRow).length = n
    rw [length_map, length_range]
  exact (paidUsage_le_length hone).trans hlength.le

theorem burst_settleable {n : ℕ} (hn : n ≤ i128Max) : Settleable (burstDb n) "share" settledOperation burstFence := by
  have hcovered : (0 : ℤ) ≤ 100 ∧ (100 : ℤ) ≤ 500 ∧ (500 : ℤ) ≤ 1000 := by decide
  have howner : Text.eqIgnoreAsciiCase "user@example.test" "user@example.test" = true := by decide
  refine ⟨rfl, rfl, rfl, hcovered, ⟨_, rfl, by decide⟩, ?_, ?_, ?_, ?_⟩
  · intro row hrow _
    obtain ⟨i, -, rfl⟩ := mem_map.mp hrow
    exact howner
  · intro row hrow _ _
    exact ⟨_, rfl⟩
  · intro row hrow _ _ _
    obtain ⟨i, -, rfl⟩ := mem_map.mp hrow
    exact ⟨_, rfl⟩
  · exact (burst_paidUsage_le n).trans hn

/-- The first contract that does not fit: every request has its final usage record, and no number of calls
comes to a receipt. -/
theorem termination_never_receipted :
    ∃ (db : Db) (shareId : String) (op : ShareManagedGrantOperation) (fence : TerminationFence),
      UsageWritten db ∧ Settleable db shareId op fence ∧ (∀ row ∈ db.requests.rows, FinalUsage db row) ∧
        ¬Answers db shareId op := by
  have hready : Settleable (burstDb 257) "share" settledOperation burstFence := burst_settleable (by decide)
  refine ⟨burstDb 257, "share", settledOperation, burstFence, burst_written 257, hready, burst_final 257,
    fun hanswers => ?_⟩
  obtain ⟨now, receipt, db', h⟩ := answers_iff_once.mp hanswers
  obtain ⟨fence', -, -, -, ⟨hstored, -⟩ | ⟨-, hsettle⟩⟩ := receiptIn_cases h
  · rw [hready.fresh] at hstored
    cases hstored
  · have hbatch := (drained_of_settle (burst_written 257) hsettle).2
    have hlength := burst_unfinished 257
    have hsame : (unfinished (burstDb 257) "share" settledOperation.entitlementId).length = 257 := hlength
    omega

theorem termination_receipted_iff_burst : Answers (burstDb 256) "share" settledOperation := by
  refine (termination_receipted_iff (burst_written 256) (burst_settleable (by decide))).mpr ⟨?_, ?_⟩
  · exact fun row hrow => burst_final 256 row (mem_of_mem_filter hrow)
  · exact (burst_unfinished 256).le

end CcSwitchServer.MarketTermination
