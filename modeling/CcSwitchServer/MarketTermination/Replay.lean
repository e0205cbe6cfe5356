import CcSwitchServer.MarketTermination.Conservation

/-! # A receipt is settled once

Whatever reaches the archive later, a receipt stays and answers every later call of its operation.
-/

namespace CcSwitchServer.MarketTermination
open Foundations Sharing Usage

section
variable {db db' : Db} {id : String} {receipt : TerminationReceipt}

theorem archiveIn_receipts {shares : List Share} (h : archiveIn db shares = .ok db') : db'.receipts = db.receipts := by
  obtain ⟨requests, -, h⟩ := bind_eq_ok.mp h
  cases h
  rfl

theorem finalizeLogIn_receipts {log : UsageLog} (h : finalizeLogIn db log = .ok db') : db'.receipts = db.receipts := by
  obtain ⟨requests, -, h⟩ := bind_eq_ok.mp h
  cases h
  rfl

theorem receiptIn_cases {shareId : String} {op : ShareManagedGrantOperation} {now : ℤ}
    (h : receiptIn db shareId op now = .ok (receipt, db')) :
    ∃ fence, op.termination = some fence ∧ fence.cutoffAtMs ≤ now ∧ op.action = .revoke ∧
      (db.receipts.find? op.operationId = some receipt ∧ SameTermination receipt fence shareId op ∧ db' = db ∨
        db.receipts.find? op.operationId = none ∧ settle db shareId op fence now = .ok (receipt, db')) := by
  unfold receiptIn at h
  obtain ⟨fence, hfence, h⟩ := bind_eq_ok.mp h
  obtain ⟨waited, hnow, h⟩ := bind_eq_ok.mp h
  obtain ⟨revoked, haction, h⟩ := bind_eq_ok.mp h
  refine ⟨fence, context_eq_ok.mp hfence, ensure_eq_ok.mp hnow, ensure_eq_ok.mp haction, ?_⟩
  split at h
  · rename_i saved hsaved
    obtain ⟨same, hsame, h⟩ := bind_eq_ok.mp h
    cases h
    exact .inl ⟨hsaved, ensure_eq_ok.mp hsame, rfl⟩
  · rename_i hnone
    exact .inr ⟨hnone, h⟩

theorem receiptIn_replay {shareId : String} {op : ShareManagedGrantOperation} {fence : TerminationFence}
    (hfence : op.termination = some fence) (haction : op.action = .revoke)
    (hstored : db.receipts.find? op.operationId = some receipt)
    (hsame : SameTermination receipt fence shareId op) (now : ℤ) :
    receiptIn db shareId op now =
      if fence.cutoffAtMs ≤ now then .ok (receipt, db) else .error .waitingForCutoff := by
  unfold receiptIn
  rw [hfence]
  show (ensure _ _ >>= _) = _
  by_cases hnow : fence.cutoffAtMs ≤ now
  · rw [if_pos hnow, ensure_of hnow, ok_bind, ensure_of haction, ok_bind, hstored]
    dsimp only
    rw [ensure_of hsame, ok_bind]
    rfl
  · rw [if_neg hnow, ensure_of_not hnow, error_bind]

theorem step_keeps (op : Op) (h : db.receipts.find? id = some receipt) :
    (step db op).receipts.find? id = some receipt := by
  rcases commit_cases apply db op with hok | ⟨-, hsame⟩
  · unfold step
    generalize commit apply db op = next at hok
    cases op with
    | archive shares => rw [archiveIn_receipts hok, h]
    | finalize log => rw [finalizeLogIn_receipts hok, h]
    | shares shares =>
      cases hok
      exact h
    | ledger ledger =>
      cases hok
      exact h
    | receipt shareId op now =>
      obtain ⟨⟨new, next'⟩, hreceipt, heq⟩ := bind_eq_ok.mp hok
      cases heq
      obtain ⟨fence, -, -, -, hcases⟩ := receiptIn_cases hreceipt
      rcases hcases with ⟨-, -, rfl⟩ | ⟨hnone, hsettle⟩
      · exact h
      · obtain ⟨-, -, -, -, -, hothers, -⟩ := settle_ok hsettle
        have hne : id ≠ op.operationId := by
          rintro rfl
          rw [hnone] at h
          cases h
        rw [hothers id hne, h]
  · unfold step
    rw [hsame, h]

theorem step_stores (op : Op) (h : (step db op).receipts.find? id = some receipt) :
    db.receipts.find? id = some receipt ∨ ∃ usd, Conserves db usd receipt := by
  rcases commit_cases apply db op with hok | ⟨-, hsame⟩
  · unfold step at h
    generalize commit apply db op = next at hok h
    cases op with
    | archive shares =>
      rw [archiveIn_receipts hok] at h
      exact .inl h
    | finalize log =>
      rw [finalizeLogIn_receipts hok] at h
      exact .inl h
    | shares shares =>
      cases hok
      exact .inl h
    | ledger ledger =>
      cases hok
      exact .inl h
    | receipt shareId op now =>
      obtain ⟨⟨new, next'⟩, hreceipt, heq⟩ := bind_eq_ok.mp hok
      cases heq
      obtain ⟨fence, -, -, -, hcases⟩ := receiptIn_cases hreceipt
      rcases hcases with ⟨-, -, rfl⟩ | ⟨-, hsettle⟩
      · exact .inl h
      · obtain ⟨-, -, -, -, hself, hothers, -⟩ := settle_ok hsettle
        by_cases hid : id = op.operationId
        · subst hid
          rw [hself] at h
          cases h
          exact .inr ⟨_, settle_conserves hsettle⟩
        · rw [hothers id hid] at h
          exact .inl h
  · unfold step at h
    rw [hsame] at h
    exact .inl h

theorem run_keeps (ops : List Op) (h : db.receipts.find? id = some receipt) :
    (run step db ops).receipts.find? id = some receipt :=
  run_invariant (P := fun _ _ => True)
    (fun (s : Db) o (hs : s.receipts.find? id = some receipt) _ => step_keeps o hs) h
    (EachStep.of_forall (fun _ _ => trivial) db ops)

/-- In a run that starts without receipts, every stored receipt accounts for the archive of some state. -/
theorem run_stored (hnew : db.receipts = Table.empty) (ops : List Op)
    (h : (run step db ops).receipts.find? id = some receipt) :
    ∃ visited ∈ states step db ops, ∃ usd, Conserves visited usd receipt := by
  induction ops using List.reverseRecOn with
  | nil =>
    rw [run_nil, hnew] at h
    cases h
  | append_singleton ops o ih =>
    rw [states_append_singleton]
    rw [run_append_singleton] at h
    rcases step_stores o h with hbefore | ⟨usd, hconserves⟩
    · obtain ⟨visited, hvisited, husd⟩ := ih hbefore
      exact ⟨visited, List.mem_append_left _ hvisited, husd⟩
    · exact ⟨_, List.mem_append_left _ (run_mem_states step db ops), usd, hconserves⟩

end

/-- A receipt that a run returns accounts for all paid usage before the cutoff, as the archive held it when
the operation was first settled; every later call of the operation returns the same receipt, whatever usage
arrived in between, and none before the cutoff. -/
theorem receipt_conserves_paid_usage {db : Db} (hnew : db.receipts = Table.empty) (ops : List Op)
    {shareId : String} {op : ShareManagedGrantOperation} {now : ℤ} {receipt : TerminationReceipt} {db' : Db}
    (h : receiptIn (run step db ops) shareId op now = .ok (receipt, db')) :
    ∃ fence, op.termination = some fence ∧
      ((run step db ops).receipts.find? op.operationId = none →
        Conserves (run step db ops) fence.policy.valueQuota.isSome receipt) ∧
      (∃ visited ∈ states step db ops, ∃ usd, Conserves visited usd receipt) ∧
      ∀ later now', receiptIn (run step db' later) shareId op now' =
        if fence.cutoffAtMs ≤ now' then .ok (receipt, run step db' later) else .error .waitingForCutoff := by
  obtain ⟨fence, hfence, -, haction, hcases⟩ := receiptIn_cases h
  refine ⟨fence, hfence, ?_, ?_, ?_⟩
  · intro hnone
    rcases hcases with ⟨hstored, -⟩ | ⟨-, hsettle⟩
    · rw [hnone] at hstored
      cases hstored
    · exact settle_conserves hsettle
  · rcases hcases with ⟨hstored, -⟩ | ⟨-, hsettle⟩
    · exact run_stored hnew ops hstored
    · exact ⟨_, run_mem_states step db ops, _, settle_conserves hsettle⟩
  · intro later now'
    have hkept : db'.receipts.find? op.operationId = some receipt ∧ SameTermination receipt fence shareId op := by
      rcases hcases with ⟨hstored, hsame, rfl⟩ | ⟨-, hsettle⟩
      · exact ⟨hstored, hsame⟩
      · obtain ⟨-, -, hsame, -, hself, -⟩ := settle_ok hsettle
        exact ⟨hself, hsame⟩
    exact receiptIn_replay hfence haction (run_keeps later hkept.1) hkept.2 now'

/-! ## A settled contract -/

/-- An opening request, one in the period and one of the trial. -/
def settledShare : Share where
  id := "share"
  marketRequests :=
    ((OrderedMap.empty.insert "opening" ⟨"entitlement", "user@example.test", .paid, 50, 20, 1, true, none, "0"⟩).insert
      "paid" ⟨"entitlement", "user@example.test", .paid, 100, 10, 1, true, none, "0"⟩).insert
      "trial" ⟨"entitlement", "user@example.test", .trial, 300, 99, 1, true, none, "0"⟩

def finalLog (requestId : String) (tokens : ℕ) : UsageLog where
  requestId := requestId
  inputTokens := some tokens
  shareId := some "share"
  userEmail := some "User@example.test"
  usageState := .observed
  usageRevision := 1

def settledRun : List Op :=
  [.shares [settledShare], .archive [settledShare], .finalize (finalLog "opening" 20),
    .finalize (finalLog "paid" 10), .finalize (finalLog "trial" 99)]

def settledOperation : ShareManagedGrantOperation where
  termination := some ⟨"termination", 500, 100, 1000, { tokenLimit := some 100 }⟩
  operationId := "operation"
  entitlementId := "entitlement"
  shareSequence := 1
  expectedConfigRevision := 1
  action := .revoke
  email := "user@example.test"

def emptyDb : Db := ⟨Table.empty, Table.empty, 0, [], ValueQuota.Db.empty⟩

theorem receipt_conserves_paid_usage_settled :
    ∃ receipt db', receiptIn (run step emptyDb settledRun) "share" settledOperation 700 = .ok (receipt, db') ∧
      receipt.quotaUsedBeforePeriod = 20 ∧ receipt.windows = [⟨100, 1000, 10⟩] ∧
      Conserves (run step emptyDb settledRun) false receipt := by
  obtain ⟨⟨receipt, db'⟩, h⟩ := exists_of_toBool
    (show (receiptIn (run step emptyDb settledRun) "share" settledOperation 700).toBool = true by
      decide)
  have hvalues : (receiptIn (run step emptyDb settledRun) "share" settledOperation 700).toOption.map
      (fun r => (r.1.quotaUsedBeforePeriod, r.1.windows)) = some (20, [⟨100, 1000, 10⟩]) := by
    decide
  rw [h] at hvalues
  obtain ⟨hopening, hwindows⟩ := Prod.mk.inj (Option.some.inj hvalues)
  obtain ⟨fence, hfence, hfresh, -⟩ := receipt_conserves_paid_usage rfl settledRun h
  cases hfence
  exact ⟨receipt, db', h, hopening, hwindows, hfresh (by decide)⟩

end CcSwitchServer.MarketTermination
