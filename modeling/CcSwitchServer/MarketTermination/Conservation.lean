import CcSwitchServer.MarketTermination.Archive

/-! # A receipt conserves paid usage

The windows of one policy are the cells of a grid, so they do not overlap.
-/

namespace CcSwitchServer.MarketTermination
open Foundations Sharing Usage List OrderedMap

/-! ## What a receipt has to account for -/

def amountOf (ledger : ValueQuota.Db) (usd : Bool) (row : SettlementRow) : ℕ :=
  if usd then
    match settledRequestPicos ledger row.requestId row.shareId row.email row.entitlementId with
    | .ok (some amount) => amount
    | _ => 0
  else row.tokens

def IsPaid (shareId entitlementId : String) (row : SettlementRow) : Prop :=
  row.shareId = shareId ∧ row.entitlementId = entitlementId ∧ row.phase = .paid

instance (shareId entitlementId : String) : DecidablePred (IsPaid shareId entitlementId) :=
  fun row => inferInstanceAs (Decidable (row.shareId = shareId ∧ _))

section
variable (ledger : ValueQuota.Db) (usd : Bool) (shareId entitlementId : String)

/-- The amounts of the paid requests of an entitlement that started at an instant with `P`. -/
def paidUsage (rows : List SettlementRow) (P : ℤ → Prop) [DecidablePred P] : ℕ :=
  ((rows.filter fun row => IsPaid shareId entitlementId row ∧ P row.startedAtMs).map (amountOf ledger usd)).sum

end

/-- The receipt accounts for every paid request before the cutoff, each once. -/
structure Conserves (db : Db) (usd : Bool) (r : TerminationReceipt) : Prop where
  proper : ∀ w ∈ r.windows, w.startsAtMs < w.endsAtMs
  ordered : r.windows.Pairwise fun a b => a.endsAtMs ≤ b.startsAtMs
  opening : r.quotaUsedBeforePeriod =
    paidUsage db.ledger usd r.shareId r.entitlementId db.requests.rows fun t => t < r.periodStartMs
  window : ∀ w ∈ r.windows, w.used =
    paidUsage db.ledger usd r.shareId r.entitlementId db.requests.rows fun t =>
      r.periodStartMs ≤ t ∧ t < r.cutoffAtMs ∧ w.startsAtMs ≤ t ∧ t < w.endsAtMs
  total : r.quotaUsedBeforePeriod + (r.windows.map UsageWindow.used).sum =
    paidUsage db.ledger usd r.shareId r.entitlementId db.requests.rows fun t => t < r.cutoffAtMs

section
variable {ledger : ValueQuota.Db} {usd : Bool} {shareId entitlementId : String}
  {P Q : ℤ → Prop} [DecidablePred P] [DecidablePred Q]

variable (rows : List SettlementRow)

theorem paidUsage_eq_sum : paidUsage ledger usd shareId entitlementId rows P =
      (rows.map fun row =>
        if IsPaid shareId entitlementId row ∧ P row.startedAtMs then amountOf ledger usd row else 0).sum := by
  have h := sum_map_ite (fun row => IsPaid shareId entitlementId row ∧ P row.startedAtMs)
    (amountOf ledger usd) (fun _ => 0) rows
  rw [h, map_const', sum_replicate, smul_zero, add_zero]
  rfl

theorem paidUsage_cons (row : SettlementRow) (rows : List SettlementRow) :
    paidUsage ledger usd shareId entitlementId (row :: rows) P =
      (if IsPaid shareId entitlementId row ∧ P row.startedAtMs then amountOf ledger usd row else 0) +
        paidUsage ledger usd shareId entitlementId rows P := by
  rw [paidUsage_eq_sum, paidUsage_eq_sum, map_cons, sum_cons]

theorem paidUsage_perm {rows rows' : List SettlementRow} (h : rows.Perm rows') :
    paidUsage ledger usd shareId entitlementId rows P = paidUsage ledger usd shareId entitlementId rows' P :=
  ((h.filter _).map _).sum_eq

theorem paidUsage_congr {rows : List SettlementRow}
    (h : ∀ row ∈ rows, IsPaid shareId entitlementId row → (P row.startedAtMs ↔ Q row.startedAtMs)) :
    paidUsage ledger usd shareId entitlementId rows P = paidUsage ledger usd shareId entitlementId rows Q := by
  unfold paidUsage
  congr 2
  apply filter_congr
  intro row hrow
  apply decide_eq_decide.mpr
  constructor
  · rintro ⟨hpaid, hP⟩
    exact ⟨hpaid, (h row hrow hpaid).mp hP⟩
  · rintro ⟨hpaid, hQ⟩
    exact ⟨hpaid, (h row hrow hpaid).mpr hQ⟩

theorem paidUsage_split : paidUsage ledger usd shareId entitlementId rows P =
      paidUsage ledger usd shareId entitlementId rows (fun t => P t ∧ Q t) +
        paidUsage ledger usd shareId entitlementId rows (fun t => P t ∧ ¬Q t) := by
  induction rows with
  | nil => rfl
  | cons row rows ih =>
    rw [paidUsage_cons, paidUsage_cons, paidUsage_cons, ih]
    by_cases hpaid : IsPaid shareId entitlementId row <;> by_cases hP : P row.startedAtMs <;>
      by_cases hQ : Q row.startedAtMs <;> simp [hpaid, hP, hQ] <;> omega

theorem paidUsage_filter : paidUsage ledger usd shareId entitlementId
        (rows.filter fun row => row.shareId = shareId ∧ row.entitlementId = entitlementId) P =
      paidUsage ledger usd shareId entitlementId rows P := by
  unfold paidUsage
  rw [filter_filter]
  congr 2
  apply filter_congr
  intro row _
  rw [← Bool.decide_and]
  apply decide_eq_decide.mpr
  constructor
  · exact fun h => h.1
  · exact fun h => ⟨h, h.1.1, h.1.2.1⟩

end

/-! ## Recovered usage changes no amount -/

section
variable {ledger : ValueQuota.Db} {usd : Bool} {shareId entitlementId : String}
  {P : ℤ → Prop} [DecidablePred P] {requests requests' : Table SettlementRow String SettlementRow.requestId}

theorem finalize_counted (log : UsageLog) (row : SettlementRow) :
    (if IsPaid shareId entitlementId (row.finalize log) ∧ P (row.finalize log).startedAtMs then
        amountOf ledger usd (row.finalize log) else 0) =
      if IsPaid shareId entitlementId row ∧ P row.startedAtMs then amountOf ledger usd row else 0 := by
  unfold SettlementRow.finalize
  split
  · rfl
  · rfl

theorem finalizeLog_paidUsage {log : UsageLog} (h : finalizeLog requests log = .ok requests') :
    paidUsage ledger usd shareId entitlementId requests'.rows P =
      paidUsage ledger usd shareId entitlementId requests.rows P := by
  simp only [finalizeLog, bind_eq_ok, pure_eq_ok] at h
  obtain ⟨-, -, -, -, rfl⟩ := h
  rw [paidUsage_eq_sum, paidUsage_eq_sum, Table.map_modify _ _ _ (finalize_counted log)]

theorem recover_paidUsage {payloads : List (Option UsageLog)}
    (h : payloads.foldlM recoverLog requests = .ok requests') :
    paidUsage ledger usd shareId entitlementId requests'.rows P =
      paidUsage ledger usd shareId entitlementId requests.rows P := by
  induction payloads generalizing requests with
  | nil =>
    cases h
    rfl
  | cons payload payloads ih =>
    rw [foldlM_cons] at h
    obtain ⟨next, hnext, h⟩ := bind_eq_ok.mp h
    obtain ⟨log, -, hlog⟩ := bind_eq_ok.mp hnext
    rw [ih h, finalizeLog_paidUsage hlog]

end

/-! ## One row -/

section
variable {ledger : ValueQuota.Db} {op : ShareManagedGrantOperation} {fence : TerminationFence}

theorem requestAmount_eq {row : SettlementRow} {amount : ℕ} (h : requestAmount ledger fence row = .ok amount) :
    amountOf ledger fence.policy.valueQuota.isSome row = amount := by
  unfold requestAmount at h
  unfold amountOf
  split at h
  · rename_i husd
    rw [if_pos husd]
    split at h
    · cases h
    · rename_i total htotal
      rw [htotal]
      obtain ⟨-, -, h⟩ := bind_eq_ok.mp h
      cases total with
      | some v =>
        cases h
        rfl
      | none =>
        dsimp only at h ⊢
        split at h
        · cases h
          rfl
        · cases h
  · rename_i husd
    rw [if_neg husd]
    cases h
    rfl

/-- Which side a row is counted on. -/
inductive Counted (ledger : ValueQuota.Db) (fence : TerminationFence) (row : SettlementRow) :
    Settling → Settling → Prop
  | skipped {s s' : Settling} (h : ¬(row.phase = .paid ∧ row.startedAtMs < fence.cutoffAtMs))
      (hs : s' = s) : Counted ledger fence row s s'
  | opening {s s' : Settling} (hpaid : row.phase = .paid) (hcutoff : row.startedAtMs < fence.cutoffAtMs)
      (hstart : row.startedAtMs < fence.periodStartMs)
      (hbefore : s'.before = s.before + amountOf ledger fence.policy.valueQuota.isSome row)
      (hwindows : s'.windows = s.windows) : Counted ledger fence row s s'
  | window {s s' : Settling} (key : ℤ ×ₗ ℤ) (hpaid : row.phase = .paid)
      (hcutoff : row.startedAtMs < fence.cutoffAtMs) (hstart : fence.periodStartMs ≤ row.startedAtMs)
      (hkey : windowKey fence row.startedAtMs = .ok key) (hbefore : s'.before = s.before)
      (hwindows : s'.windows = s.windows.insert key
        ((s.windows.get? key).getD 0 + amountOf ledger fence.policy.valueQuota.isSome row)) :
      Counted ledger fence row s s'

/-- A paid request counts into the opening amount or into the window of its instant. -/
theorem settleRow_counted (hend : fence.cutoffAtMs ≤ fence.periodEndMs) {s s' : Settling}
    {row : SettlementRow} (h : settleRow ledger op fence s row = .ok s') :
    Counted ledger fence row s s' := by
  unfold settleRow at h
  obtain ⟨-, -, h⟩ := bind_eq_ok.mp h
  obtain ⟨-, -, h⟩ := bind_eq_ok.mp h
  split at h
  · rename_i hskip
    cases h
    refine .skipped ?_ rfl
    rintro ⟨hpaid, hcutoff⟩
    rcases hskip with hskip | hskip
    · exact hskip hpaid
    · omega
  · rename_i hcounted
    obtain ⟨hpaid, hcutoff⟩ := not_or.mp hcounted
    have hpaid := not_not.mp hpaid
    have hcutoff := not_le.mp hcutoff
    obtain ⟨amount, hamount, h⟩ := bind_eq_ok.mp h
    have hamount := requestAmount_eq hamount
    dsimp only at h
    split at h
    · rename_i hstart
      obtain ⟨before, hbefore, h⟩ := bind_eq_ok.mp h
      obtain ⟨-, hbefore⟩ := checkedAdd_eq_some.mp (context_eq_ok.mp hbefore)
      cases h
      exact .opening hpaid hcutoff hstart (by rw [hamount]; exact hbefore) rfl
    · rename_i hstart
      rw [if_neg (by omega)] at h
      obtain ⟨key, hkey, h⟩ := bind_eq_ok.mp h
      obtain ⟨used, hused, h⟩ := bind_eq_ok.mp h
      obtain ⟨-, hused⟩ := checkedAdd_eq_some.mp (context_eq_ok.mp hused)
      cases h
      exact .window key hpaid hcutoff (not_lt.mp hstart) hkey rfl (by rw [hamount, hused])

/-- What the loop has added up over some rows. -/
structure Summed (ledger : ValueQuota.Db) (fence : TerminationFence) (shareId entitlementId : String)
    (rows : List SettlementRow) (s s' : Settling) : Prop where
  before : s'.before = s.before +
    paidUsage ledger fence.policy.valueQuota.isSome shareId entitlementId rows fun t =>
      t < fence.periodStartMs
  used : ∀ key, (s'.windows.get? key).getD 0 = (s.windows.get? key).getD 0 +
    paidUsage ledger fence.policy.valueQuota.isSome shareId entitlementId rows fun t =>
      fence.periodStartMs ≤ t ∧ t < fence.cutoffAtMs ∧ windowKey fence t = .ok key
  total : s'.windows.values.sum = s.windows.values.sum +
    paidUsage ledger fence.policy.valueQuota.isSome shareId entitlementId rows fun t =>
      fence.periodStartMs ≤ t ∧ t < fence.cutoffAtMs
  keys : ∀ key, s'.windows.get? key ≠ none → s.windows.get? key ≠ none ∨
    ∃ t, fence.periodStartMs ≤ t ∧ t < fence.cutoffAtMs ∧ windowKey fence t = .ok key
  placed : ∀ row ∈ rows, IsPaid shareId entitlementId row → fence.periodStartMs ≤ row.startedAtMs →
    row.startedAtMs < fence.cutoffAtMs → ∃ key, windowKey fence row.startedAtMs = .ok key

variable {shareId entitlementId : String} {s s' s'' : Settling} {row : SettlementRow} {rows : List SettlementRow}

theorem Counted.summed (hperiod : fence.periodStartMs ≤ fence.cutoffAtMs)
    (hrow : row.shareId = shareId ∧ row.entitlementId = entitlementId)
    (h : Counted ledger fence row s s') : Summed ledger fence shareId entitlementId [row] s s' := by
  cases h with
  | skipped hskip hs =>
    subst hs
    have hno : ∀ {P : ℤ → Prop} [DecidablePred P], (∀ t, P t → t < fence.cutoffAtMs) →
        paidUsage ledger fence.policy.valueQuota.isSome shareId entitlementId [row] P = 0 := by
      intro P _ hP
      rw [paidUsage_cons, if_neg]
      · rfl
      · rintro ⟨hpaid, ht⟩
        exact hskip ⟨hpaid.2.2, hP _ ht⟩
    refine ⟨?_, ?_, ?_, fun key hkey => .inl hkey, ?_⟩
    · rw [hno fun t ht => by omega]
      rfl
    · intro key
      rw [hno fun t ht => ht.2.1]
      rfl
    · rw [hno fun t ht => ht.2]
      rfl
    · intro row' hmem hpaid _ ht
      rw [mem_singleton.mp hmem] at hpaid ht
      exact absurd ⟨hpaid.2.2, ht⟩ hskip
  | opening hpaid hcutoff hstart hbefore hwindows =>
    have hno : ∀ {P : ℤ → Prop} [DecidablePred P], (∀ t, P t → fence.periodStartMs ≤ t) →
        paidUsage ledger fence.policy.valueQuota.isSome shareId entitlementId [row] P = 0 := by
      intro P _ hP
      rw [paidUsage_cons, if_neg]
      · rfl
      · rintro ⟨-, ht⟩
        have hle := hP _ ht
        omega
    refine ⟨?_, ?_, ?_, ?_, ?_⟩
    · rw [hbefore, paidUsage_cons, if_pos ⟨⟨hrow.1, hrow.2, hpaid⟩, hstart⟩]
      rfl
    · intro key
      rw [hwindows, hno fun t ht => ht.1]
      rfl
    · rw [hwindows, hno fun t ht => ht.1]
      rfl
    · intro key hkey
      rw [hwindows] at hkey
      exact .inl hkey
    · intro row' hmem _ hle _
      rw [mem_singleton.mp hmem] at hle
      omega
  | window key hpaid hcutoff hstart hkey hbefore hwindows =>
    have hrowPaid : IsPaid shareId entitlementId row := ⟨hrow.1, hrow.2, hpaid⟩
    refine ⟨?_, ?_, ?_, ?_, ?_⟩
    · rw [hbefore, paidUsage_cons, if_neg (fun h => by omega)]
      rfl
    · intro key'
      rw [hwindows, get?_insert, paidUsage_cons]
      by_cases heq : key = key'
      · subst heq
        rw [if_pos rfl, if_pos ⟨hrowPaid, hstart, hcutoff, hkey⟩]
        rfl
      · rw [if_neg heq, if_neg]
        · rfl
        · rintro ⟨-, -, -, hkey'⟩
          rw [hkey] at hkey'
          cases hkey'
          exact heq rfl
    · have hsum := sum_values_insert (fun n => n) s.windows key
        ((s.windows.get? key).getD 0 + amountOf ledger fence.policy.valueQuota.isSome row)
      rw [map_id', map_id', Option.map_id'] at hsum
      rw [hwindows, paidUsage_cons, if_pos ⟨hrowPaid, hstart, hcutoff⟩]
      show _ = _ + (_ + 0)
      omega
    · intro key' hkey'
      rw [hwindows, get?_insert] at hkey'
      split at hkey'
      · rename_i heq
        subst heq
        exact .inr ⟨row.startedAtMs, hstart, hcutoff, hkey⟩
      · exact .inl hkey'
    · intro row' hmem _ _ _
      rw [mem_singleton.mp hmem]
      exact ⟨key, hkey⟩

theorem Summed.cons (h : Summed ledger fence shareId entitlementId [row] s s')
    (h' : Summed ledger fence shareId entitlementId rows s' s'') :
    Summed ledger fence shareId entitlementId (row :: rows) s s'' := by
  have hsplit : ∀ {P : ℤ → Prop} [DecidablePred P],
      paidUsage ledger fence.policy.valueQuota.isSome shareId entitlementId (row :: rows) P =
        paidUsage ledger fence.policy.valueQuota.isSome shareId entitlementId [row] P +
          paidUsage ledger fence.policy.valueQuota.isSome shareId entitlementId rows P := by
    intro P _
    rw [paidUsage_cons, paidUsage_cons]
    show _ = _ + 0 + _
    rw [Nat.add_zero]
  refine ⟨?_, ?_, ?_, ?_, ?_⟩
  · rw [hsplit, h'.before, h.before, Nat.add_assoc]
  · intro key
    rw [hsplit, h'.used, h.used, Nat.add_assoc]
  · rw [hsplit, h'.total, h.total, Nat.add_assoc]
  · intro key hkey
    rcases h'.keys key hkey with hkey | hkey
    · exact h.keys key hkey
    · exact .inr hkey
  · intro row' hmem
    rcases mem_cons.mp hmem with rfl | hmem
    · exact h.placed row' mem_cons_self
    · exact h'.placed row' hmem

theorem settleRows_summed (hperiod : fence.periodStartMs ≤ fence.cutoffAtMs)
    (hend : fence.cutoffAtMs ≤ fence.periodEndMs)
    (hrows : ∀ row ∈ rows, row.shareId = shareId ∧ row.entitlementId = entitlementId)
    (h : rows.foldlM (settleRow ledger op fence) s = .ok s') :
    Summed ledger fence shareId entitlementId rows s s' := by
  induction rows generalizing s with
  | nil =>
    cases h
    exact ⟨rfl, fun _ => rfl, rfl, fun _ hkey => .inl hkey, fun _ hmem => absurd hmem not_mem_nil⟩
  | cons row rows ih =>
    rw [foldlM_cons] at h
    obtain ⟨s₁, hfirst, h⟩ := bind_eq_ok.mp h
    have hcounted := (settleRow_counted hend hfirst).summed hperiod (hrows row mem_cons_self)
    exact hcounted.cons (ih (fun row' hmem => hrows row' (mem_cons_of_mem _ hmem)) h)

/-! ## Windows are cells -/

variable {key : ℤ ×ₗ ℤ}

theorem windowKey_cell {t : ℤ} (h : windowKey fence t = .ok key) :
    fence.policy.tokenPeriod = .lifetime ∧ key = toLex (fence.periodStartMs, fence.periodEndMs) ∨
      fence.policy.tokenPeriod ≠ .lifetime ∧ ∃ i, key = toLex (boundary fence.policy i, boundary fence.policy (i + 1)) ∧
        boundary fence.policy i ≤ t ∧ t < boundary fence.policy (i + 1) := by
  unfold windowKey at h
  split at h
  · cases h
  · rename_i w hw
    cases h
    rcases tokenPeriodWindow_cell hw with ⟨hlifetime, rfl⟩ | ⟨hperiod, i, rfl, hi⟩
    · exact .inl ⟨hlifetime, rfl⟩
    · exact .inr ⟨hperiod, i, rfl, hi⟩

theorem windowKey_contains (hend : fence.cutoffAtMs ≤ fence.periodEndMs) {t : ℤ}
    (hstart : fence.periodStartMs ≤ t) (hcutoff : t < fence.cutoffAtMs)
    (h : windowKey fence t = .ok key) : (ofLex key).1 ≤ t ∧ t < (ofLex key).2 := by
  rcases windowKey_cell h with ⟨-, rfl⟩ | ⟨-, i, rfl, hi⟩
  · exact ⟨hstart, show t < fence.periodEndMs by omega⟩
  · exact hi

theorem windowKey_ordered {t t' : ℤ} {key' : ℤ ×ₗ ℤ} (h : windowKey fence t = .ok key)
    (h' : windowKey fence t' = .ok key') (hlt : key < key') : (ofLex key).2 ≤ (ofLex key').1 := by
  rcases windowKey_cell h with ⟨hlifetime, rfl⟩ | ⟨hperiod, i, rfl, -⟩
  · rcases windowKey_cell h' with ⟨-, rfl⟩ | ⟨hperiod, -⟩
    · exact absurd hlt (lt_irrefl _)
    · exact absurd hlifetime hperiod
  · rcases windowKey_cell h' with ⟨hlifetime, -⟩ | ⟨-, j, rfl, -⟩
    · exact absurd hlifetime hperiod
    · have hij : i < j := by
        by_contra hle
        have hstart := boundary_mono fence.policy (not_lt.mp hle)
        have hstop := boundary_mono fence.policy (Int.add_le_add_right (not_lt.mp hle) 1)
        rcases Prod.Lex.toLex_lt_toLex.mp hlt with hlt | ⟨-, hlt⟩
        · exact absurd hlt (not_lt.mpr hstart)
        · exact absurd hlt (not_lt.mpr hstop)
      exact boundary_mono fence.policy (Int.add_one_le_iff.mpr hij)

theorem windowKey_iff (hend : fence.cutoffAtMs ≤ fence.periodEndMs) {t t' : ℤ} {key' : ℤ ×ₗ ℤ}
    (hstart : fence.periodStartMs ≤ t) (hcutoff : t < fence.cutoffAtMs)
    (h : windowKey fence t = .ok key) (h' : windowKey fence t' = .ok key') :
    windowKey fence t = .ok key' ↔ (ofLex key').1 ≤ t ∧ t < (ofLex key').2 := by
  constructor
  · exact windowKey_contains hend hstart hcutoff
  · rintro ⟨hle, hlt⟩
    have hin := windowKey_contains hend hstart hcutoff h
    rcases lt_trichotomy key key' with hkey | rfl | hkey
    · have hstop := windowKey_ordered h h' hkey
      omega
    · exact h
    · have hstop := windowKey_ordered h' h hkey
      omega

end

/-! ## The receipt -/

section
variable {db db' : Db} {shareId : String} {op : ShareManagedGrantOperation} {fence : TerminationFence}
  {now : ℤ} {receipt : TerminationReceipt}

variable (h : settle db shareId op fence now = .ok (receipt, db'))
include h

theorem settle_ok :
    fence.periodStartMs ≤ fence.cutoffAtMs ∧ fence.cutoffAtMs ≤ fence.periodEndMs ∧
      SameTermination receipt fence shareId op ∧ receipt.operationId = op.operationId ∧
      db'.receipts.find? op.operationId = some receipt ∧
      (∀ other, other ≠ op.operationId → db'.receipts.find? other = db.receipts.find? other) ∧
      ∃ requests s, (recoverable db shareId op.entitlementId).foldlM recoverLog db.requests = .ok requests ∧
        (archivedRows requests shareId op.entitlementId).foldlM (settleRow db.ledger op fence)
          { requests := requests } = .ok s ∧
        receipt.quotaUsedBeforePeriod = s.before ∧
        receipt.windows = s.windows.entries.map fun e => ⟨(ofLex e.1).1, (ofLex e.1).2, e.2⟩ := by
  unfold settle at h
  obtain ⟨covered, hcovers, h⟩ := bind_eq_ok.mp h
  obtain ⟨-, hperiod, hend⟩ := ensure_eq_ok.mp hcovers
  obtain ⟨share, -, h⟩ := bind_eq_ok.mp h
  obtain ⟨-, -, h⟩ := bind_eq_ok.mp h
  obtain ⟨requests, hrequests, h⟩ := bind_eq_ok.mp h
  obtain ⟨s, hs, h⟩ := bind_eq_ok.mp h
  obtain ⟨receipts, hinsert, h⟩ := bind_eq_ok.mp h
  obtain ⟨hfresh, rfl⟩ := Table.tryInsert_eq_some.mp (context_eq_ok.mp hinsert)
  cases h
  refine ⟨hperiod, hend, ⟨rfl, rfl, rfl, beq_self_eq_true _, rfl, rfl, rfl⟩, rfl, ?_, ?_,
    requests, s, hrequests, hs, rfl, rfl⟩
  · exact Table.find?_insert_self _ _ hfresh
  · intro other hne
    rw [Table.find?_insert, if_neg (fun h => hne h.symm)]

/-- Each paid request before the cutoff counts once. -/
theorem settle_conserves :
    Conserves db fence.policy.valueQuota.isSome receipt := by
  obtain ⟨hperiod, hend, ⟨-, hentitlement, hshare, -, hcutoffEq, hstartEq, -⟩, -, -, -, requests, s,
    hrequests, hs, hbefore, hwindows⟩ := settle_ok h
  have hrows : ∀ row ∈ archivedRows requests shareId op.entitlementId,
      row.shareId = shareId ∧ row.entitlementId = op.entitlementId := by
    intro row hrow
    have hmem := (perm_insertionSort _ _).mem_iff.mp hrow
    exact of_decide_eq_true (mem_filter.mp hmem).2
  have hsum := settleRows_summed hperiod hend hrows hs
  -- the rows of the loop count what the archive counted before the recovery
  have harchive : ∀ {P : ℤ → Prop} [DecidablePred P],
      paidUsage db.ledger fence.policy.valueQuota.isSome shareId op.entitlementId
          (archivedRows requests shareId op.entitlementId) P =
        paidUsage db.ledger fence.policy.valueQuota.isSome shareId op.entitlementId db.requests.rows P := by
    intro P _
    rw [← recover_paidUsage hrequests, ← paidUsage_filter requests.rows]
    exact paidUsage_perm (perm_insertionSort _ _)
  have hkeys : ∀ key, s.windows.get? key ≠ none →
      ∃ t, fence.periodStartMs ≤ t ∧ t < fence.cutoffAtMs ∧ windowKey fence t = .ok key := by
    intro key hkey
    rcases hsum.keys key hkey with hnone | hsome
    · exact absurd rfl hnone
    · exact hsome
  have hentry : ∀ e ∈ s.windows.entries, s.windows.get? e.1 = some e.2 :=
    fun e he => mem_entries_iff.mp he
  have hwindow : ∀ w ∈ receipt.windows, ∃ key, s.windows.get? key = some w.used ∧
      w.startsAtMs = (ofLex key).1 ∧ w.endsAtMs = (ofLex key).2 := by
    intro w hw
    rw [hwindows] at hw
    obtain ⟨e, he, rfl⟩ := mem_map.mp hw
    exact ⟨e.1, hentry e he, rfl, rfl⟩
  refine ⟨?_, ?_, ?_, ?_, ?_⟩
  · intro w hw
    obtain ⟨key, hkey, hstart, hstop⟩ := hwindow w hw
    obtain ⟨t, hle, hlt, hkeyOf⟩ := hkeys key (by rw [hkey]; exact Option.some_ne_none _)
    have hin := windowKey_contains hend hle hlt hkeyOf
    omega
  · rw [hwindows]
    refine pairwise_map.mpr (s.windows.sorted.imp_of_mem ?_)
    intro a b ha hb hlt
    obtain ⟨t, -, -, hkey⟩ := hkeys a.1 (by rw [hentry a ha]; exact Option.some_ne_none _)
    obtain ⟨t', -, -, hkey'⟩ := hkeys b.1 (by rw [hentry b hb]; exact Option.some_ne_none _)
    exact windowKey_ordered hkey hkey' hlt
  · rw [hbefore, hsum.before, harchive, hshare, hentitlement, hstartEq]
    exact Nat.zero_add _
  · intro w hw
    obtain ⟨key, hkey, hstart, hstop⟩ := hwindow w hw
    obtain ⟨t, hle, hlt, hkeyOf⟩ := hkeys key (by rw [hkey]; exact Option.some_ne_none _)
    have hused := hsum.used key
    rw [hkey] at hused
    refine hused.trans ((Nat.zero_add _).trans ?_)
    rw [hshare, hentitlement, hstartEq, hcutoffEq, hstart, hstop, ← harchive]
    apply paidUsage_congr
    intro row hrow hpaid
    constructor
    · rintro ⟨hge, hbefore, hrowKey⟩
      exact ⟨hge, hbefore, windowKey_contains hend hge hbefore hrowKey⟩
    · rintro ⟨hge, hbefore, hin⟩
      obtain ⟨rowKey, hrowKey⟩ := hsum.placed row hrow hpaid hge hbefore
      exact ⟨hge, hbefore, (windowKey_iff hend hge hbefore hrowKey hkeyOf).mpr hin⟩
  · have hvalues : (receipt.windows.map UsageWindow.used).sum = s.windows.values.sum := by
      rw [hwindows, map_map]
      rfl
    have hempty : (empty : OrderedMap (ℤ ×ₗ ℤ) ℕ).values.sum = 0 := rfl
    rw [hvalues, hsum.total, hbefore, hsum.before, harchive, harchive, hshare, hentitlement, hcutoffEq]
    rw [paidUsage_split (P := fun t => t < fence.cutoffAtMs) (Q := fun t => t < fence.periodStartMs)]
    show 0 + _ + (0 + _) = _
    rw [Nat.zero_add, Nat.zero_add]
    congr 1
    · apply paidUsage_congr
      intro row _ _
      omega
    · apply paidUsage_congr
      intro row _ _
      omega

end

end CcSwitchServer.MarketTermination
