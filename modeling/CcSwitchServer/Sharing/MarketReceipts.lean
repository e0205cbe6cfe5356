import CcSwitchServer.Sharing.MarketUsage

/-! # The receipts of a phase

The receipts that a rebuild reads are those of one entitlement in one phase that have a revision.
-/

namespace CcSwitchServer.Sharing
open Foundations Calendar Windows Usage List OrderedMap

/-! ## Receipts of a phase -/

/-- A receipt without a revision has not been charged. -/
def InPhase (id : String) (phase : ShareMarketPhase) (r : MarketRequestReceipt) : Prop :=
  r.entitlementId = id ∧ r.phase = phase ∧ 0 < r.revision

instance (id : String) (phase : ShareMarketPhase) : DecidablePred (InPhase id phase) :=
  fun r => inferInstanceAs (Decidable (r.entitlementId = id ∧ r.phase = phase ∧ 0 < r.revision))

def phaseReceipts (requests : OrderedMap String MarketRequestReceipt) (id : String)
    (phase : ShareMarketPhase) : List MarketRequestReceipt :=
  requests.values.filter fun r => InPhase id phase r

def CompactedUsage.ofPhase (totals : CompactedUsage) : ShareMarketPhase → ℕ × ℕ
  | .trial => (totals.trialTokens, totals.trialRequests)
  | .paid => (totals.paidTokens, totals.paidRequests)

/-- What compaction has moved into the totals. -/
def compactedBase (totals : OrderedMap String CompactedUsage) (id : String) (phase : ShareMarketPhase) : ℕ × ℕ :=
  ((totals.get? id).getD {}).ofPhase phase

def Listed (before : ℤ) (start : ℤ) : Prop := before ≤ 0 ∨ before ≤ start

/-! ## Rebuilt usage -/

section
variable {wall first now : ℤ} {share : Share} {g : ShareUserGrant} {id : String} {e : ShareMarketEntitlement}
  {listed : ℤ → Prop}

theorem projectGrant_usage (hid : g.entitlementId = some id) (he : share.marketEntitlements.get? id = some e) :
    (share.projectGrant wall g).usage =
      ((phaseReceipts share.marketRequests id e.phase).insertionSort
        fun a b => a.startedAtMs ≤ b.startedAtMs).foldl (replayReceipt wall g.policy)
        { lifetime := ⟨0, (compactedBase share.marketCompactedUsage id e.phase).1,
            (compactedBase share.marketCompactedUsage id e.phase).2⟩ } := by
  unfold Share.projectGrant compactedBase
  rw [hid]
  dsimp only
  rw [he]
  dsimp only
  cases share.marketCompactedUsage.get? id with
  | none =>
    cases e.phase with
    | trial => rfl
    | paid => rfl
  | some compacted =>
    cases e.phase with
    | trial => rfl
    | paid => rfl

theorem policyBucket_fresh {policy : ShareUserPolicy} {lifetime b : ShareUserUsageBucket}
    (hp : Windowed policy) (hb : policyBucket { lifetime := lifetime } policy = some b) :
    b = ⟨0, 0, 0⟩ ∧ policy.tokenPeriod.requiresAnchor = false := by
  unfold policyBucket at hb
  cases hperiod : policy.tokenPeriod with
  | lifetime => exact absurd hperiod hp.1
  | accountReset => exact absurd hperiod hp.2
  | day | week | calendarMonth =>
    rw [hperiod] at hb
    exact ⟨(Option.some.inj hb).symm, rfl⟩
  | sevenDays | thirtyDays =>
    rw [hperiod] at hb
    cases hb

theorem agrees_fresh {policy : ShareUserPolicy} {base : ℕ × ℕ} (hbase : base.1 ≤ u64Max ∧ base.2 ≤ u64Max)
    (hfirst : 0 < first) (hnow : first ≤ now) :
    Agrees policy listed first now base [] { lifetime := ⟨0, base.1, base.2⟩ } := by
  refine ⟨?_, fun hp hmonday => ?_⟩
  · rw [map_nil, sum_nil, map_nil, sum_nil, Nat.add_zero, Nat.add_zero,
      Nat.min_eq_left hbase.1, Nat.min_eq_left hbase.2]
  · refine ⟨fun _ => rfl, fun b hb => ?_⟩
    obtain ⟨rfl, hcalendar⟩ := policyBucket_fresh hp hb
    refine ⟨windowStart_nonneg hcalendar (by omega) fun hweek => ?_, .fresh 0, .fresh 0⟩
    exact (hmonday hweek).trans hnow

/-- A rebuilt usage agrees with the receipts. -/
theorem agrees_project (hset : AnchorSet g.policy) (hid : g.entitlementId = some id)
    (he : share.marketEntitlements.get? id = some e)
    (hbase : (compactedBase share.marketCompactedUsage id e.phase).1 ≤ u64Max ∧
      (compactedBase share.marketCompactedUsage id e.phase).2 ≤ u64Max)
    (hfirst : 0 < first) (hnow : first ≤ now) (hdate : IsDate (now / dayMs))
    (htimed : ∀ r ∈ share.marketRequests.values, first ≤ r.startedAtMs ∧ r.startedAtMs ≤ now) :
    Agrees g.policy listed first now (compactedBase share.marketCompactedUsage id e.phase)
      (phaseReceipts share.marketRequests id e.phase) (share.projectGrant wall g).usage := by
  have hperm := perm_insertionSort (fun a b : MarketRequestReceipt => a.startedAtMs ≤ b.startedAtMs)
    (phaseReceipts share.marketRequests id e.phase)
  have htimes : ∀ r ∈ (phaseReceipts share.marketRequests id e.phase).insertionSort
      fun a b => a.startedAtMs ≤ b.startedAtMs, first ≤ r.startedAtMs ∧ r.startedAtMs ≤ now := by
    intro r hr
    exact htimed r (mem_of_mem_filter (hperm.mem_iff.mp hr))
  rw [projectGrant_usage hid he]
  have hfresh : Agrees g.policy listed first now (compactedBase share.marketCompactedUsage id e.phase) [] _ :=
    agrees_fresh hbase hfirst hnow
  have htotal : Std.Total fun a b : MarketRequestReceipt => a.startedAtMs ≤ b.startedAtMs :=
    ⟨fun a b => le_total a.startedAtMs b.startedAtMs⟩
  have htrans : IsTrans MarketRequestReceipt fun a b => a.startedAtMs ≤ b.startedAtMs := ⟨fun a b c => le_trans⟩
  have hsorted := pairwise_insertionSort (fun a b : MarketRequestReceipt =>
    a.startedAtMs ≤ b.startedAtMs) (phaseReceipts share.marketRequests id e.phase)
  have hreplayed := @Agrees.replay wall _ _ _ _ _ _ _ _ hfresh hset hsorted
    (fun r hr => ⟨OnClock.between hfirst hdate (htimes r hr).1 (htimes r hr).2, (htimes r hr).2⟩) (by
      intro hp hmonday b hb r hr
      obtain ⟨rfl, hcalendar⟩ := policyBucket_fresh hp hb
      have hr := (htimes r hr).1
      exact windowStart_nonneg hcalendar (by omega) fun hweek => (hmonday hweek).trans hr)
  exact hreplayed.perm hperm

end

/-! ## Receipts under a change of the map -/

section
variable {requests : OrderedMap String MarketRequestReceipt} {requestId id : String}
  {phase : ShareMarketPhase} {r old : MarketRequestReceipt}

theorem phaseReceipts_unread (h : requests.get? requestId = none) (hr : r.revision = 0) :
    (phaseReceipts requests id phase).Perm (phaseReceipts (requests.insert requestId r) id phase) := by
  have hperm := ((insert_perm r h).map Prod.snd).filter fun r => decide (InPhase id phase r)
  rw [map_cons, filter_cons_of_neg] at hperm
  · exact hperm.symm
  · rw [decide_eq_true_eq]
    rintro ⟨-, -, hpos⟩
    dsimp only at hpos
    omega

def ofPhase (id : String) (phase : ShareMarketPhase) (r : MarketRequestReceipt) : List MarketRequestReceipt :=
  if InPhase id phase r then [r] else []

theorem filter_cons_ofPhase (rs : List MarketRequestReceipt) :
    (r :: rs).filter (fun r => decide (InPhase id phase r)) =
      ofPhase id phase r ++ rs.filter fun r => decide (InPhase id phase r) := by
  unfold ofPhase
  rw [filter_cons]
  by_cases h : InPhase id phase r
  · rw [if_pos (decide_eq_true h), if_pos h]
    rfl
  · rw [if_neg (by rw [decide_eq_true_eq]; exact h), if_neg h]
    rfl

theorem phaseReceipts_update (h : requests.get? requestId = some old) (r : MarketRequestReceipt) (id : String)
    (phase : ShareMarketPhase) : ∃ rest,
      (phaseReceipts requests id phase).Perm (ofPhase id phase old ++ rest) ∧
      (phaseReceipts (requests.insert requestId r) id phase).Perm (ofPhase id phase r ++ rest) := by
  refine ⟨phaseReceipts (requests.erase requestId) id phase, ?_, ?_⟩
  · have hperm := ((perm_erase h).map Prod.snd).filter fun r => decide (InPhase id phase r)
    rw [map_cons, filter_cons_ofPhase] at hperm
    exact hperm
  · have hperm := ((insert_perm_erase requests requestId r).map Prod.snd).filter fun r => decide (InPhase id phase r)
    rw [map_cons, filter_cons_ofPhase] at hperm
    exact hperm

theorem mem_values_insert {x : MarketRequestReceipt} (h : x ∈ (requests.insert requestId r).values) :
    x = r ∨ x ∈ requests.values := by
  obtain ⟨k, hk⟩ := mem_values_iff.mp h
  rw [get?_insert] at hk
  split at hk
  · exact .inl (Option.some.inj hk).symm
  · exact .inr (mem_values_iff.mpr ⟨k, hk⟩)

end

/-! ## Compaction -/

section
variable {first now at_ : ℤ} {share : Share} {id : String} {phase : ShareMarketPhase}

def OfPhase (id : String) (phase : ShareMarketPhase) (r : MarketRequestReceipt) : Prop :=
  r.entitlementId = id ∧ r.phase = phase

instance (id : String) (phase : ShareMarketPhase) : DecidablePred (OfPhase id phase) :=
  fun r => inferInstanceAs (Decidable (r.entitlementId = id ∧ r.phase = phase))

theorem CompactedUsage.ofPhase_add (totals : CompactedUsage) (r : MarketRequestReceipt)
    (phase : ShareMarketPhase) : (totals.add r).ofPhase phase =
      if r.phase = phase then
        (min ((totals.ofPhase phase).1 + r.tokens) u64Max, min ((totals.ofPhase phase).2 + r.counted) u64Max)
      else totals.ofPhase phase := by
  unfold CompactedUsage.add
  cases r.phase with
  | trial =>
    cases phase with
    | trial => rfl
    | paid => rfl
  | paid =>
    cases phase with
    | trial => rfl
    | paid => rfl

theorem compactedBase_foldReceipt (totals : OrderedMap String CompactedUsage) (r : MarketRequestReceipt)
    (id : String) (phase : ShareMarketPhase) :
    compactedBase (foldReceipt totals r) id phase =
      if OfPhase id phase r then (min ((compactedBase totals id phase).1 + r.tokens) u64Max,
          min ((compactedBase totals id phase).2 + r.counted) u64Max)
      else compactedBase totals id phase := by
  unfold compactedBase foldReceipt OfPhase
  by_cases hid : r.entitlementId = id
  · subst hid
    rw [get?_insert_self, Option.getD_some, CompactedUsage.ofPhase_add]
    by_cases hphase : r.phase = phase
    · exact (if_pos hphase).trans (if_pos ⟨rfl, hphase⟩).symm
    · exact (if_neg hphase).trans (if_neg fun h => hphase h.2).symm
  · rw [get?_insert_of_ne _ _ hid]
    exact (if_neg fun h => hid h.1).symm

theorem compactedBase_fold {totals : OrderedMap String CompactedUsage} (receipts : List MarketRequestReceipt)
    (hcapped : (compactedBase totals id phase).1 ≤ u64Max ∧ (compactedBase totals id phase).2 ≤ u64Max) :
    compactedBase (receipts.foldl foldReceipt totals) id phase =
      (min ((compactedBase totals id phase).1 + ((receipts.filter fun r => OfPhase id phase r).map
          MarketRequestReceipt.tokens).sum) u64Max,
        min ((compactedBase totals id phase).2 + ((receipts.filter fun r => OfPhase id phase r).map
          MarketRequestReceipt.counted).sum) u64Max) := by
  induction receipts generalizing totals with
  | nil =>
    rw [foldl_nil, filter_nil, map_nil, map_nil, sum_nil, Nat.add_zero, Nat.add_zero,
      Nat.min_eq_left hcapped.1, Nat.min_eq_left hcapped.2]
  | cons r receipts ih =>
    have hstep := compactedBase_foldReceipt totals r id phase
    rw [foldl_cons, filter_cons]
    by_cases h : OfPhase id phase r
    · rw [if_pos h] at hstep
      rw [if_pos (decide_eq_true h), ih, hstep, map_cons, map_cons, sum_cons, sum_cons]
      · dsimp only
        generalize u64Max = cap
        congr 1
        · omega
        · omega
      · rw [hstep]
        exact ⟨Nat.min_le_right _ _, Nat.min_le_right _ _⟩
    · rw [if_neg h] at hstep
      rw [if_neg (by rw [decide_eq_true_eq]; exact h), ih, hstep]
      rw [hstep]
      exact hcapped

theorem compactedBase_fold_capped {totals : OrderedMap String CompactedUsage} (receipts : List MarketRequestReceipt)
    (hcapped : (compactedBase totals id phase).1 ≤ u64Max ∧ (compactedBase totals id phase).2 ≤ u64Max) :
    (compactedBase (receipts.foldl foldReceipt totals) id phase).1 ≤ u64Max ∧
      (compactedBase (receipts.foldl foldReceipt totals) id phase).2 ≤ u64Max := by
  rw [compactedBase_fold receipts hcapped]
  exact ⟨Nat.min_le_right _ _, Nat.min_le_right _ _⟩

end

end CcSwitchServer.Sharing
