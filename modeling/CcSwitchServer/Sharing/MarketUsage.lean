import CcSwitchServer.Sharing.MarketWindows

/-! # What a Market grant's usage stands for

A delta and the replay of the receipts lead to usages that are read alike.
-/

namespace CcSwitchServer.Sharing
open Foundations Calendar Windows Usage Counter ShareUserUsage MarketRequestReceipt

/-! ## Counters of a bucket -/

def tokenCounter (b : ShareUserUsageBucket) : Counter := ⟨b.startedAtMs, b.tokensUsed⟩

def requestCounter (b : ShareUserUsageBucket) : Counter := ⟨b.startedAtMs, b.requestsCount⟩

def MarketRequestReceipt.counted (r : MarketRequestReceipt) : ℕ := if r.countRequest then 1 else 0

def tokenCharges (receipts : List MarketRequestReceipt) : List Charge :=
  receipts.map fun r => ⟨r.startedAtMs, r.tokens⟩

def requestCharges (receipts : List MarketRequestReceipt) : List Charge :=
  receipts.map fun r => ⟨r.startedAtMs, r.counted⟩

section
variable {b : ShareUserUsageBucket} {start : ℤ} {tokens : ℕ} {count : Bool}

theorem tokenCounter_record (b : ShareUserUsageBucket) (start : ℤ) (tokens : ℕ) (count : Bool) :
    tokenCounter (recordBucket b start tokens count) = (tokenCounter b).record u64Max start tokens := by
  unfold recordBucket tokenCounter record saturatingAdd
  by_cases h : b.startedAtMs = start
  · rw [if_neg (not_not.mpr h), if_pos h]
    subst h
    rfl
  · rw [if_pos h, if_neg h]

theorem requestCounter_record (hb : b.requestsCount ≤ u64Max) (start : ℤ) (tokens : ℕ) (count : Bool) :
    requestCounter (recordBucket b start tokens count) =
      (requestCounter b).record u64Max start (if count then 1 else 0) := by
  have hcapped : min b.requestsCount u64Max = b.requestsCount := Nat.min_eq_left hb
  unfold recordBucket requestCounter record saturatingAdd
  by_cases h : b.startedAtMs = start
  · rw [if_neg (not_not.mpr h), if_pos h]
    subst h
    cases count with
    | false => exact congrArg (Counter.mk _) hcapped.symm
    | true => rfl
  · rw [if_pos h, if_neg h]
    cases count with
    | false => rfl
    | true => rfl

theorem tokenCounter_advance (b : ShareUserUsageBucket) (start : ℤ) (tokens : ℕ) (count : Bool) :
    tokenCounter (recordUnlessOlder b start tokens count) = (tokenCounter b).advance u64Max start tokens := by
  unfold recordUnlessOlder advance
  by_cases h : b.startedAtMs ≤ start
  · have hcounter : (tokenCounter b).start ≤ start := h
    rw [if_pos h, if_pos hcounter, tokenCounter_record]
  · have hcounter : ¬(tokenCounter b).start ≤ start := h
    rw [if_neg h, if_neg hcounter]

theorem requestCounter_advance (hb : b.requestsCount ≤ u64Max) (start : ℤ) (tokens : ℕ) (count : Bool) :
    requestCounter (recordUnlessOlder b start tokens count) =
      (requestCounter b).advance u64Max start (if count then 1 else 0) := by
  unfold recordUnlessOlder advance
  by_cases h : b.startedAtMs ≤ start
  · have hcounter : (requestCounter b).start ≤ start := h
    rw [if_pos h, if_pos hcounter, requestCounter_record hb]
  · have hcounter : ¬(requestCounter b).start ≤ start := h
    rw [if_neg h, if_neg hcounter]

theorem startedAt_advance (b : ShareUserUsageBucket) (start : ℤ) (tokens : ℕ) (count : Bool) :
    (recordUnlessOlder b start tokens count).startedAtMs = max b.startedAtMs start := by
  unfold recordUnlessOlder
  by_cases h : b.startedAtMs ≤ start
  · rw [if_pos h, max_eq_right h]
    unfold recordBucket
    by_cases hsame : b.startedAtMs = start
    · rw [if_neg (not_not.mpr hsame)]
      exact hsame
    · rw [if_pos hsame]
  · rw [if_neg h, max_eq_left (not_le.mp h).le]

end

/-! ## The bucket follows the receipts -/

/-- The bucket of the policy is not of a later window than `now`'s, and its counters are those of the
receipts. -/
structure Follows (policy : ShareUserPolicy) (listed : ℤ → Prop) (now : ℤ)
    (receipts : List MarketRequestReceipt) (u : ShareUserUsage) : Prop where
  started : policyBucket u policy = none → receipts = []
  bucket : ∀ b, policyBucket u policy = some b → b.startedAtMs ≤ windowStart policy now ∧
    Tracks u64Max (windowStart policy) listed (tokenCharges receipts) (tokenCounter b) ∧
    Tracks u64Max (windowStart policy) listed (requestCharges receipts) (requestCounter b)

section
variable {policy : ShareUserPolicy} {listed listed' : ℤ → Prop} {now : ℤ}
  {receipts old rest : List MarketRequestReceipt} {r : MarketRequestReceipt} {u u' : ShareUserUsage}
  {tokens : ℕ} {count : Bool}

/-- A delta leads where its receipt would. -/
theorem Follows.charge (h : Follows policy listed now receipts u) (hperm : receipts.Perm (old ++ rest))
    (hold : ∀ x ∈ old, x.startedAtMs = r.startedAtMs) (hnow : r.startedAtMs ≤ now)
    (htokens : r.tokens = (old.map MarketRequestReceipt.tokens).sum + tokens)
    (hcounted : r.counted = (old.map MarketRequestReceipt.counted).sum + if count then 1 else 0)
    (hu' : policyBucket u' policy = some (ShareUserUsage.recordUnlessOlder
      ((policyBucket u policy).getD ⟨windowStart policy r.startedAtMs, 0, 0⟩)
      (windowStart policy r.startedAtMs) tokens count)) : Follows policy listed now (r :: rest) u' := by
  have hwindow := windowStart_mono policy r.startedAtMs now hnow
  have hfound : ∃ b, (policyBucket u policy).getD ⟨windowStart policy r.startedAtMs, 0, 0⟩ = b ∧
      b.startedAtMs ≤ windowStart policy now ∧
      Tracks u64Max (windowStart policy) listed (tokenCharges old ++ tokenCharges rest) (tokenCounter b) ∧
      Tracks u64Max (windowStart policy) listed (requestCharges old ++ requestCharges rest) (requestCounter b) := by
    cases hb : policyBucket u policy with
    | none =>
      have hnil : old ++ rest = [] := (h.started hb ▸ hperm).nil_eq.symm
      obtain ⟨rfl, rfl⟩ := List.append_eq_nil_iff.mp hnil
      exact ⟨_, rfl, hwindow, .fresh _, .fresh _⟩
    | some b =>
      obtain ⟨hstart, htoken, hrequest⟩ := h.bucket b hb
      refine ⟨b, rfl, hstart, ?_, ?_⟩
      · have hmap := hperm.map fun x : MarketRequestReceipt => (⟨x.startedAtMs, x.tokens⟩ : Charge)
        rw [List.map_append] at hmap
        exact htoken.perm hmap
      · have hmap := hperm.map fun x : MarketRequestReceipt => (⟨x.startedAtMs, x.counted⟩ : Charge)
        rw [List.map_append] at hmap
        exact hrequest.perm hmap
  obtain ⟨b, hb, hstart, htoken, hrequest⟩ := hfound
  rw [hb] at hu'
  refine ⟨fun hnone => ?_, fun b' hb' => ?_⟩
  · rw [hu'] at hnone
    cases hnone
  · rw [hu'] at hb'
    cases hb'
    refine ⟨?_, ?_, ?_⟩
    · rw [startedAt_advance]
      exact max_le hstart hwindow
    · have hcharge : Tracks u64Max (windowStart policy) listed
          (⟨r.startedAtMs, ((tokenCharges old).map Charge.amount).sum + tokens⟩ :: tokenCharges rest)
          ((tokenCounter b).advance u64Max (windowStart policy r.startedAtMs) tokens) := by
        refine htoken.charge ?_
        intro charge hcharge
        obtain ⟨x, hx, rfl⟩ := List.mem_map.mp hcharge
        exact hold x hx
      rw [tokenCounter_advance]
      unfold tokenCharges at hcharge ⊢
      rw [List.map_map] at hcharge
      rw [List.map_cons, htokens]
      exact hcharge
    · have hcharge : Tracks u64Max (windowStart policy) listed
          (⟨r.startedAtMs, ((requestCharges old).map Charge.amount).sum + if count then 1 else 0⟩ ::
            requestCharges rest)
          ((requestCounter b).advance u64Max (windowStart policy r.startedAtMs) (if count then 1 else 0)) := by
        refine hrequest.charge ?_
        intro charge hcharge
        obtain ⟨x, hx, rfl⟩ := List.mem_map.mp hcharge
        exact hold x hx
      rw [requestCounter_advance hrequest.capped]
      unfold requestCharges at hcharge ⊢
      rw [List.map_map] at hcharge
      rw [List.map_cons, hcounted]
      exact hcharge

variable (h : Follows policy listed now receipts u)
include h

theorem Follows.drop (kept : ℤ → Bool)
    (hlisted : ∀ start, listed' start → listed start)
    (hdropped : ∀ x ∈ receipts, kept x.startedAtMs = false → ¬listed' (windowStart policy x.startedAtMs)) :
    Follows policy listed' now (receipts.filter fun x => kept x.startedAtMs) u := by
  refine ⟨fun hnone => by rw [h.started hnone, List.filter_nil], fun b hb => ?_⟩
  obtain ⟨hstart, htoken, hrequest⟩ := h.bucket b hb
  refine ⟨hstart, ?_, ?_⟩
  · have hdrop := htoken.drop (fun charge => kept charge.time) hlisted (by
      intro charge hcharge hkept
      obtain ⟨x, hx, rfl⟩ := List.mem_map.mp hcharge
      exact hdropped x hx hkept)
    unfold tokenCharges at hdrop ⊢
    rw [List.filter_map] at hdrop
    exact hdrop
  · have hdrop := hrequest.drop (fun charge => kept charge.time) hlisted (by
      intro charge hcharge hkept
      obtain ⟨x, hx, rfl⟩ := List.mem_map.mp hcharge
      exact hdropped x hx hkept)
    unfold requestCharges at hdrop ⊢
    rw [List.filter_map] at hdrop
    exact hdrop

theorem Follows.perm {receipts' : List MarketRequestReceipt}
    (hperm : receipts.Perm receipts') : Follows policy listed now receipts' u := by
  refine ⟨fun hnone => (h.started hnone ▸ hperm).nil_eq.symm, fun b hb => ?_⟩
  obtain ⟨hstart, htoken, hrequest⟩ := h.bucket b hb
  exact ⟨hstart, htoken.perm (hperm.map _), hrequest.perm (hperm.map _)⟩

/-- What a bucket shows is the sum of the receipts in its window. -/
theorem Follows.read (hlisted : listed (windowStart policy now)) :
    (((policyBucket u policy).filter fun b => b.startedAtMs = windowStart policy now).map
        fun b => b.tokensUsed).getD 0 =
      min (windowSum (windowStart policy) (tokenCharges receipts) (windowStart policy now)) u64Max ∧
    (((policyBucket u policy).filter fun b => b.startedAtMs = windowStart policy now).map
        fun b => b.requestsCount).getD 0 =
      min (windowSum (windowStart policy) (requestCharges receipts) (windowStart policy now)) u64Max := by
  cases hb : policyBucket u policy with
  | none =>
    rw [h.started hb]
    exact ⟨rfl, rfl⟩
  | some b =>
    obtain ⟨hstart, htoken, hrequest⟩ := h.bucket b hb
    rw [← htoken.read_eq hstart hlisted, ← hrequest.read_eq hstart hlisted]
    have htokens : (tokenCounter b).read (windowStart policy now) =
        if b.startedAtMs = windowStart policy now then b.tokensUsed else 0 := rfl
    have hrequests : (requestCounter b).read (windowStart policy now) =
        if b.startedAtMs = windowStart policy now then b.requestsCount else 0 := rfl
    rw [htokens, hrequests]
    by_cases hsame : b.startedAtMs = windowStart policy now
    · have hfilter : ((some b).filter fun b => decide (b.startedAtMs = windowStart policy now)) = some b :=
        Option.filter_some_pos (decide_eq_true hsame)
      rw [hfilter, if_pos hsame, if_pos hsame]
      exact ⟨rfl, rfl⟩
    · have hfilter : ((some b).filter fun b => decide (b.startedAtMs = windowStart policy now)) = none :=
        Option.filter_some_neg (decide_eq_false hsame)
      rw [hfilter, if_neg hsame, if_neg hsame]
      exact ⟨rfl, rfl⟩

end

/-! ## The usage agrees with the receipts -/

def Windowed (policy : ShareUserPolicy) : Prop := policy.tokenPeriod ≠ .lifetime ∧ policy.tokenPeriod ≠ .accountReset

def FromMonday (policy : ShareUserPolicy) (first : ℤ) : Prop := policy.tokenPeriod = .week → 4 * dayMs ≤ first

/-- `base` is what was compacted, Tokens and requests. -/
structure Agrees (policy : ShareUserPolicy) (listed : ℤ → Prop) (first now : ℤ) (base : ℕ × ℕ)
    (receipts : List MarketRequestReceipt) (u : ShareUserUsage) : Prop where
  lifetime : u.lifetime = ⟨0, min (base.1 + (receipts.map tokens).sum) u64Max,
    min (base.2 + (receipts.map counted).sum) u64Max⟩
  bucket : Windowed policy → FromMonday policy first → Follows policy listed now receipts u

section
variable {wall : ℤ} {policy : ShareUserPolicy} {listed listed' : ℤ → Prop} {first now : ℤ} {base : ℕ × ℕ}
  {receipts old rest : List MarketRequestReceipt} {r : MarketRequestReceipt} {u u' : ShareUserUsage}
  {tokens : ℕ} {count : Bool}

theorem lifetime_delta (t : ℤ) : (u.recordMarketDelta wall policy tokens t count).lifetime =
    recordBucket u.lifetime 0 tokens count := by
  unfold recordMarketDelta
  split <;> rfl

theorem lifetime_replay (t : ℤ) : (u.recordForPolicyInner wall policy tokens t count).lifetime =
    recordBucket u.lifetime 0 tokens count := by
  unfold recordForPolicyInner
  split <;> rfl

section
variable (h : Agrees policy listed first now base receipts u)
include h

theorem Agrees.lifetime_charge
    (hperm : receipts.Perm (old ++ rest)) (htokens : r.tokens = (old.map MarketRequestReceipt.tokens).sum + tokens)
    (hcounted : r.counted = (old.map MarketRequestReceipt.counted).sum + if count then 1 else 0) :
    recordBucket u.lifetime 0 tokens count =
      ⟨0, min (base.1 + ((r :: rest).map MarketRequestReceipt.tokens).sum) u64Max,
        min (base.2 + ((r :: rest).map MarketRequestReceipt.counted).sum) u64Max⟩ := by
  have htokenSum := (hperm.map MarketRequestReceipt.tokens).sum_eq
  have hcountSum := (hperm.map MarketRequestReceipt.counted).sum_eq
  rw [List.map_append, List.sum_append] at htokenSum hcountSum
  rw [h.lifetime, List.map_cons, List.sum_cons, List.map_cons, List.sum_cons, htokens, hcounted]
  unfold recordBucket saturatingAdd
  rw [if_neg (not_not.mpr rfl)]
  dsimp only
  generalize u64Max = cap
  congr 1
  · omega
  · cases count with
    | false => simp only [Bool.false_eq_true, if_false]; omega
    | true => simp only [if_true]; omega

theorem Agrees.perm {receipts' : List MarketRequestReceipt} (hperm : receipts.Perm receipts') :
    Agrees policy listed first now base receipts' u := by
  refine ⟨?_, fun hp hmonday => (h.bucket hp hmonday).perm hperm⟩
  rw [h.lifetime, (hperm.map tokens).sum_eq, (hperm.map counted).sum_eq]

theorem Agrees.delta
    (hperm : receipts.Perm (old ++ rest)) (hold : ∀ x ∈ old, x.startedAtMs = r.startedAtMs)
    (hset : AnchorSet policy) (hclock : OnClock r.startedAtMs) (hnow : r.startedAtMs ≤ now)
    (htokens : r.tokens = (old.map MarketRequestReceipt.tokens).sum + tokens)
    (hcounted : r.counted = (old.map MarketRequestReceipt.counted).sum + if count then 1 else 0) :
    Agrees policy listed first now base (r :: rest) (u.recordMarketDelta wall policy tokens r.startedAtMs count) := by
  refine ⟨?_, fun hp hmonday => ?_⟩
  · rw [lifetime_delta]
    exact h.lifetime_charge hperm htokens hcounted
  · exact (h.bucket hp hmonday).charge hperm hold hnow htokens hcounted
      (policyBucket_delta hp hset hclock tokens count)

end

/-- How `project` charges a receipt. -/
def replayReceipt (wall : ℤ) (policy : ShareUserPolicy) (usage : ShareUserUsage)
    (receipt : MarketRequestReceipt) : ShareUserUsage :=
  if receipt.countRequest then usage.recordForPolicy wall policy receipt.tokens receipt.startedAtMs
  else usage.recordSupplementalForPolicy wall policy receipt.tokens receipt.startedAtMs

theorem replayReceipt_eq (u : ShareUserUsage) (r : MarketRequestReceipt) :
    replayReceipt wall policy u r = u.recordForPolicyInner wall policy r.tokens r.startedAtMs r.countRequest := by
  unfold replayReceipt
  cases r.countRequest with
  | false => rfl
  | true => rfl

/-- The replay of the receipts agrees with them. -/
theorem Agrees.replay {done : List MarketRequestReceipt}
    (h : Agrees policy listed first now base done u) (hset : AnchorSet policy)
    (hsorted : receipts.Pairwise fun a b => a.startedAtMs ≤ b.startedAtMs)
    (hclock : ∀ x ∈ receipts, OnClock x.startedAtMs ∧ x.startedAtMs ≤ now)
    (hstart : Windowed policy → FromMonday policy first → ∀ b, policyBucket u policy = some b →
      ∀ x ∈ receipts, b.startedAtMs ≤ windowStart policy x.startedAtMs) :
    Agrees policy listed first now base (done ++ receipts) (receipts.foldl (replayReceipt wall policy) u) := by
  induction receipts generalizing done u with
  | nil =>
    rw [List.append_nil]
    exact h
  | cons x receipts ih =>
    rw [List.pairwise_cons] at hsorted
    obtain ⟨hx, hnow⟩ := hclock x List.mem_cons_self
    have hstep : Windowed policy → FromMonday policy first →
        policyBucket (replayReceipt wall policy u x) policy = some (ShareUserUsage.recordUnlessOlder
          ((policyBucket u policy).getD ⟨windowStart policy x.startedAtMs, 0, 0⟩)
          (windowStart policy x.startedAtMs) x.tokens x.countRequest) := by
      intro hp hmonday
      rw [replayReceipt_eq, policyBucket_replay hp hset hx]
      unfold ShareUserUsage.recordUnlessOlder
      rw [if_pos]
      cases hb : policyBucket u policy with
      | none => exact le_refl _
      | some b => exact hstart hp hmonday b hb x List.mem_cons_self
    have hcounted : x.counted = (([] : List MarketRequestReceipt).map MarketRequestReceipt.counted).sum +
        if x.countRequest then 1 else 0 := (Nat.zero_add _).symm
    have htokens : x.tokens = (([] : List MarketRequestReceipt).map MarketRequestReceipt.tokens).sum +
        x.tokens := (Nat.zero_add _).symm
    have hsame : done.Perm (([] : List MarketRequestReceipt) ++ done) := List.Perm.refl done
    have hnext : Agrees policy listed first now base (x :: done) (replayReceipt wall policy u x) := by
      refine ⟨?_, fun hp hmonday => ?_⟩
      · rw [replayReceipt_eq, lifetime_replay]
        exact h.lifetime_charge hsame htokens hcounted
      · exact (h.bucket hp hmonday).charge hsame (fun _ hmem => absurd hmem List.not_mem_nil) hnow htokens
          hcounted (hstep hp hmonday)
    have hlater := ih hnext hsorted.2 (fun y hy => hclock y (List.mem_cons_of_mem _ hy)) (by
      intro hp hmonday b hb y hy
      rw [hstep hp hmonday] at hb
      cases hb
      rw [startedAt_advance]
      refine (max_le ?_ (le_refl _)).trans (windowStart_mono policy _ _ (hsorted.1 y hy))
      cases hb : policyBucket u policy with
      | none => exact le_refl _
      | some b => exact hstart hp hmonday b hb x List.mem_cons_self)
    exact hlater.perm (List.perm_middle.symm)

variable (h : Agrees policy listed first now base receipts u)
include h

theorem Agrees.drop (kept : ℤ → Bool)
    (hlisted : ∀ start, listed' start → listed start)
    (hdropped : Windowed policy → ∀ x ∈ receipts, kept x.startedAtMs = false →
      ¬listed' (windowStart policy x.startedAtMs)) :
    Agrees policy listed' first now
      (min (base.1 + ((receipts.filter fun x => !kept x.startedAtMs).map MarketRequestReceipt.tokens).sum) u64Max,
        min (base.2 + ((receipts.filter fun x => !kept x.startedAtMs).map MarketRequestReceipt.counted).sum) u64Max)
      (receipts.filter fun x => kept x.startedAtMs) u := by
  refine ⟨?_, fun hp hmonday => (h.bucket hp hmonday).drop kept hlisted (hdropped hp)⟩
  have hperm := List.filter_append_perm (fun x : MarketRequestReceipt => kept x.startedAtMs) receipts
  have htokens := (hperm.map MarketRequestReceipt.tokens).sum_eq
  have hcounted := (hperm.map MarketRequestReceipt.counted).sum_eq
  rw [List.map_append, List.sum_append] at htokens hcounted
  rw [h.lifetime, ← htokens, ← hcounted]
  generalize u64Max = cap
  congr 1
  · omega
  · omega

/-- Usages that agree with the same receipts are read alike. -/
theorem Agrees.same_reading {wall' : ℤ}
    (h' : Agrees policy listed first now base receipts u') (hset : AnchorSet policy) (hnow : OnClock now)
    (hmonday : FromMonday policy first) (hlisted : Windowed policy → listed (windowStart policy now)) :
    u.tokensForPolicy wall policy now = u'.tokensForPolicy wall' policy now ∧
      requestsForPolicy wall u policy now = requestsForPolicy wall' u' policy now := by
  have hstart : u.lifetime.startedAtMs = 0 := by rw [h.lifetime]
  have hstart' : u'.lifetime.startedAtMs = 0 := by rw [h'.lifetime]
  rw [tokensForPolicy_bucketAt, tokensForPolicy_bucketAt]
  unfold requestsForPolicy
  rw [bucketAt_eq hstart hset hnow, bucketAt_eq hstart' hset hnow]
  by_cases hp : Windowed policy
  · obtain ⟨htokens, hrequests⟩ := (h.bucket hp hmonday).read (hlisted hp)
    obtain ⟨htokens', hrequests'⟩ := (h'.bucket hp hmonday).read (hlisted hp)
    exact ⟨htokens.trans htokens'.symm, hrequests.trans hrequests'.symm⟩
  · have hbucket : policyBucket u policy = policyBucket u' policy := by
      unfold policyBucket
      cases hperiod : policy.tokenPeriod with
      | lifetime =>
        rw [h.lifetime, h'.lifetime]
      | accountReset => rfl
      | day | week | calendarMonth | sevenDays | thirtyDays =>
        exact absurd ⟨by rw [hperiod]; decide, by rw [hperiod]; decide⟩ hp
    rw [hbucket]
    exact ⟨rfl, rfl⟩

end

end CcSwitchServer.Sharing
