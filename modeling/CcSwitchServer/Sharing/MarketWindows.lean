import CcSwitchServer.Foundations.Windows
import CcSwitchServer.Sharing.MarketTrials
import CcSwitchServer.Sharing.UsageRebase

/-! # The buckets of a Market grant

Deltas advance the counters of a window, and the replay of the receipts records them anew.
-/

namespace CcSwitchServer.Sharing
open Foundations Calendar Windows Usage Option ShareUserUsage

/-! ## Windows of a policy -/

def windowStart (policy : ShareUserPolicy) (t : ℤ) : ℤ :=
  match policy.tokenPeriod with
  | .day => t / dayMs * dayMs
  | .week => (t / dayMs - daysFromMonday (t / dayMs)) * dayMs
  | .calendarMonth => monthStart (monthOf (t / dayMs)) * dayMs
  | .sevenDays =>
    let anchor := policy.tokenPeriodAnchorAtMs.getD 0
    anchor + (t - anchor) / (7 * dayMs) * (7 * dayMs)
  | .thirtyDays =>
    let anchor := policy.tokenPeriodAnchorAtMs.getD 0
    anchor + (t - anchor) / (30 * dayMs) * (30 * dayMs)
  | .lifetime | .accountReset => 0

/-- An instant of the running clock that `chrono` can represent. -/
def OnClock (t : ℤ) : Prop := 0 < t ∧ IsDate (t / dayMs)

def AnchorSet (policy : ShareUserPolicy) : Prop :=
  policy.tokenPeriod.requiresAnchor = true →
    ∃ anchor, policy.tokenPeriodAnchorAtMs = some anchor ∧ 0 ≤ anchor ∧ anchor ≤ i64Max

section
variable {policy : ShareUserPolicy} {s t : ℤ}

theorem windowStart_mono (policy : ShareUserPolicy) (s t : ℤ) (h : s ≤ t) :
    windowStart policy s ≤ windowStart policy t := by
  have hday : s / dayMs ≤ t / dayMs := Int.ediv_le_ediv (by decide) h
  have hmonth := monthStart_mono (monthOf_mono hday)
  unfold windowStart daysFromMonday dayMs minuteMs at *
  cases policy.tokenPeriod with
  | day | week | calendarMonth | sevenDays | thirtyDays => dsimp only; omega
  | lifetime | accountReset => exact le_refl 0

theorem windowStart_le (ht : 0 ≤ t) : windowStart policy t ≤ t := by
  have hmonth := monthOf_bounds (t / dayMs)
  unfold windowStart daysFromMonday dayMs minuteMs at *
  cases policy.tokenPeriod with
  | day | week | calendarMonth | sevenDays | thirtyDays => dsimp only; omega
  | lifetime | accountReset => exact ht

theorem lt_windowStart (hp : policy.tokenPeriod ≠ .lifetime ∧ policy.tokenPeriod ≠ .accountReset) :
    t < windowStart policy t + 31 * dayMs := by
  have hmonth := monthOf_bounds (t / dayMs)
  have hlength := monthStart_succ_le (monthOf (t / dayMs))
  unfold windowStart daysFromMonday dayMs minuteMs at *
  cases hperiod : policy.tokenPeriod with
  | day | week | calendarMonth | sevenDays | thirtyDays => dsimp only; omega
  | lifetime => exact absurd hperiod hp.1
  | accountReset => exact absurd hperiod hp.2

theorem windowStart_nonneg (hcalendar : policy.tokenPeriod.requiresAnchor = false) (ht : 0 < t)
    (hweek : policy.tokenPeriod = .week → 4 * dayMs ≤ t) : 0 ≤ windowStart policy t := by
  have hmonth : monthStart (monthOf 0) ≤ monthStart (monthOf (t / dayMs)) := by
    refine monthStart_mono (monthOf_mono ?_)
    unfold dayMs minuteMs
    omega
  have hfirst : monthStart (monthOf 0) = 0 := by decide
  unfold windowStart daysFromMonday dayMs minuteMs at *
  cases hperiod : policy.tokenPeriod with
  | day | calendarMonth => dsimp only; omega
  | week =>
    have hmonday := hweek hperiod
    dsimp only
    omega
  | lifetime | accountReset => exact le_refl 0
  | sevenDays | thirtyDays =>
    rw [hperiod] at hcalendar
    cases hcalendar

theorem OnClock.between {first : ℤ} (hfirst : 0 < first) (hnow : IsDate (t / dayMs)) (hs : first ≤ s)
    (hle : s ≤ t) : OnClock s := by
  refine ⟨by omega, ?_, ?_⟩
  · have hepoch : yearStart (-262143) ≤ 0 := by decide
    unfold dayMs minuteMs
    omega
  · have hday : s / dayMs ≤ t / dayMs := Int.ediv_le_ediv (by decide) hle
    exact lt_of_le_of_lt hday hnow.2

theorem fixedWindow_eq {anchor duration : ℤ} (hanchor : 0 ≤ anchor) (hmax : anchor ≤ i64Max)
    (hpos : 0 < duration) (hduration : duration ≤ 30 * dayMs) (ht : OnClock t) :
    fixedWindow anchor duration t = .ok ⟨some (anchor + (t - anchor) / duration * duration),
      some (anchor + (t - anchor) / duration * duration + duration)⟩ := by
  have hdiv := Int.mul_ediv_add_emod (t - anchor) duration
  have hnonneg := Int.emod_nonneg (t - anchor) hpos.ne'
  have hlt := Int.emod_lt_of_pos (t - anchor) hpos
  rw [mul_comm] at hdiv
  obtain ⟨hclock, -, hyear⟩ := ht
  have hlast : yearStart 262143 = 95026237 := by decide
  rw [hlast] at hyear
  unfold dayMs minuteMs at hyear hduration
  unfold i64Max at hmax
  have h128 : ∀ n : ℤ, -(2 ^ 65) ≤ n → n ≤ 2 ^ 65 → InI128 n := by
    intro n hlow hhigh
    unfold InI128 i128Max
    omega
  have h64 : ∀ n : ℤ, -(2 ^ 62) ≤ n → n ≤ 2 ^ 62 → InI64 n := by
    intro n hlow hhigh
    unfold InI64 i64Max
    omega
  unfold fixedWindow
  dsimp only
  generalize (t - anchor) / duration * duration = length at *
  rw [ensure_of (h128 _ (by omega) (by omega)), ok_bind, ensure_of (h128 _ (by omega) (by omega)), ok_bind,
    ensure_of (h128 _ (by omega) (by omega)), ok_bind, ensure_of (h64 _ (by omega) (by omega)), ok_bind,
    ensure_of (h64 _ (by omega) (by omega)), ok_bind]
  rfl

theorem anchoredStart_eq (hrequired : policy.tokenPeriod.requiresAnchor = true) (hset : AnchorSet policy)
    (ht : OnClock t) : ∃ anchor, policy.tokenPeriodAnchorAtMs = some anchor ∧
      anchoredStart policy t = some (anchor, windowStart policy t) := by
  obtain ⟨anchor, hanchor, hnonneg, hmax⟩ := hset hrequired
  refine ⟨anchor, hanchor, ?_⟩
  unfold anchoredStart tokenPeriodWindow windowStart
  rw [if_pos hrequired, hanchor]
  dsimp only [getD_some]
  rw [ensure_of ht.2, ok_bind]
  cases hperiod : policy.tokenPeriod with
  | sevenDays =>
    have hwindow := fixedWindow_eq hnonneg hmax (by decide : 0 < 7 * dayMs) (by decide) ht
    rw [show context (some anchor) PeriodError.anchorRequired = .ok anchor from rfl, ok_bind, hwindow]
    rfl
  | thirtyDays =>
    have hwindow := fixedWindow_eq hnonneg hmax (by decide : 0 < 30 * dayMs) (by decide) ht
    dsimp only
    rw [show context (some anchor) PeriodError.anchorRequired = .ok anchor from rfl, ok_bind, hwindow]
    rfl
  | lifetime | day | week | calendarMonth | accountReset =>
    rw [hperiod] at hrequired
    cases hrequired

theorem utcDay_onClock (wall : ℤ) (ht : OnClock t) : utcDay wall t = t / dayMs := by
  unfold utcDay
  rw [if_pos ht.2]

end

/-! ## The bucket of a policy -/

def anchoredBucket (b : ShareAnchoredUsageBucket) : ShareUserUsageBucket :=
  ⟨b.startedAtMs, b.tokensUsed, b.requestsCount⟩

/-- The bucket that counts for the policy. -/
def policyBucket (u : ShareUserUsage) (policy : ShareUserPolicy) : Option ShareUserUsageBucket :=
  match policy.tokenPeriod with
  | .lifetime => some u.lifetime
  | .day => some u.day
  | .week => some u.week
  | .calendarMonth => some u.calendarMonth
  | .sevenDays | .thirtyDays =>
    (u.anchored.filter fun b =>
      b.period = policy.tokenPeriod ∧ some b.anchorAtMs = policy.tokenPeriodAnchorAtMs).map anchoredBucket
  | .accountReset => none

/-- The bucket that `tokens_for_policy` reads, if it is of the current window. -/
def usageBucketAt (wall : ℤ) (u : ShareUserUsage) (policy : ShareUserPolicy) (nowMs : ℤ) :
    Option ShareUserUsageBucket :=
  match policy.tokenPeriod with
  | .lifetime => some u.lifetime
  | .day => if u.day.startedAtMs = utcDayStartMs wall nowMs then some u.day else none
  | .week => if u.week.startedAtMs = utcWeekStartMs wall nowMs then some u.week else none
  | .calendarMonth =>
    if u.calendarMonth.startedAtMs = utcCalendarMonthStartMs wall nowMs then some u.calendarMonth else none
  | .sevenDays | .thirtyDays =>
    match anchoredStart policy nowMs, u.anchored with
    | some (anchorAtMs, startedAtMs), some b =>
      if b.period = policy.tokenPeriod ∧ b.anchorAtMs = anchorAtMs ∧ b.startedAtMs = startedAtMs then
        some (anchoredBucket b)
      else none
    | _, _ => none
  | .accountReset => none

def requestsForPolicy (wall : ℤ) (u : ShareUserUsage) (policy : ShareUserPolicy) (nowMs : ℤ) : ℕ :=
  ((usageBucketAt wall u policy nowMs).map fun b => b.requestsCount).getD 0

section
variable {wall : ℤ} {policy : ShareUserPolicy} {u : ShareUserUsage} {t now : ℤ}

theorem tokensForPolicy_bucketAt (wall : ℤ) (u : ShareUserUsage) (policy : ShareUserPolicy) (now : ℤ) :
    u.tokensForPolicy wall policy now = ((usageBucketAt wall u policy now).map fun b => b.tokensUsed).getD 0 := by
  unfold tokensForPolicy usageBucketAt tokensFor currentBucketTokens
  cases policy.tokenPeriod with
  | lifetime => rfl
  | accountReset => rfl
  | day | week | calendarMonth =>
    refine (if_neg (by decide)).trans ?_
    dsimp only
    split <;> rfl
  | sevenDays | thirtyDays =>
    refine (if_pos (by decide)).trans ?_
    cases anchoredStart policy now with
    | none => rfl
    | some place =>
      cases u.anchored with
      | none => rfl
      | some b =>
        dsimp only
        split <;> rfl

/-- A bucket is read if it is of the window. -/
theorem bucketAt_eq (hlifetime : u.lifetime.startedAtMs = 0) (hset : AnchorSet policy) (hnow : OnClock now) :
    usageBucketAt wall u policy now =
      (policyBucket u policy).filter fun b => b.startedAtMs = windowStart policy now := by
  have hutc := utcDay_onClock wall hnow
  have hanchored : policy.tokenPeriod = .sevenDays ∨ policy.tokenPeriod = .thirtyDays →
      (match anchoredStart policy now, u.anchored with
        | some (anchorAtMs, startedAtMs), some b =>
          if b.period = policy.tokenPeriod ∧ b.anchorAtMs = anchorAtMs ∧ b.startedAtMs = startedAtMs then
            some (anchoredBucket b)
          else none
        | _, _ => none) =
      ((u.anchored.filter fun b => b.period = policy.tokenPeriod ∧
        some b.anchorAtMs = policy.tokenPeriodAnchorAtMs).map anchoredBucket).filter fun b =>
          b.startedAtMs = windowStart policy now := by
    intro hfixed
    have hrequired : policy.tokenPeriod.requiresAnchor = true := by
      simpa [ShareTokenPeriod.requiresAnchor] using hfixed
    obtain ⟨anchor, hanchor, hstart⟩ := anchoredStart_eq hrequired hset hnow
    rw [hstart, hanchor]
    cases u.anchored with
    | none => rfl
    | some b =>
      dsimp only
      by_cases hown : b.period = policy.tokenPeriod ∧ b.anchorAtMs = anchor
      · rw [Option.filter_some_pos (by simpa using hown), Option.map_some]
        by_cases hcurrent : b.startedAtMs = windowStart policy now
        · rw [if_pos ⟨hown.1, hown.2, hcurrent⟩, Option.filter_some_pos]
          exact decide_eq_true hcurrent
        · rw [if_neg (by tauto), Option.filter_some_neg]
          exact decide_eq_false hcurrent
      · rw [Option.filter_some_neg (by simpa using hown), if_neg (by tauto)]
        rfl
  cases hperiod : policy.tokenPeriod with
  | accountReset => simp [usageBucketAt, policyBucket, hperiod]
  | lifetime => simp [usageBucketAt, policyBucket, windowStart, hperiod, hlifetime, Option.filter]
  | day => simp [usageBucketAt, policyBucket, windowStart, hperiod, utcDayStartMs, hutc, Option.filter]
  | week => simp [usageBucketAt, policyBucket, windowStart, hperiod, utcWeekStartMs, hutc, Option.filter]
  | calendarMonth =>
    simp [usageBucketAt, policyBucket, windowStart, hperiod, utcCalendarMonthStartMs, hutc, Option.filter]
  | sevenDays =>
    have h := hanchored (.inl hperiod)
    unfold usageBucketAt policyBucket
    rw [hperiod] at h ⊢
    exact h
  | thirtyDays =>
    have h := hanchored (.inr hperiod)
    unfold usageBucketAt policyBucket
    rw [hperiod] at h ⊢
    exact h

/-! ## One charge -/

theorem policyBucket_fixed (hfixed : policy.tokenPeriod.requiresAnchor = true) (u : ShareUserUsage) :
    policyBucket u policy = (u.anchored.filter fun b =>
      b.period = policy.tokenPeriod ∧ some b.anchorAtMs = policy.tokenPeriodAnchorAtMs).map anchoredBucket := by
  unfold policyBucket
  cases hperiod : policy.tokenPeriod with
  | sevenDays | thirtyDays => rfl
  | lifetime | day | week | calendarMonth | accountReset =>
    rw [hperiod] at hfixed
    cases hfixed

theorem recordBucket_of_ne {b : ShareUserUsageBucket} {start : ℤ} (h : b.startedAtMs ≠ start) (tokens : ℕ)
    (count : Bool) : recordBucket b start tokens count = recordBucket ⟨start, 0, 0⟩ start tokens count := by
  unfold recordBucket
  rw [if_pos h, if_neg (not_not.mpr rfl)]

theorem anchoredBucket_add (b : ShareAnchoredUsageBucket) (tokens : ℕ) (count : Bool) :
    anchoredBucket (b.add tokens count) = recordBucket (anchoredBucket b) b.startedAtMs tokens count := by
  have hsame : ¬(anchoredBucket b).startedAtMs ≠ b.startedAtMs := not_not.mpr rfl
  unfold recordBucket
  rw [if_neg hsame]
  rfl

theorem anchored_filter {anchor : ℤ} (hanchor : policy.tokenPeriodAnchorAtMs = some anchor)
    (b : ShareAnchoredUsageBucket) (h : b.period = policy.tokenPeriod ∧ b.anchorAtMs = anchor) :
    ((some b).filter fun b => decide (b.period = policy.tokenPeriod ∧
      some b.anchorAtMs = policy.tokenPeriodAnchorAtMs)).map anchoredBucket = some (anchoredBucket b) := by
  rw [filter_some_pos, map_some]
  rw [hanchor]
  exact decide_eq_true ⟨h.1, congrArg some h.2⟩

variable (hp : policy.tokenPeriod ≠ .lifetime ∧ policy.tokenPeriod ≠ .accountReset)
include hp

/-- A delta advances the counter of its own window. -/
theorem policyBucket_delta
    (hset : AnchorSet policy) (ht : OnClock t) (tokens : ℕ) (count : Bool) :
    policyBucket (u.recordMarketDelta wall policy tokens t count) policy =
      some (recordUnlessOlder ((policyBucket u policy).getD ⟨windowStart policy t, 0, 0⟩)
        (windowStart policy t) tokens count) := by
  by_cases hfixed : policy.tokenPeriod.requiresAnchor = true
  · obtain ⟨anchor, hanchor, hstart⟩ := anchoredStart_eq hfixed hset ht
    rw [policyBucket_fixed hfixed, policyBucket_fixed hfixed]
    unfold recordMarketDelta
    rw [hstart]
    dsimp only
    generalize windowStart policy t = start
    have hfresh : anchoredBucket ((emptyAnchored policy anchor start).add tokens count) =
        recordUnlessOlder ⟨start, 0, 0⟩ start tokens count := by
      unfold recordUnlessOlder
      rw [if_pos (le_refl _)]
      exact anchoredBucket_add _ _ _
    have hself : (if (emptyAnchored policy anchor start).startedAtMs = start then
        (emptyAnchored policy anchor start).add tokens count else emptyAnchored policy anchor start) =
          (emptyAnchored policy anchor start).add tokens count := if_pos rfl
    cases u.anchored with
    | none =>
      rw [getD_none, ite_self, hself, anchored_filter hanchor _ ⟨rfl, rfl⟩, hfresh]
      rfl
    | some b =>
      rw [getD_some]
      by_cases hreset : b.period ≠ policy.tokenPeriod ∨ b.anchorAtMs ≠ anchor ∨ b.startedAtMs < start
      · have hbucket : (if b.period ≠ policy.tokenPeriod ∨ b.anchorAtMs ≠ anchor ∨ b.startedAtMs < start then
            emptyAnchored policy anchor start else b) = emptyAnchored policy anchor start := if_pos hreset
        rw [hbucket, hself, anchored_filter hanchor _ ⟨rfl, rfl⟩, hfresh]
        by_cases hown : b.period = policy.tokenPeriod ∧ b.anchorAtMs = anchor
        · have holder : b.startedAtMs < start := by tauto
          rw [anchored_filter hanchor b hown, getD_some]
          unfold recordUnlessOlder
          have hle : (anchoredBucket b).startedAtMs ≤ start := holder.le
          have hne : (anchoredBucket b).startedAtMs ≠ start := holder.ne
          rw [if_pos (le_refl _), if_pos hle, recordBucket_of_ne hne]
        · rw [filter_some_neg (by rw [hanchor]; simpa using hown)]
          rfl
      · have hbucket : (if b.period ≠ policy.tokenPeriod ∨ b.anchorAtMs ≠ anchor ∨ b.startedAtMs < start then
            emptyAnchored policy anchor start else b) = b := if_neg hreset
        have hown : b.period = policy.tokenPeriod ∧ b.anchorAtMs = anchor := by tauto
        have hnewer : ¬b.startedAtMs < start := by tauto
        rw [hbucket, anchored_filter hanchor b hown, getD_some]
        unfold recordUnlessOlder
        by_cases hsame : b.startedAtMs = start
        · have hle : (anchoredBucket b).startedAtMs ≤ start := hsame.le
          rw [if_pos hsame, if_pos hle, anchored_filter hanchor (b.add tokens count) hown, anchoredBucket_add, hsame]
        · have hlt : ¬(anchoredBucket b).startedAtMs ≤ start := fun hle =>
            hnewer (lt_of_le_of_ne hle hsame)
          rw [if_neg hsame, if_neg hlt, anchored_filter hanchor b hown]
  · have hnone : anchoredStart policy t = none := by
      unfold anchoredStart
      rw [if_neg hfixed]
    have hutc := utcDay_onClock wall ht
    unfold recordMarketDelta policyBucket windowStart
    rw [hnone]
    cases hperiod : policy.tokenPeriod with
    | lifetime => exact absurd hperiod hp.1
    | accountReset => exact absurd hperiod hp.2
    | day =>
      unfold utcDayStartMs
      rw [hutc]
      rfl
    | week =>
      unfold utcWeekStartMs
      rw [hutc]
      rfl
    | calendarMonth =>
      unfold utcCalendarMonthStartMs
      rw [hutc]
      rfl
    | sevenDays | thirtyDays =>
      rw [hperiod] at hfixed
      exact absurd rfl hfixed

/-- A replayed receipt is recorded in its window. -/
theorem policyBucket_replay
    (hset : AnchorSet policy) (ht : OnClock t) (tokens : ℕ) (count : Bool) :
    policyBucket (u.recordForPolicyInner wall policy tokens t count) policy =
      some (recordBucket ((policyBucket u policy).getD ⟨windowStart policy t, 0, 0⟩)
        (windowStart policy t) tokens count) := by
  by_cases hfixed : policy.tokenPeriod.requiresAnchor = true
  · obtain ⟨anchor, hanchor, hstart⟩ := anchoredStart_eq hfixed hset ht
    rw [policyBucket_fixed hfixed, policyBucket_fixed hfixed]
    unfold recordForPolicyInner
    rw [hstart]
    dsimp only [recordInner]
    generalize windowStart policy t = start
    have hfresh : anchoredBucket ((emptyAnchored policy anchor start).add tokens count) =
        recordBucket ⟨start, 0, 0⟩ start tokens count := anchoredBucket_add _ _ _
    cases u.anchored with
    | none =>
      rw [anchored_filter hanchor _ ⟨rfl, rfl⟩, hfresh]
      rfl
    | some b =>
      dsimp only
      by_cases hown : b.period = policy.tokenPeriod ∧ b.anchorAtMs = anchor
      · rw [anchored_filter hanchor b hown, getD_some]
        by_cases hsame : b.startedAtMs = start
        · rw [if_neg (by tauto), anchored_filter hanchor (b.add tokens count) hown, anchoredBucket_add, hsame]
        · have hne : (anchoredBucket b).startedAtMs ≠ start := hsame
          rw [if_pos (by tauto), anchored_filter hanchor _ ⟨rfl, rfl⟩, hfresh, recordBucket_of_ne hne]
      · rw [if_pos (by tauto), anchored_filter hanchor _ ⟨rfl, rfl⟩, hfresh,
          filter_some_neg (by rw [hanchor]; simpa using hown)]
        rfl
  · have hnone : anchoredStart policy t = none := by
      unfold anchoredStart
      rw [if_neg hfixed]
    have hutc := utcDay_onClock wall ht
    unfold recordForPolicyInner policyBucket windowStart
    dsimp only [recordInner]
    rw [hnone]
    cases hperiod : policy.tokenPeriod with
    | lifetime => exact absurd hperiod hp.1
    | accountReset => exact absurd hperiod hp.2
    | day =>
      unfold utcDayStartMs
      rw [hutc]
      rfl
    | week =>
      unfold utcWeekStartMs
      rw [hutc]
      rfl
    | calendarMonth =>
      unfold utcCalendarMonthStartMs
      rw [hutc]
      rfl
    | sevenDays | thirtyDays =>
      rw [hperiod] at hfixed
      exact absurd rfl hfixed

end

end CcSwitchServer.Sharing
