import CcSwitchServer.Sharing.UsageRebase

/-! # A rebase and the window it was set in

What a user has used in a window is folded from the events of that window alone.
-/

namespace CcSwitchServer.Sharing
open Foundations Calendar QuotaCycle QuotaUsage Usage Option ShareTokenPeriod ShareUserUsage ShareAnchoredUsageBucket

/-! ## Windows of a policy -/

variable (policy : ShareUserPolicy)

/-- The windows of the policy end. -/
def Renewing : Prop := policy.tokenPeriod ≠ .lifetime ∧ policy.tokenPeriod ≠ .accountReset

theorem window_cell {policy : ShareUserPolicy} {t : ℤ} {w : TokenPeriodWindow} (hp : Renewing policy)
    (h : tokenPeriodWindow policy t = .ok w) :
    ∃ i, w = ⟨some (boundary policy i), some (boundary policy (i + 1))⟩ ∧
      boundary policy i ≤ t ∧ t < boundary policy (i + 1) := by
  cases tokenPeriodWindow_cell h with
  | inl hlifetime => exact absurd hlifetime.1 hp.1
  | inr hcell => exact hcell.2

theorem boundary_strictMono : StrictMono (boundary policy) := strictMono_int_of_lt_succ (boundary_lt policy)

theorem window_eq_of_start {policy : ShareUserPolicy} {t t' : ℤ} {w w' : TokenPeriodWindow}
    (hp : Renewing policy) (h : tokenPeriodWindow policy t = .ok w)
    (h' : tokenPeriodWindow policy t' = .ok w') (hstart : w.startsAtMs = w'.startsAtMs) : w = w' := by
  obtain ⟨i, rfl, _, _⟩ := window_cell hp h
  obtain ⟨i', rfl, _, _⟩ := window_cell hp h'
  have hi : i = i' := (boundary_strictMono policy).injective (some.inj hstart)
  rw [hi]

theorem window_between {policy : ShareUserPolicy} {t t' t'' : ℤ} {w w' : TokenPeriodWindow}
    (hp : Renewing policy) (h : tokenPeriodWindow policy t = .ok w)
    (h' : tokenPeriodWindow policy t' = .ok w') (h'' : tokenPeriodWindow policy t'' = .ok w)
    (hle : t ≤ t') (hle' : t' ≤ t'') : w' = w := by
  obtain ⟨i, rfl, hlow, _⟩ := window_cell hp h
  obtain ⟨i', rfl, hlow', hhigh'⟩ := window_cell hp h'
  obtain ⟨i'', hw, _, hhigh''⟩ := window_cell hp h''
  have hmono := boundary_strictMono policy
  have hi : i = i'' := hmono.injective (some.inj (congrArg TokenPeriodWindow.startsAtMs hw))
  have hlt : i < i' + 1 := hmono.lt_iff_lt.mp (by omega)
  have hlt' : i' < i'' + 1 := hmono.lt_iff_lt.mp (by omega)
  have heq : i' = i := by omega
  rw [heq]

/-- `t'` is not in an earlier window than `t`. -/
def Later (t t' : ℤ) : Prop := t ≤ t' ∨ tokenPeriodWindow policy t = tokenPeriodWindow policy t'

/-! ## The bucket of a policy -/

/-- The start of the bucket that counts for the policy, and its tokens. -/
def currentBucket (u : ShareUserUsage) (policy : ShareUserPolicy) : Option (ℤ × ℕ) :=
  match policy.tokenPeriod with
  | .day => some (u.day.startedAtMs, u.day.tokensUsed)
  | .week => some (u.week.startedAtMs, u.week.tokensUsed)
  | .calendarMonth => some (u.calendarMonth.startedAtMs, u.calendarMonth.tokensUsed)
  | .sevenDays | .thirtyDays =>
    (u.anchored.filter fun b =>
      b.period = policy.tokenPeriod ∧ some b.anchorAtMs = policy.tokenPeriodAnchorAtMs).map
        fun b => (b.startedAtMs, b.tokensUsed)
  | .lifetime | .accountReset => none

def tokensAt (bucket : Option (ℤ × ℕ)) (start : Option ℤ) : ℕ :=
  match bucket with
  | none => 0
  | some b => if some b.1 = start then b.2 else 0

section
variable {wall : ℤ} {policy : ShareUserPolicy} {t : ℤ} {w : TokenPeriodWindow}

theorem utcDay_of_window (h : tokenPeriodWindow policy t = .ok w) : utcDay wall t = t / dayMs := by
  obtain ⟨_, hday, _⟩ := bind_eq_ok.mp h
  unfold utcDay
  rw [if_pos (ensure_eq_ok.mp hday)]

theorem day_start (hday : policy.tokenPeriod = .day) (h : tokenPeriodWindow policy t = .ok w) :
    w.startsAtMs = some (utcDayStartMs wall t) := by
  have hutc := @utcDay_of_window wall _ _ _ h
  unfold tokenPeriodWindow at h
  rw [hday] at h
  simp only [bind_eq_ok, pure_eq_ok] at h
  obtain ⟨_, _, rfl⟩ := h
  unfold utcDayStartMs
  rw [hutc]
  rfl

theorem week_start_ms (hweek : policy.tokenPeriod = .week) (h : tokenPeriodWindow policy t = .ok w) :
    w.startsAtMs = some (utcWeekStartMs wall t) := by
  have hutc := @utcDay_of_window wall _ _ _ h
  unfold tokenPeriodWindow at h
  rw [hweek] at h
  simp only [bind_eq_ok, ensure_eq_ok, pure_eq_ok] at h
  obtain ⟨_, _, _, _, rfl⟩ := h
  unfold utcWeekStartMs
  rw [hutc]
  rfl

theorem calendarMonth_start (hmonth : policy.tokenPeriod = .calendarMonth) (h : tokenPeriodWindow policy t = .ok w) :
    w.startsAtMs = some (utcCalendarMonthStartMs wall t) := by
  have hutc := @utcDay_of_window wall _ _ _ h
  unfold tokenPeriodWindow at h
  rw [hmonth] at h
  simp only [bind_eq_ok, ensure_eq_ok, pure_eq_ok] at h
  obtain ⟨_, _, _, _, _, _, rfl⟩ := h
  unfold utcCalendarMonthStartMs
  rw [hutc]
  rfl

section
variable (hanchor : policy.tokenPeriod = .sevenDays ∨ policy.tokenPeriod = .thirtyDays)
include hanchor

theorem anchored_start
    (h : tokenPeriodWindow policy t = .ok w) : ∃ anchor start,
      policy.tokenPeriodAnchorAtMs = some anchor ∧ w.startsAtMs = some start ∧
        anchoredStart policy t = some (anchor, start) := by
  have hp : Renewing policy := by
    cases hanchor with
    | inl hperiod => exact ⟨by rw [hperiod]; decide, by rw [hperiod]; decide⟩
    | inr hperiod => exact ⟨by rw [hperiod]; decide, by rw [hperiod]; decide⟩
  obtain ⟨i, hw, _, _⟩ := window_cell hp h
  obtain ⟨anchor, hsome⟩ : ∃ anchor, policy.tokenPeriodAnchorAtMs = some anchor := by
    have hwindow := h
    unfold tokenPeriodWindow at hwindow
    obtain ⟨_, _, hmatch⟩ := bind_eq_ok.mp hwindow
    cases hanchor with
    | inl hperiod =>
      rw [hperiod] at hmatch
      obtain ⟨anchor, hcontext, _⟩ := bind_eq_ok.mp hmatch
      exact ⟨anchor, context_eq_ok.mp hcontext⟩
    | inr hperiod =>
      rw [hperiod] at hmatch
      obtain ⟨anchor, hcontext, _⟩ := bind_eq_ok.mp hmatch
      exact ⟨anchor, context_eq_ok.mp hcontext⟩
  refine ⟨anchor, boundary policy i, hsome, by rw [hw], ?_⟩
  have hrequires : policy.tokenPeriod.requiresAnchor = true := by
    simpa [requiresAnchor] using hanchor
  unfold anchoredStart
  rw [if_pos hrequires, h, hsome, hw]
  rfl

theorem currentBucket_anchored (u : ShareUserUsage) :
    currentBucket u policy = (u.anchored.filter fun b =>
      b.period = policy.tokenPeriod ∧ some b.anchorAtMs = policy.tokenPeriodAnchorAtMs).map
        fun b => (b.startedAtMs, b.tokensUsed) := by
  unfold currentBucket
  cases hanchor with
  | inl hperiod => rw [hperiod]
  | inr hperiod => rw [hperiod]

theorem requiresAnchor_of_anchored :
    policy.tokenPeriod.requiresAnchor = true := by
  simpa [requiresAnchor] using hanchor

theorem tokensForPolicy_anchored
    (h : tokenPeriodWindow policy t = .ok w) (u : ShareUserUsage) :
    u.tokensForPolicy wall policy t = tokensAt (currentBucket u policy) w.startsAtMs := by
  obtain ⟨anchor, start, hsome, hstart, hanchored⟩ := anchored_start hanchor h
  rw [currentBucket_anchored hanchor, hstart, hsome]
  unfold tokensForPolicy
  rw [if_pos (requiresAnchor_of_anchored hanchor), hanchored]
  cases u.anchored with
  | none => rfl
  | some b =>
    dsimp only
    by_cases hsame : b.period = policy.tokenPeriod ∧ b.anchorAtMs = anchor
    · rw [filter_some_pos (by simpa using hsame)]
      simp [tokensAt, hsame]
    · rw [filter_some_neg (by simpa using hsame), if_neg (by tauto)]
      rfl

end

theorem tokensForPolicy_eq (hp : Renewing policy) (h : tokenPeriodWindow policy t = .ok w) (u : ShareUserUsage) :
    u.tokensForPolicy wall policy t = tokensAt (currentBucket u policy) w.startsAtMs := by
  cases hperiod : policy.tokenPeriod with
  | lifetime => exact absurd hperiod hp.1
  | accountReset => exact absurd hperiod hp.2
  | day =>
    rw [@day_start wall _ _ _ hperiod h]
    simp [tokensForPolicy, currentBucket, hperiod, requiresAnchor, tokensFor, currentBucketTokens, tokensAt]
  | week =>
    rw [@week_start_ms wall _ _ _ hperiod h]
    simp [tokensForPolicy, currentBucket, hperiod, requiresAnchor, tokensFor, currentBucketTokens, tokensAt]
  | calendarMonth =>
    rw [@calendarMonth_start wall _ _ _ hperiod h]
    simp [tokensForPolicy, currentBucket, hperiod, requiresAnchor, tokensFor, currentBucketTokens, tokensAt]
  | sevenDays => exact tokensForPolicy_anchored (.inl hperiod) h u
  | thirtyDays => exact tokensForPolicy_anchored (.inr hperiod) h u

theorem recordBucket_eq (bucket : ShareUserUsageBucket) (start : ℤ) (tokens : ℕ) (count : Bool) :
    ((recordBucket bucket start tokens count).startedAtMs, (recordBucket bucket start tokens count).tokensUsed) =
      (start, saturatingAdd (tokensAt (some (bucket.startedAtMs, bucket.tokensUsed)) (some start)) tokens) := by
  unfold recordBucket tokensAt
  by_cases hstart : bucket.startedAtMs = start
  · simp [hstart]
  · simp [hstart]

theorem currentBucket_record_anchored (hanchor : policy.tokenPeriod = .sevenDays ∨ policy.tokenPeriod = .thirtyDays)
    (h : tokenPeriodWindow policy t = .ok w) (u : ShareUserUsage) (tokens : ℕ) (count : Bool) :
    currentBucket (u.recordForPolicyInner wall policy tokens t count) policy =
      w.startsAtMs.map fun start =>
        (start, saturatingAdd (tokensAt (currentBucket u policy) w.startsAtMs) tokens) := by
  obtain ⟨anchor, start, hsome, hstart, hanchored⟩ := anchored_start hanchor h
  rw [currentBucket_anchored hanchor, currentBucket_anchored hanchor, hstart, hsome]
  unfold recordForPolicyInner
  rw [hanchored]
  dsimp only [recordInner]
  set own : ShareAnchoredUsageBucket → Bool :=
    fun b => decide (b.period = policy.tokenPeriod ∧ some b.anchorAtMs = some anchor) with hown
  have hfresh : Option.filter own (some ((emptyAnchored policy anchor start).add tokens count)) =
      some ((emptyAnchored policy anchor start).add tokens count) :=
    Option.filter_some_pos (by simp [hown, emptyAnchored, ShareAnchoredUsageBucket.add])
  cases u.anchored with
  | none =>
    rw [hfresh]
    simp [emptyAnchored, add, tokensAt]
  | some b =>
    dsimp only
    by_cases hsame : b.period = policy.tokenPeriod ∧ b.anchorAtMs = anchor
    · have hkeep : Option.filter own (some b) = some b := Option.filter_some_pos (by simpa [hown] using hsame)
      rw [hkeep]
      by_cases hwindow : b.startedAtMs = start
      · have hadd : Option.filter own (some (b.add tokens count)) = some (b.add tokens count) :=
          Option.filter_some_pos (by simpa [hown, ShareAnchoredUsageBucket.add] using hsame)
        rw [if_neg (by tauto), hadd]
        simp [add, tokensAt, hwindow]
      · rw [if_pos (by tauto), hfresh]
        simp [emptyAnchored, add, tokensAt, hwindow]
    · have hdrop : Option.filter own (some b) = none := Option.filter_some_neg (by simpa [hown] using hsame)
      rw [if_pos (by tauto), hfresh, hdrop]
      simp [emptyAnchored, add, tokensAt]

theorem currentBucket_record (hp : Renewing policy) (h : tokenPeriodWindow policy t = .ok w)
    (u : ShareUserUsage) (tokens : ℕ) (count : Bool) :
    currentBucket (u.recordForPolicyInner wall policy tokens t count) policy =
      w.startsAtMs.map fun start =>
        (start, saturatingAdd (tokensAt (currentBucket u policy) w.startsAtMs) tokens) := by
  have hnone : policy.tokenPeriod.requiresAnchor = false → anchoredStart policy t = none := by
    intro hfalse
    unfold anchoredStart
    rw [if_neg (by rw [hfalse]; exact Bool.false_ne_true)]
  cases hperiod : policy.tokenPeriod with
  | lifetime => exact absurd hperiod hp.1
  | accountReset => exact absurd hperiod hp.2
  | day =>
    rw [@day_start wall _ _ _ hperiod h, map_some]
    simp only [recordForPolicyInner, hnone (by rw [hperiod]; rfl), currentBucket, hperiod, recordInner]
    rw [recordBucket_eq]
  | week =>
    rw [@week_start_ms wall _ _ _ hperiod h, map_some]
    simp only [recordForPolicyInner, hnone (by rw [hperiod]; rfl), currentBucket, hperiod, recordInner]
    rw [recordBucket_eq]
  | calendarMonth =>
    rw [@calendarMonth_start wall _ _ _ hperiod h, map_some]
    simp only [recordForPolicyInner, hnone (by rw [hperiod]; rfl), currentBucket, hperiod, recordInner]
    rw [recordBucket_eq]
  | sevenDays => exact currentBucket_record_anchored (.inl hperiod) h u tokens count
  | thirtyDays => exact currentBucket_record_anchored (.inr hperiod) h u tokens count

theorem currentBucket_rebuild (hp : Renewing policy) (h : tokenPeriodWindow policy t = .ok w)
    (u : ShareUserUsage) (tokens requests : ℕ) :
    ∃ u', u.rebuildCurrentPolicyBucket wall policy t tokens requests = .ok u' ∧
      currentBucket u' policy = w.startsAtMs.map fun start => (start, tokens) := by
  have hanchored : policy.tokenPeriod = .sevenDays ∨ policy.tokenPeriod = .thirtyDays →
      ∃ u', u.rebuildCurrentPolicyBucket wall policy t tokens requests = .ok u' ∧
        currentBucket u' policy = w.startsAtMs.map fun start => (start, tokens) := by
    intro hanchor
    obtain ⟨anchor, start, hsome, hstart, _⟩ := anchored_start hanchor h
    refine ⟨{ u with anchored := some ⟨policy.tokenPeriod, anchor, start, tokens, requests⟩ }, ?_, ?_⟩
    · unfold rebuildCurrentPolicyBucket
      cases hanchor with
      | inl hperiod =>
        rw [hperiod, h, ok_bind, hsome, hstart]
        rfl
      | inr hperiod =>
        rw [hperiod, h, ok_bind, hsome, hstart]
        rfl
    · rw [currentBucket_anchored hanchor, hstart, hsome]
      simp
  unfold rebuildCurrentPolicyBucket
  cases hperiod : policy.tokenPeriod with
  | lifetime => exact absurd hperiod hp.1
  | accountReset => exact absurd hperiod hp.2
  | day =>
    rw [@day_start wall _ _ _ hperiod h]
    exact ⟨_, rfl, by simp [currentBucket, hperiod]⟩
  | week =>
    rw [@week_start_ms wall _ _ _ hperiod h]
    exact ⟨_, rfl, by simp [currentBucket, hperiod]⟩
  | calendarMonth =>
    rw [@calendarMonth_start wall _ _ _ hperiod h]
    exact ⟨_, rfl, by simp [currentBucket, hperiod]⟩
  | sevenDays =>
    have hresult := hanchored (.inl hperiod)
    unfold rebuildCurrentPolicyBucket at hresult
    rwa [hperiod] at hresult
  | thirtyDays =>
    have hresult := hanchored (.inr hperiod)
    unfold rebuildCurrentPolicyBucket at hresult
    rwa [hperiod] at hresult

end

/-! ## What happens in a window -/

/-- Usage, a manual rebase, its removal, or a rebuild from the history. -/
inductive WindowEvent
  | recorded (tokens : ℕ)
  | rebased (target observed : ℕ)
  | cleared
  | rebuilt (observed : ℕ)

/-- What was used in a window, and the rebase that was set in it with what was observed then. -/
structure WindowState where
  used : ℕ := 0
  rebase : Option (ℕ × ℕ) := none

namespace WindowState

def amount (s : WindowState) : ℕ :=
  match s.rebase with
  | none => s.used
  | some r => max r.1 s.used

/-- What the history shows of the window, from the rebase on. -/
def rebuilt (s : WindowState) (observed : ℕ) : ℕ :=
  match s.rebase with
  | none => observed
  | some r => saturatingAdd r.1 (observed - r.2)

def step (s : WindowState) : WindowEvent → WindowState
  | .recorded tokens => { s with used := saturatingAdd s.amount tokens }
  | .rebased target observed => { s with rebase := some (target, observed) }
  | .cleared => { s with rebase := none }
  | .rebuilt observed => { s with used := s.rebuilt observed }

end WindowState

/-- What the events of a window add up to. -/
def windowAmount (events : List WindowEvent) : ℕ := (events.foldl WindowState.step {}).amount

inductive GrantOp
  | record (tokens : ℕ) (atMs : ℤ) (countRequest : Bool) (nowMs : ℕ)
  | edit (usage : UsageHistory) (previous : Option ShareUserGrant) (change : ShareUserUsageEdit) (atMs : ℤ)
      (operator : Option String)
  | rebuild (usage : UsageHistory) (nowMs : ℤ)
  | validate (nowMs : ℤ)

namespace GrantOp

def time : GrantOp → ℤ
  | record _ atMs _ _ => atMs
  | edit _ _ _ atMs _ => atMs
  | rebuild _ nowMs => nowMs
  | validate nowMs => nowMs

def observedIn (usage : UsageHistory) (shareId email : String) (w : TokenPeriodWindow) : ℕ :=
  (shareUserQuotaUsage usage.store shareId email (w.startsAtMs.getD 0) (w.endsAtMs.getD 0)).1

/-- What an operation means to the window that it is made in. -/
def event (shareId email grantEmail : String) (w : TokenPeriodWindow) : GrantOp → Option WindowEvent
  | record tokens _ _ _ => some (.recorded tokens)
  | edit usage _ change _ _ =>
    match change.action with
    | .clear => some .cleared
    | .set => change.targetTokens.map fun target => .rebased target (observedIn usage shareId email w)
  | rebuild usage _ => some (.rebuilt (observedIn usage shareId grantEmail w))
  | validate _ => none

def eventsIn (policy : ShareUserPolicy) (shareId email grantEmail : String) (w : TokenPeriodWindow)
    (ops : List GrantOp) : List WindowEvent :=
  ops.filterMap fun op =>
    if tokenPeriodWindow policy op.time = .ok w then op.event shareId email grantEmail w else none

def apply (wall : ℤ) (entitlements : OrderedMap String ShareMarketEntitlement) (shareId email : String)
    (grant : ShareUserGrant) : GrantOp → Except SharePatchError ShareUserGrant
  | record tokens atMs countRequest nowMs =>
    pure (recordUserUsage wall entitlements grant tokens atMs countRequest nowMs)
  | edit usage previous change atMs operator =>
    applyUserUsageEdit usage shareId email previous grant change atMs operator
  | rebuild usage nowMs => rebuildUserUsageFromHistory wall entitlements usage shareId grant nowMs
  | validate _ => pure grant

end GrantOp

/-! ## What one operation does -/

/-- The source compares a rebase by period and anchor only. -/
def RebaseIn (w : TokenPeriodWindow) (rebase : ShareUserUsageRebase) : Prop :=
  rebase.windowStartsAtMs = w.startsAtMs ∧ rebase.windowEndsAtMs = w.endsAtMs

def ViewIn (w : TokenPeriodWindow) (view : ShareUserQuotaView) : Prop :=
  view.windowStartsAtMs = w.startsAtMs ∧ view.windowEndsAtMs = w.endsAtMs

instance (w : TokenPeriodWindow) (rebase : ShareUserUsageRebase) : Decidable (RebaseIn w rebase) :=
  inferInstanceAs (Decidable (_ ∧ _))

instance (w : TokenPeriodWindow) (view : ShareUserQuotaView) : Decidable (ViewIn w view) :=
  inferInstanceAs (Decidable (_ ∧ _))

section
variable {wall : ℤ} {entitlements : OrderedMap String ShareMarketEntitlement} {shareId email : String}
  {policy : ShareUserPolicy} {t : ℤ} {w : TokenPeriodWindow} {g g' : ShareUserGrant}

theorem tokens_le_effective (hp : Renewing g.policy) (nowMs : ℤ) :
    g.usage.tokensForPolicy wall g.policy nowMs ≤ effectiveGrantTokensForPolicy wall g nowMs := by
  unfold effectiveGrantTokensForPolicy
  rw [if_neg hp.2]
  cases g.usageQuota with
  | none =>
    cases g.usageRebase with
    | none => exact Nat.le_refl _
    | some rebase =>
      dsimp only
      split <;> omega
  | some quota =>
    cases g.usageRebase with
    | none =>
      dsimp only
      split <;> omega
    | some rebase =>
      dsimp only
      split
      · omega
      · split <;> omega

/-- A request of another window resets the bucket. -/
theorem record_spec (hp : Renewing g.policy) (hmarket : g.isMarket entitlements = false)
    (h : tokenPeriodWindow g.policy t = .ok w) (tokens : ℕ) (count : Bool) (nowMs : ℕ) :
    ∃ u, currentBucket u g.policy = (w.startsAtMs.map fun start =>
        (start, saturatingAdd (effectiveGrantTokensForPolicy wall g t) tokens)) ∧
      recordUserUsage wall entitlements g tokens t count nowMs =
        { g with
          usage := u
          usageQuota := g.usageQuota.map fun quota =>
            { quota with
              effectiveTokensUsed := tokensAt (currentBucket u g.policy) w.startsAtMs
              observedTokensUsed := saturatingAdd quota.observedTokensUsed tokens
              observedRequestsCount :=
                if count then saturatingAdd quota.observedRequestsCount 1
                else quota.observedRequestsCount }
          updatedAtMs := nowMs } := by
  obtain ⟨i, hw, _, _⟩ := window_cell hp h
  have hle := @tokens_le_effective wall g hp t
  unfold recordUserUsage
  rw [if_neg (by rw [hmarket]; exact Bool.false_ne_true)]
  dsimp only
  rw [if_neg hp.2]
  simp only [tokensForPolicy_eq hp h]
  rw [tokensForPolicy_eq hp h] at hle
  refine ⟨_, ?_, rfl⟩
  rw [currentBucket_record hp h]
  by_cases hlt : tokensAt (currentBucket g.usage g.policy) w.startsAtMs < effectiveGrantTokensForPolicy wall g t
  · obtain ⟨u', hu', hbucket⟩ := @currentBucket_rebuild wall _ _ _ hp h g.usage
      (effectiveGrantTokensForPolicy wall g t)
      ((g.usageQuota.map fun quota => quota.observedRequestsCount).getD 0)
    rw [if_pos hlt, hu']
    rw [hbucket, hw]
    simp [tokensAt]
  · rw [if_neg hlt, Nat.le_antisymm hle (by omega)]

theorem observe_spec (hp : Renewing g.policy) (h : tokenPeriodWindow g.policy t = .ok w)
    (usage : UsageHistory) : ∃ requests,
      observeUserQuota usage shareId email g t =
        .ok ⟨⟨g.policy.tokenPeriod, g.policy.tokenPeriodAnchorAtMs, w.startsAtMs, w.endsAtMs⟩,
          GrantOp.observedIn usage shareId email w, requests, none, 0⟩ := by
  obtain ⟨i, hw, _, _⟩ := window_cell hp h
  refine ⟨(shareUserQuotaUsage usage.store shareId email (w.startsAtMs.getD 0) (w.endsAtMs.getD 0)).2, ?_⟩
  unfold observeUserQuota quotaWindowForPolicy GrantOp.observedIn
  rw [if_neg hp.2, if_neg hp.1, h, hw]
  rfl

theorem rebaseMatchesWindow_iff {rebase : ShareUserUsageRebase}
    (hown : rebase.period = policy.tokenPeriod ∧ rebase.anchorAtMs = policy.tokenPeriodAnchorAtMs) :
    rebaseMatchesWindow rebase ⟨policy.tokenPeriod, policy.tokenPeriodAnchorAtMs, w.startsAtMs, w.endsAtMs⟩ = true ↔
      RebaseIn w rebase := by
  unfold rebaseMatchesWindow RebaseIn
  simp [hown]

theorem edit_spec (hp : Renewing g.policy) (h : tokenPeriodWindow g.policy t = .ok w)
    {usage : UsageHistory} {previous : Option ShareUserGrant} {change : ShareUserUsageEdit} {operator : Option String}
    (hok : applyUserUsageEdit usage shareId email previous g change t operator = .ok g') :
    (∃ rebase, g' = { g with usageRebase := rebase }.edited t) ∧
      (change.action = .clear ∧ g'.usageRebase = none ∨
        ∃ target rebase, change.action = .set ∧ change.targetTokens = some target ∧
          g'.usageRebase = some rebase ∧ rebase.period = g.policy.tokenPeriod ∧
          rebase.anchorAtMs = g.policy.tokenPeriodAnchorAtMs ∧ RebaseIn w rebase ∧ rebase.targetTokens = target ∧
          rebase.observedTokensAtRebase = GrantOp.observedIn usage shareId email w) := by
  unfold applyUserUsageEdit at hok
  obtain ⟨_, _, hok⟩ := bind_eq_ok.mp hok
  rw [if_neg hp.2] at hok
  obtain ⟨rebase, hrebase, hok⟩ := bind_eq_ok.mp hok
  cases hok
  refine ⟨⟨rebase, rfl⟩, ?_⟩
  unfold usageRebase at hrebase
  cases haction : change.action with
  | clear =>
    rw [haction] at hrebase
    cases hrebase
    exact .inl ⟨rfl, rfl⟩
  | set =>
    obtain ⟨requests, hobserve⟩ := @observe_spec shareId email t w g hp h usage
    rw [haction] at hrebase
    obtain ⟨target, htarget, hrebase⟩ := bind_eq_ok.mp hrebase
    rw [hobserve, ok_bind] at hrebase
    obtain ⟨_, _, hrebase⟩ := bind_eq_ok.mp hrebase
    cases hrebase
    exact .inr ⟨target, _, rfl, context_eq_ok.mp htarget, rfl, rfl, rfl, ⟨rfl, rfl⟩, rfl, rfl⟩

def keptRebase (w : TokenPeriodWindow) (g : ShareUserGrant) : Option ShareUserUsageRebase :=
  g.usageRebase.filter fun rebase => RebaseIn w rebase

/-- A rebuild puts the bucket and the view to what the history says. -/
theorem rebuild_spec (hp : Renewing g.policy) (h : tokenPeriodWindow g.policy t = .ok w)
    (hactive : g.active = true) (hmarket : g.isMarket entitlements = false)
    (hown : ∀ rebase ∈ g.usageRebase, rebase.period = g.policy.tokenPeriod ∧
      rebase.anchorAtMs = g.policy.tokenPeriodAnchorAtMs) {usage : UsageHistory} {observed : ℕ}
    (hobserved : observed = GrantOp.observedIn usage shareId (Text.asciiLower (Text.trim g.email)) w)
    (hok : rebuildUserUsageFromHistory wall entitlements usage shareId g t = .ok g') :
    ∃ u view, g' = { g with usageRebase := keptRebase w g, usage := u, usageQuota := some view } ∧
      ViewIn w view ∧
      view.effectiveTokensUsed = (match keptRebase w g with
        | none => observed
        | some rebase => saturatingAdd rebase.targetTokens (observed - rebase.observedTokensAtRebase)) ∧
      currentBucket u g.policy = w.startsAtMs.map fun start => (start, view.effectiveTokensUsed) := by
  obtain ⟨requests, hobserve⟩ := @observe_spec shareId (Text.asciiLower (Text.trim g.email)) t w g hp h usage
  rw [← hobserved] at hobserve
  unfold rebuildUserUsageFromHistory at hok
  rw [if_neg (by rw [hactive]; decide), if_neg (by rw [hmarket]; exact Bool.false_ne_true)] at hok
  dsimp only at hok
  rw [hobserve, ok_bind] at hok
  have hrebuild := fun tokens => @currentBucket_rebuild wall _ _ _ hp h g.usage tokens requests
  have hfinish : ∀ (kept : ShareUserGrant) (tokens : ℕ) (matching : Bool),
      kept.usage = g.usage → kept.policy = g.policy →
      (do
        let u ← liftPeriod (kept.usage.rebuildCurrentPolicyBucket wall kept.policy t tokens requests)
        pure { kept with
          usage := u
          usageQuota := some (quotaView kept ⟨⟨g.policy.tokenPeriod, g.policy.tokenPeriodAnchorAtMs,
            w.startsAtMs, w.endsAtMs⟩, observed, requests, none, 0⟩ tokens matching) }) = .ok g' →
      ∃ u view, g' = { kept with usage := u, usageQuota := some view } ∧ ViewIn w view ∧
        view.effectiveTokensUsed = tokens ∧
        currentBucket u g.policy = w.startsAtMs.map fun start => (start, tokens) := by
    intro kept tokens matching husage hpolicy hdone
    obtain ⟨u, hu, hbucket⟩ := hrebuild tokens
    rw [husage, hpolicy, hu] at hdone
    refine ⟨u, quotaView kept ⟨⟨g.policy.tokenPeriod, g.policy.tokenPeriodAnchorAtMs, w.startsAtMs,
      w.endsAtMs⟩, observed, requests, none, 0⟩ tokens matching, ?_, ⟨rfl, rfl⟩, rfl, hbucket⟩
    rw [hpolicy]
    exact (Except.ok.inj hdone).symm
  cases hrebase : g.usageRebase with
  | none =>
    have hkept : keptRebase w g = none := by rw [keptRebase, hrebase]; rfl
    have heffective : effectiveUserTokens g ⟨⟨g.policy.tokenPeriod, g.policy.tokenPeriodAnchorAtMs,
        w.startsAtMs, w.endsAtMs⟩, observed, requests, none, 0⟩ = observed := by
      unfold effectiveUserTokens
      rw [if_neg hp.2, hrebase]
    rw [hrebase] at hok
    simp only [all_none, if_true, heffective] at hok
    obtain ⟨u, view, rfl, hview, heq, hbucket⟩ := hfinish g observed true rfl rfl hok
    refine ⟨u, view, ?_, hview, ?_, ?_⟩
    · rw [hkept, ← hrebase]
    · rw [hkept, heq]
    · rw [heq, hbucket]
  | some rebase =>
    have hmatch := @rebaseMatchesWindow_iff g.policy w rebase (hown rebase hrebase)
    by_cases hin : RebaseIn w rebase
    · have hkept : keptRebase w g = some rebase := by
        rw [keptRebase, hrebase, filter_some_pos (by simpa using hin)]
      have heffective : effectiveUserTokens g ⟨⟨g.policy.tokenPeriod, g.policy.tokenPeriodAnchorAtMs,
          w.startsAtMs, w.endsAtMs⟩, observed, requests, none, 0⟩ =
            saturatingAdd rebase.targetTokens (observed - rebase.observedTokensAtRebase) := by
        unfold effectiveUserTokens
        rw [if_neg hp.2, hrebase]
        dsimp only
        rw [if_pos (hmatch.mpr hin)]
      rw [hrebase] at hok
      simp only [all_some, hmatch.mpr hin, if_true, heffective] at hok
      obtain ⟨u, view, rfl, hview, heq, hbucket⟩ := hfinish g _ true rfl rfl hok
      refine ⟨u, view, ?_, hview, ?_, ?_⟩
      · rw [hkept, ← hrebase]
      · rw [hkept, heq]
      · rw [heq, hbucket]
    · have hkept : keptRebase w g = none := by
        rw [keptRebase, hrebase, filter_some_neg (by simpa using hin)]
      have hnot : rebaseMatchesWindow rebase ⟨g.policy.tokenPeriod, g.policy.tokenPeriodAnchorAtMs,
          w.startsAtMs, w.endsAtMs⟩ = false := Bool.eq_false_iff.mpr fun heq => hin (hmatch.mp heq)
      rw [hrebase] at hok
      simp only [all_some, hnot, Bool.false_eq_true, if_false] at hok
      obtain ⟨u, view, rfl, hview, heq, hbucket⟩ := hfinish { g with usageRebase := none } observed false rfl rfl hok
      refine ⟨u, view, ?_, hview, ?_, ?_⟩
      · rw [hkept]
      · rw [hkept, heq]
      · rw [heq, hbucket]

end

end CcSwitchServer.Sharing
