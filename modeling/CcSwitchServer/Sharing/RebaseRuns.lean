import CcSwitchServer.Sharing.RebaseWindows

/-! # Runs of usage, edits and rebuilds on one grant

A run visits one window after the other.
-/

namespace CcSwitchServer.Sharing
open Foundations Calendar QuotaCycle QuotaUsage Usage Option WindowState Text GrantOp List

/-- A stored rebase is of the window of `t`, and so is the stored view where the reading consults it. -/
def Current (g : ShareUserGrant) (t : ℤ) : Prop :=
  ∀ w, tokenPeriodWindow g.policy t = .ok w →
    (∀ rebase ∈ g.usageRebase, RebaseIn w rebase) ∧
      ∀ view ∈ g.usageQuota, g.usageRebase.isSome ∨ view.rebaseApplies → ViewIn w view

/-- What no operation of a run changes. -/
structure Unchanged (g₀ g : ShareUserGrant) : Prop where
  policy : g.policy = g₀.policy
  active : g.active = g₀.active
  email : g.email = g₀.email
  entitlementId : g.entitlementId = g₀.entitlementId
  own : ∀ rebase ∈ g.usageRebase, rebase.period = g.policy.tokenPeriod ∧
    rebase.anchorAtMs = g.policy.tokenPeriodAnchorAtMs

/-- Nothing of the grant is of this window yet. -/
structure Before (w : TokenPeriodWindow) (g : ShareUserGrant) : Prop where
  used : tokensAt (currentBucket g.usage g.policy) w.startsAtMs = 0
  rebase : ∀ rebase ∈ g.usageRebase, ¬RebaseIn w rebase
  view : ∀ view ∈ g.usageQuota, ¬ViewIn w view

/-- Bucket, rebase and view show what happened in the window. -/
structure Shows (w : TokenPeriodWindow) (g : ShareUserGrant) (s : WindowState) : Prop where
  used : tokensAt (currentBucket g.usage g.policy) w.startsAtMs = s.used
  rebase : s.rebase = (keptRebase w g).map fun r => (r.targetTokens, r.observedTokensAtRebase)
  view : ∀ view ∈ g.usageQuota, ViewIn w view → view.effectiveTokensUsed = s.used

theorem Before.shows {w : TokenPeriodWindow} {g : ShareUserGrant} (h : Before w g) : Shows w g {} := by
  refine ⟨h.used, ?_, fun view hview hin => absurd hin (h.view view hview)⟩
  have hnone : keptRebase w g = none := by
    rw [keptRebase, filter_eq_none_iff]
    intro rebase hrebase
    simpa using h.rebase rebase hrebase
  rw [hnone]
  rfl

section
variable {wall : ℤ} {entitlements : OrderedMap String ShareMarketEntitlement} {shareId email : String}
  {t : ℤ} {w w' : TokenPeriodWindow} {g₀ g g' : ShareUserGrant} {s : WindowState} {op : GrantOp}

theorem tokensAt_start (start : Option ℤ) {tokens : ℕ} (h : start.isSome = true) :
    tokensAt (start.map fun s => (s, tokens)) start = tokens := by
  obtain ⟨s, rfl⟩ := isSome_iff_exists.mp h
  simp [tokensAt]

theorem tokensAt_other {start start' : Option ℤ} {tokens : ℕ} (h : start ≠ start') :
    tokensAt (start.map fun s => (s, tokens)) start' = 0 := by
  cases start with
  | none => rfl
  | some s => simp [tokensAt, h]

theorem Shows.effective (h : Shows w g s) (hp : Renewing g.policy) (hwindow : tokenPeriodWindow g.policy t = .ok w)
    (hown : ∀ rebase ∈ g.usageRebase, rebase.period = g.policy.tokenPeriod ∧
      rebase.anchorAtMs = g.policy.tokenPeriodAnchorAtMs)
    (hcurrent : Current g t) : effectiveGrantTokensForPolicy wall g t = s.amount := by
  obtain ⟨hrebases, hviews⟩ := hcurrent w hwindow
  have hbucket : g.usage.tokensForPolicy wall g.policy t = s.used :=
    (tokensForPolicy_eq hp hwindow g.usage).trans h.used
  unfold effectiveGrantTokensForPolicy amount
  rw [if_neg hp.2]
  dsimp only
  rw [hbucket, h.rebase]
  cases hrebase : g.usageRebase with
  | none =>
    have hkept : keptRebase w g = none := by rw [keptRebase, hrebase]; rfl
    rw [hkept]
    cases hquota : g.usageQuota with
    | none => rfl
    | some view =>
      dsimp only [map_none]
      split
      · rename_i happlies
        have hin := hviews view hquota (.inr happlies)
        rw [h.view view hquota hin, Nat.max_self]
      · rfl
  | some rebase =>
    have hin := hrebases rebase hrebase
    have hkept : keptRebase w g = some rebase := by
      rw [keptRebase, hrebase, filter_some_pos (by simpa using hin)]
    rw [hkept]
    dsimp only [map_some]
    rw [if_pos (hown rebase hrebase)]
    cases hquota : g.usageQuota with
    | none =>
      dsimp only [map_none, getD_none]
      omega
    | some view =>
      have hview := hviews view hquota (.inl (by rw [hrebase]; rfl))
      dsimp only [map_some, getD_some]
      rw [h.view view hquota hview]
      omega

theorem isMarket_of_unchanged (h : Unchanged g₀ g) : g.isMarket entitlements = g₀.isMarket entitlements := by
  unfold ShareUserGrant.isMarket
  rw [h.entitlementId]

theorem Unchanged.apply (h : Unchanged g₀ g) (hp : Renewing g₀.policy) (hactive : g₀.active = true)
    (hmarket : g₀.isMarket entitlements = false) (hwindow : tokenPeriodWindow g₀.policy op.time = .ok w)
    (hok : op.apply wall entitlements shareId email g = .ok g') : Unchanged g₀ g' := by
  have hp' : Renewing g.policy := h.policy ▸ hp
  have hwindow' : tokenPeriodWindow g.policy op.time = .ok w := h.policy ▸ hwindow
  have hmarket' : g.isMarket entitlements = false := (isMarket_of_unchanged h).trans hmarket
  cases op with
  | validate nowMs =>
    cases hok
    exact h
  | record tokens atMs count nowMs =>
    obtain ⟨u, _, hrecord⟩ := @record_spec wall entitlements atMs w g hp' hmarket' hwindow' tokens count nowMs
    cases hok
    rw [hrecord]
    exact ⟨h.policy, h.active, h.email, h.entitlementId, h.own⟩
  | edit usage previous change atMs operator =>
    obtain ⟨⟨rebase, rfl⟩, hcases⟩ := edit_spec hp' hwindow' hok
    refine ⟨h.policy, h.active, h.email, h.entitlementId, ?_⟩
    intro r hr
    cases hcases with
    | inl hclear => rw [hclear.2] at hr; cases hr
    | inr hset =>
      obtain ⟨target, rebase', _, _, hsome, hperiod, hanchor, _⟩ := hset
      rw [hsome] at hr
      cases hr
      exact ⟨hperiod, hanchor⟩
  | rebuild usage nowMs =>
    obtain ⟨u, view, rfl, _⟩ := rebuild_spec hp' hwindow' (h.active.trans hactive) hmarket' h.own rfl hok
    refine ⟨h.policy, h.active, h.email, h.entitlementId, ?_⟩
    intro r hr
    exact h.own r (filter_eq_some_iff.mp hr).1

/-- An operation in another window leaves this one as it is. -/
theorem Before.apply (h : Before w g) (hsteady : Unchanged g₀ g) (hp : Renewing g₀.policy)
    (hactive : g₀.active = true) (hmarket : g₀.isMarket entitlements = false)
    (hwindow : tokenPeriodWindow g₀.policy op.time = .ok w') (hstart : w'.startsAtMs ≠ w.startsAtMs)
    (hok : op.apply wall entitlements shareId email g = .ok g') : Before w g' := by
  have hp' : Renewing g.policy := hsteady.policy ▸ hp
  have hwindow' : tokenPeriodWindow g.policy op.time = .ok w' := hsteady.policy ▸ hwindow
  have hmarket' : g.isMarket entitlements = false := (isMarket_of_unchanged hsteady).trans hmarket
  cases op with
  | validate nowMs =>
    cases hok
    exact h
  | record tokens atMs count nowMs =>
    obtain ⟨u, hbucket, hrecord⟩ := @record_spec wall entitlements atMs w' g hp' hmarket' hwindow' tokens count nowMs
    cases hok
    rw [hrecord]
    refine ⟨?_, h.rebase, ?_⟩
    · dsimp only
      rw [hbucket, tokensAt_other hstart]
    · intro view hview
      obtain ⟨old, hold, rfl⟩ := map_eq_some_iff.mp hview
      exact h.view old hold
  | edit usage previous change atMs operator =>
    obtain ⟨⟨rebase, rfl⟩, hcases⟩ := edit_spec hp' hwindow' hok
    refine ⟨h.used, ?_, h.view⟩
    intro r hr hin
    cases hcases with
    | inl hclear => rw [hclear.2] at hr; cases hr
    | inr hset =>
      obtain ⟨target, rebase', _, _, hsome, _, _, hin', _⟩ := hset
      rw [hsome] at hr
      cases hr
      exact hstart (hin'.1.symm.trans hin.1)
  | rebuild usage nowMs =>
    obtain ⟨u, view, rfl, hview, _, hbucket⟩ :=
      rebuild_spec hp' hwindow' (hsteady.active.trans hactive) hmarket' hsteady.own rfl hok
    refine ⟨?_, ?_, ?_⟩
    · dsimp only
      rw [hbucket, tokensAt_other hstart]
    · intro r hr
      exact h.rebase r (filter_eq_some_iff.mp hr).1
    · intro other hother hin
      cases hother
      exact hstart (hview.1.symm.trans hin.1)

/-- Each operation in the window shows in the grant. -/
theorem Shows.apply (h : Shows w g s) (hsteady : Unchanged g₀ g) (hp : Renewing g₀.policy)
    (hactive : g₀.active = true) (hmarket : g₀.isMarket entitlements = false)
    (hwindow : tokenPeriodWindow g₀.policy op.time = .ok w)
    (hcurrent : ∀ tokens atMs count nowMs, op = .record tokens atMs count nowMs → Current g atMs)
    (hok : op.apply wall entitlements shareId email g = .ok g') :
    Shows w g' (((op.event shareId email (asciiLower (trim g₀.email)) w).map s.step).getD s) := by
  have hp' : Renewing g.policy := hsteady.policy ▸ hp
  have hwindow' : tokenPeriodWindow g.policy op.time = .ok w := hsteady.policy ▸ hwindow
  have hmarket' : g.isMarket entitlements = false := (isMarket_of_unchanged hsteady).trans hmarket
  have hsome : w.startsAtMs.isSome = true := by
    obtain ⟨i, rfl, _, _⟩ := window_cell hp hwindow
    rfl
  cases op with
  | validate nowMs =>
    cases hok
    exact h
  | record tokens atMs count nowMs =>
    obtain ⟨u, hbucket, hrecord⟩ := @record_spec wall entitlements atMs w g hp' hmarket' hwindow' tokens count nowMs
    have heffective := @Shows.effective wall atMs w g s h hp' hwindow' hsteady.own
      (hcurrent tokens atMs count nowMs rfl)
    rw [heffective] at hbucket
    cases hok
    rw [hrecord]
    have hused : tokensAt (currentBucket u g.policy) w.startsAtMs = saturatingAdd s.amount tokens := by
      rw [hbucket, tokensAt_start _ hsome]
    refine ⟨hused, h.rebase, ?_⟩
    intro view hview _
    obtain ⟨old, _, rfl⟩ := map_eq_some_iff.mp hview
    exact hused
  | edit usage previous change atMs operator =>
    obtain ⟨⟨rebase, rfl⟩, hcases⟩ := edit_spec hp' hwindow' hok
    cases hcases with
    | inl hclear =>
      obtain ⟨haction, hnone⟩ := hclear
      simp only [event, haction, map_some, getD_some, WindowState.step]
      refine ⟨h.used, ?_, h.view⟩
      unfold keptRebase
      rw [hnone]
      rfl
    | inr hset =>
      obtain ⟨target, rebase', haction, htarget, hsome', _, _, hin, hvalue, hobserved⟩ := hset
      simp only [event, haction, htarget, map_some, getD_some, WindowState.step]
      refine ⟨h.used, ?_, h.view⟩
      unfold keptRebase
      rw [hsome', filter_some_pos (by simpa using hin), map_some, hvalue, hobserved]
  | rebuild usage nowMs =>
    obtain ⟨u, view, rfl, hview, heffective, hbucket⟩ :=
      rebuild_spec hp' hwindow' (hsteady.active.trans hactive) hmarket' hsteady.own rfl hok
    rw [hsteady.email] at heffective
    have hvalue : view.effectiveTokensUsed = s.rebuilt (observedIn usage shareId (asciiLower (trim g₀.email)) w) := by
      rw [heffective, rebuilt, h.rebase]
      cases keptRebase w g with
      | none => rfl
      | some rebase => rfl
    refine ⟨?_, ?_, ?_⟩
    · dsimp only
      rw [hbucket, tokensAt_start _ hsome]
      exact hvalue
    · show s.rebase = ((keptRebase w g).filter _).map _
      rw [h.rebase]
      unfold keptRebase
      rw [Option.filter_filter]
      simp only [Bool.and_self]
    · intro other hother _
      cases hother
      exact hvalue

end

/-! ## Runs -/

/-- A grant without usage. -/
structure Unused (g : ShareUserGrant) : Prop where
  usage : g.usage = {}
  rebase : g.usageRebase = none
  view : g.usageQuota = none

theorem Unused.before {g : ShareUserGrant} (h : Unused g) (w : TokenPeriodWindow) : Before w g := by
  refine ⟨?_, ?_, ?_⟩
  · rw [h.usage]
    unfold currentBucket tokensAt
    cases g.policy.tokenPeriod with
    | day => simp
    | week => simp
    | calendarMonth => simp
    | sevenDays => rfl
    | thirtyDays => rfl
    | lifetime => rfl
    | accountReset => rfl
  · intro rebase hrebase
    rw [h.rebase] at hrebase
    cases hrebase
  · intro view hview
    rw [h.view] at hview
    cases hview

def grantRun (wall : ℤ) (entitlements : OrderedMap String ShareMarketEntitlement) (shareId email : String)
    (g : ShareUserGrant) (ops : List GrantOp) : Except SharePatchError ShareUserGrant :=
  ops.foldlM (fun g op => op.apply wall entitlements shareId email g) g

section
variable {wall : ℤ} {entitlements : OrderedMap String ShareMarketEntitlement} {shareId email : String}
  {t : ℤ} {w : TokenPeriodWindow} {g₀ g : ShareUserGrant}

theorem grantRun_append_singleton {ops : List GrantOp} {op : GrantOp}
    (h : grantRun wall entitlements shareId email g₀ (ops ++ [op]) = .ok g) : ∃ mid,
      grantRun wall entitlements shareId email g₀ ops = .ok mid ∧
        op.apply wall entitlements shareId email mid = .ok g := by
  unfold grantRun at h
  rw [foldlM_append] at h
  obtain ⟨mid, hmid, h⟩ := bind_eq_ok.mp h
  refine ⟨mid, hmid, ?_⟩
  rw [foldlM_cons] at h
  obtain ⟨last, hlast, h⟩ := bind_eq_ok.mp h
  cases h
  exact hlast

theorem eventsIn_append_singleton (policy : ShareUserPolicy) (grantEmail : String) (ops : List GrantOp)
    (op : GrantOp) :
    eventsIn policy shareId email grantEmail w (ops ++ [op]) =
      eventsIn policy shareId email grantEmail w ops ++
        (if tokenPeriodWindow policy op.time = .ok w then op.event shareId email grantEmail w else none).toList := by
  unfold eventsIn
  rw [filterMap_append]
  cases h : (if tokenPeriodWindow policy op.time = .ok w then op.event shareId email grantEmail w
      else none) with
  | none => simp [h]
  | some e => simp [h]

theorem not_in_window_of_later {policy : ShareUserPolicy} {t₁ t₂ t : ℤ} {w₂ : TokenPeriodWindow}
    (hp : Renewing policy) (h₂ : tokenPeriodWindow policy t₂ = .ok w₂)
    (hwindow : tokenPeriodWindow policy t = .ok w) (hne : w₂ ≠ w) (hlater : Later policy t₁ t₂)
    (hlater' : Later policy t₂ t) : tokenPeriodWindow policy t₁ ≠ .ok w := by
  intro h₁
  have hle' : t₂ ≤ t := by
    cases hlater' with
    | inl hle => exact hle
    | inr hsame => exact absurd (Except.ok.inj (h₂.symm.trans (hsame.trans hwindow))) hne
  cases hlater with
  | inl hle => exact hne (window_between hp h₁ h₂ hwindow hle hle')
  | inr hsame => exact hne (Except.ok.inj (h₂.symm.trans (hsame.symm.trans h₁)))

/-- Behind a run the grant shows the window that it has reached. -/
theorem run_shows (hp : Renewing g₀.policy) (hactive : g₀.active = true)
    (hmarket : g₀.isMarket entitlements = false) (hunused : Unused g₀)
    (hwindow : tokenPeriodWindow g₀.policy t = .ok w) {ops : List GrantOp}
    (hrun : grantRun wall entitlements shareId email g₀ ops = .ok g)
    (htimes : ∀ op ∈ ops, ∃ w, tokenPeriodWindow g₀.policy op.time = .ok w)
    (horder : (ops.map time ++ [t]).Pairwise (Later g₀.policy))
    (hcurrent : ∀ before tokens atMs count nowMs after mid, ops = before ++ .record tokens atMs count nowMs :: after →
      grantRun wall entitlements shareId email g₀ before = .ok mid → Current mid atMs) :
    Unchanged g₀ g ∧
      Shows w g ((eventsIn g₀.policy shareId email (asciiLower (trim g₀.email)) w ops).foldl step {}) ∧
      ((∀ op ∈ ops, tokenPeriodWindow g₀.policy op.time ≠ .ok w) → Before w g) := by
  induction ops using reverseRecOn generalizing g with
  | nil =>
    cases hrun
    have hbefore := hunused.before w
    refine ⟨⟨rfl, rfl, rfl, rfl, ?_⟩, hbefore.shows, fun _ => hbefore⟩
    intro rebase hrebase
    rw [hunused.rebase] at hrebase
    cases hrebase
  | append_singleton ops op ih =>
    obtain ⟨mid, hmid, hok⟩ := grantRun_append_singleton hrun
    rw [map_append, map_singleton, append_assoc] at horder
    obtain ⟨horder₁, horder₂, hacross⟩ := pairwise_append.mp horder
    have horder' : (ops.map time ++ [t]).Pairwise (Later g₀.policy) := by
      refine pairwise_append.mpr ⟨horder₁, pairwise_singleton _ _, ?_⟩
      intro a ha b hb
      refine hacross a ha b ?_
      rw [mem_singleton.mp hb]
      exact mem_append_right _ mem_cons_self
    obtain ⟨hsteady, hshows, hbefore⟩ := ih hmid
      (fun op hop => htimes op (mem_append_left _ hop)) horder'
      (fun before tokens atMs count nowMs after mid hsplit => hcurrent before tokens atMs count nowMs
        (after ++ [op]) mid (by rw [hsplit, append_assoc, cons_append]))
    obtain ⟨w', hw'⟩ := htimes op (mem_append_right _ mem_cons_self)
    have hsteady' := hsteady.apply hp hactive hmarket hw' hok
    have hlast : Later g₀.policy op.time t := by
      have hpair := (pairwise_cons.mp horder₂).1
      exact hpair t mem_cons_self
    rw [eventsIn_append_singleton]
    by_cases hsame : w' = w
    · subst hsame
      refine ⟨hsteady', ?_, fun hnone => absurd hw' (hnone op (mem_append_right _ mem_cons_self))⟩
      have hstep := hshows.apply hsteady hp hactive hmarket hw'
        (fun tokens atMs count nowMs hop => hcurrent ops tokens atMs count nowMs [] mid (by rw [hop]) hmid)
        hok
      rw [if_pos hw', foldl_append]
      cases hevent : op.event shareId email (asciiLower (trim g₀.email)) w' with
      | none =>
        rw [hevent] at hstep
        exact hstep
      | some e =>
        rw [hevent] at hstep
        exact hstep
    · have hstart : w'.startsAtMs ≠ w.startsAtMs :=
        fun heq => hsame (window_eq_of_start hp hw' hwindow heq)
      have hearlier : ∀ op' ∈ ops, tokenPeriodWindow g₀.policy op'.time ≠ .ok w := by
        intro op' hop'
        refine not_in_window_of_later hp hw' hwindow hsame ?_ hlast
        exact hacross op'.time (mem_map_of_mem hop') op.time mem_cons_self
      have hbefore' := (hbefore hearlier).apply hsteady hp hactive hmarket hw' hstart hok
      have hevents : eventsIn g₀.policy shareId email (asciiLower (trim g₀.email)) w ops = [] := by
        unfold eventsIn
        rw [filterMap_eq_nil_iff]
        intro op' hop'
        rw [if_neg (hearlier op' hop')]
      refine ⟨hsteady', ?_, fun _ => hbefore'⟩
      rw [hevents, if_neg (by rw [hw']; exact fun heq => hsame (Except.ok.inj heq))]
      exact hbefore'.shows

end

/-- In every run whose readings consult nothing of another window and whose operations never fall back into
an earlier window, the amount that a request at `t` is admitted by is that of the window of `t`: it is made
of what was recorded, rebased and rebuilt in that window, and is zero if there is nothing. -/
theorem effective_tokens_of_window (wall : ℤ) (entitlements : OrderedMap String ShareMarketEntitlement)
    (shareId email : String) (g₀ g : ShareUserGrant) (ops : List GrantOp) (t : ℤ) (w : TokenPeriodWindow)
    (hp : Renewing g₀.policy) (hactive : g₀.active = true) (hmarket : g₀.isMarket entitlements = false)
    (hunused : Unused g₀) (hrun : grantRun wall entitlements shareId email g₀ ops = .ok g)
    (htimes : ∀ op ∈ ops, ∃ w, tokenPeriodWindow g₀.policy op.time = .ok w)
    (hwindow : tokenPeriodWindow g₀.policy t = .ok w) (horder : (ops.map time ++ [t]).Pairwise (Later g₀.policy))
    (hcurrent : ∀ before tokens atMs count nowMs after mid, ops = before ++ .record tokens atMs count nowMs :: after →
      grantRun wall entitlements shareId email g₀ before = .ok mid → Current mid atMs) (hreading : Current g t) :
    effectiveGrantTokensForPolicy wall g t =
        windowAmount (eventsIn g₀.policy shareId email (asciiLower (trim g₀.email)) w ops) ∧
      ((∀ op ∈ ops, tokenPeriodWindow g₀.policy op.time ≠ .ok w) → effectiveGrantTokensForPolicy wall g t = 0) := by
  obtain ⟨hsteady, hshows, hbefore⟩ := run_shows hp hactive hmarket hunused hwindow hrun htimes horder hcurrent
  have hp' : Renewing g.policy := hsteady.policy ▸ hp
  have hwindow' : tokenPeriodWindow g.policy t = .ok w := hsteady.policy ▸ hwindow
  refine ⟨hshows.effective hp' hwindow' hsteady.own hreading, fun hnone => ?_⟩
  exact (hbefore hnone).shows.effective hp' hwindow' hsteady.own hreading

def dailyUser : ShareUserGrant where
  email := "u@example.com"
  active := true
  policy := { tokenPeriod := .day, tokenLimit := some 100 }

def noHistory : UsageHistory := ⟨{}, .default⟩

def lockOut : GrantOp := .edit noHistory none { action := .set, targetTokens := some 100 } 0 none

def lockedOut : ShareUserGrant :=
  { dailyUser with
    usageRebase := some
      { period := .day
        anchorAtMs := none
        windowStartsAtMs := some 0
        windowEndsAtMs := some dayMs
        targetTokens := 100
        observedTokensAtRebase := 0
        observedRequestsAtRebase := 0
        usageWatermark := 0
        appliedAtMs := 0
        appliedBy := none
        source := .manual }
    revision := 1 }

def rolledOps : List GrantOp :=
  [.record 40 0 true 0, .record 30 dayMs true 86400000,
    .edit noHistory none { action := .set, targetTokens := some 100 } dayMs none]

def rolledOver : ShareUserGrant :=
  ((grantRun 0 .empty "s" "u@example.com" dailyUser rolledOps).toOption).getD dailyUser

/-- Usage on one day, usage on the next day, and a rebase on that day. -/
theorem effective_tokens_of_rebased_day :
    effectiveGrantTokensForPolicy 0 rolledOver (dayMs + 1) = windowAmount (eventsIn dailyUser.policy "s" "u@example.com"
        (asciiLower (trim dailyUser.email)) ⟨some dayMs, some (2 * dayMs)⟩ rolledOps) := by
  refine (effective_tokens_of_window 0 .empty "s" "u@example.com" dailyUser rolledOver rolledOps (dayMs + 1)
    ⟨some dayMs, some (2 * dayMs)⟩ ⟨by decide, by decide⟩ rfl (by decide) ⟨rfl, rfl, rfl⟩ rfl ?_ (by decide) ?_ ?_ ?_).1
  · have hwindows : ∀ op ∈ rolledOps, tokenPeriodWindow dailyUser.policy op.time = .ok ⟨some 0, some dayMs⟩ ∨
        tokenPeriodWindow dailyUser.policy op.time = .ok ⟨some dayMs, some (2 * dayMs)⟩ := by decide
    exact fun op hop => (hwindows op hop).elim (fun h => ⟨_, h⟩) fun h => ⟨_, h⟩
  · exact Pairwise.imp Or.inl (show [0, dayMs, dayMs, dayMs + 1].Pairwise (· ≤ ·) by decide)
  · intro before tokens atMs count nowMs after mid hsplit hmid
    have hclean : mid.usageRebase = none ∧ mid.usageQuota = none := by
      rcases before with _ | ⟨first, _ | ⟨second, _ | ⟨third, before⟩⟩⟩
      · cases hmid
        exact ⟨rfl, rfl⟩
      · obtain ⟨rfl, -⟩ := cons.inj hsplit
        cases hmid
        exact ⟨rfl, rfl⟩
      · cases hsplit
      · cases before <;> cases hsplit
    refine fun w _ => ⟨fun rebase hrebase => ?_, fun view hview => ?_⟩
    · rw [hclean.1] at hrebase
      cases hrebase
    · rw [hclean.2] at hview
      cases hview
  · intro w hw
    have hwindow : w = ⟨some dayMs, some (2 * dayMs)⟩ := by
      have hday : tokenPeriodWindow rolledOver.policy (dayMs + 1) = .ok ⟨some dayMs, some (2 * dayMs)⟩ := by decide
      exact Except.ok.inj (hw.symm.trans hday)
    rw [hwindow]
    exact ⟨by decide, by decide⟩

/-- On the next day nothing was used and nothing was set, and the user is still locked out. -/
theorem rebase_outlives_its_window :
    grantRun 0 .empty "s" "u@example.com" dailyUser [lockOut] = .ok lockedOut ∧
      tokenPeriodWindow dailyUser.policy lockOut.time ≠ tokenPeriodWindow dailyUser.policy dayMs ∧
      effectiveGrantTokensForPolicy 0 lockedOut dayMs = 100 ∧
      userExhausted 0 lockedOut dayMs = true :=
  ⟨rfl, by decide, by decide, by decide⟩

end CcSwitchServer.Sharing
