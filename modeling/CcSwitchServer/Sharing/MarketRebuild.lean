import CcSwitchServer.Sharing.MarketSteps

/-! # Incremental and rebuilt Market usage

A rebuild reads as what the deltas have added up.
-/

namespace CcSwitchServer.Sharing
open Foundations Calendar Windows Usage Share

/-! ## Operations on one share -/

inductive MarketOp
  | managed (now : ℕ) (operation : ShareManagedGrantOperation)
  | admission (email requestId : String) (startedAtMs : ℤ)
  | record (wall : ℤ) (log : UsageLog)
  | compact (at_ : ℤ)
  | project (wall : ℤ)

/-- A failed operation leaves the share as it was. -/
def kept {ε : Type} (share : Share) : Except ε Share → Share
  | .ok share' => share'
  | .error _ => share

def Share.marketStep (share : Share) : MarketOp → Share
  | .managed now operation => kept share (share.applyManagedGrantOperation now operation)
  | .admission email requestId startedAtMs => kept share (Prod.snd <$> share.admitRequest email requestId startedAtMs)
  | .record wall log => kept share (Prod.snd <$> share.record wall log)
  | .compact at_ => share.compact at_
  | .project wall => share.project wall

/-- Requests start and receipts are compacted within these instants. -/
def MarketOp.Between (first now : ℤ) : MarketOp → Prop
  | .admission _ _ startedAtMs => first ≤ startedAtMs ∧ startedAtMs ≤ now
  | .compact at_ => at_ ≤ now
  | .managed _ _ | .record _ _ | .project _ => True

instance (first now : ℤ) : DecidablePred (MarketOp.Between first now)
  | .admission _ _ startedAtMs => inferInstanceAs (Decidable (first ≤ startedAtMs ∧ startedAtMs ≤ now))
  | .compact at_ => inferInstanceAs (Decidable (at_ ≤ now))
  | .managed _ _ | .record _ _ | .project _ => inferInstanceAs (Decidable True)

/-- A share that no contract has been made on. -/
structure Share.Unmarketed (share : Share) : Prop where
  owner : ∀ o ∈ share.ownerEmail, Text.asciiLower o = o
  sound : SoundGrants share.ownerEmail share.userGrants
  entitlements : share.marketEntitlements = .empty
  requests : share.marketRequests = .empty
  compacted : share.marketCompactedUsage = .empty
  before : share.marketReceiptsBeforeMs = 0

section
variable {first now wall : ℤ} {share : Share} {op : MarketOp} {ops : List MarketOp} {k id : String}
  {g : ShareUserGrant} {e : ShareMarketEntitlement}

theorem Share.Unmarketed.sound_start (h : share.Unmarketed) : MarketSound first now share := by
  have hentitlement : ∀ id, share.marketEntitlements.get? id = none := by
    rw [h.entitlements]
    exact OrderedMap.get?_empty
  have hrequest : ∀ r, r ∉ share.marketRequests.values := by
    rw [h.requests]
    exact fun r => List.not_mem_nil
  constructor
  · refine ⟨h.owner, h.sound, ?_, ?_, fun r hr => absurd hr (hrequest r), fun r hr => absurd hr (hrequest r),
      fun r hr => absurd hr (hrequest r), ?_, ?_⟩
    · intro id e he
      rw [hentitlement] at he
      cases he
    · intro k g id e _ _ _ he
      rw [hentitlement] at he
      cases he
    · rw [h.before]
      exact le_max_right _ _
    · rw [h.compacted]
      intro id phase
      cases phase with
      | trial => exact ⟨Nat.zero_le _, Nat.zero_le _⟩
      | paid => exact ⟨Nat.zero_le _, Nat.zero_le _⟩
  · intro k g id e hholds
    have he := hholds.entitlement
    rw [hentitlement] at he
    cases he

/-- Every operation keeps usage and receipts in step. -/
theorem MarketSound.step (h : MarketSound first now share) (hfirst : 0 < first) (hnow : first ≤ now)
    (hdate : IsDate (now / dayMs)) (hop : op.Between first now) :
    MarketSound first now (share.marketStep op) := by
  cases op with
  | managed clock operation =>
    unfold marketStep
    dsimp only
    cases hok : share.applyManagedGrantOperation clock operation with
    | error e => exact h
    | ok share' => exact h.managed hok hfirst hnow hdate
  | admission email requestId startedAtMs =>
    unfold marketStep
    dsimp only
    cases hok : share.admitRequest email requestId startedAtMs with
    | error e => exact h
    | ok answer =>
      obtain ⟨admitted, share'⟩ := answer
      exact h.admission hok hfirst hdate hop
  | record wall log =>
    unfold marketStep
    dsimp only
    cases hok : share.record wall log with
    | error e => exact h
    | ok answer =>
      obtain ⟨changed, share'⟩ := answer
      exact h.record hok hfirst hdate
  | compact at_ => exact h.compact hfirst hdate hop
  | project wall =>
    exact h.toBooked.project (fun k g id e hholds => (h.grants k g id e hholds).anchor) hfirst hnow hdate

theorem market_sound_run (hstart : share.Unmarketed) (hfirst : 0 < first) (hnow : first ≤ now)
    (hdate : IsDate (now / dayMs)) (hops : ∀ op ∈ ops, op.Between first now) :
    MarketSound first now (run marketStep share ops) :=
  run_invariant (fun _ _ hsound hop => hsound.step hfirst hnow hdate hop) hstart.sound_start
    (EachStep.of_mem hops share)

theorem effective_congr {g' : ShareUserGrant} {wall wall' : ℤ} (hpolicy : g'.policy = g.policy)
    (hrebase : g.usageRebase = none ∧ g'.usageRebase = none) (hquota : g.usageQuota = none ∧ g'.usageQuota = none)
    (htokens : g.usage.tokensForPolicy wall g.policy now = g'.usage.tokensForPolicy wall' g.policy now) :
    effectiveGrantTokensForPolicy wall g now = effectiveGrantTokensForPolicy wall' g' now := by
  unfold effectiveGrantTokensForPolicy
  rw [hpolicy, hrebase.1, hrebase.2, hquota.1, hquota.2, htokens]

end

/-! ## The result -/

/-- After every run, a rebuild at any instant leaves what `now` reads as it is, if no request starts after
`now`. -/
theorem market_rebuild_agrees (first now : ℤ) (share : Share) (ops : List MarketOp) (hstart : share.Unmarketed)
    (hfirst : 0 < first) (hnow : first ≤ now) (hdate : IsDate (now / dayMs))
    (hops : ∀ op ∈ ops, op.Between first now) (k id : String) (g : ShareUserGrant) (e : ShareMarketEntitlement)
    (hgrant : (run marketStep share ops).userGrants.get? k = some g) (hcarries : g.entitlementId = some id)
    (hknown : (run marketStep share ops).marketEntitlements.get? id = some e)
    (hheld : g.active = true ∨ e.email = k) (hmonday : FromMonday g.policy first) (wall wall' : ℤ) :
    ∃ g', ((run marketStep share ops).project wall').userGrants.get? k = some g' ∧
      g'.policy = g.policy ∧
      g.usage.tokensForPolicy wall g.policy now = g'.usage.tokensForPolicy wall' g.policy now ∧
      requestsForPolicy wall g.usage g.policy now = requestsForPolicy wall' g'.usage g.policy now ∧
      effectiveGrantTokensForPolicy wall g now = effectiveGrantTokensForPolicy wall' g' now := by
  have hsound := market_sound_run hstart hfirst hnow hdate hops
  generalize run marketStep share ops = after at *
  have haddress : e.email = k :=
    hheld.elim (fun hactive => hsound.held k g id e hgrant hactive hcarries hknown) fun h => h
  have hstep := hsound.grants k g id e ⟨hgrant, hcarries, hknown, haddress⟩
  have hrebuilt : InStep first now after (after.projectGrant wall' g) id e :=
    projectGrant_inStep hsound.toBooked hcarries hknown hstep.anchor hfirst hnow hdate
  have hpolicy : (after.projectGrant wall' g).policy = g.policy := by
    obtain ⟨_, _, _, heq⟩ := projectGrant_eq after wall' g
    rw [heq]
  have hagrees := hrebuilt.agrees
  rw [hpolicy] at hagrees
  have hlisted : Windowed g.policy → Listed after.marketReceiptsBeforeMs (windowStart g.policy now) := by
    intro hp
    have hbefore := hsound.before
    have hrecent := lt_windowStart (t := now) hp
    unfold Listed receiptRetentionMs dayMs minuteMs at *
    omega
  have hreading : g.usage.tokensForPolicy wall g.policy now =
        (after.projectGrant wall' g).usage.tokensForPolicy wall' g.policy now ∧
      requestsForPolicy wall g.usage g.policy now =
        requestsForPolicy wall' (after.projectGrant wall' g).usage g.policy now :=
    hstep.agrees.same_reading hagrees hstep.anchor ⟨by omega, hdate⟩ hmonday hlisted
  obtain ⟨htokens, hrequests⟩ := hreading
  refine ⟨after.projectGrant wall' g, ?_, hpolicy, htokens, hrequests, ?_⟩
  · unfold project
    rw [OrderedMap.get?_mapValues, hgrant, Option.map_some]
  · exact effective_congr hpolicy ⟨hstep.rebase, hrebuilt.rebase⟩ ⟨hstep.quota, hrebuilt.quota⟩ htokens

/-! ## Sample runs -/

def seatShare : Share where
  id := "share"
  ownerEmail := some "owner@x.io"

def seatOperation (action : ShareManagedGrantAction) (email : String) (phase : Option ShareMarketPhase)
    (period : Option ShareTokenPeriod) : ShareManagedGrantOperation where
  operationId := "operation"
  entitlementId := "seat"
  shareSequence := 1
  expectedConfigRevision := 1
  action := action
  email := email
  policy := period.map fun period => { tokenPeriod := period }
  marketPhase := phase
  trialScopeId := phase.map fun _ => "scope"

def seatLog (requestId email : String) : UsageLog where
  requestId := requestId
  inputTokens := some 7
  shareId := some "share"
  userEmail := some email
  usageState := .observed
  usageRevision := 1

def seatOps (period : ShareTokenPeriod) (startedAtMs wall : ℤ) (later : List MarketOp) : List MarketOp :=
  [.managed 1000 (seatOperation .upsert "a@x.io" (some .paid) (some period)),
    .admission "a@x.io" "first" startedAtMs, .record wall (seatLog "first" "a@x.io")] ++ later

def seatRun (period : ShareTokenPeriod) (startedAtMs wall : ℤ) (later : List MarketOp) : Share :=
  run marketStep seatShare (seatOps period startedAtMs wall later)

theorem seatShare_unmarketed : seatShare.Unmarketed where
  owner := by
    intro o ho
    cases ho
    rfl
  sound := by
    constructor <;> intros <;> contradiction
  entitlements := rfl
  requests := rfl
  compacted := rfl
  before := rfl

def twoDays : List MarketOp :=
  seatOps .day dayMs 0 [.admission "a@x.io" "second" (40 * dayMs), .record 0 (seatLog "second" "a@x.io")]

theorem market_rebuild_agrees_seat :
    ∃ g, (run marketStep seatShare twoDays).userGrants.get? "a@x.io" = some g ∧
      g.usage.tokensForPolicy 0 g.policy (40 * dayMs) = 7 ∧
      ∃ g', ((run marketStep seatShare twoDays).project 0).userGrants.get? "a@x.io" = some g' ∧
        effectiveGrantTokensForPolicy 0 g (40 * dayMs) = effectiveGrantTokensForPolicy 0 g' (40 * dayMs) := by
  have hgrant : ((run marketStep seatShare twoDays).userGrants.get? "a@x.io").any (fun g =>
      g.entitlementId = some "seat" ∧ g.active = true ∧ g.policy.tokenPeriod ≠ .week ∧
        g.usage.tokensForPolicy 0 g.policy (40 * dayMs) = 7) = true := by decide
  have hknown : ((run marketStep seatShare twoDays).marketEntitlements.get? "seat").isSome = true := by
    decide
  obtain ⟨g, hg, hfacts⟩ := (Option.any_eq_true _ _).mp hgrant
  obtain ⟨e, he⟩ := Option.isSome_iff_exists.mp hknown
  rw [decide_eq_true_eq] at hfacts
  obtain ⟨hcarries, hactive, hperiod, htokens⟩ := hfacts
  obtain ⟨g', hg', -, -, -, heffective⟩ := market_rebuild_agrees dayMs (40 * dayMs) seatShare twoDays
    seatShare_unmarketed (by decide) (by decide) (by decide) (by decide) "a@x.io" "seat" g e hg hcarries he
    (.inl hactive) (fun hweek => absurd hweek hperiod) 0 0
  exact ⟨g, hg, htokens, g', hg', heffective⟩

def readings (share : Share) (k : String) (wall now : ℤ) : Option (ℕ × ℕ) := do
  let g ← share.userGrants.get? k
  let g' ← (share.project wall).userGrants.get? k
  pure (g.usage.tokensForPolicy wall g.policy now, g'.usage.tokensForPolicy wall g'.policy now)

/-- The grant's entitlement is known, and no recorded request starts after `now`. -/
def Settled (share : Share) (k : String) (now : ℤ) : Prop :=
  (((share.userGrants.get? k).bind fun g => g.entitlementId).bind share.marketEntitlements.get?).isSome = true ∧
    ∀ r ∈ share.marketRequests.values, 0 < r.revision → r.startedAtMs ≤ now

instance (share : Share) (k : String) (now : ℤ) : Decidable (Settled share k now) :=
  inferInstanceAs (Decidable (_ ∧ _))

def resoldRun : Share :=
  run marketStep seatShare
    [.managed 1000 (seatOperation .upsert "a@x.io" none (some .day)),
      .managed 2000 (seatOperation .revoke "a@x.io" none none),
      .managed 3000 (seatOperation .upsert "b@x.io" (some .paid) (some .day)), .admission "b@x.io" "first" dayMs,
      .record 0 (seatLog "first" "b@x.io")]

/-- A compacted day is gone from a rebuild; the revoked grant of a seat that was sold again is rebuilt from the
requests of the new user; requests that no calendar has are charged to the day of the clock; requests before
the first Monday are not charged. -/
theorem market_rebuild_differs :
    (Settled (seatRun .day dayMs 0 [.admission "a@x.io" "second" (40 * dayMs)]) "a@x.io" dayMs ∧
      readings (seatRun .day dayMs 0 [.admission "a@x.io" "second" (40 * dayMs)]) "a@x.io" 0 dayMs = some (7, 0)) ∧
    (Settled resoldRun "a@x.io" dayMs ∧ readings resoldRun "a@x.io" 0 dayMs = some (0, 7)) ∧
    (Settled (seatRun .day 9000000000000000 0 []) "a@x.io" 9000000000000000 ∧
      readings (seatRun .day 9000000000000000 0 []) "a@x.io" dayMs 9000000000000000 = some (0, 7)) ∧
    Settled (seatRun .week 1000 0 []) "a@x.io" 1000 ∧
    readings (seatRun .week 1000 0 []) "a@x.io" 0 1000 = some (0, 7) := by
  decide

/-! ## Recovery -/

/-- A trial request without final usage leaves its contract uncertain. -/
def Share.Closed (share : Share) (k : String) : Prop :=
  ∀ r, share.marketRequests.get? k = some r → r.revision = 0 → r.phase = .trial →
    ∃ e, share.marketEntitlements.get? r.entitlementId = some e ∧ e.usageUncertain = true

section
variable {wall : ℤ} {share share' : Share} {id k : String} {logs : List UsageLog} {e e' : ShareMarketEntitlement}

theorem Share.Closed.insert (h : share.Closed k) (he : share.marketEntitlements.get? id = some e)
    (hun : e.usageUncertain = true → e'.usageUncertain = true)
    (hwritten : share'.marketEntitlements = share.marketEntitlements.insert id e')
    (hsame : share'.marketRequests.get? k = share.marketRequests.get? k) : share'.Closed k := by
  intro r hr hrevision hphase
  obtain ⟨old, hold, huncertain⟩ := h r (hsame ▸ hr) hrevision hphase
  rw [hwritten, OrderedMap.get?_insert]
  split
  · rename_i hid
    rw [← hid, he] at hold
    cases hold
    exact ⟨e', rfl, hun huncertain⟩
  · exact ⟨old, hold, huncertain⟩

section
variable (h : share.recoverRequest wall logs id = .ok share')
include h

theorem recoverRequest_cases : ∃ recorded receipt,
    (recorded = share ∨ ∃ log changed, log.requestId = id ∧ share.record wall log = .ok (changed, recorded)) ∧
    recorded.marketRequests.get? id = some receipt ∧
    (¬(receipt.revision = 0 ∧ receipt.phase = .trial) ∧ share' = recorded ∨
      ∃ e, recorded.marketEntitlements.get? receipt.entitlementId = some e ∧ share' =
        { recorded with marketEntitlements :=
            recorded.marketEntitlements.insert receipt.entitlementId { e with usageUncertain := true } }) := by
  unfold recoverRequest at h
  dsimp only at h
  split at h
  all_goals
    obtain ⟨recorded, hrecorded, h⟩ := bind_eq_ok.mp h
    split at h
    · cases h
    rename_i receipt hreceipt
    refine ⟨recorded, receipt, ?_, hreceipt, ?_⟩
    pick_goal 2
    · split at h
      · obtain ⟨e, he, h⟩ := bind_eq_ok.mp h
        cases h
        exact .inr ⟨e, context_eq_ok.mp he, rfl⟩
      · rename_i hnot
        cases h
        exact .inl ⟨hnot, rfl⟩
  · cases hrecorded
    exact .inl rfl
  · rename_i log hlog _ _
    cases hok : share.record wall log with
    | error e =>
      rw [hok] at hrecorded
      cases hrecorded
    | ok answer =>
      rw [hok] at hrecorded
      cases hrecorded
      have hfound := List.find?_some hlog
      rw [decide_eq_true_eq] at hfound
      exact .inr ⟨log, answer.1, hfound.1, hok⟩

/-- A recovery of one request leaves the others closed. -/
theorem closed_recoverRequest (hk : k ≠ id → share.Closed k) :
    share'.Closed k := by
  obtain ⟨recorded, receipt, hrecorded, hreceipt, hmarked⟩ := recoverRequest_cases h
  have hothers : k ≠ id → recorded.Closed k := by
    intro hne
    obtain rfl | ⟨log, changed, rfl, hrecord⟩ := hrecorded
    · exact hk hne
    · have hsame := inherit_others share log k hne
      have hkept := (ignored_inherit share log).entitlements
      obtain rfl | ⟨_, e, e', -, -, -, he, -, -, hun, rfl⟩ := record_cases hrecord
      · intro r
        rw [hsame, hkept]
        exact hk hne r
      · refine (hk hne).insert (hkept ▸ he) hun (by rw [hkept]) ?_
        exact (OrderedMap.get?_insert_of_ne _ _ hne.symm).trans hsame
  obtain ⟨hnot, rfl⟩ | ⟨e, he, rfl⟩ := hmarked
  · by_cases hid : k = id
    · intro r hr hrevision hphase
      rw [hid, hreceipt] at hr
      cases hr
      exact absurd ⟨hrevision, hphase⟩ hnot
    · exact hothers hid
  · by_cases hid : k = id
    · intro r hr _ _
      cases (hid ▸ hreceipt).symm.trans hr
      exact ⟨_, OrderedMap.get?_insert_self _ _ _, rfl⟩
    · exact (hothers hid).insert he (fun _ => rfl) rfl rfl

end

theorem closed_recoverRequests {ids : List String} (h : k ∈ ids ∨ share.Closed k)
    (hok : ids.foldlM (recoverRequest wall logs) share = .ok share') : share'.Closed k := by
  induction ids generalizing share with
  | nil =>
    cases hok
    exact h.resolve_left List.not_mem_nil
  | cons id ids ih =>
    obtain ⟨next, hnext, hok⟩ := bind_eq_ok.mp hok
    by_cases hk : k ∈ ids
    · exact ih (.inl hk) hok
    · refine ih (.inr (closed_recoverRequest hnext fun hne => h.resolve_left fun hmem => ?_)) hok
      exact (List.mem_cons.mp hmem).elim hne hk

end

/-- After a recovery a contract is uncertain while a trial request of it has no final usage and, after a
restore, while it is active. An uncertain contract is admitted no request. -/
theorem recovery_fails_closed (wall : ℤ) (share share' : Share) (logs : List UsageLog) (restored : Bool)
    (h : share.recover wall logs restored = .ok share') :
    (∀ k, share'.Closed k) ∧
    (restored = true → ∀ id e, share'.marketEntitlements.get? id = some e → e.active = true →
      e.usageUncertain = true) ∧
    ∀ id e email requestId startedAtMs after, share'.marketEntitlements.get? id = some e →
      e.usageUncertain = true → e.active = true →
      ((share'.userGrants.get? (Text.asciiLower (Text.trim email))).filter (·.active)).bind (·.entitlementId) =
        some id → share'.admitRequest email requestId startedAtMs ≠ .ok (true, after) := by
  obtain ⟨recovered, hrecovered, h⟩ := bind_eq_ok.mp h
  have hall : ∀ k, recovered.Closed k := by
    intro k
    refine closed_recoverRequests (or_iff_not_imp_left.mpr fun hnot r hr hrevision => absurd ?_ hnot) hrecovered
    rw [← OrderedMap.mem_entries_iff] at hr
    exact List.mem_map.mpr ⟨_, List.mem_filter.mpr ⟨hr, decide_eq_true hrevision⟩, rfl⟩
  refine ⟨fun k r hr hrevision hphase => ?_, fun hrestored id e he hactive => ?_, ?_⟩
  · split at h
    · cases h
      obtain ⟨e, he, hun⟩ := hall k r hr hrevision hphase
      rw [OrderedMap.get?_mapValues, he]
      refine ⟨_, rfl, ?_⟩
      rw [apply_ite ShareMarketEntitlement.usageUncertain, hun, ite_self]
    · cases h
      exact hall k r hr hrevision hphase
  · rw [if_pos hrestored] at h
    cases h
    rw [OrderedMap.get?_mapValues] at he
    obtain ⟨old, -, rfl⟩ := Option.map_eq_some_iff.mp he
    by_cases hold : old.active = true
    · rw [if_pos hold]
    · rw [if_neg hold] at hactive
      exact absurd hactive hold
  · intro id e email requestId startedAtMs after he hun hactive hgrant hok
    have huncertain : share'.uncertain id = true := by
      unfold Share.uncertain
      rw [he, Option.any_some, List.any_eq_true]
      exact ⟨e, OrderedMap.mem_values_iff.mpr ⟨id, he⟩, decide_eq_true ⟨rfl, hun⟩⟩
    unfold admitRequest at hok
    obtain ⟨_, -, hok⟩ := bind_eq_ok.mp hok
    dsimp only at hok
    split at hok
    · cases hok
    · rename_i g hg
      rw [hg, Option.bind_some] at hgrant
      rw [hgrant] at hok
      dsimp only at hok
      rw [he, Option.filter_some, if_pos hactive] at hok
      obtain ⟨_, hensure, -⟩ := bind_eq_ok.mp hok
      exact ensure_eq_ok.mp hensure huncertain

def trialRequest : Share :=
  run marketStep seatShare
    [.managed 1000 (seatOperation .upsert "a@x.io" (some .trial) (some .day)), .admission "a@x.io" "first" dayMs]

def recoveredTrial : Share := kept seatShare (trialRequest.recover 0 [] false)

theorem recovery_fails_closed_trial : recoveredTrial.Closed "first" ∧
    (recoveredTrial.marketRequests.get? "first").any (fun r => r.revision = 0 ∧ r.phase = .trial) = true :=
  ⟨(recovery_fails_closed 0 trialRequest recoveredTrial [] false (by rfl)).1 "first", by decide⟩

end CcSwitchServer.Sharing
