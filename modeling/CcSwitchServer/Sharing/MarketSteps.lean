import CcSwitchServer.Sharing.GrantLifecycle
import CcSwitchServer.Sharing.MarketReceipts
import CcSwitchServer.Sharing.MarketWrites
import CcSwitchServer.Sharing.PeriodTiling

/-! # Market usage in step with the receipts

What the books of a share say between any two operations.
-/

namespace CcSwitchServer.Sharing
open Foundations Calendar Windows Usage Option OrderedMap Share List

/-! ## Grants in step -/

/-- The grant of an entitlement at the entitlement's address. -/
structure Share.Holds (share : Share) (k : String) (g : ShareUserGrant) (id : String)
    (e : ShareMarketEntitlement) : Prop where
  grant : share.userGrants.get? k = some g
  carries : g.entitlementId = some id
  entitlement : share.marketEntitlements.get? id = some e
  address : e.email = k

/-- What a grant keeps to between any two operations. -/
structure InStep (first now : ℤ) (share : Share) (g : ShareUserGrant) (id : String)
    (e : ShareMarketEntitlement) : Prop where
  anchor : AnchorSet g.policy
  rebase : g.usageRebase = none
  quota : g.usageQuota = none
  agrees : Agrees g.policy (Listed share.marketReceiptsBeforeMs) first now
    (compactedBase share.marketCompactedUsage id e.phase) (phaseReceipts share.marketRequests id e.phase) g.usage

/-- What the books of a share say between any two operations. -/
structure Booked (first now : ℤ) (share : Share) : Prop where
  owner : ∀ o ∈ share.ownerEmail, Text.asciiLower o = o
  sound : SoundGrants share.ownerEmail share.userGrants
  lower : ∀ id e, share.marketEntitlements.get? id = some e → Text.asciiLower e.email = e.email
  held : ∀ k g id e, share.userGrants.get? k = some g → g.active = true → g.entitlementId = some id →
    share.marketEntitlements.get? id = some e → e.email = k
  known : ∀ r ∈ share.marketRequests.values,
    ∃ e, share.marketEntitlements.get? r.entitlementId = some e ∧ e.email = r.email
  timed : ∀ r ∈ share.marketRequests.values, first ≤ r.startedAtMs ∧ r.startedAtMs ≤ now
  unread : ∀ r ∈ share.marketRequests.values, r.revision = 0 → r.tokens = 0
  before : share.marketReceiptsBeforeMs ≤ max (now - receiptRetentionMs) 0
  capped : ∀ id phase, (compactedBase share.marketCompactedUsage id phase).1 ≤ u64Max ∧
    (compactedBase share.marketCompactedUsage id phase).2 ≤ u64Max

/-- The usage of a grant agrees with the receipts of the phase of its entitlement. -/
structure MarketSound (first now : ℤ) (share : Share) : Prop extends Booked first now share where
  grants : ∀ k g id e, share.Holds k g id e → InStep first now share g id e

/-! ## Rebuilding -/

section
variable {wall first now : ℤ} {share share' : Share} {g g' : ShareUserGrant} {id : String}
  {e e' : ShareMarketEntitlement}

theorem InStep.congr (h : InStep first now share g id e)
    (hbefore : share'.marketReceiptsBeforeMs = share.marketReceiptsBeforeMs)
    (hcompacted : share'.marketCompactedUsage = share.marketCompactedUsage)
    (hperm : (phaseReceipts share.marketRequests id e.phase).Perm (phaseReceipts share'.marketRequests id e.phase))
    (hphase : e'.phase = e.phase) (hpolicy : g'.policy = g.policy) (husage : g'.usage = g.usage)
    (hrebase : g'.usageRebase = g.usageRebase) (hquota : g'.usageQuota = g.usageQuota) :
    InStep first now share' g' id e' := by
  constructor
  · rw [hpolicy]
    exact h.anchor
  · rw [hrebase]
    exact h.rebase
  · rw [hquota]
    exact h.quota
  · rw [hpolicy, husage, hphase, hbefore, hcompacted]
    exact h.agrees.perm hperm

/-- The entitlements are those before, at the same address and in the same phase. -/
def Renewed (old new : OrderedMap String ShareMarketEntitlement) : Prop :=
  ∀ id, (new.get? id).map (fun e => (e.email, e.phase)) = (old.get? id).map fun e => (e.email, e.phase)

variable {old : OrderedMap String ShareMarketEntitlement} {r : MarketRequestReceipt} {requestId email : String}
  {delta tokens revision clock : ℕ} {operation : ShareManagedGrantOperation}

theorem Renewed.back {new : OrderedMap String ShareMarketEntitlement} (h : Renewed old new)
    (he : new.get? id = some e') : ∃ e, old.get? id = some e ∧ e'.email = e.email ∧ e'.phase = e.phase := by
  have hsame := h id
  rw [he, map_some] at hsame
  obtain ⟨e, hold, heq⟩ := map_eq_some_iff.mp hsame.symm
  exact ⟨e, hold, (congrArg Prod.fst heq).symm, (congrArg Prod.snd heq).symm⟩

theorem Renewed.symm {new : OrderedMap String ShareMarketEntitlement} (h : Renewed old new) :
    Renewed new old := fun id => (h id).symm

theorem Renewed.insert (he : old.get? id = some e) (hemail : e'.email = e.email) (hphase : e'.phase = e.phase) :
    Renewed old (old.insert id e') := by
  intro id'
  rw [get?_insert]
  split
  · rename_i hsame
    rw [← hsame, he, map_some, map_some, hemail, hphase]
  · rfl

theorem Booked.renew (h : Booked first now share) (howner : share'.ownerEmail = share.ownerEmail)
    (hsound : SoundGrants share.ownerEmail share'.userGrants)
    (hrenewed : Renewed share.marketEntitlements share'.marketEntitlements)
    (hgrants : ∀ k g', share'.userGrants.get? k = some g' → ∃ g, share.userGrants.get? k = some g ∧
      g'.entitlementId = g.entitlementId ∧ (g'.active = true → g.active = true))
    (hrequests : ∀ r ∈ share'.marketRequests.values, (∃ r₀ ∈ share.marketRequests.values,
      r.entitlementId = r₀.entitlementId ∧ r.email = r₀.email ∧ r.startedAtMs = r₀.startedAtMs) ∧
      (r.revision = 0 → r.tokens = 0)) (hbefore : share'.marketReceiptsBeforeMs = share.marketReceiptsBeforeMs)
    (hcompacted : share'.marketCompactedUsage = share.marketCompactedUsage) : Booked first now share' := by
  constructor
  · rw [howner]
    exact h.owner
  · rw [howner]
    exact hsound
  · intro id e' he'
    obtain ⟨e, he, haddress, -⟩ := hrenewed.back he'
    rw [haddress]
    exact h.lower id e he
  · intro k g' id e' hg' hactive hid he'
    obtain ⟨e, he, haddress, -⟩ := hrenewed.back he'
    obtain ⟨g, hg, hcarries, hwas⟩ := hgrants k g' hg'
    rw [haddress]
    exact h.held k g id e hg (hwas hactive) (hcarries ▸ hid) he
  · intro r hr
    obtain ⟨⟨r₀, hr₀, hid, haddress, -⟩, -⟩ := hrequests r hr
    obtain ⟨e, he, hknown⟩ := h.known r₀ hr₀
    obtain ⟨e', he', hsame, -⟩ := hrenewed.symm.back he
    exact ⟨e', hid ▸ he', hsame.symm.trans (hknown.trans haddress.symm)⟩
  · intro r hr
    obtain ⟨⟨r₀, hr₀, -, -, hstart⟩, -⟩ := hrequests r hr
    rw [hstart]
    exact h.timed r₀ hr₀
  · exact fun r hr => (hrequests r hr).2
  · rw [hbefore]
    exact h.before
  · rw [hcompacted]
    exact h.capped

theorem projectGrant_identity (wall : ℤ) (share : Share) (g : ShareUserGrant) :
    (share.projectGrant wall g).email = g.email ∧ (share.projectGrant wall g).role = g.role ∧
      (share.projectGrant wall g).active = g.active ∧ (share.projectGrant wall g).manager = g.manager ∧
      (share.projectGrant wall g).entitlementId = g.entitlementId := by
  obtain ⟨_, _, _, heq⟩ := projectGrant_eq share wall g
  rw [heq]
  exact ⟨rfl, rfl, rfl, rfl, rfl⟩

theorem projectGrant_inStep (hbooked : Booked first now share) (hid : g.entitlementId = some id)
    (he : share.marketEntitlements.get? id = some e) (hset : AnchorSet g.policy) (hfirst : 0 < first)
    (hnow : first ≤ now) (hdate : IsDate (now / dayMs)) :
    InStep first now share (share.projectGrant wall g) id e := by
  have hagrees : Agrees g.policy (Listed share.marketReceiptsBeforeMs) first now _ _
      (share.projectGrant wall g).usage :=
    agrees_project hset hid he (hbooked.capped id e.phase) hfirst hnow hdate hbooked.timed
  have hpolicy : (share.projectGrant wall g).policy = g.policy := by
    obtain ⟨_, _, _, heq⟩ := projectGrant_eq share wall g
    rw [heq]
  have hreset : (share.projectGrant wall g).usageRebase = none ∧ (share.projectGrant wall g).usageQuota = none := by
    unfold projectGrant
    rw [hid]
    dsimp only
    rw [he]
    exact ⟨rfl, rfl⟩
  refine ⟨?_, hreset.1, hreset.2, ?_⟩
  · rw [hpolicy]
    exact hset
  · rw [hpolicy]
    exact hagrees

theorem Booked.project (hbooked : Booked first now share)
    (hset : ∀ k g id e, share.Holds k g id e → AnchorSet g.policy) (hfirst : 0 < first) (hnow : first ≤ now)
    (hdate : IsDate (now / dayMs)) : MarketSound first now (share.project wall) := by
  have hget : ∀ k g', (share.project wall).userGrants.get? k = some g' →
      ∃ g, share.userGrants.get? k = some g ∧ share.projectGrant wall g = g' := by
    intro k g' hg'
    unfold Share.project at hg'
    rw [get?_mapValues] at hg'
    exact map_eq_some_iff.mp hg'
  constructor
  · refine hbooked.renew rfl (hbooked.sound.mapValues (projectGrant_identity wall share)) (fun _ => rfl) ?_
      (fun r hr => ⟨⟨r, hr, rfl, rfl, rfl⟩, hbooked.unread r hr⟩) rfl rfl
    intro k g' hg'
    obtain ⟨g, hg, rfl⟩ := hget k g' hg'
    obtain ⟨-, -, hsame, -, hcarries⟩ := projectGrant_identity wall share g
    exact ⟨g, hg, hcarries, fun hactive => hsame ▸ hactive⟩
  · intro k g' id e hholds
    obtain ⟨g, hg, rfl⟩ := hget k g' hholds.grant
    obtain ⟨-, -, -, -, hcarries⟩ := projectGrant_identity wall share g
    have hid : g.entitlementId = some id := hcarries ▸ hholds.carries
    have hheld : share.Holds k g id e := ⟨hg, hid, hholds.entitlement, hholds.address⟩
    have hstep : InStep first now share (share.projectGrant wall g) id e :=
      projectGrant_inStep hbooked hid hholds.entitlement (hset k g id e hheld) hfirst hnow hdate
    exact hstep.congr rfl rfl (List.Perm.refl _) rfl rfl rfl rfl rfl

/-! ## Compaction -/

theorem filter_values (requests : OrderedMap String MarketRequestReceipt) (p : MarketRequestReceipt → Bool) :
    (requests.filter fun e => p e.2).values = requests.values.filter p := by
  unfold OrderedMap.filter OrderedMap.values
  exact filter_map.symm

theorem retained_iff {cutoff : ℤ} :
    r.retained cutoff = true ↔ cutoff ≤ r.startedAtMs ∨ r.revision = 0 := decide_eq_true_iff

theorem phaseReceipts_retained (cutoff : ℤ) (requests : OrderedMap String MarketRequestReceipt) (id : String)
    (phase : ShareMarketPhase) :
    phaseReceipts (requests.filter fun e => e.2.retained cutoff) id phase =
      (phaseReceipts requests id phase).filter fun r => cutoff ≤ r.startedAtMs := by
  unfold phaseReceipts
  rw [filter_values requests fun r => r.retained cutoff, List.filter_filter, List.filter_filter]
  refine List.filter_congr fun r _ => ?_
  rw [Bool.eq_iff_iff, Bool.and_eq_true, Bool.and_eq_true, decide_eq_true_eq, decide_eq_true_eq, retained_iff]
  constructor
  · rintro ⟨hphase, hcutoff | hzero⟩
    · exact ⟨hcutoff, hphase⟩
    · exact absurd hzero hphase.2.2.ne'
  · rintro ⟨hcutoff, hphase⟩
    exact ⟨hphase, .inl hcutoff⟩

theorem phaseReceipts_dropped (cutoff : ℤ) (requests : OrderedMap String MarketRequestReceipt) (id : String)
    (phase : ShareMarketPhase) :
    (requests.values.filter fun r => ¬r.retained cutoff).filter (fun r => OfPhase id phase r) =
      (phaseReceipts requests id phase).filter fun r => !decide (cutoff ≤ r.startedAtMs) := by
  unfold phaseReceipts
  rw [List.filter_filter, List.filter_filter]
  refine List.filter_congr fun r _ => ?_
  rw [Bool.eq_iff_iff, Bool.and_eq_true, Bool.and_eq_true, decide_eq_true_eq, decide_eq_true_eq,
    decide_eq_true_eq, retained_iff, Bool.not_eq_true', decide_eq_false_iff_not]
  constructor
  · rintro ⟨⟨hid, hphase⟩, hnot⟩
    exact ⟨fun hcutoff => hnot (.inl hcutoff), hid, hphase, by omega⟩
  · rintro ⟨hcutoff, hid, hphase, hpos⟩
    exact ⟨⟨hid, hphase⟩, fun h => h.elim hcutoff (by omega)⟩

theorem lt_of_isDate {t : ℤ} (h : IsDate (t / dayMs)) : t < i64Max := by
  have hlast : yearStart 262143 * dayMs + dayMs < i64Max := by decide
  have hday := h.2
  unfold dayMs minuteMs at *
  omega

theorem compact_cases (share : Share) {at_ : ℤ} (hat : at_ < i64Max) : share.compact at_ = share ∨ ∃ cutoff,
    cutoff = max (at_ - receiptRetentionMs) 0 ∧ share.marketReceiptsBeforeMs ≤ cutoff ∧ share.compact at_ =
      { share with
        marketRequests := share.marketRequests.filter fun e => e.2.retained cutoff
        marketCompactedUsage := (share.marketRequests.values.filter fun r => ¬r.retained cutoff).foldl
          foldReceipt share.marketCompactedUsage
        marketReceiptsBeforeMs := cutoff } := by
  unfold compact
  dsimp only
  split
  · exact .inl rfl
  · rename_i hnot
    refine .inr ⟨_, rfl, ?_, rfl⟩
    have hmax : 0 < i64Max := by decide
    unfold saturatingAddI64 receiptRetentionMs at *
    omega

/-- What compaction drops goes to the totals. -/
theorem MarketSound.compact {at_ : ℤ} (h : MarketSound first now share) (hfirst : 0 < first)
    (hdate : IsDate (now / dayMs)) (hat : at_ ≤ now) : MarketSound first now (share.compact at_) := by
  obtain heq | ⟨cutoff, hcutoff, hbefore, heq⟩ := compact_cases share (hat.trans_lt (lt_of_isDate hdate))
  · rw [heq]
    exact h
  · rw [heq]
    have hmem : ∀ r ∈ (share.marketRequests.filter fun e => e.2.retained cutoff).values,
        r ∈ share.marketRequests.values := by
      intro r hr
      rw [filter_values share.marketRequests fun r => r.retained cutoff] at hr
      exact mem_of_mem_filter hr
    constructor
    · refine ⟨h.owner, h.sound, h.lower, h.held, fun r hr => h.known r (hmem r hr),
        fun r hr => h.timed r (hmem r hr), fun r hr => h.unread r (hmem r hr), ?_, ?_⟩
      · dsimp only
        rw [hcutoff]
        omega
      · intro id phase
        exact compactedBase_fold_capped _ (h.capped id phase)
    · intro k g id e hholds
      have hheld : share.Holds k g id e := ⟨hholds.grant, hholds.carries, hholds.entitlement, hholds.address⟩
      have hstep := h.grants k g id e hheld
      refine ⟨hstep.anchor, hstep.rebase, hstep.quota, ?_⟩
      dsimp only
      rw [phaseReceipts_retained, compactedBase_fold _ (h.capped id e.phase), phaseReceipts_dropped]
      refine hstep.agrees.drop (fun t => cutoff ≤ t) ?_ ?_
      · intro start hstart
        unfold Listed at hstart ⊢
        omega
      · intro hp r hr hnot hlisted
        have hstart := (h.timed r (mem_of_mem_filter hr)).1
        have hle : windowStart g.policy r.startedAtMs ≤ r.startedAtMs := windowStart_le (by omega)
        rw [decide_eq_false_iff_not] at hnot
        unfold Listed at hlisted
        omega

/-! ## Admission -/

theorem MarketSound.register (h : MarketSound first now share)
    (hfresh : share.marketRequests.get? requestId = none) (hunread : r.revision = 0 ∧ r.tokens = 0)
    (hknown : ∃ e, share.marketEntitlements.get? r.entitlementId = some e ∧ e.email = r.email)
    (htimed : first ≤ r.startedAtMs ∧ r.startedAtMs ≤ now) :
    MarketSound first now { share with marketRequests := share.marketRequests.insert requestId r } := by
  constructor
  · refine ⟨h.owner, h.sound, h.lower, h.held, ?_, ?_, ?_, h.before, h.capped⟩
    · intro x hx
      obtain rfl | hx := mem_values_insert hx
      · exact hknown
      · exact h.known x hx
    · intro x hx
      obtain rfl | hx := mem_values_insert hx
      · exact htimed
      · exact h.timed x hx
    · intro x hx
      obtain rfl | hx := mem_values_insert hx
      · exact fun _ => hunread.2
      · exact h.unread x hx
  · intro k g id e hholds
    have hheld : share.Holds k g id e := ⟨hholds.grant, hholds.carries, hholds.entitlement, hholds.address⟩
    exact (h.grants k g id e hheld).congr rfl rfl (phaseReceipts_unread hfresh hunread.1) rfl rfl rfl rfl rfl

theorem admitRequest_cases {startedAtMs : ℤ} {admitted : Bool}
    (h : share.admitRequest email requestId startedAtMs = .ok (admitted, share')) :
    share' = share ∨ ∃ k g id e, share.userGrants.get? k = some g ∧ g.active = true ∧
      g.entitlementId = some id ∧ share.marketEntitlements.get? id = some e ∧
      share.marketRequests.get? requestId = none ∧ share' =
        { share.compact startedAtMs with
          marketRequests := (share.compact startedAtMs).marketRequests.insert requestId
            { entitlementId := id, email := k, phase := e.phase, startedAtMs := startedAtMs,
              tokens := 0, revision := 0 } } := by
  unfold admitRequest at h
  obtain ⟨_, -, h⟩ := bind_eq_ok.mp h
  dsimp only at h
  split at h
  · cases h
    exact .inl rfl
  · rename_i g hgrant
    obtain ⟨hgrant, hactive⟩ := filter_eq_some_iff.mp hgrant
    split at h
    · cases h
      exact .inl rfl
    · rename_i id hid
      split at h
      · cases h
        exact .inl rfl
      · rename_i e hentitlement
        obtain ⟨hentitlement, -⟩ := filter_eq_some_iff.mp hentitlement
        obtain ⟨_, -, h⟩ := bind_eq_ok.mp h
        split at h
        · obtain ⟨_, -, h⟩ := bind_eq_ok.mp h
          cases h
          exact .inl rfl
        · rename_i hfresh
          obtain ⟨_, -, h⟩ := bind_eq_ok.mp h
          obtain ⟨_, -, h⟩ := bind_eq_ok.mp h
          obtain ⟨_, -, h⟩ := bind_eq_ok.mp h
          cases h
          exact .inr ⟨_, g, id, e, hgrant, hactive, hid, hentitlement, hfresh, rfl⟩

theorem compact_frame (share : Share) (at_ : ℤ) :
    (share.compact at_).marketEntitlements = share.marketEntitlements ∧
      ∀ requestId, share.marketRequests.get? requestId = none →
        (share.compact at_).marketRequests.get? requestId = none := by
  unfold compact
  dsimp only
  split
  · exact ⟨rfl, fun _ h => h⟩
  · refine ⟨rfl, fun requestId h => eq_none_iff_forall_ne_some.mpr fun r hr => ?_⟩
    rw [get?_filter_eq_some, h] at hr
    cases hr.1

theorem MarketSound.admission {startedAtMs : ℤ} {admitted : Bool}
    (hok : share.admitRequest email requestId startedAtMs = .ok (admitted, share'))
    (h : MarketSound first now share) (hfirst : 0 < first) (hdate : IsDate (now / dayMs))
    (htimed : first ≤ startedAtMs ∧ startedAtMs ≤ now) : MarketSound first now share' := by
  obtain rfl | ⟨k, g, id, e, hgrant, hactive, hid, he, hfresh, rfl⟩ := admitRequest_cases hok
  · exact h
  · obtain ⟨hentitlements, hstill⟩ := compact_frame share startedAtMs
    refine (h.compact hfirst hdate htimed.2).register (hstill requestId hfresh) ⟨rfl, rfl⟩ ?_ htimed
    rw [hentitlements]
    exact ⟨e, he, h.held k g id e hgrant hactive hid he⟩

/-! ## Recording -/

theorem MarketSound.inherit (h : MarketSound first now share) (log : UsageLog) :
    MarketSound first now (share.inherit log) := by
  obtain ⟨heq, -⟩ | ⟨parent, ⟨hfresh, -, hparent⟩, heq⟩ := inherit_cases share log
  · rw [heq]
    exact h
  · obtain ⟨parentId, -, hstored⟩ := bind_eq_some_iff.mp hparent
    have hmem : parent ∈ share.marketRequests.values := mem_values_iff.mpr ⟨parentId, hstored⟩
    rw [heq]
    exact h.register hfresh ⟨rfl, rfl⟩ (h.known parent hmem) (h.timed parent hmem)

theorem chargeEntitlement_frame {phase : ShareMarketPhase} {uncertain : Bool}
    (h : chargeEntitlement e phase delta uncertain = .ok e') : e'.email = e.email ∧ e'.phase = e.phase ∧
      (e.usageUncertain = true → e'.usageUncertain = true) := by
  unfold chargeEntitlement at h
  cases phase with
  | paid =>
    cases h
    exact ⟨rfl, rfl, fun hun => Bool.or_eq_true_iff.mpr (.inl hun)⟩
  | trial =>
    obtain ⟨used, -, h⟩ := bind_eq_ok.mp h
    obtain ⟨revision, -, h⟩ := bind_eq_ok.mp h
    cases h
    exact ⟨rfl, rfl, fun hun => Bool.or_eq_true_iff.mpr (.inl hun)⟩

/-- A log is refused, inherited, or charged by what it adds. -/
theorem record_cases {log : UsageLog} {changed : Bool} (h : share.record wall log = .ok (changed, share')) :
    share' = share.inherit log ∨ ∃ receipt e e',
      (share.inherit log).marketRequests.get? log.requestId = some receipt ∧
      receipt.revision < max log.usageRevision 1 ∧ receipt.tokens ≤ log.quotaTokens ∧
      (share.inherit log).marketEntitlements.get? receipt.entitlementId = some e ∧
      e'.email = e.email ∧ e'.phase = e.phase ∧ (e.usageUncertain = true → e'.usageUncertain = true) ∧ share' =
        { share.inherit log with
          marketRequests := (share.inherit log).marketRequests.insert log.requestId
            { receipt with tokens := log.quotaTokens, revision := max log.usageRevision 1 }
          marketEntitlements := (share.inherit log).marketEntitlements.insert receipt.entitlementId e'
          userGrants := chargeGrant wall (share.inherit log).userGrants e' receipt
            (log.quotaTokens - receipt.tokens) (receipt.revision = 0 && receipt.countRequest) } := by
  unfold record at h
  dsimp only at h
  split at h
  · cases h
    exact .inl rfl
  · rename_i receipt hreceipt
    obtain ⟨_, -, h⟩ := bind_eq_ok.mp h
    split at h
    · cases h
      exact .inl rfl
    · split at h
      · cases h
        exact .inl rfl
      · split at h
        · obtain ⟨_, -, h⟩ := bind_eq_ok.mp h
          cases h
          exact .inl rfl
        · rename_i hnotOlder hnotSame
          obtain ⟨_, hmore, h⟩ := bind_eq_ok.mp h
          rw [ensure_eq_ok] at hmore
          obtain ⟨e, he, h⟩ := bind_eq_ok.mp h
          rw [context_eq_ok] at he
          obtain ⟨e', hcharged, h⟩ := bind_eq_ok.mp h
          obtain ⟨hemail, hphase, hun⟩ := chargeEntitlement_frame hcharged
          cases h
          have hnewer : receipt.revision < max log.usageRevision 1 := by omega
          exact .inr ⟨receipt, e, e', hreceipt, hnewer, hmore, he, hemail, hphase, hun, rfl⟩

def Charged (e : ShareMarketEntitlement) (r : MarketRequestReceipt) (k : String) (g : ShareUserGrant) : Prop :=
  k = r.email ∧ g.entitlementId = some r.entitlementId ∧ e.phase = r.phase

theorem chargeGrant_get {grants : UserGrants} {count : Bool} {k : String}
    (h : (chargeGrant wall grants e r delta count).get? k = some g') :
    ∃ g, grants.get? k = some g ∧ (¬Charged e r k g ∧ g' = g ∨ Charged e r k g ∧ g' = { g with
        usage := g.usage.recordMarketDelta wall g.policy delta r.startedAtMs count
        usageRebase := none
        usageQuota := none }) := by
  unfold chargeGrant at h
  cases hgrant : grants.get? r.email with
  | none =>
    rw [hgrant] at h
    refine ⟨g', h, .inl ⟨fun hcharged => ?_, rfl⟩⟩
    rw [hcharged.1, hgrant] at h
    cases h
  | some g =>
    rw [hgrant] at h
    dsimp only at h
    split at h
    · rename_i hown
      rw [get?_insert] at h
      split at h
      · rename_i hkey
        subst hkey
        cases h
        exact ⟨g, hgrant, .inr ⟨⟨rfl, hown⟩, rfl⟩⟩
      · rename_i hkey
        exact ⟨g', h, .inl ⟨fun hcharged => hkey hcharged.1.symm, rfl⟩⟩
    · rename_i hother
      refine ⟨g', h, .inl ⟨fun hcharged => ?_, rfl⟩⟩
      rw [hcharged.1, hgrant] at h
      cases h
      exact hother hcharged.2

theorem chargeGrant_sound {owner : Option String} {grants : UserGrants} {count : Bool}
    (hs : SoundGrants owner grants) : SoundGrants owner (chargeGrant wall grants e r delta count) := by
  unfold chargeGrant
  split
  · exact hs
  · rename_i g hgrant
    split
    · obtain ⟨hemail, hlower⟩ := hs.keyed hgrant
      have hmanaged := hs.managed hgrant
      have hcarried := hs.carried hgrant
      refine hs.insert hemail hlower hmanaged hcarried ?_
      intro k' g' id hgrant' hactive hactive' hid hid'
      exact (hs.exclusive hgrant hgrant' hactive hactive' hid hid').symm
    · exact hs

theorem InStep.charge (h : InStep first now share g r.entitlementId e)
    (hstored : share.marketRequests.get? requestId = some r) (hunread : r.revision = 0 → r.tokens = 0)
    (hclock : OnClock r.startedAtMs) (hnow : r.startedAtMs ≤ now) (hphase : e.phase = r.phase)
    (hmore : r.tokens ≤ tokens) (hnewer : r.revision < revision)
    (hbefore : share'.marketReceiptsBeforeMs = share.marketReceiptsBeforeMs)
    (hcompacted : share'.marketCompactedUsage = share.marketCompactedUsage)
    (hrequests : share'.marketRequests = share.marketRequests.insert requestId
      { r with tokens := tokens, revision := revision }) (hsame : e'.phase = e.phase) :
    InStep first now share'
      { g with
        usage := g.usage.recordMarketDelta wall g.policy (tokens - r.tokens) r.startedAtMs
          (r.revision = 0 && r.countRequest)
        usageRebase := none
        usageQuota := none } r.entitlementId e' := by
  obtain ⟨rest, hold, hnew⟩ := phaseReceipts_update hstored { r with tokens := tokens, revision := revision }
    r.entitlementId e.phase
  have hwritten : ofPhase r.entitlementId e.phase { r with tokens := tokens, revision := revision } =
      [{ r with tokens := tokens, revision := revision }] := if_pos ⟨rfl, hphase.symm, by dsimp only; omega⟩
  rw [hwritten] at hnew
  have hread : 0 < r.revision → ofPhase r.entitlementId e.phase r = [r] := fun hpos =>
    if_pos ⟨rfl, hphase.symm, hpos⟩
  have hnone : r.revision = 0 → ofPhase r.entitlementId e.phase r = [] := fun hzero =>
    if_neg fun hin => hin.2.2.ne' hzero
  refine ⟨h.anchor, rfl, rfl, ?_⟩
  rw [hsame, hbefore, hcompacted, hrequests]
  refine (h.agrees.delta (r := { r with tokens := tokens, revision := revision }) hold ?_ h.anchor hclock hnow
    ?_ ?_).perm hnew.symm
  · intro x hx
    unfold ofPhase at hx
    split at hx
    · rw [mem_singleton] at hx
      rw [hx]
    · exact absurd hx not_mem_nil
  · dsimp only
    obtain hzero | hpos := Nat.eq_zero_or_pos r.revision
    · rw [hnone hzero, hunread hzero]
      exact (Nat.zero_add _).symm
    · rw [hread hpos, map_singleton, sum_singleton]
      omega
  · obtain hzero | hpos := Nat.eq_zero_or_pos r.revision
    · rw [hnone hzero, decide_eq_true hzero, Bool.true_and]
      exact (Nat.zero_add _).symm
    · rw [hread hpos, map_singleton, sum_singleton, decide_eq_false hpos.ne', Bool.false_and]
      rfl

theorem InStep.aside (h : InStep first now share g id e) (hstored : share.marketRequests.get? requestId = some r)
    (hother : ¬OfPhase id e.phase r) (hbefore : share'.marketReceiptsBeforeMs = share.marketReceiptsBeforeMs)
    (hcompacted : share'.marketCompactedUsage = share.marketCompactedUsage)
    (hrequests : share'.marketRequests = share.marketRequests.insert requestId
      { r with tokens := tokens, revision := revision }) (hsame : e'.phase = e.phase) :
    InStep first now share' g id e' := by
  obtain ⟨rest, hold, hnew⟩ := phaseReceipts_update hstored { r with tokens := tokens, revision := revision }
    id e.phase
  have hnone : ofPhase id e.phase r = [] := if_neg fun hin => hother ⟨hin.1, hin.2.1⟩
  have hnone' : ofPhase id e.phase { r with tokens := tokens, revision := revision } = [] :=
    if_neg fun hin => hother ⟨hin.1, hin.2.1⟩
  rw [hnone] at hold
  rw [hnone', ← hrequests] at hnew
  exact h.congr hbefore hcompacted (hold.trans hnew.symm) hsame rfl rfl rfl rfl

/-- A delta and its receipt keep each other's step. -/
theorem MarketSound.charge {receipt : MarketRequestReceipt} (h : MarketSound first now share) (hfirst : 0 < first)
    (hdate : IsDate (now / dayMs)) (hreceipt : share.marketRequests.get? requestId = some receipt)
    (hmore : receipt.tokens ≤ tokens) (hnewer : receipt.revision < revision)
    (he : share.marketEntitlements.get? receipt.entitlementId = some e) (hemail : e'.email = e.email)
    (hphase : e'.phase = e.phase) :
    MarketSound first now { share with
        marketRequests := share.marketRequests.insert requestId { receipt with tokens := tokens, revision := revision }
        marketEntitlements := share.marketEntitlements.insert receipt.entitlementId e'
        userGrants := chargeGrant wall share.userGrants e' receipt (tokens - receipt.tokens)
          (receipt.revision = 0 && receipt.countRequest) } := by
  have hmem : receipt ∈ share.marketRequests.values := mem_values_iff.mpr ⟨requestId, hreceipt⟩
  have hrenewed := Renewed.insert he hemail hphase
  constructor
  · refine h.renew rfl (chargeGrant_sound h.sound) hrenewed ?_ ?_ rfl rfl
    · intro k g' hg'
      obtain ⟨g, hg, ⟨-, rfl⟩ | ⟨-, rfl⟩⟩ := chargeGrant_get hg'
      · exact ⟨_, hg, rfl, id⟩
      · exact ⟨g, hg, rfl, id⟩
    · intro r hr
      obtain rfl | hr := mem_values_insert hr
      · refine ⟨⟨receipt, hmem, rfl, rfl, rfl⟩, fun hzero => ?_⟩
        dsimp only at hzero
        omega
      · exact ⟨⟨r, hr, rfl, rfl, rfl⟩, h.unread r hr⟩
  · intro k g' id x hholds
    obtain ⟨e₀, he₀, haddress, hsame⟩ := hrenewed.back hholds.entitlement
    obtain ⟨g, hg, ⟨hnot, rfl⟩ | ⟨hcharged, rfl⟩⟩ := chargeGrant_get hholds.grant
    · have hheld : share.Holds k g' id e₀ := ⟨hg, hholds.carries, he₀, haddress ▸ hholds.address⟩
      refine (h.grants k g' id e₀ hheld).aside hreceipt (fun hof => hnot ?_) rfl rfl rfl hsame
      obtain ⟨hid, hphase₀⟩ := hof
      obtain ⟨e₁, he₁, hknown⟩ := h.known receipt hmem
      rw [hid, he₀] at he₁
      cases he₁
      rw [hid, he₀] at he
      cases he
      exact ⟨hheld.address.symm.trans hknown, hid ▸ hholds.carries, hphase.trans hphase₀.symm⟩
    · have hcarries : some id = some receipt.entitlementId := hholds.carries.symm.trans hcharged.2.1
      cases hcarries
      rw [he] at he₀
      cases he₀
      have hheld : share.Holds k g receipt.entitlementId e := ⟨hg, hholds.carries, he, haddress ▸ hholds.address⟩
      obtain ⟨hlow, hhigh⟩ := h.timed receipt hmem
      exact (h.grants k g _ e hheld).charge hreceipt (h.unread receipt hmem)
        (OnClock.between hfirst hdate hlow hhigh) hhigh (hphase.symm.trans hcharged.2.2) hmore hnewer rfl rfl
        rfl hsame

theorem MarketSound.record {log : UsageLog} {changed : Bool}
    (hok : share.record wall log = .ok (changed, share')) (h : MarketSound first now share) (hfirst : 0 < first)
    (hdate : IsDate (now / dayMs)) : MarketSound first now share' := by
  obtain rfl | ⟨receipt, e, e', hreceipt, hnewer, hmore, he, hemail, hphase, -, rfl⟩ := record_cases hok
  · exact h.inherit log
  · exact (h.inherit log).charge hfirst hdate hreceipt hmore hnewer he hemail hphase

/-! ## Managed operations -/

theorem endEntitlement_renews (share : Share) (operation : ShareManagedGrantOperation) (id : String) :
    ((share.pendAck operation).endEntitlement id).ownerEmail = share.ownerEmail ∧
      ((share.pendAck operation).endEntitlement id).marketRequests = share.marketRequests ∧
      ((share.pendAck operation).endEntitlement id).marketCompactedUsage = share.marketCompactedUsage ∧
      ((share.pendAck operation).endEntitlement id).marketReceiptsBeforeMs = share.marketReceiptsBeforeMs ∧
      Renewed share.marketEntitlements ((share.pendAck operation).endEntitlement id).marketEntitlements := by
  have hack : (share.pendAck operation).marketEntitlements = share.marketEntitlements ∧
      (share.pendAck operation).ownerEmail = share.ownerEmail ∧
      (share.pendAck operation).marketRequests = share.marketRequests ∧
      (share.pendAck operation).marketCompactedUsage = share.marketCompactedUsage ∧
      (share.pendAck operation).marketReceiptsBeforeMs = share.marketReceiptsBeforeMs := by
    unfold pendAck
    split
    · exact ⟨rfl, rfl, rfl, rfl, rfl⟩
    · exact ⟨rfl, rfl, rfl, rfl, rfl⟩
  obtain ⟨hentitlements, howner, hrequests, hcompacted, hbefore⟩ := hack
  unfold endEntitlement
  rw [hentitlements]
  cases he : share.marketEntitlements.get? id with
  | none =>
    refine ⟨howner, hrequests, hcompacted, hbefore, ?_⟩
    rw [hentitlements]
    exact fun _ => rfl
  | some e => exact ⟨howner, hrequests, hcompacted, hbefore, Renewed.insert he rfl rfl⟩

theorem MarketSound.renew (h : MarketSound first now share) (howner : share'.ownerEmail = share.ownerEmail)
    (hsound : SoundGrants share.ownerEmail share'.userGrants)
    (hrenewed : Renewed share.marketEntitlements share'.marketEntitlements)
    (hgrants : ∀ k g', share'.userGrants.get? k = some g' → ∃ g, share.userGrants.get? k = some g ∧
      g'.entitlementId = g.entitlementId ∧ (g'.active = true → g.active = true) ∧ g'.policy = g.policy ∧
      g'.usage = g.usage ∧ g'.usageRebase = g.usageRebase ∧ g'.usageQuota = g.usageQuota)
    (hrequests : share'.marketRequests = share.marketRequests)
    (hbefore : share'.marketReceiptsBeforeMs = share.marketReceiptsBeforeMs)
    (hcompacted : share'.marketCompactedUsage = share.marketCompactedUsage) :
    MarketSound first now share' := by
  constructor
  · refine h.toBooked.renew howner hsound hrenewed ?_ ?_ hbefore hcompacted
    · intro k g' hg'
      obtain ⟨g, hg, hcarries, hwas, -⟩ := hgrants k g' hg'
      exact ⟨g, hg, hcarries, hwas⟩
    · rw [hrequests]
      exact fun r hr => ⟨⟨r, hr, rfl, rfl, rfl⟩, h.unread r hr⟩
  · intro k g' id e' hholds
    obtain ⟨g, hg, hcarries, -, hpolicy, husage, hrebase, hquota⟩ := hgrants k g' hholds.grant
    obtain ⟨e, he, haddress, hphase⟩ := hrenewed.back hholds.entitlement
    have hheld : share.Holds k g id e := ⟨hg, hcarries ▸ hholds.carries, he, haddress ▸ hholds.address⟩
    refine (h.grants k g id e hheld).congr hbefore hcompacted ?_ hphase hpolicy husage hrebase hquota
    rw [hrequests]

theorem MarketSound.revoke (hok : share.revokeManagedGrant clock operation email = .ok share')
    (h : MarketSound first now share) : MarketSound first now share' := by
  have hsound := revokeManagedGrant_sound hok h.sound
  obtain ⟨howner, hrequests, hcompacted, hbefore, hrenewed⟩ :=
    endEntitlement_renews share operation operation.entitlementId
  have hgrants : ((share.pendAck operation).endEntitlement operation.entitlementId).userGrants =
      share.userGrants := endEntitlement_userGrants operation.entitlementId
  unfold revokeManagedGrant at hok
  dsimp only at hok
  rw [carrier_endEntitlement] at hok
  split at hok
  · cases hok
    refine h.renew howner hsound hrenewed ?_ hrequests hbefore hcompacted
    rw [hgrants]
    exact fun k g hg => ⟨g, hg, rfl, id, rfl, rfl, rfl, rfl⟩
  · rename_i k g hcarrier
    obtain ⟨_, -, hok⟩ := bind_eq_ok.mp hok
    cases hok
    obtain ⟨hg, -, -⟩ := find?_entries_eq_some.mp hcarrier
    refine h.renew howner hsound hrenewed ?_ hrequests hbefore hcompacted
    rw [hgrants]
    intro k' g' hg'
    rw [get?_insert] at hg'
    split at hg'
    · rename_i hkey
      subst hkey
      cases hg'
      exact ⟨g, hg, rfl, nofun, rfl, rfl, rfl, rfl⟩
    · exact ⟨g', hg', rfl, id, rfl, rfl, rfl, rfl⟩

theorem anchorSet_of_effective {policy policy' : ShareUserPolicy} {duration : Option ℕ}
    (h : effectivePolicy clock policy duration = .ok policy') : AnchorSet policy' := by
  unfold effectivePolicy at h
  obtain ⟨_, -, h⟩ := bind_eq_ok.mp h
  obtain ⟨policy₀, -, h⟩ := bind_eq_ok.mp h
  obtain ⟨_, hvalid, h⟩ := bind_eq_ok.mp h
  obtain ⟨_, -, h⟩ := bind_eq_ok.mp h
  cases h
  have hvalid : validateUserPolicy (defaultAnchor clock policy₀) (clockI64 clock) = .ok () := by
    cases hchecked : validateUserPolicy (defaultAnchor clock policy₀) (clockI64 clock) with
    | ok => rfl
    | error e =>
      rw [hchecked] at hvalid
      cases hvalid
  intro hrequired
  obtain ⟨anchor, hanchor, hnonneg, hpast⟩ := anchoredBy_validated hvalid hrequired
  refine ⟨anchor, hanchor, hnonneg, hpast.trans ?_⟩
  unfold clockI64
  exact min_le_right _ _

/-- The entitlements after an upsert, by what is read of them. -/
structure Entered (share share' : Share) (id email : String) : Prop where
  owner : share'.ownerEmail = share.ownerEmail
  requests : share'.marketRequests = share.marketRequests
  compacted : share'.marketCompactedUsage = share.marketCompactedUsage
  before : share'.marketReceiptsBeforeMs = share.marketReceiptsBeforeMs
  entitlements : ∀ id' e', share'.marketEntitlements.get? id' = some e' →
    id' = id ∧ e'.email = email ∨ id' ≠ id ∧ share.marketEntitlements.get? id' = some e'
  kept : ∀ id' e, share.marketEntitlements.get? id' = some e →
    ∃ e', share'.marketEntitlements.get? id' = some e' ∧ e'.email = e.email

theorem entered_of_checked (h : share.checkPhase operation email = .ok ()) (hemail : Text.asciiLower email = email)
    (hlower : ∀ id e, share.marketEntitlements.get? id = some e → Text.asciiLower e.email = e.email) :
    Entered share (share.enterPhase clock operation email) operation.entitlementId email := by
  unfold checkPhase at h
  unfold enterPhase
  cases hphase : operation.marketPhase with
  | none =>
    rw [hphase] at h
    obtain ⟨_, hnone, -⟩ := bind_eq_ok.mp h
    rw [ensure_eq_ok] at hnone
    refine ⟨rfl, rfl, rfl, rfl, fun id' e' he' => .inr ⟨fun hsame => ?_, he'⟩, fun id' e he => ⟨e, he, rfl⟩⟩
    rw [hsame, hnone] at he'
    cases he'
  | some phase =>
    rw [hphase] at h
    unfold validatePhase validateTransition at h
    obtain ⟨_, htransition, -⟩ := bind_eq_ok.mp h
    obtain ⟨_, -, htransition⟩ := bind_eq_ok.mp htransition
    rw [ensure_eq_ok] at htransition
    have hsame : ∀ e, share.marketEntitlements.get? operation.entitlementId = some e → e.email = email := by
      intro e he
      rw [he, all_some, decide_eq_true_eq] at htransition
      exact (eqIgnoreAsciiCase_iff (hlower _ e he) hemail).mp htransition.1
    have haddress : (share.phasedEntitlement clock operation email phase).email = email := by
      unfold phasedEntitlement
      cases he : share.marketEntitlements.get? operation.entitlementId with
      | none => rfl
      | some e => exact hsame e he
    refine ⟨rfl, rfl, rfl, rfl, ?_, ?_⟩
    · intro id' e' he'
      rw [get?_insert] at he'
      split at he'
      · rename_i hid
        cases he'
        exact .inl ⟨hid.symm, haddress⟩
      · rename_i hid
        exact .inr ⟨fun heq => hid heq.symm, he'⟩
    · intro id' e he
      rw [get?_insert]
      split
      · rename_i hid
        rw [← hid] at he
        exact ⟨_, rfl, haddress.trans (hsame e he).symm⟩
      · exact ⟨e, he, rfl⟩

/-- A new phase begins with its own receipts. -/
theorem MarketSound.upsert (hok : share.upsertManagedGrant clock operation email = .ok share')
    (h : MarketSound first now share) (hemail : Text.asciiLower email = email)
    (howner : share.ownerEmail ≠ some email) (hfirst : 0 < first) (hnow : first ≤ now)
    (hdate : IsDate (now / dayMs)) : MarketSound first now share' := by
  unfold upsertManagedGrant at hok
  obtain ⟨_, -, hok⟩ := bind_eq_ok.mp hok
  obtain ⟨_, hphase, hok⟩ := bind_eq_ok.mp hok
  obtain ⟨policy, hpolicy, hok⟩ := bind_eq_ok.mp hok
  obtain ⟨_, hassigned, hok⟩ := bind_eq_ok.mp hok
  cases hok
  have hentered : Entered share (share.enterPhase clock operation email) operation.entitlementId email :=
    entered_of_checked hphase hemail h.lower
  have hsound : SoundGrants share.ownerEmail (share.userGrants.insert email
      (managedGrant clock (share.userGrants.get? email) email operation.entitlementId policy)) :=
    insertManaged_sound hassigned h.sound hemail howner
  refine Booked.project ?_ ?_ hfirst hnow hdate
  · constructor
    · dsimp only
      rw [hentered.owner]
      exact h.owner
    · dsimp only
      rw [hentered.owner, enterPhase_userGrants]
      exact hsound
    · intro id e he
      obtain ⟨-, haddress⟩ | ⟨-, he⟩ := hentered.entitlements id e he
      · rw [haddress]
        exact hemail
      · exact h.lower id e he
    · intro k g id e hg hactive hid he
      rw [enterPhase_userGrants, get?_insert] at hg
      split at hg
      · rename_i hkey
        cases hg
        cases hid
        obtain ⟨-, haddress⟩ | ⟨hne, -⟩ := hentered.entitlements _ e he
        · exact haddress.trans hkey
        · exact absurd rfl hne
      · rename_i hkey
        obtain ⟨rfl, -⟩ | ⟨-, he⟩ := hentered.entitlements id e he
        · exact absurd (holder_of_assigned hassigned h.sound hemail hg hactive hid).symm hkey
        · exact h.held k g id e hg hactive hid he
    · intro r hr
      rw [hentered.requests] at hr
      obtain ⟨e, he, hknown⟩ := h.known r hr
      obtain ⟨e', he', hsame⟩ := hentered.kept _ e he
      exact ⟨e', he', hsame.trans hknown⟩
    · dsimp only
      rw [hentered.requests]
      exact h.timed
    · dsimp only
      rw [hentered.requests]
      exact h.unread
    · dsimp only
      rw [hentered.before]
      exact h.before
    · dsimp only
      rw [hentered.compacted]
      exact h.capped
  · rintro k g id e ⟨hg, hid, he, haddress⟩
    rw [enterPhase_userGrants, get?_insert] at hg
    split at hg
    · cases hg
      exact anchorSet_of_effective hpolicy
    · rename_i hkey
      obtain ⟨-, hsame⟩ | ⟨-, he⟩ := hentered.entitlements id e he
      · exact absurd (hsame.symm.trans haddress) hkey
      · exact (h.grants k g id e ⟨hg, hid, he, haddress⟩).anchor

theorem MarketSound.managed (hok : share.applyManagedGrantOperation clock operation = .ok share')
    (h : MarketSound first now share) (hfirst : 0 < first) (hnow : first ≤ now) (hdate : IsDate (now / dayMs)) :
    MarketSound first now share' := by
  obtain ⟨email, hverified, howner, ⟨-, hup⟩ | ⟨-, hrevoke⟩⟩ := applyManagedGrantOperation_ok hok h.owner
  · exact h.upsert hup (asciiLower_of_verified hverified) howner hfirst hnow hdate
  · exact h.revoke hrevoke

end

end CcSwitchServer.Sharing
