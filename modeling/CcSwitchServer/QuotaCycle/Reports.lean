import CcSwitchServer.QuotaCycle.Reentry

/-! # What `observe` says about its own effect

The shares are projected anew only when `observe` returns `Ok(true)`.
-/

namespace CcSwitchServer.QuotaCycle
open Foundations QuotaCycleLedger World Option QuotaCycleSource AccountQuotaCycle

/-- What is not reported is no change, and a change is reported. -/
def Reports (w : World) (r : Outcome Bool) : Prop :=
  ((r.1 = .ok false ∨ ∃ e, r.1 = .error e) → r.2.ledger = w.ledger) ∧ (r.2.ledger ≠ w.ledger → r.1 = .ok true)

def QuotaCycleSource.Differs (s : QuotaCycleSource) (o : QuotaWindowObservation) : Prop :=
  s.nextBoundaryMs ≠ some o.endsAtMs ∨ s.lastObservedAtMs ≠ o.observedAtMs

/-- The call changes the ledger and says that it does not: the observation is older than the cycle but
not than the source, or it confirms the end of the cycle at the time the source was last observed, and
moves the boundary of the source or the time in the cycle. -/
def Silent (w : World) (sourceRef : String) (fence : QuotaSourceFence) (o : QuotaWindowObservation) : Prop :=
  ∃ identity s c, Passes w sourceRef fence o identity s c ∧
    (o.observedAtMs < c.observedAtMs ∧ s.Differs o ∨ c.observedAtMs ≤ o.observedAtMs ∧ pendingReset c o = none ∧
        c.endsAtMs = some o.endsAtMs ∧ s.lastObservedAtMs = o.observedAtMs ∧
        (s.nextBoundaryMs ≠ some o.endsAtMs ∨ c.observedAtMs ≠ o.observedAtMs))

section
variable {ids : OpaqueIds} {w w' : World} {sourceRef identity : String} {s : QuotaCycleSource}
  {c : AccountQuotaCycle} {fence : QuotaSourceFence} {o : QuotaWindowObservation}
  {reset : String × ℤ × QuotaTimeBasis} {r : Outcome Bool}

theorem Reports.of_same (h : r.2.ledger = w.ledger) : Reports w r := ⟨fun _ => h, fun hne => absurd h hne⟩

theorem Reports.of_true (h : r.1 = .ok true) : Reports w r := by
  refine ⟨?_, fun _ => h⟩
  rintro (hfalse | ⟨e, he⟩)
  · rw [hfalse] at h
    cases h
  · rw [he] at h
    cases h

theorem ok_of_toOption {res : Except QuotaError Bool} {b : Bool} (h : res.toOption = some b) : res = .ok b := by
  cases res with
  | error e => cases h
  | ok b' =>
    cases h
    rfl

theorem not_reports (h : r.1 = .ok false) (hne : r.2.ledger ≠ w.ledger) : ¬Reports w r :=
  fun hr => hne (hr.1 (.inl h))

/-! ## The exits -/

theorem noteWindow_sources (w : World) (identity : String) (s : QuotaCycleSource)
    (o : QuotaWindowObservation) : (w.noteWindow identity s o).ledger.sources =
      w.ledger.sources.insert identity (s.noted o) := by
  unfold noteWindow
  split
  · rfl
  · rfl

/-- A call that does not get past the checks reports right. -/
theorem observe_unpassed (hnone : ¬∃ identity s c, Passes w sourceRef fence o identity s c)
    {stack : ℕ} (h : w.observe ids stack sourceRef fence o = some r) : Reports w r := by
  cases stack with
  | zero => cases h
  | succ stack =>
    rw [observe] at h
    cases hvalid : o.validateEnd with
    | error e =>
      rw [hvalid] at h
      cases h
      exact .of_same rfl
    | ok u =>
      cases hstart : windowStart o with
      | error e =>
        rw [hvalid, hstart] at h
        cases h
        exact .of_same rfl
      | ok inferredStart =>
        rw [hvalid, hstart] at h
        cases hentry : w.ledger.sourceEntry sourceRef with
        | none =>
          rw [hentry] at h
          cases h
          exact .of_same rfl
        | some entry =>
          obtain ⟨identity, s⟩ := entry
          rw [hentry] at h
          dsimp only at h
          split at h
          · cases h
            exact .of_same rfl
          rename_i hfence
          split at h
          · cases h
            exact .of_same rfl
          rename_i hbucket
          split at h
          · cases h
            exact .of_same rfl
          rename_i hrecent
          cases hcycle : s.cycle with
          | some c =>
            exact absurd ⟨identity, s, c, hvalid, ⟨_, hstart⟩, hentry, not_not.mp hfence,
              not_not.mp hbucket, not_lt.mp hrecent, hcycle⟩ hnone
          | none =>
            rw [hcycle] at h
            cases inferredStart with
            | some start =>
              cases h
              exact .of_true rfl
            | none =>
              cases h
              by_cases hsame : s.nextBoundaryMs = some o.endsAtMs ∧ s.lastObservedAtMs = o.observedAtMs
              · refine .of_same ?_
                rw [noteWindow_self (sourceEntry_some hentry).1 hsame.1 hsame.2]
              · refine .of_true ?_
                rw [not_and_or] at hsame
                simpa using hsame

theorem observe_stale (h : Passes w sourceRef fence o identity s c)
    (hold : o.observedAtMs < c.observedAtMs) (stack : ℕ) :
    w.observe ids (stack + 1) sourceRef fence o = some (.ok false, w.noteWindow identity s o) := by
  obtain ⟨inferredStart, hstart⟩ := h.start
  rw [observe]
  simp only [h.valid, hstart, h.entry, h.fence_eq, h.bucket, h.cycle, ne_eq, not_true_eq_false,
    if_false, not_lt.mpr h.recent, hold, if_true]

/-! ## A reset that is due goes through -/

theorem stated_fits {start : ℤ} (hvalid : o.validateEnd = .ok ()) (hstated : o.startsAtMs = some start)
    (hstart : ∃ inferredStart, windowStart o = .ok inferredStart) :
    0 ≤ start ∧ start ≤ o.observedAtMs := by
  have hcompute : o.start = (ensure (o.bucketId ≠ "" ∧ 0 ≤ start ∧ start ≤ o.observedAtMs ∧
      start < o.endsAtMs ∧ o.observedAtMs < o.endsAtMs) .quotaBoundaryInvalid >>= fun _ =>
        pure start) := by
    unfold QuotaWindowObservation.start
    rw [hvalid, ok_bind, QuotaWindowObservation.inferredStart, hstated, some_or]
    rfl
  by_cases hfits : o.bucketId ≠ "" ∧ 0 ≤ start ∧ start ≤ o.observedAtMs ∧ start < o.endsAtMs ∧
      o.observedAtMs < o.endsAtMs
  · exact ⟨hfits.2.1, hfits.2.2.1⟩
  · obtain ⟨inferredStart, hok⟩ := hstart
    rw [ensure_of_not hfits, error_bind] at hcompute
    unfold windowStart at hok
    rw [hcompute] at hok
    cases hok

section
variable (h : Reads w sourceRef fence o identity s c)
include h

variable (hsound : Sound ids w)
include hsound

theorem pendingReset_args
    (hmax : o.endsAtMs ≤ i64Max) (hreset : pendingReset c o = some reset) :
    EventArgs reset.1 reset.2.1 o.observedAtMs := by
  obtain ⟨hobserved, hends⟩ := validateEnd_ok h.valid
  have hfits := hsound.loadable.cycle_fits (sourceEntry_some h.entry).1 h.cycle
  have hnonneg : 0 ≤ c.startsAtMs := hfits.2.2.2.2.2.2.2.1
  obtain ⟨hend, hdue, hid⟩ | ⟨-, hstated, hlater, hid⟩ := pendingReset_cases hreset
  · have hpositive : c.startsAtMs < reset.2.1 := hfits.2.2.2.2.2.2.2.2.2 _ hend
    rw [hid]
    exact ⟨decimal_eventId_nonempty _ (by decide),
      decimal_eventId_short (by decide) (by omega) (by omega), by omega, hdue⟩
  · obtain ⟨hstart, hle⟩ := stated_fits h.valid hstated h.start
    rw [hid]
    exact ⟨decimal_eventId_nonempty _ (by decide), decimal_eventId_short (by decide) hstart (by omega), hstart, hle⟩

theorem Reads.reset_ok
    (hroom : w.ledger.FitsMemory) (hmax : o.endsAtMs ≤ i64Max) (hreset : pendingReset c o = some reset) :
    ∃ b w' s' c', (w.noteWindow identity s o).applyReset ids sourceRef fence reset.1 reset.2.1
        o.observedAtMs reset.2.2 = (.ok b, w') ∧ Reads w' sourceRef fence o identity s' c' := by
  have hargs := pendingReset_args h hsound hmax hreset
  have hentry : (w.noteWindow identity s o).ledger.sourceEntry sourceRef =
      some (identity, s.noted o) := sourceEntry_noteWindow h.entry
  have hcycle : (s.noted o).cycle = some c := h.cycle
  have hfence : (s.noted o).fence = fence := h.fence_eq
  have hcount := le_trans (hsound.kept.counted (sourceEntry_some h.entry).1 h.cycle) (eventCount_le_size w.ledger _)
  rw [applyReset_accepted hentry hcycle reset.2.2 hargs hfence]
  cases hevent : (w.noteWindow identity s o).ledger.events.get? (eventKey sourceRef reset.1) with
  | some previous =>
    dsimp only
    split
    · exact ⟨_, _, _, _, rfl, ⟨h.valid, h.start, hentry, hfence, h.bucket, le_rfl, hcycle⟩, h.newer⟩
    · unfold correctEvent
      dsimp only
      split
      · exact ⟨_, _, _, _, rfl, ⟨h.valid, h.start, hentry, hfence, h.bucket, le_rfl, hcycle⟩, h.newer⟩
      · split
        · refine ⟨_, _, _, _, rfl, ⟨h.valid, h.start, sourceEntry_putSource hentry rfl, hfence,
            h.bucket, le_rfl, rfl⟩, ?_⟩
          exact max_le h.newer le_rfl
        · exact ⟨_, _, _, _, rfl, ⟨h.valid, h.start, hentry, hfence, h.bucket, le_rfl, hcycle⟩, h.newer⟩
  | none =>
    unfold recordEvent
    dsimp only
    split
    · have hsequence : checkedAddU64 c.cycleSequence 1 = some (c.cycleSequence + 1) := by
        unfold FitsMemory at hroom
        exact checkedAddU64_eq_some.mpr ⟨by omega, rfl⟩
      rw [hsequence]
      exact ⟨_, _, _, _, rfl, ⟨h.valid, h.start, sourceEntry_putSource hentry rfl, hfence, h.bucket,
        le_rfl, rfl⟩, le_rfl⟩
    · split
      · exact ⟨_, _, _, _, rfl, ⟨h.valid, h.start, hentry, hfence, h.bucket, le_rfl, hcycle⟩, h.newer⟩
      · exact ⟨_, _, _, _, rfl, ⟨h.valid, h.start, hentry, hfence, h.bucket, le_rfl, hcycle⟩, h.newer⟩

theorem observe_ok
    (hmax : o.endsAtMs ≤ i64Max) {stack : ℕ} (hr : w.observe ids stack sourceRef fence o = some r)
    (hfits : r.2.ledger.FitsMemory) : ∃ b, r.1 = .ok b := by
  induction stack generalizing w s c r with
  | zero => cases hr
  | succ stack ih =>
    have htrace : Trace (Move ids) (fun _ _ => True) w r.2 := observe_trace (fun _ _ _ => trivial) hmax hr
    have hroom := fits_of_moves htrace hfits
    rw [observe_reads h stack] at hr
    cases hreset : pendingReset c o with
    | none =>
      rw [hreset] at hr
      cases hr
      exact ⟨_, rfl⟩
    | some reset =>
      obtain ⟨b, w', s', c', happly, hreads⟩ := h.reset_ok hsound hroom hmax hreset
      rw [hreset] at hr
      dsimp only at hr
      rw [happly] at hr
      obtain ⟨⟨res, w₂⟩, hr', rfl⟩ := map_eq_some_iff.mp hr
      have hnoted : Trace (Move ids) (fun _ _ => True) w (w.noteWindow identity s o) :=
        noteWindow_trace (fun _ _ _ => trivial) (sourceEntry_some h.entry).1 h.valid hmax
      have hmoved := applyReset_any_trace ids (w.noteWindow identity s o) sourceRef fence reset.1
        reset.2.1 o.observedAtMs reset.2.2
      rw [happly] at hmoved
      have hsteady : Steady ids (fun _ => True) w' :=
        moves_steady (fun _ _ _ _ _ _ _ _ => trivial) (hnoted.append hmoved) fun _ => ⟨hsound, trivial⟩
      have hrest : Trace (Move ids) (fun _ _ => True) w' w₂ := observe_trace (fun _ _ _ => trivial) hmax hr'
      have hsound' := (hsteady (fits_of_moves hrest hfits)).1
      obtain ⟨b', hb'⟩ := ih hreads hsound' hr' hfits
      rw [hb']
      exact ⟨true, rfl⟩

end

/-! ## The last exit -/

theorem corroborate_same (hs : w.ledger.sources.get? identity = some s) (hc : s.cycle = some c)
    (hends : c.endsAtMs = some o.endsAtMs) (hobserved : c.observedAtMs = o.observedAtMs) :
    w.corroborate identity s c o = w := by
  have hcycle : ({ c with observedAtMs := o.observedAtMs } : AccountQuotaCycle) = c := by
    rw [← hobserved]
  have hsource : ({ s with cycle := some c } : QuotaCycleSource) = s := by
    rw [← hc]
  have hput : w.ledger.putSource identity s = w.ledger := by
    unfold putSource
    rw [OrderedMap.insert_self hs]
  unfold corroborate
  rw [if_neg (not_not.mpr hends), hcycle, hsource, hput]
  rfl

theorem corroborate_source (hends : c.endsAtMs = some o.endsAtMs) :
    (w.corroborate identity s c o).ledger.sources.get? identity =
      some { s with cycle := some { c with observedAtMs := o.observedAtMs } } := by
  unfold corroborate
  rw [if_neg (not_not.mpr hends)]
  exact OrderedMap.get?_insert_self _ _ _

/-- The last exit forgets a changed boundary of the source and a new time in the cycle. -/
theorem corroborated_reports (h : Reads w sourceRef fence o identity s c) :
    Reports w (.ok (decide (c.endsAtMs ≠ some o.endsAtMs) || decide (s.lastObservedAtMs ≠ o.observedAtMs)),
        (w.noteWindow identity s o).corroborate identity (s.noted o) c o) ↔
      ¬(c.endsAtMs = some o.endsAtMs ∧ s.lastObservedAtMs = o.observedAtMs ∧
        (s.nextBoundaryMs ≠ some o.endsAtMs ∨ c.observedAtMs ≠ o.observedAtMs)) := by
  have hs := (sourceEntry_some h.entry).1
  by_cases hends : c.endsAtMs = some o.endsAtMs
  · by_cases hobserved : s.lastObservedAtMs = o.observedAtMs
    · have hfalse : (decide (c.endsAtMs ≠ some o.endsAtMs) ||
          decide (s.lastObservedAtMs ≠ o.observedAtMs)) = false := by simp [hends, hobserved]
      rw [hfalse]
      by_cases hsame : s.nextBoundaryMs = some o.endsAtMs ∧ c.observedAtMs = o.observedAtMs
      · have hnoted : s.noted o = s := by
          unfold noted
          rw [← hsame.1, ← hobserved]
        have hledger : (w.noteWindow identity s o).corroborate identity (s.noted o) c o = w := by
          rw [noteWindow_self hs hsame.1 hobserved, hnoted, corroborate_same hs h.cycle hends hsame.2]
        refine iff_of_true (.of_same (congrArg ledger hledger)) ?_
        rintro ⟨-, -, hne | hne⟩
        · exact hne hsame.1
        · exact hne hsame.2
      · rw [not_and_or] at hsame
        refine iff_of_false (not_reports rfl fun heq => ?_) (not_not.mpr ⟨hends, hobserved, hsame⟩)
        have hsource : (w.ledger.sources.get? identity) =
            some { s.noted o with cycle := some { c with observedAtMs := o.observedAtMs } } := by
          rw [← heq]
          exact corroborate_source hends
        rw [hs] at hsource
        have heqs := some.inj hsource
        obtain hne | hne := hsame
        · exact hne (congrArg nextBoundaryMs heqs)
        · have hcycle := h.cycle.symm.trans (congrArg cycle heqs)
          exact hne (congrArg observedAtMs (some.inj hcycle))
    · refine iff_of_true (.of_true ?_) fun hsilent => hobserved hsilent.2.1
      simp [hobserved]
  · refine iff_of_true (.of_true ?_) fun hsilent => hends hsilent.1
    simp [hends]

end

/-! ## The result -/

/-- After every run, a call of `observe` that returns reports its own effect, or is silent. -/
theorem observe_reports_iff (ids : OpaqueIds) (w : World)
    (hrun : Trace (Call ids) (fun _ op => op.Typed) (default ids) w) (sourceRef : String)
    (fence : QuotaSourceFence) (o : QuotaWindowObservation)
    (htyped : (Op.observe sourceRef fence o).Typed) (stack : ℕ) (r : Outcome Bool)
    (hr : w.observe ids stack sourceRef fence o = some r) (hfits : r.2.ledger.FitsMemory) :
    Reports w r ↔ ¬Silent w sourceRef fence o := by
  have hmax : o.endsAtMs ≤ i64Max := htyped.2.1.2
  by_cases hpasses : ∃ identity s c, Passes w sourceRef fence o identity s c
  swap
  · exact iff_of_true (observe_unpassed hpasses hr) fun ⟨i, s, c, h, _⟩ => hpasses ⟨i, s, c, h⟩
  obtain ⟨identity, s, c, hpass⟩ := hpasses
  have hs := (sourceEntry_some hpass.entry).1
  obtain - | stack := stack
  · cases hr
  by_cases hold : o.observedAtMs < c.observedAtMs
  · rw [observe_stale hpass hold stack] at hr
    cases hr
    have hsilent : Silent w sourceRef fence o ↔ s.Differs o := by
      constructor
      · rintro ⟨i', s', c', hpass', ⟨-, hdiffers⟩ | ⟨hnewer, -⟩⟩
        · rw [(hpass.unique hpass').1]
          exact hdiffers
        · rw [← (hpass.unique hpass').2] at hnewer
          omega
      · exact fun hdiffers => ⟨identity, s, c, hpass, .inl ⟨hold, hdiffers⟩⟩
    rw [hsilent]
    by_cases hsame : s.nextBoundaryMs = some o.endsAtMs ∧ s.lastObservedAtMs = o.observedAtMs
    · refine iff_of_true (.of_same ?_) ?_
      · dsimp only
        rw [noteWindow_self hs hsame.1 hsame.2]
      · rintro (hne | hne)
        · exact hne hsame.1
        · exact hne hsame.2
    · rw [not_and_or] at hsame
      refine iff_of_false (not_reports rfl fun heq => ?_) (not_not.mpr hsame)
      have hsource : w.ledger.sources.get? identity = some (s.noted o) := by
        rw [← heq]
        rw [noteWindow_sources]
        exact OrderedMap.get?_insert_self _ _ _
      rw [hs] at hsource
      have heqs := some.inj hsource
      obtain hne | hne := hsame
      · exact hne (congrArg nextBoundaryMs heqs)
      · exact hne (congrArg lastObservedAtMs heqs)
  · rw [not_lt] at hold
    have hreads : Reads w sourceRef fence o identity s c := ⟨hpass, hold⟩
    have htrace : Trace (Move ids) (fun _ _ => True) w r.2 := observe_trace (fun _ _ _ => trivial) hmax hr
    have hsound : Sound ids w := sound_of_calls hrun (fits_of_moves htrace hfits)
    have hsilent : Silent w sourceRef fence o ↔ pendingReset c o = none ∧
        c.endsAtMs = some o.endsAtMs ∧ s.lastObservedAtMs = o.observedAtMs ∧
          (s.nextBoundaryMs ≠ some o.endsAtMs ∨ c.observedAtMs ≠ o.observedAtMs) := by
      constructor
      · rintro ⟨i', s', c', hpass', ⟨hstale, -⟩ | ⟨-, hrest⟩⟩
        · rw [← (hpass.unique hpass').2] at hstale
          omega
        · rw [← (hpass.unique hpass').1, ← (hpass.unique hpass').2] at hrest
          exact hrest
      · exact fun hrest => ⟨identity, s, c, hpass, .inr ⟨hold, hrest⟩⟩
    obtain ⟨b, hb⟩ := observe_ok hreads hsound hmax hr hfits
    rw [hsilent]
    rw [observe_reads hreads stack] at hr
    cases hreset : pendingReset c o with
    | none =>
      rw [hreset] at hr
      cases hr
      rw [corroborated_reports hreads]
      simp only [true_and]
    | some reset =>
      refine iff_of_true (.of_true ?_) fun hrest => nomatch hrest.1
      rw [hreset] at hr
      dsimp only at hr
      split at hr
      · cases hr
        cases hb
      · obtain ⟨⟨res, w₂⟩, -, rfl⟩ := map_eq_some_iff.mp hr
        cases res with
        | error e => cases hb
        | ok b' => rfl

theorem observe_reports_iff_opened :
    ∃ w r, guardedRun unaryIds 4 (fun _ op => op.Typed) (default unaryIds) openedRun = some w ∧
      w.observe unaryIds 3 "xx" {} laterWindow = some r ∧
      (Reports w r ↔ ¬Silent w "xx" {} laterWindow) := by
  have hreturns : (guardedRun unaryIds 4 (fun _ op => op.Typed) (default unaryIds)
      openedRun).any (fun w => (w.observe unaryIds 3 "xx" {} laterWindow).any fun r =>
        decide r.2.ledger.FitsMemory) = true := by decide
  obtain ⟨w, hw, hreturned⟩ := (any_eq_true _ _).mp hreturns
  obtain ⟨r, hr, hfits⟩ := (any_eq_true _ _).mp hreturned
  rw [decide_eq_true_eq] at hfits
  exact ⟨w, r, hw, hr, observe_reports_iff unaryIds w (calls_of_guardedRun hw) "xx" {} laterWindow
    (by decide) 3 r hr hfits⟩

/-! ### Two silent calls -/

def overtakenWindow : QuotaWindowObservation := ⟨"shared_weekly", none, 6000, none, 3200, .upstreamWindow⟩

/-- A reset with an earlier discovery than the observation that opened the cycle. -/
def recalledRun : List Op :=
  [.registerSource "identity" "codex_oauth" "shared_weekly" {},
    .observe "xx" {} ⟨"shared_weekly", some 1000, 5000, none, 2000, .upstreamWindow⟩,
    .applyReset "xx" {} "public:a" 1200 1500 .publicAnnouncement]

def repeatedWindow : QuotaWindowObservation := ⟨"shared_weekly", none, 5000, none, 2000, .upstreamWindow⟩

/-- The first call moves the boundary of the source, the second one the time in the cycle; both
return `Ok(false)`. -/
theorem observe_changes_silently :
    (∃ w, Trace (Call unaryIds) (fun _ op => op.Typed) (default unaryIds) w ∧
      ∃ r, w.observe unaryIds 1 "xx" {} overtakenWindow = some r ∧ ¬Reports w r) ∧
    ∃ w, Trace (Call unaryIds) (fun _ op => op.Typed) (default unaryIds) w ∧
      ∃ r, w.observe unaryIds 1 "xx" {} repeatedWindow = some r ∧ ¬Reports w r := by
  constructor
  · have hreturns : (guardedRun unaryIds 4 (fun _ op => op.Typed) (default unaryIds)
        openedRun).any (fun w => (w.observe unaryIds 1 "xx" {} overtakenWindow).any fun r =>
          decide (r.1.toOption = some false ∧ (r.2.ledger.source "xx").map nextBoundaryMs ≠
              (w.ledger.source "xx").map nextBoundaryMs)) = true := by decide
    obtain ⟨w, hw, hreturned⟩ := (any_eq_true _ _).mp hreturns
    obtain ⟨r, hr, hfacts⟩ := (any_eq_true _ _).mp hreturned
    obtain ⟨hres, hmoved⟩ := of_decide_eq_true hfacts
    refine ⟨w, calls_of_guardedRun hw, r, hr, not_reports (ok_of_toOption hres) fun heq => ?_⟩
    exact hmoved (by rw [heq])
  · have hreturns : (guardedRun unaryIds 4 (fun _ op => op.Typed) (default unaryIds)
        recalledRun).any (fun w => (w.observe unaryIds 1 "xx" {} repeatedWindow).any fun r =>
          decide (r.1.toOption = some false ∧ (r.2.currentCycle "xx").map observedAtMs ≠
              (w.currentCycle "xx").map observedAtMs)) = true := by decide
    obtain ⟨w, hw, hreturned⟩ := (any_eq_true _ _).mp hreturns
    obtain ⟨r, hr, hfacts⟩ := (any_eq_true _ _).mp hreturned
    obtain ⟨hres, hmoved⟩ := of_decide_eq_true hfacts
    refine ⟨w, calls_of_guardedRun hw, r, hr, not_reports (ok_of_toOption hres) fun heq => ?_⟩
    exact hmoved (by unfold currentCycle; rw [heq])

end CcSwitchServer.QuotaCycle
