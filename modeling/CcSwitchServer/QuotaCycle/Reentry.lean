import CcSwitchServer.QuotaCycle.Reserved

/-! # An observation comes to an end

`observe` makes the reset that the observation implies and starts again.
-/

namespace CcSwitchServer.QuotaCycle
open Foundations QuotaCycleLedger World Option List OrderedMap AccountQuotaCycle

/-- What a call must not do: use an identifier of the ledger's own, or bring a time before the one at
which the current cycle was last observed. -/
def Op.Behaved (w : World) : Op → Prop
  | .registerSource _ _ _ _ => True
  | .observe _ _ _ => True
  | .applyReset sourceRef _ eventId _ discoveredAtMs _ => ¬Reserved eventId ∧
    ∀ i s c, w.ledger.sources.get? i = some s → s.sourceRef = sourceRef → s.cycle = some c →
      c.observedAtMs ≤ discoveredAtMs
  | .advanceDue _ => True
  | .advanceSourceDue sourceRef nowMs =>
    ∀ i s c, w.ledger.sources.get? i = some s → s.sourceRef = sourceRef → s.cycle = some c → c.observedAtMs ≤ nowMs

/-! ## Every call of such a run keeps its own identifiers clear -/

section
variable {ids : OpaqueIds} {w w' : World} {sourceRef eventId identity : String}
  {s : QuotaCycleSource} {c : AccountQuotaCycle} {fence : QuotaSourceFence}
  {o : QuotaWindowObservation} {effectiveAtMs discoveredAtMs : ℤ} {basis : QuotaTimeBasis}

theorem steady_of_trace (htrace : Trace (Move ids) (fun _ _ => True) w w') (h : Steady ids (Clears ids) w)
    (hclears : Sound ids w → w.ledger.FitsMemory → Clears ids w → Clears ids w') :
    Steady ids (Clears ids) w' := by
  intro hfits'
  have hfits := fits_of_moves htrace hfits'
  obtain ⟨hsound, hclear⟩ := h hfits
  have hsteady : Steady ids (fun _ => True) w' :=
    moves_steady (fun _ _ _ _ _ _ _ _ => trivial) htrace fun _ => ⟨hsound, trivial⟩
  exact ⟨(hsteady hfits').1, hclears hsound hfits hclear⟩

theorem applyReset_any_trace (ids : OpaqueIds) (w : World) (sourceRef : String)
    (fence : QuotaSourceFence) (eventId : String) (effectiveAtMs discoveredAtMs : ℤ)
    (basis : QuotaTimeBasis) : Trace (Move ids) (fun _ _ => True) w
      (w.applyReset ids sourceRef fence eventId effectiveAtMs discoveredAtMs basis).2 :=
  applyReset_trace (fun _ _ => trivial) fun _ _ => trivial

theorem steady_applyReset (h : Steady ids (Clears ids) w)
    (hadmits : Sound ids w → ∀ {i s}, w.ledger.sources.get? i = some s → s.sourceRef = sourceRef →
      Admits s eventId effectiveAtMs discoveredAtMs) :
    Steady ids (Clears ids) (w.applyReset ids sourceRef fence eventId effectiveAtMs discoveredAtMs basis).2 :=
  steady_of_trace (applyReset_any_trace ids w sourceRef fence eventId effectiveAtMs discoveredAtMs basis)
    h fun hsound hfits hclear => hclear.applyReset hsound hfits (hadmits hsound)

theorem Clears.noteWindow (h : Clears ids w) (hsound : Sound ids w)
    (hs : w.ledger.sources.get? identity = some s) (hlater : s.lastObservedAtMs ≤ o.observedAtMs) :
    Clears ids (w.noteWindow identity s o) := by
  unfold World.noteWindow
  split
  · exact h.revise hsound hs rfl rfl (le_refl _) rfl rfl hlater
  · exact h.revise hsound hs rfl rfl (le_refl _) rfl rfl hlater

theorem Clears.corroborate (h : Clears ids w) (hsound : Sound ids w)
    (hs : w.ledger.sources.get? identity = some s) (hc : s.cycle = some c)
    (hnewer : c.observedAtMs ≤ o.observedAtMs) (hlater : s.lastObservedAtMs ≤ o.observedAtMs)
    (hends : o.observedAtMs < o.endsAtMs) : Clears ids (w.corroborate identity s c o) := by
  have hstop : max c.observedAtMs s.lastObservedAtMs < o.endsAtMs := lt_of_le_of_lt (max_le hnewer hlater) hends
  unfold World.corroborate
  split
  · refine h.extend hsound hs hc rfl rfl (le_refl _) rfl rfl rfl hnewer fun stop hstop' => ?_
    cases hstop'
    exact hstop
  · rename_i hsame
    rw [ne_eq, not_not] at hsame
    refine h.extend hsound hs hc rfl rfl (le_refl _) rfl rfl rfl hnewer fun stop hstop' => ?_
    rw [mem_def, hsame] at hstop'
    cases hstop'
    exact hstop

theorem admits_pendingReset {reset : String × ℤ × QuotaTimeBasis} (hc : s.cycle = some c)
    (hnewer : c.observedAtMs ≤ o.observedAtMs) (hreset : pendingReset c o = some reset) :
    Admits s reset.1 reset.2.1 o.observedAtMs := by
  refine .inr ⟨c, hc, .inl hnewer, ?_⟩
  unfold pendingReset at hreset
  split at hreset
  · cases hreset
    exact .inl rfl
  · obtain ⟨start, hstart, rfl⟩ := map_eq_some_iff.mp hreset
    refine .inr ⟨rfl, ?_⟩
    simpa using (filter_eq_some_iff.mp hstart).2

theorem sourceEntry_unique (hsound : Sound ids w)
    (hentry : w.ledger.sourceEntry sourceRef = some (identity, s)) {i : String}
    {t : QuotaCycleSource} (ht : w.ledger.sources.get? i = some t) (href : t.sourceRef = sourceRef) :
    t = s := by
  obtain ⟨hs, hsref⟩ := sourceEntry_some hentry
  have hsame := hsound.loadable.source_inj ht hs (href.trans hsref.symm)
  subst hsame
  rw [ht] at hs
  exact some.inj hs

/-- An observation keeps the state steady, however often it starts again. -/
theorem steady_observe (hmax : o.endsAtMs ≤ i64Max) {stack : ℕ} {r : Outcome Bool}
    (hr : w.observe ids stack sourceRef fence o = some r) (h : Steady ids (Clears ids) w) :
    Steady ids (Clears ids) r.2 := by
  have hany : ∀ (w : World) a, Harmless a → (fun (_ : World) (_ : Act) => True) w a :=
    fun _ _ _ => trivial
  induction stack generalizing w r with
  | zero => cases hr
  | succ stack ih =>
    rw [observe] at hr
    cases hvalid : o.validateEnd with
    | error e =>
      rw [hvalid] at hr
      cases hr
      exact h
    | ok u =>
      cases hstart : windowStart o with
      | error e =>
        rw [hvalid, hstart] at hr
        cases hr
        exact h
      | ok inferredStart =>
        rw [hvalid, hstart] at hr
        cases hentry : w.ledger.sourceEntry sourceRef with
        | none =>
          rw [hentry] at hr
          cases hr
          exact h
        | some entry =>
          obtain ⟨identity, s⟩ := entry
          obtain ⟨hs, href⟩ := sourceEntry_some hentry
          rw [hentry] at hr
          dsimp only at hr
          split at hr
          · cases hr
            exact h
          split at hr
          · cases hr
            exact h
          split at hr
          · cases hr
            exact h
          rename_i hlater
          rw [not_lt] at hlater
          have hentry' := sourceEntry_noteWindow (o := o) hentry
          have hs' := (sourceEntry_some hentry').1
          have hnoted : Steady ids (Clears ids) (w.noteWindow identity s o) :=
            steady_of_trace (noteWindow_trace hany hs hvalid hmax) h
              fun hsound _ hclear => hclear.noteWindow hsound hs hlater
          cases hcycle : s.cycle with
          | none =>
            rw [hcycle] at hr hs'
            cases inferredStart with
            | none =>
              cases hr
              exact hnoted
            | some start =>
              cases hr
              have hfits := windowStart_some hstart
              refine steady_of_trace (.single trivial (openCycle_observed_move hs' rfl hvalid hstart hmax)) hnoted
                fun hsound _ hclear => ?_
              refine hclear.openCycle hsound hs' rfl rfl hfits.2.1 (fun stop hstop => ?_)
                (.inl (not_reserved_initial _))
              cases hstop
              exact hfits.2.2
          | some c =>
            rw [hcycle] at hr hs' hentry'
            dsimp only at hr
            split at hr
            · cases hr
              exact hnoted
            rename_i hnewer
            rw [not_lt] at hnewer
            cases hreset : pendingReset c o with
            | none =>
              rw [hreset] at hr
              cases hr
              have hends := (validateEnd_ok hvalid).2
              exact steady_of_trace (corroborate_trace hany hs' rfl hnewer hends) hnoted
                fun hsound _ hclear =>
                  hclear.corroborate hsound hs' rfl hnewer (le_refl _) hends
            | some reset =>
              rw [hreset] at hr
              dsimp only at hr
              have hmoved : Steady ids (Clears ids) ((w.noteWindow identity s o).applyReset ids sourceRef
                  fence reset.1 reset.2.1 o.observedAtMs reset.2.2).2 := by
                refine steady_applyReset hnoted fun hsound {i t} ht htref => ?_
                rw [sourceEntry_unique hsound hentry' ht htref]
                exact admits_pendingReset rfl hnewer hreset
              cases happly : (w.noteWindow identity s o).applyReset ids sourceRef fence reset.1 reset.2.1
                o.observedAtMs reset.2.2 with
              | mk res w' =>
                rw [happly] at hr hmoved
                cases res with
                | error e =>
                  cases hr
                  exact hmoved
                | ok b =>
                  obtain ⟨r', hr', rfl⟩ := map_eq_some_iff.mp hr
                  have hrest := ih hr' hmoved
                  exact hrest

theorem steady_advanceEach {nowMs : ℤ} {changed : Bool} {due : List (String × QuotaSourceFence × ℤ)}
    (hnodup : (due.map Prod.fst).Nodup) (hdue : ∀ d ∈ due, DueAt w nowMs d) (h : Steady ids (Clears ids) w) :
    Steady ids (Clears ids) (advanceEach ids nowMs w changed due).2 := by
  induction due generalizing w changed with
  | nil => exact h
  | cons d due ih =>
    rw [map_cons, nodup_cons] at hnodup
    have hd := hdue d mem_cons_self
    have hmoved : Steady ids (Clears ids) (w.applyReset ids d.1 d.2.1 (naturalEventId d.2.2) d.2.2
        nowMs .knownNaturalBoundary).2 := by
      refine steady_applyReset h fun hsound {i t} ht htref => ?_
      obtain ⟨identity, s, c, hs, href, hc, hends, -, -⟩ := hd
      have hsame := hsound.loadable.source_inj ht hs (htref.trans href.symm)
      subst hsame
      rw [ht] at hs
      cases hs
      exact .inr ⟨c, hc, .inr hends, .inl rfl⟩
    have hrest : ∀ d' ∈ due, DueAt (w.applyReset ids d.1 d.2.1 (naturalEventId d.2.2) d.2.2
        nowMs .knownNaturalBoundary).2 nowMs d' := by
      intro d' hd'
      obtain ⟨-, -, -, -, -, -, -, hcolon, -⟩ := hd
      refine (hdue d' (mem_cons_of_mem _ hd')).applyReset hcolon fun heq => ?_
      exact hnodup.1 (heq ▸ mem_map_of_mem hd')
    rw [advanceEach]
    cases happly : w.applyReset ids d.1 d.2.1 (naturalEventId d.2.2) d.2.2 nowMs
        .knownNaturalBoundary with
    | mk res w' =>
      rw [happly] at hmoved hrest
      cases res with
      | error e => exact hmoved
      | ok advanced => exact ih hnodup.2 hrest hmoved

theorem steady_advanceDue (nowMs : ℤ) (hsound : Sound ids w) (hclear : Clears ids w) :
    Steady ids (Clears ids) (w.advanceDue ids nowMs).2 := by
  refine steady_advanceEach (dueSources_refs_nodup hsound.loadable nowMs) (fun d hd => ?_) fun _ => ⟨hsound, hclear⟩
  obtain ⟨s, hs, hdue⟩ := mem_filterMap.mp (show d ∈ filterMap (dueOf nowMs) _ from hd)
  obtain ⟨i, hi⟩ := mem_values_iff.mp hs
  obtain ⟨href, -, c, hc, hends⟩ := dueOf_some hdue
  refine ⟨i, s, c, hi, href.symm, hc, hends, href ▸ hsound.kept.noColon hi, fun _ e he _ => ?_⟩
  rw [href] at he
  exact hclear.recorded_time hi hc he (.inl rfl)

theorem Clears.clearBoundary (h : Clears ids w) (hsound : Sound ids w) (sourceRef : String) :
    Clears ids (w.clearBoundary sourceRef) := by
  unfold World.clearBoundary
  cases hentry : w.ledger.sourceEntry sourceRef with
  | none => exact h
  | some entry =>
    exact h.revise hsound (sourceEntry_some hentry).1 rfl rfl (le_refl _) rfl rfl (le_refl _)

theorem steady_advanceSourceDue {nowMs : ℤ} (h : Steady ids (Clears ids) w)
    (hclock : ∀ i s c, w.ledger.sources.get? i = some s → s.sourceRef = sourceRef →
      s.cycle = some c → c.observedAtMs ≤ nowMs) :
    Steady ids (Clears ids) (w.advanceSourceDue ids sourceRef nowMs).2 := by
  unfold advanceSourceDue
  cases hentry : w.ledger.sourceEntry sourceRef with
  | none => exact h
  | some entry =>
    obtain ⟨identity, s⟩ := entry
    obtain ⟨hs, href⟩ := sourceEntry_some hentry
    dsimp only
    cases hdue : dueBoundary s nowMs with
    | none => exact h
    | some boundary =>
      cases hc : s.cycle with
      | none =>
        unfold dueBoundary at hdue
        rw [hc, bind_none, none_or, filter_eq_some_iff] at hdue
        have hle : boundary ≤ nowMs := by simpa using hdue.2
        dsimp only
        rw [← hc]
        refine steady_of_trace (.single trivial (.openAtBoundary hs hc hdue.1 hle)) h fun hsound _ hclear => ?_
        refine hclear.openCycle hsound hs hc ?_ hle ?_ (.inr rfl)
        · rfl
        · intro stop hstop
          cases hstop
      | some c =>
        have hmoved : Steady ids (Clears ids) (w.applyReset ids sourceRef s.fence
            (naturalEventId boundary) boundary nowMs .knownNaturalBoundary).2 := by
          refine steady_applyReset h fun hsound {i t} ht htref => ?_
          have hsame := sourceEntry_unique hsound hentry ht htref
          subst hsame
          exact .inr ⟨c, hc, .inl (hclock i t c ht htref hc), .inl rfl⟩
        dsimp only
        cases happly : w.applyReset ids sourceRef s.fence (naturalEventId boundary) boundary nowMs
            .knownNaturalBoundary with
        | mk res w' =>
          rw [happly] at hmoved
          cases res with
          | error e => exact hmoved
          | ok changed =>
            cases changed with
            | false => exact hmoved
            | true =>
              exact steady_of_trace (clearBoundary_trace (fun _ _ _ => trivial) w' sourceRef) hmoved
                fun hsound _ hclear => hclear.clearBoundary hsound sourceRef

theorem Clears.setFence (h : Clears ids w) (hsound : Sound ids w) (fence : QuotaSourceFence)
    (hs : w.ledger.sources.get? identity = some s) :
    Clears ids (w.setFence identity s fence).2 := by
  unfold World.setFence
  dsimp only
  split
  · exact h.revise hsound hs rfl rfl (le_refl _) rfl rfl (le_refl _)
  · exact h.revise hsound hs rfl rfl (le_refl _) rfl rfl (le_refl _)

theorem steady_setFence (h : Steady ids (Clears ids) w) (fence : QuotaSourceFence)
    (hs : w.ledger.sources.get? identity = some s) :
    Steady ids (Clears ids) (w.setFence identity s fence).2 :=
  steady_of_trace (setFence_trace (fun _ _ _ => trivial) fence hs) h
    fun hsound _ hclear => hclear.setFence hsound fence hs

theorem steady_registerSource {providerType bucketId : String} (hprovider : providerType ≠ "")
    (h : Steady ids (Clears ids) w) :
    Steady ids (Clears ids) (w.registerSource ids identity providerType bucketId fence).2 := by
  unfold registerSource
  split
  · exact h
  split
  · exact h
  rename_i hargs
  push Not at hargs
  cases hs : w.ledger.sources.get? identity with
  | some s =>
    simp only [sourceOrInsert, hs]
    split
    · exact h
    split
    · exact steady_setFence h fence hs
    · exact h
  | none =>
    have hregistered : Steady ids (Clears ids) (w.sourceOrInsert ids identity providerType bucketId fence).2 := by
      simp only [sourceOrInsert, hs]
      refine steady_of_trace (.single trivial (.register hs ?_ rfl rfl ?_)) h fun _ _ hclear => hclear.register rfl
      · refine ⟨hargs.1, ids.nonempty _, hprovider, hargs.2, Nat.one_ne_zero, le_refl 0, ?_⟩
        intro t ht
        cases ht
      · refine ⟨le_refl 0, ?_⟩
        intro t ht
        cases ht
    simp only [sourceOrInsert, hs] at hregistered ⊢
    split
    · exact hregistered
    split
    · exact steady_setFence hregistered fence (get?_insert_self _ _ _)
    · exact hregistered

theorem clears_of_calls (hrun : Trace (Call ids) (fun w op => op.Typed ∧ op.Behaved w) (default ids) w) :
    Steady ids (Clears ids) w := by
  have hcall : ∀ w op w', Steady ids (Clears ids) w → op.Typed ∧ op.Behaved w → Call ids op w w' →
      Steady ids (Clears ids) w' := by
    rintro w op w' h ⟨htyped, hbehaved⟩ ⟨stack, hstep⟩
    cases op with
    | registerSource identity providerType bucketId fence =>
      cases hstep
      exact steady_registerSource htyped h
    | observe sourceRef fence o =>
      obtain ⟨r, hr, rfl⟩ := map_eq_some_iff.mp hstep
      exact steady_observe htyped.2.1.2 hr h
    | applyReset sourceRef fence eventId effectiveAtMs discoveredAtMs basis =>
      cases hstep
      exact steady_applyReset h fun _ {i s} hs href =>
        .inl ⟨hbehaved.1, fun c hc => hbehaved.2 i s c hs href hc⟩
    | advanceDue nowMs =>
      intro hfits'
      have hfits := fits_of_moves (step_trace htyped hstep) hfits'
      obtain ⟨hsound, hclear⟩ := h hfits
      cases hstep
      exact steady_advanceDue nowMs hsound hclear hfits'
    | advanceSourceDue sourceRef nowMs =>
      cases hstep
      exact steady_advanceSourceDue h hbehaved
  exact hrun.invariant hcall fun _ => ⟨Sound.default ids, Clears.default ids⟩

end

/-! ## The recursion -/

def AccountQuotaCycle.contains (c : AccountQuotaCycle) (startedAtMs : ℤ) : Bool :=
  decide (c.startsAtMs ≤ startedAtMs) && c.endsAtMs.all fun stop => startedAtMs < stop

def QuotaCycleSource.noted (s : QuotaCycleSource) (o : QuotaWindowObservation) : QuotaCycleSource :=
  { s with nextBoundaryMs := some o.endsAtMs, lastObservedAtMs := o.observedAtMs }

/-- The observation passes the checks that come before the window is written. -/
structure Passes (w : World) (sourceRef : String) (fence : QuotaSourceFence)
    (o : QuotaWindowObservation) (identity : String) (s : QuotaCycleSource) (c : AccountQuotaCycle) :
    Prop where
  valid : o.validateEnd = .ok ()
  start : ∃ inferredStart, windowStart o = .ok inferredStart
  entry : w.ledger.sourceEntry sourceRef = some (identity, s)
  fence_eq : s.fence = fence
  bucket : s.bucketId = o.bucketId
  recent : s.lastObservedAtMs ≤ o.observedAtMs
  cycle : s.cycle = some c

/-- It passes every check that comes before the cycle is changed. -/
structure Reads (w : World) (sourceRef : String) (fence : QuotaSourceFence) (o : QuotaWindowObservation)
    (identity : String) (s : QuotaCycleSource) (c : AccountQuotaCycle) : Prop
    extends Passes w sourceRef fence o identity s c where
  newer : c.observedAtMs ≤ o.observedAtMs

/-- A call of `observe` in the first world makes a reset and calls itself in the second. -/
def Reenters (ids : OpaqueIds) (sourceRef : String) (fence : QuotaSourceFence)
    (o : QuotaWindowObservation) (w w' : World) : Prop :=
  ∃ identity s c reset b, Reads w sourceRef fence o identity s c ∧
    pendingReset c o = some reset ∧
    (w.noteWindow identity s o).applyReset ids sourceRef fence reset.1 reset.2.1 o.observedAtMs reset.2.2 = (.ok b, w')

/-- No reset of the ledger's own that may come due is recorded. -/
structure Spare (events : OrderedMap String QuotaResetEvent) (s : QuotaCycleSource)
    (c : AccountQuotaCycle) : Prop where
  order : ∀ stop ∈ c.endsAtMs, c.startsAtMs < stop
  natural : ∀ stop ∈ c.endsAtMs, events.get? (eventKey s.sourceRef (naturalEventId stop)) = none
  upstream : ∀ start, c.startsAtMs < start → events.get? (eventKey s.sourceRef (upstreamEventId start)) = none

/-- The resets that an observation may still make. -/
def remaining (c : AccountQuotaCycle) (o : QuotaWindowObservation) : ℕ :=
  (if ∃ stop ∈ c.endsAtMs, stop ≤ o.observedAtMs then 1 else 0) +
    if ∃ start ∈ o.startsAtMs, c.startsAtMs < start then 1 else 0

section
variable {ids : OpaqueIds} {w w' : World} {sourceRef identity : String} {s : QuotaCycleSource}
  {c : AccountQuotaCycle} {fence : QuotaSourceFence} {o : QuotaWindowObservation} {reset : String × ℤ × QuotaTimeBasis}

theorem Clears.spare (h : Clears ids w) (hsound : Sound ids w)
    (hs : w.ledger.sources.get? identity = some s) (hc : s.cycle = some c) :
    Spare w.ledger.events s c := by
  have hold := h.clear hs hc
  have hfits := hsound.loadable.cycle_fits hs hc
  refine ⟨hfits.2.2.2.2.2.2.2.2.2, fun stop hstop => ?_, fun start hstart => ?_⟩
  · cases he : w.ledger.events.get? (eventKey s.sourceRef (naturalEventId stop)) with
    | none => rfl
    | some e =>
      obtain ⟨-, -, hends⟩ := hold.natural he
      exact absurd (hends stop hstop) (lt_irrefl stop)
  · cases he : w.ledger.events.get? (eventKey s.sourceRef (upstreamEventId start)) with
    | none => rfl
    | some e =>
      obtain ⟨-, -, ⟨hlt, -⟩ | ⟨heq, -⟩⟩ := hold.upstream he
      · omega
      · omega

theorem pendingReset_cases (h : pendingReset c o = some reset) :
    (c.endsAtMs = some reset.2.1 ∧ reset.2.1 ≤ o.observedAtMs ∧ reset.1 = naturalEventId reset.2.1) ∨
    ((∀ stop ∈ c.endsAtMs, o.observedAtMs < stop) ∧ o.startsAtMs = some reset.2.1 ∧
      c.startsAtMs < reset.2.1 ∧ reset.1 = upstreamEventId reset.2.1) := by
  unfold pendingReset at h
  split at h
  · rename_i boundary hboundary
    cases h
    obtain ⟨hends, hdue⟩ := filter_eq_some_iff.mp hboundary
    exact .inl ⟨hends, by simpa using hdue, rfl⟩
  · rename_i hnone
    obtain ⟨start, hstart, rfl⟩ := map_eq_some_iff.mp h
    obtain ⟨hstated, hlater⟩ := filter_eq_some_iff.mp hstart
    refine .inr ⟨fun stop hstop => ?_, hstated, by simpa using hlater, rfl⟩
    rw [filter_eq_none_iff] at hnone
    simpa using hnone stop hstop

theorem Spare.pending (h : Spare w.ledger.events s c) (hreset : pendingReset c o = some reset) :
    w.ledger.events.get? (eventKey s.sourceRef reset.1) = none ∧ c.startsAtMs < reset.2.1 := by
  obtain ⟨hends, -, hid⟩ | ⟨-, -, hlater, hid⟩ := pendingReset_cases hreset
  · rw [hid]
    exact ⟨h.natural _ hends, h.order _ hends⟩
  · rw [hid]
    exact ⟨h.upstream _ hlater, hlater⟩

theorem noteWindow_events (w : World) (identity : String) (s : QuotaCycleSource)
    (o : QuotaWindowObservation) : (w.noteWindow identity s o).ledger.events = w.ledger.events := by
  unfold noteWindow
  split
  · rfl
  · rfl

theorem observe_reads (h : Reads w sourceRef fence o identity s c) (stack : ℕ) :
    w.observe ids (stack + 1) sourceRef fence o =
      match pendingReset c o with
      | some reset =>
        match (w.noteWindow identity s o).applyReset ids sourceRef fence reset.1 reset.2.1
          o.observedAtMs reset.2.2 with
        | (.error e, w') => some (.error e, w')
        | (.ok _, w') => (w'.observe ids stack sourceRef fence o).map fun r => (r.1.map fun _ => true, r.2)
      | none =>
        some (.ok (decide (c.endsAtMs ≠ some o.endsAtMs) ||
          decide (s.lastObservedAtMs ≠ o.observedAtMs)),
          (w.noteWindow identity s o).corroborate identity (s.noted o) c o) := by
  obtain ⟨inferredStart, hstart⟩ := h.start
  rw [observe]
  simp only [h.valid, hstart, h.entry, h.fence_eq, h.bucket, h.cycle, ne_eq, not_true_eq_false,
    if_false, not_lt.mpr h.recent, not_lt.mpr h.newer]
  cases pendingReset c o with
  | none =>
    simp only [QuotaCycleSource.noted, h.cycle, h.bucket, h.fence_eq]
  | some reset => rfl

variable {b : Bool} {c' : AccountQuotaCycle} {stack : ℕ}

/-- The recursive call is made after the reset has opened a later cycle, and nothing that it may need
is recorded there either. -/
theorem Reads.reenters (h : Reads w sourceRef fence o identity s c) (hspare : Spare w.ledger.events s c)
    (hreset : pendingReset c o = some reset)
    (happly : (w.noteWindow identity s o).applyReset ids sourceRef fence reset.1 reset.2.1
      o.observedAtMs reset.2.2 = (.ok b, w')) :
    ∃ s' c', Reads w' sourceRef fence o identity s' c' ∧ Spare w'.ledger.events s' c' ∧
      c.startsAtMs < c'.startsAtMs ∧ c'.startsAtMs = reset.2.1 ∧ reset.2.1 ≤ o.observedAtMs ∧
      c'.endsAtMs = c.endsAtMs.filter fun stop => reset.2.1 < stop := by
  obtain ⟨hfresh, hlater⟩ := hspare.pending hreset
  have hentry : (w.noteWindow identity s o).ledger.sourceEntry sourceRef =
      some (identity, s.noted o) := sourceEntry_noteWindow h.entry
  have hcycle : (s.noted o).cycle = some c := h.cycle
  have href := (sourceEntry_some h.entry).2
  have hfence : (s.noted o).fence = fence := h.fence_eq
  have hargs : EventArgs reset.1 reset.2.1 o.observedAtMs := by
    unfold applyReset at happly
    split at happly
    · cases happly
    · rename_i hbad
      push Not at hbad
      exact ⟨hbad.1, hbad.2.1, hbad.2.2.1, hbad.2.2.2⟩
  rw [applyReset_accepted hentry hcycle reset.2.2 hargs hfence, noteWindow_events, ← href, hfresh] at happly
  unfold recordEvent at happly
  rw [if_pos hlater] at happly
  cases hsequence : checkedAddU64 c.cycleSequence 1 with
  | none =>
    rw [hsequence] at happly
    cases happly
  | some sequence =>
    rw [hsequence] at happly
    obtain ⟨-, rfl⟩ := Prod.mk.inj happly
    refine ⟨_, _, ⟨⟨h.valid, h.start, sourceEntry_putSource hentry rfl, hfence, h.bucket, le_refl _, rfl⟩,
      le_refl _⟩, ?_, hlater, rfl, hargs.discovered, rfl⟩
    have hevents : ∀ id, id ≠ reset.1 → w.ledger.events.get? (eventKey s.sourceRef id) = none →
        ((w.noteWindow identity s o).ledger.events.insert (eventKey s.sourceRef reset.1)
          ⟨reset.1, s.sourceRef, s.bucketId, reset.2.1, o.observedAtMs, reset.2.2, .committed,
            ids.id (w.noteWindow identity s o).drawn⟩).get? (eventKey s.sourceRef id) = none := by
      intro id hid hnone
      rw [Clears.putEvent_other hid.symm, noteWindow_events, hnone]
    refine ⟨fun stop hstop => ?_, fun stop hstop => ?_, fun start hstart => ?_⟩
    · simpa using (mem_filter_iff.mp hstop).2
    · obtain ⟨hold, hafter⟩ := mem_filter_iff.mp hstop
      refine hevents _ (fun hid => ?_) (hspare.natural stop hold)
      obtain ⟨-, -, hown⟩ | ⟨-, -, -, hown⟩ := pendingReset_cases hreset
      · have hsame := naturalEventId_inj (hid.trans hown)
        simp [hsame] at hafter
      · exact naturalEventId_ne_upstream _ _ (hid.trans hown)
    · have hstart' : reset.2.1 < start := hstart
      refine hevents _ (fun hid => ?_) (hspare.upstream start (hlater.trans hstart'))
      obtain ⟨-, -, hown⟩ | ⟨-, -, -, hown⟩ := pendingReset_cases hreset
      · exact naturalEventId_ne_upstream _ _ (hown.symm.trans hid.symm)
      · have hsame := upstreamEventId_inj (hid.trans hown)
        omega

/-- A reset moves the cycle, so fewer remain. -/
theorem remaining_lt (hreset : pendingReset c o = some reset) (hlater : c.startsAtMs < c'.startsAtMs)
    (hstart : c'.startsAtMs = reset.2.1) (hends : c'.endsAtMs = c.endsAtMs.filter fun stop => reset.2.1 < stop) :
    remaining c' o < remaining c o := by
  have hdue : (∃ stop ∈ c'.endsAtMs, stop ≤ o.observedAtMs) → ∃ stop ∈ c.endsAtMs, stop ≤ o.observedAtMs := by
    rintro ⟨stop, hstop, hle⟩
    rw [hends] at hstop
    exact ⟨stop, (mem_filter_iff.mp hstop).1, hle⟩
  have hstated : (∃ start ∈ o.startsAtMs, c'.startsAtMs < start) → ∃ start ∈ o.startsAtMs, c.startsAtMs < start := by
    rintro ⟨start, hmem, hlt⟩
    exact ⟨start, hmem, hlater.trans hlt⟩
  unfold remaining
  obtain ⟨hold, hle, -⟩ | ⟨hnone, hmem, hlt, -⟩ := pendingReset_cases hreset
  · have hover : ¬∃ stop ∈ c'.endsAtMs, stop ≤ o.observedAtMs := by
      rintro ⟨stop, hstop, -⟩
      rw [hends, hold] at hstop
      simp at hstop
      omega
    have hnow : ∃ stop ∈ c.endsAtMs, stop ≤ o.observedAtMs := ⟨_, hold, hle⟩
    rw [if_neg hover, if_pos hnow]
    split
    · rename_i hmore
      rw [if_pos (hstated hmore)]
      omega
    · omega
  · have hover : ¬∃ start ∈ o.startsAtMs, c'.startsAtMs < start := by
      rintro ⟨start, hmem', hlt'⟩
      rw [hmem] at hmem'
      cases hmem'
      omega
    have hnow : ∃ start ∈ o.startsAtMs, c.startsAtMs < start := ⟨_, hmem, hlt⟩
    rw [if_neg hover, if_pos hnow]
    split
    · rename_i hmore
      rw [if_pos (hdue hmore)]
      omega
    · omega

/-- A call whose resets are unrecorded returns if it has a frame for each of them. -/
theorem observe_returns (h : Reads w sourceRef fence o identity s c) (hspare : Spare w.ledger.events s c)
    (hstack : remaining c o < stack) : ∃ r, w.observe ids stack sourceRef fence o = some r := by
  induction stack generalizing w s c with
  | zero => exact absurd hstack (Nat.not_lt_zero _)
  | succ stack ih =>
    rw [observe_reads h stack]
    cases hreset : pendingReset c o with
    | none => exact ⟨_, rfl⟩
    | some reset =>
      dsimp only
      cases happly : (w.noteWindow identity s o).applyReset ids sourceRef fence reset.1 reset.2.1
        o.observedAtMs reset.2.2 with
      | mk res w' =>
        cases res with
        | error e => exact ⟨_, rfl⟩
        | ok b =>
          obtain ⟨s', c', h', hspare', hlater, hstart, -, hends⟩ := h.reenters hspare hreset happly
          have hless := remaining_lt hreset hlater hstart hends
          obtain ⟨r, hr⟩ := ih h' hspare' (by omega)
          dsimp only
          rw [hr]
          exact ⟨_, rfl⟩

theorem remaining_le (c : AccountQuotaCycle) (o : QuotaWindowObservation) : remaining c o ≤ 2 := by
  unfold remaining
  split <;> split <;> omega

theorem reads_or_returns (ids : OpaqueIds) (w : World) (sourceRef : String) (fence : QuotaSourceFence)
    (o : QuotaWindowObservation) :
    (∃ identity s c, Reads w sourceRef fence o identity s c) ∨
      ∀ stack, ∃ r, w.observe ids (stack + 1) sourceRef fence o = some r := by
  cases hvalid : o.validateEnd with
  | error e => exact .inr fun stack => ⟨_, by rw [observe, hvalid]⟩
  | ok u =>
    cases hstart : windowStart o with
    | error e => exact .inr fun stack => ⟨_, by rw [observe, hvalid, hstart]⟩
    | ok inferredStart =>
      cases hentry : w.ledger.sourceEntry sourceRef with
      | none => exact .inr fun stack => ⟨_, by rw [observe, hvalid, hstart, hentry]⟩
      | some entry =>
        obtain ⟨identity, s⟩ := entry
        by_cases hreads : ∃ c, Reads w sourceRef fence o identity s c
        · exact .inl ⟨identity, s, hreads⟩
        refine .inr fun stack => ?_
        rw [observe, hvalid, hstart, hentry]
        dsimp only
        split
        · exact ⟨_, rfl⟩
        rename_i hfence
        split
        · exact ⟨_, rfl⟩
        rename_i hbucket
        split
        · exact ⟨_, rfl⟩
        rename_i hrecent
        cases hcycle : s.cycle with
        | none =>
          cases inferredStart with
          | none => exact ⟨_, rfl⟩
          | some start => exact ⟨_, rfl⟩
        | some c =>
          dsimp only
          split
          · exact ⟨_, rfl⟩
          rename_i hnewer
          exact absurd ⟨c, ⟨hvalid, ⟨_, hstart⟩, hentry, not_not.mp hfence, not_not.mp hbucket,
            not_lt.mp hrecent, hcycle⟩, not_lt.mp hnewer⟩ hreads

/-- The cycle of the source reaches from before the observation to the end observed. -/
def Covers (w : World) (sourceRef : String) (o : QuotaWindowObservation) : Prop :=
  ∃ s c, w.ledger.source sourceRef = some s ∧ s.cycle = some c ∧
    c.contains o.observedAtMs = true ∧ c.endsAtMs = some o.endsAtMs

theorem contains_of_ends (hstart : c'.startsAtMs ≤ o.observedAtMs) (hends : c'.endsAtMs = some o.endsAtMs)
    (hlt : o.observedAtMs < o.endsAtMs) : c'.contains o.observedAtMs = true := by
  unfold AccountQuotaCycle.contains
  rw [hends]
  simp [hstart, hlt]

theorem covers_corroborate (h : w.ledger.sourceEntry sourceRef = some (identity, s))
    (hstart : c.startsAtMs ≤ o.observedAtMs) (hlt : o.observedAtMs < o.endsAtMs) :
    Covers (w.corroborate identity s c o) sourceRef o := by
  unfold corroborate
  split
  · refine ⟨_, _, source_of_sourceEntry (sourceEntry_putSource h rfl), rfl, ?_, rfl⟩
    exact contains_of_ends hstart rfl hlt
  · rename_i hsame
    rw [ne_eq, not_not] at hsame
    refine ⟨_, _, source_of_sourceEntry (sourceEntry_putSource h rfl), rfl, ?_, hsame⟩
    exact contains_of_ends hstart hsame hlt

theorem covers_of_reads (h : Reads w sourceRef fence o identity s c) (hspare : Spare w.ledger.events s c)
    (hstart : c.startsAtMs ≤ o.observedAtMs) (hr : w.observe ids stack sourceRef fence o = some (.ok b, w')) :
    Covers w' sourceRef o := by
  induction stack generalizing w s c b with
  | zero => cases hr
  | succ stack ih =>
    rw [observe_reads h stack] at hr
    cases hreset : pendingReset c o with
    | none =>
      rw [hreset] at hr
      cases hr
      have hentry : (w.noteWindow identity s o).ledger.sourceEntry sourceRef =
          some (identity, s.noted o) := sourceEntry_noteWindow h.entry
      exact covers_corroborate hentry hstart (validateEnd_ok h.valid).2
    | some reset =>
      rw [hreset] at hr
      dsimp only at hr
      cases happly : (w.noteWindow identity s o).applyReset ids sourceRef fence reset.1 reset.2.1
        o.observedAtMs reset.2.2 with
      | mk res w₁ =>
        rw [happly] at hr
        cases res with
        | error e => cases hr
        | ok b₁ =>
          obtain ⟨s', c', h', hspare', -, hstart', hle, -⟩ := h.reenters hspare hreset happly
          obtain ⟨⟨res, w₂⟩, hr', hmap⟩ := map_eq_some_iff.mp hr
          obtain ⟨hres, rfl⟩ := Prod.mk.inj hmap
          cases res with
          | error e => cases hres
          | ok b₂ => exact ih h' hspare' (by omega) hr'

/-- Behind a call that succeeds the cycle covers the time of the observation. -/
theorem covers_of_ok (hclear : ∀ {s c}, w.ledger.sourceEntry sourceRef = some (identity, s) →
      s.cycle = some c → Spare w.ledger.events s c ∧ c.startsAtMs ≤ c.observedAtMs)
    (hentry : w.ledger.sourceEntry sourceRef = some (identity, s)) (hrecent : s.lastObservedAtMs ≤ o.observedAtMs)
    (hnewer : ∀ c ∈ s.cycle, c.observedAtMs ≤ o.observedAtMs)
    (hopens : s.cycle = none → ∃ start, windowStart o = .ok (some start))
    (hr : w.observe ids stack sourceRef fence o = some (.ok b, w')) : Covers w' sourceRef o := by
  cases stack with
  | zero => cases hr
  | succ stack =>
    have hcall := hr
    rw [observe] at hr
    cases hvalid : o.validateEnd with
    | error e =>
      rw [hvalid] at hr
      cases hr
    | ok u =>
      cases hstart : windowStart o with
      | error e =>
        rw [hvalid, hstart] at hr
        cases hr
      | ok inferredStart =>
        rw [hvalid, hstart, hentry] at hr
        dsimp only at hr
        split at hr
        · cases hr
        rename_i hfence
        split at hr
        · cases hr
        rename_i hbucket
        rw [if_neg (not_lt.mpr hrecent)] at hr
        cases hcycle : s.cycle with
        | none =>
          obtain ⟨start, hopen⟩ := hopens hcycle
          rw [hstart] at hopen
          cases hopen
          rw [hcycle] at hr
          cases hr
          have hnoted := sourceEntry_noteWindow (o := o) hentry
          obtain ⟨-, hle, -⟩ := windowStart_some hstart
          refine ⟨_, _, source_of_sourceEntry (sourceEntry_putSource hnoted rfl), rfl, ?_, rfl⟩
          exact contains_of_ends hle rfl (validateEnd_ok hvalid).2
        | some c =>
          obtain ⟨hspare, hobserved⟩ := hclear hentry hcycle
          have hle := hnewer c hcycle
          have hreads : Reads w sourceRef fence o identity s c :=
            ⟨⟨hvalid, ⟨_, hstart⟩, hentry, not_not.mp hfence, not_not.mp hbucket, hrecent, hcycle⟩, hle⟩
          exact covers_of_reads hreads hspare (by omega) hcall

theorem currentStart_of_entry (hentry : w.ledger.sourceEntry sourceRef = some (identity, s))
    (hcycle : s.cycle = some c) : w.currentStart sourceRef = some c.startsAtMs := by
  unfold currentStart
  rw [source_of_sourceEntry hentry, bind_some, hcycle, map_some]

theorem Passes.unique {identity' : String} {s' : QuotaCycleSource} (h : Passes w sourceRef fence o identity s c)
    (h' : Passes w sourceRef fence o identity' s' c') : s = s' ∧ c = c' := by
  obtain ⟨-, rfl⟩ := Prod.mk.inj (some.inj (h.entry.symm.trans h'.entry))
  exact ⟨rfl, some.inj (h.cycle.symm.trans h'.cycle)⟩

end

/-! ## The result -/

/-- In every run whose callers behave, any observation of any source comes to an end after at most two
resets, each of which has moved the start of the cycle before the call starts again. Where the
observation is not older than what is known of the source, a successful call leaves a cycle that
contains it and ends where it says. -/
theorem observe_comes_to_an_end (ids : OpaqueIds) (w : World)
    (hrun : Trace (Call ids) (fun w op => op.Typed ∧ op.Behaved w) (default ids) w)
    (hfits : w.ledger.FitsMemory) (sourceRef : String) (fence : QuotaSourceFence) (o : QuotaWindowObservation) :
    (∃ r, w.observe ids 3 sourceRef fence o = some r) ∧
    (∀ w₁ w₂, Relation.ReflTransGen (Reenters ids sourceRef fence o) w w₁ → Reenters ids sourceRef fence o w₁ w₂ →
      ∃ start₁ start₂, w₁.currentStart sourceRef = some start₁ ∧
        w₂.currentStart sourceRef = some start₂ ∧ start₁ < start₂) ∧
    ∀ s, w.ledger.source sourceRef = some s → s.lastObservedAtMs ≤ o.observedAtMs →
      (∀ c ∈ s.cycle, c.observedAtMs ≤ o.observedAtMs) →
      (s.cycle = none → ∃ start, windowStart o = .ok (some start)) →
      ∀ stack b w', w.observe ids stack sourceRef fence o = some (.ok b, w') → Covers w' sourceRef o := by
  obtain ⟨hsound, hclear⟩ := clears_of_calls hrun hfits
  have hspare : ∀ {identity s c}, w.ledger.sourceEntry sourceRef = some (identity, s) →
      s.cycle = some c → Spare w.ledger.events s c ∧ c.startsAtMs ≤ c.observedAtMs := by
    intro identity s c hentry hc
    have hs := (sourceEntry_some hentry).1
    exact ⟨hclear.spare hsound hs hc, (hsound.loadable.cycle_fits hs hc).2.2.2.2.2.2.2.2.1⟩
  refine ⟨?_, fun w₁ w₂ hreached hreenters => ?_, fun s hs hrecent hnewer hopens stack b w' hr => ?_⟩
  · obtain ⟨identity, s, c, hreads⟩ | hreturns := reads_or_returns ids w sourceRef fence o
    · have hbound := remaining_le c o
      exact observe_returns hreads (hspare hreads.entry hreads.cycle).1 (by omega)
    · exact hreturns 2
  · have hkept : ∀ {identity s c}, Reads w₁ sourceRef fence o identity s c → Spare w₁.ledger.events s c := by
      clear hreenters
      induction hreached with
      | refl => exact fun hreads => (hspare hreads.entry hreads.cycle).1
      | tail _ hstep ih =>
        obtain ⟨identity, s, c, reset, b, hreads, hreset, happly⟩ := hstep
        obtain ⟨s', c', hreads', hspare', -⟩ := hreads.reenters (ih hreads) hreset happly
        intro identity' s'' c'' hreads''
        obtain ⟨rfl, rfl⟩ := hreads''.unique hreads'.toPasses
        exact hspare'
    obtain ⟨identity, s, c, reset, b, hreads, hreset, happly⟩ := hreenters
    obtain ⟨s', c', hreads', -, hlater, -⟩ := hreads.reenters (hkept hreads) hreset happly
    exact ⟨_, _, currentStart_of_entry hreads.entry hreads.cycle,
      currentStart_of_entry hreads'.entry hreads'.cycle, hlater⟩
  · obtain ⟨identity, hentry⟩ := sourceEntry_of_source hs
    exact covers_of_ok hspare hentry hrecent hnewer hopens hr

/-! ### Calls under the server's identifiers -/

/-- The reset has an identifier of the server's form, and the clock is not behind the cycle. That is not so of
every call: `collect_public_quota_resets` reads the clock before it waits for the network, and the cycle may be
observed in between. -/
def Op.Issued (w : World) : Op → Prop
  | .registerSource _ _ _ _ => True
  | .observe _ _ _ => True
  | .applyReset sourceRef _ eventId _ discoveredAtMs _ =>
    ("public:".toList <+: eventId.toList ∨ "redeem:".toList <+: eventId.toList) ∧
      ∀ entry ∈ w.ledger.sources.entries, entry.2.sourceRef = sourceRef →
        ∀ c ∈ entry.2.cycle, c.observedAtMs ≤ discoveredAtMs
  | .advanceDue _ => True
  | .advanceSourceDue sourceRef nowMs => ∀ entry ∈ w.ledger.sources.entries,
    entry.2.sourceRef = sourceRef → ∀ c ∈ entry.2.cycle, c.observedAtMs ≤ nowMs

instance (w : World) : DecidablePred (Op.Issued w)
  | .registerSource _ _ _ _ | .observe _ _ _ | .advanceDue _ => isTrue trivial
  | .applyReset _ _ _ _ _ _ | .advanceSourceDue _ _ => by
    dsimp only [Op.Issued]
    infer_instance

theorem not_reserved_of_head {eventId : String} {head : Char} (h : eventId.toList.head? = some head)
    (hn : head ≠ 'n') (hu : head ≠ 'u') : ¬Reserved eventId := by
  rintro ⟨t, rfl | rfl⟩
  · simp [naturalEventId] at h
    exact hn h.symm
  · simp [upstreamEventId] at h
    exact hu h.symm

theorem Op.Issued.behaved {w : World} {op : Op} (h : op.Issued w) : op.Behaved w := by
  cases op with
  | registerSource identity providerType bucketId fence => trivial
  | observe sourceRef fence o => trivial
  | applyReset sourceRef fence eventId effectiveAtMs discoveredAtMs basis =>
    obtain ⟨hid, hclock⟩ := h
    refine ⟨?_, fun i s c hs href hc => hclock (i, s) (mem_entries_iff.mpr hs) href c hc⟩
    rcases hid with ⟨rest, hrest⟩ | ⟨rest, hrest⟩
    · exact not_reserved_of_head (by rw [← hrest]; rfl) (by decide) (by decide)
    · exact not_reserved_of_head (by rw [← hrest]; rfl) (by decide) (by decide)
  | advanceDue nowMs => trivial
  | advanceSourceDue sourceRef nowMs =>
    exact fun i s c hs href hc => h (i, s) (mem_entries_iff.mpr hs) href c hc

def openedRun : List Op :=
  [.registerSource "identity" "codex_oauth" "shared_weekly" {},
    .observe "xx" {} ⟨"shared_weekly", some 1000, 5000, none, 2000, .upstreamWindow⟩,
    .applyReset "xx" {} "public:a" 3000 3500 .publicAnnouncement]

def laterWindow : QuotaWindowObservation := ⟨"shared_weekly", some 5500, 9000, none, 6000, .upstreamWindow⟩

theorem observe_comes_to_an_end_opened :
    ∃ w, guardedRun unaryIds 4 (fun w op => op.Typed ∧ op.Issued w) (default unaryIds) openedRun = some w ∧
      w.currentStart "xx" = some 3000 ∧ ∃ r, w.observe unaryIds 3 "xx" {} laterWindow = some r := by
  have hreturns : (guardedRun unaryIds 4 (fun w op => op.Typed ∧ op.Issued w) (default unaryIds)
      openedRun).any (fun w => decide (w.ledger.FitsMemory ∧ w.currentStart "xx" = some 3000)) =
        true := by decide
  obtain ⟨w, hw, hfacts⟩ := (any_eq_true _ _).mp hreturns
  rw [decide_eq_true_eq] at hfacts
  have hrun : Trace (Call unaryIds) (fun w op => op.Typed ∧ op.Behaved w) (default unaryIds) w :=
    (calls_of_guardedRun hw).mono fun _ _ hQ => ⟨hQ.1, hQ.2.behaved⟩
  exact ⟨w, hw, hfacts.2, (observe_comes_to_an_end unaryIds w hrun hfacts.1 "xx" {} laterWindow).1⟩

theorem observe_blocked {ids : OpaqueIds} {w : World} {sourceRef identity : String}
    {s : QuotaCycleSource} {c : AccountQuotaCycle} {fence : QuotaSourceFence}
    {o : QuotaWindowObservation} {reset : String × ℤ × QuotaTimeBasis} {e : QuotaResetEvent}
    (h : Reads w sourceRef fence o identity s c) (hreset : pendingReset c o = some reset)
    (hargs : EventArgs reset.1 reset.2.1 o.observedAtMs)
    (he : w.ledger.events.get? (eventKey sourceRef reset.1) = some e)
    (heff : e.effectiveAtMs = reset.2.1) (stack : ℕ) :
    w.observe ids stack sourceRef fence o = none := by
  have hentry : (w.noteWindow identity s o).ledger.sourceEntry sourceRef =
      some (identity, s.noted o) := sourceEntry_noteWindow h.entry
  have hsame : (w.noteWindow identity s o).applyReset ids sourceRef fence reset.1 reset.2.1
      o.observedAtMs reset.2.2 = (.ok false, w.noteWindow identity s o) := by
    rw [applyReset_accepted hentry h.cycle reset.2.2 hargs h.fence_eq, noteWindow_events, he]
    exact if_pos heff
  have hpending : Pending (w.noteWindow identity s o) sourceRef fence o identity (s.noted o) c reset :=
    { valid := h.valid, start := h.start, entry := hentry, fence_eq := h.fence_eq, bucket := h.bucket,
      boundary := rfl, observed := rfl, cycle := h.cycle, newer := h.newer, reset_eq := hreset }
  cases stack with
  | zero => rfl
  | succ stack =>
    rw [observe_reads h stack, hreset]
    dsimp only
    rw [hsame]
    dsimp only
    rw [observe_stuck hpending hsame stack, map_none]

/-- A public reset at the end of the window, which is then found to have elapsed; the reset is moved
back, the clock runs back, and another reset and an observation before that end follow. -/
def clockRun : List Op :=
  [.registerSource "identity" "codex_oauth" "shared_weekly" {},
    .observe "xx" {} ⟨"shared_weekly", some 1000, 5000, none, 2000, .upstreamWindow⟩,
    .applyReset "xx" {} "public:a" 5000 6000 .publicAnnouncement, .advanceSourceDue "xx" 6000,
    .applyReset "xx" {} "public:a" 4000 6500 .publicAnnouncement,
    .applyReset "xx" {} "public:b" 4500 4600 .publicAnnouncement,
    .observe "xx" {} ⟨"shared_weekly", none, 5000, none, 4700, .upstreamWindow⟩]

def nextWindow : QuotaWindowObservation := ⟨"shared_weekly", none, 9000, none, 7000, .upstreamWindow⟩

/-- A window without a start, and a redeemed credit before the time of that observation. -/
def staleRun : List Op :=
  [.registerSource "identity" "codex_oauth" "shared_weekly" {},
    .observe "xx" {} ⟨"shared_weekly", none, 5000, none, 1000, .upstreamWindow⟩,
    .applyReset "xx" {} "redeem:r" 500 600 .redeemConfirmation]

def staleWindow : QuotaWindowObservation := ⟨"shared_weekly", none, 3000, none, 800, .upstreamWindow⟩

def World.currentCycle (w : World) (sourceRef : String) : Option AccountQuotaCycle :=
  (w.ledger.source sourceRef).bind QuotaCycleSource.cycle

/-- After the first run the observation never comes to an end. After the second one it is newer than
the cycle and is dropped, and the cycle keeps another end. -/
theorem observe_may_not_end :
    (∃ w, guardedRun unaryIds 4 (fun _ op => op.Typed) (default unaryIds) clockRun = some w ∧
      ∀ stack, w.observe unaryIds stack "xx" {} nextWindow = none) ∧
    ∃ w, guardedRun unaryIds 4 (fun _ op => op.Typed) (default unaryIds) staleRun = some w ∧
      ((w.currentCycle "xx").map observedAtMs).any (· ≤ staleWindow.observedAtMs) = true ∧
      (w.observe unaryIds 1 "xx" {} staleWindow).any (fun r => r.1.toOption = some false ∧
        (r.2.currentCycle "xx").map endsAtMs = some (some 5000)) = true := by
  constructor
  · have hreturns : (guardedRun unaryIds 4 (fun _ op => op.Typed) (default unaryIds)
        clockRun).any (fun w => decide (∃ entry ∈ w.ledger.sourceEntry "xx", ∃ c ∈ entry.2.cycle,
          entry.2.fence = {} ∧ entry.2.bucketId = nextWindow.bucketId ∧
          entry.2.lastObservedAtMs ≤ nextWindow.observedAtMs ∧ c.observedAtMs ≤ nextWindow.observedAtMs ∧
          pendingReset c nextWindow = some ("natural:5000", 5000, .knownNaturalBoundary) ∧
          ∃ e ∈ w.ledger.events.get? (eventKey "xx" "natural:5000"), e.effectiveAtMs = 5000)) =
        true := by decide
    obtain ⟨w, hw, hfacts⟩ := (any_eq_true _ _).mp hreturns
    rw [decide_eq_true_eq] at hfacts
    obtain ⟨⟨identity, s⟩, hentry, c, hc, hfence, hbucket, hrecent, hnewer, hreset, e, he, heff⟩ := hfacts
    have hreads : Reads w "xx" {} nextWindow identity s c :=
      { valid := by decide, start := ⟨none, rfl⟩, entry := hentry, fence_eq := hfence,
        bucket := hbucket, recent := hrecent, cycle := hc, newer := hnewer }
    exact ⟨w, hw, observe_blocked hreads hreset (by decide) he heff⟩
  · have hreturns : (guardedRun unaryIds 4 (fun _ op => op.Typed) (default unaryIds) staleRun).any (fun w =>
          ((w.currentCycle "xx").map observedAtMs).any (· ≤ staleWindow.observedAtMs) &&
          (w.observe unaryIds 1 "xx" {} staleWindow).any fun r => r.1.toOption = some false ∧
            (r.2.currentCycle "xx").map endsAtMs = some (some 5000)) = true := by
      decide
    obtain ⟨w, hw, hfacts⟩ := (any_eq_true _ _).mp hreturns
    rw [Bool.and_eq_true] at hfacts
    exact ⟨w, hw, hfacts⟩

end CcSwitchServer.QuotaCycle
