import CcSwitchServer.QuotaCycle.Sound

/-! # Every reachable ledger can be loaded again

The ledger that a run leaves passes `validate`, as the next start of the server requires.
-/

namespace CcSwitchServer.QuotaCycle
open Foundations QuotaCycleLedger

/-- A call that returns. -/
def Call (ids : OpaqueIds) (op : Op) (w w' : World) : Prop := ∃ stack, step ids stack w op = some w'

/-- Every entry of a map takes more than one byte of a 64-bit address space, so that no ledger in
memory has as many events as there are `u64` values. -/
def QuotaCycleLedger.FitsMemory (l : QuotaCycleLedger) : Prop := l.events.size < u64Max

instance (l : QuotaCycleLedger) : Decidable l.FitsMemory := by
  unfold QuotaCycleLedger.FitsMemory
  infer_instance

/-! ## From moves to runs -/

section
variable {ids : OpaqueIds} {Inv : World → Prop}

/-- What holds as long as the ledger fits in memory. -/
def Steady (ids : OpaqueIds) (Inv : World → Prop) (w : World) : Prop := w.ledger.FitsMemory → Sound ids w ∧ Inv w

variable {P : World → Act → Prop} {w w' : World}

theorem moves_steady (hmove : ∀ w a w', Sound ids w → w.ledger.FitsMemory → Inv w → P w a → Move ids a w w' → Inv w')
    (htrace : Trace (Move ids) P w w') (h : Steady ids Inv w) : Steady ids Inv w' := by
  have hkeep : ∀ w a w', Steady ids Inv w → P w a → Move ids a w w' → Steady ids Inv w' := by
    intro w a w' ih hP hstep hfits'
    have hfits : w.ledger.FitsMemory := lt_of_le_of_lt hstep.size_le hfits'
    obtain ⟨hsound, hinv⟩ := ih hfits
    exact ⟨hsound.move hfits hstep, hmove w a w' hsound hfits hinv hP hstep⟩
  exact htrace.invariant hkeep h

theorem fits_of_moves (htrace : Trace (Move ids) P w w') (hfits : w'.ledger.FitsMemory) : w.ledger.FitsMemory := by
  have hsize : w.ledger.events.size ≤ w'.ledger.events.size := by
    induction htrace with
    | nil => exact le_refl _
    | cons a _ hstep _ ih => exact le_trans hstep.size_le (ih hfits)
  exact lt_of_le_of_lt hsize hfits

/-- What every move of every call keeps is kept by the run. The moves of a call may be described with
the help of the state that the call starts in. -/
theorem calls_steady {Q : World → Op → Prop}
    (hcall : ∀ w op w', Sound ids w → Q w op → Call ids op w w' → Trace (Move ids) P w w')
    (hmove : ∀ w a w', Sound ids w → w.ledger.FitsMemory → Inv w → P w a → Move ids a w w' → Inv w')
    (htyped : ∀ w op, Q w op → op.Typed) (hrun : Trace (Call ids) Q w w') (h : Steady ids Inv w) :
    Steady ids Inv w' := by
  have hkeep : ∀ w op w', Steady ids Inv w → Q w op → Call ids op w w' → Steady ids Inv w' := by
    intro w op w' ih hQ hstep hfits'
    obtain ⟨stack, hreturns⟩ := hstep
    have hfits := fits_of_moves (step_trace (htyped w op hQ) hreturns) hfits'
    exact moves_steady hmove (hcall w op w' (ih hfits).1 hQ ⟨stack, hreturns⟩) ih hfits'
  exact hrun.invariant hkeep h

theorem sound_of_calls (hrun : Trace (Call ids) (fun _ op => op.Typed) (World.default ids) w)
    (hfits : w.ledger.FitsMemory) : Sound ids w := by
  have hsteady : Steady ids (fun _ => True) w :=
    calls_steady (fun _ _ _ _ htyped hcall => step_trace htyped hcall.choose_spec)
      (fun _ _ _ _ _ _ _ _ => trivial) (fun _ _ => id) hrun fun _ => ⟨Sound.default ids, trivial⟩
  exact (hsteady hfits).1

end

/-! ## The result -/

/-- Whatever calls were made, with whatever arguments, in whatever order of the times in them: the
ledger passes the check that it has to pass at the next load. In particular every current cycle has
its own event, at its own start and not a historical one, ends after it starts, and the corrections
applied to an event lead without a gap to the time the event has now. -/
theorem reachable_ledger_validates (ids : OpaqueIds) (w : World)
    (hrun : Trace (Call ids) (fun _ op => op.Typed) (World.default ids) w) (hfits : w.ledger.FitsMemory) :
    w.ledger.validate = .ok () ∧
    (∀ identity s c, w.ledger.sources.get? identity = some s → s.cycle = some c →
      (∃ e, w.ledger.events.get? (eventKey s.sourceRef c.eventId) = some e ∧ e.cycleId = c.cycleId ∧
        e.effectiveAtMs = c.startsAtMs ∧ e.status ≠ .historical) ∧ ∀ t ∈ c.endsAtMs, c.startsAtMs < t) ∧
    ∀ key, (appliedTo key w.ledger.corrections).IsChain (fun a b => b.previousEffectiveAtMs = a.effectiveAtMs) ∧
      ∀ last ∈ (appliedTo key w.ledger.corrections).getLast?,
        (w.ledger.events.get? key).map QuotaResetEvent.effectiveAtMs = some last.effectiveAtMs := by
  have hloadable := (sound_of_calls hrun hfits).loadable
  refine ⟨validate_of_loadable hloadable, fun identity s c hs hc => ⟨?_, ?_⟩, fun key => ⟨?_, ?_⟩⟩
  · obtain ⟨e, he, hopens⟩ := hloadable.cycle_event hs hc
    exact ⟨e, he, hopens⟩
  · exact (hloadable.cycle_fits hs hc).2.2.2.2.2.2.2.2.2
  · exact hloadable.chain key
  · intro last hlast
    obtain ⟨e, he, heff⟩ := hloadable.chain_end hlast
    rw [he, Option.map_some, heff]

/-! ### A run -/

/-- Calls made one after the other on a stack of the given size, each checked against `Q` first. -/
def guardedRun (ids : OpaqueIds) (stack : ℕ) (Q : World → Op → Prop) [∀ w op, Decidable (Q w op)]
    (w : World) (ops : List Op) : Option World :=
  ops.foldlM (fun w op => if Q w op then step ids stack w op else none) w

theorem calls_of_guardedRun {ids : OpaqueIds} {stack : ℕ} {Q : World → Op → Prop}
    [∀ w op, Decidable (Q w op)] {ops : List Op} {w w' : World}
    (h : guardedRun ids stack Q w ops = some w') : Trace (Call ids) Q w w' := by
  induction ops generalizing w with
  | nil =>
    cases h
    exact .nil _
  | cons op ops ih =>
    unfold guardedRun at h
    rw [List.foldlM_cons, Option.bind_eq_bind, Option.bind_eq_some_iff] at h
    obtain ⟨w₁, hstep, hrest⟩ := h
    split at hstep
    · rename_i hQ
      exact .cons op hQ ⟨stack, hstep⟩ (ih hrest)
    · cases hstep

def unaryIds : OpaqueIds where
  id n := String.ofList (List.replicate (n + 1) 'x')
  injective := by
    intro m n h
    have hlength := congrArg (fun s => s.toList.length) h
    simpa using hlength
  nonempty := by
    intro n h
    have hlength := congrArg (fun s => s.toList.length) h
    simp at hlength
  noColon := by
    intro n h
    simp at h

/-- An observed window from 1000 to 100000, a reset at 4000 that is moved to 4500 and then to a time
before the first window, a delayed event and a boundary that falls due. -/
def correctedRun : List Op :=
  [.registerSource "identity" "codex_oauth" "shared_weekly" {},
    .observe "xx" {} ⟨"shared_weekly", some 1000, 100000, none, 2000, .upstreamWindow⟩,
    .applyReset "xx" {} "reset:1" 4000 8000 .redeemConfirmation,
    .applyReset "xx" {} "reset:1" 4500 9000 .redeemConfirmation,
    .applyReset "xx" {} "reset:1" 500 9500 .redeemConfirmation,
    .applyReset "xx" {} "old" 3000 9900 .publicAnnouncement, .advanceDue 100001]

theorem reachable_ledger_validates_corrected :
    ∃ w, guardedRun unaryIds 4 (fun _ op => op.Typed) (World.default unaryIds) correctedRun = some w ∧
      w.ledger.FitsMemory ∧ w.ledger.validate = .ok () := by
  have hreturns : (guardedRun unaryIds 4 (fun _ op => op.Typed) (World.default unaryIds)
      correctedRun).any (fun w => decide w.ledger.FitsMemory) = true := by decide
  obtain ⟨w, hw, hfits⟩ := (Option.any_eq_true _ _).mp hreturns
  rw [decide_eq_true_eq] at hfits
  exact ⟨w, hw, hfits, (reachable_ledger_validates unaryIds w (calls_of_guardedRun hw) hfits).1⟩

end CcSwitchServer.QuotaCycle
