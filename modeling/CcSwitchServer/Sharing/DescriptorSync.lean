import CcSwitchServer.Foundations.Checked
import CcSwitchServer.Foundations.Runs

/-! # Synchronisation of share descriptors (`src/domain/sharing/shares.rs`)

The Router stores a push whose generation is newer than its own and acknowledges it in both cases, as the
comment in `prepare_descriptor_projection` says. The functions of the store touch one share; `mark_router_sync`
has no caller.
-/

namespace CcSwitchServer.DescriptorSync
open Foundations List

/-- The fields of a share that the synchronisation reads and writes. -/
structure Share where
  configRevision : ℕ
  routerSyncedRevision : ℕ
  descriptorGeneration : ℕ
  descriptorFingerprint : Option String
  routerSyncedDescriptorGeneration : ℕ
  routerSyncedDescriptorFingerprint : Option String
  routerLastSyncedAtMs : Option ℕ
  routerLastSyncError : Option String
  routerUrl : Option String
deriving DecidableEq, Repr

/-- The share as `upsert_with_capacity` creates it. -/
def Share.created : Share where
  configRevision := 1
  routerSyncedRevision := 0
  descriptorGeneration := 0
  descriptorFingerprint := none
  routerSyncedDescriptorGeneration := 0
  routerSyncedDescriptorFingerprint := none
  routerLastSyncedAtMs := none
  routerLastSyncError := none
  routerUrl := none

def markShareConfigPending (share : Share) : Share :=
  { share with
    configRevision := max (saturatingAdd share.configRevision 1) 1
    routerLastSyncError := none }

/-- A changed fingerprint, the first projection and a pending revision get the next generation. -/
def prepareDescriptorProjection (share : Share) (fingerprint : String) : Share × (ℕ × String) :=
  let changed := share.descriptorFingerprint ≠ some fingerprint
  let revisionPending := share.routerSyncedRevision < share.configRevision ∧
    share.descriptorGeneration = share.routerSyncedDescriptorGeneration
  let share :=
    if changed ∨ share.descriptorGeneration = 0 ∨ revisionPending then
      { share with
        descriptorGeneration :=
          max (saturatingAdd (max share.descriptorGeneration share.routerSyncedDescriptorGeneration) 1) 1
        descriptorFingerprint := some fingerprint
        routerLastSyncError := none }
    else share
  (share, share.descriptorGeneration, share.descriptorFingerprint.getD "")

/-- Only the generation that is current may mark the share as synchronised. -/
def markRouterDescriptorSync (share : Share) (generation : ℕ) (fingerprint : String) (configRevision : ℕ)
    (routerUrl : Option String) (result : Except String ℕ) : Share × Bool :=
  let isCurrent := share.descriptorGeneration = generation ∧ share.descriptorFingerprint = some fingerprint
  match result with
  | .ok now =>
    if isCurrent then
      ({ share with
        routerSyncedDescriptorGeneration := generation
        routerSyncedDescriptorFingerprint := some fingerprint
        routerSyncedRevision := max share.routerSyncedRevision configRevision
        routerLastSyncedAtMs := some now
        routerLastSyncError := none
        routerUrl := routerUrl }, true)
    else (share, false)
  | .error error =>
    if isCurrent then ({ share with routerLastSyncError := some error }, false) else (share, false)

def descriptorProjectionPending (share : Share) : Bool :=
  share.descriptorGeneration = 0 ∨ share.descriptorFingerprint = none ∨
    share.routerSyncedDescriptorGeneration ≠ share.descriptorGeneration ∨
    share.routerSyncedDescriptorFingerprint ≠ share.descriptorFingerprint ∨
    share.routerSyncedRevision < share.configRevision

variable {share : Share}

theorem descriptorProjectionPending_eq_false :
    descriptorProjectionPending share = false ↔
      share.descriptorGeneration ≠ 0 ∧ share.descriptorFingerprint ≠ none ∧
        share.routerSyncedDescriptorGeneration = share.descriptorGeneration ∧
        share.routerSyncedDescriptorFingerprint = share.descriptorFingerprint ∧
        share.configRevision ≤ share.routerSyncedRevision := by
  simp only [descriptorProjectionPending, decide_eq_false_iff_not, not_or, not_not, not_lt, ne_eq]

theorem pending_of_revision (h : share.routerSyncedRevision < share.configRevision) :
    descriptorProjectionPending share = true := by
  rw [← Bool.not_eq_false, descriptorProjectionPending_eq_false]
  rintro ⟨-, -, -, -, hle⟩
  omega

/-! ## The Router and the network -/

/-- A pushed descriptor: the config revision stands for the payload. -/
structure Push where
  generation : ℕ
  fingerprint : String
  configRevision : ℕ
deriving DecidableEq, Repr

/-- The share, what the Router has stored, and all messages: they may be delayed, repeated or lost. -/
structure State where
  share : Share
  stored : Option Push
  sent : List Push
  acks : List Push

def State.initial : State := ⟨.created, none, [], []⟩

inductive Event
  | edit
  | push (fingerprint : String)
  | receive (push : Push)
  | acknowledge (push : Push) (routerUrl : Option String) (now : ℕ)
  | fail (push : Push) (routerUrl : Option String) (error : String)

/-- The Router keeps the push with the newest generation. -/
def upsert (stored : Option Push) (push : Push) : Option Push :=
  match stored with
  | none => some push
  | some current => if current.generation < push.generation then some push else some current

def step (s : State) : Event → State
  | .edit => { s with share := markShareConfigPending s.share }
  | .push fingerprint =>
    let (share, generation, fingerprint) := prepareDescriptorProjection s.share fingerprint
    { s with share := share, sent := ⟨generation, fingerprint, share.configRevision⟩ :: s.sent }
  | .receive push =>
    if push ∈ s.sent then { s with stored := upsert s.stored push, acks := push :: s.acks } else s
  | .acknowledge push routerUrl now =>
    if push ∈ s.acks then
      { s with
        share := (markRouterDescriptorSync s.share push.generation push.fingerprint push.configRevision
          routerUrl (.ok now)).1 }
    else s
  | .fail push routerUrl error =>
    if push ∈ s.sent then
      { s with
        share := (markRouterDescriptorSync s.share push.generation push.fingerprint push.configRevision
          routerUrl (.error error)).1 }
    else s

/-- The Router holds the descriptor of the current revision whenever nothing is pending. -/
def UpToDate (s : State) : Prop :=
  descriptorProjectionPending s.share = false →
    ∃ push, s.stored = some push ∧ push.configRevision = s.share.configRevision

/-- The Router does not receive a newer revision under the generation that it already stores. -/
def Writable (s : State) : Event → Prop
  | .receive push => ∀ current, s.stored = some current → current.generation = push.generation →
      push.configRevision ≤ current.configRevision
  | _ => True

/-! ## What the steps preserve -/

structure Invariant (s : State) : Prop where
  configRevision_le : s.share.configRevision ≤ u64Max
  descriptorGeneration_le : s.share.descriptorGeneration ≤ u64Max
  generation : ∀ p ∈ s.sent, p.generation ≤ s.share.descriptorGeneration
  revision : ∀ p ∈ s.sent, p.configRevision ≤ s.share.configRevision
  /-- A push of a newer generation carries no older revision. -/
  ordered : ∀ p ∈ s.sent, ∀ q ∈ s.sent, p.generation < q.generation → p.configRevision ≤ q.configRevision
  stored : ∀ p, s.stored = some p → p ∈ s.sent
  /-- Nothing that the Router acknowledged is newer than what it holds. -/
  acked : ∀ p ∈ s.acks, ∃ current, s.stored = some current ∧ p.configRevision ≤ current.configRevision
  synced : s.share.routerSyncedDescriptorGeneration = 0 ∧ s.share.routerSyncedRevision = 0 ∨
    ∃ p ∈ s.acks, s.share.routerSyncedRevision ≤ p.configRevision

theorem initial_invariant : Invariant .initial where
  configRevision_le := by decide
  descriptorGeneration_le := by decide
  generation := fun _ h => absurd h not_mem_nil
  revision := fun _ h => absurd h not_mem_nil
  ordered := fun _ h => absurd h not_mem_nil
  stored := fun _ h => nomatch h
  acked := fun _ h => absurd h not_mem_nil
  synced := .inl ⟨rfl, rfl⟩

section
variable {s : State}

theorem prepareDescriptorProjection_spec {share : Share} (hle : share.descriptorGeneration ≤ u64Max)
    (fingerprint : String) :
    let r := prepareDescriptorProjection share fingerprint
    r.1.configRevision = share.configRevision ∧ r.1.routerSyncedRevision = share.routerSyncedRevision ∧
      r.1.routerSyncedDescriptorGeneration = share.routerSyncedDescriptorGeneration ∧
      r.2.1 = r.1.descriptorGeneration ∧ share.descriptorGeneration ≤ r.1.descriptorGeneration ∧
      r.1.descriptorGeneration ≤ u64Max := by
  intro r
  unfold r prepareDescriptorProjection saturatingAdd
  dsimp only
  split
  · refine ⟨rfl, rfl, rfl, rfl, ?_, ?_⟩
    · dsimp only
      omega
    · dsimp only
      have hpos : 1 ≤ u64Max := by decide
      omega
  · exact ⟨rfl, rfl, rfl, rfl, le_refl _, hle⟩

section
variable (h : Invariant s)
include h

theorem edit_invariant : Invariant (step s .edit) := by
  have hgrow : s.share.configRevision ≤ (markShareConfigPending s.share).configRevision := by
    have hle := h.configRevision_le
    unfold markShareConfigPending saturatingAdd
    dsimp only
    omega
  refine ⟨?_, h.descriptorGeneration_le, h.generation, ?_, h.ordered, h.stored, h.acked, h.synced⟩
  · have hpos : 1 ≤ u64Max := by decide
    show max (saturatingAdd s.share.configRevision 1) 1 ≤ u64Max
    unfold saturatingAdd
    omega
  · intro p hp
    exact (h.revision p hp).trans hgrow

/-- A push keeps the clocks in order. -/
theorem push_invariant (fingerprint : String) : Invariant (step s (.push fingerprint)) := by
  obtain ⟨hrevision, hsyncedRevision, hsyncedGeneration, hgeneration, hgrow, hle⟩ :=
    prepareDescriptorProjection_spec h.descriptorGeneration_le fingerprint
  generalize hprepared : prepareDescriptorProjection s.share fingerprint = r at *
  obtain ⟨share, generation, fingerprint'⟩ := r
  dsimp only at hrevision hsyncedRevision hsyncedGeneration hgeneration hgrow hle
  subst hgeneration
  have hstep : step s (.push fingerprint) = { s with
      share := share
      sent := ⟨share.descriptorGeneration, fingerprint', share.configRevision⟩ :: s.sent } := by
    unfold step
    dsimp only
    rw [hprepared]
  rw [hstep]
  refine ⟨?_, hle, ?_, ?_, ?_, ?_, h.acked, ?_⟩
  · dsimp only
    rw [hrevision]
    exact h.configRevision_le
  · intro p hp
    rcases mem_cons.mp hp with rfl | hp
    · exact le_refl _
    · exact (h.generation p hp).trans hgrow
  · intro p hp
    rcases mem_cons.mp hp with rfl | hp
    · exact le_refl _
    · exact (h.revision p hp).trans_eq hrevision.symm
  · intro p hp q hq hlt
    rcases mem_cons.mp hq with rfl | hq
    · rcases mem_cons.mp hp with rfl | hp
      · exact le_refl _
      · exact (h.revision p hp).trans_eq hrevision.symm
    · rcases mem_cons.mp hp with rfl | hp
      · exact absurd ((h.generation q hq).trans hgrow) (not_le.mpr hlt)
      · exact h.ordered p hp q hq hlt
  · intro p hp
    exact mem_cons_of_mem _ (h.stored p hp)
  · dsimp only
    rw [hsyncedGeneration, hsyncedRevision]
    exact h.synced

/-- The Router stores what was sent, and the clocks stay in order. -/
theorem receive_invariant {push : Push} (hwritable : Writable s (.receive push)) :
    Invariant (step s (.receive push)) := by
  unfold step
  dsimp only
  split
  · rename_i hsent
    have hupsert : ∃ current, upsert s.stored push = some current ∧ current ∈ s.sent ∧
        push.configRevision ≤ current.configRevision ∧
        ∀ before, s.stored = some before → before.configRevision ≤ current.configRevision := by
      unfold upsert
      cases hstored : s.stored with
      | none => exact ⟨push, rfl, hsent, le_refl _, fun _ hbefore => nomatch hbefore⟩
      | some current =>
        have hmem := h.stored current hstored
        dsimp only
        split
        · rename_i hlt
          refine ⟨push, rfl, hsent, le_refl _, ?_⟩
          rintro before ⟨⟩
          exact h.ordered current hmem push hsent hlt
        · rename_i hlt
          refine ⟨current, rfl, hmem, ?_, ?_⟩
          · rcases Nat.lt_or_eq_of_le (not_lt.mp hlt) with hlt | heq
            · exact h.ordered push hsent current hmem hlt
            · exact hwritable current hstored heq.symm
          · rintro before ⟨⟩
            exact le_refl _
    obtain ⟨current, hcurrent, hmem, hpush, hbefore⟩ := hupsert
    refine ⟨h.configRevision_le, h.descriptorGeneration_le, h.generation, h.revision, h.ordered, ?_, ?_, ?_⟩
    · intro p hp
      have heq : some current = some p := hcurrent.symm.trans hp
      cases heq
      exact hmem
    · intro p hp
      refine ⟨current, hcurrent, ?_⟩
      rcases mem_cons.mp hp with rfl | hp
      · exact hpush
      · obtain ⟨before, hstored, hle⟩ := h.acked p hp
        exact hle.trans (hbefore before hstored)
    · rcases h.synced with hnone | ⟨p, hp, hle⟩
      · exact .inl hnone
      · exact .inr ⟨p, mem_cons_of_mem _ hp, hle⟩
  · exact h

theorem acknowledge_invariant (push : Push) (routerUrl : Option String) (now : ℕ) :
    Invariant (step s (.acknowledge push routerUrl now)) := by
  unfold step markRouterDescriptorSync
  dsimp only
  split
  · rename_i hacked
    split
    · refine ⟨h.configRevision_le, h.descriptorGeneration_le, h.generation, h.revision, h.ordered, h.stored,
        h.acked, .inr ?_⟩
      dsimp only
      rcases h.synced with ⟨-, hzero⟩ | ⟨p, hp, hle⟩
      · exact ⟨push, hacked, by omega⟩
      · rcases le_total p.configRevision push.configRevision with hpush | hpush
        · exact ⟨push, hacked, by omega⟩
        · exact ⟨p, hp, by omega⟩
    · exact h
  · exact h

theorem fail_invariant (push : Push) (routerUrl : Option String) (error : String) :
    Invariant (step s (.fail push routerUrl error)) := by
  unfold step markRouterDescriptorSync
  dsimp only
  split
  · split
    · exact ⟨h.configRevision_le, h.descriptorGeneration_le, h.generation, h.revision, h.ordered, h.stored,
        h.acked, h.synced⟩
    · exact h
  · exact h

end

theorem step_invariant (s : State) (event : Event) (h : Invariant s) (hwritable : Writable s event) :
    Invariant (step s event) := by
  cases event with
  | edit => exact edit_invariant h
  | push fingerprint => exact push_invariant h fingerprint
  | receive push => exact receive_invariant h hwritable
  | acknowledge push routerUrl now => exact acknowledge_invariant h push routerUrl now
  | fail push routerUrl error => exact fail_invariant h push routerUrl error

theorem Invariant.upToDate (h : Invariant s) : UpToDate s := by
  intro hpending
  obtain ⟨hgeneration, -, hsame, -, hsynced⟩ := descriptorProjectionPending_eq_false.mp hpending
  rcases h.synced with ⟨hzero, -⟩ | ⟨p, hp, hle⟩
  · exact absurd (hsame.symm.trans hzero) hgeneration
  · obtain ⟨current, hcurrent, hcle⟩ := h.acked p hp
    have hnewest := h.revision current (h.stored current hcurrent)
    exact ⟨current, hcurrent, by omega⟩

end

theorem stale_acknowledgement_pending {generation revision : ℕ} {fingerprint : String}
    {routerUrl : Option String} {result : Except String ℕ}
    (hedit : share.routerSyncedRevision < share.configRevision) (hstale : revision < share.configRevision) :
    descriptorProjectionPending
      (markRouterDescriptorSync share generation fingerprint revision routerUrl result).1 = true := by
  apply pending_of_revision
  unfold markRouterDescriptorSync
  dsimp only
  split
  · split
    · exact max_lt hedit hstale
    · exact hedit
  · split
    · exact hedit
    · exact hedit

/-- In every run in which no receipt finds its generation stored with an older revision, the Router is up to
date whenever nothing is pending; a stale acknowledgement never clears a newer edit. -/
theorem descriptor_sync_up_to_date (events : List Event) (h : EachStep step Writable .initial events) :
    ∀ s ∈ states step .initial events, UpToDate s ∧
      ∀ push routerUrl now, s.share.routerSyncedRevision < s.share.configRevision →
        push.configRevision < s.share.configRevision →
        descriptorProjectionPending (step s (.acknowledge push routerUrl now)).share = true := by
  intro s hs
  refine ⟨(states_invariant step_invariant initial_invariant h s hs).upToDate, ?_⟩
  intro push routerUrl now hedit hstale
  unfold step
  dsimp only
  split
  · exact stale_acknowledgement_pending hedit hstale
  · exact pending_of_revision hedit

/-- The first push arrives and its acknowledgement is lost; an edit keeps the fingerprint, so the second
push has the same generation. -/
def lostAcknowledgement : List Event :=
  [.push "a", .receive ⟨1, "a", 1⟩, .edit, .push "a", .receive ⟨1, "a", 2⟩, .acknowledge ⟨1, "a", 2⟩ none 300]

theorem lost_acknowledgement_loses_edit :
    ¬UpToDate (run step .initial lostAcknowledgement) ∧
      (run step .initial lostAcknowledgement).share.configRevision = 2 ∧
      (run step .initial lostAcknowledgement).stored = some ⟨1, "a", 1⟩ := by
  refine ⟨?_, by decide, by decide⟩
  intro h
  obtain ⟨push, hpush, hrevision⟩ := h (by decide)
  have hstored : (run step .initial lostAcknowledgement).stored = some ⟨1, "a", 1⟩ := by decide
  rw [hstored] at hpush
  cases hpush
  exact absurd hrevision (by decide)

/-- The same edit after the acknowledgement gets a generation of its own. -/
theorem descriptor_sync_up_to_date_acknowledged :
    let events := [.push "a", .receive ⟨1, "a", 1⟩, .acknowledge ⟨1, "a", 1⟩ none 200, .edit, .push "a",
      .receive ⟨2, "a", 2⟩, .acknowledge ⟨2, "a", 2⟩ none 300]
    UpToDate (run step .initial events) := by
  intro events
  refine (descriptor_sync_up_to_date events ?_ _ (run_mem_states step _ _)).1
  refine ⟨trivial, ?_, trivial, trivial, trivial, ?_, trivial, trivial⟩
  · rintro current ⟨⟩
  · rintro current ⟨⟩ hsame
    cases hsame

end CcSwitchServer.DescriptorSync
