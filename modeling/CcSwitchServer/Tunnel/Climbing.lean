import CcSwitchServer.Foundations.Runs
import CcSwitchServer.Tunnel.Generations

/-! # The router generation of a tunnel

In a run of careful steps the recorded router generation climbs.
-/

namespace CcSwitchServer.Tunnel
open Foundations Supervisor List

/-- The router generation of the next actor is above the recorded one. -/
def Pending.Above (recorded : ℕ) : Pending → Prop
  | .startingRead _ _ routerGeneration _ => recorded < routerGeneration ∧ routerGeneration ≤ u64Max
  | .startingWrite _ _ routerGeneration _ current =>
    recorded < routerGeneration ∧ routerGeneration ≤ u64Max ∧ current.routerGeneration = recorded
  | _ => True

/-- The status records the generation of the last lease request, and a new actor starts above it. -/
structure Climbing (s : Supervisor) : Prop where
  ordered : s.started.Pairwise fun p q => q.2.generation < p.2.generation
  recorded : ∀ st ∈ s.history, st.routerGeneration ≤ s.current.routerGeneration
  levels : ∀ {id a}, s.actors.get? id = some a → a.Level ∧
    ∀ {st}, s.status = some st → st.desiredGeneration = a.generation → st.routerGeneration ≤ a.floor
  above : ∀ {p}, s.pending = some p → p.Above s.current.routerGeneration

/-- What a careful step does to the router generation. -/
structure Climbs (s s' : Supervisor) : Prop where
  recorded : s.current.routerGeneration ≤ s'.current.routerGeneration
  started : ∀ {p}, s'.started = p :: s.started → ∀ st ∈ s'.history, st.routerGeneration < p.2.routerGeneration

variable {s s' : Supervisor} {n : ℕ} {slot : TunnelTaskSlot} {job : Job}

variable {p : Pending}

theorem Pending.above_of_none (h : p.settled? = none) (m : ℕ) : p.Above m := by
  cases p with
  | startingRead => cases h
  | startingWrite => cases h
  | _ => trivial

theorem Tracked.superseded (h : Tracked s) (hfenced : Fenced s n) {g id : ℕ} {a : Actor}
    (hp : s.pending = some p) (hg : p.settled? = some g) (hget : s.actors.get? id = some a) :
    s.stale a.generation = true ∧ a.generation < g := by
  have hgen : p.generation? = some g := by
    cases p with
    | dispose => exact hg
    | nextRouterGeneration => exact hg
    | startingRead => exact hg
    | startingWrite => exact hg
    | _ => cases hg
  obtain ⟨slot, -, hnewer⟩ := hfenced.pending hp
  obtain ⟨b, hmem, hb, -⟩ := h.origin hget
  have hlt : a.generation < g := hb ▸ (hnewer g hgen).2 _ hmem
  rcases h.settled hp hg with hnone | ⟨st, hst, hdes⟩
  · rw [hnone id] at hget
    cases hget
  · refine ⟨?_, hlt⟩
    unfold stale
    rw [hst]
    have hne : st.desiredGeneration ≠ a.generation := by omega
    simpa using hne

theorem Tracked.eq_of_generation (h : Tracked s)
    (hordered : s.started.Pairwise fun p q => q.2.generation < p.2.generation) {i j : ℕ} {a b : Actor}
    (ha : s.actors.get? i = some a) (hb : s.actors.get? j = some b) (heq : a.generation = b.generation) :
    i = j := by
  obtain ⟨a₀, hmemA, hgenA, -⟩ := h.origin ha
  obtain ⟨b₀, hmemB, hgenB, -⟩ := h.origin hb
  by_contra hne
  have hpair : s.started.Pairwise fun p q => p.2.generation ≠ q.2.generation := hordered.imp fun hlt => hlt.ne'
  have : Std.Symm fun p q : ℕ × Actor => p.2.generation ≠ q.2.generation := ⟨fun _ _ hpq => hpq.symm⟩
  refine hpair.forall hmemA hmemB (fun hsame => hne (congrArg Prod.fst hsame)) ?_
  rw [hgenA, hgenB, heq]

theorem Rises.ordered (h : Rises s s') (hordered : s.started.Pairwise fun p q => q.2.generation < p.2.generation) :
    s'.started.Pairwise fun p q => q.2.generation < p.2.generation := by
  rcases h.started with heq | ⟨p, heq, hlt⟩
  · rw [heq]
    exact hordered
  · rw [heq]
    exact pairwise_cons.mpr ⟨hlt, hordered⟩

/-! ## Router generations -/

theorem Climbing.keep (h : Climbing s) (hstatus : s'.status = s.status) (hhistory : s'.history = s.history)
    (hlevels : ∀ {id a}, s'.actors.get? id = some a → a.Level ∧
      ∀ {st}, s.status = some st → st.desiredGeneration = a.generation → st.routerGeneration ≤ a.floor)
    (hpending : ∀ {p}, s'.pending = some p → p.Above s.current.routerGeneration)
    (hstarted : s'.started = s.started) : Climbing s' ∧ Climbs s s' := by
  have hcurrent : s'.current = s.current := by
    unfold current
    rw [hstatus]
  refine ⟨⟨?_, ?_, fun ha => ?_, ?_⟩, ⟨?_, fun heq => ?_⟩⟩
  · rw [hstarted]
    exact h.ordered
  · rw [hhistory, hcurrent]
    exact h.recorded
  · rw [hstatus]
    exact hlevels ha
  · rw [hcurrent]
    exact hpending
  · rw [hcurrent]
  · rw [hstarted] at heq
    exact absurd heq (cons_ne_self _ _).symm

/-- A write that does not lose the router generation, over which every actor that is not superseded is. -/
theorem Climbing.write (h : Climbing s) {st : TunnelRuntimeStatus} (hstatus : s'.status = some st)
    (hhistory : s'.history = st :: s.history) (hle : s.current.routerGeneration ≤ st.routerGeneration)
    (hlevels : ∀ {id a}, s'.actors.get? id = some a → a.Level ∧
      (st.desiredGeneration = a.generation → st.routerGeneration ≤ a.floor))
    (hpending : ∀ {p}, s'.pending = some p → p.Above st.routerGeneration) (hrises : Rises s s')
    (hstarted : ∀ {p}, s'.started = p :: s.started → st.routerGeneration < p.2.routerGeneration) :
    Climbing s' ∧ Climbs s s' := by
  have hcurrent := current_of_some hstatus
  have hrecorded : ∀ st' ∈ s'.history, st'.routerGeneration ≤ st.routerGeneration := by
    intro st' hst'
    rw [hhistory] at hst'
    rcases mem_cons.mp hst' with rfl | hold
    · exact le_rfl
    · exact (h.recorded st' hold).trans hle
  refine ⟨⟨hrises.ordered h.ordered, ?_, fun ha => ⟨(hlevels ha).1, fun hst' hdes => ?_⟩, ?_⟩, ⟨?_, fun heq st' hst' => ?_⟩⟩
  · rw [hcurrent]
    exact hrecorded
  · rw [hstatus] at hst'
    cases hst'
    exact (hlevels ha).2 hdes
  · rw [hcurrent]
    exact hpending
  · rw [hcurrent]
    exact hle
  · exact (hrecorded st' hst').trans_lt (hstarted heq)

section
variable (h : Climbing s)
include h

theorem Climbing.actor (hfenced : Fenced s n) (htracked : Tracked s) {id : ℕ} {a : Actor}
    (hget : s.actors.get? id = some a) (hm : ActorMoves s s' id a) (hrises : Rises s s')
    (hcareful : a.phase = .leaseTimedOut → s.stale a.generation = true) : Climbing s' ∧ Climbs s s' := by
  have hlevel := (h.levels hget).1
  rcases hm.status with ⟨hstatus, hhistory⟩ | ⟨hstale, st', hst', hhistory, hwrote, hfloor⟩
  · refine h.keep hstatus hhistory (fun {k b} hb => ?_) (fun hp => h.above (hm.pending ▸ hp)) hm.started
    rcases hm.actors hb with ⟨rfl, hcont⟩ | ⟨-, hold⟩
    · obtain ⟨hb', hle⟩ := hcont.level hlevel
      refine ⟨hb', fun hst hdes => ?_⟩
      exact ((h.levels hget).2 hst (hdes.trans hcont.generation)).trans hle
    · exact h.levels hold
  · have hphase : a.phase ≠ .leaseTimedOut := by
      intro heq
      rw [hcareful heq] at hstale
      cases hstale
    have hwritten := hwrote.level hphase
    refine h.write hst' hhistory ?_ (fun {k b} hb => ?_) (fun hp => ?_) hrises fun heq => ?_
    · cases hst : s.status with
      | none =>
        unfold current
        rw [hst]
        exact Nat.zero_le _
      | some st =>
        rw [current_of_some hst]
        refine ((h.levels hget).2 hst ?_).trans hwritten
        unfold stale at hstale
        rw [hst] at hstale
        simpa using hstale
    · rcases hm.actors hb with ⟨rfl, hcont⟩ | ⟨hne, hold⟩
      · exact ⟨(hcont.level hlevel).1, fun _ => hfloor b hb hphase hlevel⟩
      · refine ⟨(h.levels hold).1, fun hdes => ?_⟩
        rw [hwrote.desired] at hdes
        exact absurd (htracked.eq_of_generation h.ordered hget hold hdes).symm hne
    · rename_i p
      rw [hm.pending] at hp
      refine Pending.above_of_none ?_ _
      cases hg : p.settled? with
      | none => rfl
      | some g =>
        rw [(htracked.superseded hfenced hp hg hget).1] at hstale
        cases hstale
    · rw [hm.started] at heq
      exact absurd heq (cons_ne_self _ _).symm

theorem Climbing.replace (job : Job) (rebind : Bool) :
    Climbing (s.replace slot job rebind) ∧ Climbs s (s.replace slot job rebind) := by
  unfold Supervisor.replace
  split
  · refine h.keep rfl rfl h.levels (fun hp => ?_) rfl
    cases hp
    trivial
  · refine h.keep rfl rfl h.levels (fun hp => ?_) rfl
    cases hp
    trivial

theorem Climbing.abortRetiring (heq : s.abortRetiring slot = some s') :
    Climbing s' ∧ Climbs s s' := by
  unfold Supervisor.abortRetiring at heq
  split at heq
  · cases heq
  · cases heq
    exact h.keep rfl rfl (fun ha => h.levels (actors_abort ha)) h.above rfl

theorem Climbing.advance (hfenced : Fenced s n) (htracked : Tracked s) (hp : s.pending = some p)
    (hrises : Rises s (s.advance slot p))
    (hcareful : Careful s .advance) : Climbing (s.advance slot p) ∧ Climbs s (s.advance slot p) := by
  unfold Careful at hcareful
  rw [hp] at hcareful
  have habove := h.above hp
  have hgo : ∀ {p' : Pending}, p'.Above s.current.routerGeneration →
      Climbing { s with pending := some p' } ∧ Climbs s { s with pending := some p' } := by
    intro p' hp'
    refine h.keep rfl rfl h.levels (fun heq => ?_) rfl
    cases heq
    exact hp'
  cases p with
  | rebind job =>
    unfold Supervisor.advance
    cases habort : s.abortRetiring slot with
    | some s' => exact h.abortRetiring habort
    | none => exact h.replace job true
  | transition change next => exact hgo trivial
  | transitionWrite change current next =>
    obtain ⟨slot', -, hnewer⟩ := hfenced.pending hp
    have hlevels : ∀ {id a}, s.actors.get? id = some a → a.Level ∧
        ((transitionStatus change current).desiredGeneration = a.generation →
          (transitionStatus change current).routerGeneration ≤ a.floor) := by
      intro id a ha
      refine ⟨(h.levels ha).1, fun hdes => ?_⟩
      obtain ⟨b, hmem, hgen, -⟩ := htracked.origin ha
      have hlt := (hnewer _ rfl).2 _ hmem
      rw [hgen, ← hdes] at hlt
      exact absurd hlt (lt_irrefl _)
    cases next with
    | dispose job handle rebind =>
      refine h.write rfl rfl hcareful hlevels (fun heq => ?_) hrises fun heq => ?_
      · cases heq
        trivial
      · exact absurd heq (cons_ne_self _ _).symm
    | stopHandles =>
      refine h.write rfl rfl hcareful hlevels (fun heq => ?_) hrises fun heq => ?_
      · cases heq
        trivial
      · exact absurd heq (cons_ne_self _ _).symm
  | dispose job generation handle rebind =>
    unfold Supervisor.advance
    dsimp only
    split
    · refine h.keep rfl rfl h.levels (fun heq => ?_) rfl
      cases heq
      trivial
    · split
      · refine h.keep rfl rfl (fun ha => h.levels (actors_abort ha)) (fun heq => ?_) rfl
        cases heq
        trivial
      · refine h.keep rfl rfl h.levels (fun heq => ?_) rfl
        cases heq
        trivial
  | nextRouterGeneration job generation =>
    refine hgo ?_
    unfold Pending.Above saturatingAdd
    omega
  | startingRead job generation routerGeneration routerActiveGeneration =>
    exact hgo ⟨habove.1, habove.2, rfl⟩
  | startingWrite job generation routerGeneration routerActiveGeneration current =>
    obtain ⟨hlt, hmax, hcurrent⟩ := habove
    refine h.write rfl rfl ?_ (fun {id b} hb => ?_) (fun heq => ?_) hrises fun heq => ?_
    · exact hcurrent.ge
    · rcases get?_put hb with ⟨-, rfl⟩ | ⟨-, hold⟩
      · refine ⟨⟨le_rfl, hmax⟩, fun _ => ?_⟩
        exact hcurrent.trans_le hlt.le
      · refine ⟨(h.levels hold).1, fun hdes => ?_⟩
        have hbelow := (htracked.superseded hfenced hp rfl hold).2
        exact absurd hdes hbelow.ne'
    · cases heq
    · rw [← (cons.inj heq).1]
      exact hcurrent.trans_lt hlt
  | stopping status generation => exact hgo trivial
  | stopHandles generation =>
    unfold Supervisor.advance
    dsimp only
    split
    · exact h.keep rfl rfl (fun ha => h.levels (actors_abort ha)) h.above rfl
    · cases habort : s.abortRetiring slot with
      | some s' => exact h.abortRetiring habort
      | none =>
        refine h.keep rfl rfl h.levels (fun heq => ?_) rfl
        cases heq

/-- A careful step keeps the climb. -/
theorem Climbing.step (hfenced : Fenced s n) (htracked : Tracked s) (hn : n < u64Max)
    {event : Event} (hcareful : Careful s event) : Climbing (s.step event) ∧ Climbs s (s.step event) := by
  have hrises := (fencedStep hfenced hn event).2.1
  cases event with
  | ensureRunning job =>
    unfold Supervisor.step
    dsimp only
    split
    · exact h.keep rfl rfl h.levels h.above rfl
    · unfold ensureRunning
      dsimp only
      split
      · exact h.keep rfl rfl h.levels h.above rfl
      · exact h.replace job false
  | forceReconnect job mode =>
    unfold Supervisor.step
    dsimp only
    split
    · exact h.keep rfl rfl h.levels h.above rfl
    · cases mode with
      | graceful => exact h.replace job false
      | namespaceRebind =>
        refine h.keep rfl rfl h.levels (fun heq => ?_) rfl
        cases heq
        trivial
  | stop status =>
    unfold Supervisor.step
    dsimp only
    split
    · exact h.keep rfl rfl h.levels h.above rfl
    · refine h.keep rfl rfl h.levels (fun heq => ?_) rfl
      cases heq
      trivial
  | advance =>
    unfold Supervisor.step at hrises ⊢
    dsimp only at hrises ⊢
    split
    · rename_i slot p hslot hp
      rw [hslot, hp] at hrises
      exact h.advance hfenced htracked hp hrises hcareful
    · exact h.keep rfl rfl h.levels h.above rfl
  | actor id reply =>
    unfold Supervisor.step at hrises ⊢
    dsimp only at hrises ⊢
    split
    · exact h.keep rfl rfl h.levels h.above rfl
    · rename_i a hget
      rw [hget] at hrises
      exact h.actor hfenced htracked hget (actorStep_moves hget reply) hrises (hcareful a hget)
  | restart =>
    refine h.keep rfl rfl (fun ha => by cases ha) (fun heq => ?_) rfl
    cases heq

end

end CcSwitchServer.Tunnel
