import CcSwitchServer.Tunnel.Actors

/-! # Generations of a tunnel

Generations go up, and an actor is started with one above all before.
-/

namespace CcSwitchServer.Tunnel
open Foundations Supervisor TunnelTaskSlot

/-- The generation that a pending call works on. -/
def Pending.generation? : Pending → Option ℕ
  | .rebind _ => none
  | .transition change _ => some change.generation
  | .transitionWrite change _ _ => some change.generation
  | .dispose _ generation _ _ => some generation
  | .nextRouterGeneration _ generation => some generation
  | .startingRead _ generation _ _ => some generation
  | .startingWrite _ generation _ _ _ => some generation
  | .stopping _ generation => some generation
  | .stopHandles generation => some generation

/-- The slot knows every generation in use. -/
structure Knows (s : Supervisor) (n : ℕ) (slot : TunnelTaskSlot) : Prop where
  generation_le : slot.generation ≤ slot.desiredGeneration
  desired_le : slot.desiredGeneration ≤ n
  status_le : ∀ {st}, s.status = some st → st.desiredGeneration ≤ slot.desiredGeneration

def Newer (s : Supervisor) (slot : TunnelTaskSlot) (pending : Pending) : Prop :=
  ∀ g, pending.generation? = some g → slot.desiredGeneration = g ∧ ∀ p ∈ s.started, p.2.generation < g

/-- The slot knows the newest generation, and every actor has one that the status has reached; `n` counts the
steps. -/
structure Fenced (s : Supervisor) (n : ℕ) : Prop where
  consistent : ∀ {st}, s.status = some st → st.generation = st.desiredGeneration ∧ st.desiredGeneration ≤ n
  actors : ∀ {id a}, s.actors.get? id = some a → ∃ st, s.status = some st ∧ a.generation ≤ st.desiredGeneration
  started : ∀ p ∈ s.started, ∃ st, s.status = some st ∧ p.2.generation ≤ st.desiredGeneration
  slot : ∀ {slot}, s.slot = some slot → Knows s n slot
  pending : ∀ {p}, s.pending = some p → ∃ slot, s.slot = some slot ∧ Newer s slot p
  empty : s.slot = none → ∀ id, s.actors.get? id = none

/-- What a step does to the status and to the actors ever started. -/
structure Rises (s s' : Supervisor) : Prop where
  status : ∀ {st}, s.status = some st → ∃ st', s'.status = some st' ∧
    st.generation ≤ st'.generation ∧ st.desiredGeneration ≤ st'.desiredGeneration
  started : s'.started = s.started ∨ ∃ p, s'.started = p :: s.started ∧
    ∀ q ∈ s.started, q.2.generation < p.2.generation

def SlotRises (s s' : Supervisor) : Prop :=
  ∀ {slot}, s.slot = some slot → ∃ slot', s'.slot = some slot' ∧
    slot.generation ≤ slot'.generation ∧ slot.desiredGeneration ≤ slot'.desiredGeneration

variable {s s' : Supervisor} {n : ℕ} {slot : TunnelTaskSlot} {job : Job}

theorem Rises.of_eq (hstatus : s'.status = s.status) (hstarted : s'.started = s.started) : Rises s s' where
  status {st} h := ⟨st, hstatus.trans h, le_rfl, le_rfl⟩
  started := .inl hstarted

theorem Fenced.mono (h : Fenced s n) : Fenced s (n + 1) where
  consistent hst := ⟨(h.consistent hst).1, (h.consistent hst).2.trans (Nat.le_succ n)⟩
  actors := h.actors
  started := h.started
  slot hslot := ⟨(h.slot hslot).generation_le, (h.slot hslot).desired_le.trans (Nat.le_succ n),
    (h.slot hslot).status_le⟩
  pending := h.pending
  empty := h.empty

theorem Fenced.keep (h : Fenced s n) (hstatus : s'.status = s.status) (hstarted : s'.started = s.started)
    (hactors : ∀ {id a}, s'.actors.get? id = some a → s.actors.get? id = some a)
    (hslot : s'.slot = some slot) (hknows : Knows s (n + 1) slot)
    (hpending : ∀ {p}, s'.pending = some p → Newer s slot p) : Fenced s' (n + 1) where
  consistent hst := h.mono.consistent (hstatus ▸ hst)
  actors ha := hstatus ▸ h.actors (hactors ha)
  started := by
    intro p hp
    rw [hstarted] at hp
    rw [hstatus]
    exact h.started p hp
  slot := by
    intro slot' hslot'
    rw [hslot] at hslot'
    cases hslot'
    exact ⟨hknows.generation_le, hknows.desired_le, fun hst => hknows.status_le (hstatus ▸ hst)⟩
  pending := by
    intro p hp
    refine ⟨slot, hslot, fun g hg => ?_⟩
    rw [hstarted]
    exact hpending hp g hg
  empty hnone := by
    rw [hslot] at hnone
    cases hnone

theorem Fenced.write (h : Fenced s n) (hslot : s.slot = some slot) {st : TunnelRuntimeStatus}
    (hgen : st.generation = slot.desiredGeneration) (hdes : st.desiredGeneration = slot.desiredGeneration) :
    Fenced (s.setStatus st) n ∧ Rises s (s.setStatus st) := by
  have hknows := h.slot hslot
  have hraise : ∀ {st₀}, s.status = some st₀ → st₀.desiredGeneration ≤ st.desiredGeneration := by
    intro st₀ hst₀
    rw [hdes]
    exact hknows.status_le hst₀
  refine ⟨⟨?_, ?_, ?_, ?_, ?_, h.empty⟩, ⟨?_, .inl rfl⟩⟩
  · intro st' hst'
    cases hst'
    exact ⟨hgen.trans hdes.symm, hdes ▸ hknows.desired_le⟩
  · intro id a ha
    obtain ⟨st₀, hst₀, hle⟩ := h.actors ha
    exact ⟨st, rfl, hle.trans (hraise hst₀)⟩
  · intro p hp
    obtain ⟨st₀, hst₀, hle⟩ := h.started p hp
    exact ⟨st, rfl, hle.trans (hraise hst₀)⟩
  · intro slot' hslot'
    refine ⟨(h.slot hslot').generation_le, (h.slot hslot').desired_le, ?_⟩
    intro st' hst'
    cases hst'
    change s.slot = some slot' at hslot'
    rw [hslot] at hslot'
    cases hslot'
    exact hdes.le
  · intro p hp
    exact h.pending hp
  · intro st₀ hst₀
    refine ⟨st, rfl, ?_, hraise hst₀⟩
    rw [(h.consistent hst₀).1, hgen, ← hdes]
    exact hraise hst₀

theorem knows_slotFor (h : Fenced s n) : Knows s n s.slotFor := by
  unfold slotFor
  cases hslot : s.slot with
  | some slot => exact h.slot hslot
  | none =>
    cases hst : s.status with
    | none => exact ⟨le_rfl, Nat.zero_le n, fun h' => by rw [hst] at h'; cases h'⟩
    | some st =>
      obtain ⟨heq, hle⟩ := h.consistent hst
      refine ⟨le_rfl, ?_, fun h' => ?_⟩
      · dsimp only [Option.map_some, Option.getD_none, Option.getD_some]
        omega
      · rw [hst] at h'
        cases h'
        exact le_max_right _ _

theorem slotFor_of_some (h : s.slot = some slot) : s.slotFor = slot := by
  unfold slotFor
  rw [h]
  rfl

theorem Knows.next (h : Knows s n slot) (hn : n < u64Max) : slot.next = slot.desiredGeneration + 1 := by
  have hle := h.generation_le
  have hdes := h.desired_le
  unfold TunnelTaskSlot.next saturatingAdd
  omega

theorem Knows.newer (h : Knows s n slot) (hfenced : Fenced s n) (hn : n < u64Max) :
    ∀ p ∈ s.started, p.2.generation < slot.next := by
  intro p hp
  obtain ⟨st, hst, hle⟩ := hfenced.started p hp
  have := h.status_le hst
  rw [h.next hn]
  omega

theorem Fenced.replace (h : Fenced s n) (hn : n < u64Max) (hknows : Knows s n slot) (job : Job)
    (rebind : Bool) : Fenced (s.replace slot job rebind) (n + 1) ∧ Rises s (s.replace slot job rebind) ∧
      ∃ slot', (s.replace slot job rebind).slot = some slot' ∧ slot.generation ≤ slot'.generation ∧
        slot.desiredGeneration ≤ slot'.desiredGeneration := by
  have hnext := hknows.next hn
  have hnewer := hknows.newer h hn
  have hle := hknows.generation_le
  have hdes := hknows.desired_le
  have hstatus : ∀ {st}, s.status = some st → st.desiredGeneration ≤ slot.next := by
    intro st hst
    have := hknows.status_le hst
    omega
  unfold Supervisor.replace
  split
  · refine ⟨h.keep rfl rfl id rfl ⟨le_rfl, ?_, hstatus⟩ ?_, .of_eq rfl rfl, _, rfl, ?_, ?_⟩
    · dsimp only [starting]
      omega
    · intro p hp g hg
      cases hp
      cases hg
      exact ⟨rfl, hnewer⟩
    · dsimp only [starting]
      omega
    · dsimp only [starting]
      omega
  · refine ⟨h.keep rfl rfl id rfl ⟨?_, ?_, hstatus⟩ ?_, .of_eq rfl rfl, _, rfl, le_rfl, ?_⟩
    · dsimp only
      omega
    · dsimp only
      omega
    · intro p hp g hg
      cases hp
      cases hg
      exact ⟨rfl, hnewer⟩
    · dsimp only
      omega

/-! ## One step -/

/-- What a step keeps, and what it does. -/
structure FencedStep (s s' : Supervisor) (n : ℕ) : Prop where
  fenced : Fenced s' (n + 1)
  rises : Rises s s'
  slot : SlotRises s s'

theorem SlotRises.of_eq (h : s'.slot = s.slot) : SlotRises s s' := by
  intro slot hslot
  exact ⟨slot, h.trans hslot, le_rfl, le_rfl⟩

theorem SlotRises.of_some {slot' : TunnelTaskSlot} (hslot : s.slot = some slot) (hslot' : s'.slot = some slot')
    (hgen : slot.generation ≤ slot'.generation) (hdes : slot.desiredGeneration ≤ slot'.desiredGeneration) :
    SlotRises s s' := by
  intro slot₀ h₀
  rw [hslot] at h₀
  cases h₀
  exact ⟨slot', hslot', hgen, hdes⟩

theorem SlotRises.of_slotFor {slot' : TunnelTaskSlot} (hslot' : s'.slot = some slot')
    (hgen : s.slotFor.generation ≤ slot'.generation)
    (hdes : s.slotFor.desiredGeneration ≤ slot'.desiredGeneration) : SlotRises s s' := by
  intro slot hslot
  rw [slotFor_of_some hslot] at hgen hdes
  exact ⟨slot', hslot', hgen, hdes⟩

theorem FencedStep.refl (h : Fenced s n) : FencedStep s s n := ⟨h.mono, .of_eq rfl rfl, SlotRises.of_eq rfl⟩

theorem FencedStep.keep (h : Fenced s n) (hslot : s.slot = some slot) (hstatus : s'.status = s.status)
    (hstarted : s'.started = s.started)
    (hactors : ∀ {id a}, s'.actors.get? id = some a → s.actors.get? id = some a) {slot' : TunnelTaskSlot}
    (hslot' : s'.slot = some slot') (hgen : slot.generation ≤ slot'.generation)
    (hle : slot'.generation ≤ slot'.desiredGeneration) (hdes : slot'.desiredGeneration = slot.desiredGeneration)
    (hpending : ∀ {p}, s'.pending = some p → Newer s slot' p) : FencedStep s s' n := by
  have hknows := h.slot hslot
  refine ⟨h.keep hstatus hstarted hactors hslot' ⟨hle, ?_, fun hst => ?_⟩ hpending, .of_eq hstatus hstarted,
    SlotRises.of_some hslot hslot' hgen hdes.ge⟩
  · exact hdes ▸ hknows.desired_le.trans (Nat.le_succ n)
  · exact hdes ▸ hknows.status_le hst

theorem actors_abort {handle id : ℕ} {a : Actor} (h : (s.abort handle).actors.get? id = some a) :
    s.actors.get? id = some a :=
  (get?_abort h).2

section
variable (h : Fenced s n)
include h

theorem FencedStep.abortRetiring (hslot : s.slot = some slot)
    (heq : s.abortRetiring slot = some s') : FencedStep s s' n := by
  unfold Supervisor.abortRetiring at heq
  split at heq
  · cases heq
  · cases heq
    refine .keep h hslot rfl rfl actors_abort rfl le_rfl (h.slot hslot).generation_le rfl ?_
    intro p hp g hg
    obtain ⟨slot', hslot', hnewer⟩ := h.pending hp
    rw [hslot] at hslot'
    cases hslot'
    exact hnewer g hg

theorem FencedStep.replace (hn : n < u64Max) (hknows : Knows s n slot) (job : Job)
    (rebind : Bool) (hgen : s.slotFor.generation ≤ slot.generation)
    (hdes : s.slotFor.desiredGeneration ≤ slot.desiredGeneration) :
    FencedStep s (s.replace slot job rebind) n := by
  obtain ⟨hfenced, hrises, slot', hslot', hgen', hdes'⟩ := h.replace hn hknows job rebind
  exact ⟨hfenced, hrises, SlotRises.of_slotFor hslot' (hgen.trans hgen') (hdes.trans hdes')⟩

theorem FencedStep.advance (hn : n < u64Max) (hslot : s.slot = some slot) {p : Pending}
    (hp : s.pending = some p) : FencedStep s (s.advance slot p) n := by
  have hknows := h.slot hslot
  obtain ⟨slot₀, hslot₀, hnewer⟩ := h.pending hp
  rw [hslot] at hslot₀
  cases hslot₀
  have hgo : ∀ {p' : Pending}, p'.generation? = p.generation? → FencedStep s { s with pending := some p' } n := by
    intro p' hg'
    refine .keep h hslot rfl rfl id hslot le_rfl hknows.generation_le rfl ?_
    intro p'' hp'' g hg
    cases hp''
    exact hnewer g (hg' ▸ hg)
  cases p with
  | rebind job =>
    unfold Supervisor.advance
    cases habort : s.abortRetiring slot with
    | some s' => exact .abortRetiring h hslot habort
    | none =>
      refine .replace h hn hknows job true ?_ ?_
      · rw [slotFor_of_some hslot]
      · rw [slotFor_of_some hslot]
  | transition change next => exact hgo rfl
  | transitionWrite change current next =>
    obtain ⟨heq, hbelow⟩ := hnewer _ rfl
    obtain ⟨hfenced, hrises⟩ := @Fenced.write s n slot h hslot (transitionStatus change current) heq.symm heq.symm
    unfold Supervisor.advance
    dsimp only
    split
    · rename_i job handle rebind
      refine ⟨hfenced.keep rfl rfl id hslot (hfenced.mono.slot hslot) ?_,
        ⟨hrises.status, hrises.started⟩, fun h₀ => ⟨_, h₀, le_rfl, le_rfl⟩⟩
      intro p' hp' g hg
      cases hp'
      cases hg
      exact ⟨heq, hbelow⟩
    · refine ⟨hfenced.keep rfl rfl id hslot (hfenced.mono.slot hslot) ?_,
        ⟨hrises.status, hrises.started⟩, fun h₀ => ⟨_, h₀, le_rfl, le_rfl⟩⟩
      intro p' hp' g hg
      cases hp'
      cases hg
      exact ⟨heq, hbelow⟩
  | dispose job generation handle rebind =>
    obtain ⟨heq, hbelow⟩ := hnewer _ rfl
    have hgen := hknows.generation_le
    have hpending : ∀ {slot' : TunnelTaskSlot} {p' : Pending}, slot'.desiredGeneration = generation →
        some (Pending.nextRouterGeneration job generation) = some p' → Newer s slot' p' := by
      intro slot' p' hdes hp' g hg
      cases hp'
      cases hg
      exact ⟨hdes, hbelow⟩
    unfold Supervisor.advance
    dsimp only
    split
    · exact .keep h hslot rfl rfl id rfl (heq ▸ hgen) le_rfl heq.symm (hpending rfl)
    · split
      · exact .keep h hslot rfl rfl actors_abort rfl (heq ▸ hgen) le_rfl heq.symm (hpending rfl)
      · exact .keep h hslot rfl rfl id rfl (heq ▸ hgen) le_rfl heq.symm (hpending rfl)
  | nextRouterGeneration job generation => exact hgo rfl
  | startingRead job generation routerGeneration routerActiveGeneration => exact hgo rfl
  | startingWrite job generation routerGeneration routerActiveGeneration current =>
    obtain ⟨heq, hbelow⟩ := hnewer _ rfl
    obtain ⟨hfenced, hrises⟩ :=
      @Fenced.write s n slot h hslot (startingStatus job generation current) heq.symm heq.symm
    have hknows' := hfenced.mono.slot hslot
    refine ⟨⟨hfenced.mono.consistent, ?_, ?_, ?_, ?_, ?_⟩, ⟨hrises.status, .inr ⟨_, rfl, hbelow⟩⟩,
      @SlotRises.of_some _ _ slot { slot with handle := some s.nextActor } hslot rfl le_rfl le_rfl⟩
    · intro id a ha
      rcases get?_put ha with ⟨-, rfl⟩ | ⟨-, hold⟩
      · exact ⟨_, rfl, le_rfl⟩
      · exact hfenced.actors hold
    · intro q hq
      rcases List.mem_cons.mp hq with rfl | hold
      · exact ⟨_, rfl, le_rfl⟩
      · exact hfenced.started q hold
    · intro slot' hslot'
      cases hslot'
      exact ⟨hknows'.generation_le, hknows'.desired_le, hknows'.status_le⟩
    · intro p' hp'
      cases hp'
    · intro hnone
      cases hnone
  | stopping status generation => exact hgo rfl
  | stopHandles generation =>
    obtain ⟨heq, hbelow⟩ := hnewer _ rfl
    have hgen := hknows.generation_le
    unfold Supervisor.advance
    dsimp only
    split
    · refine .keep h hslot rfl rfl actors_abort rfl le_rfl hgen rfl ?_
      intro p' hp' g hg
      change s.pending = some p' at hp'
      rw [hp] at hp'
      cases hp'
      exact hnewer g hg
    · cases habort : s.abortRetiring slot with
      | some s' => exact .abortRetiring h hslot habort
      | none =>
        refine .keep h hslot rfl rfl id rfl (heq ▸ hgen) heq.ge rfl ?_
        intro p' hp'
        cases hp'

theorem FencedStep.actor {id : ℕ} {a : Actor} (hget : s.actors.get? id = some a)
    (hm : ActorMoves s s' id a) : FencedStep s s' n := by
  have hcurrent : ∀ {st}, s.status = some st → ∃ st', s'.status = some st' ∧
      st.generation ≤ st'.generation ∧ st.desiredGeneration ≤ st'.desiredGeneration ∧
      st'.generation = st'.desiredGeneration ∧ st'.desiredGeneration = st.desiredGeneration := by
    intro st hst
    rcases hm.status with ⟨heq, -⟩ | ⟨hstale, st', hst', -, hwrote, -⟩
    · exact ⟨st, heq.trans hst, le_rfl, le_rfl, (h.consistent hst).1, rfl⟩
    · have hdes : st.desiredGeneration = a.generation := by
        unfold stale at hstale
        rw [hst] at hstale
        simpa using hstale
      have hgen := (h.consistent hst).1
      have := hwrote.generation
      have := hwrote.desired
      exact ⟨st', hst', by omega, by omega, by omega, by omega⟩
  obtain ⟨st, hst, hle⟩ := h.actors hget
  obtain ⟨st', hst', hgen, hdes, hconsistent, hsame⟩ := hcurrent hst
  refine ⟨⟨?_, ?_, ?_, ?_, ?_, ?_⟩, ⟨fun h₀ => ?_, .inl hm.started⟩, SlotRises.of_eq hm.slot⟩
  · intro st₁ hst₁
    rw [hst'] at hst₁
    cases hst₁
    have := (h.consistent hst).2
    exact ⟨hconsistent, by omega⟩
  · intro k b hb
    refine ⟨st', hst', ?_⟩
    rcases hm.actors hb with ⟨-, hcont⟩ | ⟨-, hold⟩
    · have := hcont.generation
      omega
    · obtain ⟨st₁, hst₁, hle₁⟩ := h.actors hold
      rw [hst] at hst₁
      cases hst₁
      omega
  · intro p hp
    rw [hm.started] at hp
    obtain ⟨st₁, hst₁, hle₁⟩ := h.started p hp
    rw [hst] at hst₁
    cases hst₁
    exact ⟨st', hst', by omega⟩
  · intro slot hslot
    rw [hm.slot] at hslot
    have hknows := h.mono.slot hslot
    refine ⟨hknows.generation_le, hknows.desired_le, fun h₁ => ?_⟩
    rw [hst'] at h₁
    cases h₁
    have := hknows.status_le hst
    omega
  · intro p hp
    rw [hm.pending] at hp
    obtain ⟨slot, hslot, hnewer⟩ := h.pending hp
    refine ⟨slot, hm.slot.trans hslot, ?_⟩
    unfold Newer
    rw [hm.started]
    exact hnewer
  · intro hnone k
    rw [hm.slot] at hnone
    have := h.empty hnone id
    rw [hget] at this
    cases this
  · obtain ⟨st₁, hst₁, hgen₁, hdes₁, -⟩ := hcurrent h₀
    exact ⟨st₁, hst₁, hgen₁, hdes₁⟩

theorem Fenced.retained : Knows s n s.retained :=
  ⟨(knows_slotFor h).generation_le, (knows_slotFor h).desired_le, (knows_slotFor h).status_le⟩

theorem FencedStep.fill (hpending : s'.pending = none ∨ ∃ job, s'.pending = some (.rebind job))
    (hslot : s'.slot = some s.retained) (hstatus : s'.status = s.status) (hstarted : s'.started = s.started)
    (hactors : s'.actors = s.actors) : FencedStep s s' n := by
  have hknows := h.retained
  refine ⟨h.keep hstatus hstarted (fun {id a} ha => hactors ▸ ha) hslot ⟨hknows.generation_le,
    hknows.desired_le.trans (Nat.le_succ n), hknows.status_le⟩ ?_, .of_eq hstatus hstarted,
    SlotRises.of_slotFor hslot le_rfl le_rfl⟩
  intro p hp g hg
  rcases hpending with hnone | ⟨job, hrebind⟩
  · rw [hnone] at hp
    cases hp
  · rw [hrebind] at hp
    cases hp
    cases hg

/-- Every step keeps the fence, in a run shorter than the generations are wide. -/
theorem fencedStep (hn : n < u64Max) (event : Event) :
    Fenced (s.step event) (n + 1) ∧ Rises s (s.step event) ∧ (event ≠ .restart → SlotRises s (s.step event)) := by
  have hall : ∀ {s' : Supervisor}, FencedStep s s' n → Fenced s' (n + 1) ∧ Rises s s' ∧
      (event ≠ .restart → SlotRises s s') := fun hs => ⟨hs.fenced, hs.rises, fun _ => hs.slot⟩
  cases event with
  | ensureRunning job =>
    refine hall ?_
    unfold step
    dsimp only
    split
    · exact .refl h
    · rename_i hnone
      rw [Option.not_isSome_iff_eq_none] at hnone
      unfold ensureRunning
      dsimp only
      split
      · exact .fill h (.inl hnone) rfl rfl rfl rfl
      · exact .replace h hn h.retained job false le_rfl le_rfl
  | forceReconnect job mode =>
    refine hall ?_
    unfold step
    dsimp only
    split
    · exact .refl h
    · cases mode with
      | graceful => exact .replace h hn h.retained job false le_rfl le_rfl
      | namespaceRebind => exact .fill h (.inr ⟨job, rfl⟩) rfl rfl rfl rfl
  | stop status =>
    refine hall ?_
    unfold step
    dsimp only
    split
    · exact .refl h
    · have hknows := knows_slotFor h
      have hnext := hknows.next hn
      have hgen := hknows.generation_le
      have hdes := hknows.desired_le
      have hrises : SlotRises s (s.stop status) :=
        @SlotRises.of_slotFor _ _ { s.slotFor with desiredGeneration := s.slotFor.next } rfl le_rfl
          (by dsimp only; omega)
      refine ⟨h.keep rfl rfl id rfl ⟨?_, ?_, fun hst => ?_⟩ ?_, .of_eq rfl rfl, hrises⟩
      · dsimp only
        omega
      · dsimp only
        omega
      · have := hknows.status_le hst
        dsimp only
        omega
      · intro p hp g hg
        cases hp
        cases hg
        exact ⟨rfl, hknows.newer h hn⟩
  | advance =>
    refine hall ?_
    unfold step
    dsimp only
    split
    · rename_i slot p hslot hp
      exact .advance h hn hslot hp
    · exact .refl h
  | actor id reply =>
    refine hall ?_
    unfold step
    dsimp only
    split
    · exact .refl h
    · rename_i a hget
      exact .actor h hget (actorStep_moves hget reply)
  | restart =>
    refine ⟨⟨h.mono.consistent, ?_, h.started, ?_, ?_, fun _ _ => rfl⟩, .of_eq rfl rfl, fun hne => absurd rfl hne⟩
    · intro id a ha
      cases ha
    · intro slot hslot
      cases hslot
    · intro p hp
      cases hp

end

end CcSwitchServer.Tunnel
