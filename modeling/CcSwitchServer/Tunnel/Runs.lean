import CcSwitchServer.Tunnel.Climbing

/-! # Runs of a tunnel

What holds in every run that is shorter than the generations are wide.
-/

namespace CcSwitchServer.Tunnel
open Foundations Supervisor List

variable (pre : List Event)

def reached : Supervisor := run step {} pre

/-- What an actor's section does to the status. -/
def WritesDesired (s s' : Supervisor) (id : ℕ) : Prop :=
  s'.status = s.status ∧ s'.history = s.history ∨
    ∃ a st, s.actors.get? id = some a ∧ s.stale a.generation = false ∧ s'.status = some st ∧
      s'.history = st :: s.history ∧ st.generation = a.generation ∧ st.desiredGeneration = a.generation

/-- Generations go up, and only a restart may lose what the slot knew and the status did not. -/
structure GenerationsFenced (s : Supervisor) (event : Event) : Prop where
  rises : Rises s (s.step event)
  slot : event ≠ .restart → SlotRises s (s.step event)
  writes : ∀ {id reply}, event = .actor id reply → WritesDesired s (s.step event) id

/-- The first request of an actor carries the generation that it was started with. -/
def FirstRequest (s s' : Supervisor) : Prop :=
  ∀ r, s'.requests = r :: s.requests → (∀ q ∈ s.requests, q.actor ≠ r.actor) →
    ∃ b, (r.actor, b) ∈ s.started ∧ r.generation = b.routerGeneration

/-- The recorded router generation climbs at every step of the run, and first requests are above it. -/
def RouterGenerationsClimb (events : List Event) : Prop :=
  ∀ pre event post, events = pre ++ event :: post →
    Climbs (reached pre) ((reached pre).step event) ∧ FirstRequest (reached pre) ((reached pre).step event)

instance (s : Supervisor) (event : Event) : Decidable (Careful s event) := by
  unfold Careful
  cases event with
  | actor => infer_instance
  | advance =>
    dsimp only
    split <;> infer_instance
  | _ => exact inferInstanceAs (Decidable True)

variable {s s' : Supervisor} {n : ℕ}

theorem writesDesired_step (s : Supervisor) (id : ℕ) (reply : Reply) :
    WritesDesired s (s.step (.actor id reply)) id := by
  unfold step
  dsimp only
  split
  · exact .inl ⟨rfl, rfl⟩
  · rename_i a hget
    rcases (actorStep_moves hget reply).status with hsame | ⟨hstale, st, hst, hhistory, hwrote, -⟩
    · exact .inl hsame
    · exact .inr ⟨a, st, hget, hstale, hst, hhistory, hwrote.generation, hwrote.desired⟩

theorem requests_advance (slot : TunnelTaskSlot) (p : Pending) : (s.advance slot p).requests = s.requests := by
  have hreplace : ∀ job rebind, (s.replace slot job rebind).requests = s.requests := by
    intro job rebind
    unfold Supervisor.replace
    split <;> rfl
  have habort : ∀ {s'}, s.abortRetiring slot = some s' → s'.requests = s.requests := by
    intro s' heq
    unfold abortRetiring at heq
    split at heq
    · cases heq
    · cases heq
      rfl
  cases p with
  | rebind job =>
    unfold advance
    cases heq : s.abortRetiring slot with
    | some s' => exact habort heq
    | none => exact hreplace job true
  | transitionWrite change current next => cases next <;> rfl
  | dispose job generation handle rebind =>
    unfold advance
    dsimp only
    split
    · rfl
    · split <;> rfl
  | stopHandles generation =>
    unfold advance
    dsimp only
    split
    · rfl
    · cases heq : s.abortRetiring slot with
      | some s' => exact habort heq
      | none => rfl
  | _ => rfl

theorem requests_step {event : Event} (h : ∀ id reply, event ≠ .actor id reply) :
    (s.step event).requests = s.requests := by
  have hreplace : ∀ slot job, (s.replace slot job false).requests = s.requests := by
    intro slot job
    unfold Supervisor.replace
    split <;> rfl
  cases event with
  | ensureRunning job =>
    unfold step
    dsimp only
    split
    · rfl
    · unfold ensureRunning
      dsimp only
      split
      · rfl
      · exact hreplace s.retained job
  | forceReconnect job mode =>
    unfold step
    dsimp only
    split
    · rfl
    · cases mode with
      | graceful => exact hreplace s.retained job
      | namespaceRebind => rfl
  | stop status =>
    unfold step
    dsimp only
    split <;> rfl
  | advance =>
    unfold step
    dsimp only
    split
    · exact requests_advance _ _
    · rfl
  | actor id reply => exact absurd rfl (h id reply)
  | restart => rfl

theorem firstRequest_step (h : Tracked s) (event : Event) : FirstRequest s (s.step event) := by
  intro r hr hnone
  by_cases hactor : ∃ id reply, event = .actor id reply
  · obtain ⟨id, reply, rfl⟩ := hactor
    unfold step at hr
    dsimp only at hr
    cases hget : s.actors.get? id with
    | none =>
      rw [hget] at hr
      exact absurd hr.symm (cons_ne_self _ _)
    | some a =>
      rw [hget] at hr
      rcases (actorStep_moves hget reply).requests with ⟨-, heq⟩ | ⟨-, heq⟩
      · have hsame := (cons.inj (heq.symm.trans hr)).1
        subst hsame
        obtain ⟨b, hmem, -, hfirst⟩ := h.origin hget
        exact ⟨b, hmem, (hfirst hnone).2⟩
      · exact absurd (heq.symm.trans hr).symm (cons_ne_self _ _)
  · have hsame := @requests_step s event fun id reply heq => hactor ⟨id, reply, heq⟩
    exact absurd (hsame.symm.trans hr).symm (cons_ne_self _ _)

theorem Fenced.initial : Fenced {} 0 := by
  refine ⟨fun h => ?_, fun h => ?_, fun p hp => ?_, fun h => ?_, fun h => ?_, fun _ _ => rfl⟩
  · cases h
  · cases h
  · cases hp
  · cases h
  · cases h

theorem Tracked.initial : Tracked {} := by
  refine ⟨fun h => ?_, fun h => ?_, fun h => ?_, fun h => ?_, fun h => ?_, fun p hp => ?_, .nil⟩
  · cases h
  · cases h
  · cases h
  · cases h
  · cases h
  · cases hp

theorem Climbing.initial : Climbing {} := by
  refine ⟨.nil, fun st hst => ?_, fun h => ?_, fun h => ?_⟩
  · cases hst
  · cases h
  · cases h

theorem fenced_reached (hlen : pre.length ≤ u64Max) : Fenced (reached pre) pre.length := by
  induction pre using reverseRecOn with
  | nil => exact .initial
  | append_singleton pre event ih =>
    rw [length_append] at hlen ⊢
    have hlt : pre.length < u64Max := hlen
    unfold reached
    rw [run_append_singleton]
    exact (fencedStep (ih hlt.le) hlt event).1

theorem tracked_reached : Tracked (reached pre) :=
  @run_invariant _ _ step Tracked (fun _ _ => True) (fun _ event h _ => h.step event) _ pre .initial
    (.of_forall (fun _ _ => trivial) _ pre)

theorem climbing_reached (hlen : pre.length ≤ u64Max)
    (hcareful : EachStep step Careful {} pre) : Climbing (reached pre) := by
  induction pre using reverseRecOn with
  | nil => exact .initial
  | append_singleton pre event ih =>
    rw [length_append] at hlen
    have hlt : pre.length < u64Max := hlen
    obtain ⟨hpre, hevent, -⟩ := hcareful.split
    unfold reached
    rw [run_append_singleton]
    exact ((ih hlt.le hpre).step (fenced_reached pre hlt.le) (tracked_reached pre) hlt hevent).1

/-- The run theorem: fencing without a condition, and the router generation in a run of careful steps. -/
theorem tunnel_generations (events : List Event) (hlen : events.length ≤ u64Max) :
    (∀ pre event post, events = pre ++ event :: post → GenerationsFenced (reached pre) event) ∧
      (EachStep step Careful {} events → RouterGenerationsClimb events) := by
  have hsplit : ∀ {pre event post}, events = pre ++ event :: post → pre.length < u64Max := by
    intro pre event post heq
    rw [heq, length_append, length_cons] at hlen
    omega
  refine ⟨fun pre event post heq => ?_, fun hcareful pre event post heq => ?_⟩
  · have hlt := hsplit heq
    obtain ⟨-, hrises, hslot⟩ := fencedStep (fenced_reached pre hlt.le) hlt event
    refine ⟨hrises, hslot, ?_⟩
    rintro id reply rfl
    exact writesDesired_step _ id reply
  · have hlt := hsplit heq
    subst heq
    obtain ⟨hpre, hevent, -⟩ := hcareful.split
    have hclimbing := climbing_reached pre hlt.le hpre
    exact ⟨(hclimbing.step (fenced_reached pre hlt.le) (tracked_reached pre) hlt hevent).2,
      firstRequest_step (tracked_reached pre) event⟩

/-- Every actor is in the slot, retires, or is held by the call that is on; once a stop is through, none is left. -/
theorem no_actor_orphaned (events : List Event) :
    (∀ id a, (reached events).actors.get? id = some a → ∃ slot, (reached events).slot = some slot ∧
      (slot.handle = some id ∨ id ∈ slot.retiringHandles ∨
        ∃ p, (reached events).pending = some p ∧ p.handle? = some id)) ∧
    ∀ slot, (reached events).slot = some slot → (reached events).pending = none → slot.handle = none →
      ∀ id, (reached events).actors.get? id = none := by
  have h := tracked_reached events
  refine ⟨fun _ _ => h.actors, fun slot hslot hpending hnone id => Option.eq_none_iff_forall_ne_some.mpr fun a ha => ?_⟩
  obtain ⟨_, hsame, hwhere⟩ := h.actors ha
  cases hslot.symm.trans hsame
  rw [h.idle hslot (hpending ▸ trivial) hnone, hnone, hpending] at hwhere
  simp at hwhere

/-! ## Runs that lose the router generation -/

def someJob : Job := ⟨"share", "startup", "spec"⟩

def disconnected : List Event :=
  [.ensureRunning someJob, .advance, .advance, .advance, .actor 0 .proceed, .actor 0 .proceed,
    .actor 0 (.lease 0), .actor 0 .proceed, .actor 0 .activated, .actor 0 .proceed, .actor 0 .forwardEnded,
    .actor 0 .proceed, .actor 0 .proceed, .actor 0 .proceed]

def replaced (answer : List Event) : List Event :=
  .actor 0 .proceed :: answer ++
    [.forceReconnect someJob .graceful, .advance, .advance, .advance, .advance, .advance, .advance,
      .actor 1 .proceed, .actor 1 .proceed]

def timedOut : List Event := replaced [.actor 0 .leaseTimeout, .actor 0 .proceed]

def overtaken : List Event := [.forceReconnect someJob .graceful, .advance, .actor 0 .proceed, .advance]

theorem tunnel_generations_replaced :
    (disconnected ++ replaced []).length ≤ u64Max ∧
      EachStep step Careful {} (disconnected ++ replaced []) ∧
      RouterGenerationsClimb (disconnected ++ replaced []) ∧
      ((reached (disconnected ++ replaced [])).requests.map fun r => (r.actor, r.generation)) =
        [(1, 3), (0, 2), (0, 1)] := by
  have hlen : (disconnected ++ replaced []).length ≤ u64Max := by decide
  have hcareful : EachStep step Careful {} (disconnected ++ replaced []) := by
    unfold disconnected replaced
    simp only [cons_append, nil_append, EachStep]
    decide
  exact ⟨hlen, hcareful, (tunnel_generations _ hlen).2 hcareful, by decide⟩

/-- The status of a lease timeout has no router generation: the recorded one falls to zero, and the next
actor starts below it. A transition is written over a status that the actor has raised since it was read. -/
theorem router_generation_falls :
    (disconnected ++ timedOut).length ≤ u64Max ∧ (disconnected ++ overtaken).length ≤ u64Max ∧
      ¬RouterGenerationsClimb (disconnected ++ timedOut) ∧ ¬RouterGenerationsClimb (disconnected ++ overtaken) ∧
      ((reached (disconnected ++ timedOut)).requests.map fun r => (r.actor, r.generation)) =
        [(1, 1), (0, 2), (0, 1)] := by
  refine ⟨by decide, by decide, fun h => ?_, fun h => ?_, by decide⟩
  · have hfalls := (h (disconnected ++ [.actor 0 .proceed, .actor 0 .leaseTimeout]) (.actor 0 .proceed) _ rfl).1.recorded
    revert hfalls
    decide
  · have hfalls := (h (disconnected ++ [.forceReconnect someJob .graceful, .advance, .actor 0 .proceed])
      .advance [] rfl).1.recorded
    revert hfalls
    decide

end CcSwitchServer.Tunnel
