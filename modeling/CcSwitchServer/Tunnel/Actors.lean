import CcSwitchServer.Tunnel.Supervisor

/-! # What an actor's section can do

The inversion of `actorStep`.
-/

namespace CcSwitchServer.Tunnel
open Foundations Supervisor Actor

/-! ## Generations after a lease error -/

theorem le_nextRouterGenerationAfterLeaseError (message : String) {n : ℕ} (hn : n ≤ u64Max) :
    n ≤ nextRouterGenerationAfterLeaseError message n ∧ nextRouterGenerationAfterLeaseError message n ≤ u64Max := by
  unfold nextRouterGenerationAfterLeaseError saturatingAdd
  have hone : 1 ≤ u64Max := by decide
  split <;> omega

theorem le_syncRouterGenerationsAfterLeaseError (message : String) {n : ℕ} (active : ℕ) (hn : n ≤ u64Max) :
    n ≤ (syncRouterGenerationsAfterLeaseError message n active).1 ∧
      (syncRouterGenerationsAfterLeaseError message n active).1 ≤ u64Max := by
  unfold syncRouterGenerationsAfterLeaseError
  split
  · unfold saturatingAdd
    omega
  · split
    · exact le_nextRouterGenerationAfterLeaseError message hn
    · exact ⟨le_rfl, hn⟩

/-! ## Sections -/

def Phase.lease? : Phase → Option NamespaceLease
  | .connecting lease | .attached lease | .activated lease | .forwarding lease | .renewing lease
  | .renewal lease | .renewed lease | .ended lease => some lease
  | .renewalFailed lease _ | .replaceRequired lease _ | .replacing lease _ | .fatalConfiguration lease _
  | .failed lease _ => some lease
  | _ => none

/-- The router generation that the actor writes next. -/
def Actor.floor (a : Actor) : ℕ :=
  match a.phase.lease? with
  | some lease => lease.generation
  | none => a.routerGeneration

structure Actor.Level (a : Actor) : Prop where
  floor_le : a.floor ≤ a.routerGeneration
  le_max : a.routerGeneration ≤ u64Max

/-- How an actor goes on. -/
structure Actor.Continues (a b : Actor) : Prop where
  generation : b.generation = a.generation
  level : a.Level → b.Level ∧ a.floor ≤ b.floor
  first : a.phase = .top → b.phase = .leasing ∧ b.routerGeneration = a.routerGeneration

structure Wrote (a : Actor) (status : TunnelRuntimeStatus) : Prop where
  generation : status.generation = a.generation
  desired : status.desiredGeneration = a.generation
  level : a.phase ≠ .leaseTimedOut → a.floor ≤ status.routerGeneration

variable {s s' : Supervisor} {id : ℕ} {a b : Actor}

structure ActorKeeps (s s' : Supervisor) (id : ℕ) (a : Actor) : Prop where
  slot : s'.slot = s.slot
  pending : s'.pending = s.pending
  started : s'.started = s.started
  nextActor : s'.nextActor = s.nextActor
  status : s'.status = s.status ∧ s'.history = s.history ∨
    s.stale a.generation = false ∧ ∃ status, s'.status = some status ∧
      s'.history = status :: s.history ∧ Wrote a status ∧
      ∀ b, s'.actors.get? id = some b → a.phase ≠ .leaseTimedOut → a.Level → status.routerGeneration ≤ b.floor
  actors : ∀ {k b}, s'.actors.get? k = some b → k = id ∧ a.Continues b ∨ k ≠ id ∧ s.actors.get? k = some b

/-- An actor goes on with its own generation, and its write takes effect only while that is the desired one. -/
structure ActorMoves (s s' : Supervisor) (id : ℕ) (a : Actor) : Prop extends ActorKeeps s s' id a where
  requests : a.phase = .leasing ∧ s'.requests = ⟨id, a.routerGeneration, a.routerActiveGeneration⟩ :: s.requests ∨
    a.phase ≠ .leasing ∧ s'.requests = s.requests

theorem get?_put {k : ℕ} (h : (s.put id a).actors.get? k = some b) :
    k = id ∧ b = a ∨ k ≠ id ∧ s.actors.get? k = some b := by
  unfold put at h
  rw [OrderedMap.get?_insert] at h
  split at h
  · rename_i heq
    exact .inl ⟨heq.symm, (Option.some.inj h).symm⟩
  · rename_i hne
    exact .inr ⟨fun heq => hne heq.symm, h⟩

theorem get?_abort {k handle : ℕ} (h : (s.abort handle).actors.get? k = some b) :
    k ≠ handle ∧ s.actors.get? k = some b := by
  unfold abort at h
  rw [OrderedMap.get?_erase] at h
  split at h
  · cases h
  · rename_i hne
    exact ⟨fun heq => hne heq.symm, h⟩

theorem ActorKeeps.put (hcont : a.Continues b) : ActorKeeps s (s.put id b) id a where
  slot := rfl
  pending := rfl
  started := rfl
  nextActor := rfl
  status := .inl ⟨rfl, rfl⟩
  actors h := by
    rcases get?_put h with ⟨hk, rfl⟩ | hold
    · exact .inl ⟨hk, hcont⟩
    · exact .inr hold

theorem ActorMoves.put (hcont : a.Continues b) (hphase : a.phase ≠ .leasing) : ActorMoves s (s.put id b) id a where
  toActorKeeps := .put hcont
  requests := .inr ⟨hphase, rfl⟩

theorem ActorMoves.abort (hphase : a.phase ≠ .leasing) : ActorMoves s (s.abort id) id a where
  slot := rfl
  pending := rfl
  started := rfl
  nextActor := rfl
  status := .inl ⟨rfl, rfl⟩
  actors h := .inr (get?_abort h)
  requests := .inr ⟨hphase, rfl⟩

theorem ActorMoves.stay (hget : s.actors.get? id = some a) (hcont : a.Continues a)
    (hphase : a.phase ≠ .leasing) : ActorMoves s s id a where
  slot := rfl
  pending := rfl
  started := rfl
  nextActor := rfl
  status := .inl ⟨rfl, rfl⟩
  actors := by
    intro k b h
    by_cases hk : k = id
    · subst hk
      rw [hget] at h
      cases h
      exact .inl ⟨rfl, hcont⟩
    · exact .inr ⟨hk, h⟩
  requests := .inr ⟨hphase, rfl⟩

theorem setStatusForGeneration_cases (s : Supervisor) (status : TunnelRuntimeStatus) :
    s.setStatusForGeneration status = (false, s) ∧ s.stale status.generation = true ∨
      s.setStatusForGeneration status = (true, s.setStatus status) ∧ s.stale status.generation = false := by
  unfold setStatusForGeneration
  cases h : s.stale status.generation with
  | true => exact .inl ⟨rfl, rfl⟩
  | false => exact .inr ⟨rfl, rfl⟩

theorem ActorKeeps.write {status : TunnelRuntimeStatus} (hwrote : Wrote a status) (hcont : a.Continues b)
    (hlevel : a.phase ≠ .leaseTimedOut → a.Level → status.routerGeneration ≤ b.floor) :
    ActorKeeps s ((s.setStatusForGeneration status).2.put id b) id a := by
  rcases setStatusForGeneration_cases s status with ⟨heq, _⟩ | ⟨heq, hstale⟩
  · rw [heq]
    exact .put hcont
  · rw [heq]
    rw [hwrote.generation] at hstale
    refine ⟨rfl, rfl, rfl, rfl, .inr ⟨hstale, status, rfl, rfl, hwrote, fun b' hb' => ?_⟩, ?_⟩
    · rcases get?_put hb' with ⟨_, rfl⟩ | ⟨hne, _⟩
      · exact hlevel
      · exact absurd rfl hne
    · intro k b' h
      rcases get?_put h with ⟨hk, rfl⟩ | hold
      · exact .inl ⟨hk, hcont⟩
      · exact .inr hold

theorem requests_setStatusForGeneration (status : TunnelRuntimeStatus) :
    (s.setStatusForGeneration status).2.requests = s.requests := by
  unfold setStatusForGeneration
  split <;> rfl

theorem ActorMoves.write {status : TunnelRuntimeStatus} (hwrote : Wrote a status) (hcont : a.Continues b)
    (hlevel : a.phase ≠ .leaseTimedOut → a.Level → status.routerGeneration ≤ b.floor) (hphase : a.phase ≠ .leasing) :
    ActorMoves s ((s.setStatusForGeneration status).2.put id b) id a where
  toActorKeeps := .write hwrote hcont hlevel
  requests := .inr ⟨hphase, requests_setStatusForGeneration status⟩

theorem wrote_status (text : String) (error : Option String) (active : ℕ) (hfloor : a.floor = a.routerGeneration) :
    Wrote a (a.status text error a.routerGeneration active) :=
  ⟨rfl, rfl, fun _ => hfloor.le⟩

theorem wrote_statusFromLease (text : String) {lease : NamespaceLease} (error : Option String)
    (transportState : TransportState) (hlease : a.phase.lease? = some lease) :
    Wrote a (a.statusFromLease text lease error transportState) := by
  refine ⟨rfl, rfl, fun _ => ?_⟩
  rw [floor, hlease]
  exact le_rfl

theorem Actor.Continues.phase {phase : Phase} (hfirst : a.phase = .top → phase = .leasing)
    (hlease : phase.lease? = a.phase.lease? ∨ phase.lease? = none) :
    a.Continues { a with phase := phase } where
  generation := rfl
  level h := by
    have hle := h.floor_le
    rcases hlease with heq | hnone
    · have hfloor : floor { a with phase := phase } = a.floor := by
        unfold floor
        rw [heq]
      exact ⟨⟨hfloor ▸ hle, h.le_max⟩, hfloor.ge⟩
    · have hfloor : floor { a with phase := phase } = a.routerGeneration := by
        unfold floor
        rw [hnone]
      exact ⟨⟨hfloor.le, h.le_max⟩, hle.trans hfloor.ge⟩
  first h := ⟨hfirst h, rfl⟩

theorem Actor.Continues.lease {phase : Phase} (hfirst : a.phase ≠ .top)
    {expected : ℕ} (hlease : phase.lease? = some ⟨a.routerGeneration, expected⟩) :
    a.Continues { a with phase := phase } where
  generation := rfl
  level h := by
    have hle := h.floor_le
    have hfloor : floor { a with phase := phase } = a.routerGeneration := by
      unfold floor
      rw [hlease]
    exact ⟨⟨hfloor.le, h.le_max⟩, hle.trans hfloor.ge⟩
  first h := absurd h hfirst

theorem Actor.floor_of_none (h : a.phase.lease? = none) : a.floor = a.routerGeneration := by
  rw [floor, h]

theorem Actor.floor_of_lease {lease : NamespaceLease} (h : a.phase.lease? = some lease) :
    a.floor = lease.generation := by
  rw [floor, h]

theorem Actor.Continues.rotate {phase : Phase} {lease : NamespaceLease} (hfirst : a.phase ≠ .top)
    (hold : a.phase.lease? = some lease) (hlease : phase.lease? = some lease ∨ phase.lease? = none) :
    a.Continues { a.rotate lease with phase := phase } where
  generation := rfl
  level h := by
    have hle := h.floor_le
    have hmax := h.le_max
    rw [floor_of_lease hold] at hle ⊢
    have hnext : lease.generation ≤ saturatingAdd lease.generation 1 ∧ saturatingAdd lease.generation 1 ≤ u64Max := by
      unfold saturatingAdd
      omega
    rcases hlease with heq | hnone
    · have hfloor := @floor_of_lease { a.rotate lease with phase := phase } lease heq
      exact ⟨⟨hfloor ▸ hnext.1, hnext.2⟩, hfloor.ge⟩
    · have hfloor := @floor_of_none { a.rotate lease with phase := phase } hnone
      exact ⟨⟨hfloor.le, hnext.2⟩, hfloor ▸ hnext.1⟩
  first h := absurd h hfirst

theorem Actor.Continues.leaseError (message : String) (hfirst : a.phase ≠ .top) (hnone : a.phase.lease? = none) :
    a.Continues { a with
        routerGeneration :=
          (syncRouterGenerationsAfterLeaseError message a.routerGeneration a.routerActiveGeneration).1
        routerActiveGeneration :=
          (syncRouterGenerationsAfterLeaseError message a.routerGeneration a.routerActiveGeneration).2
        phase := .leaseFailed message } where
  generation := rfl
  level h := by
    obtain ⟨hle, hmax⟩ := le_syncRouterGenerationsAfterLeaseError message a.routerActiveGeneration h.le_max
    rw [floor_of_none hnone]
    exact ⟨⟨le_rfl, hmax⟩, hle⟩
  first h := absurd h hfirst

theorem ActorMoves.leaseWrite {lease : NamespaceLease} (hold : a.phase.lease? = some lease) (text : String)
    (error : Option String) (transportState : TransportState) {phase : Phase}
    (hlease : phase.lease? = some lease ∨ phase.lease? = none) :
    ActorMoves s (s.write id a (a.statusFromLease text lease error transportState) phase) id a := by
  have hcont : a.Continues { a with phase := phase } := by
    refine .phase (fun htop => ?_) (hlease.imp (fun h => h.trans hold.symm) fun h => h)
    rw [htop] at hold
    cases hold
  refine .write (wrote_statusFromLease text error transportState hold) hcont (fun _ h => ?_) (fun hlea => ?_)
  · have hle := (hcont.level h).2
    rw [floor_of_lease hold] at hle
    exact hle
  · rw [hlea] at hold
    cases hold

/-- The floor of an actor never falls, except that a lease timeout writes zero. -/
theorem actorStep_moves (hget : s.actors.get? id = some a) (reply : Reply) :
    ActorMoves s (s.actorStep id a reply) id a := by
  obtain ⟨job, generation, routerGeneration, routerActiveGeneration, phase⟩ := a
  cases phase with
  | top =>
    unfold actorStep
    dsimp only
    split
    · exact .abort (by simp)
    · exact .put (.phase (fun _ => rfl) (.inl rfl)) (by simp)
  | leasing =>
    have hkeeps := @ActorKeeps.write s id
      ⟨job, generation, routerGeneration, routerActiveGeneration, .leasing⟩
      ⟨job, generation, routerGeneration, routerActiveGeneration, .requesting⟩ _
      (wrote_status "leasing" none routerActiveGeneration rfl) (.phase (by simp) (.inl rfl))
      (fun _ _ => le_rfl)
    refine ⟨⟨hkeeps.slot, hkeeps.pending, hkeeps.started, hkeeps.nextActor, hkeeps.status, hkeeps.actors⟩,
      .inl ⟨rfl, ?_⟩⟩
    exact congrArg _ (requests_setStatusForGeneration _)
  | requesting =>
    cases reply with
    | lease expected => exact .put (.lease (by simp) rfl) (by simp)
    | leaseError message => exact .put (.leaseError message (by simp) rfl) (by simp)
    | leaseTimeout => exact .put (.phase (by simp) (.inl rfl)) (by simp)
    | _ => exact .stay hget (.phase (by simp) (.inl rfl)) (by simp)
  | leaseFailed error =>
    exact .write (wrote_status _ _ _ rfl) (.phase (by simp) (.inl rfl)) (fun _ h => le_rfl) (by simp)
  | leaseTimedOut =>
    exact .write ⟨rfl, rfl, fun hne => absurd rfl hne⟩ (.phase (by simp) (.inl rfl))
      (fun hne => absurd rfl hne) (by simp)
  | connecting lease => exact .leaseWrite rfl _ _ _ (.inl rfl)
  | attached lease =>
    cases reply with
    | activated => exact .put (.phase (by simp) (.inl rfl)) (by simp)
    | failed error => exact .put (.phase (by simp) (.inl rfl)) (by simp)
    | _ => exact .stay hget (.phase (by simp) (.inl rfl)) (by simp)
  | activated lease =>
    have hwrote := @wrote_statusFromLease
      ⟨job, generation, routerGeneration, routerActiveGeneration, .activated lease⟩ "connected" lease none
      .active rfl
    unfold actorStep
    dsimp only
    rcases setStatusForGeneration_cases s (statusFromLease
      ⟨job, generation, routerGeneration, routerActiveGeneration, .activated lease⟩ "connected" lease none
      .active) with ⟨heq, _⟩ | ⟨heq, _⟩
    · rw [heq]
      exact .put (.phase (by simp) (.inl rfl)) (by simp)
    · have hmoves := @ActorMoves.write s id _
        ⟨job, generation, routerGeneration, routerActiveGeneration, .forwarding lease⟩ _ hwrote
        (.phase (by simp) (.inl rfl)) (fun _ _ => le_rfl) (by simp)
      rw [heq] at hmoves ⊢
      exact hmoves
  | forwarding lease =>
    cases reply with
    | renewalDue => exact .put (.phase (by simp) (.inl rfl)) (by simp)
    | forwardEnded => exact .put (.phase (by simp) (.inl rfl)) (by simp)
    | failed error => exact .put (.phase (by simp) (.inl rfl)) (by simp)
    | _ => exact .stay hget (.phase (by simp) (.inl rfl)) (by simp)
  | renewing lease => exact .leaseWrite rfl _ _ _ (.inl rfl)
  | renewal lease =>
    cases reply with
    | renewed => exact .put (.phase (by simp) (.inl rfl)) (by simp)
    | renewalRetryable error => exact .put (.phase (by simp) (.inl rfl)) (by simp)
    | replaceRequired error => exact .put (.phase (by simp) (.inl rfl)) (by simp)
    | fatalConfiguration error => exact .put (.phase (by simp) (.inl rfl)) (by simp)
    | forwardEnded => exact .put (.phase (by simp) (.inl rfl)) (by simp)
    | failed error => exact .put (.phase (by simp) (.inl rfl)) (by simp)
    | _ => exact .stay hget (.phase (by simp) (.inl rfl)) (by simp)
  | renewed lease => exact .leaseWrite rfl _ _ _ (.inl rfl)
  | renewalFailed lease error => exact .leaseWrite rfl _ _ _ (.inl rfl)
  | ended lease =>
    have hcont := @Actor.Continues.rotate
      ⟨job, generation, routerGeneration, routerActiveGeneration, .ended lease⟩ .pausing lease (by simp) rfl
      (.inr rfl)
    refine .write (wrote_statusFromLease _ _ _ rfl) hcont (fun _ h => ?_) (by simp)
    exact (hcont.level h).2
  | replaceRequired lease error =>
    unfold actorStep
    dsimp only
    split
    · exact .abort (by simp)
    · exact .put (.rotate (by simp) rfl (.inl rfl)) (by simp)
  | replacing lease error => exact .leaseWrite rfl _ _ _ (.inr rfl)
  | fatalConfiguration lease error =>
    have hwrote := @wrote_statusFromLease
      ⟨job, generation, routerGeneration, routerActiveGeneration, .fatalConfiguration lease error⟩
      "configuration_error" lease (some error) .retired rfl
    unfold actorStep
    dsimp only
    rcases setStatusForGeneration_cases s (statusFromLease
      ⟨job, generation, routerGeneration, routerActiveGeneration, .fatalConfiguration lease error⟩
      "configuration_error" lease (some error) .retired) with ⟨heq, _⟩ | ⟨heq, hstale⟩
    · rw [heq]
      exact .abort (by simp)
    · rw [heq]
      refine ⟨⟨rfl, rfl, rfl, rfl, .inr ⟨hstale, _, rfl, rfl, hwrote, fun b hb => ?_⟩, fun h => ?_⟩,
        .inr ⟨by simp, rfl⟩⟩
      · exact absurd rfl (get?_abort hb).1
      · exact .inr (get?_abort h)
  | failed lease error => exact .leaseWrite rfl _ _ _ (.inr rfl)
  | pausing =>
    unfold actorStep
    dsimp only
    split
    · exact .abort (by simp)
    · exact .put (.phase (by simp) (.inr rfl)) (by simp)

end CcSwitchServer.Tunnel
