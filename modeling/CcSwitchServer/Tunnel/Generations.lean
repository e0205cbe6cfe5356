import CcSwitchServer.Tunnel.Fencing

/-! # Where the actors of a tunnel are

Every actor that runs is in the slot or in the hands of the pending call.
-/

namespace CcSwitchServer.Tunnel
open Foundations Supervisor List

/-- The step does not lose the router generation. -/
def Careful (s : Supervisor) : Event → Prop
  | .actor id _ => ∀ a ∈ s.actors.get? id, a.phase = .leaseTimedOut → s.stale a.generation = true
  | .advance =>
    match s.pending with
    | some (.transitionWrite _ current _) => s.current.routerGeneration ≤ current.routerGeneration
    | some (.nextRouterGeneration _ _) => s.current.routerGeneration < u64Max
    | _ => True
  | _ => True

/-- The handle that a pending call has taken from the slot. -/
def Pending.handle? : Pending → Option ℕ
  | .transition _ (.dispose _ handle _) => some handle
  | .transitionWrite _ _ (.dispose _ handle _) => some handle
  | .dispose _ _ handle _ => some handle
  | _ => none

/-- A pending call that still has to be given the slot. -/
def Pending.Waiting : Option Pending → Prop
  | none => True
  | some (.rebind _) => True
  | _ => False

/-- The generation of a call that has fenced off the actors before. -/
def Pending.settled? : Pending → Option ℕ
  | .dispose _ generation _ _ => some generation
  | .nextRouterGeneration _ generation => some generation
  | .startingRead _ generation _ _ => some generation
  | .startingWrite _ generation _ _ _ => some generation
  | _ => none

/-- A pending call that starts an actor and has taken the handle of the slot. -/
def Pending.Starts : Pending → Prop
  | .rebind _ | .stopping _ _ | .stopHandles _ => False
  | .transition _ .stopHandles | .transitionWrite _ _ .stopHandles => False
  | _ => True

/-- Where the actors are: in the slot or in the hands of the pending call. -/
structure Tracked (s : Supervisor) : Prop where
  actors : ∀ {id a}, s.actors.get? id = some a → ∃ slot, s.slot = some slot ∧
    (slot.handle = some id ∨ id ∈ slot.retiringHandles ∨ ∃ p, s.pending = some p ∧ p.handle? = some id)
  idle : ∀ {slot}, s.slot = some slot → Pending.Waiting s.pending → slot.handle = none → slot.retiringHandles = []
  taken : ∀ {slot p}, s.slot = some slot → s.pending = some p → p.Starts → slot.handle = none
  settled : ∀ {p g}, s.pending = some p → p.settled? = some g →
    (∀ id, s.actors.get? id = none) ∨ ∃ st, s.status = some st ∧ st.desiredGeneration = g
  origin : ∀ {id a}, s.actors.get? id = some a → ∃ b, (id, b) ∈ s.started ∧ b.generation = a.generation ∧
    ((∀ r ∈ s.requests, r.actor ≠ id) →
      (a.phase = .top ∨ a.phase = .leasing) ∧ a.routerGeneration = b.routerGeneration)
  fresh : ∀ p ∈ s.started, p.1 < s.nextActor
  distinct : (s.started.map Prod.fst).Nodup

variable {s s' : Supervisor} {n : ℕ} {slot : TunnelTaskSlot} {job : Job}

/-! ## Where the actors are -/

theorem current_of_some {st : TunnelRuntimeStatus} (h : s.status = some st) : s.current = st := by
  unfold current
  rw [h]
  rfl

theorem Tracked.actor (h : Tracked s) {id : ℕ} {a : Actor} (hget : s.actors.get? id = some a)
    (hm : ActorMoves s s' id a) : Tracked s' where
  actors := by
    intro k b hb
    rw [hm.slot, hm.pending]
    rcases hm.actors hb with ⟨rfl, -⟩ | ⟨-, hold⟩
    · exact h.actors hget
    · exact h.actors hold
  idle := by
    rw [hm.slot, hm.pending]
    exact h.idle
  taken := by
    rw [hm.slot, hm.pending]
    exact h.taken
  settled := by
    intro p g hp hg
    rw [hm.pending] at hp
    rcases h.settled hp hg with hnone | ⟨st, hst, hdes⟩
    · rw [hnone id] at hget
      cases hget
    · refine .inr ?_
      rcases hm.status with ⟨heq, -⟩ | ⟨hstale, st', hst', -, hwrote, -⟩
      · exact ⟨st, heq.trans hst, hdes⟩
      · refine ⟨st', hst', ?_⟩
        unfold stale at hstale
        rw [hst] at hstale
        have heq : st.desiredGeneration = a.generation := by simpa using hstale
        rw [hwrote.desired, ← heq, hdes]
  origin := by
    intro k b hb
    rw [hm.started]
    have hsub : ∀ r ∈ s.requests, r ∈ s'.requests := by
      intro r hr
      rcases hm.requests with ⟨-, heq⟩ | ⟨-, heq⟩
      · rw [heq]
        exact mem_cons_of_mem _ hr
      · rw [heq]
        exact hr
    rcases hm.actors hb with ⟨rfl, hcont⟩ | ⟨-, hold⟩
    · obtain ⟨b₀, hmem, hgen, hfirst⟩ := h.origin hget
      refine ⟨b₀, hmem, hgen.trans hcont.generation.symm, fun hnone => ?_⟩
      obtain ⟨hphase, hrouter⟩ := hfirst fun r hr => hnone r (hsub r hr)
      rcases hphase with htop | hleasing
      · obtain ⟨hnext, hsame⟩ := hcont.first htop
        exact ⟨.inr hnext, hsame.trans hrouter⟩
      · rcases hm.requests with ⟨-, heq⟩ | ⟨hne, -⟩
        · refine absurd rfl (hnone ⟨k, a.routerGeneration, a.routerActiveGeneration⟩ ?_)
          rw [heq]
          exact mem_cons_self
        · exact absurd hleasing hne
    · obtain ⟨b₀, hmem, hgen, hfirst⟩ := h.origin hold
      exact ⟨b₀, hmem, hgen, fun hnone => hfirst fun r hr => hnone r (hsub r hr)⟩
  fresh := by
    rw [hm.started, hm.nextActor]
    exact h.fresh
  distinct := by
    rw [hm.started]
    exact h.distinct

theorem Tracked.shuffle (h : Tracked s) (hstatus : s'.status = s.status) (hstarted : s'.started = s.started)
    (hrequests : s'.requests = s.requests) (hnext : s'.nextActor = s.nextActor)
    (hsub : ∀ {id a}, s'.actors.get? id = some a → s.actors.get? id = some a)
    (hactors : ∀ {id a}, s'.actors.get? id = some a → ∃ slot, s'.slot = some slot ∧
      (slot.handle = some id ∨ id ∈ slot.retiringHandles ∨ ∃ p, s'.pending = some p ∧ p.handle? = some id))
    (hidle : ∀ {slot}, s'.slot = some slot → Pending.Waiting s'.pending → slot.handle = none →
      slot.retiringHandles = [])
    (htaken : ∀ {slot p}, s'.slot = some slot → s'.pending = some p → p.Starts → slot.handle = none)
    (hsettled : ∀ {p g}, s'.pending = some p → p.settled? = some g →
      (∀ id, s'.actors.get? id = none) ∨ ∃ st, s.status = some st ∧ st.desiredGeneration = g) :
    Tracked s' where
  actors := hactors
  idle := hidle
  taken := htaken
  settled hp hg := hstatus ▸ hsettled hp hg
  origin := by
    intro id a ha
    rw [hstarted, hrequests]
    exact h.origin (hsub ha)
  fresh := by
    rw [hstarted, hnext]
    exact h.fresh
  distinct := by
    rw [hstarted]
    exact h.distinct

theorem Tracked.setStatus (h : Tracked s) {st : TunnelRuntimeStatus}
    (hpending : ∀ {p g}, s.pending = some p → p.settled? = some g → st.desiredGeneration = g) :
    Tracked (s.setStatus st) where
  actors := h.actors
  idle := h.idle
  taken := h.taken
  settled hp hg := .inr ⟨st, rfl, hpending hp hg⟩
  origin := h.origin
  fresh := h.fresh
  distinct := h.distinct

theorem Tracked.replace (h : Tracked s) (job : Job) (rebind : Bool)
    (hactors : ∀ {id a}, s.actors.get? id = some a → slot.handle = some id ∨ id ∈ slot.retiringHandles)
    (hidle : slot.handle = none → slot.retiringHandles = []) : Tracked (s.replace slot job rebind) := by
  unfold Supervisor.replace
  split
  · rename_i hnone
    have hgone : ∀ id, s.actors.get? id = none := by
      intro id
      cases hget : s.actors.get? id with
      | none => rfl
      | some a =>
        rcases hactors hget with hhandle | hretiring
        · rw [hnone] at hhandle
          cases hhandle
        · rw [hidle hnone] at hretiring
          cases hretiring
    refine h.shuffle rfl rfl rfl rfl id (fun {id a} ha => ?_) (fun _ hw => hw.elim) ?_ (fun _ _ => .inl hgone)
    · rw [hgone id] at ha
      cases ha
    · intro slot' p hslot' _ _
      cases hslot'
      exact hnone
  · rename_i handle hsome
    refine h.shuffle rfl rfl rfl rfl id (fun {id a} ha => ⟨_, rfl, ?_⟩) (fun _ hw => hw.elim) ?_ ?_
    · rcases hactors ha with hhandle | hretiring
      · rw [hsome] at hhandle
        cases hhandle
        exact .inr (.inr ⟨_, rfl, rfl⟩)
      · exact .inr (.inl hretiring)
    · intro slot' p hslot' _ _
      cases hslot'
      rfl
    · intro p g hp hg
      cases hp
      cases hg

variable {p : Pending}

/-- With the call in progress known, an actor is in the slot or in the hands of that call. -/
theorem Tracked.holder (h : Tracked s) (hslot : s.slot = some slot) (hp : s.pending = some p) {id : ℕ}
    {a : Actor} (ha : s.actors.get? id = some a) :
    slot.handle = some id ∨ id ∈ slot.retiringHandles ∨ p.handle? = some id := by
  obtain ⟨slot', hslot', htracked⟩ := h.actors ha
  rw [hslot] at hslot'
  cases hslot'
  refine htracked.imp_right (Or.imp_right ?_)
  rintro ⟨p', hp', heq⟩
  rw [hp] at hp'
  cases hp'
  exact heq

theorem retiringHandles_of_abort (h : s.abortRetiring slot = none) : slot.retiringHandles = [] := by
  unfold Supervisor.abortRetiring at h
  split at h
  · assumption
  · cases h

section
variable (h : Tracked s)
include h

/-- Between two calls every actor is in the slot. -/
theorem Tracked.slotFor (hpending : s.pending = none) :
    (∀ {id a}, s.actors.get? id = some a → s.slotFor.handle = some id ∨ id ∈ s.slotFor.retiringHandles) ∧
      (s.slotFor.handle = none → s.slotFor.retiringHandles = []) := by
  constructor
  · intro id a ha
    obtain ⟨slot, hslot, htracked⟩ := h.actors ha
    rw [slotFor_of_some hslot]
    refine htracked.imp_right fun hother => hother.resolve_right ?_
    rintro ⟨p, hp, -⟩
    rw [hpending] at hp
    cases hp
  · intro hnone
    cases hslot : s.slot with
    | none =>
      unfold Supervisor.slotFor
      rw [hslot]
      rfl
    | some slot =>
      rw [slotFor_of_some hslot] at hnone ⊢
      refine h.idle hslot ?_ hnone
      rw [hpending]
      trivial

theorem Tracked.retained (hpending : s.pending = none) :
    (∀ {id a}, s.actors.get? id = some a → s.retained.handle = some id ∨ id ∈ s.retained.retiringHandles) ∧
      (s.retained.handle = none → s.retained.retiringHandles = []) := by
  obtain ⟨hactors, hidle⟩ := h.slotFor hpending
  constructor
  · intro id a ha
    refine (hactors ha).imp_right fun hretiring => mem_filter.mpr ⟨hretiring, ?_⟩
    rw [ha]
    rfl
  · intro hnone
    unfold Supervisor.retained
    rw [hidle hnone]
    rfl

section
variable (hslot : s.slot = some slot)
include hslot

theorem Tracked.abortRetiring
    (hp : s.pending = some p) (hstarts : ¬p.Starts) (hsettled : p.settled? = none)
    (heq : s.abortRetiring slot = some s') : Tracked s' := by
  unfold Supervisor.abortRetiring at heq
  split at heq
  · cases heq
  · rename_i handle rest hretiring
    cases heq
    refine h.shuffle rfl rfl rfl rfl actors_abort (fun {id a} ha => ⟨_, rfl, ?_⟩) ?_ ?_ ?_
    · obtain ⟨hne, hold⟩ := get?_abort ha
      rcases h.holder hslot hp hold with hhandle | hmem | hheld
      · exact .inl hhandle
      · rw [hretiring] at hmem
        exact .inr (.inl ((mem_cons.mp hmem).resolve_left hne))
      · exact .inr (.inr ⟨p, hp, hheld⟩)
    · intro slot' hslot' hwaiting hnone
      cases hslot'
      have := h.idle hslot hwaiting hnone
      rw [hretiring] at this
      cases this
    · intro slot' p' hslot' hp' hs
      change s.pending = some p' at hp'
      rw [hp] at hp'
      cases hp'
      exact absurd hs hstarts
    · intro p' g hp' hg
      change s.pending = some p' at hp'
      rw [hp] at hp'
      cases hp'
      rw [hsettled] at hg
      cases hg

theorem Tracked.go {p' : Pending} (hp : s.pending = some p)
    (hhandle : p'.handle? = p.handle?) (hwaiting : ¬Pending.Waiting (some p')) (hstarts : p'.Starts → p.Starts)
    (hsettled : ∀ g, p'.settled? = some g → p.settled? = some g ∨
      ∃ st, s.status = some st ∧ st.desiredGeneration = g) : Tracked { s with pending := some p' } := by
  refine h.shuffle rfl rfl rfl rfl id (fun {id a} ha => ?_) (fun _ hw => absurd hw hwaiting) ?_ ?_
  · refine ⟨slot, hslot, (h.holder hslot hp ha).imp_right (Or.imp_right fun heq => ?_)⟩
    exact ⟨p', rfl, hhandle.trans heq⟩
  · intro slot' p'' hslot' hp'' hs
    cases hp''
    exact h.taken hslot' hp (hstarts hs)
  · intro p'' g hp'' hg
    cases hp''
    exact (hsettled g hg).elim (h.settled hp) .inr

theorem Tracked.dispose {job : Job} {generation handle : ℕ}
    {rebind : Bool} (hp : s.pending = some (.dispose job generation handle rebind)) {slot' : TunnelTaskSlot}
    (hslot' : s'.slot = some slot') (hpending : s'.pending = some (.nextRouterGeneration job generation))
    (hstatus : s'.status = s.status) (hstarted : s'.started = s.started) (hrequests : s'.requests = s.requests)
    (hnext : s'.nextActor = s.nextActor) (hhandle : slot'.handle = slot.handle)
    (hsub : ∀ {id a}, s'.actors.get? id = some a → s.actors.get? id = some a)
    (hretiring : ∀ {id a}, s'.actors.get? id = some a → id = handle ∨ id ∈ slot.retiringHandles →
      id ∈ slot'.retiringHandles) : Tracked s' := by
  refine h.shuffle hstatus hstarted hrequests hnext hsub (fun {id a} ha => ⟨slot', hslot', ?_⟩) ?_ ?_ ?_
  · rcases h.holder hslot hp (hsub ha) with heq | hmem | heq
    · exact .inl (hhandle.trans heq)
    · exact .inr (.inl (hretiring ha (.inr hmem)))
    · cases heq
      exact .inr (.inl (hretiring ha (.inl rfl)))
  · intro slot₀ _ hw
    rw [hpending] at hw
    exact hw.elim
  · intro slot₀ p hslot₀ _ _
    rw [hslot'] at hslot₀
    cases hslot₀
    exact hhandle.trans (h.taken hslot hp trivial)
  · intro p g hp' hg
    rw [hpending] at hp'
    cases hp'
    refine (h.settled hp hg).imp (fun hnone id => ?_) fun hst => hst
    cases hget : s'.actors.get? id with
    | none => rfl
    | some a =>
      have hold := hsub hget
      rw [hnone id] at hold
      cases hold

/-- A call that has fenced off the actors finds none that can still write. -/
theorem Tracked.advance (hp : s.pending = some p) :
    Tracked (s.advance slot p) := by
  cases p with
  | rebind job =>
    unfold Supervisor.advance
    cases habort : s.abortRetiring slot with
    | some s' => exact h.abortRetiring hslot hp id rfl habort
    | none =>
      refine h.replace job true (fun {id a} ha => ?_) fun _ => retiringHandles_of_abort habort
      exact (h.holder hslot hp ha).imp_right fun hother => hother.resolve_right fun heq => by cases heq
  | transition change next =>
    cases next with
    | dispose job handle rebind => exact h.go hslot hp rfl id id fun g hg => by cases hg
    | stopHandles => exact h.go hslot hp rfl id id fun g hg => by cases hg
  | transitionWrite change current next =>
    have hwrite : Tracked (s.setStatus (transitionStatus change current)) := by
      refine h.setStatus fun hp' hg => ?_
      rw [hp] at hp'
      cases hp'
      cases hg
    unfold Supervisor.advance
    cases next with
    | dispose job handle rebind =>
      refine hwrite.go hslot hp rfl id (fun _ => trivial) fun g hg => .inr ⟨_, rfl, ?_⟩
      exact Option.some.inj hg
    | stopHandles => exact hwrite.go hslot hp rfl id id fun g hg => by cases hg
  | dispose job generation handle rebind =>
    unfold Supervisor.advance
    dsimp only
    split
    · rename_i hnone
      rw [Option.isNone_iff_eq_none] at hnone
      refine h.dispose hslot hp rfl rfl rfl rfl rfl rfl rfl id fun {id a} ha hor => ?_
      rcases hor with rfl | hmem
      · change s.actors.get? id = some a at ha
        rw [hnone] at ha
        cases ha
      · exact hmem
    · split
      · refine h.dispose hslot hp rfl rfl rfl rfl rfl rfl rfl actors_abort fun {id a} ha hor => ?_
        exact hor.resolve_left (get?_abort ha).1
      · refine h.dispose hslot hp rfl rfl rfl rfl rfl rfl rfl id fun {id a} ha hor => ?_
        rcases hor with rfl | hmem
        · exact mem_append_right _ mem_cons_self
        · exact mem_append_left _ hmem
  | nextRouterGeneration job generation => exact h.go hslot hp rfl id id fun g hg => .inl hg
  | startingRead job generation routerGeneration routerActiveGeneration =>
    exact h.go hslot hp rfl id id fun g hg => .inl hg
  | startingWrite job generation routerGeneration routerActiveGeneration current =>
    have htaken := h.taken hslot hp trivial
    unfold Supervisor.advance
    refine ⟨fun {id a} ha => ⟨_, rfl, ?_⟩, ?_, ?_, ?_, fun {id a} ha => ?_, fun q hq => ?_, ?_⟩
    · rcases get?_put ha with ⟨rfl, -⟩ | ⟨-, hold⟩
      · exact .inl rfl
      · rcases h.holder hslot hp hold with heq | hmem | heq
        · rw [htaken] at heq
          cases heq
        · exact .inr (.inl hmem)
        · cases heq
    · intro slot' hslot' _ hnone
      cases hslot'
      cases hnone
    · intro slot' p' _ hp'
      cases hp'
    · intro p' g hp'
      cases hp'
    · rcases get?_put ha with ⟨rfl, rfl⟩ | ⟨-, hold⟩
      · exact ⟨_, mem_cons_self, rfl, fun _ => ⟨.inl rfl, rfl⟩⟩
      · obtain ⟨b, hmem, hrest⟩ := h.origin hold
        exact ⟨b, mem_cons_of_mem _ hmem, hrest⟩
    · rcases mem_cons.mp hq with rfl | hold
      · exact Nat.lt_succ_self _
      · exact (h.fresh q hold).trans (Nat.lt_succ_self _)
    · refine nodup_cons.mpr ⟨fun hmem => ?_, h.distinct⟩
      obtain ⟨q, hq, heq⟩ := mem_map.mp hmem
      have hlt := h.fresh q hq
      rw [heq] at hlt
      exact lt_irrefl _ hlt
  | stopping status generation => exact h.go hslot hp rfl id id fun g hg => by cases hg
  | stopHandles generation =>
    have hnot : ∀ {p'}, s.pending = some p' → p'.settled? = none := by
      intro p' hp'
      rw [hp] at hp'
      cases hp'
      rfl
    unfold Supervisor.advance
    dsimp only
    split
    · rename_i handle hhandle
      refine h.shuffle rfl rfl rfl rfl actors_abort (fun {id a} ha => ⟨_, rfl, ?_⟩) ?_ ?_ ?_
      · obtain ⟨hne, hold⟩ := get?_abort ha
        rcases h.holder hslot hp hold with heq | hmem | heq
        · rw [hhandle] at heq
          cases heq
          exact absurd rfl hne
        · exact .inr (.inl hmem)
        · cases heq
      · intro slot' _ hw
        change Pending.Waiting s.pending at hw
        rw [hp] at hw
        exact hw.elim
      · intro slot' p' hslot' _ _
        cases hslot'
        rfl
      · intro p' g hp' hg
        rw [hnot hp'] at hg
        cases hg
    · rename_i hhandle
      cases habort : s.abortRetiring slot with
      | some s' => exact h.abortRetiring hslot hp id rfl habort
      | none =>
        have hnil := retiringHandles_of_abort habort
        have hgone : ∀ id, s.actors.get? id = none := by
          intro id
          refine Option.eq_none_iff_forall_ne_some.mpr fun a hget => ?_
          rcases h.holder hslot hp hget with heq | hmem | heq
          · rw [hhandle] at heq
            cases heq
          · rw [hnil] at hmem
            cases hmem
          · cases heq
        refine h.shuffle rfl rfl rfl rfl id (fun {id a} ha => ?_) ?_ ?_ ?_
        · change s.actors.get? id = some a at ha
          rw [hgone id] at ha
          cases ha
        · intro slot' hslot' _ _
          cases hslot'
          exact hnil
        · intro slot' p' _ hp'
          cases hp'
        · intro p' g hp'
          cases hp'

end

theorem Tracked.fill {p : Option Pending}
    (hp : ∀ {p'}, p = some p' → p'.settled? = none ∧ ¬p'.Starts) {slot : TunnelTaskSlot}
    (hactors : ∀ {id a}, s.actors.get? id = some a → slot.handle = some id ∨ id ∈ slot.retiringHandles)
    (hidle : slot.handle = none → slot.retiringHandles = []) :
    Tracked { s with slot := some slot, pending := p } := by
  refine h.shuffle rfl rfl rfl rfl id (fun {id a} ha => ⟨slot, rfl, ?_⟩) ?_ ?_ ?_
  · exact (hactors ha).elim .inl fun hmem => .inr (.inl hmem)
  · intro slot' hslot' _ hnone
    cases hslot'
    exact hidle hnone
  · intro slot' p' _ hp' hs
    exact absurd hs (hp hp').2
  · intro p' g hp' hg
    rw [(hp hp').1] at hg
    cases hg

/-- Every step keeps track of the actors. -/
theorem Tracked.step (event : Event) : Tracked (s.step event) := by
  cases event with
  | ensureRunning job =>
    unfold Supervisor.step
    dsimp only
    split
    · exact h
    · rename_i hnone
      rw [Option.not_isSome_iff_eq_none] at hnone
      obtain ⟨hactors, hidle⟩ := h.retained hnone
      unfold ensureRunning
      dsimp only
      split
      · refine h.fill (fun hp => ?_) hactors hidle
        rw [hnone] at hp
        cases hp
      · exact h.replace job false hactors hidle
  | forceReconnect job mode =>
    unfold Supervisor.step
    dsimp only
    split
    · exact h
    · rename_i hnone
      rw [Option.not_isSome_iff_eq_none] at hnone
      obtain ⟨hactors, hidle⟩ := h.retained hnone
      cases mode with
      | graceful => exact h.replace job false hactors hidle
      | namespaceRebind =>
        refine h.fill (fun hp => ?_) hactors hidle
        cases hp
        exact ⟨rfl, id⟩
  | stop status =>
    unfold Supervisor.step
    dsimp only
    split
    · exact h
    · rename_i hnone
      rw [Option.not_isSome_iff_eq_none] at hnone
      unfold stop
      obtain ⟨hactors, hidle⟩ := h.slotFor hnone
      refine h.fill (fun hp => ?_) hactors hidle
      cases hp
      exact ⟨rfl, id⟩
  | advance =>
    unfold Supervisor.step
    dsimp only
    split
    · rename_i slot p hslot hp
      exact h.advance hslot hp
    · exact h
  | actor id reply =>
    unfold Supervisor.step
    dsimp only
    split
    · exact h
    · rename_i a hget
      exact h.actor hget (actorStep_moves hget reply)
  | restart =>
    refine h.shuffle rfl rfl rfl rfl (fun ha => by cases ha) (fun ha => by cases ha) ?_ ?_ ?_
    · intro slot hslot
      cases hslot
    · intro slot p hslot
      cases hslot
    · intro p g hp
      cases hp

end

end CcSwitchServer.Tunnel
