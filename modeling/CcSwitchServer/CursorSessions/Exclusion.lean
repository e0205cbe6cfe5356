import CcSwitchServer.CursorSessions.Claims
import CcSwitchServer.CursorSessions.Refinement

/-! # Every interleaving of the session registry

At most one caller owns a running session, and only its owner ends the running.
-/

namespace CcSwitchServer.CursorSessions
open Foundations Leases Registry OrderedMap List CursorScopedIndexKey Tasks

/-! ## Entries and indexes -/

/-- An id leads to sessions of its own scope. -/
def Indexed (r : Registry) : Prop :=
  ∀ which indexKey candidates, (r.index which).get? indexKey = some candidates →
    ∀ candidate ∈ candidates, candidate.1.scope = (ofLex indexKey).1

/-- Entries are numbered upwards, and the indexes keep to their scopes. -/
structure Tidy (r : Registry) : Prop where
  fresh : Fresh r
  indexed : Indexed r

namespace Tidy
variable {r : Registry}

theorem empty : Tidy {} where
  fresh h := by cases h
  indexed := by
    intro which indexKey candidates h
    cases which <;> cases h

theorem update (h : Tidy r) (e : ℕ) (f : CursorSession → CursorSession) : Tidy (r.update e f) where
  fresh := by
    intro e' session hget
    rw [get?_heap_update] at hget
    rw [nextEntry_update]
    split at hget
    · rename_i heq
      obtain ⟨old, hold, -⟩ := Option.map_eq_some_iff.mp hget
      exact heq ▸ h.fresh hold
    · exact h.fresh hget
  indexed := by
    intro which indexKey candidates hget
    rw [index_update] at hget
    exact h.indexed _ _ _ hget

theorem sessions (h : Tidy r) (m : OrderedMap CursorSessionKey ℕ) : Tidy { r with sessions := m } where
  fresh := h.fresh
  indexed := by
    intro which indexKey candidates hget
    cases which
    · exact h.indexed .response indexKey candidates hget
    · exact h.indexed .toolCall indexKey candidates hget

variable {key : CursorSessionKey}

section
variable (h : Tidy r)
include h

theorem evicted {r' : Registry} {e : ℕ} (hev : Registry.Evicted r r' key e) : Tidy r' := by
  rw [hev.eq]
  exact (h.sessions _).update _ _

theorem insertNewEntry {c : Circumstances} {e : ℕ} {r' : Registry}
    (hin : r.insertNewEntry key c = .ok (e, r')) : Tidy r' := by
  unfold Registry.insertNewEntry at hin
  split at hin
  · cases hin
  · cases hin
    refine ⟨?_, (h.sessions (r.sessions.insert key r.nextEntry)).indexed⟩
    intro e' session hget
    rw [get?_insert] at hget
    dsimp only
    split at hget
    · rename_i heq
      omega
    · have := h.fresh hget
      omega

theorem withIndex (which : Index) {m : OrderedMap CursorScopedIndexKey (List CursorSessionReference)}
    (hm : ∀ {indexKey candidates}, m.get? indexKey = some candidates →
      ∀ candidate ∈ candidates, candidate.1.scope = (ofLex indexKey).1) : Tidy (r.withIndex which m) where
  fresh := by
    intro e session hget
    rw [heap_withIndex] at hget
    rw [nextEntry_withIndex]
    exact h.fresh hget
  indexed := by
    intro which' indexKey candidates hget
    by_cases hw : which' = which
    · subst hw
      cases which' <;> exact hm hget
    · have hother : (r.withIndex which m).index which' = r.index which' := by
        cases which <;> cases which' <;> first | rfl | exact absurd rfl hw
      rw [hother] at hget
      exact h.indexed _ _ _ hget

theorem removeIndexes (which : Index) (e : ℕ) : Tidy (r.removeIndexes which e) := by
  refine h.withIndex which fun {indexKey candidates} hget candidate hmem => ?_
  rw [get?_filter_eq_some, get?_mapValues] at hget
  obtain ⟨old, hold, rfl⟩ := Option.map_eq_some_iff.mp hget.1
  exact h.indexed _ _ _ hold candidate (mem_of_mem_filter hmem)

theorem bind (which : Index) (e : ℕ) {indexKey : CursorScopedIndexKey}
    (hscope : key.scope = (ofLex indexKey).1) : Tidy (r.bind which key e indexKey) := by
  unfold Registry.bind
  split
  · dsimp only
    split
    · exact h
    · refine h.withIndex which fun {indexKey' candidates} hget candidate hmem => ?_
      rw [get?_insert] at hget
      split at hget
      · rename_i heq
        cases hget
        rcases mem_append.mp hmem with hold | hnew
        · cases hcand : (r.index which).get? indexKey with
          | none =>
            rw [hcand] at hold
            cases hold
          | some candidates =>
            rw [hcand] at hold
            exact heq ▸ h.indexed _ _ _ hcand candidate hold
        · rw [mem_singleton.mp hnew, ← heq]
          exact hscope
      · exact h.indexed _ _ _ hget candidate hmem
  · exact h

end

end Tidy

/-- A pending binding is for the scope of its session. -/
def Section.Scoped : Section → Prop
  | .reserveBinding _ key _ indexKey => key.scope = (ofLex indexKey).1
  | .bind _ key _ indexKey => key.scope = (ofLex indexKey).1
  | _ => True

/-- Every section keeps the registry tidy. -/
theorem exec_tidy {limits : Limits} {w : World} {c : Circumstances} {s : Section} (h : Tidy w.registry)
    (hs : s.Scoped) :
    Tidy (exec limits w c s).state.registry ∧
      ∀ s' ∈ (exec limits w c s).next ++ (exec limits w c s).spawned.flatten, s'.Scoped := by
  cases s with
  | evictExpired =>
    refine ⟨h, fun s' hs' => ?_⟩
    rw [exec, flatten_nil, append_nil] at hs'
    obtain ⟨reference, -, rfl⟩ := mem_map.mp hs'
    trivial
  | evictCandidate key entry now =>
    rw [exec]
    split
    · rename_i r heq
      rcases evictExpiredCandidate_cases heq with ⟨-, rfl⟩ | ⟨hb, -⟩
      · exact ⟨h, by simp⟩
      · cases hb
    · rename_i r heq
      rcases evictExpiredCandidate_cases heq with ⟨hb, -⟩ | ⟨-, hev⟩
      · cases hb
      · exact ⟨h.evicted hev, by simp [dropIndexes, Section.Scoped]⟩
  | idleTimer entry =>
    rw [exec]
    split
    · exact ⟨h, by simp⟩
    · exact ⟨h, by simp [Section.Scoped]⟩
  | removeIndexes which entry =>
    rw [exec]
    exact ⟨h.removeIndexes which entry, by simp⟩
  | insertNewEntry key =>
    rw [exec]
    split
    · exact ⟨h, by simp⟩
    · rename_i entry r heq
      exact ⟨h.insertNewEntry heq, by simp [Section.Scoped]⟩
  | enforceMaxSessions =>
    rw [exec]
    split
    · exact ⟨h, by simp⟩
    · exact ⟨h, by simp [Section.Scoped]⟩
  | evictVictim key entry =>
    rw [exec]
    split
    · rename_i r heq
      rcases evictVictim_cases heq with ⟨-, rfl⟩ | ⟨hb, -⟩
      · exact ⟨h, by simp [Section.Scoped]⟩
      · cases hb
    · rename_i r heq
      rcases evictVictim_cases heq with ⟨hb, -⟩ | ⟨-, hev⟩
      · cases hb
      · exact ⟨h.evicted hev, by simp [dropIndexes, Section.Scoped]⟩
  | checkCapacity entry =>
    rw [exec]
    split
    · exact ⟨h, by simp [Section.Scoped]⟩
    · exact ⟨h, by simp⟩
  | lookup key =>
    rw [exec]
    split
    · exact ⟨h, by simp⟩
    · exact ⟨h, by simp [Section.Scoped]⟩
  | acquireLocked reference close =>
    rw [exec]
    split
    · exact ⟨h, by simp⟩
    · rename_i r heq
      have hr : Tidy r := by
        unfold acquireLocked at heq
        split at heq
        · cases heq
        · split at heq
          · cases heq
          · split at heq
            · cases heq
            · cases heq
              exact h.update _ _
      split
      · exact ⟨hr, by simp [Section.Scoped]⟩
      · exact ⟨hr, by simp⟩
  | attachStream entry =>
    rw [exec, attachStream]
    split
    · exact ⟨h, by simp⟩
    · split
      · exact ⟨h.update _ _, by simp⟩
      · exact ⟨h, by simp⟩
  | release entry final =>
    rw [exec]
    split
    · exact ⟨h, by simp⟩
    · cases final with
      | awaitingToolResult => exact ⟨h.update _ _, by simp [Section.Scoped]⟩
      | closed => exact ⟨h.update _ _, by simp [Section.Scoped]⟩
      | running => exact ⟨h.update _ _, by simp [Section.Scoped]⟩
  | unregister key entry =>
    rw [exec]
    rcases removeCurrent_cases w.registry key entry with ⟨heq, _⟩ | ⟨heq, _⟩
    · rw [heq]
      exact ⟨h, by simp⟩
    · rw [heq]
      exact ⟨h.sessions _, by simp [dropIndexes, Section.Scoped]⟩
  | reserveBinding which key entry indexKey =>
    rw [exec]
    split
    · refine ⟨h, fun s' hs' => ?_⟩
      rw [flatten_nil, append_nil, mem_singleton] at hs'
      rw [hs']
      exact hs
    · exact ⟨h, by simp⟩
  | bind which key entry indexKey =>
    rw [exec]
    exact ⟨h.bind which entry hs, by simp⟩
  | resolve which indexKey =>
    rw [exec]
    split <;> exact ⟨h, by simp⟩

/-! ## The invariant -/

structure Sound (m : Manager) : Prop where
  tidy : Tidy m.state.registry
  inScope : ∀ s ∈ m.pending, s.Scoped
  exclusive : Exclusive m.leases

theorem Sound.initial : Sound { state := {} } where
  tidy := .empty
  inScope := by
    intro s hs
    cases hs
  exclusive := by
    refine ⟨nodup_nil, fun e => ⟨?_, ?_⟩, ?_, ?_, ?_, ?_, fun _ _ => rfl, fun e => ⟨le_rfl, Nat.zero_le _⟩⟩
    · intro h
      cases h
    · intro h
      cases h
    · intro k e h
      cases h
    · intro e h
      cases h
    · intro k e h
      cases h
    · intro e h
      cases h

theorem free_call (call : Call) : Free call.sections ∧ ∀ s ∈ call.sections, s.Scoped := by
  cases call with
  | bind which key entry rawId =>
    rw [Call.sections]
    split
    · exact ⟨⟨rfl, rfl⟩, by simp⟩
    · rename_i indexKey hnew
      refine ⟨⟨rfl, rfl⟩, fun s hs => ?_⟩
      rw [mem_singleton.mp hs]
      unfold new at hnew
      split at hnew
      · cases hnew
        rfl
      · cases hnew
  | resolve which scope rawId =>
    rw [Call.sections]
    split
    · exact ⟨⟨rfl, rfl⟩, by simp⟩
    · exact ⟨⟨rfl, rfl⟩, by simp [Section.Scoped]⟩
  | _ => exact ⟨⟨rfl, rfl⟩, by simp [Call.sections, Section.Scoped]⟩

def Event.released (m : Manager) : Event → Option ℕ
  | .run task _ => (m.head? task).bind Section.released
  | _ => none

theorem step_moves {limits : Limits} {m : Manager} (h : Sound m) (event : Event) :
    Move (event.released m) m.leases (step limits m event).leases ∧ Tidy (step limits m event).state.registry ∧
      ∀ s ∈ (step limits m event).pending, s.Scoped := by
  cases event with
  | call call =>
    obtain ⟨hfree, hscoped⟩ := free_call call
    refine ⟨.of_eq ?_, h.tidy, fun s hs => ?_⟩
    · unfold Manager.leases
      rw [step, state_start, pending_start, leasesOf_perm m.state perm_append_comm, leasesOf_free _ hfree]
    · rw [step, pending_start] at hs
      exact (mem_append.mp hs).elim (h.inScope s) (hscoped s)
  | release entry final =>
    rw [step]
    split
    · rename_i howned
      refine ⟨.of_eq ?_, h.tidy, fun s hs => ?_⟩
      · unfold Manager.leases
        rw [state_start, pending_start]
        unfold leasesOf
        rw [filterMap_append, filterMap_append]
        congr 1
        · refine Multiset.coe_eq_coe.mpr ?_
          have hperm := (perm_cons_erase howned).append_right (m.pending.filterMap Section.token)
          refine List.Perm.trans ?_ hperm.symm
          rw [← append_assoc]
          exact perm_append_singleton _ _
        · exact congrArg _ (append_nil _)
      · rw [pending_start] at hs
        rcases mem_append.mp hs with hold | hnew
        · exact h.inScope s hold
        · rw [mem_singleton.mp hnew]
          trivial
    · exact ⟨.keep _, h.tidy, h.inScope⟩
  | run task c =>
    have hcases := schedule_cases (fun w s c => exec limits w c s) m task c
    rw [step]
    rcases hcases with heq | ⟨s, others, hhead, hpending, hstate, hnext⟩
    · rw [heq]
      exact ⟨.keep _, h.tidy, h.inScope⟩
    · have hexcl := h.exclusive
      unfold Manager.leases at hexcl ⊢
      rw [leasesOf_perm _ hpending] at hexcl ⊢
      rw [hstate, leasesOf_perm _ hnext]
      have hs : s.Scoped := h.inScope s (hpending.mem_iff.mpr mem_cons_self)
      obtain ⟨htidy, hscoped⟩ := @exec_tidy limits m.state c s h.tidy hs
      refine ⟨?_, htidy, fun s' hs' => ?_⟩
      · rw [Event.released, hhead]
        exact exec_moves h.tidy.fresh hexcl
      · rcases mem_append.mp (hnext.mem_iff.mp hs') with hnew | hold
        · exact hscoped s' hnew
        · exact h.inScope s' (hpending.mem_iff.mpr (mem_cons_of_mem _ hold))

variable {limits : Limits} {m : Manager}

theorem Sound.step (h : Sound m) (event : Event) : Sound (step limits m event) := by
  obtain ⟨hmove, htidy, hscoped⟩ := @step_moves limits m h event
  exact ⟨htidy, hscoped, h.exclusive.move hmove⟩

theorem Sound.run (events : List Event) : Sound (run (CursorSessions.step limits) { state := {} } events) :=
  @run_invariant _ _ (CursorSessions.step limits) Sound (fun _ _ => True) (fun _ event h _ => h.step event)
    _ _ .initial (.of_forall (fun _ _ => trivial) _ _)

/-! ## What callers rely on -/

def Registry.Alive (limits : Limits) (r : Registry) (now : ℕ) (reference : CursorSessionReference) : Prop :=
  r.sessions.get? reference.1 = some reference.2 ∧ ∃ session, r.heap.get? reference.2 = some session ∧
    session.state ≠ .closed ∧ ¬(session.state = .awaitingToolResult ∧ Registry.Expired limits now session)

theorem resolve_unique {r : Registry} {which : Index} {indexKey : CursorScopedIndexKey} {c : Circumstances}
    {reference : CursorSessionReference} (h : r.resolveIndexBinding limits which indexKey c = some reference) :
    (∃ candidates, (r.index which).get? indexKey = some candidates ∧ reference ∈ candidates ∧
      ∀ candidate ∈ candidates, r.Alive limits c.now candidate → candidate = reference) ∧
    r.sessions.get? reference.1 = some reference.2 := by
  unfold resolveIndexBinding at h
  split at h
  · rename_i unique hfilter
    cases h
    have hmem : reference ∈ (((r.index which).get? indexKey).getD []).filter (r.Live limits c) := by
      rw [hfilter]
      exact mem_cons_self
    obtain ⟨hin, hlive⟩ := mem_filter.mp hmem
    cases hget : (r.index which).get? indexKey with
    | none =>
      rw [hget] at hin
      cases hin
    | some candidates =>
      rw [hget] at hin hfilter
      refine ⟨⟨candidates, rfl, hin, fun candidate hcand halive => ?_⟩, ?_⟩
      · obtain ⟨hreg, session, hsession, hclosed, hexpired⟩ := halive
        have hcl : r.Live limits c candidate = true := by
          unfold Registry.Live
          rw [hsession, hreg]
          simp [hclosed]
          exact .inr (not_and_or.mp hexpired)
        have hone : candidate ∈ [reference] := by
          rw [← hfilter]
          exact mem_filter.mpr ⟨hcand, hcl⟩
        exact mem_singleton.mp hone
      · unfold Registry.Live at hlive
        rw [Bool.and_eq_true, decide_eq_true_eq] at hlive
        exact hlive.2
  · cases h

/-- What holds of a manager in every reachable state and of the next event. -/
structure Guarded (limits : Limits) (m : Manager) : Prop where
  owners : m.leases.owners.Nodup ∧ ∀ e, e ∈ m.leases.owners ↔ m.state.registry.stateOf e = some .running
  parkings : ∀ e, m.state.log.count (.acquired e) ≤ m.state.log.count (.parked e) ∧
    m.state.log.count (.parked e) ≤ m.state.log.count (.acquired e) + 1
  registered : ∀ {e session}, m.state.registry.heap.get? e = some session → session.state = .running →
    m.state.registry.sessions.get? session.key = some e
  keys : ∀ {k e}, m.state.registry.sessions.get? k = some e →
    ∃ session, m.state.registry.heap.get? e = some session ∧ session.key = k
  stays : ∀ event e, m.state.registry.stateOf e = some .running →
    (step limits m event).state.registry.stateOf e = some .running ∨
      ∃ task c final, event = .run task c ∧ m.head? task = some (.release e final)
  closed : ∀ event e, m.state.registry.stateOf e = some .closed →
    (step limits m event).state.registry.stateOf e = some .closed
  resolved : ∀ {which scope rawId indexKey c reference},
    new scope rawId = some indexKey →
    m.state.registry.resolveIndexBinding limits which indexKey c = some reference →
    reference.1.scope = scope ∧ m.state.registry.sessions.get? reference.1 = some reference.2 ∧
      ∀ candidates, (m.state.registry.index which).get? indexKey = some candidates →
        ∀ candidate ∈ candidates, m.state.registry.Alive limits c.now candidate → candidate = reference

theorem released_eq_some {event : Event} {e : ℕ} (h : event.released m = some e) :
    ∃ task c final, event = .run task c ∧ m.head? task = some (.release e final) := by
  cases event with
  | run task c =>
    obtain ⟨s, hs, hrel⟩ := Option.bind_eq_some_iff.mp h
    cases s with
    | release entry final =>
      cases hrel
      exact ⟨task, c, final, rfl, hs⟩
    | _ => cases hrel
  | call | release => cases h

theorem Sound.guarded (h : Sound m) : Guarded limits m where
  owners := ⟨h.exclusive.nodup, h.exclusive.running⟩
  parkings := h.exclusive.bounds
  registered := by
    intro e session hget hrun
    obtain ⟨k, hof, hreg⟩ := h.exclusive.held (e := e) (by
      change (m.state.registry.heap.get? e).map CursorSession.state = _
      rw [hget, ← hrun]
      rfl)
    change (m.state.registry.heap.get? e).map CursorSession.key = some k at hof
    rw [hget] at hof
    cases hof
    exact hreg
  keys := by
    intro k e hreg
    exact Option.map_eq_some_iff.mp (h.exclusive.known hreg).1
  stays := by
    intro event e hrun
    obtain ⟨hmove, -, -⟩ := @step_moves limits m h event
    exact (hmove.stays_running hrun).imp id released_eq_some
  closed := by
    intro event e hclosed
    obtain ⟨hmove, -, -⟩ := @step_moves limits m h event
    exact h.exclusive.stays_closed hmove hclosed
  resolved := by
    intro which scope rawId indexKey c reference hnew hres
    obtain ⟨⟨candidates, hget, hmem, hunique⟩, hreg⟩ := resolve_unique hres
    refine ⟨?_, hreg, fun candidates' hget' => ?_⟩
    · rw [h.tidy.indexed _ _ _ hget reference hmem]
      unfold new at hnew
      split at hnew
      · cases hnew
        rfl
      · cases hnew
    · rw [hget] at hget'
      cases hget'
      exact hunique

/-- Sessions are exclusive over every interleaving, and an id is claimed once while its claim lasts. -/
theorem cursor_sessions_exclusive (limits : Limits) :
    (∀ events, Guarded limits (run (step limits) { state := {} } events)) ∧
    (∀ (calls mid : List ClaimCall) (scope : String) (rawIds rawIds' : List String) (now now' : ℕ)
        (granted granted' : Bool) (rawId : String),
      (Claims.claimContinuationIds limits (run (Claims.step limits) .empty calls) scope rawIds now
        granted).1 = .ok () → rawId ∈ rawIds → rawId ∈ rawIds' → rawId ≠ "" → Text.trim rawId = rawId →
      (∀ c ∈ mid, c.now - now ≤ limits.idleTtl) → now' - now ≤ limits.idleTtl → (Claims.claimContinuationIds limits
        (run (Claims.step limits) .empty (calls ++ .claimContinuationIds scope rawIds now granted :: mid))
        scope rawIds' now' granted').1 = .error .alreadyClaimed) ∧
    (∀ (calls : List ClaimCall) (scope : String) (rawIds : List String) (now : ℕ) (granted : Bool)
        (e : CursorContinuationClaimError),
      (Claims.claimContinuationIds limits (run (Claims.step limits) .empty calls) scope rawIds now
        granted).1 = .error e →
      ∀ key t, (Claims.claimContinuationIds limits (run (Claims.step limits) .empty calls) scope rawIds now
          granted).2.get? key = some t →
        (run (Claims.step limits) .empty calls).get? key = some t) := by
  refine ⟨fun events => (Sound.run events).guarded, ?_, ?_⟩
  · intro calls mid scope rawIds rawIds' now now' granted granted' rawId hok hmem hmem' hne htrim hmid hlive
    have hnew : CursorScopedIndexKey.new scope rawId = some (toLex (scope, rawId)) := by
      rw [CursorScopedIndexKey.new, if_pos ⟨hne, htrim⟩]
    have hrecorded := (Claims.claim_ok hok _ (Claims.mem_scopedKeys hmem hnew)).2
    rw [run_append, run_cons]
    exact Claims.claim_refused hmem' hnew (Claims.get?_run hrecorded hmid) hlive
  · intro calls scope rawIds now granted e herr key t hkey
    rw [Claims.claim_error herr] at hkey
    exact (Claims.get?_sweep.mp hkey).1

/-! ## One parked session, two requests -/

def fiveMinutes : Limits := ⟨300000, 100⟩

def calm (now : ℕ) : Circumstances := ⟨now, now, fun _ => false, true⟩

def someKey : CursorSessionKey := toLex ("scope", "conversation")

/-- A session is reserved and parked; then two requests race for it. -/
def race : List Event :=
  [.call (.reserve someKey), .run 0 (calm 0), .run 0 (calm 0), .run 0 (calm 0), .run 0 (calm 0),
    .release 0 .awaitingToolResult, .run 1 (calm 1), .call (.acquire someKey), .call (.acquire someKey),
    .run 3 (calm 2), .run 4 (calm 2), .run 3 (calm 2), .run 4 (calm 2), .run 4 (calm 3), .run 3 (calm 3)]

def firstClaim : ClaimCall := .claimContinuationIds "scope" ["call_1", "call_2"] 0 true

theorem cursor_sessions_exclusive_race :
    (run (step fiveMinutes) { state := {} } race).state.owned = [0] ∧
      ¬(run (step fiveMinutes) { state := {} } race).leases.owners.count 0 > 1 ∧
      (Claims.claimContinuationIds fiveMinutes (run (Claims.step fiveMinutes) .empty ([] ++ [firstClaim]))
        "scope" ["call_2"] 300000 true).1 = .error .alreadyClaimed :=
  ⟨by decide,
    not_lt.mpr (Multiset.nodup_iff_count_le_one.mp ((cursor_sessions_exclusive fiveMinutes).1 race).owners.1 0),
    (cursor_sessions_exclusive fiveMinutes).2.1 [] [] "scope" ["call_1", "call_2"] ["call_2"] 0 300000 true
      true "call_2" (by decide) (by decide) (by decide) (by decide) (by decide)
      (fun c hc => absurd hc not_mem_nil) (by decide)⟩

/-- Two calls share an id with a blank, and two calls share an id between which a call with a later clock
swept the claim: all of them succeed. -/
theorem claims_repeated :
    (Claims.claimContinuationIds fiveMinutes .empty "scope" [" call"] 0 true).1 = .ok () ∧
      (Claims.claimContinuationIds fiveMinutes
        (run (Claims.step fiveMinutes) .empty [.claimContinuationIds "scope" [" call"] 0 true])
        "scope" [" call"] 0 true).1 = .ok () ∧
      (Claims.claimContinuationIds fiveMinutes .empty "scope" ["call"] 0 true).1 = .ok () ∧
      (Claims.claimContinuationIds fiveMinutes (run (Claims.step fiveMinutes) .empty
          [.claimContinuationIds "scope" ["call"] 0 true, .continuationWasClaimed "scope" ["other"] 300001])
        "scope" ["call"] 300000 true).1 = .ok () := by
  decide

end CcSwitchServer.CursorSessions
