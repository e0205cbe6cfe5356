import CcSwitchServer.CursorSessions.Leases

/-! # The sections of the registry are moves of the leases

`leasesOf` reads the leases off the registry and the sections that are pending: an entry is lent while a caller
owns it, while its reservation is not returned yet, and until the owner's release has run. `exec_moves` shows
that every section is one move, so that `Exclusive` holds in every reachable state.
-/

namespace CcSwitchServer.CursorSessions
open Foundations Leases CursorSession OrderedMap Section Multiset List Registry Move

/-! ## The registry as functions -/

def Registry.stateOf (r : Registry) (e : ℕ) : Option SessionState := (r.heap.get? e).map state

def Registry.keyOf (r : Registry) (e : ℕ) : Option CursorSessionKey := (r.heap.get? e).map key

namespace Registry
variable {r r' : Registry} {e : ℕ} {session : CursorSession} {key : CursorSessionKey}

theorem update_eq (h : r.heap.get? e = some session) (f : CursorSession → CursorSession) :
    r.update e f = { r with heap := r.heap.insert e (f session) } := by
  rw [update, h]

variable (f : CursorSession → CursorSession)

theorem get?_heap_update (e' : ℕ) :
    (r.update e f).heap.get? e' = if e = e' then (r.heap.get? e).map f else r.heap.get? e' := by
  cases h : r.heap.get? e with
  | none =>
    have hsame : r.update e f = r := by rw [update, h]
    rw [hsame]
    split
    · rename_i heq
      rw [← heq, h]
      rfl
    · rfl
  | some session =>
    rw [update_eq h]
    exact get?_insert _ _ _ _

@[simp] theorem sessions_update : (r.update e f).sessions = r.sessions := by
  rw [update]
  split <;> rfl

@[simp] theorem nextEntry_update : (r.update e f).nextEntry = r.nextEntry := by
  rw [update]
  split <;> rfl

@[simp] theorem index_update (which : Index) : (r.update e f).index which = r.index which := by
  rw [update]
  split <;> cases which <;> rfl

theorem stateOf_update (h : r.heap.get? e = some session) (f : CursorSession → CursorSession) :
    (r.update e f).stateOf = Function.update r.stateOf e (some (f session).state) := by
  funext e'
  rw [stateOf, get?_heap_update]
  by_cases he : e' = e
  · subst he
    rw [if_pos rfl, Function.update_self, h]
    rfl
  · rw [if_neg fun heq => he heq.symm, Function.update_of_ne he]
    rfl

theorem stateOf_update_same (hf : ∀ s, (f s).state = s.state) : (r.update e f).stateOf = r.stateOf := by
  funext e'
  rw [stateOf, get?_heap_update]
  split
  · rename_i he
    subst he
    rw [Option.map_map, stateOf]
    exact congrArg (fun g => (r.heap.get? e).map g) (funext hf)
  · rfl

theorem keyOf_update (hf : ∀ s, (f s).key = s.key) : (r.update e f).keyOf = r.keyOf := by
  funext e'
  rw [keyOf, get?_heap_update]
  split
  · rename_i he
    subst he
    rw [Option.map_map, keyOf]
    exact congrArg (fun g => (r.heap.get? e).map g) (funext hf)
  · rfl

theorem get?_erase_eq_update (m : OrderedMap CursorSessionKey ℕ) (key : CursorSessionKey) :
    (m.erase key).get? = Function.update m.get? key none := by
  funext k
  rw [get?_erase]
  by_cases hk : k = key
  · rw [if_pos hk.symm, hk, Function.update_self]
  · rw [if_neg fun heq => hk heq.symm, Function.update_of_ne hk]

theorem removeCurrent_cases (r : Registry) (key : CursorSessionKey) (e : ℕ) :
    r.removeCurrent key e = (false, r) ∧ r.sessions.get? key ≠ some e ∨
      r.removeCurrent key e = (true, { r with sessions := r.sessions.erase key }) ∧ r.sessions.get? key = some e := by
  unfold removeCurrent
  split
  · rename_i h
    exact .inr ⟨rfl, h⟩
  · rename_i h
    exact .inl ⟨rfl, h⟩

/-- Both evictions: an entry that is not running leaves the map and is closed. -/
structure Evicted (r r' : Registry) (key : CursorSessionKey) (e : ℕ) : Prop where
  present : ∃ session, r.heap.get? e = some session
  idle : r.stateOf e ≠ some .running
  registered : r.sessions.get? key = some e
  eq : r' = ({ r with sessions := r.sessions.erase key } : Registry).update e
    fun session => { session with state := .closed }

variable {b : Bool}

theorem removeCurrent_evicted (hget : r.heap.get? e = some session) (hidle : session.state ≠ .running)
    (h : (match r.removeCurrent key e with
      | (false, r) => (false, r)
      | (true, r) => (true, r.update e fun session => { session with state := .closed })) = (b, r')) :
    b = false ∧ r' = r ∨ b = true ∧ Evicted r r' key e := by
  rcases removeCurrent_cases r key e with ⟨heq, _⟩ | ⟨heq, hreg⟩
  · rw [heq] at h
    cases h
    exact .inl ⟨rfl, rfl⟩
  · rw [heq] at h
    cases h
    refine .inr ⟨rfl, ⟨session, hget⟩, ?_, hreg, rfl⟩
    rw [stateOf, hget]
    exact fun hrun => hidle (Option.some.inj hrun)

theorem evictExpiredCandidate_cases {limits : Limits} {now : ℕ}
    (h : evictExpiredCandidate limits r key e now = (b, r')) :
    b = false ∧ r' = r ∨ b = true ∧ Evicted r r' key e := by
  unfold evictExpiredCandidate at h
  split at h
  · cases h
    exact .inl ⟨rfl, rfl⟩
  · rename_i session hget
    split at h
    · cases h
      exact .inl ⟨rfl, rfl⟩
    · rename_i hnot
      exact removeCurrent_evicted hget (fun hrun => hnot (.inl hrun)) h

theorem evictVictim_cases {limits : Limits} (h : evictVictim limits r key e = (b, r')) :
    b = false ∧ r' = r ∨ b = true ∧ Evicted r r' key e := by
  unfold evictVictim at h
  split at h
  · cases h
    exact .inl ⟨rfl, rfl⟩
  · rename_i session hget
    split at h
    · cases h
      exact .inl ⟨rfl, rfl⟩
    · rename_i hnot
      exact removeCurrent_evicted hget (fun hrun => hnot (.inl hrun)) h

@[simp] theorem heap_withIndex (which : Index) (m) : (r.withIndex which m).heap = r.heap := by
  cases which <;> rfl

@[simp] theorem sessions_withIndex (which : Index) (m) : (r.withIndex which m).sessions = r.sessions := by
  cases which <;> rfl

@[simp] theorem nextEntry_withIndex (which : Index) (m) : (r.withIndex which m).nextEntry = r.nextEntry := by
  cases which <;> rfl

end Registry

/-! ## The leases of a state -/

def Section.token : Section → Option ℕ
  | .checkCapacity entry => some entry
  | .release entry _ => some entry
  | _ => none

def Section.released : Section → Option ℕ
  | .release entry _ => some entry
  | _ => none

def Section.closingToken : Section → Option (CursorSessionKey × ℕ)
  | .unregister key entry => some (key, entry)
  | _ => none

def leasesOf (w : World) (pending : List Section) : Leases CursorSessionKey where
  state := w.registry.stateOf
  keyOf := w.registry.keyOf
  registered := w.registry.sessions.get?
  owners := (w.owned ++ pending.filterMap token : List ℕ)
  closing := (pending.filterMap closingToken : List (CursorSessionKey × ℕ))
  acquisitions e := w.log.count (.acquired e)
  parkings e := w.log.count (.parked e)

def Manager.leases (m : Manager) : Leases CursorSessionKey := leasesOf m.state m.pending

theorem leasesOf_perm (w : World) {pending pending' : List Section} (h : pending.Perm pending') :
    leasesOf w pending = leasesOf w pending' := by
  unfold leasesOf
  rw [coe_eq_coe.mpr ((h.filterMap token).append_left w.owned), coe_eq_coe.mpr (h.filterMap closingToken)]

def Free (sections : List Section) : Prop := sections.filterMap token = [] ∧ sections.filterMap closingToken = []

theorem leasesOf_free (w : World) {sections others : List Section} (h : Free sections) :
    leasesOf w (sections ++ others) = leasesOf w others := by
  unfold leasesOf
  rw [filterMap_append, filterMap_append, h.1, h.2]
  rfl

theorem free_append {xs ys : List Section} (h : Free xs) (h' : Free ys) : Free (xs ++ ys) := by
  unfold Free at *
  rw [filterMap_append, filterMap_append, h.1, h'.1, h.2, h'.2]
  exact ⟨rfl, rfl⟩

theorem free_evictCandidates (references : List CursorSessionReference) (now : ℕ) :
    Free (references.map fun e => .evictCandidate e.1 e.2 now) := by
  induction references with
  | nil => exact ⟨rfl, rfl⟩
  | cons e references ih => exact ih

def Fresh (r : Registry) : Prop := ∀ {e session}, r.heap.get? e = some session → e < r.nextEntry

theorem Leases.Move.of_eq {κ : Type} [DecidableEq κ] {released : Option ℕ} {l l' : Leases κ} (h : l' = l) :
    Move released l l' := by
  rw [h]
  exact .keep l

theorem leasesOf_registry {w w' : World} (pending : List Section)
    (hstate : w'.registry.stateOf = w.registry.stateOf) (hkey : w'.registry.keyOf = w.registry.keyOf)
    (hsessions : w'.registry.sessions = w.registry.sessions) (howned : w'.owned = w.owned)
    (hlog : ∀ e, w'.log.count (.acquired e) = w.log.count (.acquired e) ∧
      w'.log.count (.parked e) = w.log.count (.parked e)) :
    leasesOf w' pending = leasesOf w pending := by
  unfold leasesOf
  rw [hstate, hkey, hsessions, howned]
  congr 1
  · funext e
    exact (hlog e).1
  · funext e
    exact (hlog e).2

/-! ## One move for each section -/

section
variable {w : World} {others : List Section} {key : CursorSessionKey} {e : ℕ} {released : Option ℕ}

variable {r' : Registry} {c : Circumstances}

theorem evicted_moves (h : Registry.Evicted w.registry r' key e) {next : List Section} (hnext : Free next) :
    Move released (leasesOf w others) (leasesOf { w with registry := r' } (next ++ others)) := by
  obtain ⟨session, hget⟩ := h.present
  have hstate : r'.stateOf = Function.update w.registry.stateOf e (some .closed) := by
    rw [h.eq]
    exact @stateOf_update { w.registry with sessions := w.registry.sessions.erase key } e session hget _
  have hkey : r'.keyOf = w.registry.keyOf := by
    rw [h.eq]
    exact keyOf_update _ fun _ => rfl
  have hsessions : r'.sessions.get? = Function.update w.registry.sessions.get? key none := by
    rw [h.eq, sessions_update]
    exact get?_erase_eq_update _ _
  rw [leasesOf_free _ hnext]
  have hmove := @evict _ _ released (leasesOf w others) _ _ h.idle h.registered
  convert hmove using 1
  unfold leasesOf
  rw [hstate, hkey, hsessions]

theorem entered_moves (hfresh : Fresh w.registry) (h : w.registry.insertNewEntry key c = .ok (e, r')) :
    Move released (leasesOf w others)
      (leasesOf { w with registry := r' } ([.enforceMaxSessions, .checkCapacity e] ++ others)) := by
  unfold Registry.insertNewEntry at h
  split at h
  · cases h
  · rename_i hfree
    cases h
    have hnone : w.registry.heap.get? w.registry.nextEntry = none := by
      rw [Option.eq_none_iff_forall_ne_some]
      intro session hget
      exact absurd (hfresh hget) (lt_irrefl _)
    have hstate : w.registry.stateOf w.registry.nextEntry = none := by
      rw [stateOf, hnone]
      rfl
    have hupdate : ∀ {τ : Type} (f : CursorSession → τ), (fun e => ((w.registry.heap.insert
        w.registry.nextEntry ⟨key, .running, c.now⟩).get? e).map f) =
        Function.update (fun e => (w.registry.heap.get? e).map f) w.registry.nextEntry
          (some (f ⟨key, .running, c.now⟩)) := by
      intro τ f
      funext e'
      rw [get?_insert]
      by_cases he : e' = w.registry.nextEntry
      · rw [if_pos he.symm, he, Function.update_self]
        rfl
      · rw [if_neg fun heq => he heq.symm, Function.update_of_ne he]
    have hsessions : (w.registry.sessions.insert key w.registry.nextEntry).get? =
        Function.update w.registry.sessions.get? key (some w.registry.nextEntry) := by
      funext k
      rw [get?_insert]
      by_cases hk : k = key
      · rw [if_pos hk.symm, hk, Function.update_self]
      · rw [if_neg fun heq => hk heq.symm, Function.update_of_ne hk]
    have hmove := @enter _ _ released (leasesOf w others) _ _ hfree hstate
    convert hmove using 1
    unfold leasesOf
    congr 1
    · exact hupdate state
    · exact hupdate CursorSession.key
    · exact coe_eq_coe.mpr perm_middle

theorem acquired_moves {limits : Limits} {reference : CursorSessionReference}
    (h : acquireLocked limits w.registry reference c = some r') (owned : List ℕ) (next : List Section)
    (howned : (owned ++ next.filterMap token).Perm (reference.2 :: w.owned))
    (hnext : next.filterMap closingToken = []) :
    Move released (leasesOf w others)
      (leasesOf { registry := r', owned := owned, log := .acquired reference.2 :: w.log } (next ++ others)) := by
  unfold Registry.acquireLocked at h
  split at h
  · cases h
  · rename_i session hget
    split at h
    · cases h
    · rename_i hstate
      split at h
      · cases h
      · rename_i hkey
        cases h
        have hparked : w.registry.stateOf reference.2 = some .awaitingToolResult := by
          rw [stateOf, hget]
          exact congrArg some (not_not.mp fun hne => hstate (.inl hne))
        have hkeyOf : (w.registry.update reference.2 fun session =>
            { session with state := .running, lastActivity := c.later }).keyOf = w.registry.keyOf :=
          keyOf_update _ fun _ => rfl
        have hmove := @acquire _ _ released (leasesOf w others) _ _ hparked (not_not.mp hkey)
        convert hmove using 1
        unfold leasesOf
        rw [stateOf_update hget, hkeyOf, sessions_update]
        congr 1
        · rw [filterMap_append]
          refine coe_eq_coe.mpr ?_
          rw [← append_assoc]
          exact howned.append_right _
        · rw [filterMap_append, hnext, nil_append]
        · funext e'
          by_cases he : e' = reference.2
          · subst he
            rw [Function.update_self, List.count_cons_self]
          · rw [Function.update_of_ne he, List.count_cons_of_ne]
            intro heq
            cases heq
            exact he rfl

theorem coe_erase_middle {τ : Type} [DecidableEq τ] (xs ys : List τ) (x : τ) :
    ((xs ++ x :: ys : List τ) : Multiset τ).erase x = (xs ++ ys : List τ) := by
  rw [Multiset.coe_eq_coe.mpr List.perm_middle, ← Multiset.cons_coe, Multiset.erase_cons_head]

theorem parked_moves {session : CursorSession} (hget : w.registry.heap.get? e = some session)
    (howned : e ∈ (leasesOf w (.release e .awaitingToolResult :: others)).owners) :
    Move (some e) (leasesOf w (.release e .awaitingToolResult :: others)) (leasesOf { w with
          registry := w.registry.update e fun session =>
            { session with lastActivity := c.now, state := .awaitingToolResult }
          log := .parked e :: w.log } ([.idleTimer e] ++ others)) := by
  have hkeyOf : (w.registry.update e fun session =>
      { session with lastActivity := c.now, state := .awaitingToolResult }).keyOf = w.registry.keyOf :=
    keyOf_update _ fun _ => rfl
  have hmove := park _ rfl howned
  convert hmove using 1
  unfold leasesOf
  rw [stateOf_update hget, hkeyOf, sessions_update]
  congr 1
  · exact (coe_erase_middle _ _ e).symm
  · funext e'
    by_cases he : e' = e
    · subst he
      rw [Function.update_self, List.count_cons_self]
    · rw [Function.update_of_ne he, List.count_cons_of_ne]
      intro heq
      cases heq
      exact he rfl

theorem closed_moves {session : CursorSession} {final : SessionState}
    (hget : w.registry.heap.get? e = some session) (howned : e ∈ (leasesOf w (.release e final :: others)).owners) :
    Move (some e) (leasesOf w (.release e final :: others)) (leasesOf { w with
          registry := w.registry.update e fun session =>
            { session with lastActivity := c.now, state := .closed } }
        ([.unregister session.key e] ++ others)) := by
  have hkeyOf : (w.registry.update e fun session =>
      { session with lastActivity := c.now, state := .closed }).keyOf = w.registry.keyOf :=
    keyOf_update _ fun _ => rfl
  have hmove := @close _ _ _ _ session.key _ rfl howned
  convert hmove using 1
  unfold leasesOf
  rw [stateOf_update hget, hkeyOf, sessions_update]
  congr 1
  exact (coe_erase_middle _ _ e).symm

theorem unregistered_moves (h : w.registry.sessions.get? key = some e) {next : List Section} (hnext : Free next) :
    Move released (leasesOf w (.unregister key e :: others)) (leasesOf
        { w with registry := { w.registry with sessions := w.registry.sessions.erase key } }
        (next ++ others)) := by
  rw [leasesOf_free _ hnext]
  have hmove := @unregister _ _ released (leasesOf w (.unregister key e :: others)) key e (mem_coe.mpr mem_cons_self) h
  convert hmove using 1
  unfold leasesOf
  rw [get?_erase_eq_update]
  congr 1
  exact (coe_erase_middle [] _ (key, e)).symm

theorem gone_moves : Move released (leasesOf w (.unregister key e :: others)) (leasesOf w others) := by
  have hmove := @gone _ _ released (leasesOf w (.unregister key e :: others)) key e (mem_coe.mpr mem_cons_self)
  convert hmove using 1
  unfold leasesOf
  congr 1
  exact (coe_erase_middle [] _ (key, e)).symm

end

theorem exec_moves {limits : Limits} {w : World} {c : Circumstances} {s : Section} {others : List Section}
    (hfresh : Fresh w.registry) (h : Exclusive (leasesOf w (s :: others))) :
    Move s.released (leasesOf w (s :: others)) (leasesOf (exec limits w c s).state
        ((exec limits w c s).next ++ (exec limits w c s).spawned.flatten ++ others)) := by
  cases s with
  | evictExpired =>
    refine .of_eq ?_
    rw [exec, leasesOf_free]
    · rfl
    · exact free_append (free_evictCandidates _ _) (show Free [] from ⟨rfl, rfl⟩)
  | evictCandidate key entry now =>
    rw [exec]
    split
    · rename_i r heq
      rcases evictExpiredCandidate_cases heq with ⟨-, rfl⟩ | ⟨hb, -⟩
      · exact .keep _
      · cases hb
    · rename_i r heq
      rcases evictExpiredCandidate_cases heq with ⟨hb, -⟩ | ⟨-, hev⟩
      · cases hb
      · exact evicted_moves hev (show Free (dropIndexes entry) from ⟨rfl, rfl⟩)
  | idleTimer entry =>
    refine .of_eq ?_
    rw [exec]
    split <;> rfl
  | removeIndexes which entry =>
    refine .of_eq ?_
    rw [exec]
    refine leasesOf_registry others ?_ ?_ ?_ rfl fun _ => ⟨rfl, rfl⟩
    · funext e
      rw [Registry.stateOf, Registry.removeIndexes, Registry.heap_withIndex]
      rfl
    · funext e
      rw [Registry.keyOf, Registry.removeIndexes, Registry.heap_withIndex]
      rfl
    · rw [Registry.removeIndexes, Registry.sessions_withIndex]
  | insertNewEntry key =>
    rw [exec]
    split
    · exact .keep _
    · rename_i entry r heq
      exact entered_moves hfresh heq
  | enforceMaxSessions =>
    refine .of_eq ?_
    rw [exec]
    split <;> rfl
  | evictVictim key entry =>
    rw [exec]
    split
    · rename_i r heq
      rcases evictVictim_cases heq with ⟨-, rfl⟩ | ⟨hb, -⟩
      · exact .of_eq rfl
      · cases hb
    · rename_i r heq
      rcases evictVictim_cases heq with ⟨hb, -⟩ | ⟨-, hev⟩
      · cases hb
      · exact evicted_moves hev (show Free (dropIndexes entry ++ [.enforceMaxSessions]) from ⟨rfl, rfl⟩)
  | checkCapacity entry =>
    refine .of_eq ?_
    rw [exec]
    split
    · rfl
    · unfold leasesOf
      congr 1
      exact coe_eq_coe.mpr perm_middle.symm
  | lookup key =>
    refine .of_eq ?_
    rw [exec]
    split <;> rfl
  | acquireLocked reference close =>
    rw [exec]
    split
    · exact .keep _
    · rename_i r heq
      split
      · exact acquired_moves heq w.owned [.release reference.2 .closed] (perm_append_singleton _ _) rfl
      · exact acquired_moves heq (reference.2 :: w.owned) [] (by simp) rfl
  | attachStream entry =>
    refine .of_eq ?_
    rw [exec, Registry.attachStream]
    split
    · rfl
    · split
      · exact leasesOf_registry others (stateOf_update_same _ fun _ => rfl)
          (keyOf_update _ fun _ => rfl) (sessions_update _) rfl fun _ => ⟨rfl, rfl⟩
      · rfl
  | release entry final =>
    have howned : entry ∈ (leasesOf w (.release entry final :: others)).owners :=
      mem_coe.mpr (mem_append_right _ mem_cons_self)
    rw [exec]
    split
    · rename_i hnone
      have hrun := (h.running entry).mp howned
      change w.registry.stateOf entry = _ at hrun
      rw [stateOf, hnone] at hrun
      cases hrun
    · rename_i session hget
      cases final with
      | awaitingToolResult => exact parked_moves hget howned
      | closed => exact closed_moves hget howned
      | running => exact closed_moves hget howned
  | unregister key entry =>
    rw [exec]
    rcases removeCurrent_cases w.registry key entry with ⟨heq, _⟩ | ⟨heq, hreg⟩
    · rw [heq]
      exact gone_moves
    · rw [heq]
      exact unregistered_moves hreg (show Free (dropIndexes entry) from ⟨rfl, rfl⟩)
  | reserveBinding which key entry indexKey =>
    refine .of_eq ?_
    rw [exec]
    split <;> rfl
  | bind which key entry indexKey =>
    refine .of_eq ?_
    rw [exec, Registry.bind]
    split
    · dsimp only
      split
      · rfl
      · refine leasesOf_registry others ?_ ?_ (sessions_withIndex _ _) rfl fun _ => ⟨rfl, rfl⟩
        · funext e
          rw [stateOf, heap_withIndex]
          rfl
        · funext e
          rw [Registry.keyOf, Registry.heap_withIndex]
          rfl
    · rfl
  | resolve which indexKey =>
    refine .of_eq ?_
    rw [exec]
    split
    · rfl
    · refine leasesOf_registry others rfl rfl rfl rfl fun e => ⟨?_, ?_⟩
      · exact count_cons_of_ne (by simp)
      · exact count_cons_of_ne (by simp)

end CcSwitchServer.CursorSessions
