import CcSwitchServer.PromptCache.Publication
import CcSwitchServer.PromptCache.Store

/-! # The table agrees with the memory

`stored` is the memory that the table mirrors, `snapshot` the memory when the batch in flight was taken.
-/

namespace CcSwitchServer.PromptCache
open Foundations

/-! ## What is most recent -/

/-- Of two mutations that with the higher generation. -/
def newer : Option PendingMutation → Option PendingMutation → Option PendingMutation
  | some m, some m' => if m.generation < m'.generation then some m' else some m
  | some m, none => some m
  | none, m' => m'

namespace System

def flying (s : System) : OrderedMap ℕ PendingMutation := (s.inFlight.map fun batch => batch.mutations).getD .empty

/-- The most recent of the mutation in flight, the pending one and the row, by their generations. -/
def latest (s : System) (h : ℕ) : Option CacheEntry :=
  match newer (s.cache.pending.get? h) (s.flying.get? h), s.disk.rows.get? h with
  | some m, some row => if m.generation < row.mutationGeneration then some row.entry else m.entry
  | some m, none => m.entry
  | none, row => row.map Row.entry

/-- What is most recent for a hash is the entry in memory or has expired. -/
def Agrees (s : System) (h : ℕ) : Prop :=
  s.latest h = s.cache.entries.get? h ∨
    s.latest h = none ∧ ∃ e, s.cache.entries.get? h = some e ∧ e.expiresAt ≤ s.disk.horizon

def target (s : System) : ℕ := (s.inFlight.map Batch.target).getD s.persistedGeneration

def landed (s : System) : Bool := s.inFlight.any fun batch => batch.committed = some true

def floor (s : System) : ℕ := if s.landed then s.target else s.persistedGeneration

end System

/-! ## The invariant -/

/-- The mutations lead from the one memory to the other. -/
def Overlaid (mutations : OrderedMap ℕ PendingMutation) (old new : OrderedMap ℕ CacheEntry) : Prop :=
  ∀ h, new.get? h = ((mutations.get? h).map PendingMutation.entry).getD (old.get? h)

/-- Every row is an entry, and every entry that has not expired is a row. -/
structure Mirror (d : Disk) (stored : OrderedMap ℕ CacheEntry) : Prop where
  row : ∀ {h row}, d.rows.get? h = some row → stored.get? h = some row.entry
  live : ∀ {h e}, stored.get? h = some e → d.horizon < e.expiresAt → (d.rows.get? h).isSome

/-- No row is newer than the table. -/
structure Disk.Sound (d : Disk) : Prop where
  rows : ∀ {h row}, d.rows.get? h = some row → row.mutationGeneration ≤ d.generation
  generation : d.generation ≤ 2 ^ 63 - 1

/-- The cache is within its capacity and owns the reservations of its entries. -/
structure Owned (cache : CacheState) : Prop where
  capacity : cache.entries.size ≤ cacheCapacity
  resident : ∀ h, (cache.resident.get? h).isSome = (cache.entries.get? h).isSome

/-- The batch leads from `stored` to `snapshot`, and what is pending from there to the entries. -/
structure Agreement (s : System) (stored snapshot : OrderedMap ℕ CacheEntry) (n : ℕ) : Prop where
  owned : Owned s.cache
  storedSize : stored.size ≤ cacheCapacity
  snapshotSize : snapshot.size ≤ cacheCapacity
  enabled : s.cache.persistEnabled = true
  generation : s.cache.generation ≤ n
  target : s.target ≤ s.cache.generation
  persisted : s.persistedGeneration ≤ s.target
  sound : s.disk.Sound
  floor : s.disk.generation ≤ s.floor
  flying : ∀ {h m}, s.flying.get? h = some m → s.persistedGeneration < m.generation ∧ m.generation ≤ s.target
  pending : ∀ {h m}, s.cache.pending.get? h = some m → s.target < m.generation ∧ m.generation ≤ s.cache.generation
  mirror : Mirror s.disk stored
  held : Overlaid s.flying stored snapshot
  landed : s.landed = true → stored = snapshot
  overlaid : Overlaid s.cache.pending snapshot s.cache.entries

variable {s : System} {stored snapshot : OrderedMap ℕ CacheEntry} {n : ℕ}

theorem Agreement.floor_le (h : Agreement s stored snapshot n) : s.floor ≤ s.target := by
  unfold System.floor
  split
  · exact le_rfl
  · exact h.persisted

theorem Overlaid.of_none {mutations : OrderedMap ℕ PendingMutation} {old new : OrderedMap ℕ CacheEntry}
    (h : Overlaid mutations old new) {hash : ℕ} (hnone : mutations.get? hash = none) :
    new.get? hash = old.get? hash := by
  have := h hash
  rwa [hnone] at this

theorem Overlaid.of_some {mutations : OrderedMap ℕ PendingMutation} {old new : OrderedMap ℕ CacheEntry}
    (h : Overlaid mutations old new) {hash : ℕ} {m : PendingMutation} (hsome : mutations.get? hash = some m) :
    new.get? hash = m.entry := by
  have := h hash
  rwa [hsome] at this

theorem Agreement.agrees (h : Agreement s stored snapshot n) (hash : ℕ) : s.Agrees hash := by
  have hfloor := h.floor_le
  unfold System.Agrees System.latest
  cases hpending : s.cache.pending.get? hash with
  | some m =>
    have hm := h.pending hpending
    have hnewer : newer (some m) (s.flying.get? hash) = some m := by
      cases hflying : s.flying.get? hash with
      | none => rfl
      | some m' =>
        have := (h.flying hflying).2
        exact if_neg (by omega)
    refine .inl ?_
    rw [hnewer, h.overlaid.of_some hpending]
    cases hrow : s.disk.rows.get? hash with
    | none => rfl
    | some row =>
      have := h.sound.rows hrow
      have := h.floor
      exact if_neg (by omega)
  | none =>
    have hentry := h.overlaid.of_none hpending
    cases hflying : s.flying.get? hash with
    | some m =>
      refine .inl ?_
      rw [hentry, h.held.of_some hflying]
      cases hrow : s.disk.rows.get? hash with
      | none => rfl
      | some row =>
        change (if m.generation < row.mutationGeneration then some row.entry else m.entry) = m.entry
        split
        · rename_i hlt
          cases hlanded : s.landed with
          | true =>
            rw [← h.held.of_some hflying, ← h.landed hlanded, h.mirror.row hrow]
          | false =>
            have hrows := h.sound.rows hrow
            have hle := h.floor
            have hm := (h.flying hflying).1
            unfold System.floor at hle
            rw [hlanded] at hle
            simp only [Bool.false_eq_true, if_false] at hle
            omega
        · rfl
    | none =>
      rw [hentry, h.held.of_none hflying]
      cases hrow : s.disk.rows.get? hash with
      | some row => exact .inl (h.mirror.row hrow).symm
      | none =>
        cases hstored : stored.get? hash with
        | none => exact .inl rfl
        | some e =>
          refine .inr ⟨rfl, e, rfl, ?_⟩
          by_contra hlive
          have := h.mirror.live hstored (not_le.mp hlive)
          rw [hrow] at this
          cases this

/-! ## Calls -/

/-- A call adds to what is pending. -/
theorem Agreement.publish (h : Agreement s stored snapshot n) (hn : n < u64Max) {now : ℤ} {request : Prompt}
    {slotsUsed : ℕ} : Agreement
      { s with cache := s.cache.publish (plan s.cache.entries now request) slotsUsed } stored snapshot (n + 1) := by
  unfold CacheState.publish
  split
  · exact { h with generation := h.generation.trans (Nat.le_succ n) }
  · have hgen : saturatingAdd s.cache.generation 1 = s.cache.generation + 1 := by
      have := h.generation
      unfold saturatingAdd
      omega
    rw [hgen]
    have hp := published
      { s.cache with generation := s.cache.generation + 1, slotsUsed := slotsUsed }
      (plan s.cache.entries now request) (s.cache.generation + 1)
    have htarget := h.target
    have hle := h.generation
    refine ⟨⟨?_, fun hash => ?_⟩, h.storedSize, h.snapshotSize, hp.persistEnabled.trans h.enabled, ?_, ?_,
      h.persisted, h.sound, h.floor, h.flying, fun {hash m} hm => ?_, h.mirror, h.held, h.landed,
      fun hash => ?_⟩
    · have hentries := hp.entries
      unfold plan at hentries ⊢
      exact size_le_capacity hentries
    · have howned := h.owned.resident hash
      rw [hp.resident, hp.entries]
      cases (plan s.cache.entries now request).get? hash with
      | none => exact howned
      | some change => rfl
    · dsimp only
      rw [hp.generation]
      exact Nat.succ_le_succ hle
    · dsimp only
      rw [hp.generation]
      exact htarget.trans (Nat.le_succ _)
    · dsimp only at hm ⊢
      rw [hp.pending, if_pos h.enabled] at hm
      rw [hp.generation]
      cases htouched : (plan s.cache.entries now request).get? hash with
      | none =>
        rw [htouched] at hm
        have hold := h.pending hm
        exact ⟨hold.1, hold.2.trans (Nat.le_succ _)⟩
      | some change =>
        rw [htouched] at hm
        cases hm
        exact ⟨Nat.lt_succ_of_le htarget, le_rfl⟩
    · have hold := h.overlaid hash
      rw [hp.entries, hp.pending, if_pos h.enabled]
      cases (plan s.cache.entries now request).get? hash with
      | none => exact hold
      | some change => rfl

theorem computeUsage_cases (x : Externals) (cache : CacheState) (body : Json) (namespace_ : Str) (now : ℤ)
    (grants : Grants) : (computeUsage x cache body namespace_ now grants).2 = cache ∨ ∃ slotsUsed,
      (computeUsage x cache body namespace_ now grants).2 =
        cache.publish (plan cache.entries now (prepare x body namespace_).request) slotsUsed := by
  unfold computeUsage
  dsimp only
  split
  · exact .inl rfl
  · rcases lockedUsage_cases cache now grants (prepare x body namespace_).request with heq | ⟨slotsUsed, heq⟩
    · rw [heq]
      exact .inl rfl
    · rw [heq]
      exact .inr ⟨slotsUsed, rfl⟩

theorem Agreement.mono (h : Agreement s stored snapshot n) : Agreement s stored snapshot (n + 1) :=
  { h with generation := h.generation.trans (Nat.le_succ n) }

/-! ## Batches -/

/-- A new batch takes what is pending away. -/
theorem Agreement.takePending (h : Agreement s stored snapshot n) (hfree : s.inFlight = none) :
    ∃ snapshot', Agreement s.takePending stored snapshot' n := by
  have htarget : s.target = s.persistedGeneration := by
    unfold System.target
    rw [hfree]
    rfl
  have hflying : s.flying = .empty := by
    unfold System.flying
    rw [hfree]
    rfl
  have hsame : ∀ hash, snapshot.get? hash = stored.get? hash := by
    intro hash
    refine h.held.of_none ?_
    rw [hflying]
    rfl
  unfold System.takePending
  split
  · rename_i hnothing
    have hempty : ∀ hash, s.cache.pending.get? hash = none := by
      intro hash
      cases hget : s.cache.pending.get? hash with
      | none => rfl
      | some m =>
        rcases hnothing with hzero | hle
        · have hmem := OrderedMap.mem_entries_iff.mpr hget
          rw [List.eq_nil_of_length_eq_zero hzero] at hmem
          cases hmem
        · have hm := h.pending hget
          omega
    refine ⟨snapshot, ⟨⟨h.owned.capacity, h.owned.resident⟩, h.storedSize, h.snapshotSize, h.enabled,
      h.generation, h.target, h.persisted, h.sound, h.floor, h.flying, fun hm => ?_, h.mirror, h.held,
      h.landed, fun hash => ?_⟩⟩
    · cases hm
    · exact h.overlaid.of_none (hempty hash)
  · rename_i hsome
    rw [not_or, not_le] at hsome
    have hunlanded : s.landed = false := by
      unfold System.landed
      rw [hfree]
      rfl
    refine ⟨s.cache.entries, ⟨⟨h.owned.capacity, h.owned.resident⟩, h.storedSize, h.owned.capacity, h.enabled,
      h.generation, le_rfl, hsome.2.le, h.sound, ?_, fun hm => ?_, fun hm => ?_, h.mirror, fun hash => ?_,
      fun hlanded => ?_, fun hash => rfl⟩⟩
    · have hfloor := h.floor
      unfold System.floor at hfloor ⊢
      rw [hunlanded] at hfloor
      exact hfloor
    · have hpending := h.pending hm
      rw [htarget] at hpending
      exact hpending
    · cases hm
    · have hold := h.overlaid hash
      rw [hsame] at hold
      exact hold
    · cases hlanded

end CcSwitchServer.PromptCache
