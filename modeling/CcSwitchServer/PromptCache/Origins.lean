import CcSwitchServer.PromptCache.Prefixes
import CcSwitchServer.PromptCache.Transactions

/-! # Where entries come from

Every entry in memory, pending, in flight and on disk comes from a breakpoint or from the legacy file.
-/

namespace CcSwitchServer.PromptCache
open Foundations OrderedMap Disk List PromptCache.System

/-- All entries of the system, wherever they are. -/
structure AllKnown (P : ℕ → ℕ → Prop) (s : System) : Prop where
  entries : ∀ h e, s.cache.entries.get? h = some e → P h e.tokens
  pending : ∀ h m e, s.cache.pending.get? h = some m → m.entry = some e → P h e.tokens
  flying : ∀ b, s.inFlight = some b → ∀ h m e, b.mutations.get? h = some m → m.entry = some e → P h e.tokens
  rows : ∀ h row, s.disk.rows.get? h = some row → P h row.entry.tokens
  legacy : ∀ l, s.disk.legacy = some l → ∀ h e, l.get? h = some e → P h e.tokens

variable {P Q : ℕ → ℕ → Prop} {s : System} {d : Disk}

theorem AllKnown.mono (h : AllKnown P s) (hPQ : ∀ hash tokens, P hash tokens → Q hash tokens) : AllKnown Q s where
  entries hash e hget := hPQ _ _ (h.entries hash e hget)
  pending hash m e hget hentry := hPQ _ _ (h.pending hash m e hget hentry)
  flying b hb hash m e hget hentry := hPQ _ _ (h.flying b hb hash m e hget hentry)
  rows hash row hget := hPQ _ _ (h.rows hash row hget)
  legacy l hl hash e hget := hPQ _ _ (h.legacy l hl hash e hget)

/-! ## Calls -/

theorem AllKnown.publish (h : AllKnown P s) {now : ℤ} {request : Prompt} {slotsUsed : ℕ}
    (hwrites : ∀ write ∈ request.writes, P write.1 write.2.1) :
    AllKnown P { s with cache := s.cache.publish (plan s.cache.entries now request) slotsUsed } := by
  unfold CacheState.publish
  split
  · exact h
  · have hp := published
      { s.cache with generation := saturatingAdd s.cache.generation 1, slotsUsed := slotsUsed }
      (plan s.cache.entries now request) (saturatingAdd s.cache.generation 1)
    have hnew : ∀ {hash e}, (plan s.cache.entries now request).get? hash = some (some e) → P hash e.tokens := by
      intro hash e hget
      rcases plan_sourced s.cache.entries now request hash e hget with ⟨old, hold, heq⟩ | ⟨write, hmem, rfl, heq⟩
      · rw [heq]
        exact h.entries hash old hold
      · rw [heq]
        exact hwrites write hmem
    refine ⟨fun hash e hget => ?_, fun hash m e hget hentry => ?_, h.flying, h.rows, h.legacy⟩
    · dsimp only at hget
      rw [hp.entries] at hget
      cases htouched : (plan s.cache.entries now request).get? hash with
      | none =>
        rw [htouched] at hget
        exact h.entries hash e hget
      | some change =>
        rw [htouched] at hget
        change change = some e at hget
        subst hget
        exact hnew htouched
    · dsimp only at hget
      rw [hp.pending] at hget
      split at hget
      · cases htouched : (plan s.cache.entries now request).get? hash with
        | none =>
          rw [htouched] at hget
          exact h.pending hash m e hget hentry
        | some change =>
          rw [htouched] at hget
          cases hget
          change change = some e at hentry
          subst hentry
          exact hnew htouched
      · exact h.pending hash m e hget hentry

/-! ## The table -/

def Disk.Known (P : ℕ → ℕ → Prop) (d : Disk) : Prop := ∀ h row, d.rows.get? h = some row → P h row.entry.tokens

theorem Disk.Known.deleteExpired (h : d.Known P) (now : ℤ) : (d.deleteExpired now).Known P :=
  fun hash row hget => h hash row (get?_filter_eq_some.mp hget).1

theorem Disk.Known.deleteExcess (h : d.Known P) : d.deleteExcess.Known P :=
  fun hash row hget => h hash row (deleteExcess_row hget)

theorem Disk.Known.applyMutation (h : d.Known P) {e : ℕ × PendingMutation}
    (hentry : ∀ entry, e.2.entry = some entry → P e.1 entry.tokens) : (d.applyMutation e).Known P := by
  unfold Disk.applyMutation
  dsimp only
  split
  · exact h
  · split
    · rename_i entry heq
      intro hash row hget
      rw [get?_insert] at hget
      split at hget
      · rename_i hk
        cases hget
        rw [← hk]
        exact hentry entry heq
      · exact h hash row hget
    · intro hash row hget
      rw [get?_erase] at hget
      split at hget
      · cases hget
      · exact h hash row hget

theorem Disk.Known.foldl_applyMutation (h : d.Known P) {es : List (ℕ × PendingMutation)}
    (hes : ∀ e ∈ es, ∀ entry, e.2.entry = some entry → P e.1 entry.tokens) :
    (es.foldl Disk.applyMutation d).Known P ∧ (es.foldl Disk.applyMutation d).legacy = d.legacy := by
  induction es generalizing d with
  | nil => exact ⟨h, rfl⟩
  | cons e es ih =>
    have hlegacy : (d.applyMutation e).legacy = d.legacy := by
      unfold Disk.applyMutation
      dsimp only
      split
      · rfl
      · split <;> rfl
    obtain ⟨hknown, hsame⟩ := ih (h.applyMutation (hes e mem_cons_self)) fun e' he' =>
      hes e' (mem_cons_of_mem _ he')
    rw [foldl_cons]
    exact ⟨hknown, hsame.trans hlegacy⟩

theorem Disk.Known.importLegacy (h : d.Known P) {entries : List (ℕ × CacheEntry)}
    (hentries : ∀ e ∈ entries, P e.1 e.2.tokens) : (d.importLegacy entries).Known P := by
  have hgeneral : ∀ rows : OrderedMap ℕ Row, (∀ hash row, rows.get? hash = some row → P hash row.entry.tokens) →
      ∀ hash row, (entries.foldl (fun rows e =>
        rows.insert e.1 ⟨{ e.2 with ttlSecs := max 60 (min e.2.ttlSecs maxTtlSecs) }, 0⟩) rows).get? hash =
          some row → P hash row.entry.tokens := by
    induction entries with
    | nil => exact fun rows hrows => hrows
    | cons e entries ih =>
      intro rows hrows
      rw [foldl_cons]
      refine ih (fun e' he' => hentries e' (mem_cons_of_mem _ he')) _ fun hash row hget => ?_
      rw [get?_insert] at hget
      split at hget
      · rename_i hk
        cases hget
        rw [← hk]
        exact hentries e mem_cons_self
      · exact hrows hash row hget
  exact hgeneral d.rows h

theorem Disk.Known.migrate (h : d.Known P)
    (hlegacy : ∀ l, d.legacy = some l → ∀ hash e, l.get? hash = some e → P hash e.tokens) (now : ℤ) :
    (d.migrate now).Known P ∧ (d.migrate now).legacy = d.legacy := by
  unfold Disk.migrate
  cases hl : d.legacy with
  | none => exact ⟨h, hl⟩
  | some l =>
    dsimp only
    split
    · refine ⟨h.importLegacy fun e he => ?_, hl⟩
      have hmem := mem_of_mem_take he
      have hfiltered := (perm_insertionSort _ _).mem_iff.mp hmem
      exact hlegacy l hl e.1 e.2 (mem_entries_iff.mp (mem_of_mem_filter hfiltered))
    · exact ⟨h, hl⟩

/-! ## Batches and restarts -/

theorem AllKnown.persist (h : AllKnown P s) {batch : Batch} (hbatch : s.inFlight = some batch) (now : ℤ)
    (succeeds : Bool) : AllKnown P (s.persist batch now succeeds) := by
  have hmutations := h.flying batch hbatch
  unfold System.persist
  split
  · rename_i disk hdisk
    cases succeeds with
    | false => cases hdisk
    | true =>
      rw [if_pos rfl] at hdisk
      unfold persistMutations at hdisk
      split at hdisk
      · obtain ⟨hknown, hlegacy⟩ := @Disk.Known.foldl_applyMutation P s.disk h.rows batch.mutations.entries
          fun e he entry hentry =>
            hmutations e.1 e.2 entry (mem_entries_iff.mp he) hentry
        have hcleaned := (hknown.deleteExpired now).deleteExcess
        have hkept : (((batch.mutations.entries.foldl applyMutation s.disk).deleteExpired now).deleteExcess).legacy =
            s.disk.legacy := by
          unfold deleteExcess deleteExpired
          exact hlegacy
        generalize ((batch.mutations.entries.foldl applyMutation s.disk).deleteExpired now).deleteExcess =
          cleaned at hcleaned hkept hdisk
        rw [← Option.some.inj hdisk]
        refine ⟨h.entries, h.pending, fun b hb => ?_, hcleaned, fun l hl => ?_⟩
        · cases hb
          exact hmutations
        · exact h.legacy l (hkept ▸ hl)
      · cases hdisk
  · refine ⟨h.entries, h.pending, fun b hb => ?_, h.rows, h.legacy⟩
    cases hb
    exact hmutations

theorem known_mergeOne {cache : CacheState} {es : List (ℕ × PendingMutation)}
    (h : ∀ hash m e, cache.pending.get? hash = some m → m.entry = some e → P hash e.tokens)
    (hes : ∀ e ∈ es, ∀ entry, e.2.entry = some entry → P e.1 entry.tokens) :
    (es.foldl mergeOne cache).entries = cache.entries ∧
      ∀ hash m e, (es.foldl mergeOne cache).pending.get? hash = some m → m.entry = some e → P hash e.tokens := by
  induction es generalizing cache with
  | nil => exact ⟨rfl, h⟩
  | cons e es ih =>
    have hone : (mergeOne cache e).entries = cache.entries ∧
        ∀ hash m e', (mergeOne cache e).pending.get? hash = some m → m.entry = some e' → P hash e'.tokens := by
      unfold mergeOne
      split
      · refine ⟨rfl, fun hash m e' hget hentry => ?_⟩
        rw [get?_insert] at hget
        split at hget
        · rename_i hk
          cases hget
          rw [← hk]
          exact hes e mem_cons_self e' hentry
        · exact h hash m e' hget hentry
      · exact ⟨rfl, h⟩
    obtain ⟨hentries, hpending⟩ := ih hone.2 fun e' he' => hes e' (mem_cons_of_mem _ he')
    rw [foldl_cons]
    exact ⟨hentries.trans hone.1, hpending⟩

theorem AllKnown.finish (h : AllKnown P s) {batch : Batch} (hbatch : s.inFlight = some batch) :
    AllKnown P (s.finish batch) := by
  have hmutations := h.flying batch hbatch
  unfold System.finish
  split
  · exact h
  · refine ⟨h.entries, h.pending, fun b hb => ?_, h.rows, h.legacy⟩
    cases hb
  · obtain ⟨hentries, hpending⟩ := @known_mergeOne P s.cache batch.mutations.entries h.pending fun e he entry hentry =>
      hmutations e.1 e.2 entry (mem_entries_iff.mp he) hentry
    refine ⟨fun hash e hget => h.entries hash e ?_, hpending, fun b hb => ?_, h.rows, h.legacy⟩
    · dsimp only [mergePending] at hget
      rwa [hentries] at hget
    · cases hb

theorem known_loaded {rows : List (ℕ × Row)} (h : ∀ e ∈ rows, P e.1 e.2.entry.tokens) :
    ∀ hash e, (rows.foldl (fun (entries : OrderedMap ℕ CacheEntry) e => entries.insert e.1 e.2.entry)
      .empty).get? hash = some e → P hash e.tokens := by
  have hgeneral : ∀ entries : OrderedMap ℕ CacheEntry,
      (∀ hash e, entries.get? hash = some e → P hash e.tokens) → ∀ hash e,
      (rows.foldl (fun (entries : OrderedMap ℕ CacheEntry) e => entries.insert e.1 e.2.entry) entries).get? hash =
        some e → P hash e.tokens := by
    induction rows with
    | nil => exact fun entries hentries => hentries
    | cons row rows ih =>
      intro entries hentries
      rw [foldl_cons]
      refine ih (fun e he => h e (mem_cons_of_mem _ he)) _ fun hash e hget => ?_
      rw [get?_insert] at hget
      split at hget
      · rename_i hk
        cases hget
        rw [← hk]
        exact h row mem_cons_self
      · exact hentries hash e hget
  refine hgeneral .empty fun hash e hget => ?_
  cases hget

theorem known_start (h : d.Known P)
    (hlegacy : ∀ l, d.legacy = some l → ∀ hash e, l.get? hash = some e → P hash e.tokens) (now : ℤ)
    (startup : Startup) : AllKnown P (start d now startup) := by
  obtain ⟨hmigrated, hsame⟩ := h.migrate hlegacy now
  have hloaded : (d.loadOrMigrate now).Known P := (hmigrated.deleteExpired now).deleteExcess
  have hloadedLegacy : (d.loadOrMigrate now).legacy = d.legacy := by
    unfold loadOrMigrate loadEntries deleteExcess deleteExpired
    exact hsame
  unfold start
  split
  · generalize d.loadOrMigrate now = d' at hloaded hloadedLegacy
    refine ⟨known_loaded fun e he => ?_, fun _ _ _ hget => ?_, fun _ hb => ?_, hloaded, fun l hl => ?_⟩
    · exact hloaded e.1 e.2 (mem_entries_iff.mp (mem_of_mem_filter he))
    · cases hget
    · cases hb
    · exact hlegacy l (hloadedLegacy ▸ hl)
  · refine ⟨fun _ _ hget => ?_, fun _ _ _ hget => ?_, fun _ hb => ?_, ?_, ?_⟩
    · cases hget
    · cases hget
    · cases hb
    · dsimp only
      split
      · exact hmigrated
      · exact h
    · dsimp only
      split
      · exact fun l hl => hlegacy l (hsame ▸ hl)
      · exact hlegacy

/-- Renewals, evictions, failed batches and restarts keep this. -/
theorem AllKnown.step {x : Externals} (h : AllKnown P s) {event : Event}
    (hcall : ∀ body namespace_ now grants, event = .computeUsage body namespace_ now grants →
      ∀ write ∈ (prepare x body namespace_).request.writes, P write.1 write.2.1) :
    AllKnown P (s.step x event) := by
  cases event with
  | computeUsage body namespace_ now grants =>
    unfold System.step computeUsage
    dsimp only
    split
    · exact h
    · rcases lockedUsage_cases s.cache now grants (prepare x body namespace_).request with heq | ⟨slotsUsed, heq⟩
      · rw [heq]
        exact h
      · rw [heq]
        exact h.publish (hcall body namespace_ now grants rfl)
  | takePending =>
    unfold System.step
    dsimp only
    split
    · unfold takePending
      split
      · refine ⟨h.entries, fun _ _ _ hget => ?_, h.flying, h.rows, h.legacy⟩
        cases hget
      · refine ⟨h.entries, fun _ _ _ hget => ?_, fun b hb => ?_, h.rows, h.legacy⟩
        · cases hget
        · cases hb
          exact h.pending
    · exact h
  | persistMutations now succeeds =>
    unfold System.step
    dsimp only
    split
    · rename_i batch hbatch
      split
      · exact h.persist hbatch now succeeds
      · exact h
    · exact h
  | finishBatch =>
    unfold System.step
    dsimp only
    split
    · rename_i batch hbatch
      exact h.finish hbatch
    · exact h
  | restart now startup => exact known_start h.rows h.legacy now startup

end CcSwitchServer.PromptCache
