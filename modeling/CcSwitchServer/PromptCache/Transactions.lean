import CcSwitchServer.PromptCache.Agreement

/-! # Batches and restarts keep the agreement

Batches and restarts keep the agreement.
-/

namespace CcSwitchServer.PromptCache
open Foundations List OrderedMap Disk Option PromptCache.System Agreement

variable {s : System} {d : Disk} {stored snapshot : OrderedMap ℕ CacheEntry} {n : ℕ} {now : ℤ}

/-! ## Deleting rows -/

theorem get?_eraseAll {ν : Type} (victims : List (ℕ × ℤ)) (rows : OrderedMap ℕ ν) (h : ℕ) :
    (victims.foldl (fun rows victim => rows.erase victim.1) rows).get? h =
      if h ∈ victims.map Prod.fst then none else rows.get? h := by
  induction victims generalizing rows with
  | nil => rfl
  | cons victim victims ih =>
    rw [foldl_cons, ih, get?_erase, map_cons]
    by_cases hmem : h ∈ victims.map Prod.fst
    · rw [if_pos hmem, if_pos (mem_cons_of_mem _ hmem)]
    · rw [if_neg hmem]
      by_cases heq : victim.1 = h
      · rw [if_pos heq, if_pos (heq ▸ mem_cons_self)]
      · rw [if_neg heq, if_neg]
        intro hcons
        rcases mem_cons.mp hcons with rfl | hold
        · exact heq rfl
        · exact hmem hold

theorem deleteExcess_of_le (h : d.rows.size ≤ cacheCapacity) : d.deleteExcess = d := by
  unfold deleteExcess
  rw [Nat.sub_eq_zero_of_le h]
  rfl

theorem deleteExcess_row {h : ℕ} {row : Row} (hrow : d.deleteExcess.rows.get? h = some row) :
    d.rows.get? h = some row := by
  unfold deleteExcess at hrow
  dsimp only at hrow
  rw [get?_eraseAll] at hrow
  split at hrow
  · cases hrow
  · exact hrow

theorem size_deleteExcess (d : Disk) : d.deleteExcess.rows.size ≤ cacheCapacity := by
  by_cases hle : d.rows.size ≤ cacheCapacity
  · rw [deleteExcess_of_le hle]
    exact hle
  · set sorted := (d.rows.entries.map lastUse).insertionSort older with hsorted
    have hperm : sorted.Perm (d.rows.entries.map lastUse) := perm_insertionSort _ _
    have hsize : d.deleteExcess.rows.size ≤ (sorted.drop (d.rows.size - cacheCapacity)).length := by
      refine size_le_of_keys fun {h row} hget => ?_
      have hold := deleteExcess_row hget
      unfold deleteExcess at hget
      dsimp only at hget
      rw [get?_eraseAll] at hget
      split at hget
      · cases hget
      · rename_i hnot
        have hmem : h ∈ sorted.map Prod.fst := by
          refine (hperm.map Prod.fst).mem_iff.mpr (mem_map.mpr ⟨lastUse (h, row), ?_, rfl⟩)
          exact mem_map.mpr ⟨(h, row), mem_entries_iff.mpr hold, rfl⟩
        rw [← take_append_drop (d.rows.size - cacheCapacity) sorted, map_append, mem_append] at hmem
        exact hmem.resolve_left hnot
    have hlength : sorted.length = d.rows.size := by
      rw [hperm.length_eq, length_map]
      rfl
    rw [length_drop, hlength] at hsize
    omega

theorem Mirror.deleteExpired (h : Mirror d stored) (now : ℤ) : Mirror (d.deleteExpired now) stored := by
  refine ⟨fun hrow => h.row (get?_filter_eq_some.mp hrow).1, fun {hash e} hstored hlive => ?_⟩
  change max d.horizon now < e.expiresAt at hlive
  obtain ⟨row, hrow⟩ := isSome_iff_exists.mp (h.live hstored ((le_max_left _ _).trans_lt hlive))
  have hentry := h.row hrow
  rw [hstored] at hentry
  cases hentry
  have hkept : (d.deleteExpired now).rows.get? hash = some row :=
    get?_filter_eq_some.mpr ⟨hrow, decide_eq_true ((le_max_right _ _).trans_lt hlive)⟩
  rw [hkept]
  rfl

theorem Mirror.size_le (h : Mirror d stored) : d.rows.size ≤ stored.size := by
  refine size_le_of_keys fun {k v} hget => ?_
  exact mem_map.mpr ⟨(k, v.entry), mem_entries_iff.mpr (h.row hget), rfl⟩

theorem Mirror.cleaned (h : Mirror d stored) (hsize : stored.size ≤ cacheCapacity) (now : ℤ) :
    (d.deleteExpired now).deleteExcess = d.deleteExpired now ∧ Mirror (d.deleteExpired now) stored :=
  ⟨deleteExcess_of_le ((h.deleteExpired now).size_le.trans hsize), h.deleteExpired now⟩

/-! ## The transaction -/

theorem applyMutation_rows (d : Disk) (e : ℕ × PendingMutation) (h : ℕ) :
    (d.applyMutation e).rows.get? h =
      if e.1 = h then
        if (d.rows.get? h).any fun row => asI64 e.2.generation < row.mutationGeneration then d.rows.get? h
        else e.2.entry.map fun entry => ⟨entry, asI64 e.2.generation⟩
      else d.rows.get? h := by
  unfold applyMutation
  dsimp only
  by_cases hk : e.1 = h
  · rw [if_pos hk, hk]
    split
    · rfl
    · cases e.2.entry with
      | none =>
        rw [get?_erase, if_pos rfl]
        rfl
      | some entry =>
        rw [get?_insert, if_pos rfl]
        rfl
  · rw [if_neg hk]
    split
    · rfl
    · cases e.2.entry with
      | none =>
        rw [get?_erase, if_neg hk]
      | some entry =>
        rw [get?_insert, if_neg hk]

theorem foldl_applyMutation (d : Disk) (es : List (ℕ × PendingMutation)) :
    (es.foldl applyMutation d).generation = d.generation ∧
      (es.foldl applyMutation d).horizon = d.horizon ∧
      (es.foldl applyMutation d).legacy = d.legacy := by
  induction es generalizing d with
  | nil => exact ⟨rfl, rfl, rfl⟩
  | cons e es ih =>
    have hone : (d.applyMutation e).generation = d.generation ∧ (d.applyMutation e).horizon = d.horizon ∧
        (d.applyMutation e).legacy = d.legacy := by
      unfold applyMutation
      dsimp only
      split
      · exact ⟨rfl, rfl, rfl⟩
      · split <;> exact ⟨rfl, rfl, rfl⟩
    rw [foldl_cons]
    exact ⟨(ih _).1.trans hone.1, (ih _).2.1.trans hone.2.1, (ih _).2.2.trans hone.2.2⟩

theorem applied (hsound : d.Sound) (mutations : OrderedMap ℕ PendingMutation)
    (hnewer : ∀ {h m}, mutations.get? h = some m → d.generation < m.generation) (h : ℕ) :
    (mutations.entries.foldl applyMutation d).rows.get? h =
      match mutations.get? h with
      | some m => m.entry.map fun entry => ⟨entry, asI64 m.generation⟩
      | none => d.rows.get? h := by
  have hfold := mutations.foldl_entries applyMutation (fun d h => d.rows.get? h)
    (fun m row => if row.any fun row => asI64 m.generation < row.mutationGeneration then row
      else m.entry.map fun entry => ⟨entry, asI64 m.generation⟩) applyMutation_rows d h
  rw [hfold]
  cases hm : mutations.get? h with
  | none => rfl
  | some m =>
    dsimp only
    rw [if_neg]
    cases hrow : d.rows.get? h with
    | none => simp
    | some row =>
      have hlt := hnewer hm
      have hle := hsound.rows hrow
      have hmax := hsound.generation
      have hnot : ¬asI64 m.generation < row.mutationGeneration := by
        unfold asI64
        omega
      simpa using hnot

theorem Mirror.apply (h : Mirror d stored) (hsound : d.Sound) {mutations : OrderedMap ℕ PendingMutation}
    (hnewer : ∀ {h m}, mutations.get? h = some m → d.generation < m.generation)
    (hheld : Overlaid mutations stored snapshot) :
    Mirror (mutations.entries.foldl applyMutation d) snapshot := by
  refine ⟨fun {hash row} hrow => ?_, fun {hash e} hsnapshot hlive => ?_⟩
  · rw [applied hsound mutations hnewer] at hrow
    cases hm : mutations.get? hash with
    | some m =>
      rw [hm] at hrow
      obtain ⟨entry, hentry, rfl⟩ := map_eq_some_iff.mp hrow
      rw [hheld.of_some hm, hentry]
    | none =>
      rw [hm] at hrow
      rw [hheld.of_none hm]
      exact h.row hrow
  · rw [applied hsound mutations hnewer]
    rw [(foldl_applyMutation d mutations.entries).2.1] at hlive
    cases hm : mutations.get? hash with
    | some m =>
      rw [hheld.of_some hm] at hsnapshot
      dsimp only
      rw [hsnapshot]
      rfl
    | none =>
      rw [hheld.of_none hm] at hsnapshot
      exact h.live hsnapshot hlive

variable {batch : Batch}

/-- A failed batch goes back under what is pending. -/
theorem Agreement.fail (h : Agreement s stored snapshot n) (hbatch : s.inFlight = some batch)
    (hopen : batch.committed = none) :
    Agreement { s with inFlight := some { batch with committed := some false } } stored snapshot n := by
  have htarget : s.target = batch.target := by
    unfold System.target
    rw [hbatch]
    rfl
  have hflying : s.flying = batch.mutations := by
    unfold System.flying
    rw [hbatch]
    rfl
  have hfloor : s.floor = s.persistedGeneration := by
    unfold System.floor System.landed
    rw [hbatch, any_some, hopen]
    rfl
  refine ⟨h.owned, h.storedSize, h.snapshotSize, h.enabled, h.generation, htarget ▸ h.target,
    htarget ▸ h.persisted, h.sound, hfloor ▸ h.floor, fun hm => ?_, fun hm => ?_, h.mirror, hflying ▸ h.held,
    fun hlanded => ?_, h.overlaid⟩
  · have := @flying s stored snapshot n h
    rw [hflying, htarget] at this
    exact this hm
  · have := @pending s stored snapshot n h
    rw [htarget] at this
    exact this hm
  · cases hlanded

/-- A transaction moves the mirror from the stored memory to the snapshot. -/
theorem Agreement.commit (h : Agreement s stored snapshot n) (hbatch : s.inFlight = some batch)
    {disk : Disk}
    (hdisk : s.disk.persistMutations now s.persistedGeneration batch.target batch.mutations = some disk) :
    Agreement { s with disk := disk, inFlight := some { batch with committed := some true } } snapshot snapshot n := by
  have htarget : s.target = batch.target := by
    unfold System.target
    rw [hbatch]
    rfl
  have hflying : s.flying = batch.mutations := by
    unfold System.flying
    rw [hbatch]
    rfl
  have hheld : Overlaid batch.mutations stored snapshot := hflying ▸ h.held
  have hmutations : ∀ {hash m}, batch.mutations.get? hash = some m →
      s.persistedGeneration < m.generation ∧ m.generation ≤ batch.target := by
    intro hash m hm
    have := @flying s stored snapshot n h hash m
    rw [hflying, htarget] at this
    exact this hm
  have hpersisted : s.persistedGeneration ≤ batch.target := htarget ▸ h.persisted
  unfold persistMutations at hdisk
  split at hdisk
  · rename_i hexpected
    have hnewer : ∀ {hash m}, batch.mutations.get? hash = some m → s.disk.generation < m.generation := by
      intro hash m hm
      rw [hexpected]
      exact (hmutations hm).1
    have hmirror := h.mirror.apply h.sound hnewer hheld
    obtain ⟨hsame, hcleaned⟩ := hmirror.cleaned h.snapshotSize now
    have hrow : ∀ {hash row},
        ((batch.mutations.entries.foldl applyMutation s.disk).deleteExpired now).rows.get? hash = some row →
          row.mutationGeneration ≤ asI64 batch.target := by
      intro hash row hget
      have happlied := (get?_filter_eq_some.mp hget).1
      rw [applied h.sound batch.mutations hnewer] at happlied
      cases hm : batch.mutations.get? hash with
      | some m =>
        rw [hm] at happlied
        obtain ⟨entry, -, rfl⟩ := map_eq_some_iff.mp happlied
        have := (hmutations hm).2
        unfold asI64
        dsimp only
        omega
      | none =>
        rw [hm] at happlied
        have hold := h.sound.rows happlied
        have hmax := h.sound.generation
        unfold asI64
        omega
    rw [hsame] at hdisk
    have hinj := some.inj hdisk
    subst hinj
    refine ⟨h.owned, h.snapshotSize, h.snapshotSize, h.enabled, h.generation, htarget ▸ h.target, hpersisted,
      ⟨hrow, min_le_right _ _⟩, min_le_left _ _, hmutations, fun hm => ?_, ⟨hcleaned.row, hcleaned.live⟩,
      fun hash => ?_, fun _ => rfl, h.overlaid⟩
    · have := @pending s stored snapshot n h
      rw [htarget] at this
      exact this hm
    · cases hm : batch.mutations.get? hash with
      | some m =>
        change snapshot.get? hash = ((batch.mutations.get? hash).map PendingMutation.entry).getD _
        rw [hm]
        exact hheld.of_some hm
      | none =>
        change snapshot.get? hash = ((batch.mutations.get? hash).map PendingMutation.entry).getD _
        rw [hm]
        rfl
  · cases hdisk

/-! ## After the transaction -/

theorem mergeOne_pending (cache : CacheState) (e : ℕ × PendingMutation) (h : ℕ) :
    (mergeOne cache e).pending.get? h =
      if e.1 = h then
        if (cache.pending.get? h).all fun current => current.generation ≤ e.2.generation then some e.2
        else cache.pending.get? h
      else cache.pending.get? h := by
  unfold mergeOne mergeable
  by_cases hk : e.1 = h
  · rw [if_pos hk, hk]
    split
    · rw [get?_insert, if_pos rfl]
    · rfl
  · rw [if_neg hk]
    split
    · dsimp only
      rw [get?_insert, if_neg hk]
    · rfl

theorem foldl_mergeOne (cache : CacheState) (es : List (ℕ × PendingMutation)) :
    (es.foldl mergeOne cache).entries = cache.entries ∧
      (es.foldl mergeOne cache).resident = cache.resident ∧
      (es.foldl mergeOne cache).generation = cache.generation ∧
      (es.foldl mergeOne cache).persistEnabled = cache.persistEnabled := by
  induction es generalizing cache with
  | nil => exact ⟨rfl, rfl, rfl, rfl⟩
  | cons e es ih =>
    have hone : (mergeOne cache e).entries = cache.entries ∧
        (mergeOne cache e).resident = cache.resident ∧
        (mergeOne cache e).generation = cache.generation ∧
        (mergeOne cache e).persistEnabled = cache.persistEnabled := by
      unfold mergeOne
      split <;> exact ⟨rfl, rfl, rfl, rfl⟩
    obtain ⟨h1, h2, h3, h4⟩ := ih (mergeOne cache e)
    rw [foldl_cons]
    exact ⟨h1.trans hone.1, h2.trans hone.2.1, h3.trans hone.2.2.1, h4.trans hone.2.2.2⟩

theorem merged (cache : CacheState) (mutations : OrderedMap ℕ PendingMutation)
    (hnewer : ∀ {h m m'}, cache.pending.get? h = some m → mutations.get? h = some m' →
      m'.generation < m.generation) (h : ℕ) :
    (mergePending cache mutations).pending.get? h = (cache.pending.get? h).or (mutations.get? h) := by
  have hfold := mutations.foldl_entries mergeOne (fun cache h => cache.pending.get? h)
    (fun m old => if old.all fun current => current.generation ≤ m.generation then some m else old)
    mergeOne_pending cache h
  unfold mergePending
  rw [hfold]
  cases hm' : mutations.get? h with
  | none => rw [or_none]
  | some m' =>
    cases hm : cache.pending.get? h with
    | none => rfl
    | some m =>
      have hlt := hnewer hm hm'
      dsimp only
      rw [some_or, all_some, if_neg]
      simpa using hlt

theorem Agreement.finish (h : Agreement s stored snapshot n) (hbatch : s.inFlight = some batch) :
    ∃ snapshot', Agreement (s.finish batch) stored snapshot' n := by
  have htarget : s.target = batch.target := by
    unfold System.target
    rw [hbatch]
    rfl
  have hflying : s.flying = batch.mutations := by
    unfold System.flying
    rw [hbatch]
    rfl
  have hpending : ∀ {hash m}, s.cache.pending.get? hash = some m →
      batch.target < m.generation ∧ m.generation ≤ s.cache.generation := by
    intro hash m hm
    have := @Agreement.pending s stored snapshot n h hash m
    rw [htarget] at this
    exact this hm
  unfold System.finish
  cases hcommitted : batch.committed with
  | none => exact ⟨snapshot, h⟩
  | some committed =>
    cases committed with
    | true =>
      have hlanded : s.landed = true := by
        unfold System.landed
        rw [hbatch, Option.any_some, hcommitted]
        rfl
      have hsame := h.landed hlanded
      have hfloor := h.floor
      unfold System.floor at hfloor
      rw [hlanded, if_pos rfl, htarget] at hfloor
      refine ⟨snapshot, ⟨⟨h.owned.capacity, h.owned.resident⟩, h.storedSize, h.snapshotSize, h.enabled,
        h.generation, htarget ▸ h.target, le_rfl, h.sound, hfloor, fun hm => ?_, hpending, h.mirror,
        fun hash => ?_, fun hnot => ?_, h.overlaid⟩⟩
      · cases hm
      · rw [hsame]
        rfl
      · cases hnot
    | false =>
      have hunlanded : s.landed = false := by
        unfold System.landed
        rw [hbatch, Option.any_some, hcommitted]
        rfl
      have hfloor := h.floor
      unfold System.floor at hfloor
      rw [hunlanded] at hfloor
      have hbounds : ∀ {hash m}, batch.mutations.get? hash = some m →
          s.persistedGeneration < m.generation ∧ m.generation ≤ batch.target := by
        intro hash m hm
        have := @Agreement.flying s stored snapshot n h hash m
        rw [hflying, htarget] at this
        exact this hm
      have hnewer : ∀ {hash m m'}, s.cache.pending.get? hash = some m → batch.mutations.get? hash = some m' →
          m'.generation < m.generation := by
        intro hash m m' hm hm'
        have := (hpending hm).1
        have := (hbounds hm').2
        omega
      obtain ⟨hentries, hresident, hgeneration, hpersist⟩ := foldl_mergeOne s.cache batch.mutations.entries
      have hmerged := merged s.cache batch.mutations hnewer
      have htop : batch.target ≤ s.cache.generation := htarget ▸ h.target
      have hbase : s.persistedGeneration ≤ batch.target := htarget ▸ h.persisted
      refine ⟨stored, ⟨⟨?_, fun hash => ?_⟩, h.storedSize, h.storedSize, ?_, ?_, ?_, le_rfl, h.sound, hfloor,
        fun hm => ?_, fun {hash m} hm => ?_, h.mirror, fun hash => rfl, fun _ => rfl, fun hash => ?_⟩⟩
      · exact hentries ▸ h.owned.capacity
      · have := h.owned.resident hash
        dsimp only [System.mergePending]
        rw [hentries, hresident]
        exact this
      · exact hpersist.trans h.enabled
      · exact hgeneration.le.trans h.generation
      · exact (hbase.trans htop).trans hgeneration.ge
      · cases hm
      · change (System.mergePending s.cache batch.mutations).pending.get? hash = some m at hm
        rw [hmerged] at hm
        change s.persistedGeneration < m.generation ∧ m.generation ≤ (System.mergePending _ _).generation
        unfold System.mergePending
        rw [hgeneration]
        cases hold : s.cache.pending.get? hash with
        | some m' =>
          rw [hold, Option.some_or] at hm
          cases hm
          have := hpending hold
          omega
        | none =>
          rw [hold, Option.none_or] at hm
          have := hbounds hm
          omega
      · change (System.mergePending s.cache batch.mutations).entries.get? hash = _
        rw [hmerged]
        unfold System.mergePending
        rw [hentries]
        cases hold : s.cache.pending.get? hash with
        | some m' => exact h.overlaid.of_some hold
        | none =>
          rw [h.overlaid.of_none hold, Option.none_or]
          have hheld := h.held hash
          rw [hflying] at hheld
          exact hheld

/-! ## Restarts -/

theorem importLegacy_spec (d : Disk) (entries : List (ℕ × CacheEntry)) (hsound : d.Sound) :
    (d.importLegacy entries).Sound := by
  have hgeneral : ∀ rows : OrderedMap ℕ Row, (∀ h row, rows.get? h = some row →
      row.mutationGeneration ≤ d.generation) → ∀ h row,
      (entries.foldl (fun rows e =>
        rows.insert e.1 ⟨{ e.2 with ttlSecs := max 60 (min e.2.ttlSecs maxTtlSecs) }, 0⟩) rows).get? h = some row →
      row.mutationGeneration ≤ d.generation := by
    induction entries with
    | nil => exact fun rows hrows => hrows
    | cons e entries ih =>
      intro rows hrows
      rw [foldl_cons]
      refine ih _ fun h row hget => ?_
      rw [get?_insert] at hget
      split at hget
      · cases hget
        exact Nat.zero_le _
      · exact hrows h row hget
  exact ⟨fun {h row} hrow => hgeneral d.rows (fun _ _ => hsound.rows) h row hrow, hsound.generation⟩

theorem migrate_sound (hsound : d.Sound) (now : ℤ) : (d.migrate now).Sound := by
  unfold migrate
  split
  · split
    · exact importLegacy_spec d _ hsound
    · exact hsound
  · exact hsound

theorem loadEntries_generation (d : Disk) (now : ℤ) : (d.loadEntries now).generation = d.generation := by
  unfold loadEntries deleteExcess deleteExpired
  dsimp only

theorem loadEntries_row {h : ℕ} {row : Row} (hrow : (d.loadEntries now).rows.get? h = some row) :
    d.rows.get? h = some row ∧ now < row.entry.expiresAt := by
  have hkept := get?_filter_eq_some.mp (deleteExcess_row hrow)
  exact ⟨hkept.1, of_decide_eq_true hkept.2⟩

theorem loadOrMigrate_sound (hsound : d.Sound) (now : ℤ) : (d.loadOrMigrate now).Sound := by
  have hmigrated := migrate_sound hsound now
  refine ⟨fun hrow => ?_, ?_⟩
  · rw [loadOrMigrate, loadEntries_generation]
    exact hmigrated.rows (loadEntries_row hrow).1
  · rw [loadOrMigrate, loadEntries_generation]
    exact hmigrated.generation

theorem loadOrMigrate_generation (d : Disk) (now : ℤ) : (d.loadOrMigrate now).generation = d.generation := by
  have hmigrate : (d.migrate now).generation = d.generation := by
    unfold migrate
    split
    · split <;> rfl
    · rfl
  rw [loadOrMigrate, loadEntries_generation]
  exact hmigrate

/-- A start that loads the table, with memory for every row, and has a writer. -/
structure Startup.Full (startup : Startup) : Prop where
  loads : startup.loads = true
  admits : ∀ h, startup.admits h = true
  spawned : startup.spawned = true

def System.loaded (d : Disk) : System where
  cache :=
    { entries := d.rows.entries.foldl (fun entries e => entries.insert e.1 e.2.entry) .empty
      resident := d.rows.entries.foldl (fun resident e => resident.insert e.1 ()) .empty
      generation := d.generation
      persistEnabled := true }
  persistedGeneration := d.generation
  disk := d

theorem start_full (d : Disk) (now : ℤ) {startup : Startup} (hfull : startup.Full) :
    start d now startup = .loaded (d.loadOrMigrate now) := by
  have hall : ∀ rows : OrderedMap ℕ Row, admitted rows startup.admits = rows.entries := by
    intro rows
    exact filter_eq_self.mpr fun e _ => hfull.admits e.1
  unfold start loaded
  rw [if_pos hfull.loads]
  dsimp only
  rw [hall, hfull.spawned]

theorem get?_entriesOf (rows : OrderedMap ℕ Row) (h : ℕ) :
    (rows.entries.foldl (fun (entries : OrderedMap ℕ CacheEntry) e => entries.insert e.1 e.2.entry) .empty).get? h =
      (rows.get? h).map Row.entry := by
  rw [rows.foldl_entries (fun (entries : OrderedMap ℕ CacheEntry) e => entries.insert e.1 e.2.entry)
    (fun entries h => entries.get? h) (fun row _ => some row.entry) (fun entries e h => get?_insert _ _ _ _) .empty h]
  cases rows.get? h <;> rfl

theorem get?_residentOf (rows : OrderedMap ℕ Row) (h : ℕ) :
    (rows.entries.foldl (fun (resident : OrderedMap ℕ Unit) e => resident.insert e.1 ()) .empty).get? h =
      (rows.get? h).map fun _ => () := by
  rw [rows.foldl_entries (fun (resident : OrderedMap ℕ Unit) e => resident.insert e.1 ())
    (fun resident h => resident.get? h) (fun _ _ => some ()) (fun entries e h => get?_insert _ _ _ _) .empty h]
  cases rows.get? h <;> rfl

theorem loaded_entries (d : Disk) (h : ℕ) : (loaded d).cache.entries.get? h = (d.rows.get? h).map Row.entry :=
  get?_entriesOf d.rows h

/-- A restart starts from the table. -/
theorem loaded_agreement (hsound : d.Sound) (hsize : d.rows.size ≤ cacheCapacity) (hn : d.generation ≤ n) :
    Agreement (.loaded d) (loaded d).cache.entries (loaded d).cache.entries n := by
  have hentries : (loaded d).cache.entries.size ≤ cacheCapacity := by
    refine le_trans (size_le_of_keys fun {h e} hget => ?_) hsize
    rw [loaded_entries] at hget
    obtain ⟨row, hrow, -⟩ := map_eq_some_iff.mp hget
    exact mem_map.mpr ⟨(h, row), mem_entries_iff.mpr hrow, rfl⟩
  refine ⟨⟨hentries, fun h => ?_⟩, hentries, hentries, rfl, hn, le_rfl, le_rfl, hsound, le_rfl,
    fun hm => ?_, fun hm => ?_, ⟨fun {h row} hrow => ?_, fun {h e} hget _ => ?_⟩, fun h => rfl, fun _ => rfl,
    fun h => rfl⟩
  · rw [loaded_entries]
    unfold loaded
    rw [get?_residentOf]
    cases d.rows.get? h <;> rfl
  · cases hm
  · cases hm
  · rw [loaded_entries]
    change d.rows.get? h = some row at hrow
    rw [hrow]
    rfl
  · rw [loaded_entries] at hget
    obtain ⟨row, hrow, -⟩ := map_eq_some_iff.mp hget
    change (d.rows.get? h).isSome
    rw [hrow]
    rfl

theorem start_agreement (hsound : d.Sound) (hn : d.generation ≤ n) (now : ℤ) {startup : Startup}
    (hfull : startup.Full) :
    Agreement (start d now startup) (start d now startup).cache.entries (start d now startup).cache.entries n := by
  have hsize : (d.loadOrMigrate now).rows.size ≤ cacheCapacity := by
    unfold loadOrMigrate loadEntries
    exact size_deleteExcess _
  rw [start_full d now hfull]
  exact loaded_agreement (loadOrMigrate_sound hsound now) hsize ((loadOrMigrate_generation d now).le.trans hn)

end CcSwitchServer.PromptCache
