import CcSwitchServer.PromptCache.Transactions

/-! # No update is lost behind the writer

In a run whose starts load every row no update is lost behind the writer.
-/

namespace CcSwitchServer.PromptCache
open Foundations PromptCache.System List OrderedMap Option CacheState

/-- A restart in the run loads every row. -/
def Event.Full : Event → Prop
  | .restart _ startup => startup.Full
  | _ => True

def opened (legacy : Option (OrderedMap ℕ CacheEntry)) (now : ℤ) : System := start { legacy := legacy } now .full

def reached (x : Externals) (legacy : Option (OrderedMap ℕ CacheEntry)) (now : ℤ) (events : List Event) : System :=
  run (step x) (opened legacy now) events

def Disk.Migrated (d : Disk) (now : ℤ) : Prop :=
  ∀ legacy, d.legacy = some legacy → d.rows.size ≠ 0 ∨ ∀ h e, legacy.get? h = some e → e.expiresAt ≤ now

/-- Nothing is pending, and no batch is out. -/
def System.Flushed (s : System) : Prop := s.cache.pending.size = 0 ∧ (s.inFlight = none ∨ s.landed = true)

/-- The entries that a start loads are entries in memory that have not expired, and they are all of them: an
entry is left out only if it has expired at the start or at a time that the store has seen. -/
def System.Reloads (s : System) (loaded : OrderedMap ℕ CacheEntry) (now : ℤ) : Prop :=
  ∀ h e, (loaded.get? h = some e → s.cache.entries.get? h = some e ∧ now < e.expiresAt) ∧
    (s.cache.entries.get? h = some e → max s.disk.horizon now < e.expiresAt → loaded.get? h = some e)

structure WriteBehind (x : Externals) (s : System) : Prop where
  refused : ∀ body namespace_ now grants,
    (computeUsage x s.cache body namespace_ now grants).1.decision = .localCapacity →
      (computeUsage x s.cache body namespace_ now grants).2 = s.cache
  capacity : s.cache.entries.size ≤ cacheCapacity
  owned : ∀ h, (s.cache.resident.get? h).isSome = (s.cache.entries.get? h).isSome
  agrees : ∀ h, s.Agrees h
  reloads : s.Flushed → ∀ now startup, startup.Full → s.disk.Migrated now →
    s.Reloads (start s.disk now startup).cache.entries now

variable {x : Externals} {s : System} {stored snapshot : OrderedMap ℕ CacheEntry} {n : ℕ}

/-! ## Refused calls -/

variable {decision : CacheDecision}

theorem validatedTtl_error {control : Json}
    (h : validatedTtl control = .error decision) : decision ≠ .localCapacity := by
  rintro rfl
  unfold validatedTtl at h
  split at h
  · split at h
    · split at h
      · cases h
      · split at h
        · cases h
        · split at h <;> cases h
      · cases h
    · cases h
  · cases h

theorem explicitBreakpoints_error {index : ℕ} {blocks : List PromptBlock}
    (h : explicitBreakpoints index blocks = .error decision) : decision ≠ .localCapacity := by
  induction blocks generalizing index with
  | nil => cases h
  | cons block blocks ih =>
    rw [explicitBreakpoints] at h
    split at h
    · split at h
      · rintro rfl
        cases h
      · split at h
        · rcases bind_eq_error.mp h with httl | ⟨ttl, -, hrest⟩
          · exact validatedTtl_error httl
          · rcases bind_eq_error.mp hrest with hlater | ⟨rest, -, hdone⟩
            · exact ih hlater
            · cases hdone
        · rintro rfl
          cases h
    · exact ih h

theorem withAuto_error {blocks : List PromptBlock} {control : Option Json} {breakpoints : List Breakpoint}
    (h : withAuto blocks control breakpoints = .error decision) :
    decision ≠ .localCapacity := by
  unfold withAuto at h
  split at h
  · cases h
  · rcases bind_eq_error.mp h with httl | ⟨ttl, -, hrest⟩
    · exact validatedTtl_error httl
    · rintro rfl
      split at hrest
      · cases hrest
      · split at hrest
        · split at hrest <;> cases hrest
        · cases hrest

theorem resolveBreakpoints_decision (blocks : List PromptBlock) (control : Option Json) :
    (resolveBreakpoints blocks control).2 ≠ .localCapacity := by
  unfold resolveBreakpoints
  cases hr : requestedBreakpoints blocks control with
  | error decision =>
    unfold requestedBreakpoints at hr
    split at hr
    · rintro rfl
      cases hr
    · rcases bind_eq_error.mp hr with hfound | ⟨found, -, hrest⟩
      · exact explicitBreakpoints_error hfound
      · rcases bind_eq_error.mp hrest with hauto | ⟨breakpoints, -, hlast⟩
        · exact withAuto_error hauto
        · rintro rfl
          dsimp only at hlast
          split at hlast
          · cases hlast
          · split at hlast
            · cases hlast
            · split at hlast <;> cases hlast
  | ok resolved =>
    unfold requestedBreakpoints at hr
    split at hr
    · cases hr
    · obtain ⟨found, -, hrest⟩ := bind_eq_ok.mp hr
      obtain ⟨breakpoints, -, hlast⟩ := bind_eq_ok.mp hrest
      dsimp only at hlast ⊢
      split at hlast
      · cases hlast
      · split at hlast
        · cases hlast
        · split at hlast
          · cases hlast
          · cases hlast
            split
            · exact nofun
            · split <;> exact nofun

theorem computeUsage_refused (x : Externals) (cache : CacheState) (body : Json) (namespace_ : Str) (now : ℤ)
    (grants : Grants) (h : (computeUsage x cache body namespace_ now grants).1.decision = .localCapacity) :
    (computeUsage x cache body namespace_ now grants).2 = cache := by
  have hdecision : (prepare x body namespace_).decision ≠ .localCapacity := resolveBreakpoints_decision _ _
  unfold computeUsage at h ⊢
  dsimp only at h ⊢
  split at h
  · exact absurd h hdecision
  · rename_i hskipped
    rw [if_neg hskipped]
    rcases lockedUsage_cases cache now grants (prepare x body namespace_).request with heq | ⟨slotsUsed, heq⟩
    · rw [heq]
    · rw [heq] at h
      exact absurd h hdecision

/-! ## Restarts -/

theorem migrate_of_migrated {d : Disk} {now : ℤ} (h : d.Migrated now) : d.migrate now = d := by
  unfold Disk.migrate
  cases hlegacy : d.legacy with
  | none => rfl
  | some legacy =>
    dsimp only
    split
    · rename_i hzero
      have hexpired := (h legacy hlegacy).resolve_left fun hne => hne hzero
      have hnone : Disk.legacyEntries legacy now = [] := by
        unfold Disk.legacyEntries
        rw [filter_eq_nil_iff.mpr, insertionSort_nil, take_nil]
        intro e he
        have := hexpired e.1 e.2 (mem_entries_iff.mp he)
        simpa using this
      rw [hnone]
      rfl
    · rfl

/-- A restart that imports nothing loads the entries that have not expired. -/
theorem Agreement.reloads (h : Agreement s stored snapshot n) (hflushed : s.Flushed) {now : ℤ}
    {startup : Startup} (hfull : startup.Full) (hmigrated : s.disk.Migrated now) :
    s.Reloads (start s.disk now startup).cache.entries now := by
  obtain ⟨hpending, hflight⟩ := hflushed
  have hentries : ∀ hash, s.cache.entries.get? hash = stored.get? hash := by
    intro hash
    have hempty : s.cache.pending.get? hash = none := by
      unfold get?
      rw [eq_nil_of_length_eq_zero hpending]
      rfl
    rw [h.overlaid.of_none hempty]
    rcases hflight with hnone | hlanded
    · refine h.held.of_none ?_
      unfold System.flying
      rw [hnone]
      rfl
    · rw [h.landed hlanded]
  obtain ⟨hclean, hmirror⟩ := h.mirror.cleaned h.storedSize now
  have hloaded : ∀ hash, (start s.disk now startup).cache.entries.get? hash =
      ((s.disk.deleteExpired now).rows.get? hash).map Row.entry := by
    intro hash
    rw [start_full s.disk now hfull, loaded_entries]
    unfold Disk.loadOrMigrate Disk.loadEntries
    rw [migrate_of_migrated hmigrated, hclean]
  intro hash e
  rw [hentries, hloaded]
  refine ⟨fun hget => ?_, fun hstored hlive => ?_⟩
  · obtain ⟨row, hrow, rfl⟩ := map_eq_some_iff.mp hget
    obtain ⟨hold, hkept⟩ := get?_filter_eq_some.mp hrow
    exact ⟨h.mirror.row hold, of_decide_eq_true hkept⟩
  · obtain ⟨row, hrow⟩ := isSome_iff_exists.mp (hmirror.live hstored hlive)
    have hrowStored := hmirror.row hrow
    rw [hstored] at hrowStored
    rw [hrow, hrowStored]
    rfl

/-! ## Runs -/

/-- Every event keeps the agreement. -/
theorem Agreement.step (h : Agreement s stored snapshot n) (hn : n < u64Max) {event : Event} (hfull : event.Full) :
    ∃ stored' snapshot', Agreement (s.step x event) stored' snapshot' (n + 1) := by
  cases event with
  | computeUsage body namespace_ now grants =>
    refine ⟨stored, snapshot, ?_⟩
    unfold System.step
    dsimp only
    rcases computeUsage_cases x s.cache body namespace_ now grants with heq | ⟨slotsUsed, heq⟩
    · rw [heq]
      exact h.mono
    · rw [heq]
      exact h.publish hn
  | takePending =>
    unfold System.step
    dsimp only
    split
    · rename_i hfree
      obtain ⟨snapshot', htaken⟩ := h.takePending (isNone_iff_eq_none.mp hfree.2)
      exact ⟨stored, snapshot', htaken.mono⟩
    · exact ⟨stored, snapshot, h.mono⟩
  | persistMutations now succeeds =>
    unfold System.step
    cases hbatch : s.inFlight with
    | none => exact ⟨stored, snapshot, h.mono⟩
    | some batch =>
      dsimp only
      split
      · rename_i hopen
        rw [isNone_iff_eq_none] at hopen
        unfold persist
        cases succeeds with
        | false => exact ⟨stored, snapshot, (h.fail hbatch hopen).mono⟩
        | true =>
          rw [if_pos rfl]
          cases hdisk : s.disk.persistMutations now s.persistedGeneration batch.target batch.mutations with
          | none => exact ⟨stored, snapshot, (h.fail hbatch hopen).mono⟩
          | some disk => exact ⟨snapshot, snapshot, (h.commit hbatch hdisk).mono⟩
      · exact ⟨stored, snapshot, h.mono⟩
  | finishBatch =>
    unfold System.step
    cases hbatch : s.inFlight with
    | none => exact ⟨stored, snapshot, h.mono⟩
    | some batch =>
      obtain ⟨snapshot', hfinished⟩ := h.finish hbatch
      exact ⟨stored, snapshot', hfinished.mono⟩
  | restart now startup =>
    have hgeneration : s.disk.generation ≤ n := ((h.floor.trans h.floor_le).trans h.target).trans h.generation
    exact ⟨_, _, (start_agreement h.sound hgeneration now hfull).mono⟩

theorem agreement_reached (x : Externals) (legacy : Option (OrderedMap ℕ CacheEntry)) (now : ℤ)
    {events : List Event} (hlen : events.length ≤ u64Max) (hfull : ∀ event ∈ events, event.Full) :
    ∃ stored snapshot, Agreement (reached x legacy now events) stored snapshot events.length := by
  induction events using reverseRecOn with
  | nil =>
    have hsound : Disk.Sound { legacy := legacy } := ⟨fun hrow => (by cases hrow), Nat.zero_le _⟩
    have hfullStart : Startup.full.Full := ⟨rfl, fun _ => rfl, rfl⟩
    have hstart := start_agreement hsound (Nat.zero_le 0) now hfullStart
    unfold reached opened
    rw [run_nil]
    exact ⟨_, _, hstart⟩
  | append_singleton events event ih =>
    rw [length_append] at hlen ⊢
    have hlt : events.length < u64Max := hlen
    obtain ⟨stored, snapshot, hagree⟩ := ih hlt.le fun event' h' => hfull event' (mem_append_left _ h')
    unfold reached
    rw [run_append_singleton]
    exact hagree.step hlt (hfull event (mem_append_right _ mem_cons_self))

/-- Write-behind loses no update, in every run that is shorter than the generations are wide. -/
theorem write_behind (x : Externals) (legacy : Option (OrderedMap ℕ CacheEntry)) (now : ℤ) (events : List Event)
    (hlen : events.length ≤ u64Max) (hfull : ∀ event ∈ events, event.Full) :
    WriteBehind x (reached x legacy now events) := by
  obtain ⟨stored, snapshot, h⟩ := agreement_reached x legacy now hlen hfull
  exact ⟨computeUsage_refused x _, h.owned.capacity, h.owned.resident, h.agrees,
    fun hflushed now' startup hstart hmigrated => h.reloads hflushed hstart hmigrated⟩

/-! ## Runs on one request -/

def asked (namespace_ : Str) (now : ℤ) : Event := .computeUsage stablePrompt namespace_ now granted

def flushed (now : ℤ) (succeeds : Bool) : List Event := [.takePending, .persistMutations now succeeds, .finishBatch]

def retried : List Event := asked alice 0 :: flushed 1 false ++ asked alice 2 :: flushed 3 true

theorem write_behind_retried :
    retried.length ≤ u64Max ∧ (reached stableExternals none 0 retried).Agrees aliceHash ∧
      (reached stableExternals none 0 retried).Flushed ∧
      (start (reached stableExternals none 0 retried).disk 4 .full).cache.entries.get? aliceHash =
        some ⟨5, 300, 302, 2⟩ := by
  have hfull : ∀ event ∈ retried, event.Full := by
    intro event hevent
    unfold retried flushed at hevent
    simp only [cons_append, nil_append, mem_cons, not_mem_nil, or_false] at hevent
    rcases hevent with rfl | rfl | rfl | rfl | rfl | rfl | rfl | rfl <;> exact trivial
  have hbehind := write_behind stableExternals none 0 retried (by decide) hfull
  have hflushed : (reached stableExternals none 0 retried).Flushed :=
    ⟨by decide +kernel, .inl (isNone_iff_eq_none.mp (by decide +kernel))⟩
  have hmigrated : (reached stableExternals none 0 retried).disk.Migrated 4 := by
    intro legacy hlegacy
    have hnone : (reached stableExternals none 0 retried).disk.legacy.isSome = false := by decide +kernel
    rw [hlegacy] at hnone
    cases hnone
  refine ⟨by decide, hbehind.agrees aliceHash, hflushed, ?_⟩
  refine (hbehind.reloads hflushed 4 .full ⟨rfl, fun _ => rfl, rfl⟩ hmigrated aliceHash ⟨5, 300, 302, 2⟩).2 ?_ ?_
  · decide +kernel
  · decide +kernel

/-! ### Clocks, the legacy file and the end of the generations -/

def hourEntry : OrderedMap ℕ CacheEntry := empty.insert aliceHash ⟨5, 3600, 3600, 0⟩

def calledTo (generation : ℕ) : CacheState where
  entries := empty.insert aliceHash ⟨5, 300, 300, 0⟩
  pending := empty.insert aliceHash ⟨generation, some ⟨5, 300, 300, 0⟩⟩
  generation := generation
  resident := empty.insert aliceHash ()
  slotsUsed := 1
  persistEnabled := true

def stableRequest : Prompt := ⟨[[aliceHash]], [(aliceHash, 5, 300)], 5⟩

theorem prepare_stable :
    (prepare stableExternals stablePrompt alice).skipped = false ∧
      (prepare stableExternals stablePrompt alice).request = stableRequest := by
  decide +kernel

theorem computeUsage_stable (cache : CacheState) {slotsUsed : ℕ}
    (hreserve : cache.reserve granted (plan cache.entries 0 stableRequest).entries cache.slotsUsed = some slotsUsed) :
    (computeUsage stableExternals cache stablePrompt alice 0 granted).2 =
      cache.publish (plan cache.entries 0 stableRequest) slotsUsed := by
  unfold computeUsage
  dsimp only
  rw [prepare_stable.1, prepare_stable.2, if_neg (by decide)]
  unfold lockedUsage
  rw [if_pos (show granted.scratch = true from rfl)]
  dsimp only
  rw [hreserve]

theorem plan_stable :
    plan (calledTo 0).entries 0 stableRequest = empty.insert aliceHash (some ⟨5, 300, 300, 0⟩) ∧
      plan .empty 0 stableRequest = empty.insert aliceHash (some ⟨5, 300, 300, 0⟩) :=
  ⟨ext_entries (by decide), ext_entries (by decide)⟩

theorem called_again (generation : ℕ) :
    (computeUsage stableExternals (calledTo generation) stablePrompt alice 0 granted).2 =
      calledTo (saturatingAdd generation 1) := by
  have hplan : plan (calledTo generation).entries 0 stableRequest =
      empty.insert aliceHash (some ⟨5, 300, 300, 0⟩) := plan_stable.1
  rw [@computeUsage_stable (calledTo generation) 1 (by rw [hplan]; rfl), hplan]
  unfold publish
  rw [if_neg (by decide)]
  change publishOne (saturatingAdd generation 1)
    { calledTo generation with generation := saturatingAdd generation 1 } (aliceHash, some ⟨5, 300, 300, 0⟩) = _
  unfold publishOne calledTo
  dsimp only
  rw [if_pos rfl, insert_insert, insert_insert, insert_insert]

theorem called_first :
    (computeUsage stableExternals { persistEnabled := true } stablePrompt alice 0 granted).2 = calledTo 1 := by
  rw [@computeUsage_stable { persistEnabled := true } 1 (by rw [plan_stable.2]; rfl), plan_stable.2]
  rfl

theorem called_repeatedly (n : ℕ) :
    (reached stableExternals none 0 (replicate (n + 1) (asked alice 0))) =
      { opened none 0 with cache := calledTo (min (n + 1) u64Max) } := by
  induction n with
  | zero =>
    have hopened : (opened none 0).cache = { persistEnabled := true } := rfl
    unfold reached
    rw [replicate_one, run_cons, run_nil, asked, step, hopened, called_first]
    rfl
  | succ n ih =>
    have hnext : saturatingAdd (min (n + 1) u64Max) 1 = min (n + 1 + 1) u64Max := by
      unfold saturatingAdd
      omega
    unfold reached at ih ⊢
    rw [replicate_succ', run_append_singleton, ih, asked, step]
    rw [called_again, hnext]

def overrun : List Event :=
  replicate (u64Max - 1 + 1) (asked alice 0) ++ [.takePending, asked alice 1, .persistMutations 1 false, .finishBatch]

/-- A clock that goes back: rows were deleted as expired, and the entries are alive again. A table that is
emptied by expiry imports the legacy entry that a shorter one has replaced. At the largest generation a failed
batch overwrites the newer mutation. -/
theorem write_behind_fails :
    ((reached stableExternals none 0 (asked alice 0 :: flushed 1000 true)).Flushed ∧
      (reached stableExternals none 0 (asked alice 0 :: flushed 1000 true)).cache.entries.get? aliceHash =
        some ⟨5, 300, 300, 0⟩ ∧ (start (reached stableExternals none 0 (asked alice 0 :: flushed 1000 true)).disk 10
        .full).cache.entries.get? aliceHash = none) ∧
    ((reached stableExternals (some hourEntry) 0 (asked alice 0 :: flushed 400 true)).Flushed ∧
      (reached stableExternals (some hourEntry) 0 (asked alice 0 :: flushed 400 true)).cache.entries.get?
        aliceHash = some ⟨5, 300, 300, 0⟩ ∧
      (start (reached stableExternals (some hourEntry) 0 (asked alice 0 :: flushed 400 true)).disk 401
        .full).cache.entries.get? aliceHash = some ⟨5, 3600, 3600, 0⟩) ∧
    (∀ event ∈ overrun, event.Full) ∧ ¬(reached stableExternals none 0 overrun).Agrees aliceHash := by
  refine ⟨⟨⟨by decide +kernel, .inl (isNone_iff_eq_none.mp (by decide +kernel))⟩, by decide +kernel,
    by decide +kernel⟩, ⟨⟨by decide +kernel, .inl (isNone_iff_eq_none.mp (by decide +kernel))⟩,
    by decide +kernel, by decide +kernel⟩, fun event hevent => ?_, ?_⟩
  · unfold overrun at hevent
    rcases mem_append.mp hevent with hcall | hrest
    · rw [eq_of_mem_replicate hcall]
      trivial
    · simp only [mem_cons, not_mem_nil, or_false] at hrest
      rcases hrest with rfl | rfl | rfl | rfl <;> exact trivial
  · have hreached : reached stableExternals none 0 overrun =
        run (step stableExternals) { opened none 0 with cache := calledTo u64Max }
          [.takePending, asked alice 1, .persistMutations 1 false, .finishBatch] := by
      unfold overrun reached
      have hcalled := called_repeatedly (u64Max - 1)
      unfold reached at hcalled
      rw [run_append, hcalled]
      rfl
    have hlatest : (run (step stableExternals) { opened none 0 with cache := calledTo u64Max }
        [.takePending, asked alice 1, .persistMutations 1 false, .finishBatch]).latest aliceHash =
          some ⟨5, 300, 300, 0⟩ := by
      decide +kernel
    have hentry : (run (step stableExternals) { opened none 0 with cache := calledTo u64Max }
        [.takePending, asked alice 1, .persistMutations 1 false, .finishBatch]).cache.entries.get? aliceHash =
          some ⟨5, 300, 301, 1⟩ := by
      decide +kernel
    unfold System.Agrees
    rw [hreached, hlatest, hentry]
    rintro (heq | ⟨hnone, -⟩)
    · revert heq
      decide
    · cases hnone

end CcSwitchServer.PromptCache
