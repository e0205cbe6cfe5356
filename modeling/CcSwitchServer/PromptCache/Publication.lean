import CcSwitchServer.PromptCache.Cache

/-! # What a call publishes

The planned changes write only entries that were hit and those of the breakpoints.
-/

namespace CcSwitchServer.PromptCache
open Foundations Option CacheState OrderedMap List

variable {entries : OrderedMap ℕ CacheEntry} {touched : Touched} {now : ℤ} {request : Prompt}

/-! ## The publishing loop -/

/-- The inversion of the loop that publishes, hash by hash. -/
structure Published (s s' : CacheState) (touched : Touched) (generation : ℕ) : Prop where
  entries : ∀ h, s'.entries.get? h = (touched.get? h).getD (s.entries.get? h)
  resident : ∀ h, (s'.resident.get? h).isSome = ((touched.get? h).map isSome).getD (s.resident.get? h).isSome
  pending : ∀ h, s'.pending.get? h =
    if s.persistEnabled then ((touched.get? h).map (PendingMutation.mk generation)).or (s.pending.get? h)
    else s.pending.get? h
  generation : s'.generation = s.generation
  persistEnabled : s'.persistEnabled = s.persistEnabled

variable (generation : ℕ)

variable (s : CacheState)

variable (e : ℕ × Option CacheEntry)

theorem publishOne_entries (h : ℕ) :
    (publishOne generation s e).entries.get? h = if e.1 = h then e.2 else s.entries.get? h := by
  obtain ⟨hash, entry⟩ := e
  unfold publishOne
  cases entry with
  | none =>
    dsimp only
    split
    · exact get?_erase _ _ _
    · exact get?_erase _ _ _
  | some entry =>
    dsimp only
    split
    · exact get?_insert _ _ _ _
    · exact get?_insert _ _ _ _

theorem publishOne_resident (h : ℕ) :
    ((publishOne generation s e).resident.get? h).isSome =
      if e.1 = h then e.2.isSome else (s.resident.get? h).isSome := by
  obtain ⟨hash, entry⟩ := e
  have hput : ((s.resident.insert hash ()).get? h).isSome =
      if hash = h then true else (s.resident.get? h).isSome := by
    rw [get?_insert]
    split <;> rfl
  have htake : ((s.resident.erase hash).get? h).isSome =
      if hash = h then false else (s.resident.get? h).isSome := by
    rw [get?_erase]
    split <;> rfl
  unfold publishOne
  cases entry with
  | none =>
    dsimp only
    split <;> exact htake
  | some entry =>
    dsimp only
    split <;> exact hput

theorem publishOne_pending (h : ℕ) :
    (publishOne generation s e).pending.get? h =
      if e.1 = h ∧ s.persistEnabled then some ⟨generation, e.2⟩ else s.pending.get? h := by
  obtain ⟨hash, entry⟩ := e
  have hput : (s.pending.insert hash ⟨generation, entry⟩).get? h =
      if hash = h then some ⟨generation, entry⟩ else s.pending.get? h := get?_insert _ _ _ _
  unfold publishOne
  cases entry with
  | none =>
    cases hp : s.persistEnabled with
    | true => simpa using hput
    | false => simp
  | some entry =>
    cases hp : s.persistEnabled with
    | true => simpa using hput
    | false => simp

theorem publishOne_rest :
    (publishOne generation s e).generation = s.generation ∧
      (publishOne generation s e).persistEnabled = s.persistEnabled := by
  obtain ⟨hash, entry⟩ := e
  unfold publishOne
  cases entry with
  | none =>
    dsimp only
    split <;> exact ⟨rfl, rfl⟩
  | some entry =>
    dsimp only
    split <;> exact ⟨rfl, rfl⟩

theorem foldl_publishOne (es : List (ℕ × Option CacheEntry)) :
    (es.foldl (publishOne generation) s).generation = s.generation ∧
      (es.foldl (publishOne generation) s).persistEnabled = s.persistEnabled := by
  induction es generalizing s with
  | nil => exact ⟨rfl, rfl⟩
  | cons e es ih =>
    rw [foldl_cons]
    obtain ⟨hgen, hpersist⟩ := publishOne_rest generation s e
    exact ⟨(ih _).1.trans hgen, (ih _).2.trans hpersist⟩

theorem published (touched : Touched) (generation : ℕ) :
    Published s (touched.entries.foldl (publishOne generation) s) touched generation := by
  obtain ⟨hgen, hpersist⟩ := foldl_publishOne generation s touched.entries
  refine ⟨fun h => ?_, fun h => ?_, fun h => ?_, hgen, hpersist⟩
  · have hfold := touched.foldl_entries (publishOne generation) (fun s h => s.entries.get? h)
      (fun entry _ => entry) (publishOne_entries generation) s h
    rw [hfold]
    cases touched.get? h <;> rfl
  · have hfold := touched.foldl_entries (publishOne generation)
      (fun s h => (s.resident.get? h).isSome) (fun entry _ => entry.isSome)
      (publishOne_resident generation) s h
    rw [hfold]
    cases touched.get? h <;> rfl
  · have hfold := touched.foldl_entries (publishOne generation)
      (fun s h => (s.persistEnabled, s.pending.get? h))
      (fun entry old => (old.1, if old.1 then some ⟨generation, entry⟩ else old.2)) (fun s e h => ?_) s h
    · have hpending := congrArg Prod.snd hfold
      dsimp only at hpending
      rw [hpending]
      cases touched.get? h with
      | none =>
        cases s.persistEnabled <;> rfl
      | some entry => rfl
    · rw [publishOne_pending, (publishOne_rest generation s e).2]
      by_cases heq : e.1 = h
      · simp [heq]
      · simp [heq]

/-! ## The planned changes -/

variable {hash : ℕ}

theorem windowHit_spec {window : List ℕ} {entry : CacheEntry}
    (h : windowHit entries now window = some (hash, entry)) :
    hash ∈ window ∧ entries.get? hash = some entry ∧ now < entry.expiresAt := by
  induction window with
  | nil => cases h
  | cons first window ih =>
    rw [windowHit] at h
    split at h
    · rename_i found hfound
      split at h
      · rename_i hlive
        cases h
        exact ⟨mem_cons_self, hfound, hlive⟩
      · obtain ⟨hmem, hrest⟩ := ih h
        exact ⟨mem_cons_of_mem _ hmem, hrest⟩
    · obtain ⟨hmem, hrest⟩ := ih h
      exact ⟨mem_cons_of_mem _ hmem, hrest⟩

theorem hits_spec {entry : CacheEntry} (h : (hash, entry) ∈ hits entries now request) :
    (∃ window ∈ request.windows, hash ∈ window) ∧ entries.get? hash = some entry ∧ now < entry.expiresAt := by
  obtain ⟨window, hwindow, hhit⟩ := mem_filterMap.mp h
  obtain ⟨hmem, hget, hlive⟩ := windowHit_spec hhit
  exact ⟨⟨window, hwindow, hmem⟩, hget, hlive⟩

/-- Where an entry that a call writes comes from. -/
def Sourced (entries : OrderedMap ℕ CacheEntry) (request : Prompt) (hash : ℕ) (entry : CacheEntry) : Prop :=
  (∃ old, entries.get? hash = some old ∧ entry.tokens = old.tokens) ∨
    ∃ write ∈ request.writes, write.1 = hash ∧ entry.tokens = write.2.1

def AllSourced (entries : OrderedMap ℕ CacheEntry) (request : Prompt) (touched : Touched) : Prop :=
  ∀ hash entry, touched.get? hash = some (some entry) → Sourced entries request hash entry

theorem AllSourced.insert (h : AllSourced entries request touched) {change : Option CacheEntry}
    (hnew : ∀ entry, change = some entry → Sourced entries request hash entry) :
    AllSourced entries request (touched.insert hash change) := by
  intro hash' entry hget
  rw [get?_insert] at hget
  split at hget
  · rename_i heq
    subst heq
    exact hnew entry (some.inj hget)
  · exact h hash' entry hget

theorem AllSourced.foldl {α : Type} {es : List α} {key : α → ℕ} {change : α → Option CacheEntry}
    (h : AllSourced entries request touched)
    (hnew : ∀ e ∈ es, ∀ entry, change e = some entry → Sourced entries request (key e) entry) :
    AllSourced entries request (es.foldl (fun touched e => touched.insert (key e) (change e)) touched) := by
  induction es generalizing touched with
  | nil => exact h
  | cons e es ih =>
    rw [foldl_cons]
    exact ih (h.insert (hnew e mem_cons_self)) fun e' he' => hnew e' (mem_cons_of_mem _ he')

theorem AllSourced.enforceCapacity (h : AllSourced entries request touched) :
    AllSourced entries request (enforceCapacity entries touched) := by
  unfold PromptCache.enforceCapacity
  dsimp only
  split
  · exact h
  · exact h.foldl fun e _ entry heq => by cases heq

theorem plan_sourced (entries : OrderedMap ℕ CacheEntry) (now : ℤ) (request : Prompt) :
    AllSourced entries request (plan entries now request) := by
  have hempty : AllSourced entries request .empty := by
    intro hash entry hget
    cases hget
  unfold plan
  refine .enforceCapacity (.foldl (.foldl (.foldl hempty ?_) ?_) ?_)
  · intro hash _ entry heq
    cases heq
  · intro hit hmem entry heq
    cases heq
    exact .inl ⟨hit.2, (hits_spec hmem).2.1, rfl⟩
  · intro write hmem entry heq
    cases heq
    exact .inr ⟨write, hmem, rfl, rfl⟩

/-! ## Capacity -/

theorem mem_remaining {h : ℕ} :
    h ∈ (remaining entries touched).map Prod.fst ↔
      (∃ e, entries.get? h = some e ∧ touched.get? h = none) ∨ ∃ e, touched.get? h = some (some e) := by
  unfold remaining
  rw [map_append, mem_append]
  refine or_congr ⟨fun hmem => ?_, ?_⟩ ⟨fun hmem => ?_, ?_⟩
  · obtain ⟨p, hp, rfl⟩ := mem_map.mp hmem
    obtain ⟨e, he, rfl⟩ := mem_map.mp hp
    obtain ⟨hentry, hnone⟩ := mem_filter.mp he
    exact ⟨e.2, mem_entries_iff.mp hentry, isNone_iff_eq_none.mp hnone⟩
  · rintro ⟨e, hget, hnone⟩
    refine mem_map.mpr ⟨(h, e.lastHitAt), mem_map.mpr ⟨(h, e), ?_, rfl⟩, rfl⟩
    exact mem_filter.mpr ⟨mem_entries_iff.mpr hget, isNone_iff_eq_none.mpr hnone⟩
  · obtain ⟨p, hp, rfl⟩ := mem_map.mp hmem
    obtain ⟨⟨hash, change⟩, he, heq⟩ := mem_filterMap.mp hp
    obtain ⟨entry, hentry, rfl⟩ := map_eq_some_iff.mp heq
    subst hentry
    exact ⟨entry, mem_entries_iff.mp he⟩
  · rintro ⟨e, hget⟩
    refine mem_map.mpr ⟨(h, e.lastHitAt), mem_filterMap.mpr ⟨(h, some e), ?_, rfl⟩, rfl⟩
    exact mem_entries_iff.mpr hget

theorem length_remaining (entries : OrderedMap ℕ CacheEntry) (touched : Touched) :
    (remaining entries touched).length +
        (touched.entries.filter fun e => e.2.isNone && (entries.get? e.1).isSome).length ≤
      entries.size + (touched.entries.filter fun e => e.2.isSome && (entries.get? e.1).isNone).length := by
  have hsplit : entries.size = (entries.entries.filter fun e => (touched.get? e.1).isNone).length +
      (entries.entries.filter fun e => (touched.get? e.1).isSome).length := by
    unfold size
    rw [← countP_eq_length_filter, ← countP_eq_length_filter,
      length_eq_countP_add_countP (fun e : ℕ × CacheEntry => (touched.get? e.1).isNone)]
    congr 1
    refine countP_congr fun e _ => ?_
    cases touched.get? e.1 <;> simp
  have hwritten : (touched.entries.filterMap fun e => e.2.map fun entry => (e.1, entry.lastHitAt)).length =
      (touched.entries.filter fun e => e.2.isSome && (entries.get? e.1).isNone).length +
        (touched.entries.filter fun e => e.2.isSome && (entries.get? e.1).isSome).length := by
    induction touched.entries with
    | nil => rfl
    | cons e es ih =>
      obtain ⟨hash, change⟩ := e
      cases change with
      | none => simpa using ih
      | some entry =>
        cases hget : entries.get? hash with
        | none => simp [hget, ih]; omega
        | some old => simp [hget, ih]; omega
  have hboth : (touched.entries.filter fun e => (entries.get? e.1).isSome).length =
      (touched.entries.filter fun e => e.2.isNone && (entries.get? e.1).isSome).length +
        (touched.entries.filter fun e => e.2.isSome && (entries.get? e.1).isSome).length := by
    induction touched.entries with
    | nil => rfl
    | cons e es ih =>
      obtain ⟨hash, change⟩ := e
      cases hget : entries.get? hash with
      | none => simpa [hget] using ih
      | some old =>
        cases change with
        | none => simp [hget, ih]; omega
        | some entry => simp [hget, ih]; omega
  have hle : (touched.filter fun e => (entries.get? e.1).isSome).size ≤
      (entries.entries.filter fun e => (touched.get? e.1).isSome).length := by
    refine size_le_of_keys fun {h change} hget => ?_
    obtain ⟨htouched, hsome⟩ := get?_filter_eq_some.mp hget
    obtain ⟨e, he⟩ := isSome_iff_exists.mp hsome
    refine mem_map.mpr ⟨(h, e), mem_filter.mpr ⟨mem_entries_iff.mpr he, ?_⟩, rfl⟩
    rw [htouched]
    rfl
  have hfilter : (touched.filter fun e => (entries.get? e.1).isSome).size =
      (touched.entries.filter fun e => (entries.get? e.1).isSome).length := rfl
  have hremaining : (remaining entries touched).length =
      (entries.entries.filter fun e => (touched.get? e.1).isNone).length +
        (touched.entries.filterMap fun e => e.2.map fun entry => (e.1, entry.lastHitAt)).length := by
    unfold remaining
    rw [length_append, length_map]
  omega

theorem get?_victims (victims : List (ℕ × ℤ)) (h : ℕ) :
    (victims.foldl (fun touched victim => touched.insert victim.1 none) touched).get? h =
      if h ∈ victims.map Prod.fst then some none else touched.get? h := by
  induction victims generalizing touched with
  | nil => rfl
  | cons victim victims ih =>
    rw [foldl_cons, ih, get?_insert, map_cons]
    by_cases hmem : h ∈ victims.map Prod.fst
    · rw [if_pos hmem, if_pos (mem_cons_of_mem _ hmem)]
    · rw [if_neg hmem]
      by_cases heq : victim.1 = h
      · rw [if_pos heq, if_pos (heq ▸ mem_cons_self)]
      · rw [if_neg heq, if_neg]
        rintro hcons
        rcases mem_cons.mp hcons with rfl | hold
        · exact heq rfl
        · exact hmem hold

/-- Behind the planned changes the cache is not over its capacity. -/
theorem size_le_capacity {entries' : OrderedMap ℕ CacheEntry}
    (hentries : ∀ h, entries'.get? h = ((enforceCapacity entries touched).get? h).getD (entries.get? h)) :
    entries'.size ≤ cacheCapacity := by
  have hcount := length_remaining entries touched
  have hleft : ∀ {h e}, ((touched.get? h).getD (entries.get? h)) = some e →
      h ∈ (remaining entries touched).map Prod.fst := by
    intro h e heq
    rw [mem_remaining]
    cases htouched : touched.get? h with
    | none =>
      rw [htouched] at heq
      exact .inl ⟨e, heq, rfl⟩
    | some change =>
      rw [htouched] at heq
      exact .inr ⟨e, congrArg some heq⟩
  unfold enforceCapacity at hentries
  dsimp only at hentries
  split at hentries
  · rename_i hfits
    have hsize : entries'.size ≤ (remaining entries touched).length :=
      size_le_of_keys fun {h e} hget => hleft (hentries h ▸ hget)
    omega
  · rename_i hover
    set sorted := (remaining entries touched).insertionSort older with hsorted
    set k := entries.size + (touched.entries.filter fun e => e.2.isSome && (entries.get? e.1).isNone).length -
      (touched.entries.filter fun e => e.2.isNone && (entries.get? e.1).isSome).length - cacheCapacity
    have hperm : sorted.Perm (remaining entries touched) := perm_insertionSort _ _
    have hsize : entries'.size ≤ (sorted.drop k).length := by
      refine size_le_of_keys fun {h e} hget => ?_
      rw [hentries h, get?_victims] at hget
      split at hget
      · cases hget
      · rename_i hnot
        have hmem : h ∈ sorted.map Prod.fst := (hperm.map Prod.fst).mem_iff.mpr (hleft hget)
        rw [← take_append_drop k sorted, map_append, mem_append] at hmem
        exact hmem.resolve_left hnot
    rw [length_drop, hperm.length_eq] at hsize
    omega

/-! ## The call behind the lock -/

/-- Nothing is touched when memory is refused; else what is planned is published in one generation. -/
theorem lockedUsage_cases (now : ℤ) (grants : Grants) (request : Prompt) :
    s.lockedUsage now grants request = (none, s) ∨ ∃ slotsUsed,
      s.lockedUsage now grants request =
        (some (deepestRead (hits s.entries now request)), s.publish (plan s.entries now request) slotsUsed) := by
  unfold lockedUsage
  split
  · dsimp only
    split
    · exact .inl rfl
    · rename_i slotsUsed _
      exact .inr ⟨slotsUsed, rfl⟩
  · exact .inl rfl

end CcSwitchServer.PromptCache
