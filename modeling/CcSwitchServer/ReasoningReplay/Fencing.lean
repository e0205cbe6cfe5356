import CcSwitchServer.ReasoningReplay.Cache

/-! # Generations fence the writers of a replay cache

A generation that is not installed at some moment never comes back.
-/

namespace CcSwitchServer.ReasoningReplay
open Foundations OrderedMap List Store

variable {κ π : Type} [LinearOrder κ] {rules : Rules κ π} {s t u : Store κ π} {scope : κ} {now : ℤ}

/-- What the two caches have in common beyond their operations. -/
structure Rules.Lawful (rules : Rules κ π) : Prop where
  entries : ∀ s now, (rules.prune s now).entries = s.entries.filter fun e => now < e.2.expiresAtMs
  generation : ∀ s now, (rules.prune s now).generation = s.generation
  total : ∀ s now, s.totalBytes = s.bytesSum → (rules.prune s now).totalBytes = (rules.prune s now).bytesSum
  total_le : rules.maxTotalBytes ≤ u64Max
  accept_le : ∀ p b, rules.accept p = some b → rules.maxTotalBytes + b ≤ u64Max

/-- The total is the sum of the entries, which have generations of their own, none newer than the counter. -/
structure Counted (s : Store κ π) : Prop where
  total : s.totalBytes = s.bytesSum
  drawn : ∀ {k e}, s.entries.get? k = some e → e.generation ≤ s.generation
  distinct : ∀ {k k' e e'}, s.entries.get? k = some e → s.entries.get? k' = some e' →
    e.generation = e'.generation → k = k'

/-- The entries are counted and within the limits. -/
structure Sound (rules : Rules κ π) (s : Store κ π) : Prop extends Counted s where
  size : s.entries.size ≤ rules.maxEntries
  bytes : s.totalBytes ≤ rules.maxTotalBytes

theorem Sound.empty : Sound rules ({} : Store κ π) where
  total := rfl
  drawn h := by cases h
  distinct h := by cases h
  size := Nat.zero_le _
  bytes := Nat.zero_le _

/-! ## Fewer entries -/

/-- `t` is `s` with entries taken away. -/
structure Within (s t : Store κ π) : Prop where
  generation : t.generation = s.generation
  entry : ∀ {k e}, t.entries.get? k = some e → s.entries.get? k = some e

theorem Within.refl (s : Store κ π) : Within s s := ⟨rfl, id⟩

theorem Within.trans (h : Within s t) (h' : Within t u) : Within s u :=
  ⟨h'.generation.trans h.generation, fun hk => h.entry (h'.entry hk)⟩

theorem Counted.within (hs : Counted s) (h : Within s t) (htotal : t.totalBytes = t.bytesSum) : Counted t where
  total := htotal
  drawn hk := by
    rw [h.generation]
    exact hs.drawn (h.entry hk)
  distinct hk hk' := hs.distinct (h.entry hk) (h.entry hk')

theorem within_prune (hl : rules.Lawful) (s : Store κ π) (now : ℤ) : Within s (rules.prune s now) where
  generation := hl.generation s now
  entry hk := by
    rw [hl.entries, get?_filter_eq_some] at hk
    exact hk.1

theorem Sound.prune (hl : rules.Lawful) (hs : Sound rules s) (now : ℤ) : Sound rules (rules.prune s now) := by
  have hcounted := hs.toCounted.within (within_prune hl s now) (hl.total s now hs.total)
  refine ⟨hcounted, ?_, ?_⟩
  · rw [hl.entries]
    exact (length_filter_le _ _).trans hs.size
  · rw [hcounted.total, bytesSum, hl.entries]
    have hsub : (((s.entries.filter fun e => now < e.2.expiresAtMs).values.map Entry.bytes)).Sublist
        (s.entries.values.map Entry.bytes) := (List.filter_sublist.map Prod.snd).map Entry.bytes
    have hle := hsub.sum_le_sum fun _ _ => Nat.zero_le _
    have htotal := hs.total
    have hbytes := hs.bytes
    rw [bytesSum] at htotal
    omega

theorem remove_of_none (h : s.entries.get? scope = none) : s.remove scope = s := by
  rw [remove, h]

theorem remove_of_some {e : Entry π} (h : s.entries.get? scope = some e) :
    s.remove scope = { s with entries := s.entries.erase scope, totalBytes := s.totalBytes - e.bytes } := by
  rw [remove, h]

theorem within_remove (s : Store κ π) (scope : κ) : Within s (s.remove scope) := by
  cases h : s.entries.get? scope with
  | none =>
    rw [remove_of_none h]
    exact .refl s
  | some e =>
    rw [remove_of_some h]
    refine ⟨rfl, fun hk => ?_⟩
    rw [get?_erase] at hk
    split at hk
    · cases hk
    · exact hk

theorem Counted.remove (hs : Counted s) (scope : κ) : Counted (s.remove scope) := by
  refine hs.within (within_remove s scope) ?_
  cases h : s.entries.get? scope with
  | none =>
    rw [remove_of_none h]
    exact hs.total
  | some e =>
    have hsum := sum_values_erase Entry.bytes h
    have htotal := hs.total
    rw [remove_of_some h]
    rw [bytesSum] at htotal ⊢
    dsimp only
    omega

theorem size_remove_le (s : Store κ π) (scope : κ) : (s.remove scope).entries.size ≤ s.entries.size := by
  cases h : s.entries.get? scope with
  | none => rw [remove_of_none h]
  | some e =>
    rw [remove_of_some h]
    exact Nat.le_of_succ_le (size_erase_of_get? h).le

theorem get?_remove_self (s : Store κ π) (scope : κ) : (s.remove scope).entries.get? scope = none := by
  cases h : s.entries.get? scope with
  | none => rw [remove_of_none h, h]
  | some e =>
    rw [remove_of_some h]
    rw [get?_erase, if_pos rfl]

theorem Sound.remove (hs : Sound rules s) (scope : κ) : Sound rules (s.remove scope) := by
  refine ⟨hs.toCounted.remove scope, (size_remove_le s scope).trans hs.size, ?_⟩
  cases h : s.entries.get? scope with
  | none =>
    rw [remove_of_none h]
    exact hs.bytes
  | some e =>
    rw [remove_of_some h]
    exact (Nat.sub_le _ _).trans hs.bytes

/-! ## Eviction -/

omit [LinearOrder κ] in
theorem oldest_eq_none {entries : List (κ × Entry π)} : oldest entries = none ↔ entries = [] := by
  cases entries with
  | nil => simp [oldest]
  | cons e rest =>
    simp only [oldest, reduceCtorEq, iff_false]
    split
    · simp
    · split <;> simp

theorem older_total (a b : Entry π) : Store.Older a b ∨ Store.Older b a := by
  unfold Store.Older
  omega

theorem Older.trans {a b c : Entry π} (h : Store.Older a b) (h' : Store.Older b c) : Store.Older a c := by
  unfold Store.Older at *
  omega

omit [LinearOrder κ] in
theorem oldest_spec {entries : List (κ × Entry π)} {m : κ × Entry π} (h : oldest entries = some m) :
    m ∈ entries ∧ ∀ e ∈ entries, Store.Older m.2 e.2 := by
  induction entries generalizing m with
  | nil => cases h
  | cons a rest ih =>
    rw [oldest] at h
    cases hrest : oldest rest with
    | none =>
      rw [hrest] at h
      cases h
      rw [oldest_eq_none.mp hrest]
      refine ⟨mem_cons_self, fun e he => ?_⟩
      rw [mem_singleton.mp he]
      exact (older_total _ _).elim id id
    | some b =>
      obtain ⟨hb, hbmin⟩ := ih hrest
      rw [hrest] at h
      dsimp only at h
      split at h
      · rename_i hle
        cases h
        refine ⟨mem_cons_self, fun e he => ?_⟩
        rcases mem_cons.mp he with rfl | he
        · exact (older_total _ _).elim id id
        · exact Older.trans hle (hbmin e he)
      · rename_i hle
        cases h
        refine ⟨mem_cons_of_mem _ hb, fun e he => ?_⟩
        rcases mem_cons.mp he with rfl | he
        · exact (older_total _ _).resolve_right hle
        · exact hbmin e he

variable (rules) in
theorem within_evict (n : ℕ) (s : Store κ π) : Within s (s.evict rules n) := by
  induction n generalizing s with
  | zero => exact .refl s
  | succ n ih =>
    rw [evict]
    split
    · split
      · exact .refl s
      · exact (within_remove s _).trans (ih _)
    · exact .refl s

theorem Counted.evict (hs : Counted s) (n : ℕ) : Counted (s.evict rules n) := by
  induction n generalizing s with
  | zero => exact hs
  | succ n ih =>
    rw [evict]
    split
    · split
      · exact hs
      · exact ih (hs.remove _)
    · exact hs

theorem not_over_of_empty (hs : Counted s) (h : s.entries.size = 0) : ¬s.Over rules := by
  have hnil : s.entries.entries = [] := length_eq_zero_iff.mp h
  have htotal : s.totalBytes = 0 := by rw [hs.total, bytesSum, values, hnil]; rfl
  unfold Store.Over
  omega

variable (rules) in
theorem not_over_evict (hs : Counted s) (n : ℕ) (hn : s.entries.size ≤ n) : ¬(s.evict rules n).Over rules := by
  induction n generalizing s with
  | zero => exact not_over_of_empty hs (Nat.le_zero.mp hn)
  | succ n ih =>
    rw [evict]
    split
    · split
      · rename_i hnone
        refine not_over_of_empty hs ?_
        rw [size, oldest_eq_none.mp hnone]
        rfl
      · rename_i k e hsome
        have hget := mem_entries_iff.mp (oldest_spec hsome).1
        refine ih (hs.remove k) ?_
        rw [remove_of_some hget]
        have := size_erase_of_get? hget
        dsimp only
        omega
    · assumption

theorem Counted.enforceLimits (hs : Counted s) : Sound rules (s.enforceLimits rules) := by
  have hnot := not_over_evict rules hs s.entries.size le_rfl
  unfold Store.Over at hnot
  exact ⟨hs.evict _, by unfold Store.enforceLimits; omega, by unfold Store.enforceLimits; omega⟩

/-! ## New generations -/

section
variable (h : s.generation < u64Max)
include h

theorem nextGeneration_eq :
    s.nextGeneration = { s with generation := s.generation + 1 } := by
  unfold nextGeneration saturatingAdd
  rw [show max (min (s.generation + 1) u64Max) 1 = s.generation + 1 by omega]

theorem install_generation (proof : Option π) (bytes : ℕ) :
    (s.install rules scope proof bytes now).generation = s.generation + 1 := by
  unfold install
  rw [nextGeneration_eq h]

theorem install_get? (proof : Option π) (bytes : ℕ) {k : κ} {e : Entry π}
    (hk : (s.install rules scope proof bytes now).entries.get? k = some e) :
    k = scope ∧ e = ⟨proof, s.generation + 1, now, rules.expiry now, bytes⟩ ∨
      k ≠ scope ∧ s.entries.get? k = some e := by
  unfold install at hk
  rw [nextGeneration_eq h] at hk
  rw [get?_insert] at hk
  split at hk
  · rename_i heq
    cases hk
    exact .inl ⟨heq.symm, rfl⟩
  · rename_i hne
    exact .inr ⟨fun heq => hne heq.symm, hk⟩

end

variable (rules scope now) in
theorem Counted.install (hs : Counted s) (h : s.generation < u64Max) (proof : Option π) {bytes : ℕ}
    (hfresh : s.entries.get? scope = none) (hbytes : s.totalBytes + bytes ≤ u64Max) :
    Counted (s.install rules scope proof bytes now) where
  total := by
    have hsum := sum_values_insert Entry.bytes s.entries scope ⟨proof, s.generation + 1, now, rules.expiry now, bytes⟩
    have htotal := hs.total
    rw [hfresh] at hsum
    rw [bytesSum] at htotal
    unfold Store.install Store.bytesSum
    rw [nextGeneration_eq h]
    dsimp only at hsum ⊢
    rw [saturatingAdd, min_eq_left hbytes]
    simp only [Option.map_none, Option.getD_none, Nat.add_zero] at hsum
    omega
  drawn hk := by
    rw [install_generation h]
    rcases install_get? h proof bytes hk with ⟨_, rfl⟩ | ⟨_, hold⟩
    · exact le_rfl
    · exact (hs.drawn hold).trans (Nat.le_succ _)
  distinct := by
    intro k k' e e' hk hk' heq
    rcases install_get? h proof bytes hk with ⟨hk₁, rfl⟩ | ⟨_, hold⟩ <;>
      rcases install_get? h proof bytes hk' with ⟨hk₂, rfl⟩ | ⟨_, hold'⟩
    · exact hk₁.trans hk₂.symm
    · have := hs.drawn hold'
      dsimp only at heq
      omega
    · have := hs.drawn hold
      dsimp only at heq
      omega
    · exact hs.distinct hold hold' heq

/-! ## What a step can do -/

/-- An entry afterwards was there before, or its generation is new. -/
structure Advances (s t : Store κ π) : Prop where
  generation : s.generation ≤ t.generation
  entry : ∀ {k e}, t.entries.get? k = some e →
    (∃ old, s.entries.get? k = some old ∧ old.generation = e.generation ∧ old.proof = e.proof) ∨
      s.generation < e.generation

theorem Within.advances (h : Within s t) : Advances s t where
  generation := h.generation.ge
  entry hk := .inl ⟨_, h.entry hk, rfl, rfl⟩

theorem Advances.trans (h : Advances s t) (h' : Advances t u) : Advances s u where
  generation := h.generation.trans h'.generation
  entry hk := by
    rcases h'.entry hk with ⟨e, he, hgen, hproof⟩ | hnew
    · rcases h.entry he with ⟨old, hold, hgen', hproof'⟩ | hnew
      · exact .inl ⟨old, hold, hgen'.trans hgen, hproof'.trans hproof⟩
      · exact .inr (hgen ▸ hnew)
    · exact .inr (h.generation.trans_lt hnew)

theorem advances_nextGeneration (h : s.generation < u64Max) : Advances s s.nextGeneration := by
  rw [nextGeneration_eq h]
  exact ⟨Nat.le_succ _, fun hk => .inl ⟨_, hk, rfl, rfl⟩⟩

theorem advances_install (h : s.generation < u64Max) (proof : Option π) (bytes : ℕ) :
    Advances s (s.install rules scope proof bytes now) where
  generation := by
    rw [install_generation h]
    exact Nat.le_succ _
  entry hk := by
    rcases install_get? h proof bytes hk with ⟨_, rfl⟩ | ⟨_, hold⟩
    · exact .inr (Nat.lt_succ_self _)
    · exact .inl ⟨_, hold, rfl, rfl⟩

/-- How many generations a call draws. -/
def Store.draws (rules : Rules κ π) (s : Store κ π) : Call κ π → ℕ
  | .snapshot scope now _ | .getAccounted scope now _ _ =>
    if (rules.prune s now).entries.get? scope = none then 1 else 0
  | .replaceIfUnchanged scope snapshot proof now granted =>
    if (rules.accept proof).isSome ∧ (rules.prune s now).installed scope = some snapshot.generation ∧
      granted then 1 else 0
  | .deleteIfUnchanged scope snapshot _ granted =>
    if s.installed scope = some snapshot.generation ∧ granted then 1 else 0

/-- A step keeps the store sound and moves the counter by what it draws. -/
structure Steps (rules : Rules κ π) (s t : Store κ π) (draws : ℕ) : Prop where
  sound : Sound rules t
  advances : Advances s t
  generation : t.generation = s.generation + draws

theorem Steps.within (hs : Sound rules t) (h : Within s t) : Steps rules s t 0 := ⟨hs, h.advances, h.generation⟩

theorem Steps.trans {m n : ℕ} (h : Steps rules s t m) (h' : Steps rules t u n) : Steps rules s u (m + n) :=
  ⟨h'.sound, h.advances.trans h'.advances, by rw [h'.generation, h.generation, Nat.add_assoc]⟩

theorem steps_install (hs : Sound rules s) (h : s.generation < u64Max) (proof : Option π) {bytes : ℕ}
    (hfresh : s.entries.get? scope = none) (hbytes : s.totalBytes + bytes ≤ u64Max) :
    Steps rules s ((s.install rules scope proof bytes now).enforceLimits rules) 1 := by
  have hin := hs.toCounted.install rules scope now h proof hfresh hbytes
  have hwithin := within_evict rules (s.install rules scope proof bytes now).entries.size
    (s.install rules scope proof bytes now)
  refine ⟨hin.enforceLimits, (advances_install h proof bytes).trans hwithin.advances, ?_⟩
  exact hwithin.generation.trans (install_generation h proof bytes)

theorem steps_reserve (hl : rules.Lawful) (hs : Sound rules s) (h : s.generation < u64Max)
    (hfresh : s.entries.get? scope = none) : Steps rules s (s.reserve rules scope now) 1 :=
  steps_install hs h none hfresh (hs.bytes.trans hl.total_le)

theorem steps_hold (hs : Sound rules s) : Steps rules s (s.hold rules scope now).2 0 := by
  unfold hold
  split
  · exact .within hs (.refl s)
  · rename_i e he
    have hcases : ∀ {k e'}, (s.entries.insert scope
        { e with touchedAtMs := now, expiresAtMs := rules.expiry now }).get? k = some e' →
        ∃ old, s.entries.get? k = some old ∧ old.generation = e'.generation ∧ old.proof = e'.proof := by
      intro k e' hk
      rw [get?_insert] at hk
      split at hk
      · rename_i heq
        subst heq
        cases hk
        exact ⟨e, he, rfl, rfl⟩
      · exact ⟨e', hk, rfl, rfl⟩
    refine ⟨⟨⟨?_, ?_, ?_⟩, ?_, hs.bytes⟩, ⟨le_rfl, fun hk => .inl (hcases hk)⟩, rfl⟩
    · have hsum := sum_values_update Entry.bytes { e with touchedAtMs := now, expiresAtMs := rules.expiry now } he
      have htotal := hs.total
      rw [bytesSum] at htotal ⊢
      dsimp only at hsum ⊢
      omega
    · intro k e' hk
      obtain ⟨old, hold, hgen, -⟩ := hcases hk
      rw [← hgen]
      exact hs.drawn hold
    · intro k k' e₁ e₂ hk hk' heq
      obtain ⟨old, hold, hgen, -⟩ := hcases hk
      obtain ⟨old', hold', hgen', -⟩ := hcases hk'
      exact hs.distinct hold hold' (hgen.trans (heq.trans hgen'.symm))
    · dsimp only
      rw [size_insert_of_get? _ he]
      exact hs.size

theorem steps_touch (hl : rules.Lawful) (hs : Sound rules s) (granted : Bool)
    (h : s.generation + (if (rules.prune s now).entries.get? scope = none then 1 else 0) ≤ u64Max) :
    Steps rules s (s.touch rules scope now granted).2
      (if (rules.prune s now).entries.get? scope = none then 1 else 0) := by
  have hp := hs.prune hl now
  have hwithin := within_prune hl s now
  have hgen := hwithin.generation
  unfold touch
  dsimp only
  split
  · rename_i hnone
    rw [if_pos hnone] at h
    have hlt : (rules.prune s now).generation < u64Max := by omega
    rw [show (1 : ℕ) = 0 + 1 from rfl]
    refine (Steps.within hp hwithin).trans ?_
    split
    · exact (steps_reserve hl hp hlt hnone).trans (steps_hold (steps_reserve hl hp hlt hnone).sound)
    · refine ⟨?_, advances_nextGeneration hlt, by rw [nextGeneration_eq hlt]⟩
      rw [nextGeneration_eq hlt]
      exact ⟨⟨hp.total, fun hk => (hp.drawn hk).trans (Nat.le_succ _), hp.distinct⟩, hp.size, hp.bytes⟩
  · exact (Steps.within hp hwithin).trans (steps_hold hp)

theorem snapshot_store (s : Store κ π) (scope : κ) (now : ℤ) (granted : Bool) :
    (s.snapshot rules scope now granted).2 = (s.touch rules scope now granted).2 := by
  unfold snapshot
  split <;> (rename_i h; rw [h])

theorem getAccounted_store (s : Store κ π) (scope : κ) (now : ℤ) (granted : Bool) (request : Option Bool) :
    (s.getAccounted rules scope now granted request).2 = (s.touch rules scope now granted).2 := by
  unfold getAccounted
  split
  · rename_i h
    rw [h]
  · rename_i h
    rw [h]
    split <;> rfl
  · rename_i h
    rw [h]

/-- An entry behind a call was there with its generation, or its generation is new. -/
theorem steps_call (hl : rules.Lawful) (hs : Sound rules s) (c : Call κ π)
    (h : s.generation + s.draws rules c ≤ u64Max) : Steps rules s (s.step rules c) (s.draws rules c) := by
  unfold step
  cases c with
  | snapshot scope now granted =>
    rw [call, snapshot_store]
    exact steps_touch hl hs granted h
  | getAccounted scope now granted request =>
    rw [call, getAccounted_store]
    exact steps_touch hl hs granted h
  | replaceIfUnchanged scope snapshot proof now granted =>
    rw [draws] at h ⊢
    rw [call]
    unfold replaceIfUnchanged
    cases haccept : rules.accept proof with
    | none => exact .within hs (.refl s)
    | some bytes =>
      rw [haccept] at h
      have hp := hs.prune hl now
      have hwithin := within_prune hl s now
      have hgen := hwithin.generation
      dsimp only at h ⊢
      split
      · rename_i hne
        rw [if_neg fun hall => hne hall.2.1]
        exact .within hp hwithin
      · rename_i heq
        have heq := not_not.mp heq
        have hremoved := hwithin.trans (within_remove (rules.prune s now) scope)
        cases granted with
        | false =>
          rw [if_neg (by simp), if_neg (by simp)]
          exact .within (hp.remove scope) hremoved
        | true =>
          rw [if_pos ⟨rfl, heq, rfl⟩] at h
          rw [if_pos rfl, if_pos ⟨rfl, heq, rfl⟩, show (1 : ℕ) = 0 + 1 from rfl]
          refine (Steps.within (hp.remove scope) hremoved).trans ?_
          have hlt : ((rules.prune s now).remove scope).generation < u64Max := by
            rw [hremoved.generation]
            omega
          refine steps_install (hp.remove scope) hlt (some proof) (get?_remove_self _ scope) ?_
          have := (hp.remove scope).bytes
          have := hl.accept_le proof bytes haccept
          omega
  | deleteIfUnchanged scope snapshot now granted =>
    rw [draws] at h ⊢
    rw [call]
    unfold deleteIfUnchanged
    dsimp only at h ⊢
    split
    · rename_i hne
      rw [if_neg fun hall => hne hall.1]
      exact .within hs (.refl s)
    · rename_i heq
      have heq := not_not.mp heq
      have hremoved := within_remove s scope
      cases granted with
      | false =>
        rw [if_neg (by simp), if_neg (by simp)]
        exact .within (hs.remove scope) hremoved
      | true =>
        rw [if_pos ⟨heq, rfl⟩] at h
        rw [if_pos rfl, if_pos ⟨heq, rfl⟩, show (1 : ℕ) = 0 + 1 from rfl]
        refine (Steps.within (hs.remove scope) hremoved).trans ?_
        have hlt : (s.remove scope).generation < u64Max := by
          rw [hremoved.generation]
          omega
        exact steps_reserve hl (hs.remove scope) hlt (get?_remove_self s scope)

end CcSwitchServer.ReasoningReplay
