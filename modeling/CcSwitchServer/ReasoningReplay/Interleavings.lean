import CcSwitchServer.ReasoningReplay.Fencing

/-! # Interleavings of replay cache calls

The calls are serialised by the lock, so an interleaving is a list of them.
-/

namespace CcSwitchServer.ReasoningReplay
open Foundations Store OrderedMap

/-! ## What calls show and need -/

section
variable {κ π : Type} [LinearOrder κ]

/-- The generation that an answer shows to a reader. -/
def Answer.shown : Answer π → Option ℕ
  | .snapshot ⟨generation, _⟩ => some generation
  | .read _ ⟨generation, _⟩ => some generation
  | _ => none

/-- The scope and the generation that a writer presents. -/
def Call.presents : Call κ π → Option (κ × ℕ)
  | .replaceIfUnchanged scope ⟨generation, _⟩ _ _ _ => some (scope, generation)
  | .deleteIfUnchanged scope ⟨generation, _⟩ _ _ => some (scope, generation)
  | _ => none

def Store.drawn (rules : Rules κ π) (s : Store κ π) : List (Call κ π) → ℕ
  | [] => 0
  | c :: calls => s.draws rules c + (s.step rules c).drawn rules calls

end

variable {κ π : Type} [LinearOrder κ] {rules : Rules κ π} {s t : Store κ π} {scope : κ} {now : ℤ}

/-! ## Generations that are gone -/

def Gone (s : Store κ π) (generation : ℕ) : Prop := generation ≤ s.generation ∧ ∀ k, s.installed k ≠ some generation

variable {g : ℕ} {u : Store κ π} {granted : Bool} {c : Call κ π}

theorem installed_eq_some : s.installed scope = some g ↔ ∃ e, s.entries.get? scope = some e ∧ e.generation = g :=
  Option.map_eq_some_iff

theorem Within.installed (h : Within s t) (hg : t.installed scope = some g) : s.installed scope = some g := by
  obtain ⟨e, he, hgen⟩ := installed_eq_some.mp hg
  exact installed_eq_some.mpr ⟨e, h.entry he, hgen⟩

theorem Advances.installed (h : Advances s t) (hg : t.installed scope = some g) :
    s.installed scope = some g ∨ s.generation < g := by
  obtain ⟨e, he, rfl⟩ := installed_eq_some.mp hg
  rcases h.entry he with ⟨old, hold, hgen, -⟩ | hnew
  · exact .inl (installed_eq_some.mpr ⟨old, hold, hgen⟩)
  · exact .inr hnew

theorem Gone.advances (hg : Gone s g) (h : Advances s t) : Gone t g := by
  refine ⟨hg.1.trans h.generation, fun k hinst => ?_⟩
  rcases h.installed hinst with hold | hnew
  · exact hg.2 k hold
  · exact absurd hnew (not_lt.mpr hg.1)

theorem gone_remove (hs : Counted s) (hg : s.installed scope = some g) : Gone (s.remove scope) g := by
  obtain ⟨e, he, rfl⟩ := installed_eq_some.mp hg
  refine ⟨?_, fun k hk => ?_⟩
  · rw [(within_remove s scope).generation]
    exact hs.drawn he
  · obtain ⟨e', he', hgen⟩ := installed_eq_some.mp hk
    have hkey := hs.distinct ((within_remove s scope).entry he') he hgen
    subst hkey
    rw [get?_remove_self] at he'
    cases he'

/-! ## What a reader sees -/

theorem hold_generation {e : Entry π} (h : s.hold rules scope now = (.entry e, u)) :
    u.installed scope = some e.generation := by
  unfold hold at h
  split at h
  · cases h
  · cases h
    exact installed_eq_some.mpr ⟨_, get?_insert_self _ _ _, rfl⟩

theorem touch_generation {e : Entry π} (h : s.touch rules scope now granted = (.entry e, u)) :
    u.installed scope = some e.generation := by
  unfold touch at h
  dsimp only at h
  split at h
  · split at h
    · exact hold_generation h
    · cases h
  · exact hold_generation h

theorem touch_fenced (hl : rules.Lawful)
    (hlt : s.generation + (if (rules.prune s now).entries.get? scope = none then 1 else 0) ≤ u64Max)
    (h : s.touch rules scope now granted = (.fenced g, u)) : s.generation < g := by
  have hgen := (within_prune hl s now).generation
  have hhold : ∀ {v w : Store κ π}, v.hold rules scope now ≠ (.fenced g, w) := by
    intro v w hv
    unfold hold at hv
    split at hv <;> cases hv
  unfold touch at h
  dsimp only at h
  split at h
  · rename_i hnone
    rw [if_pos hnone] at hlt
    split at h
    · exact absurd h hhold
    · rw [nextGeneration_eq (by omega)] at h
      cases h
      dsimp only
      omega
  · exact absurd h hhold

theorem shown_read (hc : c = .snapshot scope now granted ∨ ∃ request, c = .getAccounted scope now granted request)
    (h : (s.call rules c).1.shown = some g) :
    (∃ u, s.touch rules scope now granted = (.fenced g, u)) ∨
      ∃ e u, s.touch rules scope now granted = (.entry e, u) ∧ e.generation = g := by
  rcases hc with rfl | ⟨request, rfl⟩
  · rw [call, snapshot] at h
    split at h
    · rename_i htouch
      cases h
      exact .inl ⟨_, htouch⟩
    · rename_i htouch
      cases h
      exact .inr ⟨_, _, htouch, rfl⟩
    · cases h
  · rw [call, getAccounted] at h
    split at h
    · rename_i htouch
      cases h
      exact .inl ⟨_, htouch⟩
    · rename_i htouch
      split at h
      · cases h
      · cases h
        exact .inr ⟨_, _, htouch, rfl⟩
    · cases h

theorem shown_writer {p : κ × ℕ} (hc : c.presents = some p) : (s.call rules c).1.shown = none := by
  cases c with
  | snapshot | getAccounted => cases hc
  | replaceIfUnchanged scope snapshot proof now granted =>
    rw [call, replaceIfUnchanged]
    split
    · rfl
    · dsimp only
      split
      · rfl
      · split <;> rfl
  | deleteIfUnchanged scope snapshot now granted =>
    rw [call, deleteIfUnchanged]
    split <;> rfl

theorem Gone.not_shown (hl : rules.Lawful) (hs : Sound rules s) (hg : Gone s g)
    (hlt : s.generation + s.draws rules c ≤ u64Max) : (s.call rules c).1.shown ≠ some g := by
  intro hshown
  have hread : ∀ {scope now granted}, (c = .snapshot scope now granted ∨
      ∃ request, c = .getAccounted scope now granted request) → False := by
    intro scope now granted hc
    have hlt' : s.generation + (if (rules.prune s now).entries.get? scope = none then 1 else 0) ≤ u64Max := by
      rcases hc with rfl | ⟨request, rfl⟩ <;> exact hlt
    rcases shown_read hc hshown with ⟨u, htouch⟩ | ⟨e, u, htouch, hgen⟩
    · exact absurd (touch_fenced hl hlt' htouch) (not_lt.mpr hg.1)
    · have hsteps := steps_touch hl hs granted hlt'
      rw [htouch] at hsteps
      exact (hg.advances hsteps.advances).2 scope (hgen ▸ touch_generation htouch)
  cases c with
  | snapshot scope now granted => exact hread (.inl rfl)
  | getAccounted scope now granted request => exact hread (.inr ⟨request, rfl⟩)
  | replaceIfUnchanged | deleteIfUnchanged =>
    rw [shown_writer rfl] at hshown
    cases hshown

/-! ## What a writer takes out -/

theorem advances_installed_limits (h : s.generation < u64Max) (proof : Option π) (bytes : ℕ) :
    Advances s ((s.install rules scope proof bytes now).enforceLimits rules) :=
  (advances_install h proof bytes).trans (within_evict rules _ _).advances

theorem gone_superseded (hl : rules.Lawful) (hs : Sound rules s)
    (hg : (rules.prune s now).installed scope = some g) : Gone ((rules.prune s now).remove scope) g :=
  gone_remove (hs.prune hl now).toCounted hg

/-- A writer that succeeds has used its snapshot up. -/
theorem writer_succeeds (hl : rules.Lawful) (hs : Sound rules s) (hlt : s.generation + s.draws rules c ≤ u64Max)
    (hc : c.presents = some (scope, g)) (h : (s.call rules c).1 = .written true) :
    s.installed scope = some g ∧ Gone (s.step rules c) g := by
  cases c with
  | snapshot | getAccounted => cases hc
  | replaceIfUnchanged scope' snapshot proof now granted =>
    cases hc
    unfold step
    rw [draws] at hlt
    rw [call, replaceIfUnchanged] at h ⊢
    cases haccept : rules.accept proof with
    | none =>
      rw [haccept] at h
      cases h
    | some bytes =>
      rw [haccept] at h hlt
      dsimp only at h hlt ⊢
      split at h
      · cases h
      · rename_i heq
        have heq := not_not.mp heq
        split at h
        · rename_i hgranted
          have hwithin := within_prune hl s now
          rw [if_neg (not_not.mpr heq), if_pos hgranted]
          rw [if_pos ⟨rfl, heq, hgranted⟩] at hlt
          refine ⟨hwithin.installed heq, (gone_superseded hl hs heq).advances ?_⟩
          refine advances_installed_limits ?_ _ _
          rw [(within_remove _ scope).generation, hwithin.generation]
          omega
        · cases h
  | deleteIfUnchanged scope' snapshot now granted =>
    cases hc
    unfold step
    rw [draws] at hlt
    rw [call, deleteIfUnchanged] at h ⊢
    split at h
    · cases h
    · rename_i heq
      have heq := not_not.mp heq
      have hgone := gone_remove hs.toCounted heq
      rw [if_neg (not_not.mpr heq)]
      refine ⟨heq, ?_⟩
      split
      · rename_i hgranted
        rw [if_pos ⟨heq, hgranted⟩] at hlt
        refine hgone.advances (advances_installed_limits ?_ _ _)
        rw [(within_remove _ scope).generation]
        omega
      · exact hgone

/-! ## When the reserved entry is evicted at once -/

end CcSwitchServer.ReasoningReplay
