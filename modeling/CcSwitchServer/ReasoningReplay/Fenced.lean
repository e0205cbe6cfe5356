import CcSwitchServer.ReasoningReplay.Interleavings

/-! # The replay caches over whole runs

What the callers of a cache rely on, over every list of calls.
-/

namespace CcSwitchServer.ReasoningReplay
open Foundations List Grok Store OrderedMap Antigravity String

/-! ## Lawful rules -/

section
variable {κ π : Type} [LinearOrder κ] (rules : Rules κ π)

variable (calls : List (Call κ π))

def after : Store κ π := run (step rules) {} calls

/-- The last field is about every read: a replacement whose reservation failed has withdrawn the proof. -/
structure Fenced (calls : List (Call κ π)) : Prop where
  accounting : ∀ {pre post}, calls = pre ++ post →
    (after rules pre).totalBytes = (after rules pre).bytesSum ∧
      (after rules pre).totalBytes ≤ rules.maxTotalBytes ∧
      (after rules pre).entries.size ≤ rules.maxEntries
  success : ∀ {pre c post k g}, calls = pre ++ c :: post → c.presents = some (k, g) →
    ((after rules pre).call rules c).1 = .written true → (after rules pre).installed k = some g
  once : ∀ {pre c mid d post k k' g}, calls = pre ++ c :: (mid ++ d :: post) →
    c.presents = some (k, g) → d.presents = some (k', g) →
    ((after rules pre).call rules c).1 = .written true →
    ((after rules (pre ++ c :: mid)).call rules d).1 ≠ .written true
  installedOnce : ∀ {pre mid mid' post k k' e e'}, calls = pre ++ (mid ++ (mid' ++ post)) →
    (after rules pre).entries.get? k = some e →
    (after rules (pre ++ (mid ++ mid'))).entries.get? k' = some e' → e.generation = e'.generation →
    k = k' ∧ e.proof = e'.proof ∧ (after rules (pre ++ mid)).installed k = some e.generation
  withdrawn : ∀ {pre scope snapshot proof now mid d post},
    calls = pre ++ .replaceIfUnchanged scope snapshot proof now false :: (mid ++ d :: post) →
    (rules.accept proof).isSome →
    (rules.prune (after rules pre) now).installed scope = some snapshot.generation →
    ((after rules (pre ++ .replaceIfUnchanged scope snapshot proof now false :: mid)).call rules d).1.shown ≠
      some snapshot.generation

end

variable {κ π : Type} [LinearOrder κ] {rules : Rules κ π} {s : Store κ π}

theorem drawn_append (s : Store κ π) (pre post : List (Call κ π)) :
    s.drawn rules (pre ++ post) = s.drawn rules pre + (run (step rules) s pre).drawn rules post := by
  induction pre generalizing s with
  | nil => exact (Nat.zero_add _).symm
  | cons c pre ih =>
    rw [cons_append, drawn, drawn, ih, Nat.add_assoc]
    rfl

theorem steps_run (hl : rules.Lawful) (hs : Sound rules s) (calls : List (Call κ π))
    (h : s.generation + s.drawn rules calls ≤ u64Max) :
    Steps rules s (run (step rules) s calls) (s.drawn rules calls) := by
  induction calls generalizing s with
  | nil => exact .within hs (.refl s)
  | cons c calls ih =>
    rw [drawn] at h ⊢
    have hstep := steps_call hl hs c (by omega)
    exact hstep.trans (ih hstep.sound (by rw [hstep.generation]; omega))

theorem after_append (pre post : List (Call κ π)) :
    after rules (pre ++ post) = run (step rules) (after rules pre) post :=
  run_append _ _ _ _

theorem sound_after (hl : rules.Lawful) {pre post : List (Call κ π)}
    (h : ({} : Store κ π).drawn rules (pre ++ post) ≤ u64Max) :
    Sound rules (after rules pre) ∧ (after rules pre).generation + (after rules pre).drawn rules post ≤ u64Max := by
  rw [drawn_append] at h
  have hsteps := steps_run hl Sound.empty pre (by
    change 0 + _ ≤ _
    omega)
  refine ⟨hsteps.sound, ?_⟩
  have hgen := hsteps.generation
  change (after rules pre).generation = 0 + _ at hgen
  unfold after at hgen ⊢
  omega

theorem advances_after (hl : rules.Lawful) {pre mid post : List (Call κ π)}
    (h : ({} : Store κ π).drawn rules (pre ++ (mid ++ post)) ≤ u64Max) :
    Advances (after rules pre) (after rules (pre ++ mid)) := by
  obtain ⟨hsound, hle⟩ := sound_after hl h
  rw [drawn_append] at hle
  rw [after_append]
  exact (steps_run hl hsound mid (by omega)).advances

theorem sound_before (hl : rules.Lawful) {pre post : List (Call κ π)} {c : Call κ π}
    (h : ({} : Store κ π).drawn rules (pre ++ c :: post) ≤ u64Max) :
    Sound rules (after rules pre) ∧ (after rules pre).generation + (after rules pre).draws rules c ≤ u64Max := by
  obtain ⟨hsound, hle⟩ := sound_after hl h
  rw [drawn] at hle
  exact ⟨hsound, by omega⟩

theorem after_singleton (pre : List (Call κ π)) (c : Call κ π) :
    after rules (pre ++ [c]) = (after rules pre).step rules c :=
  run_append_singleton _ _ _ _

theorem Gone.later (hl : rules.Lawful) {pre mid post : List (Call κ π)} {c : Call κ π} {g : ℕ}
    (h : ({} : Store κ π).drawn rules (pre ++ c :: (mid ++ post)) ≤ u64Max)
    (hg : Gone ((after rules pre).step rules c) g) : Gone (after rules (pre ++ c :: mid)) g := by
  rw [← after_singleton] at hg
  rw [show pre ++ c :: (mid ++ post) = (pre ++ [c]) ++ (mid ++ post) by simp] at h
  have hadv := advances_after hl h
  rw [show (pre ++ [c]) ++ mid = pre ++ c :: mid by simp] at hadv
  exact hg.advances hadv

theorem Advances.kept {s t : Store κ π} {k : κ} {e' : Entry π} (h : Advances s t)
    (he : t.entries.get? k = some e') (hle : e'.generation ≤ s.generation) :
    ∃ e, s.entries.get? k = some e ∧ e.generation = e'.generation ∧ e.proof = e'.proof :=
  (h.entry he).resolve_right (not_lt.mpr hle)

/-- Both caches fence their writers while the counter of generations does not run out. -/
theorem fenced (hl : rules.Lawful) (calls : List (Call κ π))
    (h : ({} : Store κ π).drawn rules calls ≤ u64Max) : Fenced rules calls where
  accounting := by
    intro pre post hcalls
    rw [hcalls] at h
    have hsound := (sound_after hl h).1
    exact ⟨hsound.total, hsound.bytes, hsound.size⟩
  success := by
    intro pre c post k g hcalls hc htrue
    rw [hcalls] at h
    obtain ⟨hsound, hle⟩ := sound_before hl h
    exact (writer_succeeds hl hsound hle hc htrue).1
  once := by
    intro pre c mid d post k k' g hcalls hc hd htrue htrue'
    rw [hcalls] at h
    obtain ⟨hsound, hle⟩ := sound_before hl h
    have hgone := (writer_succeeds hl hsound hle hc htrue).2.later hl h
    rw [show pre ++ c :: (mid ++ d :: post) = (pre ++ c :: mid) ++ d :: post by simp] at h
    obtain ⟨hsound', hle'⟩ := sound_before hl h
    exact hgone.2 k' (writer_succeeds hl hsound' hle' hd htrue').1
  installedOnce := by
    intro pre mid mid' post k k' e e' hcalls he he' hgen
    rw [hcalls] at h
    have hsound := (sound_after hl h).1
    have hfirst := advances_after hl h
    rw [show pre ++ (mid ++ (mid' ++ post)) = (pre ++ mid) ++ (mid' ++ post) by simp] at h
    have hsecond := advances_after hl h
    rw [List.append_assoc] at hsecond
    have hdrawn := hsound.drawn he
    have hlater := hfirst.generation
    obtain ⟨e₁, he₁, hgen₁, hproof₁⟩ := hsecond.kept he' (by omega)
    obtain ⟨e₀, he₀, hgen₀, hproof₀⟩ := hfirst.kept he₁ (by omega)
    have hk := hsound.distinct he he₀ (by omega)
    subst hk
    rw [he] at he₀
    cases he₀
    exact ⟨rfl, hproof₀.trans hproof₁, installed_eq_some.mpr ⟨e₁, he₁, by omega⟩⟩
  withdrawn := by
    intro pre scope snapshot proof now mid d post hcalls haccept hinst
    rw [hcalls] at h
    obtain ⟨hsound, hle⟩ := sound_before hl h
    have hstep : (after rules pre).step rules (.replaceIfUnchanged scope snapshot proof now false) =
        (rules.prune (after rules pre) now).remove scope := by
      obtain ⟨bytes, hbytes⟩ := Option.isSome_iff_exists.mp haccept
      rw [Store.step, Store.call, Store.replaceIfUnchanged, hbytes]
      dsimp only
      rw [if_neg (not_not.mpr hinst), if_neg (by decide)]
    have hgone := gone_superseded hl hsound hinst
    rw [← hstep] at hgone
    have hlater := hgone.later hl h
    rw [show ∀ c : Call κ π, pre ++ c :: (mid ++ d :: post) = (pre ++ c :: mid) ++ d :: post by simp] at h
    obtain ⟨hsound', hle'⟩ := sound_before hl h
    exact hlater.not_shown hl hsound' hle'

end CcSwitchServer.ReasoningReplay
