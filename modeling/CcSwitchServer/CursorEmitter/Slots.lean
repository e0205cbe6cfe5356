import CcSwitchServer.CursorEmitter.Content
import CcSwitchServer.Foundations.Runs

/-! # Blocks and items

At any time at most one span for thinking and one for text is open, and a tool call opens and closes its own.
-/

namespace CcSwitchServer.CursorEmitter
open Foundations OrderedMap Spans

/-- The open spans `a` and `b`, and what was written to them; `n` spans were opened. -/
structure Slots (rules : SpanRules) (sp : Spans) (n : ℕ) (a b : Option ℕ) (ta tb : String) : Prop where
  count : sp.count = n
  live : ∀ i, (sp.live.get? i).isSome → a = some i ∨ b = some i
  first : ∀ i, a = some i → i < n ∧ ∃ t, sp.live.get? i = some t ∧ (rules.stated → t = ta)
  second : ∀ i, b = some i → i < n ∧ ∃ t, sp.live.get? i = some t ∧ (rules.stated → t = tb)
  apart : ∀ i, a = some i → b ≠ some i

namespace Slots
variable {rules : SpanRules} {sp : Spans} {n i : ℕ} {a b : Option ℕ} {ta tb : String}

theorem swap (h : Slots rules sp n a b ta tb) : Slots rules sp n b a tb ta where
  count := h.count
  live i hi := (h.live i hi).symm
  first := h.second
  second := h.first
  apart i hb ha := h.apart i ha hb

theorem start (rules : SpanRules) (ta tb : String) : Slots rules {} 0 none none ta tb where
  count := rfl
  live i hi := by cases hi
  first i hi := by cases hi
  second i hi := by cases hi
  apart i hi := by cases hi

theorem free (h : Slots rules sp n none b ta tb) (ta' : String) : Slots rules sp n none b ta' tb :=
  ⟨h.count, h.live, (fun _ hi => nomatch hi), h.second, h.apart⟩

theorem unstated (h : Slots rules sp n a b ta tb) (hrules : rules.stated = false) (ta' tb' : String) :
    Slots rules sp n a b ta' tb' where
  count := h.count
  live := h.live
  first i hi := by
    obtain ⟨hlt, t, ht, -⟩ := h.first i hi
    exact ⟨hlt, t, ht, fun hstated => absurd (hrules ▸ hstated) (by decide)⟩
  second i hi := by
    obtain ⟨hlt, t, ht, -⟩ := h.second i hi
    exact ⟨hlt, t, ht, fun hstated => absurd (hrules ▸ hstated) (by decide)⟩
  apart := h.apart

theorem entries_eq_nil (h : Slots rules sp n none none ta tb) : sp.live.entries = [] := by
  rw [List.eq_nil_iff_forall_not_mem]
  intro e he
  rcases h.live e.1 (by rw [mem_entries_iff.mp he]; rfl) with ha | hb
  · cases ha
  · cases hb

theorem opened (h : Slots rules sp n none b ta tb) (hb : rules.exclusive → b = none) :
    ∃ sp', step rules sp (.opened n) = some sp' ∧ Slots rules sp' (n + 1) (some n) b "" tb := by
  have hentries : rules.exclusive → sp.live.entries = [] := by
    intro hex
    rw [hb hex] at h
    exact h.entries_eq_nil
  have hstep := step_opened hentries
  rw [h.count] at hstep
  refine ⟨_, hstep, rfl, fun i hi => ?_, fun i hi => ?_, fun i hi => ?_, fun i hi hsecond => ?_⟩
  · dsimp only at hi
    rw [get?_insert] at hi
    split at hi
    · rename_i heq
      exact .inl (congrArg some heq)
    · rcases h.live i hi with hfirst | hsecond
      · cases hfirst
      · exact .inr hsecond
  · cases hi
    refine ⟨Nat.lt_succ_self n, "", ?_, fun _ => rfl⟩
    exact get?_insert_self _ _ _
  · obtain ⟨hlt, t, ht, htext⟩ := h.second i hi
    refine ⟨Nat.lt_succ_of_lt hlt, t, ?_, htext⟩
    dsimp only
    rw [get?_insert_of_ne _ _ (Nat.ne_of_gt hlt)]
    exact ht
  · cases hi
    exact Nat.lt_irrefl n (h.second n hsecond).1

section
variable (h : Slots rules sp n (some i) b ta tb)
include h

theorem wrote (text : String) :
    ∃ sp', step rules sp (.wrote i text) = some sp' ∧ Slots rules sp' n (some i) b (ta ++ text) tb := by
  obtain ⟨hlt, t, ht, htext⟩ := h.first i rfl
  refine ⟨_, step_wrote text ht, h.count, fun j hj => ?_, fun j hj => ?_, fun j hj => ?_, h.apart⟩
  · dsimp only at hj
    rw [get?_insert] at hj
    split at hj
    · rename_i heq
      exact .inl (congrArg some heq)
    · exact h.live j hj
  · cases hj
    refine ⟨hlt, t ++ text, ?_, fun hstated => congrArg (· ++ text) (htext hstated)⟩
    exact get?_insert_self _ _ _
  · obtain ⟨hlt', t', ht', htext'⟩ := h.second j hj
    refine ⟨hlt', t', ?_, htext'⟩
    dsimp only
    rw [get?_insert_of_ne _ _ fun heq : i = j => h.apart i rfl (hj.trans (congrArg some heq.symm))]
    exact ht'

theorem stated {text : String} (htext : rules.stated → ta = text) :
    step rules sp (.stated i text) = some sp := by
  obtain ⟨-, t, ht, hwritten⟩ := h.first i rfl
  exact step_stated ht fun hstated => (hwritten hstated).trans (htext hstated)

theorem closed :
    ∃ sp', step rules sp (.closed i) = some sp' ∧ Slots rules sp' n none b ta tb := by
  obtain ⟨hlt, t, ht, -⟩ := h.first i rfl
  refine ⟨_, step_closed ht, h.count, fun j hj => ?_, (fun _ hj => nomatch hj), fun j hj => ?_,
    (fun _ hj => nomatch hj)⟩
  · dsimp only at hj
    rw [get?_erase] at hj
    split at hj
    · cases hj
    · rename_i hne
      rcases h.live j hj with hfirst | hsecond
      · exact absurd (Option.some.inj hfirst) hne
      · exact .inr hsecond
  · obtain ⟨hlt', t', ht', htext'⟩ := h.second j hj
    refine ⟨hlt', t', ?_, htext'⟩
    dsimp only
    rw [get?_erase, if_neg fun heq : i = j => h.apart i rfl (hj.trans (congrArg some heq.symm))]
    exact ht'

end

/-! ## Marks of one helper -/

theorem sent (h : Slots rules sp n a b ta tb) (hb : a = none → rules.exclusive → b = none)
    (hta : rules.stated → a = none → ta = "") (text : String) :
    ∃ sp' n', run rules sp ((if a = none then [.opened n] else []) ++ [.wrote (a.getD n) text]) = some sp' ∧
      Slots rules sp' n' (some (a.getD n)) b (ta ++ text) tb ∧ n' = if a = none then n + 1 else n := by
  cases a with
  | none =>
    obtain ⟨opened, hopened, hslots⟩ := h.opened (hb rfl)
    obtain ⟨sp', hwrote, hslots'⟩ := hslots.wrote text
    refine ⟨sp', n + 1, ?_, ?_, rfl⟩
    · rw [if_pos rfl, List.singleton_append, run_cons_of hopened, Option.getD_none, run_cons_of hwrote, Spans.run_nil]
    · obtain ⟨hlt, t, ht, htext⟩ := hslots'.first n rfl
      refine ⟨hslots'.count, hslots'.live, fun j hj => ?_, hslots'.second, hslots'.apart⟩
      cases hj
      exact ⟨hlt, t, ht, fun hstated => by rw [htext hstated, hta hstated rfl]⟩
  | some i =>
    obtain ⟨sp', hwrote, hslots⟩ := h.wrote text
    refine ⟨sp', n, ?_, hslots, rfl⟩
    rw [if_neg (by intro hnone; cases hnone), List.nil_append, Option.getD_some, run_cons_of hwrote, Spans.run_nil]

theorem passed (h : Slots rules sp n none none ta tb) (text : String) (statements : ℕ) :
    ∃ sp', Spans.run rules sp ([.opened n, .wrote n text] ++ List.replicate statements (.stated n text) ++
      [.closed n]) = some sp' ∧ Slots rules sp' (n + 1) none none ta tb := by
  obtain ⟨opened, hopened, hslots⟩ := h.opened fun _ => rfl
  obtain ⟨written, hwrote, hslots'⟩ := hslots.wrote text
  obtain ⟨sp', hclosed, hslots''⟩ := hslots'.closed
  have hstated : Spans.run rules written (List.replicate statements (.stated n text)) = some written := by
    induction statements with
    | zero => rfl
    | succ k ih =>
      rw [List.replicate_succ, Spans.run_cons_of (hslots'.stated fun _ => String.empty_append), ih]
  refine ⟨sp', ?_, hslots''.free ta⟩
  rw [List.append_assoc, List.cons_append, List.singleton_append, Spans.run_cons_of hopened,
    Spans.run_cons_of hwrote, Spans.run_append_of hstated, Spans.run_cons_of hclosed, Spans.run_nil]

end Slots

end CcSwitchServer.CursorEmitter
