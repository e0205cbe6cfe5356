import CcSwitchServer.Foundations.OrderedMap

/-! # Numbered spans

A stream numbers the things it sends, and each is opened, written to and closed.
-/

namespace CcSwitchServer.Foundations

/-- Before a span is closed its whole text may be stated. -/
inductive Mark
  | opened (i : ℕ)
  | wrote (i : ℕ) (text : String)
  | stated (i : ℕ) (text : String)
  | closed (i : ℕ)
  deriving DecidableEq, Repr

structure SpanRules where
  /-- Nothing is opened while something else is open. -/
  exclusive : Bool
  /-- What is stated is what was written. -/
  stated : Bool

structure Spans where
  count : ℕ := 0
  /-- What was written to the spans that are open. -/
  live : OrderedMap ℕ String := .empty

namespace Spans

def step (rules : SpanRules) (s : Spans) : Mark → Option Spans
  | .opened i =>
    if i = s.count ∧ (rules.exclusive → s.live.entries = []) then
      some { count := s.count + 1, live := s.live.insert i "" }
    else none
  | .wrote i text => (s.live.get? i).map fun written => { s with live := s.live.insert i (written ++ text) }
  | .stated i text => (s.live.get? i).bind fun written => if rules.stated → written = text then some s else none
  | .closed i => (s.live.get? i).map fun _ => { s with live := s.live.erase i }

def run (rules : SpanRules) (s : Spans) (marks : List Mark) : Option Spans := marks.foldlM (step rules) s

/-- The marks follow the rules and leave nothing open. -/
def WellFormed (rules : SpanRules) (marks : List Mark) : Prop := ∃ n, run rules {} marks = some { count := n }

variable {rules : SpanRules} {s t : Spans}

@[simp] theorem run_nil : run rules s [] = some s := rfl

theorem run_cons (mark : Mark) (marks : List Mark) :
    run rules s (mark :: marks) = (step rules s mark).bind fun t => run rules t marks := by
  unfold run
  rw [List.foldlM_cons]
  rfl

theorem run_append (marks marks' : List Mark) :
    run rules s (marks ++ marks') = (run rules s marks).bind fun t => run rules t marks' := by
  unfold run
  rw [List.foldlM_append]
  rfl

variable {marks : List Mark} {i : ℕ} {written : String}

theorem run_append_of {marks' : List Mark} (h : run rules s marks = some t) :
    run rules s (marks ++ marks') = run rules t marks' := by
  rw [run_append, h, Option.bind_some]

theorem run_cons_of {mark : Mark} (h : step rules s mark = some t) :
    run rules s (mark :: marks) = run rules t marks := by
  rw [run_cons, h, Option.bind_some]

theorem step_opened (h : rules.exclusive → s.live.entries = []) :
    step rules s (.opened s.count) = some { count := s.count + 1, live := s.live.insert s.count "" } := by
  unfold step
  dsimp only
  rw [if_pos ⟨rfl, h⟩]

theorem step_wrote (text : String) (h : s.live.get? i = some written) :
    step rules s (.wrote i text) = some { s with live := s.live.insert i (written ++ text) } := by
  unfold step
  dsimp only
  rw [h, Option.map_some]

theorem step_stated {text : String} (h : s.live.get? i = some written) (htext : rules.stated → written = text) :
    step rules s (.stated i text) = some s := by
  unfold step
  dsimp only
  rw [h, Option.bind_some, if_pos htext]

theorem step_closed (h : s.live.get? i = some written) :
    step rules s (.closed i) = some { s with live := s.live.erase i } := by
  unfold step
  dsimp only
  rw [h, Option.map_some]

/-! ## Numbers -/

def opens : Mark → Option ℕ
  | .opened i => some i
  | _ => none

theorem step_opens {mark : Mark} (h : step rules s mark = some t) :
    opens mark = none ∧ t.count = s.count ∨ opens mark = some s.count ∧ t.count = s.count + 1 := by
  cases mark with
  | opened i =>
    unfold step at h
    dsimp only at h
    split at h
    · rename_i hi
      cases h
      exact .inr ⟨congrArg some hi.1, rfl⟩
    · cases h
  | wrote i text =>
    obtain ⟨written, -, heq⟩ := Option.map_eq_some_iff.mp h
    exact .inl ⟨rfl, heq ▸ rfl⟩
  | stated i text =>
    obtain ⟨written, -, heq⟩ := Option.bind_eq_some_iff.mp h
    split at heq
    · cases heq
      exact .inl ⟨rfl, rfl⟩
    · cases heq
  | closed i =>
    obtain ⟨written, -, heq⟩ := Option.map_eq_some_iff.mp h
    exact .inl ⟨rfl, heq ▸ rfl⟩

theorem opens_run (h : run rules s marks = some t) :
    marks.filterMap opens = List.range' s.count (t.count - s.count) ∧ s.count ≤ t.count := by
  induction marks generalizing s with
  | nil =>
    rw [run_nil] at h
    cases h
    rw [Nat.sub_self]
    exact ⟨rfl, le_rfl⟩
  | cons mark marks ih =>
    rw [run_cons] at h
    obtain ⟨u, hstep, hrun⟩ := Option.bind_eq_some_iff.mp h
    obtain ⟨hopens, hle⟩ := ih hrun
    rcases step_opens hstep with ⟨hnone, hcount⟩ | ⟨hsome, hcount⟩
    · rw [List.filterMap_cons_none hnone, hopens, hcount]
      exact ⟨rfl, hcount ▸ hle⟩
    · have hsub : t.count - s.count = (t.count - u.count) + 1 := by omega
      rw [List.filterMap_cons_some hsome, hopens, hsub, List.range'_succ, hcount]
      exact ⟨rfl, by omega⟩

end Spans

end CcSwitchServer.Foundations
