import Mathlib.Data.List.Perm.Basic

/-! # Tasks of atomic sections

A concurrent system in which every call is a list of sections that are still to run.
-/

namespace CcSwitchServer.Foundations
open List

/-- A section changes the state, puts sections in front of the rest and starts new tasks. -/
structure Outcome (σ κ : Type) where
  state : σ
  next : List κ := []
  spawned : List (List κ) := []

structure Tasks (σ κ : Type) where
  state : σ
  tasks : List (List κ) := []

namespace Tasks
variable {σ κ χ : Type} (exec : σ → κ → χ → Outcome σ κ)

variable (s : Tasks σ κ)

/-- One section of task `i` runs. -/
def schedule (i : ℕ) (x : χ) : Tasks σ κ :=
  match s.tasks.drop i with
  | (c :: rest) :: later =>
    let o := exec s.state c x
    { state := o.state
      tasks := s.tasks.take i ++ (o.next ++ rest) :: later ++ o.spawned }
  | _ => s

def start (task : List κ) : Tasks σ κ := { s with tasks := s.tasks ++ [task] }

def pending (s : Tasks σ κ) : List κ := s.tasks.flatten

/-- The section that task `i` runs next. -/
def head? (s : Tasks σ κ) (i : ℕ) : Option κ := s.tasks[i]?.bind List.head?

@[simp] theorem pending_start (task : List κ) : (s.start task).pending = s.pending ++ task := by
  simp [start, pending]

@[simp] theorem state_start (task : List κ) : (s.start task).state = s.state := rfl

/-- One section leaves the pending ones and those in its place enter, up to a permutation. -/
theorem schedule_cases (i : ℕ) (x : χ) : s.schedule exec i x = s ∨
      ∃ c others, s.head? i = some c ∧ s.pending.Perm (c :: others) ∧
        (s.schedule exec i x).state = (exec s.state c x).state ∧
        (s.schedule exec i x).pending.Perm
          ((exec s.state c x).next ++ (exec s.state c x).spawned.flatten ++ others) := by
  unfold schedule
  split
  · rename_i c rest later hdrop
    refine .inr ⟨c, (s.tasks.take i).flatten ++ rest ++ later.flatten, ?_, ?_, rfl, ?_⟩
    · have hget : s.tasks[i]? = some (c :: rest) := by
        have : (s.tasks.drop i)[0]? = s.tasks[i + 0]? := getElem?_drop
        rw [hdrop] at this
        simpa using this.symm
      rw [head?, hget]
      rfl
    · have hsplit : s.tasks = s.tasks.take i ++ (c :: rest) :: later := by
        rw [← hdrop, take_append_drop]
      unfold pending
      conv_lhs => rw [hsplit]
      simp only [flatten_append, flatten_cons, cons_append, append_assoc]
      exact perm_middle
    · unfold pending
      simp only [flatten_append, flatten_cons, append_assoc]
      refine perm_append_comm_assoc _ _ _ |>.trans (List.Perm.append_left _ ?_)
      have hcomm := @perm_append_comm _ ((s.tasks.take i).flatten ++ rest ++ later.flatten)
        (exec s.state c x).spawned.flatten
      simpa only [append_assoc] using hcomm
  · exact .inl rfl

end Tasks
end CcSwitchServer.Foundations
