import Mathlib.Order.Basic

/-! # Runs of serialised operations

A run folds a list of operations; what one step preserves, a run preserves.
-/

namespace CcSwitchServer.Foundations

section
variable {σ ο : Type} (step : σ → ο → σ)

variable (s : σ)

def run (ops : List ο) : σ := ops.foldl step s

@[simp] theorem run_nil : run step s [] = s := rfl

@[simp] theorem run_cons (o : ο) (ops : List ο) : run step s (o :: ops) = run step (step s o) ops := rfl

theorem run_append (ops ops' : List ο) : run step s (ops ++ ops') = run step (run step s ops) ops' := by
  simp [run, List.foldl_append]

theorem run_append_singleton (ops : List ο) (o : ο) : run step s (ops ++ [o]) = step (run step s ops) o := by
  rw [run_append, run_cons, run_nil]

theorem run_append_cons (ops ops' : List ο) (o : ο) :
    run step s (ops ++ o :: ops') = run step (run step s (ops ++ [o])) ops' := by
  rw [run_append, run_cons, run_append_singleton]

def states : σ → List ο → List σ
  | s, [] => [s]
  | s, o :: ops => s :: states (step s o) ops

theorem states_append_singleton (ops : List ο) (o : ο) :
    states step s (ops ++ [o]) = states step s ops ++ [run step s (ops ++ [o])] := by
  induction ops generalizing s with
  | nil => rfl
  | cons o' ops ih => rw [List.cons_append, states, states, ih, List.cons_append, run_cons]

theorem run_mem_states (ops : List ο) : run step s ops ∈ states step s ops := by
  induction ops generalizing s with
  | nil => exact List.mem_singleton.mpr rfl
  | cons o ops ih => exact List.mem_cons_of_mem _ (ih (step s o))

/-- Every operation of the run meets `P` in the state it is taken in. -/
def EachStep (P : σ → ο → Prop) : σ → List ο → Prop
  | _, [] => True
  | s, o :: ops => P s o ∧ EachStep P (step s o) ops

variable {step}

variable {P : σ → ο → Prop} {s : σ} {ops : List ο}

theorem EachStep.append {ops' : List ο} :
    EachStep step P s (ops ++ ops') ↔ EachStep step P s ops ∧ EachStep step P (run step s ops) ops' := by
  induction ops generalizing s with
  | nil => simp [EachStep]
  | cons o ops ih => simp only [List.cons_append, EachStep, ih, run_cons, and_assoc]

theorem EachStep.split {ops' : List ο} {o : ο} (h : EachStep step P s (ops ++ o :: ops')) :
    EachStep step P s ops ∧ P (run step s ops) o ∧ EachStep step P (run step s (ops ++ [o])) ops' := by
  rw [EachStep.append] at h
  rw [run_append_singleton]
  exact ⟨h.1, h.2.1, h.2.2⟩

theorem EachStep.of_forall (h : ∀ s o, P s o) (s : σ) (ops : List ο) : EachStep step P s ops := by
  induction ops generalizing s with
  | nil => trivial
  | cons o ops ih => exact ⟨h s o, ih _⟩

theorem EachStep.of_mem {P : ο → Prop} (h : ∀ o ∈ ops, P o) (s : σ) : EachStep step (fun _ o => P o) s ops := by
  induction ops generalizing s with
  | nil => trivial
  | cons o ops ih =>
    exact ⟨h o List.mem_cons_self, ih (fun o' ho' => h o' (List.mem_cons_of_mem _ ho')) _⟩

theorem run_invariant {Inv : σ → Prop} {P : σ → ο → Prop}
    (hstep : ∀ s o, Inv s → P s o → Inv (step s o)) {s : σ} {ops : List ο}
    (hs : Inv s) (hP : EachStep step P s ops) : Inv (run step s ops) := by
  induction ops generalizing s with
  | nil => exact hs
  | cons o ops ih => exact ih (hstep s o hs hP.1) hP.2

theorem states_invariant {Inv : σ → Prop} (hstep : ∀ s o, Inv s → P s o → Inv (step s o)) (hs : Inv s)
    (hP : EachStep step P s ops) : ∀ t ∈ states step s ops, Inv t := by
  induction ops generalizing s with
  | nil =>
    intro t ht
    rw [List.mem_singleton.mp ht]
    exact hs
  | cons o ops ih =>
    intro t ht
    rcases List.mem_cons.mp ht with rfl | ht
    · exact hs
    · exact ih (hstep s o hs hP.1) hP.2 t ht

theorem run_relation {Inv : σ → Prop} {R : σ → σ → Prop} (hrefl : ∀ s, R s s)
    (htrans : ∀ s t u, R s t → R t u → R s u) (hinv : ∀ s o, Inv s → P s o → Inv (step s o))
    (hstep : ∀ s o, Inv s → P s o → R s (step s o)) (hs : Inv s) (hP : EachStep step P s ops) :
    R s (run step s ops) := by
  induction ops generalizing s with
  | nil => exact hrefl s
  | cons o ops ih =>
    exact htrans s _ _ (hstep s o hs hP.1) (ih (hinv s o hs hP.1) hP.2)

end

/-! ## Labelled traces

One operation may take several primitive steps. A trace is a chain of labelled steps whose labels are
allowed in the state they are taken in. -/

/-- A chain of steps, each of which meets `P` in the state that it is taken in. -/
inductive Trace {σ ℓ : Type} (Step : ℓ → σ → σ → Prop) (P : σ → ℓ → Prop) : σ → σ → Prop
  | nil (s : σ) : Trace Step P s s
  | cons {s t u : σ} (l : ℓ) (hl : P s l) (hstep : Step l s t) (rest : Trace Step P t u) :
      Trace Step P s u

namespace Trace
variable {σ ℓ : Type} {Step : ℓ → σ → σ → Prop} {P Q : σ → ℓ → Prop} {s t u : σ}

theorem single {l : ℓ} (hl : P s l) (hstep : Step l s t) : Trace Step P s t := .cons l hl hstep (.nil t)

theorem append (h : Trace Step P s t) (h' : Trace Step P t u) : Trace Step P s u := by
  induction h with
  | nil s => exact h'
  | cons l hl hstep _ ih => exact .cons l hl hstep (ih h')

theorem mono (hPQ : ∀ s l, P s l → Q s l) (h : Trace Step P s t) : Trace Step Q s t := by
  induction h with
  | nil s => exact .nil s
  | cons l hl hstep _ ih => exact .cons l (hPQ _ l hl) hstep ih

theorem invariant {Inv : σ → Prop} (hstep : ∀ s l t, Inv s → P s l → Step l s t → Inv t)
    (h : Trace Step P s t) (hs : Inv s) : Inv t := by
  induction h with
  | nil s => exact hs
  | cons l hl hst _ ih => exact ih (hstep _ l _ hs hl hst)

theorem relation {Inv : σ → Prop} {R : σ → σ → Prop} (hrefl : ∀ s, R s s) (htrans : ∀ s t u, R s t → R t u → R s u)
    (hinv : ∀ s l t, Inv s → P s l → Step l s t → Inv t) (hstep : ∀ s l t, Inv s → P s l → Step l s t → R s t)
    (h : Trace Step P s t) (hs : Inv s) : R s t := by
  induction h with
  | nil s => exact hrefl s
  | cons l hl hst _ ih =>
    exact htrans _ _ _ (hstep _ l _ hs hl hst) (ih (hinv _ l _ hs hl hst))

theorem foldlM {ε ι : Type} {f : σ → ι → Except ε σ} (xs : List ι)
    (hf : ∀ s t, ∀ x ∈ xs, f s x = .ok t → Trace Step P s t) (h : xs.foldlM f s = .ok t) : Trace Step P s t := by
  induction xs generalizing s with
  | nil =>
    cases h
    exact .nil _
  | cons x xs ih =>
    rw [List.foldlM_cons] at h
    cases hx : f s x with
    | error e =>
      rw [hx] at h
      cases h
    | ok s' =>
      rw [hx] at h
      exact (hf s s' x (by simp) hx).append (ih (fun s t y hy => hf s t y (by simp [hy])) h)

theorem foldl {ι : Type} {f : σ → ι → σ} (xs : List ι)
    (hf : ∀ s, ∀ x ∈ xs, Trace Step P s (f s x)) : Trace Step P s (xs.foldl f s) := by
  induction xs generalizing s with
  | nil => exact .nil s
  | cons x xs ih =>
    exact (hf s x (by simp)).append (ih fun s y hy => hf s y (by simp [hy]))

end Trace

section
variable {σ ο : Type} (step : σ → ο → Option σ) (Q : σ → ο → Prop) [∀ s o, Decidable (Q s o)]

/-- Operations taken one after the other, each checked against `Q` first. -/
def guarded (s : σ) (ops : List ο) : Option σ := ops.foldlM (fun s o => if Q s o then step s o else none) s

variable {step Q}

theorem trace_of_guarded {ops : List ο} {s t : σ} (h : guarded step Q s ops = some t) :
    Trace (fun o s t => step s o = some t) Q s t := by
  induction ops generalizing s with
  | nil =>
    cases h
    exact .nil _
  | cons o ops ih =>
    unfold guarded at h
    rw [List.foldlM_cons, Option.bind_eq_bind, Option.bind_eq_some_iff] at h
    obtain ⟨s₁, hstep, hrest⟩ := h
    split at hstep
    · rename_i hQ
      exact .cons o hQ hstep (ih hrest)
    · cases hstep

theorem Trace.map {ℓ : Type} {Step Step' : ℓ → σ → σ → Prop} {P : σ → ℓ → Prop} {s t : σ}
    (hstep : ∀ l s t, Step l s t → Step' l s t) (h : Trace Step P s t) : Trace Step' P s t := by
  induction h with
  | nil s => exact .nil s
  | cons l hl hst _ ih => exact .cons l hl (hstep l _ _ hst) ih

end

/-! ## Rollback -/

section
variable {σ ο ε : Type}

/-- A transaction either commits its state or leaves the state as it was. -/
def commit (tx : σ → ο → Except ε σ) (s : σ) (o : ο) : σ :=
  match tx s o with
  | .ok s' => s'
  | .error _ => s

theorem commit_ok {tx : σ → ο → Except ε σ} {s s' : σ} {o : ο} (h : tx s o = .ok s') : commit tx s o = s' := by
  simp [commit, h]

theorem commit_error {tx : σ → ο → Except ε σ} {s : σ} {o : ο} {e : ε} (h : tx s o = .error e) :
    commit tx s o = s := by
  simp [commit, h]

theorem commit_cases (tx : σ → ο → Except ε σ) (s : σ) (o : ο) :
    tx s o = .ok (commit tx s o) ∨ (∃ e, tx s o = .error e) ∧ commit tx s o = s := by
  cases h : tx s o with
  | error e => exact .inr ⟨⟨e, rfl⟩, commit_error h⟩
  | ok s' => exact .inl (by rw [commit_ok h])

end

end CcSwitchServer.Foundations
