import Mathlib.Data.List.Basic

/-! # Steps that write

An emitter changes a state and answers with what it writes.
-/

namespace CcSwitchServer.Foundations

abbrev Emitter (σ φ : Type) := σ → σ × List φ

namespace Emitter
variable {σ φ ι : Type}

def skip : Emitter σ φ := fun s => (s, [])

/-- What the one writes stands in front of what the other does. -/
def andThen (f g : Emitter σ φ) : Emitter σ φ := fun s => ((g (f s).1).1, (f s).2 ++ (g (f s).1).2)

def each (f : ι → Emitter σ φ) : List ι → Emitter σ φ
  | [] => skip
  | x :: xs => (f x).andThen (each f xs)

def silent (change : σ → σ) : Emitter σ φ := fun s => (change s, [])

@[simp] theorem skip_apply (s : σ) : (skip : Emitter σ φ) s = (s, []) := rfl

@[simp] theorem silent_apply (change : σ → σ) (s : σ) : (silent change : Emitter σ φ) s = (change s, []) := rfl

@[simp] theorem andThen_fst (f g : Emitter σ φ) (s : σ) : (f.andThen g s).1 = (g (f s).1).1 := rfl

@[simp] theorem andThen_snd (f g : Emitter σ φ) (s : σ) : (f.andThen g s).2 = (f s).2 ++ (g (f s).1).2 := rfl

variable (f : ι → Emitter σ φ)

@[simp] theorem each_nil : each f [] = skip := rfl

@[simp] theorem each_cons (x : ι) (xs : List ι) : each f (x :: xs) = (f x).andThen (each f xs) := rfl

theorem andThen_assoc (f g h : Emitter σ φ) : (f.andThen g).andThen h = f.andThen (g.andThen h) := by
  funext s
  exact Prod.ext rfl (List.append_assoc _ _ _)

@[simp] theorem skip_andThen (f : Emitter σ φ) : skip.andThen f = f := by
  funext s
  exact Prod.ext rfl (List.nil_append _)

theorem each_append (xs ys : List ι) : each f (xs ++ ys) = (each f xs).andThen (each f ys) := by
  induction xs with
  | nil => rw [List.nil_append, each_nil, skip_andThen]
  | cons x xs ih => rw [List.cons_append, each_cons, each_cons, ih, andThen_assoc]

/-! ## What is kept -/

/-- The emitter leads from one property of the state and of all that was written to the other. -/
def Takes (P Q : σ → List φ → Prop) (f : Emitter σ φ) : Prop :=
  ∀ s written, P s written → Q (f s).1 (written ++ (f s).2)

variable {P Q R : σ → List φ → Prop} {f g : Emitter σ φ}

theorem takes_skip : Takes P P skip := by
  intro s written h
  rwa [skip_apply, List.append_nil]

theorem takes_silent {change : σ → σ} (h : ∀ s written, P s written → Q (change s) written) :
    Takes P Q (silent change) := by
  intro s written hs
  rw [silent_apply, List.append_nil]
  exact h s written hs

theorem Takes.andThen (hf : Takes P Q f) (hg : Takes Q R g) : Takes P R (f.andThen g) := by
  intro s written h
  have := hg _ _ (hf s written h)
  rwa [andThen_fst, andThen_snd, ← List.append_assoc]

/-! ## What is left alone -/

/-- The view of the state stays, and nothing is written that counts. -/
def Leaves {α : Type} (view : σ → α) (counts : φ → Prop) (f : Emitter σ φ) : Prop :=
  ∀ s, view (f s).1 = view s ∧ ∀ frame ∈ (f s).2, ¬ counts frame

section
variable {α : Type} {view : σ → α} {counts : φ → Prop}

theorem leaves_skip : Leaves view counts skip := fun _ => ⟨rfl, fun _ h => nomatch h⟩

theorem leaves_silent {change : σ → σ} (h : ∀ s, view (change s) = view s) :
    Leaves view counts (silent change) := fun s => ⟨h s, fun _ h => nomatch h⟩

theorem Leaves.andThen (hf : Leaves view counts f) (hg : Leaves view counts g) : Leaves view counts (f.andThen g) := by
  intro s
  refine ⟨(hg (f s).1).1.trans (hf s).1, fun frame hframe => ?_⟩
  rcases List.mem_append.mp hframe with h | h
  · exact (hf s).2 frame h
  · exact (hg (f s).1).2 frame h

theorem Leaves.each {f : ι → Emitter σ φ} {xs : List ι} (h : ∀ x ∈ xs, Leaves view counts (f x)) :
    Leaves view counts (each f xs) := by
  induction xs with
  | nil => exact leaves_skip
  | cons x xs ih =>
    exact (h x List.mem_cons_self).andThen (ih fun y hy => h y (List.mem_cons_of_mem x hy))

theorem Leaves.of_apply {f : Emitter σ φ} (h : ∀ s, ∃ g, f s = g s ∧ Leaves view counts g) : Leaves view counts f := by
  intro s
  obtain ⟨g, hg, hleaves⟩ := h s
  rw [hg]
  exact hleaves s

theorem Leaves.mono {β : Type} {view' : σ → β} {counts' : φ → Prop} (h : Leaves view counts f)
    (hview : ∀ s t, view s = view t → view' s = view' t) (hcounts : ∀ frame, counts' frame → counts frame) :
    Leaves view' counts' f := by
  intro s
  exact ⟨hview _ _ (h s).1, fun frame hframe hcount => (h s).2 frame hframe (hcounts frame hcount)⟩

theorem Leaves.filterMap_eq_nil {β : Type} {read : φ → Option β} (h : Leaves view counts f)
    (hread : ∀ frame, (read frame).isSome → counts frame) (s : σ) : (f s).2.filterMap read = [] := by
  rw [List.filterMap_eq_nil_iff]
  intro frame hframe
  rw [← Option.not_isSome_iff_eq_none]
  exact fun hsome => (h s).2 frame hframe (hread frame hsome)

end

end Emitter

end CcSwitchServer.Foundations
