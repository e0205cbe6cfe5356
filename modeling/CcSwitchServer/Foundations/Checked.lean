import Mathlib.Tactic

/-! # Fallible computations and checked machine arithmetic

Inversion of `Except` computations, guards, and the checked operations of the integer types.
-/

namespace CcSwitchServer.Foundations
open List

/-! ## Successful computations -/

section
variable {ε α β : Type}

variable {x : Except ε α} {e : ε} {a : α} {p : Prop} {xs : List α} {γ : Type}

theorem bind_eq_ok {f : α → Except ε β} {b : β} : (x >>= f) = .ok b ↔ ∃ a, x = .ok a ∧ f a = .ok b := by
  cases x with
  | error e =>
    constructor
    · intro h
      cases h
    · rintro ⟨a, h, _⟩
      cases h
  | ok a =>
    constructor
    · intro h
      exact ⟨a, rfl, h⟩
    · rintro ⟨a', h, h'⟩
      cases h
      exact h'

theorem bind_eq_error {f : α → Except ε β} :
    (x >>= f) = .error e ↔ x = .error e ∨ ∃ a, x = .ok a ∧ f a = .error e := by
  cases x with
  | error e' =>
    constructor
    · intro h
      cases h
      exact .inl rfl
    · rintro (h | ⟨a, h, _⟩)
      · cases h
        rfl
      · cases h
  | ok a =>
    constructor
    · intro h
      exact .inr ⟨a, rfl, h⟩
    · rintro (h | ⟨a', h, h'⟩)
      · cases h
      · cases h
        exact h'

theorem ok_bind (a : α) (f : α → Except ε β) : (Except.ok a >>= f) = f a := rfl

theorem error_bind (e : ε) (f : α → Except ε β) : (Except.error e >>= f) = .error e := rfl

@[simp] theorem pure_eq_ok {b : α} : (pure a : Except ε α) = .ok b ↔ a = b := by
  constructor
  · intro h
    cases h
    rfl
  · rintro rfl
    rfl

@[simp] theorem pure_eq_error : (pure a : Except ε α) = .error e ↔ False := by
  constructor
  · intro h
    cases h
  · exact False.elim

/-- The guard of a fallible computation: nothing happens when `p` holds, the error is `e` when it
does not. -/
def ensure (p : Prop) [Decidable p] (e : ε) : Except ε Unit :=
  if p then .ok () else .error e

theorem ensure_of [Decidable p] (h : p) : ensure p e = .ok () := if_pos h

theorem ensure_of_not [Decidable p] (h : ¬p) : ensure p e = .error e := if_neg h

@[simp] theorem ensure_eq_ok [Decidable p] {u : Unit} : ensure p e = .ok u ↔ p := by
  unfold ensure
  split <;> simp_all

@[simp] theorem ensure_eq_error [Decidable p] {e' : ε} : ensure p e = .error e' ↔ ¬p ∧ e = e' := by
  unfold ensure
  split <;> simp_all

def context (x : Option α) (e : ε) : Except ε α :=
  match x with
  | some a => .ok a
  | none => .error e

@[simp] theorem context_eq_ok {x : Option α} : context x e = .ok a ↔ x = some a := by
  cases x <;> simp [context]

@[simp] theorem context_eq_error {x : Option α} {e' : ε} : context x e = .error e' ↔ x = none ∧ e = e' := by
  cases x <;> simp [context]

theorem exists_of_toBool (h : x.toBool = true) : ∃ a, x = .ok a := by
  cases x with
  | error e => cases h
  | ok a => exact ⟨a, rfl⟩

theorem forM_ok {f : α → Except ε PUnit} (h : ∀ x ∈ xs, f x = .ok ()) : xs.forM f = .ok () := by
  induction xs with
  | nil => rfl
  | cons x xs ih =>
    rw [List.forM, h x List.mem_cons_self]
    exact ih fun y hy => h y (mem_cons_of_mem _ hy)

theorem foldlM_map_ok {f : β → α → Except ε β} {next : β → γ → β} {item : γ → α} {xs : List γ}
    (h : ∀ out, ∀ x ∈ xs, f out (item x) = .ok (next out x)) (out : β) :
    (xs.map item).foldlM f out = .ok (xs.foldl next out) := by
  induction xs generalizing out with
  | nil => rfl
  | cons x xs ih =>
    rw [map_cons, foldlM_cons, h out x mem_cons_self, ok_bind, foldl_cons]
    exact ih (fun out' y hy => h out' y (mem_cons_of_mem _ hy)) _

theorem foldlM_map_some {f : β → α → Option β} {next : β → γ → β} {item : γ → α} {xs : List γ}
    (h : ∀ out, ∀ x ∈ xs, f out (item x) = some (next out x)) (out : β) :
    (xs.map item).foldlM f out = some (xs.foldl next out) := by
  induction xs generalizing out with
  | nil => rfl
  | cons x xs ih =>
    rw [map_cons, foldlM_cons, h out x mem_cons_self, foldl_cons]
    exact ih (fun out' y hy => h out' y (mem_cons_of_mem _ hy)) _

theorem foldlM_sum {f : ℕ → α → Except ε ℕ} {amount : α → ℕ}
    (hf : ∀ total x next, f total x = .ok next → next = total + amount x) {total next : ℕ}
    (h : xs.foldlM f total = .ok next) : next = total + (xs.map amount).sum := by
  induction xs generalizing total with
  | nil =>
    rw [foldlM_nil, pure_eq_ok] at h
    rw [map_nil, sum_nil, Nat.add_zero, h]
  | cons x xs ih =>
    rw [foldlM_cons] at h
    obtain ⟨middle, hmiddle, hrest⟩ := bind_eq_ok.mp h
    rw [ih hrest, hf total x middle hmiddle, map_cons, sum_cons, Nat.add_assoc]

theorem foldlM_sum_exceeds {f : ℕ → α → Except ε ℕ} {amount : α → ℕ} {limit : ℕ}
    (hf : ∀ total x next, f total x = .ok next → next = total + amount x)
    (herr : ∀ total, ∀ x ∈ xs, f total x = .error e → limit < total + amount x) {total : ℕ}
    (h : xs.foldlM f total = .error e) : limit < total + (xs.map amount).sum := by
  induction xs generalizing total with
  | nil =>
    rw [foldlM_nil, pure_eq_error] at h
    exact h.elim
  | cons x xs ih =>
    rw [foldlM_cons] at h
    rw [map_cons, sum_cons]
    obtain hfirst | ⟨middle, hmiddle, hrest⟩ := bind_eq_error.mp h
    · have hexceeds := herr total x mem_cons_self hfirst
      omega
    · have hexceeds := ih (fun total' y hy => herr total' y (mem_cons_of_mem _ hy)) hrest
      rw [hf total x middle hmiddle] at hexceeds
      omega

/-- A loop that records what it has met, and whose body passes whenever the element's mark is new,
passes on elements with pairwise different marks. -/
theorem foldlM_distinct {f : List β → α → Except ε (List β)} (mark : α → β)
    (hf : ∀ met, ∀ x ∈ xs, mark x ∉ met → f met x = .ok (mark x :: met)) (hn : (xs.map mark).Nodup) {met : List β}
    (hmet : ∀ x ∈ xs, mark x ∉ met) : ∃ met', xs.foldlM f met = .ok met' := by
  induction xs generalizing met with
  | nil => exact ⟨met, rfl⟩
  | cons x xs ih =>
    rw [map_cons, nodup_cons] at hn
    rw [foldlM_cons, hf met x mem_cons_self (hmet x mem_cons_self), ok_bind]
    refine ih (fun met' y hy => hf met' y (mem_cons_of_mem _ hy)) hn.2 fun y hy hy' => ?_
    rcases mem_cons.mp hy' with hy' | hy'
    · exact hn.1 (hy' ▸ mem_map_of_mem hy)
    · exact hmet y (mem_cons_of_mem _ hy) hy'

/-- A loop that appends what each element shows to two lists, and whose body passes whenever both
lists stay free of repetitions, passes when the whole lists are. -/
theorem foldlM_appends {κ : Type} {f : List β × List γ → α → Except ε (List β × List γ)} {u : α → List β}
    {v : α → List γ} (mark : β → κ) (hf : ∀ met, ∀ x ∈ xs, ((met.1 ++ u x).map mark).Nodup → (met.2 ++ v x).Nodup →
      f met x = .ok (met.1 ++ u x, met.2 ++ v x)) {met : List β × List γ}
    (hu : ((met.1 ++ xs.flatMap u).map mark).Nodup) (hv : (met.2 ++ xs.flatMap v).Nodup) :
    xs.foldlM f met = .ok (met.1 ++ xs.flatMap u, met.2 ++ xs.flatMap v) := by
  induction xs generalizing met with
  | nil =>
    simp only [flatMap_nil, append_nil]
    rfl
  | cons x xs ih =>
    rw [flatMap_cons, ← append_assoc] at hu hv
    have hu' : ((met.1 ++ u x).map mark).Nodup := by
      rw [map_append] at hu
      exact hu.of_append_left
    rw [foldlM_cons, hf met x mem_cons_self hu' hv.of_append_left, ok_bind,
      ih (fun met' y hy => hf met' y (mem_cons_of_mem _ hy)) hu hv, flatMap_cons,
      flatMap_cons, append_assoc, append_assoc]

end

/-! ## Ranges of the fixed-width integer types -/

def u64Max : ℕ := 2 ^ 64 - 1
def i64Max : ℤ := 2 ^ 63 - 1
def i128Max : ℕ := 2 ^ 127 - 1

/-- Addition of nonnegative `i128` values. -/
def checkedAdd (a b : ℕ) : Option ℕ := if a + b ≤ i128Max then some (a + b) else none

variable {a b c : ℕ}

theorem checkedAdd_eq_some : checkedAdd a b = some c ↔ a + b ≤ i128Max ∧ c = a + b := by
  unfold checkedAdd
  split <;> simp_all [eq_comm]

/-- Multiplication of nonnegative `i128` values. -/
def checkedMul (a b : ℕ) : Option ℕ := if a * b ≤ i128Max then some (a * b) else none

theorem checkedMul_eq_some : checkedMul a b = some c ↔ a * b ≤ i128Max ∧ c = a * b := by
  unfold checkedMul
  split <;> simp_all [eq_comm]

/-- Addition of `u64` values. -/
def checkedAddU64 (a b : ℕ) : Option ℕ := if a + b ≤ u64Max then some (a + b) else none

theorem checkedAddU64_eq_some : checkedAddU64 a b = some c ↔ a + b ≤ u64Max ∧ c = a + b := by
  unfold checkedAddU64
  split <;> simp_all [eq_comm]

/-- Addition of `u64` or `usize` values that stops at the largest one. -/
def saturatingAdd (a b : ℕ) : ℕ := min (a + b) u64Max

end CcSwitchServer.Foundations
