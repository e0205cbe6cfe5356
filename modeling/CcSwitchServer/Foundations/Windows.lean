import Mathlib.Algebra.BigOperators.Group.List.Basic
import Mathlib.Algebra.GroupWithZero.Nat
import Mathlib.Algebra.Order.Group.Int
import Mathlib.Data.List.Perm.Basic
import Mathlib.Order.Monotone.Basic

/-! # Counters of the newest window

A counter holds the sum of the charges of the newest window, up to a cap.
-/

namespace CcSwitchServer.Foundations.Windows
open List

structure Charge where
  time : ℤ
  amount : ℕ

structure Counter where
  start : ℤ
  total : ℕ

section
variable (cap : ℕ)

/-- A charge of another window starts the counter anew. -/
def Counter.record (c : Counter) (start : ℤ) (amount : ℕ) : Counter :=
  ⟨start, min ((if c.start = start then c.total else 0) + amount) cap⟩

/-- Charges of older windows are left out. -/
def Counter.advance (c : Counter) (start : ℤ) (amount : ℕ) : Counter :=
  if c.start ≤ start then c.record cap start amount else c

/-- What the counter says about the window that begins at `start`. -/
def Counter.read (c : Counter) (start : ℤ) : ℕ := if c.start = start then c.total else 0

end

section
variable (cap : ℕ) (window : ℤ → ℤ)

def windowSum (charges : List Charge) (start : ℤ) : ℕ :=
  ((charges.filter fun c => window c.time = start).map Charge.amount).sum

/-- The counter is of the newest window, and it holds the sum of the charges there, if `listed` says that
the charges of its window are all in the list. -/
structure Tracks (listed : ℤ → Prop) (charges : List Charge) (c : Counter) : Prop where
  newest : ∀ charge ∈ charges, window charge.time ≤ c.start
  capped : c.total ≤ cap
  total : listed c.start → c.total = min (windowSum window charges c.start) cap

end

section
variable {cap : ℕ} {window : ℤ → ℤ} {listed listed' : ℤ → Prop} {charges charges' : List Charge} {c : Counter}

theorem windowSum_cons (charge : Charge) (charges : List Charge) (start : ℤ) :
    windowSum window (charge :: charges) start =
      (if window charge.time = start then charge.amount else 0) + windowSum window charges start := by
  unfold windowSum
  rw [filter_cons]
  by_cases h : window charge.time = start
  · rw [if_pos h, if_pos (decide_eq_true h), map_cons, sum_cons]
  · rw [if_neg h, if_neg (by rw [decide_eq_true_eq]; exact h), Nat.zero_add]

theorem windowSum_append (charges charges' : List Charge) (start : ℤ) :
    windowSum window (charges ++ charges') start =
      windowSum window charges start + windowSum window charges' start := by
  unfold windowSum
  rw [filter_append, map_append, sum_append]

theorem windowSum_perm (h : charges.Perm charges') (start : ℤ) :
    windowSum window charges start = windowSum window charges' start :=
  ((h.filter _).map _).sum_eq

theorem windowSum_eq_zero {start : ℤ} (h : ∀ charge ∈ charges, window charge.time ≠ start) :
    windowSum window charges start = 0 := by
  unfold windowSum
  rw [filter_eq_nil_iff.mpr fun charge hcharge => by
    rw [decide_eq_true_eq]
    exact h charge hcharge]
  rfl

theorem windowSum_same {time : ℤ} (h : ∀ charge ∈ charges, charge.time = time) :
    windowSum window charges (window time) = (charges.map Charge.amount).sum := by
  unfold windowSum
  rw [filter_eq_self.mpr fun charge hcharge => by rw [h charge hcharge, decide_eq_true_eq]]

theorem Tracks.perm (h : Tracks cap window listed charges c) (hperm : charges.Perm charges') :
    Tracks cap window listed charges' c := by
  refine ⟨fun charge hcharge => h.newest charge (hperm.mem_iff.mpr hcharge), h.capped, fun hlisted => ?_⟩
  rw [h.total hlisted, windowSum_perm hperm]

theorem Tracks.fresh (start : ℤ) : Tracks cap window listed [] ⟨start, 0⟩ :=
  ⟨fun _ h => absurd h not_mem_nil, Nat.zero_le cap, fun _ => (Nat.zero_min cap).symm⟩

/-- What a counter stands for does not depend on the order of the charges. -/
theorem Tracks.charge {old rest : List Charge} {time : ℤ} {amount : ℕ}
    (h : Tracks cap window listed (old ++ rest) c) (hold : ∀ charge ∈ old, charge.time = time) :
    Tracks cap window listed (⟨time, (old.map Charge.amount).sum + amount⟩ :: rest)
      (c.advance cap (window time) amount) := by
  have hrest : ∀ charge ∈ rest, window charge.time ≤ c.start := fun charge hcharge =>
    h.newest charge (mem_append_right old hcharge)
  unfold Counter.advance
  by_cases hle : c.start ≤ window time
  · rw [if_pos hle]
    constructor
    · intro charge hcharge
      obtain rfl | hcharge := mem_cons.mp hcharge
      · exact le_refl _
      · exact (hrest charge hcharge).trans hle
    · exact Nat.min_le_right _ _
    · intro hlisted
      have hsum := @windowSum_cons window ⟨time, (old.map Charge.amount).sum + amount⟩ rest (window time)
      rw [if_pos rfl] at hsum
      show min ((if c.start = window time then c.total else 0) + amount) cap =
        min (windowSum window _ (window time)) cap
      rw [hsum]
      dsimp only
      by_cases hsame : c.start = window time
      · have htotal := h.total (hsame ▸ hlisted)
        rw [hsame, windowSum_append, windowSum_same hold] at htotal
        rw [if_pos hsame, htotal]
        omega
      · have hnone : old = [] := by
          refine eq_nil_iff_forall_not_mem.mpr fun charge hcharge => ?_
          have hnewest := h.newest charge (mem_append_left rest hcharge)
          rw [hold charge hcharge] at hnewest
          omega
        have hzero : windowSum window rest (window time) = 0 :=
          windowSum_eq_zero fun charge hcharge => by
            have hnewest := hrest charge hcharge
            omega
        rw [if_neg hsame, hnone, hzero]
        rfl
  · rw [if_neg hle]
    constructor
    · intro charge hcharge
      obtain rfl | hcharge := mem_cons.mp hcharge
      · exact (not_le.mp hle).le
      · exact hrest charge hcharge
    · exact h.capped
    · intro hlisted
      have hother : windowSum window old c.start = 0 := windowSum_eq_zero fun charge hcharge => by
        rw [hold charge hcharge]
        omega
      rw [h.total hlisted, windowSum_append, hother, windowSum_cons]
      dsimp only
      rw [if_neg (by omega)]

variable (h : Tracks cap window listed charges c)
include h

theorem Tracks.drop (p : Charge → Bool)
    (hlisted : ∀ start, listed' start → listed start)
    (hdropped : ∀ charge ∈ charges, p charge = false → ¬listed' (window charge.time)) :
    Tracks cap window listed' (charges.filter p) c := by
  refine ⟨fun charge hcharge => h.newest charge (mem_of_mem_filter hcharge), h.capped, fun hnow => ?_⟩
  rw [h.total (hlisted _ hnow)]
  unfold windowSum
  rw [filter_filter]
  congr 3
  refine filter_congr fun charge hcharge => ?_
  cases hp : p charge with
  | true => rw [Bool.and_true]
  | false =>
    rw [Bool.and_false, decide_eq_false_iff_not]
    intro hstart
    rw [← hstart] at hnow
    exact hdropped charge hcharge hp hnow

/-- A window that is not older than the counter and the charges is read as the sum of its charges. -/
theorem Tracks.read_eq {start : ℤ} (hstart : c.start ≤ start)
    (hlisted : listed start) : c.read start = min (windowSum window charges start) cap := by
  unfold Counter.read
  by_cases heq : c.start = start
  · rw [if_pos heq]
    subst heq
    exact h.total hlisted
  · rw [if_neg heq, windowSum_eq_zero fun charge hcharge => by
      have hnewest := h.newest charge hcharge
      omega]
    exact (Nat.zero_min cap).symm

end

end CcSwitchServer.Foundations.Windows
