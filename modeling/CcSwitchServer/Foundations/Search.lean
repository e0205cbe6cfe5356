import Mathlib.Tactic

/-! # Breadth-first search

The head of the queue is recorded unless it was refused or met, and its successors join the queue.
-/

namespace CcSwitchServer.Foundations.Search
open List

variable {α : Type}

/-! ## The cost of a queue -/

/-- A bound on the rounds that the queue still takes. -/
def cost (b : ℕ) (rank : α → ℕ) (queue : List α) : ℕ := (queue.map fun x => (b + 1) ^ rank x).sum

theorem cost_append (b : ℕ) (rank : α → ℕ) (xs ys : List α) :
    cost b rank (xs ++ ys) = cost b rank xs + cost b rank ys := by
  unfold cost
  rw [map_append, sum_append]

variable {b : ℕ} {rank : α → ℕ} {current start : α} {queue met : List α}

theorem cost_le_of_lower {r : ℕ} {xs : List α} (h : ∀ x ∈ xs, rank x < r + 1) :
    cost b rank xs ≤ xs.length * (b + 1) ^ r := by
  induction xs with
  | nil => exact Nat.zero_le _
  | cons x xs ih =>
    have hx : (b + 1) ^ rank x ≤ (b + 1) ^ r :=
      Nat.pow_le_pow_right (Nat.succ_pos b) (Nat.le_of_lt_succ (h x mem_cons_self))
    have hxs := ih fun y hy => h y (mem_cons_of_mem _ hy)
    unfold cost at hxs ⊢
    rw [map_cons, sum_cons, length_cons, Nat.add_mul, Nat.one_mul]
    omega

theorem cost_filter_le (b : ℕ) (rank : α → ℕ) (p : α → Bool) (xs : List α) :
    cost b rank (xs.filter p) ≤ cost b rank xs := by
  unfold cost
  exact List.Sublist.sum_le_sum (filter_sublist.map _) (by simp)

theorem cost_next_lt {next : α → List α} (hlength : (next current).length ≤ b)
    (hlower : ∀ n ∈ next current, rank n < rank current) :
    cost b rank (next current) < (b + 1) ^ rank current := by
  cases hrank : rank current with
  | zero =>
    have hnone : next current = [] := by
      rw [eq_nil_iff_forall_not_mem]
      intro n hn
      have hn' := hlower n hn
      omega
    rw [hnone]
    exact Nat.one_pos
  | succ r =>
    have hle : cost b rank (next current) ≤ (next current).length * (b + 1) ^ r :=
      cost_le_of_lower fun n hn => hrank ▸ hlower n hn
    have hpow : 0 < (b + 1) ^ r := Nat.pow_pos (Nat.succ_pos b)
    have hbound : (next current).length * (b + 1) ^ r ≤ b * (b + 1) ^ r := Nat.mul_le_mul_right _ hlength
    rw [Nat.pow_succ, Nat.mul_add, Nat.mul_one, Nat.mul_comm]
    omega

/-! ## The rounds -/

variable [DecidableEq α]

def round (next : α → List α) (refused : α → Bool) : List α × List α → List α × List α
  | ([], met) => ([], met)
  | (current :: queue, met) =>
    if refused current ∨ current ∈ met then (queue, met)
    else (queue ++ (next current).filter (fun n => !refused n && n ∉ current :: met), current :: met)

variable {next : α → List α} {refused : α → Bool}

theorem round_nil (met : List α) : round next refused ([], met) = ([], met) := rfl

theorem round_skip (h : refused current ∨ current ∈ met) :
    round next refused (current :: queue, met) = (queue, met) := by
  rw [round, if_pos h]

theorem round_meet (h : ¬(refused current ∨ current ∈ met)) :
    round next refused (current :: queue, met) =
      (queue ++ (next current).filter (fun n => !refused n && n ∉ current :: met), current :: met) := by
  rw [round, if_neg h]

theorem rounds_invariant (Inv : List α × List α → Prop)
    (hround : ∀ s, Inv s → Inv (round next refused s)) {s : List α × List α} (h : Inv s) (n : ℕ) :
    Inv ((round next refused)^[n] s) := by
  induction n generalizing s with
  | zero => exact h
  | succ n ih => exact ih (hround s h)

/-! ## The end of the search -/

theorem round_cost (hlength : ∀ x, (next x).length ≤ b) (hlower : ∀ x, ∀ n ∈ next x, rank n < rank x) :
    cost b rank (round next refused (current :: queue, met)).1 < cost b rank (current :: queue) := by
  have hcost : cost b rank (current :: queue) = (b + 1) ^ rank current + cost b rank queue := rfl
  have hpow : 0 < (b + 1) ^ rank current := Nat.pow_pos (Nat.succ_pos b)
  by_cases h : refused current ∨ current ∈ met
  · rw [round_skip h, hcost]
    dsimp only
    omega
  · rw [round_meet h, hcost, cost_append]
    have hle := cost_filter_le b rank (fun n => !refused n && n ∉ current :: met) (next current)
    have hlt := cost_next_lt (hlength current) (hlower current)
    omega

/-- Where every successor has a lower rank the queue is empty after as many rounds as it costs. -/
theorem exhausted (hlength : ∀ x, (next x).length ≤ b) (hlower : ∀ x, ∀ n ∈ next x, rank n < rank x) {fuel : ℕ}
    {s : List α × List α} (h : cost b rank s.1 ≤ fuel) : ((round next refused)^[fuel] s).1 = [] := by
  obtain ⟨queue, met⟩ := s
  induction fuel generalizing queue met with
  | zero =>
    cases queue with
    | nil => rfl
    | cons current queue =>
      have hpow : 0 < (b + 1) ^ rank current := Nat.pow_pos (Nat.succ_pos b)
      have hcost : cost b rank (current :: queue) = (b + 1) ^ rank current + cost b rank queue := rfl
      dsimp only at h
      omega
  | succ fuel ih =>
    rw [Function.iterate_succ_apply]
    cases queue with
    | nil => exact ih [] met (Nat.zero_le _)
    | cons current queue =>
      have hless : cost b rank (round next refused (current :: queue, met)).1 <
          cost b rank (current :: queue) := round_cost hlength hlower
      cases hround : round next refused (current :: queue, met) with
      | mk queue' met' =>
        rw [hround] at hless
        dsimp only at h hless
        refine ih queue' met' ?_
        dsimp only
        omega

/-! ## What is met -/

variable (s : List α × List α)

theorem round_nodup (h : s.2.Nodup) : (round next refused s).2.Nodup := by
  obtain ⟨queue, met⟩ := s
  cases queue with
  | nil => exact h
  | cons current queue =>
    by_cases hskip : refused current ∨ current ∈ met
    · rw [round_skip hskip]
      exact h
    · rw [round_meet hskip]
      exact nodup_cons.mpr ⟨fun hmem => hskip (.inr hmem), h⟩

theorem round_accepted (h : ∀ x ∈ s.2, refused x = false) : ∀ x ∈ (round next refused s).2, refused x = false := by
  obtain ⟨queue, met⟩ := s
  cases queue with
  | nil => exact h
  | cons current queue =>
    by_cases hskip : refused current ∨ current ∈ met
    · rw [round_skip hskip]
      exact h
    · rw [round_meet hskip]
      rw [not_or, Bool.not_eq_true] at hskip
      rintro x (_ | ⟨_, hx⟩)
      · exact hskip.1
      · exact h x hx

/-- The successors of what was recorded are recorded, queued or refused. -/
def Closed (next : α → List α) (refused : α → Bool) (s : List α × List α) : Prop :=
  ∀ x ∈ s.2, ∀ n ∈ next x, refused n = false → n ∈ s.1 ∨ n ∈ s.2

theorem round_closed (h : Closed next refused s) : Closed next refused (round next refused s) := by
  obtain ⟨queue, met⟩ := s
  cases queue with
  | nil => exact h
  | cons current queue =>
    by_cases hskip : refused current ∨ current ∈ met
    · rw [round_skip hskip]
      intro x hx n hn hfine
      obtain hwaits | hmet := h x hx n hn hfine
      · obtain rfl | hwaits := mem_cons.mp hwaits
        · obtain hbad | hmet := hskip
          · rw [hfine] at hbad
            cases hbad
          · exact .inr hmet
        · exact .inl hwaits
      · exact .inr hmet
    · rw [round_meet hskip]
      intro x hx n hn hfine
      by_cases hmet : n ∈ current :: met
      · exact .inr hmet
      obtain rfl | hx := mem_cons.mp hx
      · refine .inl (mem_append_right _ (mem_filter.mpr ⟨hn, ?_⟩))
        simp only [hfine, Bool.not_false, Bool.true_and]
        exact decide_eq_true hmet
      · obtain hwaits | hold := h x hx n hn hfine
        · obtain rfl | hwaits := mem_cons.mp hwaits
          · exact absurd mem_cons_self hmet
          · exact .inl (mem_append_left _ hwaits)
        · exact .inr (mem_cons_of_mem _ hold)

/-- Everything met but the first is a successor of something met before it. -/
def Rooted (next : α → List α) (start : α) : List α → Prop
  | [] => True
  | x :: met => (met = [] ∧ x = start ∨ ∃ y ∈ met, x ∈ next y) ∧ Rooted next start met

/-- Everything recorded is reached from the start. -/
def Traced (next : α → List α) (start : α) (s : List α × List α) : Prop :=
  Rooted next start s.2 ∧ ∀ x ∈ s.1, s.2 = [] ∧ x = start ∨ ∃ y ∈ s.2, x ∈ next y

theorem round_traced (h : Traced next start s) (hfirst : s.2 = [] → s.1.length ≤ 1) :
    Traced next start (round next refused s) := by
  obtain ⟨queue, met⟩ := s
  cases queue with
  | nil => exact h
  | cons current queue =>
    by_cases hskip : refused current ∨ current ∈ met
    · rw [round_skip hskip]
      exact ⟨h.1, fun x hx => h.2 x (mem_cons_of_mem _ hx)⟩
    · rw [round_meet hskip]
      refine ⟨⟨h.2 current mem_cons_self, h.1⟩, fun x hx => .inr ?_⟩
      obtain hx | hx := mem_append.mp hx
      · obtain ⟨hnone, -⟩ | ⟨y, hy, hnext⟩ := h.2 x (mem_cons_of_mem _ hx)
        · have hlength := hfirst hnone
          rw [length_cons] at hlength
          have hpos := length_pos_of_mem hx
          omega
        · exact ⟨y, mem_cons_of_mem _ hy, hnext⟩
      · exact ⟨current, mem_cons_self, (mem_filter.mp hx).1⟩

theorem round_subset {S : α → Prop} (hS : ∀ x, S x → ∀ n ∈ next x, refused n = false → S n)
    (s : List α × List α) (h : (∀ x ∈ s.1, refused x = false → S x) ∧ ∀ x ∈ s.2, S x) :
    (∀ x ∈ (round next refused s).1, refused x = false → S x) ∧ ∀ x ∈ (round next refused s).2, S x := by
  obtain ⟨queue, met⟩ := s
  cases queue with
  | nil => exact h
  | cons current queue =>
    by_cases hskip : refused current ∨ current ∈ met
    · rw [round_skip hskip]
      exact ⟨fun x hx => h.1 x (mem_cons_of_mem _ hx), h.2⟩
    · rw [round_meet hskip]
      rw [not_or, Bool.not_eq_true] at hskip
      have hcurrent : S current := h.1 current mem_cons_self hskip.1
      refine ⟨fun x hx hfine => ?_, fun x hx => ?_⟩
      · obtain hx | hx := mem_append.mp hx
        · exact h.1 x (mem_cons_of_mem _ hx) hfine
        · exact hS current hcurrent x (mem_filter.mp hx).1 hfine
      · obtain rfl | hx := mem_cons.mp hx
        · exact hcurrent
        · exact h.2 x hx

theorem round_kept {x : α} (hfine : refused x = false)
    (h : x ∈ s.1 ∨ x ∈ s.2) : x ∈ (round next refused s).1 ∨ x ∈ (round next refused s).2 := by
  obtain ⟨queue, met⟩ := s
  cases queue with
  | nil => exact h
  | cons current queue =>
    by_cases hskip : refused current ∨ current ∈ met
    · rw [round_skip hskip]
      obtain hwaits | hmet := h
      · obtain rfl | hwaits := mem_cons.mp hwaits
        · obtain hbad | hmet := hskip
          · rw [hfine] at hbad
            cases hbad
          · exact .inr hmet
        · exact .inl hwaits
      · exact .inr hmet
    · rw [round_meet hskip]
      obtain hwaits | hmet := h
      · obtain rfl | hwaits := mem_cons.mp hwaits
        · exact .inr mem_cons_self
        · exact .inl (mem_append_left _ hwaits)
      · exact .inr (mem_cons_of_mem _ hmet)

omit [DecidableEq α] in
theorem Rooted.last {start : α} {met : List α} (h : Rooted next start met) (hne : met ≠ []) :
    met.getLast? = some start := by
  induction met with
  | nil => exact absurd rfl hne
  | cons x met ih =>
    cases met with
    | nil =>
      obtain ⟨⟨-, rfl⟩ | ⟨y, hy, -⟩, -⟩ := h
      · rfl
      · cases hy
    | cons y met =>
      rw [getLast?_cons_cons]
      exact ih h.2 (cons_ne_nil _ _)

omit [DecidableEq α] in
theorem Rooted.parent {start : α} {later met : List α} {x : α} (h : Rooted next start (later ++ x :: met))
    (hne : met ≠ []) : ∃ y ∈ met, x ∈ next y := by
  induction later with
  | nil =>
    obtain ⟨⟨hnone, -⟩ | hparent, -⟩ := h
    · exact absurd hnone hne
    · exact hparent
  | cons y later ih => exact ih h.2

/-! ## The whole search -/

def rounds (next : α → List α) (refused : α → Bool) (start : α) (n : ℕ) : List α × List α :=
  (round next refused)^[n] ([start], [])

theorem rounds_stable {fuel n : ℕ} (h : (rounds next refused start fuel).1 = []) (hle : fuel ≤ n) :
    rounds next refused start n = rounds next refused start fuel := by
  obtain ⟨more, rfl⟩ := Nat.exists_eq_add_of_le hle
  induction more with
  | zero => rfl
  | succ more ih =>
    have hstep : rounds next refused start (fuel + (more + 1)) =
        round next refused (rounds next refused start (fuel + more)) :=
      Function.iterate_succ_apply' _ _ _
    rw [hstep, ih (Nat.le_add_right _ _)]
    cases hstate : rounds next refused start fuel with
    | mk queue met =>
      rw [hstate] at h
      dsimp only at h
      rw [h, round_nil]

theorem rounds_nodup (start : α) (n : ℕ) : (rounds next refused start n).2.Nodup :=
  rounds_invariant (fun s => s.2.Nodup) round_nodup nodup_nil n

theorem rounds_accepted (start : α) (n : ℕ) : ∀ x ∈ (rounds next refused start n).2, refused x = false :=
  rounds_invariant (fun s => ∀ x ∈ s.2, refused x = false) round_accepted
    (s := ([start], [])) (fun _ hx => nomatch hx) n

theorem rounds_closed (start : α) (n : ℕ) : Closed next refused (rounds next refused start n) :=
  rounds_invariant (Closed next refused) (s := ([start], [])) round_closed (fun _ hx => nomatch hx) n

theorem rounds_traced (start : α) (n : ℕ) : Traced next start (rounds next refused start n) := by
  have hround : ∀ s : List α × List α, Traced next start s ∧ (s.2 = [] → s.1.length ≤ 1) →
      Traced next start (round next refused s) ∧
        ((round next refused s).2 = [] → (round next refused s).1.length ≤ 1) := by
    rintro ⟨queue, met⟩ ⟨htraced, hfirst⟩
    refine ⟨round_traced _ htraced hfirst, fun hnone => ?_⟩
    cases queue with
    | nil => exact Nat.zero_le _
    | cons current queue =>
      by_cases hskip : refused current ∨ current ∈ met
      · rw [round_skip hskip] at hnone ⊢
        have hlength := hfirst hnone
        rw [length_cons] at hlength
        dsimp only
        omega
      · rw [round_meet hskip] at hnone
        cases hnone
  refine (rounds_invariant (fun s => Traced next start s ∧ (s.2 = [] → s.1.length ≤ 1))
    (s := ([start], [])) hround ⟨⟨trivial, fun x hx => .inl ⟨rfl, mem_singleton.mp hx⟩⟩, fun _ => Nat.le_refl 1⟩ n).1

theorem rounds_subset {S : α → Prop} (hS : ∀ x, S x → ∀ n ∈ next x, refused n = false → S n) (hstart : S start)
    (n : ℕ) : ∀ x ∈ (rounds next refused start n).2, S x := by
  refine (rounds_invariant (fun s => (∀ x ∈ s.1, refused x = false → S x) ∧ ∀ x ∈ s.2, S x)
    (s := ([start], [])) (round_subset hS) ⟨fun x hx _ => ?_, fun _ hx => nomatch hx⟩ n).2
  rw [mem_singleton.mp hx]
  exact hstart

theorem start_met {n : ℕ} (hfine : refused start = false) (hend : (rounds next refused start n).1 = []) :
    start ∈ (rounds next refused start n).2 := by
  have hkept : start ∈ (rounds next refused start n).1 ∨ start ∈ (rounds next refused start n).2 :=
    rounds_invariant (fun s => start ∈ s.1 ∨ start ∈ s.2)
    (s := ([start], [])) (fun s => round_kept s hfine) (.inl mem_cons_self) n
  obtain hwaits | hmet := hkept
  · rw [hend] at hwaits
    cases hwaits
  · exact hmet

end CcSwitchServer.Foundations.Search
