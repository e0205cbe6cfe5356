import Mathlib.Tactic

/-! # Lists

Duplicates taken out of a list, and a choice of members whose images are known.
-/

namespace CcSwitchServer.Foundations
open List

variable {α β : Type}

theorem filterMap_eq_map_filter {p : α → Bool} {f : α → Option β} {g : α → β} {xs : List α}
    (hin : ∀ x ∈ xs, p x = true → f x = some (g x)) (hout : ∀ x ∈ xs, p x = false → f x = none) :
    xs.filterMap f = (xs.filter p).map g := by
  induction xs with
  | nil => rfl
  | cons x xs ih =>
    have hrest := ih (fun y hy => hin y (mem_cons_of_mem _ hy)) fun y hy => hout y (mem_cons_of_mem _ hy)
    cases hx : p x with
    | true =>
      rw [filterMap_cons_some (hin x mem_cons_self hx), filter_cons_of_pos hx, map_cons, hrest]
    | false =>
      rw [filterMap_cons_none (hout x mem_cons_self hx),
        filter_cons_of_neg (by rw [hx]; exact Bool.false_ne_true), hrest]

variable [BEq α] [LawfulBEq α]

theorem nodup_eraseDups (xs : List α) : xs.eraseDups.Nodup := by
  induction xs using reverseRecOn with
  | nil => exact nodup_nil
  | append_singleton xs x ih =>
    rw [eraseDups_append]
    by_cases hx : x ∈ xs
    · have hnone : [x].removeAll xs = [] := by simp [removeAll, hx]
      rw [hnone, eraseDups_nil, append_nil]
      exact ih
    · have hsome : [x].removeAll xs = [x] := by simp [removeAll, hx]
      rw [hsome, eraseDups_cons, filter_nil, eraseDups_nil, nodup_append]
      refine ⟨ih, nodup_singleton x, fun y hy z hz => ?_⟩
      rw [mem_singleton.mp hz]
      exact fun heq => hx (heq ▸ mem_eraseDups.mp hy)

theorem length_eraseDups_le (xs : List α) : xs.eraseDups.length ≤ xs.length :=
  ((nodup_eraseDups xs).subperm fun _ hx => mem_eraseDups.mp hx).length_le

end CcSwitchServer.Foundations
