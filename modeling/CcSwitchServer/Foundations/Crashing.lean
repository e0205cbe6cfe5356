import Mathlib.Tactic

/-! # Crashes and redo logs

A program changes a durable state in atomic steps; a crash leaves any of the states it goes through.
-/

namespace CcSwitchServer.Foundations

variable {ι σ ε α : Type}

/-- The states behind the labelled steps, and how the program ends. -/
def Program (ι σ ε : Type) := σ → List (ι × σ) × Except ε σ

namespace Program

def done : Program ι σ ε := fun s => ([], .ok s)

def atomic (label : ι) (f : σ → σ) : Program ι σ ε := fun s => ([(label, f s)], .ok (f s))

/-- An error ends the whole. -/
def andThen (p q : Program ι σ ε) : Program ι σ ε := fun s =>
  match (p s).2 with
  | .error e => ((p s).1, .error e)
  | .ok t => ((p s).1 ++ (q t).1, (q t).2)

/-- What is read from the state decides how the program goes on. -/
def reading (f : σ → Except ε α) (k : α → Program ι σ ε) : Program ι σ ε := fun s =>
  match f s with
  | .error e => ([], .error e)
  | .ok a => k a s

def check (c : σ → Bool) (e : ε) : Program ι σ ε := fun s => if c s then ([], .ok s) else ([], .error e)

def when (c : σ → Bool) (p : Program ι σ ε) : Program ι σ ε := fun s => if c s then p s else ([], .ok s)

def sequence : List (Program ι σ ε) → Program ι σ ε
  | [] => done
  | p :: ps => p.andThen (sequence ps)

/-! ## Programs that end -/

/-- Every state on the way meets `V`, and the program ends in a state that meets `R`. -/
def Succeeds (p : Program ι σ ε) (s : σ) (V : ι → σ → Prop) (R : σ → Prop) : Prop :=
  (∀ x ∈ (p s).1, V x.1 x.2) ∧ ∃ t, (p s).2 = .ok t ∧ R t

variable {p q : Program ι σ ε} {s : σ} {V : ι → σ → Prop} {R R' : σ → Prop}

theorem succeeds_done (h : R s) : Succeeds (done : Program ι σ ε) s V R := ⟨(fun _ hx => nomatch hx), s, rfl, h⟩

theorem succeeds_atomic {label : ι} {f : σ → σ} (hv : V label (f s)) (hr : R (f s)) :
    Succeeds (atomic label f : Program ι σ ε) s V R := by
  refine ⟨fun x hx => ?_, f s, rfl, hr⟩
  rw [List.mem_singleton.mp hx]
  exact hv

theorem Succeeds.andThen (hp : Succeeds p s V R') (hq : ∀ t, R' t → Succeeds q t V R) :
    Succeeds (p.andThen q) s V R := by
  obtain ⟨hvisited, t, hresult, ht⟩ := hp
  obtain ⟨hvisited', u, hresult', hu⟩ := hq t ht
  unfold Succeeds Program.andThen
  rw [hresult]
  dsimp only
  refine ⟨fun x hx => ?_, u, hresult', hu⟩
  rcases List.mem_append.mp hx with hx | hx
  · exact hvisited x hx
  · exact hvisited' x hx

theorem succeeds_reading {f : σ → Except ε α} {k : α → Program ι σ ε} {a : α} (hf : f s = .ok a)
    (hk : Succeeds (k a) s V R) : Succeeds (reading f k) s V R := by
  unfold Succeeds reading
  rw [hf]
  exact hk

variable {c : σ → Bool}

theorem succeeds_check {e : ε} (hc : c s = true) (hr : R s) :
    Succeeds (check c e : Program ι σ ε) s V R := by
  unfold Succeeds check
  rw [hc]
  exact succeeds_done hr

theorem succeeds_when_not (hc : c s = false) (hr : R s) : Succeeds (when c p) s V R := by
  unfold Succeeds when
  rw [hc]
  exact succeeds_done hr

theorem succeeds_when (hc : c s = true) (hp : Succeeds p s V R) : Succeeds (when c p) s V R := by
  unfold Succeeds when
  rw [hc]
  exact hp

theorem Succeeds.mono {V' : ι → σ → Prop} (hp : Succeeds p s V R') (hv : ∀ l t, V l t → V' l t)
    (hr : ∀ t, R' t → R t) : Succeeds p s V' R := by
  obtain ⟨hvisited, t, hresult, ht⟩ := hp
  exact ⟨fun x hx => hv _ _ (hvisited x hx), t, hresult, hr t ht⟩

theorem Succeeds.result (h : Succeeds p s V R) : ∃ t, (p s).2 = .ok t := by
  obtain ⟨-, t, ht, -⟩ := h
  exact ⟨t, ht⟩

theorem succeeds_sequence {ps : List (Program ι σ ε)} {I : σ → Prop} (hs : I s)
    (hstep : ∀ p ∈ ps, ∀ t, I t → Succeeds p t V I) : Succeeds (sequence ps) s V I := by
  induction ps generalizing s with
  | nil => exact succeeds_done hs
  | cons p ps ih =>
    refine (hstep p List.mem_cons_self s hs).andThen fun t ht => ?_
    exact ih ht fun q hq => hstep q (List.mem_cons_of_mem _ hq)

end Program

/-! ## Redo logs -/

variable {κ ν : Type} [DecidableEq κ]

/-- The writes of a log, one cell each. -/
def redo (s : κ → ν) (writes : List (κ × ν)) : κ → ν := writes.foldl (fun s w => Function.update s w.1 w.2) s

theorem redo_append (s : κ → ν) (writes writes' : List (κ × ν)) :
    redo s (writes ++ writes') = redo (redo s writes) writes' := List.foldl_append

theorem redo_apply_of_mem {writes : List (κ × ν)} {k : κ} (h : k ∈ writes.map Prod.fst) (s t : κ → ν) :
    redo s writes k = redo t writes k := by
  induction writes using List.reverseRecOn with
  | nil => cases h
  | append_singleton writes w ih =>
    rw [redo_append, redo_append]
    change Function.update (redo s writes) w.1 w.2 k = Function.update (redo t writes) w.1 w.2 k
    by_cases hk : k = w.1
    · rw [hk, Function.update_self, Function.update_self]
    · rw [Function.update_of_ne hk, Function.update_of_ne hk]
      rw [List.map_append, List.mem_append] at h
      rcases h with h | h
      · exact ih h
      · exact absurd (List.mem_singleton.mp h) hk

theorem redo_apply_of_notMem {writes : List (κ × ν)} {k : κ} (h : k ∉ writes.map Prod.fst) (s : κ → ν) :
    redo s writes k = s k := by
  induction writes using List.reverseRecOn with
  | nil => rfl
  | append_singleton writes w ih =>
    rw [List.map_append, List.mem_append, not_or] at h
    rw [redo_append]
    change Function.update (redo s writes) w.1 w.2 k = s k
    rw [Function.update_of_ne fun hk => h.2 (List.mem_singleton.mpr hk), ih h.1]

theorem redo_redo (s : κ → ν) (writes : List (κ × ν)) : redo (redo s writes) writes = redo s writes := by
  funext k
  by_cases h : k ∈ writes.map Prod.fst
  · exact redo_apply_of_mem h _ _
  · exact redo_apply_of_notMem h _

end CcSwitchServer.Foundations
