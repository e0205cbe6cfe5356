import CcSwitchServer.Foundations.Tally
import CcSwitchServer.ValueQuota.Schema

/-! # Daily checkpoints

A checkpoint keeps running totals of contributions, every sum checked.
-/

namespace CcSwitchServer.ValueQuota
open Foundations Std List Checkpoint

/-- What a row adds to the checkpoint of its day. -/
structure Contribution where
  amount : ℕ
  risk : ℕ
  state : String
  revision : Option String
  watermark : ℕ
  deriving DecidableEq, Repr

def AttemptRow.contribution (r : AttemptRow) : Contribution where
  amount := r.usagePicos
  risk := r.pendingRiskPicos
  state := r.meteringStatus.name
  revision := some r.pricingRevision
  watermark := r.watermark

def GapRow.contribution (g : GapRow) : Contribution where
  amount := 0
  risk := 0
  state := "gap"
  revision := none
  watermark := g.watermark

namespace Checkpoint

def empty : Checkpoint := ⟨0, 0, ∅, ∅, 0⟩

def count (cp : Checkpoint) : Except QuotaError ℕ :=
  cp.states.toList.foldlM (fun sum p => context (checkedAddU64 sum p.2) .checkpointCorrupt) 0

/-- One total moved up or down. A difference of two nonnegative `i128` values is in range, so only
its sign can be wrong. -/
def number (old change : ℕ) (add : Bool) : Except QuotaError ℕ :=
  if add then context (checkedAdd old change) .checkpointOverflow
  else do
    ensure (change ≤ old) .checkpointCorrupt
    pure (old - change)

variable (m : ExtTreeMap String ℕ)

/-- One counter moved by one; a counter that reaches zero is removed. -/
def counter (key : String) (add : Bool) : Except QuotaError (ExtTreeMap String ℕ) := do
  let old := m.getD key 0
  let next ← context (if add then checkedAddU64 old 1 else if old = 0 then none else some (old - 1))
    .checkpointCorrupt
  pure (if next = 0 then m.erase key else m.insert key next)

def optionalCounter (key : Option String) (add : Bool) : Except QuotaError (ExtTreeMap String ℕ) :=
  match key with
  | some key => counter m key add
  | none => pure m

def change (cp : Checkpoint) (c : Contribution) (add : Bool) : Except QuotaError Checkpoint := do
  let amount ← number cp.amount c.amount add
  let risk ← number cp.risk c.risk add
  let states ← counter cp.states c.state add
  let revisions ← optionalCounter cp.revisions c.revision add
  pure { amount, risk, states, revisions, watermark := max cp.watermark c.watermark }

def mergeCounter (p : String × ℕ) : Except QuotaError (ExtTreeMap String ℕ) := do
  let sum ← context (checkedAddU64 (m.getD p.1 0) p.2) .checkpointCountOverflow
  pure (m.insert p.1 sum)

def mergeCounters (target source : ExtTreeMap String ℕ) : Except QuotaError (ExtTreeMap String ℕ) :=
  source.toList.foldlM mergeCounter target

def merge (cp other : Checkpoint) : Except QuotaError Checkpoint := do
  let amount ← context (checkedAdd cp.amount other.amount) .checkpointOverflow
  let risk ← context (checkedAdd cp.risk other.risk) .checkpointOverflow
  let states ← mergeCounters cp.states other.states
  let revisions ← mergeCounters cp.revisions other.revisions
  pure { amount, risk, states, revisions, watermark := max cp.watermark other.watermark }

/-- The worst state of the rows, by name. -/
def metering (cp : Checkpoint) : String :=
  if cp.states.contains "pending" then "pending"
  else if ["conservative", "unavailable", "gap"].any fun s => cp.states.contains s then
    "conservative"
  else "observed"

/-! ## Counters -/

variable {ks : List String}

theorem counter_add {m m' : ExtTreeMap String ℕ} {key : String}
    (h : counter m key true = .ok m') (hm : Counts m ks) : Counts m' (key :: ks) := by
  simp only [counter, if_true, bind_eq_ok, context_eq_ok, checkedAddU64_eq_some, pure_eq_ok] at h
  obtain ⟨next, ⟨-, rfl⟩, h⟩ := h
  rw [if_neg (by omega)] at h
  rw [← h]
  exact hm.insert_succ key

theorem counter_add_ok {m : ExtTreeMap String ℕ} (key : String) (h : total m < u64Max) :
    ∃ m', counter m key true = .ok m' := by
  have hle := getD_le_total m key
  have hnext : checkedAddU64 (m.getD key 0) 1 = some (m.getD key 0 + 1) := checkedAddU64_eq_some.mpr ⟨by omega, rfl⟩
  simp only [counter, if_true, bind_eq_ok, context_eq_ok, hnext]
  exact ⟨_, _, rfl, rfl⟩

theorem counter_remove {m : ExtTreeMap String ℕ} {key : String}
    (hm : Counts m (key :: ks)) : ∃ m', counter m key false = .ok m' ∧ Counts m' ks := by
  have hpos : m.getD key 0 ≠ 0 := by
    rw [hm.getD_eq]
    simp
  simp only [counter, Bool.false_eq_true, if_false, if_neg hpos, bind_eq_ok, context_eq_ok,
    Option.some.injEq, exists_eq_left', pure_eq_ok]
  by_cases hone : m.getD key 0 = 1
  · rw [if_pos (by omega)]
    exact hm.erase_last hone
  · rw [if_neg (by omega)]
    exact hm.insert_pred hone

private theorem foldlM_mergeCounter_counts (ps : List (String × ℕ)) (hne : ∀ p ∈ ps, p.2 ≠ 0)
    {t m : ExtTreeMap String ℕ} (ht : Counts t ks) (h : ps.foldlM mergeCounter t = .ok m) :
    Counts m ((ps.flatMap fun p => replicate p.2 p.1) ++ ks) := by
  induction ps generalizing t ks with
  | nil =>
    cases h
    simpa using ht
  | cons p ps ih =>
    simp only [foldlM_cons, mergeCounter, bind_eq_ok, context_eq_ok, checkedAddU64_eq_some, pure_eq_ok] at h
    obtain ⟨t', ⟨sum, ⟨-, rfl⟩, rfl⟩, h⟩ := h
    have hp := ht.insert_add p.1 p.2 (hne p (by simp))
    have hrest := ih (fun q hq => hne q (by simp [hq])) hp h
    refine hrest.perm ?_
    rw [flatMap_cons, ← append_assoc]
    exact perm_append_comm.append_right ks

theorem mergeCounters_counts {target source m : ExtTreeMap String ℕ} {ks' : List String}
    (h : mergeCounters target source = .ok m) (ht : Counts target ks) (hs : Counts source ks') :
    Counts m (ks ++ ks') := by
  have hne : ∀ p ∈ source.toList, p.2 ≠ 0 := by
    rintro ⟨k, v⟩ hp rfl
    rw [ExtTreeMap.mem_toList_iff_getElem?_eq_some] at hp
    exact hs.nonzero k hp
  have hm := foldlM_mergeCounter_counts source.toList hne ht h
  exact hm.perm (perm_append_comm.trans (hs.perm_expand.symm.append_left ks))

private theorem foldlM_mergeCounter_ok (ps : List (String × ℕ)) (t : ExtTreeMap String ℕ)
    (h : total t + (ps.map Prod.snd).sum ≤ u64Max) : ∃ m, ps.foldlM mergeCounter t = .ok m := by
  induction ps generalizing t with
  | nil => exact ⟨t, rfl⟩
  | cons p ps ih =>
    rw [map_cons, sum_cons] at h
    have hle := getD_le_total t p.1
    have hins := total_insert t p.1 (t.getD p.1 0 + p.2)
    obtain ⟨m, hm⟩ := ih (t.insert p.1 (t.getD p.1 0 + p.2)) (by omega)
    refine ⟨m, ?_⟩
    simp only [foldlM_cons, mergeCounter, bind_eq_ok, context_eq_ok, checkedAddU64_eq_some, pure_eq_ok]
    exact ⟨_, ⟨_, ⟨by omega, rfl⟩, rfl⟩, hm⟩

theorem change_watermark {cp cp' : Checkpoint} {c : Contribution} {add : Bool}
    (h : cp.change c add = .ok cp') : cp'.watermark = max cp.watermark c.watermark := by
  simp only [change, bind_eq_ok, pure_eq_ok] at h
  obtain ⟨-, -, -, -, -, -, -, -, rfl⟩ := h
  rfl

theorem mergeCounters_ok (target source : ExtTreeMap String ℕ)
    (h : total target + total source ≤ u64Max) : ∃ m, mergeCounters target source = .ok m :=
  foldlM_mergeCounter_ok source.toList target h

end Checkpoint

/-! ## What a checkpoint represents -/

/-- The totals of `cp` are those of the contributions `cs`. -/
structure Represents (cp : Checkpoint) (cs : List Contribution) : Prop where
  amount_eq : cp.amount = (cs.map Contribution.amount).sum
  risk_eq : cp.risk = (cs.map Contribution.risk).sum
  states : Counts cp.states (cs.map Contribution.state)
  revisions : Counts cp.revisions (cs.filterMap Contribution.revision)

namespace Represents
variable {cp cp' other : Checkpoint} {c : Contribution} {cs cs' : List Contribution}

theorem empty : Represents empty [] where
  amount_eq := rfl
  risk_eq := rfl
  states := Counts.empty
  revisions := Counts.empty

theorem perm (h : Represents cp cs) (hp : cs.Perm cs') : Represents cp cs' where
  amount_eq := by rw [h.amount_eq, (hp.map _).sum_eq]
  risk_eq := by rw [h.risk_eq, (hp.map _).sum_eq]
  states := h.states.perm (hp.map _)
  revisions := h.revisions.perm (hp.filterMap _)

theorem change_add (h : Represents cp cs) (hc : cp.change c true = .ok cp') : Represents cp' (c :: cs) := by
  simp only [change, number, if_true, bind_eq_ok, context_eq_ok, checkedAdd_eq_some, pure_eq_ok] at hc
  obtain ⟨amount, ⟨-, rfl⟩, risk, ⟨-, rfl⟩, states, hs, revisions, hv, rfl⟩ := hc
  refine ⟨?_, ?_, counter_add hs h.states, ?_⟩
  · simp [h.amount_eq, Nat.add_comm]
  · simp [h.risk_eq, Nat.add_comm]
  · cases hrev : c.revision with
    | none =>
      rw [hrev] at hv
      cases hv
      simpa [hrev] using h.revisions
    | some revision =>
      rw [hrev] at hv
      simpa [hrev] using counter_add hv h.revisions

/-- A contribution that is there can be removed. -/
theorem change_remove (h : Represents cp (c :: cs)) : ∃ cp', cp.change c false = .ok cp' ∧ Represents cp' cs := by
  have ha := h.amount_eq
  have hr := h.risk_eq
  rw [map_cons, sum_cons] at ha hr
  obtain ⟨states, hs, hstates⟩ := counter_remove h.states
  have hrev : ∃ revisions, optionalCounter cp.revisions c.revision false = .ok revisions ∧
      Counts revisions (cs.filterMap Contribution.revision) := by
    have hcounts := h.revisions
    rw [filterMap_cons] at hcounts
    cases hrev : c.revision with
    | none =>
      rw [hrev] at hcounts
      exact ⟨_, rfl, hcounts⟩
    | some revision =>
      rw [hrev] at hcounts
      exact counter_remove hcounts
  obtain ⟨revisions, hv, hrevisions⟩ := hrev
  refine ⟨⟨cp.amount - c.amount, cp.risk - c.risk, states, revisions,
    max cp.watermark c.watermark⟩, ?_, ⟨?_, ?_, hstates, hrevisions⟩⟩
  · simp only [change, number, bind_eq_ok, pure_eq_ok, Bool.false_eq_true, if_false, ensure_eq_ok]
    exact ⟨_, ⟨(), by omega, rfl⟩, _, ⟨(), by omega, rfl⟩, _, hs, _, hv, rfl⟩
  · simp only
    omega
  · simp only
    omega

theorem merge (h : Represents cp cs) (ho : Represents other cs') (hm : cp.merge other = .ok cp') :
    Represents cp' (cs ++ cs') := by
  simp only [Checkpoint.merge, bind_eq_ok, context_eq_ok, checkedAdd_eq_some, pure_eq_ok] at hm
  obtain ⟨amount, ⟨-, rfl⟩, risk, ⟨-, rfl⟩, states, hs, revisions, hv, rfl⟩ := hm
  refine ⟨?_, ?_, ?_, ?_⟩
  · simp [h.amount_eq, ho.amount_eq]
  · simp [h.risk_eq, ho.risk_eq]
  · rw [map_append]
    exact mergeCounters_counts hs h.states ho.states
  · rw [filterMap_append]
    exact mergeCounters_counts hv h.revisions ho.revisions

theorem count_eq (h : Represents cp cs) (hn : cs.length ≤ u64Max) : cp.count = .ok cs.length := by
  have hfold : ∀ (ps : List (String × ℕ)) (n : ℕ), n + (ps.map Prod.snd).sum ≤ u64Max →
      ps.foldlM (fun sum p => context (checkedAddU64 sum p.2) QuotaError.checkpointCorrupt) n =
        Except.ok (n + (ps.map Prod.snd).sum) := by
    intro ps
    induction ps with
    | nil => exact fun n _ => rfl
    | cons p ps ih =>
      intro n hle
      rw [map_cons, sum_cons] at hle
      rw [foldlM_cons, bind_eq_ok]
      refine ⟨n + p.2, ?_, ?_⟩
      · rw [context_eq_ok, checkedAddU64_eq_some]
        exact ⟨by omega, rfl⟩
      · rw [ih _ (by omega), map_cons, sum_cons, Nat.add_assoc]
  have htotal : total cp.states = cs.length := by
    rw [h.states.total_eq, length_map]
  have hsum : (cp.states.toList.map Prod.snd).sum = cs.length := htotal
  rw [Checkpoint.count, hfold _ 0 (by omega), hsum, Nat.zero_add]

theorem eq_nil (h : Represents Checkpoint.empty cs) : cs = [] := by
  have hlen := h.states.total_eq
  rw [length_map] at hlen
  exact eq_nil_of_length_eq_zero (hlen.symm.trans total_empty)

end Represents

/-! ## Tallies: a total, or an overflow of the exact sum -/

/-- Both exact sums are in the range of `i128`. -/
def Fits (cs : List Contribution) : Prop :=
  (cs.map Contribution.amount).sum ≤ i128Max ∧ (cs.map Contribution.risk).sum ≤ i128Max

theorem Fits.of_append {cs cs' : List Contribution} (h : Fits (cs ++ cs')) : Fits cs := by
  simp only [Fits, map_append, sum_append] at h
  exact ⟨by omega, by omega⟩

theorem Fits.perm {cs cs' : List Contribution} (h : Fits cs) (hp : cs.Perm cs') : Fits cs' := by
  rw [Fits, ← (hp.map _).sum_eq, ← (hp.map _).sum_eq]
  exact h

/-- The computation adds `cs` up, or fails because an exact sum is out of range. -/
def Tallies (x : Except QuotaError Checkpoint) (cs : List Contribution) : Prop :=
  (∃ cp, x = .ok cp ∧ Represents cp cs) ∨ x = .error .checkpointOverflow ∧ ¬Fits cs

namespace Tallies
variable {x : Except QuotaError Checkpoint} {cp : Checkpoint} {c : Contribution} {cs cs' : List Contribution}

theorem of_represents (h : Represents cp cs) : Tallies (.ok cp) cs := .inl ⟨cp, rfl, h⟩

theorem perm (h : Tallies x cs) (hp : cs.Perm cs') : Tallies x cs' := by
  rcases h with ⟨cp, hx, hr⟩ | ⟨hx, hfit⟩
  · exact .inl ⟨cp, hx, hr.perm hp⟩
  · exact .inr ⟨hx, fun hfit' => hfit (hfit'.perm hp.symm)⟩

theorem change (h : Represents cp cs) (hn : cs.length < u64Max) : Tallies (cp.change c true) (c :: cs) := by
  have ha := h.amount_eq
  have hr := h.risk_eq
  by_cases hfit : Fits (c :: cs)
  · obtain ⟨hfa, hfr⟩ := hfit
    simp only [map_cons, sum_cons] at hfa hfr
    obtain ⟨states, hs⟩ := counter_add_ok c.state (by rw [h.states.total_eq, length_map]; exact hn)
    have hv : ∃ revisions, optionalCounter cp.revisions c.revision true = .ok revisions := by
      cases hrev : c.revision with
      | none => exact ⟨_, rfl⟩
      | some revision =>
        have hlen := length_filterMap_le Contribution.revision cs
        exact counter_add_ok revision (by rw [h.revisions.total_eq]; omega)
    obtain ⟨revisions, hv⟩ := hv
    have hok : cp.change c true = .ok ⟨cp.amount + c.amount, cp.risk + c.risk, states, revisions,
        max cp.watermark c.watermark⟩ := by
      simp only [Checkpoint.change, Checkpoint.number, if_true, bind_eq_ok, context_eq_ok,
        checkedAdd_eq_some, pure_eq_ok]
      exact ⟨_, ⟨by omega, rfl⟩, _, ⟨by omega, rfl⟩, _, hs, _, hv, rfl⟩
    exact .inl ⟨_, hok, h.change_add hok⟩
  · refine .inr ⟨?_, hfit⟩
    simp only [Fits, map_cons, sum_cons] at hfit
    simp only [Checkpoint.change, Checkpoint.number, if_true, bind_eq_error, context_eq_error,
      context_eq_ok, checkedAdd_eq_some]
    by_cases hfa : cp.amount + c.amount ≤ i128Max
    · have hfr : ¬cp.risk + c.risk ≤ i128Max := by omega
      exact .inr ⟨_, ⟨hfa, rfl⟩, .inl ⟨by simp [checkedAdd, hfr], trivial⟩⟩
    · exact .inl ⟨by simp [checkedAdd, hfa], trivial⟩

theorem merge {other : Checkpoint} (h : Represents cp cs) (ho : Represents other cs')
    (hn : cs.length + cs'.length ≤ u64Max) : Tallies (cp.merge other) (cs ++ cs') := by
  have ha := h.amount_eq
  have hr := h.risk_eq
  have hoa := ho.amount_eq
  have hor := ho.risk_eq
  by_cases hfit : Fits (cs ++ cs')
  · obtain ⟨hfa, hfr⟩ := hfit
    simp only [map_append, sum_append] at hfa hfr
    obtain ⟨states, hs⟩ := mergeCounters_ok cp.states other.states
      (by rw [h.states.total_eq, ho.states.total_eq, length_map, length_map]; exact hn)
    have hlen := length_filterMap_le Contribution.revision cs
    have hlen' := length_filterMap_le Contribution.revision cs'
    obtain ⟨revisions, hv⟩ := mergeCounters_ok cp.revisions other.revisions
      (by rw [h.revisions.total_eq, ho.revisions.total_eq]; omega)
    have hok : cp.merge other = .ok ⟨cp.amount + other.amount, cp.risk + other.risk, states,
        revisions, max cp.watermark other.watermark⟩ := by
      simp only [Checkpoint.merge, bind_eq_ok, context_eq_ok, checkedAdd_eq_some, pure_eq_ok]
      exact ⟨_, ⟨by omega, rfl⟩, _, ⟨by omega, rfl⟩, _, hs, _, hv, rfl⟩
    exact .inl ⟨_, hok, h.merge ho hok⟩
  · refine .inr ⟨?_, hfit⟩
    simp only [Fits, map_append, sum_append] at hfit
    simp only [Checkpoint.merge, bind_eq_error, context_eq_error, context_eq_ok, checkedAdd_eq_some]
    by_cases hfa : cp.amount + other.amount ≤ i128Max
    · have hfr : ¬cp.risk + other.risk ≤ i128Max := by omega
      exact .inr ⟨_, ⟨hfa, rfl⟩, .inl ⟨by simp [checkedAdd, hfr], trivial⟩⟩
    · exact .inl ⟨by simp [checkedAdd, hfa], trivial⟩

theorem foldlM {ι : Type} {f : Checkpoint → ι → Except QuotaError Checkpoint}
    {g : ι → List Contribution} (bound : ℕ) (xs : List ι)
    (hf : ∀ cp cs, ∀ i ∈ xs, Represents cp cs → cs.length + (g i).length ≤ bound → Tallies (f cp i) (cs ++ g i))
    (h : Represents cp cs) (hn : cs.length + (xs.flatMap g).length ≤ bound) :
    Tallies (xs.foldlM f cp) (cs ++ xs.flatMap g) := by
  induction xs generalizing cp cs with
  | nil =>
    rw [flatMap_nil, append_nil]
    exact of_represents h
  | cons i xs ih =>
    rw [flatMap_cons] at hn ⊢
    rw [length_append] at hn
    rw [foldlM_cons, ← append_assoc]
    rcases hf cp cs i (by simp) h (by omega) with ⟨cp', hi, hr⟩ | ⟨hi, hfit⟩
    · rw [hi]
      exact ih (fun cp cs j hj => hf cp cs j (by simp [hj])) hr (by rw [length_append]; omega)
    · rw [hi]
      exact .inr ⟨rfl, fun hfit' => hfit hfit'.of_append⟩

end Tallies

end CcSwitchServer.ValueQuota
