import CcSwitchServer.Foundations.Table
import CcSwitchServer.Foundations.Tally
import CcSwitchServer.Usage.Store

/-! # Roll-ups mirror the records they count

A bucket is what its records add up to.
-/

namespace CcSwitchServer.Usage
open Foundations List UsageRollupBucket OrderedMap

/-! ## Sums with saturation -/

theorem saturatingAddU64_eq {a b : ℕ} (h : a + b ≤ u64Max) : saturatingAddU64 a b = a + b := Nat.min_eq_left h

theorem saturatingTotals_eq {α : Type} (tokens requests : α → ℕ) {xs : List α}
    (htokens : (xs.map tokens).sum ≤ u64Max) (hrequests : (xs.map requests).sum ≤ u64Max) :
    saturatingTotals tokens requests xs = ((xs.map tokens).sum, (xs.map requests).sum) := by
  induction xs using reverseRecOn with
  | nil => rfl
  | append_singleton xs x ih =>
    rw [map_append, sum_append, map_singleton, sum_singleton] at htokens hrequests
    have hsums := ih (by omega) (by omega)
    unfold saturatingTotals at hsums ⊢
    rw [foldl_append, hsums, foldl_cons, foldl_nil, saturatingAddU64_eq htokens, saturatingAddU64_eq hrequests]
    simp only [map_append, sum_append, map_singleton, sum_singleton]

/-! ## What a bucket holds -/

def statsOf (records : List UsageLog) : UsageQuotaAccumulator where
  quotaTokens := (records.map UsageLog.quotaTokens).sum
  requestCount := (records.map requestsOf).sum
  recordCount := records.length

def bucketOf : List UsageLog → Option UsageRollupBucket
  | [] => none
  | log :: records => some { new log with stats := statsOf (log :: records) }

def recordsAt (logs : List UsageLog) (key : String) : List UsageLog :=
  logs.filter fun log => isShareUserQuotaRecord log ∧ usageRollupKey log = key

/-- Every bucket is that of the records under its key, and there is no other one. -/
def Mirrors (rollups : UsageRollupStore) (logs : List UsageLog) : Prop :=
  ∀ key, rollups.buckets.get? key = bucketOf (recordsAt logs key)

/-- Two quota records under one key belong to one bucket. -/
def SameBucket (log other : UsageLog) : Prop :=
  isShareUserQuotaRecord log → isShareUserQuotaRecord other →
    usageRollupKey log = usageRollupKey other →
    new log = new other

/-- Records with one key share minute, share, user and kind. -/
def Separate (logs : List UsageLog) : Prop := ∀ log ∈ logs, ∀ other ∈ logs, SameBucket log other

variable {log : UsageLog} {logs : List UsageLog} {key : String} {rollups : UsageRollupStore}

theorem SameBucket.symm {other : UsageLog} (h : SameBucket log other) : SameBucket other log :=
  fun hother hlog hkey => (h hlog hother hkey.symm).symm

theorem Separate.cons {log : UsageLog} {logs : List UsageLog} (h : Separate logs)
    (hlog : ∀ other ∈ logs, SameBucket log other) : Separate (log :: logs) := by
  intro a ha b hb
  cases mem_cons.mp ha with
  | inl hhead =>
    subst hhead
    cases mem_cons.mp hb with
    | inl hhead' =>
      subst hhead'
      exact fun _ _ _ => rfl
    | inr hin => exact hlog b hin
  | inr hin =>
    cases mem_cons.mp hb with
    | inl hhead' =>
      subst hhead'
      exact (hlog a hin).symm
    | inr hin' => exact h a hin b hin'

theorem mem_recordsAt :
    log ∈ recordsAt logs key ↔ log ∈ logs ∧ isShareUserQuotaRecord log = true ∧ usageRollupKey log = key := by
  simp [recordsAt]

theorem Separate.new_eq {other : UsageLog} (h : Separate logs) (hlog : log ∈ recordsAt logs key)
    (hother : other ∈ recordsAt logs key) : new other = new log := by
  obtain ⟨hmem, hquota, hkey⟩ := mem_recordsAt.mp hother
  obtain ⟨hmem', hquota', hkey'⟩ := mem_recordsAt.mp hlog
  exact h other hmem log hmem' hquota hquota' (hkey.trans hkey'.symm)

theorem recordsAt_cons_of_pos (logs : List UsageLog) (hlog : isShareUserQuotaRecord log = true)
    (hkey : usageRollupKey log = key) : recordsAt (log :: logs) key = log :: recordsAt logs key := by
  unfold recordsAt
  rw [filter_cons_of_pos (by simp [hlog, hkey])]

theorem recordsAt_cons_of_neg (logs : List UsageLog)
    (h : isShareUserQuotaRecord log = true → usageRollupKey log ≠ key) :
    recordsAt (log :: logs) key = recordsAt logs key := by
  unfold recordsAt
  rw [filter_cons_of_neg]
  simpa using h

theorem bucketOf_of_mem {records : List UsageLog}
    (hsame : ∀ other ∈ records, new other = new log) (hmem : records ≠ []) :
    bucketOf records = some { new log with stats := statsOf records } := by
  cases records with
  | nil => exact absurd rfl hmem
  | cons other records =>
    have hother := hsame other mem_cons_self
    show some { new other with stats := statsOf (other :: records) } = _
    rw [hother]

theorem statsOf_perm {records records' : List UsageLog} (h : records.Perm records') :
    statsOf records = statsOf records' := by
  unfold statsOf
  rw [(h.map _).sum_eq, (h.map requestsOf).sum_eq, h.length_eq]

theorem Mirrors.perm {logs' : List UsageLog} (h : Mirrors rollups logs) (hsep : Separate logs)
    (hperm : logs.Perm logs') : Mirrors rollups logs' := by
  intro key
  rw [h key]
  have hrecords : (recordsAt logs key).Perm (recordsAt logs' key) := hperm.filter _
  cases hcases : recordsAt logs key with
  | nil =>
    rw [hcases] at hrecords
    rw [List.Perm.nil_eq hrecords]
  | cons log records =>
    have hlog : log ∈ recordsAt logs key := hcases ▸ mem_cons_self
    have hsame : ∀ other ∈ recordsAt logs key, new other = new log :=
      fun other hother => hsep.new_eq hlog hother
    have hne : recordsAt logs' key ≠ [] := by
      intro hnil
      have hin := hrecords.mem_iff.mp hlog
      rw [hnil] at hin
      exact not_mem_nil hin
    rw [← hcases, bucketOf_of_mem hsame (by rw [hcases]; exact cons_ne_nil _ _),
      bucketOf_of_mem (fun other hother => hsame other (hrecords.mem_iff.mpr hother)) hne, statsOf_perm hrecords]

/-! ## Adding and taking out a log -/

theorem requests_le_length (records : List UsageLog) : (records.map requestsOf).sum ≤ records.length := by
  induction records with
  | nil => exact Nat.le_refl 0
  | cons log records ih =>
    have hone : requestsOf log ≤ 1 := by
      unfold requestsOf
      split <;> omega
    rw [map_cons, sum_cons, length_cons]
    omega

theorem statsOf_push {log : UsageLog} {records : List UsageLog}
    (htokens : ((log :: records).map UsageLog.quotaTokens).sum ≤ u64Max) (hcount : (log :: records).length ≤ u64Max) :
    (statsOf records).push log = statsOf (log :: records) := by
  rw [List.map_cons, List.sum_cons] at htokens
  rw [List.length_cons] at hcount
  have hrequests := requests_le_length records
  unfold statsOf UsageQuotaAccumulator.push
  dsimp only
  rw [saturatingAddU64_eq (by omega), saturatingAddU64_eq (a := records.length) (by omega),
    saturatingAddU64_eq (by omega)]
  simp only [List.map_cons, List.sum_cons, List.length_cons, requestsOf]
  by_cases hkind : log.recordKind = .userInference
  · simp only [if_pos hkind, Nat.add_comm]
  · simp only [if_neg hkind, Nat.add_comm, Nat.add_zero]

theorem statsOf_remove (log : UsageLog) (records : List UsageLog) :
    (statsOf (log :: records)).remove log = statsOf records := by
  unfold statsOf UsageQuotaAccumulator.remove requestsOf
  by_cases hkind : log.recordKind = .userInference
  · simp [hkind]
  · simp [hkind]

theorem sum_recordsAt_le (f : UsageLog → ℕ) (logs : List UsageLog) (key : String) :
    ((recordsAt logs key).map f).sum ≤ (logs.map f).sum :=
  (filter_sublist.map f).sum_le_sum (by simp)

/-- A further record joins its bucket. -/
theorem Mirrors.addLog (h : Mirrors rollups logs) (hsame : ∀ other ∈ logs, SameBucket log other)
    (htokens : ((log :: logs).map UsageLog.quotaTokens).sum ≤ u64Max) (hcount : (log :: logs).length ≤ u64Max) :
    Mirrors (rollups.addLog log) (log :: logs) := by
  intro key
  unfold UsageRollupStore.addLog
  by_cases hquota : isShareUserQuotaRecord log = true
  · rw [if_pos hquota]
    by_cases hkey : usageRollupKey log = key
    · subst hkey
      set records := recordsAt logs (usageRollupKey log) with hrecords
      have hnew : ∀ other ∈ records, new other = new log := by
        intro other hother
        obtain ⟨hmem, hquota', hkey⟩ := mem_recordsAt.mp hother
        exact (hsame other hmem hquota hquota' hkey.symm).symm
      have hsum : (records.map UsageLog.quotaTokens).sum ≤ _ :=
        sum_recordsAt_le UsageLog.quotaTokens logs (usageRollupKey log)
      have hlen : records.length ≤ logs.length := length_filter_le _ _
      rw [map_cons, sum_cons] at htokens
      rw [length_cons] at hcount
      have hpush := @statsOf_push log records (by rw [map_cons, sum_cons]; omega) (by rw [length_cons]; omega)
      have hbucket : (rollups.buckets.get? (usageRollupKey log)).getD (.new log) =
          { new log with stats := statsOf records } := by
        rw [h]
        by_cases hnil : records = []
        · rw [← hrecords, hnil]
          rfl
        · rw [bucketOf_of_mem hnew hnil]
          rfl
      rw [get?_insert_self, recordsAt_cons_of_pos logs hquota rfl, hbucket, hpush]
      rfl
    · dsimp only
      rw [get?_insert_of_ne _ _ hkey, h key, recordsAt_cons_of_neg logs fun _ => hkey]
  · rw [if_neg hquota, h key, recordsAt_cons_of_neg logs fun hq => absurd hq hquota]

theorem Mirrors.skip (h : Mirrors rollups (log :: logs)) (hquota : ¬isShareUserQuotaRecord log = true) :
    Mirrors rollups logs := by
  intro key
  rw [h key, recordsAt_cons_of_neg logs fun hq => absurd hq hquota]

/-- A record leaves its bucket. -/
theorem Mirrors.removeLog (h : Mirrors rollups (log :: logs)) (hsame : ∀ other ∈ logs, SameBucket log other) :
    Mirrors (rollups.removeLog log) logs := by
  unfold UsageRollupStore.removeLog
  by_cases hquota : isShareUserQuotaRecord log = true
  · rw [if_pos hquota]
    have hbucket := h (usageRollupKey log)
    rw [recordsAt_cons_of_pos logs hquota rfl, bucketOf] at hbucket
    rw [hbucket]
    dsimp only
    rw [statsOf_remove]
    set records := recordsAt logs (usageRollupKey log) with hrecords
    intro key
    by_cases hkey : usageRollupKey log = key
    · subst hkey
      rw [← hrecords]
      by_cases hnil : records = []
      · rw [if_pos (by rw [hnil]; rfl), hnil]
        rw [get?_erase, if_pos rfl]
        rfl
      · have hlen : (statsOf records).isEmpty = false := by
          simpa [UsageQuotaAccumulator.isEmpty, statsOf] using hnil
        have hnew : ∀ other ∈ records, new other = new log := by
          intro other hother
          obtain ⟨hmem, hquota', hkey⟩ := mem_recordsAt.mp hother
          exact (hsame other hmem hquota hquota' hkey.symm).symm
        rw [if_neg (by rw [hlen]; exact Bool.false_ne_true), bucketOf_of_mem hnew hnil]
        rw [get?_insert_self]
    · have hother := h key
      rw [recordsAt_cons_of_neg logs fun _ => hkey] at hother
      split
      · dsimp only
        rw [get?_erase, if_neg hkey, hother]
      · dsimp only
        rw [get?_insert_of_ne _ _ hkey, hother]
  · rw [if_neg hquota]
    exact h.skip hquota

/-! ## Sums over buckets -/

/-- A choice of buckets that does not look at their sums, and a number that the sums determine: the
total over the chosen buckets is the total over the records of these buckets. -/
theorem Mirrors.sum_values (h : Mirrors rollups logs) (hsep : Separate logs) (p : UsageRollupBucket → Bool)
    (hp : ∀ b stats, p { b with stats := stats } = p b) (total : UsageQuotaAccumulator → ℕ) (f : UsageLog → ℕ)
    (htotal : ∀ records, total (statsOf records) = (records.map f).sum) :
    ((rollups.buckets.values.filter p).map fun b => total b.stats).sum =
      ((logs.filter fun log => isShareUserQuotaRecord log && p (.new log)).map f).sum := by
  set records := logs.filter isShareUserQuotaRecord with hrecords
  have hkeys : ∀ log ∈ records, usageRollupKey log ∈ rollups.buckets.entries.map Prod.fst := by
    intro log hlog
    obtain ⟨hmem, hquota⟩ := mem_filter.mp hlog
    have hin : log ∈ recordsAt logs (usageRollupKey log) := mem_recordsAt.mpr ⟨hmem, hquota, rfl⟩
    have hget := h (usageRollupKey log)
    cases hcases : recordsAt logs (usageRollupKey log) with
    | nil =>
      rw [hcases] at hin
      exact absurd hin not_mem_nil
    | cons other rest =>
      rw [hcases, bucketOf] at hget
      exact mem_map.mpr ⟨_, mem_entries_iff.mpr hget, rfl⟩
  have hfibers := sum_fibers usageRollupKey (fun log => if p (.new log) then f log else 0)
    rollups.buckets.nodup_keys hkeys
  have hright : (records.map fun log => if p (.new log) then f log else 0).sum =
      ((logs.filter fun log => isShareUserQuotaRecord log && p (.new log)).map f).sum := by
    rw [← sum_filter_ite, hrecords, filter_filter]
    simp only [Bool.and_comm]
  rw [← hright, ← hfibers, sum_filter_ite, values, map_map, map_map]
  congr 1
  apply map_congr_left
  rintro ⟨key, bucket⟩ hentry
  have hget := mem_entries_iff.mp hentry
  rw [h key] at hget
  cases hcases : recordsAt logs key with
  | nil =>
    rw [hcases] at hget
    cases hget
  | cons log rest =>
    have hat : ∀ other ∈ recordsAt logs key, new other = new log :=
      fun other hother => hsep.new_eq (hcases ▸ mem_cons_self) hother
    rw [bucketOf_of_mem hat (by rw [hcases]; exact cons_ne_nil _ _)] at hget
    cases hget
    have hkey : records.filter (fun x => usageRollupKey x = key) = recordsAt logs key := by
      rw [hrecords, filter_filter, recordsAt]
      apply filter_congr
      intro x _
      simp [Bool.and_comm, Bool.decide_and]
    have hchosen : ((recordsAt logs key).map fun x => if p (.new x) then f x else 0) =
        (recordsAt logs key).map fun x => if p (.new log) then f x else 0 := by
      apply map_congr_left
      intro x hx
      rw [hat x hx]
    have hfiber : (records.map fun x =>
        if usageRollupKey x = key then if p (.new x) then f x else 0 else 0).sum =
          if p (.new log) then ((recordsAt logs key).map f).sum else 0 := by
      have hite := sum_filter_ite (fun x => decide (usageRollupKey x = key))
        (fun x => if p (.new x) then f x else 0) records
      simp only [decide_eq_true_eq] at hite
      rw [← hite, hkey, hchosen]
      by_cases hp' : p (.new log) = true
      · simp only [if_pos hp']
      · simp [if_neg hp']
    refine Eq.trans ?_ hfiber.symm
    dsimp only [Function.comp_apply]
    rw [hp, htotal]

end CcSwitchServer.Usage
