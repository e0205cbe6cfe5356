import CcSwitchServer.Usage.Rollups

/-! # Quota roll-ups against the last version of every request

The roll-ups are meant to answer for every request with its last pushed version.
-/

namespace CcSwitchServer.Usage
open Foundations UsageLog Table UsageStore List List.Perm Text UsageRollupBucket

/-! ## Stores and last versions -/

def lastVersions (pushes : List UsageLog) : Table UsageLog String requestId := run upsert .empty pushes

def pushed (nowMs : ℕ) (pushes : List UsageLog) : UsageStore := run (push nowMs) {} pushes

/-- The roll-ups mirror the last versions, and the logs are the recent ones of these. -/
structure Agrees (nowMs : ℕ) (store : UsageStore) (versions : Table UsageLog String requestId) :
    Prop where
  separate : Separate versions.rows
  mirrors : Mirrors store.rollups versions.rows
  kept : ∃ gone, versions.rows.Perm (store.logs ++ gone) ∧ ∀ log ∈ gone, log.createdAtMs < cutoff nowMs

/-- A push that finds what it replaces: an earlier version of the request that counts is still in the
store, and no other request shares the key of its bucket without sharing the bucket. -/
def Timely (store : UsageStore) (versions : Table UsageLog String requestId) (log : UsageLog) : Prop :=
  ∀ other ∈ versions.rows,
    (other.requestId = log.requestId → isShareUserQuotaRecord other → other ∈ store.logs) ∧
      (other.requestId ≠ log.requestId → SameBucket log other)

theorem replaceIn_perm {logs : List UsageLog} {log previous : UsageLog} (hids : (logs.map requestId).Nodup)
    (h : logs.find? (fun existing => existing.requestId = log.requestId) = some previous) :
    (replaceIn logs log).Perm (log :: logs.filter fun other => other.requestId ≠ log.requestId) := by
  induction logs with
  | nil => cases h
  | cons first logs ih =>
    rw [map_cons, nodup_cons] at hids
    by_cases hid : first.requestId = log.requestId
    · have hrest : logs.filter (fun other => other.requestId ≠ log.requestId) = logs := by
        rw [filter_eq_self]
        intro other hother
        have hne : other.requestId ≠ first.requestId :=
          fun heq => hids.1 (heq ▸ mem_map_of_mem hother)
        simpa [hid] using hne
      rw [filter_cons_of_neg (by simpa using hid), hrest]
      simp [replaceIn, findIdx_cons, hid]
    · rw [find?_cons_of_neg (by simpa using hid)] at h
      have hset : replaceIn (first :: logs) log = first :: replaceIn logs log := by
        simp [replaceIn, findIdx_cons, hid]
      rw [hset, filter_cons_of_pos (by simpa using hid)]
      exact ((ih hids.2 h).cons first).trans (swap _ _ _)

section
variable {nowMs : ℕ} {store : UsageStore} {versions : Table UsageLog String requestId} {log : UsageLog}

variable (h : Agrees nowMs store versions)
include h

theorem Agrees.mem_versions {other : UsageLog}
    (hother : other ∈ store.logs) : other ∈ versions.rows := by
  obtain ⟨gone, hperm, _⟩ := h.kept
  exact hperm.mem_iff.mpr (mem_append_left _ hother)

theorem Agrees.nodup_logs : (store.logs.map requestId).Nodup := by
  obtain ⟨gone, hperm, _⟩ := h.kept
  have hall := (hperm.map requestId).nodup_iff.mp versions.nodup
  rw [map_append] at hall
  exact hall.of_append_left

theorem Agrees.separate_others (id : String) :
    Separate (versions.others id) := fun a ha b hb =>
  h.separate a (mem_others.mp ha).1 b (mem_others.mp hb).1

theorem Agrees.others_perm (id : String) : ∃ gone,
    (versions.others id).Perm ((store.logs.filter fun other => other.requestId ≠ id) ++ gone) ∧
      ∀ log ∈ gone, log.createdAtMs < cutoff nowMs := by
  obtain ⟨gone, hperm, hold⟩ := h.kept
  refine ⟨gone.filter fun other => other.requestId ≠ id, ?_, fun log hlog =>
    hold log (mem_of_mem_filter hlog)⟩
  rw [← filter_append]
  exact hperm.filter _

/-- A push whose earlier version was trimmed would count the request twice. -/
theorem Agrees.mirrors_push (htimely : Timely store versions log)
    (htokens : ((versions.upsert log).rows.map quotaTokens).sum ≤ u64Max)
    (hcount : (versions.upsert log).rows.length ≤ u64Max) :
    Mirrors (store.push nowMs log).rollups (log :: versions.others log.requestId) := by
  have hsame : ∀ other ∈ versions.others log.requestId, SameBucket log other := by
    intro other hother
    obtain ⟨hmem, hid⟩ := mem_others.mp hother
    exact (htimely other hmem).2 hid
  have hrows : (versions.upsert log).rows.Perm (log :: versions.others log.requestId) := by
    rw [upsert_rows]
    exact perm_append_singleton _ _
  rw [(hrows.map _).sum_eq] at htokens
  rw [hrows.length_eq] at hcount
  unfold push
  cases hfind : store.logs.find? fun existing => existing.requestId = log.requestId with
  | some previous =>
    have hid : previous.requestId = log.requestId := by simpa using find?_some hfind
    have hprevious := h.mem_versions (mem_of_find?_eq_some hfind)
    have hperm := rows_perm (find?_eq_some.mpr ⟨hprevious, hid⟩)
    refine Mirrors.addLog (Mirrors.removeLog (h.mirrors.perm h.separate hperm) ?_) hsame htokens hcount
    intro other hother
    exact h.separate previous hprevious other (mem_others.mp hother).1
  | none =>
    refine Mirrors.addLog ?_ hsame htokens hcount
    cases hversion : versions.find? log.requestId with
    | none =>
      rw [others_of_none hversion]
      exact h.mirrors
    | some previous =>
      obtain ⟨hprevious, hid⟩ := find?_eq_some.mp hversion
      refine (h.mirrors.perm h.separate (rows_perm hversion)).skip ?_
      intro hquota
      have hin := (htimely previous hprevious).1 hid hquota
      have hnone := find?_eq_none.mp hfind previous hin
      exact hnone (by simpa using hid)

theorem Agrees.kept_push : ∃ gone,
    (versions.upsert log).rows.Perm ((store.push nowMs log).logs ++ gone) ∧
      ∀ log ∈ gone, log.createdAtMs < cutoff nowMs := by
  obtain ⟨gone, hperm, hold⟩ := h.others_perm log.requestId
  rw [upsert_rows]
  unfold push
  cases hfind : store.logs.find? fun existing => existing.requestId = log.requestId with
  | some previous =>
    refine ⟨gone, ?_, hold⟩
    have hreplaced := (replaceIn_perm h.nodup_logs hfind).append_right gone
    exact ((perm_append_singleton _ _).trans (hperm.cons log)).trans hreplaced.symm
  | none =>
    have hsame : store.logs.filter (fun other => other.requestId ≠ log.requestId) = store.logs := by
      rw [filter_eq_self]
      intro other hother
      simpa using find?_eq_none.mp hfind other hother
    rw [hsame] at hperm
    set recent : UsageLog → Bool := fun log => cutoff nowMs ≤ log.createdAtMs with hrecent
    refine ⟨(store.logs ++ [log]).filter (fun log => !recent log) ++ gone, ?_, ?_⟩
    · have hsplit := (filter_append_perm recent (store.logs ++ [log])).append_right gone
      rw [append_assoc] at hsplit
      refine ((hperm.append_right [log]).trans ?_).trans hsplit.symm
      rw [append_assoc, append_assoc]
      exact (perm_append_comm).append_left store.logs
    · intro other hother
      cases mem_append.mp hother with
      | inl hin => simpa [hrecent] using (mem_filter.mp hin).2
      | inr hin => exact hold other hin

theorem Agrees.push (htimely : Timely store versions log)
    (htokens : ((versions.upsert log).rows.map quotaTokens).sum ≤ u64Max)
    (hcount : (versions.upsert log).rows.length ≤ u64Max) :
    Agrees nowMs (store.push nowMs log) (versions.upsert log) := by
  have hrows : (log :: versions.others log.requestId).Perm (versions.upsert log).rows := by
    rw [upsert_rows]
    exact (perm_append_singleton _ _).symm
  have hseparate : Separate (log :: versions.others log.requestId) := by
    refine (h.separate_others log.requestId).cons fun other hother => ?_
    obtain ⟨hmem, hid⟩ := mem_others.mp hother
    exact (htimely other hmem).2 hid
  refine ⟨?_, (h.mirrors_push htimely htokens hcount).perm hseparate hrows, h.kept_push⟩
  intro a ha b hb
  exact hseparate a (hrows.mem_iff.mpr ha) b (hrows.mem_iff.mpr hb)

end

/-! ## Runs of pushes -/

theorem pushed_append_singleton (nowMs : ℕ) (pushes : List UsageLog) (log : UsageLog) :
    pushed nowMs (pushes ++ [log]) = (pushed nowMs pushes).push nowMs log :=
  run_append_singleton _ _ _ _

theorem lastVersions_append_singleton (pushes : List UsageLog) (log : UsageLog) :
    lastVersions (pushes ++ [log]) = (lastVersions pushes).upsert log :=
  run_append_singleton _ _ _ _

variable {log : UsageLog} {logs logs' : List UsageLog}

theorem mem_pushes_of_version {pushes : List UsageLog} (h : log ∈ (lastVersions pushes).rows) : log ∈ pushes := by
  induction pushes using reverseRecOn with
  | nil => exact h
  | append_singleton pushes last ih =>
    rw [lastVersions_append_singleton, upsert_rows] at h
    cases mem_append.mp h with
    | inl hin => exact mem_append_left _ (ih (mem_others.mp hin).1)
    | inr hin => exact mem_append_right _ hin

theorem length_lastVersions_le (pushes : List UsageLog) : (lastVersions pushes).rows.length ≤ pushes.length := by
  induction pushes using reverseRecOn with
  | nil => exact Nat.le_refl 0
  | append_singleton pushes last ih =>
    have hothers : ((lastVersions pushes).others last.requestId).length ≤
        (lastVersions pushes).rows.length := length_filter_le _ _
    rw [lastVersions_append_singleton, upsert_rows, length_append, length_append]
    exact Nat.add_le_add_right (hothers.trans ih) _

theorem agrees_of_pushes {nowMs : ℕ} {pushes : List UsageLog}
    (hsums : ∀ before, before <+: pushes → ((lastVersions before).rows.map quotaTokens).sum ≤ u64Max)
    (hcount : pushes.length ≤ u64Max) (htimely : ∀ before log after, pushes = before ++ log :: after →
      Timely (pushed nowMs before) (lastVersions before) log) :
    Agrees nowMs (pushed nowMs pushes) (lastVersions pushes) := by
  induction pushes using reverseRecOn with
  | nil =>
    refine ⟨?_, ?_, [], nil, ?_⟩
    · intro log hlog
      exact absurd hlog not_mem_nil
    · intro key
      rfl
    · intro log hlog
      exact absurd hlog not_mem_nil
  | append_singleton pushes log ih =>
    have hagrees := ih (fun before hbefore => hsums before (hbefore.trans ⟨[log], rfl⟩))
      (by rw [length_append] at hcount; omega)
      (fun before earlier after hsplit => htimely before earlier (after ++ [log])
        (by rw [hsplit, append_assoc, cons_append]))
    have hsum := hsums _ (prefix_refl _)
    have hlen := (length_lastVersions_le _).trans hcount
    rw [lastVersions_append_singleton] at hsum hlen ⊢
    rw [pushed_append_singleton]
    exact hagrees.push (htimely pushes log [] rfl) hsum hlen

/-! ## Windows -/

def recordsIn (logs : List UsageLog) (shareId userEmail : String) (startsAtMs endsAtMs : ℕ) : List UsageLog :=
  logs.filter fun log =>
    (startsAtMs ≤ log.createdAtMs ∧ log.createdAtMs < endsAtMs) ∧ quotaLogMatches log shareId userEmail

def usageOf (records : List UsageLog) : ℕ × ℕ := ((records.map quotaTokens).sum, (records.map requestsOf).sum)

theorem isShareUserQuotaRecord_iff : isShareUserQuotaRecord log = true ↔
    log.isHealthCheck = false ∧ log.recordKind ≠ .healthProbe ∧
      (∃ share, log.shareId = some share ∧ share ≠ "") ∧
      ∃ email, log.userEmail = some email ∧ email ≠ "" := by
  unfold isShareUserQuotaRecord
  cases log.shareId with
  | none => simp
  | some share =>
    cases log.userEmail with
    | none => simp
    | some email => simp [and_assoc]

theorem lower_trim_contextUserEmail {raw : Option String} {email : String}
    (h : contextUserEmail raw = some email) : asciiLower (trim email) = email := by
  unfold contextUserEmail at h
  obtain ⟨hmap, _⟩ := Option.filter_eq_some_iff.mp h
  obtain ⟨e, _, rfl⟩ := Option.map_eq_some_iff.mp hmap
  exact lower_trim_lower_trim e

theorem bucket_in_window {shareId userEmail : String} {first after : ℕ}
    (hemail : ∃ raw, log.userEmail = contextUserEmail raw) (hfirst : first % usageRollupBucketMs = 0)
    (hafter : after % usageRollupBucketMs = 0) :
    (isShareUserQuotaRecord log && decide (first ≤ (new log).bucketStartMs ∧ (new log).bucketStartMs < after ∧
        (new log).shareId = shareId ∧ eqIgnoreAsciiCase (new log).userEmail userEmail)) =
      decide ((first ≤ log.createdAtMs ∧ log.createdAtMs < after) ∧ quotaLogMatches log shareId userEmail) := by
  by_cases hquota : isShareUserQuotaRecord log = true
  · obtain ⟨_, _, ⟨share, hshare, _⟩, email, huser, _⟩ := isShareUserQuotaRecord_iff.mp hquota
    obtain ⟨raw, hraw⟩ := hemail
    have hlower := lower_trim_contextUserEmail (hraw.symm.trans huser)
    have hstart : first ≤ bucketStart log ↔ first ≤ log.createdAtMs := by
      unfold bucketStart usageRollupBucketMs at *
      omega
    have hstop : bucketStart log < after ↔ log.createdAtMs < after := by
      unfold bucketStart usageRollupBucketMs at *
      omega
    unfold new quotaLogMatches
    rw [Bool.eq_iff_iff]
    simp [hquota, hshare, huser, hlower, hstart, hstop, and_assoc]
  · unfold quotaLogMatches
    rw [Bool.eq_iff_iff]
    simp [hquota]

/-- The sums over these logs are far from the end of `u64`. -/
def Fits (logs : List UsageLog) : Prop := (logs.map quotaTokens).sum ≤ u64Max ∧ logs.length ≤ u64Max

theorem Fits.sublist (h : Fits logs) (hsub : logs'.Sublist logs) : Fits logs' :=
  ⟨((hsub.map quotaTokens).sum_le_sum (by simp)).trans h.1, hsub.length_le.trans h.2⟩

theorem Fits.perm (h : Fits logs) (hperm : logs.Perm logs') : Fits logs' := by
  unfold Fits at h ⊢
  rwa [← (hperm.map _).sum_eq, ← hperm.length_eq]

theorem Fits.usage_le (h : Fits logs) : (usageOf logs).1 ≤ u64Max ∧ (usageOf logs).2 ≤ u64Max :=
  ⟨h.1, (requests_le_length logs).trans h.2⟩

theorem Fits.totals (h : Fits logs) : saturatingTotals quotaTokens requestsOf logs = usageOf logs :=
  saturatingTotals_eq _ _ h.usage_le.1 h.usage_le.2

theorem usageOf_perm (h : logs.Perm logs') : usageOf logs = usageOf logs' := by
  unfold usageOf
  rw [(h.map _).sum_eq, (h.map requestsOf).sum_eq]

theorem usageOf_append (logs logs' : List UsageLog) : usageOf (logs ++ logs') =
    ((usageOf logs).1 + (usageOf logs').1, (usageOf logs).2 + (usageOf logs').2) := by
  simp [usageOf]

theorem quotaUsageFromLogs_eq (h : Fits logs) (shareId userEmail : String) (startsAtMs endsAtMs : ℕ) :
    quotaUsageFromLogs logs shareId userEmail startsAtMs endsAtMs =
      usageOf (recordsIn logs shareId userEmail startsAtMs endsAtMs) := by
  have hrecords : (logs.filter fun log => startsAtMs ≤ log.createdAtMs ∧
      log.createdAtMs < endsAtMs).filter (fun log => quotaLogMatches log shareId userEmail) =
        recordsIn logs shareId userEmail startsAtMs endsAtMs := by
    rw [filter_filter, recordsIn]
    apply filter_congr
    intro log _
    simp [Bool.decide_and, Bool.and_comm]
  have hfits : Fits (recordsIn logs shareId userEmail startsAtMs endsAtMs) := h.sublist filter_sublist
  unfold quotaUsageFromLogs
  rw [hrecords, hfits.totals]

theorem recordsIn_empty (logs : List UsageLog) (shareId userEmail : String) {startsAtMs endsAtMs : ℕ}
    (h : endsAtMs ≤ startsAtMs) : recordsIn logs shareId userEmail startsAtMs endsAtMs = [] := by
  rw [recordsIn, filter_eq_nil_iff]
  intro log _
  simp only [decide_eq_true_eq]
  omega

theorem recordsIn_split (logs : List UsageLog) (shareId userEmail : String) {starts first after ends : ℕ}
    (hfirst : starts ≤ first) (horder : first ≤ after) (hafter : after ≤ ends) :
    (recordsIn logs shareId userEmail starts ends).Perm (recordsIn logs shareId userEmail first after ++
        (logs.filter fun log => (starts ≤ log.createdAtMs ∧ log.createdAtMs < first) ∨
          (after ≤ log.createdAtMs ∧ log.createdAtMs < ends)).filter
            fun log => quotaLogMatches log shareId userEmail) := by
  refine (filter_append_perm (fun log => decide (first ≤ log.createdAtMs ∧
    log.createdAtMs < after)) _).symm.trans (of_eq ?_)
  unfold recordsIn
  rw [filter_filter, filter_filter, filter_filter]
  congr 1
  · apply filter_congr
    intro log _
    rw [Bool.eq_iff_iff]
    simp only [Bool.and_eq_true, decide_eq_true_eq]
    constructor
    · intro h
      exact ⟨h.1, h.2.2⟩
    · intro h
      exact ⟨h.1, by omega, h.2⟩
  · apply filter_congr
    intro log _
    rw [Bool.eq_iff_iff]
    simp only [Bool.and_eq_true, Bool.not_eq_true', decide_eq_true_eq, decide_eq_false_iff_not]
    constructor
    · intro h
      exact ⟨h.2.2, by omega⟩
    · intro h
      exact ⟨by omega, by omega, h.1⟩

/-! ## The answer of the store -/

section
variable {nowMs : ℕ} {store : UsageStore} {versions : Table UsageLog String requestId}

theorem Agrees.fits_logs (h : Agrees nowMs store versions) (hfits : Fits versions.rows) : Fits store.logs := by
  obtain ⟨gone, hperm, _⟩ := h.kept
  exact (hfits.perm hperm).sublist (sublist_append_left _ _)

theorem Agrees.recordsIn_recent (h : Agrees nowMs store versions) (shareId userEmail : String)
    {startsAtMs : ℕ} (endsAtMs : ℕ) (hrecent : cutoff nowMs ≤ startsAtMs) :
    (recordsIn versions.rows shareId userEmail startsAtMs endsAtMs).Perm
      (recordsIn store.logs shareId userEmail startsAtMs endsAtMs) := by
  obtain ⟨gone, hperm, hold⟩ := h.kept
  have hnone : recordsIn gone shareId userEmail startsAtMs endsAtMs = [] := by
    rw [recordsIn, filter_eq_nil_iff]
    intro log hlog
    have hlt := hold log hlog
    simp only [decide_eq_true_eq]
    omega
  have hfilter : (recordsIn versions.rows shareId userEmail startsAtMs endsAtMs).Perm
      (recordsIn (store.logs ++ gone) shareId userEmail startsAtMs endsAtMs) := hperm.filter _
  have hsplit : recordsIn (store.logs ++ gone) shareId userEmail startsAtMs endsAtMs =
      recordsIn store.logs shareId userEmail startsAtMs endsAtMs ++
        recordsIn gone shareId userEmail startsAtMs endsAtMs := filter_append _ _
  rwa [hsplit, hnone, append_nil] at hfilter

variable {first after : ℕ}

theorem Agrees.rolledUp (h : Agrees nowMs store versions) (hfits : Fits versions.rows)
    (hemails : ∀ log ∈ versions.rows, ∃ raw, log.userEmail = contextUserEmail raw) (shareId userEmail : String)
    (hfirst : first % usageRollupBucketMs = 0) (hafter : after % usageRollupBucketMs = 0) :
    saturatingTotals (fun b => b.stats.quotaTokens) (fun b => b.stats.requestCount)
        (store.rollups.buckets.values.filter fun b =>
          first ≤ b.bucketStartMs ∧ b.bucketStartMs < after ∧ b.shareId = shareId ∧
            eqIgnoreAsciiCase b.userEmail userEmail) =
      usageOf (recordsIn versions.rows shareId userEmail first after) := by
  have hrecords : (versions.rows.filter fun log => isShareUserQuotaRecord log &&
      decide (first ≤ (new log).bucketStartMs ∧ (new log).bucketStartMs < after ∧ (new log).shareId = shareId ∧
        eqIgnoreAsciiCase (new log).userEmail userEmail)) =
      recordsIn versions.rows shareId userEmail first after :=
    filter_congr fun log hlog => bucket_in_window (hemails log hlog) hfirst hafter
  have hsum := fun total f htotal => h.mirrors.sum_values h.separate
    (fun b => decide (first ≤ b.bucketStartMs ∧ b.bucketStartMs < after ∧ b.shareId = shareId ∧
      eqIgnoreAsciiCase b.userEmail userEmail)) (fun _ _ => rfl) total f htotal
  have htokens := hsum (fun stats => stats.quotaTokens) quotaTokens fun _ => rfl
  have hrequests := hsum (fun stats => stats.requestCount) requestsOf fun _ => rfl
  rw [hrecords] at htokens hrequests
  have hbound : Fits (recordsIn versions.rows shareId userEmail first after) := hfits.sublist filter_sublist
  rw [saturatingTotals_eq _ _ (htokens.trans_le hbound.usage_le.1)
    (hrequests.trans_le hbound.usage_le.2), htokens, hrequests]
  rfl

theorem Agrees.fits_answer (h : Agrees nowMs store versions) (hfits : Fits versions.rows)
    (shareId userEmail : String) {starts ends : ℕ} (hfirst : starts ≤ first) (horder : first ≤ after)
    (hafter : after ≤ ends) :
    Fits (recordsIn versions.rows shareId userEmail first after ++
      (store.logs.filter fun log => (starts ≤ log.createdAtMs ∧ log.createdAtMs < first) ∨
        (after ≤ log.createdAtMs ∧ log.createdAtMs < ends)).filter
          fun log => quotaLogMatches log shareId userEmail) := by
  obtain ⟨gone, hperm, _⟩ := h.kept
  have hwindow : Fits (recordsIn versions.rows shareId userEmail starts ends) := hfits.sublist filter_sublist
  have hparts := hwindow.perm (recordsIn_split versions.rows shareId userEmail hfirst horder hafter)
  have hedges := ((hperm.filter fun log => (starts ≤ log.createdAtMs ∧ log.createdAtMs < first) ∨
    (after ≤ log.createdAtMs ∧ log.createdAtMs < ends)).filter fun log => quotaLogMatches log shareId userEmail)
  rw [filter_append, filter_append] at hedges
  exact (hparts.perm (hedges.append_left _)).sublist ((sublist_append_left _ _).append_left _)

theorem ceilToUsageBucket_spec {value : ℕ} (h : (value : ℤ) ≤ i64Max) :
    value ≤ ceilToUsageBucket value ∧ ceilToUsageBucket value % usageRollupBucketMs = 0 := by
  unfold ceilToUsageBucket usageRollupBucketMs u128Max i64Max at *
  split <;> omega

/-- The usage of a window is that of the last versions. -/
theorem Agrees.usage_eq (h : Agrees nowMs store versions) (hfits : Fits versions.rows)
    (hemails : ∀ log ∈ versions.rows, ∃ raw, log.userEmail = contextUserEmail raw) (shareId userEmail : String)
    {starts ends : ℕ} (hends : (ends : ℤ) ≤ i64Max) (hfirst : first = ceilToUsageBucket starts)
    (hafter : after = ends - ends % usageRollupBucketMs) (hfull : first < after) :
    shareUserQuotaUsage store shareId userEmail starts ends =
      usageOf (recordsIn versions.rows shareId (trim userEmail) first after ++
        (store.logs.filter fun log => (starts ≤ log.createdAtMs ∧ log.createdAtMs < first) ∨
          (after ≤ log.createdAtMs ∧ log.createdAtMs < ends)).filter
            fun log => quotaLogMatches log shareId (trim userEmail)) := by
  have horder : after ≤ ends := by omega
  have hstarts : starts ≤ first := by
    unfold ceilToUsageBucket u128Max at hfirst
    unfold i64Max at hends
    split at hfirst <;> omega
  have hceil := @ceilToUsageBucket_spec starts (by omega)
  have haligned : after % usageRollupBucketMs = 0 := by
    unfold usageRollupBucketMs at *
    omega
  have hrolled := h.rolledUp hfits hemails shareId (trim userEmail) (hfirst ▸ hceil.2) haligned
  have hedge : Fits ((store.logs.filter fun log =>
      (starts ≤ log.createdAtMs ∧ log.createdAtMs < first) ∨ (after ≤ log.createdAtMs ∧ log.createdAtMs < ends)).filter
          fun log => quotaLogMatches log shareId (trim userEmail)) :=
    (h.fits_logs hfits).sublist (filter_sublist.trans filter_sublist)
  unfold shareUserQuotaUsage
  rw [if_neg (by omega)]
  dsimp only [Int.toNat_natCast]
  rw [if_neg (by omega), ← hfirst, ← hafter, if_neg (by omega), hrolled, hedge.totals]
  have hall := (h.fits_answer hfits shareId (trim userEmail) hstarts hfull.le horder).usage_le
  rw [usageOf_append] at hall ⊢
  rw [saturatingAddU64_eq hall.1, saturatingAddU64_eq hall.2]

end

theorem shareUserQuotaUsage_empty (store : UsageStore) (shareId userEmail : String) {starts ends : ℤ}
    (h : ends ≤ starts) : shareUserQuotaUsage store shareId userEmail starts ends = (0, 0) := by
  unfold shareUserQuotaUsage
  by_cases hneg : starts < 0 ∨ ends < 0
  · rw [if_pos hneg]
  · rw [if_neg hneg]
    dsimp only
    rw [if_pos (by omega)]

/-- Of every run of timely pushes: a window in the days that are kept in detail is answered with the
sum over the kept logs, and a window of whole minutes of any age with the sum over the last version of
every request. -/
theorem quota_usage_of_timely_pushes (nowMs : ℕ) (pushes : List UsageLog)
    (hemails : ∀ log ∈ pushes, ∃ raw, log.userEmail = contextUserEmail raw)
    (hsums : ∀ before, before <+: pushes → ((lastVersions before).rows.map UsageLog.quotaTokens).sum ≤ u64Max)
    (hcount : pushes.length ≤ u64Max) (htimely : ∀ before log after, pushes = before ++ log :: after →
      Timely (pushed nowMs before) (lastVersions before) log) (shareId userEmail : String) :
    (∀ starts ends : ℤ, (UsageStore.cutoff nowMs : ℤ) ≤ starts → ends ≤ i64Max →
      shareUserQuotaUsage (pushed nowMs pushes) shareId userEmail starts ends =
        quotaUsageFromLogs (pushed nowMs pushes).logs shareId (Text.trim userEmail) starts.toNat ends.toNat) ∧
      ∀ starts ends : ℕ, starts % usageRollupBucketMs = 0 → ends % usageRollupBucketMs = 0 →
        (ends : ℤ) ≤ i64Max →
        shareUserQuotaUsage (pushed nowMs pushes) shareId userEmail starts ends =
          usageOf (recordsIn (lastVersions pushes).rows shareId (Text.trim userEmail) starts ends) := by
  have hagrees := agrees_of_pushes hsums hcount htimely
  have hfits : Fits (lastVersions pushes).rows :=
    ⟨hsums pushes (List.prefix_refl _), (length_lastVersions_le pushes).trans hcount⟩
  have hemails' : ∀ log ∈ (lastVersions pushes).rows, ∃ raw, log.userEmail = contextUserEmail raw :=
    fun log hlog => hemails log (mem_pushes_of_version hlog)
  have hfits' := hagrees.fits_logs hfits
  constructor
  · intro starts ends hrecent hends
    obtain ⟨starts, rfl⟩ := Int.eq_ofNat_of_zero_le ((Int.natCast_nonneg _).trans hrecent)
    rw [quotaUsageFromLogs_eq hfits', Int.toNat_natCast]
    by_cases hempty : ends ≤ starts
    · rw [shareUserQuotaUsage_empty _ _ _ hempty, recordsIn_empty _ _ _ (by omega)]
      rfl
    · obtain ⟨ends, rfl⟩ := Int.eq_ofNat_of_zero_le (a := ends) (by omega)
      rw [Int.toNat_natCast]
      by_cases hfull : ceilToUsageBucket starts < ends - ends % usageRollupBucketMs
      · have hspec := @ceilToUsageBucket_spec starts (by omega)
        rw [hagrees.usage_eq hfits hemails' shareId userEmail hends rfl rfl hfull]
        refine usageOf_perm (List.Perm.trans ?_ (recordsIn_split (pushed nowMs pushes).logs shareId
          (Text.trim userEmail) hspec.1 hfull.le (Nat.sub_le _ _)).symm)
        exact (hagrees.recordsIn_recent shareId _ _ (by omega)).append_right _
      · unfold shareUserQuotaUsage
        rw [if_neg (by omega)]
        dsimp only [Int.toNat_natCast]
        rw [if_neg (by omega), if_pos (by omega), quotaUsageFromLogs_eq hfits']
  · intro starts ends hstarts hends hrange
    by_cases hempty : ends ≤ starts
    · rw [shareUserQuotaUsage_empty _ _ _ (by omega), recordsIn_empty _ _ _ hempty]
      rfl
    · have hfirst : starts = ceilToUsageBucket starts := by
        unfold ceilToUsageBucket
        rw [if_pos hstarts]
      have hafter : ends = ends - ends % usageRollupBucketMs := by omega
      rw [hagrees.usage_eq hfits hemails' shareId userEmail hrange hfirst hafter (by omega)]
      have hnoedge : (pushed nowMs pushes).logs.filter (fun log =>
          (starts ≤ log.createdAtMs ∧ log.createdAtMs < starts) ∨
            (ends ≤ log.createdAtMs ∧ log.createdAtMs < ends)) = [] := by
        rw [List.filter_eq_nil_iff]
        intro log _
        simp only [decide_eq_true_eq]
        omega
      rw [hnoedge, List.filter_nil, List.append_nil]

def versionOf (tokens : ℕ) : UsageLog where
  requestId := "r"
  shareId := some "s"
  userEmail := some "u@example.com"
  inputTokens := some tokens

theorem quota_usage_of_replacement :
    shareUserQuotaUsage (pushed 0 [versionOf 5, versionOf 7]) "s" "u@example.com" 0 60000 =
      usageOf (recordsIn (lastVersions [versionOf 5, versionOf 7]).rows "s" (trim "u@example.com") 0 60000) := by
  refine (quota_usage_of_timely_pushes 0 [versionOf 5, versionOf 7] ?_ ?_ ?_ ?_ "s" "u@example.com").2
    0 60000 (by decide) (by decide) (by decide)
  · intro log hlog
    refine ⟨some "u@example.com", ?_⟩
    have hemail : log.userEmail = some "u@example.com" := by
      simp [versionOf] at hlog
      rcases hlog with rfl | rfl <;> rfl
    rw [hemail]
    decide
  · intro before hbefore
    have hlen : before.length ≤ 2 := hbefore.length_le
    rw [prefix_iff_eq_take.mp hbefore]
    generalize before.length = n at hlen
    interval_cases n <;> decide
  · decide
  · intro before log after hsplit
    cases before with
    | nil =>
      intro other hother
      exact absurd hother not_mem_nil
    | cons first before =>
      cases before with
      | nil =>
        simp only [cons_append, nil_append, cons.injEq] at hsplit
        obtain ⟨rfl, rfl, rfl⟩ := hsplit
        intro other hother
        have hfirst : other = versionOf 5 := mem_singleton.mp hother
        rw [hfirst]
        exact ⟨fun _ _ => by decide, fun hne => absurd rfl hne⟩
      | cons second before => simp at hsplit

/-- A version that arrives 32 days late is counted beside the one it replaces. -/
theorem late_replacement_counts_twice :
    (∀ log ∈ [versionOf 5, versionOf 7], log.userEmail = contextUserEmail (some "u@example.com")) ∧
      shareUserQuotaUsage (pushed (33 * usageDayMs) [versionOf 5, versionOf 7]) "s" "u@example.com" 0 60000 = (12, 2) ∧
      usageOf (recordsIn (lastVersions [versionOf 5, versionOf 7]).rows "s"
        (trim "u@example.com") 0 60000) = (7, 1) := by
  decide

end CcSwitchServer.Usage
