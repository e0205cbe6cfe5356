import CcSwitchServer.QuotaUsage.Ledger

/-! # What recording keeps

Recording keeps a ledger exact, and an exact ledger passes the check at load.
-/

namespace CcSwitchServer.QuotaUsage
open Foundations Usage OrderedMap Option List

namespace QuotaUsageLedger

/-! ## Lookups -/

section
variable {l : QuotaUsageLedger} {scope scope' : ScopeKey} {id id' : String} {versions : List QuotaUsageEntry}

theorem versionsAt_setVersions (l : QuotaUsageLedger) (scope scope' : ScopeKey) (id id' : String)
    (versions : List QuotaUsageEntry) :
    (l.setVersions scope id versions).versionsAt scope' id' =
      if scope = scope' ∧ id = id' then some versions else l.versionsAt scope' id' := by
  unfold versionsAt setVersions
  rw [get?_insert]
  by_cases hscope : scope = scope'
  · subst hscope
    rw [if_pos rfl, bind_some, get?_insert]
    by_cases hid : id = id'
    · simp [hid]
    · simp only [hid, and_false, if_false]
      cases l.entries.get? scope with
      | none => rfl
      | some records => rfl
  · simp [hscope]

theorem setVersions_self (h : l.versionsAt scope id = some versions) : l.setVersions scope id versions = l := by
  obtain ⟨records, hrecords, hversions⟩ := bind_eq_some_iff.mp h
  unfold setVersions
  dsimp only
  rw [hrecords, getD_some, insert_self hversions, insert_self hrecords]

theorem mem_of_versionsAt (h : l.versionsAt scope id = some versions) :
    ∃ records, (scope, records) ∈ l.entries.entries ∧ (id, versions) ∈ records.entries := by
  obtain ⟨records, hrecords, hversions⟩ := bind_eq_some_iff.mp h
  exact ⟨records, mem_entries_iff.mpr hrecords, mem_entries_iff.mpr hversions⟩

theorem versionsAt_of_mem {records : OrderedMap String (List QuotaUsageEntry)}
    (hrecords : (scope, records) ∈ l.entries.entries) (hversions : (id, versions) ∈ records.entries) :
    l.versionsAt scope id = some versions := by
  unfold versionsAt
  rw [mem_entries_iff.mp hrecords, bind_some, mem_entries_iff.mp hversions]

end

/-! ## The rows of a ledger -/

def rows (l : QuotaUsageLedger) : List QuotaUsageEntry :=
  l.entries.values.flatMap fun records => records.values.flatMap fun versions => versions

def identities (l : QuotaUsageLedger) : List (String × ScopeKey) :=
  l.entries.entries.flatMap fun scope => scope.2.entries.map fun record => (record.1, scope.1)

variable {l : QuotaUsageLedger}

theorem rows_setVersions {scope : ScopeKey} {id : String} (e : QuotaUsageEntry) :
    (l.setVersions scope id ((l.versionsAt scope id).getD [] ++ [e])).rows.Perm (e :: l.rows) := by
  show (l.setVersions scope id _).rows.Perm ([e] ++ l.rows)
  unfold rows setVersions
  refine flatMap_values_insert (m := l.entries) ?_
  have hrecords : ((l.entries.get? scope).map fun records =>
      records.values.flatMap fun versions => versions).getD [] =
      ((l.entries.get? scope).getD .empty).values.flatMap fun versions => versions := by
    cases l.entries.get? scope with
    | none => rfl
    | some records => rfl
  rw [hrecords]
  refine flatMap_values_insert (m := (l.entries.get? scope).getD .empty) ?_
  have hversions : (l.versionsAt scope id).getD [] =
      ((((l.entries.get? scope).getD .empty).get? id).map fun versions => versions).getD [] := by
    unfold versionsAt
    cases l.entries.get? scope with
    | none => rfl
    | some records =>
      rw [bind_some, getD_some]
      cases records.get? id with
      | none => rfl
      | some versions => rfl
  rw [← hversions]
  exact perm_append_comm

theorem mem_rows {e : QuotaUsageEntry} :
    e ∈ l.rows ↔ ∃ scope id versions, l.versionsAt scope id = some versions ∧ e ∈ versions := by
  unfold rows
  simp only [mem_flatMap, mem_values_iff]
  constructor
  · rintro ⟨records, ⟨scope, hrecords⟩, versions, ⟨id, hversions⟩, he⟩
    refine ⟨scope, id, versions, ?_, he⟩
    unfold versionsAt
    rw [hrecords, bind_some, hversions]
  · rintro ⟨scope, id, versions, h, he⟩
    obtain ⟨records, hrecords, hversions⟩ := bind_eq_some_iff.mp h
    exact ⟨records, ⟨scope, hrecords⟩, versions, ⟨id, hversions⟩, he⟩

theorem mem_identities {scope : ScopeKey} {id : String} :
    (id, scope) ∈ l.identities ↔ (l.versionsAt scope id).isSome := by
  unfold identities
  simp only [List.mem_flatMap, List.mem_map, Prod.mk.injEq]
  constructor
  · rintro ⟨⟨scope', records⟩, hrecords, ⟨id', versions⟩, hversions, rfl, rfl⟩
    rw [versionsAt_of_mem hrecords hversions]
    rfl
  · intro h
    obtain ⟨versions, hversions⟩ := Option.isSome_iff_exists.mp h
    obtain ⟨records, hrecords, hmem⟩ := mem_of_versionsAt hversions
    exact ⟨(scope, records), hrecords, (id, versions), hmem, rfl, rfl⟩

/-! ## Exact ledgers -/

/-- The revisions have all watermarks from one on, each once, and every request has its own in one scope, in
increasing order. -/
structure Exact (l : QuotaUsageLedger) : Prop where
  schema : l.schemaVersion = 1
  coverage : ∀ c ∈ l.coverageFromMs.entries, c.1 ≠ "" ∧ 0 ≤ c.2
  recovery : ∀ a ∈ l.recoveryRequired.values, AttributionFits a
  nonempty : ∀ {scope id}, l.versionsAt scope id ≠ some []
  fits : ∀ {scope id versions}, l.versionsAt scope id = some versions →
    ∀ e ∈ versions, EntryFits l.watermark scope id e
  ordered : ∀ {scope id versions}, l.versionsAt scope id = some versions → versions.IsChain Precedes
  scope_eq : ∀ {scope id versions}, l.versionsAt scope id = some versions → l.recordScopes.get? id = some scope
  recorded : ∀ {scope id}, l.recordScopes.get? id = some scope → (l.versionsAt scope id).isSome
  watermarks : (l.rows.map QuotaUsageEntry.watermark).Perm (List.range' 1 l.watermark)

theorem Exact.default : Exact .default where
  schema := rfl
  coverage := fun _ h => absurd h not_mem_nil
  recovery := fun _ h => absurd h not_mem_nil
  nonempty := fun h => absurd h (some_ne_none _).symm
  fits := fun h => absurd h (some_ne_none _).symm
  ordered := fun h => absurd h (some_ne_none _).symm
  scope_eq := fun h => absurd h (some_ne_none _).symm
  recorded := fun h => absurd h (some_ne_none _).symm
  watermarks := List.Perm.nil

/-! ## An exact ledger passes the check -/

namespace Exact
variable {l : QuotaUsageLedger}

theorem nodup_identities (h : Exact l) : (l.identities.map Prod.fst).Nodup := by
  unfold identities
  rw [List.map_flatMap, List.nodup_flatMap]
  refine ⟨fun scope _ => ?_, ?_⟩
  · rw [List.map_map]
    exact scope.2.nodup_keys
  · refine l.entries.nodup_entries.imp_of_mem fun {a b} ha hb hne => ?_
    intro id hida hidb
    simp only [List.mem_map] at hida hidb
    obtain ⟨-, ⟨ra, hra, rfl⟩, rfl⟩ := hida
    obtain ⟨-, ⟨rb, hrb, rfl⟩, heq⟩ := hidb
    have hsa : l.recordScopes.get? ra.1 = some a.1 := h.scope_eq (versionsAt_of_mem ha hra)
    have hsb : l.recordScopes.get? rb.1 = some b.1 := h.scope_eq (versionsAt_of_mem hb hrb)
    rw [heq, hsa, Option.some.injEq] at hsb
    exact hne (OrderedMap.entry_eq ha hb hsb)

theorem nodup_watermarks (h : Exact l) : (l.rows.map QuotaUsageEntry.watermark).Nodup :=
  h.watermarks.nodup_iff.mpr nodup_range'

theorem length_identities (h : Exact l) : l.identities.length = l.recordScopes.size := by
  have hperm : l.identities.Perm l.recordScopes.entries := by
    refine (perm_ext_iff_of_nodup (List.Nodup.of_map _ h.nodup_identities) l.recordScopes.nodup_entries).mpr ?_
    rintro ⟨id, scope⟩
    rw [mem_identities, mem_entries_iff]
    refine ⟨fun hsome => ?_, h.recorded⟩
    obtain ⟨versions, hversions⟩ := isSome_iff_exists.mp hsome
    exact h.scope_eq hversions
  exact hperm.length_eq

theorem validate_versions {watermark : ℕ} {scope : ScopeKey} {id : String}
    {versions : List QuotaUsageEntry} {previous : Option QuotaUsageEntry} {met : List ℕ}
    (hfits : ∀ e ∈ versions, EntryFits watermark scope id e) (hchain : (previous.toList ++ versions).IsChain Precedes)
    (hnodup : (met ++ versions.map QuotaUsageEntry.watermark).Nodup) :
    ∃ last, versions.foldlM (validateVersion watermark scope id) (previous, met) =
      .ok (last, met ++ versions.map QuotaUsageEntry.watermark) := by
  induction versions generalizing previous met with
  | nil => exact ⟨previous, by rw [List.map_nil, List.append_nil]; rfl⟩
  | cons e versions ih =>
    have hnew : e.watermark ∉ met := by
      intro hmem
      rw [List.nodup_append] at hnodup
      exact hnodup.2.2 _ hmem _ (by simp) rfl
    have hprior : ∀ prior ∈ previous, Precedes prior e := by
      intro prior hprior
      cases hprior
      exact (List.isChain_cons_cons.mp hchain).1
    have hstep : validateVersion watermark scope id (previous, met) e = .ok (some e, met ++ [e.watermark]) := by
      unfold validateVersion
      rw [ensure_of ⟨hfits e List.mem_cons_self, hnew⟩, ok_bind, ensure_of hprior]
      rfl
    have hchain' : ((some e).toList ++ versions).IsChain Precedes := by
      rw [List.isChain_append] at hchain
      exact hchain.2.1
    have hsplit : met ++ (e :: versions).map QuotaUsageEntry.watermark =
        (met ++ [e.watermark]) ++ versions.map QuotaUsageEntry.watermark := by
      rw [List.map_cons, List.append_assoc, List.singleton_append]
    rw [hsplit] at hnodup ⊢
    rw [List.foldlM_cons, hstep, ok_bind]
    exact ih (fun e' he' => hfits e' (List.mem_cons_of_mem _ he')) hchain' hnodup

theorem validate_record (h : Exact l) {scope : ScopeKey} {id : String}
    {versions : List QuotaUsageEntry} (hversions : l.versionsAt scope id = some versions)
    {met : List (String × ScopeKey) × List ℕ} (hid : ((met.1 ++ [(id, scope)]).map Prod.fst).Nodup)
    (hwatermarks : (met.2 ++ versions.map QuotaUsageEntry.watermark).Nodup) :
    validateRecord l.watermark scope met (id, versions) =
      .ok (met.1 ++ [(id, scope)], met.2 ++ versions.map QuotaUsageEntry.watermark) := by
  have hnew : id ∉ met.1.map Prod.fst := by
    intro hmem
    rw [map_append, nodup_append] at hid
    exact hid.2.2 _ hmem _ (by simp) rfl
  have hnonempty : versions ≠ [] := by
    rintro rfl
    exact h.nonempty hversions
  have hchain : ((none : Option QuotaUsageEntry).toList ++ versions).IsChain Precedes := h.ordered hversions
  obtain ⟨last, hlast⟩ := validate_versions (h.fits hversions) hchain hwatermarks
  unfold validateRecord
  rw [ensure_of hnonempty, ok_bind, ensure_of hnew, ok_bind, hlast]
  rfl

theorem validate_scopes (h : Exact l) :
    l.entries.entries.foldlM (validateScope l.watermark) ([], []) =
      .ok (l.identities, l.rows.map QuotaUsageEntry.watermark) := by
  have hrows : l.rows.map QuotaUsageEntry.watermark = l.entries.entries.flatMap fun scope =>
      scope.2.entries.flatMap fun record => record.2.map QuotaUsageEntry.watermark := by
    unfold rows values
    rw [flatMap_map, map_flatMap]
    refine flatMap_congr fun scope _ => ?_
    rw [flatMap_map, map_flatMap]
  have hids := h.nodup_identities
  have hwatermarks := h.nodup_watermarks
  rw [hrows] at hwatermarks ⊢
  refine foldlM_appends Prod.fst (fun met scope hscope hu hv => ?_) hids hwatermarks
  unfold validateScope
  rw [← flatMap_singleton' (scope.2.entries.map _), flatMap_map] at hu ⊢
  refine foldlM_appends Prod.fst (fun met record hrecord hu hv => ?_) hu hv
  exact h.validate_record (versionsAt_of_mem hscope hrecord) hu hv

theorem validateMetadata_ok (h : Exact l) : l.validateMetadata = .ok () := by
  unfold validateMetadata
  rw [ensure_of h.schema, ok_bind]
  exact ensure_of ⟨h.coverage, h.recovery⟩

theorem validate_ok (h : Exact l) : l.validate = .ok () := by
  have hcount : (l.rows.map QuotaUsageEntry.watermark).length = l.watermark := by
    rw [h.watermarks.length_eq, length_range']
  unfold validate
  rw [h.validateMetadata_ok, ok_bind, h.validate_scopes, ok_bind]
  refine ensure_of ⟨hcount, h.length_identities, ?_⟩
  rintro ⟨id, scope⟩ hmem
  obtain ⟨versions, hversions⟩ := isSome_iff_exists.mp (mem_identities.mp hmem)
  exact h.scope_eq hversions

end Exact

/-! ## What a call of `record` does -/

variable {log : UsageLog} {a : QuotaAttribution} {l : QuotaUsageLedger}

theorem metered_some {share user : String} (h : metered log = some (a, share, user)) :
    log.quotaAttribution = some a ∧ log.recordKind ≠ .healthProbe ∧ log.shareId = some share ∧
      log.userEmail = some user := by
  unfold metered at h
  simp only [bind_eq_bind, bind_eq_some_iff] at h
  obtain ⟨a', ha, h⟩ := h
  split at h
  · cases h
  · rename_i hkind
    simp only [bind_eq_some_iff] at h
    obtain ⟨share', hshare, user', huser, h⟩ := h
    cases h
    exact ⟨ha, hkind, hshare, huser⟩

theorem logScope_of_metered {share user : String} (h : metered log = some (a, share, user)) :
    logScope a log = scopeKey a.sourceRef a.sourceEpoch a.bucketId share user := by
  obtain ⟨-, -, hshare, huser⟩ := metered_some h
  unfold logScope
  rw [hshare, huser]
  rfl

/-- What has been checked of a log that is metered. -/
structure Fitting (l : QuotaUsageLedger) (log : UsageLog) (a : QuotaAttribution) : Prop where
  attribution : AttributionFits a
  scope : ∀ scope ∈ l.previousScope log.requestId, scope = logScope a log
  repeats : ∀ versions previous, l.versionsAt (logScope a log) log.requestId = some versions →
    versions.getLast? = some previous → Repeats previous a log ∧
      (previous.usageRevision = log.usageRevision → previous.tokens = log.quotaTokens)

theorem validateLog_fitting (ha : log.quotaAttribution = some a) (h : l.validateLog log = .ok ()) :
    Fitting l log a := by
  unfold validateLog at h
  rw [ha] at h
  obtain ⟨u, -, h⟩ := bind_eq_ok.mp h
  obtain ⟨u, hfits, h⟩ := bind_eq_ok.mp h
  obtain ⟨u, hscope, h⟩ := bind_eq_ok.mp h
  refine ⟨(ensure_eq_ok.mp hfits).1, ensure_eq_ok.mp hscope, fun versions previous hv hlast => ?_⟩
  rw [hv, bind_some, hlast] at h
  obtain ⟨u, hrepeats, h⟩ := bind_eq_ok.mp h
  exact ⟨ensure_eq_ok.mp hrepeats, ensure_eq_ok.mp h⟩

variable (l)

def withVersion (a : QuotaAttribution) (share user : String) (log : UsageLog) : QuotaUsageLedger :=
  let scope := scopeKey a.sourceRef a.sourceEpoch a.bucketId share user
  { l with
    recordScopes := l.recordScopes.insert log.requestId scope
    recoveryRequired := (l.noteRecovery a log).recoveryRequired
    watermark := l.watermark + 1 }.setVersions scope log.requestId
      ((l.versionsAt scope log.requestId).getD [] ++ [newEntry a share user log (l.watermark + 1)])

/-- The possible outcomes of recording a log in an exact ledger that fits in memory. -/
inductive Recorded (l : QuotaUsageLedger) (log : UsageLog) :
    Except QuotaUsageError Bool × QuotaUsageLedger → Prop
  | rejected {e : QuotaUsageError} (he : l.validateLog log = .error e) : Recorded l log (.error e, l)
  | unmetered (hok : l.validateLog log = .ok ()) (hm : metered log = none) :
      Recorded l log (.ok false, l)
  | stale {a : QuotaAttribution} {share user : String} {versions : List QuotaUsageEntry}
      {last : QuotaUsageEntry} (hok : l.validateLog log = .ok ())
      (hm : metered log = some (a, share, user)) (hfits : Fitting l log a)
      (hv : l.versionsAt (logScope a log) log.requestId = some versions)
      (hlast : versions.getLast? = some last) (hrev : log.usageRevision ≤ last.usageRevision) :
      Recorded l log (.ok false, l)
  | appended {a : QuotaAttribution} {share user : String} (hok : l.validateLog log = .ok ())
      (hm : metered log = some (a, share, user)) (hfits : Fitting l log a)
      (hrev : ∀ versions last, l.versionsAt (logScope a log) log.requestId = some versions →
        versions.getLast? = some last → last.usageRevision < log.usageRevision) :
      Recorded l log (.ok true, l.withVersion a share user log)

theorem noteRecovery_frame (a : QuotaAttribution) (log : UsageLog) :
    l.noteRecovery a log = { l with recoveryRequired := (l.noteRecovery a log).recoveryRequired } := by
  unfold noteRecovery
  split
  · rfl
  · split
    · rfl
    · rfl

theorem noteRecovery_congr (l l' : QuotaUsageLedger) (h : l'.recoveryRequired = l.recoveryRequired)
    (a : QuotaAttribution) (log : UsageLog) :
    (l'.noteRecovery a log).recoveryRequired = (l.noteRecovery a log).recoveryRequired := by
  unfold noteRecovery
  split
  · rw [h]
  · split
    · rw [h]
    · exact h

def ScopesKnown : Prop :=
  ∀ {scope id versions}, l.versionsAt scope id = some versions → l.recordScopes.get? id = some scope

variable {l}

theorem previousScope_eq (h : l.ScopesKnown) (id : String) : l.previousScope id = l.recordScopes.get? id := by
  unfold previousScope
  cases hid : l.recordScopes.get? id with
  | some scope => rfl
  | none =>
    rw [none_or, map_eq_none_iff, find?_eq_none]
    rintro ⟨scope, records⟩ hmem hsome
    obtain ⟨versions, hversions⟩ := isSome_iff_exists.mp hsome
    have hscope := h (versionsAt_of_mem hmem (mem_entries_iff.mpr hversions))
    rw [hid] at hscope
    cases hscope

/-- A log is refused, is known, or becomes the next revision. -/
theorem record_cases_of_scopes (h : l.ScopesKnown) (hroom : l.watermark < u64Max) (log : UsageLog) :
    Recorded l log (l.record log) := by
  unfold record
  cases hok : l.validateLog log with
  | error e => exact .rejected hok
  | ok u =>
    cases hm : metered log with
    | none => exact .unmetered hok hm
    | some m =>
      obtain ⟨a, share, user⟩ := m
      have hfits := validateLog_fitting (metered_some hm).1 hok
      have hscope := logScope_of_metered hm
      have hlookup : ∀ scope, ({ l with recordScopes := l.recordScopes.insert log.requestId scope } :
          QuotaUsageLedger).versionsAt scope log.requestId = l.versionsAt scope log.requestId :=
        fun _ => rfl
      unfold appendVersion
      dsimp only
      rw [← hscope, hlookup]
      split
      · rename_i hstale
        obtain ⟨last, hlast, hrev⟩ := hstale
        cases hv : l.versionsAt (logScope a log) log.requestId with
        | none =>
          rw [hv] at hlast
          cases hlast
        | some versions =>
          rw [hv, getD_some] at hlast
          rw [getD_some]
          have hsame : ({ l with
              recordScopes := l.recordScopes.insert log.requestId (logScope a log) } :
              QuotaUsageLedger) = l := by
            rw [insert_self (h hv)]
          rw [hsame, setVersions_self hv]
          exact .stale hok hm hfits hv hlast hrev
      · rename_i hfresh
        have hadd : checkedAddU64 l.watermark 1 = some (l.watermark + 1) := checkedAddU64_eq_some.mpr ⟨hroom, rfl⟩
        have hrevisions : ∀ versions last, l.versionsAt (logScope a log) log.requestId = some versions →
            versions.getLast? = some last → last.usageRevision < log.usageRevision := by
          intro versions last hv hlast
          by_contra hle
          exact hfresh ⟨last, by rw [hv, getD_some]; exact hlast, not_lt.mp hle⟩
        have hrecovery := noteRecovery_congr l (({ l with
          recordScopes := l.recordScopes.insert log.requestId (logScope a log) } :
          QuotaUsageLedger).setVersions (logScope a log) log.requestId
            ((l.versionsAt (logScope a log) log.requestId).getD [])) rfl a log
        rw [noteRecovery_frame, hrecovery]
        simp only [setVersions, hadd, get?_insert_self, getD_some, insert_insert]
        have happended := Recorded.appended hok hm hfits hrevisions
        simp only [withVersion, setVersions, ← hscope] at happended
        exact happended

theorem record_cases (h : Exact l) (hroom : l.watermark < u64Max) (log : UsageLog) : Recorded l log (l.record log) :=
  record_cases_of_scopes h.scope_eq hroom log

/-! ## Recording keeps a ledger exact -/

section
variable {l : QuotaUsageLedger} {log : UsageLog} {a : QuotaAttribution} {share user : String}

theorem versionsAt_withVersion (hm : metered log = some (a, share, user)) (scope : ScopeKey) (id : String) :
    (l.withVersion a share user log).versionsAt scope id =
      if logScope a log = scope ∧ log.requestId = id then
        some ((l.versionsAt (logScope a log) log.requestId).getD [] ++ [newEntry a share user log (l.watermark + 1)])
      else l.versionsAt scope id := by
  unfold withVersion
  rw [← logScope_of_metered hm, versionsAt_setVersions]
  rfl

variable {scope : ScopeKey}

theorem withVersion_cases (hm : metered log = some (a, share, user)) {id : String}
    {versions : List QuotaUsageEntry} (h : (l.withVersion a share user log).versionsAt scope id = some versions) :
    (scope = logScope a log ∧ id = log.requestId ∧ versions =
      (l.versionsAt (logScope a log) log.requestId).getD [] ++ [newEntry a share user log (l.watermark + 1)]) ∨
    l.versionsAt scope id = some versions ∧ ¬(logScope a log = scope ∧ log.requestId = id) := by
  rw [versionsAt_withVersion hm] at h
  split at h
  · rename_i hsame
    cases h
    exact .inl ⟨hsame.1.symm, hsame.2.symm, rfl⟩
  · rename_i hother
    exact .inr ⟨h, hother⟩

theorem newEntry_scope (hm : metered log = some (a, share, user)) (watermark : ℕ) :
    (newEntry a share user log watermark).scope = logScope a log := by
  rw [logScope_of_metered hm]
  unfold QuotaUsageEntry.scope scopeKey newEntry
  simp only [Text.asciiLower_asciiLower]

theorem mem_getD_versionsAt {id : String} {e : QuotaUsageEntry} (he : e ∈ (l.versionsAt scope id).getD []) :
    ∃ versions, l.versionsAt scope id = some versions ∧ e ∈ versions := by
  cases hv : l.versionsAt scope id with
  | none =>
    rw [hv] at he
    exact absurd he not_mem_nil
  | some versions =>
    rw [hv] at he
    exact ⟨versions, rfl, he⟩

theorem Fitting.scope_of_recorded (hfits : Fitting l log a) (h : l.recordScopes.get? log.requestId = some scope) :
    scope = logScope a log := by
  refine hfits.scope scope ?_
  unfold previousScope
  rw [h]
  rfl

theorem withVersion_ordered (h : Exact l) (hfits : Fitting l log a)
    (hrev : ∀ versions last, l.versionsAt (logScope a log) log.requestId = some versions →
      versions.getLast? = some last → last.usageRevision < log.usageRevision) :
    ((l.versionsAt (logScope a log) log.requestId).getD [] ++
      [newEntry a share user log (l.watermark + 1)]).IsChain Precedes := by
  cases hv : l.versionsAt (logScope a log) log.requestId with
  | none => exact isChain_singleton _
  | some versions =>
    rw [getD_some, isChain_append]
    refine ⟨h.ordered hv, isChain_singleton _, fun last hlast e he => ?_⟩
    rw [head?_cons, mem_def, some.injEq] at he
    subst he
    have hrepeats := (hfits.repeats versions last hv hlast).1
    have hmark := (h.fits hv last (mem_of_getLast? hlast)).2.2.1
    exact ⟨hrev versions last hv hlast, Nat.lt_succ_of_le hmark, hrepeats.1, hrepeats.2.1, hrepeats.2.2⟩

theorem noteRecovery_fits (h : Exact l) (hfits : AttributionFits a) :
    ∀ a' ∈ (l.noteRecovery a log).recoveryRequired.values, AttributionFits a' := by
  intro a' ha'
  unfold noteRecovery at ha'
  obtain ⟨k, hk⟩ := mem_values_iff.mp ha'
  split at hk
  · dsimp only at hk
    rw [get?_insert] at hk
    split at hk
    · cases hk
      exact hfits
    · exact h.recovery a' (mem_values_iff.mpr ⟨k, hk⟩)
  · split at hk
    · dsimp only at hk
      rw [get?_erase] at hk
      split at hk
      · cases hk
      · exact h.recovery a' (mem_values_iff.mpr ⟨k, hk⟩)
    · exact h.recovery a' (mem_values_iff.mpr ⟨k, hk⟩)

theorem rows_withVersion (l : QuotaUsageLedger) (a : QuotaAttribution) (share user : String)
    (log : UsageLog) : (l.withVersion a share user log).rows.Perm
      (newEntry a share user log (l.watermark + 1) :: l.rows) := by
  unfold withVersion
  exact rows_setVersions (l := { l with
    recordScopes := l.recordScopes.insert log.requestId _
    recoveryRequired := (l.noteRecovery a log).recoveryRequired
    watermark := l.watermark + 1 }) _

variable (h : Exact l)
include h

theorem withVersion_watermarks :
    ((l.withVersion a share user log).rows.map QuotaUsageEntry.watermark).Perm (List.range' 1 (l.watermark + 1)) := by
  have hmarks := (rows_withVersion l a share user log).map QuotaUsageEntry.watermark
  rw [List.map_cons] at hmarks
  rw [List.range'_concat, Nat.one_mul, Nat.add_comm 1]
  exact hmarks.trans ((h.watermarks.cons _).trans (List.perm_append_singleton _ _).symm)

/-- A further revision keeps the ledger exact. -/
theorem Exact.withVersion (hm : metered log = some (a, share, user)) (hfits : Fitting l log a)
    (hrev : ∀ versions last, l.versionsAt (logScope a log) log.requestId = some versions →
      versions.getLast? = some last → last.usageRevision < log.usageRevision) :
    Exact (l.withVersion a share user log) where
  schema := h.schema
  coverage := h.coverage
  recovery := noteRecovery_fits h hfits.attribution
  nonempty := by
    intro scope id hempty
    obtain ⟨-, -, hnil⟩ | ⟨hold, -⟩ := withVersion_cases hm hempty
    · simp at hnil
    · exact h.nonempty hold
  fits := by
    intro scope id versions hversions e he
    have hkeep : ∀ {scope id versions}, l.versionsAt scope id = some versions → ∀ e ∈ versions,
        EntryFits (l.watermark + 1) scope id e := by
      intro scope id versions hv e he
      have hold := h.fits hv e he
      exact ⟨hold.1, hold.2.1, Nat.le_succ_of_le hold.2.2.1, hold.2.2.2⟩
    obtain ⟨rfl, rfl, rfl⟩ | ⟨hold, -⟩ := withVersion_cases hm hversions
    · rcases mem_append.mp he with he | he
      · obtain ⟨versions, hv, he⟩ := mem_getD_versionsAt he
        exact hkeep hv e he
      · rw [mem_singleton] at he
        subst he
        exact ⟨rfl, Nat.succ_ne_zero _, le_refl _, hfits.attribution, newEntry_scope hm _⟩
    · exact hkeep hold e he
  ordered := by
    intro scope id versions hversions
    obtain ⟨rfl, rfl, rfl⟩ | ⟨hold, -⟩ := withVersion_cases hm hversions
    · exact withVersion_ordered h hfits hrev
    · exact h.ordered hold
  scope_eq := by
    intro scope id versions hversions
    show (l.recordScopes.insert log.requestId _).get? id = some scope
    rw [← logScope_of_metered hm, get?_insert]
    obtain ⟨rfl, rfl, rfl⟩ | ⟨hold, -⟩ := withVersion_cases hm hversions
    · rw [if_pos rfl]
    · split
      · rename_i hid
        subst hid
        rw [hfits.scope_of_recorded (h.scope_eq hold)]
      · exact h.scope_eq hold
  recorded := by
    intro scope id hscope
    replace hscope : (l.recordScopes.insert log.requestId _).get? id = some scope := hscope
    rw [← logScope_of_metered hm, get?_insert] at hscope
    rw [versionsAt_withVersion hm]
    split at hscope
    · rename_i hid
      subst hid
      cases hscope
      rw [if_pos ⟨rfl, rfl⟩]
      rfl
    · rename_i hid
      rw [if_neg fun hsame => hid hsame.2]
      exact h.recorded hscope
  watermarks := withVersion_watermarks h

theorem Exact.record (hroom : l.watermark < u64Max) (log : UsageLog) : Exact (l.record log).2 := by
  have hcases := record_cases h hroom log
  generalize l.record log = r at hcases ⊢
  cases hcases with
  | rejected he => exact h
  | unmetered hok hm => exact h
  | stale hok hm hfits hv hlast hrev => exact h
  | appended hok hm hfits hrev => exact h.withVersion hm hfits hrev

theorem Exact.beginCollection {source : String} {atMs : ℤ} (hsource : source ≠ "")
    (hat : 0 ≤ atMs) : Exact (l.beginCollection source atMs) := by
  unfold QuotaUsageLedger.beginCollection
  split
  · exact h
  · refine { h with coverage := ?_ }
    rintro ⟨k, t⟩ hc
    have hget := mem_entries_iff.mp hc
    rw [get?_insert] at hget
    split at hget
    · rename_i hk
      cases hget
      exact ⟨hk ▸ hsource, hat⟩
    · exact h.coverage (k, t) (mem_entries_iff.mpr hget)

end

end QuotaUsageLedger

end CcSwitchServer.QuotaUsage
