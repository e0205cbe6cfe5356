import CcSwitchServer.QuotaUsage.Reading
import CcSwitchServer.QuotaUsage.Refinement

/-! # A write that reads one request

`upsertLog` hands `record` a ledger with no revision but the last one of the request.
-/

namespace CcSwitchServer.QuotaUsage
open Foundations Usage QuotaUsageLedger List QuotaUsageLedger Option QuotaStore OrderedMap

/-! ## Ledgers that agree on a request -/

/-- The two ledgers cannot be told apart by a log of this request. -/
structure Agrees (s l : QuotaUsageLedger) (id : String) : Prop where
  metadata : s.metadata = l.metadata
  known : s.ScopesKnown
  scope : s.recordScopes.get? id = l.recordScopes.get? id
  last : ∀ scope, (s.versionsAt scope id).bind getLast? = (l.versionsAt scope id).bind getLast?

/-- What `record` does to two ledgers that agree. -/
inductive Together (s l : QuotaUsageLedger) (log : UsageLog) : Prop
  | rejected {e : QuotaUsageError} (hl : l.record log = (.error e, l))
      (hs : s.record log = (.error e, s))
  | same (hl : l.record log = (.ok false, l)) (hs : s.record log = (.ok false, s))
  | appended {a : QuotaAttribution} {share user : String} (hm : metered log = some (a, share, user))
      (hfits : Fitting l log a)
      (hrev : ∀ versions last, l.versionsAt (logScope a log) log.requestId = some versions →
        versions.getLast? = some last → last.usageRevision < log.usageRevision)
      (hl : l.record log = (.ok true, l.withVersion a share user log))
      (hs : s.record log = (.ok true, s.withVersion a share user log))

namespace Agrees
variable {s l : QuotaUsageLedger} {id : String} {log : UsageLog}

theorem watermark (h : Agrees s l id) : s.watermark = l.watermark := by
  have hfield := congrArg QuotaUsageLedger.watermark h.metadata
  exact hfield

theorem recovery (h : Agrees s l id) : s.recoveryRequired = l.recoveryRequired := by
  have hfield := congrArg recoveryRequired h.metadata
  exact hfield

theorem validateLog_eq (h : Agrees s l log.requestId) (hl : l.ScopesKnown) :
    s.validateLog log = l.validateLog log := by
  have hfield := congrArg schemaVersion h.metadata
  have hschema : s.schemaVersion = l.schemaVersion := hfield
  unfold validateLog
  rw [hschema, previousScope_eq h.known, previousScope_eq hl, h.scope]
  cases log.quotaAttribution with
  | none => rfl
  | some a =>
    dsimp only
    rw [h.last]

/-- `record` decides as it would on the whole ledger. -/
theorem record_together (h : Agrees s l log.requestId) (hexact : Exact l)
    (hroom : l.watermark < u64Max) : Together s l log := by
  have hvalid := h.validateLog_eq hexact.scope_eq
  have hcases := record_cases hexact hroom log
  have hcases' := record_cases_of_scopes h.known (by rw [h.watermark]; exact hroom) log
  generalize hl : l.record log = r at hcases
  generalize hs : s.record log = r' at hcases'
  have hlast : ∀ scope last, (∃ versions, l.versionsAt scope log.requestId = some versions ∧
      versions.getLast? = some last) ↔ ∃ versions, s.versionsAt scope log.requestId = some versions ∧
      versions.getLast? = some last := by
    intro scope last
    rw [← bind_eq_some_iff, ← bind_eq_some_iff, h.last]
  cases hcases with
  | rejected he =>
    refine .rejected hl ?_
    unfold record
    rw [hvalid, he]
  | unmetered hok hm =>
    refine .same hl ?_
    unfold record
    rw [hvalid, hok]
    rw [hm]
  | stale hok hm hfits hv hlatest hrev =>
    cases hcases' with
    | rejected he =>
      rw [hvalid, hok] at he
      cases he
    | unmetered hok' hm' =>
      rw [hm] at hm'
      cases hm'
    | stale hok' hm' hfits' hv' hlatest' hrev' => exact .same hl hs
    | appended hok' hm' hfits' hrev' =>
      rw [hm] at hm'
      cases hm'
      obtain ⟨versions', hv', hlatest'⟩ := (hlast _ _).mp ⟨_, hv, hlatest⟩
      exact absurd (hrev' versions' _ hv' hlatest') (not_lt.mpr hrev)
  | appended hok hm hfits hrev =>
    cases hcases' with
    | rejected he =>
      rw [hvalid, hok] at he
      cases he
    | unmetered hok' hm' =>
      rw [hm] at hm'
      cases hm'
    | stale hok' hm' hfits' hv' hlatest' hrev' =>
      rw [hm] at hm'
      cases hm'
      obtain ⟨versions, hv, hlatest⟩ := (hlast _ _).mpr ⟨_, hv', hlatest'⟩
      exact absurd (hrev versions _ hv hlatest) (not_lt.mpr hrev')
    | appended hok' hm' hfits' hrev' =>
      rw [hm] at hm'
      cases hm'
      exact .appended hm hfits hrev hl hs

theorem withVersion_metadata (h : Agrees s l id) (a : QuotaAttribution) (share user : String) (log : UsageLog) :
    (s.withVersion a share user log).metadata = (l.withVersion a share user log).metadata := by
  have hrecovery := noteRecovery_congr l s h.recovery a log
  have hmetadata := h.metadata
  unfold QuotaUsageLedger.metadata at hmetadata ⊢
  unfold withVersion setVersions
  rw [hrecovery, h.watermark]
  simp only [QuotaUsageLedger.mk.injEq] at hmetadata ⊢
  exact ⟨hmetadata.1, trivial, hmetadata.2.2.1, trivial, trivial, trivial, hmetadata.2.2.2.2.2.2⟩

end Agrees

/-! ## The last row of a request -/

variable {t : QuotaStore} {e : QuotaUsageEntry} {l : QuotaUsageLedger}

theorem latestRow_some {id : String} {r : QuotaRow} (h : t.latestRow id = some r) :
    r ∈ t.rows.rows ∧ r.requestId = id ∧
      ∀ r' ∈ t.rows.rows, r'.requestId = id → r'.usageRevision ≤ r.usageRevision := by
  unfold latestRow at h
  obtain ⟨rest, hrest⟩ := head?_eq_some_iff.mp h
  have hmem : ∀ r', r' ∈ r :: rest ↔ r' ∈ t.rows.rows ∧ r'.requestId = id := by
    intro r'
    rw [← hrest, mem_mergeSort, mem_filter, decide_eq_true_iff]
  have hsorted : (r :: rest).Pairwise fun r r' => decide (r'.usageRevision ≤ r.usageRevision) = true := by
    rw [← hrest]
    exact pairwise_mergeSort (fun a b c hab hbc => by simp at hab hbc ⊢; omega) (fun a b => by simp; omega) _
  obtain ⟨hr, hid⟩ := (hmem r).mp mem_cons_self
  refine ⟨hr, hid, fun r' hr' hid' => ?_⟩
  rcases mem_cons.mp ((hmem r').mpr ⟨hr', hid'⟩) with rfl | htail
  · exact le_rfl
  · exact of_decide_eq_true (rel_of_pairwise_cons hsorted htail)

theorem latestRow_none {id : String} (h : t.latestRow id = none) :
    ∀ r ∈ t.rows.rows, r.requestId ≠ id := by
  intro r hr hid
  unfold latestRow at h
  have hmem : r ∈ (t.rows.rows.filter fun r => r.requestId = id).mergeSort
      fun r r' => r'.usageRevision ≤ r.usageRevision := by
    rw [mem_mergeSort, mem_filter, decide_eq_true_iff]
    exact ⟨hr, hid⟩
  rw [head?_eq_none_iff.mp h] at hmem
  cases hmem

theorem le_last_of_mem {versions : List QuotaUsageEntry} (h : versions.IsChain Precedes)
    {last : QuotaUsageEntry} (he : e ∈ versions) (hlast : versions.getLast? = some last) :
    e = last ∨ e.usageRevision < last.usageRevision := by
  have hpairs : versions.Pairwise fun e e' => e.usageRevision < e'.usageRevision := by
    refine isChain_iff_pairwise.mp ?_
    exact h.imp fun _ _ hprecedes => hprecedes.1
  obtain ⟨before, hbefore⟩ := getLast?_eq_some_iff.mp hlast
  rw [hbefore] at hpairs he
  rcases mem_append.mp he with hmem | hmem
  · exact .inr ((pairwise_append.mp hpairs).2.2 e hmem last mem_cons_self)
  · exact .inl (mem_singleton.mp hmem)

theorem last_of_highest (h : Exact l) (he : e ∈ l.rows)
    (hhigh : ∀ e' ∈ l.rows, e'.requestId = e.requestId → e'.usageRevision ≤ e.usageRevision) :
    ∃ versions, l.versionsAt e.scope e.requestId = some versions ∧ versions.getLast? = some e := by
  obtain ⟨scope, id, versions, hv, hmem⟩ := mem_rows.mp he
  obtain ⟨hid, -, -, -, hscope⟩ := h.fits hv e hmem
  rw [← hid, ← hscope] at hv
  refine ⟨versions, hv, ?_⟩
  cases hlast : versions.getLast? with
  | none =>
    rw [getLast?_eq_none_iff.mp hlast] at hmem
    cases hmem
  | some last =>
    have hin := mem_of_getLast? hlast
    have hle := hhigh last (mem_rows.mpr ⟨_, _, versions, hv, hin⟩) (h.fits hv last hin).1
    rcases le_last_of_mem (h.ordered hv) hmem hlast with rfl | hlt
    · rfl
    · omega

namespace Represents
variable {digests : Digests} {t : QuotaStore} {l : QuotaUsageLedger}

section
variable (h : Represents digests t l)
include h

theorem mem_payloads {e : QuotaUsageEntry} :
    (∃ r ∈ t.rows.rows, r.payload = e) ↔ e ∈ l.rows := by
  obtain ⟨es, hes, hperm⟩ := h.history
  rw [← (hperm.trans hes.perm_rows).mem_iff, List.mem_map]

theorem versionsAt_none {id : String}
    (hrows : ∀ r ∈ t.rows.rows, r.requestId ≠ id) (scope : ScopeKey) : l.versionsAt scope id = none := by
  cases hv : l.versionsAt scope id with
  | none => rfl
  | some versions =>
    cases versions with
    | nil => exact absurd hv h.exact.nonempty
    | cons e versions =>
      obtain ⟨r, hr, hpayload⟩ := h.mem_payloads.mpr (mem_rows.mpr ⟨_, _, _, hv, mem_cons_self⟩)
      have hid := (h.exact.fits hv e mem_cons_self).1
      have hcolumn := (rowOf_watermark (h.columns r hr)).2.1
      rw [hpayload, hid] at hcolumn
      exact absurd hcolumn (hrows r hr)

/-- What is read from the tables is enough for one request. -/
theorem smallLedger_agrees (id : String) :
    ∃ s, t.smallLedger digests id = .ok s ∧ Agrees s l id ∧ ∀ e ∈ s.rows, e ∈ l.rows := by
  unfold smallLedger
  rw [h.metadata, ok_bind]
  have hempty : ∀ scope id, l.metadata.versionsAt scope id = none := fun _ _ => rfl
  cases hlatest : t.latestRow id with
  | none =>
    have hnone := h.versionsAt_none (latestRow_none hlatest)
    refine ⟨l.metadata, rfl, ⟨rfl, fun hv => ?_, ?_, fun scope => ?_⟩, fun e he => ?_⟩
    · rw [hempty] at hv
      cases hv
    · cases hscope : l.recordScopes.get? id with
      | none => rfl
      | some scope =>
        have hsome := h.exact.recorded hscope
        rw [hnone] at hsome
        cases hsome
    · rw [hnone, hempty]
    · obtain ⟨scope, id, versions, hv, -⟩ := mem_rows.mp he
      rw [hempty] at hv
      cases hv
  | some r =>
    obtain ⟨hr, hid, hhigh⟩ := latestRow_some hlatest
    have hcolumns := rowOf_watermark (h.columns r hr)
    have hmem := h.mem_payloads.mp ⟨r, hr, rfl⟩
    have hrequest : r.payload.requestId = id := by rw [← hcolumns.2.1, hid]
    obtain ⟨versions, hv, hlast⟩ := last_of_highest h.exact hmem fun e' he' hid' => by
      obtain ⟨r', hr', hpayload⟩ := h.mem_payloads.mpr he'
      have hcolumns' := rowOf_watermark (h.columns r' hr')
      rw [hpayload] at hcolumns'
      have hle := hhigh r' hr' (by rw [hcolumns'.2.1, hid', hrequest])
      rw [hcolumns'.2.2.1, hcolumns.2.2.1] at hle
      exact_mod_cast hle
    have hinsert := insertPersisted_ok (l := l.metadata) (e := r.payload) fun _ hp => by cases hp
    rw [hempty, getD_none, nil_append] at hinsert
    dsimp only
    rw [ensure_of hcolumns.2.2.2.2.symm, ok_bind, hinsert]
    refine ⟨_, rfl, ?_, fun e he => ?_⟩
    · have hversions : ∀ scope' id', (({ l.metadata with
          recordScopes := l.metadata.recordScopes.insert r.payload.requestId r.payload.scope } :
          QuotaUsageLedger).setVersions r.payload.scope r.payload.requestId [r.payload]).versionsAt scope' id' =
          if r.payload.scope = scope' ∧ r.payload.requestId = id' then some [r.payload] else none :=
        fun scope' id' => versionsAt_setVersions _ _ _ _ _ _
      refine ⟨rfl, fun {scope' id' _} hv' => ?_, ?_, fun scope' => ?_⟩
      · rw [hversions] at hv'
        split at hv'
        · rename_i hsame
          show (insert _ r.payload.requestId r.payload.scope).get? id' = some scope'
          rw [hsame.1, hsame.2, get?_insert_self]
        · cases hv'
      · show (insert _ r.payload.requestId r.payload.scope).get? id = _
        have hscope := h.exact.scope_eq hv
        rw [hrequest] at hscope
        rw [hrequest, get?_insert_self, hscope]
      · rw [hversions]
        split
        · rename_i hsame
          rw [← hsame.1, ← hsame.2, hv, bind_some, bind_some, hlast]
          rfl
        · rename_i hother
          cases hv' : l.versionsAt scope' id with
          | none => rfl
          | some versions' =>
            have hscope := h.exact.scope_eq hv
            rw [hrequest, h.exact.scope_eq hv'] at hscope
            exact absurd ⟨(some.inj hscope).symm, hrequest⟩ hother
    · have hrows := (insertPersisted_rows hinsert).mem_iff.mp he
      rcases mem_cons.mp hrows with rfl | hold
      · exact hmem
      · obtain ⟨scope, id, versions, hv, -⟩ := mem_rows.mp hold
        rw [hempty] at hv
        cases hv

end

end Represents

/-! ## Writing the new revision -/

/-- The revision that `record` appends fits the integer columns. -/
def Storable (l : QuotaUsageLedger) (log : UsageLog) : Prop :=
  (log.usageRevision : ℤ) ≤ i64Max ∧ (l.watermark : ℤ) + 1 ≤ i64Max ∧
    ∀ a ∈ log.quotaAttribution, (a.sourceEpoch : ℤ) ≤ i64Max

instance (l : QuotaUsageLedger) (log : UsageLog) : Decidable (Storable l log) := by
  unfold Storable
  infer_instance

theorem toSqlU64_of {n : ℕ} (h : (n : ℤ) ≤ i64Max) : toSqlU64 n = .ok n := if_pos h

theorem toSqlU64_error {n : ℕ} (h : ¬(n : ℤ) ≤ i64Max) : toSqlU64 n = .error .exceedsIntegerRange := if_neg h

section
variable {l : QuotaUsageLedger} {log : UsageLog} {a : QuotaAttribution} {share user : String}

theorem rowOf_newEntry (digests : Digests) (hm : metered log = some (a, share, user)) (h : Storable l log) :
    ∃ r, rowOf digests (newEntry a share user log (l.watermark + 1)) = .ok r ∧ r.startedAtMs = a.startedAtMs := by
  obtain ⟨hrevision, hwatermark, hepoch⟩ := h
  have hepoch := hepoch a (metered_some hm).1
  unfold rowOf
  rw [toSqlU64_of (n := (newEntry a share user log (l.watermark + 1)).usageRevision) hrevision, ok_bind,
    toSqlU64_of (n := (newEntry a share user log (l.watermark + 1)).watermark) (by exact_mod_cast hwatermark), ok_bind,
    toSqlU64_of (n := (newEntry a share user log (l.watermark + 1)).attribution.sourceEpoch) hepoch, ok_bind]
  exact ⟨_, rfl, rfl⟩

theorem rowOf_newEntry_error (digests : Digests) (hm : metered log = some (a, share, user)) (h : ¬Storable l log) :
    rowOf digests (newEntry a share user log (l.watermark + 1)) = .error .exceedsIntegerRange := by
  unfold rowOf
  by_cases hrevision : (log.usageRevision : ℤ) ≤ i64Max
  · rw [toSqlU64_of (n := (newEntry a share user log (l.watermark + 1)).usageRevision) hrevision, ok_bind]
    by_cases hwatermark : (l.watermark : ℤ) + 1 ≤ i64Max
    · rw [toSqlU64_of (n := (newEntry a share user log (l.watermark + 1)).watermark)
        (by exact_mod_cast hwatermark), ok_bind]
      have hepoch : ¬(a.sourceEpoch : ℤ) ≤ i64Max := by
        intro hepoch
        refine h ⟨hrevision, hwatermark, fun a' ha' => ?_⟩
        rw [(metered_some hm).1] at ha'
        cases ha'
        exact hepoch
      rw [toSqlU64_error (n := (newEntry a share user log (l.watermark + 1)).attribution.sourceEpoch) hepoch]
      rfl
    · rw [toSqlU64_error (n := (newEntry a share user log (l.watermark + 1)).watermark) (by exact_mod_cast hwatermark)]
      rfl
  · rw [toSqlU64_error (n := (newEntry a share user log (l.watermark + 1)).usageRevision) hrevision]
    rfl

theorem newestVersion_withVersion (hm : metered log = some (a, share, user))
    (h : ∀ e ∈ l.rows, e.watermark ≤ l.watermark) :
    newestVersion (l.withVersion a share user log) = some (newEntry a share user log (l.watermark + 1)) := by
  have hversions := versionsAt_withVersion (l := l) hm (logScope a log) log.requestId
  rw [if_pos ⟨rfl, rfl⟩] at hversions
  obtain ⟨records, hrecords, hversions⟩ := bind_eq_some_iff.mp hversions
  have hmem : newEntry a share user log (l.watermark + 1) ∈
      ((l.withVersion a share user log).entries.values.flatMap values).filterMap getLast? := by
    have hin := mem_flatMap.mpr ⟨records, mem_values_iff.mpr ⟨_, hrecords⟩, mem_values_iff.mpr ⟨_, hversions⟩⟩
    exact mem_filterMap.mpr ⟨_, hin, getLast?_concat⟩
  unfold newestVersion
  cases hfind : (((l.withVersion a share user log).entries.values.flatMap values).filterMap getLast?).find? fun e =>
        e.watermark = (l.withVersion a share user log).watermark with
  | none =>
    have hmark := find?_eq_none.mp hfind _ hmem
    exact absurd (decide_eq_true rfl) hmark
  | some e =>
    have hmark := find?_some hfind
    rw [decide_eq_true_iff] at hmark
    obtain ⟨versions, hv, hlast⟩ := mem_filterMap.mp (mem_of_find?_eq_some hfind)
    have he : e ∈ (l.withVersion a share user log).rows := by
      obtain ⟨records, hrecords, hv⟩ := mem_flatMap.mp hv
      refine mem_flatMap.mpr ⟨records, hrecords, mem_flatMap.mpr ⟨versions, hv, ?_⟩⟩
      exact mem_of_getLast? hlast
    rcases mem_cons.mp ((rows_withVersion l a share user log).mem_iff.mp he) with rfl | hold
    · rfl
    · have hle := h e hold
      have hmark : e.watermark = l.watermark + 1 := hmark
      omega

end

theorem insert_fresh {digests : Digests} {r : QuotaRow}
    (hrow : rowOf digests e = .ok r) (hkey : t.rows.find? r.key = none) (hrow' : Insertable t r) :
    t.insert digests e = .ok { t with rows := t.rows.insert r hkey } := by
  unfold QuotaStore.insert
  rw [hrow, ok_bind]
  split
  · rename_i existing hexisting
    rw [hkey] at hexisting
    cases hexisting
  · rw [ensure_of hrow']
    rfl

theorem readMetadata_saveMetadata (digests : Digests) (t : QuotaStore) {s : QuotaUsageLedger}
    (h : Exact l) (hmetadata : s.metadata = l.metadata) :
    (t.saveMetadata digests s).readMetadata digests = .ok l.metadata := by
  have hvalid : l.metadata.validateMetadata = .ok () := h.validateMetadata_ok
  unfold readMetadata saveMetadata
  dsimp only
  rw [hmetadata, ensure_of rfl, ok_bind]
  show (do
    ledgerError l.metadata.validateMetadata
    ensure (l.metadata.entries.entries = []) StoreError.unexpectedRows
    pure l.metadata) = _
  rw [hvalid]
  rfl

section
variable {digests : Digests} {t : QuotaStore} {l s : QuotaUsageLedger} {log : UsageLog}
  {a : QuotaAttribution} {share user : String}

section
variable (h : Represents digests t l)
include h

theorem Represents.fresh_row (hfits : Fitting l log a)
    (hrev : ∀ versions last, l.versionsAt (logScope a log) log.requestId = some versions →
      versions.getLast? = some last → last.usageRevision < log.usageRevision) {r : QuotaRow}
    (hrow : rowOf digests (newEntry a share user log (l.watermark + 1)) = .ok r)
    (hstarted : r.startedAtMs = a.startedAtMs) : t.rows.find? r.key = none ∧ Insertable t r := by
  obtain ⟨hwatermark, hid, hrevision, -, -⟩ := rowOf_watermark hrow
  have hid : r.requestId = log.requestId := hid
  have hrevision : r.usageRevision = log.usageRevision := hrevision
  have hwatermark : r.watermark = (l.watermark + 1 : ℕ) := hwatermark
  constructor
  · refine Table.find?_eq_none.mpr fun r' hr' hkey => ?_
    obtain ⟨hkid, hkrev⟩ := Prod.mk.inj hkey
    obtain ⟨-, hid', hrevision', -, -⟩ := rowOf_watermark (h.columns r' hr')
    obtain ⟨scope, id, versions, hv, hmem⟩ := mem_rows.mp (h.mem_payloads.mp ⟨r', hr', rfl⟩)
    have hrequest : id = log.requestId := by
      rw [← (h.exact.fits hv _ hmem).1, ← hid', hkid, hid]
    rw [hrequest] at hv
    rw [hfits.scope_of_recorded (h.exact.scope_eq hv)] at hv
    cases hlast : versions.getLast? with
    | none =>
      rw [getLast?_eq_none_iff.mp hlast] at hmem
      cases hmem
    | some last =>
      have hlt := hrev versions last hv hlast
      rcases le_last_of_mem (h.exact.ordered hv) hmem hlast with heq | hle
      · rw [heq] at hrevision'
        omega
      · omega
  · refine ⟨by omega, by omega, ?_, fun r' hr' => ?_⟩
    · rw [hstarted]
      exact hfits.attribution.2.2.2
    · have hmark := (rowOf_watermark (h.columns r' hr')).1
      obtain ⟨scope, id, versions, hv, hmem⟩ := mem_rows.mp (h.mem_payloads.mp ⟨r', hr', rfl⟩)
      have hle := (h.exact.fits hv _ hmem).2.2.1
      omega

theorem Represents.rows_le {e : QuotaUsageEntry} (he : e ∈ l.rows) :
    e.watermark ≤ l.watermark := by
  obtain ⟨scope, id, versions, hv, hmem⟩ := mem_rows.mp he
  exact (h.exact.fits hv e hmem).2.2.1

theorem Represents.writeRecorded_error
    (hagrees : Agrees s l log.requestId) (hold : ∀ e ∈ s.rows, e ∈ l.rows)
    (hm : metered log = some (a, share, user)) (hstorable : ¬Storable l log) :
    t.writeRecorded digests (s.withVersion a share user log) = .error .exceedsIntegerRange := by
  unfold writeRecorded
  rw [newestVersion_withVersion hm fun e he => by rw [hagrees.watermark]; exact h.rows_le (hold e he),
    hagrees.watermark]
  show (do
    let t ← t.insert digests (newEntry a share user log (l.watermark + 1))
    pure (t.saveMetadata digests _)) = _
  unfold QuotaStore.insert
  rw [rowOf_newEntry_error digests hm hstorable]
  rfl

theorem Represents.writeRecorded_ok
    (hagrees : Agrees s l log.requestId) (hold : ∀ e ∈ s.rows, e ∈ l.rows)
    (hm : metered log = some (a, share, user)) (hfits : Fitting l log a)
    (hrev : ∀ versions last, l.versionsAt (logScope a log) log.requestId = some versions →
      versions.getLast? = some last → last.usageRevision < log.usageRevision) (hstorable : Storable l log) :
    ∃ t', t.writeRecorded digests (s.withVersion a share user log) = .ok t' ∧
      Represents digests t' (l.withVersion a share user log) := by
  obtain ⟨r, hrow, hstarted⟩ := rowOf_newEntry digests hm hstorable
  obtain ⟨hkey, hinsertable⟩ := h.fresh_row hfits hrev hrow hstarted
  obtain ⟨es, hes, hperm⟩ := h.history
  have hexact := h.exact.withVersion hm hfits hrev
  have hpayload := (rowOf_watermark hrow).2.2.2.1
  refine ⟨({ t with rows := t.rows.insert r hkey } : QuotaStore).saveMetadata digests
    (s.withVersion a share user log), ?_, ?_⟩
  · unfold writeRecorded
    rw [newestVersion_withVersion hm fun e he => by rw [hagrees.watermark]; exact h.rows_le (hold e he),
      hagrees.watermark]
    show (do
      let t ← t.insert digests (newEntry a share user log (l.watermark + 1))
      pure (t.saveMetadata digests _)) = _
    rw [insert_fresh hrow hkey hinsertable]
    rfl
  · refine ⟨hexact, h.version, ?_, ⟨_, hes.append hm hfits, ?_⟩, fun r' hr' => ?_, ?_⟩
    · exact readMetadata_saveMetadata digests _ hexact (hagrees.withVersion_metadata a share user log)
    · show ((t.rows.rows ++ [r]).map QuotaRow.payload).Perm _
      rw [map_append, map_singleton, hpayload]
      exact hperm.append_right _
    · rcases mem_append.mp hr' with hr' | hr'
      · exact h.columns r' hr'
      · rw [mem_singleton.mp hr', hpayload]
        exact hrow
    · show ((l.watermark + 1 : ℕ) : ℤ) ≤ i64Max
      exact_mod_cast hstorable.2.1

end

/-! ## Every sequence of logs -/

/-- `record`, where a revision that no row can hold is left out. -/
def recordStorable (l : QuotaUsageLedger) (log : UsageLog) : QuotaUsageLedger :=
  if (l.record log).1 = .ok true ∧ ¬Storable l log then l else (l.record log).2

/-- `record` fails, or it appends a revision that no row can hold. -/
def Refused (l : QuotaUsageLedger) (log : UsageLog) : Prop :=
  (∃ e, (l.record log).1 = .error e) ∨ (l.record log).1 = .ok true ∧ ¬Storable l log

/-- The row that is written is the revision that the whole ledger would gain. -/
theorem Represents.upsertLog (h : Represents digests t l) (log : UsageLog) :
    Represents digests (t.upsertLog digests log).2 (recordStorable l log) ∧
      ((∃ e, (t.upsertLog digests log).1 = .error e) ↔ Refused l log) ∧
      ((∃ e, (t.upsertLog digests log).1 = .error e) → (t.upsertLog digests log).2 = t) := by
  have hroom : l.watermark < u64Max := by
    have hle := h.room
    unfold i64Max at hle
    unfold u64Max
    omega
  obtain ⟨s, hs, hagrees, hold⟩ := h.smallLedger_agrees log.requestId
  unfold QuotaStore.upsertLog recordStorable Refused
  rw [hs]
  dsimp only
  cases hagrees.record_together h.exact hroom with
  | rejected hl hs =>
    rw [hl, hs]
    simp only [reduceCtorEq, false_and, if_false, or_false]
    exact ⟨h, ⟨fun _ => ⟨_, rfl⟩, fun _ => ⟨_, rfl⟩⟩, fun _ => trivial⟩
  | same hl hs =>
    rw [hl, hs]
    simp only [reduceCtorEq, Except.ok.injEq, Bool.false_eq_true, false_and, if_false, exists_false,
      or_false, iff_self, false_implies, and_true]
    exact h
  | appended hm hfits hrev hl hs =>
    rw [hl, hs]
    by_cases hstorable : Storable l log
    · obtain ⟨t', ht', hrepresents⟩ := h.writeRecorded_ok hagrees hold hm hfits hrev hstorable
      dsimp only
      rw [ht']
      simp only [hstorable, not_true, and_false, if_false, reduceCtorEq, exists_false, or_false,
        iff_self, false_implies, and_true]
      exact hrepresents
    · dsimp only
      rw [h.writeRecorded_error hagrees hold hm hstorable]
      simp only [hstorable, not_false_eq_true, and_true, if_true, or_true, iff_true]
      exact ⟨h, ⟨_, rfl⟩, fun _ => trivial⟩

theorem Represents.upsertLogs (h : Represents digests t l) (logs : List UsageLog) :
    Represents digests (logs.foldl (fun t log => (t.upsertLog digests log).2) t) (logs.foldl recordStorable l) := by
  induction logs generalizing t l with
  | nil => exact h
  | cons log logs ih => exact ih (h.upsertLog log).1

end

/-- A larger number is refused before anything is written, while `record` in memory would keep it. -/
def FitsColumns (log : UsageLog) : Prop :=
  (log.usageRevision : ℤ) ≤ i64Max ∧ ∀ a ∈ log.quotaAttribution, (a.sourceEpoch : ℤ) ≤ i64Max

instance (log : UsageLog) : Decidable (FitsColumns log) := by
  unfold FitsColumns
  infer_instance

theorem record_watermark_le_succ (h : Exact l) (hroom : l.watermark < u64Max)
    (log : UsageLog) : (l.record log).2.watermark ≤ l.watermark + 1 := by
  have hcases := record_cases h hroom log
  generalize l.record log = r at hcases ⊢
  cases hcases with
  | rejected he => exact Nat.le_succ _
  | unmetered hok hm => exact Nat.le_succ _
  | stale hok hm hfits hv hlast hrev => exact Nat.le_succ _
  | appended hok hm hfits hrev => exact le_rfl

theorem foldl_recordStorable (logs : List UsageLog) (h : Exact l)
    (hfits : ∀ log ∈ logs, FitsColumns log) (hroom : (l.watermark : ℤ) + logs.length ≤ i64Max) :
    logs.foldl recordStorable l = logs.foldl (fun l log => (l.record log).2) l := by
  induction logs generalizing l with
  | nil => rfl
  | cons log logs ih =>
    rw [length_cons] at hroom
    push_cast at hroom
    have hlog := hfits log mem_cons_self
    have hstorable : Storable l log := ⟨hlog.1, by omega, hlog.2⟩
    have hroom' : l.watermark < u64Max := by
      unfold i64Max at hroom
      unfold u64Max
      omega
    have hrecord : recordStorable l log = (l.record log).2 := if_neg fun hbad => hbad.2 hstorable
    have hle := record_watermark_le_succ h hroom' log
    rw [foldl_cons, foldl_cons, hrecord]
    refine ih (h.record hroom' log) (fun log' hlog' => hfits log' (mem_cons_of_mem _ hlog')) ?_
    omega

/-- The tables after any logs load as the ledger that has recorded them, a revision apart that does not
fit; the next log is refused as `record` refuses it, or for such a revision, and leaves the tables alone. -/
theorem upserted_tables_load_recorded (digests : Digests) (logs : List UsageLog) (log : UsageLog) :
    let t := logs.foldl (fun t log => (t.upsertLog digests log).2) QuotaStore.empty
    let l := logs.foldl recordStorable .default
    t.load digests = .ok l ∧
      ((∃ e, (t.upsertLog digests log).1 = .error e) ↔
        (∃ e, (l.record log).1 = .error e) ∨ (l.record log).1 = .ok true ∧ ¬Storable l log) ∧
      ((∃ e, (t.upsertLog digests log).1 = .error e) → (t.upsertLog digests log).2 = t) ∧
      ((∀ log ∈ logs, FitsColumns log) → (logs.length : ℤ) ≤ i64Max →
        l = logs.foldl (fun l log => (l.record log).2) .default) := by
  have hrepresents := (Represents.empty digests).upsertLogs logs
  obtain ⟨-, hfails, hkept⟩ := hrepresents.upsertLog log
  refine ⟨hrepresents.load_eq, hfails, hkept, fun hfits hlength => ?_⟩
  exact foldl_recordStorable logs Exact.default hfits (by simpa [QuotaUsageLedger.default] using hlength)

def requestDigests : Digests := ⟨QuotaUsageEntry.requestId, fun _ => "metadata"⟩

theorem upserted_tables_load_recorded_twice :
    ([meteredLog 0 10, meteredLog 2 30].foldl (fun t log => (t.upsertLog requestDigests log).2)
      QuotaStore.empty).load requestDigests =
    .ok ([meteredLog 0 10, meteredLog 2 30].foldl (fun l log => (l.record log).2) .default) := by
  obtain ⟨hload, -, -, hall⟩ := upserted_tables_load_recorded requestDigests
    [meteredLog 0 10, meteredLog 2 30] (meteredLog 3 40)
  rw [hload, hall (by decide) (by decide)]

/-- A revision number past `i64::MAX` is taken in memory and refused by the store. -/
theorem large_revision_refused :
    (default.record (meteredLog (2 ^ 63) 10)).1 = .ok true ∧
    (empty.upsertLog requestDigests (meteredLog (2 ^ 63) 10)).1 = .error .exceedsIntegerRange := by
  decide +kernel

end CcSwitchServer.QuotaUsage
