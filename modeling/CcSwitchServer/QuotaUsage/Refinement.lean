import CcSwitchServer.QuotaUsage.Delivery
import CcSwitchServer.QuotaUsage.Sqlite

/-! # The tables hold the ledger

The rows in the order of their watermarks are the history of the ledger.
-/

namespace CcSwitchServer.QuotaUsage
open Foundations Usage QuotaUsageLedger List QuotaRow

/-! ## Putting revisions back -/

section
variable {l m : QuotaUsageLedger} {e : QuotaUsageEntry}

theorem insertPersisted_ok (h : ∀ previous ∈ l.recordScopes.get? e.requestId, previous = e.scope) :
    l.insertPersisted e = .ok ({ l with
      recordScopes := l.recordScopes.insert e.requestId e.scope }.setVersions e.scope e.requestId
        ((l.versionsAt e.scope e.requestId).getD [] ++ [e])) := by
  unfold insertPersisted
  rw [ensure_of h]
  rfl

variable {l' : QuotaUsageLedger}

theorem insertPersisted_transfer (h : l.insertPersisted e = .ok l')
    (hentries : m.entries = l.entries) (hscopes : m.recordScopes = l.recordScopes) :
    m.insertPersisted e = .ok { m with entries := l'.entries, recordScopes := l'.recordScopes } := by
  unfold insertPersisted at h ⊢
  obtain ⟨u, hscope, h⟩ := bind_eq_ok.mp h
  cases h
  rw [hscopes, hscope, ok_bind]
  unfold setVersions versionsAt
  simp only [hentries]
  rfl

theorem foldlM_insertPersisted_transfer (es : List QuotaUsageEntry)
    (h : es.foldlM insertPersisted l = .ok l') (hentries : m.entries = l.entries)
    (hscopes : m.recordScopes = l.recordScopes) :
    es.foldlM insertPersisted m = .ok { m with entries := l'.entries, recordScopes := l'.recordScopes } := by
  induction es generalizing l m with
  | nil =>
    cases h
    show Except.ok m = _
    rw [← hentries, ← hscopes]
  | cons e es ih =>
    rw [foldlM_cons] at h ⊢
    obtain ⟨l₁, hl₁, h⟩ := bind_eq_ok.mp h
    rw [insertPersisted_transfer hl₁ hentries hscopes, ok_bind]
    exact ih h rfl rfl

theorem insertPersisted_rows (h : l.insertPersisted e = .ok l') :
    l'.rows.Perm (e :: l.rows) := by
  unfold insertPersisted at h
  obtain ⟨u, -, h⟩ := bind_eq_ok.mp h
  cases h
  exact rows_setVersions (l := { l with
    recordScopes := l.recordScopes.insert e.requestId e.scope }) e

end

/-- The history of a ledger. -/
structure History (l : QuotaUsageLedger) (es : List QuotaUsageEntry) : Prop where
  marks : es.map QuotaUsageEntry.watermark = List.range' 1 l.watermark
  rebuilds : es.foldlM insertPersisted l.metadata = .ok l

theorem History.default : History .default [] := ⟨rfl, rfl⟩

theorem History.append {l : QuotaUsageLedger} {es : List QuotaUsageEntry} (h : History l es)
    {log : UsageLog} {a : QuotaAttribution} {share user : String}
    (hm : metered log = some (a, share, user)) (hfits : Fitting l log a) :
    History (l.withVersion a share user log) (es ++ [newEntry a share user log (l.watermark + 1)]) := by
  refine ⟨?_, ?_⟩
  · rw [map_append, h.marks, map_singleton, show
      (l.withVersion a share user log).watermark = l.watermark + 1 from rfl, range'_concat,
      Nat.one_mul, Nat.add_comm 1]
    rfl
  · have hfold := foldlM_insertPersisted_transfer
      (m := (l.withVersion a share user log).metadata) es h.rebuilds rfl rfl
    rw [foldlM_append, hfold, ok_bind, foldlM_cons]
    have hscope : (newEntry a share user log (l.watermark + 1)).scope = logScope a log := newEntry_scope hm _
    rw [insertPersisted_ok fun previous hprevious => ?_]
    · rw [hscope, logScope_of_metered hm]
      rfl
    · rw [hscope]
      exact hfits.scope_of_recorded hprevious

theorem History.perm_rows {l : QuotaUsageLedger} {es : List QuotaUsageEntry} (h : History l es) : es.Perm l.rows := by
  have hfold : ∀ (es : List QuotaUsageEntry) {m l : QuotaUsageLedger},
      es.foldlM insertPersisted m = .ok l → l.rows.Perm (m.rows ++ es) := by
    intro es
    induction es with
    | nil =>
      intro m l h
      cases h
      rw [append_nil]
    | cons e es ih =>
      intro m l h
      rw [foldlM_cons] at h
      obtain ⟨m₁, hm₁, h⟩ := bind_eq_ok.mp h
      have hrows := (insertPersisted_rows hm₁).append_right es
      exact (ih h).trans (hrows.trans perm_middle.symm)
  have hrows := hfold es h.rebuilds
  exact hrows.symm

/-! ## The representation -/

/-- The tables hold this ledger. -/
structure Represents (digests : Digests) (t : QuotaStore) (l : QuotaUsageLedger) : Prop where
  exact : Exact l
  version : t.userVersion ≠ 1
  metadata : t.readMetadata digests = .ok l.metadata
  history : ∃ es, History l es ∧ (t.rows.rows.map payload).Perm es
  columns : ∀ r ∈ t.rows.rows, rowOf digests r.payload = .ok r
  room : (l.watermark : ℤ) ≤ i64Max

theorem Represents.empty (digests : Digests) : Represents digests .empty .default where
  exact := Exact.default
  version := by decide
  metadata := rfl
  history := ⟨[], History.default, List.Perm.nil⟩
  columns := fun _ h => absurd h not_mem_nil
  room := by decide

theorem rowOf_watermark {digests : Digests} {e : QuotaUsageEntry} {r : QuotaRow}
    (h : rowOf digests e = .ok r) : r.watermark = e.watermark ∧ r.requestId = e.requestId ∧
      r.usageRevision = e.usageRevision ∧ r.payload = e ∧ r.payloadSha256 = digests.entry e := by
  have hsql : ∀ {n : ℕ} {i : ℤ}, toSqlU64 n = .ok i → i = n := by
    intro n i hi
    unfold toSqlU64 at hi
    split at hi
    · cases hi
      rfl
    · cases hi
  unfold rowOf at h
  obtain ⟨revision, hrevision, h⟩ := bind_eq_ok.mp h
  obtain ⟨watermark, hwatermark, h⟩ := bind_eq_ok.mp h
  obtain ⟨epoch, hepoch, h⟩ := bind_eq_ok.mp h
  cases h
  exact ⟨hsql hwatermark, rfl, hsql hrevision, rfl, rfl⟩

namespace Represents
variable {digests : Digests} {t : QuotaStore} {l : QuotaUsageLedger}

theorem sorted_rows (h : Represents digests t l) {es : List QuotaUsageEntry} (hes : History l es)
    (hperm : (t.rows.rows.map payload).Perm es) :
    (byWatermark t.rows.rows).map payload = es := by
  have hsorted : ((byWatermark t.rows.rows).map payload).Pairwise fun e e' => e.watermark ≤ e'.watermark := by
    rw [pairwise_map]
    have hpairs : (byWatermark t.rows.rows).Pairwise fun r r' => r.watermark ≤ r'.watermark := by
      have hsort : (byWatermark t.rows.rows).Pairwise fun r r' => decide (r.watermark ≤ r'.watermark) = true :=
        pairwise_mergeSort (fun a b c hab hbc => by simp at hab hbc ⊢; omega) (fun a b => by simp; omega) t.rows.rows
      exact hsort.imp fun hle => of_decide_eq_true hle
    refine hpairs.imp_of_mem fun {r r'} hr hr' hle => ?_
    have hr := (rowOf_watermark (h.columns r (mem_mergeSort.mp hr))).1
    have hr' := (rowOf_watermark (h.columns r' (mem_mergeSort.mp hr'))).1
    omega
  have hstrict : es.Pairwise fun e e' => e.watermark < e'.watermark := by
    have hmarks : (es.map QuotaUsageEntry.watermark).Pairwise fun a b => a < b := by
      rw [hes.marks]
      exact pairwise_lt_range'
    exact pairwise_map.mp hmarks
  have hperm' : ((byWatermark t.rows.rows).map payload).Perm es := ((mergeSort_perm _ _).map _).trans hperm
  have hweak : es.Pairwise fun e e' => e.watermark ≤ e'.watermark := hstrict.imp fun hlt => le_of_lt hlt
  refine hperm'.eq_of_pairwise ?_ hsorted hweak
  intro e e' he he' hle hge
  have hinj : e.watermark = e'.watermark → e = e' := by
    have hnodup : (es.map QuotaUsageEntry.watermark).Nodup := by
      rw [hes.marks]
      exact nodup_range'
    exact inj_on_of_nodup_map hnodup (hperm'.mem_iff.mp he) he'
  exact hinj (le_antisymm hle hge)

/-- The rows, put back one after the other, give the ledger again. -/
theorem load_eq (h : Represents digests t l) : t.load digests = .ok l := by
  obtain ⟨es, hes, hperm⟩ := h.history
  have hrows : (byWatermark t.rows.rows).foldlM (loadRow digests) l.metadata = .ok l := by
    have hfold : ∀ (rows : List QuotaRow) {m l : QuotaUsageLedger},
        (∀ r ∈ rows, rowOf digests r.payload = .ok r) →
        (rows.map payload).foldlM insertPersisted m = .ok l →
        rows.foldlM (loadRow digests) m = .ok l := by
      intro rows
      induction rows with
      | nil => exact fun _ hfold => by cases hfold; rfl
      | cons r rows ih =>
        intro m l hcolumns hfold
        rw [map_cons, foldlM_cons] at hfold
        obtain ⟨m₁, hm₁, hfold⟩ := bind_eq_ok.mp hfold
        have hr := hcolumns r mem_cons_self
        have hload : loadRow digests m r = .ok m₁ := by
          unfold loadRow
          rw [ensure_of (rowOf_watermark hr).2.2.2.2.symm, ok_bind, hr, ok_bind, ensure_of rfl, hm₁]
          rfl
        rw [foldlM_cons, hload, ok_bind]
        exact ih (fun r' hr' => hcolumns r' (mem_cons_of_mem _ hr')) hfold
    refine hfold _ (fun r hr => h.columns r (mem_mergeSort.mp hr)) ?_
    rw [h.sorted_rows hes hperm]
    exact hes.rebuilds
  have hmax : (l.rows.map QuotaUsageEntry.watermark).max?.getD 0 = l.watermark := by
    have hmem := fun n => h.exact.watermarks.mem_iff (a := n)
    cases hw : l.watermark with
    | zero =>
      have hnil : l.rows.map QuotaUsageEntry.watermark = [] := by
        have hperm := h.exact.watermarks
        rw [hw] at hperm
        exact hperm.eq_nil
      rw [hnil]
      rfl
    | succ n =>
      have hsome : (l.rows.map QuotaUsageEntry.watermark).max? = some (n + 1) := by
        rw [max?_eq_some_iff]
        refine ⟨(hmem _).mpr (List.mem_range'_1.mpr (by omega)), fun b hb => ?_⟩
        have hb := mem_range'_1.mp ((hmem b).mp hb)
        omega
      rw [hsome]
      rfl
  unfold QuotaStore.load
  rw [if_neg h.version, h.metadata, ok_bind, hrows, ok_bind, h.exact.validate_ok]
  show (do
    ensure ((l.rows.map QuotaUsageEntry.watermark).max?.getD 0 = l.watermark) StoreError.watermarkGap
    pure l) = _
  rw [ensure_of hmax]
  rfl

end Represents

end CcSwitchServer.QuotaUsage
