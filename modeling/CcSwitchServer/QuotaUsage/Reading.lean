import CcSwitchServer.Foundations.Tally
import CcSwitchServer.QuotaUsage.Delivery

/-! # The answers of the token ledger

`query` adds up what is visible at a watermark.
-/

namespace CcSwitchServer.QuotaUsage
open Foundations Usage QuotaCycle QuotaUsageLedger QuotaUsageEntry List OrderedMap Option QuotaUsageLedger Meter

/-! ## What a query adds up -/

/-- The revisions that a reader of a cycle adds up. -/
def visible (cycle : AccountQuotaCycle) (watermark : ℕ) (versions : List (List QuotaUsageEntry)) :
    List QuotaUsageEntry :=
  (versions.filterMap (versionAt watermark)).filter fun e =>
    cycleContains cycle e.attribution.startedAtMs

variable {cycle : AccountQuotaCycle} {watermark : ℕ}

/-- The sums of the visible revisions, unless they overflow. -/
theorem foldlM_addVersion (versions : List (List QuotaUsageEntry)) {total r : ℕ × ℕ} (htokens : total.1 ≤ u64Max)
    (hrequests : total.2 ≤ u64Max) :
    versions.foldlM (addVersion cycle watermark) total = .ok r ↔
      r.1 = total.1 + ((visible cycle watermark versions).map tokens).sum ∧
      r.2 = total.2 + ((visible cycle watermark versions).map fun e => e.countRequest.toNat).sum ∧
      r.1 ≤ u64Max ∧ r.2 ≤ u64Max := by
  induction versions generalizing total with
  | nil =>
    show Except.ok total = .ok r ↔ _
    rw [Except.ok.injEq, Prod.ext_iff]
    simp only [visible, filterMap_nil, filter_nil, map_nil, sum_nil, Nat.add_zero]
    constructor
    · rintro ⟨h₁, h₂⟩
      exact ⟨h₁.symm, h₂.symm, h₁ ▸ htokens, h₂ ▸ hrequests⟩
    · rintro ⟨h₁, h₂, -, -⟩
      exact ⟨h₁.symm, h₂.symm⟩
  | cons vs versions ih =>
    rw [foldlM_cons]
    cases hv : versionAt watermark vs with
    | none =>
      have hstep : addVersion cycle watermark total vs = .ok total := by
        unfold addVersion
        rw [hv]
        rfl
      have hvisible : visible cycle watermark (vs :: versions) = visible cycle watermark versions := by
        unfold visible
        rw [filterMap_cons_none hv]
      rw [hstep, ok_bind, hvisible]
      exact ih htokens hrequests
    | some e =>
      by_cases hin : cycleContains cycle e.attribution.startedAtMs
      · have hvisible : visible cycle watermark (vs :: versions) = e :: visible cycle watermark versions := by
          unfold visible
          rw [filterMap_cons_some hv, filter_cons_of_pos (by simpa using hin)]
        rw [hvisible, map_cons, map_cons, sum_cons, sum_cons, bind_eq_ok]
        constructor
        · rintro ⟨total', hstep, hrest⟩
          unfold addVersion at hstep
          rw [hv] at hstep
          simp only [if_pos hin] at hstep
          obtain ⟨tokens, ht, hstep⟩ := bind_eq_ok.mp hstep
          obtain ⟨requests, hr, hstep⟩ := bind_eq_ok.mp hstep
          cases hstep
          obtain ⟨htmax, rfl⟩ := checkedAddU64_eq_some.mp (context_eq_ok.mp ht)
          obtain ⟨hrmax, rfl⟩ := checkedAddU64_eq_some.mp (context_eq_ok.mp hr)
          obtain ⟨h₁, h₂, h₃, h₄⟩ := (ih htmax hrmax).mp hrest
          dsimp only at h₁ h₂
          exact ⟨by omega, by omega, h₃, h₄⟩
        · rintro ⟨h₁, h₂, h₃, h₄⟩
          have htmax : total.1 + e.tokens ≤ u64Max := by omega
          have hrmax : total.2 + e.countRequest.toNat ≤ u64Max := by omega
          refine ⟨(total.1 + e.tokens, total.2 + e.countRequest.toNat), ?_, ?_⟩
          · unfold addVersion
            rw [hv]
            simp only [if_pos hin, checkedAddU64_eq_some.mpr ⟨htmax, rfl⟩, checkedAddU64_eq_some.mpr ⟨hrmax, rfl⟩]
            rfl
          · refine (ih htmax hrmax).mpr ⟨?_, ?_, h₃, h₄⟩
            · dsimp only
              omega
            · dsimp only
              omega
      · have hstep : addVersion cycle watermark total vs = .ok total := by
          unfold addVersion
          rw [hv]
          simp only [if_neg hin]
          rfl
        have hvisible : visible cycle watermark (vs :: versions) = visible cycle watermark versions := by
          unfold visible
          rw [filterMap_cons_some hv, filter_cons_of_neg (by simpa using hin)]
        rw [hstep, ok_bind, hvisible]
        exact ih htokens hrequests

def recordsOf (l : QuotaUsageLedger) (scope : ScopeKey) : List (List QuotaUsageEntry) :=
  ((l.entries.get? scope).map values).getD []

theorem query_eq (l : QuotaUsageLedger) (cycle : AccountQuotaCycle) (share user : String) (watermark : ℕ) :
    l.query cycle share user watermark = (do
      ensure (l.CompleteFor cycle) .historyIncomplete
      (recordsOf l (scopeKey cycle.sourceRef cycle.sourceEpoch cycle.bucketId share user)).foldlM
        (addVersion cycle watermark) (0, 0)) := by
  unfold query recordsOf
  cases l.entries.get? (scopeKey cycle.sourceRef cycle.sourceEpoch cycle.bucketId share user) with
  | none => rfl
  | some records => rfl

theorem query_eq_ok {l : QuotaUsageLedger} {share user : String} {r : ℕ × ℕ} :
    l.query cycle share user watermark = .ok r ↔ l.CompleteFor cycle ∧
      r.1 = ((visible cycle watermark (recordsOf l (scopeKey cycle.sourceRef cycle.sourceEpoch
        cycle.bucketId share user))).map tokens).sum ∧
      r.2 = ((visible cycle watermark (recordsOf l (scopeKey cycle.sourceRef cycle.sourceEpoch
        cycle.bucketId share user))).map fun e => e.countRequest.toNat).sum ∧
      r.1 ≤ u64Max ∧ r.2 ≤ u64Max := by
  have hfold : ∀ vs : List (List QuotaUsageEntry),
      vs.foldlM (addVersion cycle watermark) (0, 0) = .ok r ↔
        r.1 = ((visible cycle watermark vs).map tokens).sum ∧
        r.2 = ((visible cycle watermark vs).map fun e => e.countRequest.toNat).sum ∧
        r.1 ≤ u64Max ∧ r.2 ≤ u64Max := by
    intro vs
    refine (foldlM_addVersion vs (Nat.zero_le _) (Nat.zero_le _)).trans ?_
    simp only [Nat.zero_add]
  rw [query_eq, bind_eq_ok]
  constructor
  · rintro ⟨u, hcomplete, hr⟩
    exact ⟨ensure_eq_ok.mp hcomplete, (hfold _).mp hr⟩
  · rintro ⟨hcomplete, hr⟩
    exact ⟨(), ensure_eq_ok.mpr hcomplete, (hfold _).mpr hr⟩

/-! ## Earlier watermarks -/

variable {versions : List QuotaUsageEntry}

theorem versionAt_append {e : QuotaUsageEntry} (h : watermark < e.watermark) :
    versionAt watermark (versions ++ [e]) = versionAt watermark versions := by
  unfold versionAt
  rw [reverse_append, reverse_singleton, singleton_append, find?_cons_of_neg (by simpa using h)]

theorem recordsOf_withVersion {l : QuotaUsageLedger} {log : UsageLog} {a : QuotaAttribution} {share user : String}
    (hm : metered log = some (a, share, user)) (hw : watermark ≤ l.watermark) (scope : ScopeKey) :
    (recordsOf (l.withVersion a share user log) scope).filterMap (versionAt watermark) =
      (recordsOf l scope).filterMap (versionAt watermark) := by
  have hentries : (l.withVersion a share user log).entries = l.entries.insert (logScope a log)
      (((l.entries.get? (logScope a log)).getD .empty).insert log.requestId
        ((l.versionsAt (logScope a log) log.requestId).getD [] ++ [newEntry a share user log (l.watermark + 1)])) := by
    rw [logScope_of_metered hm]
    rfl
  unfold recordsOf
  rw [hentries, get?_insert]
  split
  · rename_i hscope
    subst hscope
    have hvalues : ((l.entries.get? (logScope a log)).map values).getD [] =
        ((l.entries.get? (logScope a log)).getD .empty).values := by
      cases l.entries.get? (logScope a log) with
      | none => rfl
      | some records => rfl
    have hversions : (((l.entries.get? (logScope a log)).getD .empty).get? log.requestId) =
        l.versionsAt (logScope a log) log.requestId := by
      unfold versionsAt
      cases l.entries.get? (logScope a log) with
      | none => rfl
      | some records => rfl
    rw [hvalues, map_some, getD_some]
    refine filterMap_values_insert ?_
    rw [hversions, versionAt_append (Nat.lt_succ_of_le hw)]
    cases l.versionsAt (logScope a log) log.requestId with
    | none => rfl
    | some versions => rfl
  · rfl

theorem visible_congr {versions versions' : List (List QuotaUsageEntry)}
    (h : versions'.filterMap (versionAt watermark) = versions.filterMap (versionAt watermark)) :
    versions'.foldlM (addVersion cycle watermark) (0, 0) = versions.foldlM (addVersion cycle watermark) (0, 0) := by
  have hfold : ∀ (vs : List (List QuotaUsageEntry)) (total : ℕ × ℕ),
      vs.foldlM (addVersion cycle watermark) total =
        (vs.filterMap (versionAt watermark)).foldlM (fun total e =>
          if cycleContains cycle e.attribution.startedAtMs then do
            let tokens ← context (checkedAddU64 total.1 e.tokens) QuotaUsageError.quotaTokenOverflow
            let requests ← context (checkedAddU64 total.2 e.countRequest.toNat) .quotaRequestOverflow
            pure (tokens, requests)
          else pure total) total := by
    intro vs
    induction vs with
    | nil => exact fun _ => rfl
    | cons v vs ih =>
      intro total
      rw [foldlM_cons]
      unfold addVersion
      cases hv : versionAt watermark v with
      | none =>
        rw [filterMap_cons_none hv]
        exact ih total
      | some e =>
        rw [filterMap_cons_some hv, foldlM_cons]
        exact bind_congr ih
  rw [hfold, hfold, h]

namespace Meter
variable {m : Meter}

/-- What is visible at an earlier watermark never changes. -/
theorem step_past (h : m.Steady) {op : QuotaOp} (hfits : (m.step op).FitsMemory) {watermark : ℕ}
    (hw : watermark ≤ m.ledger.watermark) (scope : ScopeKey) :
    (recordsOf (m.step op).ledger scope).filterMap (versionAt watermark) =
      (recordsOf m.ledger scope).filterMap (versionAt watermark) := by
  have hroom : m.FitsMemory := lt_of_le_of_lt (m.watermark_le op) hfits
  cases op with
  | beginCollection source atMs =>
    show (recordsOf (m.ledger.beginCollection source atMs) scope).filterMap _ = _
    unfold beginCollection
    split
    · rfl
    · rfl
  | record log =>
    have hcases := record_cases (h hroom).1 hroom log
    unfold step
    dsimp only
    generalize m.ledger.record log = r at hcases ⊢
    cases hcases with
    | rejected he => rfl
    | unmetered hok hm => rfl
    | stale hok hm hlog hv hlast hrev => rfl
    | appended hok hm hlog hrev => exact recordsOf_withVersion hm hw scope

theorem fits_of_run {ops : List QuotaOp} (hfits : (run step m ops).FitsMemory) : m.FitsMemory := by
  induction ops generalizing m with
  | nil => exact hfits
  | cons op ops ih =>
    rw [run_cons] at hfits
    exact lt_of_le_of_lt (m.watermark_le op) (ih hfits)

theorem run_past (h : m.Steady) {ops : List QuotaOp} (htyped : ∀ op ∈ ops, op.Typed)
    (hfits : (run step m ops).FitsMemory) {watermark : ℕ} (hw : watermark ≤ m.ledger.watermark) (scope : ScopeKey) :
    (recordsOf (run step m ops).ledger scope).filterMap (versionAt watermark) =
      (recordsOf m.ledger scope).filterMap (versionAt watermark) := by
  induction ops generalizing m with
  | nil => rfl
  | cons op ops ih =>
    rw [run_cons] at hfits ⊢
    rw [ih (h.step (htyped op mem_cons_self)) (fun op' hop' => htyped op' (mem_cons_of_mem _ hop')) hfits
      (le_trans hw (m.watermark_le op)), step_past h (fits_of_run hfits) hw]

end Meter

/-! ## The present -/

theorem versionAt_current {watermark : ℕ}
    (h : ∀ e ∈ versions, e.watermark ≤ watermark) : versionAt watermark versions = versions.getLast? := by
  unfold versionAt
  rw [← head?_reverse]
  cases hrev : versions.reverse with
  | nil => rfl
  | cons e es =>
    have he : e ∈ versions := mem_reverse.mp (hrev ▸ mem_cons_self)
    rw [find?_cons_of_pos (by simpa using h e he), head?_cons]

variable {l : QuotaUsageLedger} {delivered : List UsageLog} {f : UsageLog → ℕ} {log : UsageLog}

theorem Tracks.highest_eq (hexact : Exact l) (h : Tracks l delivered) {scope : ScopeKey} {id : String}
    {last : QuotaUsageEntry} (hv : l.versionsAt scope id = some versions)
    (hlast : versions.getLast? = some last) :
    ∃ log, highest delivered id = some log ∧ log.quotaTokens = last.tokens ∧
      decide (log.recordKind = .userInference) = last.countRequest := by
  obtain ⟨log₀, hlog₀, a₀, share₀, user₀, w, hm₀, hscope₀, hid₀, hlast₀⟩ := h.origin hv hlast
  have hmem₀ : log₀ ∈ delivered.filter fun log => (metered log).isSome ∧ log.requestId = id := by
    rw [mem_filter]
    exact ⟨hlog₀, by simp [hm₀, hid₀]⟩
  cases hhigh : highest delivered id with
  | none =>
    have hnil := argmax_eq_none.mp hhigh
    rw [hnil] at hmem₀
    exact absurd hmem₀ not_mem_nil
  | some log =>
    have hmem := mem_filter.mp (argmax_mem hhigh)
    obtain ⟨hsome, hid⟩ : (metered log).isSome = true ∧ log.requestId = id := by simpa using hmem.2
    obtain ⟨⟨a, share, user⟩, hm⟩ := isSome_iff_exists.mp hsome
    obtain ⟨versions', last', hv', hlast', hle, htokens, hrepeats⟩ := h.covered log hmem.1 a share user hm
    have hscope := hexact.scope_eq hv'
    rw [hid, hexact.scope_eq hv, some.injEq] at hscope
    rw [← hscope, hid, hv] at hv'
    cases hv'
    rw [hlast] at hlast'
    cases hlast'
    have hge : log₀.usageRevision ≤ log.usageRevision := le_of_mem_argmax hmem₀ hhigh
    have hrevision : last.usageRevision = log₀.usageRevision := by rw [hlast₀]; rfl
    exact ⟨log, rfl, (htokens (by omega)).symm, hrepeats.2.2.symm⟩

theorem sum_visible {cycle : AccountQuotaCycle} {watermark : ℕ} (t : QuotaUsageEntry → ℕ)
    (versions : List (List QuotaUsageEntry)) :
    ((visible cycle watermark versions).map t).sum = (versions.map fun vs => ((versionAt watermark vs).filter fun e =>
        cycleContains cycle e.attribution.startedAtMs).elim 0 t).sum := by
  induction versions with
  | nil => rfl
  | cons vs versions ih =>
    rw [map_cons, sum_cons, ← ih]
    unfold visible
    cases hv : versionAt watermark vs with
    | none =>
      rw [filterMap_cons_none hv]
      simp
    | some e =>
      rw [filterMap_cons_some hv]
      by_cases hin : cycleContains cycle e.attribution.startedAtMs
      · rw [filter_cons_of_pos (by simpa using hin), filter_some_pos (by simpa using hin), map_cons, sum_cons]
        rfl
      · rw [filter_cons_of_neg (by simpa using hin), filter_some_neg (by simpa using hin), elim_none, Nat.zero_add]

def startedIn (cycle : AccountQuotaCycle) (record : String × List QuotaUsageEntry) : Bool :=
  (record.2.getLast?).any fun e => cycleContains cycle e.attribution.startedAtMs

theorem mem_chargedRequests (h : Tracks l delivered) {cycle : AccountQuotaCycle} {share user id : String} :
    id ∈ chargedRequests delivered cycle share user ↔
      ∃ versions, l.versionsAt (scopeKey cycle.sourceRef cycle.sourceEpoch cycle.bucketId share user)
        id = some versions ∧ startedIn cycle (id, versions) = true := by
  unfold chargedRequests startedIn
  rw [List.mem_dedup, List.mem_map]
  constructor
  · rintro ⟨log, hlog, rfl⟩
    rw [List.mem_filter, decide_eq_true_eq] at hlog
    obtain ⟨hmem, ⟨a, share', user'⟩, hm, hscope, hin⟩ := hlog
    obtain ⟨versions, last, hv, hlast, -, -, hrepeats⟩ := h.covered log hmem a share' user' hm
    rw [hscope] at hv
    refine ⟨versions, hv, ?_⟩
    rw [hlast, Option.any_some, decide_eq_true_eq, hrepeats.1]
    exact hin
  · rintro ⟨versions, hv, hin⟩
    obtain ⟨last, hlast, hin⟩ := (Option.any_eq_true _ _).mp hin
    rw [decide_eq_true_eq] at hin
    obtain ⟨log, hlog, a, share', user', w, hm, hscope, hid, rfl⟩ := h.origin hv hlast
    refine ⟨log, ?_, hid⟩
    rw [List.mem_filter, decide_eq_true_eq]
    exact ⟨hlog, (a, share', user'), hm, hscope, hin⟩

/-- At the present watermark the highest revisions are visible. -/
theorem visible_current (hexact : Exact l) (h : Tracks l delivered) (cycle : AccountQuotaCycle)
    (share user : String) {t : QuotaUsageEntry → ℕ}
    (hft : ∀ (log : UsageLog) (e : QuotaUsageEntry), log.quotaTokens = e.tokens →
      decide (log.recordKind = .userInference) = e.countRequest → f log = t e) :
    ((visible cycle l.watermark (recordsOf l (scopeKey cycle.sourceRef cycle.sourceEpoch
      cycle.bucketId share user))).map t).sum = chargedTotal f delivered cycle share user := by
  unfold chargedTotal
  cases hrecords : l.entries.get? (scopeKey cycle.sourceRef cycle.sourceEpoch cycle.bucketId share
      user) with
  | none =>
    have hnil : chargedRequests delivered cycle share user = [] := by
      refine eq_nil_iff_forall_not_mem.mpr fun id hid => ?_
      obtain ⟨versions, hv, -⟩ := (mem_chargedRequests h).mp hid
      unfold versionsAt at hv
      rw [hrecords] at hv
      cases hv
    unfold recordsOf
    rw [hrecords, hnil]
    rfl
  | some records =>
    have hlookup : ∀ {id versions}, (id, versions) ∈ records.entries →
        l.versionsAt (scopeKey cycle.sourceRef cycle.sourceEpoch cycle.bucketId share user) id = some versions := by
      intro id versions hmem
      unfold versionsAt
      rw [hrecords, bind_some, mem_entries_iff.mp hmem]
    have hperm : (chargedRequests delivered cycle share user).Perm
        ((records.entries.filter (startedIn cycle)).map Prod.fst) := by
      have hnodup : (chargedRequests delivered cycle share user).Nodup := nodup_dedup _
      refine (perm_ext_iff_of_nodup hnodup (records.nodup_keys.sublist (filter_sublist.map _))).mpr fun id => ?_
      rw [mem_chargedRequests h, List.mem_map]
      constructor
      · rintro ⟨versions, hv, hin⟩
        refine ⟨(id, versions), mem_filter.mpr ⟨?_, hin⟩, rfl⟩
        unfold versionsAt at hv
        rw [hrecords, bind_some] at hv
        exact mem_entries_iff.mpr hv
      · rintro ⟨⟨id', versions⟩, hmem, rfl⟩
        rw [mem_filter] at hmem
        exact ⟨versions, hlookup hmem.1, hmem.2⟩
    have hvalues : recordsOf l (scopeKey cycle.sourceRef cycle.sourceEpoch cycle.bucketId share user) =
        records.entries.map Prod.snd := by
      unfold recordsOf
      rw [hrecords]
      rfl
    rw [(hperm.map _).sum_eq, List.map_map, sum_filter_ite, hvalues, sum_visible, List.map_map]
    congr 1
    refine map_congr_left fun record hrecord => ?_
    obtain ⟨id, versions⟩ := record
    have hv := hlookup hrecord
    have hcurrent : versionAt l.watermark versions = versions.getLast? :=
      versionAt_current fun e he => (hexact.fits hv e he).2.2.1
    have hnonempty : versions ≠ [] := by
      rintro rfl
      exact hexact.nonempty hv
    have hlast : versions.getLast? = some (versions.getLast hnonempty) := getLast?_eq_some_getLast hnonempty
    obtain ⟨log, hhigh, htokens, hcount⟩ := h.highest_eq hexact hv hlast
    simp only [Function.comp_apply, hcurrent, startedIn, hlast, any_some, decide_eq_true_eq]
    by_cases hin : cycleContains cycle (versions.getLast hnonempty).attribution.startedAtMs
    · rw [filter_some_pos (by simpa using hin), if_pos hin, hhigh, map_some, getD_some, hft log _ htokens hcount]
      rfl
    · rw [filter_some_neg (by simpa using hin), if_neg hin]
      rfl

theorem query_current {m : Meter} (h : m.Steady) (hfits : m.FitsMemory) (cycle : AccountQuotaCycle)
    (share user : String) (r : ℕ × ℕ) :
    m.ledger.query cycle share user m.ledger.watermark = .ok r ↔ m.ledger.CompleteFor cycle ∧
      r = (usedTokens m.delivered cycle share user, usedRequests m.delivered cycle share user) ∧
      r.1 ≤ u64Max ∧ r.2 ≤ u64Max := by
  obtain ⟨hexact, htracks⟩ := h hfits
  have htokens := visible_current (f := UsageLog.quotaTokens) (t := tokens) hexact
    htracks cycle share user fun _ _ htokens _ => htokens
  have hrequests := visible_current
    (f := fun log => (decide (log.recordKind = .userInference)).toNat)
    (t := fun e => e.countRequest.toNat) hexact htracks cycle share user
    fun _ _ _ hcount => congrArg Bool.toNat hcount
  rw [query_eq_ok, htokens, hrequests, Prod.ext_iff, and_assoc]
  rfl

/-! ## The order of delivery -/

/-- Two logs of one request that tell the same story. -/
def Compatible (log log' : UsageLog) : Prop :=
  log.requestId = log'.requestId → log.quotaAttribution = log'.quotaAttribution ∧
    log.parentRequestId = log'.parentRequestId ∧ log.shareId = log'.shareId ∧
    log.userEmail.map Text.asciiLower = log'.userEmail.map Text.asciiLower ∧
    (log.recordKind = .userInference ↔ log'.recordKind = .userInference) ∧
    (log.usageRevision = log'.usageRevision → log.quotaTokens = log'.quotaTokens)

instance (log log' : UsageLog) : Decidable (Compatible log log') := by
  unfold Compatible
  infer_instance

def Valid (log : UsageLog) : Prop := default.validateLog log = .ok ()

theorem logScope_congr {log' : UsageLog} (a : QuotaAttribution) (hshare : log.shareId = log'.shareId)
    (huser : log.userEmail.map Text.asciiLower = log'.userEmail.map Text.asciiLower) :
    logScope a log = logScope a log' := by
  have hlower : ∀ user : Option String, Text.asciiLower (user.getD "") = (user.map Text.asciiLower).getD "" := by
    intro user
    cases user with
    | none => decide
    | some user => rfl
  unfold logScope scopeKey
  rw [hshare, hlower, hlower, huser]

theorem validateLog_iff (hexact : Exact l) (h : Tracks l delivered)
    (hcompatible : ∀ log' ∈ delivered, Compatible log log') : l.validateLog log = .ok () ↔ Valid log := by
  have hknown : ∀ {scope}, l.recordScopes.get? log.requestId = some scope →
      ∃ a, log.quotaAttribution = some a ∧ scope = logScope a log := by
    intro scope hscope
    obtain ⟨versions, hv⟩ := isSome_iff_exists.mp (hexact.recorded hscope)
    have hnonempty : versions ≠ [] := by
      rintro rfl
      exact hexact.nonempty hv
    obtain ⟨log', hlog', a, share, user, w, hm, hscope', hid, -⟩ := h.origin hv (getLast?_eq_some_getLast hnonempty)
    obtain ⟨ha, -, hshare, huser, -⟩ := hcompatible log' hlog' hid.symm
    exact ⟨a, ha.trans (metered_some hm).1, by rw [← hscope', logScope_congr a hshare huser]⟩
  unfold Valid validateLog
  rw [previousScope_eq hexact.scope_eq, previousScope_eq Exact.default.scope_eq]
  cases ha : log.quotaAttribution with
  | none =>
    have hnone : l.recordScopes.get? log.requestId = none := by
      cases hscope : l.recordScopes.get? log.requestId with
      | none => rfl
      | some scope =>
        obtain ⟨a, hsome, -⟩ := hknown hscope
        rw [ha] at hsome
        cases hsome
    rw [hnone, hexact.schema]
    rfl
  | some a =>
    have hscopes : ∀ scope ∈ l.recordScopes.get? log.requestId, scope = logScope a log := by
      intro scope hscope
      obtain ⟨a', ha', heq⟩ := hknown hscope
      rw [ha] at ha'
      cases ha'
      exact heq
    have hlast : ∀ previous, (l.versionsAt (logScope a log) log.requestId).bind getLast? =
        some previous → Repeats previous a log ∧
          (previous.usageRevision = log.usageRevision → previous.tokens = log.quotaTokens) := by
      intro previous hprevious
      obtain ⟨versions, hv, hlast⟩ := bind_eq_some_iff.mp hprevious
      obtain ⟨log', hlog', a', share, user, w, hm, -, hid, rfl⟩ := h.origin hv hlast
      obtain ⟨hattribution, hparent, -, -, hkind, htokens⟩ := hcompatible log' hlog' hid.symm
      rw [(metered_some hm).1, ha] at hattribution
      cases hattribution
      refine ⟨⟨rfl, hparent.symm, ?_⟩, fun hrev => (htokens hrev.symm).symm⟩
      simp only [newEntry, hkind]
    simp only [hexact.schema, show default.schemaVersion = 1 from rfl,
      show default.recordScopes.get? log.requestId = none from rfl,
      show default.versionsAt (logScope a log) log.requestId = none from rfl, ensure_of hscopes, bind_none]
    cases hprevious : (l.versionsAt (logScope a log) log.requestId).bind getLast? with
    | none => simp [ensure]
    | some previous =>
      obtain ⟨hrepeats, htokens⟩ := hlast previous hprevious
      simp only [ensure_of hrepeats, ensure_of htokens]
      exact Iff.rfl

def recordedLogs (ops : List QuotaOp) : List UsageLog :=
  ops.filterMap fun op => match op with
    | .record log => some log
    | .beginCollection _ _ => none

theorem mem_recordedLogs {ops : List QuotaOp} : log ∈ recordedLogs ops ↔ QuotaOp.record log ∈ ops := by
  unfold recordedLogs
  rw [mem_filterMap]
  constructor
  · rintro ⟨op, hop, hlog⟩
    cases op with
    | beginCollection source atMs => cases hlog
    | record log' =>
      cases hlog
      exact hop
  · exact fun hop => ⟨_, hop, rfl⟩

theorem Meter.delivered_record {m : Meter} (h : Exact m.ledger) (hroom : m.FitsMemory) {new : UsageLog} :
    log ∈ (m.step (.record new)).delivered ↔ log ∈ m.delivered ∨ log = new ∧ m.ledger.validateLog new = .ok () := by
  have hcases := record_cases h hroom new
  unfold step
  dsimp only
  generalize m.ledger.record new = r at hcases ⊢
  cases hcases with
  | rejected he => simp [he]
  | unmetered hok hm => simp [hok]
  | stale hok hm hlog hv hlast hrev => simp [hok]
  | appended hok hm hlog hrev => simp [hok]

/-- Exactly the logs that can be recorded are delivered. -/
theorem delivered_iff {ops : List QuotaOp} (htyped : ∀ op ∈ ops, op.Typed) (hfits : (run step default ops).FitsMemory)
    (hcompatible : ∀ log ∈ recordedLogs ops, ∀ log' ∈ recordedLogs ops, Compatible log log') (log : UsageLog) :
    log ∈ (run step default ops).delivered ↔ log ∈ recordedLogs ops ∧ Valid log := by
  induction ops using reverseRecOn generalizing log with
  | nil => exact ⟨fun h => absurd h not_mem_nil, fun h => absurd h.1 not_mem_nil⟩
  | append_singleton ops op ih =>
    have htyped' : ∀ op ∈ ops, op.Typed := fun op' hop' => htyped op' (mem_append_left _ hop')
    have hsub : ∀ log ∈ recordedLogs ops, log ∈ recordedLogs (ops ++ [op]) := by
      intro log hlog
      rw [mem_recordedLogs] at hlog ⊢
      exact mem_append_left _ hlog
    rw [run_append_singleton] at hfits ⊢
    have hroom := lt_of_le_of_lt (watermark_le _ op) hfits
    have hold := ih htyped' hroom fun log hlog log' hlog' =>
      hcompatible log (hsub log hlog) log' (hsub log' hlog')
    obtain ⟨hexact, htracks⟩ := steady_of_run htyped' hroom
    cases op with
    | beginCollection source atMs =>
      show log ∈ (run step default ops).delivered ↔ _
      rw [hold, mem_recordedLogs, mem_recordedLogs]
      simp
    | record new =>
      have hlogs : ∀ log, log ∈ recordedLogs (ops ++ [.record new]) ↔ log ∈ recordedLogs ops ∨ log = new := by
        intro log
        rw [mem_recordedLogs, mem_recordedLogs]
        simp
      have hjudged : (run step default ops).ledger.validateLog new = .ok () ↔ Valid new := by
        refine validateLog_iff hexact htracks fun log' hlog' => ?_
        exact hcompatible new ((hlogs new).mpr (.inr rfl)) log' ((hlogs log').mpr (.inl ((hold log').mp hlog').1))
      rw [delivered_record hexact hroom, hjudged, hold, hlogs]
      constructor
      · rintro (⟨hmem, hvalid⟩ | ⟨rfl, hvalid⟩)
        · exact ⟨.inl hmem, hvalid⟩
        · exact ⟨.inr rfl, hvalid⟩
      · rintro ⟨hmem | rfl, hvalid⟩
        · exact .inl ⟨hmem, hvalid⟩
        · exact .inr ⟨rfl, hvalid⟩

/-- The total depends on the set of the logs and not on their order. -/
theorem highest_congr {logs logs' : List UsageLog} (hmem : ∀ log, log ∈ logs ↔ log ∈ logs')
    (hcompatible : ∀ log ∈ logs, ∀ log' ∈ logs, Compatible log log')
    (hf : ∀ log log', log.quotaTokens = log'.quotaTokens →
      (log.recordKind = .userInference ↔ log'.recordKind = .userInference) → f log = f log') (id : String) :
    (highest logs id).map f = (highest logs' id).map f := by
  have hfilter : ∀ log, log ∈ (logs.filter fun log => (metered log).isSome ∧ log.requestId = id) ↔
      log ∈ logs'.filter fun log => (metered log).isSome ∧ log.requestId = id := by
    intro log
    rw [mem_filter, mem_filter, hmem]
  cases h : highest logs id with
  | none =>
    have hnil := argmax_eq_none.mp h
    have hnil' : (logs'.filter fun log => (metered log).isSome ∧ log.requestId = id) = [] := by
      refine eq_nil_iff_forall_not_mem.mpr fun log hlog => ?_
      rw [← hfilter, hnil] at hlog
      exact absurd hlog not_mem_nil
    rw [show highest logs' id = none from argmax_eq_none.mpr hnil']
  | some log =>
    have hlog := argmax_mem h
    cases h' : highest logs' id with
    | none =>
      have hnil := argmax_eq_none.mp h'
      rw [hfilter, hnil] at hlog
      exact absurd hlog not_mem_nil
    | some log' =>
      have hlog' := (hfilter log').mpr (argmax_mem h')
      have hle : log'.usageRevision ≤ log.usageRevision := le_of_mem_argmax hlog' h
      have hge : log.usageRevision ≤ log'.usageRevision := le_of_mem_argmax ((hfilter log).mp hlog) h'
      have hid : log.requestId = log'.requestId := by
        have hl := (mem_filter.mp hlog).2
        have hl' := (mem_filter.mp hlog').2
        simp only [decide_eq_true_eq] at hl hl'
        rw [hl.2, hl'.2]
      obtain ⟨-, -, -, -, hkind, htokens⟩ := hcompatible log (mem_filter.mp hlog).1 log' (mem_filter.mp hlog').1 hid
      rw [map_some, map_some, hf log log' (htokens (le_antisymm hge hle)) hkind]

theorem chargedTotal_congr {logs logs' : List UsageLog} (hmem : ∀ log, log ∈ logs ↔ log ∈ logs')
    (hcompatible : ∀ log ∈ logs, ∀ log' ∈ logs, Compatible log log')
    (hf : ∀ log log', log.quotaTokens = log'.quotaTokens →
      (log.recordKind = .userInference ↔ log'.recordKind = .userInference) → f log = f log')
    (cycle : AccountQuotaCycle) (share user : String) :
    chargedTotal f logs cycle share user = chargedTotal f logs' cycle share user := by
  have hperm : (chargedRequests logs cycle share user).Perm (chargedRequests logs' cycle share user) := by
    refine (List.perm_ext_iff_of_nodup (List.nodup_dedup _) (List.nodup_dedup _)).mpr fun id => ?_
    simp only [List.mem_dedup, List.mem_map, List.mem_filter, hmem]
  unfold chargedTotal
  rw [(hperm.map _).sum_eq]
  congr 1
  exact List.map_congr_left fun id _ => by rw [highest_congr hmem hcompatible hf]

/-! ## The result -/

/-- Whatever logs were recorded, in whatever order and however often: the ledger passes its check; an
answer at the present watermark is the total of the highest revisions, each request once; two
deliveries of the same compatible logs answer alike; and an answer at a watermark that was reached
stays the answer at it. Only a ledger that is complete for the cycle answers. -/
theorem exact_token_quota (ops : List QuotaOp) (htyped : ∀ op ∈ ops, op.Typed)
    (hfits : (run step default ops).FitsMemory) :
    (run step default ops).ledger.validate = .ok () ∧
    (∀ cycle share user r, (run step default ops).ledger.query cycle share user
        (run step default ops).ledger.watermark = .ok r ↔ (run step default ops).ledger.CompleteFor cycle ∧
      r = (usedTokens (run step default ops).delivered cycle share user,
        usedRequests (run step default ops).delivered cycle share user) ∧ r.1 ≤ u64Max ∧ r.2 ≤ u64Max) ∧
    (∀ ops', (∀ op ∈ ops', op.Typed) → (run step default ops').FitsMemory →
      (∀ log, log ∈ recordedLogs ops ↔ log ∈ recordedLogs ops') →
      (∀ log ∈ recordedLogs ops, ∀ log' ∈ recordedLogs ops, Compatible log log') →
      ∀ cycle share user, (run step default ops).ledger.CompleteFor cycle →
      (run step default ops').ledger.CompleteFor cycle → ∀ r, (run step default ops).ledger.query cycle share user
          (run step default ops).ledger.watermark = .ok r ↔ (run step default ops').ledger.query cycle share user
          (run step default ops').ledger.watermark = .ok r) ∧
    ∀ later, (∀ op ∈ later, op.Typed) → (run step default (ops ++ later)).FitsMemory →
      ∀ cycle share user watermark, watermark ≤ (run step default ops).ledger.watermark →
      (run step default ops).ledger.CompleteFor cycle →
      (run step default (ops ++ later)).ledger.CompleteFor cycle →
      (run step default (ops ++ later)).ledger.query cycle share user watermark =
        (run step default ops).ledger.query cycle share user watermark := by
  have hsteady := steady_of_run htyped
  refine ⟨(hsteady hfits).1.validate_ok,
    fun cycle share user r => query_current hsteady hfits cycle share user r, ?_, ?_⟩
  · intro ops' htyped' hfits' hlogs hcompatible cycle share user hcomplete hcomplete' r
    have hcompatible' : ∀ log ∈ recordedLogs ops', ∀ log' ∈ recordedLogs ops', Compatible log log' :=
      fun log hlog log' hlog' => hcompatible log ((hlogs log).mpr hlog) log' ((hlogs log').mpr hlog')
    have hdelivered : ∀ log, log ∈ (run step default ops).delivered ↔ log ∈ (run step default ops').delivered := by
      intro log
      rw [delivered_iff htyped hfits hcompatible, delivered_iff htyped' hfits' hcompatible', hlogs]
    have hstory : ∀ log ∈ (run step default ops).delivered,
        ∀ log' ∈ (run step default ops).delivered, Compatible log log' := by
      intro log hlog log' hlog'
      rw [delivered_iff htyped hfits hcompatible] at hlog hlog'
      exact hcompatible log hlog.1 log' hlog'.1
    have htokens : usedTokens (run step default ops).delivered cycle share user =
        usedTokens (run step default ops').delivered cycle share user :=
      chargedTotal_congr hdelivered hstory (fun _ _ htokens _ => htokens) cycle share user
    have hrequests : usedRequests (run step default ops).delivered cycle share user =
        usedRequests (run step default ops').delivered cycle share user :=
      chargedTotal_congr hdelivered hstory (fun _ _ _ hkind => by simp only [hkind]) cycle share user
    rw [query_current hsteady hfits, query_current (steady_of_run htyped') hfits', htokens, hrequests]
    simp only [hcomplete, hcomplete']
  · intro later htyped' hfits' cycle share user watermark hw hcomplete hcomplete'
    rw [run_append] at hfits' hcomplete' ⊢
    have hpast := run_past hsteady htyped' hfits' hw
      (scopeKey cycle.sourceRef cycle.sourceEpoch cycle.bucketId share user)
    rw [query_eq, query_eq, ensure_of hcomplete, ensure_of hcomplete', ok_bind, ok_bind]
    exact visible_congr hpast

/-! ### A delivery -/

def meteredLog (revision tokens : ℕ) : UsageLog :=
  { requestId := "request"
    quotaAttribution := some ⟨"source", 1, "shared_weekly", 4123⟩
    startedAtMs := 4123
    totalTokens := some tokens
    shareId := some "share"
    userEmail := some "User@example.com"
    usageRevision := revision }

def weeklyCycle : AccountQuotaCycle :=
  { streamIncarnation := "stream", sourceRef := "source", sourceEpoch := 1, bucketId := "shared_weekly",
    cycleId := "cycle", cycleSequence := 1, cycleRevision := 1, startsAtMs := 4000, endsAtMs := some 9000,
    basis := .upstreamWindow, observedAtMs := 4000, eventId := "event" }

/-- Collection begins, the second revision comes first, then the first one and the second again. -/
def lateDelivery : List QuotaOp :=
  [.beginCollection "source" 1000, .record (meteredLog 2 30), .record (meteredLog 1 10), .record (meteredLog 2 30)]

theorem exact_token_quota_late :
    (run step default lateDelivery).ledger.validate = .ok () ∧
      (run step default lateDelivery).ledger.query weeklyCycle "share" "user@example.com" 1 = .ok (30, 1) := by
  have hfits : (run step default lateDelivery).FitsMemory := by decide
  have hresult := exact_token_quota lateDelivery (by decide) hfits
  refine ⟨hresult.1, ?_⟩
  have hwatermark : (run step default lateDelivery).ledger.watermark = 1 := by decide
  have hanswer := (hresult.2.1 weeklyCycle "share" "user@example.com" (30, 1)).mpr (by decide)
  rwa [hwatermark] at hanswer

/-- Without a start of collection the ledger answers nothing, whatever was recorded. -/
theorem recorded_usage_not_answered :
    (default.record (meteredLog 0 10)).1 = .ok true ∧
    (default.record (meteredLog 0 10)).2.query weeklyCycle "share" "user@example.com"
      (default.record (meteredLog 0 10)).2.watermark = .error .historyIncomplete := by
  decide

end CcSwitchServer.QuotaUsage
