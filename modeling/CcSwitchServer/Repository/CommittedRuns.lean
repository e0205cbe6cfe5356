import CcSwitchServer.Repository.Import

/-! # Runs of the committed repository

Calls run one after the other, each as one transaction, with whatever stores their callers hold.
-/

namespace CcSwitchServer.Repository
open Foundations Sharing

variable {Λ : Type} {x : Externals Λ} {db t : Database Λ}

/-! ## One step -/

variable {op : Op x}

/-- Rows and documents stay in step. -/
theorem Effect.mirrors (he : Effect db op t) (h : Mirrors x db) : Mirrors x t := by
  refine ⟨?_, ?_, ?_⟩
  · cases hop : op.providers with
    | none =>
      obtain ⟨hrows, hdocument⟩ := he.providersKept hop
      rw [hrows, hdocument]
      exact h.providers
    | some store =>
      have hp := he.providers store hop
      obtain ⟨read, hread, hperm⟩ := hp.readBack
      exact ⟨read, hread, (hp.written.lists.map_entries providerColumns).trans (hperm.symm.map StoredProvider.columns)⟩
  · cases hop : op.accounts with
    | none =>
      obtain ⟨hrows, hdocument⟩ := he.accountsKept hop
      rw [hrows, hdocument]
      exact h.accounts
    | some store =>
      have hp := he.accounts store hop
      rw [hp.document]
      exact hp.written.lists.map_entries accountColumns
  · cases hop : op.shares with
    | none =>
      obtain ⟨hrows, hdocument⟩ := he.sharesKept hop
      rw [hrows, hdocument]
      exact h.shares
    | some store =>
      have hp := he.shares store hop
      rw [hp.document]
      exact hp.lists.map_entries shareColumns

theorem Effect.digested (he : Effect db op t) (h : Digested x db) : Digested x t := by
  refine ⟨fun k row hrow => ?_, fun k row hrow => ?_, fun k row hrow => ?_, fun k row hrow => ?_⟩
  · cases hop : op.providers with
    | none =>
      rw [(he.providersKept hop).1] at hrow
      exact h.providers k row hrow
    | some store =>
      obtain ⟨stored, -, heq⟩ := (he.providers store hop).written.lists.get?.mp hrow
      cases heq
      rfl
  · cases hop : op.accounts with
    | none =>
      rw [(he.accountsKept hop).1] at hrow
      exact h.accounts k row hrow
    | some store =>
      obtain ⟨account, -, heq⟩ := (he.accounts store hop).written.lists.get?.mp hrow
      cases heq
      rfl
  · cases hop : op.shares with
    | none =>
      rw [(he.sharesKept hop).1] at hrow
      exact h.shares k row hrow
    | some store =>
      obtain ⟨share, -, heq⟩ := (he.shares store hop).lists.get?.mp hrow
      cases heq
      rfl
  · rcases he.usageRows k row hrow with ⟨log, rfl⟩ | hold
    · rfl
    · exact h.usageRecords k row hold

/-- The stores a call writes sort alike by key and by text. -/
def Op.SortsAlike (op : Op x) : Prop :=
  (∀ store, op.providers = some store → ProvidersSortAlike store.providers) ∧
    ∀ store, op.accounts = some store → AccountsSortAlike store.accounts

/-- The hashes agree as long as the stores written sort alike; an id with a NUL can break that. -/
theorem Effect.hashesAgree (he : Effect db op t) (ht : Mirrors x t) (halike : op.SortsAlike)
    (h : HashesAgree x db) : HashesAgree x t := by
  refine ⟨fun providers hproviders => ?_, ?_⟩
  · cases hop : op.providers with
    | none =>
      obtain ⟨hrows, hdocument⟩ := he.providersKept hop
      have hhash := h.providers providers (hdocument ▸ hproviders)
      unfold providerKeyHash at hhash ⊢
      rwa [hrows]
    | some store =>
      have hp := he.providers store hop
      obtain ⟨read, hread, hperm⟩ := hp.readBack
      rw [hread] at hproviders
      cases hproviders
      refine providerKeyHash_eq ?_ ((halike.1 store hop).perm hperm)
      exact (hp.written.lists.map_entries providerColumns).trans (hperm.symm.map StoredProvider.columns)
  · cases hop : op.accounts with
    | none =>
      obtain ⟨hrows, hdocument⟩ := he.accountsKept hop
      have hhash := h.accounts
      unfold accountKeyHash at hhash ⊢
      rwa [hrows, hdocument]
    | some store =>
      have hp := he.accounts store hop
      have haccounts := ht.accounts
      rw [hp.document] at haccounts ⊢
      exact accountKeyHash_eq haccounts (halike.2 store hop)

/-- Nothing goes back: of a key that stays, the revisions grow, and a share goes with its tombstone only. -/
structure Advances (db : Database Λ) (op : Op x) (t : Database Λ) : Prop where
  providers : ∀ k row row', db.providers.get? k = some row → t.providers.get? k = some row' → row.allows row'
  accounts : ∀ k row row', db.accounts.get? k = some row → t.accounts.get? k = some row' → row.allows row'
  shares : ∀ id row row', db.shares.get? id = some row → t.shares.get? id = some row' →
    row.configRevision ≤ row'.configRevision
  deletions : ∀ id row, db.shares.get? id = some row → t.shares.get? id = none →
    ∃ store, op.shares = some store ∧ id ∈ store.pendingRouterDeletes
  usageRecords : op.replacesUsage = false → ∀ id row, db.usageRecords.get? id = some row →
    ∃ row', t.usageRecords.get? id = some row' ∧ row.allows row'

theorem ProviderRow.allows_refl (row : ProviderRow) : row.allows row := .inr ⟨rfl, Nat.le_refl _⟩

theorem AccountRow.allows_refl (row : AccountRow) : row.allows row := .inr ⟨rfl, Nat.le_refl _⟩

theorem Advances.refl (db : Database Λ) (op : Op x) : Advances db op db where
  providers k row row' hrow hrow' := by
    rw [hrow] at hrow'
    cases hrow'
    exact row.allows_refl
  accounts k row row' hrow hrow' := by
    rw [hrow] at hrow'
    cases hrow'
    exact row.allows_refl
  shares id row row' hrow hrow' := by
    rw [hrow] at hrow'
    cases hrow'
    exact Nat.le_refl _
  deletions id row hrow hnone := by
    rw [hrow] at hnone
    cases hnone
  usageRecords _ id row hrow := ⟨row, hrow, Nat.le_refl _⟩

/-- No writer with an older store gets through. -/
theorem Effect.advances (he : Effect db op t) : Advances db op t := by
  refine ⟨fun k row row' hrow hrow' => ?_, fun k row row' hrow hrow' => ?_, fun id row row' hrow hrow' => ?_,
    fun id row hrow hnone => ?_, he.usageAdvances⟩
  · cases hop : op.providers with
    | none =>
      rw [(he.providersKept hop).1] at hrow'
      exact (Advances.refl db op).providers k row row' hrow hrow'
    | some store => exact (he.providers store hop).written.advances k row row' hrow hrow'
  · cases hop : op.accounts with
    | none =>
      rw [(he.accountsKept hop).1] at hrow'
      exact (Advances.refl db op).accounts k row row' hrow hrow'
    | some store => exact (he.accounts store hop).written.advances k row row' hrow hrow'
  · cases hop : op.shares with
    | none =>
      rw [(he.sharesKept hop).1] at hrow'
      exact (Advances.refl db op).shares id row row' hrow hrow'
    | some store =>
      have hp := he.shares store hop
      obtain ⟨share, hshare, heq⟩ := hp.lists.get?.mp hrow'
      cases heq
      exact hp.replaces.advances _ row hrow share hshare rfl
  · cases hop : op.shares with
    | none =>
      rw [(he.sharesKept hop).1, hrow] at hnone
      cases hnone
    | some store =>
      have hp := he.shares store hop
      refine ⟨store, rfl, hp.replaces.deletes id row hrow fun share hshare hid => ?_⟩
      have hget := hp.lists.get?.mpr ⟨share, hshare, rfl⟩
      change t.shares.get? share.id = some _ at hget
      rw [hid, hnone] at hget
      cases hget

/-! ## Whole runs -/

/-- What holds in every state of a committed repository. -/
structure Sound (x : Externals Λ) (db : Database Λ) : Prop where
  mirrors : Mirrors x db
  digested : Digested x db
  referring : Referring db

theorem sound_step (h : Sound x db) : Sound x (commit (transact x) db op) := by
  rcases commit_cases (transact x) db op with hok | ⟨-, hsame⟩
  · have he := transact_effect hok
    exact ⟨he.mirrors h.mirrors, he.digested h.digested, he.referring h.referring⟩
  · rwa [hsame]

theorem advances_step (db : Database Λ) (op : Op x) : Advances db op (commit (transact x) db op) := by
  rcases commit_cases (transact x) db op with hok | ⟨-, hsame⟩
  · exact (transact_effect hok).advances
  · rw [hsame]
    exact Advances.refl db op

theorem hashesAgree_step (db : Database Λ) (op : Op x) (h : Sound x db ∧ HashesAgree x db) (halike : op.SortsAlike) :
    Sound x (commit (transact x) db op) ∧ HashesAgree x (commit (transact x) db op) := by
  refine ⟨sound_step h.1, ?_⟩
  rcases commit_cases (transact x) db op with hok | ⟨-, hsame⟩
  · have he := transact_effect hok
    exact he.hashesAgree (he.mirrors h.1.mirrors) halike h.2
  · rw [hsame]
    exact h.2

variable {source : SourceFiles Λ}

theorem importFiles_sound (h : importFiles x source = .ok db) : Sound x db ∧ HashesAgree x db := by
  obtain ⟨providers, hproviders, h⟩ := bind_eq_ok.mp h
  obtain ⟨accounts, haccounts, h⟩ := bind_eq_ok.mp h
  obtain ⟨shares, hshares, h⟩ := bind_eq_ok.mp h
  obtain ⟨imported, himported, h⟩ := bind_eq_ok.mp h
  obtain ⟨_, hverified, h⟩ := bind_eq_ok.mp h
  cases h
  obtain ⟨read, hread, hrest⟩ := bind_eq_ok.mp hproviders
  obtain ⟨_, -, hrest⟩ := bind_eq_ok.mp hrest
  cases hrest
  obtain ⟨_, -, hrest⟩ := bind_eq_ok.mp haccounts
  cases hrest
  obtain ⟨_, -, hrest⟩ := bind_eq_ok.mp hshares
  cases hrest
  obtain ⟨⟨hprovidersJson, haccountsJson, hsharesJson⟩, ⟨_, hproviderRows⟩, ⟨_, haccountRows⟩, ⟨_, hshareRows⟩,
    husageRows, hreferring⟩ := importDomainRows_ok rfl himported
  obtain ⟨_, -, hverified⟩ := bind_eq_ok.mp hverified
  obtain ⟨_, -, hverified⟩ := bind_eq_ok.mp hverified
  obtain ⟨_, -, hverified⟩ := bind_eq_ok.mp hverified
  obtain ⟨_, -, hverified⟩ := bind_eq_ok.mp hverified
  obtain ⟨_, hproviderHash, haccountHash⟩ := bind_eq_ok.mp hverified
  refine ⟨⟨⟨⟨providers, by rwa [hprovidersJson], hproviderRows.map_entries providerColumns⟩, ?_, ?_⟩,
    ⟨fun k row hrow => ?_, fun k row hrow => ?_, fun k row hrow => ?_, fun k row hrow => ?_⟩, hreferring⟩,
    fun ps hps => ?_, ?_⟩
  · rw [haccountsJson]
    exact haccountRows.map_entries accountColumns
  · rw [hsharesJson]
    exact hshareRows.map_entries shareColumns
  · obtain ⟨_, -, heq⟩ := hproviderRows.get?.mp hrow
    cases heq
    rfl
  · obtain ⟨_, -, heq⟩ := haccountRows.get?.mp hrow
    cases heq
    rfl
  · obtain ⟨_, -, heq⟩ := hshareRows.get?.mp hrow
    cases heq
    rfl
  · obtain ⟨_, -, heq⟩ := husageRows.get?.mp hrow
    cases heq
    rfl
  · rw [hprovidersJson, hread] at hps
    cases hps
    exact ensure_eq_ok.mp hproviderHash
  · rw [haccountsJson]
    exact ensure_eq_ok.mp haccountHash

/-- In every run from the import, rows and documents agree, digests and references are right, and nothing goes
back; while the stores written sort alike, a backup's count and hash checks pass. -/
theorem committed_repository (h : importFiles x source = .ok db) (ops : List (Op x)) :
    Sound x (run (commit (transact x)) db ops) ∧
      EachStep (commit (transact x)) (fun s op => Advances s op (commit (transact x) s op)) db ops ∧
      ((∀ op ∈ ops, op.SortsAlike) → ∀ providers accounts shares,
        loadProviders x (run (commit (transact x)) db ops).providersJson = .ok providers →
        loadAccounts x (run (commit (transact x)) db ops).accountsJson = .ok accounts →
        loadShares x (run (commit (transact x)) db ops).sharesJson = .ok shares →
        validateAuthoritativeGraph x (run (commit (transact x)) db ops) =
          x.subscriptionReferenceGraph providers accounts shares) := by
  have himported := importFiles_sound h
  refine ⟨?_, EachStep.of_forall advances_step db ops, fun halike providers accounts shares hp ha hs => ?_⟩
  · have hstep : ∀ (s : Database Λ) (op : Op x), Sound x s → True → Sound x (commit (transact x) s op) :=
      fun s op hsound _ => sound_step hsound
    exact run_invariant hstep himported.1 (EachStep.of_forall (fun _ _ => trivial) db ops)
  · have hrun := run_invariant hashesAgree_step himported (EachStep.of_mem halike db)
    exact validateAuthoritativeGraph_eq hrun.1.mirrors hrun.2 hp ha hs

/-! ## Concrete runs -/

/-- Externals that pass everything; the digest of a text is the text. -/
def plainExternals : Externals Unit where
  sha256Hex text := text
  providerText record := record.providerId
  accountText account := account.id
  shareText share := share.id
  usageText log := log.requestId
  secretsEncrypted _ := true
  usesLegacyPayload _ := false
  canonicalProviderType app _ := .ok (if app = .codex then .codex else .claude)
  managedAccountBinding _ := none
  legacyRuntimeView stored := stored
  validProviders _ := .ok ()
  validAccounts _ := .ok ()
  validShares _ := .ok ()
  subscriptionReferenceGraph _ _ _ := .ok ()
  archive _ _ := .ok ()
  initializeValues _ _ _ _ := .ok ()
  upsertQuota _ _ := .ok ()
  settleValue _ _ := .ok ()
  finalizeMarket _ _ := .ok ()
  mergeQuota _ _ := .ok ()

def noFiles : SourceFiles Unit := ⟨none, none, none, ⟨[], ()⟩, ()⟩

def accountPair (id id' : String) : AccountStore where
  accounts := [⟨.claudeOAuth, id, 1, 0, .null⟩, ⟨.claudeOAuth, id', 1, 0, .null⟩]

def providerPair (revision : ℕ) : ProviderStore plainExternals where
  providers := [⟨.claude, "home", .claude, revision, 0, .null⟩, ⟨.codex, "tools", .codex, revision, 0, .null⟩]
  format := .s2
  isSealed := true
  vaultSound := true
  storeGeneration := 1
  classified := by
    intro stored hstored
    rcases List.mem_pair.mp hstored with rfl | rfl <;> rfl

/-- A share of one provider with a binding to the other one. -/
def boundShare : ShareStore where
  shares := [⟨"s", .claude, "home", .claude, 1, [⟨.codex, "tools", .codex⟩], .null⟩]

/-- The stores, a request of the share, and a provider store that is one revision behind. -/
def graphOps : List (Op plainExternals) :=
  [.persistReferenceGraph (providerPair 2) (accountPair "p" "q") boundShare,
    .upsertUsageLog ⟨"r", 5, some "s", some "home", 1, .null⟩, .persistProviders (providerPair 1)]

def committed (ops : List (Op plainExternals)) : Database Unit :=
  run (commit (transact plainExternals)) { ledgers := () } ops

theorem providerPair_sortAlike (revision : ℕ) : ProvidersSortAlike (providerPair revision).providers := by
  have hfree : (NulFree "claude" ∧ NulFree "home") ∧ NulFree "codex" ∧ NulFree "tools" := by
    unfold NulFree
    decide
  refine sortsAlike_of_nulFree (fun _ => rfl) fun stored hstored => ?_
  rcases List.mem_pair.mp hstored with rfl | rfl
  · exact hfree.1
  · exact hfree.2

theorem accountPair_sortAlike : AccountsSortAlike (accountPair "p" "q").accounts := by
  have hfree : NulFree "claude_oauth" ∧ NulFree "p" ∧ NulFree "q" := by
    unfold NulFree
    decide
  refine sortsAlike_of_nulFree (fun _ => rfl) fun account haccount => ?_
  rcases List.mem_pair.mp haccount with rfl | rfl
  · exact ⟨hfree.1, hfree.2.1⟩
  · exact ⟨hfree.1, hfree.2.2⟩

theorem graphOps_sortAlike : ∀ op ∈ graphOps, op.SortsAlike := by
  intro op hop
  rcases List.mem_cons.mp hop with rfl | hop
  · exact ⟨fun _ h => Option.some.inj h ▸ providerPair_sortAlike 2, fun _ h => Option.some.inj h ▸ accountPair_sortAlike⟩
  · rcases List.mem_pair.mp hop with rfl | rfl
    · exact ⟨fun _ h => (by cases h), fun _ h => (by cases h)⟩
    · exact ⟨fun _ h => Option.some.inj h ▸ providerPair_sortAlike 1, fun _ h => (by cases h)⟩

/-- The rows of the first two calls stand, and the last call is refused. -/
theorem committed_repository_graph :
    (Sound plainExternals (committed graphOps) ∧
      EachStep (commit (transact plainExternals)) (fun s op => Advances s op (commit (transact plainExternals) s op))
        { ledgers := () } graphOps ∧
      validateAuthoritativeGraph plainExternals (committed graphOps) = .ok ()) ∧
    ((committed graphOps).shareBindings.size, (committed graphOps).usageRecords.size) = (2, 1) ∧
    transact plainExternals (committed graphOps) (.persistProviders (providerPair 1)) =
      .error "stale Provider revision/generation SQLite commit rejected" := by
  obtain ⟨hsound, hadvances, hvalid⟩ := @committed_repository _ plainExternals _ noFiles rfl graphOps
  have hproviders : loadProviders plainExternals (committed graphOps).providersJson =
      .ok (providerPair 2).providers := by rfl
  exact ⟨⟨hsound, hadvances, hvalid graphOps_sortAlike _ _ _ hproviders rfl rfl⟩, by decide, by rfl⟩

/-- The id of the second account is that of the first one with a NUL: the order of the keys is not the order of
their texts, and the hashes differ. -/
theorem nul_id_breaks_hash : importFiles plainExternals noFiles = .ok { ledgers := () } ∧
    validateAuthoritativeGraph plainExternals (committed [.persistAccounts (accountPair "p" "p\x00")]) =
      .error "staged SQLite Account rollback payload does not match normalized rows" :=
  ⟨rfl, by decide⟩

end CcSwitchServer.Repository
