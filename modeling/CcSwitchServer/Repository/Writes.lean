import CcSwitchServer.Repository.Transactions

/-! # What the loops of a transaction write

What a loop that came to its end has left in its table.
-/

namespace CcSwitchServer.Repository
open Foundations Sharing OrderedMap.Lists OrderedMap

variable {Λ : Type} {x : Externals Λ} {db : Database Λ}

variable {κ ν : Type} {table : OrderedMap TextPair ProviderRow} {providers : List StoredProvider} {db' : Database Λ}

theorem upsertRow_ok [LinearOrder κ] {allows : ν → ν → Prop} [∀ old new, Decidable (allows old new)]
    {stale : String} {table table' : OrderedMap κ ν} {row : κ × ν}
    (h : upsertRow allows stale table row = .ok table') :
    (∀ old, table.get? row.1 = some old → allows old row.2) ∧ table' = table.insert row.1 row.2 := by
  obtain ⟨_, hallows, h⟩ := bind_eq_ok.mp h
  cases h
  refine ⟨fun old hold => ?_, rfl⟩
  have hall := ensure_eq_ok.mp hallows
  rw [hold] at hall
  simpa using hall

theorem insertRow_ok [LinearOrder κ] {table table' : OrderedMap κ ν} {row : κ × ν}
    (h : insertRow table row = .ok table') : table.get? row.1 = none ∧ table' = table.insert row.1 row.2 := by
  obtain ⟨_, hnone, h⟩ := bind_eq_ok.mp h
  cases h
  exact ⟨Option.isNone_iff_eq_none.mp (ensure_eq_ok.mp hnone), rfl⟩

/-! ## Providers -/

variable {store : ProviderStore x} {document : ProviderDocument}
variable {payloads : OrderedMap TextPair ProviderRecordS2} {errors : UpsertErrors}

def providerEntry (x : Externals Λ) (stored : StoredProvider) : TextPair × (AppKind × ProviderRecordS2) :=
  (stored.key, (stored.app, recordFromStored x stored))

def providerRowFrom (x : Externals Λ) (stored : StoredProvider) : TextPair × ProviderRow :=
  providerRow x stored (recordFromStored x stored)

theorem encodeS2_ok (h : encodeS2 x store = .ok document) :
    ∃ records, document = .s2 store.storeGeneration records ∧
      OrderedMap.Lists records (providerEntry x) store.providers := by
  unfold encodeS2 at h
  obtain ⟨_, -, h⟩ := bind_eq_ok.mp h
  obtain ⟨_, -, h⟩ := bind_eq_ok.mp h
  obtain ⟨records, hrecords, h⟩ := bind_eq_ok.mp h
  obtain ⟨_, -, h⟩ := bind_eq_ok.mp h
  cases h
  refine ⟨records, rfl, ?_⟩
  refine foldlM_insert (fun t t' stored _ ht => ?_) lists_empty hrecords
  obtain ⟨_, -, ht⟩ := bind_eq_ok.mp ht
  obtain ⟨_, hnone, ht⟩ := bind_eq_ok.mp ht
  cases ht
  exact ⟨Option.isNone_iff_eq_none.mp (ensure_eq_ok.mp hnone), rfl⟩

theorem storedFromRecord_recordFromStored {stored : StoredProvider} (h : stored ∈ store.providers) :
    storedFromRecord x stored.app (recordFromStored x stored) = .ok stored := by
  unfold storedFromRecord recordFromStored
  cases hlegacy : x.usesLegacyPayload stored.body with
  | true => simp [ensure]; rfl
  | false =>
    simp only [Bool.false_eq_true, if_false, Option.isSome_none, store.classified stored h]
    rfl

/-- What a store is serialised to, and the payloads taken from it. -/
structure Serialized (x : Externals Λ) (providers : List StoredProvider) (document : ProviderDocument)
    (payloads : OrderedMap TextPair ProviderRecordS2) : Prop where
  nodup : (providers.map StoredProvider.key).Nodup
  payload : ∀ stored ∈ providers, payloads.get? stored.key = some (recordFromStored x stored)
  readBack : ∃ read, documentProviders x (some document) = .ok read ∧ read.Perm providers

theorem serialized (h : serializeProviderStore x store = .ok document)
    (hpayloads : encryptedProviderPayloads (some document) store.providers = .ok payloads) :
    Serialized x store.providers document payloads := by
  unfold serializeProviderStore at h
  unfold encryptedProviderPayloads at hpayloads
  cases hformat : store.format with
  | s1 =>
    rw [hformat] at h
    cases h
    split at hpayloads
    · rename_i hempty
      rw [List.isEmpty_iff.mp hempty]
      exact ⟨List.nodup_nil, (fun _ h => nomatch h), [], rfl, List.Perm.refl _⟩
    · cases hpayloads
  | s2 =>
    rw [hformat] at h
    obtain ⟨records, rfl, hlists⟩ := encodeS2_ok h
    refine ⟨hlists.nodup, fun stored hstored => ?_, ?_⟩
    · split at hpayloads
      · rename_i hempty
        rw [List.isEmpty_iff.mp hempty] at hstored
        cases hstored
      · cases hpayloads
        rw [OrderedMap.get?_foldl_entries fun record : AppKind × ProviderRecordS2 => record.2,
          hlists.get?.mpr ⟨stored, hstored, rfl⟩]
        rfl
    · obtain ⟨read, hread, hperm⟩ := hlists.mapM
        (d := fun row => storedFromRecord x row.2.1 row.2.2) (g := id)
        fun stored hstored => storedFromRecord_recordFromStored hstored
      refine ⟨read, ?_, by rwa [List.map_id] at hperm⟩
      change (records.entries.map Prod.snd).mapM _ = _
      rw [List.mapM_map]
      exact hread

/-- What the two loops over the providers leave in their table. -/
structure ProvidersWritten (x : Externals Λ) (providers : List StoredProvider)
    (old table : OrderedMap TextPair ProviderRow) : Prop where
  lists : table.Lists (providerRowFrom x) providers
  advances : ∀ k row row', old.get? k = some row → table.get? k = some row' → row.allows row'

theorem upsertProvider_ok {table' : OrderedMap TextPair ProviderRow} {stored : StoredProvider}
    (hpayload : payloads.get? stored.key = some (recordFromStored x stored))
    (h : upsertProvider x errors payloads table stored = .ok table') :
    (∀ old, table.get? stored.key = some old → old.allows (providerRowFrom x stored).2) ∧
      table' = table.insert (providerRowFrom x stored).1 (providerRowFrom x stored).2 := by
  obtain ⟨row, hrow, h⟩ := bind_eq_ok.mp h
  obtain ⟨payload, hget, hrow⟩ := bind_eq_ok.mp hrow
  obtain ⟨_, -, hrow⟩ := bind_eq_ok.mp hrow
  obtain ⟨_, -, hrow⟩ := bind_eq_ok.mp hrow
  cases hrow
  rw [context_eq_ok, hpayload] at hget
  cases hget
  exact upsertRow_ok h

theorem upsertProviders_ok (hs : Serialized x providers document payloads)
    (h : upsertProviders x errors payloads providers db = .ok table) :
    OrderedMap.Upserted db.providers table (providerRowFrom x) providers ProviderRow.allows :=
  upserted_foldlM (fun _ _ stored hstored ht => upsertProvider_ok (hs.payload stored hstored) ht) hs.nodup h

theorem providersWritten {table' : OrderedMap TextPair ProviderRow} (hs : Serialized x providers document payloads)
    (hupserted : OrderedMap.Upserted db.providers table (providerRowFrom x) providers ProviderRow.allows)
    (hdb' : db'.providers = table) (h : deleteMissingProviders providers db' = .ok table') :
    ProvidersWritten x providers db.providers table' := by
  obtain ⟨hget, -⟩ := deleteMissing_ok h
  have hlists : table'.Lists (providerRowFrom x) providers := hupserted.lists hs.nodup (by rwa [hdb'] at hget)
  exact ⟨hlists, fun k row row' => hupserted.advances hlists⟩

/-! ## Accounts -/

variable {accountPayloads : OrderedMap TextPair Account}

def accountRowFrom (x : Externals Λ) (account : Account) : TextPair × AccountRow := accountRow x account account

theorem encryptedAccountPayloads_ok {accounts : AccountStore}
    (h : encryptedAccountPayloads (some accounts) accounts.accounts = .ok accountPayloads) :
    OrderedMap.Lists accountPayloads (fun account => (account.key, account)) accounts.accounts := by
  unfold encryptedAccountPayloads at h
  split at h
  · rename_i hempty
    cases h
    rw [List.isEmpty_iff.mp hempty]
    exact lists_empty
  · refine foldlM_insert (fun t t' account _ ht => ?_) lists_empty h
    obtain ⟨_, hnone, ht⟩ := bind_eq_ok.mp ht
    cases ht
    exact ⟨Option.isNone_iff_eq_none.mp (ensure_eq_ok.mp hnone), rfl⟩

structure AccountsWritten (x : Externals Λ) (accounts : List Account)
    (old table : OrderedMap TextPair AccountRow) : Prop where
  lists : table.Lists (accountRowFrom x) accounts
  advances : ∀ k row row', old.get? k = some row → table.get? k = some row' → row.allows row'

theorem upsertAccounts_ok {accounts : List Account} {table : OrderedMap TextPair AccountRow}
    (hs : OrderedMap.Lists accountPayloads (fun account => (account.key, account)) accounts)
    (h : upsertAccounts x errors accountPayloads accounts db = .ok table) :
    OrderedMap.Upserted db.accounts table (accountRowFrom x) accounts AccountRow.allows := by
  refine upserted_foldlM (fun t t' account haccount ht => ?_) hs.nodup h
  obtain ⟨row, hrow, ht⟩ := bind_eq_ok.mp ht
  obtain ⟨payload, hget, hrow⟩ := bind_eq_ok.mp hrow
  obtain ⟨_, -, hrow⟩ := bind_eq_ok.mp hrow
  obtain ⟨_, -, hrow⟩ := bind_eq_ok.mp hrow
  obtain ⟨_, -, hrow⟩ := bind_eq_ok.mp hrow
  cases hrow
  rw [context_eq_ok, hs.get?.mpr ⟨account, haccount, rfl⟩] at hget
  cases hget
  exact upsertRow_ok ht

theorem accountsWritten {accounts : List Account} {table table' : OrderedMap TextPair AccountRow}
    (hs : OrderedMap.Lists accountPayloads (fun account => (account.key, account)) accounts)
    (hupserted : OrderedMap.Upserted db.accounts table (accountRowFrom x) accounts AccountRow.allows)
    (hdb' : db'.accounts = table) (h : deleteMissingAccounts accounts db' = .ok table') :
    AccountsWritten x accounts db.accounts table' := by
  obtain ⟨hget, -⟩ := deleteMissing_ok h
  have hlists : table'.Lists (accountRowFrom x) accounts := hupserted.lists hs.nodup (by rwa [hdb'] at hget)
  exact ⟨hlists, fun k row row' => hupserted.advances hlists⟩

/-! ## Shares -/

variable {sharePayloadsOf : OrderedMap String Share} {missing : String}

def shareRowFrom (x : Externals Λ) (share : Share) : String × ShareRow := shareRow x share share

theorem sharePayloads_ok {store : ShareStore} (h : sharePayloads (some store) store.shares = .ok sharePayloadsOf) :
    OrderedMap.Lists sharePayloadsOf (fun share => (share.id, share)) store.shares := by
  unfold sharePayloads at h
  split at h
  · rename_i hempty
    cases h
    rw [List.isEmpty_iff.mp hempty]
    exact lists_empty
  · refine foldlM_insert (fun t t' share _ ht => ?_) lists_empty h
    obtain ⟨_, hnone, ht⟩ := bind_eq_ok.mp ht
    cases ht
    exact ⟨Option.isNone_iff_eq_none.mp (ensure_eq_ok.mp hnone), rfl⟩

def withShares (db : Database Λ) (shares : OrderedMap String ShareRow)
    (shareBindings : OrderedMap TextPair ShareBindingRow) : Database Λ :=
  { db with shares := shares, shareBindings := shareBindings }

theorem foldlM_insertShareBinding {db : Database Λ} {shareId : String} {bindings : List (String × ShareBindingRow)}
    (h : bindings.foldlM (fun db binding => insertShareBinding db shareId binding) db = .ok db') :
    ∃ shareBindings, db' = withShares db db.shares shareBindings := by
  induction bindings generalizing db with
  | nil =>
    cases h
    exact ⟨_, rfl⟩
  | cons binding bindings ih =>
    rw [List.foldlM_cons] at h
    obtain ⟨t, ht, h⟩ := bind_eq_ok.mp h
    obtain ⟨_, -, ht⟩ := bind_eq_ok.mp ht
    obtain ⟨table, -, ht⟩ := bind_eq_ok.mp ht
    cases ht
    obtain ⟨shareBindings, rfl⟩ := ih h
    exact ⟨shareBindings, rfl⟩

theorem importShareRow_ok {db : Database Λ} {share : Share} {payload : Share}
    (hpayload : sharePayloadsOf.get? share.id = some payload)
    (h : importShareRow x missing sharePayloadsOf db share = .ok db') :
    db.shares.get? share.id = none ∧ ∃ shareBindings,
      db' = withShares db (db.shares.insert share.id (shareRow x share payload).2) shareBindings := by
  obtain ⟨row, hrow, h⟩ := bind_eq_ok.mp h
  obtain ⟨_, -, h⟩ := bind_eq_ok.mp h
  obtain ⟨shares, hshares, h⟩ := bind_eq_ok.mp h
  obtain ⟨payload', hget, hrow⟩ := bind_eq_ok.mp hrow
  obtain ⟨_, -, hrow⟩ := bind_eq_ok.mp hrow
  cases hrow
  rw [context_eq_ok, hpayload] at hget
  cases hget
  obtain ⟨hnone, rfl⟩ := insertRow_ok hshares
  obtain ⟨shareBindings, rfl⟩ := foldlM_insertShareBinding h
  exact ⟨hnone, shareBindings, rfl⟩

/-- The loop over the shares adds their rows, and changes the bindings beside them and no other table. -/
theorem foldlM_importShareRow {db : Database Λ} {shares listed : List Share} {f : Share → String × ShareRow}
    (hf : ∀ share ∈ shares, ∃ payload,
      sharePayloadsOf.get? share.id = some payload ∧ f share = shareRow x share payload)
    (hlisted : db.shares.Lists f listed) (h : shares.foldlM (importShareRow x missing sharePayloadsOf) db = .ok db') :
    db'.shares.Lists f (listed ++ shares) ∧ db' = withShares db db'.shares db'.shareBindings := by
  induction shares generalizing db listed with
  | nil =>
    cases h
    rw [List.append_nil]
    exact ⟨hlisted, rfl⟩
  | cons share shares ih =>
    rw [List.foldlM_cons] at h
    obtain ⟨t, ht, h⟩ := bind_eq_ok.mp h
    obtain ⟨payload, hpayload, hrow⟩ := hf share List.mem_cons_self
    obtain ⟨hnone, shareBindings, rfl⟩ := importShareRow_ok hpayload ht
    have hinsert := hlisted.insert (x := share) (by rw [hrow]; exact hnone)
    rw [hrow] at hinsert
    obtain ⟨hlists, heq⟩ := ih (fun share' hshare' => hf share' (List.mem_cons_of_mem _ hshare')) hinsert h
    rw [List.append_assoc, List.singleton_append] at hlists
    exact ⟨hlists, heq⟩

theorem importShareRows_ok {db : Database Λ} {store : ShareStore}
    (hs : OrderedMap.Lists sharePayloadsOf (fun share => (share.id, share)) store.shares)
    (hempty : db.shares = .empty) (h : importShareRows x db store sharePayloadsOf = .ok db') :
    db'.shares.Lists (shareRowFrom x) store.shares ∧
      ∃ ledgers, db' = withShares { db with ledgers := ledgers } db'.shares db'.shareBindings := by
  obtain ⟨ledgers, -, h⟩ := bind_eq_ok.mp h
  have hlisted : ({ db with ledgers := ledgers } : Database Λ).shares.Lists (shareRowFrom x) [] := by
    change db.shares.Lists _ _
    rw [hempty]
    exact lists_empty
  obtain ⟨hlists, heq⟩ := foldlM_importShareRow
    (fun share hshare => ⟨share, hs.get?.mpr ⟨share, hshare, rfl⟩, rfl⟩) hlisted h
  exact ⟨hlists, ledgers, heq⟩

/-- The shares of a store may replace the rows: none goes back, and none goes without its tombstone. -/
structure Replaces (old : OrderedMap String ShareRow) (store : ShareStore) : Prop where
  advances : ∀ id row, old.get? id = some row → ∀ share ∈ store.shares, share.id = id →
    row.configRevision ≤ share.configRevision
  deletes : ∀ id row, old.get? id = some row → (∀ share ∈ store.shares, share.id ≠ id) →
    id ∈ store.pendingRouterDeletes

theorem mem_of_forM_ok {α ε : Type} {f : α → Except ε PUnit} {rows : List α} (h : rows.forM f = .ok ()) :
    ∀ row ∈ rows, f row = .ok () := by
  induction rows with
  | nil => exact fun _ hrow => nomatch hrow
  | cons row rows ih =>
    obtain ⟨_, hrow, hrows⟩ := bind_eq_ok.mp h
    intro row' hrow'
    rcases List.mem_cons.mp hrow' with rfl | hrow'
    · exact hrow
    · exact ih hrows row' hrow'

theorem validateShareRevisionTransition_ok {store : ShareStore}
    (h : validateShareRevisionTransition db store = .ok ()) : Replaces db.shares store := by
  obtain ⟨_, hnodup, h⟩ := bind_eq_ok.mp h
  have hrows := mem_of_forM_ok h
  rw [ensure_eq_ok] at hnodup
  refine ⟨fun id row hget share hshare hid => ?_, fun id row hget hgone => ?_⟩
  · have hrow := hrows (id, row) (mem_entries_iff.mpr hget)
    cases hfind : store.shares.find? (fun share => share.id = id) with
    | none =>
      have hne := List.find?_eq_none.mp hfind share hshare
      simp [hid] at hne
    | some share' =>
      have hid' : share'.id = id := by simpa using List.find?_some hfind
      have heq : share' = share :=
        List.inj_on_of_nodup_map hnodup (List.mem_of_find?_eq_some hfind) hshare (hid'.trans hid.symm)
      simp only [hfind, ensure_eq_ok] at hrow
      rwa [heq] at hrow
  · have hrow := hrows (id, row) (mem_entries_iff.mpr hget)
    have hfind : store.shares.find? (fun share => share.id = id) = none := by
      rw [List.find?_eq_none]
      intro share hshare
      simpa using hgone share hshare
    simpa only [hfind, ensure_eq_ok] using hrow

/-! ## References -/

/-- Every reference names a row. -/
structure Referring (db : Database Λ) : Prop where
  provider : ∀ k, db.refersToProvider k = true → (db.providers.get? k).isSome
  account : ∀ k, db.refersToAccount k = true → (db.accounts.get? k).isSome
  share : ∀ k row, db.shareBindings.get? k = some row → (db.shares.get? (ofLex k).1).isSome

/-- The tables that name a provider. -/
theorem refersToProvider_iff {k : TextPair} : db.refersToProvider k = true ↔
    (∃ row, db.providerAccounts.get? k = some row) ∨ (∃ id row, db.shares.get? id = some row ∧ row.provider = k) ∨
      ∃ key row, db.shareBindings.get? key = some row ∧ toLex ((ofLex key).2, row.providerId) = k := by
  unfold Database.refersToProvider
  rw [Bool.or_eq_true, Bool.or_eq_true, List.any_eq_true, List.any_eq_true, List.any_eq_true, or_assoc]
  refine or_congr ?_ (or_congr ?_ ?_)
  · constructor
    · rintro ⟨⟨key, row⟩, hrow, hkey⟩
      exact ⟨row, OrderedMap.mem_entries_iff.mp (of_decide_eq_true hkey ▸ hrow)⟩
    · rintro ⟨row, hrow⟩
      exact ⟨(k, row), OrderedMap.mem_entries_iff.mpr hrow, decide_eq_true rfl⟩
  · constructor
    · rintro ⟨row, hrow, hkey⟩
      obtain ⟨id, hid⟩ := OrderedMap.mem_values_iff.mp hrow
      exact ⟨id, row, hid, of_decide_eq_true hkey⟩
    · rintro ⟨id, row, hid, hkey⟩
      exact ⟨row, OrderedMap.mem_values_iff.mpr ⟨id, hid⟩, decide_eq_true hkey⟩
  · constructor
    · rintro ⟨⟨key, row⟩, hrow, hkey⟩
      exact ⟨key, row, OrderedMap.mem_entries_iff.mp hrow, of_decide_eq_true hkey⟩
    · rintro ⟨key, row, hrow, hkey⟩
      exact ⟨(key, row), OrderedMap.mem_entries_iff.mpr hrow, decide_eq_true hkey⟩

theorem refersToAccount_iff {k : TextPair} :
    db.refersToAccount k = true ↔ ∃ key row, db.providerAccounts.get? key = some row ∧ row.account = k := by
  unfold Database.refersToAccount
  rw [List.any_eq_true]
  constructor
  · rintro ⟨row, hrow, hkey⟩
    obtain ⟨key, hget⟩ := OrderedMap.mem_values_iff.mp hrow
    exact ⟨key, row, hget, of_decide_eq_true hkey⟩
  · rintro ⟨key, row, hget, hkey⟩
    exact ⟨row, OrderedMap.mem_values_iff.mpr ⟨key, hget⟩, decide_eq_true hkey⟩

variable {f : StoredProvider → TextPair × ProviderRow} {g : Account → TextPair × AccountRow}

theorem isSome_of_upserted {α : Type} [LinearOrder κ] {m m' : OrderedMap κ ν} {f : α → κ × ν} {xs : List α}
    {allows : ν → ν → Prop} (h : OrderedMap.Upserted m m' f xs allows) {k : κ} (hk : (m.get? k).isSome) :
    (m'.get? k).isSome := by
  by_cases hmem : k ∈ xs.map fun a => (f a).1
  · obtain ⟨a, ha, rfl⟩ := List.mem_map.mp hmem
    rw [h.written a ha]
    rfl
  · rwa [h.kept k hmem]

theorem isSome_of_deleteMissing {ε : Type} [LinearOrder κ] {m m' : OrderedMap κ ν} {referred : κ → Bool}
    {expected : List κ} {e : ε} (h : m.deleteMissing referred expected e = .ok m') {k : κ}
    (hk : (m.get? k).isSome) (href : referred k = true) : (m'.get? k).isSome := by
  obtain ⟨-, hfree⟩ := deleteMissing_ok h
  by_contra hnone
  rw [Option.not_isSome_iff_eq_none] at hnone
  have hfalse := hfree k (fun heq => by rw [heq] at hk; cases hk) hnone
  rw [href] at hfalse
  cases hfalse

section
variable (h : Referring db)
include h

theorem Referring.setProviders
    (hkeep : ∀ k, db.refersToProvider k = true → (db.providers.get? k).isSome → (table.get? k).isSome) :
    Referring { db with providers := table } :=
  ⟨fun k hk => hkeep k hk (h.provider k hk), h.account, h.share⟩

theorem Referring.setAccounts {table : OrderedMap TextPair AccountRow}
    (hkeep : ∀ k, db.refersToAccount k = true → (db.accounts.get? k).isSome → (table.get? k).isSome) :
    Referring { db with accounts := table } :=
  ⟨h.provider, fun k hk => hkeep k hk (h.account k hk), h.share⟩

theorem Referring.clearProviderAccounts : Referring { db with providerAccounts := .empty } := by
  refine ⟨fun k hk => h.provider k ?_, fun k hk => ?_, h.share⟩
  · rw [refersToProvider_iff] at hk ⊢
    rcases hk with ⟨row, hrow⟩ | hk
    · cases hrow
    · exact .inr hk
  · obtain ⟨key, row, hrow, -⟩ := refersToAccount_iff.mp hk
    cases hrow

theorem Referring.clearShares : Referring (withShares db .empty .empty) := by
  refine ⟨fun k hk => h.provider k ?_, h.account, fun k row hrow => by cases hrow⟩
  rw [refersToProvider_iff] at hk ⊢
  rcases hk with hk | ⟨id, row, hrow, -⟩ | ⟨key, row, hrow, -⟩
  · exact .inl hk
  · cases hrow
  · cases hrow

end

theorem Referring.insertProviderAccounts (h : Referring db) {table : OrderedMap TextPair ProviderAccountRow}
    (htable : insertProviderAccounts x db providers = .ok table) :
    Referring { db with providerAccounts := table } := by
  have hgen : ∀ {ps : List StoredProvider} {t t' : OrderedMap TextPair ProviderAccountRow},
      Referring { db with providerAccounts := t } → ps.foldlM (insertProviderAccount x db) t = .ok t' →
      Referring { db with providerAccounts := t' } := by
    intro ps
    induction ps with
    | nil =>
      intro t t' ht hfold
      cases hfold
      exact ht
    | cons stored ps ih =>
      intro t t' ht hfold
      rw [List.foldlM_cons] at hfold
      obtain ⟨t₁, ht₁, hfold⟩ := bind_eq_ok.mp hfold
      refine ih ?_ hfold
      unfold insertProviderAccount at ht₁
      split at ht₁
      · cases ht₁
        exact ht
      · rename_i binding _
        obtain ⟨_, -, ht₁⟩ := bind_eq_ok.mp ht₁
        obtain ⟨_, hkeys, ht₁⟩ := bind_eq_ok.mp ht₁
        obtain ⟨hprovider, haccount⟩ := ensure_eq_ok.mp hkeys
        obtain ⟨-, rfl⟩ := insertRow_ok ht₁
        refine ⟨fun k hk => ?_, fun k hk => ?_, ht.share⟩
        · by_cases heq : stored.key = k
          · exact heq ▸ hprovider
          · refine ht.provider k ?_
            rw [refersToProvider_iff] at hk ⊢
            refine hk.imp_left ?_
            rintro ⟨row, hrow⟩
            exact ⟨row, by rwa [get?_insert_of_ne _ _ heq] at hrow⟩
        · obtain ⟨key, row, hrow, hk⟩ := refersToAccount_iff.mp hk
          by_cases heq : stored.key = key
          · rw [← heq, get?_insert_self] at hrow
            cases hrow
            exact hk ▸ haccount
          · refine ht.account k (refersToAccount_iff.mpr ⟨key, row, ?_, hk⟩)
            rwa [get?_insert_of_ne _ _ heq] at hrow
  exact hgen h htable

/-- A binding names a provider that is there. -/
theorem Referring.insertShareBinding (h : Referring db) {shareId : String} {binding : String × ShareBindingRow}
    (hdb' : insertShareBinding db shareId binding = .ok db') : Referring db' := by
  obtain ⟨_, hkeys, hdb'⟩ := bind_eq_ok.mp hdb'
  obtain ⟨table, htable, hdb'⟩ := bind_eq_ok.mp hdb'
  obtain ⟨hshare, hprovider⟩ := ensure_eq_ok.mp hkeys
  obtain ⟨-, rfl⟩ := insertRow_ok htable
  cases hdb'
  refine ⟨fun k hk => ?_, h.account, fun k row hrow => ?_⟩
  · rcases refersToProvider_iff.mp hk with hk | hk | ⟨key, row, hrow, hk⟩
    · exact h.provider k (refersToProvider_iff.mpr (.inl hk))
    · exact h.provider k (refersToProvider_iff.mpr (.inr (.inl hk)))
    · by_cases heq : toLex (shareId, binding.1) = key
      · rw [← heq, get?_insert_self] at hrow
        cases hrow
        rw [← hk, ← heq]
        exact hprovider
      · rw [get?_insert_of_ne _ _ heq] at hrow
        exact h.provider k (refersToProvider_iff.mpr (.inr (.inr ⟨key, row, hrow, hk⟩)))
  · by_cases heq : toLex (shareId, binding.1) = k
    · rw [← heq]
      exact hshare
    · rw [get?_insert_of_ne _ _ heq] at hrow
      exact h.share k row hrow

theorem Referring.insertShare (h : Referring db) {row : String × ShareRow}
    (hnone : db.shares.get? row.1 = none) (hprovider : (db.providers.get? row.2.provider).isSome) :
    Referring { db with shares := db.shares.insert row.1 row.2 } := by
  refine ⟨fun k hk => ?_, h.account, fun k row' hrow' => ?_⟩
  · rcases refersToProvider_iff.mp hk with hk | ⟨id, row', hrow', hk⟩ | hk
    · exact h.provider k (refersToProvider_iff.mpr (.inl hk))
    · by_cases heq : row.1 = id
      · rw [← heq, get?_insert_self] at hrow'
        cases hrow'
        rwa [← hk]
      · rw [get?_insert_of_ne _ _ heq] at hrow'
        exact h.provider k (refersToProvider_iff.mpr (.inr (.inl ⟨id, row', hrow', hk⟩)))
    · exact h.provider k (refersToProvider_iff.mpr (.inr (.inr hk)))
  · have hshare := h.share k row' hrow'
    by_cases heq : row.1 = (ofLex k).1
    · rw [← heq, hnone] at hshare
      cases hshare
    · rwa [get?_insert_of_ne _ _ heq]

theorem Referring.importShareRow (h : Referring db) {share : Share}
    (hdb' : importShareRow x missing sharePayloadsOf db share = .ok db') : Referring db' := by
  obtain ⟨row, -, hdb'⟩ := bind_eq_ok.mp hdb'
  obtain ⟨_, hprovider, hdb'⟩ := bind_eq_ok.mp hdb'
  obtain ⟨shares, hshares, hdb'⟩ := bind_eq_ok.mp hdb'
  obtain ⟨hnone, rfl⟩ := insertRow_ok hshares
  have hinserted := h.insertShare hnone (ensure_eq_ok.mp hprovider)
  have hgen : ∀ {bindings : List (String × ShareBindingRow)} {t t' : Database Λ}, Referring t →
      bindings.foldlM (fun db binding => Repository.insertShareBinding db share.id binding) t = .ok t' →
      Referring t' := by
    intro bindings
    induction bindings with
    | nil =>
      intro t t' ht hfold
      cases hfold
      exact ht
    | cons binding bindings ih =>
      intro t t' ht hfold
      rw [List.foldlM_cons] at hfold
      obtain ⟨t₁, ht₁, hfold⟩ := bind_eq_ok.mp hfold
      exact ih (ht.insertShareBinding ht₁) hfold
  exact hgen hinserted hdb'

theorem Referring.importShares (h : Referring db) {shares : List Share}
    (hdb' : shares.foldlM (Repository.importShareRow x missing sharePayloadsOf) db = .ok db') :
    Referring db' := by
  induction shares generalizing db with
  | nil =>
    cases hdb'
    exact h
  | cons share shares ih =>
    rw [List.foldlM_cons] at hdb'
    obtain ⟨t, ht, hdb'⟩ := bind_eq_ok.mp hdb'
    exact ih (h.importShareRow ht) hdb'

end CcSwitchServer.Repository
