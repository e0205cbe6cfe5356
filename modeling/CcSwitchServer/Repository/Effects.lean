import CcSwitchServer.Repository.Writes

/-! # What a committed transaction has changed

What each call leaves behind, said once.
-/

namespace CcSwitchServer.Repository
open Foundations Sharing

variable {Λ : Type} {x : Externals Λ}

namespace Op

def providers : Op x → Option (ProviderStore x)
  | .persistProviders store => some store
  | .persistReferenceGraph store _ _ => some store
  | _ => none

def accounts : Op x → Option AccountStore
  | .persistAccounts store => some store
  | .persistReferenceGraph _ store _ => some store
  | _ => none

def shares : Op x → Option ShareStore
  | .persistShares store _ _ _ => some store
  | .persistReferenceGraph _ _ store => some store
  | _ => none

def replacesUsage : Op x → Bool
  | .replaceUsageRecords _ => true
  | _ => false

end Op

structure ProvidersPersisted (store : ProviderStore x) (db t : Database Λ) : Prop where
  readBack : ∃ read, documentProviders x t.providersJson = .ok read ∧ read.Perm store.providers
  written : ProvidersWritten x store.providers db.providers t.providers

structure AccountsPersisted (x : Externals Λ) (store : AccountStore) (db t : Database Λ) : Prop where
  document : t.accountsJson = some store
  written : AccountsWritten x store.accounts db.accounts t.accounts

structure SharesPersisted (x : Externals Λ) (store : ShareStore) (db t : Database Λ) : Prop where
  document : t.sharesJson = some store
  lists : t.shares.Lists (shareRowFrom x) store.shares
  replaces : Replaces db.shares store

/-- The stores that were written, their rows, and that every other table is as it was. -/
structure Effect (db : Database Λ) (op : Op x) (t : Database Λ) : Prop where
  providers : ∀ store, op.providers = some store → ProvidersPersisted store db t
  providersKept : op.providers = none → t.providers = db.providers ∧ t.providersJson = db.providersJson
  accounts : ∀ store, op.accounts = some store → AccountsPersisted x store db t
  accountsKept : op.accounts = none → t.accounts = db.accounts ∧ t.accountsJson = db.accountsJson
  shares : ∀ store, op.shares = some store → SharesPersisted x store db t
  sharesKept : op.shares = none → t.shares = db.shares ∧ t.sharesJson = db.sharesJson
  usageRows : ∀ id row, t.usageRecords.get? id = some row →
    (∃ log, row = (usageRow x log).2) ∨ db.usageRecords.get? id = some row
  usageAdvances : op.replacesUsage = false → ∀ id row, db.usageRecords.get? id = some row →
    ∃ row', t.usageRecords.get? id = some row' ∧ row.allows row'
  referring : Referring db → Referring t

variable {db t : Database Λ}

theorem usage_kept (h : t.usageRecords = db.usageRecords) :
    (∀ id row, t.usageRecords.get? id = some row →
      (∃ log, row = (usageRow x log).2) ∨ db.usageRecords.get? id = some row) ∧
    ∀ id row, db.usageRecords.get? id = some row → ∃ row', t.usageRecords.get? id = some row' ∧ row.allows row' := by
  rw [h]
  exact ⟨fun _ _ hrow => .inr hrow, fun _ row hrow => ⟨row, hrow, Nat.le_refl _⟩⟩

theorem persistProviders_effect {store : ProviderStore x} (h : persistProviders x store db = .ok t) :
    Effect db (.persistProviders store) t := by
  obtain ⟨document, hdocument, h⟩ := bind_eq_ok.mp h
  obtain ⟨payloads, hpayloads, h⟩ := bind_eq_ok.mp h
  obtain ⟨upserted, hupserted, h⟩ := bind_eq_ok.mp h
  obtain ⟨providers, hdeleted, h⟩ := bind_eq_ok.mp h
  obtain ⟨providerAccounts, hinserted, h⟩ := bind_eq_ok.mp h
  have hs := serialized hdocument hpayloads
  have hups := upsertProviders_ok hs hupserted
  cases h
  refine ⟨fun store' hstore' => ?_, (fun h => nomatch h), (fun _ h => nomatch h), fun _ => ⟨rfl, rfl⟩,
    (fun _ h => nomatch h), fun _ => ⟨rfl, rfl⟩, (usage_kept rfl).1, fun _ => (usage_kept (x := x) rfl).2, fun href => ?_⟩
  · cases hstore'
    exact ⟨hs.readBack, providersWritten hs hups rfl hdeleted⟩
  · have hcleared := (href.setProviders fun k _ hk => isSome_of_upserted hups hk).clearProviderAccounts
    have hprovided := hcleared.setProviders fun k hk hsome => isSome_of_deleteMissing hdeleted hsome hk
    have hreferring := hprovided.insertProviderAccounts hinserted
    exact ⟨hreferring.provider, hreferring.account, hreferring.share⟩

theorem persistAccounts_effect {store : AccountStore} (h : persistAccounts x store db = .ok t) :
    Effect db (.persistAccounts store : Op x) t := by
  obtain ⟨payloads, hpayloads, h⟩ := bind_eq_ok.mp h
  obtain ⟨upserted, hupserted, h⟩ := bind_eq_ok.mp h
  obtain ⟨accounts, hdeleted, h⟩ := bind_eq_ok.mp h
  have hs := encryptedAccountPayloads_ok hpayloads
  have hups := upsertAccounts_ok hs hupserted
  cases h
  refine ⟨(fun _ h => nomatch h), fun _ => ⟨rfl, rfl⟩, fun store' hstore' => ?_, (fun h => nomatch h),
    (fun _ h => nomatch h), fun _ => ⟨rfl, rfl⟩, (usage_kept rfl).1, fun _ => (usage_kept (x := x) rfl).2, fun href => ?_⟩
  · cases hstore'
    exact ⟨rfl, accountsWritten hs hups rfl hdeleted⟩
  · have hupserted' := href.setAccounts fun k _ hk => isSome_of_upserted hups hk
    have hreferring := hupserted'.setAccounts fun k hk hsome => isSome_of_deleteMissing hdeleted hsome hk
    exact ⟨hreferring.provider, hreferring.account, hreferring.share⟩

theorem persistShares_effect {store : ShareStore} {initializations : List Json} {actor : String} {now : ℤ}
    (h : persistSharesWithValueInitializations x store initializations actor now db = .ok t) :
    Effect db (.persistShares store initializations actor now : Op x) t := by
  obtain ⟨payloads, hpayloads, h⟩ := bind_eq_ok.mp h
  obtain ⟨_, hvalid, h⟩ := bind_eq_ok.mp h
  obtain ⟨ledgers, -, h⟩ := bind_eq_ok.mp h
  obtain ⟨imported, himported, h⟩ := bind_eq_ok.mp h
  obtain ⟨hlists, ledgers', himported'⟩ := importShareRows_ok (sharePayloads_ok hpayloads) rfl himported
  cases h
  have hsame : imported.usageRecords = db.usageRecords := by rw [himported']; rfl
  refine ⟨(fun _ h => nomatch h), (fun _ => by rw [himported']; exact ⟨rfl, rfl⟩), (fun _ h => nomatch h),
    (fun _ => by rw [himported']; exact ⟨rfl, rfl⟩), fun store' hstore' => ?_, (fun h => nomatch h), (usage_kept hsame).1,
    fun _ => (usage_kept (x := x) hsame).2, fun href => ?_⟩
  · cases hstore'
    exact ⟨rfl, hlists, validateShareRevisionTransition_ok hvalid⟩
  · obtain ⟨archived, -, hfold⟩ := bind_eq_ok.mp himported
    have hcleared := href.clearShares
    have hstart : Referring { db with ledgers := archived, shares := .empty, shareBindings := .empty } :=
      ⟨hcleared.provider, hcleared.account, hcleared.share⟩
    have hreferring := hstart.importShares hfold
    exact ⟨hreferring.provider, hreferring.account, hreferring.share⟩

theorem persistReferenceGraph_effect {providers : ProviderStore x} {accounts : AccountStore} {shares : ShareStore}
    (h : persistReferenceGraph x providers accounts shares db = .ok t) :
    Effect db (.persistReferenceGraph providers accounts shares) t := by
  obtain ⟨document, hdocument, h⟩ := bind_eq_ok.mp h
  obtain ⟨providerPayloads, hproviderPayloads, h⟩ := bind_eq_ok.mp h
  obtain ⟨accountPayloads, haccountPayloads, h⟩ := bind_eq_ok.mp h
  obtain ⟨payloads, hpayloads, h⟩ := bind_eq_ok.mp h
  obtain ⟨_, hvalid, h⟩ := bind_eq_ok.mp h
  obtain ⟨upsertedAccounts, hupsertedAccounts, h⟩ := bind_eq_ok.mp h
  obtain ⟨upsertedProviders, hupsertedProviders, h⟩ := bind_eq_ok.mp h
  obtain ⟨providerRows, hdeletedProviders, h⟩ := bind_eq_ok.mp h
  obtain ⟨accountRows, hdeletedAccounts, h⟩ := bind_eq_ok.mp h
  obtain ⟨providerAccounts, hinserted, h⟩ := bind_eq_ok.mp h
  obtain ⟨imported, himported, h⟩ := bind_eq_ok.mp h
  have hs := serialized hdocument hproviderPayloads
  have hproviders := upsertProviders_ok hs hupsertedProviders
  have hs' := encryptedAccountPayloads_ok haccountPayloads
  have haccounts := upsertAccounts_ok hs' hupsertedAccounts
  obtain ⟨hlists, ledgers', himported'⟩ := importShareRows_ok (sharePayloads_ok hpayloads) rfl himported
  cases h
  have hsame : imported.usageRecords = db.usageRecords := by rw [himported']; rfl
  refine ⟨fun store' hstore' => ?_, (fun h => nomatch h), fun store' hstore' => ?_, (fun h => nomatch h),
    fun store' hstore' => ?_, (fun h => nomatch h), (usage_kept hsame).1,
    fun _ => (usage_kept (x := x) hsame).2, fun href => ?_⟩
  · cases hstore'
    refine ⟨hs.readBack, ?_⟩
    rw [himported']
    exact providersWritten hs hproviders rfl hdeletedProviders
  · cases hstore'
    refine ⟨rfl, ?_⟩
    rw [himported']
    exact accountsWritten hs' haccounts rfl hdeletedAccounts
  · cases hstore'
    exact ⟨rfl, hlists, validateShareRevisionTransition_ok hvalid⟩
  · obtain ⟨archived, -, hfold⟩ := bind_eq_ok.mp himported
    have hcleared := href.clearShares.clearProviderAccounts
    have haccounted := hcleared.setAccounts fun k _ hk => isSome_of_upserted haccounts hk
    have hprovided := haccounted.setProviders fun k _ hk => isSome_of_upserted hproviders hk
    have hprovided' := hprovided.setProviders fun k hk hsome => isSome_of_deleteMissing hdeletedProviders hsome hk
    have haccounted' := hprovided'.setAccounts fun k hk hsome => isSome_of_deleteMissing hdeletedAccounts hsome hk
    have hbound := haccounted'.insertProviderAccounts hinserted
    have hstart : Referring { db with
        providers := providerRows, accounts := accountRows, providerAccounts := providerAccounts
        ledgers := archived, shares := .empty, shareBindings := .empty } :=
      ⟨hbound.provider, hbound.account, hbound.share⟩
    have hreferring := hstart.importShares hfold
    exact ⟨hreferring.provider, hreferring.account, hreferring.share⟩

theorem upsertUsageRow_ok {table table' : OrderedMap String UsageRow} {log : UsageLog}
    (h : upsertUsageRow x table log = .ok table') :
    (∀ old, table.get? log.requestId = some old → old.allows (usageRow x log).2) ∧
      table' = table.insert log.requestId (usageRow x log).2 := by
  obtain ⟨_, -, h⟩ := bind_eq_ok.mp h
  obtain ⟨_, -, h⟩ := bind_eq_ok.mp h
  exact upsertRow_ok h

theorem upsertUsageLog_effect {log : UsageLog} (h : upsertUsageLog x log db = .ok t) :
    Effect db (.upsertUsageLog log : Op x) t := by
  obtain ⟨usageRecords, husage, h⟩ := bind_eq_ok.mp h
  obtain ⟨_, -, h⟩ := bind_eq_ok.mp h
  obtain ⟨_, -, h⟩ := bind_eq_ok.mp h
  obtain ⟨_, -, h⟩ := bind_eq_ok.mp h
  obtain ⟨hallows, rfl⟩ := upsertUsageRow_ok husage
  cases h
  refine ⟨(fun _ h => nomatch h), fun _ => ⟨rfl, rfl⟩, (fun _ h => nomatch h), fun _ => ⟨rfl, rfl⟩,
    (fun _ h => nomatch h), fun _ => ⟨rfl, rfl⟩, fun id row hrow => ?_, fun _ id row hrow => ?_,
    fun href => ⟨href.provider, href.account, href.share⟩⟩
  · by_cases heq : log.requestId = id
    · rw [heq, OrderedMap.get?_insert_self] at hrow
      cases hrow
      exact .inl ⟨log, rfl⟩
    · rw [OrderedMap.get?_insert_of_ne _ _ heq] at hrow
      exact .inr hrow
  · by_cases heq : log.requestId = id
    · exact ⟨_, by rw [heq]; exact OrderedMap.get?_insert_self _ _ _, hallows row (heq ▸ hrow)⟩
    · exact ⟨row, by rw [OrderedMap.get?_insert_of_ne _ _ heq]; exact hrow, Nat.le_refl _⟩

theorem foldlM_upsertUsageRow {logs : List UsageLog} {table table' : OrderedMap String UsageRow}
    (hrows : ∀ id row, table.get? id = some row → ∃ log, row = (usageRow x log).2)
    (h : logs.foldlM (upsertUsageRow x) table = .ok table') :
    ∀ id row, table'.get? id = some row → ∃ log, row = (usageRow x log).2 := by
  induction logs generalizing table with
  | nil =>
    cases h
    exact hrows
  | cons log logs ih =>
    rw [List.foldlM_cons] at h
    obtain ⟨t, ht, h⟩ := bind_eq_ok.mp h
    obtain ⟨-, rfl⟩ := upsertUsageRow_ok ht
    refine ih (fun id row hrow => ?_) h
    by_cases heq : log.requestId = id
    · rw [heq, OrderedMap.get?_insert_self] at hrow
      cases hrow
      exact ⟨log, rfl⟩
    · rw [OrderedMap.get?_insert_of_ne _ _ heq] at hrow
      exact hrows id row hrow

theorem replaceUsageRecords_effect {usage : UsageStore Λ} (h : replaceUsageRecords x usage db = .ok t) :
    Effect db (.replaceUsageRecords usage : Op x) t := by
  obtain ⟨usageRecords, husage, h⟩ := bind_eq_ok.mp h
  obtain ⟨_, -, h⟩ := bind_eq_ok.mp h
  cases h
  refine ⟨(fun _ h => nomatch h), fun _ => ⟨rfl, rfl⟩, (fun _ h => nomatch h), fun _ => ⟨rfl, rfl⟩,
    (fun _ h => nomatch h), fun _ => ⟨rfl, rfl⟩, fun id row hrow => .inl ?_, (fun h => nomatch h),
    fun href => ⟨href.provider, href.account, href.share⟩⟩
  exact foldlM_upsertUsageRow (fun id row hnone => by cases hnone) husage id row hrow

theorem transact_effect {op : Op x} (h : transact x db op = .ok t) : Effect db op t := by
  cases op with
  | persistProviders store => exact persistProviders_effect h
  | persistAccounts store => exact persistAccounts_effect h
  | persistShares store initializations actor now => exact persistShares_effect h
  | persistReferenceGraph providers accounts shares => exact persistReferenceGraph_effect h
  | upsertUsageLog log => exact upsertUsageLog_effect h
  | replaceUsageRecords usage => exact replaceUsageRecords_effect h

end CcSwitchServer.Repository
