import CcSwitchServer.Repository.Transactions

/-! # The key hashes of a backup (`src/repository/server_sqlite.rs`)

A backup is restored only when its documents agree with the rows in the hash over keys and revisions.
-/

namespace CcSwitchServer.Repository
open Foundations Sharing List

variable {Λ : Type} (x : Externals Λ)

/-! ## Key columns -/

structure ProviderColumns where
  key : TextPair
  providerType : String
  revision : ℕ
  credentialGeneration : ℕ
deriving DecidableEq

structure AccountColumns where
  key : TextPair
  authIdentityGeneration : ℕ
  tokenRefreshGeneration : ℕ
deriving DecidableEq

structure ShareColumns where
  id : String
  configRevision : ℕ
deriving DecidableEq

def StoredProvider.columns (stored : StoredProvider) : ProviderColumns :=
  ⟨stored.key, ProviderType.asStr stored.providerType, stored.revision, stored.credentialGeneration⟩

def Account.columns (account : Account) : AccountColumns :=
  ⟨account.key, account.authIdentityGeneration, account.tokenRefreshGeneration⟩

def Share.columns (share : Share) : ShareColumns := ⟨share.id, share.configRevision⟩

def providerColumns (row : TextPair × ProviderRow) : ProviderColumns :=
  ⟨row.1, row.2.providerType, row.2.revision, row.2.credentialGeneration⟩

def accountColumns (row : TextPair × AccountRow) : AccountColumns :=
  ⟨row.1, row.2.authIdentityGeneration, row.2.tokenRefreshGeneration⟩

def shareColumns (row : String × ShareRow) : ShareColumns := ⟨row.1, row.2.configRevision⟩

/-! ## Hashes -/

/-- The parts of a key are joined by NUL. -/
def keyText (key : TextPair) (rest : String) : String := (ofLex key).1 ++ "\x00" ++ (ofLex key).2 ++ "\x00" ++ rest

def ProviderColumns.text (c : ProviderColumns) : String :=
  keyText c.key (c.providerType ++ "\x00" ++ toString c.revision ++ "\x00" ++ toString c.credentialGeneration)

def AccountColumns.text (c : AccountColumns) : String :=
  keyText c.key (toString c.authIdentityGeneration ++ "\x00" ++ toString c.tokenRefreshGeneration)

def joinLines (texts : List String) : String := "\n".intercalate texts

/-- The hash of a store is over the texts of its records, in the order of the texts. -/
def expectedProviderKeyHash (providers : List StoredProvider) : String :=
  x.sha256Hex (joinLines ((providers.map fun stored => stored.columns.text).insertionSort (· ≤ ·)))

/-- `SELECT … FROM providers ORDER BY app,provider_id` -/
def providerKeyHash (db : Database Λ) : String :=
  x.sha256Hex (joinLines (db.providers.entries.map fun row => (providerColumns row).text))

def expectedAccountKeyHash (accounts : List Account) : String :=
  x.sha256Hex (joinLines ((accounts.map fun account => account.columns.text).insertionSort (· ≤ ·)))

/-- The hash of a table is over its rows, in the order of the key columns. -/
def accountKeyHash (db : Database Λ) : String :=
  x.sha256Hex (joinLines (db.accounts.entries.map fun row => (accountColumns row).text))

/-- `validate_authoritative_graph` -/
def validateAuthoritativeGraph (db : Database Λ) : Except String Unit := do
  let providers ← loadProviders x db.providersJson
  let accounts ← loadAccounts x db.accountsJson
  let shares ← loadShares x db.sharesJson
  ensure (db.providers.size = providers.length) "staged SQLite providers rollback payload count mismatch"
  ensure (db.accounts.size = accounts.accounts.length) "staged SQLite accounts rollback payload count mismatch"
  ensure (db.shares.size = shares.shares.length) "staged SQLite shares rollback payload count mismatch"
  ensure (providerKeyHash x db = expectedProviderKeyHash x providers)
    "staged SQLite Provider rollback payload does not match normalized rows"
  ensure (accountKeyHash x db = expectedAccountKeyHash x accounts.accounts)
    "staged SQLite Account rollback payload does not match normalized rows"
  x.subscriptionReferenceGraph providers accounts shares

/-! ## The two orders -/

/-- The two orders agree. They do while no id is another id followed by a NUL. -/
def SortsAlike {α : Type} (key : α → TextPair) (text : α → String) (items : List α) : Prop :=
  ∀ a ∈ items, ∀ b ∈ items, key a < key b → text a ≤ text b

variable {α : Type} {key : α → TextPair} {text : α → String}

theorem SortsAlike.perm {items items' : List α} (h : SortsAlike key text items) (hperm : items'.Perm items) :
    SortsAlike key text items' :=
  fun a ha b hb => h a (hperm.mem_iff.mp ha) b (hperm.mem_iff.mp hb)

theorem SortsAlike.insertionSort {rows items : List α} (h : SortsAlike key text items) (hperm : rows.Perm items)
    (hsorted : rows.Pairwise fun a b => key a < key b) :
    (items.map text).insertionSort (· ≤ ·) = rows.map text := by
  have hrows : (rows.map text).Pairwise (· ≤ ·) := by
    rw [pairwise_map]
    refine hsorted.imp_of_mem fun {a b} ha hb hab => ?_
    exact h a (hperm.mem_iff.mp ha) b (hperm.mem_iff.mp hb) hab
  have hsame : ((items.map text).insertionSort (· ≤ ·)).Perm (rows.map text) :=
    (perm_insertionSort _ _).trans (hperm.symm.map text)
  exact List.Perm.eq_of_pairwise' (pairwise_insertionSort _ _) hrows hsame

/-- Before a separator that neither text has, and that no character is smaller than, texts compare as they do
without it. -/
theorem append_cons_lt {β : Type} [LinearOrder β] {c : β} (hc : ∀ b, c ≤ b) {u v : List β} (hv : c ∉ v)
    (h : u < v) (r s : List β) : u ++ c :: r < v ++ c :: s := by
  induction u generalizing v with
  | nil =>
    cases v with
    | nil => exact absurd h (lt_irrefl _)
    | cons b v =>
      rw [nil_append, cons_append, cons_lt_cons_iff]
      exact .inl (lt_of_le_of_ne (hc b) fun heq => hv (heq ▸ mem_cons_self))
  | cons a u ih =>
    cases v with
    | nil => exact absurd h (not_lt_nil _)
    | cons b v =>
      rw [cons_append, cons_append, cons_lt_cons_iff]
      rcases cons_lt_cons_iff.mp h with hab | ⟨rfl, huv⟩
      · exact .inl hab
      · exact .inr ⟨rfl, ih (fun hmem => hv (mem_cons_of_mem _ hmem)) huv⟩

theorem nul_le (c : Char) : '\x00' ≤ c := by
  rw [Char.le_def]
  exact UInt32.le_iff_toNat_le.mpr (Nat.zero_le _)

def NulFree (s : String) : Prop := '\x00' ∉ s.toList

theorem keyText_lt {k k' : TextPair} (hfirst : NulFree (ofLex k').1) (hsecond : NulFree (ofLex k').2) (h : k < k')
    (r s : String) : keyText k r < keyText k' s := by
  have htoList : ∀ (k : TextPair) (r : String), (keyText k r).toList =
      (ofLex k).1.toList ++ '\x00' :: ((ofLex k).2.toList ++ '\x00' :: r.toList) := by
    intro k r
    unfold keyText
    simp [String.toList_append]
  rw [String.lt_iff_toList_lt, htoList, htoList]
  rcases Prod.Lex.lt_iff.mp h with hlt | ⟨heq, hlt⟩
  · exact append_cons_lt nul_le hfirst (String.lt_iff_toList_lt.mp hlt) _ _
  · rw [heq]
    have hrest := append_cons_lt nul_le hsecond (String.lt_iff_toList_lt.mp hlt) r.toList s.toList
    generalize (ofLex k').1.toList = u
    induction u with
    | nil => exact cons_lt_cons_iff.mpr (.inr ⟨rfl, hrest⟩)
    | cons a u ih => exact cons_lt_cons_iff.mpr (.inr ⟨rfl, ih⟩)

theorem sortsAlike_of_nulFree {items : List α} {rest : α → String} (htext : ∀ a, text a = keyText (key a) (rest a))
    (h : ∀ a ∈ items, NulFree (ofLex (key a)).1 ∧ NulFree (ofLex (key a)).2) : SortsAlike key text items := by
  intro a _ b hb hab
  rw [htext, htext]
  exact (keyText_lt (h b hb).1 (h b hb).2 hab _ _).le

def ProvidersSortAlike (providers : List StoredProvider) : Prop :=
  SortsAlike StoredProvider.key (fun stored => stored.columns.text) providers

def AccountsSortAlike (accounts : List Account) : Prop :=
  SortsAlike Account.key (fun account => account.columns.text) accounts

end CcSwitchServer.Repository
