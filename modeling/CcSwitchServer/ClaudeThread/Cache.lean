import CcSwitchServer.ClaudeThread.AliasMaps
import CcSwitchServer.Foundations.Runs

/-! # `ClaudeThreadAliasCache`

The alias map of every answer that a thread may be continued from, by scope and message id.
-/

namespace CcSwitchServer.ClaudeThread
open Foundations ClaudeTools OrderedMap List

def maxEntries : ℕ := 1024
def maxBytes : ℕ := 8 * 1024 * 1024
def maxEntryBytes : ℕ := 64 * 1024
def ttlMs : ℤ := 10 * 60 * 1000
def maxMessageIdBytes : ℕ := 512

def pairSize : ℕ := 48

/-- The map of one answer; an entry in conflict has been saved with two maps. -/
structure Entry where
  aliases : Names
  conflicted : Bool
  bytes : ℕ
  expiresAtMs : ℤ
  sequence : ℕ

inductive Lookup
  | missing
  | ready (aliases : Names)
  | conflicted

def validMessageId (value : String) : Bool :=
  value ≠ "" && value.utf8ByteSize ≤ maxMessageIdBytes && !value.toList.any Text.isControl

def deadline (now : ℤ) : ℤ := min (now + ttlMs) i64Max

section
variable {σ : Type} [LinearOrder σ]

abbrev Key (σ : Type) := σ ×ₗ String

structure Cache (σ : Type) [LinearOrder σ] where
  entries : OrderedMap (Key σ) Entry := .empty
  bytes : ℕ := 0
  sequence : ℕ := 0

def keyOf (scope : σ) (messageId : String) : Key σ := toLex (scope, messageId)

/-- The entry with the lowest sequence; the keys are in order, and of equal sequences the first one counts. -/
def oldest : List (Key σ × Entry) → Option (Key σ × Entry)
  | [] => none
  | e :: rest =>
    match oldest rest with
    | none => some e
    | some m => if e.2.sequence ≤ m.2.sequence then some e else some m

namespace Cache

variable (c : Cache σ)

def bytesSum : ℕ := (c.entries.values.map Entry.bytes).sum

/-- Entries past their deadline are dropped and the bytes counted again. -/
def expire (now : ℤ) : Cache σ :=
  let entries := c.entries.filter fun e => now < e.2.expiresAtMs
  { c with entries := entries, bytes := (entries.values.map Entry.bytes).sum }

/-- The answer, unless its memory is refused. -/
def lookupWith (scope : σ) (messageId : String) (now : ℤ) (granted : Bool) : Option Lookup × Cache σ :=
  let c := c.expire now
  if !granted then (none, c)
  else if !validMessageId messageId then (some .missing, c)
  else
    match c.entries.get? (keyOf scope messageId) with
    | some entry => (some (if entry.conflicted then .conflicted else .ready entry.aliases), c)
    | none => (some .missing, c)

def Over : Prop := maxEntries < c.entries.size ∨ maxBytes < c.bytes

instance (c : Cache σ) : Decidable c.Over := inferInstanceAs (Decidable (_ ∨ _))

/-- The loop that drops the oldest entries; it takes one a round. -/
def evict : ℕ → Cache σ → Cache σ
  | 0, c => c
  | n + 1, c =>
    if c.Over then
      match oldest c.entries.entries with
      | none => c
      | some m => evict n { c with entries := c.entries.erase m.1, bytes := c.bytes - m.2.bytes }
    else c

/-- The room of an entry. That of its key is an argument. -/
def entryBytes (overhead : ℕ) (aliases : Names) : ℕ :=
  aliases.entries.foldl (fun bytes e =>
    saturatingAdd (saturatingAdd (saturatingAdd bytes e.1.utf8ByteSize) e.2.utf8ByteSize) pairSize) overhead

def insertNew (key : Key σ) (aliases : Names) (now : ℤ) (overhead : ℕ) (granted : Bool) : Bool × Cache σ :=
  let bytes := entryBytes overhead aliases
  if maxAliases < aliases.size ∨ maxEntryBytes < bytes ∨ !granted then (false, c)
  else
    let c := { c with
      bytes := saturatingAdd c.bytes bytes
      entries := c.entries.insert key ⟨aliases, false, bytes, deadline now, c.sequence⟩ }
    (true, c.evict c.entries.size)

/-- An identical save keeps an entry alive, a different one poisons it. `granted` says whether the budget gives
the room. -/
def save (scope : σ) (messageId : String) (aliases : Names) (now : ℤ) (overhead : ℕ)
    (granted : Bool) : Bool × Cache σ :=
  let c := c.expire now
  if !validMessageId messageId then (false, c)
  else
    let key := keyOf scope messageId
    let c := { c with sequence := saturatingAdd c.sequence 1 }
    match c.entries.get? key with
    | some existing =>
      if existing.conflicted then (false, c)
      else if existing.aliases.entries ≠ aliases.entries then
        (false, { c with entries := c.entries.insert key { existing with conflicted := true } })
      else
        (true, { c with entries := c.entries.insert key
                          { existing with expiresAtMs := deadline now, sequence := c.sequence } })
    | none => c.insertNew key aliases now overhead granted

end Cache

/-! ## Calls -/

/-- The public calls, each with the time at which it is made. -/
inductive Call (σ : Type)
  | lookup (scope : σ) (messageId : String) (now : ℤ) (granted : Bool)
  | save (scope : σ) (messageId : String) (aliases : Names) (now : ℤ) (overhead : ℕ) (granted : Bool)

def Call.now : Call σ → ℤ
  | .lookup _ _ now _ => now
  | .save _ _ _ now _ _ => now

def Cache.step (c : Cache σ) : Call σ → Cache σ
  | .lookup scope messageId now granted => (c.lookupWith scope messageId now granted).2
  | .save scope messageId aliases now overhead granted => (c.save scope messageId aliases now overhead granted).2

def after (calls : List (Call σ)) : Cache σ := run Cache.step {} calls

/-! ## One call -/

variable {c : Cache σ} {key : Key σ} {e : Entry}

variable {now : ℤ}

theorem get?_expire : (c.expire now).entries.get? key = some e ↔
    c.entries.get? key = some e ∧ now < e.expiresAtMs := by
  unfold Cache.expire
  rw [get?_filter_eq_some, decide_eq_true_iff]

theorem lookupWith_cache (scope : σ) (messageId : String) (now : ℤ) (granted : Bool) :
    (c.lookupWith scope messageId now granted).2 = c.expire now := by
  unfold Cache.lookupWith
  dsimp only
  split
  · rfl
  · split
    · rfl
    · split <;> rfl

omit [LinearOrder σ] in
theorem oldest_spec {es : List (Key σ × Entry)} {m : Key σ × Entry} (h : oldest es = some m) :
    m ∈ es ∧ ∀ x ∈ es, m.2.sequence ≤ x.2.sequence := by
  induction es generalizing m with
  | nil => cases h
  | cons e rest ih =>
    rw [oldest] at h
    cases hrest : oldest rest with
    | none =>
      rw [hrest] at h
      cases h
      have hnil : rest = [] := by
        cases rest with
        | nil => rfl
        | cons e' rest =>
          rw [oldest] at hrest
          split at hrest
          · cases hrest
          · split at hrest <;> cases hrest
      rw [hnil]
      exact ⟨mem_singleton.mpr rfl, fun x hx => by rw [mem_singleton.mp hx]⟩
    | some m' =>
      rw [hrest] at h
      obtain ⟨hmem, hmin⟩ := ih hrest
      dsimp only at h
      split at h
      · rename_i hle
        cases h
        refine ⟨mem_cons_self, fun x hx => ?_⟩
        rcases mem_cons.mp hx with rfl | hx
        · exact le_rfl
        · exact hle.trans (hmin x hx)
      · rename_i hgt
        cases h
        refine ⟨mem_cons_of_mem _ hmem, fun x hx => ?_⟩
        rcases mem_cons.mp hx with rfl | hx
        · exact Nat.le_of_lt (Nat.lt_of_not_le hgt)
        · exact hmin x hx

omit [LinearOrder σ] in
theorem oldest_isSome {es : List (Key σ × Entry)} (h : es ≠ []) : ∃ m, oldest es = some m := by
  cases es with
  | nil => exact absurd rfl h
  | cons e rest =>
    rw [oldest]
    split
    · exact ⟨e, rfl⟩
    · split
      · exact ⟨e, rfl⟩
      · rename_i m _ _
        exact ⟨m, rfl⟩

/-! ## What a cache keeps -/

/-- The counter is the sum of the entries, no entry is too large, and none is newer than the last save. -/
structure Counted (c : Cache σ) : Prop where
  bytes : c.bytes = c.bytesSum
  entry : ∀ k e, c.entries.get? k = some e → e.bytes ≤ maxEntryBytes ∧ e.sequence ≤ c.sequence
  sequence : c.sequence ≤ u64Max

/-- The bytes are counted and within both limits. -/
structure Sound (c : Cache σ) : Prop extends Counted c where
  size : c.entries.size ≤ maxEntries
  total : c.bytes ≤ maxBytes

theorem Counted.erase {m : Key σ × Entry} (h : Counted c) (hm : c.entries.get? m.1 = some m.2) :
    Counted { c with entries := c.entries.erase m.1, bytes := c.bytes - m.2.bytes } where
  bytes := by
    have hsum := sum_values_erase Entry.bytes hm
    have hbytes := h.bytes
    unfold Cache.bytesSum at hbytes ⊢
    dsimp only
    omega
  entry k e he := by
    rw [get?_erase] at he
    split at he
    · cases he
    · exact h.entry k e he
  sequence := h.sequence

theorem evict_get {n : ℕ} (he : (Cache.evict n c).entries.get? key = some e) : c.entries.get? key = some e := by
  induction n generalizing c with
  | zero => exact he
  | succ n ih =>
    rw [Cache.evict] at he
    split at he
    · split at he
      · exact he
      · have hget := ih he
        rw [get?_erase] at hget
        split at hget
        · cases hget
        · exact hget
    · exact he

theorem Counted.evict (h : Counted c) (n : ℕ) : Counted (Cache.evict n c) := by
  induction n generalizing c with
  | zero => exact h
  | succ n ih =>
    rw [Cache.evict]
    split
    · split
      · exact h
      · rename_i m hm
        exact ih (h.erase (mem_entries_iff.mp (oldest_spec hm).1))
    · exact h

theorem Counted.not_over (h : Counted c) {n : ℕ} (hn : c.entries.size ≤ n) : ¬(Cache.evict n c).Over := by
  have hempty : ∀ {c : Cache σ}, Counted c → c.entries.entries = [] → ¬c.Over := by
    intro c hc hnil hover
    have hbytes := hc.bytes
    unfold Cache.bytesSum values at hbytes
    unfold Cache.Over size at hover
    rw [hnil] at hbytes hover
    simp [maxEntries, maxBytes, hbytes] at hover
  induction n generalizing c with
  | zero => exact hempty h (length_eq_zero_iff.mp (Nat.le_zero.mp hn))
  | succ n ih =>
    rw [Cache.evict]
    split
    · split
      · rename_i hnone
        refine hempty h ?_
        by_contra hne
        obtain ⟨m, hm⟩ := oldest_isSome hne
        rw [hnone] at hm
        cases hm
      · rename_i m hm
        have hget := mem_entries_iff.mp (oldest_spec hm).1
        have hsize := size_erase_of_get? hget
        exact ih (h.erase hget) (by dsimp only; omega)
    · rename_i hover
      exact hover

theorem Sound.expire (h : Sound c) (now : ℤ) : Sound (c.expire now) := by
  have hentries : ∀ k e, (c.expire now).entries.get? k = some e → c.entries.get? k = some e :=
    fun k e he => (get?_expire.mp he).1
  have hsublist : (c.expire now).entries.entries.Sublist c.entries.entries := filter_sublist
  refine ⟨⟨rfl, fun k e he => h.entry k e (hentries k e he), h.sequence⟩, hsublist.length_le.trans h.size, ?_⟩
  have hsum : (c.expire now).bytesSum ≤ c.bytesSum := by
    unfold Cache.bytesSum values
    exact ((hsublist.map Prod.snd).map Entry.bytes).sum_le_sum fun _ _ => Nat.zero_le _
  have hbytes : (c.expire now).bytes = (c.expire now).bytesSum := rfl
  have htotal := h.total
  rw [h.bytes] at htotal
  omega

end

end CcSwitchServer.ClaudeThread
