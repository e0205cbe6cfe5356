import CcSwitchServer.Foundations.Checked
import CcSwitchServer.Foundations.Json
import CcSwitchServer.Foundations.OrderedMap
import CcSwitchServer.Foundations.Runs

/-! # Reasoning replay caches (`proxy/grok_replay.rs`, `proxy/antigravity_replay.rs`)

A cache keeps the last reasoning proof of every scope. Every call holds the lock and is one step; its clock and
the answers of the memory budgets are arguments.
-/

namespace CcSwitchServer.ReasoningReplay
open Foundations

/-! ## The store -/

/-- What a reader gets; it may write only while this generation is installed. -/
structure Snapshot where
  generation : ℕ
  bytes : ℕ
deriving DecidableEq, Repr

/-- `touchedAtMs` is called `recorded_at_ms` in the Antigravity cache. -/
structure Entry (π : Type) where
  proof : Option π
  generation : ℕ
  touchedAtMs : ℤ
  expiresAtMs : ℤ
  bytes : ℕ

structure Store (κ π : Type) [LinearOrder κ] where
  entries : OrderedMap κ (Entry π) := .empty
  generation : ℕ := 0
  totalBytes : ℕ := 0

/-- What the two caches differ in. -/
structure Rules (κ π : Type) [LinearOrder κ] where
  ttlMs : ℤ
  maxEntries : ℕ
  maxTotalBytes : ℕ
  /-- The bytes that an acceptable proof counts with. -/
  accept : π → Option ℕ
  snapshotBytes : Entry π → ℕ
  prune : Store κ π → ℤ → Store κ π

section
variable {κ π : Type} [LinearOrder κ] (rules : Rules κ π)

def Rules.expiry (now : ℤ) : ℤ := min (now + rules.ttlMs) i64Max

namespace Store

variable (store : Store κ π)

def bytesSum : ℕ := (store.entries.values.map Entry.bytes).sum

/-- A generation is never 0. -/
def nextGeneration : Store κ π := { store with generation := max (saturatingAdd store.generation 1) 1 }

def remove (scope : κ) : Store κ π :=
  match store.entries.get? scope with
  | none => store
  | some entry =>
    { store with entries := store.entries.erase scope, totalBytes := store.totalBytes - entry.bytes }

def Older (a b : Entry π) : Prop :=
  a.touchedAtMs < b.touchedAtMs ∨ a.touchedAtMs = b.touchedAtMs ∧ a.generation ≤ b.generation

instance (a b : Entry π) : Decidable (Older a b) := inferInstanceAs (Decidable (_ ∨ _))

def oldest : List (κ × Entry π) → Option (κ × Entry π)
  | [] => none
  | e :: rest =>
    match oldest rest with
    | none => some e
    | some m => if Older e.2 m.2 then some e else some m

def Over : Prop := rules.maxEntries < store.entries.size ∨ rules.maxTotalBytes < store.totalBytes

instance (store : Store κ π) : Decidable (store.Over rules) := inferInstanceAs (Decidable (_ ∨ _))

/-- The loop of `enforce_limits`; it takes one entry a round. -/
def evict : ℕ → Store κ π → Store κ π
  | 0, store => store
  | n + 1, store =>
    if store.Over rules then
      match oldest store.entries.entries with
      | none => store
      | some (scope, _) => evict n (store.remove scope)
    else store

def enforceLimits : Store κ π := store.evict rules store.entries.size

/-- A proof or, with `none`, a tombstone is put in under a new generation. -/
def install (scope : κ) (proof : Option π) (bytes : ℕ) (now : ℤ) : Store κ π :=
  let store := store.nextGeneration
  { store with
    totalBytes := saturatingAdd store.totalBytes bytes
    entries := store.entries.insert scope
      { proof := proof
        generation := store.generation
        touchedAtMs := now
        expiresAtMs := rules.expiry now
        bytes := bytes } }

/-- A miss installs an empty entry too. -/
def reserve (scope : κ) (now : ℤ) : Store κ π := (store.install rules scope none 0 now).enforceLimits rules

end Store

/-! ## Calls -/

inductive Call (κ π : Type)
  | snapshot (scope : κ) (now : ℤ) (granted : Bool)
  /-- `request` is the answer of the request's own budget, when there is one. -/
  | getAccounted (scope : κ) (now : ℤ) (granted : Bool) (request : Option Bool)
  | replaceIfUnchanged (scope : κ) (snapshot : Snapshot) (proof : π) (now : ℤ) (granted : Bool)
  | deleteIfUnchanged (scope : κ) (snapshot : Snapshot) (now : ℤ) (granted : Bool)

inductive Answer (π : Type)
  | snapshot (snapshot : Snapshot)
  | read (proof : Option π) (snapshot : Snapshot)
  | refused
  | written (success : Bool)
  | panicked

/-- What a reader holds of its scope: `missing` is the failure of the `expect` on the reserved entry. -/
inductive Held (π : Type)
  | fenced (generation : ℕ)
  | entry (entry : Entry π)
  | missing

namespace Store

variable (store : Store κ π)

variable (scope : κ)

def hold (now : ℤ) : Held π × Store κ π :=
  match store.entries.get? scope with
  | none => (.missing, store)
  | some entry =>
    let entry := { entry with touchedAtMs := now, expiresAtMs := rules.expiry now }
    (.entry entry, { store with entries := store.entries.insert scope entry })

/-- The part that both ways of reading share. -/
def touch (now : ℤ) (granted : Bool) : Held π × Store κ π :=
  let store := rules.prune store now
  if store.entries.get? scope = none then
    if granted then (store.reserve rules scope now).hold rules scope now
    else (.fenced store.nextGeneration.generation, store.nextGeneration)
  else store.hold rules scope now

def snapshot (store : Store κ π) (scope : κ) (now : ℤ) (granted : Bool) : Answer π × Store κ π :=
  match store.touch rules scope now granted with
  | (.fenced generation, store) => (.snapshot ⟨generation, 0⟩, store)
  | (.entry entry, store) => (.snapshot ⟨entry.generation, rules.snapshotBytes entry⟩, store)
  | (.missing, store) => (.panicked, store)

/-- A proof is read unless the budget of the request refuses its bytes. -/
def getAccounted (now : ℤ) (granted : Bool) (request : Option Bool) : Answer π × Store κ π :=
  match store.touch rules scope now granted with
  | (.fenced generation, store) => (.read none ⟨generation, 0⟩, store)
  | (.entry entry, store) =>
    if request = some false then (.refused, store)
    else (.read entry.proof ⟨entry.generation, rules.snapshotBytes entry⟩, store)
  | (.missing, store) => (.panicked, store)

def installed : Option ℕ := (store.entries.get? scope).map Entry.generation

/-- A proof that is not acceptable is refused before the generation is looked at. -/
def replaceIfUnchanged (snapshot : Snapshot) (proof : π) (now : ℤ)
    (granted : Bool) : Answer π × Store κ π :=
  match rules.accept proof with
  | none => (.written false, store)
  | some bytes =>
    let store := rules.prune store now
    if store.installed scope ≠ some snapshot.generation then (.written false, store)
    else
      let store := store.remove scope
      if granted then
        (.written true, (store.install rules scope (some proof) bytes now).enforceLimits rules)
      else (.written false, store)

/-- Only the installed generation is deleted. -/
def deleteIfUnchanged (snapshot : Snapshot) (now : ℤ) (granted : Bool) : Answer π × Store κ π :=
  if store.installed scope ≠ some snapshot.generation then (.written false, store)
  else
    let store := store.remove scope
    (.written true, if granted then store.reserve rules scope now else store)

def call : Call κ π → Answer π × Store κ π
  | .snapshot scope now granted => store.snapshot rules scope now granted
  | .getAccounted scope now granted request => store.getAccounted rules scope now granted request
  | .replaceIfUnchanged scope snapshot proof now granted =>
    store.replaceIfUnchanged rules scope snapshot proof now granted
  | .deleteIfUnchanged scope snapshot now granted => store.deleteIfUnchanged rules scope snapshot now granted

def step (c : Call κ π) : Store κ π := (store.call rules c).2

end Store
end

/-! ## The two caches -/

def maxEntries : ℕ := 2048
def maxTotalBytes : ℕ := 64 * 1024 * 1024

/-- The size of a value in memory and the length of its JSON text. -/
structure Sizes (π : Type) where
  retainedBytes : π → ℕ
  jsonBytes : π → ℕ

def serializedJsonBytes {π : Type} (sizes : Sizes π) (proof : π) (limit : ℕ) : Option ℕ :=
  if sizes.jsonBytes proof ≤ limit then some (sizes.jsonBytes proof) else none

namespace Grok

structure GrokCallProof where
  fingerprint : String
  reasoning : Json

structure GrokReplayProof where
  calls : OrderedMap String GrokCallProof

def maxCalls : ℕ := 64
def maxEntryBytes : ℕ := 4 * 1024 * 1024
def ttlMs : ℤ := 30 * 60 * 1000

variable (sizes : Sizes GrokReplayProof)

def validProofBytes (proof : GrokReplayProof) : Option ℕ :=
  if proof.calls.size = 0 ∨ maxCalls < proof.calls.size then none
  else serializedJsonBytes sizes proof maxEntryBytes

def accept (proof : GrokReplayProof) : Option ℕ :=
  match validProofBytes sizes proof with
  | none => none
  | some _ =>
    if maxEntryBytes < sizes.retainedBytes proof then none else some (sizes.retainedBytes proof)

/-- Expired entries are taken from the total one by one. -/
def prune {κ π : Type} [LinearOrder κ] (store : Store κ π) (now : ℤ) : Store κ π :=
  { store with
    entries := store.entries.filter fun e => now < e.2.expiresAtMs
    totalBytes := store.entries.entries.foldl (fun total e =>
      if now < e.2.expiresAtMs then total else total - e.2.bytes) store.totalBytes }

def rules : Rules String GrokReplayProof where
  ttlMs := ttlMs
  maxEntries := maxEntries
  maxTotalBytes := maxTotalBytes
  accept := accept sizes
  snapshotBytes := Entry.bytes
  prune := prune

end Grok

namespace Antigravity

inductive ReplayItem
  | functionCall (id : Option String) (name : String) (args : Json) (thoughtSignature : Option String)
      (occurrence : ℕ)
  | signedPart (targetKind : String) (targetHash : Option String) (thoughtSignature : String)
      (occurrence : ℕ)

structure ReplayTurn where
  baseHistoryHash : String
  items : List ReplayItem

structure AntigravityReplayChain where
  turns : List ReplayTurn

def maxTurnsPerEntry : ℕ := 256
def maxItemsPerEntry : ℕ := 4096
def maxBytesPerEntry : ℕ := 16 * 1024 * 1024
def replayTtlMs : ℤ := 60 * 60 * 1000

def validChainBytes (sizes : Sizes AntigravityReplayChain) (chain : AntigravityReplayChain) : Option ℕ :=
  let itemCount := (chain.turns.map fun turn => turn.items.length).sum
  if chain.turns = [] ∨ maxTurnsPerEntry < chain.turns.length then none
  else if itemCount = 0 ∨ maxItemsPerEntry < itemCount then none
  else serializedJsonBytes sizes chain maxBytesPerEntry

/-- The total is computed anew from what is left. -/
def pruneExpired {κ π : Type} [LinearOrder κ] (store : Store κ π) (now : ℤ) : Store κ π :=
  let entries := store.entries.filter fun e => now < e.2.expiresAtMs
  { store with entries := entries, totalBytes := (entries.values.map Entry.bytes).sum }

def rules (sizes : Sizes AntigravityReplayChain) : Rules String AntigravityReplayChain where
  ttlMs := replayTtlMs
  maxEntries := maxEntries
  maxTotalBytes := maxTotalBytes
  accept := validChainBytes sizes
  snapshotBytes := fun entry => (entry.proof.map sizes.retainedBytes).getD 0
  prune := pruneExpired

end Antigravity

end CcSwitchServer.ReasoningReplay
