import CcSwitchServer.Foundations.Runs
import CcSwitchServer.PromptCache.Cache

/-! # The prompt cache behind its writer (`proxy/kiro_prompt_cache.rs`)

The writer persists the pending mutations in one transaction, and merges them back when that fails.
-/

namespace CcSwitchServer.PromptCache
open Foundations

/-! ## The table -/

structure Row where
  entry : CacheEntry
  mutationGeneration : ℕ
deriving DecidableEq

/-- `horizon` is the latest time at which rows were deleted because they had expired. The legacy file is never
written. -/
structure Disk where
  rows : OrderedMap ℕ Row := .empty
  generation : ℕ := 0
  legacy : Option (OrderedMap ℕ CacheEntry) := none
  horizon : ℤ := 0

def asI64 (n : ℕ) : ℕ := min n (2 ^ 63 - 1)

def lastUse (e : ℕ × Row) : ℕ × ℤ := (e.1, e.2.entry.lastHitAt)

namespace Disk

variable (d : Disk)

def deleteExpired (now : ℤ) : Disk :=
  { d with rows := d.rows.filter fun e => now < e.2.entry.expiresAt, horizon := max d.horizon now }

/-- The rows that were used longest ago go first. -/
def deleteExcess : Disk :=
  { d with
    rows := (((d.rows.entries.map lastUse).insertionSort older).take (d.rows.size - cacheCapacity)).foldl
      (fun rows victim => rows.erase victim.1) d.rows }

/-- A row of a later generation stays. -/
def applyMutation (e : ℕ × PendingMutation) : Disk :=
  let generation := asI64 e.2.generation
  if (d.rows.get? e.1).any fun row => generation < row.mutationGeneration then d
  else
    match e.2.entry with
    | some entry => { d with rows := d.rows.insert e.1 ⟨entry, generation⟩ }
    | none => { d with rows := d.rows.erase e.1 }

/-- One transaction; a generation that is not the expected one is a conflict. -/
def persistMutations (now : ℤ) (expected target : ℕ) (mutations : OrderedMap ℕ PendingMutation) : Option Disk :=
  if d.generation = expected then
    some { (((mutations.entries.foldl applyMutation d).deleteExpired now).deleteExcess) with
      generation := asI64 target }
  else none

def legacyEntries (legacy : OrderedMap ℕ CacheEntry) (now : ℤ) : List (ℕ × CacheEntry) :=
  ((legacy.entries.filter fun e => now < e.2.expiresAt).insertionSort
    fun a b => older (b.1, b.2.lastHitAt) (a.1, a.2.lastHitAt)).take cacheCapacity

/-- Legacy entries become rows of generation 0. -/
def importLegacy (entries : List (ℕ × CacheEntry)) : Disk :=
  { d with
    rows := entries.foldl
      (fun rows e => rows.insert e.1 ⟨{ e.2 with ttlSecs := max 60 (min e.2.ttlSecs maxTtlSecs) }, 0⟩) d.rows }

/-- The import of an empty table. -/
def migrate (now : ℤ) : Disk :=
  match d.legacy with
  | some legacy => if d.rows.size = 0 then d.importLegacy (legacyEntries legacy now) else d
  | none => d

def loadEntries (now : ℤ) : Disk := (d.deleteExpired now).deleteExcess

def loadOrMigrate (now : ℤ) : Disk := (d.migrate now).loadEntries now

end Disk

/-! ## The process -/

/-- A batch that the writer holds, and whether its transaction has been committed. -/
structure Batch where
  mutations : OrderedMap ℕ PendingMutation
  target : ℕ
  committed : Option Bool := none

structure System where
  cache : CacheState := {}
  persistedGeneration : ℕ := 0
  inFlight : Option Batch := none
  disk : Disk := {}

/-- How a start goes: the table is loaded or not (the legacy file may have been imported before that), the
memory of each row is granted or not, and the writer's thread is there or not. -/
structure Startup where
  loads : Bool
  imports : Bool
  admits : ℕ → Bool
  spawned : Bool

def Startup.full : Startup := ⟨true, true, fun _ => true, true⟩

namespace System

def admitted (rows : OrderedMap ℕ Row) (admits : ℕ → Bool) : List (ℕ × Row) := rows.entries.filter fun e => admits e.1

/-- A restart drops what is in memory and loads the table. -/
def start (d : Disk) (now : ℤ) (startup : Startup) : System :=
  if startup.loads then
    let d := d.loadOrMigrate now
    let rows := admitted d.rows startup.admits
    { cache :=
        { entries := rows.foldl (fun entries e => entries.insert e.1 e.2.entry) .empty
          resident := rows.foldl (fun resident e => resident.insert e.1 ()) .empty
          generation := d.generation
          persistEnabled := startup.spawned }
      persistedGeneration := d.generation
      disk := d }
  else
    { cache := { persistEnabled := startup.spawned }
      disk := if startup.imports then d.migrate now else d }

/-- The writer takes what is pending; what it cannot use is dropped. -/
def takePending (s : System) : System :=
  let cache := { s.cache with pending := .empty }
  if s.cache.pending.size = 0 ∨ s.cache.generation ≤ s.persistedGeneration then
    { s with cache := { cache with slotsUsed := s.cache.slotsUsed - s.cache.pending.size } }
  else { s with cache := cache, inFlight := some ⟨s.cache.pending, s.cache.generation, none⟩ }

/-- One transaction for the whole batch. -/
def persist (s : System) (batch : Batch) (now : ℤ) (succeeds : Bool) : System :=
  match (if succeeds then s.disk.persistMutations now s.persistedGeneration batch.target batch.mutations
    else none) with
  | some disk => { s with disk := disk, inFlight := some { batch with committed := some true } }
  | none => { s with inFlight := some { batch with committed := some false } }

def mergeable (pending : OrderedMap ℕ PendingMutation) (e : ℕ × PendingMutation) : Bool :=
  (pending.get? e.1).all fun current => current.generation ≤ e.2.generation

/-- A mutation goes back unless a later one is pending. -/
def mergeOne (cache : CacheState) (e : ℕ × PendingMutation) : CacheState :=
  if mergeable cache.pending e then
    { cache with
      pending := cache.pending.insert e.1 e.2
      slotsUsed := if (cache.pending.get? e.1).isSome then cache.slotsUsed - 1 else cache.slotsUsed }
  else { cache with slotsUsed := cache.slotsUsed - 1 }

def mergePending (cache : CacheState) (mutations : OrderedMap ℕ PendingMutation) : CacheState :=
  mutations.entries.foldl mergeOne cache

def finish (s : System) (batch : Batch) : System :=
  match batch.committed with
  | none => s
  | some true =>
    { s with
      cache := { s.cache with slotsUsed := s.cache.slotsUsed - batch.mutations.size }
      persistedGeneration := batch.target
      inFlight := none }
  | some false => { s with cache := mergePending s.cache batch.mutations, inFlight := none }

end System

/-- Calls, the steps of the writer, and restarts. -/
inductive Event
  | computeUsage (body : Json) (namespace_ : Str) (now : ℤ) (grants : Grants)
  | takePending
  | persistMutations (now : ℤ) (succeeds : Bool)
  | finishBatch
  | restart (now : ℤ) (startup : Startup)

def System.step (x : Externals) (s : System) : Event → System
  | .computeUsage body namespace_ now grants =>
    { s with cache := (PromptCache.computeUsage x s.cache body namespace_ now grants).2 }
  | .takePending => if s.cache.persistEnabled ∧ s.inFlight.isNone then s.takePending else s
  | .persistMutations now succeeds =>
    match s.inFlight with
    | some batch => if batch.committed.isNone then s.persist batch now succeeds else s
    | none => s
  | .finishBatch =>
    match s.inFlight with
    | some batch => s.finish batch
    | none => s
  | .restart now startup => System.start s.disk now startup

end CcSwitchServer.PromptCache
