import CcSwitchServer.Foundations.BigEndian
import CcSwitchServer.Foundations.Checked

/-! # `validate_wal_if_present` (`repository/server_sqlite/wal.rs`)

Before the database is opened its write-ahead log is read in full: the header, and every frame with its salts and
the checksum that runs over all of them.
-/

namespace CcSwitchServer.ServerSqlite
open Foundations

/-- The two running sums of a checksum. -/
abbrev Sum := UInt32 × UInt32

def u32Be (bytes : List UInt8) : UInt32 := UInt32.ofNat (beNat bytes)

/-- Four bytes in the byte order of the checksums. -/
def word (littleEndian : Bool) (bytes : List UInt8) : UInt32 :=
  if littleEndian then u32Be bytes.reverse else u32Be bytes

/-- `bytes[start..stop]` -/
def slice (bytes : List UInt8) (start stop : ℕ) : List UInt8 := (bytes.drop start).take (stop - start)

def addPair (state : Sum) (first second : UInt32) : Sum :=
  let next := state.1 + first + state.2
  (next, state.2 + second + next)

def sumPairs (littleEndian : Bool) : Sum → List UInt8 → Sum
  | state, a :: b :: c :: d :: e :: f :: g :: h :: rest =>
    sumPairs littleEndian (addPair state (word littleEndian [a, b, c, d]) (word littleEndian [e, f, g, h])) rest
  | state, _ => state

def walChecksum (littleEndian : Bool) (state : Sum) (bytes : List UInt8) : Except String Sum := do
  ensure (bytes.length % 8 = 0) "SQLite WAL checksum input is misaligned"
  pure (sumPairs littleEndian state bytes)

def headerLength : ℕ := 32

def isPowerOfTwo (n : ℕ) : Bool := 2 ^ n.log2 = n

/-- The byte order of the checksums and the page size. -/
def headerFormat (header : List UInt8) : Except String (Bool × ℕ) := do
  let magic := u32Be (slice header 0 4)
  ensure (magic = 0x377f0682 ∨ magic = 0x377f0683) "SQLite WAL has an invalid magic value"
  ensure (u32Be (slice header 4 8) = 3007000) "SQLite WAL format version is unsupported"
  let encodedPageSize := (u32Be (slice header 8 12)).toNat
  let pageSize := if encodedPageSize = 1 then 65536 else encodedPageSize
  ensure ((512 ≤ pageSize ∧ pageSize ≤ 65536) ∧ isPowerOfTwo pageSize) "SQLite WAL page size is invalid"
  pure (magic = 0x377f0682, pageSize)

def storedSum (bytes : List UInt8) (start : ℕ) : Sum :=
  (u32Be (slice bytes start (start + 4)), u32Be (slice bytes (start + 4) (start + 8)))

def frameLength (pageSize : ℕ) : ℕ := 24 + pageSize

/-- The frames one after the other, each with the salts of the header and the running sum. -/
def validateFrames (littleEndian : Bool) (salt : List UInt8) (frameSize : ℕ) :
    ℕ → ℕ → Sum → List UInt8 → Except String Unit
  | 0, _, _, _ => .ok ()
  | count + 1, index, checksum, rest => do
    let frame := rest.take frameSize
    ensure (slice frame 8 16 = salt) ("SQLite WAL frame salt mismatch at frame " ++ toString (index + 1))
    let checksum ← walChecksum littleEndian checksum (frame.take 8)
    let checksum ← walChecksum littleEndian checksum (frame.drop 24)
    ensure (checksum = storedSum frame 16) ("SQLite WAL checksum mismatch at frame " ++ toString (index + 1))
    validateFrames littleEndian salt frameSize count (index + 1) checksum (rest.drop frameSize)

/-- A log is refused unless every byte belongs to its header or to a valid frame. -/
def validateWalIfPresent : Option (List UInt8) → Except String Unit
  | none => .ok ()
  | some file =>
    if file.length = 0 then .ok ()
    else do
      ensure (headerLength ≤ file.length) "SQLite WAL is truncated before its header"
      let header := file.take headerLength
      let (littleEndian, pageSize) ← headerFormat header
      let frameSize := frameLength pageSize
      ensure ((file.length - headerLength) % frameSize = 0) "SQLite WAL ends with a partial frame"
      let checksum ← walChecksum littleEndian (0, 0) (header.take 24)
      ensure (checksum = storedSum header 24) "SQLite WAL header checksum mismatch"
      validateFrames littleEndian (slice header 16 24) frameSize ((file.length - headerLength) / frameSize) 0
        checksum (file.drop headerLength)

/-! ## Checksums -/

theorem addPair_injective {s t : Sum} {first second : UInt32} (h : addPair s first second = addPair t first second) :
    s = t := by
  have hfirst : s.1 + first + s.2 = t.1 + first + t.2 := congrArg Prod.fst h
  have hsecond : s.2 + second + (s.1 + first + s.2) = t.2 + second + (t.1 + first + t.2) := congrArg Prod.snd h
  rw [hfirst] at hsecond
  have htwo : s.2 = t.2 := (UInt32.add_left_inj _).mp ((UInt32.add_left_inj _).mp hsecond)
  rw [htwo] at hfirst
  exact Prod.ext ((UInt32.add_left_inj _).mp ((UInt32.add_left_inj _).mp hfirst)) htwo

theorem sumPairs_injective (littleEndian : Bool) (bytes : List UInt8) {s t : Sum}
    (h : sumPairs littleEndian s bytes = sumPairs littleEndian t bytes) : s = t := by
  induction s, bytes using sumPairs.induct littleEndian generalizing t with
  | case1 s a b c d e f g k rest ih =>
    rw [sumPairs, sumPairs] at h
    exact addPair_injective (ih h)
  | case2 s bytes hshort =>
    rw [sumPairs.eq_2 _ _ _ hshort, sumPairs.eq_2 _ _ _ hshort] at h
    exact h

theorem walChecksum_of_aligned {littleEndian : Bool} {state : Sum} {bytes : List UInt8} (h : bytes.length % 8 = 0) :
    walChecksum littleEndian state bytes = .ok (sumPairs littleEndian state bytes) := by
  unfold walChecksum
  rw [ensure_of h]
  rfl

end CcSwitchServer.ServerSqlite
