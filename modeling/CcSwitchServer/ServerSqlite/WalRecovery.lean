import CcSwitchServer.Foundations.Crashing
import CcSwitchServer.ServerSqlite.Wal

/-! # What a log recovers

A database that is opened takes from its log the valid frames up to the last commit, and the validation accepts
the logs that consist of such frames.
-/

namespace CcSwitchServer.ServerSqlite
open Foundations List

structure Header where
  littleEndian : Bool
  pageSize : ℕ
  salt : List UInt8
  sum : Sum

def headerSum (littleEndian : Bool) (header : List UInt8) : Sum := sumPairs littleEndian (0, 0) (header.take 24)

/-- The header, if it is valid. -/
def header? (file : List UInt8) : Option Header :=
  let header := file.take headerLength
  if file.length < headerLength then none
  else
    match headerFormat header with
    | .error _ => none
    | .ok (littleEndian, pageSize) =>
      if headerSum littleEndian header = storedSum header 24 then
        some ⟨littleEndian, pageSize, slice header 16 24, storedSum header 24⟩
      else none

namespace Header

def frameSum (h : Header) (sum : Sum) (frame : List UInt8) : Sum :=
  sumPairs h.littleEndian (sumPairs h.littleEndian sum (frame.take 8)) (frame.drop 24)

/-- The frame has the salts of the header and the right sum. -/
def Accepts (h : Header) (sum : Sum) (frame : List UInt8) : Prop :=
  slice frame 8 16 = h.salt ∧ h.frameSum sum frame = storedSum frame 16

instance (h : Header) (sum : Sum) (frame : List UInt8) : Decidable (h.Accepts sum frame) :=
  inferInstanceAs (Decidable (_ ∧ _))

def chain (h : Header) : ℕ → Sum → List UInt8 → List (List UInt8)
  | 0, _, _ => []
  | count + 1, sum, rest =>
    let frame := rest.take (frameLength h.pageSize)
    if h.Accepts sum frame then
      frame :: h.chain count (h.frameSum sum frame) (rest.drop (frameLength h.pageSize))
    else []

def frames (h : Header) (file : List UInt8) : List (List UInt8) :=
  h.chain ((file.length - headerLength) / frameLength h.pageSize) h.sum (file.drop headerLength)

end Header

/-- The frames behind a valid header, up to the first that is not accepted. -/
def validFrames (file : List UInt8) : List (List UInt8) :=
  match header? file with
  | none => []
  | some h => h.frames file

def validLength (file : List UInt8) : ℕ :=
  match header? file with
  | none => 0
  | some h => headerLength + (h.frames file).length * frameLength h.pageSize

/-! ## Pages -/

/-- One page as a transaction leaves it. -/
structure Frame where
  page : UInt32
  /-- The pages of the database after a commit, and zero in the other frames. -/
  size : UInt32
  data : List UInt8

def decodeFrame (frame : List UInt8) : Frame := ⟨u32Be (slice frame 0 4), u32Be (slice frame 4 8), frame.drop 24⟩

def Frame.commits (f : Frame) : Bool := f.size ≠ 0

/-- The frames up to the last one that commits. -/
def upToCommit : List Frame → List Frame
  | [] => []
  | f :: rest => if f.commits ∨ upToCommit rest ≠ [] then f :: upToCommit rest else []

inductive Cell
  | page (number : UInt32)
  | pageCount
deriving DecidableEq

/-- The pages of a database and their number. -/
abbrev Image := Cell → Option (List UInt8)

def Frame.writes (f : Frame) : List (Cell × Option (List UInt8)) :=
  (.page f.page, some f.data) :: if f.commits then [(.pageCount, some (beBytes 4 f.size.toNat))] else []

variable (db : Image)

def Image.frames (fs : List Frame) : Image := redo db (fs.flatMap Frame.writes)

def recovered (file : List UInt8) : List Frame := upToCommit ((validFrames file).map decodeFrame)

/-- What SQLite recovers from a database and its log. -/
def readBack (file : List UInt8) : Image := db.frames (recovered file)

/-- The log is validated before the database is opened. -/
def openLog (file : List UInt8) : Except String Image := do
  validateWalIfPresent (some file)
  pure (readBack db file)

/-! ## Frames up to a commit -/

theorem upToCommit_append {fs rest : List Frame} (h : ∀ f, fs.getLast? = some f → f.commits = true) :
    upToCommit (fs ++ rest) = fs ++ upToCommit rest := by
  induction fs with
  | nil => rfl
  | cons f fs ih =>
    rw [cons_append, upToCommit]
    cases fs with
    | nil => rw [if_pos (.inl (h f rfl)), nil_append, singleton_append]
    | cons f' fs =>
      have hlast : ∀ x, (f' :: fs).getLast? = some x → x.commits = true := by
        intro x hx
        exact h x (by rw [getLast?_cons_cons]; exact hx)
      rw [ih hlast, if_pos (.inr (by simp))]
      rfl

theorem upToCommit_self {fs : List Frame} (h : ∀ f, fs.getLast? = some f → f.commits = true) : upToCommit fs = fs := by
  have happend := @upToCommit_append _ [] h
  rwa [append_nil, upToCommit, append_nil] at happend

theorem upToCommit_prefix (fs : List Frame) : upToCommit fs <+: fs := by
  induction fs with
  | nil => exact nil_prefix
  | cons f fs ih =>
    rw [upToCommit]
    split
    · exact cons_prefix_cons.mpr ⟨rfl, ih⟩
    · exact nil_prefix

theorem upToCommit_none {fs : List Frame} (h : ∀ f ∈ fs, f.commits = false) : upToCommit fs = [] := by
  induction fs with
  | nil => rfl
  | cons f fs ih =>
    have hrest := ih fun x hx => h x (mem_cons_of_mem _ hx)
    rw [upToCommit, hrest, if_neg]
    rw [h f mem_cons_self]
    simp

theorem Image.frames_append (fs fs' : List Frame) : db.frames (fs ++ fs') = (db.frames fs).frames fs' := by
  unfold Image.frames
  rw [flatMap_append, redo_append]

theorem Image.frames_frames (fs : List Frame) : (db.frames fs).frames fs = db.frames fs := redo_redo _ _

/-! ## What is accepted -/

theorem isPowerOfTwo_dvd {n : ℕ} (h : isPowerOfTwo n = true) (hn : 512 ≤ n) : 8 ∣ n := by
  unfold isPowerOfTwo at h
  rw [decide_eq_true_iff] at h
  have hlog : 9 ≤ n.log2 := (Nat.le_log2 (by omega)).mpr hn
  have hdvd : 2 ^ 3 ∣ 2 ^ n.log2 := Nat.pow_dvd_pow 2 (by omega)
  rw [h] at hdvd
  exact hdvd

theorem headerFormat_ok {header : List UInt8} {littleEndian : Bool} {pageSize : ℕ}
    (h : headerFormat header = .ok (littleEndian, pageSize)) :
    512 ≤ pageSize ∧ pageSize ≤ 65536 ∧ 8 ∣ pageSize := by
  unfold headerFormat at h
  obtain ⟨_, -, h⟩ := bind_eq_ok.mp h
  obtain ⟨_, -, h⟩ := bind_eq_ok.mp h
  obtain ⟨_, hsize, h⟩ := bind_eq_ok.mp h
  cases h
  rw [ensure_eq_ok] at hsize
  exact ⟨hsize.1.1, hsize.1.2, isPowerOfTwo_dvd hsize.2 hsize.1.1⟩

namespace Header
variable {h : Header}

theorem validateFrames_iff (hpage : 8 ∣ h.pageSize) {count index : ℕ} {sum : Sum} {rest : List UInt8}
    (hrest : count * frameLength h.pageSize ≤ rest.length) :
    validateFrames h.littleEndian h.salt (frameLength h.pageSize) count index sum rest = .ok () ↔
      (h.chain count sum rest).length = count := by
  induction count generalizing index sum rest with
  | zero => exact ⟨fun _ => rfl, fun _ => rfl⟩
  | succ count ih =>
    rw [Nat.succ_mul] at hrest
    have hframe : (rest.take (frameLength h.pageSize)).length = frameLength h.pageSize := by
      rw [length_take]
      omega
    have hhead : ((rest.take (frameLength h.pageSize)).take 8).length % 8 = 0 := by
      rw [length_take, hframe]
      unfold frameLength
      omega
    have hdata : ((rest.take (frameLength h.pageSize)).drop 24).length % 8 = 0 := by
      rw [length_drop, hframe]
      unfold frameLength
      omega
    have hdrop : count * frameLength h.pageSize ≤ (rest.drop (frameLength h.pageSize)).length := by
      rw [length_drop]
      omega
    rw [validateFrames, chain]
    by_cases hsalt : slice (rest.take (frameLength h.pageSize)) 8 16 = h.salt
    · rw [ensure_of hsalt, ok_bind, walChecksum_of_aligned hhead, ok_bind, walChecksum_of_aligned hdata, ok_bind]
      by_cases hsum : h.frameSum sum (rest.take (frameLength h.pageSize)) =
          storedSum (rest.take (frameLength h.pageSize)) 16
      · rw [if_pos ⟨hsalt, hsum⟩, length_cons]
        unfold frameSum at hsum ⊢
        rw [ensure_of hsum, ok_bind, ih hdrop]
        omega
      · rw [if_neg fun haccepts => hsum haccepts.2]
        unfold frameSum at hsum
        rw [ensure_of_not hsum]
        exact ⟨(fun h => nomatch h), (fun h => nomatch h)⟩
    · rw [ensure_of_not hsalt, if_neg fun haccepts => hsalt haccepts.1]
      exact ⟨(fun h => nomatch h), (fun h => nomatch h)⟩

end Header

theorem validateWalIfPresent_iff (file : List UInt8) :
    validateWalIfPresent (some file) = .ok () ↔ validLength file = file.length := by
  unfold validateWalIfPresent validLength header?
  dsimp only
  by_cases hempty : file.length = 0
  · rw [if_pos hempty, if_pos (by rw [hempty]; decide), hempty]
    exact ⟨fun _ => rfl, fun _ => rfl⟩
  · rw [if_neg hempty]
    by_cases hshort : file.length < headerLength
    · rw [ensure_of_not (Nat.not_le.mpr hshort), if_pos hshort]
      exact ⟨(fun h => nomatch h), fun h => absurd h.symm hempty⟩
    · rw [ensure_of (Nat.le_of_not_lt hshort), ok_bind, if_neg hshort]
      cases hformat : headerFormat (file.take headerLength) with
      | error e => exact ⟨(fun h => nomatch h), fun h => absurd h.symm hempty⟩
      | ok format =>
        obtain ⟨littleEndian, pageSize⟩ := format
        obtain ⟨-, -, hpage⟩ := headerFormat_ok hformat
        have hlength : ((file.take headerLength).take 24).length % 8 = 0 := by
          rw [length_take, length_take]
          unfold headerLength at hshort ⊢
          omega
        rw [ok_bind]
        dsimp only
        by_cases hpart : (file.length - headerLength) % frameLength pageSize = 0
        · rw [ensure_of hpart, ok_bind, walChecksum_of_aligned hlength, ok_bind]
          by_cases hsum : headerSum littleEndian (file.take headerLength) = storedSum (file.take headerLength) 24
          · have hsum' := hsum
            unfold headerSum at hsum'
            rw [ensure_of hsum', ok_bind, if_pos hsum, hsum']
            have hwhole := Nat.div_mul_cancel (Nat.dvd_of_mod_eq_zero hpart)
            have hrest : (file.length - headerLength) / frameLength pageSize * frameLength pageSize ≤
                (file.drop headerLength).length := by
              rw [hwhole, length_drop]
            refine (Header.validateFrames_iff (h := ⟨littleEndian, pageSize, slice (file.take headerLength) 16 24,
              storedSum (file.take headerLength) 24⟩) hpage hrest).trans ?_
            unfold Header.frames
            dsimp only
            constructor
            · intro hlength
              rw [hlength, hwhole]
              omega
            · intro htotal
              refine Nat.eq_of_mul_eq_mul_right (by unfold frameLength; omega : 0 < frameLength pageSize) ?_
              rw [hwhole]
              omega
          · rw [if_neg hsum]
            unfold headerSum at hsum
            rw [ensure_of_not hsum]
            exact ⟨(fun h => nomatch h), fun h => absurd h.symm hempty⟩
        · rw [ensure_of_not hpart]
          refine ⟨(fun h => nomatch h), fun h => ?_⟩
          exfalso
          split at h
          · exact hempty h.symm
          · rename_i header hheader
            split at hheader
            · cases hheader
              apply hpart
              rw [← h, Nat.add_sub_cancel_left, Nat.mul_mod_left]
            · cases hheader

end CcSwitchServer.ServerSqlite
