import CcSwitchServer.ServerSqlite.WalRecovery

/-! # What is written to a log

The bytes of a header and of the frames of a transaction, and what is recovered when the frames are cut off
anywhere, with frames of earlier logs behind them.
-/

namespace CcSwitchServer.ServerSqlite
open Foundations List

def be4 (n : UInt32) : List UInt8 := beBytes 4 n.toNat

/-- The byte order of the checksums and the page size of a database. -/
structure Config where
  littleEndian : Bool
  pageSize : ℕ
  valid : (512 ≤ pageSize ∧ pageSize ≤ 65536) ∧ isPowerOfTwo pageSize

abbrev Salts := UInt32 × UInt32

def saltBytes (salts : Salts) : List UInt8 := be4 salts.1 ++ be4 salts.2

def magic (littleEndian : Bool) : UInt32 := if littleEndian then 0x377f0682 else 0x377f0683

def headerStart (cfg : Config) : List UInt8 :=
  be4 (magic cfg.littleEndian) ++ be4 3007000 ++ be4 (UInt32.ofNat cfg.pageSize)

def headerHead (cfg : Config) (sequence : UInt32) (salts : Salts) : List UInt8 :=
  headerStart cfg ++ be4 sequence ++ saltBytes salts

def headerOf (cfg : Config) (sequence : UInt32) (salts : Salts) : Header :=
  ⟨cfg.littleEndian, cfg.pageSize, saltBytes salts, sumPairs cfg.littleEndian (0, 0) (headerHead cfg sequence salts)⟩

def sumBytes (sum : Sum) : List UInt8 := be4 sum.1 ++ be4 sum.2

def encodeHeader (cfg : Config) (sequence : UInt32) (salts : Salts) : List UInt8 :=
  headerHead cfg sequence salts ++ sumBytes (headerOf cfg sequence salts).sum

namespace Header

def dataSum (h : Header) (sum : Sum) (f : Frame) : Sum :=
  sumPairs h.littleEndian (sumPairs h.littleEndian sum (be4 f.page ++ be4 f.size)) f.data

def encodeFrame (h : Header) (sum : Sum) (f : Frame) : List UInt8 :=
  be4 f.page ++ be4 f.size ++ h.salt ++ sumBytes (h.dataSum sum f) ++ f.data

/-- Every sum runs over the frames before it. -/
def encodeFrames (h : Header) : Sum → List Frame → List (List UInt8)
  | _, [] => []
  | sum, f :: fs => h.encodeFrame sum f :: h.encodeFrames (h.dataSum sum f) fs

def sumAfter (h : Header) (sum : Sum) (fs : List Frame) : Sum := fs.foldl h.dataSum sum

end Header

/-! ## Slices -/

@[simp] theorem length_be4 (n : UInt32) : (be4 n).length = 4 := length_beBytes 4 _

@[simp] theorem length_saltBytes (salts : Salts) : (saltBytes salts).length = 8 := by
  unfold saltBytes
  rw [length_append, length_be4, length_be4]

@[simp] theorem length_sumBytes (sum : Sum) : (sumBytes sum).length = 8 := length_saltBytes sum

theorem u32Be_be4 (n : UInt32) : u32Be (be4 n) = n := by
  unfold u32Be be4
  rw [beNat_beBytes n.toNat_lt]
  exact UInt32.ofNat_toNat

theorem slice_append {a b c : List UInt8} {start stop : ℕ} (hstart : a.length = start)
    (hstop : start + b.length = stop) : slice (a ++ b ++ c) start stop = b := by
  unfold slice
  rw [append_assoc, drop_append_of_le_length hstart.ge, ← hstart, drop_length, nil_append]
  rw [show stop - a.length = b.length by omega, take_left']
  rfl

theorem slice_zero {b c : List UInt8} {stop : ℕ} (hstop : b.length = stop) : slice (b ++ c) 0 stop = b :=
  take_left' hstop

theorem storedSum_append {a c : List UInt8} {sum : Sum} {start : ℕ} (hstart : a.length = start) :
    storedSum (a ++ sumBytes sum ++ c) start = sum := by
  unfold storedSum sumBytes
  have hfirst : slice (a ++ be4 sum.1 ++ (be4 sum.2 ++ c)) start (start + 4) = be4 sum.1 :=
    slice_append hstart (by rw [length_be4])
  have hsecond : slice (a ++ be4 sum.1 ++ be4 sum.2 ++ c) (start + 4) (start + 8) = be4 sum.2 :=
    slice_append (by rw [length_append, length_be4, hstart]) (by rw [length_be4])
  rw [← append_assoc a, append_assoc (a ++ be4 sum.1), hfirst, ← append_assoc, hsecond, u32Be_be4, u32Be_be4]

/-! ## Headers -/

theorem length_headerHead (cfg : Config) (sequence : UInt32) (salts : Salts) :
    (headerHead cfg sequence salts).length = 24 := by
  unfold headerHead headerStart
  simp only [length_append, length_be4, length_saltBytes]

@[simp] theorem length_encodeHeader (cfg : Config) (sequence : UInt32) (salts : Salts) :
    (encodeHeader cfg sequence salts).length = headerLength := by
  unfold encodeHeader
  rw [length_append, length_headerHead, length_sumBytes]
  rfl

theorem headerFormat_of_start {cfg : Config} {header : List UInt8} (h : header.take 12 = headerStart cfg) :
    headerFormat header = .ok (cfg.littleEndian, cfg.pageSize) := by
  have hsplit : header = headerStart cfg ++ header.drop 12 := by
    rw [← h, take_append_drop]
  have hmagic : slice header 0 4 = be4 (magic cfg.littleEndian) := by
    rw [hsplit]
    unfold headerStart
    rw [append_assoc, append_assoc]
    exact slice_zero (length_be4 _)
  have hversion : slice header 4 8 = be4 3007000 := by
    rw [hsplit]
    unfold headerStart
    rw [append_assoc]
    exact slice_append (length_be4 _) (by rw [length_be4])
  have hpage : slice header 8 12 = be4 (UInt32.ofNat cfg.pageSize) := by
    rw [hsplit]
    unfold headerStart
    exact slice_append (by rw [length_append, length_be4, length_be4]) (by rw [length_be4])
  obtain ⟨⟨hlow, hhigh⟩, hpower⟩ := cfg.valid
  have hnat : (UInt32.ofNat cfg.pageSize).toNat = cfg.pageSize := by
    rw [UInt32.toNat_ofNat']
    exact Nat.mod_eq_of_lt (by omega)
  unfold headerFormat
  rw [hmagic, hversion, hpage, u32Be_be4, u32Be_be4, u32Be_be4]
  dsimp only
  rw [hnat, if_neg (by omega), ensure_of (by unfold magic; cases cfg.littleEndian <;> decide), ok_bind,
    ensure_of rfl, ok_bind, ensure_of ⟨⟨hlow, hhigh⟩, hpower⟩, ok_bind]
  unfold magic
  cases cfg.littleEndian <;> rfl

theorem header?_encodeHeader (cfg : Config) (sequence : UInt32) (salts : Salts) (rest : List UInt8) :
    header? (encodeHeader cfg sequence salts ++ rest) = some (headerOf cfg sequence salts) := by
  have htake : (encodeHeader cfg sequence salts ++ rest).take headerLength = encodeHeader cfg sequence salts :=
    take_left' (length_encodeHeader cfg sequence salts)
  have hformat : headerFormat (encodeHeader cfg sequence salts) = .ok (cfg.littleEndian, cfg.pageSize) := by
    apply headerFormat_of_start
    unfold encodeHeader headerHead
    rw [append_assoc, append_assoc]
    apply take_left'
    unfold headerStart
    simp only [length_append, length_be4]
  have hsum : headerSum cfg.littleEndian (encodeHeader cfg sequence salts) = (headerOf cfg sequence salts).sum := by
    unfold headerSum encodeHeader
    rw [take_left' (length_headerHead cfg sequence salts)]
    rfl
  have hstored : storedSum (encodeHeader cfg sequence salts) 24 = (headerOf cfg sequence salts).sum := by
    have h := @storedSum_append _ [] (headerOf cfg sequence salts).sum _ (length_headerHead cfg sequence salts)
    rwa [append_nil] at h
  have hsalt : slice (encodeHeader cfg sequence salts) 16 24 = saltBytes salts := by
    unfold encodeHeader headerHead
    refine slice_append ?_ (by rw [length_saltBytes])
    unfold headerStart
    simp only [length_append, length_be4]
  unfold header?
  dsimp only
  rw [htake, hformat, length_append, length_encodeHeader, if_neg (by omega)]
  dsimp only
  rw [hsum, hstored, if_pos rfl, hsalt]
  rfl

/-! ## Frames -/

namespace Header
variable {h : Header} {sum : Sum} {f : Frame} {fs : List Frame}

section
variable (hsalt : h.salt.length = 8)
include hsalt

theorem length_encodeFrame (hf : f.data.length = h.pageSize) :
    (h.encodeFrame sum f).length = frameLength h.pageSize := by
  unfold encodeFrame frameLength
  simp only [length_append, length_be4, length_sumBytes, hsalt, hf]

theorem frameSum_encodeFrame : h.frameSum sum (h.encodeFrame sum f) = h.dataSum sum f := by
  have hhead : (h.encodeFrame sum f).take 8 = be4 f.page ++ be4 f.size := by
    unfold encodeFrame
    rw [append_assoc, append_assoc]
    exact take_left' (by rw [length_append, length_be4, length_be4])
  have hdata : (h.encodeFrame sum f).drop 24 = f.data := by
    unfold encodeFrame
    exact drop_left' (by simp only [length_append, length_be4, length_sumBytes, hsalt])
  unfold frameSum
  rw [hhead, hdata]
  rfl

theorem accepts_encodeFrame : h.Accepts sum (h.encodeFrame sum f) := by
  refine ⟨?_, ?_⟩
  · unfold encodeFrame
    rw [append_assoc (_ ++ h.salt)]
    exact slice_append (by rw [length_append, length_be4, length_be4]) (by rw [hsalt])
  · rw [frameSum_encodeFrame hsalt]
    unfold encodeFrame
    exact (storedSum_append (by simp only [length_append, length_be4, hsalt])).symm

theorem decodeFrame_encodeFrame : decodeFrame (h.encodeFrame sum f) = f := by
  have hpage : slice (h.encodeFrame sum f) 0 4 = be4 f.page := by
    unfold encodeFrame
    rw [append_assoc, append_assoc, append_assoc]
    exact slice_zero (length_be4 _)
  have hsize : slice (h.encodeFrame sum f) 4 8 = be4 f.size := by
    unfold encodeFrame
    rw [append_assoc, append_assoc]
    exact slice_append (length_be4 _) (by rw [length_be4])
  have hdata : (h.encodeFrame sum f).drop 24 = f.data := by
    unfold encodeFrame
    exact drop_left' (by simp only [length_append, length_be4, length_sumBytes, hsalt])
  unfold decodeFrame
  rw [hpage, hsize, hdata, u32Be_be4, u32Be_be4]

theorem map_decodeFrame (sum : Sum) (fs : List Frame) :
    (h.encodeFrames sum fs).map decodeFrame = fs := by
  induction fs generalizing sum with
  | nil => rfl
  | cons f fs ih => rw [encodeFrames, map_cons, decodeFrame_encodeFrame hsalt, ih]

end

theorem length_encodeFrames (sum : Sum) (fs : List Frame) : (h.encodeFrames sum fs).length = fs.length := by
  induction fs generalizing sum with
  | nil => rfl
  | cons f fs ih => rw [encodeFrames, length_cons, length_cons, ih]

theorem encodeFrames_append (sum : Sum) (fs fs' : List Frame) :
    h.encodeFrames sum (fs ++ fs') = h.encodeFrames sum fs ++ h.encodeFrames (h.sumAfter sum fs) fs' := by
  induction fs generalizing sum with
  | nil => rfl
  | cons f fs ih =>
    rw [cons_append, encodeFrames, ih, encodeFrames, cons_append]
    rfl

section
variable (hsalt : h.salt.length = 8)
include hsalt

theorem length_of_mem_encodeFrames (hfs : ∀ f ∈ fs, f.data.length = h.pageSize)
    {chunk : List UInt8} (hchunk : chunk ∈ h.encodeFrames sum fs) : chunk.length = frameLength h.pageSize := by
  induction fs generalizing sum with
  | nil => cases hchunk
  | cons f fs ih =>
    rcases mem_cons.mp hchunk with rfl | hchunk
    · exact length_encodeFrame hsalt (hfs f mem_cons_self)
    · exact ih (fun x hx => hfs x (mem_cons_of_mem _ hx)) hchunk

theorem slice_of_mem_encodeFrames {chunk : List UInt8}
    (hchunk : chunk ∈ h.encodeFrames sum fs) : slice chunk 8 16 = h.salt := by
  induction fs generalizing sum with
  | nil => cases hchunk
  | cons f fs ih =>
    rcases mem_cons.mp hchunk with rfl | hchunk
    · exact (accepts_encodeFrame hsalt).1
    · exact ih hchunk

theorem chain_encodeFrames (hfs : ∀ f ∈ fs, f.data.length = h.pageSize) (count : ℕ)
    (rest : List UInt8) :
    h.chain (fs.length + count) sum ((h.encodeFrames sum fs).flatten ++ rest) =
      h.encodeFrames sum fs ++ h.chain count (h.sumAfter sum fs) rest := by
  induction fs generalizing sum with
  | nil => rw [length_nil, Nat.zero_add]; rfl
  | cons f fs ih =>
    have hlength : (h.encodeFrame sum f).length = frameLength h.pageSize :=
      length_encodeFrame hsalt (hfs f mem_cons_self)
    rw [length_cons, Nat.add_right_comm, chain, encodeFrames, flatten_cons, append_assoc,
      take_left' hlength, drop_left' hlength, if_pos (accepts_encodeFrame hsalt),
      frameSum_encodeFrame hsalt, ih fun x hx => hfs x (mem_cons_of_mem _ hx)]
    rfl

end

theorem chain_of_other_salt {rest : List UInt8} (hne : slice (rest.take (frameLength h.pageSize)) 8 16 ≠ h.salt)
    (count : ℕ) : h.chain count sum rest = [] := by
  cases count with
  | zero => rfl
  | succ count => rw [chain, if_neg fun haccepts => hne haccepts.1]

end Header

end CcSwitchServer.ServerSqlite
