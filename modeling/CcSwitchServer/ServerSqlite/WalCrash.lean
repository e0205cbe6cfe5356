import CcSwitchServer.Foundations.Runs
import CcSwitchServer.ServerSqlite.WalTail

/-! # Crashes between commits and checkpoints

Transactions are appended to the log, checkpoints copy it into the database and empty the file or let the next
transaction start it again, and a crash stops at any byte of an append.
-/

namespace CcSwitchServer.ServerSqlite
open Foundations List

section
variable {cfg : Config}

structure Page (cfg : Config) where
  number : UInt32
  data : List UInt8
  length : data.length = cfg.pageSize

/-- The pages that a transaction writes; the last frame commits it. -/
structure PageTransaction (cfg : Config) where
  front : List (Page cfg)
  last : Page cfg
  size : UInt32
  committed : size ≠ 0

def PageTransaction.frames (t : PageTransaction cfg) : List Frame :=
  t.front.map (fun p => ⟨p.number, 0, p.data⟩) ++ [⟨t.last.number, t.size, t.last.data⟩]

structure Commit (cfg : Config) where
  transaction : PageTransaction cfg
  /-- Whether the log is started again, once all of it is in the database. -/
  restart : Bool
  /-- The salts of a log that this commit starts. -/
  salts : Salts

/-- A database with its log file; `log` are the frames since the last start of the log. -/
structure Wal (cfg : Config) where
  db : Image
  file : List UInt8 := []
  sequence : UInt32
  salts : Salts
  /-- The salts of the frames that may be left over from earlier logs. -/
  older : List Salts := []
  log : List Frame := []
  copied : Bool := true

inductive WalOp (cfg : Config)
  | commit (c : Commit cfg)
  | checkpoint (truncate : Bool)

namespace Wal

variable (s : Wal cfg)

def header : Header := headerOf cfg s.sequence s.salts

variable (c : Commit cfg)

/-- A commit starts the log again when it is empty, or when all of it has been copied. -/
def restarts : Bool := s.log.isEmpty || (c.restart && s.copied)

def begun : Wal cfg :=
  if s.restarts c then
    { s with
      sequence := s.sequence + 1
      salts := c.salts
      older := if s.log.isEmpty then [] else s.salts :: s.older
      log := [] }
  else s

def logBytes : List UInt8 := (s.header.encodeFrames s.header.sum s.log).flatten

def frameBytes : List UInt8 :=
  (s.header.encodeFrames (s.header.sumAfter s.header.sum s.log) c.transaction.frames).flatten

def offset : ℕ :=
  if s.restarts c then 0 else headerLength + s.log.length * frameLength cfg.pageSize

/-- The bytes that a commit writes. -/
def appended : List UInt8 :=
  if s.restarts c then
    encodeHeader cfg (s.begun c).sequence (s.begun c).salts ++ (s.begun c).frameBytes c
  else s.frameBytes c

def overwrite (file : List UInt8) (offset : ℕ) (bytes : List UInt8) : List UInt8 :=
  file.take offset ++ (bytes ++ file.drop (offset + bytes.length))

/-- The file after a commit that has written only some bytes. -/
def crash (written : List UInt8) : List UInt8 := overwrite s.file (s.offset c) written

def step : WalOp cfg → Wal cfg
  | .commit c =>
    { s.begun c with
      file := s.crash c (s.appended c)
      log := (s.begun c).log ++ c.transaction.frames
      copied := false }
  | .checkpoint truncate =>
    { s with
      db := s.db.frames s.log
      file := if truncate then [] else s.file
      older := if truncate then [] else s.older
      log := if truncate then [] else s.log
      copied := true }

end Wal

def opened (db : Image) (sequence : UInt32) (salts : Salts) : Wal cfg := { db := db, sequence := sequence, salts := salts }

/-- A log that is started again has salts of its own. -/
def Fresh (s : Wal cfg) : WalOp cfg → Prop
  | .commit c => s.restarts c = true → c.salts ∉ (s.begun c).older
  | .checkpoint _ => True

def WalOp.frames : WalOp cfg → List Frame
  | .commit c => c.transaction.frames
  | .checkpoint _ => []

/-- The frames of the commits that have returned. -/
def returned (ops : List (WalOp cfg)) : List Frame := ops.flatMap WalOp.frames

def WholeFrames (cfg : Config) (n : ℕ) : Prop :=
  n = 0 ∨ headerLength ≤ n ∧ (n - headerLength) % frameLength cfg.pageSize = 0

/-! ## Transactions -/

variable (t : PageTransaction cfg)

theorem PageTransaction.length_data : ∀ f ∈ t.frames, f.data.length = cfg.pageSize := by
  intro f hf
  rcases mem_append.mp hf with hf | hf
  · obtain ⟨p, -, rfl⟩ := mem_map.mp hf
    exact p.length
  · rw [mem_singleton.mp hf]
    exact t.last.length

theorem PageTransaction.last_commits (f : Frame) (hf : t.frames.getLast? = some f) : f.commits = true := by
  unfold PageTransaction.frames at hf
  rw [getLast?_append, getLast?_singleton] at hf
  cases hf
  exact decide_eq_true t.committed

theorem PageTransaction.upToCommit_take (j : ℕ) :
    upToCommit (t.frames.take j) = [] ∨ upToCommit (t.frames.take j) = t.frames := by
  by_cases hj : j ≤ t.front.length
  · left
    apply upToCommit_none
    intro f hf
    unfold PageTransaction.frames at hf
    rw [take_append_of_le_length (by rw [length_map]; exact hj)] at hf
    obtain ⟨p, -, rfl⟩ := mem_map.mp (mem_of_mem_take hf)
    rfl
  · right
    rw [take_of_length_le]
    · exact upToCommit_self t.last_commits
    · unfold PageTransaction.frames
      rw [length_append, length_map, length_singleton]
      omega

theorem saltBytes_injective {salts salts' : Salts} (h : saltBytes salts = saltBytes salts') : salts = salts' := by
  have hlength : (be4 salts.1).length = (be4 salts'.1).length := by rw [length_be4, length_be4]
  obtain ⟨hone, htwo⟩ := append_inj h hlength
  refine Prod.ext ?_ ?_
  · rw [← u32Be_be4 salts.1, hone, u32Be_be4]
  · rw [← u32Be_be4 salts.2, htwo, u32Be_be4]

theorem length_header_salt (s : Wal cfg) : s.header.salt.length = 8 := length_saltBytes s.salts

/-! ## What a log looks like -/

/-- Frames that are left over from earlier logs. -/
def Older (s : Wal cfg) (tail : List (List UInt8)) : Prop :=
  ∀ c ∈ tail, c.length = frameLength cfg.pageSize ∧ ∃ salts ∈ s.older, slice c 8 16 = saltBytes salts

/-- The file is a log, and database and log make up the whole image. -/
structure Laid (whole : Image) (s : Wal cfg) : Prop where
  empty : s.log = [] → s.file = [] ∧ s.copied = true
  file : s.log ≠ [] → ∃ tail, s.file = encodeHeader cfg s.sequence s.salts ++ (s.logBytes ++ tail.flatten) ∧
    Older s tail
  fresh : s.salts ∉ s.older
  data : ∀ f ∈ s.log, f.data.length = cfg.pageSize
  ends : ∀ f, s.log.getLast? = some f → f.commits = true
  image : s.db.frames s.log = whole
  copied : s.copied = true → s.db = whole

theorem Older.leftOver {s : Wal cfg} {tail : List (List UInt8)} (h : Older s tail) (hfresh : s.salts ∉ s.older) :
    LeftOver s.header tail := by
  intro c hc
  obtain ⟨hlength, salts, hsalts, hslice⟩ := h c hc
  refine ⟨hlength, fun heq => hfresh ?_⟩
  rw [hslice] at heq
  rw [← saltBytes_injective heq]
  exact hsalts

theorem laid_opened (db : Image) (sequence : UInt32) (salts : Salts) :
    Laid db (opened db sequence salts : Wal cfg) where
  empty _ := ⟨rfl, rfl⟩
  file h := absurd rfl h
  fresh := not_mem_nil
  data _ h := by cases h
  ends _ h := by cases h
  image := rfl
  copied _ := rfl

theorem length_logBytes {s : Wal cfg} (h : ∀ f ∈ s.log, f.data.length = cfg.pageSize) :
    s.logBytes.length = s.log.length * frameLength cfg.pageSize := by
  unfold Wal.logBytes
  rw [length_flatten_of_chunks fun c hc =>
    s.header.length_of_mem_encodeFrames (length_header_salt s) h hc, Header.length_encodeFrames]
  rfl

theorem overwrite_append {a b bytes : List UInt8} {n : ℕ} (hn : a.length = n) :
    Wal.overwrite (a ++ b) n bytes = a ++ (bytes ++ b.drop bytes.length) := by
  unfold Wal.overwrite
  rw [take_left' hn, ← drop_drop, drop_left' hn]

/-! ## The file of a commit -/

variable {s : Wal cfg} {whole : Image} {c : Commit cfg}

theorem begun_of_restarts (h : s.restarts c = true) : s.begun c =
    { s with
      sequence := s.sequence + 1
      salts := c.salts
      older := if s.log.isEmpty then [] else s.salts :: s.older
      log := [] } := if_pos h

theorem begun_of_not_restarts (h : s.restarts c = false) : s.begun c = s := if_neg (by rw [h]; decide)

theorem log_ne_nil_of_not_restarts (h : s.restarts c = false) : s.log ≠ [] := by
  intro hnil
  unfold Wal.restarts at h
  rw [hnil] at h
  cases h

section
variable (hs : Laid whole s)
include hs

theorem copied_of_restarts (h : s.restarts c = true) : s.copied = true := by
  unfold Wal.restarts at h
  rw [Bool.or_eq_true, Bool.and_eq_true] at h
  rcases h with h | h
  · exact (hs.empty (isEmpty_iff.mp h)).2
  · exact h.2

theorem fresh_begun (hfresh : Fresh s (.commit c)) : (s.begun c).salts ∉ (s.begun c).older := by
  cases h : s.restarts c with
  | true =>
    have hsalts : (s.begun c).salts = c.salts := by rw [begun_of_restarts h]
    rw [hsalts]
    exact hfresh h
  | false =>
    rw [begun_of_not_restarts h]
    exact hs.fresh

theorem data_begun : ∀ f ∈ (s.begun c).log, f.data.length = cfg.pageSize := by
  cases h : s.restarts c with
  | true =>
    rw [begun_of_restarts h]
    intro f hf
    cases hf
  | false =>
    rw [begun_of_not_restarts h]
    exact hs.data

theorem ends_begun : ∀ f, (s.begun c).log.getLast? = some f → f.commits = true := by
  cases h : s.restarts c with
  | true =>
    rw [begun_of_restarts h]
    intro f hf
    cases hf
  | false =>
    rw [begun_of_not_restarts h]
    exact hs.ends

theorem image_begun : (s.begun c).db.frames (s.begun c).log = whole := by
  cases h : s.restarts c with
  | true =>
    rw [begun_of_restarts h]
    exact hs.copied (copied_of_restarts hs h)
  | false =>
    rw [begun_of_not_restarts h]
    exact hs.image

end

theorem db_begun (s : Wal cfg) (c : Commit cfg) : (s.begun c).db = s.db := by
  unfold Wal.begun
  split <;> rfl

/-- A file in which the first `written` bytes of a commit's frames stand behind the log. -/
structure Cut (s : Wal cfg) (c : Commit cfg) (file written : List UInt8) (tail : List (List UInt8)) : Prop where
  bytes : file = encodeHeader cfg (s.begun c).sequence (s.begun c).salts ++
    ((s.begun c).logBytes ++ (written ++ tail.flatten.drop written.length))
  older : Older (s.begun c) tail
  written : written <+: (s.begun c).frameBytes c

theorem cut_of_crash (hs : Laid whole s) {written : List UInt8} (hwritten : written <+: s.appended c)
    (hheader : headerLength ≤ s.offset c + written.length) :
    ∃ frames tail, Cut s c (s.crash c written) frames tail ∧
      s.offset c + written.length = headerLength + (s.begun c).log.length * frameLength cfg.pageSize + frames.length ∧
      (s.file = [] ∧ tail = [] ∨ s.file.length =
        headerLength + ((s.begun c).log.length + tail.length) * frameLength cfg.pageSize) ∧
      (written = s.appended c → frames = (s.begun c).frameBytes c) := by
  cases h : s.restarts c with
  | false =>
    obtain ⟨tail, hfile, holder⟩ := hs.file (log_ne_nil_of_not_restarts h)
    have hoffset : s.offset c = headerLength + s.log.length * frameLength cfg.pageSize := if_neg (by rw [h]; decide)
    have happended : s.appended c = s.frameBytes c := if_neg (by rw [h]; decide)
    have hbegun := begun_of_not_restarts h
    have hfront : (encodeHeader cfg s.sequence s.salts ++ s.logBytes).length = s.offset c := by
      rw [List.length_append, length_encodeHeader, length_logBytes hs.data, hoffset]
    refine ⟨written, tail, ⟨?_, ?_, ?_⟩, ?_, .inr ?_, ?_⟩
    · rw [hbegun]
      unfold Wal.crash
      rw [hfile, ← List.append_assoc, overwrite_append hfront, List.append_assoc]
    · rw [hbegun]
      exact holder
    · rw [hbegun, ← happended]
      exact hwritten
    · rw [hbegun, hoffset]
    · rw [hbegun, hfile, ← List.append_assoc, List.length_append, hfront, hoffset,
        length_flatten_of_chunks fun c hc => (holder c hc).1, Nat.add_mul, Nat.add_assoc]
    · intro hall
      rw [hbegun, hall, happended]
  | true =>
    have hoffset : s.offset c = 0 := if_pos h
    rw [hoffset, Nat.zero_add] at hheader
    have happended : s.appended c =
        encodeHeader cfg (s.begun c).sequence (s.begun c).salts ++ (s.begun c).frameBytes c := if_pos h
    rw [happended] at hwritten
    obtain ⟨frames, hsplit⟩ : ∃ frames,
        written = encodeHeader cfg (s.begun c).sequence (s.begun c).salts ++ frames := by
      have htake := List.prefix_of_prefix_length_le
        (List.prefix_append (encodeHeader cfg (s.begun c).sequence (s.begun c).salts) ((s.begun c).frameBytes c))
        hwritten (by rw [length_encodeHeader]; exact hheader)
      obtain ⟨frames, hframes⟩ := htake
      exact ⟨frames, hframes.symm⟩
    have hframes : frames <+: (s.begun c).frameBytes c := by
      rw [hsplit] at hwritten
      exact (List.prefix_append_right_inj _).mp hwritten
    have hlength : written.length = headerLength + frames.length := by
      rw [hsplit, List.length_append, length_encodeHeader]
    have hlog : (s.begun c).log = [] := by rw [begun_of_restarts h]
    have hlogBytes : (s.begun c).logBytes = [] := by
      unfold Wal.logBytes
      rw [hlog]
      rfl
    have hcrash : s.crash c written = encodeHeader cfg (s.begun c).sequence (s.begun c).salts ++
        (frames ++ s.file.drop (headerLength + frames.length)) := by
      unfold Wal.crash Wal.overwrite
      rw [hoffset, List.take_zero, Nat.zero_add, List.nil_append, hlength, hsplit, List.append_assoc]
    have hall : written = s.appended c → frames = (s.begun c).frameBytes c := by
      intro hall
      rw [happended, hsplit] at hall
      exact List.append_cancel_left hall
    by_cases hempty : s.log = []
    · have hfile := (hs.empty hempty).1
      refine ⟨frames, [], ⟨?_, ?_, hframes⟩, ?_, .inl ⟨hfile, rfl⟩, hall⟩
      · rw [hcrash, hlogBytes, hfile, List.drop_nil, List.flatten_nil, List.drop_nil, List.nil_append]
      · intro c hc
        cases hc
      · rw [hoffset, hlength, hlog, List.length_nil, Nat.zero_mul]
        omega
    · obtain ⟨tail, hfile, holder⟩ := hs.file hempty
      have holderBegun : (s.begun c).older = s.salts :: s.older := by
        rw [begun_of_restarts h]
        exact if_neg (by rw [List.isEmpty_iff]; exact hempty)
      refine ⟨frames, s.header.encodeFrames s.header.sum s.log ++ tail, ⟨?_, ?_, hframes⟩, ?_, .inr ?_, hall⟩
      · rw [hcrash, hlogBytes, List.nil_append, hfile, List.flatten_append, ← List.drop_drop,
          List.drop_left' (length_encodeHeader _ _ _)]
        rfl
      · intro chunk hchunk
        rw [holderBegun]
        rcases List.mem_append.mp hchunk with hchunk | hchunk
        · exact ⟨s.header.length_of_mem_encodeFrames (length_header_salt s) hs.data hchunk, s.salts,
            List.mem_cons_self, s.header.slice_of_mem_encodeFrames (length_header_salt s) hchunk⟩
        · obtain ⟨hlen, salts, hsalts, hslice⟩ := holder chunk hchunk
          exact ⟨hlen, salts, List.mem_cons_of_mem _ hsalts, hslice⟩
      · rw [hoffset, hlength, hlog, List.length_nil, Nat.zero_mul]
        omega
      · rw [hlog, List.length_nil, Nat.zero_add, hfile, List.length_append, length_encodeHeader, List.length_append,
          length_logBytes hs.data, length_flatten_of_chunks fun c hc => (holder c hc).1, List.length_append,
          Header.length_encodeFrames, Nat.add_mul]

/-! ## Runs -/

theorem Laid.step {o : WalOp cfg} (hs : Laid whole s) (hfresh : Fresh s o) :
    Laid (whole.frames o.frames) (s.step o) := by
  cases o with
  | checkpoint truncate =>
    have himage := hs.image
    cases truncate with
    | true =>
      exact ⟨fun _ => ⟨rfl, rfl⟩, fun h => absurd rfl h, not_mem_nil, (fun _ h => by cases h),
        (fun _ h => by cases h), himage, fun _ => himage⟩
    | false =>
      refine ⟨fun h => ⟨(hs.empty h).1, rfl⟩, hs.file, hs.fresh, hs.data, hs.ends, ?_, fun _ => himage⟩
      change (s.db.frames s.log).frames s.log = whole
      rw [Image.frames_frames, himage]
  | commit c =>
    have hlength : headerLength ≤ s.offset c + (s.appended c).length := by
      cases h : s.restarts c with
      | false =>
        have hoffset : s.offset c = headerLength + s.log.length * frameLength cfg.pageSize :=
          if_neg (by rw [h]; decide)
        omega
      | true =>
        have happended : s.appended c =
          encodeHeader cfg (s.begun c).sequence (s.begun c).salts ++ (s.begun c).frameBytes c := if_pos h
        rw [happended, length_append, length_encodeHeader]
        omega
    obtain ⟨frames, tail, hcut, -, -, hall⟩ := cut_of_crash hs (prefix_refl (s.appended c)) hlength
    have hframes := hall rfl
    subst hframes
    have hnonempty : c.transaction.frames ≠ [] := by
      unfold PageTransaction.frames
      exact append_ne_nil_of_right_ne_nil _ (cons_ne_nil _ _)
    have hbytes : ((s.begun c).frameBytes c).length = c.transaction.frames.length * frameLength cfg.pageSize := by
      unfold Wal.frameBytes
      rw [length_flatten_of_chunks fun x hx => (s.begun c).header.length_of_mem_encodeFrames
        (length_header_salt _) c.transaction.length_data hx, Header.length_encodeFrames]
      rfl
    refine ⟨fun h => ?_, fun _ => ?_, fresh_begun hs hfresh, ?_, ?_, ?_, fun h => ?_⟩
    · exact absurd (append_eq_nil_iff.mp h).2 hnonempty
    · refine ⟨tail.drop c.transaction.frames.length, ?_, fun x hx => hcut.older x (mem_of_mem_drop hx)⟩
      change s.crash c (s.appended c) = _
      rw [hcut.bytes, hbytes, drop_flatten_of_chunks fun x hx => (hcut.older x hx).1]
      unfold Wal.logBytes Wal.frameBytes
      change _ = _ ++ (((s.begun c).header.encodeFrames (s.begun c).header.sum
        ((s.begun c).log ++ c.transaction.frames)).flatten ++ _)
      rw [Header.encodeFrames_append, flatten_append, append_assoc]
      rfl
    · intro f hf
      rcases mem_append.mp hf with hf | hf
      · exact data_begun hs f hf
      · exact c.transaction.length_data f hf
    · intro f hf
      change ((s.begun c).log ++ c.transaction.frames).getLast? = some f at hf
      rw [getLast?_append_of_ne_nil _ hnonempty] at hf
      exact c.transaction.last_commits f hf
    · change (s.begun c).db.frames ((s.begun c).log ++ c.transaction.frames) = _
      rw [Image.frames_append, image_begun hs]
      rfl
    · cases h

theorem laid_run {db : Image} {sequence : UInt32} {salts : Salts} {ops : List (WalOp cfg)}
    (hfresh : EachStep Wal.step Fresh (opened db sequence salts) ops) :
    Laid (db.frames (returned ops)) (run Wal.step (opened db sequence salts) ops) := by
  induction ops using reverseRecOn with
  | nil => exact laid_opened db sequence salts
  | append_singleton ops o ih =>
    rw [EachStep.append] at hfresh
    rw [run_append_singleton]
    unfold returned at ih ⊢
    rw [flatMap_append, flatMap_singleton, Image.frames_append]
    exact (ih hfresh.1).step hfresh.2.1

end

end CcSwitchServer.ServerSqlite
