import CcSwitchServer.ServerSqlite.WalCrash

/-! # Starts after a crash

Whatever byte a crash stops at, everything that has been committed is read back; but a start goes on only when every
byte of the log is valid, so a torn frame and the frames of an earlier log stop it.
-/

namespace CcSwitchServer.ServerSqlite
open Foundations List Header Wal

section
variable {cfg : Config} {s : Wal cfg} {whole : Image} {c : Commit cfg} {file written : List UInt8}
  {tail : List (List UInt8)}

theorem pageSize_header (s : Wal cfg) : frameLength s.header.pageSize = frameLength cfg.pageSize := rfl

theorem frameLength_pos (n : ℕ) : 0 < frameLength n := by
  unfold frameLength
  omega

theorem validFrames_cut (hs : Laid whole s) (hfresh : Fresh s (.commit c)) (hcut : Cut s c file written tail) :
    written.length / frameLength cfg.pageSize ≤ c.transaction.frames.length ∧
    ∃ torn, validFrames file = (s.begun c).header.encodeFrames (s.begun c).header.sum
        ((s.begun c).log ++ c.transaction.frames.take (written.length / frameLength cfg.pageSize)) ++ torn ∧
      validLength file = headerLength + ((s.begun c).log.length + written.length / frameLength cfg.pageSize +
        torn.length) * frameLength cfg.pageSize ∧
      torn.length ≤ 1 ∧ (written.length % frameLength cfg.pageSize = 0 ∨
        tail.length * frameLength cfg.pageSize ≤ written.length → torn = []) := by
  have hheader : header? file = some (s.begun c).header := by
    rw [hcut.bytes]
    exact header?_encodeHeader _ _ _ _
  have hdrop : file.drop headerLength = (s.begun c).logBytes ++ (written ++ tail.flatten.drop written.length) := by
    rw [hcut.bytes]
    exact drop_left' (length_encodeHeader _ _ _)
  have hcount : (file.length - headerLength) / frameLength cfg.pageSize =
      ((s.begun c).logBytes ++ (written ++ tail.flatten.drop written.length)).length / frameLength cfg.pageSize := by
    rw [← hdrop, length_drop]
  obtain ⟨hj, torn, hchain, htorn, hwhole⟩ := chain_laid (length_header_salt (s.begun c)) (data_begun hs)
    c.transaction.length_data (hcut.older.leftOver (fresh_begun hs hfresh)) hcut.written hcount
  rw [pageSize_header] at hj
  have hframes : (s.begun c).header.frames file = (s.begun c).header.encodeFrames (s.begun c).header.sum
      ((s.begun c).log ++ c.transaction.frames.take (written.length / frameLength cfg.pageSize)) ++ torn := by
    unfold frames
    rw [hdrop]
    exact hchain
  refine ⟨hj, torn, ?_, ?_, htorn, hwhole⟩
  · unfold validFrames
    rw [hheader]
    exact hframes
  · unfold validLength
    rw [hheader]
    dsimp only
    rw [hframes, length_append, length_encodeFrames, length_append, length_take, Nat.min_eq_left hj]
    rfl

theorem recovered_cut (hs : Laid whole s) (hfresh : Fresh s (.commit c)) (hcut : Cut s c file written tail) :
    ∃ torn, torn.length ≤ 1 ∧
      recovered file = (s.begun c).log ++
        upToCommit (c.transaction.frames.take (written.length / frameLength cfg.pageSize) ++ torn) ∧
      (written.length % frameLength cfg.pageSize = 0 ∨
        tail.length * frameLength cfg.pageSize ≤ written.length → torn = []) := by
  obtain ⟨-, torn, hvalid, -, htorn, hwhole⟩ := validFrames_cut hs hfresh hcut
  refine ⟨torn.map decodeFrame, by rw [length_map]; exact htorn, ?_, fun h => by rw [hwhole h]; rfl⟩
  unfold recovered
  rw [hvalid, map_append, map_decodeFrame (length_header_salt _), append_assoc, upToCommit_append (ends_begun hs)]

/-! ## Torn headers -/

theorem take_torn {a b : List UInt8} {n k : ℕ} (h : a.take n = b.take n) (hk : k ≤ a.length) :
    (a.take k ++ b.drop k).take n = b.take n := by
  have hlength : (a.take k).length = k := by rw [length_take, Nat.min_eq_left hk]
  rcases Nat.le_total n k with hle | hle
  · rw [take_append_of_le_length (by rw [hlength]; exact hle), take_take, Nat.min_eq_left hle, h]
  · have hfront : a.take k = b.take k := by
      have htake := congrArg (take k) h
      rwa [take_take, take_take, Nat.min_eq_left hle] at htake
    rw [hfront, take_append_drop]

theorem take_headerStart (cfg : Config) (sequence : UInt32) (salts : Salts) (rest : List UInt8) :
    (encodeHeader cfg sequence salts ++ rest).take 12 = headerStart cfg := by
  unfold encodeHeader headerHead
  rw [append_assoc, append_assoc, append_assoc]
  apply take_left'
  unfold headerStart
  simp only [length_append, length_be4]

theorem chain_torn (hs : Laid whole s) (hlog : s.log ≠ []) (hsalts : LeftOver s.header tail) (salt : List UInt8)
    (sum : Sum) {count : ℕ} (hcount : count = s.log.length + tail.length) :
    (⟨cfg.littleEndian, cfg.pageSize, salt, sum⟩ : Header).chain count sum (s.logBytes ++ tail.flatten) = [] ∨
    (⟨cfg.littleEndian, cfg.pageSize, salt, sum⟩ : Header).chain count sum (s.logBytes ++ tail.flatten) =
      s.header.encodeFrames s.header.sum s.log := by
  have hown : s.header.chain count s.header.sum (s.logBytes ++ tail.flatten) =
      s.header.encodeFrames s.header.sum s.log := by
    rw [hcount]
    unfold logBytes
    rw [chain_encodeFrames (length_header_salt s) hs.data, chain_leftOver hsalts (Nat.le_refl _), append_nil]
  obtain ⟨f, fs, hcons⟩ := exists_cons_of_ne_nil hlog
  have hlength : (s.header.encodeFrame s.header.sum f).length = frameLength s.header.pageSize :=
    length_encodeFrame (length_header_salt s) (hs.data f (by rw [hcons]; exact mem_cons_self))
  have hfirst : (s.logBytes ++ tail.flatten).take (frameLength cfg.pageSize) =
      s.header.encodeFrame s.header.sum f := by
    unfold logBytes
    rw [hcons, encodeFrames, flatten_cons, append_assoc]
    exact take_left' hlength
  have haccepted : s.header.Accepts s.header.sum (s.header.encodeFrame s.header.sum f) :=
    accepts_encodeFrame (length_header_salt s)
  obtain ⟨hsalt, hsum⟩ := haccepted
  by_cases haccepts : (⟨cfg.littleEndian, cfg.pageSize, salt, sum⟩ : Header).Accepts sum
      (s.header.encodeFrame s.header.sum f)
  · right
    have hsame : salt = s.header.salt := haccepts.1.symm.trans hsalt
    have hstate : sum = s.header.sum := by
      have heq : (⟨cfg.littleEndian, cfg.pageSize, salt, sum⟩ : Header).frameSum sum
          (s.header.encodeFrame s.header.sum f) = s.header.frameSum s.header.sum
            (s.header.encodeFrame s.header.sum f) := haccepts.2.trans hsum.symm
      exact sumPairs_injective _ _ (sumPairs_injective _ _ heq)
    have hheader : (⟨cfg.littleEndian, cfg.pageSize, salt, sum⟩ : Header) = s.header := by
      rw [hsame, hstate]
      rfl
    rw [hheader, hstate]
    exact hown
  · left
    cases count with
    | zero => rfl
    | succ count =>
      rw [chain, if_neg]
      change ¬Header.Accepts _ _ ((s.logBytes ++ tail.flatten).take (frameLength cfg.pageSize))
      rw [hfirst]
      exact haccepts

theorem recovered_torn (hs : Laid whole s) (hrestarts : s.restarts c = true) (hwritten : written <+: s.appended c)
    (hshort : written.length < headerLength) :
    recovered (s.crash c written) = [] ∨ recovered (s.crash c written) = s.log := by
  have hcrash : s.crash c written = written ++ s.file.drop written.length := by
    unfold crash overwrite
    rw [show s.offset c = 0 from if_pos hrestarts, take_zero, nil_append, Nat.zero_add]
  by_cases hlog : s.log = []
  · left
    have hnone : header? (s.crash c written) = none := by
      unfold header?
      rw [hcrash, (hs.empty hlog).1, drop_nil, append_nil, if_pos hshort]
    unfold recovered validFrames
    rw [hnone]
    rfl
  · obtain ⟨tail, hfile, holder⟩ := hs.file hlog
    have hleft := holder.leftOver hs.fresh
    have hnew : written = (encodeHeader cfg (s.begun c).sequence (s.begun c).salts ++ (s.begun c).frameBytes c).take
        written.length := by
      have happended : s.appended c =
        encodeHeader cfg (s.begun c).sequence (s.begun c).salts ++ (s.begun c).frameBytes c := if_pos hrestarts
      rw [← happended]
      exact prefix_iff_eq_take.mp hwritten
    have hfilelength : headerLength ≤ s.file.length := by
      rw [hfile, length_append, length_encodeHeader]
      omega
    have hstart : ((s.crash c written).take headerLength).take 12 = headerStart cfg := by
      rw [take_take, show min 12 headerLength = 12 by decide, hcrash]
      have htorn := take_torn
        (a := encodeHeader cfg (s.begun c).sequence (s.begun c).salts ++ (s.begun c).frameBytes c) (b := s.file) (n := 12) (k := written.length) (by rw [take_headerStart, hfile, take_headerStart])
        (by rw [length_append, length_encodeHeader]; omega)
      rw [← hnew] at htorn
      rw [htorn, hfile, take_headerStart]
    have hlength : (s.crash c written).length = s.file.length := by
      rw [hcrash, length_append, length_drop]
      omega
    have hdrop : (s.crash c written).drop headerLength = s.logBytes ++ tail.flatten := by
      rw [hcrash, drop_append, drop_eq_nil_of_le hshort.le, nil_append, drop_drop,
        Nat.add_sub_cancel' hshort.le, hfile]
      exact drop_left' (length_encodeHeader _ _ _)
    have hcount : (s.file.length - headerLength) / frameLength cfg.pageSize = s.log.length + tail.length := by
      rw [hfile, length_append, length_encodeHeader, Nat.add_sub_cancel_left, length_append,
        length_logBytes hs.data, length_flatten_of_chunks fun c hc => (holder c hc).1, ← Nat.add_mul]
      exact Nat.mul_div_cancel _ (frameLength_pos _)
    unfold recovered validFrames header?
    rw [if_neg (by omega), headerFormat_of_start hstart]
    dsimp only
    split
    · exact .inl rfl
    · rename_i h hheader
      split at hheader
      · cases hheader
        unfold frames
        rw [hdrop, hlength]
        rcases chain_torn hs hlog hleft (slice ((s.crash c written).take headerLength) 16 24)
          (storedSum ((s.crash c written).take headerLength) 24) hcount with hnil | hall
        · left
          rw [hnil]
          rfl
        · right
          rw [hall, map_decodeFrame (length_header_salt s)]
          exact upToCommit_self hs.ends
      · cases hheader

/-! ## Starts -/

theorem openLog_eq (db : Image) (file : List UInt8) :
    openLog db file = (validateWalIfPresent (some file)).map fun _ => readBack db file := by
  unfold openLog
  cases validateWalIfPresent (some file) <;> rfl

theorem restarts_of_short (h : ¬headerLength ≤ s.offset c + written.length) : s.restarts c = true := by
  by_contra hnot
  have hoffset : s.offset c = headerLength + s.log.length * frameLength cfg.pageSize := if_neg hnot
  omega

theorem wholeFrames_iff {reached count bytes : ℕ}
    (h : reached = headerLength + count * frameLength cfg.pageSize + bytes) :
    WholeFrames cfg reached ↔ bytes % frameLength cfg.pageSize = 0 := by
  have hmod : (reached - headerLength) % frameLength cfg.pageSize = bytes % frameLength cfg.pageSize := by
    rw [h, Nat.add_assoc, Nat.add_sub_cancel_left, Nat.mul_add_mod_self_right]
  unfold WholeFrames
  rw [hmod]
  constructor
  · rintro (hzero | ⟨-, hwhole⟩)
    · unfold headerLength at h
      omega
    · exact hwhole
  · intro hwhole
    exact .inr ⟨by omega, hwhole⟩

section
variable (hs : Laid whole s)
include hs

theorem readBack_crash (hfresh : Fresh s (.commit c)) (hwritten : written <+: s.appended c) :
    ∃ extra, readBack s.db (s.crash c written) = whole.frames extra ∧
      (∃ part torn, extra <+: part ++ torn ∧ part <+: c.transaction.frames ∧ torn.length ≤ 1) ∧
      (WholeFrames cfg (s.offset c + written.length) ∨ s.file.length ≤ s.offset c + written.length →
        extra = [] ∨ extra = c.transaction.frames) := by
  by_cases hheader : headerLength ≤ s.offset c + written.length
  · obtain ⟨frames, tail, hcut, hreached, hlength, -⟩ := cut_of_crash hs hwritten hheader
    obtain ⟨torn, htorn, hrecovered, hwhole⟩ := recovered_cut hs hfresh hcut
    refine ⟨upToCommit (c.transaction.frames.take (frames.length / frameLength cfg.pageSize) ++ torn), ?_,
      ⟨_, torn, upToCommit_prefix _, take_prefix _ _, htorn⟩, fun hclean => ?_⟩
    · unfold readBack
      rw [hrecovered, ← db_begun s c, Image.frames_append, image_begun hs]
    · rw [hwhole, append_nil]
      · exact c.transaction.upToCommit_take _
      · rcases hclean with hends | hcovered
        · exact .inl ((wholeFrames_iff hreached).mp hends)
        · right
          rcases hlength with ⟨-, rfl⟩ | hlength
          · rw [length_nil, Nat.zero_mul]
            exact Nat.zero_le _
          · rw [Nat.add_mul] at hlength
            omega
  · have hrestarts := restarts_of_short hheader
    have hshort : written.length < headerLength := by omega
    have hdb := hs.copied (copied_of_restarts hs hrestarts)
    refine ⟨[], ?_, ⟨[], [], nil_prefix, nil_prefix, Nat.zero_le _⟩, fun _ => .inl rfl⟩
    unfold readBack
    rcases recovered_torn hs hrestarts hwritten hshort with hnone | hold
    · rw [hnone, hdb]
    · rw [hold, hs.image]
      rfl

theorem length_cut (hcut : Cut s c file written tail) :
    file.length = headerLength + (s.begun c).log.length * frameLength cfg.pageSize + written.length +
      (tail.length * frameLength cfg.pageSize - written.length) := by
  rw [hcut.bytes, length_append, length_encodeHeader, length_append, length_logBytes (data_begun hs),
    length_append, length_drop, length_flatten_of_chunks fun x hx => (hcut.older x hx).1]
  omega

/-- Where nothing from before lies behind the crash, the log is accepted when it ends with a whole frame. -/
theorem validate_crash (hfresh : Fresh s (.commit c)) (hwritten : written <+: s.appended c)
    (hcovered : s.file.length ≤ s.offset c + written.length) :
    validateWalIfPresent (some (s.crash c written)) = .ok () ↔ WholeFrames cfg (s.offset c + written.length) := by
  rw [validateWalIfPresent_iff]
  by_cases hheader : headerLength ≤ s.offset c + written.length
  · obtain ⟨frames, tail, hcut, hreached, hlength, -⟩ := cut_of_crash hs hwritten hheader
    obtain ⟨-, torn, -, hvalid, -, hwhole⟩ := validFrames_cut hs hfresh hcut
    have htail : tail.length * frameLength cfg.pageSize ≤ frames.length := by
      rcases hlength with ⟨-, rfl⟩ | hlength
      · rw [length_nil, Nat.zero_mul]
        exact Nat.zero_le _
      · rw [Nat.add_mul] at hlength
        omega
    have hdivmod := Nat.div_add_mod frames.length (frameLength cfg.pageSize)
    rw [wholeFrames_iff hreached, hvalid, hwhole (.inr htail), length_cut hs hcut, length_nil, Nat.add_zero,
      Nat.add_mul, Nat.mul_comm (frames.length / _)]
    omega
  · have hrestarts := restarts_of_short hheader
    have hoffset : s.offset c = 0 := if_pos hrestarts
    rw [hoffset, Nat.zero_add] at hcovered hheader ⊢
    have hempty : s.file = [] := by
      by_cases hlog : s.log = []
      · exact (hs.empty hlog).1
      · obtain ⟨tail, hfile, -⟩ := hs.file hlog
        rw [hfile, length_append, length_encodeHeader] at hcovered
        omega
    have hcrash : s.crash c written = written := by
      unfold crash overwrite
      rw [hoffset, hempty, take_nil, drop_nil, nil_append, append_nil]
    have hnone : header? written = none := if_pos (Nat.lt_of_not_le hheader)
    unfold validLength WholeFrames
    rw [hcrash, hnone]
    dsimp only
    omega

theorem validate_leftOver (hfresh : Fresh s (.commit c)) (hwritten : written <+: s.appended c)
    (hheader : headerLength ≤ s.offset c + written.length)
    (hbehind : s.offset c + written.length + frameLength cfg.pageSize ≤ s.file.length) :
    validateWalIfPresent (some (s.crash c written)) ≠ .ok () := by
  rw [Ne, validateWalIfPresent_iff]
  obtain ⟨frames, tail, hcut, hreached, hlength, -⟩ := cut_of_crash hs hwritten hheader
  obtain ⟨-, torn, -, hvalid, htorn, hwhole⟩ := validFrames_cut hs hfresh hcut
  have hpos := frameLength_pos cfg.pageSize
  rcases hlength with ⟨hempty, -⟩ | hlength
  · rw [hempty, length_nil] at hbehind
    omega
  · have hdivmod := Nat.div_add_mod frames.length (frameLength cfg.pageSize)
    rw [Nat.mul_comm] at hdivmod
    rw [hvalid, length_cut hs hcut, Nat.add_mul, Nat.add_mul]
    rw [Nat.add_mul] at hlength
    have hle : torn.length * frameLength cfg.pageSize ≤ frameLength cfg.pageSize := by
      calc torn.length * frameLength cfg.pageSize ≤ 1 * frameLength cfg.pageSize := Nat.mul_le_mul_right _ htorn
        _ = frameLength cfg.pageSize := Nat.one_mul _
    by_cases hmod : frames.length % frameLength cfg.pageSize = 0
    · rw [hwhole (.inl hmod), length_nil, Nat.zero_mul]
      omega
    · omega

end

/-- After any transactions and checkpoints and a crash at any byte, everything that was committed is read back, and
behind it no more than a part of the append and one torn frame. A start reads it when every byte of the log is valid. -/
theorem crash_start (db : Image) (sequence : UInt32) (salts : Salts) (ops : List (WalOp cfg)) (c : Commit cfg)
    (written : List UInt8) (hfresh : EachStep step Fresh (opened db sequence salts) (ops ++ [.commit c]))
    (hwritten : written <+: (run step (opened db sequence salts) ops).appended c) :
    let s := run step (opened db sequence salts) ops
    let file := s.crash c written
    let reached := s.offset c + written.length
    (validateWalIfPresent (some file) = .ok () ↔ validLength file = file.length) ∧
    (∃ extra, readBack s.db file = (db.frames (returned ops)).frames extra ∧
      (∃ part torn, extra <+: part ++ torn ∧ part <+: c.transaction.frames ∧ torn.length ≤ 1) ∧
      (WholeFrames cfg reached ∨ s.file.length ≤ reached → extra = [] ∨ extra = c.transaction.frames)) ∧
    openLog s.db file = (validateWalIfPresent (some file)).map (fun _ => readBack s.db file) ∧
    (s.file.length ≤ reached → (validateWalIfPresent (some file) = .ok () ↔ WholeFrames cfg reached)) ∧
    (headerLength ≤ reached → reached + frameLength cfg.pageSize ≤ s.file.length →
      validateWalIfPresent (some file) ≠ .ok ()) := by
  rw [EachStep.append] at hfresh
  have hs := laid_run hfresh.1
  have hcommit := hfresh.2.1
  intro s file reached
  exact ⟨validateWalIfPresent_iff file, readBack_crash hs hcommit hwritten, openLog_eq s.db file,
    fun hcovered => validate_crash hs hcommit hwritten hcovered,
    fun hheader hbehind => validate_leftOver hs hcommit hwritten hheader hbehind⟩

end

/-! ## A torn frame and a frame that is left over -/

def smallPages : Config := ⟨true, 512, by decide⟩

def blankPage (number : UInt32) : Page smallPages := ⟨number, replicate 512 0, length_replicate⟩

def commitPages (front : List (Page smallPages)) (restart : Bool) (salts : Salts) : Commit smallPages :=
  ⟨⟨front, blankPage 1, 2, by decide⟩, restart, salts⟩

def usageCommit : WalOp smallPages := .commit (commitPages [] false (1, 7))

def emptyWal : Wal smallPages := opened (fun _ => none) 0 (0, 0)

/-- One byte of a frame behind a commit that has returned, and a commit that has started the log again. -/
theorem crash_start_torn :
    [0] <+: (run step emptyWal [usageCommit]).appended (commitPages [] false (1, 7)) ∧
      validateWalIfPresent (some ((run step emptyWal [usageCommit]).crash (commitPages [] false (1, 7)) [0])) =
        .error "SQLite WAL ends with a partial frame" ∧
      validateWalIfPresent (some (run step emptyWal [.commit (commitPages [blankPage 2] false (1, 7)),
        .checkpoint false, .commit (commitPages [] true (2, 9))]).file) =
          .error "SQLite WAL frame salt mismatch at frame 2" :=
  ⟨by decide +kernel, by decide +kernel, by decide +kernel⟩

def twoPages : Commit smallPages := commitPages [blankPage 2] false (1, 7)

/-- One of the two frames and a part of the other. -/
def tornAppend : List UInt8 := ((run step emptyWal [usageCommit]).appended twoPages).take 700

/-- A crash inside an append: the start is refused, and the commit before is read back. -/
theorem crash_start_between :
    validateWalIfPresent (some ((run step emptyWal [usageCommit]).crash twoPages tornAppend)) ≠ .ok () ∧
      ∃ extra, readBack (run step emptyWal [usageCommit]).db ((run step emptyWal [usageCommit]).crash twoPages
          tornAppend) = (Image.frames (fun _ => none) (returned [usageCommit])).frames extra ∧
        (extra = [] ∨ extra = twoPages.transaction.frames) := by
  have hfresh : EachStep step Fresh emptyWal ([usageCommit] ++ [.commit twoPages]) := by
    refine ⟨fun _ => not_mem_nil, fun h => ?_, trivial⟩
    exact absurd h (by decide)
  have htorn : tornAppend <+: (run step emptyWal [usageCommit]).appended twoPages := take_prefix _ _
  obtain ⟨-, ⟨extra, hread, -, hextra⟩, -, haccepted, -⟩ :=
    crash_start (fun _ => none) 0 (0, 0) [usageCommit] twoPages tornAppend hfresh htorn
  refine ⟨fun hok => ?_, extra, hread, hextra (.inr (by decide +kernel))⟩
  rcases (haccepted (by decide +kernel)).mp hok with hzero | ⟨-, hwhole⟩
  · exact absurd hzero (by decide +kernel)
  · exact absurd hwhole (by decide +kernel)

end CcSwitchServer.ServerSqlite
