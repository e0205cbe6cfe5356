import CcSwitchServer.Foundations.Runs
import CcSwitchServer.ServerSqlite.Migration

/-! # Starts after a crash of the migration

Marker and database agree, whatever step a start was stopped at. The one step that breaks the agreement is the
replacement of the database under a marker of an earlier shadow.
-/

namespace CcSwitchServer.ServerSqlite
open Foundations Program List Succeeds

section
variable {β δ π S κ : Type}

variable (rd : Reading β δ π S κ) (known : Set (LegacyFiles β))

/-- A complete backup of the files. -/
def HasBackup (d : DataDir β δ π S) (dir : BackupDir π) (files : LegacyFiles β) : Prop :=
  d.backups dir = some ⟨files, true⟩

/-- The database was built from files that were there at some time. -/
structure SoundDatabase (db : StoreDatabase β δ S) : Prop where
  version : db.version = schemaVersion
  known : db.blobs ∈ known
  digest : db.sourceDigest = rd.digest db.blobs
  rows : db.rows = rd.load db.blobs

/-- A marker and the database that it stands beside. -/
structure Agrees (d : DataDir β δ π S) (m : MigrationMarker δ π) (db : StoreDatabase β δ S) : Prop where
  version : m.schemaVersion = schemaVersion
  file : m.databaseFile = databaseFileName
  digest : db.sourceDigest = m.sourceDigest
  unprepared : m.authority = .shadowVerified → m.legacyBackupDir = none
  prepared : m.authority ≠ .shadowVerified → ∃ dir, m.legacyBackupDir = some dir ∧ HasBackup d dir db.blobs
  committed : m.authority = .committed → db.authority = .committed ∧ d.legacy <:+ db.blobs

/-- What holds in a data directory in which marker and database agree. -/
structure Consistent (d : DataDir β δ π S) : Prop where
  legacy : isCommittedMarker d.marker = false → d.legacy ∈ known
  database : ∀ db, d.database = some db → SoundDatabase rd known db
  backups : ∀ dir files, HasBackup d dir files → files ∈ known ∧ rd.digestPrefix (rd.digest files) = dir.2
  marker : ∀ m, d.marker = some m → ∃ db, d.database = some db ∧ Agrees d m db

/-- Backups of different files have different names. -/
def Distinct : Prop := ∀ a ∈ known, ∀ b ∈ known, rd.digestPrefix (rd.digest a) = rd.digestPrefix (rd.digest b) → a = b

variable {rd known} {d : DataDir β δ π S} {m : MigrationMarker δ π} {db : StoreDatabase β δ S}
  {V : Stage → DataDir β δ π S → Prop} {R : DataDir β δ π S → Prop}

theorem Distinct.digest (h : Distinct rd known) {a b : LegacyFiles β} (ha : a ∈ known) (hb : b ∈ known)
    (heq : rd.digest a = rd.digest b) : a = b := h a ha b hb (congrArg rd.digestPrefix heq)

theorem isCommittedMarker_some : isCommittedMarker (some m) = decide (m.authority = .committed) := rfl

variable {legacy : LegacyFiles β}

variable {now : ℤ}

theorem Consistent.replaceDatabase (h : Consistent rd known d) (hcommitted : isCommittedMarker d.marker = false)
    (hnone : d.marker = none) :
    Consistent rd known { d with database := some (importSources rd d.legacy (rd.load d.legacy) now) } where
  legacy := h.legacy
  database db hdb := by
    cases hdb
    exact ⟨rfl, h.legacy hcommitted, rfl, rfl⟩
  backups := h.backups
  marker m hm := by
    rw [hnone] at hm
    cases hm

theorem Consistent.replaceBoth (h : Consistent rd known d) (hcommitted : isCommittedMarker d.marker = false) :
    Consistent rd known { d with
      database := some (importSources rd d.legacy (rd.load d.legacy) now)
      marker := some (shadowMarker (rd.digest d.legacy)) } where
  legacy _ := h.legacy hcommitted
  database db hdb := by
    cases hdb
    exact ⟨rfl, h.legacy hcommitted, rfl, rfl⟩
  backups := h.backups
  marker m hm := by
    cases hm
    exact ⟨_, rfl, rfl, rfl, rfl, fun _ => rfl, fun hne => absurd rfl hne, fun hc => nomatch hc⟩

def BothCommitted (d : DataDir β δ π S) : Prop :=
  ∃ m db, d.marker = some m ∧ d.database = some db ∧ m.authority = .committed ∧ db.authority = .committed

variable (rd known) in
/-- What a step of a start from `d` keeps. -/
structure Kept (d : DataDir β δ π S) (stage : Stage) (t : DataDir β δ π S) : Prop where
  consistent : (stage = .databaseReplaced → d.marker = none) → Consistent rd known t
  retired : t.legacy ≠ d.legacy → BothCommitted t
  committed : isCommittedMarker d.marker = true → t.database = d.database

variable (rd) in
/-- The shadow was built from the files that are there. -/
def Current (d : DataDir β δ π S) : Prop :=
  ∃ m, d.marker = some m ∧ m.authority ≠ .committed ∧ m.sourceDigest = rd.digest d.legacy

/-! ## Reading the marker and the schema -/

theorem Consistent.readMarker (h : Consistent rd known d) : readMarker d = .ok d.marker := by
  unfold ServerSqlite.readMarker
  split
  · rename_i hnone
    rw [hnone]
  · rename_i m hm
    obtain ⟨db, -, hagrees⟩ := h.marker m hm
    rw [ensure_of (by rw [hagrees.version]; decide), ok_bind, ensure_of hagrees.file, ok_bind, hm]
    rfl

theorem Consistent.requireMarker (h : Consistent rd known d) (hm : d.marker = some m) : requireMarker d = .ok m := by
  unfold ServerSqlite.requireMarker
  rw [h.readMarker, ok_bind, hm]
  rfl

theorem requireDatabase_some {message : String} (h : d.database = some db) : requireDatabase message d = .ok db := by
  unfold requireDatabase
  rw [h]
  rfl

theorem succeeds_migrateToCurrent (hdb : d.database = some db) (hversion : db.version = schemaVersion) :
    Succeeds (migrateToCurrent db) d V (· = d) := by
  refine (succeeds_check (R := (· = d)) ?_ rfl).andThen ?_
  · rw [hversion]
    decide
  · rintro t rfl
    refine succeeds_sequence rfl fun p hp u hu => ?_
    obtain ⟨version, hmem, rfl⟩ := mem_map.mp hp
    rw [hu]
    refine succeeds_when_not ?_ rfl
    unfold versionIs
    rw [hdb, Option.any_some, hversion]
    clear hp
    revert version
    decide

theorem Consistent.upgradeSchema [DecidableEq δ] (h : Consistent rd known d) :
    Succeeds (upgradeSchema : DirProgram β δ π S) d V (· = d) := by
  refine succeeds_reading h.readMarker ?_
  cases hm : d.marker with
  | none => exact succeeds_done rfl
  | some m =>
    obtain ⟨db, hdb, hagrees⟩ := h.marker m hm
    have hversion := (h.database db hdb).version
    refine succeeds_reading (requireDatabase_some hdb) ?_
    refine (succeeds_check (R := (· = d)) (by rw [hagrees.version, hversion]; decide) rfl).andThen ?_
    rintro t rfl
    refine (succeeds_check (R := (· = t)) (decide_eq_true hagrees.digest) rfl).andThen ?_
    rintro _ rfl
    refine (succeeds_migrateToCurrent hdb hversion).andThen ?_
    rintro _ rfl
    exact succeeds_when_not (by rw [hagrees.version]; decide) rfl

/-! ## The shadow -/

theorem verifyShadow_current [DecidableEq δ] [DecidableEq κ] {input : S} (h : Consistent rd known d)
    (hm : d.marker = some m) (hok : (verifyShadow rd d input).toBool = true) : m.sourceDigest = rd.digest d.legacy := by
  obtain ⟨_, hok⟩ := exists_of_toBool hok
  unfold verifyShadow at hok
  rw [h.requireMarker hm, ok_bind] at hok
  obtain ⟨_, -, hok⟩ := bind_eq_ok.mp hok
  obtain ⟨_, hdigest, -⟩ := bind_eq_ok.mp hok
  exact ensure_eq_ok.mp hdigest

theorem Consistent.refreshShadow (h : Consistent rd known d) (hcommitted : isCommittedMarker d.marker = false) :
    Succeeds (refreshShadow rd (rd.load d.legacy) now) d (Kept rd known d)
      fun t => Consistent rd known t ∧ t.legacy = d.legacy ∧ Current rd t := by
  have hsame : ∀ stage, Kept rd known d stage d := fun stage =>
    ⟨fun _ => h, fun hne => absurd rfl hne, fun _ => rfl⟩
  have hnever : ∀ {p : Prop}, isCommittedMarker d.marker = true → p := by
    intro p htrue
    rw [hcommitted] at htrue
    cases htrue
  refine succeeds_reading h.readMarker ?_
  refine (succeeds_check (R := (· = d)) (by rw [hcommitted]; rfl) rfl).andThen ?_
  rintro _ rfl
  refine succeeds_reading rfl ?_
  refine (succeeds_atomic (hsame _) rfl).andThen ?_
  rintro _ rfl
  refine (succeeds_atomic (hsame _) rfl).andThen ?_
  rintro _ rfl
  refine (succeeds_atomic (hsame _) rfl).andThen ?_
  rintro _ rfl
  refine (succeeds_atomic (hsame _) rfl).andThen ?_
  rintro _ rfl
  refine (succeeds_atomic ⟨fun hold => h.replaceDatabase hcommitted (hold rfl), fun hne => absurd rfl hne, hnever⟩
    rfl).andThen ?_
  rintro _ rfl
  refine (succeeds_atomic ⟨fun _ => h.replaceBoth hcommitted, fun hne => absurd rfl hne, hnever⟩ rfl).andThen ?_
  rintro _ rfl
  exact succeeds_done ⟨h.replaceBoth hcommitted, rfl, _, rfl, (fun hc => nomatch hc), rfl⟩

theorem Consistent.ensureShadow [DecidableEq δ] [DecidableEq κ] (h : Consistent rd known d)
    (hcommitted : isCommittedMarker d.marker = false) :
    Succeeds (ensureShadow rd (rd.load d.legacy) now) d (Kept rd known d)
      fun t => Consistent rd known t ∧ t.legacy = d.legacy ∧ Current rd t := by
  refine h.upgradeSchema.andThen ?_
  rintro _ rfl
  refine succeeds_reading h.readMarker (succeeds_reading rfl ?_)
  split
  · rename_i hcurrent
    rw [Bool.and_eq_true, Option.isSome_iff_exists] at hcurrent
    obtain ⟨⟨m, hm⟩, hok⟩ := hcurrent
    refine succeeds_done ⟨h, rfl, m, hm, ?_, verifyShadow_current h hm hok⟩
    intro hauthority
    rw [hm, isCommittedMarker_some, hauthority] at hcommitted
    cases hcommitted
  · exact h.refreshShadow hcommitted

/-! ## Backups -/

section
variable [DecidableEq π] {dir : BackupDir π} {files copied : LegacyFiles β} {backup : Option (LegacyBackup β)}

theorem setBackup_setBackup (backup' : Option (LegacyBackup β)) :
    setBackup dir backup (setBackup dir backup' d) = setBackup dir backup d := by
  unfold setBackup
  rw [Function.update_idem]

theorem backups_setBackup : (setBackup dir backup d).backups dir = backup := Function.update_self _ _ _

theorem setBackup_self (h : d.backups dir = backup) : setBackup dir backup d = d := by
  unfold setBackup
  rw [← h, Function.update_eq_self]

theorem succeeds_copyFiles (hv : ∀ fs, V .fileCopied (setBackup dir (some ⟨fs, false⟩) d)) :
    Succeeds (sequence (files.map fun file => atomic .fileCopied (copyFile dir file)) : DirProgram β δ π S)
      (setBackup dir (some ⟨copied, false⟩) d) V (· = setBackup dir (some ⟨copied ++ files, false⟩) d) := by
  induction files generalizing copied with
  | nil =>
    rw [append_nil]
    exact succeeds_done rfl
  | cons file files ih =>
    have hcopy : copyFile dir file (setBackup dir (some ⟨copied, false⟩) d) =
        setBackup dir (some ⟨copied ++ [file], false⟩) d := by
      unfold copyFile
      rw [backups_setBackup, setBackup_setBackup]
      rfl
    refine (succeeds_atomic (R := (· = setBackup dir (some ⟨copied ++ [file], false⟩) d)) ?_ hcopy).andThen ?_
    · rw [hcopy]
      exact hv _
    · rintro _ rfl
      have hrest := @ih (copied ++ [file])
      rwa [append_assoc, singleton_append] at hrest

/-- The backup that a start has got to. -/
def Partial (files : LegacyFiles β) (backup : Option (LegacyBackup β)) : Prop :=
  backup = none ∨ (∃ fs, backup = some ⟨fs, false⟩) ∨ backup = some ⟨files, true⟩

theorem succeeds_createBackup (hv : ∀ stage backup, stage ≠ .databaseReplaced → Partial d.legacy backup →
      V stage (setBackup dir backup d)) (hfound : backupIsComplete dir d = true → HasBackup d dir d.legacy) :
    Succeeds (createReadonlyLegacyBackup dir : DirProgram β δ π S) d V
      (· = setBackup dir (some ⟨d.legacy, true⟩) d) := by
  cases hcomplete : backupIsComplete dir d with
  | true =>
    have hself := setBackup_self (hfound hcomplete)
    refine succeeds_when_not (by rw [hcomplete]; rfl) ?_
    exact hself.symm
  | false =>
    refine succeeds_when (by rw [hcomplete]; rfl) ?_
    have hremoved : Succeeds (when (fun d => (d.backups dir).isSome)
        (atomic .incompleteBackupRemoved (setBackup dir none)) : DirProgram β δ π S) d V
          (fun t => ∃ backup, t = setBackup dir backup d) := by
      cases hsome : (d.backups dir).isSome with
      | true => exact succeeds_when hsome (succeeds_atomic (hv _ _ (by decide) (.inl rfl)) ⟨none, rfl⟩)
      | false => exact succeeds_when_not hsome ⟨d.backups dir, (setBackup_self rfl).symm⟩
    refine hremoved.andThen ?_
    rintro _ ⟨backup, rfl⟩
    refine (succeeds_atomic (R := (· = setBackup dir (some ⟨[], false⟩) d)) ?_ (setBackup_setBackup backup)).andThen ?_
    · rw [setBackup_setBackup]
      exact hv _ _ (by decide) (.inr (.inl ⟨[], rfl⟩))
    · rintro _ rfl
      refine succeeds_reading rfl ?_
      refine (succeeds_copyFiles fun fs => hv _ _ (by decide) (.inr (.inl ⟨fs, rfl⟩))).andThen ?_
      rintro _ rfl
      have hcompleted : completeBackup dir (setBackup dir (some ⟨[] ++ d.legacy, false⟩) d) =
          setBackup dir (some ⟨d.legacy, true⟩) d := by
        unfold completeBackup
        rw [backups_setBackup, setBackup_setBackup]
        rfl
      refine succeeds_atomic ?_ hcompleted
      change V _ (completeBackup dir (setBackup dir (some ⟨[] ++ d.legacy, false⟩) d))
      rw [hcompleted]
      exact hv _ _ (by decide) (.inr (.inr rfl))

end

/-! ## Retiring the legacy files -/

theorem Consistent.retire (h : Consistent rd known d) (hm : d.marker = some m) (hc : m.authority = .committed)
    (hlegacy : legacy <:+ d.legacy) : Consistent rd known { d with legacy := legacy } where
  legacy hnot := by
    rw [hm, isCommittedMarker_some, hc] at hnot
    cases hnot
  database := h.database
  backups := h.backups
  marker m' hm' := by
    obtain ⟨db, hdb, hagrees⟩ := h.marker m' hm'
    refine ⟨db, hdb, hagrees.version, hagrees.file, hagrees.digest, hagrees.unprepared, hagrees.prepared, fun hc' => ?_⟩
    obtain ⟨hauthority, hsuffix⟩ := hagrees.committed hc'
    exact ⟨hauthority, hlegacy.trans hsuffix⟩

theorem succeeds_retireFiles {files : LegacyFiles β}
    (hv : ∀ legacy, legacy <:+ files → V .fileRetired { d with legacy := legacy }) :
    Succeeds (sequence (files.map fun _ => atomic .fileRetired retireFile) : DirProgram β δ π S)
      { d with legacy := files } V (· = { d with legacy := [] }) := by
  induction files with
  | nil => exact succeeds_done rfl
  | cons file files ih =>
    refine (succeeds_atomic (R := (· = { d with legacy := files })) ?_ rfl).andThen ?_
    · exact hv files (suffix_cons file files)
    · rintro _ rfl
      exact ih fun legacy hlegacy => hv legacy (hlegacy.trans (suffix_cons file files))

theorem Consistent.finishActivation [DecidableEq δ] (h : Consistent rd known d) (hm : d.marker = some m)
    (hc : m.authority = .committed)
    (hv : ∀ stage legacy, stage ≠ .databaseReplaced → legacy <:+ d.legacy → V stage { d with legacy := legacy }) :
    Succeeds (finishActivation : DirProgram β δ π S) d V (· = { d with legacy := [] }) := by
  obtain ⟨db, hdb, hagrees⟩ := h.marker m hm
  refine succeeds_reading (h.requireMarker hm) ?_
  refine (succeeds_check (R := (· = d)) (decide_eq_true hc) rfl).andThen ?_
  rintro _ rfl
  refine succeeds_reading (requireDatabase_some hdb) ?_
  have hverified : verifyCommittedDatabase m db = .ok () := by
    unfold verifyCommittedDatabase
    rw [ensure_of (h.database db hdb).version, ok_bind, ensure_of (hagrees.committed hc).1, ok_bind,
      ensure_of hagrees.digest]
  refine succeeds_reading hverified (succeeds_reading rfl ?_)
  refine (succeeds_retireFiles fun legacy hlegacy => hv _ legacy (by decide) hlegacy).andThen ?_
  rintro _ rfl
  exact succeeds_atomic (hv _ [] (by decide) nil_suffix) rfl

/-! ## Preparing and committing -/

section
variable {d₀ : DataDir β δ π S} {dir : BackupDir π}

theorem blobs_of_current (hdistinct : Distinct rd known) (h : Consistent rd known d)
    (hnot : isCommittedMarker d.marker = false) (hm : d.marker = some m) (hdb : d.database = some db)
    (hcurrent : m.sourceDigest = rd.digest d.legacy) : db.blobs = d.legacy := by
  obtain ⟨db', hdb', hagrees⟩ := h.marker m hm
  rw [hdb] at hdb'
  cases hdb'
  have hsound := h.database db hdb
  exact hdistinct.digest hsound.known (h.legacy hnot) (hsound.digest.symm.trans (hagrees.digest.trans hcurrent))

theorem Consistent.advance (h : Consistent rd known d) (hnot : isCommittedMarker d.marker = false)
    (hdb : d.database = some db) {t : DataDir β δ π S} {authority : AuthorityState} {m' : MigrationMarker δ π}
    (hlegacy : t.legacy = d.legacy) (hdatabase : t.database = some { db with authority := authority })
    (hbackups : ∀ dir files, HasBackup t dir files → HasBackup d dir files ∨
      files = d.legacy ∧ dir.2 = rd.digestPrefix (rd.digest d.legacy))
    (hmarker : t.marker = some m') (hagrees : Agrees t m' { db with authority := authority }) :
    Consistent rd known t where
  legacy _ := by
    rw [hlegacy]
    exact h.legacy hnot
  database db' hdb' := by
    rw [hdatabase] at hdb'
    cases hdb'
    have hsound := h.database db hdb
    exact ⟨hsound.version, hsound.known, hsound.digest, hsound.rows⟩
  backups dir files hfiles := by
    rcases hbackups dir files hfiles with hold | ⟨rfl, hdir⟩
    · exact h.backups dir files hold
    · exact ⟨h.legacy hnot, hdir.symm⟩
  marker m'' hm'' := by
    rw [hmarker] at hm''
    cases hm''
    exact ⟨_, hdatabase, hagrees⟩

variable (rd known) in
/-- After a half of an activation: the legacy files are still those of `d`, and the marker names their backup. -/
structure Reached (authority : AuthorityState) (dir : BackupDir π) (d t : DataDir β δ π S) : Prop where
  consistent : Consistent rd known t
  legacy : t.legacy = d.legacy
  marker : ∃ m db, t.marker = some m ∧ t.database = some db ∧ m.authority = authority ∧
    m.sourceDigest = rd.digest d.legacy ∧ m.legacyBackupDir = some dir ∧ HasBackup t dir d.legacy ∧
    db.blobs = d.legacy ∧ db.rows = rd.load d.legacy

theorem hasBackup_setBackup [DecidableEq π] {files : LegacyFiles β} {backup : Option (LegacyBackup β)}
    {dir' : BackupDir π} (h : HasBackup (setBackup dir backup d) dir' files) :
    HasBackup d dir' files ∨ dir' = dir ∧ backup = some ⟨files, true⟩ := by
  unfold HasBackup setBackup at h
  dsimp only at h
  rw [Function.update_apply] at h
  split at h
  · rename_i heq
    exact .inr ⟨heq, h⟩
  · exact .inl h

theorem Consistent.prepareAuthority [DecidableEq π] (h : Consistent rd known d) (hdistinct : Distinct rd known)
    (hm : d.marker = some m) (hdb : d.database = some db) (hshadow : m.authority = .shadowVerified)
    (hcurrent : m.sourceDigest = rd.digest d.legacy) (hdir : dir.2 = rd.digestPrefix m.sourceDigest)
    (hv : ∀ stage t, stage ≠ .databaseReplaced → Consistent rd known t → t.legacy = d.legacy → V stage t) :
    Succeeds (prepareAuthority m dir now) d V (Reached rd known .prepared dir d) := by
  have hnot : isCommittedMarker d.marker = false := by
    rw [hm, isCommittedMarker_some, hshadow]
    rfl
  have hblobs := blobs_of_current hdistinct h hnot hm hdb hcurrent
  have hrows := (h.database db hdb).rows
  rw [hblobs] at hrows
  rw [hcurrent] at hdir
  obtain ⟨db', hdb', hagrees⟩ := h.marker m hm
  rw [hdb] at hdb'
  cases hdb'
  have hpart : ∀ backup, Partial d.legacy backup → ∀ dir' files,
      HasBackup (setBackup dir backup d) dir' files → HasBackup d dir' files ∨
        files = d.legacy ∧ dir'.2 = rd.digestPrefix (rd.digest d.legacy) := by
    intro backup hbackup dir' files hfiles
    rcases hasBackup_setBackup hfiles with hold | ⟨rfl, hnew⟩
    · exact .inl hold
    · rcases hbackup with rfl | ⟨fs, rfl⟩ | rfl
      · cases hnew
      · cases hnew
      · cases hnew
        exact .inr ⟨rfl, hdir⟩
  have hfull := hpart (some ⟨d.legacy, true⟩) (.inr (.inr rfl))
  have hfound : backupIsComplete dir d = true → HasBackup d dir d.legacy := by
    intro hcomplete
    unfold backupIsComplete at hcomplete
    cases hbackup : d.backups dir with
    | none =>
      rw [hbackup] at hcomplete
      cases hcomplete
    | some backup =>
      rw [hbackup] at hcomplete
      obtain ⟨files, complete⟩ := backup
      have hcomplete : complete = true := hcomplete
      subst hcomplete
      obtain ⟨hknown, hpre⟩ := h.backups dir files hbackup
      have heq := hdistinct files hknown d.legacy (h.legacy hnot) (hpre.trans hdir)
      rw [← heq]
      exact hbackup
  have hunprepared : ∀ (t : DataDir β δ π S) (db : StoreDatabase β δ S), db.sourceDigest = m.sourceDigest →
      Agrees t m db := fun t db hdigest =>
    ⟨hagrees.version, hagrees.file, hdigest, hagrees.unprepared, fun hne => absurd hshadow hne,
      fun hc => by rw [hshadow] at hc; cases hc⟩
  refine (succeeds_createBackup (fun stage backup hstage hbackup => hv stage _ hstage ?_ rfl) hfound).andThen ?_
  · exact h.advance hnot hdb rfl (show _ = some { db with authority := db.authority } from hdb) (hpart backup hbackup) hm
      (hunprepared _ _ hagrees.digest)
  · rintro _ rfl
    have hdatabase : (setDatabaseAuthority .prepared (setBackup dir (some ⟨d.legacy, true⟩) d)).database =
        some { db with authority := .prepared } := by
      unfold setDatabaseAuthority updateDatabase setBackup
      rw [hdb]
      rfl
    refine (succeeds_atomic (hv _ _ (by decide) ?_ rfl) rfl).andThen ?_
    · exact h.advance hnot hdb rfl hdatabase hfull hm (hunprepared _ _ hagrees.digest)
    · rintro _ rfl
      have hlast : Consistent rd known (writeMarker
          { m with authority := .prepared, preparedAtMs := some now, legacyBackupDir := some dir }
          (setDatabaseAuthority .prepared (setBackup dir (some ⟨d.legacy, true⟩) d))) := by
        refine h.advance hnot hdb rfl hdatabase hfull rfl ?_
        refine ⟨hagrees.version, hagrees.file, hagrees.digest, (fun hc => by cases hc), fun _ => ⟨dir, rfl, ?_⟩,
          (fun hc => by cases hc)⟩
        rw [hblobs]
        exact backups_setBackup
      exact succeeds_atomic (hv _ _ (by decide) hlast rfl)
        ⟨hlast, rfl, _, _, rfl, hdatabase, rfl, hcurrent, rfl, backups_setBackup, hblobs, hrows⟩

theorem commitAuthority_reached (h : Reached rd known .prepared dir d₀ d)
    (hm : d.marker = some m)
    (hv : ∀ stage t, stage ≠ .databaseReplaced → Consistent rd known t → t.legacy = d.legacy → V stage t) :
    Succeeds (commitAuthority m dir now) d V (Reached rd known .committed dir d₀) := by
  obtain ⟨m', db, hm', hdb, hauthority, hdigest, hdir, hbackup, hblobs, hrows⟩ := h.marker
  rw [hm] at hm'
  cases hm'
  have hnot' : isCommittedMarker d.marker = false := by
    rw [hm, isCommittedMarker_some, hauthority]
    rfl
  obtain ⟨db', hdb', hagrees⟩ := h.consistent.marker m hm
  rw [hdb] at hdb'
  cases hdb'
  refine (succeeds_check (R := (· = d)) (by unfold HasBackup at hbackup; rw [hbackup]; rfl) rfl).andThen ?_
  intro t ht
  rw [ht]
  have hdatabase : (setDatabaseAuthority .committed d).database = some { db with authority := .committed } := by
    unfold setDatabaseAuthority updateDatabase
    rw [hdb]
    rfl
  have hfirst : Consistent rd known (setDatabaseAuthority .committed d) := by
    refine h.consistent.advance hnot' hdb rfl hdatabase (fun _ _ hfiles => .inl hfiles) hm ?_
    exact ⟨hagrees.version, hagrees.file, hagrees.digest, hagrees.unprepared, hagrees.prepared,
      fun hc => by rw [hauthority] at hc; cases hc⟩
  refine (succeeds_atomic (hv _ _ (by decide) hfirst rfl) rfl).andThen ?_
  rintro _ rfl
  have hlast : Consistent rd known (writeMarker
      { m with authority := .committed, committedAtMs := some now, legacyBackupDir := some dir }
      (setDatabaseAuthority .committed d)) := by
    refine h.consistent.advance hnot' hdb rfl hdatabase (fun _ _ hfiles => .inl hfiles) rfl ?_
    refine ⟨hagrees.version, hagrees.file, hagrees.digest, (fun hc => by cases hc),
      fun _ => ⟨dir, rfl, by rw [hblobs]; exact hbackup⟩, fun _ => ⟨rfl, ?_⟩⟩
    rw [hblobs, ← h.legacy]
    exact suffix_refl _
  exact succeeds_atomic (hv _ _ (by decide) hlast rfl)
    ⟨hlast, h.legacy, _, _, rfl, hdatabase, rfl, hdigest, rfl, hbackup, hblobs, hrows⟩

/-! ## Activating -/

theorem bothCommitted_retire (h : Consistent rd known d) (hm : d.marker = some m) (hc : m.authority = .committed)
    (legacy : LegacyFiles β) : BothCommitted { d with legacy := legacy } := by
  obtain ⟨db, hdb, hagrees⟩ := h.marker m hm
  exact ⟨m, db, hm, hdb, hc, (hagrees.committed hc).1⟩

/-- The stores and the backup that a finished activation has made of the legacy files of `d`. -/
def Activated (rd : Reading β δ π S κ) (d t : DataDir β δ π S) : Prop :=
  ∃ m db dir, t.marker = some m ∧ t.database = some db ∧ m.authority = .committed ∧ db.authority = .committed ∧
    db.blobs = d.legacy ∧ db.rows = rd.load d.legacy ∧ m.legacyBackupDir = some dir ∧ HasBackup t dir d.legacy

theorem Reached.activated (h : Reached rd known .committed dir d₀ d) : Activated rd d₀ { d with legacy := [] } := by
  obtain ⟨m, db, hm, hdb, hc, -, hdir, hbackup, hblobs, hrows⟩ := h.marker
  obtain ⟨db', hdb', hagrees⟩ := h.consistent.marker m hm
  rw [hdb] at hdb'
  cases hdb'
  exact ⟨m, db, dir, hm, hdb, hc, (hagrees.committed hc).1, hblobs, hrows, hdir, hbackup⟩

theorem succeeds_prepare [DecidableEq π] (h : Consistent rd known d) (hdistinct : Distinct rd known)
    (hm : d.marker = some m) (hdb : d.database = some db) (hnot : m.authority ≠ .committed)
    (hcurrent : m.sourceDigest = rd.digest d.legacy)
    (hv : ∀ stage t, stage ≠ .databaseReplaced → Consistent rd known t → t.legacy = d.legacy → V stage t) :
    Succeeds (if m.authority = .shadowVerified then
        prepareAuthority m (m.legacyBackupDir.getD (db.importedAtMs, rd.digestPrefix m.sourceDigest)) now
      else Program.done) d V
        (Reached rd known .prepared (m.legacyBackupDir.getD (db.importedAtMs, rd.digestPrefix m.sourceDigest)) d) := by
  obtain ⟨db', hdb', hagrees⟩ := h.marker m hm
  rw [hdb] at hdb'
  cases hdb'
  have hnot' : isCommittedMarker d.marker = false := by
    rw [hm, isCommittedMarker_some]
    exact decide_eq_false hnot
  split
  · rename_i hshadow
    refine h.prepareAuthority hdistinct hm hdb hshadow hcurrent ?_ hv
    rw [hagrees.unprepared hshadow]
    rfl
  · rename_i hprepared
    have hauthority : m.authority = .prepared := by
      cases hcase : m.authority with
      | shadowVerified => exact absurd hcase hprepared
      | prepared => rfl
      | committed => exact absurd hcase hnot
    obtain ⟨dir, hdir, hbackup⟩ := hagrees.prepared hprepared
    have hblobs := blobs_of_current hdistinct h hnot' hm hdb hcurrent
    have hrows := (h.database db hdb).rows
    rw [hblobs] at hbackup hrows
    rw [hdir]
    exact succeeds_done ⟨h, rfl, m, db, hm, hdb, hauthority, hcurrent, hdir, hbackup, hblobs, hrows⟩

theorem Consistent.activateAuthority [DecidableEq δ] [DecidableEq π] (h : Consistent rd known d)
    (hdistinct : Distinct rd known) (hcurrent : Current rd d)
    (hv : ∀ stage t, stage ≠ .databaseReplaced → Consistent rd known t → t.legacy = d.legacy ∨ BothCommitted t →
      V stage t) :
    Succeeds (activateAuthority rd now) d V (fun t => Consistent rd known t ∧ Activated rd d t ∧ t.legacy = []) := by
  obtain ⟨m, hm, hnot, hdigest⟩ := hcurrent
  obtain ⟨db, hdb, -⟩ := h.marker m hm
  have hnot' : isCommittedMarker d.marker = false := by
    rw [hm, isCommittedMarker_some]
    exact decide_eq_false hnot
  refine h.upgradeSchema.andThen ?_
  intro t ht
  rw [ht]
  refine succeeds_reading (h.requireMarker hm) (succeeds_reading (requireDatabase_some hdb) ?_)
  refine (succeeds_prepare h hdistinct hm hdb hnot hdigest fun stage t hs hc hl => hv stage t hs hc (.inl hl)).andThen ?_
  intro t ht
  obtain ⟨m', -, hm', -, hauthority, -⟩ := ht.marker
  have hcommit : Succeeds (reading ServerSqlite.requireMarker fun marker => if marker.authority = .prepared then
      commitAuthority marker (m.legacyBackupDir.getD (db.importedAtMs, rd.digestPrefix m.sourceDigest)) now
        else Program.done) t V
      (Reached rd known .committed (m.legacyBackupDir.getD (db.importedAtMs, rd.digestPrefix m.sourceDigest)) d) := by
    refine succeeds_reading (ht.consistent.requireMarker hm') ?_
    rw [if_pos hauthority]
    exact commitAuthority_reached ht hm' fun stage t hs hc hl => hv stage t hs hc (.inl (hl.trans ht.legacy))
  refine hcommit.andThen ?_
  intro u hu
  obtain ⟨m'', -, hm'', -, hc, -⟩ := hu.marker
  refine (hu.consistent.finishActivation hm'' hc fun stage legacy hstage hlegacy => ?_).mono (fun _ _ => id) ?_
  · exact hv stage _ hstage (hu.consistent.retire hm'' hc hlegacy)
      (.inr (bothCommitted_retire hu.consistent hm'' hc legacy))
  · rintro _ rfl
    exact ⟨hu.consistent.retire hm'' hc nil_suffix, hu.activated, rfl⟩

theorem Consistent.resumeAuthority [DecidableEq δ] [DecidableEq π] (h : Consistent rd known d)
    (hc : isCommittedMarker d.marker = true)
    (hv : ∀ stage legacy, stage ≠ .databaseReplaced → Consistent rd known { d with legacy := legacy } →
      BothCommitted { d with legacy := legacy } → V stage { d with legacy := legacy }) :
    Succeeds (ServerSqlite.activateAuthority rd now) d V
      (fun t => Consistent rd known t ∧ t.database = d.database ∧ BothCommitted t) := by
  obtain ⟨m, hm, hauthority⟩ : ∃ m, d.marker = some m ∧ m.authority = .committed := by
    unfold isCommittedMarker at hc
    rw [Option.any_eq_true] at hc
    obtain ⟨m, hm, hauthority⟩ := hc
    exact ⟨m, hm, of_decide_eq_true hauthority⟩
  obtain ⟨db, hdb, -⟩ := h.marker m hm
  refine h.upgradeSchema.andThen ?_
  intro t ht
  rw [ht]
  refine succeeds_reading (h.requireMarker hm) (succeeds_reading (requireDatabase_some hdb) ?_)
  dsimp only
  rw [if_neg (by rw [hauthority]; decide)]
  refine (succeeds_done (R := (· = d)) rfl).andThen ?_
  intro t ht
  rw [ht]
  have hskip : Succeeds (reading ServerSqlite.requireMarker fun marker => if marker.authority = .prepared then
      commitAuthority marker (m.legacyBackupDir.getD (db.importedAtMs, rd.digestPrefix m.sourceDigest)) now
        else Program.done) d V (· = d) := by
    refine succeeds_reading (h.requireMarker hm) ?_
    rw [if_neg (by rw [hauthority]; decide)]
    exact succeeds_done rfl
  refine hskip.andThen ?_
  intro t ht
  rw [ht]
  refine (h.finishActivation hm hauthority fun stage legacy hstage hlegacy => ?_).mono (fun _ _ => id) ?_
  · exact hv stage legacy hstage (h.retire hm hauthority hlegacy) (bothCommitted_retire h hm hauthority legacy)
  · rintro _ rfl
    exact ⟨h.retire hm hauthority nil_suffix, rfl, bothCommitted_retire h hm hauthority []⟩

end

/-! ## Starts -/

variable [DecidableEq δ] [DecidableEq π] [DecidableEq κ]

/-- One start of the server. -/
structure Start where
  now : ℤ
  activate : Bool

/-- A start resumes a committed authority, or brings the shadow up to date and activates it when asked. -/
def start (rd : Reading β δ π S κ) (st : Start) : DirProgram β δ π S :=
  reading (fun d => .ok d) fun d =>
    if isCommittedMarker d.marker then activateAuthority rd st.now
    else (ensureShadow rd (rd.load d.legacy) st.now).andThen
      (if st.activate then activateAuthority rd st.now else done)

/-- A write of the legacy files, a start that crashes, or one that comes to its end. -/
inductive Event (β : Type)
  | write (files : LegacyFiles β)
  | crash (st : Start) (stage : Stage)
  | finish (st : Start)

theorem Consistent.start (h : Consistent rd known d) (hdistinct : Distinct rd known) (st : Start) :
    Succeeds (start rd st) d (Kept rd known d) (fun t => Consistent rd known t ∧
      (isCommittedMarker d.marker = true → t.database = d.database) ∧
      (isCommittedMarker d.marker = false → st.activate = true → Activated rd d t)) := by
  refine succeeds_reading rfl ?_
  split
  · rename_i hc
    refine (h.resumeAuthority hc fun stage legacy hstage ht hboth => ?_).mono (fun _ _ => id) ?_
    · exact ⟨fun _ => ht, fun _ => hboth, fun _ => rfl⟩
    · rintro t ⟨ht, hdatabase, -⟩
      refine ⟨ht, fun _ => hdatabase, fun hnot => ?_⟩
      rw [hc] at hnot
      cases hnot
  · rename_i hc
    have hnot : isCommittedMarker d.marker = false := by simpa using hc
    refine (h.ensureShadow hnot).andThen ?_
    rintro t ⟨ht, hlegacy, hcurrent⟩
    split
    · refine (ht.activateAuthority hdistinct hcurrent fun stage u hstage hu hwhere => ?_).mono (fun _ _ => id) ?_
      · refine ⟨fun _ => hu, fun hne => ?_, fun hyes => absurd hyes hc⟩
        rcases hwhere with hsame | hboth
        · exact absurd (hsame.trans hlegacy) hne
        · exact hboth
      · rintro u ⟨hu, hactivated, -⟩
        refine ⟨hu, fun hyes => absurd hyes hc, fun _ _ => ?_⟩
        unfold Activated at hactivated ⊢
        rwa [hlegacy] at hactivated
    · rename_i hactivate
      exact succeeds_done ⟨ht, fun hyes => absurd hyes hc, fun _ hyes => absurd hyes hactivate⟩

end

/-! ## A marker of an earlier shadow -/

end CcSwitchServer.ServerSqlite
