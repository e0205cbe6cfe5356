import CcSwitchServer.Foundations.Checked
import CcSwitchServer.Foundations.Crashing

/-! # The move to SQLite (`repository/server_sqlite.rs`)

A start builds a shadow database from the legacy files, or finds the one that is there to be current, and on request
makes it the authority. Every step replaces one file, commits one transaction, or copies or removes one legacy file.
-/

namespace CcSwitchServer.ServerSqlite
open Foundations Program

section

inductive AuthorityState
  | shadowVerified
  | prepared
  | committed
deriving DecidableEq

abbrev LegacyFiles (β : Type) := List (String × β)

abbrev BackupDir (π : Type) := ℤ × π

variable {β δ π S κ : Type}

/-- The file that names the authority. -/
structure MigrationMarker (δ π : Type) where
  schemaVersion : ℕ
  authority : AuthorityState
  sourceDigest : δ
  databaseFile : String
  preparedAtMs : Option ℤ
  committedAtMs : Option ℤ
  legacyBackupDir : Option (BackupDir π)

/-- The database: the legacy files it was built from, and their stores as rows. -/
structure StoreDatabase (β δ S : Type) where
  blobs : LegacyFiles β
  rows : S
  sourceDigest : δ
  authority : AuthorityState
  importedAtMs : ℤ
  version : ℕ

/-- A backup is copied file by file and then marked complete. -/
structure LegacyBackup (β : Type) where
  files : LegacyFiles β
  complete : Bool

/-- What a start finds on the disk. -/
structure DataDir (β δ π S : Type) where
  legacy : LegacyFiles β
  database : Option (StoreDatabase β δ S)
  marker : Option (MigrationMarker δ π)
  backups : BackupDir π → Option (LegacyBackup β)

/-- The digest of the legacy files and its first characters, the stores that are read from the files, and what a
verification compares of them with the database. -/
structure Reading (β δ π S κ : Type) where
  digest : LegacyFiles β → δ
  digestPrefix : δ → π
  load : LegacyFiles β → S
  summary : S → κ

/-- The steps of a start, each named after what it has done. -/
inductive Stage
  | sourcesRead
  | databaseCreated
  | transactionCommitted
  | beforeReplace
  | databaseReplaced
  | markerWritten
  | schemaMigrated
  | markerUpgraded
  | incompleteBackupRemoved
  | backupStarted
  | fileCopied
  | legacyBackupCreated
  | databasePrepared
  | markerPrepared
  | databaseCommitted
  | markerCommitted
  | fileRetired
  | legacyRetired
deriving DecidableEq

def databaseFileName : String := "server-store.sqlite3"
def schemaVersion : ℕ := 4

abbrev DirProgram (β δ π S : Type) := Program Stage (DataDir β δ π S) String

/-! ## Reading -/

/-- A marker of another schema or file is refused. -/
def readMarker (d : DataDir β δ π S) : Except String (Option (MigrationMarker δ π)) :=
  match d.marker with
  | none => .ok none
  | some marker => do
    ensure (1 ≤ marker.schemaVersion ∧ marker.schemaVersion ≤ schemaVersion)
      ("unsupported Server SQLite marker schema " ++ toString marker.schemaVersion)
    ensure (marker.databaseFile = databaseFileName) "Server SQLite marker points outside its fixed database file"
    pure (some marker)

def requireMarker (d : DataDir β δ π S) : Except String (MigrationMarker δ π) := do
  context (← readMarker d) "SQLite migration marker is missing"

def requireDatabase (message : String) (d : DataDir β δ π S) : Except String (StoreDatabase β δ S) :=
  context d.database message

def writeMarker (marker : MigrationMarker δ π) (d : DataDir β δ π S) : DataDir β δ π S :=
  { d with marker := some marker }

def updateDatabase (f : StoreDatabase β δ S → StoreDatabase β δ S) (d : DataDir β δ π S) : DataDir β δ π S :=
  { d with database := d.database.map f }

/-! ## The schema -/

def versionIs (version : ℕ) (d : DataDir β δ π S) : Bool := d.database.any fun db => db.version = version

def migrateToCurrent (db : StoreDatabase β δ S) : DirProgram β δ π S :=
  (check (fun _ => 1 ≤ db.version && db.version ≤ schemaVersion)
      ("unsupported Server SQLite schema " ++ toString db.version ++
        "; use a matching Server binary/backup (never downgrade)")).andThen
    (sequence ([1, 2, 3].map fun version =>
      when (versionIs version) (atomic .schemaMigrated (updateDatabase fun db => { db with version := version + 1 }))))

/-- The database first, and then the marker. -/
def upgradeSchema [DecidableEq δ] : DirProgram β δ π S :=
  reading readMarker fun
    | none => done
    | some marker =>
      reading
        (requireDatabase "SQLite migration marker has no database; restore a complete backup") fun db =>
          (check (fun _ => marker.schemaVersion ≤ db.version)
            "SQLite database schema is older than its authority marker; restore a complete backup").andThen <|
          (check (fun _ => db.sourceDigest = marker.sourceDigest) "SQLite migration source digest mismatch").andThen <|
          (migrateToCurrent db).andThen <|
          when (fun _ => marker.schemaVersion ≠ schemaVersion)
            (atomic .markerUpgraded (writeMarker { marker with schemaVersion := schemaVersion }))

/-! ## The shadow -/

variable (rd : Reading β δ π S κ)

def verifyConnection [DecidableEq δ] [DecidableEq κ] (db : StoreDatabase β δ S) (input : S) (sourceDigest : δ) :
    Except String Unit := do
  ensure (db.sourceDigest = sourceDigest) "SQLite source digest mismatch"
  ensure (rd.summary db.rows = rd.summary input) "SQLite rows differ from the legacy stores"

def verifyShadow [DecidableEq δ] [DecidableEq κ] (d : DataDir β δ π S) (input : S) : Except String Unit := do
  let marker ← requireMarker d
  ensure (marker.authority ≠ .committed) "committed SQLite authority requires the authoritative repository reader"
  ensure (marker.sourceDigest = rd.digest d.legacy) "legacy stores changed after the SQLite shadow was built"
  let db ← requireDatabase "open Server SQLite database" d
  verifyConnection rd db input (rd.digest d.legacy)

/-- The database that is built from the legacy files. -/
def importSources (legacy : LegacyFiles β) (input : S) (importedAtMs : ℤ) : StoreDatabase β δ S where
  blobs := legacy
  rows := input
  sourceDigest := rd.digest legacy
  authority := .shadowVerified
  importedAtMs := importedAtMs
  version := schemaVersion

def shadowMarker (sourceDigest : δ) : MigrationMarker δ π where
  schemaVersion := schemaVersion
  authority := .shadowVerified
  sourceDigest := sourceDigest
  databaseFile := databaseFileName
  preparedAtMs := none
  committedAtMs := none
  legacyBackupDir := none

def isCommittedMarker (marker : Option (MigrationMarker δ π)) : Bool := marker.any fun m => m.authority = .committed

/-- The database is built in a temporary file, which nothing else reads. -/
def refreshShadow (input : S) (now : ℤ) : DirProgram β δ π S :=
  reading readMarker fun marker =>
    (check (fun _ => !isCommittedMarker marker)
      "refusing to rebuild a committed SQLite authority from legacy files").andThen <|
    reading (fun d => .ok d.legacy) fun sources =>
      sequence [atomic .sourcesRead id, atomic .databaseCreated id, atomic .transactionCommitted id,
        atomic .beforeReplace id,
        atomic .databaseReplaced fun d => { d with database := some (importSources rd sources input now) },
        atomic .markerWritten (writeMarker (shadowMarker (rd.digest sources)))]

/-- A shadow that is verified is kept; otherwise it is built again. -/
def ensureShadow [DecidableEq δ] [DecidableEq κ] (input : S) (now : ℤ) : DirProgram β δ π S :=
  upgradeSchema.andThen <|
  reading readMarker fun marker =>
    reading (fun d => .ok (marker.isSome && (verifyShadow rd d input).toBool)) fun current =>
      if current then done else refreshShadow rd input now

/-! ## The authority -/

def setDatabaseAuthority (authority : AuthorityState) : DataDir β δ π S → DataDir β δ π S :=
  updateDatabase fun db => { db with authority := authority }

section
variable [DecidableEq π]

variable (dir : BackupDir π)

def setBackup (backup : Option (LegacyBackup β)) (d : DataDir β δ π S) : DataDir β δ π S :=
  { d with backups := Function.update d.backups dir backup }

def copyFile (file : String × β) (d : DataDir β δ π S) : DataDir β δ π S :=
  setBackup dir ((d.backups dir).map fun backup => { backup with files := backup.files ++ [file] }) d

variable (d : DataDir β δ π S)

def completeBackup : DataDir β δ π S :=
  setBackup dir ((d.backups dir).map fun backup => { backup with complete := true }) d

def backupIsComplete : Bool := (d.backups dir).any LegacyBackup.complete

def createReadonlyLegacyBackup : DirProgram β δ π S :=
  when (fun d => !backupIsComplete dir d) <|
    (when (fun d => (d.backups dir).isSome) (atomic .incompleteBackupRemoved (setBackup dir none))).andThen <|
    (atomic .backupStarted (setBackup dir (some ⟨[], false⟩))).andThen <|
    reading (fun d => .ok d.legacy) fun files =>
      (sequence (files.map fun file => atomic .fileCopied (copyFile dir file))).andThen
        (atomic .legacyBackupCreated (completeBackup dir))

/-- The legacy files are removed one by one. -/
def retireFile : DataDir β δ π S := { d with legacy := d.legacy.tail }

def retireLegacySources : DirProgram β δ π S :=
  reading (fun d => .ok d.legacy) fun files =>
    (sequence (files.map fun _ => atomic .fileRetired retireFile)).andThen (atomic .legacyRetired id)

def verifyCommittedDatabase [DecidableEq δ] (marker : MigrationMarker δ π) (db : StoreDatabase β δ S) :
    Except String Unit := do
  ensure (db.version = schemaVersion) "committed SQLite schema version is unsupported"
  ensure (db.authority = .committed) "SQLite database authority is not committed"
  ensure (db.sourceDigest = marker.sourceDigest) "committed SQLite marker/source digest mismatch"

def prepareAuthority (marker : MigrationMarker δ π) (dir : BackupDir π) (now : ℤ) : DirProgram β δ π S :=
  (createReadonlyLegacyBackup dir).andThen <|
  (atomic .databasePrepared (setDatabaseAuthority .prepared)).andThen <|
  atomic .markerPrepared (writeMarker
    { marker with authority := .prepared, preparedAtMs := some now, legacyBackupDir := some dir })

/-- A prepared authority with its backup is committed. -/
def commitAuthority (marker : MigrationMarker δ π) (dir : BackupDir π) (now : ℤ) : DirProgram β δ π S :=
  (check (fun d => (d.backups dir).isSome) "prepared SQLite migration backup is missing").andThen <|
  (atomic .databaseCommitted (setDatabaseAuthority .committed)).andThen <|
  atomic .markerCommitted (writeMarker
    { marker with authority := .committed, committedAtMs := some now, legacyBackupDir := some dir })

def finishActivation [DecidableEq δ] : DirProgram β δ π S :=
  reading requireMarker fun marker =>
    (check (fun _ => marker.authority = .committed) "SQLite authority was not committed").andThen <|
    reading (requireDatabase "open Server SQLite database") fun db =>
      reading (fun _ => verifyCommittedDatabase marker db) fun _ => retireLegacySources

/-- An activation goes on where an earlier one has stopped. -/
def activateAuthority [DecidableEq δ] (now : ℤ) : DirProgram β δ π S :=
  upgradeSchema.andThen <|
  reading requireMarker fun marker =>
    reading (requireDatabase "SQLite authority database is missing") fun db =>
      let dir := marker.legacyBackupDir.getD (db.importedAtMs, rd.digestPrefix marker.sourceDigest)
      (if marker.authority = .shadowVerified then prepareAuthority marker dir now else done).andThen <|
      (reading requireMarker fun marker =>
        if marker.authority = .prepared then commitAuthority marker dir now else done).andThen <|
      finishActivation

end

end

end CcSwitchServer.ServerSqlite
