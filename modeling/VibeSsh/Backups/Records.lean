import VibeSsh.Basic
import VibeSsh.Lib.Calendar
import VibeSsh.Lib.Run

/-! # Backup records and their archives

`application_backup_service` and its repository: making a backup by hand or on schedule, deleting
one, and the retention rules. A record carries a fresh identifier and the name of its archive, which
is made from the kind and the second of a clock reading. Instants are nanoseconds since 1970; the
archives are the files of each application's `.vibessh-backups`, the objects those of the backup
destination. How the file and network calls went is part of each operation. -/

namespace VibeSsh.Backups

open Lib

def second (now : Nat) : Nat := now / 10 ^ 9

def hours (n : Nat) : Nat := n * 3600 * 10 ^ 9

def days (n : Nat) : Nat := hours (n * 24)

inductive BackupKind where
  | manual
  | scheduled
  deriving DecidableEq

def BackupKind.asStr : BackupKind → Text
  | .manual => "manual"
  | .scheduled => "scheduled"

def backupFileName (kind : BackupKind) (now : Nat) : Text :=
  kind.asStr ++ '-' :: (Calendar.stamp (second now) ++ ".zip")

def s3ObjectKey (applicationId : Uuid) (fileName : Text) : Text :=
  applicationId.display ++ '/' :: fileName

structure ApplicationBackup where
  id : Uuid
  applicationId : Uuid
  fileName : Text
  sizeBytes : Nat
  kind : BackupKind
  s3Key : Option Text
  createdAt : Nat
  /-- The reading the name was made from; the source keeps no more of it than the name. -/
  namedAt : Nat
  deriving DecidableEq

/-- A stored schedule has passed `set_backup_schedule`. -/
structure BackupSchedule where
  enabled : Bool
  intervalHours : Nat
  retentionCount : Nat
  retentionMaxAgeDays : Option Nat
  retentionMaxTotalBytes : Option Nat
  interval_pos : 0 < intervalHours

structure World where
  records : List ApplicationBackup
  schedules : Uuid → Option BackupSchedule
  archives : Uuid → Text → Option Text
  objects : Text → Option Text
  clock : Nat

namespace World

/-! ## The repository -/

variable (w : World)

def list (application : Uuid) : List ApplicationBackup :=
  (w.records.filter (·.applicationId = application)).insertionSort fun a b =>
    b.createdAt ≤ a.createdAt

def get (id : Uuid) : Option ApplicationBackup := w.records.find? (·.id = id)

def create (backup : ApplicationBackup) : AppResult World :=
  if w.records.any (·.id = backup.id) then
    .error (.storage "failed to record the backup: UNIQUE constraint failed")
  else .ok { w with records := w.records ++ [backup] }

def setS3Key (id : Uuid) (key : Text) : World :=
  { w with records := w.records.map fun r => if r.id = id then { r with s3Key := some key } else r }

def deleteRecord (id : Uuid) : World :=
  { w with records := w.records.filter (·.id ≠ id) }

def latestBackupAt (application : Uuid) : Option Nat :=
  (w.list application).head?.map (·.createdAt)

/-! ## Files and objects -/

def writeArchive (application : Uuid) (fileName content : Text) : World :=
  { w with
    archives := Function.update w.archives application
      (Function.update (w.archives application) fileName (some content)) }

def deleteArchive (application : Uuid) (fileName : Text) : World :=
  { w with
    archives := Function.update w.archives application
      (Function.update (w.archives application) fileName none) }

def putObject (key content : Text) : World :=
  { w with objects := Function.update w.objects key (some content) }

def deleteObject (key : Text) : World :=
  { w with objects := Function.update w.objects key none }

end World

/-! ## Making a backup -/

/-- How writing the archive went; a failed write may leave something under its name. -/
inductive ZipOutcome where
  | done (content : Text)
  | failed (error : AppError) (left : Option Text)

inductive Remote where
  | unconfigured
  | uploaded
  | failed (error : AppError)

/-- The clock reading the name is made from, the later one of the record, the record's new
identifier, and how the calls went. -/
structure CreateAnswers where
  named : Nat
  created : Nat
  id : Uuid
  zip : ZipOutcome
  remote : Remote

structure BackupCreated where
  backup : ApplicationBackup
  remoteError : Option AppError

variable (w : World)

variable (application : Uuid)

def recordBackup (kind : BackupKind) (a : CreateAnswers)
    (content : Text) : AppResult BackupCreated × World :=
  let fileName := backupFileName kind a.named
  let created : ApplicationBackup :=
    ⟨a.id, application, fileName, content.length, kind, none, a.created, a.named⟩
  match w.create created with
  | .error e => (.error e, w)
  | .ok w =>
    match a.remote with
    | .unconfigured => (.ok ⟨created, none⟩, w)
    | .failed e => (.ok ⟨created, some e⟩, w)
    | .uploaded =>
      let key := s3ObjectKey application fileName
      let w := (w.putObject key content).setS3Key a.id key
      (.ok ⟨(w.get a.id).getD created, none⟩, w)

def createBackup (kind : BackupKind) (a : CreateAnswers) :
    AppResult BackupCreated × World :=
  let fileName := backupFileName kind a.named
  let w := { w with clock := a.created }
  match a.zip with
  | .failed e none => (.error e, w)
  | .failed e (some left) => (.error e, w.writeArchive application fileName left)
  | .done content => recordBackup (w.writeArchive application fileName content) application kind a content

/-! ## Deleting one -/

structure BackupDeleted where
  fileError : Option AppError
  remoteError : Option AppError

/-- `delete_backup`; the errors are those of removing the file and the object. -/
def deleteBackup (application backup : Uuid) (fileError remoteError : Option AppError) :
    BackupDeleted × World :=
  match w.get backup with
  | none => (⟨none, none⟩, w)
  | some row =>
    let w := w.deleteRecord backup
    let w := if fileError.isSome then w else w.deleteArchive application row.fileName
    match row.s3Key with
    | none => (⟨fileError, none⟩, w)
    | some key =>
      (⟨fileError, remoteError⟩, if remoteError.isSome then w else w.deleteObject key)

/-! ## Retention -/

/-- The loop of `backups_to_prune` over the scheduled backups, newest first. -/
def pruneLoop (schedule : BackupSchedule) (now : Nat) :
    Nat → Nat → List ApplicationBackup → List ApplicationBackup
  | _, _, [] => []
  | 0, keptBytes, backup :: rest => pruneLoop schedule now 1 (keptBytes + backup.sizeBytes) rest
  | index + 1, keptBytes, backup :: rest =>
    let overCount := decide (schedule.retentionCount ≤ index + 1)
    let overAge := schedule.retentionMaxAgeDays.any fun n => backup.createdAt + days n < now
    let overSize := schedule.retentionMaxTotalBytes.any fun n => n < keptBytes + backup.sizeBytes
    if overCount || overAge || overSize then
      backup :: pruneLoop schedule now (index + 2) keptBytes rest
    else pruneLoop schedule now (index + 2) (keptBytes + backup.sizeBytes) rest

def backupsToPrune (backups : List ApplicationBackup) (schedule : BackupSchedule) (now : Nat) :
    List ApplicationBackup :=
  pruneLoop schedule now 0 0 (backups.filter (·.kind = .scheduled))

/-- How pruning went: whether the Node was reached, whether there is a destination, and which files
and objects could not be removed. -/
structure PruneAnswers where
  now : Nat
  unreachable : Option AppError
  client : Bool
  fileStays : Text → Bool
  objectStays : Text → Bool

def pruneOne (a : PruneAnswers) (w : World) (old : ApplicationBackup) : World :=
  let w := w.deleteRecord old.id
  let w := if a.fileStays old.fileName then w else w.deleteArchive application old.fileName
  match old.s3Key with
  | none => w
  | some key => if a.client && !a.objectStays key then w.deleteObject key else w

def pruneOldBackups (schedule : BackupSchedule)
    (a : PruneAnswers) : AppResult Unit × World :=
  let w := { w with clock := a.now }
  let toPrune := backupsToPrune (w.list application) schedule a.now
  if toPrune.isEmpty then (.ok (), w)
  else
    match a.unreachable with
    | some e => (.error e, w)
    | none => (.ok (), toPrune.foldl (pruneOne application a) w)

/-! ## Schedules -/

/-- `interval` after a backup the next one is due. -/
def isDue (schedule : BackupSchedule) (now : Nat) : Bool :=
  (w.latestBackupAt application).all fun last => decide (last + hours schedule.intervalHours ≤ now)

structure DueAnswers where
  now : Nat
  create : CreateAnswers
  prune : PruneAnswers

/-- One application's turn in `run_due_backups`: a failed backup or a failed prune is only logged. -/
def runDueBackup (a : DueAnswers) : World :=
  match w.schedules application with
  | none => w
  | some schedule =>
    let w := { w with clock := a.now }
    if !schedule.enabled || !isDue w application schedule a.now then w
    else
      match createBackup w application .scheduled a.create with
      | (.error _, w) => w
      | (.ok _, w) => (pruneOldBackups w application schedule a.prune).2

structure ScheduleInput where
  enabled : Bool
  intervalHours : Nat
  retentionCount : Nat
  retentionMaxAgeDays : Option Nat
  retentionMaxTotalBytes : Option Nat

def setBackupSchedule (input : ScheduleInput) :
    AppResult Unit × World :=
  if hi : input.intervalHours = 0 then
    (.error (.invalidInput "the backup interval must be at least 1 hour"), w)
  else if input.retentionCount = 0 then
    (.error (.invalidInput "keep at least 1 backup"), w)
  else
    (.ok (), { w with
      schedules := Function.update w.schedules application (some
        ⟨input.enabled, input.intervalHours, input.retentionCount, input.retentionMaxAgeDays,
          input.retentionMaxTotalBytes, Nat.pos_of_ne_zero hi⟩) })

/-! ## Operations -/

inductive Op where
  | createManual (application : Uuid) (a : CreateAnswers)
  | runDue (application : Uuid) (a : DueAnswers)
  | delete (application backup : Uuid) (fileError remoteError : Option AppError)
  | setSchedule (application : Uuid) (input : ScheduleInput)

def next : Op → World
  | .createManual application a => (createBackup w application .manual a).2
  | .runDue application a => runDueBackup w application a
  | .delete application backup fileError remoteError =>
    (deleteBackup w application backup fileError remoteError).2
  | .setSchedule application input => (setBackupSchedule w application input).2

/-- The clock never goes back: not between operations, and not between the readings of one. -/
def Op.readings : Op → List Nat
  | .createManual _ a => [a.named, a.created]
  | .runDue _ a => [a.now, a.create.named, a.create.created, a.prune.now]
  | _ => []

def Step (op : Op) (w' : World) : Prop :=
  (w.clock :: op.readings).Pairwise (· ≤ ·) ∧ w' = next w op

end VibeSsh.Backups
