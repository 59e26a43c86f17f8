import VibeSsh.Schedules.Cron
import VibeSsh.Lib.Run

/-! # Changing schedules

`create_schedule`, `update_schedule` and `delete_schedule`. A call runs without interruption up to
the connection to the Node; then it changes the row, takes the file to write from the rows and waits
for the Node once more; and at last it returns, or takes its change back. The file lands at some
point of that second wait, or does not; a write that fails may have landed. The Node's cron files are
kept by application, and calls that have ended stay in a log, newest first. -/

namespace VibeSsh.Schedules

open Lib

/-! ## The rows -/

/-- `application_schedules`, keyed by identifier. -/
structure Table where
  rows : List ApplicationSchedule
  ids : (rows.map (·.id)).Nodup

namespace Table

def list (t : Table) (application : Uuid) : List ApplicationSchedule :=
  (t.rows.filter (·.applicationId = application)).insertionSort fun a b => a.createdAt ≤ b.createdAt

def get (t : Table) (id : Uuid) : Option ApplicationSchedule := t.rows.find? (·.id = id)

theorem nodup_insert {t : Table} {row : ApplicationSchedule}
    (h : ¬ t.rows.any (·.id = row.id) = true) : ((t.rows ++ [row]).map (·.id)).Nodup := by
  rw [List.map_append, List.nodup_append']
  refine ⟨t.ids, by simp, ?_⟩
  simpa [List.disjoint_left] using h

def insert (t : Table) (row : ApplicationSchedule) : AppResult Table :=
  if h : t.rows.any (·.id = row.id) then
    .error (.storage
      "failed to save the schedule: UNIQUE constraint failed: application_schedules.id")
  else .ok ⟨t.rows ++ [row], nodup_insert h⟩

def setColumns (id : Uuid) (input : ScheduleInput) (row : ApplicationSchedule) :
    ApplicationSchedule :=
  if row.id = id then
    { input with id := row.id, applicationId := row.applicationId, createdAt := row.createdAt }
  else row

variable (id : Uuid) (input : ScheduleInput) (row : ApplicationSchedule)

theorem setColumns_id : (setColumns id input row).id = row.id := by
  unfold setColumns
  split <;> rfl

theorem setColumns_applicationId : (setColumns id input row).applicationId = row.applicationId := by
  unfold setColumns
  split <;> rfl

theorem nodup_setColumns {t : Table} : ((t.rows.map (setColumns id input)).map (·.id)).Nodup := by
  rw [List.map_map]
  exact (List.map_congr_left fun row _ => setColumns_id id input row) ▸ t.ids

def update (t : Table) (id : Uuid) (input : ScheduleInput) : AppResult Table :=
  if t.rows.any (·.id = id) then .ok ⟨t.rows.map (setColumns id input), nodup_setColumns id input⟩
  else .error (.notFound ("schedule " ++ id.display))

theorem nodup_delete {t : Table} : ((t.rows.filter (·.id ≠ id)).map (·.id)).Nodup :=
  t.ids.sublist (List.filter_sublist.map _)

def delete (t : Table) (id : Uuid) : Table := ⟨t.rows.filter (·.id ≠ id), nodup_delete id⟩

end Table

/-! ## The Node -/

inductive ConnectionMode where
  | ssh
  | agent
  deriving DecidableEq

/-- The columns of an application the schedules depend on; `diskLimitMb` is the number the runtime
configuration holds under that key. -/
structure ApplicationInfo where
  runtimeType : RuntimeType
  serverId : Option Uuid
  workingDirectory : Text
  diskLimitMb : Option UInt64

/-- The tables no call here writes. -/
structure Registry where
  application : Uuid → Option ApplicationInfo
  connectionMode : Uuid → Option ConnectionMode

variable (registry : Registry)

def applicationInfo (application : Uuid) : AppResult ApplicationInfo :=
  match registry.application application with
  | none => .error (.notFound ("application " ++ application.display))
  | some info => .ok info

def diskCheckFor (application : Uuid) : AppResult (Option DiskCheck) := do
  let info ← applicationInfo registry application
  match info.diskLimitMb.filter (0 < ·) with
  | none => .ok none
  | some limitMb => do
    let directory ← cronSafeDirectory info.workingDirectory
    .ok (some ⟨limitMb * 1024 * 1024, directory⟩)

/-- `node_for` up to the connection: the Node to connect to. -/
def nodeFor (application : Uuid) : AppResult Uuid := do
  let info ← applicationInfo registry application
  if info.runtimeType ≠ .docker then
    .error (.invalidInput "schedules are only available for Docker applications")
  else
    match info.serverId with
    | none => .error (.invalidInput
        "schedules run on a Node, and this application runs on this computer")
    | some server =>
      match registry.connectionMode server with
      | none => .error (.notFound ("server " ++ server.display))
      | some .agent => .error (.invalidInput
          "schedules aren't available on a Node managed by the Vibe Agent yet")
      | some .ssh => .ok server

/-- `sync_node` up to the first command: the file to be there, or none. -/
def syncNode (t : Table) (application : Uuid) : AppResult (Option Text) := do
  let disk ← diskCheckFor registry application
  .ok (cronFile application (t.list application) disk)

/-- Why `write_to_node` gave up: the connection, a Node without cron, or a command that refused. -/
inductive WriteFailure where
  | transport (error : AppError)
  | cronMissing
  | install (stderr : Text)
  | write (stderr : Text)
  | remove (stderr : Text)

def WriteFailure.error (server : Uuid) : WriteFailure → AppError
  | .transport error => error
  | .cronMissing => .cronMissing server
  | .install stderr =>
    .connection ("couldn't install the schedule runner: " ++ Text.trim stderr)
  | .write stderr => .connection ("couldn't write the schedule file: " ++ Text.trim stderr)
  | .remove stderr => .connection ("couldn't remove the schedule file: " ++ Text.trim stderr)

/-! ## Calls -/

/-- What is asked for; a creation carries the identifier and the time its row will get. -/
inductive Request where
  | create (application : Uuid) (input : ScheduleInput) (newId : Uuid) (createdAt : Text)
  | update (schedule : Uuid) (input : ScheduleInput)
  | delete (schedule : Uuid)

/-- A call past its own checks; updates and deletions keep the row as it was. -/
inductive Change where
  | create (row : ApplicationSchedule)
  | update (before : ApplicationSchedule) (input : ScheduleInput)
  | delete (before : ApplicationSchedule)

def Change.row : Change → ApplicationSchedule
  | .create row => row
  | .update before _ => before
  | .delete before => before

def Change.application (change : Change) : Uuid := change.row.applicationId

def Change.apply (t : Table) : Change → AppResult Table
  | .create row => t.insert row
  | .update before input => t.update before.id input
  | .delete before => .ok (t.delete before.id)

/-- What a call does to the rows when the Node refuses; an error in doing so is only logged. -/
def Change.undo (t : Table) : Change → Table
  | .create row => t.delete row.id
  | .update before _ => (t.update before.id before.toScheduleInput).toOption.getD t
  | .delete before => (t.insert before).toOption.getD t

/-- Where a call waits: for the connection, for its file to land, or for the answer. -/
inductive Phase where
  | connecting
  | syncing (file : Option Text)
  | landed

structure Running where
  change : Change
  server : Uuid
  phase : Phase

structure State where
  table : Table
  cron : Uuid → Option Text
  running : Nat → Option Running
  log : List (Option Uuid × AppResult Unit)

namespace State

def set (s : State) (i : Nat) (r : Running) : State :=
  { s with running := Function.update s.running i (some r) }

def finish (s : State) (i : Nat) (application : Option Uuid) (result : AppResult Unit) : State :=
  { s with running := Function.update s.running i none, log := (application, result) :: s.log }

/-- How the last call on an application ended. -/
def lastResult (s : State) (application : Uuid) : Option (AppResult Unit) :=
  (s.log.find? (·.1 = some application)).map (·.2)

end State

variable (s : State)

def beginChange (i : Nat) (change : Change) : State :=
  match nodeFor registry change.application with
  | .error e => s.finish i (some change.application) (.error e)
  | .ok server => s.set i ⟨change, server, .connecting⟩

def start (i : Nat) : Request → State
  | .create application input newId createdAt =>
    match validateInput input with
    | .error e => s.finish i (some application) (.error e)
    | .ok input =>
      beginChange registry s i
        (.create { input with id := newId, applicationId := application, createdAt := createdAt })
  | .update schedule input =>
    match validateInput input with
    | .error e => s.finish i none (.error e)
    | .ok input =>
      match s.table.get schedule with
      | none => s.finish i none (.error (.notFound ("schedule " ++ schedule.display)))
      | some before => beginChange registry s i (.update before input)
  | .delete schedule =>
    match s.table.get schedule with
    | none => s.finish i none (.ok ())
    | some before => beginChange registry s i (.delete before)

/-- The Node refused, or could not be asked: the change is taken back. -/
def giveUp (i : Nat) (change : Change) (error : AppError) : State :=
  { s with table := change.undo s.table }.finish i (some change.application) (.error error)

/-- The connection is there: the row changes, and the file is made from the rows as they are now. -/
def connected (i : Nat) (change : Change) (server : Uuid) : State :=
  match change.apply s.table with
  | .error e => s.finish i (some change.application) (.error e)
  | .ok table =>
    match syncNode registry table change.application with
    | .error e => giveUp { s with table := table } i change e
    | .ok file => { s with table := table }.set i ⟨change, server, .syncing file⟩

/-- A call whose write came through; an update reads its row once more. -/
def succeed (i : Nat) (change : Change) : State :=
  s.finish i (some change.application) <|
    match change with
    | .update before _ =>
      if (s.table.get before.id).isSome then .ok ()
      else .error (.notFound ("schedule " ++ before.id.display))
    | _ => .ok ()

inductive Op where
  | start (i : Nat) (request : Request)
  | connect (i : Nat) (error : Option AppError)
  | land (i : Nat)
  | answer (i : Nat) (failure : Option WriteFailure)

/-- A step of call `i`; none of what it is not ready for happens. -/
def next : Op → State
  | .start i request => if (s.running i).isSome then s else start registry s i request
  | .connect i error =>
    match s.running i with
    | some ⟨change, server, .connecting⟩ =>
      match error with
      | some e => s.finish i (some change.application) (.error e)
      | none => connected registry s i change server
    | _ => s
  | .land i =>
    match s.running i with
    | some ⟨change, server, .syncing file⟩ =>
      { s with cron := Function.update s.cron change.application file }.set i ⟨change, server, .landed⟩
    | _ => s
  | .answer i failure =>
    match s.running i, failure with
    | some ⟨change, _, .landed⟩, none => succeed s i change
    | some ⟨change, server, .landed⟩, some failure => giveUp s i change (failure.error server)
    | some ⟨change, server, .syncing _⟩, some failure => giveUp s i change (failure.error server)
    | _, _ => s

/-- `Uuid::new_v4` gives no identifier that is in use. -/
def Op.Fresh : Op → Prop
  | .start _ (.create _ _ newId _) => (∀ row ∈ s.table.rows, row.id ≠ newId) ∧
      ∀ i r, s.running i = some r → r.change.row.id ≠ newId
  | _ => True

def Step (op : Op) (s' : State) : Prop := op.Fresh s ∧ s' = next registry s op

end VibeSsh.Schedules
