import VibeSsh.Models

/-! # Schedules and the cron file

The rows of `application_schedules`, the checks a schedule passes before it is stored, and the text
of the cron file an application gets on its Node: a line per enabled schedule, in the order the rows
are listed, and one for the disk check. -/

namespace VibeSsh.Schedules

open Lib

inductive ScheduleAction where
  | start
  | stop
  | restart
  deriving DecidableEq

def ScheduleAction.asStr : ScheduleAction → Text
  | .start => "start"
  | .stop => "stop"
  | .restart => "restart"

structure ScheduleInput where
  name : Text
  cron : Text
  action : ScheduleAction
  enabled : Bool
  deriving DecidableEq

/-- A row; `createdAt` is the RFC 3339 text the rows are ordered by. -/
structure ApplicationSchedule extends ScheduleInput where
  id : Uuid
  applicationId : Uuid
  createdAt : Text
  deriving DecidableEq

/-! ## Validation -/

/-- The ranges of the five cron fields, in order. -/
def fields : List (Text × Nat × Nat) :=
  [("minute", 0, 59), ("hour", 0, 23), ("day of month", 1, 31),
    ("month", 1, 12), ("day of week", 0, 7)]

/-- A number of a range: digits only, without the sign `parse` would take. -/
def number (min max : Nat) (text : Text) : Option Nat :=
  if text.isEmpty || !text.all Char.isDigit then none
  else (Text.parseUnsigned (2 ^ 32 - 1) text).filter fun value => min ≤ value && value ≤ max

/-- A step is read by `parse` alone, so it may carry a sign. -/
def validStep (max : Nat) (step : Text) : Bool :=
  (Text.parseUnsigned (2 ^ 32 - 1) step).any fun step => step != 0 && step ≤ max

def validRange (min max : Nat) (range : Text) : Bool :=
  if range = "*" then true
  else
    match Text.splitOnce '-' range with
    | none => (number min max range).isSome
    | some (start, stop) =>
      (number min max start).any fun start => (number min max stop).any fun stop => start ≤ stop

/-- One item of a list: a range, with an optional step. -/
def validItem (min max : Nat) (item : Text) : Bool :=
  match Text.splitOnce '/' item with
  | none => validRange min max item
  | some (range, step) => validStep max step && validRange min max range

def validateField (field what : Text) (min max : Nat) : AppResult Unit :=
  if (field.splitOn ',').all (validItem min max) then .ok ()
  else .error (.invalidInput ("'" ++ field ++ "' isn't a valid " ++ what ++
    " - use numbers from " ++ Text.ofNat min ++ " to " ++ Text.ofNat max ++
    ", '*', ranges like 1-5, lists like 1,15 and steps like */2"))

def validateFields : List (Text × Text × Nat × Nat) → AppResult Unit
  | [] => .ok ()
  | (field, what, min, max) :: rest => do
    validateField field what min max
    validateFields rest

/-- The expression with single spaces. -/
def validateCron (expression : Text) : AppResult Text :=
  let words := Text.words expression
  if words.length ≠ 5 then
    .error (.invalidInput
      (("a schedule needs five fields - minute, hour, day of month, month, day of week - " ++
        "and '").toList ++ expression ++ "' has " ++ Text.ofNat words.length))
  else do
    validateFields (words.zip fields)
    .ok (Text.join [' '] words)

def validateInput (input : ScheduleInput) : AppResult ScheduleInput :=
  let name := Text.trim input.name
  if name.isEmpty then .error (.invalidInput "give the schedule a name")
  else if 80 < name.length then
    .error (.invalidInput "a schedule name can be at most 80 characters")
  else do
    let cron ← validateCron input.cron
    .ok { input with name := name, cron := cron }

/-! ## The file -/

/-- A disk limit as the Node enforces it. -/
structure DiskCheck where
  limitBytes : UInt64
  directory : Text
  deriving DecidableEq

def runnerPath : Text := "/usr/local/lib/vibessh/schedule-runner"

def diskCheckEvery : Text := "*/5 * * * *"

def cronSafeDirectory (directory : Text) : AppResult Text :=
  let fits := Text.startsWith "/" directory && (Text.breakOn ".." directory).isNone &&
    directory.all fun c => c.isAlphanum || c ∈ ['/', '.', '_', '-']
  if fits then .ok directory
  else .error (.invalidInput
    ("a disk limit needs a working directory made of letters, digits and / . _ - only, and '" ++
      directory ++ "' isn't"))

def scheduleLine (application : Uuid) (schedule : ApplicationSchedule) : Text :=
  schedule.cron ++ " root " ++ runnerPath ++ " run " ++ application.display ++ [' '] ++
    schedule.id.display ++ [' '] ++ schedule.action.asStr ++ ['\n']

def diskLine (application : Uuid) (disk : DiskCheck) : Text :=
  diskCheckEvery ++ " root " ++ runnerPath ++ " diskcheck " ++ application.display ++
    [' '] ++ Text.ofNat disk.limitBytes.toNat ++ [' '] ++ disk.directory ++ ['\n']

def buildCronFile (application : Uuid) (schedules : List ApplicationSchedule)
    (disk : Option DiskCheck) : Text :=
  "# Managed by VibeSSH for Application " ++ application.display ++
    ". Edits here are overwritten.\nSHELL=/bin/sh\n" ++
    "PATH=/usr/local/sbin:/usr/local/bin:/usr/sbin:/usr/bin:/sbin:/bin\n" ++
    (schedules.filter (·.enabled)).flatMap (scheduleLine application) ++
    (disk.map (diskLine application)).getD []

/-- What the Node is to hold: no file rather than one with nothing in it. -/
def cronFile (application : Uuid) (schedules : List ApplicationSchedule)
    (disk : Option DiskCheck) : Option Text :=
  if !schedules.any (·.enabled) && disk.isNone then none
  else some (buildCronFile application schedules disk)

end VibeSsh.Schedules
