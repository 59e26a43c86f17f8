import VibeSsh.Backend.Handlers

/-! # Shared applications

`team_applications.rs`: publishing an application to a team, its access list, and what a member is
shown; and the requests of the team endpoints that write, as one type. -/

namespace VibeSsh.Backend

open Lib

/-! ## What a member sees -/

def Database.sees (db : Database) (userId : Uuid) (application : TeamApplication) : Bool :=
  application.pushedBy = some userId ||
    !db.applicationMembers.any (·.applicationId = application.id) ||
    db.applicationMembers.any fun am => am.applicationId = application.id ∧ am.userId = userId

def listApplications (userId teamId : Uuid) : Handler (List TeamApplication) := do
  authUser userId
  let _ ← teamForMember teamId userId
  Prog.select fun db => (db.teamApplications.filter fun a =>
    a.teamId = teamId ∧ db.sees userId a).insertionSort fun a b => a.name ≤ b.name

/-! ## The access list -/

def applicationNotShared : ApiError :=
  .notFound (.new "application_not_shared" "that application is not shared with this team")

def applicationMemberNotAdded : ApiError :=
  .notFound (.new "application_member_not_added" "that member could not already see this application")

def applicationInTeam (teamId applicationId : Uuid) : Handler Unit := do
  let shared ← Prog.select fun db =>
    db.teamApplications.any fun a => a.id = applicationId ∧ a.teamId = teamId
  Prog.require shared applicationNotShared

def applicationGrant (teamId actorId : Uuid) (requested : List Text) : Handler (List Text) := do
  match requested.find? fun key => !Permissions.applicationScoped.contains key with
  | some unscoped => .fail (.invalidInput ⟨"permission_not_application_scoped",
      unscoped ++ " can't be granted on one application - give it through a role",
      [("permission", unscoped)]⟩)
  | none =>
    let granted := (requested.insertionSort (· ≤ ·)).dedup
    ensureCanGrant teamId actorId granted
    pure granted

def insertApplicationMember (row : ApplicationMember) (db : Database) :
    ApiResult (Database × Unit) :=
  if db.applicationMembers.any fun am =>
      am.applicationId = row.applicationId ∧ am.userId = row.userId then
    .error (.conflict (.new "application_member_exists"
      "that member can already see this application"))
  else if !db.teamApplications.any (·.id = row.applicationId) ∨ !db.isMember row.teamId row.userId
      ∨ !row.permissions.all Permissions.applicationScoped.contains then
    .error databaseError
  else .ok ({ db with applicationMembers := row :: db.applicationMembers }, ())

variable (userId teamId applicationId targetUserId : Uuid)

def addApplicationMember
    (permissions : List Text) : Handler Unit := do
  authUser userId
  authorize teamId userId Permissions.applicationsCreate
  applicationInTeam teamId applicationId
  let targetIsMember ← Prog.select fun db => db.isMember teamId targetUserId
  Prog.require targetIsMember notATeamMember
  let granted ← applicationGrant teamId userId permissions
  Prog.transact (insertApplicationMember
    ⟨applicationId, teamId, targetUserId, some userId, granted⟩)

def ApplicationMember.is (am : ApplicationMember) (applicationId teamId userId : Uuid) : Bool :=
  am.applicationId = applicationId ∧ am.teamId = teamId ∧ am.userId = userId

def updateApplicationMember (applicationId teamId userId : Uuid) (permissions : List Text)
    (db : Database) : ApiResult (Database × Unit) :=
  if !db.applicationMembers.any (·.is applicationId teamId userId) then
    .error applicationMemberNotAdded
  else if !permissions.all Permissions.applicationScoped.contains then .error databaseError
  else .ok ({ db with
    applicationMembers := db.applicationMembers.map fun am =>
      if am.is applicationId teamId userId then { am with permissions } else am }, ())

def setMemberPermissions
    (permissions : List Text) : Handler Unit := do
  authUser userId
  authorize teamId userId Permissions.applicationsCreate
  let granted ← applicationGrant teamId userId permissions
  Prog.transact (updateApplicationMember applicationId teamId targetUserId granted)

def deleteApplicationMember (applicationId teamId userId : Uuid) (db : Database) :
    ApiResult (Database × Unit) :=
  if db.applicationMembers.any (·.is applicationId teamId userId) then
    .ok ({ db with
      applicationMembers := db.applicationMembers.filter fun am =>
        !am.is applicationId teamId userId }, ())
  else .error applicationMemberNotAdded

def removeApplicationMember : Handler Unit := do
  authUser userId
  authorize teamId userId Permissions.applicationsCreate
  Prog.transact (deleteApplicationMember applicationId teamId targetUserId)

/-! ## Publishing -/

def maxNameLen : Nat := 100

def maxPathLen : Nat := 512

def maxEntries : Nat := 200

def bounded (value : Text) (max : Nat) : Option Text :=
  let trimmed := Text.trim value
  if trimmed.isEmpty || max < trimmed.length then none else some trimmed

/-- `bounded(…).ok_or_else(…)`: `what` must be between 1 and `max` characters. -/
def boundedField (code : String) (what : String) (value : Text) (max : Nat) : ApiResult Text :=
  match bounded value max with
  | some value => .ok value
  | none => .error (.invalidInput ⟨code.toList, "the " ++ what.toList ++
      " must be between 1 and " ++ Text.ofNat max ++ " characters",
      [("max", Text.ofNat max)]⟩)

structure PushTeamApplicationRequest where
  localId : Uuid
  teamServerId : Option Uuid
  name : Text
  blueprintId : Text
  runtimeType : Text
  workingDirectory : Text
  ports : List Text
  environment : List Text
  deriving DecidableEq

/-- The checks of a push, and the row it stores. -/
def pushedRow (userId teamId newId : Uuid) (body : PushTeamApplicationRequest) :
    ApiResult TeamApplication := do
  let name ← boundedField "application_name_invalid" "application name" body.name maxNameLen
  let blueprintId ←
    boundedField "application_blueprint_invalid" "blueprint" body.blueprintId maxNameLen
  let runtimeType ←
    boundedField "application_runtime_invalid" "runtime type" body.runtimeType maxNameLen
  let workingDirectory ←
    boundedField "application_directory_invalid" "working directory" body.workingDirectory
      maxPathLen
  if maxEntries < body.ports.length ∨ maxEntries < body.environment.length then
    .error (.invalidInput ⟨"application_too_many_entries",
      "an application may project at most 200 ports or variables",
      [("max", "200")]⟩)
  else .ok ⟨newId, teamId, body.teamServerId, body.localId, name, blueprintId, runtimeType,
    workingDirectory, body.ports, body.environment, some userId⟩

/-- `INSERT … ON CONFLICT (team_id, local_id) DO UPDATE`: an update keeps the row's identifier. -/
def upsertApplication (row : TeamApplication) (db : Database) :
    ApiResult (Database × TeamApplication) :=
  match db.teamApplications.find? fun a => a.teamId = row.teamId ∧ a.localId = row.localId with
  | some old => .ok ({ db with
      teamApplications := db.teamApplications.map fun a =>
        if a.id = old.id then { row with id := old.id } else a }, { row with id := old.id })
  | none =>
    if db.teamApplications.any (·.id = row.id) ∨ !db.teams.any (·.id = row.teamId) then
      .error databaseError
    else .ok ({ db with teamApplications := row :: db.teamApplications }, row)

def pushApplication (userId teamId : Uuid) (body : PushTeamApplicationRequest) (newId : Uuid) :
    Handler TeamApplication := do
  authUser userId
  authorize teamId userId Permissions.applicationsCreate
  let row ← Prog.ofExcept (pushedRow userId teamId newId body)
  Prog.transact (upsertApplication row)

def deleteApplication (teamId applicationId : Uuid) (db : Database) :
    ApiResult (Database × Unit) :=
  if db.teamApplications.any fun a => a.id = applicationId ∧ a.teamId = teamId then
    .ok (db.deleteApplications fun a => a.id = applicationId ∧ a.teamId = teamId, ())
  else .error applicationNotShared

def removeApplication (userId teamId applicationId : Uuid) : Handler Unit := do
  authUser userId
  authorize teamId userId Permissions.applicationsDelete
  Prog.transact (deleteApplication teamId applicationId)

/-! ## Requests -/

/-- A request that may write, with the identifiers its handler will generate. -/
inductive Request where
  | createTeam (name : Text) (teamId ownerRoleId : Uuid)
  | addMember (teamId : Uuid) (email : Text)
  | provisionMember (teamId : Uuid) (email : Text) (displayName : Option Text)
    (roleId : Option Uuid) (newUserId : Uuid)
  | removeMember (teamId targetUserId : Uuid)
  | deleteTeam (teamId : Uuid)
  | createRole (teamId : Uuid) (name : Text) (description : Option Text) (permissions : List Text)
    (roleId : Uuid)
  | updateRole (teamId roleId : Uuid) (name : Text) (description : Option Text)
    (permissions : List Text)
  | deleteRole (teamId roleId : Uuid)
  | assignRole (teamId targetUserId roleId : Uuid)
  | unassignRole (teamId targetUserId roleId : Uuid)
  | pushApplication (teamId : Uuid) (body : PushTeamApplicationRequest) (newId : Uuid)
  | removeApplication (teamId applicationId : Uuid)
  | addApplicationMember (teamId applicationId targetUserId : Uuid) (permissions : List Text)
  | setMemberPermissions (teamId applicationId targetUserId : Uuid) (permissions : List Text)
  | removeApplicationMember (teamId applicationId targetUserId : Uuid)
  deriving DecidableEq

def handle (catalogue : Catalogue) (lower : Text.Lowercase) (actor : Uuid) :
    Request → Handler Unit
  | .createTeam name teamId ownerRoleId => do
    let _ ← createTeam catalogue actor name teamId ownerRoleId
  | .addMember teamId email => addMember lower actor teamId email
  | .provisionMember teamId email displayName roleId newUserId => do
    let _ ← provisionMember lower actor teamId email displayName roleId newUserId
  | .removeMember teamId targetUserId => removeMember actor teamId targetUserId
  | .deleteTeam teamId => deleteTeam actor teamId
  | .createRole teamId name description permissions roleId => do
    let _ ← createRole catalogue actor teamId name description permissions roleId
  | .updateRole teamId roleId name description permissions => do
    let _ ← updateRole catalogue actor teamId roleId name description permissions
  | .deleteRole teamId roleId => deleteRole actor teamId roleId
  | .assignRole teamId targetUserId roleId => assignRole actor teamId targetUserId roleId
  | .unassignRole teamId targetUserId roleId => unassignRole actor teamId targetUserId roleId
  | .pushApplication teamId body newId => do
    let _ ← pushApplication actor teamId body newId
  | .removeApplication teamId applicationId => removeApplication actor teamId applicationId
  | .addApplicationMember teamId applicationId targetUserId permissions =>
    addApplicationMember actor teamId applicationId targetUserId permissions
  | .setMemberPermissions teamId applicationId targetUserId permissions =>
    setMemberPermissions actor teamId applicationId targetUserId permissions
  | .removeApplicationMember teamId applicationId targetUserId =>
    removeApplicationMember actor teamId applicationId targetUserId

def Request.generated : Request → List Uuid
  | .createTeam _ teamId ownerRoleId => [teamId, ownerRoleId]
  | .provisionMember _ _ _ _ newUserId => [newUserId]
  | .createRole _ _ _ _ roleId => [roleId]
  | .pushApplication _ _ newId => [newId]
  | _ => []

end VibeSsh.Backend
