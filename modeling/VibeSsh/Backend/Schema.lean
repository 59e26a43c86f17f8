import VibeSsh.Basic
import VibeSsh.Lib.Prog

/-! # The backend's team tables

The tables of migrations 0001 to 0017 behind teams, roles and shared applications, with the keys,
references and cascades the statements run into; the permission catalogue; and the backend's own
errors. Rows no modelled statement reads or writes are left out, as are timestamps. -/

namespace VibeSsh.Backend

open Lib

/-! ## Errors -/

/-- `Detail`; the slots of the translated sentence are kept as text. -/
structure Detail where
  code : Text
  message : Text
  params : List (Text × Text)
  deriving DecidableEq

def Detail.new (code message : String) : Detail := ⟨code.toList, message.toList, []⟩

inductive ApiError where
  | invalidInput (detail : Detail)
  | unauthorized (detail : Detail)
  | forbidden (detail : Detail)
  | conflict (detail : Detail)
  | tooManyRequests (detail : Detail)
  | passwordChangeRequired (detail : Detail)
  | notFound (detail : Detail)
  | internal (message : Text)
  deriving DecidableEq

abbrev ApiResult := Except ApiError

/-- A statement the database refuses, up to its own words. -/
def databaseError : ApiError := .internal "database error"

/-! ## Permissions -/

namespace Permissions

def teamDelete : Text := "team.delete"
def teamMembersAdd : Text := "team.members.add"
def teamMembersRemove : Text := "team.members.remove"
def teamRolesManage : Text := "team.roles.manage"
def teamRolesAssign : Text := "team.roles.assign"
def applicationsCreate : Text := "applications.create"
def applicationsLifecycle : Text := "applications.lifecycle"
def applicationsConsole : Text := "applications.console"
def applicationsDelete : Text := "applications.delete"
def applicationsFilesRead : Text := "applications.files.read"
def applicationsFilesWrite : Text := "applications.files.write"

def applicationScoped : List Text :=
  [applicationsLifecycle, applicationsConsole, applicationsFilesRead, applicationsFilesWrite]

end Permissions

/-- A build's permission catalogue. -/
structure Catalogue where
  keys : List Text
  nodup : keys.Nodup

open Permissions in
def allPermissions : Catalogue where
  keys := ["team.view", "team.update", teamDelete, teamMembersAdd, teamMembersRemove,
    teamRolesManage, teamRolesAssign, "audit.view", "servers.manage",
    "applications.view", applicationsCreate, applicationsLifecycle, applicationsConsole,
    applicationsDelete, "applications.config", "applications.ports",
    applicationsFilesRead, applicationsFilesWrite, "applications.backups",
    "applications.databases", "node.terminal", "node.firewall",
    "node.services", "node.software", "node.network"]
  nodup := by decide +kernel

def Catalogue.isKnownPermission (catalogue : Catalogue) (key : Text) : Bool :=
  catalogue.keys.contains key

/-! ## Rows -/

structure User where
  id : Uuid
  email : Text
  displayName : Text
  mustChangePassword : Bool
  deriving DecidableEq

structure Team where
  id : Uuid
  name : Text
  ownerId : Uuid
  deriving DecidableEq

structure TeamMember where
  teamId : Uuid
  userId : Uuid
  deriving DecidableEq

structure Role where
  id : Uuid
  teamId : Uuid
  name : Text
  description : Option Text
  isSystem : Bool
  deriving DecidableEq

structure RolePermission where
  roleId : Uuid
  permissionKey : Text
  deriving DecidableEq

structure MemberRole where
  teamId : Uuid
  userId : Uuid
  roleId : Uuid
  deriving DecidableEq

/-- A shared application's record; ports and environment are kept by their JSON texts. -/
structure TeamApplication where
  id : Uuid
  teamId : Uuid
  teamServerId : Option Uuid
  localId : Uuid
  name : Text
  blueprintId : Text
  runtimeType : Text
  workingDirectory : Text
  ports : List Text
  environment : List Text
  pushedBy : Option Uuid
  deriving DecidableEq

structure ApplicationMember where
  applicationId : Uuid
  teamId : Uuid
  userId : Uuid
  grantedBy : Option Uuid
  permissions : List Text
  deriving DecidableEq

structure Database where
  users : List User
  teams : List Team
  teamMembers : List TeamMember
  roles : List Role
  rolePermissions : List RolePermission
  memberRoles : List MemberRole
  teamApplications : List TeamApplication
  applicationMembers : List ApplicationMember
  deriving DecidableEq

namespace Database

def empty : Database := ⟨[], [], [], [], [], [], [], []⟩

/-! ## Queries -/

variable (db : Database)

def isMember (teamId userId : Uuid) : Bool := db.teamMembers.contains ⟨teamId, userId⟩

def hasRole (roleId : Uuid) : Bool := db.roles.any (·.id = roleId)

def permissionsOf (roleId : Uuid) : List Text :=
  (db.rolePermissions.filter (·.roleId = roleId)).map (·.permissionKey)

def heldKeys (teamId userId : Uuid) : List Text :=
  (db.memberRoles.filter fun mr => mr.teamId = teamId ∧ mr.userId = userId).flatMap
    fun mr => db.permissionsOf mr.roleId

/-- `SELECT DISTINCT … ORDER BY rp.permission_key`. -/
def effectivePermissions (teamId userId : Uuid) : List Text :=
  ((db.heldKeys teamId userId).insertionSort (· ≤ ·)).dedup

/-- The `EXISTS` of `authorize_any`; `authorize` asks for one key. -/
def holdsAny (teamId userId : Uuid) (permissions : List Text) : Bool :=
  (db.heldKeys teamId userId).any permissions.contains

/-! ## Cascades -/

/-- `DELETE FROM roles`, with what references the rows. -/
def deleteRoles (gone : Role → Bool) : Database :=
  let ids := (db.roles.filter gone).map (·.id)
  { db with
    roles := db.roles.filter fun r => !gone r
    rolePermissions := db.rolePermissions.filter fun rp => !ids.contains rp.roleId
    memberRoles := db.memberRoles.filter fun mr => !ids.contains mr.roleId }

/-- `DELETE FROM team_members`, with what references the rows. -/
def deleteMembers (gone : TeamMember → Bool) : Database :=
  { db with
    teamMembers := db.teamMembers.filter fun m => !gone m
    memberRoles := db.memberRoles.filter fun mr => !gone ⟨mr.teamId, mr.userId⟩
    applicationMembers := db.applicationMembers.filter fun am => !gone ⟨am.teamId, am.userId⟩ }

/-- `DELETE FROM team_applications`, with what references the rows. -/
def deleteApplications (gone : TeamApplication → Bool) : Database :=
  let ids := (db.teamApplications.filter gone).map (·.id)
  { db with
    teamApplications := db.teamApplications.filter fun a => !gone a
    applicationMembers := db.applicationMembers.filter fun am => !ids.contains am.applicationId }

/-- `DELETE FROM teams WHERE id = $1`, with what references the row. -/
def deleteTeam (teamId : Uuid) : Database :=
  (((({ db with teams := db.teams.filter (·.id ≠ teamId) } : Database).deleteRoles
    (·.teamId = teamId)).deleteMembers (·.teamId = teamId)).deleteApplications (·.teamId = teamId))

end Database

end VibeSsh.Backend
