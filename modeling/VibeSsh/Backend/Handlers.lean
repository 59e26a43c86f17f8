import VibeSsh.Backend.Schema

/-! # The team handlers

`teams.rs`, `roles.rs` and `team_applications.rs`, with `authorize.rs`: every handler that writes a
team's tables, and the listing that decides what a member sees. A handler is a program of one
statement at a time; a transaction is one statement, at its commit. The identifiers a handler
generates are arguments. Audit events and the revocations owed to Nodes are left out. -/

namespace VibeSsh.Backend

open Lib

abbrev Handler (α : Type) := Prog Database ApiError α

def authUser (userId : Uuid) : Handler Unit := do
  let user ← Prog.select fun db => db.users.find? (·.id = userId)
  match user with
  | none => .fail (.unauthorized (.new "account_gone" "account no longer exists"))
  | some user =>
    Prog.require (!user.mustChangePassword) (.passwordChangeRequired (.new
      "password_change_required"
      "set a new password before using this account - the one it has was set by somebody else"))

def teamForMember (teamId userId : Uuid) : Handler Team := do
  let team ← Prog.select fun db => db.teams.find? fun t => t.id = teamId ∧ db.isMember t.id userId
  match team with
  | none => .fail (.notFound (.new "team_not_found" "team not found"))
  | some team => pure team

/-! ## `authorize.rs` -/

def authorize (teamId userId : Uuid) (permission : Text) : Handler Unit := do
  let granted ← Prog.select fun db => db.holdsAny teamId userId [permission]
  Prog.require granted (.forbidden ⟨"missing_permission",
    "missing permission: " ++ permission, [("permission", permission)]⟩)

def authorizeAny (teamId userId : Uuid) (wanted : List Text) : Handler Unit := do
  let granted ← Prog.select fun db => db.holdsAny teamId userId wanted
  let keys := Text.join ", " wanted
  Prog.require granted (.forbidden ⟨"missing_one_of_permissions",
    "missing permission: one of " ++ keys, [("permissions", keys)]⟩)

def effectivePermissions (teamId userId : Uuid) : Handler (List Text) :=
  Prog.select fun db => db.effectivePermissions teamId userId

def ensureCanGrant (teamId actorId : Uuid) (desired : List Text) : Handler Unit := do
  let held ← effectivePermissions teamId actorId
  match desired.find? fun permission => !held.contains permission with
  | some missing => .fail (.forbidden ⟨"cannot_grant_unheld_permission",
      "you can't grant a permission you don't have: " ++ missing,
      [("permission", missing)]⟩)
  | none => pure ()

/-! ## Teams -/

def maxTeamNameLen : Nat := 100

def ownerRoleName : Text := "Owner"

/-- The checks `create_team` makes of a name, and the name it stores. -/
def validateTeamName (name : Text) : ApiResult Text :=
  let name := Text.trim name
  if name.isEmpty then .error (.invalidInput (.new "team_name_empty" "team name cannot be empty"))
  else if maxTeamNameLen < name.length then
    .error (.invalidInput ⟨"team_name_too_long",
      "team name must be at most 100 characters", [("max", "100")]⟩)
  else .ok name

variable (catalogue : Catalogue)

def insertTeam (team : Team) (ownerRoleId : Uuid) (db : Database) :
    ApiResult (Database × Team) :=
  if db.teams.any (·.id = team.id) ∨ !db.users.any (·.id = team.ownerId) ∨ db.hasRole ownerRoleId
  then .error databaseError
  else .ok ({ db with
    teams := team :: db.teams
    teamMembers := ⟨team.id, team.ownerId⟩ :: db.teamMembers
    roles := ⟨ownerRoleId, team.id, ownerRoleName, some
      "Full control over the team - every permission, cannot be edited or deleted.", true⟩
      :: db.roles
    rolePermissions := catalogue.keys.map (⟨ownerRoleId, ·⟩) ++ db.rolePermissions
    memberRoles := ⟨team.id, team.ownerId, ownerRoleId⟩ :: db.memberRoles }, team)

def createTeam (userId : Uuid) (name : Text) (teamId ownerRoleId : Uuid) :
    Handler Team := do
  authUser userId
  let name ← Prog.ofExcept (validateTeamName name)
  Prog.transact (insertTeam catalogue ⟨teamId, name, userId⟩ ownerRoleId)

def alreadyATeamMember : ApiError :=
  .conflict (.new "already_a_team_member" "this user is already a member of the team")

def notATeamMember : ApiError :=
  .notFound (.new "not_a_team_member" "that user isn't a member of this team")

def insertMember (teamId userId : Uuid) (db : Database) : ApiResult (Database × Unit) :=
  if db.isMember teamId userId then .error alreadyATeamMember
  else if !db.teams.any (·.id = teamId) ∨ !db.users.any (·.id = userId) then .error databaseError
  else .ok ({ db with teamMembers := ⟨teamId, userId⟩ :: db.teamMembers }, ())

/-- `trim().to_lowercase()`, as both `add_member` and `normalize_email` do. -/
def normalizeEmail (lower : Text.Lowercase) (email : Text) : Text :=
  (Text.trim email).flatMap lower.map

def addMember (lower : Text.Lowercase) (userId teamId : Uuid) (email : Text) : Handler Unit := do
  authUser userId
  let _ ← teamForMember teamId userId
  authorize teamId userId Permissions.teamMembersAdd
  let email := normalizeEmail lower email
  let target ← Prog.select fun db => db.users.find? (·.email = email)
  match target with
  | none => .fail (.notFound (.new "no_account_with_email" "no account with that email"))
  | some target => Prog.transact (insertMember teamId target.id)

def validateEmail (email : Text) : ApiResult Unit :=
  match Text.splitOnce '@' email with
  | none => .error (.invalidInput (.new "email_missing_at" "email must contain @"))
  | some (localPart, domain) =>
    if localPart.isEmpty || domain.isEmpty || !domain.contains '.' || email.any Text.isWhitespace
    then .error (.invalidInput (.new "email_invalid" "email is not a valid address"))
    else .ok ()

def maxDisplayNameLen : Nat := 100

def validateDisplayName (name : Text) : ApiResult Text :=
  let trimmed := Text.trim name
  if trimmed.isEmpty then
    .error (.invalidInput (.new "display_name_empty" "display name cannot be empty"))
  else if maxDisplayNameLen < trimmed.length then
    .error (.invalidInput ⟨"display_name_too_long",
      "display name must be at most 100 characters", [("max", "100")]⟩)
  else .ok trimmed

/-- The name given, or the local part of the address. -/
def provisionedDisplayName (email : Text) (displayName : Option Text) : ApiResult Text :=
  match (displayName.map Text.trim).filter fun name => !name.isEmpty with
  | some name => validateDisplayName name
  | none => validateDisplayName ((email.splitOn '@').headD "member")

def emailTakenAddAsMember : ApiError :=
  .conflict (.new "email_taken_add_as_member"
    "an account with this email already exists - add them as a member instead")

def roleNotFound : ApiError := .notFound (.new "role_not_found" "role not found")

/-- The transaction of `provision_member`; returns whether a role was assigned. -/
def insertProvisioned (user : User) (teamId : Uuid) (roleId : Option Uuid) (db : Database) :
    ApiResult (Database × Bool) :=
  if db.users.any fun u => u.id = user.id ∨ u.email = user.email then .error emailTakenAddAsMember
  else if !db.teams.any (·.id = teamId) ∨ db.isMember teamId user.id then .error databaseError
  else
    let db := { db with
      users := user :: db.users
      teamMembers := ⟨teamId, user.id⟩ :: db.teamMembers }
    match roleId with
    | none => .ok (db, false)
    | some roleId =>
      if !db.roles.any fun r => r.id = roleId ∧ r.teamId = teamId then .error roleNotFound
      else .ok ({ db with memberRoles := ⟨teamId, user.id, roleId⟩ :: db.memberRoles }, true)

/-- The role check of `provision_member`: what the role carries, if it is one of the team's. -/
def ensureCanGrantRole (teamId actorId : Uuid) : Option Uuid → Handler Unit
  | none => pure ()
  | some roleId => do
    let rolePermissions ← Prog.select fun db =>
      if db.roles.any fun r => r.id = roleId ∧ r.teamId = teamId then db.permissionsOf roleId
      else []
    ensureCanGrant teamId actorId rolePermissions

def provisionMember (lower : Text.Lowercase) (actorId teamId : Uuid) (email : Text)
    (displayName : Option Text) (roleId : Option Uuid) (newUserId : Uuid) : Handler Bool := do
  authUser actorId
  let _ ← teamForMember teamId actorId
  authorize teamId actorId Permissions.teamMembersAdd
  let email := normalizeEmail lower email
  let _ ← Prog.ofExcept (validateEmail email)
  let displayName ← Prog.ofExcept (provisionedDisplayName email displayName)
  let existing ← Prog.select fun db => db.users.any (·.email = email)
  Prog.require (!existing) emailTakenAddAsMember
  ensureCanGrantRole teamId actorId roleId
  Prog.transact (insertProvisioned ⟨newUserId, email, displayName, true⟩ teamId roleId)

def deleteMember (teamId userId : Uuid) (db : Database) : ApiResult (Database × Unit) :=
  if db.isMember teamId userId then
    .ok (db.deleteMembers fun m => m.teamId = teamId ∧ m.userId = userId, ())
  else .error notATeamMember

def removeMember (userId teamId targetUserId : Uuid) : Handler Unit := do
  authUser userId
  let team ← teamForMember teamId userId
  authorize teamId userId Permissions.teamMembersRemove
  Prog.require (targetUserId ≠ team.ownerId) (.conflict (.new "owner_cannot_be_removed"
    "the team owner can't be removed - transfer ownership first"))
  Prog.transact (deleteMember teamId targetUserId)

def deleteTeam (userId teamId : Uuid) : Handler Unit := do
  authUser userId
  let _ ← teamForMember teamId userId
  authorize teamId userId Permissions.teamDelete
  Prog.transact fun db => .ok (db.deleteTeam teamId, ())

/-! ## Roles -/

def maxRoleNameLen : Nat := 60

def roleForTeam (teamId roleId : Uuid) : Handler Role := do
  let role ← Prog.select fun db => db.roles.find? fun r => r.id = roleId ∧ r.teamId = teamId
  match role with
  | none => .fail roleNotFound
  | some role => pure role

def withPermissions (role : Role) : Handler (Role × List Text) :=
  Prog.select fun db => (role, (db.permissionsOf role.id).insertionSort (· ≤ ·))

def eqIgnoreAsciiCase (a b : Text) : Bool := a.map Char.toLower == b.map Char.toLower

def validateRoleName (name : Text) : ApiResult Text :=
  let trimmed := Text.trim name
  if trimmed.isEmpty then
    .error (.invalidInput (.new "role_name_empty" "role name cannot be empty"))
  else if maxRoleNameLen < trimmed.length then
    .error (.invalidInput ⟨"role_name_too_long",
      "role name must be at most 60 characters", [("max", "60")]⟩)
  else if eqIgnoreAsciiCase trimmed ownerRoleName then
    .error (.invalidInput ⟨"role_name_reserved",
      "\"Owner\" is reserved for the built-in owner role",
      [("name", ownerRoleName)]⟩)
  else .ok trimmed

def validatePermissionKeys (keys : List Text) : ApiResult Unit :=
  match keys.find? fun key => !catalogue.isKnownPermission key with
  | some key => .error (.invalidInput ⟨"unknown_permission",
      "unknown permission: " ++ key, [("permission", key)]⟩)
  | none => .ok ()

/-- The first of each key, in order. -/
def dedupePermissions (keys : List Text) : List Text := keys.reverse.dedup.reverse

def roleNameTaken : ApiError :=
  .conflict (.new "role_name_taken" "a role with this name already exists on this team")

def insertRole (role : Role) (permissions : List Text) (db : Database) :
    ApiResult (Database × Unit) :=
  if db.roles.any fun r => r.id = role.id ∨ r.teamId = role.teamId ∧ r.name = role.name then
    .error roleNameTaken
  else if !db.teams.any (·.id = role.teamId) then .error databaseError
  else .ok ({ db with
    roles := role :: db.roles
    rolePermissions := permissions.map (⟨role.id, ·⟩) ++ db.rolePermissions }, ())

/-- What `create_role` and `update_role` check of a name and a set of permissions, and store. -/
def roleBody (name : Text) (permissions : List Text) :
    ApiResult (Text × List Text) := do
  let name ← validateRoleName name
  let _ ← validatePermissionKeys catalogue permissions
  return (name, dedupePermissions permissions)

def createRole (userId teamId : Uuid) (name : Text)
    (description : Option Text) (permissions : List Text) (roleId : Uuid) :
    Handler (Role × List Text) := do
  authUser userId
  let _ ← teamForMember teamId userId
  authorize teamId userId Permissions.teamRolesManage
  let body ← Prog.ofExcept (roleBody catalogue name permissions)
  ensureCanGrant teamId userId body.2
  let role : Role := ⟨roleId, teamId, body.1, description, false⟩
  Prog.transact (insertRole role body.2)
  withPermissions role

def replaceRole (roleId : Uuid) (name : Text) (description : Option Text)
    (permissions : List Text) (db : Database) : ApiResult (Database × Unit) :=
  match db.roles.find? (·.id = roleId) with
  | none => if permissions.isEmpty then .ok (db, ()) else .error databaseError
  | some role =>
    if db.roles.any fun r => r.id ≠ roleId ∧ r.teamId = role.teamId ∧ r.name = name then
      .error roleNameTaken
    else .ok ({ db with
      roles := db.roles.map fun r => if r.id = roleId then { r with name, description } else r
      rolePermissions := permissions.map (⟨roleId, ·⟩) ++
        db.rolePermissions.filter (·.roleId ≠ roleId) }, ())

def updateRole (userId teamId roleId : Uuid) (name : Text)
    (description : Option Text) (permissions : List Text) : Handler (Role × List Text) := do
  authUser userId
  let _ ← teamForMember teamId userId
  authorize teamId userId Permissions.teamRolesManage
  let role ← roleForTeam teamId roleId
  Prog.require (!role.isSystem) (.forbidden (.new "owner_role_immutable"
    "the built-in owner role cannot be modified"))
  let body ← Prog.ofExcept (roleBody catalogue name permissions)
  ensureCanGrant teamId userId body.2
  Prog.transact (replaceRole roleId body.1 description body.2)
  withPermissions ⟨roleId, teamId, body.1, description, false⟩

def deleteRole (userId teamId roleId : Uuid) : Handler Unit := do
  authUser userId
  let _ ← teamForMember teamId userId
  authorize teamId userId Permissions.teamRolesManage
  let role ← roleForTeam teamId roleId
  Prog.require (!role.isSystem) (.forbidden (.new "owner_role_undeletable"
    "the built-in owner role cannot be deleted"))
  Prog.transact fun db => .ok (db.deleteRoles (·.id = roleId), ())

def insertMemberRole (teamId userId roleId : Uuid) (db : Database) : ApiResult (Database × Unit) :=
  if db.memberRoles.contains ⟨teamId, userId, roleId⟩ then
    .error (.conflict (.new "role_already_assigned" "this member already has that role"))
  else if !db.isMember teamId userId ∨ !db.hasRole roleId then .error databaseError
  else .ok ({ db with memberRoles := ⟨teamId, userId, roleId⟩ :: db.memberRoles }, ())

def assignRole (userId teamId targetUserId roleId : Uuid) : Handler Unit := do
  authUser userId
  let _ ← teamForMember teamId userId
  authorizeAny teamId userId [Permissions.teamRolesManage, Permissions.teamRolesAssign]
  let role ← roleForTeam teamId roleId
  let rolePermissions ← Prog.select fun db => db.permissionsOf role.id
  ensureCanGrant teamId userId rolePermissions
  let targetIsMember ← Prog.select fun db => db.isMember teamId targetUserId
  Prog.require targetIsMember notATeamMember
  Prog.transact (insertMemberRole teamId targetUserId roleId)

def deleteMemberRole (teamId userId roleId : Uuid) (db : Database) : ApiResult (Database × Unit) :=
  if db.memberRoles.contains ⟨teamId, userId, roleId⟩ then
    .ok ({ db with memberRoles := db.memberRoles.filter (· ≠ ⟨teamId, userId, roleId⟩) }, ())
  else .error (.notFound (.new "role_not_assigned" "that member doesn't have that role"))

def unassignRole (userId teamId targetUserId roleId : Uuid) : Handler Unit := do
  authUser userId
  let team ← teamForMember teamId userId
  authorizeAny teamId userId [Permissions.teamRolesManage, Permissions.teamRolesAssign]
  let role ← roleForTeam teamId roleId
  Prog.require (!(role.isSystem && targetUserId = team.ownerId)) (.conflict (.new
    "owner_role_unassignable" "the owner's built-in role can't be unassigned"))
  Prog.transact (deleteMemberRole teamId targetUserId roleId)

/-- `backfill_system_role_permissions`, run at start-up before any request is served. -/
def backfillSystemRolePermissions (db : Database) : Database :=
  let wanted := (db.roles.filter (·.isSystem)).flatMap fun r =>
    catalogue.keys.map fun key => (⟨r.id, key⟩ : RolePermission)
  { db with
    rolePermissions := (wanted.filter fun rp => !db.rolePermissions.contains rp).dedup ++
      db.rolePermissions }

end VibeSsh.Backend
