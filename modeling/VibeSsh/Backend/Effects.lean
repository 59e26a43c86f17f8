import VibeSsh.Backend.SharedApplications

/-! # What a request changes

`Effect` lists, request by request, the one thing a handler writes and what its checks have found
before it does. A request handled alone changes nothing or has its effect (`effect_of_changes`). -/

namespace VibeSsh.Backend

open Lib Prog List Except

/-! ## Checks -/

variable {desired : List Text}

section

variable {db : Database} {teamId userId : Uuid}

theorem mem_effectivePermissions {p : Text} :
    p ∈ db.effectivePermissions teamId userId ↔ p ∈ db.heldKeys teamId userId := by
  rw [Database.effectivePermissions, mem_dedup, mem_insertionSort]

theorem reads_authUser (userId : Uuid) : (authUser userId).Reads := by
  refine (reads_select _).bind fun user => ?_
  cases user with
  | none => exact reads_fail _
  | some user => exact reads_require _ _

theorem reads_teamForMember (teamId userId : Uuid) : (teamForMember teamId userId).Reads := by
  refine (reads_select _).bind fun team => ?_
  cases team with
  | none => exact reads_fail _
  | some team => exact reads_ret team

theorem reads_authorize (teamId userId : Uuid) (permission : Text) :
    (authorize teamId userId permission).Reads :=
  (reads_select _).bind fun _ => reads_require _ _

theorem reads_authorizeAny (teamId userId : Uuid) (wanted : List Text) :
    (authorizeAny teamId userId wanted).Reads :=
  (reads_select _).bind fun _ => reads_require _ _

theorem reads_ensureCanGrant (teamId actorId : Uuid) (desired : List Text) :
    (ensureCanGrant teamId actorId desired).Reads := by
  refine (reads_select _).bind fun held => ?_
  split
  · exact reads_fail _
  · exact reads_ret ()

theorem reads_roleForTeam (teamId roleId : Uuid) : (roleForTeam teamId roleId).Reads := by
  refine (reads_select _).bind fun role => ?_
  cases role with
  | none => exact reads_fail _
  | some role => exact reads_ret role

theorem reads_applicationInTeam (teamId applicationId : Uuid) :
    (applicationInTeam teamId applicationId).Reads :=
  (reads_select _).bind fun _ => reads_require _ _

theorem reads_applicationGrant (teamId actorId : Uuid) (requested : List Text) :
    (applicationGrant teamId actorId requested).Reads := by
  unfold applicationGrant
  split
  · exact reads_fail _
  · exact (reads_ensureCanGrant _ _ _).bind fun _ => reads_ret _

/-- A grant goes through only if the one granting holds all of it. -/
theorem held_of_ensureCanGrant (h : ((ensureCanGrant teamId userId desired).exec db).1 = .ok ()) :
    ∀ p ∈ desired, p ∈ db.heldKeys teamId userId := by
  intro p hp
  by_contra hheld
  have hmissing : (desired.find? fun p => !(db.effectivePermissions teamId userId).contains p)
      ≠ none := by
    rw [Ne, List.find?_eq_none]
    intro hall
    exact hall p hp (by simpa [mem_effectivePermissions] using hheld)
  unfold ensureCanGrant at h
  rw [exec_bind] at h
  dsimp only [effectivePermissions, select, exec] at h
  split at h
  · cases h
  · next hnone => exact hmissing hnone

theorem reads_ensureCanGrantRole (teamId actorId : Uuid) (roleId : Option Uuid) :
    (ensureCanGrantRole teamId actorId roleId).Reads := by
  cases roleId with
  | none => exact reads_ret ()
  | some roleId => exact (reads_select _).bind fun _ => reads_ensureCanGrant _ _ _

theorem of_roleForTeam {roleId : Uuid} {role : Role}
    (h : ((roleForTeam teamId roleId).exec db).1 = .ok role) :
    role ∈ db.roles ∧ role.id = roleId ∧ role.teamId = teamId := by
  unfold roleForTeam at h
  rw [exec_bind] at h
  dsimp only [select, exec] at h
  split at h
  · cases h
  · next found hfound =>
    obtain rfl := ok.inj h
    have hprop := List.find?_some hfound
    exact ⟨mem_of_find?_eq_some hfound, by simpa using hprop⟩

theorem of_select_require {q : Database → Bool} {e : ApiError}
    (h : ((select q >>= fun found => require found e : Handler Unit).exec db).1 = .ok ()) :
    q db = true := by
  rw [exec_bind] at h
  dsimp only [select, exec, require] at h
  split at h
  · assumption
  · cases h

theorem held_of_applicationGrant {requested granted : List Text}
    (h : ((applicationGrant teamId userId requested).exec db).1 = .ok granted) :
    ∀ p ∈ granted, p ∈ db.heldKeys teamId userId := by
  unfold applicationGrant at h
  split at h
  · cases h
  · rw [exec_bind] at h
    split at h
    · next hexec =>
      obtain rfl := ok.inj h
      exact held_of_ensureCanGrant (congrArg Prod.fst hexec)
    · cases h

end

/-! ## Transactions

What each transaction that commits has found, and the tables it leaves. -/

variable {description : Option Text}

section

variable {db t : Database}

theorem tables_of_ok {s : Database} {α : Type} {x y : α}
    (h : (.ok (s, x) : ApiResult (Database × α)) = .ok (t, y)) : t = s :=
  (Prod.mk.inj (ok.inj h)).1.symm

theorem insertTeam_ok {catalogue : Catalogue} {team team' : Team} {ownerRoleId : Uuid}
    (h : insertTeam catalogue team ownerRoleId db = .ok (t, team')) :
    db.hasRole ownerRoleId = false ∧ t = { db with
      teams := team :: db.teams
      teamMembers := ⟨team.id, team.ownerId⟩ :: db.teamMembers
      roles := ⟨ownerRoleId, team.id, ownerRoleName, some
        "Full control over the team - every permission, cannot be edited or deleted.", true⟩
        :: db.roles
      rolePermissions := catalogue.keys.map (⟨ownerRoleId, ·⟩) ++ db.rolePermissions
      memberRoles := ⟨team.id, team.ownerId, ownerRoleId⟩ :: db.memberRoles } := by
  unfold insertTeam at h
  split_ifs at h
  · next hfree =>
    obtain ⟨rfl, -⟩ := Prod.mk.inj (ok.inj h)
    exact ⟨by simpa using (not_or.mp (not_or.mp hfree).2).2, rfl⟩

variable {teamId userId roleId applicationId : Uuid} {permissions : List Text}

theorem insertMember_ok (h : insertMember teamId userId db = .ok (t, ())) :
    t = { db with teamMembers := ⟨teamId, userId⟩ :: db.teamMembers } := by
  unfold insertMember at h
  split_ifs at h
  · exact tables_of_ok h

theorem insertProvisioned_ok {user : User} {roleId : Option Uuid} {assigned : Bool}
    (h : insertProvisioned user teamId roleId db = .ok (t, assigned)) :
    (∀ r ∈ roleId, ∃ role ∈ db.roles, role.id = r ∧ role.teamId = teamId) ∧ t = { db with
      users := user :: db.users
      teamMembers := ⟨teamId, user.id⟩ :: db.teamMembers
      memberRoles := roleId.toList.map (⟨teamId, user.id, ·⟩) ++ db.memberRoles } := by
  unfold insertProvisioned at h
  split_ifs at h
  cases roleId with
  | none =>
    obtain ⟨rfl, -⟩ := Prod.mk.inj (ok.inj h)
    exact ⟨by simp, rfl⟩
  | some r =>
    dsimp only at h
    split_ifs at h
    · next hrole =>
      obtain ⟨rfl, -⟩ := Prod.mk.inj (ok.inj h)
      refine ⟨fun r' hr' => ?_, rfl⟩
      obtain rfl := Option.mem_some_iff.mp hr'
      simpa using hrole

theorem deleteMember_ok (h : deleteMember teamId userId db = .ok (t, ())) :
    t = db.deleteMembers fun m => m.teamId = teamId ∧ m.userId = userId := by
  unfold deleteMember at h
  split at h
  · exact tables_of_ok h
  · cases h

theorem insertRole_ok {role : Role} (h : insertRole role permissions db = .ok (t, ())) :
    db.hasRole role.id = false ∧ t = { db with
      roles := role :: db.roles
      rolePermissions := permissions.map (⟨role.id, ·⟩) ++ db.rolePermissions } := by
  unfold insertRole at h
  split at h
  · cases h
  next hfree =>
  split at h
  · cases h
  · refine ⟨?_, tables_of_ok h⟩
    simp only [any_eq_true, decide_eq_true_eq, not_exists, not_and, not_or] at hfree
    simpa [Database.hasRole] using fun r hr => (hfree r hr).1

theorem replaceRole_ok {name : Text}
    (h : replaceRole roleId name description permissions db = .ok (t, ())) :
    t = db ∨ db.hasRole roleId = true ∧ t = { db with
      roles := db.roles.map fun r => if r.id = roleId then { r with name, description } else r
      rolePermissions := permissions.map (⟨roleId, ·⟩) ++
        db.rolePermissions.filter (·.roleId ≠ roleId) } := by
  unfold replaceRole at h
  split at h
  · split at h
    · exact .inl (tables_of_ok h)
    · cases h
  · next role hfind =>
    split_ifs at h
    · refine .inr ⟨?_, tables_of_ok h⟩
      have hid := List.find?_some hfind
      exact any_eq_true.mpr ⟨role, mem_of_find?_eq_some hfind, hid⟩

theorem insertMemberRole_ok (h : insertMemberRole teamId userId roleId db = .ok (t, ())) :
    db.hasRole roleId = true ∧
      t = { db with memberRoles := ⟨teamId, userId, roleId⟩ :: db.memberRoles } := by
  unfold insertMemberRole at h
  split_ifs at h
  · next hrefs =>
    refine ⟨?_, tables_of_ok h⟩
    simpa using (not_or.mp hrefs).2

theorem deleteMemberRole_ok (h : deleteMemberRole teamId userId roleId db = .ok (t, ())) :
    t = { db with memberRoles := db.memberRoles.filter (· ≠ ⟨teamId, userId, roleId⟩) } := by
  unfold deleteMemberRole at h
  split at h
  · exact tables_of_ok h
  · cases h

theorem insertApplicationMember_ok {row : ApplicationMember}
    (h : insertApplicationMember row db = .ok (t, ())) :
    t = { db with applicationMembers := row :: db.applicationMembers } := by
  unfold insertApplicationMember at h
  split_ifs at h
  · exact tables_of_ok h

theorem updateApplicationMember_ok
    (h : updateApplicationMember applicationId teamId userId permissions db = .ok (t, ())) :
    t = { db with
      applicationMembers := db.applicationMembers.map fun am =>
        if am.is applicationId teamId userId then { am with permissions } else am } := by
  unfold updateApplicationMember at h
  split_ifs at h
  · exact tables_of_ok h

theorem deleteApplicationMember_ok
    (h : deleteApplicationMember applicationId teamId userId db = .ok (t, ())) :
    t = { db with
      applicationMembers := db.applicationMembers.filter fun am =>
        !am.is applicationId teamId userId } := by
  unfold deleteApplicationMember at h
  split at h
  · exact tables_of_ok h
  · cases h

theorem upsertApplication_ok {row row' : TeamApplication}
    (h : upsertApplication row db = .ok (t, row')) :
    (∃ old ∈ db.teamApplications, old.teamId = row.teamId ∧ t = { db with
      teamApplications := db.teamApplications.map fun a =>
        if a.id = old.id then { row with id := old.id } else a }) ∨
      (∀ a ∈ db.teamApplications, a.id ≠ row.id) ∧
        t = { db with teamApplications := row :: db.teamApplications } := by
  unfold upsertApplication at h
  split at h
  · next old hfind =>
    have hkey := List.find?_some hfind
    simp only [decide_eq_true_eq] at hkey
    exact .inl ⟨old, mem_of_find?_eq_some hfind, hkey.1, tables_of_ok h⟩
  · split at h
    · cases h
    · next hfree =>
      refine .inr ⟨?_, tables_of_ok h⟩
      simpa using (not_or.mp hfree).1

theorem deleteApplication_ok (h : deleteApplication teamId applicationId db = .ok (t, ())) :
    t = db.deleteApplications fun a => a.id = applicationId ∧ a.teamId = teamId := by
  unfold deleteApplication at h
  split at h
  · exact tables_of_ok h
  · cases h

end

/-! ## Effects -/

/-- The transaction a request commits, and what its checks have found. -/
inductive Effect (catalogue : Catalogue) (db : Database) (actor : Uuid) :
    Request → Database → Prop where
  | createTeam {name stored : Text} {teamId ownerRoleId : Uuid} {team : Team} {t : Database} :
    insertTeam catalogue ⟨teamId, stored, actor⟩ ownerRoleId db = .ok (t, team) →
    Effect catalogue db actor (.createTeam name teamId ownerRoleId) t
  | addMember {teamId userId : Uuid} {email : Text} {t : Database} :
    insertMember teamId userId db = .ok (t, ()) →
    Effect catalogue db actor (.addMember teamId email) t
  | provisionMember {teamId : Uuid} {email : Text} {displayName : Option Text}
      {roleId : Option Uuid} {user : User} {assigned : Bool} {t : Database} :
    (∀ r ∈ roleId, (∃ role ∈ db.roles, role.id = r ∧ role.teamId = teamId) →
      ∀ p ∈ db.permissionsOf r, p ∈ db.heldKeys teamId actor) →
    insertProvisioned user teamId roleId db = .ok (t, assigned) →
    Effect catalogue db actor (.provisionMember teamId email displayName roleId user.id) t
  | removeMember {teamId targetUserId : Uuid} {t : Database} :
    deleteMember teamId targetUserId db = .ok (t, ()) →
    Effect catalogue db actor (.removeMember teamId targetUserId) t
  | deleteTeam {teamId : Uuid} :
    Effect catalogue db actor (.deleteTeam teamId) (db.deleteTeam teamId)
  | createRole {teamId roleId : Uuid} {name stored : Text} {description : Option Text}
      {permissions granted : List Text} {t : Database} :
    insertRole ⟨roleId, teamId, stored, description, false⟩ granted db = .ok (t, ()) →
    Effect catalogue db actor (.createRole teamId name description permissions roleId) t
  | updateRole {teamId roleId : Uuid} {name stored : Text} {description : Option Text}
      {permissions granted : List Text} {role : Role} {t : Database} :
    role ∈ db.roles → role.id = roleId → role.teamId = teamId →
    (∀ p ∈ granted, p ∈ db.heldKeys teamId actor) →
    replaceRole roleId stored description granted db = .ok (t, ()) →
    Effect catalogue db actor (.updateRole teamId roleId name description permissions) t
  | deleteRole {teamId roleId : Uuid} :
    Effect catalogue db actor (.deleteRole teamId roleId) (db.deleteRoles (·.id = roleId))
  | assignRole {teamId targetUserId roleId : Uuid} {t : Database} :
    (∀ p ∈ db.permissionsOf roleId, p ∈ db.heldKeys teamId actor) →
    insertMemberRole teamId targetUserId roleId db = .ok (t, ()) →
    Effect catalogue db actor (.assignRole teamId targetUserId roleId) t
  | unassignRole {teamId targetUserId roleId : Uuid} {t : Database} :
    deleteMemberRole teamId targetUserId roleId db = .ok (t, ()) →
    Effect catalogue db actor (.unassignRole teamId targetUserId roleId) t
  | pushApplication {teamId newId : Uuid} {body : PushTeamApplicationRequest}
      {row row' : TeamApplication} {t : Database} :
    pushedRow actor teamId newId body = .ok row → upsertApplication row db = .ok (t, row') →
    Effect catalogue db actor (.pushApplication teamId body newId) t
  | removeApplication {teamId applicationId : Uuid} {t : Database} :
    deleteApplication teamId applicationId db = .ok (t, ()) →
    Effect catalogue db actor (.removeApplication teamId applicationId) t
  | addApplicationMember {teamId applicationId targetUserId : Uuid}
      {permissions granted : List Text} {t : Database} :
    (∃ a ∈ db.teamApplications, a.id = applicationId ∧ a.teamId = teamId) →
    (∀ p ∈ granted, p ∈ db.heldKeys teamId actor) →
    insertApplicationMember ⟨applicationId, teamId, targetUserId, some actor, granted⟩ db
      = .ok (t, ()) →
    Effect catalogue db actor (.addApplicationMember teamId applicationId targetUserId permissions) t
  | setMemberPermissions {teamId applicationId targetUserId : Uuid}
      {permissions granted : List Text} {t : Database} :
    (∀ p ∈ granted, p ∈ db.heldKeys teamId actor) →
    updateApplicationMember applicationId teamId targetUserId granted db = .ok (t, ()) →
    Effect catalogue db actor (.setMemberPermissions teamId applicationId targetUserId permissions) t
  | removeApplicationMember {teamId applicationId targetUserId : Uuid} {t : Database} :
    deleteApplicationMember applicationId teamId targetUserId db = .ok (t, ()) →
    Effect catalogue db actor (.removeApplicationMember teamId applicationId targetUserId) t

/-- The requests that write the tables of shared applications, also through a cascade. -/
def Request.sharing : Request → Bool
  | .removeMember .. | .deleteTeam .. | .pushApplication .. | .removeApplication ..
  | .addApplicationMember .. | .setMemberPermissions .. | .removeApplicationMember .. => true
  | _ => false

section

variable {catalogue : Catalogue} {lower : Text.Lowercase} {actor : Uuid} {db t : Database}

variable {request : Request}

theorem Effect.applications_eq (h : Effect catalogue db actor request t)
    (hother : request.sharing = false) : t.teamApplications = db.teamApplications ∧
      t.applicationMembers = db.applicationMembers := by
  cases h with
  | createTeam htx =>
    obtain ⟨-, rfl⟩ := insertTeam_ok htx
    exact ⟨rfl, rfl⟩
  | addMember htx =>
    obtain rfl := insertMember_ok htx
    exact ⟨rfl, rfl⟩
  | provisionMember _ htx =>
    obtain ⟨-, rfl⟩ := insertProvisioned_ok htx
    exact ⟨rfl, rfl⟩
  | createRole htx =>
    obtain ⟨-, rfl⟩ := insertRole_ok htx
    exact ⟨rfl, rfl⟩
  | updateRole _ _ _ _ htx =>
    rcases replaceRole_ok htx with rfl | ⟨-, rfl⟩ <;> exact ⟨rfl, rfl⟩
  | deleteRole => exact ⟨rfl, rfl⟩
  | assignRole _ htx =>
    obtain ⟨-, rfl⟩ := insertMemberRole_ok htx
    exact ⟨rfl, rfl⟩
  | unassignRole htx =>
    obtain rfl := deleteMemberRole_ok htx
    exact ⟨rfl, rfl⟩
  | _ => cases hother

variable {α : Type} {teamId : Uuid}

/-- The checks every team endpoint starts with. -/
theorem changes_of_member {f : Team → Handler α}
    (h : (authUser actor >>= fun _ => teamForMember teamId actor >>= f).Changes db t) :
    ∃ team, (f team).Changes db t := by
  obtain ⟨-, -, h⟩ := h.of_bind (reads_authUser actor)
  obtain ⟨team, -, h⟩ := h.of_bind (reads_teamForMember teamId actor)
  exact ⟨team, h⟩

variable {f : Unit → Handler α}

theorem changes_of_authorize {permission : Text}
    (h : (authorize teamId actor permission >>= f).Changes db t) : (f ()).Changes db t := by
  obtain ⟨⟨⟩, -, h⟩ := h.of_bind (reads_authorize teamId actor permission)
  exact h

theorem changes_of_authorizeAny {wanted : List Text}
    (h : (authorizeAny teamId actor wanted >>= f).Changes db t) : (f ()).Changes db t := by
  obtain ⟨⟨⟩, -, h⟩ := h.of_bind (reads_authorizeAny teamId actor wanted)
  exact h

theorem changes_of_ensureCanGrant (h : (ensureCanGrant teamId actor desired >>= f).Changes db t) :
    (∀ p ∈ desired, p ∈ db.heldKeys teamId actor) ∧ (f ()).Changes db t := by
  obtain ⟨⟨⟩, hgrant, h⟩ := h.of_bind (reads_ensureCanGrant teamId actor desired)
  exact ⟨held_of_ensureCanGrant hgrant, h⟩

theorem effect_provisionMember {email : Text} {displayName : Option Text}
    {roleId : Option Uuid} {newUserId : Uuid}
    (h : (provisionMember lower actor teamId email displayName roleId newUserId).Changes db t) :
    Effect catalogue db actor (.provisionMember teamId email displayName roleId newUserId) t := by
  unfold provisionMember at h
  obtain ⟨-, h⟩ := changes_of_member h
  have h := changes_of_authorize h
  obtain ⟨-, -, h⟩ := h.of_bind (reads_ofExcept _)
  obtain ⟨stored, -, h⟩ := h.of_bind (reads_ofExcept _)
  obtain ⟨-, h⟩ := h.of_select.of_require
  obtain ⟨⟨⟩, hgrant, h⟩ := h.of_bind (reads_ensureCanGrantRole _ _ _)
  obtain ⟨assigned, htx⟩ := h.of_transact
  refine .provisionMember (fun r hr hrole => ?_) htx
  obtain rfl := Option.mem_def.mp hr
  have hany : (db.roles.any fun role => role.id = r ∧ role.teamId = teamId) = true := by
    simpa using hrole
  unfold ensureCanGrantRole at hgrant
  rw [exec_bind] at hgrant
  simp only [select, exec, id, hany, if_true] at hgrant
  exact held_of_ensureCanGrant hgrant

theorem effect_updateRole {roleId : Uuid} {name : Text} {permissions : List Text}
    (h : (updateRole catalogue actor teamId roleId name description permissions).Changes db t) :
    Effect catalogue db actor (.updateRole teamId roleId name description permissions) t := by
  unfold updateRole at h
  obtain ⟨-, h⟩ := changes_of_member h
  have h := changes_of_authorize h
  obtain ⟨role, hrole, h⟩ := h.of_bind (reads_roleForTeam _ _)
  obtain ⟨-, h⟩ := h.of_require
  obtain ⟨body, -, h⟩ := h.of_bind (reads_ofExcept _)
  obtain ⟨hheld, h⟩ := changes_of_ensureCanGrant h
  obtain ⟨⟨⟩, htx⟩ := h.of_transact_bind fun _ => reads_select _
  obtain ⟨hmem, hid, hteam⟩ := of_roleForTeam hrole
  exact .updateRole hmem hid hteam hheld htx

theorem effect_assignRole {targetUserId roleId : Uuid}
    (h : (assignRole actor teamId targetUserId roleId).Changes db t) :
    Effect catalogue db actor (.assignRole teamId targetUserId roleId) t := by
  unfold assignRole at h
  obtain ⟨-, h⟩ := changes_of_member h
  have h := changes_of_authorizeAny h
  obtain ⟨role, hrole, h⟩ := h.of_bind (reads_roleForTeam _ _)
  obtain ⟨hheld, h⟩ := changes_of_ensureCanGrant h.of_select
  obtain ⟨-, h⟩ := h.of_select.of_require
  obtain ⟨⟨⟩, htx⟩ := h.of_transact
  rw [(of_roleForTeam hrole).2.1] at hheld
  exact .assignRole hheld htx

theorem effect_addApplicationMember {applicationId targetUserId : Uuid} {permissions : List Text}
    (h : (addApplicationMember actor teamId applicationId targetUserId permissions).Changes db t) :
    Effect catalogue db actor
      (.addApplicationMember teamId applicationId targetUserId permissions) t := by
  unfold addApplicationMember at h
  obtain ⟨-, -, h⟩ := h.of_bind (reads_authUser actor)
  have h := changes_of_authorize h
  obtain ⟨⟨⟩, hshared, h⟩ := h.of_bind (reads_applicationInTeam _ _)
  obtain ⟨-, h⟩ := h.of_select.of_require
  obtain ⟨granted, hgrant, h⟩ := h.of_bind (reads_applicationGrant _ _ _)
  obtain ⟨⟨⟩, htx⟩ := h.of_transact
  exact .addApplicationMember (by simpa using of_select_require hshared)
    (held_of_applicationGrant hgrant) htx

/-- **A request handled alone changes nothing or has its effect.** -/
theorem effect_of_changes (h : (handle catalogue lower actor request).Changes db t) :
    Effect catalogue db actor request t := by
  cases request with
  | createTeam name teamId ownerRoleId =>
    obtain ⟨-, -, h⟩ := h.of_drop.of_bind (reads_authUser actor)
    obtain ⟨stored, -, h⟩ := h.of_bind (reads_ofExcept _)
    obtain ⟨team, htx⟩ := h.of_transact
    exact .createTeam htx
  | addMember teamId email =>
    obtain ⟨-, h⟩ := changes_of_member h
    have h := (changes_of_authorize h).of_select
    split at h
    · exact absurd h (reads_fail _).not_changes
    · obtain ⟨⟨⟩, htx⟩ := h.of_transact
      exact .addMember htx
  | provisionMember teamId email displayName roleId newUserId =>
    exact effect_provisionMember h.of_drop
  | removeMember teamId targetUserId =>
    obtain ⟨team, h⟩ := changes_of_member h
    obtain ⟨-, h⟩ := (changes_of_authorize h).of_require
    obtain ⟨⟨⟩, htx⟩ := h.of_transact
    exact .removeMember htx
  | deleteTeam teamId =>
    obtain ⟨-, h⟩ := changes_of_member h
    obtain ⟨⟨⟩, htx⟩ := (changes_of_authorize h).of_transact
    obtain ⟨rfl, -⟩ := Prod.mk.inj (ok.inj htx)
    exact .deleteTeam
  | createRole teamId name description permissions roleId =>
    obtain ⟨-, h⟩ := changes_of_member h.of_drop
    have h := changes_of_authorize h
    obtain ⟨body, -, h⟩ := h.of_bind (reads_ofExcept _)
    obtain ⟨-, h⟩ := changes_of_ensureCanGrant h
    obtain ⟨⟨⟩, htx⟩ := h.of_transact_bind fun _ => reads_select _
    exact .createRole htx
  | updateRole teamId roleId name description permissions => exact effect_updateRole h.of_drop
  | deleteRole teamId roleId =>
    obtain ⟨-, h⟩ := changes_of_member h
    obtain ⟨role, -, h⟩ := (changes_of_authorize h).of_bind (reads_roleForTeam _ _)
    obtain ⟨-, h⟩ := h.of_require
    obtain ⟨⟨⟩, htx⟩ := h.of_transact
    obtain ⟨rfl, -⟩ := Prod.mk.inj (ok.inj htx)
    exact .deleteRole
  | assignRole teamId targetUserId roleId => exact effect_assignRole h
  | unassignRole teamId targetUserId roleId =>
    obtain ⟨team, h⟩ := changes_of_member h
    obtain ⟨role, -, h⟩ := (changes_of_authorizeAny h).of_bind (reads_roleForTeam _ _)
    obtain ⟨-, h⟩ := h.of_require
    obtain ⟨⟨⟩, htx⟩ := h.of_transact
    exact .unassignRole htx
  | pushApplication teamId body newId =>
    obtain ⟨-, -, h⟩ := h.of_drop.of_bind (reads_authUser actor)
    obtain ⟨row, hrow, h⟩ := (changes_of_authorize h).of_bind (reads_ofExcept _)
    obtain ⟨row', htx⟩ := h.of_transact
    refine .pushApplication ?_ htx
    cases hpushed : pushedRow actor teamId newId body with
    | ok row'' =>
      rw [hpushed] at hrow
      exact hrow
    | error e =>
      rw [hpushed] at hrow
      cases hrow
  | removeApplication teamId applicationId =>
    obtain ⟨-, -, h⟩ := h.of_bind (reads_authUser actor)
    obtain ⟨⟨⟩, htx⟩ := (changes_of_authorize h).of_transact
    exact .removeApplication htx
  | addApplicationMember teamId applicationId targetUserId permissions =>
    exact effect_addApplicationMember h
  | setMemberPermissions teamId applicationId targetUserId permissions =>
    obtain ⟨-, -, h⟩ := h.of_bind (reads_authUser actor)
    obtain ⟨granted, hgrant, h⟩ :=
      (changes_of_authorize h).of_bind (reads_applicationGrant _ _ _)
    obtain ⟨⟨⟩, htx⟩ := h.of_transact
    exact .setMemberPermissions (held_of_applicationGrant hgrant) htx
  | removeApplicationMember teamId applicationId targetUserId =>
    obtain ⟨-, -, h⟩ := h.of_bind (reads_authUser actor)
    obtain ⟨⟨⟩, htx⟩ := (changes_of_authorize h).of_transact
    exact .removeApplicationMember htx

end

end VibeSsh.Backend
