import VibeSsh.Backend.Effects

/-! # What every transaction keeps

The references between a team's tables, the owner's own rows and the built-in roles. What a handler
has checked before it writes is about facts that are fixed when a row is made: who owns a team,
which team a role belongs to and whether it is built in. `Origins` names them, so that a check made
before other requests' statements is as good after them. -/

open List

namespace VibeSsh.Backend

open Lib Prog

/-- Who a team was created by, the team a role was created in, and whether it came with the team. -/
structure Origins where
  ownerOf : Uuid → Uuid
  teamOf : Uuid → Uuid
  system : Uuid → Bool

structure Sound (o : Origins) (catalogue : Catalogue) (db : Database) : Prop where
  team_owner : ∀ team ∈ db.teams, team.ownerId = o.ownerOf team.id
  team_role : ∀ team ∈ db.teams, ∃ role ∈ db.roles, role.teamId = team.id ∧ role.isSystem = true
  owner_member : ∀ team ∈ db.teams, (⟨team.id, team.ownerId⟩ : TeamMember) ∈ db.teamMembers
  role_origin : ∀ role ∈ db.roles, role.teamId = o.teamOf role.id ∧ role.isSystem = o.system role.id
  owner_role : ∀ role ∈ db.roles, role.isSystem = true →
    (⟨role.teamId, o.ownerOf role.teamId, role.id⟩ : MemberRole) ∈ db.memberRoles
  system_full : ∀ role ∈ db.roles, role.isSystem = true → ∀ key ∈ catalogue.keys,
    (⟨role.id, key⟩ : RolePermission) ∈ db.rolePermissions
  assigned : ∀ mr ∈ db.memberRoles, (∃ role ∈ db.roles, role.id = mr.roleId) ∧
    mr.teamId = o.teamOf mr.roleId
  permitted : ∀ rp ∈ db.rolePermissions, ∃ role ∈ db.roles, role.id = rp.roleId

namespace Sound

variable {o : Origins} {catalogue : Catalogue} {db t : Database}

theorem empty : Sound o catalogue .empty := by
  constructor <;> simp [Database.empty]

variable {roleId teamId userId : Uuid}

theorem hasRole_iff : db.hasRole roleId = true ↔ ∃ role ∈ db.roles, role.id = roleId := by
  simp [Database.hasRole]

/-! ## One lemma for each transaction -/

variable (hdb : Sound o catalogue db)
include hdb

theorem insertTeam {team team' : Team} {ownerRoleId : Uuid}
    (howner : o.ownerOf team.id = team.ownerId) (hteam : o.teamOf ownerRoleId = team.id)
    (hsystem : o.system ownerRoleId = true)
    (h : Backend.insertTeam catalogue team ownerRoleId db = .ok (t, team')) :
    Sound o catalogue t := by
  obtain ⟨hfree, rfl⟩ := insertTeam_ok h
  constructor
  · exact forall_mem_cons.mpr ⟨howner.symm, hdb.team_owner⟩
  · exact forall_mem_cons.mpr ⟨⟨_, mem_cons_self, rfl, rfl⟩, fun other hother =>
      exists_mem_cons_of_exists (hdb.team_role other hother)⟩
  · exact forall_mem_cons.mpr ⟨mem_cons_self, fun other hother =>
      mem_cons_of_mem _ (hdb.owner_member other hother)⟩
  · exact forall_mem_cons.mpr ⟨⟨hteam.symm, hsystem.symm⟩, hdb.role_origin⟩
  · refine forall_mem_cons.mpr ⟨fun _ => ?_, fun role hrole hsys =>
      mem_cons_of_mem _ (hdb.owner_role role hrole hsys)⟩
    rw [howner]
    exact mem_cons_self
  · refine forall_mem_cons.mpr ⟨fun _ key hkey => ?_, fun role hrole hsys key hkey =>
      mem_append_right _ (hdb.system_full role hrole hsys key hkey)⟩
    exact mem_append_left _ (mem_map_of_mem hkey)
  · exact forall_mem_cons.mpr ⟨⟨⟨_, mem_cons_self, rfl⟩, hteam.symm⟩, fun mr hmr =>
      (hdb.assigned mr hmr).imp_left exists_mem_cons_of_exists⟩
  · intro rp hrp
    rcases mem_append.mp hrp with hrp | hrp
    · obtain ⟨key, -, rfl⟩ := mem_map.mp hrp
      exact ⟨_, mem_cons_self, rfl⟩
    · exact exists_mem_cons_of_exists (hdb.permitted rp hrp)

theorem insertMember (h : Backend.insertMember teamId userId db = .ok (t, ())) :
    Sound o catalogue t := by
  obtain rfl := insertMember_ok h
  exact { hdb with
    owner_member := fun team hteam => mem_cons_of_mem _ (hdb.owner_member team hteam) }

theorem insertProvisioned {user : User}
    {roleId : Option Uuid} {assigned : Bool}
    (h : Backend.insertProvisioned user teamId roleId db = .ok (t, assigned)) :
    Sound o catalogue t := by
  obtain ⟨hroles, rfl⟩ := insertProvisioned_ok h
  refine { hdb with
    owner_member := fun team hteam => mem_cons_of_mem _ (hdb.owner_member team hteam)
    owner_role := fun role hrole hsys => mem_append_right _ (hdb.owner_role role hrole hsys)
    assigned := fun mr hmr => ?_ }
  rcases mem_append.mp hmr with hmr | hmr
  · obtain ⟨r, hr, rfl⟩ := mem_map.mp hmr
    obtain ⟨role, hrole, rfl, rfl⟩ := hroles r (Option.mem_toList.mp hr)
    exact ⟨⟨role, hrole, rfl⟩, (hdb.role_origin role hrole).1⟩
  · exact hdb.assigned mr hmr

/-- Members go, but no owner's rows. -/
theorem deleteMembers {gone : TeamMember → Bool}
    (hmember : ∀ team ∈ db.teams, gone ⟨team.id, o.ownerOf team.id⟩ = false)
    (hrole : ∀ role ∈ db.roles, gone ⟨role.teamId, o.ownerOf role.teamId⟩ = false) :
    Sound o catalogue (db.deleteMembers gone) := by
  refine { hdb with
    owner_member := fun team hteam => ?_
    owner_role := fun role hmem hsys => ?_
    assigned := fun mr hmr => hdb.assigned mr (mem_of_mem_filter hmr) }
  · refine mem_filter.mpr ⟨hdb.owner_member team hteam, ?_⟩
    rw [hdb.team_owner team hteam, hmember team hteam]
    rfl
  · refine mem_filter.mpr ⟨hdb.owner_role role hmem hsys, ?_⟩
    simp only [hrole role hmem, Bool.not_false]

theorem deleteMember (hne : userId ≠ o.ownerOf teamId)
    (h : Backend.deleteMember teamId userId db = .ok (t, ())) : Sound o catalogue t := by
  obtain rfl := deleteMember_ok h
  have hkept : ∀ id, decide (id = teamId ∧ o.ownerOf id = userId) = false := by
    intro id
    rw [decide_eq_false_iff_not]
    rintro ⟨rfl, hid⟩
    exact hne hid.symm
  exact hdb.deleteMembers (fun team _ => hkept team.id) fun role _ => hkept role.teamId

/-- Roles go, and perhaps teams, but no built-in role of a team that stays. -/
theorem deleteRoles {teams : List Team} {gone : Role → Bool}
    (hsub : ∀ team ∈ teams, team ∈ db.teams)
    (hkeep : ∀ team ∈ teams, ∀ role ∈ db.roles, role.teamId = team.id → role.isSystem = true →
      gone role = false)
    (hid : ∀ role ∈ db.roles, ∀ other ∈ db.roles, role.id = other.id → gone other = gone role) :
    Sound o catalogue (Database.deleteRoles { db with teams } gone) := by
  -- a role that stays does not share its identifier with one that goes
  have hids : ∀ role ∈ db.roles, gone role = false →
      (!((db.roles.filter gone).map (·.id)).contains role.id) = true := by
    intro role hrole hstays
    rw [Bool.not_eq_true', ← Bool.not_eq_true, contains_iff_mem, mem_map]
    rintro ⟨other, hother, heq⟩
    obtain ⟨hother, hgone⟩ := mem_filter.mp hother
    rw [hid role hrole other hother heq.symm, hstays] at hgone
    cases hgone
  have hstay : ∀ {roleId : Uuid}, (∃ role ∈ db.roles, role.id = roleId) →
      ((db.roles.filter gone).map (·.id)).contains roleId = false →
      ∃ role ∈ db.roles.filter fun r => !gone r, role.id = roleId := by
    rintro roleId ⟨role, hrole, rfl⟩ hnot
    refine ⟨role, mem_filter.mpr ⟨hrole, ?_⟩, rfl⟩
    rw [Bool.not_eq_true']
    by_contra hgone
    have hmem : role.id ∈ (db.roles.filter gone).map (·.id) :=
      mem_map_of_mem (mem_filter.mpr ⟨hrole, by simpa using hgone⟩)
    rw [contains_iff_mem.mpr hmem] at hnot
    cases hnot
  have hkept : ∀ role ∈ db.roles.filter (fun r => !gone r), role ∈ db.roles ∧ gone role = false :=
    fun role hrole => by simpa using mem_filter.mp hrole
  constructor
  · exact fun team hteam => hdb.team_owner team (hsub team hteam)
  · intro team hteam
    obtain ⟨role, hrole, hof, hsys⟩ := hdb.team_role team (hsub team hteam)
    refine ⟨role, mem_filter.mpr ⟨hrole, ?_⟩, hof, hsys⟩
    rw [hkeep team hteam role hrole hof hsys]
    rfl
  · exact fun team hteam => hdb.owner_member team (hsub team hteam)
  · exact fun role hrole => hdb.role_origin role (hkept role hrole).1
  · intro role hrole hsys
    obtain ⟨hmem, hstays⟩ := hkept role hrole
    exact mem_filter.mpr ⟨hdb.owner_role role hmem hsys, hids role hmem hstays⟩
  · intro role hrole hsys key hkey
    obtain ⟨hmem, hstays⟩ := hkept role hrole
    exact mem_filter.mpr ⟨hdb.system_full role hmem hsys key hkey, hids role hmem hstays⟩
  · intro mr hmr
    obtain ⟨hmem, hnot⟩ := mem_filter.mp hmr
    obtain ⟨hrole, hof⟩ := hdb.assigned mr hmem
    exact ⟨hstay hrole (by simpa using hnot), hof⟩
  · intro rp hrp
    obtain ⟨hmem, hnot⟩ := mem_filter.mp hrp
    exact hstay (hdb.permitted rp hmem) (by simpa using hnot)

theorem deleteRole (hsystem : o.system roleId = false) :
    Sound o catalogue (db.deleteRoles (·.id = roleId)) := by
  refine hdb.deleteRoles (fun _ h => h) (fun team _ role hrole _ hsys => ?_)
    (fun role _ other _ heq => by rw [heq])
  rw [decide_eq_false_iff_not]
  rintro rfl
  rw [(hdb.role_origin role hrole).2, hsystem] at hsys
  cases hsys

theorem of_tables (hteams : t.teams = db.teams)
    (hmembers : t.teamMembers = db.teamMembers) (hroles : t.roles = db.roles)
    (hpermissions : t.rolePermissions = db.rolePermissions)
    (hassigned : t.memberRoles = db.memberRoles) : Sound o catalogue t := by
  constructor <;> simp only [hteams, hmembers, hroles, hpermissions, hassigned]
  exacts [hdb.team_owner, hdb.team_role, hdb.owner_member, hdb.role_origin, hdb.owner_role,
    hdb.system_full, hdb.assigned, hdb.permitted]

theorem deleteTeam (teamId : Uuid) : Sound o catalogue (db.deleteTeam teamId) := by
  let fewer : Database := { db with teams := db.teams.filter (·.id ≠ teamId) }
  have hroles : Sound o catalogue (fewer.deleteRoles (·.teamId = teamId)) :=
    hdb.deleteRoles (fun team hteam => mem_of_mem_filter hteam)
      (fun team hteam role _ hof _ => by simpa [hof] using (mem_filter.mp hteam).2)
      (fun role hrole other hother heq => by
        rw [(hdb.role_origin role hrole).1, (hdb.role_origin other hother).1, heq])
  have hmembers : Sound o catalogue
      ((fewer.deleteRoles (·.teamId = teamId)).deleteMembers (·.teamId = teamId)) :=
    hroles.deleteMembers (fun team hteam => by simpa using (mem_filter.mp hteam).2)
      (fun role hrole => by simpa using (mem_filter.mp hrole).2)
  exact hmembers.of_tables rfl rfl rfl rfl rfl

theorem insertRole {role : Role} {permissions : List Text}
    (hteam : o.teamOf role.id = role.teamId) (hplain : role.isSystem = false)
    (hsystem : o.system role.id = false)
    (h : Backend.insertRole role permissions db = .ok (t, ())) : Sound o catalogue t := by
  obtain ⟨hfree, rfl⟩ := insertRole_ok h
  refine { hdb with
    team_role := fun team hmem => exists_mem_cons_of_exists (hdb.team_role team hmem)
    role_origin := forall_mem_cons.mpr
      ⟨⟨hteam.symm, hplain.trans hsystem.symm⟩, hdb.role_origin⟩
    owner_role := forall_mem_cons.mpr ⟨fun hsys => ?_, hdb.owner_role⟩
    system_full := forall_mem_cons.mpr ⟨fun hsys => ?_, fun r hr hsys key hkey =>
      mem_append_right _ (hdb.system_full r hr hsys key hkey)⟩
    assigned := fun mr hmr => (hdb.assigned mr hmr).imp_left exists_mem_cons_of_exists
    permitted := fun rp hrp => ?_ }
  · rw [hplain] at hsys
    cases hsys
  · rw [hplain] at hsys
    cases hsys
  · rcases mem_append.mp hrp with hrp | hrp
    · obtain ⟨key, -, rfl⟩ := mem_map.mp hrp
      exact ⟨role, mem_cons_self, rfl⟩
    · exact exists_mem_cons_of_exists (hdb.permitted rp hrp)

theorem replaceRole {name : Text}
    {description : Option Text} {permissions : List Text} (hsystem : o.system roleId = false)
    (h : Backend.replaceRole roleId name description permissions db = .ok (t, ())) :
    Sound o catalogue t := by
  rcases replaceRole_ok h with rfl | ⟨hhas, rfl⟩
  · exact hdb
  -- a renamed role is the same one in every respect that counts
  let rename : Role → Role := fun r => if r.id = roleId then { r with name, description } else r
  have hrename : ∀ r, (rename r).id = r.id ∧ (rename r).teamId = r.teamId ∧
      (rename r).isSystem = r.isSystem := by
    intro r
    dsimp only [rename]
    split <;> exact ⟨rfl, rfl, rfl⟩
  have hpresent : ∀ {id : Uuid}, (∃ role ∈ db.roles, role.id = id) →
      ∃ role ∈ db.roles.map rename, role.id = id := by
    rintro id ⟨role, hrole, rfl⟩
    exact ⟨rename role, mem_map_of_mem hrole, (hrename role).1⟩
  refine { hdb with
    team_role := fun team hteam => ?_
    role_origin := forall_mem_map.mpr fun role hrole => ?_
    owner_role := forall_mem_map.mpr fun role hrole hsys => ?_
    system_full := forall_mem_map.mpr fun role hrole hsys key hkey => ?_
    assigned := fun mr hmr => ?_
    permitted := fun rp hrp => ?_ }
  · obtain ⟨role, hrole, hof, hsys⟩ := hdb.team_role team hteam
    obtain ⟨-, hteam', hsys'⟩ := hrename role
    exact ⟨rename role, mem_map_of_mem hrole, hteam'.trans hof, hsys'.trans hsys⟩
  · obtain ⟨hid, hteam', hsys'⟩ := hrename role
    change (rename role).teamId = _ ∧ (rename role).isSystem = _
    rw [hid, hteam', hsys']
    exact hdb.role_origin role hrole
  · obtain ⟨hid, hteam', hsys'⟩ := hrename role
    change (⟨(rename role).teamId, o.ownerOf (rename role).teamId, (rename role).id⟩ : MemberRole) ∈ _
    rw [hid, hteam']
    exact hdb.owner_role role hrole (hsys'.symm.trans hsys)
  · obtain ⟨hid, -, hsys'⟩ := hrename role
    change (⟨(rename role).id, key⟩ : RolePermission) ∈ _
    rw [hid]
    have hbuiltin : role.isSystem = true := hsys'.symm.trans hsys
    have hfull := hdb.system_full role hrole hbuiltin key hkey
    refine mem_append_right _ (mem_filter.mpr ⟨hfull, ?_⟩)
    rw [decide_eq_true_eq]
    rintro rfl
    rw [(hdb.role_origin role hrole).2, hsystem] at hbuiltin
    cases hbuiltin
  · obtain ⟨hrole, hof⟩ := hdb.assigned mr hmr
    exact ⟨hpresent hrole, hof⟩
  · rcases mem_append.mp hrp with hrp | hrp
    · obtain ⟨key, -, rfl⟩ := mem_map.mp hrp
      exact hpresent (hasRole_iff.mp hhas)
    · exact hpresent (hdb.permitted rp (mem_of_mem_filter hrp))

theorem insertMemberRole (hteam : teamId = o.teamOf roleId)
    (h : Backend.insertMemberRole teamId userId roleId db = .ok (t, ())) : Sound o catalogue t := by
  obtain ⟨hhas, rfl⟩ := insertMemberRole_ok h
  exact { hdb with
    owner_role := fun role hrole hsys => mem_cons_of_mem _ (hdb.owner_role role hrole hsys)
    assigned := forall_mem_cons.mpr ⟨⟨hasRole_iff.mp hhas, hteam⟩, hdb.assigned⟩ }

theorem deleteMemberRole (hkeep : ¬(o.system roleId = true ∧ userId = o.ownerOf teamId))
    (h : Backend.deleteMemberRole teamId userId roleId db = .ok (t, ())) : Sound o catalogue t := by
  obtain rfl := deleteMemberRole_ok h
  refine { hdb with
    owner_role := fun role hrole hsys => mem_filter.mpr ⟨hdb.owner_role role hrole hsys, ?_⟩
    assigned := fun mr hmr => hdb.assigned mr (mem_of_mem_filter hmr) }
  rw [decide_eq_true_eq]
  rintro ⟨⟩
  exact hkeep ⟨(hdb.role_origin role hrole).2.symm.trans hsys, rfl⟩

/-- Whatever catalogue the tables were complete for, they are complete for the new one. -/
theorem backfill (catalogue' : Catalogue) :
    Sound o catalogue' (backfillSystemRolePermissions catalogue' db) := by
  refine { hdb with
    system_full := fun role hrole hsys key hkey => ?_
    permitted := fun rp hrp => ?_ }
  · by_cases hhas : (⟨role.id, key⟩ : RolePermission) ∈ db.rolePermissions
    · exact mem_append_right _ hhas
    · refine mem_append_left _ (mem_dedup.mpr (mem_filter.mpr ⟨?_, by simpa⟩))
      refine mem_flatMap.mpr ⟨role, mem_filter.mpr ⟨hrole, hsys⟩, ?_⟩
      exact mem_map_of_mem hkey
  · rcases mem_append.mp hrp with hrp | hrp
    · have hwanted := mem_of_mem_filter (mem_dedup.mp hrp)
      obtain ⟨role, hrole, hkey⟩ := mem_flatMap.mp hwanted
      obtain ⟨key, -, rfl⟩ := mem_map.mp hkey
      exact ⟨role, mem_of_mem_filter hrole, rfl⟩
    · exact hdb.permitted rp hrp

end Sound

end VibeSsh.Backend
