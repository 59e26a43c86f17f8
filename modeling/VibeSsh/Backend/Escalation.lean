import VibeSsh.Backend.Managed

/-! # No member gains what nobody among them holds

Requests handled one at a time. Whatever a request adds to what a member may do in a team, the one
who makes it holds already (`holds_of_effect`). -/

namespace VibeSsh.Backend

open Lib Prog List

/-! ## Requests one at a time -/

inductive Call where
  | request (actor : Uuid) (request : Request)
  | register (user : User)
  | setPassword (userId : Uuid)

def Call.event : Call → Event
  | .request actor sent => .arrive actor sent
  | .register user => .register user
  | .setPassword userId => .setPassword userId

def serve (catalogue : Catalogue) (lower : Text.Lowercase) (db : Database) : Call → Database
  | .request actor request => ((handle catalogue lower actor request).exec db).2
  | .register user => db.insertUser user
  | .setPassword userId => db.setPassword userId

/-- Runs of the service from one database to another. -/
abbrev Serves (catalogue : Catalogue) (lower : Text.Lowercase) :=
  Run fun db call db' => db' = serve catalogue lower db call

section

variable {catalogue : Catalogue} {lower : Text.Lowercase} {o : Origins} {db : Database}

variable {call : Call} {table : Table} {id : Uuid}

theorem sound_serve (hdb : Sound o catalogue db)
    (h : ∀ actor request, call.event = .arrive actor request → Agrees o actor request) :
    Sound o catalogue (serve catalogue lower db call) := by
  cases call with
  | request actor request => exact (keeps_handle (h actor request rfl)).exec hdb
  | register user =>
    change Sound o catalogue (db.insertUser user)
    unfold Database.insertUser
    split
    · exact hdb
    · exact hdb.of_tables rfl rfl rfl rfl rfl
  | setPassword userId => exact hdb.of_tables rfl rfl rfl rfl rfl

/-- A request handled alone leaves the tables as they are or has its effect. -/
theorem serve_request (actor : Uuid) (request : Request) :
    serve catalogue lower db (.request actor request) = db ∨
      Effect catalogue db actor request (serve catalogue lower db (.request actor request)) := by
  by_cases hsame : serve catalogue lower db (.request actor request) = db
  · exact .inl hsame
  · exact .inr (effect_of_changes ⟨rfl, hsame⟩)

/-! ## What a member holds -/

/-- Through a role, or on an application of `scope`. -/
def Holds (scope : Uuid → Prop) (db : Database) (teamId userId : Uuid) (permission : Text) : Prop :=
  permission ∈ db.heldKeys teamId userId ∨
    ∃ am ∈ db.applicationMembers, scope am.applicationId ∧ am.teamId = teamId ∧
      am.userId = userId ∧ permission ∈ am.permissions

variable {scope : Uuid → Prop} {t : Database} {teamId userId actor : Uuid} {p : Text}

section

variable (h : Holds scope t teamId userId p)
include h

theorem Holds.of_subset (hroles : ∀ mr ∈ t.memberRoles, mr ∈ db.memberRoles)
    (hpermissions : ∀ rp ∈ t.rolePermissions, rp ∈ db.rolePermissions)
    (hgrants : ∀ am ∈ t.applicationMembers, am ∈ db.applicationMembers) :
    Holds scope db teamId userId p := by
  rcases h with h | ⟨am, ham, hrow⟩
  · obtain ⟨roleId, hmr, hp⟩ := mem_heldKeys.mp h
    exact .inl (mem_heldKeys.mpr
      ⟨roleId, hroles _ hmr, mem_permissionsOf.mpr (hpermissions _ (mem_permissionsOf.mp hp))⟩)
  · exact .inr ⟨am, hgrants am ham, hrow⟩

/-- A role that is new has nobody assigned to it. -/
theorem Holds.of_new_role (hdb : Sound o catalogue db) {roleId : Uuid}
    {keys : List Text} (hnew : db.hasRole roleId = false)
    (hroles : ∀ mr ∈ t.memberRoles, mr ∈ db.memberRoles ∨ mr.teamId ≠ teamId)
    (hpermissions : t.rolePermissions = keys.map (⟨roleId, ·⟩) ++ db.rolePermissions)
    (hgrants : t.applicationMembers = db.applicationMembers) : Holds scope db teamId userId p := by
  rcases h with h | h
  · obtain ⟨assigned, hmr, hp⟩ := mem_heldKeys.mp h
    have hmr := (hroles _ hmr).resolve_right (fun hne => hne rfl)
    have hp := mem_permissionsOf.mp hp
    rw [hpermissions, mem_append] at hp
    refine .inl (mem_heldKeys.mpr ⟨assigned, hmr, mem_permissionsOf.mpr (hp.resolve_left ?_)⟩)
    intro hkey
    obtain ⟨key, -, heq⟩ := mem_map.mp hkey
    obtain ⟨role, hrole, hid⟩ := (hdb.assigned _ hmr).1
    have hfresh : ∀ role ∈ db.roles, role.id ≠ roleId := by simpa [Database.hasRole] using hnew
    exact hfresh role hrole (hid.trans (RolePermission.mk.inj heq).1.symm)
  · rw [hgrants] at h
    exact .inr h

/-- A role handed out within a team carries what the one handing it out holds there. -/
theorem Holds.of_assigned (hroles : ∀ mr ∈ t.memberRoles, mr ∈ db.memberRoles ∨
      ∀ q ∈ db.permissionsOf mr.roleId, q ∈ db.heldKeys mr.teamId actor)
    (hpermissions : t.rolePermissions = db.rolePermissions)
    (hgrants : t.applicationMembers = db.applicationMembers) :
    Holds scope db teamId userId p ∨ p ∈ db.heldKeys teamId actor := by
  rcases h with h | h
  · obtain ⟨roleId, hmr, hp⟩ := mem_heldKeys.mp h
    rw [Database.permissionsOf, hpermissions] at hp
    rcases hroles _ hmr with hmr | hheld
    · exact .inl (.inl (mem_heldKeys.mpr ⟨roleId, hmr, hp⟩))
    · exact .inr (hheld p hp)
  · rw [hgrants] at h
    exact .inl (.inr h)

end

variable {request : Request}

/-- **Whatever a request adds, the one making it holds.** -/
theorem holds_of_effect (hdb : Sound o catalogue db) (hnew : teamId ∉ request.generated)
    (heffect : Effect catalogue db actor request t) (h : Holds scope t teamId userId p) :
    Holds scope db teamId userId p ∨ p ∈ db.heldKeys teamId actor := by
  cases heffect with
  | createTeam htx =>
    obtain ⟨hfree, rfl⟩ := insertTeam_ok htx
    refine .inl (h.of_new_role hdb hfree (fun mr hmr => ?_) rfl rfl)
    rcases mem_cons.mp hmr with rfl | hmr
    · exact .inr fun heq => hnew (heq ▸ mem_cons_self)
    · exact .inl hmr
  | addMember htx =>
    obtain rfl := insertMember_ok htx
    exact .inl h
  | provisionMember hheld htx =>
    obtain ⟨hroles, rfl⟩ := insertProvisioned_ok htx
    refine h.of_assigned (fun mr hmr => ?_) rfl rfl
    rcases mem_append.mp hmr with hmr | hmr
    · obtain ⟨r, hr, rfl⟩ := mem_map.mp hmr
      have hr := Option.mem_toList.mp hr
      exact .inr (hheld r hr (hroles r hr))
    · exact .inl hmr
  | removeMember htx =>
    obtain rfl := deleteMember_ok htx
    exact .inl (h.of_subset (fun _ => mem_of_mem_filter) (fun _ h => h)
      fun _ => mem_of_mem_filter)
  | deleteTeam =>
    exact .inl (h.of_subset
      (fun _ hmr => mem_of_mem_filter (mem_of_mem_filter hmr))
      (fun _ => mem_of_mem_filter)
      fun _ ham => mem_of_mem_filter (mem_of_mem_filter ham))
  | createRole htx =>
    obtain ⟨hfree, rfl⟩ := insertRole_ok htx
    exact .inl (h.of_new_role hdb hfree (fun _ => .inl) rfl rfl)
  | updateRole hmem hid hteam hheld htx =>
    rcases replaceRole_ok htx with rfl | ⟨-, rfl⟩
    · exact .inl h
    rcases h with h | h
    · obtain ⟨assigned, hmr, hp⟩ := mem_heldKeys.mp h
      rcases mem_append.mp (mem_permissionsOf.mp hp) with hkey | hkey
      · obtain ⟨key, hgranted, heq⟩ := mem_map.mp hkey
        obtain ⟨rfl, rfl⟩ := RolePermission.mk.inj heq
        -- the role is the team's own, so its members are the team's
        have hsame : teamId = _ := (hdb.assigned _ hmr).2
        rw [hsame, ← hid, ← (hdb.role_origin _ hmem).1, hteam]
        exact .inr (hheld _ hgranted)
      · exact .inl (.inl (mem_heldKeys.mpr
          ⟨assigned, hmr, mem_permissionsOf.mpr (mem_of_mem_filter hkey)⟩))
    · exact .inl (.inr h)
  | deleteRole =>
    exact .inl (h.of_subset (fun _ => mem_of_mem_filter) (fun _ => mem_of_mem_filter)
      fun _ h => h)
  | assignRole hheld htx =>
    obtain ⟨-, rfl⟩ := insertMemberRole_ok htx
    refine h.of_assigned (fun mr hmr => ?_) rfl rfl
    rcases mem_cons.mp hmr with rfl | hmr
    · exact .inr hheld
    · exact .inl hmr
  | unassignRole htx =>
    obtain rfl := deleteMemberRole_ok htx
    exact .inl (h.of_subset (fun _ => mem_of_mem_filter) (fun _ h => h) fun _ h => h)
  | pushApplication hrow htx =>
    rcases upsertApplication_ok htx with ⟨old, -, -, rfl⟩ | ⟨-, rfl⟩ <;> exact .inl h
  | removeApplication htx =>
    obtain rfl := deleteApplication_ok htx
    exact .inl (h.of_subset (fun _ h => h) (fun _ h => h) fun _ => mem_of_mem_filter)
  | addApplicationMember _ hheld htx =>
    obtain rfl := insertApplicationMember_ok htx
    rcases h with h | ⟨am, ham, hscope, hteam, huser, hp⟩
    · exact .inl (.inl h)
    rcases mem_cons.mp ham with rfl | ham
    · rw [← hteam]
      exact .inr (hheld p hp)
    · exact .inl (.inr ⟨am, ham, hscope, hteam, huser, hp⟩)
  | setMemberPermissions hheld htx =>
    obtain rfl := updateApplicationMember_ok htx
    rcases h with h | ⟨am, ham, hscope, hteam, huser, hp⟩
    · exact .inl (.inl h)
    obtain ⟨old, hold, rfl⟩ := mem_map.mp ham
    split at hteam
    · next his =>
      rw [if_pos his] at hp
      simp only [ApplicationMember.is, decide_eq_true_eq] at his
      rw [← hteam, his.2.1]
      exact .inr (hheld p hp)
    · next hother =>
      rw [if_neg hother] at hscope huser hp
      exact .inl (.inr ⟨old, hold, hscope, hteam, huser, hp⟩)
  | removeApplicationMember htx =>
    obtain rfl := deleteApplicationMember_ok htx
    exact .inl (h.of_subset (fun _ h => h) (fun _ h => h) fun _ => mem_of_mem_filter)

/-! ## Identifiers of teams and applications -/

/-- The tables whose rows have an identifier of their own. -/
inductive Table where
  | teams
  | applications

def Table.ids (db : Database) : Table → List Uuid
  | .teams => db.teams.map (·.id)
  | .applications => db.teamApplications.map (·.id)

theorem pushedRow_id {newId : Uuid} {body : PushTeamApplicationRequest} {row : TeamApplication}
    (h : pushedRow actor teamId newId body = .ok row) :
    row.id = newId ∧ row.teamId = teamId ∧ row.pushedBy = some actor := by
  unfold pushedRow at h
  obtain ⟨name, -, h⟩ := try_ok_iff.mp h
  obtain ⟨blueprintId, -, h⟩ := try_ok_iff.mp h
  obtain ⟨runtimeType, -, h⟩ := try_ok_iff.mp h
  obtain ⟨workingDirectory, -, h⟩ := try_ok_iff.mp h
  split_ifs at h
  · obtain rfl := Except.ok.inj h
    exact ⟨rfl, rfl, rfl⟩

theorem ids_of_effect (heffect : Effect catalogue db actor request t) (h : id ∈ table.ids t) :
    id ∈ table.ids db ∨ id ∈ request.generated := by
  -- most requests write neither table
  have hsame : t.teams = db.teams → t.teamApplications = db.teamApplications →
      id ∈ table.ids db ∨ id ∈ request.generated := by
    intro hteams happlications
    cases table with
    | teams => exact .inl (by rwa [Table.ids, hteams] at h)
    | applications => exact .inl (by rwa [Table.ids, happlications] at h)
  cases heffect with
  | createTeam htx =>
    obtain ⟨-, rfl⟩ := insertTeam_ok htx
    cases table with
    | teams =>
      rcases mem_cons.mp h with rfl | h
      · exact .inr mem_cons_self
      · exact .inl h
    | applications => exact .inl h
  | addMember htx =>
    obtain rfl := insertMember_ok htx
    exact hsame rfl rfl
  | provisionMember _ htx =>
    obtain ⟨-, rfl⟩ := insertProvisioned_ok htx
    exact hsame rfl rfl
  | removeMember htx =>
    obtain rfl := deleteMember_ok htx
    exact hsame rfl rfl
  | deleteTeam =>
    cases table with
    | _ => exact .inl (map_subset _ (filter_subset_self _) h)
  | createRole htx =>
    obtain ⟨-, rfl⟩ := insertRole_ok htx
    exact hsame rfl rfl
  | updateRole _ _ _ _ htx =>
    rcases replaceRole_ok htx with rfl | ⟨-, rfl⟩
    · exact .inl h
    · exact hsame rfl rfl
  | deleteRole => exact hsame rfl rfl
  | assignRole _ htx =>
    obtain ⟨-, rfl⟩ := insertMemberRole_ok htx
    exact hsame rfl rfl
  | unassignRole htx =>
    obtain rfl := deleteMemberRole_ok htx
    exact hsame rfl rfl
  | pushApplication hrow htx =>
    rcases upsertApplication_ok htx with ⟨old, hold, -, rfl⟩ | ⟨-, rfl⟩
    · cases table with
      | teams => exact .inl h
      | applications =>
        obtain ⟨application, happlication, rfl⟩ := mem_map.mp h
        obtain ⟨before, hbefore, rfl⟩ := mem_map.mp happlication
        split
        · exact .inl (mem_map.mpr ⟨old, hold, rfl⟩)
        · exact .inl (mem_map_of_mem hbefore)
    · cases table with
      | teams => exact .inl h
      | applications =>
        rcases mem_cons.mp h with rfl | h
        · exact .inr (mem_singleton.mpr (pushedRow_id hrow).1)
        · exact .inl h
  | removeApplication htx =>
    obtain rfl := deleteApplication_ok htx
    cases table with
    | teams => exact .inl h
    | applications => exact .inl (map_subset _ (filter_subset_self _) h)
  | addApplicationMember _ _ htx =>
    obtain rfl := insertApplicationMember_ok htx
    exact hsame rfl rfl
  | setMemberPermissions _ htx =>
    obtain rfl := updateApplicationMember_ok htx
    exact hsame rfl rfl
  | removeApplicationMember htx =>
    obtain rfl := deleteApplicationMember_ok htx
    exact hsame rfl rfl

theorem ids_of_serve (h : id ∈ table.ids (serve catalogue lower db call)) :
    id ∈ table.ids db ∨ id ∈ call.event.generated := by
  cases call with
  | request actor request =>
    rcases serve_request actor request with hsame | heffect
    · rw [hsame] at h
      exact .inl h
    · exact ids_of_effect heffect h
  | register user =>
    change id ∈ table.ids (db.insertUser user) at h
    unfold Database.insertUser at h
    split at h
    · exact .inl h
    · cases table <;> exact .inl h
  | setPassword userId => cases table <;> exact .inl h

variable {trace : List (Transition Database Call)}

theorem not_generated_of_mem_ids {before after : List (Transition Database Call)}
    (hbefore : Serves catalogue lower .empty before db)
    (hids : UniqueIds ((before ++ after).map (·.label.event))) (hid : id ∈ table.ids db) :
    ∀ x ∈ after, id ∉ x.label.event.generated := by
  intro x hx hgenerated
  obtain ⟨first, y, rest, rfl, -, hstep, hnot, hmade⟩ :=
    hbefore.exists_begin (id ∈ table.ids ·) (by cases table <;> exact nofun) hid
  rw [hstep] at hmade
  rw [UniqueIds, map_append, pairwise_append] at hids
  exact hids.2.2 _ (mem_map_of_mem (by simp)) _ (mem_map_of_mem hx)
    ((ids_of_serve hmade).resolve_left hnot) hgenerated

theorem sound_of_run (hdb : Sound o catalogue db) (h : Serves catalogue lower db trace t)
    (hagrees : ∀ x ∈ trace, ∀ actor request, x.label.event = .arrive actor request →
      Agrees o actor request) : Sound o catalogue t :=
  (h.invariant (Sound o catalogue)
    (fun _ call => ∀ actor request, call.event = .arrive actor request → Agrees o actor request)
    (fun hs hok hstep => by
      subst hstep
      exact sound_serve hs hok) hdb hagrees).1

/-! ## Coalitions -/

/-- Somebody in the coalition holds the permission. -/
def HeldAmong (coalition scope : Uuid → Prop) (teamId : Uuid) (db : Database) (p : Text) : Prop :=
  ∃ c, coalition c ∧ Holds scope db teamId c p

/-- A request from outside that leaves the coalition with nothing more. -/
def GrantsNothing (coalition scope : Uuid → Prop) (teamId : Uuid) (x : Transition Database Call) :
    Prop :=
  ∀ actor request, x.label = .request actor request → ¬coalition actor →
    ∀ p, HeldAmong coalition scope teamId x.post p → HeldAmong coalition scope teamId x.pre p

theorem heldAmong_serve {coalition : Uuid → Prop} (hdb : Sound o catalogue db)
    (hnew : teamId ∉ call.event.generated)
    (houtside : GrantsNothing coalition scope teamId ⟨db, call, serve catalogue lower db call⟩)
    (h : HeldAmong coalition scope teamId (serve catalogue lower db call) p) :
    HeldAmong coalition scope teamId db p := by
  cases call with
  | request actor request =>
    by_cases hactor : coalition actor
    · obtain ⟨c, hc, hholds⟩ := h
      rcases serve_request actor request with hsame | heffect
      · rw [hsame] at hholds
        exact ⟨c, hc, hholds⟩
      · rcases holds_of_effect hdb hnew heffect hholds with hheld | hheld
        · exact ⟨c, hc, hheld⟩
        · exact ⟨actor, hactor, .inl hheld⟩
    · exact houtside actor request rfl hactor p h
  | register user =>
    change HeldAmong coalition scope teamId (db.insertUser user) p at h
    unfold Database.insertUser at h
    split at h <;> exact h
  | setPassword userId => exact h

end

/-- **No coalition gains a permission by its own requests.** What its members hold later in a team,
through roles or on the applications of `scope`, some of them held at the start, as long as requests
from outside grant them nothing more. -/
theorem coalition_gains_nothing {catalogue : Catalogue} {lower : Text.Lowercase}
    {db db' : Database} {before after : List (Transition Database Call)}
    (hbefore : Serves catalogue lower .empty before db)
    (hafter : Serves catalogue lower db after db')
    (hids : UniqueIds ((before ++ after).map (·.label.event))) {team : Team}
    (hteam : team ∈ db.teams) (coalition scope : Uuid → Prop)
    (houtside : ∀ x ∈ after, GrantsNothing coalition scope team.id x) (p : Text) :
    (HeldAmong coalition scope team.id db' p → HeldAmong coalition scope team.id db p) ∧
      ∀ x ∈ after, HeldAmong coalition scope team.id x.post p → HeldAmong coalition scope team.id db p := by
  let o := originsOf ((before ++ after).map (·.label.event))
  have hagrees : ∀ x ∈ before ++ after, ∀ actor request, x.label.event = .arrive actor request →
      Agrees o actor request := fun x hx actor request hlabel =>
    agrees_originsOf hids
      (hlabel ▸ mem_map_of_mem (f := fun x : Transition Database Call => x.label.event) hx)
  have hsound : Sound o catalogue db :=
    sound_of_run .empty hbefore fun x hx => hagrees x (mem_append_left _ hx)
  have hnew : ∀ x ∈ after, team.id ∉ x.label.event.generated := by
    have hid : team.id ∈ Table.teams.ids db := mem_map_of_mem hteam
    exact not_generated_of_mem_ids hbefore hids hid
  -- every step is the service's own
  have hsteps := (hafter.invariant (fun _ => True) (fun _ _ => True) (fun _ _ _ => trivial) trivial
    fun _ _ => trivial).2
  have hinv := hafter.invariant
    (fun s => Sound o catalogue s ∧
      (HeldAmong coalition scope team.id s p → HeldAmong coalition scope team.id db p))
    (fun s call => (∀ actor request, call.event = .arrive actor request → Agrees o actor request) ∧
      team.id ∉ call.event.generated ∧
      GrantsNothing coalition scope team.id ⟨s, call, serve catalogue lower s call⟩)
    (fun hs hok hstep => by
      subst hstep
      exact ⟨sound_serve hs.1 hok.1, fun h => hs.2 (heldAmong_serve hs.1 hok.2.1 hok.2.2 h)⟩)
    ⟨hsound, id⟩
    (fun x hx => by
      refine ⟨hagrees x (mem_append_right _ hx), hnew x hx, ?_⟩
      rw [← (hsteps x hx).2.1]
      exact houtside x hx)
  exact ⟨hinv.1.2, fun x hx => (hinv.2 x hx).2.2.2⟩

/-- A member who may manage roles, and the role they were given. -/
def manager : User where
  id := .repeated 3
  email := "manager@example.org"
  displayName := "Manager"
  mustChangePassword := false

def managing : Uuid := .repeated 4

def setUp : List Call :=
  [.register founder, .register manager,
    .request founder.id (.createTeam foundedTeam.name foundedTeam.id .max),
    .request founder.id (.addMember foundedTeam.id manager.email),
    .request founder.id (.createRole foundedTeam.id "Managers" none
      [Permissions.teamRolesManage] managing),
    .request founder.id (.assignRole foundedTeam.id manager.id managing)]

/-- The manager tries for the built-in role, and to put a permission into their own. -/
def reachingHigher : List Call :=
  [.request manager.id (.assignRole foundedTeam.id manager.id .max),
    .request manager.id (.updateRole foundedTeam.id managing "Managers" none
      [Permissions.teamRolesManage, Permissions.teamDelete])]

def afterSetUp : Database := setUp.foldl (serve allPermissions .asciiOnly) .empty

theorem manager_gains_nothing :
    Permissions.teamRolesManage ∈ afterSetUp.heldKeys foundedTeam.id manager.id ∧
      (HeldAmong (· = manager.id) (fun _ => True) foundedTeam.id
        (reachingHigher.foldl (serve allPermissions .asciiOnly) afterSetUp) Permissions.teamDelete →
      HeldAmong (· = manager.id) (fun _ => True) foundedTeam.id afterSetUp Permissions.teamDelete) := by
  refine ⟨by decide +kernel, ?_⟩
  have hids : UniqueIds ((traceOf (serve allPermissions .asciiOnly) .empty setUp ++
      traceOf (serve allPermissions .asciiOnly) afterSetUp reachingHigher).map
        (·.label.event)) := by
    simp [UniqueIds, setUp, reachingHigher, traceOf, Call.event, Event.generated,
      Request.generated]
    decide
  have hown : ∀ x ∈ traceOf (serve allPermissions .asciiOnly) afterSetUp reachingHigher,
      GrantsNothing (· = manager.id) (fun _ => True) foundedTeam.id x := by
    intro x hx actor request hlabel hactor
    simp only [reachingHigher, traceOf, mem_cons, not_mem_nil, or_false] at hx
    rcases hx with rfl | rfl
    · exact absurd (Call.request.inj hlabel).1.symm hactor
    · exact absurd (Call.request.inj hlabel).1.symm hactor
  have hteam : foundedTeam ∈ afterSetUp.teams := by decide +kernel
  exact (coalition_gains_nothing (run_traceOf _ _ setUp) (run_traceOf _ _ reachingHigher) hids
    hteam _ _ hown Permissions.teamDelete).1

end VibeSsh.Backend
