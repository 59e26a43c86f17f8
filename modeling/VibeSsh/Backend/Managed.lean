import VibeSsh.Backend.Sound

/-! # Teams stay manageable

Requests in flight run their statements in any order, and the service restarts with whatever
catalogue its build has. -/

open List

namespace VibeSsh.Backend

open Lib Prog

/-! ## Every handler keeps the tables sound -/

variable {α : Type} {request : Request}

section

variable {o : Origins} {catalogue : Catalogue} {lower : Text.Lowercase} {actor : Uuid}

theorem keeps_teamForMember (teamId userId : Uuid) :
    (teamForMember teamId userId).Keeps (Sound o catalogue)
      fun team => team.ownerId = o.ownerOf teamId := by
  refine .bind (.select (Q := fun found => ∀ team ∈ found, team.ownerId = o.ownerOf teamId)
    fun db hdb team hteam => ?_) fun found hfound => ?_
  · have hid := List.find?_some hteam
    simp only [decide_eq_true_eq] at hid
    rw [hdb.team_owner team (mem_of_find?_eq_some hteam), hid.1]
  · cases found with
    | none => exact .fail
    | some team => exact .pure (hfound team rfl)

/-- A role found once tells what it was created as. -/
theorem keeps_roleForTeam (teamId roleId : Uuid) :
    (roleForTeam teamId roleId).Keeps (Sound o catalogue)
      fun role => role.isSystem = o.system roleId ∧ teamId = o.teamOf roleId := by
  refine .bind (.select (Q := fun found => ∀ role ∈ found,
    role.isSystem = o.system roleId ∧ teamId = o.teamOf roleId) fun db hdb role hrole => ?_)
    fun found hfound => ?_
  · have hid := List.find?_some hrole
    simp only [decide_eq_true_eq] at hid
    obtain ⟨rfl, rfl⟩ := hid
    exact (hdb.role_origin role (mem_of_find?_eq_some hrole)).symm
  · cases found with
    | none => exact .fail
    | some role => exact .pure (hfound role rfl)

variable {teamId roleId targetUserId : Uuid}

theorem keeps_member {f : Team → Handler α} {Q : α → Prop}
    (hf : ∀ team, team.ownerId = o.ownerOf teamId → (f team).Keeps (Sound o catalogue) Q) :
    (authUser actor >>= fun _ => teamForMember teamId actor >>= f).Keeps (Sound o catalogue) Q :=
  .read (reads_authUser actor) fun _ => .bind (keeps_teamForMember teamId actor) hf

/-- The identifiers a request generates are those the origins were made for. -/
def Agrees (o : Origins) (actor : Uuid) : Request → Prop
  | .createTeam _ teamId ownerRoleId =>
    o.ownerOf teamId = actor ∧ o.teamOf ownerRoleId = teamId ∧ o.system ownerRoleId = true
  | .createRole teamId _ _ _ roleId => o.teamOf roleId = teamId ∧ o.system roleId = false
  | _ => True

variable {permissions : List Text}

theorem keeps_updateRole {name : Text} {description : Option Text} :
    (updateRole catalogue actor teamId roleId name description permissions).Keeps
      (Sound o catalogue) fun _ => True := by
  refine keeps_member fun _ _ => .read (reads_authorize _ _ _) fun _ =>
    .bind (keeps_roleForTeam _ _) fun role hrole =>
    .bind (.require (Q := fun _ => o.system roleId = false) fun hplain => ?_) fun _ hsystem =>
    .read (reads_ofExcept _) fun body =>
    .read (reads_ensureCanGrant _ _ _) fun _ =>
    .bind (.transact (Q := fun _ => True) fun db t _ hdb htx =>
      ⟨hdb.replaceRole hsystem htx, trivial⟩) fun _ _ => .select fun _ _ => trivial
  rw [← hrole.1]
  simpa using hplain

theorem keeps_deleteRole :
    (deleteRole actor teamId roleId).Keeps (Sound o catalogue) fun _ => True := by
  refine keeps_member fun _ _ => .read (reads_authorize _ _ _) fun _ =>
    .bind (keeps_roleForTeam _ _) fun role hrole =>
    .bind (.require (Q := fun _ => o.system roleId = false) fun hplain => ?_) fun _ hsystem =>
    .transact fun db t _ hdb htx => ?_
  · rw [← hrole.1]
    simpa using hplain
  · obtain ⟨rfl, -⟩ := Prod.mk.inj (Except.ok.inj htx)
    exact ⟨hdb.deleteRole hsystem, trivial⟩

theorem keeps_unassignRole :
    (unassignRole actor teamId targetUserId roleId).Keeps (Sound o catalogue) fun _ => True := by
  refine keeps_member fun team hteam => .read (reads_authorizeAny _ _ _) fun _ =>
    .bind (keeps_roleForTeam _ _) fun role hrole =>
    .bind (.require (Q := fun _ => ¬(o.system roleId = true ∧ targetUserId = o.ownerOf teamId))
      fun hkeep => ?_) fun _ hkeep =>
    .transact fun db t _ hdb htx => ⟨hdb.deleteMemberRole hkeep htx, trivial⟩
  rw [← hrole.1, ← hteam]
  rintro ⟨hsystem, howner⟩
  simp [hsystem, howner] at hkeep

theorem keeps_removeMember :
    (removeMember actor teamId targetUserId).Keeps (Sound o catalogue) fun _ => True := by
  refine keeps_member fun team hteam => .read (reads_authorize _ _ _) fun _ =>
    .bind (.require (Q := fun _ => targetUserId ≠ o.ownerOf teamId) fun hne => ?_) fun _ hne =>
    .transact fun db t _ hdb htx => ⟨hdb.deleteMember hne htx, trivial⟩
  rw [← hteam]
  simpa using hne

theorem keeps_provisionMember {email : Text} {displayName : Option Text}
    {roleId : Option Uuid} {newUserId : Uuid} :
    (provisionMember lower actor teamId email displayName roleId newUserId).Keeps
      (Sound o catalogue) fun _ => True :=
  keeps_member fun _ _ => .read (reads_authorize _ _ _) fun _ =>
    .read (reads_ofExcept _) fun _ =>
    .read (reads_ofExcept _) fun _ =>
    .read (reads_select _) fun _ =>
    .read (reads_require _ _) fun _ =>
    .read (reads_ensureCanGrantRole _ _ _) fun _ =>
    .transact fun _ _ _ hdb htx => ⟨hdb.insertProvisioned htx, trivial⟩

theorem keeps_assignRole :
    (assignRole actor teamId targetUserId roleId).Keeps (Sound o catalogue) fun _ => True :=
  keeps_member fun _ _ => .read (reads_authorizeAny _ _ _) fun _ =>
    .bind (keeps_roleForTeam _ _) fun _ hrole =>
    .read (reads_select _) fun _ =>
    .read (reads_ensureCanGrant _ _ _) fun _ =>
    .read (reads_select _) fun _ =>
    .read (reads_require _ _) fun _ =>
    .transact fun _ _ _ hdb htx => ⟨hdb.insertMemberRole hrole.2 htx, trivial⟩

/-- An access-list or sharing transaction. -/
theorem keeps_transact_applications {f : Database → ApiResult (Database × α)}
    (hf : ∀ {db t a}, f db = .ok (t, a) → t.teams = db.teams ∧ t.teamMembers = db.teamMembers ∧
      t.roles = db.roles ∧ t.rolePermissions = db.rolePermissions ∧
      t.memberRoles = db.memberRoles) :
    (transact f : Handler α).Keeps (Sound o catalogue) fun _ => True := by
  refine .transact fun db t a hdb htx => ⟨?_, trivial⟩
  obtain ⟨hteams, hmembers, hroles, hpermissions, hassigned⟩ := hf htx
  exact hdb.of_tables hteams hmembers hroles hpermissions hassigned

theorem keeps_addApplicationMember {applicationId : Uuid} :
    (addApplicationMember actor teamId applicationId targetUserId permissions).Keeps
      (Sound o catalogue) fun _ => True := by
  refine .read (reads_authUser actor) fun _ => .read (reads_authorize _ _ _) fun _ =>
    .read (reads_applicationInTeam _ _) fun _ =>
    .read (reads_select _) fun _ =>
    .read (reads_require _ _) fun _ =>
    .read (reads_applicationGrant _ _ _) fun _ =>
    keeps_transact_applications fun htx => ?_
  obtain rfl := insertApplicationMember_ok htx
  exact ⟨rfl, rfl, rfl, rfl, rfl⟩

/-- **Every statement of every handler keeps the tables sound.** -/
theorem keeps_handle (h : Agrees o actor request) :
    (handle catalogue lower actor request).Keeps (Sound o catalogue) fun _ => True := by
  cases request with
  | createTeam name teamId ownerRoleId =>
    obtain ⟨howner, hteam, hsystem⟩ := h
    exact .bind (.read (reads_authUser actor) fun _ =>
      .read (reads_ofExcept _) fun _ =>
      .transact (Q := fun _ => True) fun _ _ _ hdb htx =>
        ⟨hdb.insertTeam howner hteam hsystem htx, trivial⟩) fun _ _ => .pure trivial
  | addMember teamId email =>
    refine keeps_member fun _ _ => .read (reads_authorize _ _ _) fun _ =>
      .read (reads_select _) fun target => ?_
    cases target with
    | none => exact .fail
    | some target => exact .transact fun _ _ _ hdb htx => ⟨hdb.insertMember htx, trivial⟩
  | provisionMember teamId email displayName roleId newUserId =>
    exact keeps_provisionMember.bind fun _ _ => .pure trivial
  | removeMember teamId targetUserId => exact keeps_removeMember
  | deleteTeam teamId =>
    refine keeps_member fun _ _ => .read (reads_authorize _ _ _) fun _ =>
      .transact fun _ _ _ hdb htx => ?_
    obtain ⟨rfl, -⟩ := Prod.mk.inj (Except.ok.inj htx)
    exact ⟨hdb.deleteTeam teamId, trivial⟩
  | createRole teamId name description permissions roleId =>
    obtain ⟨hteam, hsystem⟩ := h
    exact .bind (keeps_member (Q := fun _ => True) fun _ _ => .read (reads_authorize _ _ _)
      fun _ => .read (reads_ofExcept _) fun _ =>
      .read (reads_ensureCanGrant _ _ _) fun _ =>
      .bind (.transact (Q := fun _ => True) fun _ _ _ hdb htx =>
        ⟨hdb.insertRole hteam rfl hsystem htx, trivial⟩) fun _ _ => .select fun _ _ => trivial)
      fun _ _ => .pure trivial
  | updateRole teamId roleId name description permissions =>
    exact keeps_updateRole.bind fun _ _ => .pure trivial
  | deleteRole teamId roleId => exact keeps_deleteRole
  | assignRole teamId targetUserId roleId => exact keeps_assignRole
  | unassignRole teamId targetUserId roleId => exact keeps_unassignRole
  | pushApplication teamId body newId =>
    refine .bind (.read (reads_authUser actor) fun _ => .read (reads_authorize _ _ _) fun _ =>
      .read (reads_ofExcept _) fun _ =>
      keeps_transact_applications fun htx => ?_) fun _ _ => .pure trivial
    rcases upsertApplication_ok htx with ⟨old, -, -, rfl⟩ | ⟨-, rfl⟩ <;>
      exact ⟨rfl, rfl, rfl, rfl, rfl⟩
  | removeApplication teamId applicationId =>
    refine .read (reads_authUser actor) fun _ => .read (reads_authorize _ _ _) fun _ =>
      keeps_transact_applications fun htx => ?_
    obtain rfl := deleteApplication_ok htx
    exact ⟨rfl, rfl, rfl, rfl, rfl⟩
  | addApplicationMember teamId applicationId targetUserId permissions =>
    exact keeps_addApplicationMember
  | setMemberPermissions teamId applicationId targetUserId permissions =>
    refine .read (reads_authUser actor) fun _ => .read (reads_authorize _ _ _) fun _ =>
      .read (reads_applicationGrant _ _ _) fun _ => keeps_transact_applications fun htx => ?_
    obtain rfl := updateApplicationMember_ok htx
    exact ⟨rfl, rfl, rfl, rfl, rfl⟩
  | removeApplicationMember teamId applicationId targetUserId =>
    refine .read (reads_authUser actor) fun _ => .read (reads_authorize _ _ _) fun _ =>
      keeps_transact_applications fun htx => ?_
    obtain rfl := deleteApplicationMember_ok htx
    exact ⟨rfl, rfl, rfl, rfl, rfl⟩

end

/-! ## Requests in flight -/

/-- A request comes in, runs its next statement or is dropped; an account is made or gets its own
password; the service starts again, perhaps as another build. -/
inductive Event where
  | arrive (actor : Uuid) (request : Request)
  | advance (i : Nat)
  | abort (i : Nat)
  | register (user : User)
  | setPassword (userId : Uuid)
  | restart (catalogue : Catalogue)

def Database.insertUser (db : Database) (user : User) : Database :=
  if db.users.any fun u => u.id = user.id ∨ u.email = user.email then db
  else { db with users := user :: db.users }

/-- The flag a changed or reset password clears. -/
def Database.setPassword (db : Database) (userId : Uuid) : Database :=
  { db with users := db.users.map fun u =>
      if u.id = userId then { u with mustChangePassword := false } else u }

structure World where
  db : Database
  catalogue : Catalogue
  running : List (Handler Unit)

namespace World

def start (catalogue : Catalogue) : World := ⟨.empty, catalogue, []⟩

def next (lower : Text.Lowercase) (w : World) : Event → World
  | .arrive actor request =>
    { w with running := handle w.catalogue lower actor request :: w.running }
  | .advance i =>
    match w.running[i]? with
    | none => w
    | some p => { w with
        db := (p.advance w.db).1
        running := w.running.set i (p.advance w.db).2 }
  | .abort i => { w with running := w.running.eraseIdx i }
  | .register user => { w with db := w.db.insertUser user }
  | .setPassword userId => { w with db := w.db.setPassword userId }
  -- the pool of connections is gone with the process; the backfill runs before any request
  | .restart catalogue => ⟨backfillSystemRolePermissions catalogue w.db, catalogue, []⟩

end World

def Event.generated : Event → List Uuid
  | .arrive _ request => request.generated
  | .register user => [user.id]
  | _ => []

/-- `Uuid::new_v4` never returns an identifier twice. -/
def UniqueIds (events : List Event) : Prop :=
  events.Pairwise fun e e' => e.generated.Disjoint e'.generated

variable {events : List Event} {e : Event} {id : Uuid} {db : Database}

/-! ## The origins of a run -/

def Event.ownerOf (id : Uuid) : Event → Option Uuid
  | .arrive actor (.createTeam _ teamId _) => if teamId = id then some actor else none
  | _ => none

/-- The team a role is created in, and whether it is the built-in one. -/
def Event.roleOf (id : Uuid) : Event → Option (Uuid × Bool)
  | .arrive _ (.createTeam _ teamId ownerRoleId) =>
    if ownerRoleId = id then some (teamId, true) else none
  | .arrive _ (.createRole teamId _ _ _ roleId) => if roleId = id then some (teamId, false) else none
  | _ => none

def originsOf (events : List Event) : Origins where
  ownerOf id := (events.findSome? (Event.ownerOf id)).getD .nil
  teamOf id := ((events.findSome? (Event.roleOf id)).getD (.nil, false)).1
  system id := ((events.findSome? (Event.roleOf id)).getD (.nil, false)).2

theorem Event.generated_of_ownerOf (h : (e.ownerOf id).isSome = true) : id ∈ e.generated := by
  unfold Event.ownerOf at h
  split at h
  · split at h
    · next heq =>
      rw [← heq]
      exact mem_cons_self
    · cases h
  · cases h

theorem Event.generated_of_roleOf (h : (e.roleOf id).isSome = true) : id ∈ e.generated := by
  unfold Event.roleOf at h
  split at h
  · split at h
    · next heq =>
      rw [← heq]
      exact mem_cons_of_mem _ mem_cons_self
    · cases h
  · split at h
    · next heq =>
      rw [← heq]
      exact mem_cons_self
    · cases h
  · cases h

/-- What one event says of an identifier it generates is what is found. -/
theorem UniqueIds.findSome (hids : UniqueIds events) {f : Event → Option α}
    (hf : ∀ {e}, (f e).isSome = true → id ∈ e.generated) {v : α}
    (he : e ∈ events) (hv : f e = some v) : events.findSome? f = some v := by
  cases hfound : events.findSome? f with
  | none => simp [List.findSome?_eq_none_iff.mp hfound e he] at hv
  | some v' =>
    obtain ⟨e', he', hv'⟩ := exists_of_findSome?_eq_some hfound
    have : Std.Symm fun e e' : Event => e.generated.Disjoint e'.generated :=
      ⟨fun _ _ hd => hd.symm⟩
    by_cases heq : e = e'
    · exact hv'.symm.trans (heq ▸ hv)
    · exact absurd (hf (by simp [hv']))
        (List.Pairwise.forall hids he he' heq (hf (by simp [hv])))

theorem agrees_originsOf (hids : UniqueIds events) {actor : Uuid}
    (h : .arrive actor request ∈ events) : Agrees (originsOf events) actor request := by
  cases request with
  | createTeam name teamId ownerRoleId =>
    have howner : events.findSome? (Event.ownerOf teamId) = some actor :=
      hids.findSome Event.generated_of_ownerOf h (by simp [Event.ownerOf])
    have hrole : events.findSome? (Event.roleOf ownerRoleId) = some (teamId, true) :=
      hids.findSome Event.generated_of_roleOf h (by simp [Event.roleOf])
    simp [Agrees, originsOf, howner, hrole]
  | createRole teamId name description permissions roleId =>
    have hrole : events.findSome? (Event.roleOf roleId) = some (teamId, false) :=
      hids.findSome Event.generated_of_roleOf h (by simp [Event.roleOf])
    simp [Agrees, originsOf, hrole]
  | _ => exact trivial

/-! ## The invariant -/

/-- Every team has its owner as a member, the owner holds the team's built-in roles, of which there
is one, and with them every permission of the catalogue. -/
structure Managed (catalogue : Catalogue) (db : Database) : Prop where
  owner_member : ∀ team ∈ db.teams, db.isMember team.id team.ownerId = true
  has_role : ∀ team ∈ db.teams, ∃ role ∈ db.roles, role.teamId = team.id ∧ role.isSystem = true
  owner_role : ∀ team ∈ db.teams, ∀ role ∈ db.roles, role.teamId = team.id → role.isSystem = true →
    (⟨team.id, team.ownerId, role.id⟩ : MemberRole) ∈ db.memberRoles
  full : ∀ role ∈ db.roles, role.isSystem = true → ∀ key ∈ catalogue.keys,
    key ∈ db.permissionsOf role.id
  owner_holds : ∀ team ∈ db.teams, ∀ key ∈ catalogue.keys, key ∈ db.heldKeys team.id team.ownerId

theorem mem_permissionsOf {roleId : Uuid} {key : Text} :
    key ∈ db.permissionsOf roleId ↔ (⟨roleId, key⟩ : RolePermission) ∈ db.rolePermissions := by
  simp only [Database.permissionsOf, mem_map, mem_filter, decide_eq_true_eq]
  constructor
  · rintro ⟨⟨r, k⟩, ⟨hmem, rfl⟩, rfl⟩
    exact hmem
  · intro hmem
    exact ⟨_, ⟨hmem, rfl⟩, rfl⟩

theorem mem_heldKeys {teamId userId : Uuid} {key : Text} :
    key ∈ db.heldKeys teamId userId ↔ ∃ roleId,
      (⟨teamId, userId, roleId⟩ : MemberRole) ∈ db.memberRoles ∧ key ∈ db.permissionsOf roleId := by
  simp only [Database.heldKeys, mem_flatMap, mem_filter, decide_eq_true_eq]
  constructor
  · rintro ⟨⟨t, u, r⟩, ⟨hmem, rfl, rfl⟩, hkey⟩
    exact ⟨r, hmem, hkey⟩
  · rintro ⟨r, hmem, hkey⟩
    exact ⟨_, ⟨hmem, rfl, rfl⟩, hkey⟩

theorem Sound.managed {o : Origins} {catalogue : Catalogue}
    (hdb : Sound o catalogue db) : Managed catalogue db := by
  have howner : ∀ team ∈ db.teams, ∀ role ∈ db.roles, role.teamId = team.id →
      role.isSystem = true → (⟨team.id, team.ownerId, role.id⟩ : MemberRole) ∈ db.memberRoles := by
    intro team hteam role hrole hof hsys
    have hmem := hdb.owner_role role hrole hsys
    rwa [hof, ← hdb.team_owner team hteam] at hmem
  have hfull : ∀ role ∈ db.roles, role.isSystem = true → ∀ key ∈ catalogue.keys,
      key ∈ db.permissionsOf role.id :=
    fun role hrole hsys key hkey => mem_permissionsOf.mpr (hdb.system_full role hrole hsys key hkey)
  refine ⟨fun team hteam => ?_, hdb.team_role, howner, hfull, fun team hteam key hkey => ?_⟩
  · simpa [Database.isMember] using hdb.owner_member team hteam
  · obtain ⟨role, hrole, hof, hsys⟩ := hdb.team_role team hteam
    exact mem_heldKeys.mpr
      ⟨role.id, howner team hteam role hrole hof hsys, hfull role hrole hsys key hkey⟩

/-- The tables are sound and every request in flight keeps them so. -/
def World.Sound (o : Origins) (w : World) : Prop :=
  Backend.Sound o w.catalogue w.db ∧
    ∀ p ∈ w.running, p.Keeps (Backend.Sound o w.catalogue) fun _ => True

theorem World.sound_next {o : Origins} {lower : Text.Lowercase} {w : World}
    (hw : w.Sound o) (he : ∀ actor request, e = .arrive actor request → Agrees o actor request) :
    (w.next lower e).Sound o := by
  obtain ⟨hdb, hrunning⟩ := hw
  cases e with
  | arrive actor request =>
    exact ⟨hdb, forall_mem_cons.mpr ⟨keeps_handle (he actor request rfl), hrunning⟩⟩
  | advance i =>
    unfold World.next
    dsimp only
    split
    · exact ⟨hdb, hrunning⟩
    · next p hp =>
      obtain ⟨hdb', hp'⟩ := (hrunning p (mem_of_getElem? hp)).advance hdb
      refine ⟨hdb', fun q hq => ?_⟩
      rcases mem_or_eq_of_mem_set hq with hq | rfl
      · exact hrunning q hq
      · exact hp'
  | abort i => exact ⟨hdb, fun p hp => hrunning p (mem_of_mem_eraseIdx hp)⟩
  | register user =>
    refine ⟨?_, hrunning⟩
    change Backend.Sound o w.catalogue (w.db.insertUser user)
    unfold Database.insertUser
    split
    · exact hdb
    · exact hdb.of_tables rfl rfl rfl rfl rfl
  | setPassword userId => exact ⟨hdb.of_tables rfl rfl rfl rfl rfl, hrunning⟩
  | restart catalogue => exact ⟨hdb.backfill catalogue, fun p hp => nomatch hp⟩

/-- **A team never becomes unmanageable**, however the statements of requests interleave and
whenever the service restarts. -/
theorem teams_stay_managed {lower : Text.Lowercase} {catalogue : Catalogue} {w : World}
    {trace : List (Transition World Event)}
    (h : Run (fun w e w' => w' = w.next lower e) (.start catalogue) trace w)
    (hids : UniqueIds (trace.map (·.label))) :
    Managed w.catalogue w.db ∧ ∀ x ∈ trace, Managed x.post.catalogue x.post.db := by
  let o := originsOf (trace.map (·.label))
  have hinv := h.invariant (World.Sound o)
    (fun _ e => ∀ actor request, e = .arrive actor request → Agrees o actor request)
    (fun hw hok hstep => by
      subst hstep
      exact World.sound_next hw hok)
    ⟨Sound.empty, fun p hp => nomatch hp⟩
    (fun x hx actor request hlabel =>
      agrees_originsOf hids (hlabel ▸ mem_map_of_mem (f := Transition.label) hx))
  exact ⟨hinv.1.1.managed, fun x hx => (hinv.2 x hx).2.2.1.managed⟩

/-- **What a member holds in a team, a role of that team gives**, however the statements of requests
interleave. -/
theorem held_through_own_roles {lower : Text.Lowercase} {catalogue : Catalogue} {w : World}
    {trace : List (Transition World Event)}
    (h : Run (fun w e w' => w' = w.next lower e) (.start catalogue) trace w)
    (hids : UniqueIds (trace.map (·.label))) (teamId userId : Uuid) :
    ∀ key ∈ w.db.heldKeys teamId userId, ∃ role ∈ w.db.roles, role.teamId = teamId ∧
      (⟨teamId, userId, role.id⟩ : MemberRole) ∈ w.db.memberRoles ∧
      key ∈ w.db.permissionsOf role.id := by
  let o := originsOf (trace.map (·.label))
  have hsound : w.Sound o := (h.invariant (World.Sound o)
    (fun _ e => ∀ actor request, e = .arrive actor request → Agrees o actor request)
    (fun hw hok hstep => by
      subst hstep
      exact World.sound_next hw hok)
    ⟨Sound.empty, fun p hp => nomatch hp⟩
    (fun x hx actor request hlabel =>
      agrees_originsOf hids (hlabel ▸ mem_map_of_mem (f := Transition.label) hx))).1
  intro key hkey
  obtain ⟨roleId, hassigned, hpermitted⟩ := mem_heldKeys.mp hkey
  obtain ⟨⟨role, hrole, rfl⟩, hteam⟩ := hsound.1.assigned _ hassigned
  exact ⟨role, hrole, (hsound.1.role_origin role hrole).1.trans hteam.symm, hassigned, hpermitted⟩

/-- An account, and the identifiers of its first team. -/
def founder : User where
  id := .repeated 1
  email := "lead@example.org"
  displayName := "Lead"
  mustChangePassword := false

def foundedTeam : Team := ⟨.repeated 2, "Lobby", founder.id⟩

/-- They found it, the backend starts again, and they try to take the role off themselves and to
delete it. -/
def founding : List Event :=
  [.register founder, .arrive founder.id (.createTeam foundedTeam.name foundedTeam.id .max),
    .advance 0, .advance 0, .restart allPermissions,
    .arrive founder.id (.unassignRole foundedTeam.id founder.id .max)] ++
  replicate 6 (.advance 0) ++ [.arrive founder.id (.deleteRole foundedTeam.id .max)] ++
  replicate 6 (.advance 0)

theorem founding_managed :
    (founding.foldl (World.next .asciiOnly) (.start allPermissions)).db.teams = [foundedTeam] ∧
      (founding.foldl (World.next .asciiOnly) (.start allPermissions)).db.memberRoles =
        [⟨foundedTeam.id, founder.id, .max⟩] ∧
      Managed allPermissions
        (founding.foldl (World.next .asciiOnly) (.start allPermissions)).db := by
  refine ⟨by decide, by decide, ?_⟩
  have hids : UniqueIds ((traceOf (World.next .asciiOnly) (.start allPermissions) founding).map
      (·.label)) := by
    simp [UniqueIds, founding, traceOf, Event.generated, Request.generated]
    decide
  exact (teams_stay_managed (run_traceOf _ _ founding) hids).1

theorem founder_held_through_role :
    ∃ role ∈ (founding.foldl (World.next .asciiOnly) (.start allPermissions)).db.roles,
      role.teamId = foundedTeam.id := by
  have hids : UniqueIds ((traceOf (World.next .asciiOnly) (.start allPermissions) founding).map
      (·.label)) := by
    simp [UniqueIds, founding, traceOf, Event.generated, Request.generated]
    decide
  obtain ⟨role, hrole, hteam, -⟩ := held_through_own_roles (run_traceOf _ _ founding) hids
    foundedTeam.id founder.id Permissions.applicationsCreate (by decide)
  exact ⟨role, hrole, hteam⟩

end VibeSsh.Backend
