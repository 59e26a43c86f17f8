import VibeSsh.Backend.Escalation

/-! # Applications restricted to named members

An application is restricted as long as its access list has a row, so whatever takes the last row
away shows it to the whole team. A request to the access list may do that on purpose. Removing a
member from the team does it as well, through the cascade, when that member is the only one named;
nothing else does (`restricted_of_effect`). -/

open List

namespace VibeSsh.Backend

open Lib Prog

/-- Every access-list row is of an application of its own team, and an identifier stands for one. -/
structure Listed (db : Database) : Prop where
  shared : ∀ am ∈ db.applicationMembers,
    ∃ a ∈ db.teamApplications, a.id = am.applicationId ∧ a.teamId = am.teamId
  one_team : ∀ a ∈ db.teamApplications, ∀ b ∈ db.teamApplications, a.id = b.id →
    a.teamId = b.teamId

def Restricted (db : Database) (applicationId : Uuid) : Prop :=
  ∃ am ∈ db.applicationMembers, am.applicationId = applicationId

namespace Listed

variable {db t : Database}

theorem empty : Listed .empty := ⟨by simp [Database.empty], by simp [Database.empty]⟩

section

variable (h : Listed db)
include h

theorem of_tables (happlications : t.teamApplications = db.teamApplications)
    (hmembers : ∀ am ∈ t.applicationMembers, am ∈ db.applicationMembers) : Listed t := by
  constructor
  · intro am ham
    rw [happlications]
    exact h.shared am (hmembers am ham)
  · rw [happlications]
    exact h.one_team

theorem deleteApplications (gone : TeamApplication → Bool) :
    Listed (db.deleteApplications gone) := by
  constructor
  · intro am ham
    obtain ⟨hmem, hkept⟩ := mem_filter.mp ham
    obtain ⟨a, ha, hid, hteam⟩ := h.shared am hmem
    refine ⟨a, mem_filter.mpr ⟨ha, ?_⟩, hid, hteam⟩
    rw [Bool.not_eq_true']
    by_contra hgone
    have hids : am.applicationId ∈ (db.teamApplications.filter gone).map (·.id) :=
      mem_map.mpr ⟨a, mem_filter.mpr ⟨ha, by simpa using hgone⟩, hid⟩
    rw [contains_iff_mem.mpr hids] at hkept
    cases hkept
  · exact fun a ha b hb => h.one_team a (mem_of_mem_filter ha) b (mem_of_mem_filter hb)

theorem upsertApplication {row row' : TeamApplication}
    (htx : Backend.upsertApplication row db = .ok (t, row')) : Listed t := by
  rcases upsertApplication_ok htx with ⟨old, hold, hteam, rfl⟩ | ⟨hfree, rfl⟩
  · -- the row pushed again keeps its identifier and its team
    let push : TeamApplication → TeamApplication := fun a =>
      if a.id = old.id then { row with id := old.id } else a
    have hpush : ∀ a ∈ db.teamApplications, (push a).id = a.id ∧ (push a).teamId = a.teamId := by
      intro a ha
      dsimp only [push]
      split
      · next hid => exact ⟨hid.symm, hteam.symm.trans (h.one_team old hold a ha hid.symm)⟩
      · exact ⟨rfl, rfl⟩
    constructor
    · intro am ham
      obtain ⟨a, ha, hid, hof⟩ := h.shared am ham
      obtain ⟨hid', hof'⟩ := hpush a ha
      exact ⟨push a, mem_map_of_mem ha, hid'.trans hid, hof'.trans hof⟩
    · refine forall_mem_map.mpr fun a ha => forall_mem_map.mpr fun b hb hid => ?_
      obtain ⟨hida, hofa⟩ := hpush a ha
      obtain ⟨hidb, hofb⟩ := hpush b hb
      exact hofa.trans ((h.one_team a ha b hb (hida.symm.trans (hid.trans hidb))).trans hofb.symm)
  · constructor
    · intro am ham
      obtain ⟨a, ha, hof⟩ := h.shared am ham
      exact ⟨a, mem_cons_of_mem _ ha, hof⟩
    · refine forall_mem_cons.mpr ⟨forall_mem_cons.mpr ⟨fun _ => rfl, ?_⟩, ?_⟩
      · exact fun b hb hid => absurd hid.symm (hfree b hb)
      · intro a ha
        exact forall_mem_cons.mpr
          ⟨fun hid => absurd hid (hfree a ha), fun b hb => h.one_team a ha b hb⟩

/-- The tables once a team's roles and members are gone. -/
theorem withoutMembers (teamId : Uuid) :
    Listed ((({ db with teams := db.teams.filter (·.id ≠ teamId) } : Database).deleteRoles
      (·.teamId = teamId)).deleteMembers (·.teamId = teamId)) :=
  h.of_tables rfl fun _ ham => mem_of_mem_filter ham

theorem of_effect {catalogue : Catalogue} {actor : Uuid} {request : Request}
    (heffect : Effect catalogue db actor request t) : Listed t := by
  have hother := heffect.applications_eq
  cases heffect with
  | removeMember htx =>
    obtain rfl := deleteMember_ok htx
    exact h.of_tables rfl fun _ => mem_of_mem_filter
  | deleteTeam =>
    exact (h.withoutMembers _).deleteApplications _
  | pushApplication _ htx => exact h.upsertApplication htx
  | removeApplication htx =>
    obtain rfl := deleteApplication_ok htx
    exact h.deleteApplications _
  | addApplicationMember hshared _ htx =>
    obtain rfl := insertApplicationMember_ok htx
    exact ⟨forall_mem_cons.mpr ⟨hshared, h.shared⟩, h.one_team⟩
  | setMemberPermissions _ htx =>
    obtain rfl := updateApplicationMember_ok htx
    refine ⟨forall_mem_map.mpr fun am ham => ?_, h.one_team⟩
    obtain ⟨a, ha, hof⟩ := h.shared am ham
    refine ⟨a, ha, ?_⟩
    split <;> exact hof
  | removeApplicationMember htx =>
    obtain rfl := deleteApplicationMember_ok htx
    exact h.of_tables rfl fun _ => mem_of_mem_filter
  | _ => exact h.of_tables (hother rfl).1 fun _ ham => (hother rfl).2 ▸ ham

end

end Listed

/-! ## How a restriction ends -/

section

variable {catalogue : Catalogue} {lower : Text.Lowercase} {db t : Database} {actor : Uuid}
  {applicationId : Uuid}

/-- The request removes from the team the only member the application is restricted to. -/
def RemovesLast (applicationId : Uuid) (db : Database) (request : Request) : Prop :=
  ∃ teamId targetUserId, request = .removeMember teamId targetUserId ∧
    ∀ am ∈ db.applicationMembers, am.applicationId = applicationId →
      am.teamId = teamId ∧ am.userId = targetUserId

/-- Deleting applications leaves a restriction in place or takes the application along. -/
theorem restricted_deleteApplications (h : Listed db) {gone : TeamApplication → Bool}
    (hteam : ∀ a b : TeamApplication, a.id = b.id → a.teamId = b.teamId → gone a = gone b)
    (hrestricted : Restricted db applicationId) :
    Restricted (db.deleteApplications gone) applicationId ∨
      applicationId ∉ Table.applications.ids (db.deleteApplications gone) := by
  obtain ⟨am, ham, rfl⟩ := hrestricted
  by_cases hgone : am.applicationId ∈ (db.teamApplications.filter gone).map (·.id)
  · refine .inr fun hmem => ?_
    obtain ⟨a, ha, haid⟩ := mem_map.mp hgone
    obtain ⟨b, hb, hbid⟩ := mem_map.mp hmem
    obtain ⟨ha, hagone⟩ := mem_filter.mp ha
    obtain ⟨hb, hbkept⟩ := mem_filter.mp hb
    have hid : a.id = b.id := haid.trans hbid.symm
    rw [← hteam a b hid (h.one_team a ha b hb hid), hagone] at hbkept
    cases hbkept
  · refine .inl ⟨am, mem_filter.mpr ⟨ham, ?_⟩, rfl⟩
    rw [← contains_iff_mem, Bool.not_eq_true] at hgone
    rw [hgone]
    rfl

theorem restricted_deleteTeam (h : Listed db) {teamId : Uuid}
    (hrestricted : Restricted db applicationId) :
    Restricted (db.deleteTeam teamId) applicationId ∨
      applicationId ∉ Table.applications.ids (db.deleteTeam teamId) := by
  obtain ⟨am, ham, rfl⟩ := hrestricted
  by_cases hteam : am.teamId = teamId
  · -- the application is of the same team
    refine .inr fun hmem => ?_
    obtain ⟨b, hb, hbid⟩ := mem_map.mp hmem
    obtain ⟨hb, hbkept⟩ := mem_filter.mp hb
    obtain ⟨a, ha, haid, hateam⟩ := h.shared am ham
    have hsame := h.one_team a ha b hb (haid.trans hbid.symm)
    simp [← hsame, hateam, hteam] at hbkept
  · refine restricted_deleteApplications (h.withoutMembers teamId) (fun a b _ hof => by rw [hof])
      ⟨am, ?_, rfl⟩
    exact mem_filter.mpr ⟨ham, by simpa using hteam⟩

/-- **A restriction ends with its application, by a request to the access list, or with the removal
of the only member named.** -/
theorem restricted_of_effect (h : Listed db) {request : Request}
    (heffect : Effect catalogue db actor request t) (hrestricted : Restricted db applicationId) :
    Restricted t applicationId ∨ applicationId ∉ Table.applications.ids t ∨
      RemovesLast applicationId db request ∨
      ∃ teamId targetUserId, request = .removeApplicationMember teamId applicationId targetUserId := by
  have hother := heffect.applications_eq
  cases heffect with
  | @removeMember teamId targetUserId _ htx =>
    obtain rfl := deleteMember_ok htx
    by_cases hlast : ∀ am ∈ db.applicationMembers, am.applicationId = applicationId →
        am.teamId = teamId ∧ am.userId = targetUserId
    · exact .inr (.inr (.inl ⟨teamId, targetUserId, rfl, hlast⟩))
    · simp only [not_forall] at hlast
      obtain ⟨am, ham, hid, hother⟩ := hlast
      refine .inl ⟨am, mem_filter.mpr ⟨ham, ?_⟩, hid⟩
      dsimp only
      rw [decide_eq_false hother]
      rfl
  | deleteTeam => exact (restricted_deleteTeam h hrestricted).imp_right .inl
  | pushApplication _ htx =>
    rcases upsertApplication_ok htx with ⟨old, -, -, rfl⟩ | ⟨-, rfl⟩ <;> exact .inl hrestricted
  | removeApplication htx =>
    obtain rfl := deleteApplication_ok htx
    exact (restricted_deleteApplications h (fun a b hid hof => by rw [hid, hof])
      hrestricted).imp_right .inl
  | addApplicationMember _ _ htx =>
    obtain rfl := insertApplicationMember_ok htx
    obtain ⟨am, ham, hid⟩ := hrestricted
    exact .inl ⟨am, mem_cons_of_mem _ ham, hid⟩
  | setMemberPermissions _ htx =>
    obtain rfl := updateApplicationMember_ok htx
    obtain ⟨am, ham, hid⟩ := hrestricted
    refine .inl ⟨_, mem_map_of_mem ham, ?_⟩
    split <;> exact hid
  | @removeApplicationMember teamId other targetUserId _ htx =>
    obtain rfl := deleteApplicationMember_ok htx
    by_cases hother : other = applicationId
    · exact .inr (.inr (.inr ⟨teamId, targetUserId, by rw [hother]⟩))
    · obtain ⟨am, ham, rfl⟩ := hrestricted
      refine .inl ⟨am, mem_filter.mpr ⟨ham, ?_⟩, rfl⟩
      have hnot : am.is other teamId targetUserId = false := by
        simp [ApplicationMember.is, Ne.symm hother]
      rw [hnot]
      rfl
  | _ =>
    obtain ⟨am, ham, hid⟩ := hrestricted
    exact .inl ⟨am, (hother rfl).2 ▸ ham, hid⟩

/-! ## Over a run -/

/-- A request to the access list, by somebody who may change it, takes the last name off it. -/
def Lifts (applicationId : Uuid) (x : Transition Database Call) : Prop :=
  ∃ actor teamId targetUserId,
    x.label = .request actor (.removeApplicationMember teamId applicationId targetUserId) ∧
    Permissions.applicationsCreate ∈ x.pre.heldKeys teamId actor ∧
    Restricted x.pre applicationId ∧ ¬Restricted x.post applicationId

/-- The application is shown to its pusher and to the members named, and to nobody else. -/
def ShownToNamed (applicationId : Uuid) (db : Database) : Prop :=
  ∀ userId teamId shown, ((listApplications userId teamId).exec db).1 = .ok shown →
    ∀ application ∈ shown, application.id = applicationId →
      application.pushedBy = some userId ∨
        ∃ am ∈ db.applicationMembers, am.applicationId = applicationId ∧ am.userId = userId

theorem shown_of_listApplications {userId teamId : Uuid} {shown : List TeamApplication}
    (h : ((listApplications userId teamId).exec db).1 = .ok shown) :
    ∀ a ∈ shown, a ∈ db.teamApplications ∧ db.sees userId a = true := by
  unfold listApplications at h
  rw [exec_bind] at h
  split at h
  next huser =>
    have hsame := (reads_authUser userId).exec db
    rw [huser] at hsame
    obtain rfl : db = _ := hsame.symm
    rw [exec_bind] at h
    split at h
    next hteam =>
      have hsame := (reads_teamForMember teamId userId).exec db
      rw [hteam] at hsame
      obtain rfl : db = _ := hsame.symm
      obtain rfl := Except.ok.inj h
      intro a ha
      have hmem := mem_filter.mp ((mem_insertionSort _).mp ha)
      simp only [decide_eq_true_eq] at hmem
      exact ⟨hmem.1, hmem.2.2⟩
    next => cases h
  next => cases h

theorem shownToNamed_of (h : Restricted db applicationId ∨
    applicationId ∉ Table.applications.ids db) : ShownToNamed applicationId db := by
  intro userId teamId shown hshown application happlication hid
  obtain ⟨hmem, hsees⟩ := shown_of_listApplications hshown application happlication
  subst hid
  have hrestricted : Restricted db application.id :=
    h.resolve_right fun habsent => habsent (mem_map_of_mem hmem)
  obtain ⟨am, ham, hof⟩ := hrestricted
  have hany : (db.applicationMembers.any (·.applicationId = application.id)) = true := by
    simpa using ⟨am, ham, hof⟩
  simpa [Database.sees, hany] using hsees

/-- Restricted, or gone. -/
def Covered (applicationId : Uuid) (db : Database) : Prop :=
  Restricted db applicationId ∨ applicationId ∉ Table.applications.ids db

theorem covered_serve (h : Listed db) {call : Call} (hnew : applicationId ∉ call.event.generated)
    (hcovered : Covered applicationId db)
    (hkeeps : ∀ actor request, call = .request actor request →
      Restricted db applicationId → ¬RemovesLast applicationId db request) :
    Covered applicationId (serve catalogue lower db call) ∨
      Lifts applicationId ⟨db, call, serve catalogue lower db call⟩ := by
  rcases hcovered with hrestricted | habsent
  · cases call with
    | request actor request =>
      by_cases hstill : Restricted (serve catalogue lower db (.request actor request)) applicationId
      · exact .inl (.inl hstill)
      have hchanges : (handle catalogue lower actor request).Changes db
          (serve catalogue lower db (.request actor request)) :=
        ⟨rfl, fun hsame => hstill (by rwa [hsame])⟩
      rcases restricted_of_effect h (effect_of_changes hchanges) hrestricted with
        hstays | hgone | hlast | ⟨teamId, targetUserId, rfl⟩
      · exact absurd hstays hstill
      · exact .inl (.inr hgone)
      · exact absurd hlast (hkeeps actor request rfl hrestricted)
      · obtain ⟨-, -, h⟩ := hchanges.of_bind (reads_authUser actor)
        obtain ⟨⟨⟩, hheld, -⟩ := h.of_bind (reads_authorize _ _ _)
        exact .inr ⟨actor, teamId, targetUserId, rfl,
          by simpa [Database.holdsAny] using of_select_require hheld, hrestricted, hstill⟩
    | register user =>
      refine .inl (.inl ?_)
      change Restricted (db.insertUser user) applicationId
      unfold Database.insertUser
      split <;> exact hrestricted
    | setPassword userId => exact .inl (.inl hrestricted)
  · refine .inl (.inr fun hid => ?_)
    rcases ids_of_serve hid with hid | hid
    · exact habsent hid
    · exact hnew hid

theorem listed_serve (h : Listed db) (call : Call) : Listed (serve catalogue lower db call) := by
  cases call with
  | request actor request =>
    rcases serve_request actor request with hsame | heffect
    · rw [hsame]
      exact h
    · exact h.of_effect heffect
  | register user =>
    change Listed (db.insertUser user)
    unfold Database.insertUser
    split
    · exact h
    · exact h.of_tables rfl fun _ h => h
  | setPassword userId => exact h.of_tables rfl fun _ h => h

end

/-- **Access lists keep to their team's applications**, whatever requests are served. -/
theorem access_lists_stay_in_team (catalogue : Catalogue) (lower : Text.Lowercase)
    (calls : List Call) : Listed (calls.foldl (serve catalogue lower) .empty) := by
  refine ((run_traceOf (serve catalogue lower) .empty calls).invariant Listed (fun _ _ => True)
    (fun hs _ hstep => ?_) .empty fun _ _ => trivial).1
  subst hstep
  exact listed_serve hs _

/-- **A restricted application stays restricted**, as long as the only member it is restricted to is
not removed from the team: it is shown to its pusher and the members named, until a request empties
its access list. -/
theorem restriction_stays {catalogue : Catalogue} {lower : Text.Lowercase} {db db' : Database}
    {before after : List (Transition Database Call)} {applicationId : Uuid}
    (hbefore : Serves catalogue lower .empty before db)
    (hafter : Serves catalogue lower db after db')
    (hids : UniqueIds ((before ++ after).map (·.label.event)))
    (hrestricted : Restricted db applicationId)
    (hkeeps : ∀ x ∈ after, ∀ actor request, x.label = .request actor request →
      Restricted x.pre applicationId → ¬RemovesLast applicationId x.pre request) :
    ShownToNamed applicationId db' ∨ ∃ x ∈ after, Lifts applicationId x := by
  have hlisted : Listed db := by
    refine (hbefore.invariant Listed (fun _ _ => True) (fun hs _ hstep => ?_) .empty
      fun _ _ => trivial).1
    subst hstep
    exact listed_serve hs _
  have hid : applicationId ∈ Table.applications.ids db := by
    obtain ⟨am, ham, rfl⟩ := hrestricted
    obtain ⟨a, ha, haid, -⟩ := hlisted.shared am ham
    exact mem_map.mpr ⟨a, ha, haid⟩
  have hnew := not_generated_of_mem_ids hbefore hids hid
  have hcovered : Covered applicationId db := .inl hrestricted
  clear hids hbefore hid hrestricted
  induction hafter with
  | nil s => exact .inl (shownToNamed_of hcovered)
  | cons hstep _ ih =>
    subst hstep
    rcases covered_serve hlisted (hnew _ mem_cons_self) hcovered
      (hkeeps _ mem_cons_self) with hnext | hlifts
    · refine (ih (fun x hx => hkeeps x (mem_cons_of_mem _ hx)) (listed_serve hlisted _)
        (fun x hx => hnew x (mem_cons_of_mem _ hx)) hnext).imp_right ?_
      rintro ⟨x, hx, hlifts⟩
      exact ⟨x, mem_cons_of_mem _ hx, hlifts⟩
    · exact .inr ⟨_, mem_cons_self, hlifts⟩

def visitor : User where
  id := .repeated 5
  email := "visitor@example.org"
  displayName := "Visitor"
  mustChangePassword := false

def lobby : Uuid := .repeated 6

def lobbyBody : PushTeamApplicationRequest :=
  ⟨.nil, none, "lobby", "paper", "docker", "/srv/lobby", [], []⟩

/-- The founder shares an application and restricts it to the manager. -/
def sharing : List Call :=
  [.register founder, .register manager, .register visitor,
    .request founder.id (.createTeam foundedTeam.name foundedTeam.id .max),
    .request founder.id (.addMember foundedTeam.id manager.email),
    .request founder.id (.addMember foundedTeam.id visitor.email),
    .request founder.id (.pushApplication foundedTeam.id lobbyBody lobby),
    .request founder.id (.addApplicationMember foundedTeam.id lobby manager.id [])]

def afterSharing : Database := sharing.foldl (serve allPermissions .asciiOnly) .empty

theorem restricted_afterSharing : Restricted afterSharing lobby :=
  ⟨⟨lobby, foundedTeam.id, manager.id, some founder.id, []⟩, by decide, rfl⟩

def visitorLeaves : List Call := [.request founder.id (.removeMember foundedTeam.id visitor.id)]

def managerLeaves : List Call := [.request founder.id (.removeMember foundedTeam.id manager.id)]

theorem lobby_stays_restricted :
    ShownToNamed lobby (visitorLeaves.foldl (serve allPermissions .asciiOnly) afterSharing) ∨
      ∃ x ∈ traceOf (serve allPermissions .asciiOnly) afterSharing visitorLeaves,
        Lifts lobby x := by
  have hids : UniqueIds ((traceOf (serve allPermissions .asciiOnly) .empty sharing ++
      traceOf (serve allPermissions .asciiOnly) afterSharing visitorLeaves).map
        (·.label.event)) := by
    simp [UniqueIds, sharing, visitorLeaves, traceOf, Call.event, Event.generated,
      Request.generated]
    decide
  refine restriction_stays (run_traceOf _ _ sharing) (run_traceOf _ _ visitorLeaves) hids
    restricted_afterSharing ?_
  rintro x hx actor request hlabel - ⟨teamId, targetUserId, rfl, hall⟩
  obtain rfl := mem_singleton.mp hx
  cases hlabel
  have hnamed := hall ⟨lobby, foundedTeam.id, manager.id, some founder.id, []⟩
    (by decide) rfl
  exact absurd hnamed.2 (by decide)

/-- With the only member named gone from the team, the visitor is shown the application. -/
theorem removing_last_named_shows_all : Restricted afterSharing lobby ∧
    ¬(ShownToNamed lobby (managerLeaves.foldl (serve allPermissions .asciiOnly) afterSharing) ∨
      ∃ x ∈ traceOf (serve allPermissions .asciiOnly) afterSharing managerLeaves,
        Lifts lobby x) := by
  refine ⟨restricted_afterSharing, ?_⟩
  rintro (hshown | ⟨x, hx, actor, teamId, targetUserId, hlabel, -⟩)
  · have hlisted := hshown visitor.id foundedTeam.id
      [⟨lobby, foundedTeam.id, none, .nil, "lobby", "paper", "docker",
        "/srv/lobby", [], [], some founder.id⟩] (by decide) _ mem_cons_self rfl
    rcases hlisted with hpusher | ⟨am, ham, -⟩
    · exact absurd hpusher (by decide)
    · have hnone : (managerLeaves.foldl (serve allPermissions .asciiOnly)
          afterSharing).applicationMembers = [] := by decide
      rw [hnone] at ham
      cases ham
  · obtain rfl := mem_singleton.mp hx
    cases hlabel

end VibeSsh.Backend
