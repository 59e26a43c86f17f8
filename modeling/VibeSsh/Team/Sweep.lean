import VibeSsh.Lib.Run
import VibeSsh.Team.SharedNode

/-! # The background sweep

`team_access_service::sync_administered_team_access` over whole histories. The sweep reads each team's
lists, goes through the team's Nodes that this installation administers, and leaves out a Node whose
lists have the fingerprint it was last brought in line with. Meanwhile the lists change, and others sync
the same Nodes. -/

namespace VibeSsh.TeamAccess

open Lib List Option Function

/-! ## The sweep and its surroundings -/

/-- `CloudServer`, as far as the sweep reads it. -/
structure TeamServer where
  id : Uuid
  name : Text
  host : Text
  sshPort : Int
  deriving DecidableEq

abbrev Address := Text × Int

def TeamServer.address (server : TeamServer) : Address := (server.host, server.sshPort)

inductive ConnectionMode where
  | ssh
  | agent
  deriving DecidableEq

structure LocalServer where
  id : Uuid
  host : Text
  sshPort : UInt16
  username : Text
  connectionMode : ConnectionMode

/-- This installation has an entry for the Node under an account of its own. -/
def administers (server : TeamServer) (entry : LocalServer) : Bool :=
  entry.host = server.host && (entry.sshPort.toNat : Int) = server.sshPort &&
    !("vibessh-m-".toList.isPrefixOf entry.username) && entry.connectionMode = .ssh

structure Team where
  id : Uuid
  servers : List TeamServer

/-- What does not change: the Nodes' tools, this installation's entries, and the hash. -/
structure Setup where
  tools : Address → MemberAccount.Node
  locals : List LocalServer
  digest : Uuid → Uuid → List Member → List Uuid → UInt64

def Setup.fingerprint (setup : Setup) (members : List Member) (pending : List Revocation)
    (teamServerId localServerId : Uuid) : UInt64 :=
  setup.digest teamServerId localServerId members ((rowsOn teamServerId pending).map (·.id))

structure AccessSweepProblem where
  teamServerId : Uuid
  serverName : Text
  error : Option Text
  members : List Text

/-- A team whose lists have been read, with the Nodes still to be visited. -/
structure Reading where
  team : Uuid
  servers : List TeamServer
  members : List Member
  pending : List Revocation

structure Sweep where
  teams : List Team
  reading : Option Reading
  /-- The Nodes it has been through, each with the list it had read. -/
  visited : Uuid → Option (TeamServer × List Member)
  problems : List AccessSweepProblem

def Sweep.report (sweep : Sweep) (problem : AccessSweepProblem) : Sweep :=
  { sweep with problems := sweep.problems ++ [problem] }

structure World where
  access : Uuid → List Member
  pending : Uuid → List Revocation
  nodes : Address → Accounts
  lastSwept : Uuid → Option UInt64
  /-- The list behind the remembered fingerprint. -/
  inLineWith : Uuid → Option (TeamServer × List Member)
  sweep : Option Sweep

/-- How a sync ends: its scripts, and whether the two lists can be read. -/
structure Ending where
  answers : Answers
  membersError : Option AppError
  pendingError : Option AppError

inductive HistoryEvent where
  /-- The access list of a team, or what it is owed, changes. -/
  | change (team : Uuid) (members : List Member) (pending : List Revocation)
  /-- A manual sync, or one by another installation. -/
  | sync (team : Uuid) (server : TeamServer) (ending : Ending)
  | start (teams : List Team)
  | read (readable : Bool)
  /-- The next Node, with the applications that could not be shared. -/
  | visit (ending : Ending) (unshared : List Text)
  | finish
  | abandon

/-! ## Steps -/

def orError {α : Type} (value : α) : Option AppError → AppResult α
  | some e => .error e
  | none => .ok value

section

variable (setup : Setup) (w : World)

def World.syncRun (team : Uuid) (server : TeamServer) (ending : Ending) : SyncRun :=
  syncTeamAccess (setup.tools server.address) server.id ending.answers
    (orError (w.access team) ending.membersError) (orError (w.pending team) ending.pendingError)

/-- The revocations the backend has been told of. -/
def SyncRun.completed (run : SyncRun) : List Uuid :=
  match run.result with
  | .ok sync => (sync.revocations.filter (·.completed)).map (·.id)
  | .error _ => []

def World.synced (team : Uuid) (server : TeamServer) (run : SyncRun) : World :=
  { w with
    nodes := Function.update w.nodes server.address (run.on (w.nodes server.address))
    pending := Function.update w.pending team
      ((w.pending team).filter fun row => !run.completed.contains row.id) }

def NodeAccessSync.failed (sync : NodeAccessSync) : List Text :=
  (sync.members.filter (·.error.isSome)).map (·.email) ++
    (sync.revocations.filter (!·.completed)).map (·.email)

def World.visit (sweep : Sweep) (reading : Reading) (server : TeamServer) (rest : List TeamServer)
    (ending : Ending) (unshared : List Text) : World :=
  let sweep : Sweep :=
    { sweep with
      reading := some { reading with servers := rest }
      visited := Function.update sweep.visited server.id (some (server, reading.members)) }
  match setup.locals.find? (administers server) with
  | none => { w with sweep := some sweep }
  | some entry =>
    let sweep := if unshared.isEmpty then sweep else
      sweep.report ⟨server.id, server.name, some ("couldn't share " ++
        Text.join ", " unshared ++ " with the team"), []⟩
    let wanted := setup.fingerprint reading.members reading.pending server.id entry.id
    if w.lastSwept server.id = some wanted then { w with sweep := some sweep }
    else
      let run := w.syncRun setup reading.team server ending
      let after := w.synced reading.team server run
      match run.result with
      | .ok sync =>
        if sync.failed.isEmpty then
          { after with
            lastSwept := Function.update w.lastSwept server.id (some wanted)
            inLineWith := Function.update w.inLineWith server.id
              (some (server, w.access reading.team))
            sweep := some sweep }
        else
          { after with sweep := some (sweep.report ⟨server.id, server.name, none, sync.failed⟩) }
      | .error e =>
        { after with
          sweep := some (sweep.report ⟨server.id, server.name, some e.display, []⟩) }

/-- All Nodes of the team it is at have been visited. -/
def Sweep.between (sweep : Sweep) : Bool := sweep.reading.all (·.servers.isEmpty)

def World.step : HistoryEvent → Option World
  | .change team members pending =>
    some { w with
      access := Function.update w.access team members
      pending := Function.update w.pending team pending }
  | .sync team server ending =>
    some (w.synced team server (w.syncRun setup team server ending))
  | .start teams =>
    if w.sweep.isSome then none
    else some { w with sweep := some ⟨teams, none, fun _ => none, []⟩ }
  | .read readable =>
    match w.sweep with
    | some ⟨team :: teams, reading, visited, problems⟩ =>
      if !Sweep.between ⟨team :: teams, reading, visited, problems⟩ then none
      else
        let reading := if readable then
          some ⟨team.id, team.servers, w.access team.id, w.pending team.id⟩ else none
        some { w with sweep := some ⟨teams, reading, visited, problems⟩ }
    | _ => none
  | .visit ending unshared =>
    match w.sweep with
    | none => none
    | some sweep =>
      match sweep.reading with
      | none => none
      | some reading =>
        match reading.servers with
        | [] => none
        | server :: rest => some (w.visit setup sweep reading server rest ending unshared)
  | .finish =>
    match w.sweep with
    | some sweep => if sweep.teams.isEmpty && sweep.between then some { w with sweep := none } else none
    | none => none
  | .abandon => some { w with sweep := none }

/-- The app has just been started. -/
structure World.Fresh : Prop where
  lastSwept : ∀ t, w.lastSwept t = none
  inLineWith : ∀ t, w.inLineWith t = none
  sweep : w.sweep = none

/-! ## What is claimed, and when it holds -/

/-- The account holds what the list says, and can be used if there is a key for it. -/
def Agrees (tools : MemberAccount.Node) (teamServerId : Uuid) (member : Member)
    (account : Account) : Prop :=
  Matches tools teamServerId member account ∧
    (member.publicKeys ≠ [] → account.present = true ∧ account.expired = false)

/-- Every Node a sweep has been through without reporting a problem agrees with the list it read. It
is about the people on the list and says nothing of those taken off it. -/
def World.SweepSound : Prop :=
  ∀ sweep, w.sweep = some sweep → ∀ t server members, sweep.visited t = some (server, members) →
    (∀ problem ∈ sweep.problems, problem.teamServerId ≠ t) →
    ∀ member ∈ members, Agrees (setup.tools server.address) t member
      (w.nodes server.address member.nodeUsername)

/-- Writes that repeat what the list says of an account. -/
structure Confirms (tools : MemberAccount.Node) (teamServerId : Uuid) (member : Member)
    (log : List Write) : Prop where
  keys : ∀ file ∈ lastKeys log, file = member.publicKeys
  rules : ∀ file ∈ lastRules log, file = rulesFor tools teamServerId member
  current : member.publicKeys ≠ [] → lastExpired log ≠ some true

/-- A sync of the Node at an address leaves alone what a remembered list says. -/
def World.Undisturbed (address : Address) (log : List (Text × Write)) (t : Uuid) : Prop :=
  ∀ server members, w.inLineWith t = some (server, members) → server.address = address →
    ∀ member ∈ members, Confirms (setup.tools address) t member
      (Replay.under member.nodeUsername log)

/-- The sync serves the member, and revokes nothing on an account it has granted. -/
structure Served (tools : MemberAccount.Node) (teamServerId : Uuid) (a : Answers)
    (members : List Member) (pending : List Revocation) (s : Accounts) (member : Member) :
    Prop where
  keys : KeysServed teamServerId a members pending s member
  rules : RulesServed tools teamServerId members pending s member
  current : member.publicKeys ≠ [] → revocationsOf teamServerId pending member.nodeUsername = []

/-- The sweep leaves a Node out only with the list it was last brought in line with, and otherwise
syncs it with the list it has read, which serves every member. -/
def World.SteadyVisit (reading : Reading) (server : TeamServer) (ending : Ending) : Prop :=
  match setup.locals.find? (administers server) with
  | none => False
  | some entry =>
    if w.lastSwept server.id =
        some (setup.fingerprint reading.members reading.pending server.id entry.id) then
      w.inLineWith server.id = some (server, reading.members)
    else
      let run := w.syncRun setup reading.team server ending
      let complete := ∃ sync, run.result = .ok sync ∧ sync.complete = true
      (∀ t, t ≠ server.id ∨ ¬ complete → w.Undisturbed setup server.address run.log t) ∧
        (complete → w.access reading.team = reading.members ∧
          ∀ member ∈ reading.members,
            Served (setup.tools server.address) server.id ending.answers reading.members
              (w.pending reading.team) (w.nodes server.address) member)

def World.Steady : HistoryEvent → Prop
  | .sync team server ending =>
    ∀ t, w.Undisturbed setup server.address (w.syncRun setup team server ending).log t
  | .visit ending _ => ∀ sweep reading server rest, w.sweep = some sweep →
    sweep.reading = some reading → reading.servers = server :: rest →
      w.SteadyVisit setup reading server ending
  | _ => True

end

/-! ## One sync -/

section

variable {tools : MemberAccount.Node} {teamServerId : Uuid} {member : Member}

theorem agrees_after {account : Account} {log : List Write}
    (h : Agrees tools teamServerId member account) (hlog : Orderly log)
    (hconfirms : Confirms tools teamServerId member log) :
    Agrees tools teamServerId member (account.after log) := by
  obtain ⟨⟨hkeys, hrules⟩, hthere⟩ := h
  refine ⟨⟨?_, ?_⟩, fun hne => ⟨?_, ?_⟩⟩
  · rw [keys_after hlog, hkeys]
    split
    · cases hfile : lastKeys log with
      | none => rfl
      | some file => exact hconfirms.keys file hfile
    · rfl
  · rw [rules_after, hrules]
    cases hfile : lastRules log with
    | none => rfl
    | some file => exact hconfirms.rules file hfile
  · rw [present_after, (hthere hne).1, Bool.true_or]
  · rw [(after_of_present (hthere hne).1 log).2, (hthere hne).2]
    rcases hlast : lastExpired log with _ | _ | _
    · rfl
    · rfl
    · exact absurd hlast (hconfirms.current hne)

variable {members : List Member} {sync : NodeAccessSync}

theorem grantee_isSome (hmem : member ∈ members)
    (hne : member.publicKeys ≠ []) : (grantee members member.nodeUsername).isSome = true := by
  unfold grantee
  rw [isSome_iff_ne_none, Ne, List.getLast?_eq_none_iff]
  exact ne_nil_of_mem (mem_filter.mpr ⟨hmem, by simp [hne]⟩)

theorem expired_of_complete {a : Answers} {pending : List Revocation} (s : Accounts)
    (hok : (syncTeamAccess tools teamServerId a (.ok members) (.ok pending)).result = .ok sync)
    (hcomplete : sync.complete = true) {name : Text}
    (hgranted : (grantee members name).isSome = true)
    (hrows : revocationsOf teamServerId pending name = []) :
    ((syncTeamAccess tools teamServerId a (.ok members) (.ok pending)).on s name).expired =
      false := by
  have horderly := orderly_sync tools teamServerId a (.ok members) (.ok pending) name
  have hpresent := present_of_complete s hok hcomplete name
  rw [hgranted, Bool.or_true, on_apply, present_after] at hpresent
  rw [on_apply, (after_of_orderly horderly hpresent).2, under_of_complete hok hcomplete, hrows,
    flatMap_nil, append_nil, lastExpired,
    Replay.last_flatMap (fun _ => false) fun _ => rfl]
  obtain ⟨last, hlast⟩ := isSome_iff_exists.mp hgranted
  unfold grantee at hlast
  rw [hlast]
  rfl

theorem failed_isEmpty_iff : sync.failed.isEmpty = true ↔ sync.complete = true := by
  simp [NodeAccessSync.failed, NodeAccessSync.complete, filter_eq_nil_iff]

end

/-! ## The invariant -/

structure World.Sound (setup : Setup) (w : World) : Prop where
  inLine : ∀ t server members, w.inLineWith t = some (server, members) →
    ∀ member ∈ members, Agrees (setup.tools server.address) t member
      (w.nodes server.address member.nodeUsername)
  visited : ∀ sweep, w.sweep = some sweep → ∀ t entry, sweep.visited t = some entry →
    (∀ problem ∈ sweep.problems, problem.teamServerId ≠ t) → w.inLineWith t = some entry

section

variable {setup : Setup} {w : World}

theorem sound_fresh (h : w.Fresh) : w.Sound setup where
  inLine t server members hin := by
    rw [h.inLineWith] at hin
    cases hin
  visited sweep hsweep := by
    rw [h.sweep] at hsweep
    cases hsweep

variable {team : Uuid} {server : TeamServer} {ending : Ending} {members : List Member}
  {before : Sweep}

theorem inLine_synced (h : w.Sound setup) {t : Uuid} (hfree : w.Undisturbed setup server.address
      (w.syncRun setup team server ending).log t)
    {other : TeamServer} (hin : w.inLineWith t = some (other, members))
    {member : Member} (hmem : member ∈ members) :
    Agrees (setup.tools other.address) t member
      ((w.synced team server (w.syncRun setup team server ending)).nodes other.address
        member.nodeUsername) := by
  have hbefore := h.inLine t other members hin member hmem
  unfold World.synced
  dsimp only
  by_cases haddress : other.address = server.address
  · have hconfirms := hfree other members hin haddress member hmem
    rw [haddress] at hbefore ⊢
    rw [update_self, on_apply]
    exact agrees_after hbefore (orderly_sync _ _ _ _ _ _) hconfirms
  · rw [update_of_ne haddress]
    exact hbefore

theorem syncRun_of_ok
    {sync : NodeAccessSync} (h : (w.syncRun setup team server ending).result = .ok sync) :
    w.syncRun setup team server ending =
      syncTeamAccess (setup.tools server.address) server.id ending.answers (.ok (w.access team))
        (.ok (w.pending team)) := by
  unfold World.syncRun at h ⊢
  rcases hm : ending.membersError with _ | e
  · rcases hp : ending.pendingError with _ | e
    · rfl
    · rw [hm, hp] at h
      unfold orError syncTeamAccess at h
      rcases hc : ending.answers.connect with _ | _ <;> rw [hc] at h <;> cases h
  · rw [hm] at h
    unfold orError syncTeamAccess at h
    cases h

theorem agrees_synced {sync : NodeAccessSync}
    (hresult : (w.syncRun setup team server ending).result = .ok sync)
    (hcomplete : sync.complete = true) {member : Member} (hmem : member ∈ w.access team)
    (hserved : Served (setup.tools server.address) server.id ending.answers (w.access team)
      (w.pending team) (w.nodes server.address) member) :
    Agrees (setup.tools server.address) server.id member
      ((w.synced team server (w.syncRun setup team server ending)).nodes server.address
        member.nodeUsername) := by
  have hrun := syncRun_of_ok hresult
  rw [hrun] at hresult
  unfold World.synced
  dsimp only
  rw [update_self, hrun]
  refine ⟨(matches_iff_of_complete _ _ _ _ hresult hcomplete member).mpr
    ⟨hserved.keys, hserved.rules⟩, fun hne => ?_⟩
  have hgranted := grantee_isSome hmem hne
  refine ⟨?_, expired_of_complete _ hresult hcomplete hgranted (hserved.current hne)⟩
  rw [present_of_complete _ hresult hcomplete, hgranted, Bool.or_true]

/-- A sweep that has been to one more Node, and may have reported something. -/
structure Sweep.Extends (after before : Sweep) (server : TeamServer) (members : List Member) :
    Prop where
  visited : after.visited = Function.update before.visited server.id (some (server, members))
  problems : ∀ problem ∈ before.problems, problem ∈ after.problems

theorem Sweep.Extends.report {after : Sweep}
    (h : after.Extends before server members) (problem : AccessSweepProblem) :
    (after.report problem).Extends before server members :=
  ⟨h.visited, fun p hp => mem_append_left _ (h.problems p hp)⟩

/-- The other Nodes' entries stand as they did; this one's has to be seen to. -/
theorem visited_extends (h : w.Sound setup) {after : Sweep} (hbefore : w.sweep = some before)
    (hafter : after.Extends before server members)
    {inLineWith : Uuid → Option (TeamServer × List Member)}
    (hothers : ∀ t, t ≠ server.id → inLineWith t = w.inLineWith t)
    (hself : (∀ problem ∈ after.problems, problem.teamServerId ≠ server.id) →
      inLineWith server.id = some (server, members)) {t : Uuid} {entry : TeamServer × List Member}
    (hvisited : after.visited t = some entry)
    (hproblems : ∀ problem ∈ after.problems, problem.teamServerId ≠ t) :
    inLineWith t = some entry := by
  rw [hafter.visited] at hvisited
  by_cases ht : t = server.id
  · subst ht
    rw [update_self] at hvisited
    rw [hself hproblems, hvisited]
  · rw [update_of_ne ht] at hvisited
    rw [hothers t ht]
    exact h.visited before hbefore t entry hvisited fun p hp => hproblems p (hafter.problems p hp)

theorem reported_self {sweep : Sweep} {problem : AccessSweepProblem} :
    ¬ ∀ p ∈ (sweep.report problem).problems, p.teamServerId ≠ problem.teamServerId :=
  fun h => h problem (mem_append_right _ (mem_singleton.mpr rfl)) rfl

theorem sound_visit (h : w.Sound setup) (hbefore : w.sweep = some before)
    {reading : Reading} {rest : List TeamServer}
    {unshared : List Text} (hok : w.SteadyVisit setup reading server ending) :
    (w.visit setup before reading server rest ending unshared).Sound setup := by
  unfold World.SteadyVisit at hok
  unfold World.visit
  dsimp only
  cases hentry : setup.locals.find? (administers server) with
  | none =>
    rw [hentry] at hok
    exact hok.elim
  | some entry =>
    rw [hentry] at hok
    dsimp only at hok ⊢
    generalize hafter : (if unshared.isEmpty = true then _ else _ : Sweep) = after
    have hextends : after.Extends before server reading.members := by
      rw [← hafter]
      split
      · exact ⟨rfl, fun _ hp => hp⟩
      · exact ⟨rfl, fun _ hp => mem_append_left _ hp⟩
    split at hok
    · next hremembered =>
      rw [if_pos hremembered]
      refine ⟨h.inLine, fun sweep hsweep t e => ?_⟩
      obtain rfl := some.inj hsweep
      exact visited_extends h hbefore hextends (fun _ _ => rfl) fun _ => hok
    · next hremembered =>
      rw [if_neg hremembered]
      obtain ⟨hothers, hcomplete⟩ := hok
      cases hresult : (w.syncRun setup reading.team server ending).result with
      | error e =>
        dsimp only
        have hfree := fun t => hothers t (.inr (by simp [hresult]))
        refine ⟨fun t other members hin member hmem => inLine_synced h (hfree t) hin hmem,
          fun sweep hsweep t e => ?_⟩
        obtain rfl := some.inj hsweep
        exact visited_extends h hbefore (hextends.report _) (fun _ _ => rfl)
          fun hnone => absurd hnone reported_self
      | ok sync =>
        dsimp only
        by_cases hdone : sync.failed.isEmpty = true
        · rw [if_pos hdone]
          have hsync := failed_isEmpty_iff.mp hdone
          obtain ⟨hsame, hserved⟩ := hcomplete ⟨sync, hresult, hsync⟩
          refine ⟨fun t other members hin member hmem => ?_, fun sweep hsweep t e => ?_⟩
          · dsimp only at hin ⊢
            by_cases ht : t = server.id
            · subst ht
              rw [update_self] at hin
              obtain ⟨rfl, rfl⟩ := Prod.mk.inj (some.inj hin)
              rw [← hsame] at hserved
              exact agrees_synced hresult hsync hmem (hserved member hmem)
            · rw [update_of_ne ht] at hin
              exact inLine_synced h (hothers t (.inl ht)) hin hmem
          · obtain rfl := some.inj hsweep
            refine visited_extends h hbefore hextends
              (fun t ht => update_of_ne ht _ _) fun _ => ?_
            dsimp only
            rw [update_self, hsame]
        · rw [if_neg hdone]
          have hfree := fun t => hothers t (.inr fun ⟨other, hother, hc⟩ => hdone
            (failed_isEmpty_iff.mpr (Except.ok.inj (hresult.symm.trans hother) ▸ hc)))
          refine ⟨fun t other members hin member hmem => inLine_synced h (hfree t) hin hmem,
            fun sweep hsweep t e => ?_⟩
          obtain rfl := some.inj hsweep
          exact visited_extends h hbefore (hextends.report _) (fun _ _ => rfl)
            fun hnone => absurd hnone reported_self

theorem sound_step_history (h : w.Sound setup) {e : HistoryEvent} {w' : World}
    (hok : w.Steady setup e) (hstep : w.step setup e = some w') : w'.Sound setup := by
  cases e with
  | change team members pending =>
    obtain rfl := some.inj hstep
    exact ⟨h.inLine, h.visited⟩
  | sync team server ending =>
    obtain rfl := some.inj hstep
    exact ⟨fun t other members hin member hmem => inLine_synced h (hok t) hin hmem, h.visited⟩
  | start teams =>
    unfold World.step at hstep
    dsimp only at hstep
    split at hstep
    · cases hstep
    · obtain rfl := some.inj hstep
      refine ⟨h.inLine, fun sweep hsweep t entry hvisited => ?_⟩
      obtain rfl := some.inj hsweep
      cases hvisited
  | read readable =>
    unfold World.step at hstep
    dsimp only at hstep
    split at hstep
    · next hsweep =>
      split at hstep
      · cases hstep
      · obtain rfl := some.inj hstep
        refine ⟨h.inLine, fun sweep hafter => ?_⟩
        obtain rfl := some.inj hafter
        intro t entry hvisited hproblems
        exact h.visited _ hsweep t entry hvisited hproblems
    · cases hstep
  | visit ending unshared =>
    unfold World.step at hstep
    dsimp only at hstep
    split at hstep
    · cases hstep
    · next sweep hsweep =>
      split at hstep
      · cases hstep
      · next reading hreading =>
        split at hstep
        · cases hstep
        · next server rest hservers =>
          obtain rfl := some.inj hstep
          exact sound_visit h hsweep (hok sweep reading server rest hsweep hreading hservers)
  | finish =>
    unfold World.step at hstep
    dsimp only at hstep
    split at hstep
    · split at hstep
      · obtain rfl := some.inj hstep
        exact ⟨h.inLine, nofun⟩
      · cases hstep
    · cases hstep
  | abandon =>
    obtain rfl := some.inj hstep
    exact ⟨h.inLine, nofun⟩

end

/-- **In every history from the start of the app whose steps are steady, each sweep that finishes
leaves every Node it reports no problem for in agreement with the list it had read.** -/
theorem sweeps_sound (setup : Setup) {w w' : World} {trace : List (Transition World HistoryEvent)}
    (hw : w.Fresh) (hrun : Run (fun w e w' => w.step setup e = some w') w trace w')
    (hok : ∀ x ∈ trace, x.pre.Steady setup x.label) :
    ∀ x ∈ trace, x.label = .finish → x.pre.SweepSound setup := by
  obtain ⟨-, hall⟩ := Run.invariant (World.Sound setup) (World.Steady setup)
    (fun h hok hstep => sound_step_history h hok hstep) hrun (sound_fresh hw) hok
  intro x hx _ sweep hsweep t server members hvisited hproblems
  obtain ⟨h, -⟩ := hall x hx
  exact h.inLine t server members (h.visited sweep hsweep t _ hvisited hproblems)

/-! ## A list that comes back -/

/-- A team with one Node, which this installation administers. -/
def node : TeamServer := ⟨Uuid.max, "node", "192.0.2.1", 22⟩

def oneNode : Setup where
  tools _ := bareNode
  locals := [⟨Uuid.nil, "192.0.2.1", 22, "root", .ssh⟩]
  digest _ _ members rows :=
    UInt64.ofNat ((members.flatMap (·.publicKeys)).flatten.length + 1000 * rows.length)

def startOfDay : World where
  access _ := [viewer]
  pending _ := []
  nodes _ _ := noAccount
  lastSwept _ := none
  inLineWith _ := none
  sweep := none

def served : Ending := ⟨allDone, none, none⟩

def oneSweep : List HistoryEvent := [.start [⟨Uuid.nil, [node]⟩], .read true, .visit served [], .finish]

/-- The viewer with another device. -/
def viewerElsewhere : Member := { viewer with publicKeys := ["ssh-ed25519 BBBB other laptop"] }

/-- A sweep, a new device that another installation syncs, and the old device again. -/
def thereAndBack : List HistoryEvent :=
  oneSweep ++ [.change Uuid.nil [viewerElsewhere] [], .sync Uuid.nil node served,
    .change Uuid.nil [viewer] []] ++ oneSweep.dropLast

/-- The second sweep is through and reports nothing, and the Node has the keys of the other device. -/
theorem returned_list_left_out :
    ∃ w sweep, thereAndBack.foldlM (World.step oneNode) startOfDay = some w ∧
      w.sweep = some sweep ∧ sweep.problems = [] ∧ (w.step oneNode .finish).isSome = true ∧
      sweep.visited node.id = some (node, [viewer]) ∧
      (w.nodes node.address viewer.nodeUsername).keys = viewerElsewhere.publicKeys ∧
      ¬ w.SweepSound oneNode := by
  refine ⟨_, _, rfl, rfl, rfl, by decide, by decide, by decide, ?_⟩
  intro hsound
  have hagrees := hsound _ rfl node.id node [viewer] (by decide) nofun viewer
    (mem_singleton.mpr rfl)
  have hkeys := hagrees.1.1
  revert hkeys
  decide

/-- Nothing stands in the way of two sweeps of a team whose only member has a key; the second leaves
the Node out. -/
theorem twoSweeps_sound :
    ∃ w, ((oneSweep ++ oneSweep.dropLast).foldlM (World.step oneNode) startOfDay) = some w ∧
      w.SweepSound oneNode := by
  obtain ⟨w', hw'⟩ : ∃ w', (oneSweep ++ oneSweep).foldlM (World.step oneNode) startOfDay = some w' :=
    ⟨_, rfl⟩
  refine ⟨_, rfl, sweeps_sound oneNode ⟨fun _ => rfl, fun _ => rfl, rfl⟩ (run_stepsOf hw') ?_ _
    (mem_of_getLast? rfl) rfl⟩
  intro x hx
  iterate 2
    rcases mem_cons.mp hx with rfl | hx
    · trivial
  rcases mem_cons.mp hx with rfl | hx
  · intro sweep reading server rest hsweep hreading hservers
    cases hsweep
    cases hreading
    cases hservers
    refine ⟨fun t _ _ _ hin => (nomatch hin), fun _ => ⟨rfl, fun member hmem => ?_⟩⟩
    obtain rfl := mem_singleton.mp hmem
    refine ⟨?_, ?_, fun _ => by decide⟩
    · unfold KeysServed
      decide
    · unfold RulesServed
      decide
  iterate 3
    rcases mem_cons.mp hx with rfl | hx
    · trivial
  rcases mem_cons.mp hx with rfl | hx
  · intro sweep reading server rest hsweep hreading hservers
    cases hsweep
    cases hreading
    cases hservers
    exact rfl
  · obtain rfl := mem_singleton.mp hx
    trivial

end VibeSsh.TeamAccess
