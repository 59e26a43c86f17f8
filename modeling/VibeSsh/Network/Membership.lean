import VibeSsh.Network.Mesh
import VibeSsh.Ports.Published

/-! # Mesh ports belong to members

A stored port of the Vibe Network is on a member's Node and bound to that member's address, as long
as the calls that change a Node's membership and the calls that save such a port on it keep out of
each other's way. -/

namespace VibeSsh.Network

open Lib Ports List Option

/-- Every port of the Vibe Network is on the Node of a member and bound to its address. -/
def OnMesh (s : State) : Prop :=
  ∀ p ∈ s.tables.ports, p.visibility = .vibeNetwork → ∃ server member,
    s.tables.serverOf p.applicationId = some server ∧ s.ledger.get server = some member ∧
      p.bindAddress = member.wireguardIp

/-- A leave of the Node has looked at its ports and waits, or a join of the Node waits. -/
def State.Changing (s : State) (server : Uuid) : Prop :=
  server ∈ s.leaving ∨ ∃ j ∈ s.joining, j.server = server

/-- A call waits to save a port of the Vibe Network on the Node. -/
def State.Saving (s : State) (server : Uuid) : Prop :=
  ∃ w ∈ s.calls.waiting, w.call.port.visibility = .vibeNetwork ∧
    s.tables.serverOf w.call.application = some server

/-- The call is about a port of the Vibe Network on a Node whose membership is being changed. -/
def State.Disturbs (s : State) (call : Call) : Prop :=
  call.port.visibility = .vibeNetwork ∧
    ∃ server, s.tables.serverOf call.application = some server ∧ s.Changing server

/-- A port of the Vibe Network is written only while the membership of its Node is not being
changed, and a row is removed only while no call waits to save such a port on the Node. -/
def Safe (s : State) (op : Mesh.Op) : Prop :=
  match op with
  | .port (.start call) => (Mesh.next s op).tables.ports ≠ s.tables.ports → ¬ s.Disturbs call
  | .port (.resume w _) => (Mesh.next s op).tables.ports ≠ s.tables.ports → ¬ s.Disturbs w.call
  | .finishLeave server _ => (Mesh.next s op).ledger ≠ s.ledger → ¬ s.Saving server
  | .undoJoin server _ => (Mesh.next s op).ledger ≠ s.ledger → ¬ s.Saving server
  | _ => True

/-! ## The invariant -/

/-- The application's Node is on the mesh at this address. -/
def Bound (t : Tables) (application : Uuid) (address : Text) : Prop :=
  ∃ server, t.serverOf application = some server ∧ t.wireguardIp server = some address

structure Inv (s : State) : Prop where
  ports : ∀ p ∈ s.tables.ports, p.visibility = .vibeNetwork →
    Bound s.tables p.applicationId p.bindAddress
  waiting : ∀ w ∈ s.calls.waiting, w.call.port.visibility = .vibeNetwork →
    Bound s.tables w.call.application w.call.port.bindAddress
  quiet : ∀ server, s.Changing server → ∀ p ∈ s.tables.ports,
    s.tables.serverOf p.applicationId = some server → p.visibility ≠ .vibeNetwork

theorem onMesh_iff (s : State) :
    OnMesh s ↔ ∀ p ∈ s.tables.ports, p.visibility = .vibeNetwork →
      Bound s.tables p.applicationId p.bindAddress := by
  have hip : ∀ server address, s.tables.wireguardIp server = some address ↔
      ∃ member, s.ledger.get server = some member ∧ address = member.wireguardIp := by
    intro server address
    unfold State.tables
    rw [s.agrees]
    simp [Ledger.wireguardIp, eq_comm]
  unfold OnMesh Bound
  simp only [hip, exists_and_left]

/-! ## Saving a port -/

variable {t : Tables} {address : Text} {call : Call} {s : State} {l : Ledger} {server : Uuid}

theorem Bound.of_sameNodes {t' : Tables} (hsame : SameNodes t t') {application : Uuid}
    (h : Bound t application address) : Bound t' application address := by
  obtain ⟨server, hserver, hip⟩ := h
  exact ⟨server, (serverOf_congr hsame.applications _).trans hserver, by rw [hsame.wireguardIp, hip]⟩

/-- A row after a save was there before, or has the columns of the call. -/
theorem mem_ports_of_saved {t' : Tables} (h : Saved t call t') {p : PortRow}
    (hp : p ∈ t'.ports) : p ∈ t.ports ∨ p.applicationId = call.application ∧
      p.visibility = call.port.visibility ∧ p.bindAddress = call.port.bindAddress := by
  cases h with
  | same => exact .inl hp
  | added _ _ hports _ =>
    rw [hports] at hp
    rcases mem_append.mp hp with hp | hp
    · exact .inl hp
    · obtain rfl := mem_singleton.mp hp
      exact .inr ⟨rfl, rfl, rfl⟩
  | updated _ _ hports =>
    rw [hports] at hp
    obtain ⟨old, hold, rfl⟩ := mem_map.mp hp
    unfold Tables.setColumns
    split
    next hrow => exact .inr ⟨hrow.2, rfl, rfl⟩
    next => exact .inl hold

section

variable (hinv : Inv s)
include hinv

theorem Inv.saved {calls : Ports.State}
    (hsame : SameNodes s.calls.tables calls.tables)
    (hsaved : Saved s.calls.tables call calls.tables)
    (hwaiting : ∀ w ∈ calls.waiting, w ∈ s.calls.waiting)
    (hbound : call.port.visibility = .vibeNetwork →
      Bound s.tables call.application call.port.bindAddress)
    (hsafe : calls.tables.ports ≠ s.tables.ports → ¬ s.Disturbs call) :
    Inv (s.setCalls calls hsame) where
  ports p hp hvisibility := by
    rcases mem_ports_of_saved hsaved hp with hp | ⟨happlication, hsaves, haddress⟩
    · exact (hinv.ports p hp hvisibility).of_sameNodes hsame
    · rw [happlication, haddress]
      exact (hbound (hsaves ▸ hvisibility)).of_sameNodes hsame
  waiting w hw hvisibility := (hinv.waiting w (hwaiting w hw) hvisibility).of_sameNodes hsame
  quiet server hchanging p hp hserver hvisibility := by
    have hserver' : s.tables.serverOf p.applicationId = some server :=
      (serverOf_congr hsame.applications _).symm.trans hserver
    by_cases hports : calls.tables.ports = s.tables.ports
    · exact hinv.quiet server hchanging p (hports ▸ hp) hserver' hvisibility
    rcases mem_ports_of_saved hsaved hp with hp | ⟨happlication, hsaves, -⟩
    · exact hinv.quiet server hchanging p hp hserver' hvisibility
    · exact hsafe hports ⟨hsaves ▸ hvisibility, server, happlication ▸ hserver', hchanging⟩

theorem inv_start (call : Call) (hsafe : Safe s (.port (.start call))) :
    Inv (Mesh.next s (.port (.start call))) := by
  have hsame : SameNodes s.calls.tables (start s.calls call).2.tables :=
    SameNodes.next s.calls (.start call)
  change Inv (s.setCalls (start s.calls call).2 hsame)
  change (start s.calls call).2.tables.ports ≠ s.tables.ports → _ at hsafe
  generalize hstart : start s.calls call = r at hsame hsafe ⊢
  unfold Ports.start at hstart
  dsimp only at hstart
  split at hstart
  · subst hstart
    exact hinv
  next row hrow =>
  split at hstart
  · subst hstart
    exact hinv
  next address hresolve =>
  have hbound : call.port.visibility = .vibeNetwork → Bound s.tables call.application address := by
    intro hvisibility
    unfold resolveBindAddress at hresolve
    rw [hvisibility] at hresolve
    dsimp only at hresolve
    split at hresolve
    · cases hresolve
    next server hserver =>
    split at hresolve
    · cases hresolve
    next ip hip =>
    cases hresolve
    exact ⟨server, (congrArg (·.bind (·.serverId)) hrow).trans hserver, hip⟩
  split at hstart
  · subst hstart
    exact hinv
  next w hcheck =>
    subst hstart
    refine ⟨hinv.ports, fun w' hw' hvisibility => ?_, hinv.quiet⟩
    rcases mem_cons.mp hw' with rfl | hw'
    · rw [(checked_of_probe hcheck).1] at hvisibility ⊢
      exact hbound hvisibility
    · exact hinv.waiting w' hw' hvisibility
  next hcheck =>
    subst hstart
    exact hinv.saved hsame (saved_save s.calls.tables _) (fun _ hw => hw)
      hbound hsafe

theorem inv_resume (w : Waiting) (process : Option Text)
    (hsafe : Safe s (.port (.resume w process))) :
    Inv (Mesh.next s (.port (.resume w process))) := by
  have hsame : SameNodes s.calls.tables (resume s.calls w process).2.tables :=
    SameNodes.next s.calls (.resume w process)
  change Inv (s.setCalls (resume s.calls w process).2 hsame)
  change (resume s.calls w process).2.tables.ports ≠ s.tables.ports → _ at hsafe
  generalize hresume : resume s.calls w process = r at hsame hsafe ⊢
  unfold Ports.resume at hresume
  split at hresume
  next hw =>
    cases process with
    | some process =>
      subst hresume
      exact ⟨hinv.ports, fun w' hw' => hinv.waiting w' (mem_of_mem_erase hw'), hinv.quiet⟩
    | none =>
      subst hresume
      exact hinv.saved hsame (saved_save s.calls.tables _) (fun _ => mem_of_mem_erase)
        (hinv.waiting w hw) hsafe
  next =>
    subst hresume
    exact hinv

/-! ## Changing the membership -/

/-- The addresses of members stay, but for a Node without ports of the Vibe Network, stored or
waiting. -/
theorem Inv.setLedger (hl : ∀ server address, s.ledger.wireguardIp server = some address →
      l.wireguardIp server = some address ∨ ¬ s.Saving server ∧ ∀ p ∈ s.tables.ports,
        s.tables.serverOf p.applicationId = some server → p.visibility ≠ .vibeNetwork) :
    Inv (s.setLedger l) where
  ports p hp hvisibility := by
    obtain ⟨server, hserver, hip⟩ := hinv.ports p hp hvisibility
    rcases hl server p.bindAddress (s.agrees ▸ hip) with hkept | ⟨-, hnone⟩
    · exact ⟨server, hserver, hkept⟩
    · exact absurd hvisibility (hnone p hp hserver)
  waiting w hw hvisibility := by
    obtain ⟨server, hserver, hip⟩ := hinv.waiting w hw hvisibility
    rcases hl server w.call.port.bindAddress (s.agrees ▸ hip) with hkept | ⟨hnone, -⟩
    · exact ⟨server, hserver, hkept⟩
    · exact absurd ⟨w, hw, hvisibility, hserver⟩ hnone
  quiet := hinv.quiet

/-- Fewer calls that change a membership, or one about a Node without such ports. -/
theorem Inv.setChanging {leaving : List Uuid} {joining : List Joining}
    (h : ∀ server, server ∈ leaving ∨ (∃ j ∈ joining, j.server = server) →
      s.Changing server ∨ ∀ p ∈ s.tables.ports,
        s.tables.serverOf p.applicationId = some server → p.visibility ≠ .vibeNetwork) :
    Inv { s with leaving := leaving, joining := joining } :=
  ⟨hinv.ports, hinv.waiting, fun server hchanging => (h server hchanging).elim (hinv.quiet server) id⟩

theorem Inv.eraseLeaving (server : Uuid) : Inv { s with leaving := s.leaving.erase server } :=
  hinv.setChanging fun _ h => .inl (h.imp mem_of_mem_erase id)

theorem Inv.eraseJoining (j : Joining) : Inv { s with joining := s.joining.erase j } :=
  hinv.setChanging fun _ h => .inl (h.imp id fun ⟨j, hj, heq⟩ => ⟨j, mem_of_mem_erase hj, heq⟩)

theorem Inv.moveJoining {j : Joining} (hj : j ∈ s.joining) (stage : JoinStage) :
    Inv { s with joining := ⟨j.server, stage⟩ :: s.joining.erase j } := by
  refine hinv.setChanging fun server h => .inl (h.imp id ?_)
  rintro ⟨j', hj', rfl⟩
  rcases mem_cons.mp hj' with rfl | hj'
  · exact ⟨j, hj, rfl⟩
  · exact ⟨j', mem_of_mem_erase hj', rfl⟩

end

theorem Ledger.wireguardIp_leave {l' : Ledger} {other : Uuid} (h : l.leave server = .ok l')
    (hne : other ≠ server) : l'.wireguardIp other = l.wireguardIp other := by
  unfold leave at h
  split at h <;> cases h
  unfold wireguardIp get remove
  rw [List.find?_filter]
  congr 2
  funext m
  by_cases hm : m.serverId = other
  · simp [hm, hne]
  · simp [hm]

/-- The row of a Node whose membership is being changed is removed. -/
theorem Inv.leave (hinv : Inv s)
    (hl : s.ledger.leave server = .ok l) (hquiet : ∀ p ∈ s.tables.ports,
      s.tables.serverOf p.applicationId = some server → p.visibility ≠ .vibeNetwork)
    (hsafe : l ≠ s.ledger → ¬ s.Saving server) : Inv (s.setLedger l) := by
  refine hinv.setLedger fun other address hip => ?_
  by_cases hsame : l = s.ledger
  · exact .inl (hsame ▸ hip)
  by_cases hother : other = server
  · subst hother
    exact .inr ⟨hsafe hsame, hquiet⟩
  · exact .inl ((Ledger.wireguardIp_leave hl hother).trans hip)

/-! ## Steps -/

theorem no_mesh_port (h : meshPorts t server = []) :
    ∀ p ∈ t.ports, t.serverOf p.applicationId = some server → p.visibility ≠ .vibeNetwork := by
  intro p hp hserver hvisibility
  obtain ⟨row, hrow, hrowServer⟩ := bind_eq_some_iff.mp hserver
  have hid : row.id = p.applicationId := by simpa using List.find?_some hrow
  have hlisted : row ∈ t.listByServer server := by
    simp [Tables.listByServer, mem_insertionSort, mem_of_find?_eq_some hrow, hrowServer]
  have hport : p ∈ t.listPorts row.id := by
    simp [Tables.listPorts, mem_insertionSort, hp, hid]
  have hnone := flatMap_eq_nil_iff.mp h row hlisted
  rw [map_eq_nil_iff, filter_eq_nil_iff] at hnone
  exact hnone p hport (by simp [hvisibility])

section

variable (hinv : Inv s)
include hinv

theorem inv_startLeave (server : Uuid) : Inv (startLeave s server).2 := by
  unfold startLeave
  split
  next hnone =>
    refine hinv.setChanging fun other h => ?_
    rcases h with h | h
    · rcases mem_cons.mp h with rfl | h
      · exact .inr (no_mesh_port hnone)
      · exact .inl (.inl h)
    · exact .inl (.inr h)
  next => exact hinv

theorem inv_finishLeave (server : Uuid) (teardown : AppResult Unit)
    (hsafe : Safe s (.finishLeave server teardown)) : Inv (finishLeave s server teardown).2 := by
  change (finishLeave s server teardown).2.ledger ≠ s.ledger → _ at hsafe
  generalize hleft : finishLeave s server teardown = r at hsafe ⊢
  unfold finishLeave at hleft
  split at hleft
  next hleaving =>
    have hquiet := hinv.quiet server (.inl hleaving)
    have hrest := hinv.eraseLeaving server
    dsimp only at hleft
    split at hleft
    · subst hleft
      exact hrest
    · split at hleft
      · subst hleft
        exact hrest
      next hl =>
        subst hleft
        exact hrest.leave hl hquiet hsafe
  next =>
    subst hleft
    exact hinv

theorem inv_startJoin (server : Uuid) : Inv (startJoin s server).2 := by
  unfold startJoin
  split
  · exact hinv
  · split
    · exact hinv
    · split
      · exact hinv
      next hnone =>
        refine hinv.setChanging fun other h => ?_
        rcases h with h | ⟨j, hj, rfl⟩
        · exact .inl (.inl h)
        · rcases mem_cons.mp hj with rfl | hj
          · refine .inr fun p hp hserver hvisibility => ?_
            -- a Node that is no member has no such port, since it has no address
            obtain ⟨server', hserver', hip⟩ := hinv.ports p hp hvisibility
            obtain rfl := some.inj (hserver.symm.trans hserver')
            unfold State.tables at hip
            rw [s.agrees] at hip
            simp [Ledger.wireguardIp, hnone] at hip
          · exact .inl (.inr ⟨j, hj, rfl⟩)

theorem inv_recordJoin (server : Uuid) (publicKey : AppResult Text)
    (now : Nat) : Inv (recordJoin s server publicKey now).2 := by
  unfold recordJoin
  split
  next hjoining =>
    dsimp only
    split
    · exact hinv.eraseJoining _
    · split
      · exact hinv.eraseJoining _
      next member l hjoin =>
        refine (hinv.moveJoining hjoining (.reconciling member)).setLedger fun _ _ hip => .inl ?_
        unfold Ledger.wireguardIp Ledger.get at hip ⊢
        obtain ⟨member, hmember, haddress⟩ := map_eq_some_iff.mp hip
        rw [(join_ok hjoin).1, List.find?_append, hmember, some_or, map_some, haddress]
  next => exact hinv

theorem inv_judgeJoin (server : Uuid) (member : NodeNetworkMember)
    (results : AppResult (Option Text)) : Inv (judgeJoin s server member results).2 := by
  unfold judgeJoin
  split
  next hjoining =>
    dsimp only
    split
    · exact hinv.moveJoining hjoining _
    · exact hinv.moveJoining hjoining _
    · exact hinv.eraseJoining _
  next => exact hinv

theorem inv_undoJoin (server : Uuid) (error : AppError)
    (hsafe : Safe s (.undoJoin server error)) : Inv (undoJoin s server error).2 := by
  change (undoJoin s server error).2.ledger ≠ s.ledger → _ at hsafe
  generalize hundone : undoJoin s server error = r at hsafe ⊢
  unfold undoJoin at hundone
  split at hundone
  next hjoining =>
    have hquiet := hinv.quiet server (.inr ⟨_, hjoining, rfl⟩)
    have hrest := hinv.eraseJoining ⟨server, .undoing error⟩
    dsimp only at hundone
    split at hundone
    · subst hundone
      exact hrest
    next hl =>
      subst hundone
      exact hrest.leave hl hquiet hsafe
  next =>
    subst hundone
    exact hinv

theorem refresh_eq (server : Uuid) :
    refreshVibeNetworkBindAddresses s.tables server = (.ok 0, s.tables) := by
  refine foldl_eq_self fun application happlication => foldl_eq_self fun port hport => ?_
  simp only [Tables.listByServer, mem_insertionSort, mem_filter, decide_eq_true_eq]
    at happlication
  simp only [Tables.listPorts, mem_insertionSort, mem_filter, decide_eq_true_eq] at hport
  unfold refreshPort
  dsimp only
  split_ifs with hvisibility
  · rfl
  · obtain ⟨server', hserver', hip⟩ := hinv.ports port hport.1 (not_not.mp hvisibility)
    have hserver : s.tables.serverOf port.applicationId = some server := by
      obtain ⟨row, hrow, hrowServer⟩ := bind_eq_some_iff.mp hserver'
      have hid : row.id = port.applicationId := by simpa using List.find?_some hrow
      obtain rfl := inj_on_of_nodup_map s.applicationIds (mem_of_find?_eq_some hrow)
        happlication.1 (hid.trans hport.2)
      rw [hserver', ← hrowServer, happlication.2]
    obtain rfl := some.inj (hserver.symm.trans hserver')
    have hresolve : resolveBindAddress s.tables (some server) port.toPortInput =
        .ok port.bindAddress := by
      unfold resolveBindAddress
      rw [not_not.mp hvisibility]
      dsimp only
      rw [hip]
    rw [hresolve]
    simp

theorem inv_refresh (server : Uuid) : Inv (Mesh.next s (.refresh server)) := by
  have hsame := SameNodes.refresh s.calls.tables server
  change Inv (s.setCalls
    { s.calls with tables := (refreshVibeNetworkBindAddresses s.calls.tables server).2 } hsame)
  have heq : (refreshVibeNetworkBindAddresses s.calls.tables server).2 = s.calls.tables :=
    congrArg Prod.snd (refresh_eq hinv server)
  generalize (refreshVibeNetworkBindAddresses s.calls.tables server).2 = t at hsame heq ⊢
  subst heq
  exact hinv

theorem inv_next (op : Mesh.Op) (hsafe : Safe s op) : Inv (Mesh.next s op) := by
  cases op with
  | port op =>
    cases op with
    | start call => exact inv_start hinv call hsafe
    | resume w process => exact inv_resume hinv w process hsafe
  | startLeave server => exact inv_startLeave hinv server
  | finishLeave server teardown => exact inv_finishLeave hinv server teardown hsafe
  | startJoin server => exact inv_startJoin hinv server
  | recordJoin server publicKey now => exact inv_recordJoin hinv server publicKey now
  | judgeJoin server member results => exact inv_judgeJoin hinv server member results
  | undoJoin server error => exact inv_undoJoin hinv server error hsafe
  | refresh server => exact inv_refresh hinv server

end

/-- **The ports of the Vibe Network stay on the mesh** in every interleaving whose steps are `Safe`.
-/
theorem mesh_ports_stay_on_mesh {s₀ s : State} {trace : List (Transition State Mesh.Op)}
    (hstart : OnMesh s₀) (hidle : s₀.calls.waiting = [] ∧ s₀.leaving = [] ∧ s₀.joining = [])
    (hrun : Run (fun s op s' => s' = Mesh.next s op) s₀ trace s)
    (hsafe : ∀ x ∈ trace, Safe x.pre x.label) : OnMesh s ∧ ∀ x ∈ trace, OnMesh x.post := by
  obtain ⟨hwaiting, hleaving, hjoining⟩ := hidle
  have hinv₀ : Inv s₀ := by
    refine ⟨(onMesh_iff s₀).mp hstart, by simp [hwaiting], fun server hchanging => ?_⟩
    simp [State.Changing, hleaving, hjoining] at hchanging
  obtain ⟨hinv, hall⟩ := hrun.invariant Inv Safe (fun {s op s'} hinv hsafe hstep => by
    subst hstep
    exact inv_next hinv op hsafe) hinv₀ hsafe
  exact ⟨(onMesh_iff s).mpr hinv.ports, fun x hx => (onMesh_iff _).mpr (hall x hx).2.2.ports⟩

/-! ## A port saved while its Node leaves -/

/-- A Node on the mesh with one application and no ports. -/
def oneMember : State where
  calls :=
    { tables :=
        { applications := [⟨Uuid.nil, some Uuid.nil, "db"⟩]
          ports := []
          wireguardIp := Ledger.wireguardIp ⟨[Uuid.nil],
            [⟨Uuid.nil, "10.77.0.1", "key", 1⟩], by decide, by decide, by decide⟩
          ids := by decide }
      waiting := [] }
  ledger := ⟨[Uuid.nil], [⟨Uuid.nil, "10.77.0.1", "key", 1⟩], by decide, by decide,
    by decide⟩
  sshMode := fun _ => true
  leaving := []
  joining := []
  agrees := rfl
  applicationIds := by decide

theorem oneMember_onMesh : OnMesh oneMember := by
  intro p hp
  cases hp

/-- A database port for the mesh only. -/
def addDatabasePort : Call :=
  ⟨Uuid.nil, .add Uuid.nil, ⟨"sql", .tcp, [], 5432, none, .vibeNetwork, false⟩⟩

/-- The port is saved, so the Node may not leave. -/
def savedThenLeave : List Mesh.Op :=
  [.port (.start addDatabasePort), .startLeave Uuid.nil, .finishLeave Uuid.nil (.ok ())]

theorem savedThenLeave_on_mesh :
    (savedThenLeave.foldl Mesh.next oneMember).tables.ports.map (·.bindAddress) =
        ["10.77.0.1".toList] ∧
      OnMesh (savedThenLeave.foldl Mesh.next oneMember) ∧
      ∀ x ∈ traceOf Mesh.next oneMember savedThenLeave, OnMesh x.post := by
  refine ⟨by decide, mesh_ports_stay_on_mesh oneMember_onMesh ⟨rfl, rfl, rfl⟩
    (run_traceOf Mesh.next oneMember savedThenLeave) fun x hx => ?_⟩
  simp only [savedThenLeave, traceOf, mem_cons, not_mem_nil, or_false] at hx
  rcases hx with rfl | rfl | rfl
  · rintro - ⟨-, server, -, hleaving | ⟨j, hj, -⟩⟩
    · cases hleaving
    · cases hj
  · trivial
  · rintro - ⟨w, hw, -⟩
    have hnone : (Mesh.next (Mesh.next oneMember (.port (.start addDatabasePort)))
        (.startLeave Uuid.nil)).calls.waiting = [] := by decide
    rw [hnone] at hw
    cases hw

/-- The Node starts to leave, the port is saved, and the Node has left. -/
def saveWhileLeaving : List Mesh.Op :=
  [.startLeave Uuid.nil, .port (.start addDatabasePort), .finishLeave Uuid.nil (.ok ())]

/-- The port keeps the address of a Node that is no member any more. -/
theorem port_outlives_membership :
    OnMesh oneMember ∧
      (saveWhileLeaving.foldl Mesh.next oneMember).tables.ports.map (·.bindAddress) =
        ["10.77.0.1".toList] ∧
      (saveWhileLeaving.foldl Mesh.next oneMember).ledger.get Uuid.nil = none ∧
      ¬ OnMesh (saveWhileLeaving.foldl Mesh.next oneMember) := by
  have hmember : (saveWhileLeaving.foldl Mesh.next oneMember).ledger.get Uuid.nil = none := by
    decide
  have hports : (saveWhileLeaving.foldl Mesh.next oneMember).tables.ports =
      [{ addDatabasePort.port with
        bindAddress := "10.77.0.1".toList, id := Uuid.nil, applicationId := Uuid.nil }] := by
    decide
  refine ⟨oneMember_onMesh, by rw [hports]; rfl, hmember, fun h => ?_⟩
  obtain ⟨server, member, hserver, hget, -⟩ := h _ (hports ▸ mem_singleton_self _) rfl
  have hnode : (saveWhileLeaving.foldl Mesh.next oneMember).tables.serverOf Uuid.nil =
      some Uuid.nil := by decide
  obtain rfl := some.inj (hnode.symm.trans hserver)
  rw [hmember] at hget
  cases hget

end VibeSsh.Network
