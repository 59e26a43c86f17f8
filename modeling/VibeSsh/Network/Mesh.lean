import VibeSsh.Network.Ledger
import VibeSsh.Lib.Loop
import VibeSsh.Ports.Store

/-! # Joining and leaving the Vibe Network

`network_service` over the ledger of addresses and the stored ports. A call runs up to an answer it
needs from a Node and waits there, and any other call may run in between: a leave looks at the ports
before it waits and removes the row afterwards; a join inserts its row, waits for the mesh to come
up and takes the row back if it does not. Saving a port (`Ports.start`, `Ports.resume`) reads the
address before its probe and writes it after. What follows a change of membership changes none of
these rows. -/

namespace VibeSsh.Ports

open Lib

/-! ## Re-pointing the ports of a Node -/

def refreshPort (server application : Uuid) :
    AppResult Nat × Tables → PortRow → AppResult Nat × Tables
  | (.error e, t), _ => (.error e, t)
  | (.ok updated, t), port =>
    if port.visibility ≠ .vibeNetwork then (.ok updated, t)
    else
      match resolveBindAddress t (some server) port.toPortInput with
      | .error _ => (.ok updated, t)
      | .ok resolved =>
        if resolved = port.bindAddress then (.ok updated, t)
        else
          match t.updatePort application port.id
              { port.toPortInput with bindAddress := resolved } with
          | (.error e, t) => (.error e, t)
          | (.ok _, t) => (.ok (updated + 1), t)

def refreshApplication (server : Uuid) (acc : AppResult Nat × Tables) (application : ApplicationRow) :
    AppResult Nat × Tables :=
  (acc.2.listPorts application.id).foldl (refreshPort server application.id) acc

def refreshVibeNetworkBindAddresses (t : Tables) (server : Uuid) : AppResult Nat × Tables :=
  (t.listByServer server).foldl (refreshApplication server) (.ok 0, t)

/-! ## What no save changes -/

/-- The applications and the addresses are the same. -/
structure SameNodes (t t' : Tables) : Prop where
  applications : t'.applications = t.applications
  wireguardIp : t'.wireguardIp = t.wireguardIp

namespace SameNodes

variable (t : Tables) (server : Uuid)

theorem refl : SameNodes t t := ⟨rfl, rfl⟩

theorem trans {t t' t'' : Tables} (h : SameNodes t t') (h' : SameNodes t' t'') : SameNodes t t'' :=
  ⟨h'.applications.trans h.applications, h'.wireguardIp.trans h.wireguardIp⟩

theorem insertAndRead (id application : Uuid) (port : PortInput) :
    SameNodes t (t.insertAndRead id application port).2 := by
  unfold Tables.insertAndRead
  split
  · exact refl t
  next t' hinsert =>
  have hsame : SameNodes t t' := by
    unfold Tables.insertPort at hinsert
    dsimp only at hinsert
    split at hinsert
    · cases hinsert
    · split at hinsert
      · cases hinsert
      · cases hinsert
        exact ⟨rfl, rfl⟩
  split <;> exact hsame

theorem addPort (id application : Uuid) (port : PortInput) :
    SameNodes t (t.addPort id application port).2 := by
  unfold Tables.addPort
  split
  · exact refl t
  · exact insertAndRead t id application port

theorem claimExternalPort (id application server : Uuid) (port : PortInput) :
    SameNodes t (t.claimExternalPort id application server port).2 := by
  unfold Tables.claimExternalPort
  split
  · exact addPort t id application port
  · split
    · exact refl t
    · split
      · exact refl t
      · exact insertAndRead t id application port

theorem updatePort (application portId : Uuid) (port : PortInput) :
    SameNodes t (t.updatePort application portId port).2 := by
  unfold Tables.updatePort
  split
  · exact refl t
  · dsimp only
    split <;> exact ⟨rfl, rfl⟩

theorem save (call : Call) : SameNodes t (save t call).2 := by
  unfold Ports.save
  split
  · exact claimExternalPort ..
  · exact addPort ..
  · exact updatePort ..

theorem next (s : State) (op : Op) : SameNodes s.tables (next s op).tables := by
  cases op with
  | start call =>
    unfold Ports.next start
    dsimp only
    split
    · exact refl _
    · split
      · exact refl _
      · split
        · exact refl _
        · exact refl _
        · exact save s.tables _
  | resume w process =>
    unfold Ports.next resume
    dsimp only
    split
    · split
      · exact refl _
      · exact save s.tables _
    · exact refl _

theorem refreshPort (application : Uuid) (acc : AppResult Nat × Tables) (port : PortRow) :
    SameNodes acc.2 (refreshPort server application acc port).2 := by
  unfold Ports.refreshPort
  split
  · exact refl _
  · split
    · exact refl _
    · split
      · exact refl _
      · split
        · exact refl _
        · next updated t _ _ resolved _ _ =>
          have h := updatePort t application port.id { port.toPortInput with bindAddress := resolved }
          split <;> next hupdate => rwa [hupdate] at h

theorem foldl {α : Type} {f : AppResult Nat × Tables → α → AppResult Nat × Tables}
    (hf : ∀ acc a, SameNodes acc.2 (f acc a).2) (l : List α) (acc : AppResult Nat × Tables) :
    SameNodes acc.2 (l.foldl f acc).2 := by
  induction l generalizing acc with
  | nil => exact refl _
  | cons a l ih => exact (hf acc a).trans (ih (f acc a))

theorem refresh : SameNodes t (refreshVibeNetworkBindAddresses t server).2 := by
  have happlication : ∀ acc application, SameNodes acc.2 (refreshApplication server acc application).2 :=
    fun acc application => foldl (refreshPort server application.id) _ acc
  exact foldl happlication (t.listByServer server) (.ok 0, t)

end SameNodes

end VibeSsh.Ports

namespace VibeSsh.Network

open Lib Ports

def Ledger.wireguardIp (l : Ledger) (server : Uuid) : Option Text :=
  (l.get server).map (·.wireguardIp)

/-- Where a join waits: for the Node's key, for the mesh with the new row, or for the interface to be
taken down again. -/
inductive JoinStage where
  | connecting
  | reconciling (member : NodeNetworkMember)
  | undoing (error : AppError)
  deriving DecidableEq

structure Joining where
  server : Uuid
  stage : JoinStage
  deriving DecidableEq

/-- The stored rows and the calls that wait. The port service sees the addresses of the ledger, and
the identifier of an application is its primary key. -/
structure State where
  calls : Ports.State
  ledger : Ledger
  sshMode : Uuid → Bool
  leaving : List Uuid
  joining : List Joining
  agrees : calls.tables.wireguardIp = ledger.wireguardIp
  applicationIds : (calls.tables.applications.map (·.id)).Nodup

namespace State

def tables (s : State) : Tables := s.calls.tables

def setCalls (s : State) (calls : Ports.State) (h : SameNodes s.calls.tables calls.tables) : State :=
  { s with
    calls := calls
    agrees := h.wireguardIp.trans s.agrees
    applicationIds := h.applications ▸ s.applicationIds }

def setLedger (s : State) (l : Ledger) : State :=
  { s with
    ledger := l
    calls := { s.calls with tables := { s.calls.tables with wireguardIp := l.wireguardIp } }
    agrees := rfl }

end State

/-! ## Leaving -/

/-- The ports of a Node that are bound to its mesh address, as the refusal names them. -/
def meshPorts (t : Tables) (server : Uuid) : List Text :=
  (t.listByServer server).flatMap fun application =>
    ((t.listPorts application.id).filter (·.visibility = .vibeNetwork)).map fun port =>
      application.name ++ " - " ++ port.name

/-- `leave_node` up to its first wait; no result means it waits. -/
def startLeave (s : State) (server : Uuid) : Option (AppResult Unit) × State :=
  match meshPorts s.tables server with
  | [] => (none, { s with leaving := server :: s.leaving })
  | ports => (some (.error (.networkLeaveHasMeshPorts ports)), s)

/-- The rest of `leave_node`, once the Node has been torn down or could not be. -/
def finishLeave (s : State) (server : Uuid) (teardown : AppResult Unit) :
    Option (AppResult Unit) × State :=
  if server ∈ s.leaving then
    let s := { s with leaving := s.leaving.erase server }
    match teardown with
    | .error e => (some (.error e), s)
    | .ok () =>
      match s.ledger.leave server with
      | .error e => (some (.error e), s)
      | .ok l => (some (.ok ()), s.setLedger l)
  else (none, s)

/-! ## Joining -/

def requireSshMode (s : State) (server : Uuid) : AppResult Unit :=
  if s.sshMode server then .ok ()
  else .error (.invalidInput
    "the Vibe Network is only supported for SSH-mode Nodes right now")

/-- `join_node` up to its first wait. -/
def startJoin (s : State) (server : Uuid) : Option (AppResult NodeNetworkMember) × State :=
  if server ∉ s.ledger.servers then
    (some (.error (.notFound ("server " ++ server.display))), s)
  else
    match requireSshMode s server with
    | .error e => (some (.error e), s)
    | .ok () =>
      match s.ledger.get server with
      | some existing => (some (.ok existing), s)
      | none => (none, { s with joining := ⟨server, .connecting⟩ :: s.joining })

/-- The Node has given its public key, or could not: the row is inserted and the mesh reconciled. -/
def recordJoin (s : State) (server : Uuid) (publicKey : AppResult Text) (now : Nat) :
    Option (AppResult NodeNetworkMember) × State :=
  if ⟨server, .connecting⟩ ∈ s.joining then
    let s := { s with joining := s.joining.erase ⟨server, .connecting⟩ }
    match publicKey with
    | .error e => (some (.error e), s)
    | .ok publicKey =>
      match s.ledger.join server publicKey now with
      | .error e => (some (.error e), s)
      | .ok (member, l) =>
        let s := s.setLedger l
        (none, { s with joining := ⟨server, .reconciling member⟩ :: s.joining })
  else (none, s)

def tunnelError (detail : Text) : AppError :=
  .connection ("the tunnel couldn't be brought up on this Node, so it hasn't joined the Vibe "
    ++ "Network: " ++ detail)

/-- The mesh has been reconciled: not at all, or with what went wrong on the Node itself. -/
def judgeJoin (s : State) (server : Uuid) (member : NodeNetworkMember)
    (results : AppResult (Option Text)) : Option (AppResult NodeNetworkMember) × State :=
  if ⟨server, .reconciling member⟩ ∈ s.joining then
    let s := { s with joining := s.joining.erase ⟨server, .reconciling member⟩ }
    match results with
    | .error e => (none, { s with joining := ⟨server, .undoing e⟩ :: s.joining })
    | .ok (some detail) =>
      (none, { s with joining := ⟨server, .undoing (tunnelError detail)⟩ :: s.joining })
    | .ok none => (some (.ok member), s)
  else (none, s)

/-- The rest of `undo_join`, once the interface is down or could not be taken down. -/
def undoJoin (s : State) (server : Uuid) (error : AppError) :
    Option (AppResult NodeNetworkMember) × State :=
  if ⟨server, .undoing error⟩ ∈ s.joining then
    let s := { s with joining := s.joining.erase ⟨server, .undoing error⟩ }
    match s.ledger.leave server with
    | .error _ => (some (.error error), s)
    | .ok l => (some (.error error), s.setLedger l)
  else (none, s)

/-! ## The service -/

namespace Mesh

inductive Op where
  | port (op : Ports.Op)
  | startLeave (server : Uuid)
  | finishLeave (server : Uuid) (teardown : AppResult Unit)
  | startJoin (server : Uuid)
  | recordJoin (server : Uuid) (publicKey : AppResult Text) (now : Nat)
  | judgeJoin (server : Uuid) (member : NodeNetworkMember) (results : AppResult (Option Text))
  | undoJoin (server : Uuid) (error : AppError)
  | refresh (server : Uuid)

def next (s : State) : Op → State
  | .port op => s.setCalls (Ports.next s.calls op) (SameNodes.next s.calls op)
  | .startLeave server => (startLeave s server).2
  | .finishLeave server teardown => (finishLeave s server teardown).2
  | .startJoin server => (startJoin s server).2
  | .recordJoin server publicKey now => (recordJoin s server publicKey now).2
  | .judgeJoin server member results => (judgeJoin s server member results).2
  | .undoJoin server error => (undoJoin s server error).2
  | .refresh server =>
    s.setCalls { s.calls with tables := (refreshVibeNetworkBindAddresses s.calls.tables server).2 }
      (SameNodes.refresh s.calls.tables server)

end Mesh

end VibeSsh.Network
