import VibeSsh.Models
import VibeSsh.Lib.Run

/-! # Saving an application's ports

`add_application_port` and `update_application_port` with the repository below them. A call runs
without interruption up to the probe of the Node, waits there, and goes on when the answer is in; in
between any other call may run. Adding checks the published port once more in the transaction of its
insert, updating does not. The firewall sync that follows a save reads the rows and changes none. -/

namespace VibeSsh.Ports

open Lib

structure PortInput where
  name : Text
  protocol : PortProtocol
  bindAddress : Text
  internalPort : UInt16
  externalPort : Option UInt16
  visibility : PortVisibility
  required : Bool
  deriving DecidableEq

/-- A row of `application_ports`. -/
structure PortRow extends PortInput where
  id : Uuid
  applicationId : Uuid
  deriving DecidableEq

structure ApplicationRow where
  id : Uuid
  serverId : Option Uuid
  name : Text
  deriving DecidableEq

/-- The tables the calls read and write; `wireguardIp` is the address of a Node on the mesh. The
identifier of a port is its primary key. -/
structure Tables where
  applications : List ApplicationRow
  ports : List PortRow
  wireguardIp : Uuid → Option Text
  ids : (ports.map (·.id)).Nodup

namespace Tables

/-! ## The repository -/

variable (t : Tables)

def get (application : Uuid) : Option ApplicationRow :=
  t.applications.find? (·.id = application)

/-- The Node an application runs on, none for a local one. -/
def serverOf (application : Uuid) : Option Uuid :=
  (t.get application).bind (·.serverId)

def findPortCollision (application : Uuid) (excluding : Option Uuid)
    (port : PortInput) : Option Text :=
  (t.ports.find? fun p => p.applicationId = application ∧ p.protocol = port.protocol ∧
    p.bindAddress = port.bindAddress ∧ p.internalPort = port.internalPort ∧
    some p.id ≠ excluding).map (·.name)

/-- Whether a row publishes this port on this Node. -/
def Publishes (server : Uuid) (protocol : PortProtocol) (externalPort : UInt16)
    (p : PortRow) : Prop :=
  t.serverOf p.applicationId = some server ∧ p.protocol = protocol ∧
    p.externalPort = some externalPort

instance (t : Tables) (server : Uuid) (protocol : PortProtocol) (externalPort : UInt16)
    (p : PortRow) : Decidable (t.Publishes server protocol externalPort p) :=
  inferInstanceAs (Decidable (_ ∧ _ ∧ _))

/-- The name of the application that publishes the port. -/
def findExternalPortOwner (server : Uuid) (excluding : Option Uuid)
    (protocol : PortProtocol) (externalPort : UInt16) : Option Text :=
  (t.ports.find? fun p => t.Publishes server protocol externalPort p ∧ some p.id ≠ excluding).bind
    fun p => (t.get p.applicationId).map (·.name)

theorem nodup_insert {t : Tables} {row : PortRow} (h : ¬ t.ports.any (·.id = row.id) = true) :
    ((t.ports ++ [row]).map (·.id)).Nodup := by
  rw [List.map_append, List.nodup_append']
  refine ⟨t.ids, by simp, ?_⟩
  simpa [List.disjoint_left] using h

def insertPort (id application : Uuid) (port : PortInput) : AppResult Tables :=
  let row : PortRow := { port with id := id, applicationId := application }
  if (t.get application).isNone then
    .error (.storage "failed to insert port: FOREIGN KEY constraint failed")
  else if h : t.ports.any (·.id = row.id) then
    .error (.storage
      "failed to insert port: UNIQUE constraint failed: application_ports.id")
  else .ok { t with ports := t.ports ++ [row], ids := nodup_insert h }

def getPort (application id : Uuid) : Option PortRow :=
  t.ports.find? fun p => p.applicationId = application ∧ p.id = id

def collisionError (port : PortInput) (collision : Text) : AppError :=
  .invalidInput ("port " ++ Text.ofNat port.internalPort.toNat ++
    " is already used by '" ++ collision ++ "' on this application")

def portInUse (port : PortInput) (externalPort : UInt16) (owner : Text) : AppError :=
  .portInUse externalPort port.protocol.str (some owner)

def insertAndRead (id application : Uuid) (port : PortInput) :
    AppResult PortRow × Tables :=
  match t.insertPort id application port with
  | .error e => (.error e, t)
  | .ok t =>
    match t.getPort application id with
    | some row => (.ok row, t)
    | none => (.error (.internal ("port " ++ id.display ++
        " vanished immediately after being created")), t)

def addPort (id application : Uuid) (port : PortInput) : AppResult PortRow × Tables :=
  match t.findPortCollision application none port with
  | some collision => (.error (collisionError port collision), t)
  | none => t.insertAndRead id application port

/-- Both checks and the insert, in one transaction. -/
def claimExternalPort (id application server : Uuid) (port : PortInput) :
    AppResult PortRow × Tables :=
  match port.externalPort with
  | none => t.addPort id application port
  | some externalPort =>
    match t.findPortCollision application none port with
    | some collision => (.error (collisionError port collision), t)
    | none =>
      match t.findExternalPortOwner server none port.protocol externalPort with
      | some owner => (.error (portInUse port externalPort owner), t)
      | none => t.insertAndRead id application port

/-- What the `UPDATE` makes of a row: every column of the input but `required`. -/
def setColumns (application portId : Uuid) (port : PortInput) (p : PortRow) : PortRow :=
  if p.id = portId ∧ p.applicationId = application then
    { port with required := p.required, id := p.id, applicationId := p.applicationId }
  else p

theorem setColumns_id (application portId : Uuid) (port : PortInput) (p : PortRow) :
    (setColumns application portId port p).id = p.id := by
  unfold setColumns
  split <;> rfl

theorem nodup_setColumns {t : Tables} (application portId : Uuid) (port : PortInput) :
    ((t.ports.map (setColumns application portId port)).map (·.id)).Nodup := by
  rw [List.map_map]
  exact (List.map_congr_left fun p _ => setColumns_id application portId port p) ▸ t.ids

def updatePort (application portId : Uuid) (port : PortInput) :
    AppResult PortRow × Tables :=
  match t.findPortCollision application (some portId) port with
  | some collision => (.error (collisionError port collision), t)
  | none =>
    let updated := { t with
      ports := t.ports.map (setColumns application portId port)
      ids := nodup_setColumns application portId port }
    match updated.getPort application portId with
    | some row => (.ok row, updated)
    | none => (.error (.notFound ("port " ++ portId.display)), updated)

/-- A name under `COLLATE NOCASE`. -/
def nocase (name : Text) : Text := name.map Char.toLower

def listByServer (server : Uuid) : List ApplicationRow :=
  (t.applications.filter (·.serverId = some server)).insertionSort fun a b =>
    nocase a.name ≤ nocase b.name

def listPorts (application : Uuid) : List PortRow :=
  (t.ports.filter (·.applicationId = application)).insertionSort fun p q =>
    nocase p.name ≤ nocase q.name

end Tables

/-! ## The service -/

def resolveBindAddress (t : Tables) (server : Option Uuid) (port : PortInput) : AppResult Text :=
  match port.visibility with
  | .publicAccess => .ok "0.0.0.0"
  | .localhost => .ok "127.0.0.1"
  | .custom => .ok port.bindAddress
  | .vibeNetwork =>
    match server with
    | none => .error (.invalidInput ("a local application has no Vibe Network address - use " ++
        "'Localhost' or 'Public' instead").toList)
    | some server =>
      match t.wireguardIp server with
      | none => .error (.invalidInput ("this Node hasn't joined the Vibe Network yet, so it has no " ++
          "private address to bind to - join it from the Vibe Network page first, or pick a " ++
          "different visibility").toList)
      | some ip => .ok ip

/-- A call of the service; an addition carries the identifier its row will get. -/
inductive Save where
  | add (newId : Uuid)
  | update (portId : Uuid)
  deriving DecidableEq

def Save.excluding : Save → Option Uuid
  | .add _ => none
  | .update portId => some portId

structure Call where
  application : Uuid
  save : Save
  port : PortInput
  deriving DecidableEq

/-- A call at the probe: the Node it asks and the port it asks about. -/
structure Waiting where
  call : Call
  server : Uuid
  externalPort : UInt16
  deriving DecidableEq

/-- `check_external_port_available` up to the probe: no probe is needed, or the Node is to be asked
about a port. -/
def checkExternalPortAvailable (t : Tables) (call : Call) : AppResult (Option Waiting) :=
  match call.port.externalPort with
  | none => .ok none
  | some externalPort =>
    match t.serverOf call.application with
    | none => .ok none
    | some server =>
      let unchanged := t.ports.any fun p => p.applicationId = call.application ∧
        some p.id = call.save.excluding ∧ p.externalPort = some externalPort ∧
        p.protocol = call.port.protocol
      if unchanged then .ok none
      else
        match t.findExternalPortOwner server call.save.excluding call.port.protocol
            externalPort with
        | some owner => .error (Tables.portInUse call.port externalPort owner)
        | none => .ok (some ⟨call, server, externalPort⟩)

def save (t : Tables) (call : Call) : AppResult PortRow × Tables :=
  match call.save, t.serverOf call.application with
  | .add newId, some server => t.claimExternalPort newId call.application server call.port
  | .add newId, none => t.addPort newId call.application call.port
  | .update portId, _ => t.updatePort call.application portId call.port

structure State where
  tables : Tables
  waiting : List Waiting

/-- A call up to the probe, or to its end if it needs none; no result means it waits. -/
def start (s : State) (call : Call) : Option (AppResult PortRow) × State :=
  match s.tables.get call.application with
  | none => (some (.error (.notFound ("application " ++ call.application.display))), s)
  | some row =>
    match resolveBindAddress s.tables row.serverId call.port with
    | .error e => (some (.error e), s)
    | .ok bindAddress =>
      let call := { call with port := { call.port with bindAddress := bindAddress } }
      match checkExternalPortAvailable s.tables call with
      | .error e => (some (.error e), s)
      | .ok (some waiting) => (none, { s with waiting := waiting :: s.waiting })
      | .ok none =>
        let (result, tables) := save s.tables call
        (some result, { s with tables := tables })

/-- The rest of a call, once the Node has named a process on the port or, reached or not, none. -/
def resume (s : State) (w : Waiting) (process : Option Text) : Option (AppResult PortRow) × State :=
  if w ∈ s.waiting then
    let s := { s with waiting := s.waiting.erase w }
    match process with
    | some process => (some (.error (Tables.portInUse w.call.port w.externalPort process)), s)
    | none =>
      let (result, tables) := save s.tables w.call
      (some result, { s with tables := tables })
  else (none, s)

inductive Op where
  | start (call : Call)
  | resume (w : Waiting) (process : Option Text)

def next (s : State) : Op → State
  | .start call => (start s call).2
  | .resume w process => (resume s w process).2

end VibeSsh.Ports
