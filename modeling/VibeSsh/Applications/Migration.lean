import VibeSsh.Backups.Archive
import VibeSsh.Docker.Session
import VibeSsh.Firewall.DockerUser
import VibeSsh.Firewall.Service
import VibeSsh.Ports.Published

/-! # Moving an application to another Node

`migration_service::migrate_application` up to the cut-over: the source is stopped, a second
application with the same configuration is set up on the target Node, and the DNS name is pointed at
it. A failure on the way is to undo what was done; what follows, and only warns of failures, is a
parameter. Every call that leaves the process is answered from outside. -/

namespace VibeSsh.Migration

open Lib
open Docker (Session)
open Docker.Session (lift)
open Backups (ApplicationStatus)
open Ports (Tables PortRow PortInput Call)
open Firewall (Ufw NodeRows ContainerRule)

variable {F : Type}

/-! ## What is there -/

/-- The databases, the Nodes and the keyring, as far as a migration reads or writes them. -/
structure State (F : Type) where
  tables : Tables
  /-- The stored secrets, by application and key. -/
  keyring : Uuid → Text → Option Text
  /-- The application's working directory on each Node and here. -/
  files : Option Uuid → F
  running : Uuid → Bool
  /-- The target Node's firewall and the session to it. -/
  ufw : Ufw
  session : Option UInt16
  chain : List ContainerRule

structure Node where
  id : Uuid
  server : Option Server
  customRules : List CustomRule

/-- The application to move, with the keys of its secrets. -/
structure Source where
  id : Uuid
  server : Option Uuid
  runtimeType : RuntimeType
  secrets : List Text

structure Request where
  source : Source
  /-- The status in the source's row. -/
  stored : ApplicationStatus
  target : Node
  /-- `Uuid::new_v4()` for the target's row, and for its ports. -/
  newId : Uuid
  portId : Nat → Uuid

/-- What a sync leaves of the `DOCKER-USER` rules. -/
inductive ChainAnswer where
  | kept
  | applied
  | left (rules : List ContainerRule)

structure Sync where
  first : Firewall.Answers
  second : Firewall.Answers
  chain : ChainAnswer

/-- A start or a stop: what the call returns, and whether it did its work. -/
structure Work where
  result : AppResult Unit
  did : Bool

/-- A call that writes to the target's directory: what it returns and what it leaves there. -/
structure Written (F α : Type) where
  result : AppResult α
  left : F

structure Answers (F : Type) where
  shared : AppResult Unit
  migrating : Bool
  load : AppResult Unit
  targetServer : AppResult Bool
  databases : AppResult (List Text)
  refresh : AppResult ApplicationStatus
  stop : Work
  loadSecret : Text → AppResult Unit
  directory : Written F Unit
  create : AppResult Unit
  readBack : AppResult Unit
  /-- The process the Node names on the `n`-th port, and the sync after it. -/
  process : Nat → Option Text
  sync : Nat → Sync
  detail : AppResult Unit
  healthCheck : AppResult Unit
  copy : Written F Nat
  storeSecret : Text → AppResult Unit
  delete : AppResult Unit
  restart : Work
  /-- `repoint_application`: whether there was a name to point elsewhere. -/
  repoint : AppResult Bool

/-! ## The tables -/

def createRow (t : Tables) (id server : Uuid) (name : Text) : AppResult Tables :=
  if (t.get id).isSome then
    .error (.storage "failed to insert application: UNIQUE constraint failed: applications.id")
  else .ok { t with applications := t.applications ++ [⟨id, some server, name⟩] }

def deleteRow (t : Tables) (id : Uuid) : AppResult Tables :=
  if (t.get id).isNone then .error (.notFound ("application " ++ id.display))
  else .ok {
    applications := t.applications.filter (·.id ≠ id)
    ports := t.ports.filter (·.applicationId ≠ id)
    wireguardIp := t.wireguardIp
    ids := t.ids.sublist (List.filter_sublist.map _) }

/-- `add_application_port`, up to the firewall. -/
def addPortRow (t : Tables) (application portId : Uuid) (port : PortInput) (process : Option Text) :
    AppResult PortRow × Tables :=
  match t.get application with
  | none => (.error (.notFound ("application " ++ application.display)), t)
  | some row =>
    match Ports.resolveBindAddress t row.serverId port with
    | .error e => (.error e, t)
    | .ok bindAddress =>
      let call : Call := ⟨application, .add portId, { port with bindAddress := bindAddress }⟩
      match Ports.checkExternalPortAvailable t call, process with
      | .error e, _ => (.error e, t)
      | .ok (some waiting), some process =>
        (.error (Tables.portInUse port waiting.externalPort process), t)
      | .ok _, _ => Ports.save t call

/-- The rows the rules of a Node are computed from; the rules read no more of an application. -/
def nodeRows (node : Node) (t : Tables) : NodeRows where
  server := node.server
  isMeshMember := (t.wireguardIp node.id).isSome
  applications := (t.listByServer node.id).map fun row =>
    ⟨row.id, row.name, .docker, [], (t.listPorts row.id).map fun p =>
      ⟨p.name, p.protocol, p.internalPort, p.externalPort, p.visibility⟩⟩
  customRules := node.customRules

/-! ## Up to the cut-over -/

section

variable (a : Answers F) (m : Request)

def checkSource (t : Tables) : AppResult Unit :=
  if (t.get m.source.id).isNone then
    .error (.notFound ("application " ++ m.source.id.display))
  else if m.source.runtimeType ≠ .docker then
    .error (.invalidInput "only Docker applications can be migrated between Nodes today")
  else if m.source.server = some m.target.id then
    .error (.invalidInput
      "the target Node must be different from the application's current Node")
  else .ok ()

def check (t : Tables) : AppResult Unit := do
  a.shared
  if a.migrating then .error (.invalidInput "this application is already being migrated")
  else do
    a.load
    checkSource m t
    let found ← a.targetServer
    if !found then .error (.notFound ("server " ++ m.target.id.display))
    else do
      let databases ← a.databases
      if databases.isEmpty then .ok ()
      else .error (.migrationHasDatabases (Text.join ", " databases))

/-- From the Node, or else from the row. -/
def wasRunning : Bool :=
  let status := match a.refresh with
    | .ok status => status
    | .error _ => m.stored
  status == .running || status == .starting

def stopSource : Session (State F) Unit := fun s =>
  if !wasRunning a m then (.ok (), s)
  else if a.stop.did then
    (a.stop.result, { s with running := Function.update s.running m.source.id false })
  else (a.stop.result, s)

def resolveSecrets (s : State F) : AppResult (List (Text × Text)) :=
  m.source.secrets.mapM fun key => do
    a.loadSecret key
    .ok (key, (s.keyring m.source.id key).getD [])

/-- A step that only reads. -/
def reading {α : Type} (f : State F → AppResult α) : Session (State F) α := fun s => (f s, s)

def ensureDirectory : Session (State F) Unit := fun s =>
  (a.directory.result,
    { s with files := Function.update s.files (some m.target.id) a.directory.left })

/-- The source stopped, its secrets read and the target's directory made. -/
def stopAndResolve : Session (State F) (List (Text × Text)) := do
  stopSource a m
  let secrets ← reading (resolveSecrets a m)
  ensureDirectory a m
  pure secrets

def createTarget : Session (State F) Unit := fun s =>
  let name := ((s.tables.get m.source.id).map (·.name)).getD []
  match a.create, createRow s.tables m.newId m.target.id name with
  | .error e, _ => (.error e, s)
  | .ok _, .error e => (.error e, s)
  | .ok _, .ok t => (.ok (), { s with tables := t })

/-- `sync_firewall_after_port_change`, whose failure does not fail the caller. -/
def syncTarget (sync : Sync) (s : State F) : State F :=
  let rows := nodeRows m.target s.tables
  let o := Firewall.reconcileNode m.target.id sync.first sync.second ⟨rows, s.ufw, s.session⟩
  { s with
    ufw := o.final.ufw
    session := o.final.session
    chain := match sync.chain with
      | .kept => s.chain
      | .applied => Firewall.dedupe (Firewall.desiredContainerRules rows)
      | .left rules => rules }

/-- `add_application_port` for the `n`-th port of the source. -/
def addApplicationPort (port : PortRow × Nat) : Session (State F) Unit := fun s =>
  match addPortRow s.tables m.newId (m.portId port.2) port.1.toPortInput (a.process port.2) with
  | (.error e, t) => (.error e, { s with tables := t })
  | (.ok _, t) => (.ok (), syncTarget m (a.sync port.2) { s with tables := t })

def addPorts (ports : List PortRow) : Session (State F) Unit :=
  Docker.Session.each (addApplicationPort a m) ports.zipIdx

/-- The connections and the copy, which reads the source's directory and writes the target's. -/
def copyFiles : Session (State F) Nat := fun s =>
  (a.copy.result, { s with files := Function.update s.files (some m.target.id) a.copy.left })

def provisionTarget (ports : List PortRow) : Session (State F) Nat := do
  addPorts a m ports
  lift a.detail
  lift a.healthCheck
  copyFiles a m

def storeSecret (secret : Text × Text) : Session (State F) Unit := fun s =>
  match a.storeSecret secret.1 with
  | .error e => (.error e, s)
  | .ok _ =>
    let stored := Function.update (s.keyring m.newId) secret.1 (some secret.2)
    (.ok (), { s with keyring := Function.update s.keyring m.newId stored })

/-- `roll_back_target`: the error to report, with what went wrong in undoing. -/
def rollBackTarget (e : AppError) (s : State F) : AppError × State F :=
  let failed (undo : AppError) : AppError := .internal (e.display ++ ". An empty '" ++
    m.newId.display ++ ("' application was also left behind on the target node and couldn't be " ++
      "removed automatically (").toList ++ undo.display ++ ") - delete it before retrying")
  match a.delete, deleteRow s.tables m.newId with
  | .error undo, _ => (failed undo, s)
  | .ok _, .error undo => (failed undo, s)
  | .ok _, .ok t => (e, { s with tables := t })

def restartSource (e : AppError) (s : State F) : AppError × State F :=
  if !wasRunning a m then (e, s)
  else
    let s := { s with running := Function.update s.running m.source.id a.restart.did }
    match a.restart.result with
    | .ok _ => (e, s)
    | .error startErr => (.internal (e.display ++
        (". The application was stopped for the migration and couldn't be started again on its " ++
          "own Node (").toList ++ startErr.display ++ ") - start it by hand"), s)

/-- A step whose failure is undone. -/
def orRollBack {α : Type} (p : Session (State F) α) : Session (State F) α := fun s =>
  match p.run s with
  | (.ok x, s) => (.ok x, s)
  | (.error e, s) =>
    let (e, s) := rollBackTarget a m e s
    let (e, s) := restartSource a m e s
    (.error e, s)

/-- The new row filled in and the name pointed at it. -/
def fillTarget (ports : List PortRow) (secrets : List (Text × Text)) :
    Session (State F) (Nat × Bool) := do
  let filesCopied ← orRollBack a m (provisionTarget a m ports)
  orRollBack a m (Docker.Session.each (storeSecret a m) secrets)
  let repointed ← lift a.repoint
  pure (filesCopied, repointed)

def setUp (ports : List PortRow) : Session (State F) (Nat × Bool) := do
  let secrets ← stopAndResolve a m
  createTarget a m
  -- `create` reads the row back after the commit
  lift a.readBack
  fillTarget a m ports secrets

end

end VibeSsh.Migration
