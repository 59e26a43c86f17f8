import VibeSsh.Docker.Networks

/-! # Connections between applications

`application_links` says which applications may reach each other, and the services that start,
restart, recreate, connect, disconnect and delete applications push it onto the Node's Docker
networks. A world is the tables of the install, the daemon of one Node, and which of its containers
were reconciled since the table last changed. The applications are the install's own: a shared one
has the runtime of a member, which leaves networks alone. -/

open List

namespace VibeSsh.Docker

open Lib

/-- An application's row and the Node it is on; `none` is this computer. -/
structure Row where
  application : Application
  serverId : Option Uuid
  deriving DecidableEq

def Row.id (row : Row) : Uuid := row.application.id

/-- `applications` and `application_links`, with the constraints of the latter: `CHECK
(application_id < peer_id)` and both columns referencing an application. -/
structure Tables where
  rows : List Row
  links : List (Uuid × Uuid)
  links_ordered : ∀ p ∈ links, p.1 ≤ p.2 ∧ p.1 ≠ p.2
  links_known : ∀ p ∈ links, p.1 ∈ rows.map Row.id ∧ p.2 ∈ rows.map Row.id

namespace Tables

/-- Applications no two of which are linked. -/
def unlinked (rows : List Row) : Tables := ⟨rows, [], by simp, by simp⟩

def getApplication (t : Tables) (id : Uuid) : AppResult Row :=
  match t.rows.find? (·.id = id) with
  | some row => .ok row
  | none => .error (.notFound ("application " ++ id.display))

/-- `list_links_locked`: an application stands in either column. -/
def linksOf (t : Tables) (id : Uuid) : List Uuid :=
  ((t.links.filter (·.1 = id)).map (·.2) ++ (t.links.filter (·.2 = id)).map (·.1)).dedup

theorem orderedPair_known {t : Tables} {a b : Uuid} (ha : a ∈ t.rows.map Row.id)
    (hb : b ∈ t.rows.map Row.id) :
    (orderedPair a b).1 ∈ t.rows.map Row.id ∧ (orderedPair a b).2 ∈ t.rows.map Row.id := by
  rcases orderedPair_cases a b with h | h <;> rw [h]
  · exact ⟨ha, hb⟩
  · exact ⟨hb, ha⟩

theorem orderedPair_ordered {a b : Uuid} (h : a ≠ b) :
    (orderedPair a b).1 ≤ (orderedPair a b).2 ∧ (orderedPair a b).1 ≠ (orderedPair a b).2 := by
  unfold orderedPair
  split
  · next hle => exact ⟨hle, h⟩
  · next hle => exact ⟨(le_total b.simple a.simple).resolve_right hle, h.symm⟩

def insertLink (t : Tables) (a b : Uuid) (hne : a ≠ b)
    (hknown : a ∈ t.rows.map Row.id ∧ b ∈ t.rows.map Row.id) : Tables :=
  if orderedPair a b ∈ t.links then t
  else
    { t with
      links := t.links ++ [orderedPair a b]
      links_ordered := forall_mem_append.mpr
        ⟨t.links_ordered, forall_mem_singleton.mpr (orderedPair_ordered hne)⟩
      links_known := forall_mem_append.mpr
        ⟨t.links_known, forall_mem_singleton.mpr (orderedPair_known hknown.1 hknown.2)⟩ }

def addLink (t : Tables) (a b : Uuid) : AppResult Tables :=
  if hne : a = b then .error (.invalidInput "an application can't be connected to itself")
  else if hknown : a ∈ t.rows.map Row.id ∧ b ∈ t.rows.map Row.id then
    .ok (t.insertLink a b hne hknown)
  else .error (.storage
    "failed to store the connection: FOREIGN KEY constraint failed")

def removeLink (t : Tables) (a b : Uuid) : Tables where
  rows := t.rows
  links := t.links.filter (· ≠ orderedPair a b)
  links_ordered := fun p hp => t.links_ordered p (mem_of_mem_filter hp)
  links_known := fun p hp => t.links_known p (mem_of_mem_filter hp)

theorem known_of_cascade {t : Tables} {id : Uuid} {p : Uuid × Uuid}
    (hp : p ∈ t.links.filter fun p => p.1 ≠ id ∧ p.2 ≠ id) :
    p.1 ∈ (t.rows.filter (·.id ≠ id)).map Row.id ∧ p.2 ∈ (t.rows.filter (·.id ≠ id)).map Row.id := by
  obtain ⟨hmem, hne⟩ := mem_filter.mp hp
  have hne : p.1 ≠ id ∧ p.2 ≠ id := by simpa using hne
  have hkeep : ∀ x, x ≠ id → x ∈ t.rows.map Row.id →
      x ∈ (t.rows.filter (·.id ≠ id)).map Row.id := by
    rintro x hx hrow
    obtain ⟨r, hr, rfl⟩ := mem_map.mp hrow
    exact mem_map.mpr ⟨r, mem_filter.mpr ⟨hr, by simpa using hx⟩, rfl⟩
  exact ⟨hkeep _ hne.1 (t.links_known p hmem).1, hkeep _ hne.2 (t.links_known p hmem).2⟩

/-- Deleting an application takes its connections with it (`ON DELETE CASCADE`). -/
def deleteApplication (t : Tables) (id : Uuid) : Tables where
  rows := t.rows.filter (·.id ≠ id)
  links := t.links.filter fun p => p.1 ≠ id ∧ p.2 ≠ id
  links_ordered := fun p hp => t.links_ordered p (mem_of_mem_filter hp)
  links_known := fun _ hp => known_of_cascade hp

end Tables

structure World where
  server : Option Uuid
  tables : Tables
  daemon : Daemon
  /-- The containers reconciled since `application_links` last changed. -/
  synced : List Uuid

namespace World

variable (w : World)

def RunsHere (row : Row) : Prop :=
  row.application.runtimeType = .docker ∧ row.serverId = w.server

instance (w : World) (row : Row) : Decidable (w.RunsHere row) := by
  unfold RunsHere; infer_instance

def withTables (t : Tables) : World :=
  { w with tables := t, synced := if t.links = w.tables.links then w.synced else [] }

/-- One of the runtime's calls that ends in `reconcile_networks`. -/
def reconcileWith (id : Uuid) (call : List Uuid → Daemon → Daemon) : World :=
  { w with
    daemon := call (w.tables.linksOf id) w.daemon
    synced := id :: w.synced }

def syncConnections (row : Row) : World :=
  if w.RunsHere row then w.reconcileWith row.id (Docker.syncConnections row.id) else w

def applyConnections (w : World) : List Uuid → AppResult Unit × World
  | [] => (.ok (), w)
  | id :: ids =>
    match w.tables.getApplication id with
    | .error e => (.error e, w)
    | .ok row => applyConnections (w.syncConnections row) ids

def validateConnectable (a b : Uuid) : AppResult Unit := do
  if a = b then .error (.invalidInput "an application can't be connected to itself")
  let first ← w.tables.getApplication a
  let second ← w.tables.getApplication b
  match [first, second].find? (·.application.runtimeType ≠ .docker) with
  | some row =>
    .error (.invalidInput ("'" ++ row.application.name ++
      "' isn't a Docker application, so there's no private network to connect it to"))
  | none =>
    if first.serverId = second.serverId then .ok ()
    else .error (.invalidInput ("'" ++ first.application.name ++ "' and '" ++
      second.application.name ++
      "' aren't on the same node - a Docker network doesn't span hosts"))

/-- `connect_applications`: the row first. -/
def connectApplications (a b : Uuid) : AppResult Unit × World :=
  match w.validateConnectable a b with
  | .error e => (.error e, w)
  | .ok _ =>
    match w.tables.addLink a b with
    | .error e => (.error e, w)
    | .ok t => (w.withTables t).applyConnections [a, b]

/-- `disconnect_applications`: a connection that could not be taken down goes back. -/
def disconnectApplications (a b : Uuid) : AppResult Unit × World :=
  match (w.withTables (w.tables.removeLink a b)).applyConnections [a, b] with
  | (.ok _, w') => (.ok (), w')
  | (.error e, w') =>
    match w'.tables.addLink a b with
    | .error _ => (.error e, w')
    | .ok t => (.error e, w'.withTables t)

def startApplication (id : Uuid) : AppResult Unit × World :=
  match w.tables.getApplication id with
  | .error e => (.error e, w)
  | .ok row =>
    if w.RunsHere row then (.ok (), w.reconcileWith row.id (Docker.start row.id)) else (.ok (), w)

def restartApplication (id : Uuid) : AppResult Unit × World :=
  match w.tables.getApplication id with
  | .error e => (.error e, w)
  | .ok row =>
    if w.RunsHere row then (.ok (), w.reconcileWith row.id (Docker.restart row.id)) else (.ok (), w)

def recreateApplication (id : Uuid) : AppResult Unit × World :=
  match w.tables.getApplication id with
  | .error e => (.error e, w)
  | .ok row =>
    if row.application.runtimeType ≠ .docker then
      (.error (.invalidInput "recreating is only meaningful for Docker applications"), w)
    else if w.RunsHere row then
      (.ok (), w.reconcileWith row.id fun links d => Docker.start row.id links (destroy row.id d))
    else (.ok (), w)

/-- The peers are taken off the networks they shared with a deleted application; one that is gone
itself is a warning. -/
def syncPeers (peers : List Uuid) : World :=
  peers.foldl (fun w peer =>
    match w.tables.getApplication peer with
    | .error _ => w
    | .ok row => w.syncConnections row) w

/-- `delete_application`, without what it does outside Docker. -/
def deleteApplication (id : Uuid) : AppResult Unit × World :=
  match w.tables.getApplication id with
  | .error e => (.error e, w)
  | .ok row =>
    let formerPeers := w.tables.linksOf row.id
    let w := if w.RunsHere row then { w with daemon := destroy row.id w.daemon } else w
    let w := (w.withTables (w.tables.deleteApplication row.id)).syncPeers formerPeers
    if row.serverId = w.server ∧ row.serverId ≠ none then
      (.ok (), { w with daemon := removeNetworks row.id formerPeers w.daemon })
    else (.ok (), w)

end World

inductive Op where
  | connect (a b : Uuid)
  | disconnect (a b : Uuid)
  | start (id : Uuid)
  | restart (id : Uuid)
  | recreate (id : Uuid)
  | delete (id : Uuid)
  deriving DecidableEq

def exec (w : World) : Op → AppResult Unit × World
  | .connect a b => w.connectApplications a b
  | .disconnect a b => w.disconnectApplications a b
  | .start id => w.startApplication id
  | .restart id => w.restartApplication id
  | .recreate id => w.recreateApplication id
  | .delete id => w.deleteApplication id

def next (w : World) (op : Op) : World := (exec w op).2

end VibeSsh.Docker
