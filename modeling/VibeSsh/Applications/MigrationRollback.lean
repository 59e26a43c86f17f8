import VibeSsh.Applications.Migration
import VibeSsh.Firewall.Reconcile

/-! # A migration that fails before the cut-over

What `migrate_application` leaves behind at each point where it can fail while the name still
resolves to the source. Only provisioning is undone, and of it not what the firewall syncs did. -/

namespace VibeSsh.Migration

open Lib Except
open Docker (Session)
open Docker.Session (lift)
open Ports (Tables PortRow PortInput Call)
open Firewall (Ufw ContainerRule)

variable {F α β : Type}

/-! ## Rolled back -/

def Work.Succeeds (w : Work) : Prop := w.result = .ok () ∧ w.did = true

def managed (s : State F) : List Firewall.UfwRule × List ContainerRule :=
  (s.ufw.rules.filter (·.marked), s.chain)

/-- What a firewall sync reads and writes beside the rows. -/
def firewall (s : State F) : Ufw × Option UInt16 × List ContainerRule := (s.ufw, s.session, s.chain)

section

variable (a : Answers F) (m : Request)

def stopsSource : Bool := wasRunning a m && a.stop.did

/-- A source that was up is not taken down. -/
def StaysUp (s : State F) : Prop :=
  a.restart.Succeeds → s.running m.source.id = true → stopsSource a m = false

/-- The target's row, as `create` would insert it. -/
def created (t : Tables) : AppResult Tables :=
  createRow t m.newId m.target.id (((t.get m.source.id).map (·.name)).getD [])

/-- The stop, the secrets and the directory go through, and the row can be inserted. -/
structure Prepared (t t' : Tables) : Prop where
  stop : wasRunning a m = true → a.stop.result = .ok ()
  secrets : ∀ key ∈ m.source.secrets, a.loadSecret key = .ok ()
  directory : a.directory.result = .ok ()
  create : a.create = .ok ()
  row : created m t = .ok t'

/-- The rows of the ports that are added, each with the sync after it, and whether all are. -/
def portRows (t : Tables) : List (PortRow × Nat) → List (Sync × Tables) × Bool
  | [] => ([], true)
  | port :: rest =>
    match addPortRow t m.newId (m.portId port.2) port.1.toPortInput (a.process port.2) with
    | (.error _, _) => ([], false)
    | (.ok _, t) => ((a.sync port.2, t) :: (portRows t rest).1, (portRows t rest).2)

/-- All ports are added, the files copied and the secrets stored. -/
structure Provisioned (ports : List PortRow) (t : Tables) : Prop where
  ports : (portRows a m t ports.zipIdx).2 = true
  detail : a.detail = .ok ()
  healthCheck : a.healthCheck = .ok ()
  copy : a.copy.result.isOk = true
  secrets : ∀ key ∈ m.source.secrets, a.storeSecret key = .ok ()

/-- Before the new row nothing is undone, so the source may not have been stopped; with the row there,
only a failure in provisioning is undone, and then the row has to go and the rules must be right. -/
structure Compensated (s : State F) (rules : List (Sync × Tables) → Prop) : Prop where
  unprepared : (∀ t, ¬ Prepared a m s.tables t) → StaysUp a m s
  readBack : ∀ t, Prepared a m s.tables t → a.readBack = .ok ()
  provisioning : ∀ t, Prepared a m s.tables t →
    ¬ Provisioned a m (s.tables.listPorts m.source.id) t →
      a.delete = .ok () ∧ rules (portRows a m t (s.tables.listPorts m.source.id).zipIdx).1
  cutOver : ∀ t, Prepared a m s.tables t →
    Provisioned a m (s.tables.listPorts m.source.id) t → a.repoint.isOk = true

/-- The Node is there with its ufw and does what a sync asks. -/
def Sync.GoesThrough (sync : Sync) : Prop :=
  sync.first.Succeed ∧ sync.first.connect = none ∧ sync.first.throughScope = true

end

/-! ## What the steps keep -/

section

variable {a : Answers F} {m : Request} {s s₁ s₂ s' : State F}

/-- Nothing of the source but whether it runs, and no row but those of the target's ports. -/
structure Kept (m : Request) (s s' : State F) : Prop where
  applications : s'.tables.applications = s.tables.applications
  ports : m.newId ≠ m.source.id → s'.tables.ports.filter (·.applicationId = m.source.id) =
    s.tables.ports.filter (·.applicationId = m.source.id)
  files : m.source.server ≠ some m.target.id → s'.files m.source.server = s.files m.source.server
  secrets : m.newId ≠ m.source.id → s'.keyring m.source.id = s.keyring m.source.id
  running : s'.running = s.running

theorem Kept.refl (m : Request) (s : State F) : Kept m s s :=
  ⟨rfl, fun _ => rfl, fun _ => rfl, fun _ => rfl, rfl⟩

theorem Kept.trans : ∀ ⦃s s₁ s₂ : State F⦄, Kept m s s₁ → Kept m s₁ s₂ → Kept m s s₂ :=
  fun _ _ _ h₁ h₂ => ⟨h₂.applications.trans h₁.applications, fun h => (h₂.ports h).trans (h₁.ports h),
    fun h => (h₂.files h).trans (h₁.files h), fun h => (h₂.secrets h).trans (h₁.secrets h),
    h₂.running.trans h₁.running⟩

def Relates (R : State F → State F → Prop) (p : Session (State F) α) : Prop :=
  ∀ s, R s (p.run s).2

variable {R : State F → State F → Prop} {p : Session (State F) α} {t : Tables}

theorem Relates.lift (hrefl : ∀ s, R s s) (r : AppResult α) :
    Relates R (Docker.Session.lift r) := hrefl

theorem Relates.bind (htrans : ∀ ⦃s₁ s₂ s₃⦄, R s₁ s₂ → R s₂ s₃ → R s₁ s₃)
    {f : α → Session (State F) β} (hp : Relates R p) (hf : ∀ x, Relates R (f x)) :
    Relates R (p >>= f) := by
  intro s
  cases hrun : p.run s with
  | mk result s₁ =>
    have hfirst : R s s₁ := by simpa [hrun] using hp s
    cases result with
    | error e =>
      rw [Docker.Session.bind_error hrun]
      exact hfirst
    | ok x =>
      rw [Docker.Session.bind_ok hrun]
      exact htrans hfirst (hf x s₁)

theorem Relates.each (hrefl : ∀ s, R s s)
    (htrans : ∀ ⦃s₁ s₂ s₃⦄, R s₁ s₂ → R s₂ s₃ → R s₁ s₃) {f : α → Session (State F) Unit}
    (hf : ∀ x, Relates R (f x)) (xs : List α) : Relates R (Docker.Session.each f xs) := by
  induction xs with
  | nil => exact fun s => hrefl s
  | cons x xs ih => exact .bind htrans (hf x) fun _ => ih

/-- Whether it is stopped here, and whatever else fails: the target's directory apart, nothing
changes. -/
structure Stopped (a : Answers F) (m : Request) (s s₁ : State F) : Prop where
  tables : s₁.tables = s.tables
  keyring : s₁.keyring = s.keyring
  files : m.source.server ≠ some m.target.id → s₁.files m.source.server = s.files m.source.server
  rules : firewall s₁ = firewall s
  running : s₁.running m.source.id = (s.running m.source.id && !stopsSource a m)

def undone (a : Answers F) (m : Request) (s : State F) : State F :=
  let tables := match a.delete, deleteRow s.tables m.newId with
    | .ok _, .ok t => t
    | _, _ => s.tables
  let running :=
    if wasRunning a m then Function.update s.running m.source.id a.restart.did else s.running
  { s with tables := tables, running := running }

theorem get_eq_none {id : Uuid} (h : t.get id = none) {row : Ports.ApplicationRow}
    (hrow : row ∈ t.applications) : row.id ≠ id := by
  simpa using List.find?_eq_none.mp h row hrow

structure Created (a : Answers F) (m : Request) (s s₂ : State F) : Prop where
  fresh : s.tables.get m.newId = none
  distinct : m.newId ≠ m.source.id
  apart : m.source.server ≠ some m.target.id
  rows : ∃ row : Ports.ApplicationRow, row.id = m.newId ∧
    s₂.tables.applications = s.tables.applications ++ [row]
  ports : s₂.tables.ports = s.tables.ports
  keyring : s₂.keyring = s.keyring
  files : s₂.files m.source.server = s.files m.source.server
  rules : firewall s₂ = firewall s
  running : s₂.running m.source.id = (s.running m.source.id && !stopsSource a m)

section

variable (hc : Created a m s s₂)
include hc

end

theorem check_ok (h : check a m s.tables = .ok ()) :
    (s.tables.get m.source.id).isSome = true ∧ m.source.server ≠ some m.target.id := by
  unfold check at h
  obtain ⟨_, -, h⟩ := try_ok_iff.mp h
  split_ifs at h
  · obtain ⟨_, -, h⟩ := try_ok_iff.mp h
    obtain ⟨_, hsource, -⟩ := try_ok_iff.mp h
    unfold checkSource at hsource
    split at hsource
    · cases hsource
    next hrow =>
    split at hsource
    · cases hsource
    · split at hsource
      · cases hsource
      next hserver => exact ⟨by simpa [Option.isSome_iff_ne_none] using hrow, hserver⟩

theorem Stopped.created (hs : Stopped a m s s₁) (hcheck : check a m s.tables = .ok ())
    (hfresh : s₁.tables.get m.newId = none) {row : Ports.ApplicationRow}
    (hid : row.id = m.newId) (happs : t.applications = s₁.tables.applications ++ [row])
    (hports : t.ports = s₁.tables.ports) : Created a m s { s₁ with tables := t } := by
  obtain ⟨hsource, hapart⟩ := check_ok hcheck
  rw [hs.tables] at hfresh happs hports
  refine ⟨hfresh, fun heq => ?_, hapart, ⟨row, hid, happs⟩, hports, hs.keyring, hs.files hapart,
    hs.rules, hs.running⟩
  rw [heq] at hfresh
  simp [hfresh] at hsource

/-! ## The conditions -/

variable {rules rules' : List (Sync × Tables) → Prop}

theorem Compensated.imp (h : Compensated a m s rules) (himp : ∀ syncs, rules syncs → rules' syncs) :
    Compensated a m s rules' :=
  ⟨h.unprepared, h.readBack, fun t ht hnot =>
    ⟨(h.provisioning t ht hnot).1, himp _ (h.provisioning t ht hnot).2⟩, h.cutOver⟩

end

/-! ## What the syncs do -/

section

variable {m : Request} {s s' : State F}

end

def newNode : Node where
  id := .repeated 2
  server := some ⟨"new", "198.51.100.4", 22, "root", .password, none, none⟩
  customRules := []

/-- A game server with one public port, on its way to another Node. -/
def lobby : Source where
  id := .repeated 9
  server := some (.repeated 1)
  runtimeType := .docker
  secrets := []

def moved : Request where
  source := lobby
  stored := .running
  target := newNode
  newId := .repeated 3
  portId := fun _ => .repeated 4

def gamePort : PortRow where
  name := "game"
  protocol := .tcp
  bindAddress := "0.0.0.0"
  internalPort := 25565
  externalPort := some 25565
  visibility := .publicAccess
  required := true
  id := Uuid.max
  applicationId := lobby.id

def reachable : Firewall.Answers where
  connect := none
  arrival := 22
  throughScope := false
  detect := .ok
  live := .ok
  enable := .ok
  showAdded := .ok
  status := .ok
  apply := fun _ => .ok
  revoke := fun _ => .ok

end VibeSsh.Migration
