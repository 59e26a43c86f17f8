import VibeSsh.Docker.Container
import VibeSsh.Docker.Networks

/-! # Reconciling networks, command by command

`runtime::docker` from `docker` calls that may fail: each is answered by something outside, which
may lose the connection or refuse the command at any point. -/

namespace VibeSsh.Docker

open Lib

/-- A program that acts on what is outside it, `σ`, and may stop with an error. -/
def Session (σ α : Type) := σ → AppResult α × σ

namespace Session

variable {σ : Type}

def run {α : Type} (m : Session σ α) (s : σ) : AppResult α × σ := m s

def andThen {α β : Type} (m : Session σ α) (f : α → Session σ β) : Session σ β := fun s =>
  match (m.run s).1 with
  | .error e => (.error e, (m.run s).2)
  | .ok a => (f a).run (m.run s).2

instance : Monad (Session σ) where
  pure a := fun s => (.ok a, s)
  bind := andThen

def fail {α : Type} (e : AppError) : Session σ α := fun s => (.error e, s)

def lift {α : Type} (r : AppResult α) : Session σ α := fun s => (r, s)

/-- A step that returns hands its value and its state on. -/
theorem bind_ok {α β : Type} {m : Session σ α} {f : α → Session σ β} {s s' : σ} {a : α}
    (h : m.run s = (.ok a, s')) : (m >>= f).run s = (f a).run s' := by
  show andThen m f s = _
  unfold andThen
  rw [h]

theorem bind_error {α β : Type} {m : Session σ α} {f : α → Session σ β} {s s' : σ} {e : AppError}
    (h : m.run s = (.error e, s')) : (m >>= f).run s = (.error e, s') := by
  show andThen m f s = _
  unfold andThen
  rw [h]

/-- `for x in xs`: the first error ends the loop. -/
def each {α : Type} (f : α → Session σ Unit) : List α → Session σ Unit
  | [] => pure ()
  | x :: xs => do
    f x
    each f xs

/-- A loop whose every step returns is the fold of what the steps do. -/
theorem each_ok {α : Type} {f : α → Session σ Unit} {g : σ → α → σ}
    (h : ∀ x s, (f x).run s = (.ok (), g s x)) (xs : List α) (s : σ) :
    (each f xs).run s = (.ok (), xs.foldl g s) := by
  induction xs generalizing s with
  | nil => rfl
  | cons x xs ih =>
    unfold each
    rw [bind_ok (h x s), ih]
    rfl

/-! ## The commands -/

/-- What a `docker` command answers. -/
structure Output where
  exitCode : Int
  stdout : Text
  stderr : Text

/-- The `docker` commands of a reconcile; a container is named by its application. -/
inductive Call where
  | inspect (container : Uuid)
  | inspectNetworks (container : Uuid)
  | networkInspect (name : NetworkName)
  | networkCreate (internal : Bool) (name : NetworkName)
  | networkConnect (hostname : Text) (name : NetworkName) (container : Uuid)
  | networkDisconnect (name : Text) (container : Uuid)
  deriving DecidableEq

/-- `daemon_unreachable`, as far as its callers use it. -/
def daemonUnreachable (lower : Text.Lowercase) (stderr : Text) : Bool :=
  let lowered := stderr.flatMap lower.map
  Text.includes "cannot connect to the docker daemon" lowered ||
    Text.includes "failed to connect to the docker api" lowered ||
    Text.includes "dockerdesktoplinuxengine" lowered ||
    Text.includes "docker_engine" lowered ||
    (Text.includes "docker.sock" lowered && Text.includes "connect" lowered)

/-- What the command said, or a text of ours if it said nothing. -/
def detailOr (stderr fallback : Text) : Text :=
  if (Text.trim stderr).isEmpty then fallback else Text.trim stderr

def networkCreateError (lower : Text.Lowercase) (name : NetworkName) (stderr : Text) : AppError :=
  if Text.includes "non-overlapping IPv4 address pool" (Text.trim stderr) then
    .connection (("Docker has no address space left for another private network on this node. " ++
      "Each application gets its own network, and each connection between two applications gets " ++
      "one more, against a default pool of about thirty. Remove unused networks with " ++
      "'docker network prune', or widen 'default-address-pools' in /etc/docker/daemon.json. " ++
      "Docker said: ").toList ++ Text.trim stderr)
  else if daemonUnreachable lower (Text.trim stderr) then .dockerUnavailable
  else .connection ("couldn't create the '" ++ name.text ++ "' network: " ++
    detailOr stderr "docker network create failed")

def networkConnectError (lower : Text.Lowercase) (name : NetworkName) (stderr : Text) : AppError :=
  if daemonUnreachable lower (Text.trim stderr) then .dockerUnavailable
  else .connection ("couldn't join the '" ++ name.text ++ "' network: " ++
    detailOr stderr "docker network connect failed")

def networkDisconnectError (name stderr : Text) : AppError :=
  .connection ("couldn't disconnect this application from the '" ++ name ++
    "' network, so it can still reach whatever else is on it: " ++
    detailOr stderr "docker network disconnect failed")

section

variable (lower : Text.Lowercase) (docker : Call → Session σ Output)

def containerExists (container : Uuid) : Session σ Bool := do
  lift (validateContainerRef (containerName container))
  let output ← docker (.inspect container)
  pure (output.exitCode == 0)

def ensureNetwork (name : NetworkName) (internal : Bool) : Session σ Unit := do
  let probe ← docker (.networkInspect name)
  if probe.exitCode = 0 then pure ()
  else do
    let output ← docker (.networkCreate internal name)
    if output.exitCode = 0 then pure ()
    else do
      -- somebody else may have created it in between
      let recheck ← docker (.networkInspect name)
      if recheck.exitCode = 0 then pure () else fail (networkCreateError lower name output.stderr)

def currentNetworks (container : Uuid) : Session σ (List Text) := do
  lift (validateContainerRef (containerName container))
  let output ← docker (.inspectNetworks container)
  if output.exitCode = 0 then pure (Text.words output.stdout)
  else fail (.connection ("couldn't read the container's networks: " ++
    detailOr output.stderr "docker inspect failed"))

def joinNetwork (own : NetworkName) (hostname : Text) (container : Uuid) (current : List Text)
    (name : NetworkName) : Session σ Unit :=
  if current.contains name.text then pure ()
  else do
    ensureNetwork lower docker name (name != own)
    let output ← docker (.networkConnect hostname name container)
    if output.exitCode = 0 then pure () else fail (networkConnectError lower name output.stderr)

def leaveNetwork (desired : List NetworkName) (container : Uuid) (name : Text) : Session σ Unit :=
  if !isManaged name || desired.any (·.text == name) then pure ()
  else do
    let output ← docker (.networkDisconnect name container)
    if output.exitCode = 0 then pure () else fail (networkDisconnectError name output.stderr)

def reconcileNetworks (application : Application) (links : List Uuid) : Session σ Unit := do
  let desired := desiredNetworks application.id links
  let hostname := networkAlias lower application
  let current ← currentNetworks docker application.id
  each (joinNetwork lower docker (appNetworkName application.id) hostname application.id current)
    desired
  each (leaveNetwork docker desired application.id) current

def syncConnections (application : Application) (links : List Uuid) : Session σ Unit := do
  let found ← containerExists docker application.id
  if found then reconcileNetworks lower docker application links else pure ()

end

/-! ## A daemon that does what it is told -/

def foundCode (found : Bool) : Int := if found then 0 else 1

/-- A look finds what is there, and no command fails. -/
def reply : Call → Daemon → Output
  | .inspect container, d => ⟨foundCode (d.containers container).isSome, [], []⟩
  | .inspectNetworks container, d =>
    ⟨0, Docker.inspectNetworks ((d.containers container).getD []), []⟩
  | .networkInspect name, d => ⟨foundCode (decide (name ∈ d.networks)), [], []⟩
  | _, _ => ⟨0, [], []⟩

def carriedOut : Call → Daemon → Daemon
  | .networkCreate internal name, d => d.run (.networkCreate internal name)
  | .networkConnect _ name container, d => d.run (.networkConnect name container)
  | .networkDisconnect name container, d => d.run (.networkDisconnect name container)
  | _, d => d

def answer (call : Call) : Session Daemon Output := fun d => (.ok (reply call d), carriedOut call d)

theorem run_answer (call : Call) (d : Daemon) :
    (answer call).run d = (.ok (reply call d), carriedOut call d) := rfl

theorem run_lift_ok {α : Type} {r : AppResult α} {a : α} (h : r = .ok a) (s : σ) :
    (lift r).run s = (.ok a, s) := congrArg (·, s) h

theorem run_ensureNetwork (lower : Text.Lowercase) (name : NetworkName) (internal : Bool)
    (d : Daemon) :
    (ensureNetwork lower answer name internal).run d =
      (.ok (), Docker.ensureNetwork name internal d) := by
  unfold ensureNetwork Docker.ensureNetwork
  rw [bind_ok (run_answer ..)]
  by_cases hname : name ∈ d.networks
  · rw [if_pos hname, if_pos (by simp [reply, hname, foundCode])]
    rfl
  · rw [if_neg hname, if_neg (by simp [reply, hname, foundCode]), bind_ok (run_answer ..)]
    rfl

theorem run_joinNetwork (lower : Text.Lowercase) (own : NetworkName) (hostname : Text)
    (container : Uuid) (current : List Text) (name : NetworkName) (d : Daemon) :
    (joinNetwork lower answer own hostname container current name).run d =
      (.ok (), if current.contains name.text then d
        else (Docker.ensureNetwork name (name != own) d).run (.networkConnect name container)) := by
  unfold joinNetwork
  split
  · rfl
  · rw [bind_ok (run_ensureNetwork ..), bind_ok (run_answer ..)]
    rfl

theorem run_leaveNetwork (desired : List NetworkName) (container : Uuid) (name : Text)
    (d : Daemon) :
    (leaveNetwork answer desired container name).run d =
      (.ok (), if !isManaged name || desired.any (·.text == name) then d
        else d.run (.networkDisconnect name container)) := by
  unfold leaveNetwork
  split
  · rfl
  · rw [bind_ok (run_answer ..)]
    rfl

theorem run_containerExists (container : Uuid) (d : Daemon) :
    (containerExists answer container).run d = (.ok (d.containers container).isSome, d) := by
  unfold containerExists
  rw [bind_ok (run_lift_ok (validateContainerRef_containerName container) d),
    bind_ok (run_answer ..)]
  cases hfound : (d.containers container).isSome <;> simp [reply, hfound, foundCode] <;> rfl

theorem run_currentNetworks (container : Uuid) (d : Daemon) :
    (currentNetworks answer container).run d = (.ok (Docker.currentNetworks d container), d) := by
  unfold currentNetworks
  rw [bind_ok (run_lift_ok (validateContainerRef_containerName container) d),
    bind_ok (run_answer ..)]
  rfl

/-- **On a daemon that carries every command out, a sync returns and does what `Networks` says.** -/
theorem run_syncConnections (lower : Text.Lowercase) (application : Application)
    (links : List Uuid) (d : Daemon) :
    (syncConnections lower answer application links).run d =
      (.ok (), Docker.syncConnections application.id links d) := by
  unfold syncConnections Docker.syncConnections
  rw [bind_ok (run_containerExists ..)]
  split
  · unfold reconcileNetworks Docker.reconcileNetworks
    dsimp only
    rw [bind_ok (run_currentNetworks ..),
      bind_ok (each_ok (fun name d => run_joinNetwork _ _ _ _ _ name d) _ _),
      each_ok fun name d => run_leaveNetwork _ _ name d]
    rfl
  · rfl

end Session

end VibeSsh.Docker
