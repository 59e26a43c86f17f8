import VibeSsh.Firewall.Ufw
import VibeSsh.Lib.Exec
import VibeSsh.Lib.Run

/-! # Syncing and enabling a Node's firewall

`services::firewall_service` on a Node with ufw: a sync applies the wanted rules and revokes the
marked ones that are no longer wanted; enabling does the same and turns enforcement on in between,
after asking which port the session came in on. The world is the Node's rows, its ufw and the cached
session, kept as the port it arrived on. What the Node answers to each command is a parameter: done,
refused, or lost with the connection, run or not. -/

namespace VibeSsh.Firewall

open Lib Command

structure World where
  rows : NodeRows
  ufw : Ufw
  session : Option UInt16

inductive Answer where
  | ok
  | refused (stderr : Text)
  | lost (ran : Bool)
  deriving DecidableEq

/-- What the network and the Node answer during one attempt. A new session arrives on `arrival`;
under enforcement it gets in through the open rule for that port or, if `throughScope`, through a
rule scoped to where the client is. -/
structure Answers where
  connect : Option AppError
  arrival : UInt16
  throughScope : Bool
  detect : Answer
  live : Answer
  enable : Answer
  showAdded : Answer
  status : Answer
  apply : FirewallRule → Answer
  revoke : FirewallRule → Answer

structure FirewallSyncResult where
  backend : Option Text
  active : Bool
  rulesApplied : Nat
  rulesRemoved : Nat
  unenforced : Bool
  deriving DecidableEq

abbrev Remote := Exec World AppError

def onUfw (effect : Ufw → Ufw) (w : World) : World := { w with ufw := effect w.ufw }

def channelClosed : AppError := .connection "channel closed"

/-- One command: `none` is exit code 0, `some` the standard error of any other. -/
def execute (answer : Answer) (effect : Ufw → Ufw) : Remote (Option Text) :=
  match answer with
  | .ok => do
    Exec.modify (onUfw effect)
    pure none
  | .refused stderr => pure (some stderr)
  | .lost ran => do
    Exec.modify (if ran then onUfw effect else id)
    Exec.fail channelClosed

def detailOr (default stderr : Text) : Text :=
  if (Text.trim stderr).isEmpty then default else Text.trim stderr

variable (serverId : Uuid)

variable (a : Answers)

def getOrConnect : Remote Unit := do
  let w ← Exec.get
  match w.session, w.rows.server, a.connect with
  | some _, _, _ => pure ()
  | none, none, _ => Exec.fail (.notFound ("server " ++ serverId.display))
  | none, some _, some e => Exec.fail e
  | none, some _, none =>
    if w.ufw.active = true ∧ ¬w.ufw.Covers a.arrival ∧ a.throughScope = false then
      Exec.fail (.connection "connection timed out")
    else Exec.modify fun w => { w with session := some a.arrival }

/-- The text a command without effect printed. -/
def query (answer : Answer) (stdout : World → Text) : Remote Text :=
  match answer with
  | .ok => do
    let w ← Exec.get
    pure (stdout w)
  | .refused _ => pure []
  | .lost _ => Exec.fail channelClosed

def detect : Remote Bool := do
  let out ← query a.detect fun w => if w.ufw.installed then "yes" else "no"
  pure (Text.trim out == "yes")

def applyRules (a : Answers) : List FirewallRule → List Text → Remote Unit
  | [], failures =>
    if failures = [] then pure ()
    else Exec.fail (.connection ("couldn't apply " ++ Text.ofNat failures.length ++
      " firewall rule(s) - " ++ Text.join "; " failures))
  | rule :: rest, failures => do
    match ← execute (a.apply rule) (Ufw.allow rule) with
    | none => applyRules a rest failures
    | some stderr => applyRules a rest (failures ++ [Text.ofNat rule.port.toNat ++ "/" ++
        rule.protocol.str ++ ": " ++ detailOr "ufw allow failed" stderr])

def vibesshOwnedRules : Remote (List FirewallRule) := do
  let out ← query a.showAdded fun w => w.ufw.showAdded
  pure (parseAddedRules out)

def revokeRules (a : Answers) : List FirewallRule → Remote Unit
  | [] => pure ()
  | rule :: rest => do
    match ← execute (a.revoke rule) (Ufw.delete rule) with
    | none => revokeRules a rest
    | some stderr => Exec.fail (.connection ("couldn't remove the " ++
        Text.ofNat rule.port.toNat ++ "/" ++ rule.protocol.str ++ " ufw rule: " ++
        detailOr "ufw delete failed" stderr))

variable (desired : List FirewallRule)

def revokeObsoleteRules : Remote Nat := do
  let owned ← vibesshOwnedRules a
  let obsolete := owned.filter fun rule => !desired.contains rule
  revokeRules a obsolete
  pure obsolete.length

def isActive : Remote Bool := do
  let out ← query a.status fun w => w.ufw.status
  pure (parseIsActive out)

/-- `$SSH_CONNECTION` of the session: the client's address and port, then the Node's. -/
def sshConnection (w : World) : Text :=
  match w.session with
  | none => []
  | some port => "203.0.113.9 50022 198.51.100.4" ++ ' ' :: Text.ofNat port.toNat

def liveSshPort : Remote UInt16 := do
  let out ← query a.live sshConnection
  match parseLiveSshPort out with
  | some port => pure port
  | none => Exec.fail (.connection ("couldn't determine which port this SSH session is connected " ++
      "on, so enabling the firewall can't be done safely -              enable it manually on the " ++
      "Node once you've confirmed your SSH port is allowed"))

def refusalText (livePort : UInt16) : Text :=
  "refusing to enable the firewall: this SSH session is connected on port " ++
    Text.ofNat livePort.toNat ++
    ", and no rule allows it.                  Enabling now would lock VibeSSH out of this Node. " ++
    "Update the Node's SSH port, or add a custom rule for " ++
    Text.ofNat livePort.toNat ++ "/tcp first."

def enableUfw : Remote Unit := do
  let livePort ← liveSshPort a
  if !desired.contains (openRule livePort) then
    Exec.fail (.invalidInput (refusalText livePort))
  else
    applyRules a desired []
    match ← execute a.enable Ufw.enable with
    | none => pure ()
    | some stderr => Exec.fail (.connection ("couldn't enable ufw: " ++
        detailOr "ufw enable failed" stderr))

def unenforcedResult : FirewallSyncResult := ⟨none, false, 0, 0, true⟩

/-- What follows the provider's own work in both attempts. -/
def finishSync : Remote FirewallSyncResult := do
  let removed ← revokeObsoleteRules a desired
  let active ← isActive a
  pure ⟨some "ufw", active, desired.length, removed, !active⟩

def reconcileAttempt (a : Answers) :
    Remote FirewallSyncResult := do
  getOrConnect serverId a
  if !(← detect a) then pure unenforcedResult
  else
    applyRules a desired []
    finishSync a desired

def enableAttempt (a : Answers) :
    Remote FirewallSyncResult := do
  getOrConnect serverId a
  if !(← detect a) then pure unenforcedResult
  else
    enableUfw a desired
    finishSync a desired

def dropSession : Remote Unit := Exec.modify fun w => { w with session := none }

def retryOnConnectionFailure {α : Type} (first second : Remote α) : Remote α :=
  first.recover fun e =>
    if e.isTransportFailure then do
      dropSession
      second
    else Exec.fail e

/-- The rules are computed once, before the first attempt. -/
def withDesiredRules
    (attempt : List FirewallRule → Answers → Remote FirewallSyncResult) (first second : Answers) :
    Remote FirewallSyncResult := do
  let w ← Exec.get
  match desiredRules w.rows serverId with
  | .error e => Exec.fail e
  | .ok desired => retryOnConnectionFailure (attempt desired first) (attempt desired second)

def reconcileNode (first second : Answers) : Remote FirewallSyncResult :=
  withDesiredRules serverId (reconcileAttempt serverId) first second

def enableNodeFirewall (first second : Answers) : Remote FirewallSyncResult :=
  withDesiredRules serverId (enableAttempt serverId) first second

end VibeSsh.Firewall
