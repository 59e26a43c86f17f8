import VibeSsh.Models
import VibeSsh.Ssh.Command

/-! # The rules a Node should carry

`services::firewall_service`, the part that only reads the database: the ufw rules wanted on a Node,
each with the reason it is there, and the `DOCKER-USER` restrictions for its mesh-only ports. -/

namespace VibeSsh.Firewall

open Lib Command

structure FirewallRule where
  port : UInt16
  protocol : PortProtocol
  sourceCidr : Option Text
  deriving DecidableEq

/-- Which row a wanted rule comes from. -/
inductive FirewallRuleOrigin where
  | ssh
  | wireGuard
  | application (id : Uuid) (name portName : Text)
  | custom (rule : Uuid) (label : Option Text)
  deriving DecidableEq

structure FirewallRuleView where
  rule : FirewallRule
  origin : FirewallRuleOrigin
  deriving DecidableEq

/-- The rows about one Node. -/
structure NodeRows where
  server : Option Server
  isMeshMember : Bool
  applications : List Application
  customRules : List CustomRule
  deriving DecidableEq

def meshCidr : Text := "10.77.0.0/16"

def listenPort : UInt16 := 54221

/-- `views.push` behind `!views.iter().any(|view| view.rule == rule)`. -/
def pushNew (views : List FirewallRuleView) (view : FirewallRuleView) : List FirewallRuleView :=
  if views.any (·.rule == view.rule) then views else views ++ [view]

/-- The ufw rule of one port row, if the port is published. -/
def portView (application : Application) (port : ApplicationPort) : Option FirewallRuleView :=
  port.externalPort.map fun externalPort =>
    { rule := ⟨externalPort, port.protocol,
        if port.visibility = .vibeNetwork then some meshCidr else none⟩
      origin := .application application.id application.name port.name }

def customView (custom : CustomRule) : FirewallRuleView :=
  { rule := ⟨custom.port, custom.protocol, custom.sourceCidr⟩
    origin := .custom custom.id custom.label }

def desiredRulesWithOrigin (rows : NodeRows) (serverId : Uuid) :
    AppResult (List FirewallRuleView) := do
  let server ← match rows.server with
    | some server => .ok server
    | none => .error (.notFound ("server " ++ serverId.display))
  let ssh : FirewallRuleView := ⟨⟨server.sshPort, .tcp, none⟩, .ssh⟩
  let wireGuard : FirewallRuleView := ⟨⟨listenPort, .udp, none⟩, .wireGuard⟩
  let views := if rows.isMeshMember then [ssh, wireGuard] else [ssh]
  let views := (rows.applications.flatMap fun application =>
    application.ports.filterMap (portView application)).foldl pushNew views
  .ok ((rows.customRules.map customView).foldl pushNew views)

/-- A custom rule whose source is not in canonical form is shown but never applied. -/
def applicable (view : FirewallRuleView) : Bool :=
  match view.origin, view.rule.sourceCidr with
  | .custom _ _, some source =>
    match canonicalIpv4Source source "the source" with
    | .ok canonical => canonical == source
    | .error _ => false
  | _, _ => true

def desiredRules (rows : NodeRows) (serverId : Uuid) : AppResult (List FirewallRule) := do
  let views ← desiredRulesWithOrigin rows serverId
  .ok ((views.filter applicable).map (·.rule))

end VibeSsh.Firewall
