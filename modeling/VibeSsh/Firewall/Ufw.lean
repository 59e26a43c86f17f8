import VibeSsh.Firewall.Rules

/-! # ufw

`firewall::ufw`: the commands it sends and how it reads `ufw show added` back. Below them, ufw itself
as far as the code relies on it: a rule is identified by port, protocol and source; allowing one
again only sets its comment; deleting ignores the comment; rules act only while enforcement is on. -/

namespace VibeSsh.Firewall

open Lib Command

def allowCommand (rule : FirewallRule) : Text :=
  match rule.sourceCidr with
  | none => "sudo ufw allow " ++ Text.ofNat rule.port.toNat ++ "/" ++
      rule.protocol.str ++ " comment 'vibessh'"
  | some cidr => "sudo ufw allow from " ++ quote cidr ++ " to any port " ++
      Text.ofNat rule.port.toNat ++ " proto " ++ rule.protocol.str ++
      " comment 'vibessh'"

def parseProtocol (t : Text) : Option PortProtocol :=
  if t = "tcp" then some .tcp else if t = "udp" then some .udp else none

def parsePort (t : Text) : Option UInt16 := (Text.parseUnsigned 65535 t).map UInt16.ofNat

def parseAddedLine (line : Text) : Option FirewallRule :=
  let tokens := Text.words line
  if tokens[0]? ≠ some "ufw".toList ∨ tokens[1]? ≠ some "allow".toList then none
  else if tokens[2]? = some "from".toList then do
    let cidr ← tokens[3]?
    if tokens[4]? ≠ some "to".toList ∨ tokens[5]? ≠ some "any".toList ∨
        tokens[6]? ≠ some "port".toList ∨ tokens[8]? ≠ some "proto".toList then none
    else
      let port ← tokens[7]?.bind parsePort
      let protocol ← tokens[9]?.bind parseProtocol
      some ⟨port, protocol, some cidr⟩
  else do
    let (port, protocol) ← tokens[2]?.bind (Text.splitOnce '/')
    let port ← parsePort port
    let protocol ← parseProtocol protocol
    some ⟨port, protocol, none⟩

/-- Only lines that end in the marker count. -/
def parseAddedRules (output : Text) : List FirewallRule :=
  ((Text.lines output).filter fun line =>
    Text.endsWith "comment 'vibessh'" (line.rdropWhile Text.isWhitespace)).filterMap
    parseAddedLine

def parseIsActive (output : Text) : Bool :=
  (Text.lines output).head?.map Text.trim == some "Status: active".toList

def parseLiveSshPort (sshConnection : Text) : Option UInt16 :=
  (Text.words sshConnection)[3]?.bind parsePort

/-! ## The tool -/

/-- A user rule, with whether its comment is the marker. -/
structure UfwRule where
  rule : FirewallRule
  marked : Bool
  deriving DecidableEq

structure Ufw where
  installed : Bool
  active : Bool
  rules : List UfwRule
  deriving DecidableEq

def Ufw.allow (rule : FirewallRule) (u : Ufw) : Ufw :=
  { u with rules :=
      if u.rules.any (·.rule = rule) then
        u.rules.map fun e => if e.rule = rule then ⟨rule, true⟩ else e
      else u.rules ++ [⟨rule, true⟩] }

def Ufw.delete (rule : FirewallRule) (u : Ufw) : Ufw :=
  { u with rules := u.rules.filter (·.rule ≠ rule) }

def Ufw.enable (u : Ufw) : Ufw := { u with active := true }

/-- A line of `show added`: the short form when the source is any address. -/
def UfwRule.render (e : UfwRule) : Text :=
  "ufw allow ".toList ++
    (if e.rule.sourceCidr = none ∨ e.rule.sourceCidr = some "0.0.0.0/0".toList then
      Text.ofNat e.rule.port.toNat ++ "/".toList ++ e.rule.protocol.str
    else "from ".toList ++ e.rule.sourceCidr.getD [] ++ " to any port ".toList ++
      Text.ofNat e.rule.port.toNat ++ " proto ".toList ++ e.rule.protocol.str) ++
    (if e.marked then " comment 'vibessh'".toList else [])

def Ufw.showAdded (u : Ufw) : Text :=
  Text.join "\n"
    ("Added user rules (see 'ufw status' for running firewall):" :: u.rules.map (·.render))

def Ufw.status (u : Ufw) : Text :=
  if u.active then "Status: active" else "Status: inactive"

/-! ## Coverage -/

/-- The rule without a source that lets TCP to `port` in. -/
def openRule (port : UInt16) : FirewallRule := ⟨port, .tcp, none⟩

def Ufw.Covers (u : Ufw) (port : UInt16) : Prop := ∃ e ∈ u.rules, e.rule = openRule port

instance (u : Ufw) (port : UInt16) : Decidable (u.Covers port) := by
  unfold Ufw.Covers; infer_instance

theorem Ufw.mem_allow_self (u : Ufw) (rule : FirewallRule) :
    ∃ e ∈ (u.allow rule).rules, e.rule = rule := by
  unfold Ufw.allow
  dsimp only
  split
  · next hany =>
    obtain ⟨e, he, hrule⟩ := List.any_eq_true.mp hany
    refine ⟨⟨rule, true⟩, List.mem_map.mpr ⟨e, he, ?_⟩, rfl⟩
    rw [if_pos (by simpa using hrule)]
  · exact ⟨⟨rule, true⟩, by simp, rfl⟩

/-- Allowing never takes a rule away. -/
theorem Ufw.mem_allow_of_mem {u : Ufw} {rule r : FirewallRule} (h : ∃ e ∈ u.rules, e.rule = r) :
    ∃ e ∈ (u.allow rule).rules, e.rule = r := by
  by_cases hr : r = rule
  · subst hr
    exact u.mem_allow_self r
  · obtain ⟨e, he, rfl⟩ := h
    unfold Ufw.allow
    dsimp only
    split
    · exact ⟨e, List.mem_map.mpr ⟨e, he, if_neg hr⟩, rfl⟩
    · exact ⟨e, by simp [he], rfl⟩

theorem Ufw.mem_delete_of_ne {u : Ufw} {rule r : FirewallRule} (h : ∃ e ∈ u.rules, e.rule = r)
    (hne : r ≠ rule) : ∃ e ∈ (u.delete rule).rules, e.rule = r := by
  obtain ⟨e, he, rfl⟩ := h
  exact ⟨e, List.mem_filter.mpr ⟨he, by simpa using hne⟩, rfl⟩

end VibeSsh.Firewall
