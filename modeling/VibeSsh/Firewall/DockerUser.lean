import VibeSsh.Firewall.Rules

/-! # Restrictions on published container ports

`firewall::docker_user`: the DROP rules wanted in `DOCKER-USER` for the mesh-only ports of a Node,
the helper script every change goes through, and what the resulting chain does to a packet. The
chain is reached after DNAT, so a packet for a published port carries the container's own port, and
a rule has no address match. -/

namespace VibeSsh.Firewall

open Lib Command List

structure ContainerRule where
  port : UInt16
  protocol : PortProtocol
  sourceCidr : Text
  deriving DecidableEq

def rulesForPublishedPort (internalPort externalPort : UInt16) (protocol : PortProtocol)
    (sourceCidr : Text) : List ContainerRule :=
  ⟨internalPort, protocol, sourceCidr⟩ ::
    (if externalPort ≠ internalPort then [⟨externalPort, protocol, sourceCidr⟩] else [])

def portContainerRules (port : ApplicationPort) : List ContainerRule :=
  match port.externalPort with
  | none => []
  | some externalPort =>
    if port.visibility ≠ .vibeNetwork then []
    else rulesForPublishedPort port.internalPort externalPort port.protocol meshCidr

def desiredContainerRules (rows : NodeRows) : List ContainerRule :=
  if !rows.isMeshMember then []
  else rows.applications.flatMap fun application => application.ports.flatMap portContainerRules

def dedupe (rules : List ContainerRule) : List ContainerRule :=
  rules.foldl (fun out rule => if out.contains rule then out else out ++ [rule]) []

/-! ## The helper script -/

/-- The one `iptables` invocation a run of the helper ends in. -/
inductive IptablesCall where
  | check
  | list
  | drop (add : Bool) (protocol port source : Text)
  | established (add : Bool)
  deriving DecidableEq

def addOrDel (flag : Text) : Option Bool :=
  if flag = "add" then some true
  else if flag = "del" then some false
  else none

def portAccepted (port : Text) : Bool :=
  !port.isEmpty && port.all Char.isDigit && port.length ≤ 5 &&
    1 ≤ Nat.ofDigitChars 10 port 0 && Nat.ofDigitChars 10 port 0 ≤ 65535

def sourceAccepted (source : Text) : Bool :=
  !source.isEmpty && source.length ≤ 43 &&
    source.all fun c => c.isDigit || ('a' ≤ c && c ≤ 'f') || ('A' ≤ c && c ≤ 'F') ||
      c == ':' || c == '.' || c == '/'

def helperPath : Text := "/usr/local/lib/vibessh/docker-user"

/-- `HELPER_SCRIPT` on its arguments; `none` is `refuse`. -/
def helper : List Text → Option IptablesCall
  | [op] =>
    if op = "check" then some .check
    else if op = "list" then some .list
    else none
  | [op, flag] =>
    if op = "established" then (addOrDel flag).map .established else none
  | [op, flag, protocol, port, source] =>
    if op = "drop" ∧ (protocol = "tcp" ∨ protocol = "udp") ∧
        portAccepted port ∧ sourceAccepted source then
      (addOrDel flag).map fun add => .drop add protocol port source
    else none
  | _ => none

def dropArguments (rule : ContainerRule) : List Text :=
  ["drop", "add", rule.protocol.str, Text.ofNat rule.port.toNat, rule.sourceCidr]

/-! ## The chain -/

structure Packet where
  protocol : PortProtocol
  dport : UInt16
  source : Ipv4.Addr
  established : Bool
  deriving DecidableEq

/-- A rule of the chain as `iptables` holds it. -/
inductive Entry where
  | established
  | drop (protocol : PortProtocol) (dport : UInt16) (notSource : Ipv4.Network)
  deriving DecidableEq

inductive Verdict where
  | drop
  | fallThrough
  deriving DecidableEq

def Entry.drops : Entry → Packet → Bool
  | .established, _ => false
  | .drop protocol dport notSource, p =>
    p.protocol == protocol && p.dport == dport && !notSource.contains p.source

/-- First match wins: `RETURN` for an established flow, `DROP` for a restricted one. -/
def verdict : List Entry → Packet → Verdict
  | [], _ => .fallThrough
  | .established :: rest, p => if p.established then .fallThrough else verdict rest p
  | .drop protocol dport notSource :: rest, p =>
    if (Entry.drop protocol dport notSource).drops p then .drop else verdict rest p

/-- The entry `iptables -I` makes of a `drop add` call. -/
def entryOf : IptablesCall → Option Entry
  | .drop true protocol port source => do
    let protocol ← if protocol = "tcp" then some .tcp
      else if protocol = "udp" then some .udp else none
    let port ← Text.parseUnsigned 65535 port
    let source ← Ipv4.parseNetwork source
    some (.drop protocol (UInt16.ofNat port) source)
  | _ => none

/-- The drops of a rule list, each inserted at the top, below the established-flow return. -/
def chainOf (rules : List ContainerRule) : List Entry :=
  if rules.isEmpty then []
  else .established :: ((dedupe rules).filterMap fun rule =>
    (helper (dropArguments rule)).bind entryOf).reverse

/-! ## Publishing a port -/

/-- A packet from outside for a published port of a container. -/
def AddressedTo (port : ApplicationPort) (p : Packet) : Prop :=
  port.externalPort = some p.dport ∧ p.protocol = port.protocol

/-- What `DOCKER-USER` sees of it: Docker has already rewritten the destination. -/
def dnat (port : ApplicationPort) (p : Packet) : Packet := { p with dport := port.internalPort }

/-- A port published by Docker with visibility `Public`. -/
def PublicPort (rows : NodeRows) (port : ApplicationPort) : Prop :=
  ∃ application ∈ rows.applications, application.runtimeType = .docker ∧
    port ∈ application.ports ∧ port.visibility = .publicAccess ∧ port.externalPort.isSome

/-- Some mesh-only port of the Node restricts this protocol and port number. -/
def Restricted (rows : NodeRows) (protocol : PortProtocol) (port : UInt16) : Prop :=
  rows.isMeshMember = true ∧ ∃ application ∈ rows.applications, ∃ mesh ∈ application.ports,
    mesh.visibility = .vibeNetwork ∧ mesh.protocol = protocol ∧
      ∃ externalPort, mesh.externalPort = some externalPort ∧
        (port = mesh.internalPort ∨ port = externalPort)

/-! ## What the derived rules are -/

variable {rule : ContainerRule} {rules : List ContainerRule}

theorem mem_dedupe : rule ∈ dedupe rules ↔ rule ∈ rules := by
  -- the fold keeps what it has and adds what is new
  have key : ∀ (rest out : List ContainerRule),
      rule ∈ rest.foldl (fun out rule => if out.contains rule then out else out ++ [rule]) out ↔
        rule ∈ out ∨ rule ∈ rest := by
    intro rest
    induction rest with
    | nil => simp
    | cons r rest ih =>
      intro out
      rw [foldl_cons, ih]
      by_cases hr : r ∈ out
      · have : rule = r → rule ∈ out := by rintro rfl; exact hr
        simp [hr]
        tauto
      · simp [hr, or_assoc]
  exact (key rules []).trans (by simp)

theorem mem_portContainerRules {port : ApplicationPort} :
    rule ∈ portContainerRules port ↔
      port.visibility = .vibeNetwork ∧ rule.protocol = port.protocol ∧ rule.sourceCidr = meshCidr ∧
        ∃ externalPort, port.externalPort = some externalPort ∧
          (rule.port = port.internalPort ∨ rule.port = externalPort) := by
  obtain ⟨rport, rprotocol, rsource⟩ := rule
  unfold portContainerRules
  cases he : port.externalPort with
  | none => simp
  | some externalPort =>
    by_cases hv : port.visibility = .vibeNetwork
    · by_cases hne : externalPort = port.internalPort
      · simp [hv, rulesForPublishedPort, hne]
        tauto
      · simp [hv, rulesForPublishedPort, hne]
        tauto
    · simp [hv]

theorem mem_desiredContainerRules {rows : NodeRows} :
    rule ∈ desiredContainerRules rows ↔
      rule.sourceCidr = meshCidr ∧ Restricted rows rule.protocol rule.port := by
  unfold desiredContainerRules Restricted
  by_cases hm : rows.isMeshMember = true
  · simp only [hm, Bool.not_true, Bool.false_eq_true, if_false, mem_flatMap, true_and,
      mem_portContainerRules]
    constructor
    · rintro ⟨application, ha, port, hp, hv, hproto, hsource, hext⟩
      exact ⟨hsource, application, ha, port, hp, hv, hproto.symm, hext⟩
    · rintro ⟨hsource, application, ha, port, hp, hv, hproto, hext⟩
      exact ⟨application, ha, port, hp, hv, hproto.symm, hsource, hext⟩
  · simp [hm]

def meshNetwork : Ipv4.Network := ⟨10 * 2 ^ 24 + 77 * 2 ^ 16, 16⟩

/-- The helper takes every port but zero. -/
theorem portAccepted_ofNat (port : UInt16) :
    portAccepted (Text.ofNat port.toNat) = decide (port ≠ 0) := by
  have hlt := port.toNat_lt
  have hlen : (Text.ofNat port.toNat).length ≤ 5 :=
    (Nat.length_toDigits_le_iff (by decide) (by decide)).mpr (by omega)
  have hzero : port ≠ 0 ↔ 1 ≤ port.toNat := by
    rw [Ne, ← UInt16.toNat_inj, UInt16.toNat_zero]
    omega
  have hne : (Text.ofNat port.toNat).isEmpty = false :=
    isEmpty_eq_false_iff.mpr (Text.ofNat_ne_nil _)
  have hle : port.toNat ≤ 65535 := by omega
  simp only [portAccepted, Text.ofDigitChars_ofNat, Text.all_isDigit_ofNat, hzero, hne]
  simp [hlen, hle]

/-- The helper takes every rule with a real port, and `iptables` makes the rule meant. -/
theorem helper_dropArguments (h : rule.sourceCidr = meshCidr) :
    (helper (dropArguments rule)).bind entryOf =
      if rule.port = 0 then none else some (.drop rule.protocol rule.port meshNetwork) := by
  obtain ⟨port, protocol, source⟩ := rule
  obtain rfl : source = meshCidr := h
  have hlt := port.toNat_lt
  have haccepted := portAccepted_ofNat port
  have hsource : sourceAccepted meshCidr = true := by decide
  have hnet : Ipv4.parseNetwork meshCidr = some meshNetwork := by decide
  have hparse : Text.parseUnsigned 65535 (Text.ofNat port.toNat) = some port.toNat :=
    Text.parseUnsigned_ofNat (by omega)
  by_cases hp : port = 0
  · subst hp
    cases protocol <;> rfl
  · cases protocol <;>
      simp [helper, dropArguments, PortProtocol.str, haccepted, hp, hsource, addOrDel, entryOf,
        hparse, hnet]

/-! ## What the chain drops -/

theorem verdict_eq_drop_iff {entries : List Entry} (h : Entry.established ∉ entries) (p : Packet) :
    verdict entries p = .drop ↔ ∃ e ∈ entries, e.drops p = true := by
  induction entries with
  | nil => simp [verdict]
  | cons e rest ih =>
    simp only [mem_cons, not_or] at h
    cases e with
    | established => exact absurd rfl h.1
    | drop protocol dport notSource =>
      unfold verdict
      split
      · next hd => simp [hd]
      · next hd => simp [ih h.2, hd]

/-- The entries made from a rule list: one drop for each rule with a real port. -/
theorem mem_entries_iff {e : Entry} (h : ∀ rule ∈ rules, rule.sourceCidr = meshCidr) :
    e ∈ ((dedupe rules).filterMap fun rule => (helper (dropArguments rule)).bind entryOf).reverse ↔
      ∃ rule ∈ rules, rule.port ≠ 0 ∧ e = .drop rule.protocol rule.port meshNetwork := by
  rw [mem_reverse, mem_filterMap]
  constructor
  · rintro ⟨rule, hrule, he⟩
    rw [mem_dedupe] at hrule
    rw [helper_dropArguments (h rule hrule)] at he
    split_ifs at he
    · next hp => exact ⟨rule, hrule, hp, (Option.some.inj he).symm⟩
  · rintro ⟨rule, hrule, hp, rfl⟩
    refine ⟨rule, mem_dedupe.mpr hrule, ?_⟩
    rw [helper_dropArguments (h rule hrule), if_neg hp]

/-- The chain drops exactly the new flows from outside the mesh to a restricted port number. -/
theorem verdict_chainOf_iff (rows : NodeRows) (p : Packet) :
    verdict (chainOf (desiredContainerRules rows)) p = .drop ↔
      p.established = false ∧ p.dport ≠ 0 ∧ meshNetwork.contains p.source = false ∧
        Restricted rows p.protocol p.dport := by
  have hmesh : ∀ rule ∈ desiredContainerRules rows, rule.sourceCidr = meshCidr :=
    fun rule hr => (mem_desiredContainerRules.mp hr).1
  unfold chainOf
  split
  · next hempty =>
    -- with nothing wanted nothing is restricted
    have hnone : ¬Restricted rows p.protocol p.dport := fun hr => by
      have : ⟨p.dport, p.protocol, meshCidr⟩ ∈ desiredContainerRules rows :=
        mem_desiredContainerRules.mpr ⟨rfl, hr⟩
      rw [isEmpty_iff.mp hempty] at this
      cases this
    simp [verdict, hnone]
  · unfold verdict
    split
    · next he => simp [he]
    · next he =>
      rw [verdict_eq_drop_iff]
      · constructor
        · rintro ⟨e, hmem, hd⟩
          obtain ⟨rule, hrule, hp, rfl⟩ := (mem_entries_iff hmesh).mp hmem
          simp only [Entry.drops, Bool.and_eq_true, beq_iff_eq, Bool.not_eq_true'] at hd
          obtain ⟨⟨hproto, hport⟩, hsource⟩ := hd
          have hr := (mem_desiredContainerRules.mp hrule).2
          rw [← hproto, ← hport] at hr
          exact ⟨by simpa using he, hport ▸ hp, hsource, hr⟩
        · rintro ⟨-, hp, hsource, hr⟩
          refine ⟨.drop p.protocol p.dport meshNetwork, (mem_entries_iff hmesh).mpr ?_, ?_⟩
          · exact ⟨⟨p.dport, p.protocol, meshCidr⟩, mem_desiredContainerRules.mpr ⟨rfl, hr⟩, hp, rfl⟩
          · simp [Entry.drops, hsource]
      · rw [mem_entries_iff hmesh]
        rintro ⟨rule, -, -, h⟩
        cases h

def outsideAddress : Ipv4.Addr := 203 * 2 ^ 24 + 113 * 2 ^ 8 + 7

/-- **Public ports are untouched exactly when no mesh-only port shares their container port.** A
mesh-only port restricts every container listening on its internal or its external number. -/
theorem public_ports_never_dropped_iff (rows : NodeRows) :
    (∀ port, PublicPort rows port → ∀ p, AddressedTo port p →
      verdict (chainOf (desiredContainerRules rows)) (dnat port p) ≠ .drop) ↔
    ∀ port, PublicPort rows port →
      port.internalPort = 0 ∨ ¬Restricted rows port.protocol port.internalPort := by
  constructor
  · intro h port hport
    by_contra hcon
    obtain ⟨hzero, hr⟩ := not_or.mp hcon
    obtain ⟨externalPort, hext⟩ := Option.isSome_iff_exists.mp hport.choose_spec.2.2.2.2
    have hdrop := h port hport ⟨port.protocol, externalPort, outsideAddress, false⟩ ⟨hext, rfl⟩
    refine hdrop ((verdict_chainOf_iff rows _).mpr ⟨rfl, hzero, ?_, not_not.mp hr⟩)
    show meshNetwork.contains outsideAddress = false
    decide
  · rintro h port hport p ⟨-, hproto⟩ hdrop
    obtain ⟨-, hzero, -, hr⟩ := (verdict_chainOf_iff rows _).mp hdrop
    have hr' : Restricted rows port.protocol port.internalPort := hproto ▸ hr
    rcases h port hport with h0 | hn
    · exact hzero h0
    · exact hn hr'

/-- Two containers that both listen on 80, one public on 8080 and one mesh-only on 9090. -/
def webAndMeshOnly : NodeRows where
  server := none
  isMeshMember := true
  applications :=
    [⟨.nil, "web", .docker, "/srv/web",
        [⟨"http", .tcp, 80, some 8080, .publicAccess⟩]⟩,
      ⟨.max, "panel", .docker, "/srv/panel",
        [⟨"http", .tcp, 80, some 9090, .vibeNetwork⟩]⟩]
  customRules := []

theorem public_http_dropped :
    PublicPort webAndMeshOnly ⟨"http", .tcp, 80, some 8080, .publicAccess⟩ ∧
      AddressedTo ⟨"http", .tcp, 80, some 8080, .publicAccess⟩
        ⟨.tcp, 8080, outsideAddress, false⟩ ∧
      verdict (chainOf (desiredContainerRules webAndMeshOnly))
        (dnat ⟨"http", .tcp, 80, some 8080, .publicAccess⟩
          ⟨.tcp, 8080, outsideAddress, false⟩) = .drop := by
  refine ⟨⟨_, mem_cons_self, rfl, mem_cons_self, rfl, rfl⟩, ⟨rfl, rfl⟩, ?_⟩
  decide

end VibeSsh.Firewall
