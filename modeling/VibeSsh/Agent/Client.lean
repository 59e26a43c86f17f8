import VibeSsh.Basic
import VibeSsh.Lib.Run

/-! # The agent's certificate

`agent_client` holds the connection to a Node's agent and reconnects whenever it is lost, with the
configuration it was started with. `state::agent_sessions` keeps one such client a Node, and
`commands::agent_session_commands` starts it and spawns the task that records the certificate of the
first handshake. What the network, the store and the scheduler do is part of the label; `accepted` is
the history the properties speak of and nothing reads. -/

namespace VibeSsh.Agent

open Lib Option Function

/-- SHA-256 of a certificate, in lowercase hexadecimal. -/
structure Fingerprint where
  hex : Text
  wf : hex.length = 64 ∧ hex.all (fun c => c.isDigit || ('a' ≤ c && c ≤ 'f')) = true
  deriving DecidableEq

structure AgentCapabilities where
  docker : Bool
  systemd : Bool
  minecraft : Bool
  fileAccess : Bool
  terminal : Bool
  deriving DecidableEq

structure AgentClientConfig where
  url : Text
  clientName : Text
  clientVersion : Text
  authToken : Option Text
  knownFingerprint : Option Fingerprint

inductive AgentConnectionState where
  | connecting
  | connected (agentId : Uuid) (agentVersion : Text) (issuedCredential : Option Text)
      (capabilities : AgentCapabilities) (certificateFingerprint : Option Fingerprint)
  | disconnected (reason : Text)

def protocolVersion : Nat := 1

structure HandshakeRequest where
  protocolVersion : Nat
  clientName : Text
  clientVersion : Text
  authToken : Option Text

inductive ProtocolErrorCode where
  | versionMismatch
  | unauthorized
  | rateLimited
  | invalidMessage
  | internal

def ProtocolErrorCode.debug : ProtocolErrorCode → Text
  | .versionMismatch => "VersionMismatch"
  | .unauthorized => "Unauthorized"
  | .rateLimited => "RateLimited"
  | .invalidMessage => "InvalidMessage"
  | .internal => "Internal"

structure HandshakeResponse where
  accepted : Bool
  agentId : Uuid
  agentVersion : Text
  error : Option ProtocolErrorCode
  issuedCredential : Option Text
  capabilities : AgentCapabilities

/-! ## One attempt -/

/-- What one attempt meets: the TLS connection and its certificate, the sending of the handshake,
the answer. -/
structure Peer where
  connect : Except Text (Option Fingerprint)
  send : Except Text Unit
  answer : Except Text HandshakeResponse

/-- What was sent, and over which certificate, and how the attempt ended. -/
structure Attempt where
  sent : Option (HandshakeRequest × Option Fingerprint)
  result : Except Text AgentConnectionState

def hostKeyMismatch : Text :=
  ("the agent's TLS certificate doesn't match the one VibeSSH saw before - this can mean the agent " ++
    "was reinstalled, but it can also mean someone is intercepting the connection. Re-pair the " ++
    "Node only if you know why the certificate changed.").toList

/-- The check between connecting and sending. -/
def observe (config : AgentClientConfig) : Option Fingerprint → Except Text (Option Fingerprint)
  | some fingerprint =>
    match config.knownFingerprint with
    | some expected =>
      if expected ≠ fingerprint then .error hostKeyMismatch else .ok (some fingerprint)
    | none => .ok (some fingerprint)
  | none =>
    if Text.startsWith "wss://" config.url then
      .error ("the agent's TLS certificate could not be read, so its identity can't be " ++
        "verified").toList
    else .ok none

def AgentClientConfig.request (config : AgentClientConfig) : HandshakeRequest :=
  ⟨protocolVersion, config.clientName, config.clientVersion, config.authToken⟩

def handshakeResult (observed : Option Fingerprint) (peer : Peer) :
    Except Text AgentConnectionState :=
  match peer.send, peer.answer with
  | .error e, _ => .error ("failed to send handshake: " ++ e)
  | .ok _, .error reason => .error ("handshake failed: " ++ reason)
  | .ok _, .ok response =>
    if !response.accepted then
      .error (match response.error with
        | some code => "handshake rejected: " ++ code.debug
        | none => "handshake rejected")
    else .ok (.connected response.agentId response.agentVersion response.issuedCredential
      response.capabilities observed)

/-- `connect_and_stream` up to the stream. A handshake whose sending failed may have left. -/
def connectAndStream (config : AgentClientConfig) (peer : Peer) : Attempt :=
  match peer.connect with
  | .error e => ⟨none, .error ("connect failed: " ++ e)⟩
  | .ok certificate =>
    match observe config certificate with
    | .error e => ⟨none, .error e⟩
    | .ok observed => ⟨some (config.request, observed), handshakeResult observed peer⟩

/-! ## The clients of the app -/

/-- A running client: the state it published last and how often it published, the pause before the
next attempt, and whether a connection is up. -/
structure Session where
  serial : Nat
  config : AgentClientConfig
  state : AgentConnectionState
  version : Nat
  backoff : Nat
  streaming : Bool

def initialBackoff : Nat := 1

def maxBackoff : Nat := 30

def Session.publish (s : Session) (state : AgentConnectionState) : Session :=
  { s with state := state, version := s.version + 1 }

/-- The end of an attempt or of a stream in the loop of `run`. -/
def Session.fail (s : Session) (reason : Text) : Session :=
  { s.publish (.disconnected reason) with
    backoff := min (s.backoff * 2) maxBackoff, streaming := false }

def Session.succeed (s : Session) (state : AgentConnectionState) : Session :=
  { s.publish state with backoff := initialBackoff, streaming := true }

/-- The task that waits for the first handshake of a client, and the version it saw last. -/
structure Watcher where
  server : Uuid
  serial : Nat
  seen : Nat
  deriving DecidableEq

structure App where
  stored : Uuid → Bool
  pins : Uuid → Option Fingerprint
  sessions : Uuid → Option Session
  watchers : List Watcher
  serial : Nat
  accepted : Uuid → List Fingerprint

section

variable (app : App)

variable (server : Uuid)

def App.setSession (s : Option Session) : App :=
  { app with sessions := Function.update app.sessions server s }

/-- `ensure_connected`: a client that is there stays as it is. -/
def ensureConnected (config : AgentClientConfig) : App :=
  match app.sessions server with
  | some _ => app
  | none =>
    { app.setSession server
        (some ⟨app.serial, config, .connecting, 0, initialBackoff, false⟩) with
      serial := app.serial + 1 }

def clientVersion : Text := "0.1.0-beta.24"

def sessionConfig (host : Text) (port : UInt16) (authToken : Text) :
    AgentClientConfig where
  url := "wss://" ++ host ++ ':' :: Text.ofNat port.toNat ++ "/ws"
  clientName := "VibeSSH Desktop"
  clientVersion := clientVersion
  authToken := some authToken
  knownFingerprint := app.pins server

def startAgentSession (host : Text) (port : UInt16) (authToken : Text)
    (read : Option AppError) : App :=
  match read with
  | some _ => app
  | none =>
    let app := ensureConnected app server (sessionConfig app server host port authToken)
    match app.sessions server with
    | some s => { app with watchers := app.watchers ++ [⟨server, s.serial, 0⟩] }
    | none => app

/-- `pin_agent_certificate_fingerprint`: only where nothing is recorded yet. -/
def App.pin (fingerprint : Fingerprint) (write : Option AppError) :
    App :=
  if write = none ∧ app.stored server = true ∧ app.pins server = none then
    { app with pins := Function.update app.pins server (some fingerprint) }
  else app

/-- The state a watcher finds when it wakes. -/
def App.news (w : Watcher) : Option Session :=
  (app.sessions w.server).filter fun s => s.serial = w.serial ∧ s.version ≠ w.seen

def watch (w : Watcher) (write : Option AppError) : App :=
  if w ∈ app.watchers then
    match app.news w with
    | none => app
    | some s =>
      match s.state with
      | .connected _ _ _ _ (some fingerprint) =>
        { app with watchers := app.watchers.erase w }.pin w.server fingerprint write
      | _ => { app with watchers := { w with seen := s.version } :: app.watchers.erase w }
  else app

def AgentConnectionState.certificate : AgentConnectionState → Option Fingerprint
  | .connected _ _ _ _ fingerprint => fingerprint
  | _ => none

/-- One turn of the loop of `run`, up to the stream. -/
def attempt (s : Session) (peer : Peer) : App :=
  match (connectAndStream s.config peer).result with
  | .error reason => app.setSession server (some ((s.publish .connecting).fail reason))
  | .ok state =>
    { app.setSession server (some ((s.publish .connecting).succeed state)) with
      accepted := Function.update app.accepted server
        (state.certificate.toList ++ app.accepted server) }

inductive Op where
  | add (server : Uuid)
  | remove (server : Uuid)
  | start (server : Uuid) (host : Text) (port : UInt16) (authToken : Text) (read : Option AppError)
  | attempt (server : Uuid) (peer : Peer)
  | lose (server : Uuid) (reason : Text)
  | watch (w : Watcher) (write : Option AppError)
  | stop (server : Uuid)
  | restart

def App.waiting : Option Session :=
  (app.sessions server).filter fun s => s.streaming = false

def next : Op → App
  | .add server => { app with stored := Function.update app.stored server true }
  | .remove server =>
    { app with
      stored := Function.update app.stored server false
      pins := Function.update app.pins server none }
  | .start server host port authToken read => startAgentSession app server host port authToken read
  | .attempt server peer =>
    match app.waiting server with
    | some s => attempt app server s peer
    | none => app
  | .lose server reason =>
    match app.sessions server with
    | some s => if s.streaming then app.setSession server (some (s.fail reason)) else app
    | none => app
  | .watch w write => watch app w write
  | .stop server => app.setSession server none
  | .restart => { app with sessions := fun _ => none, watchers := [] }

def App.fresh : App := ⟨fun _ => false, fun _ => none, fun _ => none, [], 0, fun _ => []⟩

abbrev Step (op : Op) (app' : App) : Prop := app' = next app op

/-! ## First use only -/

/-- Meeting this peer, the Node's client sends its token over a certificate with this fingerprint. -/
def Sends (peer : Peer) (fingerprint : Fingerprint) : Prop :=
  ∃ s request token, app.waiting server = some s ∧ request.authToken = some token ∧
    (connectAndStream s.config peer).sent = some (request, some fingerprint)

/-- Whoever the client of a Node meets next, its token goes to no other certificate than the accepted
one. -/
def Guarded : Prop :=
  ∀ server peer fingerprint, Sends app server peer fingerprint →
    ∀ f ∈ app.accepted server, f = fingerprint

/-- A client about to connect knows a fingerprint, unless no handshake was accepted yet. -/
def Pinned : Prop :=
  ∀ server s, app.waiting server = some s → s.config.knownFingerprint = none →
    app.accepted server = []

end

structure Sound (app : App) : Prop where
  one : ∀ server, ∀ f ∈ app.accepted server, ∀ g ∈ app.accepted server, f = g
  pins : ∀ server f, app.pins server = some f → f ∈ app.accepted server
  known : ∀ server s f, app.sessions server = some s → s.config.knownFingerprint = some f →
    f ∈ app.accepted server
  state : ∀ server s f, app.sessions server = some s → s.state.certificate = some f →
    f ∈ app.accepted server
  token : ∀ server s, app.sessions server = some s → s.config.authToken.isSome

theorem sound_fresh : Sound App.fresh where
  one := by simp [App.fresh]
  pins := by simp [App.fresh]
  known := by simp [App.fresh]
  state := by simp [App.fresh]
  token := by simp [App.fresh]

variable {app : App} {server : Uuid} {s : Session} {config : AgentClientConfig}

theorem waiting_some :
    app.waiting server = some s ↔ app.sessions server = some s ∧ s.streaming = false := by
  simp [App.waiting, filter_eq_some_iff]

/-- What was sent went out after the check, over the certificate checked. -/
theorem sent_iff {peer : Peer} {request : HandshakeRequest} {observed : Option Fingerprint} :
    (connectAndStream config peer).sent = some (request, observed) ↔
      ∃ certificate, peer.connect = .ok certificate ∧ observe config certificate = .ok observed ∧
        request = config.request := by
  unfold connectAndStream
  split
  · next e he => simp [he]
  · next certificate hc =>
    split
    · next e he => simp [hc, he]
    · next o ho => simp [hc, ho, and_comm, eq_comm]

/-- The certificate a handshake was accepted over is the one the request went out over. -/
theorem sent_of_result {peer : Peer} {state : AgentConnectionState}
    (h : (connectAndStream config peer).result = .ok state) :
    (connectAndStream config peer).sent = some (config.request, state.certificate) := by
  unfold connectAndStream at h ⊢
  split at h
  · cases h
  · split at h
    · cases h
    · next observed ho =>
      dsimp only at h
      unfold handshakeResult at h
      split at h
      · cases h
      · cases h
      · split at h
        · cases h
        · obtain rfl := Except.ok.inj h
          rfl

theorem observe_some {certificate : Option Fingerprint}
    {g : Fingerprint} (h : observe config certificate = .ok (some g)) :
    certificate = some g ∧ ∀ f, config.knownFingerprint = some f → f = g := by
  unfold observe at h
  split at h
  · next fingerprint =>
    split at h
    · next expected hexpected =>
      split_ifs at h
      · next heq =>
        cases h
        exact ⟨rfl, fun f hf => by simp_all⟩
    · next hnone =>
      cases h
      exact ⟨rfl, fun f hf => by simp_all⟩
  · split at h <;> cases h

/-! ## What a step keeps -/

theorem Sound.of_same {app' : App} (h : Sound app) (haccepted : app'.accepted = app.accepted)
    (hpins : ∀ server f, app'.pins server = some f → f ∈ app.accepted server)
    (hsessions : ∀ server s, app'.sessions server = some s →
      app.sessions server = some s ∨ (s.config.knownFingerprint = app.pins server ∧
        s.state.certificate = none ∧ s.config.authToken.isSome) ∨
      ∃ old, app.sessions server = some old ∧ s.config = old.config ∧ s.state.certificate = none) :
    Sound app' where
  one server := by rw [haccepted]; exact h.one server
  pins server f hf := by rw [haccepted]; exact hpins server f hf
  known server s f hs hf := by
    rw [haccepted]
    rcases hsessions server s hs with hold | ⟨hknown, -⟩ | ⟨old, hold, hconfig, -⟩
    · exact h.known server s f hold hf
    · exact h.pins server f (hknown ▸ hf)
    · exact h.known server old f hold (hconfig ▸ hf)
  state server s f hs hf := by
    rw [haccepted]
    rcases hsessions server s hs with hold | ⟨-, hnone, -⟩ | ⟨old, -, -, hnone⟩
    · exact h.state server s f hold hf
    · rw [hnone] at hf; cases hf
    · rw [hnone] at hf; cases hf
  token server s hs := by
    rcases hsessions server s hs with hold | ⟨-, -, htoken⟩ | ⟨old, hold, hconfig, -⟩
    · exact h.token server s hold
    · exact htoken
    · rw [hconfig]; exact h.token server old hold

theorem sessions_setSession {other : Uuid} {s' : Session}
    (h : (app.setSession server (some s)).sessions other = some s') :
    other = server ∧ s' = s ∨ other ≠ server ∧ app.sessions other = some s' := by
  unfold App.setSession at h
  dsimp only at h
  by_cases heq : other = server
  · subst heq
    rw [update_self] at h
    exact .inl ⟨rfl, (some.inj h).symm⟩
  · rw [update_of_ne heq] at h
    exact .inr ⟨heq, h⟩

section

variable (h : Sound app)
include h

theorem sound_start (server : Uuid) (host : Text) (port : UInt16)
    (authToken : Text) (read : Option AppError) :
    Sound (startAgentSession app server host port authToken read) := by
  unfold startAgentSession
  split
  · exact h
  · have hensure : Sound (ensureConnected app server
        (sessionConfig app server host port authToken)) := by
      unfold ensureConnected
      split
      · exact h
      · refine h.of_same rfl h.pins fun other s hs => ?_
        rcases sessions_setSession hs with ⟨rfl, rfl⟩ | ⟨-, hold⟩
        · exact .inr (.inl ⟨rfl, rfl, rfl⟩)
        · exact .inl hold
    dsimp only
    split
    · exact hensure.of_same rfl hensure.pins fun _ _ hs => .inl hs
    · exact hensure

theorem sound_pin {fingerprint : Fingerprint}
    (hf : fingerprint ∈ app.accepted server) (write : Option AppError) :
    Sound (app.pin server fingerprint write) := by
  unfold App.pin
  split
  · refine h.of_same rfl (fun other f hpin => ?_) fun _ _ hs => .inl hs
    dsimp only at hpin
    by_cases heq : other = server
    · subst heq
      rw [update_self] at hpin
      exact some.inj hpin ▸ hf
    · rw [update_of_ne heq] at hpin
      exact h.pins other f hpin
  · exact h

theorem sound_watch (w : Watcher) (write : Option AppError) : Sound (watch app w write) := by
  unfold watch
  split
  · split
    · exact h
    next s hs =>
    have hsession : app.sessions w.server = some s := by
      have := (filter_eq_some_iff.mp hs).1
      simpa using this
    split
    · next fingerprint hstate =>
      have hf := h.state w.server s fingerprint hsession (by rw [hstate]; rfl)
      have hrest : Sound { app with watchers := app.watchers.erase w } :=
        h.of_same rfl h.pins fun _ _ hs => .inl hs
      exact sound_pin hrest hf write
    · exact h.of_same rfl h.pins fun _ _ hs => .inl hs
  · exact h

theorem sound_attempt (hguarded : Guarded app) (hs : app.waiting server = some s) (peer : Peer) :
    Sound (attempt app server s peer) := by
  have hsession := (waiting_some.mp hs).1
  unfold attempt
  split
  · refine h.of_same rfl h.pins fun other s' hs' => ?_
    rcases sessions_setSession hs' with ⟨rfl, rfl⟩ | ⟨-, hold⟩
    · exact .inr (.inr ⟨s, hsession, rfl, rfl⟩)
    · exact .inl hold
  · next state hresult =>
    have hsent := sent_of_result hresult
    have hnew : ∀ g, state.certificate = some g → ∀ f ∈ app.accepted server, f = g := by
      intro g hg
      obtain ⟨token, htoken⟩ := isSome_iff_exists.mp (h.token server s hsession)
      exact hguarded server peer g ⟨s, s.config.request, token, hs, htoken, by rw [hsent, hg]⟩
    have hmem : ∀ other f, f ∈ app.accepted other → f ∈ Function.update app.accepted server
        (state.certificate.toList ++ app.accepted server) other := by
      intro other f hf
      by_cases heq : other = server
      · subst heq
        rw [update_self]
        exact List.mem_append_right _ hf
      · rwa [update_of_ne heq]
    refine ⟨fun other f hf g hg => ?_, fun other f hf => hmem other f (h.pins other f hf),
      fun other s' f hs' hf => ?_, fun other s' f hs' hf => ?_, fun other s' hs' => ?_⟩
    · dsimp only at hf hg
      by_cases heq : other = server
      · subst heq
        rw [update_self, List.mem_append, mem_toList] at hf hg
        rcases hf with hf | hf <;> rcases hg with hg | hg
        · exact some.inj (hf.symm.trans hg)
        · exact (hnew f hf g hg).symm
        · exact hnew g hg f hf
        · exact h.one other f hf g hg
      · rw [update_of_ne heq] at hf hg
        exact h.one other f hf g hg
    · rcases sessions_setSession hs' with ⟨rfl, rfl⟩ | ⟨-, hold⟩
      · exact hmem other f (h.known other s f hsession hf)
      · exact hmem other f (h.known other s' f hold hf)
    · rcases sessions_setSession hs' with ⟨rfl, rfl⟩ | ⟨-, hold⟩
      · have hf : state.certificate = some f := hf
        change f ∈ Function.update app.accepted other
          (state.certificate.toList ++ app.accepted other) other
        rw [update_self]
        exact List.mem_append_left _ (mem_toList.mpr hf)
      · exact hmem other f (h.state other s' f hold hf)
    · rcases sessions_setSession hs' with ⟨rfl, rfl⟩ | ⟨-, hold⟩
      · exact h.token other s hsession
      · exact h.token other s' hold

theorem sound_next (hguarded : Guarded app) (op : Op) : Sound (next app op) := by
  cases op with
  | add server => exact h.of_same rfl h.pins fun _ _ hs => .inl hs
  | remove server =>
    refine h.of_same rfl (fun other f hf => ?_) fun _ _ hs => .inl hs
    unfold next at hf
    dsimp only at hf
    by_cases heq : other = server
    · subst heq
      rw [update_self] at hf
      cases hf
    · rw [update_of_ne heq] at hf
      exact h.pins other f hf
  | start server host port authToken read => exact sound_start h server host port authToken read
  | attempt server peer =>
    unfold next
    dsimp only
    split
    · next s hs => exact sound_attempt h hguarded hs peer
    · exact h
  | lose server reason =>
    unfold next
    dsimp only
    split
    · next s hs =>
      split
      · refine h.of_same rfl h.pins fun other s' hs' => ?_
        rcases sessions_setSession hs' with ⟨rfl, rfl⟩ | ⟨-, hold⟩
        · exact .inr (.inr ⟨s, hs, rfl, rfl⟩)
        · exact .inl hold
      · exact h
    · exact h
  | watch w write => exact sound_watch h w write
  | stop server =>
    refine h.of_same rfl h.pins fun other s hs => .inl ?_
    unfold next App.setSession at hs
    dsimp only at hs
    by_cases heq : other = server
    · subst heq
      rw [update_self] at hs
      cases hs
    · rwa [update_of_ne heq] at hs
  | restart => exact h.of_same rfl h.pins fun _ _ hs => by cases hs

end

/-! ## Guarded exactly when pinned -/

def Fingerprint.zeros : Fingerprint := ⟨List.replicate 64 '0', by decide⟩

def Fingerprint.ones : Fingerprint := ⟨List.replicate 64 '1', by decide⟩

theorem Fingerprint.exists_ne (f : Fingerprint) : ∃ g : Fingerprint, f ≠ g := by
  by_cases h : f = .zeros
  · exact ⟨.ones, by rw [h]; decide⟩
  · exact ⟨.zeros, h⟩

/-- A peer that shows this certificate and hangs up. -/
def Peer.showing (fingerprint : Fingerprint) : Peer :=
  ⟨.ok (some fingerprint), .ok (), .error "connection closed"⟩

theorem guarded_iff_pinned (h : Sound app) : Guarded app ↔ Pinned app := by
  constructor
  · intro hguarded server s hs hunknown
    by_contra hne
    obtain ⟨f, hf⟩ := List.exists_mem_of_ne_nil _ hne
    obtain ⟨g, hg⟩ := f.exists_ne
    obtain ⟨token, htoken⟩ :=
      isSome_iff_exists.mp (h.token server s (waiting_some.mp hs).1)
    have hsends : Sends app server (.showing g) g := by
      refine ⟨s, s.config.request, token, hs, htoken, sent_iff.mpr ⟨some g, rfl, ?_, rfl⟩⟩
      unfold observe
      simp [hunknown]
    exact hg (hguarded server (.showing g) g hsends f hf)
  · rintro hpinned server peer g ⟨s, request, token, hs, -, hsent⟩ f hf
    obtain ⟨certificate, -, hobserve, -⟩ := sent_iff.mp hsent
    cases hknown : s.config.knownFingerprint with
    | none =>
      rw [hpinned server s hs hknown] at hf
      cases hf
    | some expected =>
      have hmem := h.known server s expected (waiting_some.mp hs).1 hknown
      rw [h.one server f hf expected hmem]
      exact (observe_some hobserve).2 expected hknown

/-- **The token stays with the accepted certificate** exactly when every client that connects was
started with a fingerprint or for a Node with no accepted handshake. -/
theorem token_kept_to_certificate_iff {app : App} {trace : List (Transition App Op)}
    (h : Run Step App.fresh trace app) :
    (∀ x ∈ trace, Guarded x.pre) ↔ ∀ x ∈ trace, Pinned x.pre := by
  refine Run.forall_iff Sound (fun app _ => Pinned app) (fun app _ _ => Guarded app)
    (fun hs _ => guarded_iff_pinned hs) ?_ h sound_fresh
  rintro app op _ hs rfl hguarded
  exact sound_next hs hguarded op

/-- A peer that shows this certificate and accepts. -/
def Peer.accepting (fingerprint : Fingerprint) : Peer :=
  ⟨.ok (some fingerprint), .ok (),
    .ok ⟨true, Uuid.nil, "0.1.0-beta.24", none, none, ⟨true, true, false, true, true⟩⟩⟩

/-- A Node is added, its client connects once and the certificate is recorded; the next client of the
Node starts with it and meets another. -/
def recordedThenShown : List Op :=
  [.add Uuid.nil, .start Uuid.nil "node" 7443 "token" none,
    .attempt Uuid.nil (.accepting .zeros), .watch ⟨Uuid.nil, 0, 0⟩ none, .restart,
    .start Uuid.nil "node" 7443 "token" none, .attempt Uuid.nil (.showing .ones)]

def Op.client : Op → Option Uuid
  | .start server _ _ _ _ => some server
  | .attempt server _ => some server
  | .lose server _ => some server
  | .stop server => some server
  | _ => none

theorem sessions_next_of_ne {op : Op} (h : op.client ≠ some server)
    (hnone : app.sessions server = none) : (next app op).sessions server = none := by
  have hset : ∀ {app : App} {other : Uuid} {s : Option Session}, some other ≠ some server →
      app.sessions server = none → (app.setSession other s).sessions server = none := by
    intro app other s hne happ
    unfold App.setSession
    dsimp only
    rwa [update_of_ne fun heq => hne (congrArg some heq.symm)]
  cases op with
  | add other => exact hnone
  | remove other => exact hnone
  | start other host port authToken read =>
    unfold next startAgentSession ensureConnected
    dsimp only
    split
    · exact hnone
    · split <;> split <;> first | exact hnone | exact hset h hnone
  | attempt other peer =>
    unfold next attempt
    dsimp only
    split
    · split <;> exact hset h hnone
    · exact hnone
  | lose other reason =>
    unfold next
    dsimp only
    split
    · split
      · exact hset h hnone
      · exact hnone
    · exact hnone
  | watch w write =>
    unfold next watch
    dsimp only
    split
    · split
      · exact hnone
      · split
        · unfold App.pin
          split <;> exact hnone
        · exact hnone
    · exact hnone
  | stop other => exact hset h hnone
  | restart => rfl

theorem recorded_certificate_guards :
    (recordedThenShown.foldl next App.fresh).pins Uuid.nil = some .zeros ∧
      ∀ x ∈ traceOf next App.fresh recordedThenShown, Guarded x.pre := by
  refine ⟨by decide, (token_kept_to_certificate_iff (run_traceOf next _ _)).mpr fun x hx => ?_⟩
  have hothers := (Run.invariant
    (fun app : App => ∀ server, server ≠ Uuid.nil → app.sessions server = none)
    (fun _ (op : Op) => op.client = none ∨ op.client = some Uuid.nil)
    (by
      rintro app op _ hinv hclient rfl server hserver
      refine sessions_next_of_ne (fun heq => ?_) (hinv server hserver)
      rcases hclient with hclient | hclient
      · rw [hclient] at heq; cases heq
      · rw [hclient] at heq; exact hserver (some.inj heq).symm)
    (run_traceOf next App.fresh recordedThenShown) (fun _ _ => rfl) (by decide)).2 x hx
  have hnil : ∀ x ∈ traceOf next App.fresh recordedThenShown,
      ((x.pre.waiting Uuid.nil).any fun s => s.config.knownFingerprint.isNone) = true →
        x.pre.accepted Uuid.nil = [] := by decide
  intro server s hs hunknown
  by_cases heq : server = Uuid.nil
  · subst heq
    exact hnil x hx (by rw [hs]; simp [hunknown])
  · have hnone := hothers.1 server heq
    rw [(waiting_some.mp hs).1] at hnone
    cases hnone

/-- The connection is lost, and the client reconnects to a peer with another certificate. -/
def lostThenReconnects : List Op :=
  [.add Uuid.nil, .start Uuid.nil "node" 7443 "token" none,
    .attempt Uuid.nil (.accepting .zeros), .watch ⟨Uuid.nil, 0, 0⟩ none,
    .lose Uuid.nil "connection closed"]

/-- The same client sends its token over the other certificate, although the first one is recorded. -/
theorem reconnect_sends_token_elsewhere :
    let app := lostThenReconnects.foldl next App.fresh
    app.accepted Uuid.nil = [.zeros] ∧ app.pins Uuid.nil = some .zeros ∧
      Sends app Uuid.nil (.showing .ones) .ones ∧ ¬ Guarded app := by
  intro app
  have haccepted : app.accepted Uuid.nil = [.zeros] := by decide
  have hpins : app.pins Uuid.nil = some .zeros := by decide
  have hsends : Sends app Uuid.nil (.showing .ones) .ones :=
    ⟨_, _, _, rfl, rfl, rfl⟩
  refine ⟨haccepted, hpins, hsends, fun hguarded => ?_⟩
  have := hguarded Uuid.nil (.showing .ones) .ones hsends .zeros (by rw [haccepted]; simp)
  exact absurd this (by decide)

end VibeSsh.Agent
