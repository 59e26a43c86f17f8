import VibeSsh.Agent.Client
import VibeSsh.Lib.Progress

/-! # Agents that fall silent

`agent_client::run` with its clock, in milliseconds. The read of the handshake's answer is under no
timeout; the reads of the stream are, each turn of the `select!` loop under a new one, and a turn
ends with every command that is sent, with the end of the command channel and with every event that
was handed on. What has arrived is read before time passes, except while an event is handed on;
sending over the socket takes no time. `heard` is when the peer's last message arrived, or the
connection was made, and nothing reads it. -/

open Option

namespace VibeSsh.Agent

open Lib

namespace Silence

def readTimeout : Nat := 30000

inductive ServerEvent where
  | heartbeat
  | other

/-- What the socket yields: a text frame, with what it reads as in either stage, or another. -/
inductive Frame where
  | text (response : Except Text HandshakeResponse) (event : Except Text ServerEvent)
  | close
  | nonText
  | failed (error : Text)

/-- `read_json`, on a text frame that reads as `parse` says. -/
def Frame.readJson {α : Type} (frame : Frame)
    (parse : Except Text HandshakeResponse → Except Text ServerEvent → Except Text α) :
    Except Text α :=
  match frame with
  | .text response event =>
    (parse response event).mapError fun error => "invalid message: " ++ error
  | .close => .error "connection closed"
  | .nonText => .error "unexpected non-text frame"
  | .failed error => .error ("websocket error: " ++ error)

inductive Stage where
  | connecting
  | handshake
  /-- A turn of the loop that began at `since`. -/
  | waiting (since : Nat)
  | forwarding
  | sleeping (wakes : Nat)
  | stopped

structure Client where
  now : Nat
  heard : Nat
  stage : Stage
  inbox : List Frame
  observed : Option Fingerprint
  commandChannelOpen : Bool
  backoff : Nat
  state : AgentConnectionState

inductive Event where
  | elapse (d : Nat)
  | connect (certificate : Except Text (Option Fingerprint)) (send : Except Text Unit)
  | arrive (frame : Frame)
  | read
  | handOver
  | receiverDropped
  | command (send : Except Text Unit)
  | commandsEnded
  | timer
  | wake

section

variable (c : Client)

/-- The `Err` arm of `run`'s loop. -/
def Client.leave (reason : Text) : Client :=
  { c with stage := .sleeping (c.now + 1000 * c.backoff), inbox := [],
           state := .disconnected reason }

def Client.nextTurn : Client := { c with stage := .waiting c.now }

def Client.isOpen : Bool :=
  match c.stage with
  | .handshake | .waiting _ | .forwarding => true
  | _ => false

def Client.mayElapse (d : Nat) : Bool :=
  match c.stage with
  | .handshake => c.inbox.isEmpty
  | .waiting since => c.inbox.isEmpty && c.now + d ≤ since + readTimeout
  | .sleeping wakes => c.now + d ≤ wakes
  | .connecting | .forwarding | .stopped => true

def Client.answered (answer : Except Text HandshakeResponse) : Client :=
  match handshakeResult c.observed ⟨.ok c.observed, .ok (), answer⟩ with
  | .error reason => c.leave reason
  | .ok state =>
    { c with backoff := initialBackoff, state := state, commandChannelOpen := true }.nextTurn

def Client.received (incoming : Except Text ServerEvent) : Client :=
  match incoming with
  | .error reason => c.leave reason
  | .ok .heartbeat => c.nextTurn
  | .ok .other => { c with stage := .forwarding }

def Client.connected (config : AgentClientConfig) (c : Client)
    (certificate : Except Text (Option Fingerprint)) (send : Except Text Unit) : Client :=
  match certificate with
  | .error e => c.leave ("connect failed: " ++ e)
  | .ok certificate =>
    match observe config certificate, send with
    | .error reason, _ => c.leave reason
    | .ok _, .error e => c.leave ("failed to send handshake: " ++ e)
    | .ok observed, .ok _ =>
      { c with stage := .handshake, heard := c.now, inbox := [], observed := observed }

def step (config : AgentClientConfig) (c : Client) : Event → Option Client
  | .elapse d => if c.mayElapse d then some { c with now := c.now + d } else none
  | .connect certificate send =>
    match c.stage with
    | .connecting => some (c.connected config certificate send)
    | _ => none
  | .arrive frame =>
    if c.isOpen then
      some { c with inbox := c.inbox ++ [frame],
                    heard := match frame with
                      | .failed _ => c.heard
                      | _ => c.now }
    else none
  | .read =>
    match c.stage, c.inbox with
    | .handshake, frame :: inbox =>
      some ({ c with inbox := inbox }.answered (frame.readJson fun response _ => response))
    | .waiting _, frame :: inbox =>
      some ({ c with inbox := inbox }.received (frame.readJson fun _ event => event))
    | _, _ => none
  | .handOver =>
    match c.stage with
    | .forwarding => some c.nextTurn
    | _ => none
  | .receiverDropped =>
    match c.stage with
    | .forwarding => some { c with stage := .stopped }
    | _ => none
  | .command send =>
    match c.stage, c.commandChannelOpen, send with
    | .waiting _, true, .ok _ => some c.nextTurn
    | .waiting _, true, .error e =>
      some (c.leave ("failed to send a command to the agent: " ++ e))
    | _, _, _ => none
  | .commandsEnded =>
    match c.stage, c.commandChannelOpen with
    | .waiting _, true => some { c with commandChannelOpen := false }.nextTurn
    | _, _ => none
  | .timer =>
    match c.stage, c.inbox with
    | .waiting since, [] =>
      if c.now = since + readTimeout then
        some (c.leave "no message received within the read timeout")
      else none
    | _, _ => none
  | .wake =>
    match c.stage with
    | .sleeping wakes =>
      if c.now = wakes then
        some { c with stage := .connecting, state := .connecting,
                      backoff := min (c.backoff * 2) maxBackoff }
      else none
    | _ => none

abbrev Steps (config : AgentClientConfig) (c : Client) (e : Event) (c' : Client) : Prop :=
  step config c e = some c'

def Client.start (now : Nat) : Client :=
  ⟨now, now, .connecting, [], none, true, initialBackoff, .connecting⟩

/-- The client has no connection to a peer that has been silent for longer than the timeout, and has
reported the end of the last one. -/
def OnTime : Prop :=
  match c.stage with
  | .handshake | .waiting _ | .forwarding => c.now ≤ c.heard + readTimeout
  | .sleeping _ => ∃ reason, c.state = .disconnected reason
  | .connecting | .stopped => True

/-- The current read is under a timeout that began no later than the peer's last message. -/
def Client.timed : Bool :=
  match c.stage with
  | .waiting since => since ≤ c.heard
  | _ => false

/-- Where the read is not timed so, the peer is not silent for longer than the timeout. -/
def attended : Event → Bool
  | .elapse d => !c.isOpen || c.timed || c.now + d ≤ c.heard + readTimeout
  | _ => true

end

/-! ## Steps -/

inductive Step (config : AgentClientConfig) (c : Client) : Event → Client → Prop where
  | elapse {d : Nat} : c.mayElapse d = true →
    Step config c (.elapse d) { c with now := c.now + d }
  | connect {certificate : Except Text (Option Fingerprint)} {send : Except Text Unit} :
    c.stage = .connecting →
    Step config c (.connect certificate send) (c.connected config certificate send)
  | arrive {frame : Frame} {heard : Nat} : c.isOpen = true → heard = c.heard ∨ heard = c.now →
    Step config c (.arrive frame) { c with inbox := c.inbox ++ [frame], heard := heard }
  | answer {inbox : List Frame} {answer : Except Text HandshakeResponse} : c.stage = .handshake →
    Step config c .read ({ c with inbox := inbox }.answered answer)
  | receive {since : Nat} {inbox : List Frame} {incoming : Except Text ServerEvent} :
    c.stage = .waiting since → Step config c .read ({ c with inbox := inbox }.received incoming)
  | handOver : c.stage = .forwarding → Step config c .handOver c.nextTurn
  | receiverDropped : c.stage = .forwarding →
    Step config c .receiverDropped { c with stage := .stopped }
  | command {since : Nat} : c.stage = .waiting since → Step config c (.command (.ok ())) c.nextTurn
  | commandFails {since : Nat} {error reason : Text} : c.stage = .waiting since →
    Step config c (.command (.error error)) (c.leave reason)
  | commandsEnded {since : Nat} : c.stage = .waiting since →
    Step config c .commandsEnded { c with commandChannelOpen := false }.nextTurn
  | timer {since : Nat} : c.stage = .waiting since → c.now = since + readTimeout →
    Step config c .timer (c.leave "no message received within the read timeout")
  | wake {wakes : Nat} : c.stage = .sleeping wakes →
    Step config c .wake { c with stage := .connecting, state := .connecting,
                                 backoff := min (c.backoff * 2) maxBackoff }

variable {config : AgentClientConfig} {c c' : Client} {e : Event}

theorem step_cases (h : Steps config c e c') : Step config c e c' := by
  cases e with
  | elapse d =>
    simp only [Steps, step, ite_none_right_eq_some, some.injEq] at h
    obtain ⟨hmay, rfl⟩ := h
    exact .elapse hmay
  | arrive frame =>
    simp only [Steps, step, ite_none_right_eq_some, some.injEq] at h
    obtain ⟨hopen, rfl⟩ := h
    exact .arrive hopen (by cases frame <;> simp)
  | connect certificate send =>
    simp only [Steps, step] at h
    split at h <;> cases h
    exact .connect ‹_›
  | read =>
    simp only [Steps, step] at h
    split at h <;> cases h
    · exact .answer ‹_›
    · exact .receive ‹_›
  | handOver =>
    simp only [Steps, step] at h
    split at h <;> cases h
    exact .handOver ‹_›
  | receiverDropped =>
    simp only [Steps, step] at h
    split at h <;> cases h
    exact .receiverDropped ‹_›
  | command send =>
    simp only [Steps, step] at h
    split at h <;> cases h
    · exact .command ‹_›
    · exact .commandFails ‹_›
  | commandsEnded =>
    simp only [Steps, step] at h
    split at h <;> cases h
    exact .commandsEnded ‹_›
  | timer =>
    simp only [Steps, step] at h
    split at h
    · simp only [ite_none_right_eq_some, some.injEq] at h
      obtain ⟨hnow, rfl⟩ := h
      exact .timer ‹_› hnow
    · cases h
  | wake =>
    simp only [Steps, step] at h
    split at h
    · simp only [ite_none_right_eq_some, some.injEq] at h
      obtain ⟨-, rfl⟩ := h
      exact .wake ‹_›
    · cases h

/-! ## Silence -/

theorem onTime_leave (c : Client) (reason : Text) : OnTime (c.leave reason) := ⟨reason, rfl⟩

theorem onTime_of_open (h : c.isOpen = true) : OnTime c ↔ c.now ≤ c.heard + readTimeout := by
  unfold Client.isOpen at h
  unfold OnTime
  split at h <;> simp_all

theorem onTime_elapse {d : Nat} (hc : OnTime c) (hmay : c.mayElapse d = true) :
    OnTime { c with now := c.now + d } ↔ attended c (.elapse d) = true := by
  cases hstage : c.stage with
  | waiting since =>
    have hbound : c.now + d ≤ since + readTimeout := by
      simp only [Client.mayElapse, hstage, Bool.and_eq_true, decide_eq_true_eq] at hmay
      exact hmay.2
    simp only [OnTime, attended, Client.isOpen, Client.timed, hstage, Bool.not_true, Bool.false_or,
      Bool.or_eq_true, decide_eq_true_eq]
    omega
  | handshake | forwarding => simp [OnTime, attended, Client.isOpen, Client.timed, hstage]
  | sleeping wakes => simpa [OnTime, attended, Client.isOpen, hstage] using hc
  | connecting | stopped => simp [OnTime, attended, Client.isOpen, hstage]

/-- Time is all that can make a client late. -/
theorem onTime_step (hc : OnTime c) (h : Steps config c e c') :
    OnTime c' ↔ attended c e = true := by
  have hopen : c.isOpen = true → c.now ≤ c.heard + readTimeout := fun h => (onTime_of_open h).mp hc
  cases step_cases h with
  | elapse hmay => exact onTime_elapse hc hmay
  | connect =>
    refine iff_of_true ?_ rfl
    unfold Client.connected
    split
    · exact onTime_leave _ _
    · split
      · exact onTime_leave _ _
      · exact onTime_leave _ _
      · exact Nat.le_add_right _ _
  | @arrive frame heard hisOpen hheard =>
    have hnow : c.now ≤ heard + readTimeout := by
      have := hopen hisOpen
      omega
    refine iff_of_true ((onTime_of_open ?_).mpr hnow) rfl
    exact hisOpen
  | @answer inbox answer hstage =>
    have hnow := hopen (by rw [Client.isOpen, hstage])
    refine iff_of_true ?_ rfl
    unfold Client.answered
    split
    · exact onTime_leave _ _
    · exact hnow
  | @receive _ inbox incoming hstage =>
    have hnow := hopen (by rw [Client.isOpen, hstage])
    refine iff_of_true ?_ rfl
    unfold Client.received
    split
    · exact onTime_leave _ _
    · exact hnow
    · exact hnow
  | handOver hstage | command hstage | commandsEnded hstage =>
    have hnow := hopen (by rw [Client.isOpen, hstage])
    exact iff_of_true hnow rfl
  | commandFails | timer => exact iff_of_true (onTime_leave _ _) rfl
  | receiverDropped | wake => exact iff_of_true trivial rfl

/-! ## The timer -/

/-- The clock is inside the turn of the loop. -/
def InTurn (c : Client) : Prop :=
  ∀ since, c.stage = .waiting since → since ≤ c.now ∧ c.now ≤ since + readTimeout

theorem inTurn_nextTurn (c : Client) : InTurn c.nextTurn := by
  rintro since ⟨⟩
  exact ⟨Nat.le_refl _, Nat.le_add_right _ _⟩

theorem inTurn_of_stage (h : ∀ since, c.stage ≠ .waiting since) : InTurn c :=
  fun since hstage => absurd hstage (h since)

theorem inTurn_leave (c : Client) (reason : Text) : InTurn (c.leave reason) :=
  inTurn_of_stage (by simp [Client.leave])

theorem inTurn_step (hc : InTurn c) (h : Steps config c e c') : InTurn c' := by
  cases step_cases h with
  | elapse hmay =>
    intro since hstage
    obtain ⟨hfrom, -⟩ := hc since hstage
    simp only [Client.mayElapse, show c.stage = .waiting since from hstage, Bool.and_eq_true,
      decide_eq_true_eq] at hmay
    exact ⟨hfrom.trans (Nat.le_add_right _ _), hmay.2⟩
  | connect =>
    unfold Client.connected
    split
    · exact inTurn_leave _ _
    · split
      · exact inTurn_leave _ _
      · exact inTurn_leave _ _
      · exact inTurn_of_stage (by simp)
  | arrive => exact hc
  | answer =>
    unfold Client.answered
    split
    · exact inTurn_leave _ _
    · exact inTurn_nextTurn _
  | receive =>
    unfold Client.received
    split
    · exact inTurn_leave _ _
    · exact inTurn_nextTurn _
    · exact inTurn_of_stage (by simp)
  | handOver | command | commandsEnded => exact inTurn_nextTurn _
  | commandFails | timer => exact inTurn_leave _ _
  | receiverDropped | wake => exact inTurn_of_stage (by simp)

/-- Nothing happens but time, and what time brings about. -/
def Passive (config : AgentClientConfig) (c : Client) (e : Event) (c' : Client) : Prop :=
  Steps config c e c' ∧
    match e with
    | .elapse d => 0 < d
    | .timer => True
    | _ => False

/-- The silence is reported at the end of the turn that began at `since`. -/
def ReportedAt (since : Nat) (c : Client) : Prop :=
  c.now = since + readTimeout ∧
    c.state = .disconnected "no message received within the read timeout"

theorem reported_of_waiting {since : Nat} (hstage : c.stage = .waiting since)
    (hinbox : c.inbox = []) (hnow : c.now ≤ since + readTimeout) :
    Inevitably (Passive config) (ReportedAt since) c := by
  induction hleft : since + readTimeout - c.now using Nat.strong_induction_on generalizing c with
  | _ left ih =>
    subst hleft
    have hsome : ∃ e c', Passive config c e c' := by
      rcases Nat.lt_or_eq_of_le hnow with hlt | heq
      · refine ⟨.elapse 1, { c with now := c.now + 1 }, ?_, Nat.one_pos⟩
        simp only [Steps, step, Client.mayElapse, hstage, hinbox]
        exact if_pos (by simpa using hlt)
      · exact ⟨.timer, _, by simp only [Steps, step, hstage, hinbox]; exact if_pos heq, trivial⟩
    obtain ⟨e, c', hpassive⟩ := hsome
    refine .later hpassive fun e c' ⟨hstep, he⟩ => ?_
    cases step_cases hstep with
    | elapse hmay =>
      simp only [Client.mayElapse, hstage, Bool.and_eq_true, decide_eq_true_eq] at hmay
      have hd : 0 < _ := he
      exact ih _ (by have := hmay.2; simp only; omega) hstage hinbox hmay.2 rfl
    | timer hstage' htime =>
      obtain rfl : since = _ := Stage.waiting.inj (hstage.symm.trans hstage')
      exact .now ⟨htime, rfl⟩
    | _ => exact he.elim

/-- **Silent agents.** A run never keeps a connection on which nothing came for longer than the
timeout, and reports the end of each, exactly when no such silence falls into the wait for the
handshake's answer, into the handing on of an event, or into a turn of the loop that began after the
last message. -/
theorem silence_noticed_iff {now : Nat} {trace : List (Transition Client Event)} {u : Client}
    (h : Run (Steps config) (Client.start now) trace u) :
    ((∀ x ∈ trace, OnTime x.post) ↔ ∀ x ∈ trace, attended x.pre x.label = true) ∧
      ∀ x ∈ trace, ∀ since, x.post.stage = .waiting since → x.post.inbox = [] →
        Inevitably (Passive config) (ReportedAt since) x.post := by
  refine ⟨h.invariant_iff OnTime (attended · · = true) onTime_step trivial, ?_⟩
  intro x hx since hstage hinbox
  have hinTurn := (h.invariant InTurn (fun _ _ => True) (fun hc _ hst => inTurn_step hc hst)
    (inTurn_of_stage (by simp [Client.start])) fun _ _ => trivial).2 x hx
  exact reported_of_waiting hstage hinbox (hinTurn.2.2 since hstage).2

def plainConfig : AgentClientConfig :=
  ⟨"ws://10.0.0.5:8080/ws", "VibeSSH Desktop", clientVersion, none, none⟩

def acceptance : Frame :=
  .text (.ok ⟨true, Uuid.nil, "1.0.0", none, none, ⟨true, true, false, true, false⟩⟩)
    (.error [])

/-- The agent answers and is not heard of again; the timer ends the connection. -/
def noticedRun : List Event :=
  [.connect (.ok none) (.ok ()), .elapse 200, .arrive acceptance, .read, .elapse 30000, .timer]

theorem silent_stream_noticed :
    ∃ u, Run (Steps plainConfig) (Client.start 0)
        (stepsOf (step plainConfig) (Client.start 0) noticedRun) u ∧
      ∀ x ∈ stepsOf (step plainConfig) (Client.start 0) noticedRun, OnTime x.post := by
  have hrun : Run (Steps plainConfig) (Client.start 0)
      (stepsOf (step plainConfig) (Client.start 0) noticedRun) _ := run_stepsOf rfl
  refine ⟨_, hrun, (silence_noticed_iff hrun).1.mpr ?_⟩
  decide

def unansweredRun : List Event := [.connect (.ok none) (.ok ()), .elapse 3600000]

/-- The agent answers and is not heard of again, and a command is sent every twenty seconds. -/
def commandedRun : List Event :=
  [.connect (.ok none) (.ok ()), .arrive acceptance, .read, .elapse 20000, .command (.ok ()),
    .elapse 20000, .command (.ok ()), .elapse 20000]

theorem silent_agent_unnoticed :
    (∃ u, Run (Steps plainConfig) (Client.start 0)
        (stepsOf (step plainConfig) (Client.start 0) unansweredRun) u ∧ ¬ OnTime u) ∧
      ∃ u, Run (Steps plainConfig) (Client.start 0)
        (stepsOf (step plainConfig) (Client.start 0) commandedRun) u ∧ ¬ OnTime u := by
  have hunanswered : Run (Steps plainConfig) (Client.start 0)
      (stepsOf (step plainConfig) (Client.start 0) unansweredRun) _ := run_stepsOf rfl
  have hcommanded : Run (Steps plainConfig) (Client.start 0)
      (stepsOf (step plainConfig) (Client.start 0) commandedRun) _ := run_stepsOf rfl
  refine ⟨⟨_, hunanswered, ?_⟩, ⟨_, hcommanded, ?_⟩⟩
  · exact show ¬ 0 + 3600000 ≤ 0 + readTimeout by decide
  · exact show ¬ 0 + 20000 + 20000 + 20000 ≤ 0 + readTimeout by decide

end Silence

end VibeSsh.Agent
