import VibeSsh.Agent.Client
import VibeSsh.Lib.Assoc
import VibeSsh.Lib.Progress

/-! # The lock over the agents' sessions

`AgentSessionManager` keeps the sessions of all Nodes behind one lock. `send_command` holds it while
it waits for room in the Node's queue, which holds 16 commands and is only emptied by the client of
a Node whose connection is up. The lock is handed out in the order in which it was asked for; in
which order the calls ask, and when a client takes a command, is the schedule. -/

namespace VibeSsh.AgentSessions

open Lib List
open Agent (AgentClientConfig AgentConnectionState)

def commandCapacity : Nat := 16

/-- A session: the configuration of its client and the commands that client has not taken yet. -/
structure Session (κ : Type) where
  config : AgentClientConfig
  queue : List κ
  bounded : queue.length ≤ commandCapacity

inductive Request (κ : Type) where
  | ensureConnected (config : AgentClientConfig)
  | stateOf
  | sendCommand (command : κ)
  | stop

structure Call (κ : Type) where
  serverId : Uuid
  request : Request κ

inductive Answer where
  | unit
  | state (state : Option AgentConnectionState)
  | sent (ok : Bool)

variable {κ : Type}

abbrev Sessions (κ : Type) := List (Uuid × Session κ)

/-- `command_tx.send`, once there is room. -/
def Session.push (session : Session κ) (command : κ) : Option (Session κ) :=
  if h : session.queue.length < commandCapacity then
    some ⟨session.config, session.queue ++ [command], by simpa using h⟩
  else none

def Session.recv (session : Session κ) : Option (Session κ) :=
  match h : session.queue with
  | [] => none
  | _ :: rest => some ⟨session.config, rest, by
      have := session.bounded
      rw [h, length_cons] at this
      omega⟩

/-- What a call does once it has the lock, where it does not have to wait; `current` is what the
session's client published last. -/
def perform (current : AgentConnectionState) (sessions : Sessions κ) (call : Call κ) :
    Option (Sessions κ × Answer) :=
  match call.request, sessions.lookup call.serverId with
  | .ensureConnected _, some _ => some (sessions, .unit)
  | .ensureConnected config, none =>
    some (Assoc.insert sessions call.serverId ⟨config, [], Nat.zero_le _⟩, .unit)
  | .stateOf, session => some (sessions, .state (session.map fun _ => current))
  | .sendCommand command, some session =>
    (session.push command).map fun session =>
      (Assoc.insert sessions call.serverId session, .sent true)
  | .sendCommand _, none => some (sessions, .sent false)
  | .stop, _ => some (Assoc.remove sessions call.serverId, .unit)

/-- The manager: its sessions, the call that holds the lock, those that wait for it, those that have
not been made yet, and the calls that returned. -/
structure Manager (κ : Type) where
  sessions : Sessions κ
  holder : Option (Call κ)
  waiting : List (Call κ)
  calls : List (Call κ)
  answered : List (Call κ × Answer)

inductive Event where
  | arrive (i : Nat)
  | acquire
  | act (current : AgentConnectionState)
  | recv (serverId : Uuid)

/-- One step. `down` are the Nodes whose connection never comes up again. -/
def step (down : Uuid → Bool) (m : Manager κ) : Event → Option (Manager κ)
  | .arrive i =>
    m.calls[i]?.map fun call =>
      { m with calls := m.calls.eraseIdx i, waiting := m.waiting ++ [call] }
  | .acquire =>
    match m.holder, m.waiting with
    | none, call :: waiting => some { m with holder := some call, waiting := waiting }
    | _, _ => none
  | .act current =>
    m.holder.bind fun call =>
      (perform current m.sessions call).map fun r =>
        { m with sessions := r.1, holder := none, answered := (call, r.2) :: m.answered }
  | .recv serverId =>
    if down serverId then none
    else (m.sessions.lookup serverId).bind fun session =>
      session.recv.map fun session =>
        { m with sessions := Assoc.insert m.sessions serverId session }

abbrev Steps (down : Uuid → Bool) (m : Manager κ) (e : Event) (m' : Manager κ) : Prop :=
  step down m e = some m'

def Manager.start (sessions : Sessions κ) (calls : List (Call κ)) : Manager κ :=
  ⟨sessions, none, [], calls, []⟩

/-- The calls a Node that is down may not hold up: those for the other Nodes, and its own `stop`. Of
the calls for Nodes that are down too, which each can be held up by its own queue, only `stop`. -/
def required (down : Uuid → Bool) (call : Call κ) : Bool :=
  match call.request with
  | .stop => true
  | _ => !down call.serverId

def Completed (calls : List (Call κ)) (m : Manager κ) : Prop :=
  calls.Subperm (m.answered.map Prod.fst)

def sendsTo (serverId : Uuid) (call : Call κ) : Bool :=
  match call.request with
  | .sendCommand _ => call.serverId = serverId
  | _ => false

def connects (serverId : Uuid) (call : Call κ) : Bool :=
  match call.request with
  | .ensureConnected _ => call.serverId = serverId
  | _ => false

/-- The queue of the Node has room for all commands that are to be sent to it. -/
def Fits (sessions : Sessions κ) (calls : List (Call κ)) (serverId : Uuid) : Prop :=
  match sessions.lookup serverId with
  | some session => session.queue.length + calls.countP (sendsTo serverId) ≤ commandCapacity
  | none => calls.any (connects serverId) = true → calls.countP (sendsTo serverId) ≤ commandCapacity

/-! ## Steps -/

def Manager.pending (m : Manager κ) : List (Call κ) := m.holder.toList ++ m.waiting ++ m.calls

inductive Step (down : Uuid → Bool) (m : Manager κ) : Event → Manager κ → Prop where
  | arrive {i : Nat} {call : Call κ} : m.calls[i]? = some call →
    Step down m (.arrive i) { m with calls := m.calls.eraseIdx i, waiting := m.waiting ++ [call] }
  | acquire {call : Call κ} {waiting : List (Call κ)} : m.holder = none →
    m.waiting = call :: waiting →
    Step down m .acquire { m with holder := some call, waiting := waiting }
  | act {current : AgentConnectionState} {call : Call κ} {sessions : Sessions κ} {answer : Answer} :
    m.holder = some call → perform current m.sessions call = some (sessions, answer) →
    Step down m (.act current)
      { m with sessions := sessions, holder := none, answered := (call, answer) :: m.answered }
  | recv {serverId : Uuid} {session session' : Session κ} : down serverId = false →
    m.sessions.lookup serverId = some session → session.recv = some session' →
    Step down m (.recv serverId) { m with sessions := Assoc.insert m.sessions serverId session' }

variable {down : Uuid → Bool} {m m' : Manager κ} {e : Event}

theorem step_cases (h : Steps down m e m') : Step down m e m' := by
  cases e with
  | arrive i =>
    obtain ⟨call, hcall, rfl⟩ := Option.map_eq_some_iff.mp h
    exact .arrive hcall
  | acquire =>
    simp only [Steps, step] at h
    split at h
    · next hholder hwaiting =>
      obtain rfl := Option.some.inj h
      exact .acquire hholder hwaiting
    · cases h
  | act current =>
    obtain ⟨call, hholder, h⟩ := Option.bind_eq_some_iff.mp h
    obtain ⟨⟨sessions, answer⟩, hperform, rfl⟩ := Option.map_eq_some_iff.mp h
    exact .act hholder hperform
  | recv serverId =>
    simp only [Steps, step] at h
    split_ifs at h
    · next hdown =>
      obtain ⟨session, hsession, h⟩ := Option.bind_eq_some_iff.mp h
      obtain ⟨session', hrecv, rfl⟩ := Option.map_eq_some_iff.mp h
      exact .recv (by simpa using hdown) hsession hrecv

variable {session : Session κ} {call : Call κ} {calls : List (Call κ)}
  {current : AgentConnectionState} {sessions sessions' : Sessions κ} {serverId : Uuid}

variable {session' : Session κ}

theorem Session.push_eq_some {command : κ} (h : session.push command = some session') :
    session'.queue.length = session.queue.length + 1 := by
  unfold Session.push at h
  split at h
  · obtain rfl := Option.some.inj h
    simp
  · cases h

theorem Session.push_eq_none {command : κ} :
    session.push command = none ↔ session.queue.length = commandCapacity := by
  have := session.bounded
  unfold Session.push
  split <;> simp <;> omega

theorem Session.recv_eq_some (h : session.recv = some session') :
    session.queue.length = session'.queue.length + 1 := by
  unfold Session.recv at h
  split at h
  · cases h
  · next hqueue =>
    obtain rfl := Option.some.inj h
    simp [hqueue]

theorem Session.recv_eq_none : session.recv = none ↔ session.queue = [] := by
  unfold Session.recv
  split <;> simp [*]

/-! ## What is pending -/

theorem arrive_pending {i : Nat} (h : m.calls[i]? = some call) :
    ({ m with calls := m.calls.eraseIdx i, waiting := m.waiting ++ [call] } :
      Manager κ).pending.Perm m.pending := by
  obtain ⟨hi, rfl⟩ := List.getElem?_eq_some_iff.mp h
  have hperm := getElem_cons_eraseIdx_perm hi
  simp only [Manager.pending, append_assoc]
  exact (hperm.append_left m.waiting).append_left _

/-- The calls are pending or have returned. -/
theorem step_accounted (h : Steps down m e m')
    (hm : (m.pending ++ m.answered.map Prod.fst).Perm calls) :
    (m'.pending ++ m'.answered.map Prod.fst).Perm calls := by
  cases step_cases h with
  | arrive hcall => exact ((arrive_pending hcall).append_right _).trans hm
  | acquire hholder hwaiting =>
    simpa [Manager.pending, hholder, hwaiting] using hm
  | act hholder _ =>
    refine List.Perm.trans ?_ hm
    simp only [Manager.pending, hholder, Option.toList, nil_append, map_cons,
      cons_append]
    exact perm_middle
  | recv => exact hm

theorem completed_step (hm : Completed calls m) (h : Steps down m e m') : Completed calls m' := by
  refine hm.trans (List.Sublist.map _ ?_).subperm
  cases step_cases h with
  | act => exact sublist_cons_self _ _
  | _ => exact .refl _

/-! ## Progress -/

def queued (sessions : Sessions κ) : Nat := (sessions.map (·.2.queue.length)).sum

def Manager.measure (m : Manager κ) : Nat :=
  4 * m.calls.length + 3 * m.waiting.length + 2 * m.holder.toList.length + queued m.sessions

theorem queued_remove (sessions : Sessions κ) (serverId : Uuid) :
    queued (Assoc.remove sessions serverId) +
      ((sessions.lookup serverId).map (·.queue.length)).getD 0 ≤ queued sessions := by
  induction sessions with
  | nil => simp [queued, Assoc.remove]
  | cons entry sessions ih =>
    obtain ⟨id, session⟩ := entry
    unfold queued Assoc.remove at ih ⊢
    by_cases hid : serverId = id
    · subst hid
      simp only [ne_eq, decide_not, filter_cons, decide_true, Bool.not_true,
        Bool.false_eq_true, if_false, lookup_cons, beq_self_eq_true, Option.map_some,
        Option.getD_some, map_cons, sum_cons] at ih ⊢
      omega
    · have hbeq : (serverId == id) = false := beq_eq_false_iff_ne.mpr hid
      rw [filter_cons, if_pos (by simpa using Ne.symm hid), lookup_cons, hbeq]
      simp only [map_cons, sum_cons]
      omega

theorem queued_insert (sessions : Sessions κ) (serverId : Uuid) (session : Session κ) :
    queued (Assoc.insert sessions serverId session) +
      ((sessions.lookup serverId).map (·.queue.length)).getD 0 ≤
      queued sessions + session.queue.length := by
  have := queued_remove sessions serverId
  have hinsert : queued (Assoc.insert sessions serverId session) =
      session.queue.length + queued (Assoc.remove sessions serverId) := rfl
  omega

theorem perform_queued {answer : Answer}
    (h : perform current sessions call = some (sessions', answer)) :
    queued sessions' ≤ queued sessions + 1 := by
  have hremove := queued_remove sessions call.serverId
  have hinsert := queued_insert sessions call.serverId
  unfold perform at h
  split at h
  case h_4 session _ _ hlookup =>
    obtain ⟨session', hpush, h⟩ := Option.map_eq_some_iff.mp h
    obtain ⟨rfl, -⟩ := Prod.mk.inj h
    have hlength := Session.push_eq_some hpush
    have := hinsert session'
    rw [hlookup] at this
    simp only [Option.map_some, Option.getD_some] at this
    omega
  case h_2 config _ _ =>
    obtain ⟨rfl, -⟩ := Prod.mk.inj (Option.some.inj h)
    have := hinsert ⟨config, [], Nat.zero_le _⟩
    simp only [length_nil] at this
    omega
  all_goals
    obtain ⟨rfl, -⟩ := Prod.mk.inj (Option.some.inj h)
    omega

theorem step_measure (h : Steps down m e m') : m'.measure < m.measure := by
  unfold Manager.measure
  cases step_cases h with
  | arrive hcall =>
    obtain ⟨hi, -⟩ := List.getElem?_eq_some_iff.mp hcall
    simp only [length_eraseIdx, hi, if_true, length_append, length_singleton]
    omega
  | acquire hholder hwaiting => simp [hholder, hwaiting]; omega
  | act hholder hperform =>
    have := perform_queued hperform
    simp [hholder]
    omega
  | @recv serverId session session' _ hlookup hrecv =>
    have := queued_insert m.sessions serverId session'
    have := Session.recv_eq_some hrecv
    simp only [hlookup, Option.map_some, Option.getD_some] at *
    omega

/-- Where no step is left, every call has returned, or one waits for room in the queue of a Node
that is down. -/
theorem stuck_cases (h : Stuck (Steps down) m) :
    m.pending = [] ∨ ∃ call serverId session, m.holder = some call ∧ sendsTo serverId call = true ∧
      down serverId = true ∧ m.sessions.lookup serverId = some session ∧
      session.queue.length = commandCapacity := by
  have hcalls : m.calls = [] := by
    cases hc : m.calls with
    | nil => rfl
    | cons call rest => exact absurd (by simp [Steps, step, hc]; rfl) (h (.arrive 0) _)
  cases hholder : m.holder with
  | none =>
    cases hwaiting : m.waiting with
    | nil => exact .inl (by simp [Manager.pending, hcalls, hholder, hwaiting])
    | cons call rest =>
      exact absurd (by simp [Steps, step, hholder, hwaiting]; rfl) (h .acquire _)
  | some call =>
    have hperform : perform .connecting m.sessions call = none := by
      cases hp : perform .connecting m.sessions call with
      | none => rfl
      | some r => exact absurd (by simp [Steps, step, hholder, hp]; rfl) (h (.act .connecting) _)
    obtain ⟨serverId, request⟩ := call
    unfold perform at hperform
    split at hperform <;> try cases hperform
    next command session hrequest hlookup =>
    subst hrequest
    have hfull := Session.push_eq_none.mp (Option.map_eq_none_iff.mp hperform)
    refine .inr ⟨_, serverId, session, rfl, by simp [sendsTo], ?_, hlookup, hfull⟩
    by_contra hdown
    cases hrecv : session.recv with
    | none =>
      rw [Session.recv_eq_none.mp hrecv] at hfull
      cases hfull
    | some session' =>
      exact absurd (by simp [Steps, step, hdown, hlookup, hrecv]; rfl) (h (.recv serverId) _)

/-! ## Room for every command -/

theorem fits_some (h : sessions.lookup serverId = some session) :
    Fits sessions calls serverId ↔
      session.queue.length + calls.countP (sendsTo serverId) ≤ commandCapacity := by
  unfold Fits
  rw [h]

theorem fits_none (h : sessions.lookup serverId = none) :
    Fits sessions calls serverId ↔ (calls.any (connects serverId) = true →
      calls.countP (sendsTo serverId) ≤ commandCapacity) := by
  unfold Fits
  rw [h]

theorem Fits.of_cons (hlookup : sessions'.lookup serverId = sessions.lookup serverId)
    (h : Fits sessions (call :: calls) serverId) : Fits sessions' calls serverId := by
  have hcount : calls.countP (sendsTo serverId) ≤ (call :: calls).countP (sendsTo serverId) :=
    (sublist_cons_self call calls).countP_le
  unfold Fits at h ⊢
  rw [hlookup]
  split
  · next session hsession =>
    simp only [hsession] at h
    omega
  · next hnone =>
    simp only [hnone] at h
    intro hany
    have := h (by rw [any_cons, hany, Bool.or_true])
    omega

/-- What a call does leaves room for those after it. -/
theorem perform_fits {answer : Answer}
    (h : perform current sessions call = some (sessions', answer))
    (hfits : Fits sessions (call :: calls) serverId) : Fits sessions' calls serverId := by
  by_cases hid : serverId = call.serverId
  case neg =>
    refine hfits.of_cons ?_
    unfold perform at h
    split at h
    case h_4 =>
      obtain ⟨session', -, h⟩ := Option.map_eq_some_iff.mp h
      obtain ⟨rfl, -⟩ := Prod.mk.inj h
      rw [Assoc.lookup_insert, if_neg hid]
    all_goals
      obtain ⟨rfl, -⟩ := Prod.mk.inj (Option.some.inj h)
      simp [Assoc.lookup_insert, Assoc.lookup_remove, hid]
  case pos =>
    subst hid
    obtain ⟨serverId, request⟩ := call
    unfold perform at h
    split at h
    case h_2 config hrequest hlookup =>
      obtain ⟨rfl, -⟩ := Prod.mk.inj (Option.some.inj h)
      subst hrequest
      rw [fits_some (by rw [Assoc.lookup_insert, if_pos rfl])]
      have := (fits_none hlookup).mp hfits (by simp [connects])
      simpa [sendsTo] using this
    case h_4 command session hrequest hlookup =>
      obtain ⟨session', hpush, h⟩ := Option.map_eq_some_iff.mp h
      obtain ⟨rfl, -⟩ := Prod.mk.inj h
      subst hrequest
      rw [fits_some (by rw [Assoc.lookup_insert, if_pos rfl])]
      have hroom := (fits_some hlookup).mp hfits
      rw [countP_cons_of_pos (by simp [sendsTo])] at hroom
      have := Session.push_eq_some hpush
      omega
    case h_6 hrequest =>
      obtain ⟨rfl, -⟩ := Prod.mk.inj (Option.some.inj h)
      subst hrequest
      rw [fits_none (by rw [Assoc.lookup_remove, if_pos rfl])]
      intro hany
      show calls.countP (sendsTo serverId) ≤ commandCapacity
      have hcount : (⟨serverId, .stop⟩ :: calls).countP (sendsTo serverId) =
          calls.countP (sendsTo serverId) := countP_cons_of_neg (by simp [sendsTo])
      cases hlookup : sessions.lookup serverId with
      | some session =>
        have := (fits_some hlookup).mp hfits
        omega
      | none =>
        have := (fits_none hlookup).mp hfits (by rw [any_cons, hany, Bool.or_true])
        omega
    all_goals
      obtain ⟨rfl, -⟩ := Prod.mk.inj (Option.some.inj h)
      exact hfits.of_cons rfl

theorem step_fits (hdown : down serverId = true) (h : Steps down m e m')
    (hm : Fits m.sessions m.pending serverId) : Fits m'.sessions m'.pending serverId := by
  cases step_cases h with
  | arrive hcall =>
    unfold Fits at hm ⊢
    rwa [(arrive_pending hcall).countP_eq, (arrive_pending hcall).any_eq]
  | acquire hholder hwaiting =>
    simpa [Manager.pending, hholder, hwaiting] using hm
  | @act _ call _ _ hholder hperform =>
    have hpending : m.pending = call :: (m.waiting ++ m.calls) := by
      rw [Manager.pending, hholder]
      rfl
    exact perform_fits hperform (hpending ▸ hm)
  | @recv serverId' _ _ hdown' _ _ =>
    have hne : serverId ≠ serverId' := by
      rintro rfl
      rw [hdown] at hdown'
      cases hdown'
    have hlookup : (Assoc.insert m.sessions serverId' ‹_›).lookup serverId =
        m.sessions.lookup serverId := by rw [Assoc.lookup_insert, if_neg hne]
    unfold Fits at hm ⊢
    rw [hlookup]
    exact hm

/-- With room for every command, the calls all return. -/
theorem inevitably_completed (h : ∀ serverId, down serverId = true → Fits sessions calls serverId) :
    Inevitably (Steps down) (Completed calls) (Manager.start sessions calls) := by
  refine inevitably_of_measure
    (fun m => (m.pending ++ m.answered.map Prod.fst).Perm calls ∧
      ∀ serverId, down serverId = true → Fits m.sessions m.pending serverId) Manager.measure
    (fun hm hst => ⟨step_accounted hst hm.1, fun id hid => step_fits hid hst (hm.2 id hid)⟩)
    (fun _ hst => step_measure hst) ?_ ⟨by simp [Manager.pending, Manager.start], h⟩
  rintro m ⟨haccounted, hfits⟩ hstuck
  obtain hnone | ⟨call, serverId, session, hholder, hsends, hdown, hlookup, hfull⟩ :=
    stuck_cases hstuck
  · rw [hnone, nil_append] at haccounted
    exact haccounted.symm.subperm
  · have hroom := (fits_some hlookup).mp (hfits serverId hdown)
    rw [Manager.pending, hholder, Option.toList, append_assoc, singleton_append,
      countP_cons_of_pos hsends] at hroom
    omega

/-! ## A full queue -/

/-- A call waits, with the lock, for room that does not come, and a required one is behind it. -/
structure Blocked (down : Uuid → Bool) (calls : List (Call κ)) (m : Manager κ) : Prop where
  holder : ∃ call serverId session, m.holder = some call ∧ sendsTo serverId call = true ∧
    down serverId = true ∧ m.sessions.lookup serverId = some session ∧
    session.queue.length = commandCapacity
  behind : ∃ call ∈ m.pending, required down call = true
  accounted : (m.pending ++ m.answered.map Prod.fst).Perm calls

theorem blocked_step (hm : Blocked down calls m) (h : Steps down m e m') :
    Blocked down calls m' := by
  have haccounted := step_accounted h hm.accounted
  obtain ⟨call, serverId, session, hholder, hsends, hdown, hlookup, hfull⟩ := hm.holder
  obtain ⟨c, hc, hrequired⟩ := hm.behind
  cases step_cases h with
  | arrive hcall =>
    exact ⟨⟨call, serverId, session, hholder, hsends, hdown, hlookup, hfull⟩,
      ⟨c, (arrive_pending hcall).mem_iff.mpr hc, hrequired⟩, haccounted⟩
  | acquire hnone _ => rw [hholder] at hnone; cases hnone
  | act hholder' hperform =>
    obtain rfl := Option.some.inj (hholder.symm.trans hholder')
    obtain ⟨id, request⟩ := call
    cases request with
    | sendCommand command =>
      obtain rfl : id = serverId := by simpa [sendsTo] using hsends
      simp [perform, hlookup, Session.push_eq_none.mpr hfull] at hperform
    | _ => simp [sendsTo] at hsends
  | @recv serverId' _ _ hdown' _ _ =>
    have hne : serverId ≠ serverId' := by
      rintro rfl
      rw [hdown] at hdown'
      cases hdown'
    exact ⟨⟨call, serverId, session, hholder, hsends, hdown,
      by rw [Assoc.lookup_insert, if_neg hne, hlookup], hfull⟩, ⟨c, hc, hrequired⟩, haccounted⟩

theorem blocked_not_completed (hm : Blocked down calls m) :
    ¬ Completed (calls.filter (required down)) m := by
  intro hcompleted
  obtain ⟨c, hc, hrequired⟩ := hm.behind
  have hpos : 0 < (m.pending.filter (required down)).length :=
    length_pos_of_mem (mem_filter.mpr ⟨hc, hrequired⟩)
  have hlength := ((hm.accounted.filter (required down)).length_eq)
  have hle := (hcompleted.filter (required down)).length_le
  rw [filter_append, length_append] at hlength
  rw [filter_filter, funext fun c => Bool.and_self (required down c)] at hle
  omega

/-! ## Filling the queue -/

section Filling

variable {sessions sessions' : Sessions κ} {calls : List (Call κ)}
  {answered : List (Call κ × Answer)} {i : Nat} {call : Call κ} {answer : Answer}
  {all : List (Call κ)}

/-- An idle manager may hand the lock to any of its calls next. -/
theorem take_lock (hcall : calls[i]? = some call)
    (h : Inevitably (Steps down) (Completed all) ⟨sessions, none, [], calls, answered⟩) :
    Inevitably (Steps down) (Completed all)
      ⟨sessions, some call, [], calls.eraseIdx i, answered⟩ := by
  have harrive : Steps down ⟨sessions, none, [], calls, answered⟩ (.arrive i)
      ⟨sessions, none, [call], calls.eraseIdx i, answered⟩ := by simp [Steps, step, hcall]
  have hacquire : Steps down ⟨sessions, none, [call], calls.eraseIdx i, answered⟩ .acquire
      ⟨sessions, some call, [], calls.eraseIdx i, answered⟩ := rfl
  exact (h.next completed_step harrive).next completed_step hacquire

theorem run_call (hcall : calls[i]? = some call)
    (hperform : perform .connecting sessions call = some (sessions', answer))
    (h : Inevitably (Steps down) (Completed all) ⟨sessions, none, [], calls, answered⟩) :
    Inevitably (Steps down) (Completed all)
      ⟨sessions', none, [], calls.eraseIdx i, (call, answer) :: answered⟩ := by
  have hact : Steps down ⟨sessions, some call, [], calls.eraseIdx i, answered⟩ (.act .connecting)
      ⟨sessions', none, [], calls.eraseIdx i, (call, answer) :: answered⟩ := by
    simp [Steps, step, hperform]
  exact (take_lock hcall h).next completed_step hact

theorem required_eraseIdx {c : Call κ} (hcall : calls[i]? = some call)
    (hother : required down call = false) (hc : c ∈ calls) (hrequired : required down c = true) :
    c ∈ calls.eraseIdx i := by
  obtain ⟨hi, rfl⟩ := List.getElem?_eq_some_iff.mp hcall
  rcases mem_cons.mp ((getElem_cons_eraseIdx_perm hi).mem_iff.mpr hc) with rfl | hmem
  · rw [hrequired] at hother
    cases hother
  · exact hmem

variable {serverId : Uuid}

section

variable (hdown : down serverId = true)
include hdown

theorem not_required_of_sendsTo (h : sendsTo serverId call = true) :
    required down call = false := by
  obtain ⟨id, request⟩ := call
  cases request with
  | sendCommand command =>
    obtain rfl : id = serverId := by simpa [sendsTo] using h
    simp [required, hdown]
  | _ => simp [sendsTo] at h

theorem next_send {n : Nat} (hsends : n < calls.countP (sendsTo serverId))
    (hrequired : ∃ c ∈ calls, required down c = true)
    (haccounted : (calls ++ answered.map Prod.fst).Perm all) :
    ∃ call i, calls[i]? = some call ∧ sendsTo serverId call = true ∧
      (∃ c ∈ calls.eraseIdx i, required down c = true) ∧
      (call :: (calls.eraseIdx i ++ answered.map Prod.fst)).Perm all ∧
      n ≤ (calls.eraseIdx i).countP (sendsTo serverId) := by
  obtain ⟨call, hmem, hsend⟩ := countP_pos_iff.mp (Nat.zero_lt_of_lt hsends)
  obtain ⟨i, hi, rfl⟩ := getElem_of_mem hmem
  have hperm := getElem_cons_eraseIdx_perm hi
  obtain ⟨c, hc, hcrequired⟩ := hrequired
  have hc' := required_eraseIdx (List.getElem?_eq_getElem hi)
    (not_required_of_sendsTo hdown hsend) hc hcrequired
  refine ⟨calls[i], i, List.getElem?_eq_getElem hi, hsend, ⟨c, hc', hcrequired⟩,
    (hperm.append_right _).trans haccounted, ?_⟩
  rw [← hperm.countP_eq, countP_cons_of_pos hsend] at hsends
  omega

/-- **Overflow.** With more commands to send than the queue of a Node that is down has room for, and
a required call left, the required calls need not return. The induction is on the room left. -/
theorem overflow {room : Nat}
    {session : Session κ} (hlookup : sessions.lookup serverId = some session)
    (hroom : session.queue.length + room = commandCapacity)
    (hsends : room < calls.countP (sendsTo serverId))
    (hrequired : ∃ c ∈ calls, required down c = true)
    (haccounted : (calls ++ answered.map Prod.fst).Perm all) :
    ¬ Inevitably (Steps down) (Completed (all.filter (required down)))
      ⟨sessions, none, [], calls, answered⟩ := by
  intro h
  induction room generalizing sessions session calls answered with
  | zero =>
    obtain ⟨call, i, hcall, hsend, hrequired, haccounted, -⟩ :=
      next_send hdown hsends hrequired haccounted
    refine not_inevitably_of_trap (Blocked down all) blocked_step blocked_not_completed ?_
      (take_lock hcall h)
    obtain ⟨c, hc, hcrequired⟩ := hrequired
    exact ⟨⟨call, serverId, session, rfl, hsend, hdown, hlookup, hroom⟩,
      ⟨c, mem_cons_of_mem _ hc, hcrequired⟩, haccounted⟩
  | succ room ih =>
    obtain ⟨⟨id, request⟩, i, hcall, hsend, hrequired, haccounted, hcount⟩ :=
      next_send hdown hsends hrequired haccounted
    cases request with
    | sendCommand command =>
      obtain rfl : id = serverId := by simpa [sendsTo] using hsend
      cases hpush : session.push command with
      | none =>
        rw [Session.push_eq_none.mp hpush] at hroom
        omega
      | some session' =>
        have hlength := Session.push_eq_some hpush
        have hperform : perform .connecting sessions ⟨id, .sendCommand command⟩ =
            some (Assoc.insert sessions id session', .sent true) := by
          simp [perform, hlookup, hpush]
        have hlookup' : (Assoc.insert sessions id session').lookup id = some session' := by
          rw [Assoc.lookup_insert, if_pos rfl]
        refine ih hlookup' (by omega) (by omega) hrequired ?_ (run_call hcall hperform h)
        exact perm_middle.trans haccounted
    | _ => simp [sendsTo] at hsend

/-- Without room for its commands, a Node that is down holds up a required call. -/
theorem overflow_of_not_fits (hfits : ¬ Fits sessions calls serverId)
    (hrequired : ∃ c ∈ calls, required down c = true) :
    ¬ Inevitably (Steps down) (Completed (calls.filter (required down)))
      (Manager.start sessions calls) := by
  cases hlookup : sessions.lookup serverId with
  | some session =>
    rw [fits_some hlookup] at hfits
    have hbounded := session.bounded
    have hroom : session.queue.length + (commandCapacity - session.queue.length) =
        commandCapacity := by omega
    exact overflow hdown hlookup hroom (by omega) hrequired (by simp)
  | none =>
    rw [fits_none hlookup] at hfits
    obtain ⟨hany, hsends⟩ : calls.any (connects serverId) = true ∧
        commandCapacity < calls.countP (sendsTo serverId) := by
      simpa only [Classical.not_imp, not_le] using hfits
    obtain ⟨⟨id, request⟩, hmem, hconnects⟩ := any_eq_true.mp hany
    cases request with
    | ensureConnected config =>
      obtain rfl : id = serverId := by simpa [connects] using hconnects
      obtain ⟨i, hi, hget⟩ := getElem_of_mem hmem
      have hcall : calls[i]? = some ⟨id, .ensureConnected config⟩ := by
        rw [List.getElem?_eq_getElem hi, hget]
      have hperm := getElem_cons_eraseIdx_perm hi
      rw [hget] at hperm
      obtain ⟨c, hc, hcrequired⟩ := hrequired
      have hc' := required_eraseIdx hcall (by simp [required, hdown]) hc hcrequired
      have hperform : perform .connecting sessions ⟨id, .ensureConnected config⟩ =
          some (Assoc.insert sessions id ⟨config, [], Nat.zero_le _⟩, .unit) := by
        simp [perform, hlookup]
      rw [← hperm.countP_eq, countP_cons_of_neg (by simp [sendsTo])] at hsends
      intro h
      refine overflow hdown (by rw [Assoc.lookup_insert, if_pos rfl]) (Nat.zero_add _) hsends
        ⟨c, hc', hcrequired⟩ ?_ (run_call hcall hperform h)
      exact (perm_append_singleton _ _).trans hperm
    | _ => simp [connects] at hconnects

end

end Filling

/-- **One agent against the others.** Whatever the schedule, the calls for the other Nodes and every
`stop` return, exactly when no Node that is down is sent more commands than its queue has room for,
or there is no such call. -/
theorem required_calls_return_iff (down : Uuid → Bool) (sessions : Sessions κ)
    (calls : List (Call κ)) :
    Inevitably (Steps down) (Completed (calls.filter (required down)))
        (Manager.start sessions calls) ↔
      (∀ serverId, down serverId = true → Fits sessions calls serverId) ∨
        ∀ call ∈ calls, required down call = false := by
  constructor
  · intro h
    by_contra hnot
    obtain ⟨⟨serverId, hdown, hfits⟩, call, hcall, hrequired⟩ :
        (∃ serverId, down serverId = true ∧ ¬ Fits sessions calls serverId) ∧
          ∃ call ∈ calls, required down call = true := by
      simpa using hnot
    exact overflow_of_not_fits hdown hfits ⟨call, hcall, hrequired⟩ h
  · rintro (hfits | hnone)
    · exact (inevitably_completed hfits).mono fun hm => (filter_sublist.subperm).trans hm
    · refine .now ?_
      rw [Completed, filter_eq_nil_iff.mpr fun call hcall => by simp [hnone call hcall]]
      exact nil_subperm

def offNode : Uuid := Uuid.nil

def upNode : Uuid := Uuid.max

def offSession : Sessions Unit :=
  [(offNode, ⟨⟨"wss://10.0.0.9:8443", "VibeSSH", "1.0.0", none, none⟩, [],
    Nat.zero_le _⟩)]

/-- Seventeen commands for the agent that is off, and the question for the state of another Node. -/
def heldUpCalls : List (Call Unit) :=
  ⟨upNode, .stateOf⟩ :: List.replicate 17 ⟨offNode, .sendCommand ()⟩

theorem full_queue_holds_up_other_node :
    ¬ Inevitably (Steps (· == offNode)) (Completed [⟨upNode, .stateOf⟩])
      (Manager.start offSession heldUpCalls) := by
  have hfits : ¬ Fits offSession heldUpCalls offNode := by
    rw [fits_some rfl]
    decide
  have hrequired : ∃ call ∈ heldUpCalls, required (· == offNode) call = true :=
    ⟨⟨upNode, .stateOf⟩, mem_cons_self, by decide⟩
  refine overflow_of_not_fits ?_ hfits hrequired
  exact beq_self_eq_true offNode

end VibeSsh.AgentSessions
