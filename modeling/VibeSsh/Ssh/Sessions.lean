import VibeSsh.Lib.Run
import VibeSsh.Models

/-! # Server rows and cached sessions

`services::server_service` edits the rows, `services::ssh_service` runs operations over sessions it
caches by server id. A session keeps the endpoint it was made to; the row may move on. What the
network answers (the handshake, the body of an operation, the keyring) is part of the label. -/

namespace VibeSsh.Sessions

open Lib

structure ServerInput where
  name : Text
  host : Text
  sshPort : UInt16
  username : Text
  authenticationType : AuthenticationType
  privateKeyPath : Option Text
  groupId : Option Uuid
  password : Option Text
  keyPassphrase : Option Text
  deriving DecidableEq

structure Session where
  serial : Nat
  server : Uuid
  endpoint : Endpoint
  deriving DecidableEq

/-- The stored rows, the applications that hold a server in place, and the sessions. -/
structure World where
  servers : Uuid → Option Server
  attached : Uuid → List Text
  cache : Uuid → Option Session
  openSessions : List Session
  serial : Nat

/-! ## Editing rows -/

def nonBlank (value : Option Text) : Option Text :=
  (value.map Text.trim).filter fun s => !s.isEmpty

def validateCommon (input : ServerInput) : AppResult Unit :=
  if (Text.trim input.name).isEmpty then
    .error (.invalidInput "server name cannot be empty")
  else if (Text.trim input.host).isEmpty then
    .error (.invalidInput "host cannot be empty")
  else if (Text.trim input.username).isEmpty then
    .error (.invalidInput "username cannot be empty")
  else if input.sshPort = 0 then
    .error (.invalidInput "SSH port must be between 1 and 65535")
  else if input.authenticationType = .privateKey ∧ nonBlank input.privateKeyPath = none then
    .error (.invalidInput
      "a private key file path is required for key-based authentication")
  else .ok ()

def validateSecretPresentForCreate (input : ServerInput) : AppResult Unit :=
  if input.authenticationType = .password ∧ nonBlank input.password = none then
    .error (.invalidInput "a password is required for password authentication")
  else .ok ()

def ServerInput.row (input : ServerInput) : Server :=
  ⟨input.name, input.host, input.sshPort, input.username, input.authenticationType,
    input.privateKeyPath, input.groupId⟩

section

variable (w : World)

variable (id : Uuid)

def World.setRow (row : Option Server) : World :=
  { w with servers := Function.update w.servers id row }

def persistSecrets (input : ServerInput) (store : Option AppError) : AppResult Unit :=
  match store with
  | some e =>
    if nonBlank input.password = none ∧ nonBlank input.keyPassphrase = none then .ok ()
    else .error e
  | none => .ok ()

def createServer (input : ServerInput) (store : Option AppError) :
    AppResult Unit × World :=
  match validateCommon input, validateSecretPresentForCreate input, w.servers id with
  | .error e, _, _ => (.error e, w)
  | .ok _, .error e, _ => (.error e, w)
  | .ok _, .ok _, some _ => (.error (.storage "failed to insert server"), w)
  | .ok _, .ok _, none => (persistSecrets input store, w.setRow id (some input.row))

def updateServer (input : ServerInput) (store : Option AppError) :
    AppResult Unit × World :=
  match validateCommon input, w.servers id with
  | .error e, _ => (.error e, w)
  | .ok _, none => (.error (.notFound ("server " ++ id.display)), w)
  | .ok _, some _ => (persistSecrets input store, w.setRow id (some input.row))

def deleteServer : AppResult Unit × World :=
  if w.attached id ≠ [] then
    (.error (.serverHasApplications (((w.servers id).map (·.name)).getD id.display)
      (Text.join ", " (w.attached id))), w)
  else
    match w.servers id with
    | none => (.error (.notFound ("server " ++ id.display)), w)
    | some _ => (.ok (), w.setRow id none)

/-! ## Running operations -/

/-- What the network answers to one attempt: to the connect, if there is one, and to the body. -/
structure Attempt where
  connect : Option AppError
  body : Option AppError
  deriving DecidableEq

def World.insert (session : Session) : World :=
  { w with
    cache := Function.update w.cache id (some session)
    openSessions := session :: w.openSessions
    serial := w.serial + 1 }

def World.remove : World :=
  match w.cache id with
  | none => w
  | some session =>
    { w with
      cache := Function.update w.cache id none
      openSessions := w.openSessions.filter (· ≠ session) }

def getOrConnect (connect : Option AppError) :
    AppResult Session × World :=
  match w.cache id with
  | some session => (.ok session, w)
  | none =>
    match w.servers id, connect with
    | none, _ => (.error (.notFound ("server " ++ id.display)), w)
    | some _, some e => (.error e, w)
    | some row, none =>
      (.ok ⟨w.serial, id, row.endpoint⟩, w.insert id ⟨w.serial, id, row.endpoint⟩)

/-- A step's result, the sessions it ran over, and the world it leaves. -/
structure Outcome where
  result : AppResult Unit
  used : List Session
  world : World

def attempt (a : Attempt) : Outcome :=
  match getOrConnect w id a.connect with
  | (.error e, w') => ⟨.error e, [], w'⟩
  | (.ok session, w') =>
    match a.body with
    | none => ⟨.ok (), [session], w'⟩
    | some e => ⟨.error e, [session], w'⟩

/-- `retry_on_connection_failure`: one reconnect, and only for a transport failure. -/
def retryOnConnectionFailure (first second : Attempt) : Outcome :=
  let one := attempt w id first
  match one.result with
  | .ok _ => one
  | .error e =>
    if !e.isTransportFailure then one
    else
      let two := attempt (one.world.remove id) id second
      ⟨two.result, one.used ++ two.used, two.world⟩

inductive Op where
  | create (id : Uuid) (input : ServerInput) (store : Option AppError)
  | update (id : Uuid) (input : ServerInput) (store : Option AppError)
  | delete (id : Uuid)
  | operate (id : Uuid) (retries : Bool) (first second : Attempt)
  deriving DecidableEq

def exec : Op → Outcome
  | .create id input store => let r := createServer w id input store; ⟨r.1, [], r.2⟩
  | .update id input store => let r := updateServer w id input store; ⟨r.1, [], r.2⟩
  | .delete id => let r := deleteServer w id; ⟨r.1, [], r.2⟩
  | .operate id retries first second =>
    if retries then retryOnConnectionFailure w id first second else attempt w id first

def next (op : Op) : World := (exec w op).world

end

/-! ## Sessions that agree with the rows -/

/-- The session was made to what the row of `id` says now. -/
def Reaches (servers : Uuid → Option Server) (id : Uuid) (session : Session) : Prop :=
  session.server = id ∧ ∃ row, servers id = some row ∧ session.endpoint = row.endpoint

structure Consistent (w : World) : Prop where
  cached : ∀ {id session}, w.cache id = some session → Reaches w.servers id session
  openCached : ∀ {session}, session ∈ w.openSessions → w.cache session.server = some session

variable {w : World} {id : Uuid}

/-- A row may be replaced when nothing is cached for it or its endpoint stays. -/
theorem Consistent.setRow (h : Consistent w) {row : Option Server} (hrow : w.cache id = none ∨
      (w.servers id).map (·.endpoint) = row.map (·.endpoint)) : Consistent (w.setRow id row) := by
  refine ⟨fun {i session} hc => ?_, fun hs => h.openCached hs⟩
  obtain ⟨hserver, old, hold, hend⟩ := h.cached hc
  refine ⟨hserver, ?_⟩
  by_cases hi : i = id
  · subst hi
    rcases hrow with hnone | hsame
    · rw [show w.cache i = some session from hc] at hnone
      cases hnone
    · rw [hold] at hsame
      obtain ⟨new, hnew, hend'⟩ := Option.map_eq_some_iff.mp hsame.symm
      exact ⟨new, by simp [World.setRow, hnew], hend.trans hend'.symm⟩
  · exact ⟨old, by simpa [World.setRow, hi] using hold, hend⟩

theorem Consistent.insert (h : Consistent w) {session : Session}
    (hnone : w.cache id = none) (hs : Reaches w.servers id session) :
    Consistent (w.insert id session) := by
  have hserver := hs.1
  constructor
  · intro i s hc
    by_cases hi : i = id
    · subst hi
      obtain rfl : session = s := by simpa [World.insert] using hc
      exact hs
    · exact h.cached (by simpa [World.insert, hi] using hc)
  · intro s hmem
    rcases List.mem_cons.mp hmem with rfl | hmem
    · simp [World.insert, hserver]
    · have hc := h.openCached hmem
      have hne : s.server ≠ id := fun he => by simp [he, hnone] at hc
      simpa [World.insert, hne] using hc

theorem Consistent.remove (h : Consistent w) (id : Uuid) : Consistent (w.remove id) := by
  unfold World.remove
  split
  · exact h
  · next session hsession =>
    constructor
    · intro i s hc
      by_cases hi : i = id
      · simp [hi] at hc
      · exact h.cached (by simpa [hi] using hc)
    · intro s hmem
      obtain ⟨hmem, hne⟩ := List.mem_filter.mp hmem
      have hc := h.openCached hmem
      have hserver : s.server ≠ id := fun he => by
        rw [he, hsession] at hc
        simp_all
      simpa [hserver] using hc

@[simp] theorem servers_remove (w : World) (id : Uuid) : (w.remove id).servers = w.servers := by
  unfold World.remove
  split <;> rfl

/-- What an operation may do: use sessions to the current row, leave the rows, stay consistent. -/
structure Outcome.Sound (w : World) (id : Uuid) (o : Outcome) : Prop where
  used : ∀ session ∈ o.used, Reaches w.servers id session
  servers : o.world.servers = w.servers
  consistent : Consistent o.world

theorem getOrConnect_sound {w' : World} (h : Consistent w)
    {connect : Option AppError} {r : AppResult Session} (hg : getOrConnect w id connect = (r, w')) :
    (∀ session, r = .ok session → Reaches w.servers id session) ∧ w'.servers = w.servers ∧
      Consistent w' := by
  unfold getOrConnect at hg
  split at hg
  · next session hc =>
    cases hg
    refine ⟨?_, rfl, h⟩
    rintro s ⟨⟩
    exact h.cached hc
  · next hnone =>
    split at hg <;> cases hg
    · exact ⟨by simp, rfl, h⟩
    · exact ⟨by simp, rfl, h⟩
    · next row hrow =>
      have hreach : Reaches w.servers id ⟨w.serial, id, row.endpoint⟩ := ⟨rfl, row, hrow, rfl⟩
      refine ⟨?_, rfl, h.insert hnone hreach⟩
      rintro s ⟨⟩
      exact hreach

theorem attempt_sound (h : Consistent w) (id : Uuid) (a : Attempt) :
    (attempt w id a).Sound w id := by
  unfold attempt
  split
  · next e w' hg =>
    obtain ⟨-, hservers, hc⟩ := getOrConnect_sound h hg
    exact ⟨by simp, hservers, hc⟩
  · next session w' hg =>
    obtain ⟨hreach, hservers, hc⟩ := getOrConnect_sound h hg
    split <;> exact ⟨by simpa using hreach session rfl, hservers, hc⟩

theorem retry_sound (h : Consistent w) (id : Uuid) (first second : Attempt) :
    (retryOnConnectionFailure w id first second).Sound w id := by
  have hone := attempt_sound h id first
  unfold retryOnConnectionFailure
  dsimp only
  split
  · exact hone
  · split
    · exact hone
    · have htwo := attempt_sound (hone.consistent.remove id) id second
      have hservers : ((attempt w id first).world.remove id).servers = w.servers := by
        rw [servers_remove, hone.servers]
      refine ⟨fun session hs => ?_, htwo.servers.trans hservers, htwo.consistent⟩
      rcases List.mem_append.mp hs with hs | hs
      · exact hone.used session hs
      · exact hservers ▸ htwo.used session hs

theorem operate_sound (h : Consistent w) (id : Uuid) (retries : Bool)
    (first second : Attempt) : (exec w (.operate id retries first second)).Sound w id := by
  cases retries with
  | true => exact retry_sound h id first second
  | false => exact attempt_sound h id first

/-! ## Every run -/

/-- An edit that moves the endpoint, and a deletion, find no session cached. -/
def NoSessionLeft (w : World) : Op → Prop
  | .create _ _ _ => True
  | .update id input _ =>
    w.cache id = none ∨ (w.servers id).map (·.endpoint) = some input.row.endpoint
  | .delete id => w.cache id = none
  | .operate _ _ _ _ => True

instance (w : World) (op : Op) : Decidable (NoSessionLeft w op) := by
  cases op <;> unfold NoSessionLeft <;> infer_instance

theorem create_consistent (h : Consistent w) (id : Uuid) (input : ServerInput)
    (store : Option AppError) : Consistent (createServer w id input store).2 := by
  unfold createServer
  split <;> try exact h
  · next hnone =>
    refine h.setRow (.inl ?_)
    -- no row, so nothing can be cached for it
    cases hc : w.cache id with
    | none => rfl
    | some session =>
      obtain ⟨-, row, hrow, -⟩ := h.cached hc
      simp_all

theorem next_consistent {w' : World} {op : Op} (h : Consistent w) (hok : NoSessionLeft w op)
    (hnext : w' = next w op) : Consistent w' := by
  subst hnext
  cases op with
  | create id input store => exact create_consistent h id input store
  | update id input store =>
    simp only [next, exec, updateServer]
    split <;> try exact h
    exact h.setRow hok
  | delete id =>
    simp only [next, exec, deleteServer]
    split
    · exact h
    · split
      · exact h
      · exact h.setRow (.inl hok)
  | operate id retries first second => exact (operate_sound h id retries first second).consistent

/-- The application has just started: any rows, no session. -/
def started (servers : Uuid → Option Server) (attached : Uuid → List Text) : World :=
  ⟨servers, attached, fun _ => none, [], 0⟩

/-- **Operations run over connections to the row on record, in every run that edits and deletes
servers only while no session to them is cached.** Neither `update_server` nor `delete_server` drops
the cached session. -/
theorem operations_reach_current_row {servers : Uuid → Option Server}
    {attached : Uuid → List Text} {trace : List (Transition World Op)} {w : World}
    (hrun : Run (fun w op w' => w' = next w op) (started servers attached) trace w)
    (hok : ∀ x ∈ trace, NoSessionLeft x.pre x.label) :
    (∀ x ∈ trace, ∀ id retries first second, x.label = .operate id retries first second →
      ∀ session ∈ (exec x.pre x.label).used, Reaches x.pre.servers id session) ∧
    (∀ x ∈ trace, ∀ session ∈ x.post.openSessions, (x.post.servers session.server).isSome) := by
  obtain ⟨-, hall⟩ := hrun.invariant Consistent NoSessionLeft next_consistent
    ⟨by simp [started], by simp [started]⟩ hok
  constructor
  · intro x hx id retries first second hlabel session hs
    rw [hlabel] at hs
    exact (operate_sound (hall x hx).1 id retries first second).used session hs
  · intro x hx session hs
    obtain ⟨-, row, hrow, -⟩ := (hall x hx).2.2.cached ((hall x hx).2.2.openCached hs)
    simp [hrow]

def productionAt (host : Text) : ServerInput :=
  ⟨"Production", host, 22, "root", .password, none, none, some "hunter2", none⟩

/-- The server moves after a failed reconnect has emptied the cache. -/
def moveAfterFailedReconnect : List Op :=
  [.create .nil (productionAt "203.0.113.10") none,
    .operate .nil true ⟨none, none⟩ ⟨none, none⟩,
    .operate .nil true ⟨none, some (.connection "channel closed")⟩
      ⟨some (.connection "no route to host"), none⟩,
    .update .nil (productionAt "203.0.113.20") none,
    .operate .nil true ⟨none, none⟩ ⟨none, none⟩]

theorem moveAfterFailedReconnect_reaches :
    let trace := traceOf next (started (fun _ => none) fun _ => []) moveAfterFailedReconnect
    (∀ x ∈ trace, NoSessionLeft x.pre x.label) ∧
      ∀ x ∈ trace, ∀ id retries first second, x.label = .operate id retries first second →
        ∀ session ∈ (exec x.pre x.label).used, Reaches x.pre.servers id session := by
  have hok : ∀ x ∈ traceOf next (started (fun _ => none) fun _ => []) moveAfterFailedReconnect,
      NoSessionLeft x.pre x.label := by
    decide
  exact ⟨hok, (operations_reach_current_row (run_traceOf next _ moveAfterFailedReconnect) hok).1⟩

/-- The same move with the session still cached. -/
def moveWhileConnected : List Op :=
  [.create .nil (productionAt "203.0.113.10") none,
    .operate .nil true ⟨none, none⟩ ⟨none, none⟩,
    .update .nil (productionAt "203.0.113.20") none]

theorem stale_session_used_and_kept :
    let moved := moveWhileConnected.foldl next (started (fun _ => none) fun _ => [])
    (moved.servers .nil).map (·.host) = some "203.0.113.20".toList ∧
      (exec moved (.operate .nil true ⟨none, none⟩ ⟨none, none⟩)).used.map (·.endpoint.host) =
        ["203.0.113.10".toList] ∧
      (exec moved (.delete .nil)).result = .ok () ∧
      (next moved (.delete .nil)).servers .nil = none ∧
      (next moved (.delete .nil)).openSessions.map (·.server) = [.nil] := by
  decide

end VibeSsh.Sessions
