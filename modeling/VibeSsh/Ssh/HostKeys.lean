import VibeSsh.Lib.Run
import VibeSsh.Models

/-! # Host keys

`ssh::client` as far as it decides which host key a connection may be made with, and
`ssh_service::get_or_connect` as far as it keeps that decision: the fingerprint recorded at the first
connection, and the kind of the key. A server holds several kinds of key and may prefer to show
another one than the recorded; on a mismatch the others are asked for in turn. What the peers do, the
keyring and the store's failures are part of the label. -/

open List

namespace VibeSsh.HostKeys

open Lib

inductive HostKeyFamily where
  | ed25519
  | ecdsa
  | rsa
  deriving DecidableEq

inductive EcdsaCurve where
  | nistP256
  | nistP384
  | nistP521
  deriving DecidableEq

inductive HashAlg where
  | sha256
  | sha512
  deriving DecidableEq

inductive Algorithm where
  | ed25519
  | ecdsa (curve : EcdsaCurve)
  | rsa (hash : Option HashAlg)
  | other (name : Text)
  deriving DecidableEq

variable {family : HostKeyFamily}

namespace HostKeyFamily

def all : List HostKeyFamily := [.ed25519, .ecdsa, .rsa]

def of : Algorithm → Option HostKeyFamily
  | .ed25519 => some .ed25519
  | .ecdsa _ => some .ecdsa
  | .rsa _ => some .rsa
  | .other _ => none

def algorithms : HostKeyFamily → List Algorithm
  | .ed25519 => [.ed25519]
  | .ecdsa => [.ecdsa .nistP256, .ecdsa .nistP384, .ecdsa .nistP521]
  | .rsa => [.rsa (some .sha512), .rsa (some .sha256)]

theorem of_mem_algorithms {a : Algorithm} (h : a ∈ family.algorithms) : of a = some family := by
  cases family <;> simp only [algorithms, mem_cons, not_mem_nil, or_false] at h
  · rw [h]; rfl
  · rcases h with rfl | rfl | rfl <;> rfl
  · rcases h with rfl | rfl <;> rfl

theorem exists_mem_algorithms (family : HostKeyFamily) : ∃ a, a ∈ family.algorithms := by
  cases family <;> exact ⟨_, mem_cons_self⟩

end HostKeyFamily

open HostKeyFamily (of)

structure KnownHostKey where
  fingerprint : Text
  family : Option HostKeyFamily
  deriving DecidableEq

/-- The SSH library's own host-key preference, which offers every kind. -/
structure Library where
  keys : List Algorithm
  offers : ∀ family, ∃ a ∈ keys, of a = some family

variable (library : Library)

def keyPreference : Option HostKeyFamily → List Algorithm
  | none => library.keys
  | some family =>
    let parts := library.keys.partition fun a => of a = some family
    parts.1 ++ parts.2

/-! ## One handshake -/

structure PublicKey where
  algorithm : Algorithm
  fingerprint : Text
  deriving DecidableEq

/-- What one attempt meets. A peer that shows a key signs the exchange with its private half or does
not. -/
inductive Meeting where
  | timeout
  | broken (error : Text)
  | shown (key : PublicKey) (signs : Bool) (error : Text)

structure SeenHostKey where
  fingerprint : Option Text
  family : Option HostKeyFamily
  mismatched : Bool

def checkServerKey (expected : Option Text) (key : PublicKey) : Bool × SeenHostKey :=
  let seen : SeenHostKey := ⟨some key.fingerprint, of key.algorithm, false⟩
  match expected with
  | none => (true, seen)
  | some fingerprint =>
    if fingerprint = key.fingerprint then (true, seen) else (false, { seen with mismatched := true })

/-- A connection whose handshake is done: the key its peer showed, and whether it signed with it. -/
structure Connection where
  key : PublicKey
  signed : Bool
  deriving DecidableEq

def classifyConnectError (error : Text) (seen : SeenHostKey) (host : Text) (expected : Option Text) :
    AppError :=
  if seen.mismatched then .hostKeyMismatch host none expected seen.fingerprint
  else .connection ("SSH connection failed: " ++ error)

def connectTimeout : Nat := 15

/-- A handshake is completed only with a key that passed the check and that the peer signed with. -/
def handshake (host : Text) (expected : Option Text) (meeting : Meeting) :
    Except (AppError × Option HostKeyFamily) Connection :=
  match meeting with
  | .timeout => .error (.timeout "connecting" connectTimeout, none)
  | .broken error => .error (classifyConnectError error ⟨none, none, false⟩ host expected, none)
  | .shown key signs error =>
    let checked := checkServerKey expected key
    if checked.1 && signs then .ok ⟨key, signs⟩
    else .error (classifyConnectError error checked.2 host expected, checked.2.family)

/-! ## The recorded key among several -/

/-- Each attempt by its number and the algorithms offered. -/
abbrev Peers := Nat → List Algorithm → Meeting

def askOthers (host : Text) (peers : Peers) (expected : Option Text) (mismatch : AppError)
    (number : Nat) : List HostKeyFamily → AppResult (Connection × Option HostKeyFamily)
  | [] => .error mismatch
  | family :: rest =>
    match handshake host expected (peers number family.algorithms) with
    | .ok connection => .ok (connection, some family)
    | .error _ => askOthers host peers expected mismatch (number + 1) rest

def handshakeWithKnownKey (host : Text) (peers : Peers)
    (known : Option KnownHostKey) : AppResult (Connection × Option HostKeyFamily) :=
  let expected := known.map (·.fingerprint)
  let preference := keyPreference library (known.bind (·.family))
  match handshake host expected (peers 0 preference) with
  | .ok connection => .ok (connection, of connection.key.algorithm)
  | .error (.hostKeyMismatch host' server expected' presented, shown) =>
    askOthers host peers expected (.hostKeyMismatch host' server expected' presented) 1
      (HostKeyFamily.all.filter fun family => some family ≠ shown)
  | .error (error, _) => .error error

/-! ## Connecting -/

structure ConnectOutcome where
  connection : Connection
  hostKeyFingerprint : Text
  hostKeyFamily : Option HostKeyFamily

/-- The connections a login was attempted on, and what came of it. -/
structure Connecting (α : Type) where
  logins : List Connection
  result : AppResult α

def loginMethod : AuthenticationType → Text
  | .password => "password"
  | .privateKey => "key"

def connectKnown (row : Server) (peers : Peers) (auth : AppResult Bool)
    (known : Option KnownHostKey) : Connecting ConnectOutcome :=
  match handshakeWithKnownKey library row.host peers known with
  | .error e => ⟨[], .error e⟩
  | .ok (connection, family) =>
    ⟨[connection],
      match auth with
      | .error e => .error e
      | .ok false => .error (.sshAuthRejected row.username (loginMethod row.authenticationType) none)
      | .ok true => .ok ⟨connection, connection.key.fingerprint, family⟩⟩

/-- The rows, the recorded keys and the cached sessions. -/
structure Store where
  servers : Uuid → Option Server
  known : Uuid → Option KnownHostKey
  cached : Uuid → Option Connection

variable (st : Store)

def Store.setFingerprint (server : Uuid) (fingerprint : Text) : Store :=
  { st with known := Function.update st.known server (some ⟨fingerprint, none⟩) }

def Store.setFamily (server : Uuid) (family : HostKeyFamily) : Store :=
  { st with
    known := Function.update st.known server
      ((st.known server).map fun k => { k with family := some family }) }

/-- One call of `get_or_connect`, with everything it depends on outside the store. -/
structure Dial where
  server : Uuid
  credentials : AppResult Unit
  peers : Peers
  auth : AppResult Bool
  recordKey : AppResult Unit
  recordFamily : AppResult Unit

/-- The errors that name the server. -/
def forServer (server : Uuid) : AppError → AppError
  | .sshAuthRejected username method _ => .sshAuthRejected username method (some server)
  | .hostKeyMismatch host _ expected presented =>
    .hostKeyMismatch host (some server) expected presented
  | e => e

/-- A failure to record the kind is only logged. -/
def recordFamily (d : Dial) (known : Option KnownHostKey)
    (family : Option HostKeyFamily) : Store :=
  match family, d.recordFamily with
  | some family, .ok _ =>
    if some family ≠ known.bind (·.family) then st.setFamily d.server family else st
  | _, _ => st

/-- The first connection records the fingerprint; that failing fails the call. -/
def recordKey (d : Dial) (known : Option KnownHostKey) (fingerprint : Text) :
    AppResult Store :=
  match known, d.recordKey with
  | some _, _ => .ok st
  | none, .ok _ => .ok (st.setFingerprint d.server fingerprint)
  | none, .error e => .error e

def getOrConnect (d : Dial) : Connecting Connection × Store :=
  match st.cached d.server with
  | some connection => (⟨[], .ok connection⟩, st)
  | none =>
    match st.servers d.server, d.credentials with
    | none, _ => (⟨[], .error (.notFound ("server " ++ d.server.display))⟩, st)
    | some _, .error e => (⟨[], .error e⟩, st)
    | some row, .ok _ =>
      let known := st.known d.server
      let attempt := connectKnown library row d.peers d.auth known
      match attempt.result with
      | .error e => (⟨attempt.logins, .error (forServer d.server e)⟩, st)
      | .ok outcome =>
        match recordKey st d known outcome.hostKeyFingerprint with
        | .error e => (⟨attempt.logins, .error e⟩, st)
        | .ok recorded =>
          let done := recordFamily recorded d known outcome.hostKeyFamily
          (⟨attempt.logins, .ok outcome.connection⟩,
            { done with cached := Function.update done.cached d.server (some outcome.connection) })

/-- Connections are opened and lost. -/
inductive Op where
  | dial (d : Dial)
  | drop (server : Uuid)

def next : Op → Store
  | .dial d => (getOrConnect library st d).2
  | .drop server => { st with cached := Function.update st.cached server none }

/-- The logins one operation attempts on a server. -/
def logins (server : Uuid) : Op → List Connection
  | .dial d => if d.server = server then (getOrConnect library st d).1.logins else []
  | .drop _ => []

def recorded (server : Uuid) : Option Text := (st.known server).map (·.fingerprint)

/-! ## Only the recorded key -/

/-- The peer showed the key with this fingerprint and signed with it. -/
def Proves (connection : Connection) (fingerprint : Text) : Prop :=
  connection.key.fingerprint = fingerprint ∧ connection.signed = true

variable {connection : Connection} {host fingerprint : Text}

theorem handshake_ok {meeting : Meeting}
    (h : handshake host (some fingerprint) meeting = .ok connection) :
    Proves connection fingerprint := by
  cases meeting with
  | timeout => cases h
  | broken error => cases h
  | shown key signs error =>
    unfold handshake checkServerKey at h
    by_cases heq : fingerprint = key.fingerprint
    · cases signs with
      | false => simp [heq] at h
      | true =>
        simp only [heq, if_true, Bool.and_self] at h
        cases h
        exact ⟨heq.symm, rfl⟩
    · simp [heq] at h

variable {families : List HostKeyFamily}

theorem askOthers_ok {peers : Peers} {mismatch : AppError} {number : Nat}
    {family : Option HostKeyFamily}
    (h : askOthers host peers (some fingerprint) mismatch number families =
      .ok (connection, family)) : Proves connection fingerprint := by
  induction families generalizing number with
  | nil => cases h
  | cons f rest ih =>
    unfold askOthers at h
    split at h
    · next c hc =>
      cases h
      exact handshake_ok hc
    · exact ih h

theorem handshakeWithKnownKey_ok {library : Library} {peers : Peers}
    {k : KnownHostKey} {family : Option HostKeyFamily}
    (h : handshakeWithKnownKey library host peers (some k) = .ok (connection, family)) :
    Proves connection k.fingerprint := by
  unfold handshakeWithKnownKey at h
  dsimp only [Option.map_some] at h
  split at h
  · next c hc =>
    cases h
    exact handshake_ok hc
  · exact askOthers_ok h
  · cases h

theorem recorded_recordFamily (d : Dial) (known : Option KnownHostKey)
    (family : Option HostKeyFamily) (server : Uuid) :
    recorded (recordFamily st d known family) server = recorded st server := by
  unfold recordFamily
  split
  · split
    · unfold Store.setFamily recorded
      dsimp only
      by_cases heq : server = d.server
      · subst heq
        rw [Function.update_self, Option.map_map]
        rfl
      · rw [Function.update_of_ne heq]
    · rfl
  · rfl

variable {server : Uuid} {fp : Text}

theorem recorded_recordKey {st st' : Store} {d : Dial}
    (h : recordKey st d (st.known d.server) fingerprint = .ok st')
    (hrecorded : recorded st server = some fp) : recorded st' server = some fp := by
  unfold recordKey at h
  split at h
  · cases h
    exact hrecorded
  · next hnone _ =>
    cases h
    have hne : server ≠ d.server := by
      rintro rfl
      rw [recorded, hnone] at hrecorded
      cases hrecorded
    unfold Store.setFingerprint
    rw [recorded] at hrecorded ⊢
    dsimp only
    rwa [Function.update_of_ne hne]
  · cases h

/-- A recorded fingerprint survives a connection, and every login on its server was proved. -/
theorem getOrConnect_recorded {st : Store} (h : recorded st server = some fp) (d : Dial) :
    recorded (getOrConnect library st d).2 server = some fp ∧
      (d.server = server → ∀ c ∈ (getOrConnect library st d).1.logins, Proves c fp) := by
  unfold getOrConnect
  split
  · exact ⟨h, fun _ _ hc => by cases hc⟩
  split
  · exact ⟨h, fun _ _ hc => by cases hc⟩
  · exact ⟨h, fun _ _ hc => by cases hc⟩
  next row _ hrow _ =>
  have hlogins : d.server = server → ∀ c ∈
      (connectKnown library row d.peers d.auth (st.known d.server)).logins, Proves c fp := by
    rintro rfl
    obtain ⟨k, hk, rfl⟩ := Option.map_eq_some_iff.mp h
    rw [hk]
    intro c hc
    unfold connectKnown at hc
    split at hc
    · cases hc
    · next connection family hshake =>
      obtain rfl := mem_singleton.mp hc
      exact handshakeWithKnownKey_ok hshake
  dsimp only
  split
  · exact ⟨h, hlogins⟩
  split
  · exact ⟨h, hlogins⟩
  next st' hst' =>
  refine ⟨?_, hlogins⟩
  have hkept := recorded_recordKey hst' h
  rw [← recorded_recordFamily st' d (st.known d.server)] at hkept
  exact hkept

theorem next_recorded {st : Store} (h : recorded st server = some fp) (op : Op) :
    recorded (next library st op) server = some fp ∧
      ∀ c ∈ logins library st server op, Proves c fp := by
  cases op with
  | dial d =>
    obtain ⟨hkept, hlogins⟩ := getOrConnect_recorded library h d
    refine ⟨hkept, fun c hc => ?_⟩
    unfold logins at hc
    dsimp only at hc
    split at hc
    · next heq => exact hlogins heq c hc
    · cases hc
  | drop other => exact ⟨h, fun c hc => by cases hc⟩

/-! ## A genuine server is accepted -/

/-- A server with at most one key of each kind. Asked with some algorithms it shows a key of one of
these kinds, if it holds any. -/
structure Genuine where
  keys : List PublicKey
  one : ∀ a ∈ keys, ∀ b ∈ keys, of a.algorithm = of b.algorithm → a = b
  shows : Nat → List Algorithm → Option PublicKey
  held : ∀ {number offered k}, shows number offered = some k →
    k ∈ keys ∧ ∃ a ∈ offered, of a = of k.algorithm
  answers : ∀ {number offered k a}, k ∈ keys → a ∈ offered → of a = of k.algorithm →
    (shows number offered).isSome

def Genuine.peers (g : Genuine) : Peers := fun number offered =>
  match g.shows number offered with
  | some key => .shown key true []
  | none => .broken "no common key algorithm"

variable {key : PublicKey}

theorem handshake_genuine {g : Genuine} {number : Nat} {offered : List Algorithm}
    (h : g.shows number offered = some key) :
    handshake host (some fp) (g.peers number offered) =
      if fp = key.fingerprint then .ok ⟨key, true⟩
      else .error (.hostKeyMismatch host none (some fp) (some key.fingerprint),
        of key.algorithm) := by
  unfold Genuine.peers handshake checkServerKey
  rw [h]
  dsimp only
  split <;> simp [classifyConnectError]

theorem keyPreference_offers (first : Option HostKeyFamily)
    (family : HostKeyFamily) : ∃ a ∈ keyPreference library first, of a = some family := by
  obtain ⟨a, ha, hof⟩ := library.offers family
  refine ⟨a, ?_, hof⟩
  cases first with
  | none => exact ha
  | some f =>
    simp only [keyPreference, partition_eq_filter_filter, mem_append, mem_filter]
    by_cases hf : of a = some f
    · exact .inl ⟨ha, by simpa using hf⟩
    · exact .inr ⟨ha, by simpa using hf⟩

theorem askOthers_genuine (g : Genuine) (hkey : key ∈ g.keys)
    (hfamily : of key.algorithm = some family) (mismatch : AppError) (hmem : family ∈ families)
    (number : Nat) :
    ∃ c f, askOthers host g.peers (some key.fingerprint) mismatch number families = .ok (c, f) := by
  induction families generalizing number with
  | nil => cases hmem
  | cons head rest ih =>
    unfold askOthers
    split
    · exact ⟨_, _, rfl⟩
    next e hfails =>
    refine ih ?_ (number + 1)
    rcases mem_cons.mp hmem with rfl | hmem
    · -- only the recorded key is of this kind, so this handshake cannot have failed
      exfalso
      obtain ⟨a, ha⟩ := family.exists_mem_algorithms
      have hof := HostKeyFamily.of_mem_algorithms ha
      obtain ⟨shown, hshown⟩ := Option.isSome_iff_exists.mp
        (@g.answers number _ _ _ hkey ha (hof.trans hfamily.symm))
      obtain ⟨hheld, b, hb, hkind⟩ := g.held hshown
      obtain rfl : shown = key := by
        refine g.one shown hheld key hkey ?_
        rw [← hkind, HostKeyFamily.of_mem_algorithms hb, hfamily]
      rw [handshake_genuine hshown, if_pos rfl] at hfails
      cases hfails
    · exact hmem

/-- The recorded key is found, whatever the server shows first. -/
theorem handshakeWithKnownKey_genuine (g : Genuine) (host : Text)
    {k : KnownHostKey} (hkey : key ∈ g.keys)
    (hfingerprint : key.fingerprint = k.fingerprint) (hfamily : of key.algorithm = some family) :
    ∃ c f, handshakeWithKnownKey library host g.peers (some k) = .ok (c, f) := by
  obtain ⟨a, ha, hof⟩ := keyPreference_offers library k.family family
  obtain ⟨shown, hshown⟩ := Option.isSome_iff_exists.mp
    (@g.answers 0 _ _ _ hkey ha (hof.trans hfamily.symm))
  unfold handshakeWithKnownKey
  simp only [Option.map_some, Option.bind_some, handshake_genuine hshown]
  by_cases heq : k.fingerprint = shown.fingerprint
  · rw [if_pos heq]
    exact ⟨_, _, rfl⟩
  · rw [if_neg heq, ← hfingerprint]
    have hother : some family ≠ of shown.algorithm := by
      intro hsame
      have := g.one shown (g.held hshown).1 key hkey (hsame.symm.trans hfamily.symm)
      exact heq (this ▸ hfingerprint.symm)
    refine askOthers_genuine g hkey hfamily _ ?_ 1
    exact mem_filter.mpr ⟨by cases family <;> decide, by simpa using hother⟩

/-! ## Pinned -/

/-- **Host keys are pinned.** Along any connections to any peers, a recorded fingerprint stays,
every login is made to a peer that proved the key, and a genuine server that holds it is accepted.
-/
theorem host_key_pinned {st st' : Store} {trace : List (Transition Store Op)}
    (h : Run (fun st op st' => st' = next library st op) st trace st') {server : Uuid}
    {k : KnownHostKey} (hk : st.known server = some k) :
    recorded st' server = some k.fingerprint ∧
    (∀ x ∈ trace, recorded x.post server = some k.fingerprint ∧
      ∀ c ∈ logins library x.pre server x.label, Proves c k.fingerprint) ∧
    ∀ (g : Genuine) (host : Text) (key : PublicKey) (family : HostKeyFamily), key ∈ g.keys →
      key.fingerprint = k.fingerprint → of key.algorithm = some family →
      ∃ c f, handshakeWithKnownKey library host g.peers (st'.known server) = .ok (c, f) ∧
        Proves c k.fingerprint := by
  have hrecorded : recorded st server = some k.fingerprint := by
    rw [recorded, hk]
    rfl
  obtain ⟨hend, hall⟩ := Run.invariant (fun st => recorded st server = some k.fingerprint)
    (fun _ _ => True) (by rintro st op _ hinv - rfl; exact (next_recorded library hinv op).1)
    h hrecorded fun _ _ => trivial
  refine ⟨hend, fun x hx => ⟨(hall x hx).2.2, (next_recorded library (hall x hx).1 x.label).2⟩, ?_⟩
  intro g host key family hkey hfingerprint hfamily
  obtain ⟨k', hk', hsame⟩ := Option.map_eq_some_iff.mp hend
  rw [hk']
  obtain ⟨c, f, hok⟩ := handshakeWithKnownKey_genuine library g host hkey
    (hfingerprint.trans hsame.symm) hfamily
  exact ⟨c, f, hok, hsame ▸ handshakeWithKnownKey_ok hok⟩

/-- The kinds the library offers, in its own order. -/
def plainLibrary : Library where
  keys := HostKeyFamily.all.flatMap HostKeyFamily.algorithms
  offers := fun family => by cases family <;> decide

def rsaKey : PublicKey := ⟨.rsa (some .sha512), "SHA256:rsa"⟩

def ecdsaKey : PublicKey := ⟨.ecdsa .nistP256, "SHA256:ecdsa"⟩

def twoKeys : Genuine where
  keys := [ecdsaKey, rsaKey]
  one := by decide
  shows := fun _ offered => [ecdsaKey, rsaKey].find? fun k => offered.any fun a => of a = of k.algorithm
  held := by
    intro number offered k h
    have hany := List.find?_some h
    simp only [any_eq_true, decide_eq_true_eq] at hany
    exact ⟨mem_of_find?_eq_some h, hany⟩
  answers := by
    intro number offered k a hk ha hof
    rw [List.find?_isSome]
    exact ⟨k, hk, by simp only [any_eq_true, decide_eq_true_eq]; exact ⟨a, ha, hof⟩⟩

def sampleRow : Server :=
  ⟨"node", "203.0.113.5", 22, "root", .password, none, none⟩

/-- The RSA key is recorded, without its kind. -/
def rsaRecorded : Store :=
  ⟨fun _ => some sampleRow, fun _ => some ⟨rsaKey.fingerprint, none⟩, fun _ => none⟩

/-- An interceptor is met first and the server itself afterwards. -/
def interceptedThenGenuine : List Op :=
  [.dial ⟨Uuid.nil, .ok (), fun _ _ => .shown ⟨.ed25519, "SHA256:other"⟩ true [], .ok true,
      .ok (), .ok ()⟩,
    .dial ⟨Uuid.nil, .ok (), twoKeys.peers, .ok true, .ok (), .ok ()⟩]

theorem rsa_key_kept_and_found :
    recorded (interceptedThenGenuine.foldl (next plainLibrary) rsaRecorded) Uuid.nil =
        some rsaKey.fingerprint ∧
      ∃ c f, handshakeWithKnownKey plainLibrary sampleRow.host twoKeys.peers
          ((interceptedThenGenuine.foldl (next plainLibrary) rsaRecorded).known Uuid.nil) =
            .ok (c, f) ∧ Proves c rsaKey.fingerprint := by
  obtain ⟨hend, -, hgenuine⟩ := host_key_pinned plainLibrary
    (run_traceOf (next plainLibrary) rsaRecorded interceptedThenGenuine)
    (rfl : rsaRecorded.known Uuid.nil = some ⟨rsaKey.fingerprint, none⟩)
  exact ⟨hend, hgenuine twoKeys sampleRow.host rsaKey .rsa (by decide) rfl rfl⟩

end VibeSsh.HostKeys
