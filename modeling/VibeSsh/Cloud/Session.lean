import VibeSsh.Basic
import VibeSsh.Lib.Run

/-! # The cloud session

`state::cloud_session` and `services::cloud_service`: the client for the configured backend, the
access token in memory, the refresh token in the keyring, and the calls in flight. One step is what
runs between two await points: a section under the state's lock, which includes the request made in
it. A token remembers the address that issued it; a step reports the tokens it sent and where to.
What the backend and the keyring answer is part of the label. -/

namespace VibeSsh.Cloud

open Lib

structure Token where
  issuer : Text
  secret : Text
  deriving DecidableEq

structure CloudSession where
  accessToken : Token
  accessTokenExpiresAt : Int
  deriving DecidableEq

/-- The authenticated calls, by what they do once they hold a token. -/
inductive Call where
  | plain
  | changePassword
  | changeTwoFactor
  | aiTurn
  deriving DecidableEq

/-- Where a call in flight waits. -/
inductive Task where
  /-- `ensure_valid_access_token` has returned; the request is not sent yet. -/
  | holding (call : Call) (token : Token)
  /-- `change_password` has a new access token to put into the session. -/
  | adopting (token : Token) (expiresAt : Int)
  /-- `refresh_profile` is about to ask for the profile with the token of its caller. -/
  | rereading (token : Token)
  /-- An AI turn with the address and token `cloud_ai_endpoint` gave it. -/
  | turn (url : Text) (token : Token)
  /-- `cloud_set_backend_url` has saved the address and waits for the lock. -/
  | pointing (url : Text)
  deriving DecidableEq

structure State where
  client : Text
  session : Option CloudSession
  keyring : Option Token
  savedUrl : Text
  tasks : List Task
  deriving DecidableEq

/-- The backend's answer: a refusal, nothing, a plain success, or a pair of tokens. -/
inductive Reply where
  | refused
  | unreachable
  | accepted
  | issued (access refresh : Text) (expiresAt : Int)
  deriving DecidableEq

/-- `CloudClient::new` keeps the address without trailing slashes. -/
def baseUrl (url : Text) : Text := Text.trimEndMatches '/' url

def refreshSkewSeconds : Int := 30

/-- What a step leaves behind: the state, and each token sent with the address it went to. -/
structure Effect where
  state : State
  sent : List (Token × Text)
  deriving DecidableEq

section

variable (s : State)

def State.push (task : Task) : State := { s with tasks := task :: s.tasks }

def State.finish (task : Task) : State := { s with tasks := s.tasks.erase task }

/-- The tail of `ensure_valid_access_token`: trades the stored refresh token for a new pair. -/
def refreshSession (reply : Reply) (stored deleted : Bool) :
    AppResult Token × Effect :=
  match s.keyring with
  | none =>
    (.error (.unauthorized "not signed in to the VibeSSH cloud backend"), ⟨s, []⟩)
  | some token =>
    match reply with
    | .issued access refresh expiresAt =>
      if stored then
        (.ok ⟨s.client, access⟩,
          ⟨{ s with
              keyring := some ⟨s.client, refresh⟩
              session := some ⟨⟨s.client, access⟩, expiresAt⟩ }, [(token, s.client)]⟩)
      else
        (.error (.storage "failed to store the refresh token"), ⟨s, [(token, s.client)]⟩)
    | .refused =>
      -- deleted only when the backend rejected it
      (.error (.unauthorized "refresh token revoked"),
        ⟨if deleted then { s with keyring := none } else s, [(token, s.client)]⟩)
    | _ =>
      (.error (.connection "couldn't reach the VibeSSH cloud backend"),
        ⟨s, [(token, s.client)]⟩)

def ensureValidAccessToken (now : Int) (reply : Reply) (stored deleted : Bool) :
    AppResult Token × Effect :=
  match s.session with
  | some session =>
    if session.accessTokenExpiresAt > now + refreshSkewSeconds then
      (.ok session.accessToken, ⟨s, []⟩)
    else refreshSession s reply stored deleted
  | none => refreshSession s reply stored deleted

/-- `register` and `login`. -/
def signIn (reply : Reply) (stored : Bool) : Effect :=
  match reply with
  | .issued access refresh expiresAt =>
    if stored then
      ⟨{ s with
          keyring := some ⟨s.client, refresh⟩
          session := some ⟨⟨s.client, access⟩, expiresAt⟩ }, []⟩
    else ⟨s, []⟩
  | _ => ⟨s, []⟩

def logout (deleted : Bool) : Effect :=
  ⟨if deleted then { s with keyring := none, session := none } else s,
    (s.keyring.map fun token => (token, s.client)).toList⟩

/-- The locked section of an authenticated call, after it has taken itself off the waiting list. -/
def request (call : Call) (token : Token) (reply : Reply) (stored : Bool) : Effect :=
  match call, reply with
  | .aiTurn, _ => ⟨s.push (.turn s.client token), []⟩
  | .changePassword, .issued access refresh expiresAt =>
    if stored then
      ⟨({ s with keyring := some ⟨s.client, refresh⟩ }).push
        (.adopting ⟨s.client, access⟩ expiresAt), [(token, s.client)]⟩
    else ⟨s, [(token, s.client)]⟩
  | .changeTwoFactor, .accepted => ⟨s.push (.rereading token), [(token, s.client)]⟩
  | _, _ => ⟨s, [(token, s.client)]⟩

inductive Label where
  | signIn (reply : Reply) (stored : Bool)
  | signOut (deleted : Bool)
  /-- The first half of an authenticated call; `none` is `try_restore_session`. -/
  | ensure (call : Option Call) (now : Int) (reply : Reply) (stored deleted : Bool)
  | request (call : Call) (token : Token) (reply : Reply) (stored : Bool)
  | adopt (token : Token) (expiresAt : Int)
  | reread (token : Token)
  | turnRequest (url : Text) (token : Token)
  | turnEnd (url : Text) (token : Token)
  | saveBackendUrl (url : Text)
  | setBackendUrl (url : Text)
  | restart
  deriving DecidableEq

/-- A task that is not in flight has nothing to do. -/
def whenInFlight (task : Task) (body : Effect) : Effect :=
  if task ∈ s.tasks then body else ⟨s, []⟩

def step : Label → Effect
  | .signIn reply stored => signIn s reply stored
  | .signOut deleted => logout s deleted
  | .ensure call now reply stored deleted =>
    match ensureValidAccessToken s now reply stored deleted, call with
    | (.ok token, e), some call => { e with state := e.state.push (.holding call token) }
    | (_, e), _ => e
  | .request call token reply stored =>
    whenInFlight s (.holding call token)
      (request (s.finish (.holding call token)) call token reply stored)
  | .adopt token expiresAt =>
    whenInFlight s (.adopting token expiresAt)
      ⟨{ s.finish (.adopting token expiresAt) with session := some ⟨token, expiresAt⟩ }, []⟩
  | .reread token =>
    whenInFlight s (.rereading token) ⟨s.finish (.rereading token), [(token, s.client)]⟩
  | .turnRequest url token => whenInFlight s (.turn url token) ⟨s, [(token, url)]⟩
  | .turnEnd url token => whenInFlight s (.turn url token) ⟨s.finish (.turn url token), []⟩
  | .saveBackendUrl url => ⟨({ s with savedUrl := url }).push (.pointing url), []⟩
  | .setBackendUrl url =>
    whenInFlight s (.pointing url)
      ⟨{ s.finish (.pointing url) with client := baseUrl url, session := none }, []⟩
  | .restart => ⟨⟨baseUrl s.savedUrl, none, s.keyring, s.savedUrl, []⟩, []⟩

def next (l : Label) : State := (step s l).state

end

def installed (url : Text) : State := ⟨baseUrl url, none, none, url, []⟩

/-! ## Tokens and their issuers -/

/-- The token a waiting call will send was issued where it will go: to the client's address, or to
the address the call already carries. -/
def Task.OwnedBy (client : Text) : Task → Prop
  | .holding _ token => token.issuer = client
  | .adopting token _ => token.issuer = client
  | .rereading token => token.issuer = client
  | .turn url token => token.issuer = url
  | .pointing _ => True

instance (client : Text) (task : Task) : Decidable (task.OwnedBy client) := by
  cases task <;> unfold Task.OwnedBy <;> infer_instance

/-- Every token the application holds was issued by the address its client points at. -/
structure Owned (s : State) : Prop where
  keyring : ∀ token ∈ s.keyring, token.issuer = s.client
  session : ∀ session ∈ s.session, session.accessToken.issuer = s.client
  tasks : ∀ task ∈ s.tasks, task.OwnedBy s.client

/-- A step that keeps ownership and sends each token to its issuer. -/
structure Effect.Owned (e : Effect) : Prop where
  state : Cloud.Owned e.state
  sent : ∀ p ∈ e.sent, p.1.issuer = p.2

variable {s : State}

variable {task : Task}

section

variable (h : Owned s)
include h

theorem Owned.push (ht : task.OwnedBy s.client) : Owned (s.push task) := by
  refine ⟨h.keyring, h.session, fun t hmem => ?_⟩
  rcases List.mem_cons.mp hmem with rfl | hmem
  · exact ht
  · exact h.tasks t hmem

theorem Owned.finish (task : Task) : Owned (s.finish task) :=
  ⟨h.keyring, h.session, fun t hmem => h.tasks t (List.mem_of_mem_erase hmem)⟩

theorem Owned.setKeyring {token : Option Token}
    (ht : ∀ t ∈ token, t.issuer = s.client) : Owned { s with keyring := token } :=
  ⟨ht, h.session, h.tasks⟩

/-- The pair a backend issues belongs to the address it was asked at. -/
theorem Owned.adoptPair (access refresh : Text) (expiresAt : Int) :
    Owned { s with
      keyring := some ⟨s.client, refresh⟩
      session := some ⟨⟨s.client, access⟩, expiresAt⟩ } :=
  ⟨by simp, by simp, h.tasks⟩

variable {r : AppResult Token} {reply : Reply}

theorem refreshSession_owned {stored deleted : Bool} {e : Effect}
    (hr : refreshSession s reply stored deleted = (r, e)) :
    e.Owned ∧ ∀ token, r = .ok token → token.issuer = e.state.client := by
  unfold refreshSession at hr
  split at hr
  · cases hr
    exact ⟨⟨h, by simp⟩, by simp⟩
  · next token hk =>
    have hsent : ∀ p ∈ [(token, s.client)], p.1.issuer = p.2 := by
      simpa using h.keyring token hk
    split at hr
    · next access refresh expiresAt =>
      split at hr <;> cases hr
      · refine ⟨⟨h.adoptPair access refresh expiresAt, hsent⟩, ?_⟩
        rintro t ⟨⟩
        rfl
      · exact ⟨⟨h, hsent⟩, by simp⟩
    · cases hr
      refine ⟨⟨?_, hsent⟩, by simp⟩
      dsimp only
      split
      · exact h.setKeyring (by simp)
      · exact h
    · cases hr
      exact ⟨⟨h, hsent⟩, by simp⟩

theorem ensureValidAccessToken_owned {now : Int} {stored deleted : Bool} {e : Effect}
    (hr : ensureValidAccessToken s now reply stored deleted = (r, e)) :
    e.Owned ∧ ∀ token, r = .ok token → token.issuer = e.state.client := by
  unfold ensureValidAccessToken at hr
  split at hr
  · next session hs =>
    split at hr
    · cases hr
      refine ⟨⟨h, by simp⟩, ?_⟩
      rintro t ⟨⟩
      exact h.session session hs
    · exact refreshSession_owned h hr
  · exact refreshSession_owned h hr

theorem signIn_owned (reply : Reply) (stored : Bool) : (signIn s reply stored).Owned := by
  unfold signIn
  split
  · next access refresh expiresAt =>
    split
    · exact ⟨h.adoptPair access refresh expiresAt, by simp⟩
    · exact ⟨h, by simp⟩
  · exact ⟨h, by simp⟩

theorem logout_owned (deleted : Bool) : (logout s deleted).Owned := by
  refine ⟨?_, ?_⟩
  · unfold logout
    dsimp only
    split
    · exact ⟨by simp, by simp, h.tasks⟩
    · exact h
  · unfold logout
    cases hk : s.keyring with
    | none => simp
    | some token => simpa using h.keyring token hk

theorem request_owned {token : Token} (ht : token.issuer = s.client) (call : Call)
    (reply : Reply) (stored : Bool) : (request s call token reply stored).Owned := by
  have hsent : ∀ p ∈ [(token, s.client)], p.1.issuer = p.2 := by simpa using ht
  unfold request
  split
  · exact ⟨h.push ht, by simp⟩
  · split
    · exact ⟨(h.setKeyring (by simp)).push rfl, hsent⟩
    · exact ⟨h, hsent⟩
  · exact ⟨h.push ht, hsent⟩
  · exact ⟨h, hsent⟩

end

/-! ## Every interleaving -/

/-- A step that moves the client to another address finds no token of the old one: not in the
keyring, and, while the application runs on, not in a call that will still send it. -/
def MovesAlone (s : State) : Label → Prop
  | .setBackendUrl url =>
    (∀ token ∈ s.keyring, token.issuer = baseUrl url) ∧
      ∀ task ∈ s.tasks, task.OwnedBy (baseUrl url)
  | .restart => ∀ token ∈ s.keyring, token.issuer = baseUrl s.savedUrl
  | _ => True

instance (s : State) (l : Label) : Decidable (MovesAlone s l) := by
  cases l <;> unfold MovesAlone <;> infer_instance

theorem whenInFlight_owned (h : Owned s) {body : Effect}
    (hbody : task ∈ s.tasks → body.Owned) : (whenInFlight s task body).Owned := by
  unfold whenInFlight
  split
  · next hmem => exact hbody hmem
  · exact ⟨h, by simp⟩

theorem step_owned (h : Owned s) {l : Label} (hok : MovesAlone s l) : (step s l).Owned := by
  cases l with
  | signIn reply stored => exact signIn_owned h reply stored
  | signOut deleted => exact logout_owned h deleted
  | ensure call now reply stored deleted =>
    unfold step
    dsimp only
    split
    · next token e call' hr =>
      obtain ⟨he, htoken⟩ := ensureValidAccessToken_owned h hr
      exact ⟨he.state.push (htoken token rfl), he.sent⟩
    · next r e call' hr hne => exact (ensureValidAccessToken_owned h hr).1
  | request call token reply stored =>
    refine whenInFlight_owned h fun hmem => ?_
    exact request_owned (h.finish _) (h.tasks _ hmem) call reply stored
  | adopt token expiresAt =>
    refine whenInFlight_owned h fun hmem => ⟨⟨h.keyring, ?_, (h.finish _).tasks⟩, by simp⟩
    rintro session ⟨⟩
    exact h.tasks _ hmem
  | reread token =>
    refine whenInFlight_owned h fun hmem => ⟨h.finish _, ?_⟩
    have htoken : token.issuer = s.client := h.tasks _ hmem
    simpa using htoken
  | turnRequest url token =>
    refine whenInFlight_owned h fun hmem => ⟨h, ?_⟩
    have htoken : token.issuer = url := h.tasks _ hmem
    simpa using htoken
  | turnEnd url token => exact whenInFlight_owned h fun _ => ⟨h.finish _, by simp⟩
  | saveBackendUrl url =>
    have hsaved : Owned { s with savedUrl := url } := ⟨h.keyring, h.session, h.tasks⟩
    exact ⟨hsaved.push trivial, by simp [step]⟩
  | setBackendUrl url =>
    refine whenInFlight_owned h fun _ => ⟨?_, by simp⟩
    obtain ⟨hkeyring, htasks⟩ := hok
    exact ⟨hkeyring, by simp, fun t ht => htasks t (List.mem_of_mem_erase ht)⟩
  | restart => exact ⟨⟨hok, by simp [step], by simp [step]⟩, by simp [step]⟩

/-- **Tokens stay with their issuer in every run that moves the client alone.** `set_backend_url`
clears neither the stored token nor those calls in flight have taken. -/
theorem tokens_stay_with_issuer {url : Text} {trace : List (Transition State Label)}
    {final : State} (hrun : Run (fun s l s' => s' = next s l) (installed url) trace final)
    (hok : ∀ x ∈ trace, MovesAlone x.pre x.label) :
    ∀ x ∈ trace, ∀ p ∈ (step x.pre x.label).sent, p.1.issuer = p.2 := by
  obtain ⟨-, hall⟩ := hrun.invariant Owned MovesAlone
    (fun hs hok hnext => by subst hnext; exact (step_owned hs hok).state)
    ⟨by simp [installed], by simp [installed], by simp [installed]⟩ hok
  intro x hx
  exact (step_owned (hall x hx).1 (hok x hx)).sent

def hosted : Text := "https://api.vibessh.dev"

def selfHosted : Text := "https://cloud.example.org"

/-- Signing out before the address changes leaves nothing to send to the new one. -/
def signOutThenMove : List Label :=
  [.signIn (.issued "a1" "r1" 1000) true,
    .ensure (some .plain) 0 .unreachable true true,
    .request .plain ⟨hosted, "a1"⟩ .accepted true,
    .signOut true,
    .saveBackendUrl selfHosted,
    .setBackendUrl selfHosted,
    .signIn (.issued "a2" "r2" 1000) true,
    .ensure (some .changePassword) 0 .unreachable true true,
    .request .changePassword ⟨selfHosted, "a2"⟩ (.issued "a3" "r3" 2000) true,
    .restart,
    .ensure none 0 (.issued "a4" "r4" 2000) true true]

theorem signOutThenMove_stays :
    (∀ x ∈ traceOf next (installed hosted) signOutThenMove, MovesAlone x.pre x.label) ∧
      ∀ x ∈ traceOf next (installed hosted) signOutThenMove,
        ∀ p ∈ (step x.pre x.label).sent, p.1.issuer = p.2 := by
  have hok : ∀ x ∈ traceOf next (installed hosted) signOutThenMove,
      MovesAlone x.pre x.label := by
    decide
  exact ⟨hok, tokens_stay_with_issuer (run_traceOf next _ signOutThenMove) hok⟩

/-- The address changes while somebody is signed in and a call holds a token. -/
def moveSignedIn : List Label :=
  [.signIn (.issued "a1" "r1" 1000) true,
    .ensure (some .plain) 0 .unreachable true true,
    .saveBackendUrl selfHosted,
    .setBackendUrl selfHosted]

theorem tokens_sent_to_new_address :
    let moved := moveSignedIn.foldl next (installed hosted)
    (step moved (.request .plain ⟨hosted, "a1"⟩ .accepted true)).sent =
        [(⟨hosted, "a1"⟩, selfHosted)] ∧
      (step moved (.ensure none 0 .refused true true)).sent =
        [(⟨hosted, "r1"⟩, selfHosted)] := by
  decide

end VibeSsh.Cloud
