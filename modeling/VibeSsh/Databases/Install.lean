import VibeSsh.Docker.Session

/-! # Installing a database server

`database_service::install_database_server`, on the Node behind a loopback Database Host. `mysql`
carries out the statements of the grant file up to the first one it does not get through with; every
other command has done its work where it ends well. What a failed call leaves is not followed. -/

namespace VibeSsh.Databases

open Lib Docker.Session

structure DatabaseHost where
  id : Uuid
  serverId : Option Uuid
  name : Text
  host : Text
  adminUsername : Text

structure Account where
  password : Text
  allPrivileges : Bool

/-- By user and host. -/
abbrev Accounts := Text × Text → Option Account

structure Node where
  running : Bool
  accounts : Accounts

inductive Statement where
  | createUser (account : Text × Text) (password : Text)
  | alterUser (account : Text × Text) (password : Text)
  | grantAll (account : Text × Text)
  | flushPrivileges

/-- What the server makes of a statement it accepts: `IF NOT EXISTS` leaves an account as it is. -/
def Statement.apply (db : Accounts) : Statement → Accounts
  | .createUser account password =>
    Function.update db account (some ((db account).getD ⟨password, false⟩))
  | .alterUser account password =>
    Function.update db account ((db account).map ({ · with password }))
  | .grantAll account =>
    Function.update db account ((db account).map ({ · with allPrivileges := true }))
  | .flushPrivileges => db

def localhost : Text := "localhost"

/-- The statements of `grant_sql`, in order. -/
def grantStatements (host : DatabaseHost) (password : Text) : List Statement :=
  let addr := (host.adminUsername, host.host)
  let here := (host.adminUsername, localhost)
  [.createUser addr password, .createUser here password, .alterUser addr password,
    .alterUser here password, .grantAll addr, .grantAll here, .flushPrivileges]

/-- What everything outside answers; a lost connection is an error of the command sent. -/
structure Answers where
  getHost : AppResult (Option DatabaseHost)
  loadSecret : AppResult (Option Text)
  getOrConnect : AppResult Unit
  isActive : AppResult Unit
  sendInstall : AppResult Unit
  aptUpdate : Bool
  aptInstall : Bool
  enable : Bool
  installStderr : Text
  writePrivateFile : AppResult Unit
  sendGrant : AppResult Unit
  /-- How many of the seven statements `mysql` got through with. -/
  applied : Fin 8
  rm : Bool
  /-- With the password redacted. -/
  grantStderr : Text
  ensureReachable : AppResult Unit

def isLoopbackHost (host : Text) : Bool :=
  host == "127.0.0.1" || host == localhost || host == "::1"

def check (ok : Bool) (e : AppError) : AppResult Unit := if ok then .ok () else .error e

section

variable (a : Answers)

def loadHostAdminPassword (host : DatabaseHost) : AppResult Text := do
  (← a.loadSecret).elim (.error (.internal ("database host " ++ host.id.display ++
    " has no stored admin password"))) .ok

def connectToHost (host : DatabaseHost) : AppResult Unit := do
  check host.serverId.isSome (.invalidInput
    "this database host has no linked Server - VibeSSH can't run commands on it")
  a.getOrConnect

def ensureServer (n : Node) : AppResult Node := do
  a.isActive
  if n.running then return n
  a.sendInstall
  check (a.aptUpdate && a.aptInstall && a.enable)
    (.connection ("couldn't install a database server on this node: " ++
      detailOr a.installStderr "the install command failed"))
  return { n with running := true }

/-- The accounts once `mysql` has ended. -/
def granted (host : DatabaseHost) (password : Text) (db : Accounts) : Accounts :=
  ((grantStatements host password).take a.applied).foldl Statement.apply db

def grantAdminUser (host : DatabaseHost) (password : Text) (n : Node) : AppResult Node := do
  a.writePrivateFile
  a.sendGrant
  -- `sudo mysql < file; rm -f file`: the status is that of `rm`
  check a.rm (.connection (("the database server was installed but its admin user couldn't be " ++
    "created: ").toList ++ detailOr a.grantStderr "the grant statement failed"))
  return { n with accounts := granted a host password n.accounts }

/-- The Node a call that succeeds leaves. -/
def installDatabaseServer (hostId : Uuid) (n : Node) : AppResult Node := do
  let host ← (← a.getHost).elim
    (.error (.notFound ("database host " ++ hostId.display))) .ok
  check (isLoopbackHost host.host) (.invalidInput ('\'' :: host.name ++ "' points at " ++
    host.host ++ (", not at this node itself - VibeSSH only installs a database server on a node " ++
    "it manages").toList))
  let password ← loadHostAdminPassword a host
  connectToHost a host
  let n ← ensureServer a n
  let n ← grantAdminUser a host password n
  a.ensureReachable
  return n

/-- Everything whose outcome is looked at goes well. -/
structure GoesThrough (n : Node) (host : DatabaseHost) (password : Text) : Prop where
  found : a.getHost = .ok (some host)
  loopback : isLoopbackHost host.host = true
  secret : a.loadSecret = .ok (some password)
  linked : host.serverId.isSome = true
  connected : a.getOrConnect = .ok ()
  asked : a.isActive = .ok ()
  installed : n.running = true ∨
    a.sendInstall = .ok () ∧ (a.aptUpdate && a.aptInstall && a.enable) = true
  written : a.writePrivateFile = .ok ()
  sent : a.sendGrant = .ok ()
  removed : a.rm = true
  reachable : a.ensureReachable = .ok ()

variable {a}

theorem check_ok_iff {ok : Bool} {e : AppError} {r : Unit} : check ok e = .ok r ↔ ok = true := by
  cases ok <;> simp [check]

theorem elim_ok_iff {α : Type} {x : Option α} {e : AppError} {v : α} :
    x.elim (.error e : AppResult α) .ok = .ok v ↔ x = some v := by
  cases x <;> simp

theorem return_ok_iff {α : Type} {x y : α} : (pure x : AppResult α) = .ok y ↔ x = y := by
  simp [pure, Except.pure]

theorem ensureServer_ok_iff {n t : Node} : ensureServer a n = .ok t ↔
    a.isActive = .ok () ∧ (n.running = true ∨
      a.sendInstall = .ok () ∧ (a.aptUpdate && a.aptInstall && a.enable) = true) ∧
    ⟨true, n.accounts⟩ = t := by
  obtain ⟨running, accounts⟩ := n
  unfold ensureServer
  cases running <;>
    simp only [try_ok_iff, check_ok_iff, return_ok_iff, Unique.exists_iff, PUnit.default_eq_unit,
      Bool.false_eq_true, if_false, if_true, false_or, true_or, true_and, and_assoc]

/-- A call that succeeds has looked at everything but the statements. -/
theorem installDatabaseServer_ok_iff {hostId : Uuid} {n t : Node} :
    installDatabaseServer a hostId n = .ok t ↔ ∃ host password, GoesThrough a n host password ∧
      ⟨true, granted a host password n.accounts⟩ = t := by
  unfold installDatabaseServer loadHostAdminPassword connectToHost grantAdminUser
  simp only [try_ok_iff, check_ok_iff, elim_ok_iff, ensureServer_ok_iff, return_ok_iff,
    Unique.exists_iff, PUnit.default_eq_unit]
  constructor
  · rintro ⟨_, hfound, host, rfl, hloopback, password, ⟨_, hsecret, rfl⟩, ⟨hlinked, hconnected⟩, _,
      ⟨hasked, hinstalled, rfl⟩, _, ⟨hwritten, hsent, hremoved, rfl⟩, hreachable, rfl⟩
    exact ⟨host, password, ⟨hfound, hloopback, hsecret, hlinked, hconnected, hasked, hinstalled,
      hwritten, hsent, hremoved, hreachable⟩, rfl⟩
  · rintro ⟨host, password, h, rfl⟩
    exact ⟨_, h.found, host, rfl, h.loopback, password, ⟨_, h.secret, rfl⟩,
      ⟨h.linked, h.connected⟩, _, ⟨h.asked, h.installed, rfl⟩, _,
      ⟨h.written, h.sent, h.removed, rfl⟩, h.reachable, rfl⟩

/-- What is enough for an account whose statements come `i` places after the first one's. -/
def Enough (applied i : Nat) (before : Option Account) (password : Text) : Prop :=
  5 + i ≤ applied ∨ ∃ account, before = some account ∧
    (3 + i ≤ applied ∨ account.password = password) ∧ account.allPrivileges = true

theorem granted_iff (host : DatabaseHost) (password : Text) (db : Accounts) :
    (∀ h ∈ [host.host, localhost],
      granted a host password db (host.adminUsername, h) = some ⟨password, true⟩) ↔
    Enough a.applied 0 (db (host.adminUsername, host.host)) password ∧
      (host.host = localhost ∨
        Enough a.applied 1 (db (host.adminUsername, localhost)) password) := by
  unfold granted
  generalize a.applied = k
  generalize hb : db (host.adminUsername, localhost) = b
  by_cases hhost : host.host = localhost
  · rw [hhost, hb]
    fin_cases k <;> rcases b with _ | ⟨p, g⟩ <;>
      simp [grantStatements, Statement.apply, hhost, hb, Enough, Function.update_apply]
  · generalize hc : db (host.adminUsername, host.host) = c
    fin_cases k <;> rcases b with _ | ⟨p, g⟩ <;> rcases c with _ | ⟨q, f⟩ <;>
      simp [grantStatements, Statement.apply, hhost, Ne.symm hhost, hb, hc, Enough,
        Function.update_apply]

/-- What the operator is told with a success. -/
structure Installed (host : DatabaseHost) (password : Text) (n : Node) : Prop where
  running : n.running = true
  accounts : ∀ h ∈ [host.host, localhost],
    n.accounts (host.adminUsername, h) = some ⟨password, true⟩

/-- **A success tells the truth exactly where `mysql` got far enough for the accounts it found**:
its own failure is not looked at. -/
theorem installDatabaseServer_honest_iff (a : Answers) (hostId : Uuid) (n : Node) :
    (∀ t, installDatabaseServer a hostId n = .ok t → ∃ host password,
      a.getHost = .ok (some host) ∧ a.loadSecret = .ok (some password) ∧
        Installed host password t) ↔
    ∀ host password, GoesThrough a n host password →
      Enough a.applied 0 (n.accounts (host.adminUsername, host.host)) password ∧
        (host.host = localhost ∨
          Enough a.applied 1 (n.accounts (host.adminUsername, localhost)) password) := by
  constructor
  · intro h host password hthrough
    obtain ⟨host', password', hfound, hsecret, hinstalled⟩ :=
      h _ (installDatabaseServer_ok_iff.mpr ⟨host, password, hthrough, rfl⟩)
    obtain rfl : host' = host := by simpa [hfound] using hthrough.found
    obtain rfl : password' = password := by simpa [hsecret] using hthrough.secret
    exact (granted_iff host' password' n.accounts).mp hinstalled.accounts
  · intro h t hok
    obtain ⟨host, password, hthrough, rfl⟩ := installDatabaseServer_ok_iff.mp hok
    exact ⟨host, password, hthrough.found, hthrough.secret, rfl,
      (granted_iff host password n.accounts).mpr (h host password hthrough)⟩

def localHost : DatabaseHost := ⟨.nil, some .nil, "db", "127.0.0.1", "admin"⟩

/-- `mysql` is refused by the running server; everything else goes well. -/
def refusedGrant : Answers :=
  ⟨.ok (some localHost), .ok (some "pw"), .ok (), .ok (), .ok (), true, true, true, [], .ok (),
    .ok (), 0, true, "ERROR 1045 (28000): Access denied", .ok ()⟩

theorem success_without_account :
    installDatabaseServer refusedGrant .nil ⟨true, fun _ => none⟩ = .ok ⟨true, fun _ => none⟩ ∧
      ¬∃ password, Installed localHost password ⟨true, fun _ => none⟩ := by
  refine ⟨rfl, ?_⟩
  rintro ⟨password, h⟩
  exact absurd (h.accounts localhost (by simp)) nofun

end

end VibeSsh.Databases
