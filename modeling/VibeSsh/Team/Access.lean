import VibeSsh.Lib.Replay
import VibeSsh.Team.MemberAccount

/-! # A team's accounts on a Node

`team_access_service::sync_team_access`: every member of the team gets an account on the Node with
the keys their devices published and the sudo rules their permissions earn, then what the team is
owed in revocations is carried out. An account's name comes from its person alone, and a member
without a published key is passed over. The scripts decide nothing by what they find in an account
but whether it is there, so a sync is told by its report and the writes it makes. -/

namespace VibeSsh.TeamAccess

open Lib Command MemberSudoers

/-! ## Accounts -/

/-- A member's account: its `authorized_keys` as sshd reads it, its file in `/etc/sudoers.d`, and
whether it has been expired, which an account that is not there cannot be. -/
@[ext] structure Account where
  present : Bool
  keys : List Text
  rules : List Text
  expired : Bool
  wf : present = false → expired = false
  deriving DecidableEq

abbrev Accounts := Text → Account

/-- What a script's commands do to an account. All but the sudo rules, which are root's file, need
the account to be there. -/
inductive Write where
  | create
  | lift
  | keys (file : List Text)
  | rules (file : List Text)
  | expire
  deriving DecidableEq

def Write.apply (write : Write) (account : Account) : Account :=
  match write with
  | .create => { account with present := true, wf := nofun }
  | .lift => { account with expired := false, wf := fun _ => rfl }
  | .keys file => if account.present then { account with keys := file } else account
  | .rules file => { account with rules := file }
  | .expire =>
    if h : account.present then { account with expired := true, wf := fun hno => by simp_all }
    else account

def nodeUsername (user : Uuid) : Text := "vibessh-m-" ++ user.simple.take 12

/-! ## What the team says -/

/-- An application in `CloudMemberAccess`; a runtime without a container or unit to name is none. -/
structure ApplicationAccess where
  localId : Uuid
  teamServerId : Option Uuid
  runtime : Option GrantRuntime
  workingDirectory : Text
  permissions : List Text
  deriving DecidableEq

structure Member where
  userId : Uuid
  email : Text
  publicKeys : List Text
  permissions : List Text
  applications : List ApplicationAccess
  deriving DecidableEq

def Member.nodeUsername (member : Member) : Text := TeamAccess.nodeUsername member.userId

structure Revocation where
  id : Uuid
  teamServerId : Uuid
  userId : Uuid
  email : Text
  deriving DecidableEq

def Revocation.nodeUsername (row : Revocation) : Text := TeamAccess.nodeUsername row.userId

/-! ## What comes back -/

/-- A script ends well, or is refused or lost after so many of its writes. -/
inductive Outcome where
  | done
  | failed (error : AppError) (after : Nat)

structure Answers where
  connect : AppResult Unit
  /-- Whether the look for the applications' own accounts came back. -/
  accountsListed : Bool
  consoleWriter : AppResult Unit
  firewallHelper : AppResult Unit
  provision : Uuid → Outcome
  keys : Uuid → Outcome
  /-- Whether the keys end up where sshd reads them: `mv` also ends well with `authorized_keys` a
directory. -/
  landed : Uuid → Bool
  sudoers : Uuid → Outcome
  revoke : Uuid → Outcome
  /-- Whether the revocation could empty the keys file, which it does not insist on. -/
  emptied : Uuid → Bool
  complete : Uuid → AppResult Unit

structure MemberAccessResult where
  userId : Uuid
  email : Text
  hasKey : Bool
  granted : Bool
  error : Option Text
  notes : List SkippedGrant

structure RevocationResult where
  id : Uuid
  email : Text
  completed : Bool
  error : Option Text

structure NodeAccessSync where
  members : List MemberAccessResult
  revocations : List RevocationResult

/-- Nothing in it failed. -/
def NodeAccessSync.complete (sync : NodeAccessSync) : Bool :=
  sync.members.all (·.error.isNone) && sync.revocations.all (·.completed)

/-! ## Scripts -/

/-- A run of scripts on one account: what it came to and what it wrote. -/
structure Scripts (α : Type) where
  result : AppResult α
  writes : List Write

instance : Monad Scripts where
  pure a := ⟨.ok a, []⟩
  bind m f :=
    match m.result with
    | .error e => ⟨.error e, m.writes⟩
    | .ok a => ⟨(f a).result, m.writes ++ (f a).writes⟩

def Scripts.lift {α : Type} (r : AppResult α) : Scripts α := ⟨r, []⟩

def Scripts.run (outcome : Outcome) (writes : List Write) : Scripts Unit :=
  match outcome with
  | .done => ⟨.ok (), writes⟩
  | .failed e after => ⟨.error e, writes.take after⟩

/-- `provision_script`, which also lifts what an earlier revocation left. -/
def provisionScript : List Write := [.create, .lift]

/-- `authorized_keys_script`, past its checks. -/
def authorizedKeysScript (landed : Bool) (keys : List Text) : List Write :=
  [.keys (if landed then keys else [])]

/-- `revoke_script`: the account stays, and a keys file that cannot be emptied is only mentioned. -/
def revokeScript (emptied : Bool) : List Write :=
  [.rules [], .expire] ++ if emptied then [.keys []] else []

/-! ## Rules on this Node -/

section

variable (tools : MemberAccount.Node) (teamServerId : Uuid)

def rulesOf (application : ApplicationAccess) : ApplicationRules :=
  match application.runtime with
  | some runtime => applicationRules ⟨application.localId, runtime, application.workingDirectory,
      application.permissions⟩
  | none => ⟨[], none, none, [⟨application.localId, .nothingToName⟩]⟩

def applicationRulesOn (member : Member) : List ApplicationRules :=
  (member.applications.filter (·.teamServerId = some teamServerId)).map rulesOf

/-- `drop_file_rules_without_an_account`, for one application. -/
def dropFileRule (rules : ApplicationRules) : ApplicationRules :=
  match rules.files with
  | none => rules
  | some files =>
    if tools.hasAccount files.account then rules
    else
      { rules with
        files := none
        skipped := rules.skipped ++ [⟨files.applicationId, .noOwnAccount⟩] }

/-- The rules a grant is given: without the look at the accounts they stay as they are. -/
def memberRules (listed : Bool) (member : Member) : List ApplicationRules :=
  let rules := applicationRulesOn teamServerId member
  if listed then rules.map (dropFileRule tools) else rules

def needsConsoleWriter (member : Member) (rules : List ApplicationRules) : Bool :=
  rules.any (·.console.isSome) || member.permissions.contains "applications.console"

def needsFirewallHelper (member : Member) : Bool :=
  member.permissions.contains "node.firewall"

/-! ## The sync -/

variable (a : Answers)

def checkKeys (keys : List Text) : AppResult Unit :=
  if keys.any fun key => key.contains '\n' || key.contains '\r' then
    .error (.invalidInput "a public key can't contain a line break")
  else .ok ()

def grantOne (member : Member) (rules : List ApplicationRules) : Scripts Unit := do
  let name := member.nodeUsername
  Scripts.lift (validateLinuxUsername name "the member's account name")
  Scripts.run (a.provision member.userId) provisionScript
  Scripts.lift (checkKeys member.publicKeys)
  Scripts.run (a.keys member.userId)
    (authorizedKeysScript (a.landed member.userId) member.publicKeys)
  let script ← Scripts.lift (MemberAccount.sudoersScript name member.permissions rules)
  Scripts.run (a.sudoers member.userId) [.rules (script.lines tools name)]

/-- A helper that failed to install stops those who need it. -/
def requireHelper (needed : Bool) (installed : AppResult Unit) : AppResult Unit :=
  if needed then installed.mapError fun e => .connection e.display else .ok ()

def grantMember (member : Member) : Scripts Unit := do
  let rules := memberRules tools teamServerId a.accountsListed member
  Scripts.lift (requireHelper (needsConsoleWriter member rules) a.consoleWriter)
  Scripts.lift (requireHelper (needsFirewallHelper member) a.firewallHelper)
  grantOne tools a member rules

def errorText {α : Type} : AppResult α → Option Text
  | .ok _ => none
  | .error e => some e.display

/-- One turn of the loop over the members; one without a key is skipped. -/
def syncMember (member : Member) : MemberAccessResult × List Write :=
  let notes := (memberRules tools teamServerId a.accountsListed member).flatMap (·.skipped)
  if member.publicKeys.isEmpty then
    (⟨member.userId, member.email, false, false, none, notes⟩, [])
  else
    let granted := grantMember tools teamServerId a member
    (⟨member.userId, member.email, true, granted.result.isOk, errorText granted.result, notes⟩,
      granted.writes)

/-- `revoke_one`: the backend is told only after the Node has said it is done. -/
def revokeOne (row : Revocation) : Scripts Unit := do
  Scripts.lift (validateLinuxUsername row.nodeUsername "the member's account name")
  Scripts.run (a.revoke row.id) (revokeScript (a.emptied row.id))
  Scripts.lift (a.complete row.id)

def completeRevocation (row : Revocation) : RevocationResult × List Write :=
  let revoked := revokeOne a row
  (⟨row.id, row.email, revoked.result.isOk, errorText revoked.result⟩, revoked.writes)

/-- What a sync came to, and its writes under the accounts' names. -/
structure SyncRun where
  result : AppResult NodeAccessSync
  log : List (Text × Write)

def grantLog (members : List Member) : List (Text × Write) :=
  members.flatMap fun member =>
    (syncMember tools teamServerId a member).2.map (Prod.mk member.nodeUsername)

def revokeLog (rows : List Revocation) : List (Text × Write) :=
  rows.flatMap fun row => (completeRevocation a row).2.map (Prod.mk row.nodeUsername)

def rowsOn (pending : List Revocation) : List Revocation :=
  pending.filter (·.teamServerId = teamServerId)

/-- `sync_team_access`, with the two lists as the backend gives them when it is asked. -/
def syncTeamAccess (members : AppResult (List Member)) (pending : AppResult (List Revocation)) :
    SyncRun :=
  match members, a.connect, pending with
  | .error e, _, _ => ⟨.error e, []⟩
  | .ok _, .error e, _ => ⟨.error e, []⟩
  | .ok members, .ok _, .error e => ⟨.error e, grantLog tools teamServerId a members⟩
  | .ok members, .ok _, .ok pending =>
    ⟨.ok ⟨members.map fun member => (syncMember tools teamServerId a member).1,
        (rowsOn teamServerId pending).map fun row => (completeRevocation a row).1⟩,
      grantLog tools teamServerId a members ++ revokeLog a (rowsOn teamServerId pending)⟩

def SyncRun.on (run : SyncRun) (s : Accounts) : Accounts := Replay.replay Write.apply run.log s

/-- The sudo rules a member's permissions call for on this Node. -/
def rulesFor (member : Member) : List Text :=
  match MemberAccount.sudoersScript member.nodeUsername member.permissions
      (applicationRulesOn teamServerId member) with
  | .ok script => script.lines tools member.nodeUsername
  | .error _ => []

end

/-! ## Writes on one account -/

def Write.setsRules : Write → Option (List Text)
  | .rules file => some file
  | _ => none

def Write.setsKeys : Write → Option (List Text)
  | .keys file => some file
  | _ => none

def Write.setsExpired : Write → Option Bool
  | .lift => some false
  | .expire => some true
  | _ => none

def lastRules (log : List Write) : Option (List Text) := Replay.last Write.setsRules log

def lastKeys (log : List Write) : Option (List Text) := Replay.last Write.setsKeys log

def lastExpired (log : List Write) : Option Bool := Replay.last Write.setsExpired log

variable (account : Account)

def Account.after (log : List Write) : Account :=
  Replay.applyAll Write.apply log account

@[simp] theorem after_nil : account.after [] = account := rfl

@[simp] theorem after_cons (w : Write) (log : List Write) :
    account.after (w :: log) = (w.apply account).after log := rfl

theorem on_apply (run : SyncRun) (s : Accounts) (name : Text) :
    run.on s name = (s name).after (Replay.under name run.log) :=
  Replay.replay_apply Write.apply run.log s name

theorem rules_after (log : List Write) :
    (account.after log).rules = (lastRules log).getD account.rules := by
  refine Replay.field_applyAll (fun _ => True) (fun _ _ _ => trivial) (fun w x _ => ?_) log trivial
  cases w <;> simp only [Write.apply, Write.setsRules] <;> (try split) <;> rfl

theorem present_apply (w : Write) {account : Account} (h : account.present = true) :
    (w.apply account).present = true := by
  cases w <;> simp [Write.apply, h]

theorem present_after (log : List Write) :
    (account.after log).present = (account.present || decide (Write.create ∈ log)) := by
  induction log generalizing account with
  | nil => simp
  | cons w log ih =>
    rw [after_cons, ih]
    cases w <;> simp only [Write.apply] <;> (try split) <;> simp_all

/-- On an account that is there, every write counts. -/
theorem after_of_present {account : Account} (h : account.present = true) (log : List Write) :
    (account.after log).keys = (lastKeys log).getD account.keys ∧
      (account.after log).expired = (lastExpired log).getD account.expired := by
  refine ⟨Replay.field_applyAll (fun x => x.present = true)
    (fun w _ hx => present_apply w hx) (fun w x hx => ?_) log h,
    Replay.field_applyAll (fun x => x.present = true)
    (fun w _ hx => present_apply w hx) (fun w x hx => ?_) log h⟩
  · cases w <;> simp [Write.apply, Write.setsKeys, hx]
  · cases w <;> simp [Write.apply, Write.setsExpired, hx]

theorem after_of_absent {account : Account} (h : account.present = false) {log : List Write}
    (hlog : Write.create ∉ log) :
    (account.after log).keys = account.keys ∧ (account.after log).expired = false := by
  induction log generalizing account with
  | nil => exact ⟨rfl, account.wf h⟩
  | cons w log ih =>
    rw [List.mem_cons, not_or] at hlog
    have hw : (w.apply account).present = false ∧ (w.apply account).keys = account.keys := by
      cases w <;> simp_all [Write.apply]
    obtain ⟨hkeys, hexpired⟩ := ih hw.1 hlog.2
    exact ⟨hkeys.trans hw.2, hexpired⟩

/-- The account is made before anything else is done to it. -/
def Orderly (log : List Write) : Prop := Write.create ∈ log → log.head? = some .create

theorem after_of_orderly {account : Account} {log : List Write} (hlog : Orderly log)
    (h : (account.present || decide (Write.create ∈ log)) = true) :
    (account.after log).keys = (lastKeys log).getD account.keys ∧
      (account.after log).expired = (lastExpired log).getD account.expired := by
  by_cases hpresent : account.present = true
  · exact after_of_present hpresent log
  · have hcreate : Write.create ∈ log := by simpa [hpresent] using h
    obtain ⟨rest, rfl⟩ : ∃ rest, log = .create :: rest := by
      cases log with
      | nil => cases hcreate
      | cons w rest => exact ⟨rest, by rw [Option.some.inj (hlog hcreate)]⟩
    have hmade : (Write.create.apply account).present = true := rfl
    have hrest := after_of_present hmade rest
    have hkeys : lastKeys (.create :: rest) = lastKeys rest := by
      simp [lastKeys, Replay.last_cons, Write.setsKeys]
    have hexpired : lastExpired (.create :: rest) = lastExpired rest := by
      simp [lastExpired, Replay.last_cons, Write.setsExpired]
    rw [after_cons, hkeys, hexpired]
    exact hrest

end VibeSsh.TeamAccess
