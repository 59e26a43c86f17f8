import VibeSsh.Applications.Directories
import VibeSsh.Firewall.DockerUser
import VibeSsh.Lib.Sudo

/-! # What a role earns on a Node

`member_sudoers`: the commands a member's permissions allow as root, and the rules one shared
application earns. Permissions are the keys the service sends, so any text may be among them. The
source keeps commands in an ordered set; here they are a list in the order of insertion, since every
one of them ends up as a rule of its own. -/

namespace VibeSsh.MemberSudoers

open Lib Directories

def rootEquivalent : List Text :=
  ["node.terminal", "node.software", "node.services", "node.network", "applications.create",
    "applications.delete", "applications.config", "applications.databases",
    "applications.backups"].map String.toList

structure AllowedCommand where
  binary : Text
  /-- Appended after the resolved path. Empty means the bare command. -/
  arguments : Text
  deriving DecidableEq

inductive Privilege where
  | none
  | commands (allowed : List AllowedCommand)
  | root (reason : Text)
  deriving DecidableEq

def consoleWriterPath : Text := "/usr/local/lib/vibessh/console-write"

def fileHelperPath : Text := "/usr/local/lib/vibessh/file-helper.sh"

def docker : Text := "docker"

def systemctl : Text := "systemctl"

def viewCommands : List AllowedCommand :=
  [⟨docker, "ps"⟩, ⟨docker, "ps *"⟩, ⟨docker, "inspect vibessh-app-*"⟩,
    ⟨docker, "logs vibessh-app-*"⟩, ⟨docker, "logs * vibessh-app-*"⟩,
    ⟨systemctl, "status --no-pager vibessh-app-*"⟩]

def lifecycleCommands : List AllowedCommand :=
  ["start", "stop", "restart", "kill"].map (fun verb =>
    ⟨docker, verb.toList ++ " vibessh-app-*"⟩) ++
  ["start", "stop", "restart"].map (fun verb =>
    ⟨systemctl, verb.toList ++ " vibessh-app-*"⟩)

def firewallCommands : List AllowedCommand :=
  ["status", "show added", "--force enable", "allow *", "delete allow *"].map (fun arguments =>
    ⟨"ufw", arguments.toList⟩) ++ [⟨Firewall.helperPath, ['*']⟩]

/-- The commands of the permissions that can be narrowed. -/
def narrowCommands (held : Text → Bool) : List AllowedCommand :=
  (if held "applications.view" then viewCommands else []) ++
  (if held "applications.lifecycle" then lifecycleCommands else []) ++
  (if held "applications.console" then [⟨consoleWriterPath, ['*']⟩] else []) ++
  (if held "node.firewall" then firewallCommands else [])

def privilegeFor (permissions : List Text) : Privilege :=
  match rootEquivalent.find? permissions.contains with
  | some reason => .root reason
  | none =>
    let commands := narrowCommands permissions.contains
    if commands.isEmpty then .none else .commands commands

variable {held : Text → Bool}

theorem narrowCommands_mono {held' : Text → Bool} (h : ∀ key, held key = true → held' key = true) :
    narrowCommands held ⊆ narrowCommands held' := by
  have hpart : ∀ (key : Text) (commands : List AllowedCommand),
      (if held key then commands else []) ⊆ if held' key then commands else [] := by
    intro key commands
    split
    · next hheld =>
      rw [if_pos (h key hheld)]
      exact List.Subset.refl _
    · exact List.nil_subset _
  intro command hcommand
  simp only [narrowCommands, List.mem_append] at hcommand ⊢
  exact hcommand.imp (Or.imp (Or.imp (@hpart _ _ _) (@hpart _ _ _)) (@hpart _ _ _)) (@hpart _ _ _)

theorem subset_narrowCommands {key : Text} {commands : List AllowedCommand}
    (hkey : commands ⊆ narrowCommands (· == key)) (h : held key = true) :
    commands ⊆ narrowCommands held :=
  List.Subset.trans hkey (narrowCommands_mono fun k hk => by rwa [beq_iff_eq.mp hk])

theorem viewCommands_subset (h : held "applications.view" = true) :
    viewCommands ⊆ narrowCommands held := subset_narrowCommands (by decide) h

theorem lifecycleCommands_subset (h : held "applications.lifecycle" = true) :
    lifecycleCommands ⊆ narrowCommands held :=
  subset_narrowCommands (by decide) h

/-- No permission that stands for root is held. -/
def Narrow (permissions : List Text) : Prop := ∀ key ∈ rootEquivalent, key ∉ permissions

instance (permissions : List Text) : Decidable (Narrow permissions) :=
  List.decidableBAll (· ∉ permissions) rootEquivalent

/-! ## One shared application -/

def readOnlyFileOperations : List Text :=
  ["realpath", "list", "stat", "read", "readrange", "readsmall"].map String.toList

inductive GrantRuntime where
  | docker
  | systemd
  deriving DecidableEq

structure ApplicationGrant where
  applicationId : Uuid
  runtime : GrantRuntime
  workingDirectory : Text
  permissions : List Text

structure FileRule where
  applicationId : Uuid
  account : Text
  root : Text
  write : Bool

/-- The rule's command list, one entry a command. -/
def FileRule.entries (rule : FileRule) : List Sudo.Command :=
  if rule.write then [.program fileHelperPath (some (rule.root ++ " *"))]
  else readOnlyFileOperations.flatMap fun op =>
    [.program fileHelperPath (some (rule.root ++ ' ' :: op)),
      .program fileHelperPath (some (rule.root ++ ' ' :: op ++ " *"))]

def FileRule.commands (rule : FileRule) : Text :=
  Text.join ", " (rule.entries.map Sudo.Command.text)

inductive SkipReason where
  | folderUnnameable
  | noConsole
  | nothingToName
  | noOwnAccount
  deriving DecidableEq

structure SkippedGrant where
  applicationId : Uuid
  reason : SkipReason

structure ApplicationRules where
  commands : List AllowedCommand
  console : Option Uuid
  files : Option FileRule
  skipped : List SkippedGrant

/-- A character a sudoers rule holds literally. -/
def isRuleSafe (c : Char) : Bool :=
  c.isAlphanum || c == '/' || c == '.' || c == '_' || c == '-'

def ruleSafeDirectory (directory : Text) : Option Text :=
  let trimmed := Text.trimEndMatches '/' directory
  if Text.startsWith ['/'] trimmed && 1 < trimmed.length &&
      !(trimmed.splitOn '/').any (· == ['.', '.']) && trimmed.all isRuleSafe then some trimmed
  else none

/-- The commands and the console of a grant: its container or unit by its exact name. -/
def runtimeRules (grant : ApplicationGrant) : ApplicationRules :=
  let held := grant.permissions.contains
  match grant.runtime with
  | .docker =>
    let name := "vibessh-app-" ++ grant.applicationId.display
    { commands :=
        [⟨docker, "inspect " ++ name⟩, ⟨docker, "logs " ++ name⟩,
          ⟨docker, "logs * " ++ name⟩] ++
        if held "applications.lifecycle" then
          ["start", "stop", "restart", "kill"].map fun verb =>
            ⟨docker, verb.toList ++ ' ' :: name⟩
        else []
      console := if held "applications.console" then some grant.applicationId else none
      files := none
      skipped := [] }
  | .systemd =>
    let unit := "vibessh-app-" ++ grant.applicationId.display ++ ".service"
    { commands :=
        [⟨systemctl, "status --no-pager " ++ unit⟩] ++
        if held "applications.lifecycle" then
          ["start", "stop", "restart"].map fun verb => ⟨systemctl, verb.toList ++ ' ' :: unit⟩
        else []
      console := none
      files := none
      skipped :=
        if held "applications.console" then [⟨grant.applicationId, .noConsole⟩] else [] }

def applicationRules (grant : ApplicationGrant) : ApplicationRules :=
  let rules := runtimeRules grant
  let write := grant.permissions.contains "applications.files.write"
  if write || grant.permissions.contains "applications.files.read" then
    match ruleSafeDirectory grant.workingDirectory with
    | some root =>
      { rules with files := some ⟨grant.applicationId, username grant.applicationId, root, write⟩ }
    | none => { rules with skipped := rules.skipped ++ [⟨grant.applicationId, .folderUnnameable⟩] }
  else rules

/-- The files of a grant change nothing about its commands and its console. -/
theorem applicationRules_runtime (grant : ApplicationGrant) :
    (applicationRules grant).commands = (runtimeRules grant).commands ∧
      (applicationRules grant).console = (runtimeRules grant).console := by
  unfold applicationRules
  dsimp only
  split
  · split <;> exact ⟨rfl, rfl⟩
  · exact ⟨rfl, rfl⟩

def mayUseTheFileHelper (permissions : List Text) : Bool :=
  permissions.any fun key =>
    key == "applications.files.read" || key == "applications.files.write"

end VibeSsh.MemberSudoers
