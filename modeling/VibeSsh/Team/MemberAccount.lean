import VibeSsh.Team.MemberSudoers

/-! # A member's account on a Node

`member_account::sudoers_script`: the script that installs a member's rules, and the file it leaves
in `/etc/sudoers.d`. -/

namespace VibeSsh.MemberAccount

open Lib Command MemberSudoers List

/-- What the script asks of the Node. A `PATH` with a blank or a comma in it would make rules `visudo`
refuses. -/
structure Node where
  path : List Text
  executable : Text → Bool
  hasAccount : Text → Bool
  inGroup : Text → Text → Bool
  path_wf : ∀ dir ∈ path, Sudo.IsWord dir

/-- The usual directory of the tools. -/
theorem usrBin_isWord : ∀ dir ∈ ["/usr/bin".toList], Sudo.IsWord dir := by decide

/-- `command -v`. -/
def Node.commandV (node : Node) (binary : Text) : Option Text :=
  if binary.contains '/' then if node.executable binary then some binary else none
  else (node.path.map (· ++ '/' :: binary)).find? node.executable

def applicationGroup : Text := "vibessh-apps"

/-- The steps of the script that depend on its arguments. -/
inductive Script where
  | remove
  | install (header : List Text) (commands : List AllowedCommand) (files : List (Text × Text))

def roleHeader (username : Text) : Privilege → List Text
  | .root reason =>
    ["# " ++ reason ++ " cannot be narrowed - see member_sudoers.rs",
      username ++ " ALL=(ALL) NOPASSWD: ALL"]
  | _ => []

def helperHeader (username : Text) (permissions : List Text) : List Text :=
  if mayUseTheFileHelper permissions then
    [username ++ " ALL=(%" ++ applicationGroup ++ ") NOPASSWD: " ++ fileHelperPath]
  else []

def consoleHeader (username : Text) (applications : List ApplicationRules) : List Text :=
  (applications.filterMap ApplicationRules.console).map fun id =>
    username ++ " ALL=(root) NOPASSWD: " ++ consoleWriterPath ++ ' ' :: id.display

def roleCommands : Privilege → List AllowedCommand
  | .commands allowed => allowed
  | _ => []

/-- A role that is root already covers the applications' rules. -/
def besideRole : Privilege → List ApplicationRules → List ApplicationRules
  | .root _, _ => []
  | _, applications => applications

def fileLine (username : Text) (files : FileRule) : Text :=
  username ++ " ALL=(" ++ files.account ++ ") NOPASSWD: " ++ files.commands

def sudoersScript (username : Text) (permissions : List Text)
    (applications : List ApplicationRules) : AppResult Script := do
  validateLinuxUsername username "the member's account name"
  let privilege := privilegeFor permissions
  let applications := besideRole privilege applications
  let header := roleHeader username privilege ++ helperHeader username permissions ++
    consoleHeader username applications
  let commands := (roleCommands privilege ++ applications.flatMap (·.commands)).eraseDups
  let files := (applications.filterMap ApplicationRules.files).map fun files =>
    (files.account, fileLine username files)
  if header.isEmpty && commands.isEmpty && files.isEmpty then return .remove
  else return .install header commands files

def commandLine (username path : Text) (command : AllowedCommand) : Text :=
  username ++ " ALL=(root) NOPASSWD: " ++ path ++
    if command.arguments.isEmpty then [] else ' ' :: command.arguments

/-- The lines of the member's file once the script has run: rules for commands and accounts the Node
does not have are left out. -/
def Script.lines (node : Node) (username : Text) : Script → List Text
  | .remove => []
  | .install header commands files =>
    header ++
    commands.filterMap (fun c => (node.commandV c.binary).map fun p => commandLine username p c) ++
    (files.filter fun f => node.hasAccount f.1).map Prod.snd

/-- The member's file after a successful run of the script. -/
def sudoersFile (node : Node) (username : Text) (permissions : List Text)
    (grants : List ApplicationGrant) : AppResult (List Text) := do
  let script ← sudoersScript username permissions (grants.map applicationRules)
  return script.lines node username

variable {permissions : List Text} {node : Node} {username binary path : Text}

theorem role_of_narrow (h : Narrow permissions) :
    (∀ username, roleHeader username (privilegeFor permissions) = []) ∧
      roleCommands (privilegeFor permissions) = narrowCommands permissions.contains ∧
      ∀ applications, besideRole (privilegeFor permissions) applications = applications := by
  have hnone : rootEquivalent.find? permissions.contains = none :=
    List.find?_eq_none.mpr fun key hkey hheld => h key hkey (contains_iff_mem.mp hheld)
  rw [privilegeFor, hnone]
  dsimp only
  split
  · next hempty =>
    exact ⟨fun _ => rfl, (List.isEmpty_iff.mp hempty).symm, fun _ => rfl⟩
  · exact ⟨fun _ => rfl, rfl, fun _ => rfl⟩

/-- The rules of a member who is not root-equivalent, line by line. -/
theorem mem_sudoersFile
    {grants : List ApplicationGrant} {file : List Text} (hnarrow : Narrow permissions)
    (hfile : sudoersFile node username permissions grants = .ok file) :
    validateLinuxUsername username "the member's account name" = .ok () ∧
    ∀ line, line ∈ file ↔
      line ∈ helperHeader username permissions ∨
      line ∈ consoleHeader username (grants.map applicationRules) ∨
      (∃ command ∈ narrowCommands permissions.contains ++
          (grants.map applicationRules).flatMap (·.commands),
        ∃ path, node.commandV command.binary = some path ∧
          commandLine username path command = line) ∨
      ∃ files ∈ (grants.map applicationRules).filterMap ApplicationRules.files,
        node.hasAccount files.account ∧ fileLine username files = line := by
  obtain ⟨script, hscript, hlines⟩ := try_ok_iff.mp hfile
  obtain ⟨_, hname, hbody⟩ := try_ok_iff.mp hscript
  refine ⟨hname, fun line => ?_⟩
  obtain ⟨hheader, hcommands, happlications⟩ := role_of_narrow hnarrow
  simp only [hheader, hcommands, happlications, nil_append] at hbody
  generalize grants.map applicationRules = applications at *
  obtain rfl : script.lines node username = file := Except.ok.inj hlines
  generalize hnarrowed : narrowCommands permissions.contains = narrowed at *
  generalize hhelper : helperHeader username permissions = helper at *
  generalize hconsole : consoleHeader username applications = console at *
  have hscriptLines : script.lines node username =
      (Script.install (helper ++ console)
        (narrowed ++ applications.flatMap (·.commands)).eraseDups
        ((applications.filterMap ApplicationRules.files).map fun files =>
          (files.account, fileLine username files))).lines node username := by
    split at hbody
    · next hempty =>
      simp only [Bool.and_eq_true, List.isEmpty_iff] at hempty
      obtain rfl := Except.ok.inj hbody
      rw [hempty.1.1, hempty.1.2, hempty.2]
      rfl
    · obtain rfl := Except.ok.inj hbody
      rfl
  rw [hscriptLines]
  simp only [Script.lines, mem_append, mem_filterMap, mem_map, mem_filter,
    mem_eraseDups, Option.map_eq_some_iff, or_assoc]
  refine or_congr_right (or_congr_right (or_congr_right ⟨?_, ?_⟩))
  · rintro ⟨_, ⟨⟨files, hmem, rfl⟩, haccount⟩, rfl⟩
    exact ⟨files, hmem, haccount, rfl⟩
  · rintro ⟨files, hmem, haccount, rfl⟩
    exact ⟨_, ⟨⟨files, hmem, rfl⟩, haccount⟩, rfl⟩

/-! ## The file as sudo reads it -/

theorem commandV_cases (h : node.commandV binary = some path) :
    path = binary ∨ ∃ dir ∈ node.path, path = dir ++ '/' :: binary := by
  unfold Node.commandV at h
  split at h
  · split at h
    · exact .inl (Option.some.inj h).symm
    · cases h
  · obtain ⟨dir, hdir, rfl⟩ := mem_map.mp (mem_of_find?_eq_some h)
    exact .inr ⟨dir, hdir, rfl⟩

theorem commandV_baseName
    (h : node.commandV binary = some path) : Text.baseName path = Text.baseName binary := by
  rcases commandV_cases h with rfl | ⟨dir, -, rfl⟩
  · rfl
  · exact Text.baseName_append_slash dir binary

theorem commandV_isWord (hword : Sudo.IsWord binary)
    (h : node.commandV binary = some path) : Sudo.IsWord path := by
  rcases commandV_cases h with rfl | ⟨dir, hdir, rfl⟩
  · exact hword
  · rw [Sudo.IsWord, all_append, all_cons, Bool.and_eq_true, Bool.and_eq_true]
    exact ⟨node.path_wf dir hdir, by decide, hword⟩

theorem commandV_ne_nil (hne : binary ≠ []) (h : node.commandV binary = some path) : path ≠ [] := by
  rcases commandV_cases h with rfl | ⟨dir, -, rfl⟩
  · exact hne
  · simp

/-- Every role command can be written as a rule. -/
abbrev AllowedCommand.Writable (command : AllowedCommand) : Prop :=
  command.binary ≠ [] ∧ Sudo.IsWord command.binary ∧ Sudo.IsPattern command.arguments

theorem narrowCommands_writable {held : Text → Bool} {command : AllowedCommand}
    (h : command ∈ narrowCommands held) : AllowedCommand.Writable command := by
  have hall : ∀ c ∈ narrowCommands fun _ => true, AllowedCommand.Writable c := by decide
  exact hall command (narrowCommands_mono (fun _ _ => rfl) h)

/-- An accepted account name is one word of a rule, and does not make it a comment. -/
theorem user_readable
    (hname : validateLinuxUsername username "the member's account name" = .ok ()) :
    ' ' ∉ username ∧ '#' ∉ username :=
  ⟨not_mem_of_validateLinuxUsername hname (by decide),
    not_mem_of_validateLinuxUsername hname (by decide)⟩

def rootRule (username path arguments : Text) : Sudo.Rule :=
  ⟨username, .account "root", [.program path (some arguments)]⟩

theorem parseRule_commandLine {command : AllowedCommand}
    (hname : validateLinuxUsername username "the member's account name" = .ok ())
    (hpath : Sudo.IsWord path) (hne : path ≠ []) (harguments : Sudo.IsPattern command.arguments) :
    Sudo.parseRule (commandLine username path command) =
      some (rootRule username path command.arguments) := by
  have htext : commandLine username path command =
      (rootRule username path command.arguments).text := by
    have := harguments.1
    simp [commandLine, rootRule, Sudo.Rule.text, Sudo.Runas.text, Sudo.Command.text, Text.join, this]
  have hroot : ')' ∉ (Sudo.Runas.account "root").text ∧
      Sudo.parseRunas (Sudo.Runas.account "root").text = .account "root" := by
    decide
  rw [htext]
  refine Sudo.parseRule_text ⟨user_readable hname, hroot, by simp [rootRule], fun c hc => ?_⟩
  obtain rfl := mem_singleton.mp hc
  exact Sudo.readable_program hpath hne harguments

/-- The file helper as any application's account, with any arguments. -/
def helperRule (username : Text) : Sudo.Rule :=
  ⟨username, .group applicationGroup, [.program fileHelperPath none]⟩

theorem parseRule_helperHeader {line : Text}
    (hname : validateLinuxUsername username "the member's account name" = .ok ())
    (hline : line ∈ helperHeader username permissions) :
    Sudo.parseRule line = some (helperRule username) := by
  have htext : line = (helperRule username).text := by
    unfold helperHeader at hline
    split at hline
    · rw [mem_singleton.mp hline]
      simp [helperRule, Sudo.Rule.text, Sudo.Runas.text, Sudo.Command.text, Text.join]
    · cases hline
  have hgroup : ')' ∉ (Sudo.Runas.group applicationGroup).text ∧
      Sudo.parseRunas (Sudo.Runas.group applicationGroup).text = .group applicationGroup := by
    decide
  have hcommand : (Sudo.Command.program fileHelperPath none).Readable :=
    ⟨by decide, by decide, by decide⟩
  rw [htext]
  refine Sudo.parseRule_text ⟨user_readable hname, hgroup, by simp [helperRule], fun c hc => ?_⟩
  obtain rfl := mem_singleton.mp hc
  exact hcommand

end VibeSsh.MemberAccount
