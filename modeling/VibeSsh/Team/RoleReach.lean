import VibeSsh.Team.MemberAccount

/-! # What a role's docker and systemctl rules reach

The rules name `vibessh-app-*`, and sudo's `*` goes on past the end of the name: a second operand
after the first is part of the same match. docker and systemctl are not modelled; `acts` says which
containers or units a command line acts on, and all that is used of it is that the operands of the
verbs in the rules are acted on. -/

namespace VibeSsh.RoleReach

open Lib Command MemberSudoers MemberAccount List

/-- An operand, as opposed to an option. -/
abbrev IsOperand (t : Text) : Prop := t.head? ≠ some '-'

/-- docker and systemctl take several operands. A unit is given with its suffix. -/
structure TakesOperands (acts : Text → List Text → List Text) : Prop where
  docker : ∀ verb ∈ ["start", "stop", "restart", "kill", "inspect"].map String.toList,
    ∀ names, (∀ n ∈ names, IsOperand n) → acts docker (verb :: names) = names
  systemctl : ∀ verb ∈ [["start"], ["stop"], ["restart"], ["status", "--no-pager"]],
    ∀ names, (∀ n ∈ names, IsOperand n ∧ Text.endsWith ".service" n = true) →
      acts systemctl (verb.map String.toList ++ names) = names

/-- Every container or unit the member's docker and systemctl command lines act on is VibeSSH's. -/
def ReachesOnlyOwn (acts : Text → List Text → List Text) (node : Node) (file : List Text) : Prop :=
  ∀ binary ∈ [docker, systemctl], ∀ request : Sudo.Request,
    node.commandV binary = some request.path → Sudo.permits node.inGroup file request = true →
    ∀ name ∈ acts binary request.arguments, Text.startsWith "vibessh-app-" name = true

variable {binary : Text}

section

variable {node : Node} {username : Text} {permissions : List Text} {grants : List ApplicationGrant}
  {file : List Text}

variable {command : AllowedCommand}

/-- A listed command is permitted with every argument list its pattern accepts. -/
theorem permits_command (hnarrow : Narrow permissions)
    (hfile : sudoersFile node username permissions grants = .ok file)
    (hcommand : command ∈ narrowCommands permissions.contains ++
      (grants.map applicationRules).flatMap (·.commands))
    (hwritable : AllowedCommand.Writable command) {path : Text}
    (hpath : node.commandV command.binary = some path) {arguments : List Text}
    (haccepts : Glob.accepts command.arguments (Text.join [' '] arguments) = true) :
    Sudo.permits node.inGroup file ⟨username, "root", path, arguments⟩ = true := by
  obtain ⟨hname, hmem⟩ := mem_sudoersFile hnarrow hfile
  obtain ⟨hne, hword, hpattern⟩ := hwritable
  refine Sudo.permits_iff.mpr ⟨commandLine username path command, (hmem _).mpr ?_, _,
    parseRule_commandLine hname (commandV_isWord hword hpath) (commandV_ne_nil hne hpath) hpattern,
    ?_⟩
  · exact .inr (.inr (.inl ⟨command, hcommand, path, hpath, rfl⟩))
  · simp [rootRule, Sudo.Rule.permits, Sudo.Runas.permits, Sudo.Command.permits,
      Sudo.Request.line, haccepts]

theorem narrowCommands_baseName {held : Text → Bool} (hview : held "applications.view" = false)
    (hlifecycle : held "applications.lifecycle" = false) (h : command ∈ narrowCommands held) :
    ∀ binary ∈ [docker, systemctl], Text.baseName command.binary ≠ Text.baseName binary := by
  have hall : ∀ c ∈ [⟨consoleWriterPath, ['*']⟩] ++ firewallCommands, ∀ binary ∈ [docker, systemctl],
      Text.baseName c.binary ≠ Text.baseName binary := by
    decide
  refine hall command ?_
  simp only [narrowCommands, hview, hlifecycle, mem_append] at h ⊢
  rcases h with ((h | h) | h) | h <;> split at h <;> simp_all

/-- Without the two permissions no docker or systemctl command line is permitted. -/
theorem not_permits_of_neither (hnarrow : Narrow permissions)
    (hfile : sudoersFile node username permissions [] = .ok file)
    (hview : "applications.view".toList ∉ permissions)
    (hlifecycle : "applications.lifecycle".toList ∉ permissions)
    (hbinary : binary ∈ [docker, systemctl]) {request : Sudo.Request}
    (hpath : node.commandV binary = some request.path) :
    ¬Sudo.permits node.inGroup file request = true := by
  intro hpermits
  obtain ⟨hname, hmem⟩ := mem_sudoersFile hnarrow hfile
  obtain ⟨line, hline, rule, hparse, hrule⟩ := Sudo.permits_iff.mp hpermits
  have hbase := commandV_baseName hpath
  rcases (hmem line).mp hline with hline | hline | ⟨command, hcommand, path, hcpath, rfl⟩ | hline
  · rw [parseRule_helperHeader hname hline] at hparse
    obtain rfl := Option.some.inj hparse
    have heq : request.path = fileHelperPath := by
      simpa [helperRule, Sudo.Rule.permits, Sudo.Command.permits] using
        (Bool.and_eq_true_iff.mp hrule).2
    have hother : ∀ binary ∈ [docker, systemctl],
        Text.baseName fileHelperPath ≠ Text.baseName binary := by
      decide
    rw [heq] at hbase
    exact hother binary hbinary hbase
  · cases hline
  · have hcommand : command ∈ narrowCommands permissions.contains := by simpa using hcommand
    obtain ⟨hne, hword, hpattern⟩ := narrowCommands_writable hcommand
    rw [parseRule_commandLine hname (commandV_isWord hword hcpath) (commandV_ne_nil hne hcpath)
      hpattern] at hparse
    obtain rfl := Option.some.inj hparse
    have heq : request.path = path := by
      have := (Bool.and_eq_true_iff.mp hrule).2
      simp only [rootRule, Sudo.Command.permits, any_cons, any_nil, Bool.or_false,
        Bool.and_eq_true, beq_iff_eq] at this
      exact this.1
    rw [heq, commandV_baseName hcpath] at hbase
    exact narrowCommands_baseName (by simpa using hview) (by simpa using hlifecycle) hcommand
      binary hbinary hbase
  · obtain ⟨files, hfiles, -⟩ := hline
    cases hfiles

end

/-- A second operand after an application's container. -/
def containers : List Text := ["vibessh-app-lobby", "postgres"]

def units : List Text := ["vibessh-app-lobby.service", "ssh.service"]

/-- Each wildcard rule accepts a command line that acts on something else too. -/
theorem exists_command_beyond {acts : Text → List Text → List Text} (hacts : TakesOperands acts)
    {permissions : List Text}
    (h : "applications.view".toList ∈ permissions ∨ "applications.lifecycle".toList ∈ permissions)
    (hbinary : binary ∈ [docker, systemctl]) :
    ∃ command ∈ narrowCommands permissions.contains, command.binary = binary ∧
      ∃ arguments other, Glob.accepts command.arguments (Text.join [' '] arguments) = true ∧
        other ∈ acts binary arguments ∧ Text.startsWith "vibessh-app-".toList other = false := by
  have hdocker := fun verb hverb => hacts.docker verb hverb containers (by decide)
  have hsystemctl := fun verb hverb => hacts.systemctl verb hverb units (by decide)
  rcases h with h | h
  · have hview := viewCommands_subset (contains_iff_mem.mpr h)
    rcases mem_cons.mp hbinary with rfl | hbinary
    · refine ⟨⟨docker, "inspect vibessh-app-*".toList⟩, hview (by decide), rfl,
        "inspect".toList :: containers, "postgres".toList, by decide, ?_, by decide⟩
      rw [hdocker _ (by decide)]
      decide
    · obtain rfl := mem_singleton.mp hbinary
      refine ⟨⟨systemctl, "status --no-pager vibessh-app-*".toList⟩, hview (by decide), rfl,
        ["status", "--no-pager"].map String.toList ++ units, "ssh.service".toList, by decide, ?_,
        by decide⟩
      rw [hsystemctl _ (by decide)]
      decide
  · have hlifecycle := lifecycleCommands_subset (contains_iff_mem.mpr h)
    rcases mem_cons.mp hbinary with rfl | hbinary
    · refine ⟨⟨docker, "stop vibessh-app-*".toList⟩, hlifecycle (by decide), rfl,
        "stop".toList :: containers, "postgres".toList, by decide, ?_, by decide⟩
      rw [hdocker _ (by decide)]
      decide
    · obtain rfl := mem_singleton.mp hbinary
      refine ⟨⟨systemctl, "stop vibessh-app-*".toList⟩, hlifecycle (by decide), rfl,
        ["stop"].map String.toList ++ units, "ssh.service".toList, by decide, ?_, by decide⟩
      rw [hsystemctl _ (by decide)]
      decide

/-- **A role's rules stop at VibeSSH's own names only if it has none of the rules with a wildcard.**
-/
theorem role_reaches_only_own_iff {acts : Text → List Text → List Text} (hacts : TakesOperands acts)
    {node : Node} {username : Text} {permissions file : List Text} (hnarrow : Narrow permissions)
    (hfile : sudoersFile node username permissions [] = .ok file) :
    ReachesOnlyOwn acts node file ↔
      (node.commandV docker = none ∧ node.commandV systemctl = none) ∨
      ("applications.view".toList ∉ permissions ∧ "applications.lifecycle".toList ∉ permissions) := by
  constructor
  · intro honly
    by_contra hneither
    obtain ⟨hinstalled, hheld⟩ := not_or.mp hneither
    have hheld : "applications.view".toList ∈ permissions ∨
        "applications.lifecycle".toList ∈ permissions := by
      by_contra hnone
      exact hheld (not_or.mp hnone)
    have hinstalled : ∃ binary ∈ [docker, systemctl], ∃ path, node.commandV binary = some path := by
      by_contra hnone
      refine hinstalled ⟨?_, ?_⟩ <;>
        exact Option.eq_none_iff_forall_ne_some.mpr fun p hp => hnone ⟨_, by decide, p, hp⟩
    obtain ⟨binary, hbinary, path, hpath⟩ := hinstalled
    obtain ⟨command, hcommand, rfl, arguments, other, haccepts, hother, hname⟩ :=
      exists_command_beyond hacts hheld hbinary
    have hown := honly command.binary hbinary _ hpath
      (permits_command hnarrow hfile (mem_append_left _ hcommand)
        (narrowCommands_writable hcommand) hpath haccepts) other hother
    rw [hname] at hown
    cases hown
  · rintro (⟨hdocker, hsystemctl⟩ | ⟨hview, hlifecycle⟩) binary hbinary request hpath hpermits
    · rcases mem_cons.mp hbinary with rfl | hbinary
      · rw [hdocker] at hpath
        cases hpath
      · obtain rfl := mem_singleton.mp hbinary
        rw [hsystemctl] at hpath
        cases hpath
    · exact absurd hpermits
        (not_permits_of_neither hnarrow hfile hview hlifecycle hbinary hpath)

/-- Every argument after the verb that is no option. -/
def operands (_ : Text) (arguments : List Text) : List Text :=
  arguments.tail.filter fun a => a.head? != some '-'

theorem operands_of_names {names : List Text} (h : ∀ n ∈ names, IsOperand n) :
    names.filter (fun a => a.head? != some '-') = names :=
  filter_eq_self.mpr fun n hn => by simpa using h n hn

theorem operands_takesOperands : TakesOperands operands where
  docker := fun _ _ _ hnames => operands_of_names hnames
  systemctl := by
    intro verb hverb names hnames
    have hfilter := operands_of_names fun n hn => (hnames n hn).1
    simp only [mem_cons, not_mem_nil, or_false] at hverb
    rcases hverb with rfl | rfl | rfl | rfl <;> exact hfilter

/-- A Node with docker and systemctl in `/usr/bin`. -/
def dockerNode : Node where
  path := ["/usr/bin"]
  executable := fun p => ["/usr/bin/docker".toList, "/usr/bin/systemctl".toList].contains p
  hasAccount := fun _ => false
  inGroup := fun _ _ => false
  path_wf := usrBin_isWord

def member : Text := "vibessh-m-0123456789ab"

theorem filesRole_reaches_only_own :
    sudoersFile dockerNode member ["applications.files.read"] [] =
        .ok [(helperRule member).text] ∧
      ReachesOnlyOwn operands dockerNode [(helperRule member).text] := by
  have hfile : sudoersFile dockerNode member ["applications.files.read"] [] =
      .ok [(helperRule member).text] := by
    rfl
  exact ⟨hfile, (role_reaches_only_own_iff operands_takesOperands (by decide) hfile).mpr
    (.inr (by decide))⟩

theorem view_inspects_postgres :
    let arguments := "inspect".toList :: containers
    Narrow ["applications.view".toList] ∧
      (sudoersFile dockerNode member ["applications.view".toList] []).map (fun file =>
        Sudo.permits dockerNode.inGroup file
          ⟨member, "root".toList, "/usr/bin/docker".toList, arguments⟩) = .ok true ∧
      dockerNode.commandV docker = some "/usr/bin/docker".toList ∧
      operands docker arguments = ["vibessh-app-lobby".toList, "postgres".toList] := by
  refine ⟨by decide, by rfl, by decide, by decide⟩

end VibeSsh.RoleReach
