import VibeSsh.Docker.Container
import VibeSsh.Team.ReadOnlyGrant
import VibeSsh.Team.RoleReach

/-! # More permissions, more commands

What a member's sudoers file lets through grows with their permissions. -/

namespace VibeSsh.RoleOrder

open Lib Command MemberSudoers MemberAccount ReadOnlyGrant RoleReach List

/-! ## The lines of the file -/

/-- The rule that lets everything through. -/
def everything (username : Text) : Sudo.Rule := ⟨username, .all, [.all]⟩

variable {username : Text} {permissions more : List Text} {grant : ApplicationGrant}
  {command : AllowedCommand} {c : Char}

theorem parseRule_everything
    (hname : validateLinuxUsername username "the member's account name" = .ok ()) :
    Sudo.parseRule (username ++ " ALL=(ALL) NOPASSWD: ALL") = some (everything username) := by
  have htext : username ++ " ALL=(ALL) NOPASSWD: ALL" = (everything username).text := by
    simp [everything, Sudo.Rule.text, Sudo.Runas.text, Sudo.Command.text, Text.join]
  have hrunas : ')' ∉ Sudo.Runas.all.text ∧ Sudo.parseRunas Sudo.Runas.all.text = .all := by decide
  have hall : Sudo.Command.all.Readable := ⟨by decide, by decide, by decide⟩
  rw [htext]
  refine Sudo.parseRule_text ⟨user_readable hname, hrunas, by simp [everything], fun c hc => ?_⟩
  obtain rfl := mem_singleton.mp hc
  exact hall

/-- The file of a role that stands for root. -/
theorem file_of_root {node : Node}
    {grants : List ApplicationGrant} {file : List Text} (hroot : ¬ Narrow permissions)
    (hfile : sudoersFile node username permissions grants = .ok file) :
    validateLinuxUsername username "the member's account name" = .ok () ∧
    ∃ reason ∈ rootEquivalent,
      file = ("# " ++ reason ++ " cannot be narrowed - see member_sudoers.rs") ::
        (username ++ " ALL=(ALL) NOPASSWD: ALL") :: helperHeader username permissions := by
  obtain ⟨script, hscript, hlines⟩ := try_ok_iff.mp hfile
  obtain ⟨_, hname, hbody⟩ := try_ok_iff.mp hscript
  refine ⟨hname, ?_⟩
  obtain ⟨reason, hreason⟩ : ∃ reason, rootEquivalent.find? permissions.contains = some reason := by
    by_contra hnone
    rw [← Option.isSome_iff_exists, Bool.not_eq_true, Option.isSome_eq_false_iff,
      Option.isNone_iff_eq_none] at hnone
    exact hroot fun key hkey hheld =>
      List.find?_eq_none.mp hnone key hkey (contains_iff_mem.mpr hheld)
  have hprivilege : privilegeFor permissions = .root reason := by
    rw [privilegeFor, hreason]
  simp only [hprivilege, roleHeader, besideRole, roleCommands, consoleHeader, filterMap_nil,
    map_nil, append_nil, flatMap_nil, eraseDups_nil] at hbody
  obtain rfl := Except.ok.inj hbody
  refine ⟨reason, mem_of_find?_eq_some hreason, ?_⟩
  simpa [Script.lines, pure, Except.pure] using (Except.ok.inj hlines).symm

theorem user_of_parseRule {rest : Text} {rule : Sudo.Rule} (hblank : ' ' ∉ username)
    (h : Sudo.parseRule (username ++ ' ' :: rest) = some rule) : rule.user = username := by
  unfold Sudo.parseRule at h
  rw [Text.splitOnce_append hblank] at h
  simp only [Option.bind_eq_bind, Option.bind_some] at h
  obtain ⟨⟨host, _⟩, -, h⟩ := Option.bind_eq_some_iff.mp h
  obtain ⟨⟨runas, _⟩, -, h⟩ := Option.bind_eq_some_iff.mp h
  obtain ⟨⟨tag, commands⟩, -, h⟩ := Option.bind_eq_some_iff.mp h
  dsimp only at h
  split_ifs at h
  · exact (congrArg Sudo.Rule.user (Option.some.inj h)).symm

/-! ## The rules of one application -/

/-- The tool that runs the application, and its container or unit. -/
def binaryOf : GrantRuntime → Text
  | .docker => docker
  | .systemd => systemctl

def targetOf (grant : ApplicationGrant) : Text :=
  match grant.runtime with
  | .docker => "vibessh-app-" ++ grant.applicationId.display
  | .systemd => "vibessh-app-" ++ grant.applicationId.display ++ ".service"

/-- What may stand before the name. -/
def verbs : List Text :=
  ["inspect", "logs", "logs *", "start", "stop", "restart", "kill", "status --no-pager"].map
    String.toList

theorem mem_commands (h : command ∈ (applicationRules grant).commands) :
    ∃ verb ∈ verbs, command = ⟨binaryOf grant.runtime, verb ++ ' ' :: targetOf grant⟩ := by
  rw [(applicationRules_runtime grant).1, runtimeRules] at h
  cases hruntime : grant.runtime with
  | docker =>
    simp only [hruntime, mem_append, mem_cons, not_mem_nil, or_false] at h
    simp only [targetOf, binaryOf, hruntime]
    rcases h with (rfl | rfl | rfl) | h
    · exact ⟨"inspect", by decide, by simp⟩
    · exact ⟨"logs", by decide, by simp⟩
    · exact ⟨"logs *", by decide, by simp⟩
    · split at h
      · obtain ⟨verb, hverb, rfl⟩ := mem_map.mp h
        have hall : ∀ verb ∈ ["start", "stop", "restart", "kill"], verb.toList ∈ verbs := by decide
        exact ⟨verb.toList, hall verb hverb, rfl⟩
      · cases h
  | systemd =>
    simp only [hruntime, mem_append, mem_cons, not_mem_nil, or_false] at h
    simp only [targetOf, binaryOf, hruntime]
    rcases h with rfl | h
    · exact ⟨"status --no-pager", by decide, by simp⟩
    · split at h
      · obtain ⟨verb, hverb, rfl⟩ := mem_map.mp h
        have hall : ∀ verb ∈ ["start", "stop", "restart"], verb.toList ∈ verbs := by decide
        exact ⟨verb.toList, hall verb hverb, rfl⟩
      · cases h

theorem toNat_of_mem_display {id : Uuid} (hc : c ∈ id.display) : 45 ≤ c.toNat ∧ c.toNat ≤ 122 := by
  rcases Docker.display_chars hc with rfl | hdigit | ⟨hlo, hhi⟩
  · decide
  · simp only [Char.isDigit, Bool.and_eq_true, decide_eq_true_eq, ge_iff_le,
      UInt32.le_iff_toNat_le] at hdigit
    obtain ⟨hlo, hhi⟩ := hdigit
    change 48 ≤ c.toNat at hlo
    change c.toNat ≤ 57 at hhi
    omega
  · rw [Char.le_def, UInt32.le_iff_toNat_le] at hlo hhi
    change 97 ≤ c.toNat at hlo
    change c.toNat ≤ 102 at hhi
    omega

/-- The characters of a name are neither blanks nor the ones sudoers reads for itself. -/
theorem toNat_of_mem_targetOf (hc : c ∈ targetOf grant) : 45 ≤ c.toNat ∧ c.toNat ≤ 122 := by
  have hfixed : (("vibessh-app-".toList ++ ".service".toList).all fun c =>
      45 ≤ c.toNat && c.toNat ≤ 122) = true := by decide
  have hfixed' : ∀ c, c ∈ "vibessh-app-".toList ∨ c ∈ ".service".toList →
      45 ≤ c.toNat ∧ c.toNat ≤ 122 := fun c hc => by
    simpa using all_eq_true.mp hfixed c (mem_append.mpr hc)
  unfold targetOf at hc
  split at hc
  · rcases mem_append.mp hc with hc | hc
    · exact hfixed' c (.inl hc)
    · exact toNat_of_mem_display hc
  · rcases mem_append.mp hc with hc | hc
    · rcases mem_append.mp hc with hc | hc
      · exact hfixed' c (.inl hc)
      · exact toNat_of_mem_display hc
    · exact hfixed' c (.inr hc)

theorem not_mem_targetOf (grant : ApplicationGrant) (hc : c.toNat < 45) : c ∉ targetOf grant := by
  intro hmem
  have hbounds := toNat_of_mem_targetOf hmem
  omega

theorem targetOf_eq_cons (grant : ApplicationGrant) :
    ∃ rest, targetOf grant = "vibessh-app-" ++ rest := by
  unfold targetOf
  split
  · exact ⟨_, rfl⟩
  · exact ⟨_, append_assoc ..⟩

theorem isPattern_of_bounds {t : Text} (hne : t ≠ [])
    (h : ∀ c ∈ t, 45 ≤ c.toNat ∧ c.toNat ≤ 122) : Sudo.IsPattern t := by
  refine ⟨hne, fun hcomma => absurd (h _ hcomma).1 (by decide), ?_⟩
  cases hlast : t.getLast? with
  | none => rfl
  | some c =>
    obtain ⟨hlo, hhi⟩ := h c (mem_of_getLast? hlast)
    have hspace : Text.isWhitespace c = false := by
      unfold Text.isWhitespace
      simp only [Bool.or_eq_false_iff, Bool.and_eq_false_iff, decide_eq_false_iff_not,
        contains_eq_mem, mem_cons, not_mem_nil, or_false]
      omega
    simp [hspace]

theorem applicationCommands_writable
    (h : command ∈ (applicationRules grant).commands) : AllowedCommand.Writable command := by
  obtain ⟨verb, hverb, rfl⟩ := mem_commands h
  have hbinary : ∀ runtime, binaryOf runtime ≠ [] ∧ Sudo.IsWord (binaryOf runtime) := by
    intro runtime
    cases runtime <;> exact ⟨by decide, by decide⟩
  have hcomma : ∀ verb ∈ verbs, ',' ∉ verb ++ [' '] := by decide
  obtain ⟨rest, hrest⟩ := targetOf_eq_cons grant
  have htarget : Sudo.IsPattern (targetOf grant) :=
    isPattern_of_bounds (by rw [hrest]; simp) fun c hc => toNat_of_mem_targetOf hc
  have hpattern := htarget.append (hcomma verb hverb)
  rw [append_assoc, singleton_append] at hpattern
  exact ⟨(hbinary grant.runtime).1, (hbinary grant.runtime).2, hpattern⟩

/-- The applications a rule names: the words of its pattern that start like one. -/
def namedIn (arguments : Text) : List Text :=
  (arguments.splitOn ' ').filter (Text.startsWith "vibessh-app-")

theorem namedIn_command (h : command ∈ (applicationRules grant).commands) :
    namedIn command.arguments = [targetOf grant] := by
  obtain ⟨verb, hverb, rfl⟩ := mem_commands h
  have hnone : ∀ verb ∈ verbs,
      (verb.splitOn ' ').filter (Text.startsWith "vibessh-app-") = [] := by decide
  have hsingle : (targetOf grant).splitOn ' ' = [targetOf grant] :=
    Text.splitOn_of_notMem (not_mem_targetOf grant (by decide))
  obtain ⟨rest, hrest⟩ := targetOf_eq_cons grant
  have hself : Text.startsWith "vibessh-app-" (targetOf grant) = true := by
    rw [hrest]
    exact isPrefixOf_iff_prefix.mpr (prefix_append ..)
  unfold namedIn
  rw [splitOn_append_cons_self, hsingle, filter_append, hnone verb hverb,
    nil_append, filter_cons_of_pos hself, filter_nil]

/-- A command line the rule accepts ends with the name. -/
theorem target_of_accepts (h : command ∈ (applicationRules grant).commands) {line : Text}
    (haccepts : Glob.accepts command.arguments line = true) : (' ' :: targetOf grant) <:+ line := by
  obtain ⟨verb, hverb, rfl⟩ := mem_commands h
  have hstar : '*' ∉ ' ' :: targetOf grant := by
    simpa using not_mem_targetOf grant (by decide)
  have hverbs : ∀ verb ∈ verbs, '*' ∉ verb ∨ verb = "logs " ++ ['*'] := by decide
  rcases hverbs verb hverb with hliteral | rfl
  · obtain ⟨rest, rfl, hrest⟩ := (Glob.accepts_append hliteral).mp haccepts
    rw [(Glob.accepts_literal_iff hstar).mp hrest]
    exact suffix_append ..
  · rw [append_assoc, Glob.accepts_append (by decide)] at haccepts
    obtain ⟨rest, rfl, hrest⟩ := haccepts
    exact ((Glob.accepts_above_iff hstar).mp hrest).trans (suffix_append ..)

theorem console_of_grant {id : Uuid}
    (h : (applicationRules grant).console = some id) : id = grant.applicationId := by
  have hconsole : (runtimeRules grant).console = none ∨
      (runtimeRules grant).console = some grant.applicationId := by
    unfold runtimeRules
    cases grant.runtime with
    | docker => exact (ite_eq_or_eq _ _ _).symm
    | systemd => exact .inl rfl
  rw [(applicationRules_runtime grant).2] at h
  rcases hconsole with hconsole | hconsole
  · rw [hconsole] at h
    cases h
  · exact (Option.some.inj (hconsole.symm.trans h)).symm

theorem parseRule_consoleLine
    (hname : validateLinuxUsername username "the member's account name" = .ok ()) (id : Uuid) :
    Sudo.parseRule (username ++ " ALL=(root) NOPASSWD: " ++ consoleWriterPath ++
      ' ' :: id.display) = some (rootRule username consoleWriterPath id.display) := by
  have hid : Sudo.IsPattern id.display :=
    isPattern_of_bounds (ne_nil_of_length_pos (by rw [Docker.length_display]; omega))
      fun c hc => toNat_of_mem_display hc
  have hread := @parseRule_commandLine username consoleWriterPath ⟨consoleWriterPath, id.display⟩
    hname (by decide) (by decide) hid
  simpa only [commandLine, isEmpty_eq_false_iff.mpr hid.1, Bool.false_eq_true, if_false]
    using hread

/-! ## More permissions -/

theorem helperHeader_mono (hmore : permissions ⊆ more)
    (username : Text) : helperHeader username permissions ⊆ helperHeader username more := by
  unfold helperHeader
  split
  · next hheld =>
    obtain ⟨key, hkey, hfiles⟩ := any_eq_true.mp hheld
    have hheld' : mayUseTheFileHelper more = true :=
      any_eq_true.mpr ⟨key, hmore hkey, hfiles⟩
    rw [if_pos hheld']
    exact List.Subset.refl _
  · exact nil_subset _

theorem narrowCommands_no_shell {held : Text → Bool} (h : command ∈ narrowCommands held) :
    Text.baseName command.binary ≠ Text.baseName "/bin/sh" := by
  have hall : ∀ c ∈ narrowCommands fun _ => true,
      Text.baseName c.binary ≠ Text.baseName "/bin/sh" := by decide
  exact hall command (narrowCommands_mono (fun _ _ => rfl) h)

/-! ## What the rules let through -/

section

variable {node : Node} {username : Text} {permissions : List Text} {grants : List ApplicationGrant}
  {file : List Text}

theorem lines_of_narrow (hnarrow : Narrow permissions)
    (hfile : sudoersFile node username permissions grants = .ok file) :
    ∀ line ∈ file, ∃ rest, line = username ++ ' ' :: rest := by
  intro line hline
  rcases ((mem_sudoersFile hnarrow hfile).2 line).mp hline with h | h | ⟨c, -, path, -, rfl⟩ |
    ⟨files, -, -, rfl⟩
  · unfold helperHeader at h
    split at h
    · rw [mem_singleton.mp h]
      exact ⟨_, by simp; rfl⟩
    · cases h
  · obtain ⟨id, -, rfl⟩ := mem_map.mp h
    exact ⟨_, by simp; rfl⟩
  · exact ⟨_, by simp [commandLine]; rfl⟩
  · exact ⟨_, by simp [fileLine]; rfl⟩

variable {request : Sudo.Request}

theorem user_of_permits (hfile : sudoersFile node username permissions grants = .ok file)
    (hpermits : Sudo.permits node.inGroup file request = true) : request.user = username := by
  obtain ⟨line, hline, rule, hparse, hrule⟩ := Sudo.permits_iff.mp hpermits
  have huser : request.user = rule.user := by
    simp only [Sudo.Rule.permits, Bool.and_eq_true, beq_iff_eq] at hrule
    exact hrule.1.1
  rw [huser]
  by_cases hnarrow : Narrow permissions
  · obtain ⟨rest, rfl⟩ := lines_of_narrow hnarrow hfile line hline
    exact user_of_parseRule (user_readable (mem_sudoersFile hnarrow hfile).1).1 hparse
  · obtain ⟨hname, reason, hreason, rfl⟩ := file_of_root hnarrow hfile
    have hcomment : ∀ reason ∈ rootEquivalent, Sudo.parseRule
        ("# " ++ reason ++ " cannot be narrowed - see member_sudoers.rs") = none := by
      decide
    rcases mem_cons.mp hline with rfl | hline
    · rw [hcomment reason hreason] at hparse
      cases hparse
    · rcases mem_cons.mp hline with rfl | hline
      · rw [parseRule_everything hname] at hparse
        cases hparse
        rfl
      · rw [parseRule_helperHeader hname hline] at hparse
        cases hparse
        rfl

theorem permits_of_root (hroot : ¬ Narrow permissions)
    (hfile : sudoersFile node username permissions grants = .ok file)
    (huser : request.user = username) : Sudo.permits node.inGroup file request = true := by
  obtain ⟨hname, reason, -, rfl⟩ := file_of_root hroot hfile
  refine Sudo.permits_iff.mpr ⟨_, by simp, everything username, parseRule_everything hname, ?_⟩
  simp [everything, Sudo.Rule.permits, Sudo.Runas.permits, Sudo.Command.permits, huser]

theorem permits_mono {more : List Text} {file' : List Text} (hmore : permissions ⊆ more)
    (hfile : sudoersFile node username permissions grants = .ok file)
    (hfile' : sudoersFile node username more grants = .ok file')
    (hpermits : Sudo.permits node.inGroup file request = true) :
    Sudo.permits node.inGroup file' request = true := by
  by_cases hnarrow' : Narrow more
  · have hnarrow : Narrow permissions := fun key hkey hheld => hnarrow' key hkey (hmore hheld)
    obtain ⟨line, hline, hrest⟩ := Sudo.permits_iff.mp hpermits
    refine Sudo.permits_iff.mpr ⟨line, ((mem_sudoersFile hnarrow' hfile').2 line).mpr ?_, hrest⟩
    rcases ((mem_sudoersFile hnarrow hfile).2 line).mp hline with h | h | ⟨c, hc, h⟩ | h
    · exact .inl (helperHeader_mono hmore username h)
    · exact .inr (.inl h)
    · refine .inr (.inr (.inl ⟨c, ?_, h⟩))
      rcases mem_append.mp hc with hc | hc
      · refine mem_append_left _ (narrowCommands_mono (fun key hkey => ?_) hc)
        exact contains_iff_mem.mpr (hmore (contains_iff_mem.mp hkey))
      · exact mem_append_right _ hc
    · exact .inr (.inr (.inr h))
  · exact permits_of_root hnarrow' hfile' (user_of_permits hfile hpermits)

/-- A role that can be narrowed gives no root shell. -/
theorem not_permits_shell (hnarrow : Narrow permissions)
    (hfile : sudoersFile node username permissions grants = .ok file) :
    ¬ Sudo.permits node.inGroup file ⟨username, "root", "/bin/sh", []⟩ = true := by
  intro hpermits
  obtain ⟨hname, hmem⟩ := mem_sudoersFile hnarrow hfile
  obtain ⟨line, hline, rule, hparse, hrule⟩ := Sudo.permits_iff.mp hpermits
  obtain ⟨command, hcommand, hrun⟩ := any_eq_true.mp (Bool.and_eq_true_iff.mp hrule).2
  suffices hpath : ∃ path arguments, command = .program path arguments ∧
      Text.baseName path ≠ Text.baseName "/bin/sh" by
    obtain ⟨path, arguments, rfl, hne⟩ := hpath
    have heq : "/bin/sh" = path := by
      cases arguments with
      | none => exact beq_iff_eq.mp hrun
      | some pattern => exact beq_iff_eq.mp (Bool.and_eq_true_iff.mp hrun).1
    exact hne (congrArg Text.baseName heq.symm)
  have hrules : ∀ {path arguments : Text}, command ∈ (rootRule username path arguments).commands →
      Text.baseName path ≠ Text.baseName "/bin/sh" → ∃ path arguments,
        command = .program path arguments ∧
          Text.baseName path ≠ Text.baseName "/bin/sh" :=
    fun hc hne => ⟨_, _, mem_singleton.mp hc, hne⟩
  rcases (hmem line).mp hline with h | h | ⟨c, hc, path, hpath, rfl⟩ | ⟨files, hfiles, -, rfl⟩
  · rw [parseRule_helperHeader hname h] at hparse
    cases hparse
    exact ⟨_, _, mem_singleton.mp hcommand, by decide⟩
  · obtain ⟨id, -, rfl⟩ := mem_map.mp h
    rw [parseRule_consoleLine hname id] at hparse
    cases hparse
    exact hrules hcommand (by decide)
  · obtain ⟨⟨hne, hword, hpattern⟩, hbase⟩ : AllowedCommand.Writable c ∧
        Text.baseName c.binary ≠ Text.baseName "/bin/sh" := by
      rcases mem_append.mp hc with hc | hc
      · exact ⟨narrowCommands_writable hc, narrowCommands_no_shell hc⟩
      · obtain ⟨rules, hrules, hc⟩ := mem_flatMap.mp hc
        obtain ⟨grant, -, rfl⟩ := mem_map.mp hrules
        have hbinary : ∀ runtime, Text.baseName (binaryOf runtime) ≠
            Text.baseName "/bin/sh" := by
          intro runtime
          cases runtime <;> decide
        refine ⟨applicationCommands_writable hc, ?_⟩
        obtain ⟨verb, -, rfl⟩ := mem_commands hc
        exact hbinary grant.runtime
    rw [parseRule_commandLine hname (commandV_isWord hword hpath) (commandV_ne_nil hne hpath)
      hpattern] at hparse
    cases hparse
    exact hrules hcommand (by rw [commandV_baseName hpath]; exact hbase)
  · obtain ⟨rules, hrules, hsome⟩ := mem_filterMap.mp hfiles
    obtain ⟨grant, -, rfl⟩ := mem_map.mp hrules
    rw [parseRule_fileLine hname hsome] at hparse
    cases hparse
    have hentries : ∀ c ∈ files.entries, ∃ arguments, c = .program fileHelperPath arguments := by
      intro c hc
      unfold FileRule.entries at hc
      split at hc
      · exact ⟨_, mem_singleton.mp hc⟩
      · obtain ⟨op, -, hc⟩ := mem_flatMap.mp hc
        rcases mem_cons.mp hc with rfl | hc
        · exact ⟨_, rfl⟩
        · exact ⟨_, mem_singleton.mp hc⟩
    obtain ⟨arguments, rfl⟩ := hentries command hcommand
    exact ⟨_, _, rfl, by decide⟩

end

/-! ## A member who has earned nothing -/

/-- The permissions that earn something on a Node. -/
def privilegedKeys : List Text :=
  rootEquivalent ++ ["applications.view", "applications.lifecycle", "applications.console",
    "node.firewall", "applications.files.read", "applications.files.write"].map String.toList

def NoRules (rules : ApplicationRules) : Prop :=
  rules.commands = [] ∧ rules.console = none ∧ rules.files = none

theorem script_removes {applications : List ApplicationRules}
    (hname : validateLinuxUsername username "the member's account name" = .ok ())
    (hnone : ∀ key ∈ permissions, key ∉ privilegedKeys) (hrules : ∀ rules ∈ applications, NoRules rules) :
    sudoersScript username permissions applications = .ok .remove := by
  have hheld : ∀ key ∈ privilegedKeys, permissions.contains key = false := fun key hkey => by
    rw [← Bool.not_eq_true, contains_iff_mem]
    exact fun hmem => hnone key hmem hkey
  have hnarrow : Narrow permissions := fun key hkey hmem =>
    hnone key hmem (mem_append_left _ hkey)
  have hcommands : narrowCommands permissions.contains = [] := by
    unfold narrowCommands
    rw [hheld _ (by decide), hheld _ (by decide), hheld _ (by decide), hheld _ (by decide)]
    rfl
  have hhelper : mayUseTheFileHelper permissions = false := by
    rw [mayUseTheFileHelper, any_eq_false]
    intro key hmem hkey
    refine hnone key hmem ?_
    simp only [Bool.or_eq_true, beq_iff_eq] at hkey
    rcases hkey with rfl | rfl <;> decide
  have hflat : applications.flatMap (·.commands) = [] :=
    flatMap_eq_nil_iff.mpr fun rules h => (hrules rules h).1
  have hconsole : applications.filterMap ApplicationRules.console = [] :=
    filterMap_eq_nil_iff.mpr fun rules h => (hrules rules h).2.1
  have hfiles : applications.filterMap ApplicationRules.files = [] :=
    filterMap_eq_nil_iff.mpr fun rules h => (hrules rules h).2.2
  obtain ⟨hheader, hrole, hbeside⟩ := role_of_narrow hnarrow
  unfold sudoersScript
  rw [hname]
  simp [bind, Except.bind, hheader, hrole, hbeside, hcommands, hflat, hfiles, helperHeader, hhelper,
    consoleHeader, hconsole, pure, Except.pure]

/-! ## The whole -/

/-- **The member's rules grow with their permissions and are no wider than they say**: root is given
for the permissions that stand for it and no others, a rule of an application names that application
and nothing else, and nothing earned means no file. -/
theorem rules_follow_permissions (node : Node) (username : Text) (grants : List ApplicationGrant) :
    (∀ permissions more file file', permissions ⊆ more →
      sudoersFile node username permissions grants = .ok file →
      sudoersFile node username more grants = .ok file' → ∀ request,
        Sudo.permits node.inGroup file request = true →
          Sudo.permits node.inGroup file' request = true) ∧
    (∀ permissions file, sudoersFile node username permissions grants = .ok file →
      ((∀ runas path arguments,
          Sudo.permits node.inGroup file ⟨username, runas, path, arguments⟩ = true) ↔
        ∃ key ∈ rootEquivalent, key ∈ permissions)) ∧
    (∀ grant ∈ grants,
      (∀ command ∈ (applicationRules grant).commands,
        namedIn command.arguments = [targetOf grant] ∧
          ∀ line, Glob.accepts command.arguments line = true → (' ' :: targetOf grant) <:+ line) ∧
      ∀ id, (applicationRules grant).console = some id → id = grant.applicationId) ∧
    ∀ permissions applications,
      validateLinuxUsername username "the member's account name" = .ok () →
      (∀ key ∈ permissions, key ∉ privilegedKeys) → (∀ rules ∈ applications, NoRules rules) →
        sudoersScript username permissions applications = .ok .remove := by
  refine ⟨fun _ _ _ _ hmore hfile hfile' request => permits_mono hmore hfile hfile',
    fun permissions file hfile => ?_, fun grant _ => ⟨fun command h =>
      ⟨namedIn_command h, fun line => target_of_accepts h⟩, fun id h => console_of_grant h⟩,
    fun _ _ hname hnone hrules => script_removes hname hnone hrules⟩
  have hnarrow : ¬ Narrow permissions ↔ ∃ key ∈ rootEquivalent, key ∈ permissions := by
    simp [Narrow]
  rw [← hnarrow]
  constructor
  · intro hall hnarrow
    exact not_permits_shell hnarrow hfile (hall _ _ _)
  · intro hroot runas path arguments
    exact permits_of_root hroot hfile rfl

/-- A member who may read files and is then given a terminal. -/
def readerFile : List Text := [(helperRule member).text]

def terminalFile : List Text :=
  ["# node.terminal cannot be narrowed - see member_sudoers.rs",
    member ++ " ALL=(ALL) NOPASSWD: ALL", (helperRule member).text]

theorem terminal_adds_everything :
    (∀ request, Sudo.permits dockerNode.inGroup readerFile request = true →
        Sudo.permits dockerNode.inGroup terminalFile request = true) ∧
      (∀ runas path arguments,
        Sudo.permits dockerNode.inGroup terminalFile ⟨member, runas, path, arguments⟩ = true) ∧
      sudoersScript member ["team.view"] [] = .ok .remove := by
  have hreader : sudoersFile dockerNode member ["applications.files.read"] [] =
      .ok readerFile := rfl
  have hterminal : sudoersFile dockerNode member
      ["applications.files.read", "node.terminal"] [] = .ok terminalFile := rfl
  obtain ⟨hmono, hroot, -, hremove⟩ := rules_follow_permissions dockerNode member []
  exact ⟨hmono _ _ _ _ (by decide) hreader hterminal,
    (hroot _ _ hterminal).mpr ⟨"node.terminal", by decide, by decide⟩,
    hremove _ [] rfl (by decide) (by simp)⟩

end VibeSsh.RoleOrder
