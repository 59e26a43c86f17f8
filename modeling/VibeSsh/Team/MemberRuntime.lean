import VibeSsh.Ssh.CommandLines
import VibeSsh.Team.RoleOrder

/-! # A shared application, run by a member

`runtime::member`: what a member's install sends to the Node for an application somebody else
shared. Each operation is one `sudo -n` line; the rules that let it through were written by the
owner's install, from the same role and the same grants. -/

namespace VibeSsh.MemberRuntime

open Lib Command MemberSudoers MemberAccount RoleOrder List Except

/-! ## The model -/

/-- `APPLICATION_SCOPED` of `shared_application_service`. -/
def applicationScoped : List Text :=
  ["applications.lifecycle", "applications.console", "applications.files.read",
    "applications.files.write"].map String.toList

/-- What a member may do with one application: their role's narrow permissions and those granted on
it. -/
def effectivePermissions (role granted : List Text) : List Text :=
  applicationScoped.filter fun key => (role ++ granted).contains key

/-- A shared application's record, with its `SharedAccess`. -/
structure SharedApplication where
  id : Uuid
  runtimeType : RuntimeType
  permissions : List Text

abbrev lifecycle : Text := "applications.lifecycle"

abbrev console : Text := "applications.console"

abbrev view : Text := "applications.view"

section

variable (application : SharedApplication)

def require (permission : Text) : AppResult Unit :=
  if application.permissions.contains permission then .ok ()
  else .error (.sharedActionNotAllowed permission)

inductive Target where
  | container (name : Text)
  | unit (name : Text)

def target : AppResult Target :=
  match application.runtimeType with
  | .docker => .ok (.container ("vibessh-app-" ++ application.id.display))
  | .systemd => .ok (.unit ("vibessh-app-" ++ application.id.display ++ ".service"))
  | _ => .error (.invalidInput
    "a shared application has to run in Docker or as a systemd service")

def sudoLine (arguments : List Text) : Text :=
  "sudo -n " ++ Text.join [' '] (arguments.map quote)

def lifecycleLine (verb : Text) (application : SharedApplication) : AppResult (List Text) := do
  require application lifecycle
  match ← target application with
  | .container name => .ok [sudoLine [docker, verb, name]]
  | .unit unit => .ok [sudoLine [systemctl, verb, unit]]

def kill (application : SharedApplication) : AppResult (List Text) := do
  require application lifecycle
  match ← target application with
  | .container name => .ok [sudoLine [docker, "kill", name]]
  | .unit _ => .error (.sharedActionNotAllowed lifecycle)

def status (application : SharedApplication) : AppResult (List Text) := do
  match ← target application with
  | .container name => .ok [sudoLine [docker, "inspect", name]]
  | .unit unit => .ok [sudoLine [systemctl, "status", "--no-pager", unit]]

/-- `MemberLogs::tail`; `logs` has none for a unit. -/
def logs (maxLines : UInt32) (application : SharedApplication) : AppResult (List Text) := do
  match ← target application with
  | .container name =>
    .ok ["sudo -n docker logs --tail " ++ Text.ofNat maxLines.toNat ++
      " --timestamps " ++ quote name ++ " 2>&1"]
  | .unit _ => .error (.sharedActionNotAllowed view)

/-- `MemberConsole::write`, whose input goes to the writer's stdin; a unit has no console. -/
def writeConsole : AppResult (List Text) := do
  match ← target application with
  | .container _ => do
    require application console
    .ok ["sudo -n " ++ quote consoleWriterPath ++ ' ' :: application.id.display]
  | .unit _ => .ok []

inductive Operation where
  | start
  | stop
  | restart
  | kill
  | status
  | logs (maxLines : UInt32)
  | console (input : Text)
  deriving DecidableEq

/-- The command lines an operation sends, or the error it returns without sending one. -/
def sent : Operation → AppResult (List Text)
  | .start => lifecycleLine "start" application
  | .stop => lifecycleLine "stop" application
  | .restart => lifecycleLine "restart" application
  | .kill => kill application
  | .status => status application
  | .logs maxLines => logs maxLines application
  | .console _ => writeConsole application

/-- The operations that make no check of their own. -/
def Operation.reads : Operation → Bool
  | .status | .logs _ => true
  | _ => false

/-- A grant on this application; both sides take the runtime from the shared record. -/
def IsOn (grant : ApplicationGrant) : Prop :=
  grant.applicationId = application.id ∧
    match grant.runtime with
    | .docker => application.runtimeType = .docker
    | .systemd => application.runtimeType = .systemd

end

/-! ## What sudo is asked -/

/-- A line may end in `2>&1`: the number before the operator is a descriptor, not a word. -/
def errorsToOutput : Shell.Beyond := fun done mode rest =>
  if mode = .word true ['2'] ∧ rest = ">&1" then some done else none

/-- The member's shell runs `sudo -n` with a program and arguments, and sudo lets them through,
wherever it finds the program. -/
def Accepted (node : Node) (username : Text) (file : List Text) (line : Text) : Prop :=
  ∃ binary arguments,
    Shell.words errorsToOutput line =
      some ("sudo".toList :: "-n".toList :: binary :: arguments) ∧
    ∀ path, node.commandV binary = some path →
      Sudo.permits node.inGroup file ⟨username, "root", path, arguments⟩ = true

/-! ## Names and rules -/

def typeOf : GrantRuntime → RuntimeType
  | .docker => .docker
  | .systemd => .systemd

def nameOf (id : Uuid) : GrantRuntime → Text
  | .docker => "vibessh-app-" ++ id.display
  | .systemd => "vibessh-app-" ++ id.display ++ ".service"

variable {grant : ApplicationGrant}

theorem isOn_iff {application : SharedApplication} :
    IsOn application grant ↔
      grant.applicationId = application.id ∧ application.runtimeType = typeOf grant.runtime := by
  unfold IsOn typeOf
  cases grant.runtime <;> rfl

theorem targetOf_eq (grant : ApplicationGrant) :
    targetOf grant = nameOf grant.applicationId grant.runtime := by
  unfold targetOf nameOf
  cases grant.runtime <;> rfl

variable {c : Char}

theorem not_mem_nameOf {id : Uuid} {runtime : GrantRuntime} (hc : c.toNat < 45) :
    c ∉ nameOf id runtime := by
  have := not_mem_targetOf ⟨id, runtime, [], []⟩ hc
  rwa [targetOf_eq] at this

/-- Only applications of these runtimes are acted on. -/
theorem target_cases {application : SharedApplication} {t : Target}
    (h : target application = .ok t) :
    (application.runtimeType = .docker ∧ t = .container (nameOf application.id .docker)) ∨
      (application.runtimeType = .systemd ∧ t = .unit (nameOf application.id .systemd)) := by
  unfold target at h
  split at h
  next hruntime => exact .inl ⟨hruntime, (ok.inj h).symm⟩
  next hruntime => exact .inr ⟨hruntime, (ok.inj h).symm⟩
  next => cases h

/-- A pattern's start covers a line's start if what it accepts behind the one it accepts behind the
other. -/
def Covers (pattern start : Text) : Prop :=
  ∀ rest text, Glob.accepts rest text = true →
    Glob.accepts (pattern ++ rest) (start ++ text) = true

theorem covers_star {literal : Text} (h : '*' ∉ literal) (more : Text) :
    Covers (literal ++ ['*']) (literal ++ more) := by
  intro rest text haccepts
  rw [append_assoc, append_assoc, Glob.accepts_append h]
  refine ⟨more ++ text, rfl, ?_⟩
  rw [singleton_append, Glob.accepts, if_pos rfl, any_eq_true]
  exact ⟨text, (mem_tails _ _).mpr (suffix_append ..), haccepts⟩

variable {words : List Text}

theorem join_concat (hne : words ≠ []) (last : Text) :
    Text.join [' '] (words ++ [last]) = Text.join [' '] words ++ ' ' :: last := by
  induction words with
  | nil => exact absurd rfl hne
  | cons word words ih =>
    cases words with
    | nil => simp [Text.join, intercalate_cons_cons]
    | cons next words =>
      have h := ih (by simp)
      simp only [Text.join, cons_append] at h ⊢
      rw [intercalate_cons_cons, intercalate_cons_cons, h]
      simp

/-- The role holds a permission, or a grant on the application does. -/
def Held (role : List Text) (grants : List ApplicationGrant) (application : SharedApplication)
    (key : Text) : Prop :=
  role.contains key = true ∨
    ∃ grant ∈ grants, IsOn application grant ∧ grant.permissions.contains key = true

/-- A verb is in the role's rules for every application, or in a grant's for this one. -/
def Covered (role : List Text) (grants : List ApplicationGrant) (application : SharedApplication)
    (runtime : GrantRuntime) (verb : Text) : Prop :=
  ⟨binaryOf runtime, verb ++ " vibessh-app-*"⟩ ∈ narrowCommands role.contains ∨
    ∃ grant ∈ grants, ⟨binaryOf runtime, verb ++ ' ' :: nameOf application.id runtime⟩ ∈
      (applicationRules grant).commands

variable {verb : String}

section

variable {node : Node} {username : Text} {role : List Text} {grants : List ApplicationGrant}
  {file : List Text} {application : SharedApplication} {runtime : GrantRuntime}

variable {path : Text}

theorem permits_of_command (hfile : sudoersFile node username role grants = .ok file)
    {command : AllowedCommand} (hcommand : command ∈ narrowCommands role.contains ∨
      ∃ grant ∈ grants, command ∈ (applicationRules grant).commands) {arguments : List Text}
    (haccepts : Glob.accepts command.arguments (Text.join [' '] arguments) = true)
    (hpath : node.commandV command.binary = some path) :
    Sudo.permits node.inGroup file ⟨username, "root", path, arguments⟩ = true := by
  by_cases hnarrow : Narrow role
  · exact RoleReach.permits_command hnarrow hfile (by simpa [mem_flatMap] using hcommand)
      (hcommand.elim narrowCommands_writable fun ⟨_, _, h⟩ => applicationCommands_writable h)
      hpath haccepts
  · exact permits_of_root hnarrow hfile rfl

/-- **A verb of the role's rules or of a grant's.** -/
theorem Covered.permits {verb : Text} (h : Covered role grants application runtime verb)
    (hfile : sudoersFile node username role grants = .ok file) (hne : words ≠ [])
    (hcovers : Covers verb (Text.join [' '] words))
    (hpath : node.commandV (binaryOf runtime) = some path) :
    Sudo.permits node.inGroup file
      ⟨username, "root", path, words ++ [nameOf application.id runtime]⟩ = true := by
  rcases h with hrole | ⟨grant, hgrant, hcommand⟩
  · refine permits_of_command hfile (.inl hrole) ?_ hpath
    rw [join_concat hne]
    refine hcovers _ _ ?_
    have hliteral : " vibessh-app-*" = " vibessh-app-" ++ ['*'] := rfl
    rw [hliteral, Glob.accepts_below_iff (by decide)]
    cases runtime with
    | docker => exact ⟨application.id.display, rfl⟩
    | systemd => exact ⟨application.id.display ++ ".service", rfl⟩
  · refine permits_of_command hfile (.inr ⟨grant, hgrant, hcommand⟩) ?_ hpath
    rw [join_concat hne]
    refine hcovers _ _ ?_
    have hstar : '*' ∉ ' ' :: nameOf application.id runtime := by
      simpa using not_mem_nameOf (c := '*') (by decide)
    exact (Glob.accepts_literal_iff hstar).mpr rfl

def lifecycleVerbs : GrantRuntime → List String
  | .docker => ["start", "stop", "restart", "kill"]
  | .systemd => ["start", "stop", "restart"]

/-- The verbs of looking at an application, as the rules write them. -/
def viewVerbs : GrantRuntime → List String
  | .docker => ["inspect", "logs *"]
  | .systemd => ["status --no-pager"]

/-- A grant has the verbs of looking, and those of the lifecycle if it holds it. -/
theorem command_of_grant (h : verb ∈ viewVerbs grant.runtime ∨
      grant.permissions.contains lifecycle = true ∧ verb ∈ lifecycleVerbs grant.runtime) :
    ⟨binaryOf grant.runtime, verb.toList ++ ' ' :: targetOf grant⟩ ∈
      (applicationRules grant).commands := by
  obtain ⟨id, runtime, directory, permissions⟩ := grant
  rw [(applicationRules_runtime _).1, runtimeRules]
  rcases h with hview | ⟨hheld, hverb⟩
  · cases runtime <;> refine mem_append_left _ ?_ <;>
      simp only [viewVerbs, mem_cons, not_mem_nil, or_false] at hview
    · rcases hview with rfl | rfl <;> simp [binaryOf, targetOf]
    · simp [hview, binaryOf, targetOf]
  · cases runtime <;> refine mem_append_right _ ?_ <;> rw [if_pos hheld] <;>
      exact mem_map_of_mem hverb

theorem typeOf_injective : Function.Injective typeOf := by
  intro a b h
  cases a <;> cases b <;> first | rfl | cases h

section

variable (happ : application.runtimeType = typeOf runtime)
include happ

theorem name_of_isOn (hon : IsOn application grant) :
    grant.runtime = runtime ∧ targetOf grant = nameOf application.id runtime := by
  obtain ⟨hid, hruntime⟩ := isOn_iff.mp hon
  have heq : grant.runtime = runtime := typeOf_injective (hruntime.symm.trans happ)
  exact ⟨heq, by rw [targetOf_eq, hid, heq]⟩

theorem covered_of_grant (hgrant : grant ∈ grants) (hon : IsOn application grant)
    (h : verb ∈ viewVerbs runtime ∨
      grant.permissions.contains lifecycle = true ∧ verb ∈ lifecycleVerbs runtime) :
    Covered role grants application runtime verb.toList := by
  obtain ⟨rfl, hname⟩ := name_of_isOn happ hon
  exact .inr ⟨grant, hgrant, hname ▸ command_of_grant h⟩

theorem view_covered (hheld : role.contains view = true ∨ ∃ grant ∈ grants, IsOn application grant)
    (hverb : verb ∈ viewVerbs runtime) : Covered role grants application runtime verb.toList := by
  rcases hheld with hrole | ⟨grant, hgrant, hon⟩
  · refine .inl (viewCommands_subset hrole ?_)
    revert verb
    cases runtime <;> decide
  · exact covered_of_grant happ hgrant hon (.inl hverb)

end

theorem console_held (happ : application.runtimeType = .docker)
    (hfile : sudoersFile node username role grants = .ok file)
    (hheld : Held role grants application console)
    (hpath : node.commandV consoleWriterPath = some path) :
    Sudo.permits node.inGroup file ⟨username, "root", path, [application.id.display]⟩ = true := by
  rcases hheld with hrole | ⟨grant, hgrant, hon, hheld⟩
  · exact permits_of_command hfile (.inl (subset_narrowCommands (by decide) hrole
      (mem_singleton_self ⟨consoleWriterPath, ['*']⟩))) (Glob.accepts_star _) hpath
  by_cases hnarrow : Narrow role
  · obtain ⟨hname, hmem⟩ := mem_sudoersFile hnarrow hfile
    have hconsole : (applicationRules grant).console = some grant.applicationId := by
      rw [(applicationRules_runtime grant).2, runtimeRules, (@name_of_isOn _ _ .docker happ hon).1]
      exact if_pos hheld
    have hid : grant.applicationId = application.id := (isOn_iff.mp hon).1
    have hwriter : path = consoleWriterPath := by
      rw [Node.commandV, if_pos (by decide)] at hpath
      split at hpath
      · exact (Option.some.inj hpath).symm
      · cases hpath
    rw [hid] at hconsole
    refine Sudo.permits_iff.mpr ⟨_, (hmem _).mpr (.inr (.inl (mem_map_of_mem
      (mem_filterMap.mpr ⟨_, mem_map_of_mem hgrant, hconsole⟩)))), _,
      parseRule_consoleLine hname application.id, ?_⟩
    have hstar : '*' ∉ application.id.display := fun hc =>
      absurd (toNat_of_mem_display hc).1 (by decide)
    simp [rootRule, Sudo.Rule.permits, Sudo.Runas.permits, Sudo.Command.permits, Sudo.Request.line,
      Text.join, hwriter, (Glob.accepts_literal_iff hstar).mpr rfl]
  · exact permits_of_root hnarrow hfile rfl

end

/-! ## The lines as the shell reads them -/

theorem isBare_of_isRefChar (h : Docker.isRefChar c = true) : Shell.isBare c = true := by
  have hmarks : Shell.marks.any Docker.isRefChar = false := by decide
  exact Shell.isBare_of_not_mem_marks fun hm => any_eq_false.mp hmarks c hm h

theorem isBare_of_mem_ofNat {n : Nat} (h : c ∈ Text.ofNat n) : Shell.isBare c = true := by
  refine isBare_of_isRefChar ?_
  simp [Docker.isRefChar, Char.isAlphanum, Text.isDigit_of_mem_ofNat h]

theorem words_of_readWords {line : Text} (hnul : '\x00' ∉ line)
    (h : Shell.readWords errorsToOutput [] .between line = some words) :
    Shell.words errorsToOutput line = some words := by
  have hcontains : line.contains '\x00' = false := by simpa using hnul
  rw [Shell.words, hcontains, if_neg Bool.false_ne_true, h]

theorem words_sudoLine (argument : Text) (arguments : List Text)
    (h : ∀ a ∈ argument :: arguments, '\x00' ∉ a) :
    Shell.words errorsToOutput (sudoLine (argument :: arguments)) =
      some ("sudo".toList :: "-n".toList :: argument :: arguments) := by
  have hline : sudoLine (argument :: arguments) = "sudo -n".toList ++
      (argument :: arguments).flatMap fun a => ' ' :: quote a := by
    unfold sudoLine
    rw [join_quotes]
    simp
  rw [hline]
  exact words_arguments errorsToOutput ["sudo"] true "-n" (by decide) rfl (fun _ => rfl) h

theorem words_logs (maxLines : Nat) {name : Text} (hname : '\x00' ∉ name) :
    Shell.words errorsToOutput ("sudo -n docker logs --tail ".toList ++ Text.ofNat maxLines ++
      " --timestamps ".toList ++ quote name ++ " 2>&1".toList) =
      some ("sudo".toList :: "-n".toList :: docker :: (["logs".toList, "--tail".toList,
        Text.ofNat maxLines, "--timestamps".toList] ++ [name])) := by
  have hdigits : '\x00' ∉ Text.ofNat maxLines := fun hmem =>
    absurd (Text.isDigit_of_mem_ofNat hmem) (by decide)
  have hstart : ∀ rest, Shell.readWords errorsToOutput [] .between
      ("sudo -n docker logs --tail ".toList ++ rest) =
        Shell.readWords errorsToOutput ["sudo".toList, "-n".toList, docker,
          "logs".toList, "--tail".toList] .between rest := fun _ => rfl
  have hmiddle : ∀ (done : List Text) (rest : Text), Shell.readWords errorsToOutput done .between
      ("--timestamps".toList ++ ' ' :: rest) = Shell.readWords errorsToOutput
        (done ++ ["--timestamps".toList]) .between rest := by
    intro done rest
    have hbare : "--timestamps".toList.all Shell.isBare = true := by decide
    have hkeyword : Shell.isKeyword done true "--timestamps".toList = false := by
      have hnone : Shell.keywords.contains "--timestamps".toList = false := by decide
      rw [Shell.isKeyword, hnone, Bool.and_false]
    rw [Shell.readWords_word _ (by decide) (all_eq_true.mp hbare),
      Shell.readWords_space _ hkeyword]
  refine words_of_readWords ?_ ?_
  · have hfirst : '\x00' ∉ "sudo -n docker logs --tail ".toList := by decide
    have hsecond : '\x00' ∉ " --timestamps ".toList := by decide
    have hlast : '\x00' ∉ " 2>&1".toList := by decide
    generalize "sudo -n docker logs --tail ".toList = a, " --timestamps ".toList = b,
      " 2>&1".toList = c at hfirst hsecond hlast
    simp [hfirst, hsecond, hlast, hdigits, nul_not_mem_quote hname]
  · have hsplit : " --timestamps ".toList = ' ' :: ("--timestamps".toList ++ [' ']) := rfl
    have hend : " 2>&1".toList = [' ', '2', '>', '&', '1'] := rfl
    rw [append_assoc, append_assoc, append_assoc, hstart,
      Shell.readWords_word _ (Text.ofNat_ne_nil _) fun c hc => isBare_of_mem_ofNat hc,
      hsplit, cons_append, Shell.readWords_space _ rfl, append_assoc,
      singleton_append, hmiddle, readWords_quote, hend, Shell.readWords_space _ rfl]
    rfl

theorem words_console (id : Uuid) :
    Shell.words errorsToOutput ("sudo -n ".toList ++ quote consoleWriterPath ++ ' ' :: id.display) =
      some ["sudo".toList, "-n".toList, consoleWriterPath, id.display] := by
  have hid : '\x00' ∉ id.display := fun hmem =>
    absurd (Docker.isRefChar_of_mem_display hmem) (by decide)
  have hne : id.display ≠ [] := ne_nil_of_length_pos (by rw [Docker.length_display]; omega)
  refine words_of_readWords ?_ ?_
  · have hstart : '\x00' ∉ "sudo -n ".toList := by decide
    have hpath : '\x00' ∉ quote consoleWriterPath := nul_not_mem_quote (by decide)
    generalize "sudo -n ".toList = start at hstart
    simp [hstart, hpath, hid]
  · have hstart : ∀ rest, Shell.readWords errorsToOutput [] .between ("sudo -n ".toList ++ rest) =
        Shell.readWords errorsToOutput ["sudo".toList, "-n".toList] .between rest := fun _ => rfl
    have hword := Shell.readWords_word errorsToOutput hne (fun c hc =>
      isBare_of_isRefChar (Docker.isRefChar_of_mem_display hc))
      (["sudo".toList, "-n".toList] ++ [consoleWriterPath]) []
    rw [append_nil] at hword
    rw [append_assoc, hstart, readWords_quote, Shell.readWords_space _ rfl, hword]
    rfl

/-! ## Every permitted operation -/

section

variable {node : Node} {username : Text} {role : List Text} {grants : List ApplicationGrant}
  {file : List Text} {application : SharedApplication} {runtime : GrantRuntime} {lines : List Text}

theorem require_ok {permission : Text} {u : Unit} (h : require application permission = .ok u) :
    application.permissions.contains permission = true := by
  unfold require at h
  split at h
  next hheld => exact hheld
  next => cases h

variable (hfile : sudoersFile node username role grants = .ok file)
include hfile

theorem accepted_of_covered {verb : Text} (h : Covered role grants application runtime verb)
    (words : List Text) (hne : words ≠ []) (hnul : ∀ word ∈ words, '\x00' ∉ word)
    (hjoin : Text.join [' '] words = verb) (hplain : '*' ∉ verb) :
    Accepted node username file
      (sudoLine (binaryOf runtime :: (words ++ [nameOf application.id runtime]))) := by
  have hcovers : Covers verb (Text.join [' '] words) := by
    rw [hjoin]
    exact fun _ text haccepts => (Glob.accepts_append hplain).mpr ⟨text, rfl, haccepts⟩
  refine ⟨_, _, words_sudoLine _ _ ?_, fun path hpath => h.permits hfile hne hcovers hpath⟩
  intro a ha
  rcases mem_cons.mp ha with rfl | ha
  · cases runtime <;> decide
  · rcases mem_append.mp ha with ha | ha
    · exact hnul a ha
    · rw [mem_singleton.mp ha]
      exact not_mem_nameOf (by decide)

theorem accepted_verb (happ : application.runtimeType = typeOf runtime)
    (hheld : Held role grants application lifecycle) (hverb : verb ∈ lifecycleVerbs runtime) :
    Accepted node username file
      (sudoLine [binaryOf runtime, verb.toList, nameOf application.id runtime]) := by
  have hplain : ∀ verb ∈ lifecycleVerbs runtime, '*' ∉ verb.toList ∧ '\x00' ∉ verb.toList := by
    cases runtime <;> decide
  have hcovered : Covered role grants application runtime verb.toList := by
    rcases hheld with hrole | ⟨grant, hgrant, hon, hheld⟩
    · refine .inl (lifecycleCommands_subset hrole ?_)
      cases runtime with
      | docker => exact mem_append_left _ (mem_map_of_mem hverb)
      | systemd => exact mem_append_right _ (mem_map_of_mem hverb)
    · exact covered_of_grant happ hgrant hon (.inr ⟨hheld, hverb⟩)
  exact accepted_of_covered hfile hcovered [verb.toList] (by simp)
    (by simpa using (hplain verb hverb).2) (by simp [Text.join]) (hplain verb hverb).1

theorem accepted_lifecycleLine (hheld : application.permissions.contains lifecycle = true →
      Held role grants application lifecycle) (hverb : ∀ runtime, verb ∈ lifecycleVerbs runtime)
    (hsent : lifecycleLine verb.toList application = .ok lines) :
    ∀ line ∈ lines, Accepted node username file line := by
  obtain ⟨_, hrequire, hsent⟩ := try_ok_iff.mp hsent
  obtain ⟨t, htarget, hsent⟩ := try_ok_iff.mp hsent
  have haccepted := fun runtime happ =>
    @accepted_verb _ _ _ _ _ _ _ runtime hfile happ (hheld (require_ok hrequire)) (hverb runtime)
  rcases target_cases htarget with ⟨hruntime, rfl⟩ | ⟨hruntime, rfl⟩ <;>
    rw [← ok.inj hsent, forall_mem_singleton]
  · exact haccepted .docker hruntime
  · exact haccepted .systemd hruntime

theorem accepted_kill (hheld : application.permissions.contains lifecycle = true →
      Held role grants application lifecycle) (hsent : kill application = .ok lines) :
    ∀ line ∈ lines, Accepted node username file line := by
  obtain ⟨_, hrequire, hsent⟩ := try_ok_iff.mp hsent
  obtain ⟨t, htarget, hsent⟩ := try_ok_iff.mp hsent
  rcases target_cases htarget with ⟨hruntime, rfl⟩ | ⟨-, rfl⟩
  · have hverb : "kill" ∈ lifecycleVerbs .docker := by simp [lifecycleVerbs]
    rw [← ok.inj hsent, forall_mem_singleton]
    exact @accepted_verb _ _ _ _ _ _ _ .docker hfile hruntime (hheld (require_ok hrequire)) hverb
  · cases hsent

theorem accepted_status (hview : role.contains view = true ∨ ∃ grant ∈ grants, IsOn application grant)
    (hsent : status application = .ok lines) :
    ∀ line ∈ lines, Accepted node username file line := by
  obtain ⟨t, htarget, hsent⟩ := try_ok_iff.mp hsent
  rcases target_cases htarget with ⟨hruntime, rfl⟩ | ⟨hruntime, rfl⟩ <;>
    rw [← ok.inj hsent, forall_mem_singleton]
  · have hcovered := @view_covered "inspect" _ _ _ .docker hruntime hview (by simp [viewVerbs])
    exact accepted_of_covered hfile hcovered ["inspect"] (cons_ne_nil _ _) (by decide)
      (by decide) (by decide)
  · have hcovered := @view_covered "status --no-pager" _ _ _ .systemd hruntime hview
      (by simp [viewVerbs])
    exact accepted_of_covered hfile hcovered ["status", "--no-pager"] (cons_ne_nil _ _)
      (by decide) (by decide) (by decide)

theorem accepted_logs (hview : role.contains view = true ∨ ∃ grant ∈ grants, IsOn application grant)
    {maxLines : UInt32} (hsent : logs maxLines application = .ok lines) :
    ∀ line ∈ lines, Accepted node username file line := by
  obtain ⟨t, htarget, hsent⟩ := try_ok_iff.mp hsent
  rcases target_cases htarget with ⟨hruntime, rfl⟩ | ⟨-, rfl⟩
  · have hcovered := @view_covered "logs *" _ _ _ .docker hruntime hview (by simp [viewVerbs])
    have hcovers : Covers "logs *".toList (Text.join [' '] ["logs".toList, "--tail".toList,
        Text.ofNat maxLines.toNat, "--timestamps".toList]) := by
      have hstart : "logs *".toList = "logs ".toList ++ ['*'] := by decide
      have hjoin : Text.join [' '] ["logs".toList, "--tail".toList, Text.ofNat maxLines.toNat,
          "--timestamps".toList] = "logs ".toList ++ Text.join [' '] ["--tail".toList,
            Text.ofNat maxLines.toNat, "--timestamps".toList] := by
        simp [Text.join, intercalate_cons_cons]
      rw [hstart, hjoin]
      exact covers_star (by decide) _
    rw [← ok.inj hsent, forall_mem_singleton]
    exact ⟨_, _, words_logs maxLines.toNat (not_mem_nameOf (by decide)), fun path hpath =>
      hcovered.permits hfile (cons_ne_nil _ _) hcovers hpath⟩
  · cases hsent

theorem accepted_console (hheld : application.permissions.contains console = true →
      Held role grants application console) (hsent : writeConsole application = .ok lines) :
    ∀ line ∈ lines, Accepted node username file line := by
  obtain ⟨t, htarget, hsent⟩ := try_ok_iff.mp hsent
  rcases target_cases htarget with ⟨hruntime, rfl⟩ | ⟨-, rfl⟩
  · obtain ⟨_, hrequire, hsent⟩ := try_ok_iff.mp hsent
    rw [← ok.inj hsent, forall_mem_singleton]
    exact ⟨_, _, words_console application.id, fun path hpath =>
      console_held hruntime hfile (hheld (require_ok hrequire)) hpath⟩
  · cases hsent
    nofun

end

/-- **A member can do what they were granted.** Every line an operation sends is accepted under the
rules written for the same role and grants. -/
theorem permitted_operations_accepted (node : Node) (username : Text) (role : List Text)
    (grants : List ApplicationGrant) {file : List Text}
    (hfile : sudoersFile node username role grants = .ok file) (application : SharedApplication)
    (granted : List Text)
    (hgranted : granted = [] ∨ ∃ grant ∈ grants, IsOn application grant ∧
      grant.permissions = granted)
    (hpermissions : application.permissions = effectivePermissions role granted)
    (operation : Operation)
    (hview : operation.reads = true →
      role.contains view = true ∨ ∃ grant ∈ grants, IsOn application grant)
    {lines : List Text} (hsent : sent application operation = .ok lines) :
    ∀ line ∈ lines, Accepted node username file line := by
  have hheld : ∀ {key : Text}, application.permissions.contains key = true →
      Held role grants application key := by
    intro key h
    rw [hpermissions, contains_iff_mem, effectivePermissions, mem_filter,
      contains_iff_mem, mem_append] at h
    rcases h.2 with hrole | hheld
    · exact .inl (contains_iff_mem.mpr hrole)
    · rcases hgranted with rfl | ⟨grant, hgrant, hon, rfl⟩
      · cases hheld
      · exact .inr ⟨grant, hgrant, hon, contains_iff_mem.mpr hheld⟩
  cases operation with
  | start | stop | restart =>
    exact accepted_lifecycleLine hfile hheld (by rintro (_ | _) <;> decide) hsent
  | kill => exact accepted_kill hfile hheld hsent
  | status => exact accepted_status hfile (hview rfl) hsent
  | logs maxLines => exact accepted_logs hfile (hview rfl) hsent
  | console input => exact accepted_console hfile hheld hsent

def sampleNode : Node where
  path := ["/usr/bin"]
  executable path := path == "/usr/bin/docker"
  hasAccount _ := false
  inGroup _ _ := false
  path_wf := usrBin_isWord

def sampleGrant : ApplicationGrant := ⟨.nil, .docker, "/srv/app", [lifecycle]⟩

def sampleApplication : SharedApplication := ⟨.nil, .docker, effectivePermissions [] [lifecycle]⟩

def sampleLine : Text :=
  "sudo -n 'docker' 'start' 'vibessh-app-00000000-0000-0000-0000-000000000000'"

/-- A member with no role and one grant starts the application. -/
theorem granted_start_accepted :
    ∃ file, sudoersFile sampleNode "vibessh-m-0123456789ab" [] [sampleGrant] = .ok file ∧
      sent sampleApplication .start = .ok [sampleLine] ∧
      Accepted sampleNode "vibessh-m-0123456789ab" file sampleLine := by
  have hsent : sent sampleApplication .start = .ok [sampleLine] := by decide
  obtain ⟨file, hfile⟩ : ∃ file,
      sudoersFile sampleNode "vibessh-m-0123456789ab" [] [sampleGrant] = .ok file :=
    ⟨_, rfl⟩
  have haccepted := permitted_operations_accepted _ _ _ _ hfile sampleApplication [lifecycle]
    (.inr ⟨sampleGrant, mem_singleton_self _, ⟨rfl, rfl⟩, rfl⟩) rfl .start nofun hsent
  exact ⟨file, hfile, hsent, haccepted sampleLine (mem_singleton_self _)⟩

end VibeSsh.MemberRuntime
