import VibeSsh.Applications.Config
import VibeSsh.Applications.Directories
import VibeSsh.Docker.Container
import VibeSsh.Docker.Networks
import VibeSsh.Lib.Options
import VibeSsh.Ports.Store

/-! # The arguments of `docker create`

`runtime::docker::build_create_args`, and what docker reads from its list: the options it was meant
to see, then the image and its command, with one bind mount. The validators before it ask for
neither an image without a leading dash nor a directory without a colon. -/

namespace VibeSsh.Docker

open Lib List
open Applications (Cores validateResourceLimits)
open Ports (PortInput)

/-! ## The model -/

structure EnvironmentVariable where
  key : Text
  value : Text
  deriving DecidableEq

/-- `DockerConfig`, without the account flag, which reaches the arguments as `user_flag`. -/
structure DockerConfig where
  image : Text
  command : List Text
  memoryLimitMb : Option UInt32
  cpuLimitCores : Option Cores
  restartPolicy : Option Text
  deriving DecidableEq

/-- The part of a `RuntimeContext` the arguments are made from. -/
structure CreateContext where
  application : Application
  environment : List EnvironmentVariable
  ports : List PortInput

def rejectNewlines (value field : Text) : AppResult Unit :=
  if value.any fun c => c == '\n' || c == '\r' || c == '\x00' then
    .error (.invalidInput (field ++ " can't contain a newline"))
  else .ok ()

def isValidEnvKey : Text → Bool
  | [] => false
  | c :: rest => (c.isAlpha || c == '_') && rest.all fun c => c.isAlphanum || c == '_'

def validateVariable (env : EnvironmentVariable) : AppResult Unit :=
  if !isValidEnvKey env.key then
    .error (.invalidInput ('\'' :: env.key ++ "' isn't a valid environment variable name"))
  else rejectNewlines env.value ("the '" ++ env.key ++ "' environment variable")

def validateEnvironment (environment : List EnvironmentVariable) : AppResult Unit :=
  environment.forM validateVariable

def validRestartPolicies : List Text :=
  ["no", "always", "unless-stopped", "on-failure"]

def restartPolicyOrDefault (config : DockerConfig) : AppResult Text :=
  let policy := config.restartPolicy.getD "unless-stopped"
  if policy ∉ validRestartPolicies then
    .error (.invalidInput ('\'' :: policy ++ ("' isn't a valid restart policy - expected one of " ++
      "[\"no\", \"always\", \"unless-stopped\", \"on-failure\"]").toList))
  else .ok policy

def stopGraceSeconds : Text := "120"

def containerWorkingDirectory (workingDirectory : Text) : Text :=
  if Text.startsWith ['/'] workingDirectory then workingDirectory else "/home/container"

/-- What a published port is given to `-p` as; none for a port that is not published. -/
def publishArgs (port : PortInput) : List Text :=
  match port.externalPort with
  | none => []
  | some externalPort =>
    ["-p", port.bindAddress ++ ':' :: Text.ofNat externalPort.toNat ++
      ':' :: Text.ofNat port.internalPort.toNat ++ '/' :: port.protocol.str]

/-- The account the process runs as, with a home it can write unless the environment names one. -/
def userArgs (ctx : CreateContext) (userFlag : Option Text) : List Text :=
  match userFlag with
  | none => []
  | some user =>
    ["--user".toList, user] ++
      if ctx.environment.any (·.key = "HOME".toList) then []
      else ["-e".toList,
        "HOME=".toList ++ containerWorkingDirectory ctx.application.workingDirectory]

/-- An option that is given only with a value there is. -/
def valueArgs (option : Text) : Option Text → List Text
  | some value => [option, value]
  | none => []

def memoryText (mb : UInt32) : Text := Text.ofNat mb.toNat ++ ['m']

/-- The list itself, once every check has passed. -/
def createArgs (lower : Text.Lowercase) (ctx : CreateContext) (config : DockerConfig)
    (name restartPolicy : Text) (userFlag envFile : Option Text) : List Text :=
  let workingDirectory := ctx.application.workingDirectory
  let containerDirectory := containerWorkingDirectory workingDirectory
  ["create".toList, "-i".toList, "--name".toList, name, "--restart".toList, restartPolicy,
    "--stop-timeout".toList, stopGraceSeconds,
    "--add-host".toList, "host.docker.internal:host-gateway".toList,
    "--network".toList, (appNetworkName ctx.application.id).text,
    "--network-alias".toList, networkAlias lower ctx.application,
    "-v".toList, workingDirectory ++ ':' :: containerDirectory,
    "-w".toList, containerDirectory] ++
  userArgs ctx userFlag ++
  valueArgs "--memory".toList (config.memoryLimitMb.map memoryText) ++
  valueArgs "--cpus".toList (config.cpuLimitCores.map Cores.display) ++
  ctx.ports.flatMap publishArgs ++
  valueArgs "--env-file".toList envFile ++
  config.image :: config.command

def buildCreateArgs (lower : Text.Lowercase) (ctx : CreateContext) (config : DockerConfig)
    (name : Text) (userFlag envFile : Option Text) : AppResult (List Text) := do
  validateContainerRef name
  rejectNewlines config.image "the image"
  config.command.forM fun arg => rejectNewlines arg "a command argument"
  validateEnvironment ctx.environment
  validateResourceLimits config.memoryLimitMb config.cpuLimitCores
  let restartPolicy ← restartPolicyOrDefault config
  rejectNewlines ctx.application.workingDirectory "the working directory"
  ctx.ports.forM fun port => rejectNewlines port.bindAddress "a port's bind address"
  .ok (createArgs lower ctx config name restartPolicy userFlag envFile)

/-! ## What docker reads -/

/-- The options of `docker create` that the list uses with a value. -/
def valueOptions : List Text :=
  ["--name", "--restart", "--stop-timeout", "--add-host", "--network", "--network-alias", "-v", "-w",
    "--user", "-e", "--memory", "--cpus", "-p", "--env-file"].map String.toList

/-- Docker's command line: `-i` stands alone, the options above take the argument after them. -/
structure Cli where
  table : Options.Table
  interactive : table "-i" = .flag
  values : ∀ name ∈ valueOptions, table name = .takesNext

/-- `docker` with these arguments, where they are those of `create`. -/
def Cli.create (cli : Cli) : List Text → Option Options.Seen
  | subcommand :: arguments =>
    if subcommand = "create" then Options.parse cli.table arguments else none
  | [] => none

def mounts (o : Options.Setting) : Bool := o.1 = "-v" ∨ o.1 = "--volume"

/-- The bind mounts among the options: the values of `-v`, split at their colons. -/
def bindMounts (options : List Options.Setting) : List (List Text) :=
  (options.filter mounts).map fun o => (o.2.getD []).splitOn ':'

def publishOption (port : PortInput) : Option Options.Setting :=
  port.externalPort.map fun externalPort =>
    ("-p", some (port.bindAddress ++ ':' :: Text.ofNat externalPort.toNat ++
      ':' :: Text.ofNat port.internalPort.toNat ++ '/' :: port.protocol.str))

def fixedOptions (lower : Text.Lowercase) (ctx : CreateContext) (name restartPolicy : Text) :
    List Options.Setting :=
  let workingDirectory := ctx.application.workingDirectory
  let containerDirectory := containerWorkingDirectory workingDirectory
  [("-i", none), ("--name", some name), ("--restart", some restartPolicy),
    ("--stop-timeout", some stopGraceSeconds),
    ("--add-host", some "host.docker.internal:host-gateway"),
    ("--network", some (appNetworkName ctx.application.id).text),
    ("--network-alias", some (networkAlias lower ctx.application)),
    ("-v", some (workingDirectory ++ ':' :: containerDirectory)),
    ("-w", some containerDirectory)]

def userOptions (ctx : CreateContext) (userFlag : Option Text) : List Options.Setting :=
  match userFlag with
  | none => []
  | some user =>
    ("--user", some user) ::
      if ctx.environment.any (·.key = "HOME") then []
      else [("-e",
        some ("HOME=" ++ containerWorkingDirectory ctx.application.workingDirectory))]

def valueOption (option : Text) (value : Option Text) : List Options.Setting :=
  value.toList.map fun value => (option, some value)

/-- The options a container of this application is created with. -/
def intendedOptions (lower : Text.Lowercase) (ctx : CreateContext) (config : DockerConfig)
    (name : Text) (userFlag envFile : Option Text) : List Options.Setting :=
  fixedOptions lower ctx name (config.restartPolicy.getD "unless-stopped") ++
  userOptions ctx userFlag ++
  valueOption "--memory" (config.memoryLimitMb.map memoryText) ++
  valueOption "--cpus" (config.cpuLimitCores.map Cores.display) ++
  ctx.ports.filterMap publishOption ++
  valueOption "--env-file" envFile

/-- Docker sees the options that were meant and no others, then the image and its command, and one
bind mount from the working directory to the container's. -/
def SeesIntended (cli : Cli) (lower : Text.Lowercase) (ctx : CreateContext) (config : DockerConfig)
    (name : Text) (userFlag envFile : Option Text) (args : List Text) : Prop :=
  ∃ seen, cli.create args = some seen ∧
    seen.options = intendedOptions lower ctx config name userFlag envFile ∧
    seen.positional = config.image :: config.command ∧
    bindMounts seen.options = [[ctx.application.workingDirectory,
      containerWorkingDirectory ctx.application.workingDirectory]]

/-! ## The list is the options, rendered -/

theorem flatMap_publishArgs (ports : List PortInput) :
    ports.flatMap publishArgs = (ports.filterMap publishOption).flatMap Options.render := by
  induction ports with
  | nil => rfl
  | cons port ports ih =>
    rw [flatMap_cons, filterMap_cons, ih]
    unfold publishArgs publishOption
    cases port.externalPort <;> rfl

theorem userArgs_eq (ctx : CreateContext) (userFlag : Option Text) :
    userArgs ctx userFlag = (userOptions ctx userFlag).flatMap Options.render := by
  cases userFlag with
  | none => rfl
  | some user =>
    unfold userArgs userOptions
    cases ctx.environment.any (·.key = "HOME") <;> rfl

theorem valueArgs_eq (option : Text) (value : Option Text) :
    valueArgs option value = (valueOption option value).flatMap Options.render := by
  cases value <;> rfl

variable {lower : Text.Lowercase} {ctx : CreateContext} {config : DockerConfig} {name : Text}
  {userFlag envFile : Option Text}

theorem buildCreateArgs_ok {args : List Text}
    (h : buildCreateArgs lower ctx config name userFlag envFile = .ok args) :
    args = "create".toList ::
      ((intendedOptions lower ctx config name userFlag envFile).flatMap Options.render ++
        config.image :: config.command) := by
  unfold buildCreateArgs at h
  obtain ⟨_, _, h⟩ := try_ok_iff.mp h
  obtain ⟨_, _, h⟩ := try_ok_iff.mp h
  obtain ⟨_, _, h⟩ := try_ok_iff.mp h
  obtain ⟨_, _, h⟩ := try_ok_iff.mp h
  obtain ⟨_, _, h⟩ := try_ok_iff.mp h
  obtain ⟨policy, hpolicy, h⟩ := try_ok_iff.mp h
  obtain ⟨_, _, h⟩ := try_ok_iff.mp h
  obtain ⟨_, _, h⟩ := try_ok_iff.mp h
  injection h with h
  rw [← h]
  unfold createArgs intendedOptions
  have hdefault : policy = config.restartPolicy.getD "unless-stopped" := by
    unfold restartPolicyOrDefault at hpolicy
    dsimp only at hpolicy
    split_ifs at hpolicy
    · exact (Except.ok.inj hpolicy).symm
  simp only [flatMap_append, ← userArgs_eq, ← valueArgs_eq, ← flatMap_publishArgs, ← hdefault]
  rfl

/-! ## Every option is one docker knows -/

/-- An option of the list: `-i`, or one that takes the value it is given. -/
def Expected (o : Options.Setting) : Prop :=
  o = ("-i".toList, none) ∨ o.1 ∈ valueOptions ∧ o.2.isSome = true

theorem Cli.known (cli : Cli) {o : Options.Setting} (h : Expected o) :
    Options.Known cli.table o := by
  have hdashed : ∀ name ∈ valueOptions, Options.isDashed name = true := by decide
  rcases h with rfl | ⟨hname, hsome⟩
  · exact ⟨by decide, cli.interactive⟩
  · exact ⟨hdashed _ hname, by rw [if_pos hsome, cli.values _ hname]⟩

theorem expected_value {option : Text} (h : option ∈ valueOptions) (value : Text) :
    Expected (option, some value) := .inr ⟨h, rfl⟩

theorem expected_valueOption {option : Text} (h : option ∈ valueOptions) (value : Option Text) :
    ∀ o ∈ valueOption option value, Expected o := by
  intro o ho
  obtain ⟨v, _, rfl⟩ := mem_map.mp ho
  exact expected_value h v

theorem expected_userOptions (ctx : CreateContext) (userFlag : Option Text) :
    ∀ o ∈ userOptions ctx userFlag, Expected o := by
  intro o ho
  unfold userOptions at ho
  cases userFlag with
  | none => cases ho
  | some user =>
    rcases mem_cons.mp ho with rfl | ho
    · exact expected_value (by decide) user
    · split at ho
      · cases ho
      · rw [mem_singleton.mp ho]
        exact expected_value (by decide) _

theorem expected_publishOption (ports : List PortInput) :
    ∀ o ∈ ports.filterMap publishOption, Expected o := by
  intro o ho
  obtain ⟨port, _, hport⟩ := mem_filterMap.mp ho
  obtain ⟨externalPort, _, rfl⟩ := Option.map_eq_some_iff.mp hport
  exact expected_value (by decide) _

theorem expected_fixedOptions (restartPolicy : Text) :
    ∀ o ∈ fixedOptions lower ctx name restartPolicy, Expected o := by
  unfold fixedOptions
  simp only [forall_mem_cons]
  refine ⟨.inl rfl, expected_value (by decide) _, expected_value (by decide) _,
    expected_value (by decide) _, expected_value (by decide) _, expected_value (by decide) _,
    expected_value (by decide) _, expected_value (by decide) _, expected_value (by decide) _, ?_⟩
  simp

theorem expected_intendedOptions :
    ∀ o ∈ intendedOptions lower ctx config name userFlag envFile, Expected o := by
  unfold intendedOptions
  simp only [forall_mem_append]
  exact ⟨⟨⟨⟨⟨expected_fixedOptions _, expected_userOptions ctx userFlag⟩,
    expected_valueOption (by decide) _⟩, expected_valueOption (by decide) _⟩,
    expected_publishOption ctx.ports⟩, expected_valueOption (by decide) _⟩

/-! ## One bind mount -/

theorem bindMounts_append (a b : List Options.Setting) :
    bindMounts (a ++ b) = bindMounts a ++ bindMounts b := by
  simp [bindMounts]

theorem bindMounts_eq_nil {options : List Options.Setting}
    (h : ∀ o ∈ options, mounts (o.1, none) = false) : bindMounts options = [] := by
  unfold bindMounts
  rw [map_eq_nil_iff, filter_eq_nil_iff]
  intro o ho hm
  exact absurd ((h o ho).symm.trans hm) (by decide)

theorem bindMounts_valueOption {option : Text} (h : mounts (option, none) = false)
    (value : Option Text) : bindMounts (valueOption option value) = [] := by
  refine bindMounts_eq_nil fun o ho => ?_
  obtain ⟨v, _, rfl⟩ := mem_map.mp ho
  exact h

theorem bindMounts_userOptions (ctx : CreateContext) (userFlag : Option Text) :
    bindMounts (userOptions ctx userFlag) = [] := by
  unfold userOptions
  cases userFlag with
  | none => rfl
  | some user =>
    dsimp only
    split <;> rfl

theorem bindMounts_publishOption (ports : List PortInput) :
    bindMounts (ports.filterMap publishOption) = [] := by
  refine bindMounts_eq_nil fun o ho => ?_
  obtain ⟨port, _, hport⟩ := mem_filterMap.mp ho
  obtain ⟨externalPort, _, rfl⟩ := Option.map_eq_some_iff.mp hport
  rfl

theorem bindMounts_intendedOptions :
    bindMounts (intendedOptions lower ctx config name userFlag envFile) =
      [(ctx.application.workingDirectory ++
        ':' :: containerWorkingDirectory ctx.application.workingDirectory).splitOn ':'] := by
  unfold intendedOptions
  simp only [bindMounts_append, bindMounts_userOptions, bindMounts_publishOption]
  rw [bindMounts_valueOption (by decide), bindMounts_valueOption (by decide),
    bindMounts_valueOption (by decide)]
  rfl

theorem splitOn_mount_iff (workingDirectory : Text) :
    (workingDirectory ++ ':' :: containerWorkingDirectory workingDirectory).splitOn ':' =
      [workingDirectory, containerWorkingDirectory workingDirectory] ↔ ':' ∉ workingDirectory := by
  constructor
  · intro h
    have hmem : workingDirectory ∈
        (workingDirectory ++ ':' :: containerWorkingDirectory workingDirectory).splitOn ':' := by
      rw [h]
      exact mem_cons_self
    exact Text.not_mem_of_mem_splitOn hmem
  · intro h
    have hcontainer : ':' ∉ containerWorkingDirectory workingDirectory := by
      unfold containerWorkingDirectory
      split
      · exact h
      · decide
    have hparts : ∀ part ∈ [workingDirectory, containerWorkingDirectory workingDirectory],
        ':' ∉ part := by
      simp only [forall_mem_cons]
      exact ⟨h, hcontainer, by simp⟩
    have hjoined := splitOn_intercalate ':' hparts (by simp)
    simpa [List.intercalate] using hjoined

/-- **What docker sees of the list.** The intended options, image, command and bind mount, exactly if
the image has no leading dash and the working directory no colon. -/
theorem docker_sees_intended_iff (cli : Cli) (lower : Text.Lowercase) (ctx : CreateContext)
    (config : DockerConfig) (name : Text) (userFlag envFile : Option Text) {args : List Text}
    (h : buildCreateArgs lower ctx config name userFlag envFile = .ok args) :
    SeesIntended cli lower ctx config name userFlag envFile args ↔
      Options.isDashed config.image = false ∧ ':' ∉ ctx.application.workingDirectory := by
  have hread : cli.create args = some ⟨intendedOptions lower ctx config name userFlag envFile,
      config.image :: config.command⟩ ↔ Options.isDashed config.image = false := by
    rw [buildCreateArgs_ok h]
    exact Options.parse_eq_iff (fun o ho => cli.known (expected_intendedOptions o ho)) _ _
  rw [← hread, ← splitOn_mount_iff]
  constructor
  · rintro ⟨⟨options, positional⟩, hseen, rfl, rfl, hmount⟩
    rw [bindMounts_intendedOptions, singleton_inj] at hmount
    exact ⟨hseen, hmount⟩
  · rintro ⟨hseen, hmount⟩
    refine ⟨_, hseen, rfl, rfl, ?_⟩
    rw [bindMounts_intendedOptions, hmount]

/-! ## A container on its own, and one with a dash -/

/-- A docker that knows `--privileged` beside the options above. -/
def plainCli : Cli where
  table := fun argument =>
    if argument = "-i" ∨ argument = "--privileged" then .flag
    else if argument ∈ valueOptions then .takesNext
    else .unknown
  interactive := by decide
  values := by decide

/-- An application on a Node, as it is stored and as it is started, with one word of command. -/
def webDetail : Applications.Detail where
  blueprintId := "generic-docker"
  runtimeType := .docker
  serverId := some Uuid.nil
  workingDirectory := "/srv/web"
  shared := false
  runtimeConfig := .obj [("image", .str "alpine")]
  metadata := .obj []

def web (workingDirectory : Text) : CreateContext where
  application := ⟨Uuid.nil, "web", .docker, workingDirectory, []⟩
  environment := []
  ports := []

def webConfig (image : Text) : DockerConfig := ⟨image, ["sh"], some 512, none, none⟩

def webArgs (workingDirectory image : Text) : List Text :=
  createArgs .asciiOnly (web workingDirectory) (webConfig image) (containerName Uuid.nil)
    "unless-stopped" none none

theorem alpine_seen_as_intended :
    buildCreateArgs .asciiOnly (web "/srv/web") (webConfig "alpine")
      (containerName Uuid.nil) none none = .ok (webArgs "/srv/web" "alpine") ∧
    SeesIntended plainCli .asciiOnly (web "/srv/web") (webConfig "alpine")
      (containerName Uuid.nil) none none (webArgs "/srv/web" "alpine") :=
  ⟨rfl, (docker_sees_intended_iff plainCli .asciiOnly (web "/srv/web")
    (webConfig "alpine") (containerName Uuid.nil) none none rfl).mpr (by decide)⟩

/-- An image every check lets through is read as an option, and a working directory is mounted from
elsewhere. -/
theorem accepted_text_changes_container :
    ((Applications.setApplicationImage webDetail "--privileged").isOk = true ∧
      Directories.validateRemoteWorkingDirectory (some Uuid.nil) "/srv/web" = .ok () ∧
      buildCreateArgs .asciiOnly (web "/srv/web") (webConfig "--privileged")
        (containerName Uuid.nil) none none = .ok (webArgs "/srv/web" "--privileged") ∧
      ∃ seen, plainCli.create (webArgs "/srv/web" "--privileged") = some seen ∧
        ("--privileged".toList, none) ∈ seen.options ∧ seen.positional = ["sh".toList]) ∧
    Directories.validateRemoteWorkingDirectory (some Uuid.nil) "/srv/a:/etc" = .ok () ∧
      ∃ seen, plainCli.create (webArgs "/srv/a:/etc" "alpine") = some seen ∧
        bindMounts seen.options =
          [["/srv/a".toList, "/etc".toList, "/srv/a".toList, "/etc".toList]] := by
  refine ⟨⟨rfl, by decide, rfl, _, rfl, by decide, rfl⟩, by decide, _, rfl, by decide⟩

end VibeSsh.Docker
