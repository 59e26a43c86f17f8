import VibeSsh.Ai.Sanitizer
import VibeSsh.Lib.Assoc
import VibeSsh.Schedules.Cron

/-! # The stored configuration of an application

What writes `runtime_config`: the resource limits, the image and the own account of
`application_service::config`, `set_disk_limit`, and the three ways `provisioning` and `lifecycle`
rebuild the configuration from a blueprint. A blueprint is what its handler renders; provisioning,
the connection to the Node and the check written there answer from outside. -/

namespace VibeSsh.Ai.Json

open Lib

def get (value : Json) (key : Text) : Option Json :=
  match value with
  | .obj members => members.lookup key
  | _ => none

def isNull : Json → Bool
  | .null => true
  | _ => false

def isObject : Json → Bool
  | .obj _ => true
  | _ => false

mutual

/-- `Value`'s equality; the members of an object are compared in the order of its map. -/
def same : Json → Json → Bool
  | .null, .null => true
  | .bool a, .bool b => a = b
  | .num a, .num b => a = b
  | .str a, .str b => a = b
  | .arr a, .arr b => sameItems a b
  | .obj a, .obj b => sameMembers a b
  | _, _ => false

def sameItems : List Json → List Json → Bool
  | [], [] => true
  | a :: as, b :: bs => same a b && sameItems as bs
  | _, _ => false

def sameMembers : List (Text × Json) → List (Text × Json) → Bool
  | [], [] => true
  | (j, a) :: as, (k, b) :: bs => j = k && same a b && sameMembers as bs
  | _, _ => false

end

def sameEntry : Option Json → Option Json → Bool
  | none, none => true
  | some a, some b => same a b
  | _, _ => false

end VibeSsh.Ai.Json

namespace VibeSsh.Applications

open Lib
open Ai (Json)
open Schedules (cronSafeDirectory)

/-- The members of an object, the answers to a blueprint's fields among them. -/
abbrev Members := List (Text × Json)

/-- The part of an `ApplicationDetail` the configuration's writers read or store. -/
structure Detail where
  blueprintId : Text
  runtimeType : RuntimeType
  serverId : Option Uuid
  workingDirectory : Text
  shared : Bool
  runtimeConfig : Json
  metadata : Json

def jsonNat (n : Nat) : Json := .num (Text.ofNat n)

/-- An `f32`: whether it is finite, whether it is above zero, its JSON literal and its `Display`. -/
structure Cores where
  isFinite : Bool
  positive : Bool
  literal : Text
  display : Text
  deriving DecidableEq

/-! ## Settings stored by themselves -/

def objectMut (config : Json) : AppResult Members :=
  match config with
  | .obj members => .ok members
  | _ => .error (.internal "runtime_config wasn't a JSON object")

/-- `object.insert` of a value that is there, `object.remove` otherwise. -/
def assign (members : Members) (key : Text) (value : Option Json) : Members :=
  match value with
  | some value => Assoc.insert members key value
  | none => Assoc.remove members key

def validateResourceLimits (memoryLimitMb : Option UInt32) (cpuLimitCores : Option Cores) :
    AppResult Unit :=
  if memoryLimitMb = some 0 then
    .error (.invalidInput "the memory limit must be greater than 0")
  else if cpuLimitCores.any fun cores => !cores.isFinite || !cores.positive then
    .error (.invalidInput "the CPU limit must be greater than 0")
  else .ok ()

def setApplicationResourceLimits (detail : Detail) (memoryLimitMb : Option UInt32)
    (cpuLimitCores : Option Cores) : AppResult Detail := do
  if detail.runtimeType = .localProcess then
    .error (.invalidInput ("resource limits are only supported for Docker, systemd, and remote " ++
      "process applications"))
  else if detail.runtimeType = .remoteProcess ∧ memoryLimitMb.isSome then
    .error (.invalidInput
      "a memory limit isn't supported for remote process applications")
  else do
    validateResourceLimits memoryLimitMb cpuLimitCores
    let object ← objectMut detail.runtimeConfig
    let object := assign object "memoryLimitMb" (memoryLimitMb.map (jsonNat ·.toNat))
    let object := assign object "cpuLimitCores" (cpuLimitCores.map (.num ·.literal))
    .ok { detail with runtimeConfig := .obj object }

def runApplicationAsOwnAccount (detail : Detail) : AppResult Detail :=
  if detail.shared then .error (.sharedActionNotAllowed "applications.config")
  else if detail.runtimeType ≠ .docker then
    .error (.invalidInput "only a Docker application can run as its own account")
  else if detail.serverId.isNone then
    .error (.invalidInput
      "an application on this computer has no account of its own to run as")
  else do
    let object ← objectMut detail.runtimeConfig
    .ok { detail with
      runtimeConfig := .obj (Assoc.insert object "runAsDedicatedUser" (.bool true)) }

def setApplicationImage (detail : Detail) (image : Text) : AppResult Detail :=
  let image := Text.trim image
  if detail.runtimeType ≠ .docker then
    .error (.invalidInput "the image is only configurable for Docker applications")
  else if image.isEmpty then .error (.invalidInput "an image is required")
  else if image.contains '\n' || image.contains '\r' then
    .error (.invalidInput "the image can't contain a newline")
  else do
    let object ← objectMut detail.runtimeConfig
    .ok { detail with runtimeConfig := .obj (Assoc.insert object "image" (.str image)) }

def maxDiskLimitMb : Nat := 10 * 1024 * 1024

/-- `node_for`; `node` answers for the Node's row, its mode and the connection. -/
def nodeFor (detail : Detail) (node : AppResult Unit) : AppResult Unit :=
  if detail.runtimeType ≠ .docker then
    .error (.invalidInput "schedules are only available for Docker applications")
  else if detail.serverId.isNone then
    .error (.invalidInput
      "schedules run on a Node, and this application runs on this computer")
  else node

/-- The configuration `set_disk_limit` stores before it asks the Node. -/
def withDiskLimit (detail : Detail) (limitMb : Option UInt64) (node : AppResult Unit) :
    AppResult Detail :=
  if limitMb.any fun mb => mb.toNat < 100 ∨ maxDiskLimitMb < mb.toNat then
    .error (.invalidInput "a disk limit has to be between 100 MB and 10 TB")
  else do
    nodeFor detail node
    let _ ← (if limitMb.isSome then cronSafeDirectory detail.workingDirectory else .ok [])
    let object ← objectMut detail.runtimeConfig
    .ok { detail with
      runtimeConfig := .obj (assign object "diskLimitMb" (limitMb.map (jsonNat ·.toNat))) }

/-- `set_disk_limit`: what the Node refuses is put back. `sync` is the answer of `sync_node`. -/
def setDiskLimit (detail : Detail) (limitMb : Option UInt64) (node sync : AppResult Unit) :
    AppResult Unit × Detail :=
  match withDiskLimit detail limitMb node with
  | .error err => (.error err, detail)
  | .ok stored =>
    match sync with
    | .ok () => (.ok (), stored)
    | .error err => (.error err, { stored with runtimeConfig := detail.runtimeConfig })

/-! ## Rebuilding from a blueprint -/

def operatorSettings : List Text :=
  ["memoryLimitMb", "cpuLimitCores", "diskLimitMb"]

/-- A `BlueprintHandler`. What it renders is an object without the operator's settings: "the
blueprint never renders them". -/
structure BlueprintHandler where
  name : Text
  supportedRuntimeTypes : List RuntimeType
  renderRuntimeConfig : Members → AppResult Json
  rendered : ∀ inputs config, renderRuntimeConfig inputs = .ok config →
    config.isObject = true ∧ ∀ key ∈ operatorSettings, config.get key = none

abbrev BlueprintRegistry := Text → Option BlueprintHandler

/-- One turn of the loop over `OPERATOR_SETTINGS`. -/
def carryOver (current : Json) (target : Members) (key : Text) : Members :=
  assign target key ((current.get key).filter (!·.isNull))

/-- Moving onto an own account is kept when on, and never removed. -/
def keepOwnAccount (current : Json) (target : Members) : Members :=
  match current.get "runAsDedicatedUser" with
  | some (.bool true) => Assoc.insert target "runAsDedicatedUser" (.bool true)
  | _ => target

/-- The image is kept unless the answers themselves changed it. -/
def keepImage (current : Json) (renderedBefore : Option Json) (target : Members) : Members :=
  match current.get "image", renderedBefore with
  | some image, some before =>
    if Json.sameEntry (before.get "image".toList) (target.lookup "image".toList) then
      Assoc.insert target "image" image
    else target
  | _, _ => target

def carryOverOperatorSettings (current : Json) (renderedBefore : Option Json) (rendered : Json) :
    Json :=
  match rendered with
  | .obj target =>
    .obj (keepImage current renderedBefore
      (keepOwnAccount current (operatorSettings.foldl (carryOver current) target)))
  | rendered => rendered

/-- The answers kept in `metadata.blueprintInputs`, if an object stands there. -/
def storedInputs (metadata : Json) : Option Members :=
  match metadata.get "blueprintInputs" with
  | some (.obj inputs) => some inputs
  | _ => none

def inputsOf : Json → AppResult Members
  | .obj members => .ok members
  | .null => .ok []
  | _ => .error (.invalidInput "blueprint inputs must be an object")

section

variable (registry : BlueprintRegistry)

/-- `rerender_runtime_config`. The source leaves out a result that equals what is stored; storing it
is the same. -/
def rerenderRuntimeConfig (detail : Detail) : AppResult (Option Json) :=
  match registry detail.blueprintId with
  | none => .ok none
  | some handler =>
    if detail.runtimeType ∉ handler.supportedRuntimeTypes then .ok none
    else
      match storedInputs detail.metadata with
      | none => .ok none
      | some inputs => do
        let rendered ← handler.renderRuntimeConfig inputs
        .ok (some (carryOverOperatorSettings detail.runtimeConfig (some rendered) rendered))

/-- `recreate_application` up to the container: a configuration that cannot be rebuilt is left as it
is. -/
def recreateApplication (detail : Detail) : AppResult Detail :=
  if detail.shared then .error (.sharedActionNotAllowed "applications.config")
  else if detail.runtimeType ≠ .docker then
    .error (.invalidInput "recreating is only meaningful for Docker applications")
  else
    match rerenderRuntimeConfig registry detail with
    | .ok (some rendered) => .ok { detail with runtimeConfig := rendered }
    | _ => .ok detail

/-- `update_application_config`; `provision` answers for the connection and the handler's
`provision`, with what that discovered. -/
def updateApplicationConfig (detail : Detail) (fieldValues : Json)
    (provision : Members → AppResult Members) : AppResult Detail :=
  if detail.shared then .error (.sharedActionNotAllowed "applications.config")
  else
    match registry detail.blueprintId with
    | none => .error (.invalidInput ("unknown blueprint '" ++ detail.blueprintId ++ ['\'']))
    | some handler =>
      if detail.runtimeType ∉ handler.supportedRuntimeTypes then
        .error (.invalidInput ('\'' :: handler.name ++ ("' no longer supports this application's " ++
          "runtime type - its configuration can't be edited here").toList))
      else do
        let edited ← inputsOf fieldValues
        let merged := Assoc.extend ((storedInputs detail.metadata).getD []) edited
        let discovered ← provision merged
        let merged := Assoc.extend merged discovered
        let rendered ← handler.renderRuntimeConfig merged
        let renderedBefore :=
          (storedInputs detail.metadata).bind fun inputs => (handler.renderRuntimeConfig inputs).toOption
        .ok { detail with
          runtimeConfig := carryOverOperatorSettings detail.runtimeConfig renderedBefore rendered
          metadata := .obj [("blueprintInputs", .obj merged)] }

/-- `reinstall_application` up to the container; `stopped` answers for stopping it and for emptying
its directory. -/
def reinstallApplication (detail : Detail) (stopped : AppResult Unit)
    (provision : Members → AppResult Members) : AppResult Detail :=
  if detail.shared then .error (.sharedActionNotAllowed "applications.config")
  else if detail.runtimeType ≠ .docker then
    .error (.invalidInput "reinstalling is only available for Docker applications")
  else do
    stopped
    updateApplicationConfig registry detail .null provision

def changeApplicationBlueprint (detail : Detail) (blueprintId : Text) (fieldValues : Json)
    (provision : Members → AppResult Members) : AppResult Detail :=
  if detail.blueprintId = blueprintId then .ok detail
  else
    match registry blueprintId with
    | none => .error (.invalidInput ("unknown blueprint '" ++ blueprintId ++ ['\'']))
    | some handler =>
      if detail.runtimeType ∉ handler.supportedRuntimeTypes then
        .error (.invalidInput
          ('\'' :: handler.name ++ "' can't run the way this application already runs"))
      else do
        let inputs ← inputsOf fieldValues
        let discovered ← provision inputs
        let inputs := Assoc.extend inputs discovered
        let rendered ← handler.renderRuntimeConfig inputs
        .ok { detail with
          runtimeConfig := rendered
          metadata := .obj [("blueprintInputs", .obj inputs)]
          blueprintId := blueprintId }

end

end VibeSsh.Applications
