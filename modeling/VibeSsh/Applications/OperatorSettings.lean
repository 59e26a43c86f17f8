import VibeSsh.Applications.Config
import VibeSsh.Lib.Run

/-! # The operator's settings survive

Runs over one application: its settings are changed, its container recreated, its blueprint's fields
edited and its blueprint changed. Beside the stored record a run carries what the operator last set.
Every rebuild keeps the two in agreement but one: a change of blueprint stores what the new one
renders as it is. -/

namespace VibeSsh.Applications

open Lib
open Ai (Json)

/-- The memory, CPU and disk limits the operator last set; `none` where last cleared. -/
structure Settings where
  memoryLimitMb : Option UInt32
  cpuLimitCores : Option Cores
  diskLimitMb : Option UInt64
  deriving DecidableEq

def Settings.cleared : Settings := ⟨none, none, none⟩

structure State where
  detail : Detail
  settings : Settings

inductive Op where
  | setResourceLimits (memoryLimitMb : Option UInt32) (cpuLimitCores : Option Cores)
  | setDiskLimit (limitMb : Option UInt64) (node sync : AppResult Unit)
  | setImage (image : Text)
  | runAsOwnAccount
  | recreate
  | editFields (fieldValues : Json) (provision : Members → AppResult Members)
  | reinstall (stopped : AppResult Unit) (provision : Members → AppResult Members)
  | changeBlueprint (blueprintId : Text) (fieldValues : Json)
    (provision : Members → AppResult Members)

/-- What an operation that sets no limit leaves: a refused one changes nothing. -/
def State.stored (s : State) (result : AppResult Detail) : State :=
  { s with detail := result.toOption.getD s.detail }

def next (registry : BlueprintRegistry) (s : State) : Op → State
  | .setResourceLimits memoryLimitMb cpuLimitCores =>
    match setApplicationResourceLimits s.detail memoryLimitMb cpuLimitCores with
    | .ok detail =>
      ⟨detail, { s.settings with memoryLimitMb := memoryLimitMb, cpuLimitCores := cpuLimitCores }⟩
    | .error _ => s
  | .setDiskLimit limitMb node sync =>
    match setDiskLimit s.detail limitMb node sync with
    | (.ok (), detail) => ⟨detail, { s.settings with diskLimitMb := limitMb }⟩
    | (.error _, detail) => { s with detail := detail }
  | .setImage image => s.stored (setApplicationImage s.detail image)
  | .runAsOwnAccount => s.stored (runApplicationAsOwnAccount s.detail)
  | .recreate => s.stored (recreateApplication registry s.detail)
  | .editFields fieldValues provision =>
    s.stored (updateApplicationConfig registry s.detail fieldValues provision)
  | .reinstall stopped provision => s.stored (reinstallApplication registry s.detail stopped provision)
  | .changeBlueprint blueprintId fieldValues provision =>
    s.stored (changeApplicationBlueprint registry s.detail blueprintId fieldValues provision)

/-- A configuration is an object that holds exactly these settings. -/
structure Settings.StoredIn (settings : Settings) (config : Json) : Prop where
  object : config.isObject = true
  memory : config.get "memoryLimitMb" = settings.memoryLimitMb.map (jsonNat ·.toNat)
  cpu : config.get "cpuLimitCores" = settings.cpuLimitCores.map (.num ·.literal)
  disk : config.get "diskLimitMb" = settings.diskLimitMb.map (jsonNat ·.toNat)

def State.Kept (s : State) : Prop := s.settings.StoredIn s.detail.runtimeConfig

/-- A change of blueprint that takes effect happens only while no limit is set. -/
def KeepsSettings (registry : BlueprintRegistry) (s : State) : Op → Prop
  | .changeBlueprint blueprintId fieldValues provision =>
    (changeApplicationBlueprint registry s.detail blueprintId fieldValues provision).isOk = true →
      s.detail.blueprintId ≠ blueprintId → s.settings = .cleared
  | _ => True

/-! ## Configurations -/

theorem get_assign (members : Members) (key k : Text) (value : Option Json) :
    (Json.obj (assign members key value)).get k =
      if k = key then value else (Json.obj members).get k := by
  cases value with
  | none => exact Assoc.lookup_remove members key k
  | some value => exact Assoc.lookup_insert members key k value

theorem get_insert (members : Members) (key k : Text) (value : Json) :
    (Json.obj (Assoc.insert members key value)).get k =
      if k = key then some value else (Json.obj members).get k :=
  Assoc.lookup_insert members key k value

variable {settings : Settings} {members : Members} {s : State}

/-- Members under other keys are nobody's setting. -/
theorem Settings.StoredIn.insert
    (h : settings.StoredIn (.obj members)) {key : Text} (hkey : key ∉ operatorSettings)
    (value : Json) : settings.StoredIn (.obj (Assoc.insert members key value)) := by
  have hne : ∀ k ∈ operatorSettings, k ≠ key := fun k hk he => hkey (he ▸ hk)
  refine ⟨rfl, ?_, ?_, ?_⟩
  · rw [get_insert, if_neg (hne _ (by decide)), h.memory]
  · rw [get_insert, if_neg (hne _ (by decide)), h.cpu]
  · rw [get_insert, if_neg (hne _ (by decide)), h.disk]

theorem Settings.StoredIn.withDiskLimit
    (h : settings.StoredIn (.obj members)) (limitMb : Option UInt64) :
    Settings.StoredIn { settings with diskLimitMb := limitMb }
      (.obj (assign members "diskLimitMb" (limitMb.map (jsonNat ·.toNat)))) := by
  refine ⟨rfl, ?_, ?_, ?_⟩
  · rw [get_assign, if_neg (by decide), h.memory]
  · rw [get_assign, if_neg (by decide), h.cpu]
  · rw [get_assign, if_pos rfl]

theorem objectMut_ok {config : Json} (h : objectMut config = .ok members) :
    config = .obj members := by
  cases config with
  | obj m =>
    injection h with h
    rw [h]
  | _ => cases h

/-- What a blueprint renders holds the settings of an operator who set nothing, and no others. -/
theorem storedIn_rendered_iff {handler : BlueprintHandler} {inputs : Members} {config : Json}
    (h : handler.renderRuntimeConfig inputs = .ok config) :
    settings.StoredIn config ↔ settings = .cleared := by
  obtain ⟨hobject, hnone⟩ := handler.rendered inputs config h
  have hmemory := hnone "memoryLimitMb" (by decide)
  have hcpu := hnone "cpuLimitCores" (by decide)
  have hdisk := hnone "diskLimitMb" (by decide)
  constructor
  · rintro ⟨_, hm, hc, hd⟩
    rw [hmemory, eq_comm, Option.map_eq_none_iff] at hm
    rw [hcpu, eq_comm, Option.map_eq_none_iff] at hc
    rw [hdisk, eq_comm, Option.map_eq_none_iff] at hd
    obtain ⟨memory, cpu, disk⟩ := settings
    subst hm hc hd
    rfl
  · rintro rfl
    exact ⟨hobject, hmemory, hcpu, hdisk⟩

/-! ## Rebuilding -/

theorem storedIn_foldl_carryOver {current : Json}
    (h : settings.StoredIn current) (target : Members) :
    settings.StoredIn (.obj (operatorSettings.foldl (carryOver current) target)) := by
  show settings.StoredIn (.obj (carryOver current (carryOver current (carryOver current target
    "memoryLimitMb") "cpuLimitCores") "diskLimitMb"))
  unfold carryOver
  rw [h.memory, h.cpu, h.disk]
  refine ⟨rfl, ?_, ?_, ?_⟩
  · rw [get_assign, if_neg (by decide), get_assign, if_neg (by decide), get_assign, if_pos rfl]
    cases settings.memoryLimitMb <;> rfl
  · rw [get_assign, if_neg (by decide), get_assign, if_pos rfl]
    cases settings.cpuLimitCores <;> rfl
  · rw [get_assign, if_pos rfl]
    cases settings.diskLimitMb <;> rfl

theorem storedIn_carryOverOperatorSettings {current rendered : Json}
    (h : settings.StoredIn current) (hobject : rendered.isObject = true)
    (renderedBefore : Option Json) :
    settings.StoredIn (carryOverOperatorSettings current renderedBefore rendered) := by
  cases rendered with
  | obj target =>
    have hfold := storedIn_foldl_carryOver h target
    have hown : settings.StoredIn (.obj (keepOwnAccount current
        (operatorSettings.foldl (carryOver current) target))) := by
      unfold keepOwnAccount
      split
      · exact hfold.insert (by decide) _
      · exact hfold
    unfold carryOverOperatorSettings keepImage
    dsimp only
    split
    · split
      · exact hown.insert (by decide) _
      · exact hown
    · exact hown
  | _ => cases hobject

section

variable {registry : BlueprintRegistry} {detail detail' : Detail} {settings : Settings}

theorem storedIn_recreate (h : settings.StoredIn detail.runtimeConfig)
    (hok : recreateApplication registry detail = .ok detail') :
    settings.StoredIn detail'.runtimeConfig := by
  unfold recreateApplication at hok
  split at hok
  · cases hok
  split at hok
  · cases hok
  split at hok
  next rendered hrendered =>
    cases hok
    unfold rerenderRuntimeConfig at hrendered
    split at hrendered
    · cases hrendered
    next handler hhandler =>
      split at hrendered
      · cases hrendered
      split at hrendered
      · cases hrendered
      obtain ⟨config, hconfig, hrendered⟩ := try_ok_iff.mp hrendered
      cases hrendered
      exact storedIn_carryOverOperatorSettings h (handler.rendered _ _ hconfig).1 _
  next =>
    cases hok
    exact h

variable {provision : Members → AppResult Members}

section

variable (h : settings.StoredIn detail.runtimeConfig)
include h

theorem storedIn_update {fieldValues : Json}
    (hok : updateApplicationConfig registry detail fieldValues provision = .ok detail') :
    settings.StoredIn detail'.runtimeConfig := by
  unfold updateApplicationConfig at hok
  split at hok
  · cases hok
  split at hok
  · cases hok
  next handler hhandler =>
    split at hok
    · cases hok
    obtain ⟨edited, _, hok⟩ := try_ok_iff.mp hok
    obtain ⟨discovered, _, hok⟩ := try_ok_iff.mp hok
    obtain ⟨config, hconfig, hok⟩ := try_ok_iff.mp hok
    cases hok
    exact storedIn_carryOverOperatorSettings h (handler.rendered _ _ hconfig).1 _

/-! ## Settings stored by themselves -/

theorem storedIn_setImage {image : Text} (hok : setApplicationImage detail image = .ok detail') :
    settings.StoredIn detail'.runtimeConfig := by
  unfold setApplicationImage at hok
  dsimp only at hok
  split at hok
  · cases hok
  split at hok
  · cases hok
  split at hok
  · cases hok
  obtain ⟨members, hmembers, hok⟩ := try_ok_iff.mp hok
  cases hok
  exact Settings.StoredIn.insert (objectMut_ok hmembers ▸ h) (by decide) _

theorem storedIn_runAsOwnAccount (hok : runApplicationAsOwnAccount detail = .ok detail') :
    settings.StoredIn detail'.runtimeConfig := by
  unfold runApplicationAsOwnAccount at hok
  split at hok
  · cases hok
  split at hok
  · cases hok
  split at hok
  · cases hok
  obtain ⟨members, hmembers, hok⟩ := try_ok_iff.mp hok
  cases hok
  exact Settings.StoredIn.insert (objectMut_ok hmembers ▸ h) (by decide) _

theorem storedIn_setResourceLimits {memoryLimitMb : Option UInt32} {cpuLimitCores : Option Cores}
    (hok : setApplicationResourceLimits detail memoryLimitMb cpuLimitCores = .ok detail') :
    Settings.StoredIn ⟨memoryLimitMb, cpuLimitCores, settings.diskLimitMb⟩ detail'.runtimeConfig := by
  unfold setApplicationResourceLimits at hok
  split at hok
  · cases hok
  split at hok
  · cases hok
  obtain ⟨_, _, hok⟩ := try_ok_iff.mp hok
  obtain ⟨members, hmembers, hok⟩ := try_ok_iff.mp hok
  cases hok
  have hstored : settings.StoredIn (.obj members) := objectMut_ok hmembers ▸ h
  refine ⟨rfl, ?_, ?_, ?_⟩
  · rw [get_assign, if_neg (by decide), get_assign, if_pos rfl]
  · rw [get_assign, if_pos rfl]
  · rw [get_assign, if_neg (by decide), get_assign, if_neg (by decide), hstored.disk]

theorem storedIn_withDiskLimit {limitMb : Option UInt64} {node : AppResult Unit}
    (hok : withDiskLimit detail limitMb node = .ok detail') :
    Settings.StoredIn { settings with diskLimitMb := limitMb } detail'.runtimeConfig := by
  unfold withDiskLimit at hok
  split at hok
  · cases hok
  obtain ⟨_, _, hok⟩ := try_ok_iff.mp hok
  obtain ⟨_, _, hok⟩ := try_ok_iff.mp hok
  obtain ⟨members, hmembers, hok⟩ := try_ok_iff.mp hok
  cases hok
  exact Settings.StoredIn.withDiskLimit (objectMut_ok hmembers ▸ h) limitMb

end

end

/-! ## Steps and runs -/

theorem kept_stored {result : AppResult Detail} (hs : s.Kept)
    (h : ∀ {detail}, result = .ok detail → s.settings.StoredIn detail.runtimeConfig) :
    (s.stored result).Kept := by
  cases result with
  | error e => exact hs
  | ok detail => exact h rfl

theorem kept_changeBlueprint_iff {registry : BlueprintRegistry} (hs : s.Kept)
    (blueprintId : Text) (fieldValues : Json) (provision : Members → AppResult Members) :
    (next registry s (.changeBlueprint blueprintId fieldValues provision)).Kept ↔
      KeepsSettings registry s (.changeBlueprint blueprintId fieldValues provision) := by
  unfold next KeepsSettings
  dsimp only
  cases hresult : changeApplicationBlueprint registry s.detail blueprintId fieldValues provision with
  | error e =>
    simp only [Except.isOk, Except.toBool, Bool.false_eq_true, false_imp_iff, iff_true]
    exact hs
  | ok detail =>
    simp only [Except.isOk, Except.toBool, true_imp_iff]
    unfold changeApplicationBlueprint at hresult
    split at hresult
    next hsame =>
      cases hresult
      exact ⟨fun _ hne => absurd hsame hne, fun _ => hs⟩
    next hne =>
      split at hresult
      · cases hresult
      split at hresult
      · cases hresult
      obtain ⟨inputs, _, hresult⟩ := try_ok_iff.mp hresult
      obtain ⟨discovered, _, hresult⟩ := try_ok_iff.mp hresult
      obtain ⟨config, hconfig, hresult⟩ := try_ok_iff.mp hresult
      cases hresult
      show s.settings.StoredIn config ↔ _
      rw [storedIn_rendered_iff hconfig]
      exact ⟨fun h _ => h, fun h => h hne⟩

theorem kept_next_iff {registry : BlueprintRegistry} (hs : s.Kept) (op : Op) :
    (next registry s op).Kept ↔ KeepsSettings registry s op := by
  cases op with
  | changeBlueprint blueprintId fieldValues provision =>
    exact kept_changeBlueprint_iff hs blueprintId fieldValues provision
  | setResourceLimits memoryLimitMb cpuLimitCores =>
    refine iff_of_true ?_ trivial
    unfold next
    dsimp only
    split
    next detail hok => exact storedIn_setResourceLimits hs hok
    next => exact hs
  | setDiskLimit limitMb node sync =>
    refine iff_of_true ?_ trivial
    unfold next setDiskLimit
    dsimp only
    cases hstored : withDiskLimit s.detail limitMb node with
    | error e => exact hs
    | ok detail =>
      cases sync with
      | ok _ => exact storedIn_withDiskLimit hs hstored
      | error e => exact hs
  | setImage image => exact iff_of_true (kept_stored hs (storedIn_setImage hs)) trivial
  | runAsOwnAccount => exact iff_of_true (kept_stored hs (storedIn_runAsOwnAccount hs)) trivial
  | recreate => exact iff_of_true (kept_stored hs (storedIn_recreate hs)) trivial
  | editFields fieldValues provision =>
    exact iff_of_true (kept_stored hs (storedIn_update hs)) trivial
  | reinstall stopped provision =>
    refine iff_of_true (kept_stored hs fun hok => ?_) trivial
    unfold reinstallApplication at hok
    split_ifs at hok
    obtain ⟨_, _, hok⟩ := try_ok_iff.mp hok
    exact storedIn_update hs hok

/-- **The operator's settings survive** a run exactly when no step of it changes the blueprint of an
application that has a limit set. -/
theorem operator_settings_survive_iff (registry : BlueprintRegistry) {s u : State}
    {trace : List (Transition State Op)}
    (hrun : Run (fun s op t => t = next registry s op) s trace u) (hs : s.Kept) :
    (∀ x ∈ trace, x.post.Kept) ↔ ∀ x ∈ trace, KeepsSettings registry x.pre x.label := by
  refine hrun.invariant_iff State.Kept (KeepsSettings registry) ?_ hs
  rintro s op t hs rfl
  exact kept_next_iff hs op

/-! ## A limit lost -/

def imageHandler (name image : Text) : BlueprintHandler where
  name := name
  supportedRuntimeTypes := [.docker]
  renderRuntimeConfig := fun _ => .ok (.obj [("image", .str image)])
  rendered := by
    intro inputs config h
    cases h
    refine ⟨rfl, ?_⟩
    simp only [operatorSettings, List.forall_mem_cons]
    exact ⟨rfl, rfl, rfl, by simp⟩

def twoBlueprints : BlueprintRegistry := fun id =>
  if id = "generic-docker" then some (imageHandler "Docker" "nginx")
  else if id = "paper" then some (imageHandler "Paper" "eclipse-temurin:21")
  else none

def nginx : State where
  detail :=
    { blueprintId := "generic-docker"
      runtimeType := .docker
      serverId := none
      workingDirectory := "/opt/nginx"
      shared := false
      runtimeConfig := .obj [("image", .str "nginx")]
      metadata := .obj [("blueprintInputs", .obj [])] }
  settings := .cleared

/-- The blueprint is changed first, then a limit is set and the container recreated. -/
def changedThenLimited : List Op :=
  [.changeBlueprint "paper" .null fun _ => .ok [], .setResourceLimits (some 512) none,
    .recreate]

theorem changedThenLimited_kept :
    (∀ x ∈ traceOf (next twoBlueprints) nginx changedThenLimited, x.post.Kept) ∧
      (changedThenLimited.foldl (next twoBlueprints) nginx).settings.memoryLimitMb = some 512 :=
  ⟨(operator_settings_survive_iff twoBlueprints (run_traceOf _ _ _) ⟨rfl, rfl, rfl, rfl⟩).mpr (by
      simp only [changedThenLimited, traceOf, List.forall_mem_cons, List.not_mem_nil, false_imp_iff,
        implies_true, and_true, KeepsSettings]
      exact fun _ _ => rfl), rfl⟩

/-- The limit is set first: the change of blueprint takes it away. -/
theorem blueprint_change_drops_limit :
    ∃ s, s = [Op.setResourceLimits (some 512) none,
        .changeBlueprint "paper" .null fun _ => .ok []].foldl (next twoBlueprints) nginx ∧
      s.detail.blueprintId = "paper" ∧ s.settings.memoryLimitMb = some 512 ∧
      (s.detail.runtimeConfig.get "memoryLimitMb").isNone = true ∧ ¬ s.Kept := by
  refine ⟨_, rfl, rfl, rfl, rfl, fun h => ?_⟩
  have hmemory := congrArg Option.isSome h.memory
  exact absurd hmemory (by decide)

end VibeSsh.Applications
