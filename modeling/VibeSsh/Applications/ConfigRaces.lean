import VibeSsh.Applications.OperatorSettings

/-! # Writers of one configuration at the same time

The calls that set the limits, the image and the disk limit of an application and the one that edits
its blueprint's fields each read the whole record, compute from it, and store the whole
configuration. Between the two another call may do the same: the repository is locked for each
statement only. `node_for` and `refuse_if_shared` look at columns none of these calls writes, and
are taken to look at what the call reads. -/

namespace VibeSsh.ConfigRaces

open Lib Applications List
open Ai (Json)

/-- The calls, with what the Node and the provisioning answer them. -/
inductive Call where
  | setResourceLimits (memoryLimitMb : Option UInt32) (cpuLimitCores : Option Cores)
  | setImage (image : Text)
  | setDiskLimit (limitMb : Option UInt64) (node sync : AppResult Unit)
  | editFields (fieldValues : Json) (provision : Members → AppResult Members)

def Call.compute (registry : BlueprintRegistry) (detail : Detail) : Call → AppResult Detail
  | .setResourceLimits memoryLimitMb cpuLimitCores =>
    setApplicationResourceLimits detail memoryLimitMb cpuLimitCores
  | .setImage image => setApplicationImage detail image
  | .setDiskLimit limitMb node _ => withDiskLimit detail limitMb node
  | .editFields fieldValues provision =>
    updateApplicationConfig registry detail fieldValues provision

/-- What a call stores of it: `update_runtime_config` writes the configuration, `update` also the
directory and the metadata. -/
def Call.store (stored computed : Detail) : Call → Detail
  | .editFields _ _ =>
    { stored with
      workingDirectory := computed.workingDirectory
      runtimeConfig := computed.runtimeConfig
      metadata := computed.metadata }
  | _ => { stored with runtimeConfig := computed.runtimeConfig }

inductive Phase where
  | ready
  | read (snapshot : Detail)
  /-- The disk limit is stored, and the Node has not answered yet. -/
  | syncing (previous : Json)
  | done (result : AppResult Unit)

def Call.written (snapshot : Detail) : Call → Phase
  | .setDiskLimit _ _ _ => .syncing snapshot.runtimeConfig
  | _ => .done (.ok ())

structure State (n : Nat) where
  detail : Detail
  phase : Fin n → Phase

variable {n : Nat}

def State.start (detail : Detail) : State n := ⟨detail, fun _ => .ready⟩

def State.enter (s : State n) (i : Fin n) (p : Phase) : State n :=
  { s with phase := Function.update s.phase i p }

inductive Event (n : Nat) where
  | read (i : Fin n)
  | write (i : Fin n)
  | sync (i : Fin n)

section

variable (registry : BlueprintRegistry)

def step (calls : Fin n → Call) (s : State n) :
    Event n → Option (State n)
  | .read i =>
    match s.phase i with
    | .ready => some (s.enter i (.read s.detail))
    | _ => none
  | .write i =>
    match s.phase i with
    | .read snapshot =>
      match (calls i).compute registry snapshot with
      | .error e => some (s.enter i (.done (.error e)))
      | .ok computed =>
        some ({ s with detail := (calls i).store s.detail computed }.enter i
          ((calls i).written snapshot))
    | _ => none
  | .sync i =>
    match s.phase i, calls i with
    | .syncing _, .setDiskLimit _ _ (.ok ()) => some (s.enter i (.done (.ok ())))
    | .syncing previous, .setDiskLimit _ _ (.error e) =>
      some ({ s with detail := { s.detail with runtimeConfig := previous } }.enter i
        (.done (.error e)))
    | _, _ => none

abbrev Steps (calls : Fin n → Call) (s : State n) (e : Event n)
    (s' : State n) : Prop :=
  step registry calls s e = some s'

def Call.update (detail : Detail) (call : Call) : AppResult Detail :=
  (call.compute registry detail).map fun computed => call.store detail computed

def Call.synced : Call → AppResult Unit
  | .setDiskLimit _ _ sync => sync
  | _ => .ok ()

/-- The record after a call that nothing comes between. -/
def Call.alone (detail : Detail) (call : Call) :
    AppResult Detail := do
  let stored ← call.update registry detail
  call.synced
  .ok stored

/-- The record is what the calls make of `detail` one after the other, in some order. -/
def Sequential (calls : Fin n → Call) (detail result : Detail) :
    Prop :=
  ∃ order : List (Fin n), order.Perm (List.finRange n) ∧
    order.foldlM (fun detail i => (calls i).alone registry detail) detail = .ok result

end

/-- What a call read is what is stored when it writes. -/
def Undisturbed (s : State n) : Event n → Prop
  | .write i => ∀ snapshot, s.phase i = .read snapshot → snapshot = s.detail
  | _ => True

/-! ## Steps -/

inductive Step (registry : BlueprintRegistry) (calls : Fin n → Call) (s : State n) :
    Event n → State n → Prop where
  | read {i : Fin n} : s.phase i = .ready →
    Step registry calls s (.read i) (s.enter i (.read s.detail))
  | refuse {i : Fin n} {snapshot : Detail} {e : AppError} : s.phase i = .read snapshot →
    Step registry calls s (.write i) (s.enter i (.done (.error e)))
  | write {i : Fin n} {snapshot computed : Detail} : s.phase i = .read snapshot →
    (calls i).compute registry snapshot = .ok computed →
    Step registry calls s (.write i)
      ({ s with detail := (calls i).store s.detail computed }.enter i ((calls i).written snapshot))
  | synced {i : Fin n} {previous : Json} {limitMb : Option UInt64} {node : AppResult Unit} :
    s.phase i = .syncing previous → calls i = .setDiskLimit limitMb node (.ok ()) →
    Step registry calls s (.sync i) (s.enter i (.done (.ok ())))
  | undone {i : Fin n} {previous : Json} {e : AppError} : s.phase i = .syncing previous →
    Step registry calls s (.sync i)
      ({ s with detail := { s.detail with runtimeConfig := previous } }.enter i (.done (.error e)))

variable {registry : BlueprintRegistry} {calls : Fin n → Call} {s s' : State n} {e : Event n}
  {detail : Detail}

theorem step_cases (h : Steps registry calls s e s') : Step registry calls s e s' := by
  cases e with
  | read i =>
    simp only [Steps, step] at h
    split at h <;> cases h
    exact .read ‹_›
  | write i =>
    simp only [Steps, step] at h
    split at h
    · next hphase =>
      split at h <;> cases h
      · exact .refuse hphase
      · exact .write hphase ‹_›
    · cases h
  | sync i =>
    simp only [Steps, step] at h
    split at h <;> cases h
    · exact .synced ‹_› ‹_›
    · exact .undone ‹_›

@[simp] theorem phase_enter (s : State n) (i : Fin n) (p : Phase) : (s.enter i p).phase i = p :=
  Function.update_self ..

theorem phase_enter_of_ne (s : State n) {i j : Fin n} (h : j ≠ i) (p : Phase) :
    (s.enter i p).phase j = s.phase j := Function.update_of_ne h _ _

/-! ## Calls that succeed -/

def Phase.stored : Phase → Bool
  | .syncing _ | .done (.ok ()) => true
  | _ => false

def Phase.failed : Phase → Bool
  | .done (.error _) => true
  | _ => false

/-- A call that has returned stays as it is. -/
theorem failed_step {i : Fin n} (hi : (s.phase i).failed = true) (h : Steps registry calls s e s') :
    (s'.phase i).failed = true := by
  cases step_cases h with
  | @read j hphase | @refuse j _ _ hphase | @write j _ _ hphase _ | @synced j _ _ _ hphase _
  | @undone j _ _ hphase =>
    have hne : i ≠ j := by
      rintro rfl
      rw [hphase] at hi
      cases hi
    rw [phase_enter_of_ne _ hne]
    exact hi

/-- The record is what the calls that stored theirs make of the first one, one after the other. -/
def Ordered (registry : BlueprintRegistry) (calls : Fin n → Call) (detail : Detail) (s : State n) :
    Prop :=
  ∃ order : List (Fin n), order.Nodup ∧ (∀ i, i ∈ order ↔ (s.phase i).stored = true) ∧
    order.foldlM (fun detail i => (calls i).update registry detail) detail = .ok s.detail

theorem ordered_write {i : Fin n} {snapshot computed : Detail}
    (hs : Ordered registry calls detail s) (hphase : s.phase i = .read snapshot)
    (hsame : snapshot = s.detail) (hcompute : (calls i).compute registry snapshot = .ok computed) :
    Ordered registry calls detail
      ({ s with detail := (calls i).store s.detail computed }.enter i
        ((calls i).written snapshot)) := by
  obtain ⟨order, hnodup, hmem, hfold⟩ := hs
  have hi : i ∉ order := by
    rw [hmem i, hphase]
    exact Bool.false_ne_true
  refine ⟨order ++ [i], ?_, fun j => ?_, ?_⟩
  · rw [nodup_append_comm]
    exact nodup_cons.mpr ⟨hi, hnodup⟩
  · by_cases hj : j = i
    · have hstored : ((calls i).written snapshot).stored = true := by cases calls i <;> rfl
      simp [hj, phase_enter, hstored]
    · rw [phase_enter_of_ne _ hj, mem_append, mem_singleton, hmem j]
      simp [hj]
  · rw [foldlM_append, hfold]
    subst hsame
    show (calls i).update registry s.detail >>= pure = _
    rw [bind_pure, Call.update, hcompute]
    rfl

/-- A step keeps the order, or a call fails in it. -/
theorem ordered_step (hs : Ordered registry calls detail s) (hok : Undisturbed s e)
    (h : Steps registry calls s e s') :
    Ordered registry calls detail s' ∨ ∃ i, (s'.phase i).failed = true := by
  cases step_cases h with
  | @read i hphase | @synced i _ _ _ hphase _ =>
    obtain ⟨order, hnodup, hmem, hfold⟩ := hs
    refine .inl ⟨order, hnodup, fun j => (hmem j).trans ?_, hfold⟩
    by_cases hj : j = i
    · rw [hj, phase_enter, hphase]
      rfl
    · rw [phase_enter_of_ne _ hj]
  | @refuse i | @undone i => exact .inr ⟨i, by rw [phase_enter]; rfl⟩
  | write hphase hcompute => exact .inl (ordered_write hs hphase (hok _ hphase) hcompute)

/-- The Node has agreed to what a call that succeeded stored. -/
def Agreed (calls : Fin n → Call) (s : State n) : Prop :=
  ∀ i, s.phase i = .done (.ok ()) → (calls i).synced = .ok ()

theorem agreed_step (hs : Agreed calls s) (h : Steps registry calls s e s') : Agreed calls s' := by
  intro j hj
  cases step_cases h with
  | @read i _ | @refuse i _ _ _ | @undone i _ _ _ =>
    by_cases hji : j = i
    · rw [hji, phase_enter] at hj
      cases hj
    · rw [phase_enter_of_ne _ hji] at hj
      exact hs j hj
  | @write i _ _ _ _ =>
    by_cases hji : j = i
    · rw [hji, phase_enter] at hj
      subst hji
      cases hcall : calls j <;> first | rfl | (rw [hcall] at hj; cases hj)
    · rw [phase_enter_of_ne _ hji] at hj
      exact hs j hj
  | @synced i _ _ _ _ hcall =>
    by_cases hji : j = i
    · rw [hji, hcall]
      rfl
    · rw [phase_enter_of_ne _ hji] at hj
      exact hs j hj

theorem foldlM_alone {order : List (Fin n)} (h : ∀ i ∈ order, (calls i).synced = .ok ())
    (detail : Detail) :
    order.foldlM (fun detail i => (calls i).alone registry detail) detail =
      order.foldlM (fun detail i => (calls i).update registry detail) detail := by
  induction order generalizing detail with
  | nil => rfl
  | cons i order ih =>
    have halone : (calls i).alone registry detail = (calls i).update registry detail := by
      rw [Call.alone, h i mem_cons_self]
      exact bind_pure _
    rw [foldlM_cons, foldlM_cons, halone]
    exact congrArg _ (funext fun d => ih (fun j hj => h j (mem_cons_of_mem _ hj)) d)

/-- **No update is lost** in a run in which each call finds, when it writes, what it read: once all
calls have succeeded, the record is what they make of the first one in some order. -/
theorem undisturbed_updates_kept {trace : List (Transition (State n) (Event n))} {u : State n}
    (h : Run (Steps registry calls) (State.start detail) trace u)
    (hok : ∀ x ∈ trace, Undisturbed x.pre x.label) (hdone : ∀ i, u.phase i = .done (.ok ())) :
    Sequential registry calls detail u.detail := by
  have hstart : Ordered registry calls detail (State.start detail) :=
    ⟨[], nodup_nil, fun i => by simp [State.start, Phase.stored], rfl⟩
  obtain ⟨hordered | ⟨i, hi⟩, -⟩ := h.invariant
    (fun s => Ordered registry calls detail s ∨ ∃ i, (s.phase i).failed = true) Undisturbed
    (fun hs hok hst => hs.elim (ordered_step · hok hst)
      fun ⟨i, hi⟩ => .inr ⟨i, failed_step hi hst⟩) (.inl hstart) hok
  · obtain ⟨order, hnodup, hmem, hfold⟩ := hordered
    have hagreed := (h.invariant (Agreed calls) (fun _ _ => True)
      (fun hs _ hst => agreed_step hs hst) (fun i hi => by cases hi) fun _ _ => trivial).1
    have hall : ∀ i, i ∈ order := fun i => (hmem i).mpr (by rw [hdone i]; rfl)
    refine ⟨order, ?_, ?_⟩
    · exact (perm_ext_iff_of_nodup hnodup (nodup_finRange n)).mpr fun i =>
        iff_of_true (hall i) (mem_finRange i)
    · rw [foldlM_alone fun i _ => hagreed i (hdone i)]
      exact hfold
  · rw [hdone i] at hi
    cases hi

/-! ## An image lost -/

def nginxOnNode : Detail := { nginx.detail with serverId := some Uuid.max }

/-- A disk limit and an image are set. -/
def limitAndImage : Fin 2 → Call
  | 0 => .setDiskLimit (some 512) (.ok ()) (.ok ())
  | 1 => .setImage "redis"

/-- The image is read and stored while the Node has yet to answer the limit. -/
def imageDuringSync : List (Event 2) := [.read 0, .write 0, .read 1, .write 1, .sync 0]

theorem limit_and_image_kept :
    ∃ u, Run (Steps twoBlueprints limitAndImage) (State.start nginxOnNode)
        (stepsOf (step twoBlueprints limitAndImage) (State.start nginxOnNode) imageDuringSync) u ∧
      Sequential twoBlueprints limitAndImage nginxOnNode u.detail := by
  have hrun : Run (Steps twoBlueprints limitAndImage) (State.start nginxOnNode)
      (stepsOf (step twoBlueprints limitAndImage) (State.start nginxOnNode) imageDuringSync) _ :=
    run_stepsOf rfl
  refine ⟨_, hrun, undisturbed_updates_kept hrun ?_ fun i => ?_⟩
  · have hwrite : ∀ {s : State 2} {i : Fin 2}, s.phase i = .read s.detail →
        Undisturbed s (.write i) := fun hphase _ h => Phase.read.inj (h.symm.trans hphase)
    exact forall_mem_cons.mpr ⟨trivial, forall_mem_cons.mpr ⟨hwrite rfl, forall_mem_cons.mpr
      ⟨trivial, forall_mem_cons.mpr ⟨hwrite rfl, forall_mem_cons.mpr ⟨trivial, nofun⟩⟩⟩⟩⟩
  · match i with
    | 0 => rfl
    | 1 => rfl

/-- The fields of the blueprint are edited, and the image is set. -/
def editAndImage : Fin 2 → Call
  | 0 => .editFields .null fun _ => .ok []
  | 1 => .setImage "redis"

def imageOf (result : AppResult Detail) : Option Text :=
  match result with
  | .ok detail =>
    match detail.runtimeConfig.get "image" with
    | some (.str image) => some image
    | _ => none
  | .error _ => none

/-- The image is set while the edit waits for its provisioning. -/
def imageDuringEdit : List (Event 2) := [.read 0, .read 1, .write 1, .write 0]

theorem image_lost :
    ∃ u, Run (Steps twoBlueprints editAndImage) (State.start nginx.detail)
        (stepsOf (step twoBlueprints editAndImage) (State.start nginx.detail) imageDuringEdit) u ∧
      (∀ i, u.phase i = .done (.ok ())) ∧
      ¬ Sequential twoBlueprints editAndImage nginx.detail u.detail := by
  have hrun : Run (Steps twoBlueprints editAndImage) (State.start nginx.detail)
      (stepsOf (step twoBlueprints editAndImage) (State.start nginx.detail) imageDuringEdit) _ :=
    run_stepsOf rfl
  refine ⟨_, hrun, ?_, ?_⟩
  · intro i
    match i with
    | 0 => rfl
    | 1 => rfl
  · rintro ⟨order, hperm, hfold⟩
    have horders : (List.finRange 2).permutations' = [[0, 1], [1, 0]] := by decide
    have horder := mem_permutations'.mpr hperm
    rw [horders, mem_cons, mem_singleton] at horder
    have himage := congrArg imageOf hfold
    rcases horder with rfl | rfl
    · exact absurd himage (by decide)
    · exact absurd himage (by decide)

end VibeSsh.ConfigRaces
