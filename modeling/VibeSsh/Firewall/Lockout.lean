import VibeSsh.Firewall.Service

/-! # Nobody is locked out

Everything the program does to a Node's firewall, as labels of one transition system, and the
property it must keep: while ufw enforces, there is an open rule for the port the cached session
arrived on. -/

namespace VibeSsh.Firewall

open Lib Command List

structure CustomRuleInput where
  label : Option Text
  port : UInt16
  protocol : PortProtocol
  sourceCidr : Option Text

inductive Op where
  | enable (first second : Answers)
  | sync (first second : Answers)
  | addCustomRule (id : Uuid) (input : CustomRuleInput) (first second : Answers)
  | removeCustomRule (id : Uuid) (first second : Answers)
  | addPort (application : Uuid) (port : ApplicationPort) (first second : Answers)
  | removePort (application : Uuid) (name : Text) (first second : Answers)
  | editSshPort (port : UInt16)
  | connect (answers : Answers)
  | closeSession

/-- The checks of `add_custom_firewall_rule`, and the row it stores. -/
def checkCustomRule (id : Uuid) (input : CustomRuleInput) : AppResult CustomRule := do
  let sourceCidr ← match input.sourceCidr.map Text.trim with
    | none => .ok none
    | some [] => .ok none
    | some source => (canonicalIpv4Source source "The source").map some
  if input.port = 0 then .error (.invalidInput "The port must be between 1 and 65535")
  else .ok ⟨id, input.label, input.port, input.protocol, sourceCidr⟩

def NodeRows.addCustomRule (rule : CustomRule) (rows : NodeRows) : NodeRows :=
  { rows with customRules := rows.customRules ++ [rule] }

def NodeRows.removeCustomRule (id : Uuid) (rows : NodeRows) : NodeRows :=
  { rows with customRules := rows.customRules.filter (·.id ≠ id) }

def NodeRows.mapPorts (application : Uuid) (f : List ApplicationPort → List ApplicationPort)
    (rows : NodeRows) : NodeRows :=
  { rows with applications := rows.applications.map fun a =>
      if a.id = application then { a with ports := f a.ports } else a }

def NodeRows.setSshPort (port : UInt16) (rows : NodeRows) : NodeRows :=
  { rows with server := rows.server.map fun s => { s with sshPort := port } }

/-- The change an operation makes to the rows before it syncs, with the answers the sync gets. -/
def Op.edit : Op → Option ((NodeRows → NodeRows) × Answers × Answers)
  | .sync first second => some (id, first, second)
  | .addCustomRule id input first second =>
    match checkCustomRule id input with
    | .ok rule => some (NodeRows.addCustomRule rule, first, second)
    | .error _ => none
  | .removeCustomRule id first second => some (NodeRows.removeCustomRule id, first, second)
  | .addPort application port first second =>
    some (NodeRows.mapPorts application (· ++ [port]), first, second)
  | .removePort application name first second =>
    some (NodeRows.mapPorts application (·.filter (·.name ≠ name)), first, second)
  | _ => none

def editRows (edit : NodeRows → NodeRows) : Remote Unit :=
  Exec.modify fun w => { w with rows := edit w.rows }

def editThenSync (serverId : Uuid) (edit : NodeRows → NodeRows) (first second : Answers) :
    Remote Unit := do
  editRows edit
  Exec.recover (do let _ ← reconcileNode serverId first second; pure ()) fun _ => pure ()

def program (serverId : Uuid) (op : Op) : Remote Unit :=
  match op with
  | .enable first second => do
    let _ ← enableNodeFirewall serverId first second
    pure ()
  | .sync first second => do
    let _ ← reconcileNode serverId first second
    pure ()
  | .editSshPort port => editRows (NodeRows.setSshPort port)
  | .connect answers => getOrConnect serverId answers
  | .closeSession => dropSession
  | .addCustomRule id input first second =>
    match checkCustomRule id input with
    | .error e => Exec.fail e
    | .ok rule => editThenSync serverId (NodeRows.addCustomRule rule) first second
  | .removeCustomRule id first second =>
    editThenSync serverId (NodeRows.removeCustomRule id) first second
  | .addPort application port first second =>
    editThenSync serverId (NodeRows.mapPorts application (· ++ [port])) first second
  | .removePort application name first second =>
    editThenSync serverId (NodeRows.mapPorts application (·.filter (·.name ≠ name))) first second

def next (serverId : Uuid) (w : World) (op : Op) : World := (program serverId op w).final

/-! ## The property and the condition -/

/-- While ufw enforces, the port of the cached session is open to everyone. -/
def Safe (w : World) : Prop :=
  w.ufw.active = true → ∀ port ∈ w.session, w.ufw.Covers port

/-- The rules wanted on these rows, if they can be computed, include the open rule of `port`. -/
def Wanted (serverId : Uuid) (rows : NodeRows) (port : UInt16) : Prop :=
  match desiredRules rows serverId with
  | .ok desired => openRule port ∈ desired
  | .error _ => True

instance (serverId : Uuid) (rows : NodeRows) (port : UInt16) :
    Decidable (Wanted serverId rows port) := by
  unfold Wanted; split <;> infer_instance

/-- The sessions of a sync come in through open rules, and under enforcement the open rule of each
port they are on is wanted. -/
def SyncKeepsLivePort (serverId : Uuid) (w : World) (rows : NodeRows) (first second : Answers) :
    Prop :=
  first.throughScope = false ∧ second.throughScope = false ∧
    (w.ufw.active = true → Wanted serverId rows (w.session.getD first.arrival) ∧
      Wanted serverId rows second.arrival)

instance (serverId : Uuid) (w : World) (rows : NodeRows) (first second : Answers) :
    Decidable (SyncKeepsLivePort serverId w rows first second) := by
  unfold SyncKeepsLivePort; infer_instance

/-- The answers of an operation that connects without a sync. -/
def Op.answers : Op → List Answers
  | .enable first second => [first, second]
  | .connect answers => [answers]
  | _ => []

def KeepsLivePort (serverId : Uuid) (w : World) (op : Op) : Prop :=
  match op.edit with
  | some (edit, first, second) => SyncKeepsLivePort serverId w (edit w.rows) first second
  | none => ∀ a ∈ op.answers, a.throughScope = false

instance (serverId : Uuid) (w : World) (op : Op) : Decidable (KeepsLivePort serverId w op) := by
  unfold KeepsLivePort; split <;> infer_instance

/-! ## Commands -/

/-- `Safe`, with the open rules a sync will not revoke: those of the live session, and `K`. -/
def Guarded (desired : List FirewallRule) (K : Prop) (w : World) : Prop :=
  Safe w ∧ (w.ufw.active = true → K ∧ ∀ port ∈ w.session, openRule port ∈ desired)

def Present (rules : List FirewallRule) (w : World) : Prop :=
  ∀ r ∈ rules, ∃ e ∈ w.ufw.rules, e.rule = r

variable {I P : World → Prop} {w : World} {a : Answers} {desired : List FirewallRule}

theorem execute_always {Q : World → Prop} {answer : Answer}
    {effect : Ufw → Ufw} (h : ∀ w, I w → P w → I (onUfw effect w) ∧ Q (onUfw effect w)) :
    Always I P (execute answer effect) fun stderr w => stderr = none → Q w := by
  cases answer with
  | ok =>
    refine .bind (.modify h) fun _ => .pure fun w _ hQ _ => hQ
  | refused stderr =>
    exact .pure fun w _ _ hnone => by cases hnone
  | lost ran =>
    refine .bind (Q := fun _ _ => True) (.modify fun w hI hP => ?_) fun _ => .fail
    cases ran with
    | true => exact ⟨(h w hI hP).1, trivial⟩
    | false => exact ⟨hI, trivial⟩

theorem query_always {answer : Answer} {stdout : World → Text} :
    Always I P (query answer stdout) fun out w => out = [] ∨ out = stdout w := by
  cases answer with
  | ok =>
    refine .bind (.get (Q := fun w w' => w = w') fun _ _ _ => rfl) fun w => ?_
    exact .pure fun w' _ hw => .inr (by rw [hw])
  | refused stderr => exact .pure fun _ _ _ => .inl rfl
  | lost ran => exact .fail

theorem applyRules_keeps {rules : List FirewallRule}
    (h : ∀ r ∈ rules, ∀ w, I w → I (onUfw (Ufw.allow r) w)) (failures : List Text) :
    Always I P (applyRules a rules failures) fun _ _ => True := by
  induction rules generalizing failures P with
  | nil => exact .ite (fun _ => .pure fun _ _ _ => trivial) fun _ => .fail
  | cons rule rules ih =>
    obtain ⟨hrule, hrest⟩ := forall_mem_cons.mp h
    refine .bind (execute_always (Q := fun _ => True) fun w hw _ => ⟨hrule w hw, trivial⟩)
      fun stderr => ?_
    cases stderr with
    | none => exact ih hrest failures
    | some stderr => exact ih hrest _

theorem revokeRules_keeps {rules : List FirewallRule}
    (h : ∀ r ∈ rules, ∀ w, I w → I (onUfw (Ufw.delete r) w)) :
    Always I P (revokeRules a rules) fun _ _ => True := by
  induction rules generalizing P with
  | nil => exact .pure fun _ _ _ => trivial
  | cons rule rules ih =>
    obtain ⟨hrule, hrest⟩ := forall_mem_cons.mp h
    refine .bind (execute_always (Q := fun _ => True) fun w hw _ => ⟨hrule w hw, trivial⟩)
      fun stderr => ?_
    cases stderr with
    | none => exact ih hrest
    | some stderr => exact .fail

theorem getOrConnect_keeps (serverId : Uuid)
    (h : ∀ w port, I w → I { w with session := some port }) :
    Always I P (getOrConnect serverId a) fun _ _ => True := by
  refine .bind (.get (Q := fun _ _ => True) fun _ _ _ => trivial) fun w => ?_
  split
  · exact .pure fun _ _ _ => trivial
  · exact .fail
  · exact .fail
  · exact .ite (fun _ => .fail) fun _ => .modify fun w hw _ => ⟨h w _ hw, trivial⟩

theorem onUfw_allow_safe (h : Safe w) (rule : FirewallRule) :
    Safe (onUfw (Ufw.allow rule) w) := fun hactive port hport =>
  Ufw.mem_allow_of_mem (h hactive port hport)

theorem onUfw_allow_present {rules : List FirewallRule} (h : Present rules w)
    (rule : FirewallRule) : Present (rules ++ [rule]) (onUfw (Ufw.allow rule) w) := by
  intro r hr
  rcases mem_append.mp hr with hr | hr
  · exact Ufw.mem_allow_of_mem (h r hr)
  · rw [mem_singleton.mp hr]
    exact w.ufw.mem_allow_self rule

/-- Applying rules keeps any invariant that allowing a rule keeps; if it returns, all are there. -/
theorem applyRules_always (hI : ∀ w rule, I w → I (onUfw (Ufw.allow rule) w))
    (a : Answers) (rest : List FirewallRule) :
    ∀ (failures : List Text) (done : List FirewallRule),
      Always I (fun w => failures = [] → Present done w) (applyRules a rest failures)
        fun _ w => Present (done ++ rest) w := by
  induction rest with
  | nil =>
    intro failures done
    refine .ite (fun hf => .pure fun w _ hP => ?_) fun _ => .fail
    simpa using hP hf
  | cons rule rest ih =>
    intro failures done
    refine .bind (execute_always (Q := fun w => failures = [] → Present (done ++ [rule]) w)
      fun w hw hP => ⟨hI w rule hw, fun hf => onUfw_allow_present (hP hf) rule⟩) fun stderr => ?_
    have hnext := fun failures => ih failures (done ++ [rule])
    simp only [append_assoc, singleton_append] at hnext
    cases stderr with
    | none => exact (hnext failures).weaken (fun w hw hP => ⟨hw, hP rfl⟩) (fun _ h => h) fun _ _ _ h => h
    | some stderr =>
      exact (hnext _).weaken (fun w hw _ => ⟨hw, by simp⟩) (fun _ h => h) fun _ _ _ h => h

/-! ## Revoking -/

section Revoking

variable {desired : List FirewallRule} {K : Prop}

theorem revokeRules_always (a : Answers) {obsolete : List FirewallRule}
    (h : ∀ rule ∈ obsolete, rule ∉ desired) :
    Always (Guarded desired K) (fun _ => True) (revokeRules a obsolete) fun _ _ => True :=
  revokeRules_keeps fun rule hrule _ hw =>
    -- a rule that is not wanted is not the open rule of a live session
    ⟨fun hactive port hport => Ufw.mem_delete_of_ne (hw.1 hactive port hport) fun he =>
      h rule hrule (he ▸ (hw.2 hactive).2 port hport), hw.2⟩

theorem finishSync_always (a : Answers) :
    Always (Guarded desired K) (fun _ => True) (finishSync a desired) fun _ _ => True := by
  refine .bind (Q := fun _ _ => True) ?_ fun removed => ?_
  · refine .bind (Q := fun _ _ => True) ?_ fun owned => ?_
    · exact .bind query_always fun _ => .pure fun _ _ _ => trivial
    · refine .bind (revokeRules_always a fun rule hrule => ?_)
        fun _ => .pure fun _ _ _ => trivial
      simpa using (mem_filter.mp hrule).2
  · refine .bind (Q := fun _ _ => True) ?_ fun _ => .pure fun _ _ _ => trivial
    exact .bind query_always fun _ => .pure fun _ _ _ => trivial

end Revoking

/-! ## Connecting -/

variable (serverId : Uuid)

/-- A new session comes in through an open rule, unless a scoped one let it in. -/
theorem getOrConnect_always (hscope : a.throughScope = false)
    (h : ∀ w, I w → P w → w.session = none → (w.ufw.active = true → w.ufw.Covers a.arrival) →
      I { w with session := some a.arrival }) :
    Always I P (getOrConnect serverId a) fun _ _ => True := by
  refine .bind (.get (Q := fun w w' => w = w' ∧ P w') fun _ _ hP => ⟨rfl, hP⟩)
    fun w => ?_
  split
  · exact .pure fun _ _ _ => trivial
  · exact .fail
  · exact .fail
  · next hsession _ _ =>
    refine .ite (fun _ => .fail) fun hadmitted => .modify ?_
    rintro w' hI ⟨rfl, hP⟩
    refine ⟨h w hI hP hsession fun hactive => ?_, trivial⟩
    by_contra hcovers
    exact hadmitted ⟨hactive, hcovers, hscope⟩

theorem dropSession_safe : Safe { w with session := none } := fun _ _ hport => by
  cases hport

/-! ## Syncing -/

theorem reconcileAttempt_always {K : Prop} (serverId : Uuid) (hscope : a.throughScope = false) :
    Always (Guarded desired K)
      (fun w => w.ufw.active = true → w.session = none → openRule a.arrival ∈ desired)
      (reconcileAttempt serverId desired a) fun _ _ => True := by
  refine .bind (getOrConnect_always serverId hscope fun w hw hP hnone hcovers => ?_)
    fun _ => ?_
  · refine ⟨fun hactive port hport => ?_, fun hactive => ⟨(hw.2 hactive).1, fun port hport => ?_⟩⟩
    · cases hport
      exact hcovers hactive
    · cases hport
      exact hP hactive hnone
  · refine .bind (Q := fun _ _ => True)
      (.bind query_always fun _ => .pure fun _ _ _ => trivial) fun _ => ?_
    refine .ite (fun _ => .pure fun _ _ _ => trivial) fun _ => ?_
    refine .bind (Q := fun _ _ => True) ?_ fun _ => finishSync_always a
    have happly := applyRules_always (fun w rule hw => ⟨onUfw_allow_safe hw.1 rule, hw.2⟩) a desired [] []
      (I := Guarded desired K)
    exact happly.weaken (fun _ hw _ => ⟨hw, fun _ _ hr => by cases hr⟩) (fun _ h => h)
      fun _ _ _ _ => trivial

theorem retry_always {α : Type} {first second : Remote α}
    {Q : α → World → Prop} (hdrop : ∀ w, I w → I { w with session := none })
    (hfirst : Always I P first Q) (hsecond : Always I (fun w => w.session = none) second Q) :
    Always I P (retryOnConnectionFailure first second) Q := by
  refine hfirst.recover fun e => .ite (fun _ => ?_) fun _ => .fail
  exact .bind (.modify fun w hw _ => ⟨hdrop w hw, rfl⟩) fun _ => hsecond

theorem mem_of_wanted {serverId : Uuid} {rows : NodeRows}
    {port : UInt16} (hdesired : desiredRules rows serverId = .ok desired)
    (h : Wanted serverId rows port) : openRule port ∈ desired := by
  unfold Wanted at h
  rw [hdesired] at h
  exact h

/-- A sync keeps the session's port open if the wanted rules do. -/
theorem reconcileNode_safe (first second : Answers) :
    Always Safe (fun w => SyncKeepsLivePort serverId w w.rows first second)
      (reconcileNode serverId first second) fun _ _ => True := by
  refine .bind (.get (Q := fun w w' => w = w' ∧
    SyncKeepsLivePort serverId w w.rows first second) fun _ _ hP => ⟨rfl, hP⟩) fun w => ?_
  split
  · exact .fail
  · next desired hdesired =>
    by_cases hcond : SyncKeepsLivePort serverId w w.rows first second
    · obtain ⟨hscope1, hscope2, hwanted⟩ := id hcond
      have hretry := retry_always (I := Guarded desired (openRule second.arrival ∈ desired))
        (fun w hw => ⟨dropSession_safe, fun hactive => ⟨(hw.2 hactive).1, by simp⟩⟩)
        (reconcileAttempt_always serverId hscope1)
        ((reconcileAttempt_always serverId hscope2).weaken
          (fun w hw _ => ⟨hw, fun hactive _ => (hw.2 hactive).1⟩) (fun _ h => h) fun _ _ _ h => h)
      refine hretry.weaken ?_ (fun _ h => h.1) fun _ _ _ h => h
      rintro w' hsafe ⟨rfl, -⟩
      refine ⟨⟨hsafe, fun hactive => ?_⟩, fun hactive hnone => ?_⟩
      · obtain ⟨hlive, hsecond⟩ := hwanted hactive
        refine ⟨mem_of_wanted hdesired hsecond, fun port hport => ?_⟩
        rw [Option.mem_def.mp hport] at hlive
        exact mem_of_wanted hdesired hlive
      · have hlive := (hwanted hactive).1
        rw [hnone] at hlive
        exact mem_of_wanted hdesired hlive
    · rintro w' - ⟨-, hP⟩
      exact absurd hP hcond

/-! ## Enabling -/

/-- `Safe`, and the live session's open rule is wanted whether or not ufw enforces yet. -/
def LiveWanted (desired : List FirewallRule) (w : World) : Prop :=
  Safe w ∧ ∀ port ∈ w.session, openRule port ∈ desired

theorem parseLiveSshPort_sshConnection (w : World) :
    parseLiveSshPort (sshConnection w) = w.session := by
  unfold sshConnection
  cases w.session with
  | none => rfl
  | some port =>
    have hwords := Text.words_append_blank (b := ' ') (by decide)
      "203.0.113.9 50022 198.51.100.4" (Text.ofNat port.toNat)
    rw [Text.words_of_noBlank (Text.ofNat_ne_nil _) fun c => Text.isWhitespace_of_mem_ofNat] at hwords
    have hlt := port.toNat_lt
    simp only [parseLiveSshPort, hwords]
    show (Text.parseUnsigned 65535 (Text.ofNat port.toNat)).map UInt16.ofNat = some port
    rw [Text.parseUnsigned_ofNat (by omega)]
    simp

theorem liveSshPort_always (a : Answers) :
    Always I P (liveSshPort a) fun port w => w.session = some port := by
  refine .bind query_always fun out => ?_
  split
  · next port hport =>
    refine .pure fun w _ hout => ?_
    rcases hout with rfl | rfl
    · cases hport
    · rw [← parseLiveSshPort_sshConnection, hport]
  · exact .fail

/-- Enforcement goes on only after the open rule of the live port is wanted and applied. -/
theorem enableUfw_always (a : Answers) (desired : List FirewallRule) :
    Always Safe (fun _ => True) (enableUfw a desired) fun _ w => LiveWanted desired w := by
  refine .bind (liveSshPort_always a) fun live => ?_
  refine .ite (fun _ => .fail) fun hcovered => ?_
  have hlive : openRule live ∈ desired := by simpa using hcovered
  -- from here on the live port is known to be wanted, and every step keeps it so
  refine .weaken (?body : Always (LiveWanted desired) (fun _ => True) _ fun _ _ => True)
    (fun w hsafe hsession => ⟨⟨hsafe, fun port hport => ?live⟩, trivial⟩)
    (fun _ h => h.1) fun _ _ h _ => h
  case live =>
    rw [hsession] at hport
    cases hport
    exact hlive
  have happly := applyRules_always (I := LiveWanted desired)
    (fun w rule hw => ⟨onUfw_allow_safe hw.1 rule, hw.2⟩) a desired [] []
  refine .bind (happly.weaken (fun _ hw _ => ⟨hw, fun _ _ hr => by cases hr⟩)
    (fun _ h => h) fun _ _ _ h => h) fun _ => ?_
  refine .bind (execute_always (Q := fun _ => True) fun w hw hpresent =>
    ⟨⟨fun _ port hport => hpresent _ (hw.2 port hport), hw.2⟩, trivial⟩) fun stderr => ?_
  cases stderr with
  | none => exact .pure fun _ _ _ => trivial
  | some stderr => exact .fail

theorem enableAttempt_always (desired : List FirewallRule) (hscope : a.throughScope = false) :
    Always Safe (fun _ => True) (enableAttempt serverId desired a) fun _ _ => True := by
  refine .bind (getOrConnect_always serverId hscope fun w hw _ _ hcovers => ?_) fun _ => ?_
  · intro hactive port hport
    cases hport
    exact hcovers hactive
  · refine .bind (Q := fun _ _ => True)
      (.bind query_always fun _ => .pure fun _ _ _ => trivial) fun _ => ?_
    refine .ite (fun _ => .pure fun _ _ _ => trivial) fun _ => ?_
    refine .bind (enableUfw_always a desired) fun _ => ?_
    exact (finishSync_always (K := True) a).weaken
      (fun _ _ hw => ⟨⟨hw.1, fun _ => ⟨trivial, hw.2⟩⟩, trivial⟩) (fun _ h => h.1) fun _ _ _ h => h

theorem enableNodeFirewall_safe {first second : Answers}
    (hscope1 : first.throughScope = false) (hscope2 : second.throughScope = false) :
    Always Safe (fun _ => True) (enableNodeFirewall serverId first second) fun _ _ => True := by
  refine .bind (.get (Q := fun _ _ => True) fun _ _ _ => trivial) fun w => ?_
  split
  · exact .fail
  · next desired _ =>
    refine retry_always (fun _ _ => dropSession_safe) (enableAttempt_always serverId desired hscope1)
      ((enableAttempt_always serverId desired hscope2).weaken (fun _ hw _ => ⟨hw, trivial⟩)
        (fun _ h => h) fun _ _ _ h => h)

/-! ## Every run -/

theorem editThenSync_safe (edit : NodeRows → NodeRows) (first second : Answers) :
    Always Safe (fun w => SyncKeepsLivePort serverId w (edit w.rows) first second)
      (editThenSync serverId edit first second) fun _ _ => True := by
  refine .bind (.modify
    (Q := fun _ w => SyncKeepsLivePort serverId w w.rows first second)
    fun w hsafe hcond => ⟨hsafe, hcond⟩) fun _ => ?_
  exact .recover (.bind (reconcileNode_safe serverId first second)
    fun _ => .pure fun _ _ _ => trivial) fun _ => .pure fun _ _ _ => trivial

theorem program_safe (op : Op) :
    Always Safe (fun w => KeepsLivePort serverId w op) (program serverId op) fun _ _ => True := by
  -- an operation that edits and syncs, by the edit it stands for
  have hedit : ∀ edit first second, op.edit = some (edit, first, second) →
      Always Safe (fun w => KeepsLivePort serverId w op) (editThenSync serverId edit first second)
        fun _ _ => True := fun edit first second he =>
    (editThenSync_safe serverId edit first second).weaken
      (fun w hsafe hcond => ⟨hsafe, by simpa only [KeepsLivePort, he] using hcond⟩)
      (fun _ h => h) fun _ _ _ h => h
  cases op with
  | enable first second =>
    intro w hsafe hcond
    have h1 := hcond first (by simp [Op.answers])
    have h2 := hcond second (by simp [Op.answers])
    have hprogram : Always Safe (fun _ => True) (program serverId (.enable first second))
        fun _ _ => True :=
      .bind (enableNodeFirewall_safe serverId h1 h2) fun _ => .pure fun _ _ _ => trivial
    exact hprogram w hsafe trivial
  | sync first second =>
    refine .bind (Q := fun _ _ => True) ?_ fun _ => .pure fun _ _ _ => trivial
    exact (reconcileNode_safe serverId first second).weaken
      (fun w hsafe hcond => ⟨hsafe, hcond⟩) (fun _ h => h) fun _ _ _ h => h
  | addCustomRule id input first second =>
    unfold program
    dsimp only
    split
    · exact .fail
    · next rule hrule => exact hedit _ first second (by simp [Op.edit, hrule])
  | removeCustomRule id first second | addPort application port first second
  | removePort application name first second =>
    exact hedit _ first second rfl
  | editSshPort port => exact .modify fun w hsafe _ => ⟨hsafe, trivial⟩
  | connect answers =>
    intro w hsafe hcond
    refine getOrConnect_always serverId (hcond answers (by simp [Op.answers])) (P := fun _ => True)
      (fun w _ _ _ hcovers hactive port hport => ?_) w hsafe trivial
    cases hport
    exact hcovers hactive
  | closeSession => exact .modify fun _ _ _ => ⟨dropSession_safe, trivial⟩

/-- **No lockout, in every run whose syncs want the live port.** It holds in the middle of an
operation too. `enable` refuses when that rule is not wanted; a sync does not. -/
theorem live_port_stays_open {serverId : Uuid} {start final : World}
    {trace : List (Transition World Op)} (hstart : Safe start)
    (hrun : Run (fun w op w' => w' = next serverId w op) start trace final)
    (hok : ∀ x ∈ trace, KeepsLivePort serverId x.pre x.label) :
    ∀ x ∈ trace, (∀ v ∈ (program serverId x.label x.pre).visited, Safe v) ∧ Safe x.post := by
  obtain ⟨-, hall⟩ := hrun.invariant Safe (KeepsLivePort serverId)
    (fun hs hok hnext => by subst hnext; exact (program_safe serverId _ _ hs hok).2.1) hstart hok
  intro x hx
  obtain ⟨hpre, -, hpost⟩ := hall x hx
  exact ⟨(program_safe serverId x.label x.pre hpre (hok x hx)).1, hpost⟩

def answersOn (port : UInt16) : Answers :=
  ⟨none, port, false, .ok, .ok, .ok, .ok, .ok, fun _ => .ok, fun _ => .ok⟩

/-- A Node reached on 22, ufw installed and off. -/
def nodeOn22 : World where
  rows :=
    { server := some ⟨"Production", "203.0.113.10", 22, "root", .password, none,
        none⟩
      isMeshMember := false
      applications := []
      customRules := [] }
  ufw := ⟨true, false, []⟩
  session := some 22

theorem nodeOn22_safe : Safe nodeOn22 := by
  intro h
  cases h

/-- The old port is kept open by hand until the session has moved to the new one. -/
def movePortWithCustomRule : List Op :=
  [.enable (answersOn 22) (answersOn 22),
    .addCustomRule .nil ⟨none, 22, .tcp, none⟩ (answersOn 22) (answersOn 22),
    .editSshPort 2222,
    .sync (answersOn 22) (answersOn 2222),
    .closeSession,
    .connect (answersOn 2222),
    .removeCustomRule .nil (answersOn 2222) (answersOn 2222)]

theorem movePortWithCustomRule_stays_open :
    (∀ x ∈ traceOf (next .nil) nodeOn22 movePortWithCustomRule, KeepsLivePort .nil x.pre x.label) ∧
      ∀ x ∈ traceOf (next .nil) nodeOn22 movePortWithCustomRule,
        (∀ v ∈ (program .nil x.label x.pre).visited, Safe v) ∧ Safe x.post := by
  have hok : ∀ x ∈ traceOf (next .nil) nodeOn22 movePortWithCustomRule,
      KeepsLivePort .nil x.pre x.label := by
    decide
  exact ⟨hok, live_port_stays_open nodeOn22_safe (run_traceOf (next .nil) nodeOn22 _) hok⟩

/-- The stored port changes and the Node is synced over the session that is still on the old one. -/
def movePort : List Op :=
  [.enable (answersOn 22) (answersOn 22), .editSshPort 2222, .sync (answersOn 22) (answersOn 22)]

theorem sync_revokes_live_port :
    let moved := movePort.foldl (next .nil) nodeOn22
    Safe nodeOn22 ∧ moved.ufw.active = true ∧ moved.session = some 22 ∧ ¬moved.ufw.Covers 22 := by
  refine ⟨nodeOn22_safe, ?_⟩
  decide

end VibeSsh.Firewall
