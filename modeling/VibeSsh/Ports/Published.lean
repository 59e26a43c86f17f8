import VibeSsh.Ports.Store

/-! # Published ports stay distinct

An update may write a port that another call has taken since its probe. Additions need no such care:
their check and their insert are one step. -/

namespace VibeSsh.Ports

open Lib Tables List Option

/-- No two ports stored for one Node have the same protocol and the same external port. -/
def PublishedDistinct (t : Tables) : Prop :=
  ∀ server protocol externalPort, ∀ p ∈ t.ports, ∀ q ∈ t.ports,
    t.Publishes server protocol externalPort p → t.Publishes server protocol externalPort q → p = q

def Claims (t : Tables) (call : Call) (server : Uuid) (protocol : PortProtocol)
    (externalPort : UInt16) : Prop :=
  t.serverOf call.application = some server ∧ call.port.protocol = protocol ∧
    call.port.externalPort = some externalPort

def Save.target : Save → Uuid
  | .add newId => newId
  | .update portId => portId

/-! ## What the checks find out -/

variable {t t' : Tables} {server newId : Uuid} {protocol : PortProtocol} {externalPort : UInt16}
  {call : Call} {s : State}

theorem findExternalPortOwner_eq_none {excluding : Option Uuid}
    (h : t.findExternalPortOwner server excluding protocol externalPort = none) :
    ∀ p ∈ t.ports, t.Publishes server protocol externalPort p → some p.id = excluding := by
  intro p hp hpub
  by_contra hne
  unfold findExternalPortOwner at h
  rw [bind_eq_none_iff] at h
  obtain ⟨owner, howner⟩ : ∃ owner, t.ports.find? (fun p =>
      t.Publishes server protocol externalPort p ∧ some p.id ≠ excluding) = some owner :=
    isSome_iff_exists.mp (List.find?_isSome.mpr ⟨p, hp, by simpa using ⟨hpub, hne⟩⟩)
  have hfound : t.serverOf owner.applicationId = some server := by
    have hspec := List.find?_some howner
    simp only [decide_eq_true_eq] at hspec
    exact hspec.1.1
  have hnone := h owner howner
  rw [map_eq_none_iff] at hnone
  simp [serverOf, hnone] at hfound

/-- Nothing but the row itself publishes what an update wants to publish. -/
def Checked (t : Tables) (call : Call) : Prop :=
  ∀ {portId server protocol externalPort}, call.save = .update portId →
    Claims t call server protocol externalPort →
    ∀ p ∈ t.ports, t.Publishes server protocol externalPort p → p.id = portId

theorem checked_of_probe {w : Waiting}
    (h : checkExternalPortAvailable t call = .ok (some w)) : w.call = call ∧ Checked t call := by
  unfold checkExternalPortAvailable at h
  split at h
  · cases h
  next externalPort hport =>
  split at h
  · cases h
  next server hserver =>
  dsimp only at h
  split at h
  · cases h
  · split at h
    · cases h
    next hfree =>
    cases h
    refine ⟨rfl, fun {portId _ _ _} hsave hclaims p hp hpub => ?_⟩
    obtain ⟨hserver', rfl, hport'⟩ := hclaims
    obtain rfl := some.inj (hserver.symm.trans hserver')
    obtain rfl := some.inj (hport.symm.trans hport')
    have hexcl := findExternalPortOwner_eq_none hfree p hp hpub
    rw [hsave] at hexcl
    exact some.inj hexcl

/-- A save that needs no probe publishes nothing, or what its row publishes already. -/
theorem unchanged_of_no_probe (h : checkExternalPortAvailable t call = .ok none)
    (hclaims : Claims t call server protocol externalPort) :
    ∃ p ∈ t.ports, t.Publishes server protocol externalPort p ∧ call.save = .update p.id := by
  obtain ⟨hserver, rfl, hport⟩ := hclaims
  unfold checkExternalPortAvailable at h
  rw [hport, hserver] at h
  dsimp only at h
  split at h
  next hunchanged =>
    obtain ⟨p, hp, hrow⟩ := any_eq_true.mp hunchanged
    simp only [decide_eq_true_eq] at hrow
    obtain ⟨happ, hid, hport', hprotocol⟩ := hrow
    refine ⟨p, hp, ⟨by rw [happ, hserver], hprotocol, hport'⟩, ?_⟩
    cases hsave : call.save with
    | add newId => simp [hsave, Save.excluding] at hid
    | update portId =>
      rw [hsave] at hid
      rw [some.inj hid]
  · split at h <;> cases h

/-! ## What a write does -/

/-- What a save leaves behind: nothing new, a new row that publishes what nobody did, or the
columns of one row replaced. -/
inductive Saved (t : Tables) (call : Call) : Tables → Prop where
  | same : Saved t call t
  | added {newId : Uuid} {t' : Tables} (hsave : call.save = .add newId)
      (happs : t'.applications = t.applications)
      (hports : t'.ports =
        t.ports ++ [{ call.port with id := newId, applicationId := call.application }])
      (hfree : ∀ {server protocol externalPort}, Claims t call server protocol externalPort →
        ∀ p ∈ t.ports, ¬ t.Publishes server protocol externalPort p) : Saved t call t'
  | updated {portId : Uuid} {t' : Tables} (hsave : call.save = .update portId)
      (happs : t'.applications = t.applications)
      (hports : t'.ports = t.ports.map (setColumns call.application portId call.port)) :
      Saved t call t'

theorem saved_insertAndRead (hsave : call.save = .add newId)
    (hfree : ∀ {server protocol externalPort}, Claims t call server protocol externalPort →
      ∀ p ∈ t.ports, ¬ t.Publishes server protocol externalPort p) :
    Saved t call (t.insertAndRead newId call.application call.port).2 := by
  unfold insertAndRead
  split
  · exact .same
  next t' hinsert =>
  have hadded : Saved t call t' := by
    unfold insertPort at hinsert
    dsimp only at hinsert
    split at hinsert
    · cases hinsert
    · split at hinsert
      · cases hinsert
      · cases hinsert
        exact .added hsave rfl rfl hfree
  split <;> exact hadded

theorem saved_addPort (hsave : call.save = .add newId)
    (hfree : ∀ {server protocol externalPort}, Claims t call server protocol externalPort →
      ∀ p ∈ t.ports, ¬ t.Publishes server protocol externalPort p) :
    Saved t call (t.addPort newId call.application call.port).2 := by
  unfold addPort
  split
  · exact .same
  · exact saved_insertAndRead hsave hfree

theorem saved_claimExternalPort
    (hsave : call.save = .add newId) (hserver : t.serverOf call.application = some server) :
    Saved t call (t.claimExternalPort newId call.application server call.port).2 := by
  unfold claimExternalPort
  split
  next hport => exact saved_addPort hsave fun ⟨_, _, hport'⟩ => by simp [hport] at hport'
  next externalPort hport =>
  split
  · exact .same
  · split
    · exact .same
    next hfree =>
    refine saved_insertAndRead hsave fun hclaims p hp hpub => ?_
    obtain ⟨hserver', rfl, hport'⟩ := hclaims
    obtain rfl := some.inj (hserver.symm.trans hserver')
    obtain rfl := some.inj (hport.symm.trans hport')
    simpa using findExternalPortOwner_eq_none hfree p hp hpub

theorem saved_save (t : Tables) (call : Call) : Saved t call (save t call).2 := by
  unfold save
  split
  next hsave hserver => exact saved_claimExternalPort hsave hserver
  next hsave hserver =>
    exact saved_addPort hsave fun ⟨hserver', _, _⟩ => by simp [hserver] at hserver'
  next hsave =>
    unfold updatePort
    split
    · exact .same
    · dsimp only
      split <;> exact .updated hsave rfl rfl

theorem serverOf_congr (h : t'.applications = t.applications) (application : Uuid) :
    t'.serverOf application = t.serverOf application := by
  simp [serverOf, Tables.get, h]

theorem Saved.serverOf_eq (h : Saved t call t') (application : Uuid) :
    t'.serverOf application = t.serverOf application := by
  cases h with
  | same => rfl
  | added _ happs _ _ | updated _ happs _ => exact serverOf_congr happs application

/-- Who publishes a port after a save published it before, or is the row that was written. -/
theorem Saved.publishes_cases (h : Saved t call t') {p : PortRow} (hp : p ∈ t'.ports)
    (hpub : t'.Publishes server protocol externalPort p) :
    (∃ old ∈ t.ports, old.id = p.id ∧ t.Publishes server protocol externalPort old) ∨
      (p.id = call.save.target ∧ Claims t call server protocol externalPort) := by
  obtain ⟨hserver, hcolumns⟩ := hpub
  rw [h.serverOf_eq] at hserver
  cases h with
  | same => exact .inl ⟨p, hp, rfl, hserver, hcolumns⟩
  | added hsave _ hports _ =>
    rw [hports] at hp
    rcases mem_append.mp hp with hp | hp
    · exact .inl ⟨p, hp, rfl, hserver, hcolumns⟩
    · obtain rfl := mem_singleton.mp hp
      exact .inr ⟨by rw [hsave]; rfl, hserver, hcolumns⟩
  | @updated portId _ hsave _ hports =>
    rw [hports] at hp
    obtain ⟨old, hold, rfl⟩ := mem_map.mp hp
    by_cases hrow : old.id = portId ∧ old.applicationId = call.application
    · rw [setColumns, if_pos hrow] at hserver hcolumns ⊢
      refine .inr ⟨by rw [hsave]; exact hrow.1, ?_, hcolumns⟩
      rw [← hrow.2]
      exact hserver
    · rw [setColumns, if_neg hrow] at hserver hcolumns ⊢
      exact .inl ⟨old, hold, rfl, hserver, hcolumns⟩

/-! ## The invariant -/

structure Inv (s : State) : Prop where
  distinct : PublishedDistinct s.tables
  checked : ∀ w ∈ s.waiting, Checked s.tables w.call

/-- No update that waits was told that the port this call claims is free, unless for the same row. -/
def Undisturbed (t : Tables) (waiting : List Waiting) (call : Call) : Prop :=
  ∀ w ∈ waiting, ∀ portId, w.call.save = .update portId →
    ∀ server protocol externalPort, Claims t w.call server protocol externalPort →
      Claims t call server protocol externalPort → portId = call.save.target

theorem undisturbed_of_ne {waiting : List Waiting}
    (h : ∀ w ∈ waiting, w.call.port.externalPort ≠ call.port.externalPort) :
    Undisturbed t waiting call :=
  fun w hw _ _ _ _ _ hclaims hcall => absurd (hclaims.2.2.trans hcall.2.2.symm) (h w hw)

theorem Saved.distinct (h : Saved t call t')
    (hdistinct : PublishedDistinct t) (hchecked : Checked t call) : PublishedDistinct t' := by
  -- a row that published the port before the call wrote it is the row the call wrote
  have hmixed : ∀ {server protocol externalPort}, Claims t call server protocol externalPort →
      ∀ old ∈ t.ports, t.Publishes server protocol externalPort old →
        old.id = call.save.target ∨ t' = t := by
    intro server protocol externalPort hclaims old hold hpub
    cases h with
    | same => exact .inr rfl
    | added _ _ _ hfree => exact absurd hpub (hfree hclaims old hold)
    | updated hsave _ _ =>
      rw [hsave]
      exact .inl (hchecked hsave hclaims old hold hpub)
  intro server protocol externalPort p hp q hq hpubp hpubq
  by_cases hsame : t' = t
  · subst hsame
    exact hdistinct server protocol externalPort p hp q hq hpubp hpubq
  refine inj_on_of_nodup_map t'.ids hp hq ?_
  rcases h.publishes_cases hp hpubp with ⟨p₀, hp₀, hpid, hpub₀⟩ | ⟨hpid, hclaims⟩
  · rcases h.publishes_cases hq hpubq with ⟨q₀, hq₀, hqid, hqub₀⟩ | ⟨hqid, hclaims⟩
    · rw [← hpid, ← hqid, hdistinct server protocol externalPort p₀ hp₀ q₀ hq₀ hpub₀ hqub₀]
    · rw [← hpid, hqid]
      exact (hmixed hclaims p₀ hp₀ hpub₀).resolve_right hsame
  · rcases h.publishes_cases hq hpubq with ⟨q₀, hq₀, hqid, hqub₀⟩ | ⟨hqid, -⟩
    · rw [hpid, ← hqid]
      exact ((hmixed hclaims q₀ hq₀ hqub₀).resolve_right hsame).symm
    · rw [hpid, hqid]

theorem Saved.checked (h : Saved t call t') {waiting : List Waiting}
    (hchecked : ∀ w ∈ waiting, Checked t w.call) (hclear : Undisturbed t waiting call) :
    ∀ w ∈ waiting, Checked t' w.call := by
  intro w hw portId server protocol externalPort hsave hclaims p hp hpub
  replace hclaims : Claims t w.call server protocol externalPort :=
    ⟨(h.serverOf_eq _).symm.trans hclaims.1, hclaims.2⟩
  rcases h.publishes_cases hp hpub with ⟨old, hold, hid, hpub₀⟩ | ⟨hid, hwritten⟩
  · rw [← hid]
    exact hchecked w hw hsave hclaims old hold hpub₀
  · rw [hid]
    exact (hclear w hw portId hsave server protocol externalPort hclaims hwritten).symm

theorem Inv.save (hinv : Inv s) (hchecked : Checked s.tables call)
    (hclear : Undisturbed s.tables s.waiting call) :
    Inv { s with tables := (Ports.save s.tables call).2 } :=
  ⟨(saved_save s.tables call).distinct hinv.distinct hchecked,
    (saved_save s.tables call).checked hinv.checked hclear⟩

theorem checked_of_no_probe (hdistinct : PublishedDistinct t)
    (h : checkExternalPortAvailable t call = .ok none) : Checked t call := by
  intro portId server protocol externalPort hsave hclaims p hp hpub
  obtain ⟨q, hq, hqub, hupdate⟩ := unchanged_of_no_probe h hclaims
  rw [hdistinct server protocol externalPort p hp q hq hpub hqub]
  exact Save.update.inj (hupdate.symm.trans hsave)

/-! ## Every interleaving -/

/-- A call goes on to its write only while no other update waits with the same port checked. -/
def Safe (s : State) : Op → Prop
  | .resume w none => Undisturbed s.tables (s.waiting.erase w) w.call
  | _ => True

theorem inv_start (hinv : Inv s) (call : Call) : Inv (start s call).2 := by
  unfold start
  split
  · exact hinv
  split
  · exact hinv
  dsimp only
  split
  · exact hinv
  next w hprobe =>
    obtain ⟨hw, hchecked⟩ := checked_of_probe hprobe
    refine ⟨hinv.distinct, fun w' hw' => ?_⟩
    rcases mem_cons.mp hw' with rfl | hw'
    · rw [hw]
      exact hchecked
    · exact hinv.checked w' hw'
  next hprobe =>
    refine hinv.save (checked_of_no_probe hinv.distinct hprobe) ?_
    intro w hw portId hsave server protocol externalPort hclaims hcall
    obtain ⟨p, hp, hpub, hupdate⟩ := unchanged_of_no_probe hprobe hcall
    rw [hupdate]
    exact (hinv.checked w hw hsave hclaims p hp hpub).symm

theorem inv_resume (hinv : Inv s) (w : Waiting) (process : Option Text)
    (hsafe : Safe s (.resume w process)) : Inv (resume s w process).2 := by
  unfold resume
  split
  next hw =>
    have hrest : Inv { s with waiting := s.waiting.erase w } :=
      ⟨hinv.distinct, fun w' hw' => hinv.checked w' (mem_of_mem_erase hw')⟩
    cases process with
    | some process => exact hrest
    | none => exact hrest.save (hinv.checked w hw) hsafe
  · exact hinv

/-- **No port of a Node is published twice** in an interleaving whose steps are `Safe`. -/
theorem published_ports_stay_distinct {s₀ s : State} {trace : List (Transition State Op)}
    (hstart : PublishedDistinct s₀.tables) (hidle : s₀.waiting = [])
    (hrun : Run (fun s op s' => s' = next s op) s₀ trace s)
    (hsafe : ∀ x ∈ trace, Safe x.pre x.label) :
    PublishedDistinct s.tables ∧ ∀ x ∈ trace, PublishedDistinct x.post.tables := by
  have hinv₀ : Inv s₀ := ⟨hstart, by simp [hidle]⟩
  obtain ⟨hinv, hall⟩ := hrun.invariant Inv Safe (fun {s op s'} hinv hsafe hstep => by
    subst hstep
    cases op with
    | start call => exact inv_start hinv call
    | resume w process => exact inv_resume hinv w process hsafe) hinv₀ hsafe
  exact ⟨hinv.distinct, fun x hx => (hall x hx).2.2.distinct⟩

/-! ## Two updates at once -/

def gamePort (name : String) (externalPort : Option UInt16) : PortInput :=
  ⟨name.toList, .tcp, "0.0.0.0", 25565, externalPort, .publicAccess, false⟩

/-- Two applications of one Node with a port each, neither published. -/
def lobbyAndSurvival : State where
  tables :=
    { applications := [⟨Uuid.nil, some Uuid.nil, "lobby"⟩,
        ⟨Uuid.max, some Uuid.nil, "survival"⟩]
      ports := [{ gamePort "java" none with id := Uuid.nil, applicationId := Uuid.nil },
        { gamePort "java" none with id := Uuid.max, applicationId := Uuid.max }]
      wireguardIp := fun _ => none
      ids := by decide }
  waiting := []

theorem lobbyAndSurvival_distinct : PublishedDistinct lobbyAndSurvival.tables := by
  intro server protocol externalPort p hp q hq hpub _
  have hnone : ∀ p ∈ lobbyAndSurvival.tables.ports, p.externalPort = none := by decide
  simp [Publishes, hnone p hp] at hpub

def publish (id : Uuid) (externalPort : UInt16) : Call :=
  ⟨id, .update id, gamePort "java" (some externalPort)⟩

/-- Both updates start, both probes find nothing, both write. -/
def bothPublish (lobby survival : UInt16) : List Op :=
  [.start (publish Uuid.nil lobby), .start (publish Uuid.max survival),
    .resume ⟨publish Uuid.nil lobby, Uuid.nil, lobby⟩ none,
    .resume ⟨publish Uuid.max survival, Uuid.nil, survival⟩ none]

theorem different_ports_stay_distinct :
    PublishedDistinct ((bothPublish 25565 25566).foldl next lobbyAndSurvival).tables ∧
      ∀ x ∈ traceOf next lobbyAndSurvival (bothPublish 25565 25566),
        PublishedDistinct x.post.tables := by
  refine published_ports_stay_distinct lobbyAndSurvival_distinct rfl
    (run_traceOf next lobbyAndSurvival _) fun x hx => ?_
  simp only [bothPublish, traceOf, mem_cons, not_mem_nil, or_false] at hx
  rcases hx with rfl | rfl | rfl | rfl
  · trivial
  · trivial
  · exact undisturbed_of_ne (by decide)
  · exact undisturbed_of_ne (by decide)

def publishedRow (id : Uuid) : PortRow :=
  { gamePort "java" (some 25565) with id := id, applicationId := id }

/-- Both updates are told port 25565 is free, and both rows publish it. -/
theorem both_updates_publish :
    ((bothPublish 25565 25565).foldl next lobbyAndSurvival).tables.ports =
        [publishedRow Uuid.nil, publishedRow Uuid.max] ∧
      PublishedDistinct lobbyAndSurvival.tables ∧
      ¬ PublishedDistinct ((bothPublish 25565 25565).foldl next lobbyAndSurvival).tables := by
  refine ⟨by decide, lobbyAndSurvival_distinct, fun h => ?_⟩
  have heq := h Uuid.nil .tcp 25565 (publishedRow Uuid.nil) (by decide)
    (publishedRow Uuid.max) (by decide) (by decide) (by decide)
  exact absurd heq (by decide)

end VibeSsh.Ports
