import VibeSsh.Docker.Links
import VibeSsh.Lib.Run

/-! # Isolation of applications

The invariant is per container: one reconciled since the link table last changed is on the managed
networks the table wants for it and on no other. -/

namespace VibeSsh.Docker

open Lib List

/-- The managed networks a container is on are the wanted ones. -/
def Settled (id : Uuid) (links : List Uuid) (ns : List NetworkName) : Prop :=
  ∀ n, isManaged n.text = true → (n ∈ ns ↔ n ∈ desiredNetworks id links)

/-- What a step leaves alone: every container but `gone` keeps its networks that are not ours, and
only managed networks are left by command. -/
structure Frames (gone : Option Uuid) (d d' : Daemon) : Prop where
  kept : ∀ c, gone ≠ some c → ∀ ns, d.containers c = some ns →
    ∃ ns', d'.containers c = some ns' ∧ ∀ n ∈ ns, isManaged n.text = false → n ∈ ns'
  managed : ∀ name c, .networkDisconnect name c ∈ d'.issued →
    .networkDisconnect name c ∈ d.issued ∨ isManaged name = true

theorem Frames.refl (gone : Option Uuid) (d : Daemon) : Frames gone d d :=
  ⟨fun _ _ ns h => ⟨ns, h, fun _ hn _ => hn⟩, fun _ _ h => .inl h⟩

variable {gone : Option Uuid} {d d' : Daemon} {id a b : Uuid} {w : World} {known : Uuid → Prop}
  {t : Tables}

theorem Frames.trans {d'' : Daemon} (h1 : Frames gone d d')
    (h2 : Frames gone d' d'') : Frames gone d d'' := by
  refine ⟨fun c hc ns hns => ?_, fun name c h => ?_⟩
  · obtain ⟨ns₁, hns₁, hsub₁⟩ := h1.kept c hc ns hns
    obtain ⟨ns₂, hns₂, hsub₂⟩ := h2.kept c hc ns₁ hns₁
    exact ⟨ns₂, hns₂, fun n hn hm => hsub₂ n (hsub₁ n hn hm) hm⟩
  · rcases h2.managed name c h with h | h
    · exact h1.managed name c h
    · exact .inr h

/-- A step on one container frames the others, and the container too if it keeps its networks. -/
theorem OnlyOn.frames (h : OnlyOn id d d') (hid : gone ≠ some id → ∀ ns, d.containers id = some ns →
      ∃ ns', d'.containers id = some ns' ∧ ∀ n ∈ ns, isManaged n.text = false → n ∈ ns') :
    Frames gone d d' := by
  refine ⟨fun c hc ns hns => ?_, h.managed⟩
  by_cases hcid : c = id
  · subst hcid
    exact hid hc ns hns
  · exact ⟨ns, by rw [h.others c hcid, hns], fun _ hn _ => hn⟩

/-! ## The runtime's calls -/

/-- What a call that ends in `reconcile_networks` does: it keeps to its container, which comes out
settled and with what it had that is not ours. -/
structure Reconciles (id : Uuid) (links : List Uuid) (d d' : Daemon) : Prop where
  onlyOn : OnlyOn id d d'
  settled : ∀ ns', d'.containers id = some ns' → Settled id links ns'
  kept : ∀ ns, d.containers id = some ns →
    ∃ ns', d'.containers id = some ns' ∧ ∀ n ∈ ns, isManaged n.text = false → n ∈ ns'

theorem reconciles_reconcileNetworks (links : List Uuid)
    (h : (d.containers id).isSome = true) : Reconciles id links d (reconcileNetworks id links d) := by
  obtain ⟨ns, hns⟩ := Option.isSome_iff_exists.mp h
  obtain ⟨ns', hns', hmem⟩ := reconcileNetworks_containers links hns
  refine ⟨(onlyOn_connectMissing _ id _ d _).trans (onlyOn_disconnectUnwanted _ id _ _),
    fun ns'' h'' n hm => ?_, fun ns₀ h₀ => ?_⟩
  · rw [hns'] at h''
    cases h''
    rw [hmem]
    simp [hm]
  · rw [hns] at h₀
    cases h₀
    exact ⟨ns', hns', fun n hn hm => (hmem n).mpr (.inr ⟨hn, hm⟩)⟩

/-- A command that changes no container may follow. -/
theorem Reconciles.run {links : List Uuid}
    (h : Reconciles id links d d') {command : Command} (htarget : command.target = none)
    (heffect : ∀ containers, effect containers command = containers) :
    Reconciles id links d (d'.run command) := by
  have hcontainers : (d'.run command).containers = d'.containers := heffect d'.containers
  refine ⟨h.onlyOn.trans (onlyOn_run d' (by simp [htarget]) ?_), ?_, ?_⟩
  · rintro name c rfl
    cases htarget
  · rw [hcontainers]
    exact h.settled
  · rw [hcontainers]
    exact h.kept

theorem reconciles_start (id : Uuid) (links : List Uuid) (d : Daemon) :
    Reconciles id links d (start id links d) := by
  unfold start
  dsimp only
  split
  · next h => exact (reconciles_reconcileNetworks links h).run rfl fun _ => rfl
  · next h =>
    have hcreated : ((createContainer id d).containers id).isSome = true := by
      simp [createContainer, Daemon.run, effect]
    have honly : OnlyOn id d (createContainer id d) :=
      (onlyOn_ensureNetwork id _ _ d).trans (onlyOn_run _ (by rintro c ⟨⟩; rfl) (by rintro _ _ ⟨⟩))
    have hrec : Reconciles id links (createContainer id d)
        ((reconcileNetworks id links (createContainer id d)).run (.start id)) :=
      (reconciles_reconcileNetworks links hcreated).run rfl fun _ => rfl
    exact ⟨honly.trans hrec.onlyOn, hrec.settled, fun ns hns => by simp [hns] at h⟩

theorem reconciles_restart (id : Uuid) (links : List Uuid) (d : Daemon) :
    Reconciles id links d (restart id links d) := by
  unfold restart
  split
  · next h => exact (reconciles_reconcileNetworks links h).run rfl fun _ => rfl
  · exact reconciles_start id links d

theorem reconciles_syncConnections (id : Uuid) (links : List Uuid) (d : Daemon) :
    Reconciles id links d (syncConnections id links d) := by
  unfold syncConnections
  split
  · next h => exact reconciles_reconcileNetworks links h
  · next h =>
    have hnone : d.containers id = none := by simpa using h
    exact ⟨.refl id d, fun ns hns => by simp [hnone] at hns, fun ns hns => by simp [hnone] at hns⟩

theorem destroy_containers (id : Uuid) (d : Daemon) : (destroy id d).containers id = none := by
  unfold destroy
  split
  · simp [Daemon.run, effect]
  · next h => simpa using h

theorem onlyOn_destroy (id : Uuid) (d : Daemon) : OnlyOn id d (destroy id d) := by
  unfold destroy
  split
  · exact (onlyOn_run d (by rintro c ⟨⟩) (by rintro _ _ ⟨⟩)).trans
      (onlyOn_run _ (by rintro c ⟨⟩; rfl) (by rintro _ _ ⟨⟩))
  · exact .refl id d

/-! ## Steps of the world -/

/-- The applications are known ones, and what was reconciled is settled. -/
structure Inv (known : Uuid → Prop) (w : World) : Prop where
  rows : ∀ row ∈ w.tables.rows, known row.id
  settled : ∀ id ∈ w.synced, ∀ ns, w.daemon.containers id = some ns →
    Settled id (w.tables.linksOf id) ns

structure Steps (gone : Option Uuid) (w w' : World) : Prop where
  inv : ∀ known, Inv known w → Inv known w'
  frames : Frames gone w.daemon w'.daemon

theorem Steps.refl (gone : Option Uuid) (w : World) : Steps gone w w :=
  ⟨fun _ h => h, .refl gone _⟩

theorem Steps.trans {w' w'' : World} (h1 : Steps gone w w')
    (h2 : Steps gone w' w'') : Steps gone w w'' :=
  ⟨fun known h => h2.inv known (h1.inv known h), h1.frames.trans h2.frames⟩

theorem Steps.weaken {w' : World} (h : Steps none w w') (gone : Option Uuid) : Steps gone w w' :=
  ⟨h.inv, fun c _ => h.frames.kept c (by simp), h.frames.managed⟩

theorem inv_reconcileWith (call : List Uuid → Daemon → Daemon) (h : Inv known w)
    (honly : OnlyOn id w.daemon (call (w.tables.linksOf id) w.daemon))
    (hid : ∀ ns, (call (w.tables.linksOf id) w.daemon).containers id = some ns →
      Settled id (w.tables.linksOf id) ns) : Inv known (w.reconcileWith id call) := by
  refine ⟨h.rows, fun c hc ns hns => ?_⟩
  by_cases hcid : c = id
  · subst hcid
    exact hid ns hns
  · have hc : c ∈ w.synced := (mem_cons.mp hc).resolve_left hcid
    exact h.settled c hc ns ((honly.others c hcid).symm.trans hns)

theorem steps_reconcileWith {call : List Uuid → Daemon → Daemon}
    (h : ∀ links d, Reconciles id links d (call links d)) : Steps none w (w.reconcileWith id call) := by
  have hrec := h (w.tables.linksOf id) w.daemon
  exact ⟨fun known hinv => inv_reconcileWith call hinv hrec.onlyOn hrec.settled,
    hrec.onlyOn.frames fun _ => hrec.kept⟩

/-- Whether a changed table leaves the flags or clears them, what is flagged is settled. -/
theorem steps_withTables (hrows : ∀ row ∈ t.rows, row ∈ w.tables.rows) :
    Steps none w (w.withTables t) := by
  refine ⟨fun known h => ⟨fun row hrow => h.rows row (hrows row hrow), fun id hid ns hns => ?_⟩,
    .refl none _⟩
  simp only [World.withTables] at hid hns ⊢
  split at hid
  · next hlinks =>
    have := h.settled id hid ns hns
    simpa only [Tables.linksOf, hlinks] using this
  · cases hid

theorem steps_daemon (honly : ∀ id, OnlyOn id w.daemon d') :
    Steps none w { w with daemon := d' } := by
  have hsame : d'.containers = w.daemon.containers := by
    funext c
    obtain ⟨other, hne⟩ : ∃ other : Uuid, c ≠ other := by
      by_cases hc : c = Uuid.nil
      · exact ⟨Uuid.max, by rw [hc]; decide⟩
      · exact ⟨Uuid.nil, hc⟩
    exact (honly other).others c hne
  refine ⟨fun known h => ⟨h.rows, fun id hid ns hns => h.settled id hid ns (hsame ▸ hns)⟩, ?_⟩
  exact (honly Uuid.nil).frames fun _ ns hns => ⟨ns, by rw [hsame, hns], fun _ hn _ => hn⟩

theorem steps_destroy (w : World) (id : Uuid) :
    Steps (some id) w { w with daemon := destroy id w.daemon } := by
  refine ⟨fun known h => ⟨h.rows, fun c hc ns hns => ?_⟩,
    (onlyOn_destroy id w.daemon).frames fun hne => absurd rfl hne⟩
  by_cases hcid : c = id
  · subst hcid
    rw [destroy_containers] at hns
    cases hns
  · exact h.settled c hc ns (((onlyOn_destroy id w.daemon).others c hcid).symm.trans hns)

theorem steps_syncConnections (w : World) (row : Row) : Steps none w (w.syncConnections row) := by
  unfold World.syncConnections
  split
  · exact steps_reconcileWith (reconciles_syncConnections row.id)
  · exact .refl none w

theorem steps_applyConnections (w : World) (ids : List Uuid) :
    Steps none w (w.applyConnections ids).2 := by
  induction ids generalizing w with
  | nil => exact .refl none w
  | cons id ids ih =>
    unfold World.applyConnections
    split
    · exact .refl none w
    · next row _ => exact (steps_syncConnections w row).trans (ih _)

theorem steps_syncPeers (w : World) (peers : List Uuid) : Steps none w (w.syncPeers peers) := by
  unfold World.syncPeers
  induction peers generalizing w with
  | nil => exact .refl none w
  | cons peer peers ih =>
    rw [foldl_cons]
    refine Steps.trans ?_ (ih _)
    split
    · exact .refl none w
    · next row _ => exact steps_syncConnections w row

theorem addLink_rows {t' : Tables} (h : t.addLink a b = .ok t') : t'.rows = t.rows := by
  unfold Tables.addLink at h
  split at h
  · cases h
  · split at h
    · cases h
      unfold Tables.insertLink
      split <;> rfl
    · cases h

theorem id_of_getApplication {row : Row} (h : t.getApplication id = .ok row) : row.id = id := by
  unfold Tables.getApplication at h
  split at h
  · next found hfound =>
    cases h
    simpa using List.find?_some hfound
  · cases h

/-! ## The operations -/

def Op.removes : Op → Option Uuid
  | .recreate id => some id
  | .delete id => some id
  | _ => none

theorem steps_connect (w : World) (a b : Uuid) : Steps none w (w.connectApplications a b).2 := by
  unfold World.connectApplications
  split
  · exact .refl none w
  · split
    · exact .refl none w
    · next t ht =>
      have hrows : ∀ row ∈ t.rows, row ∈ w.tables.rows := by rw [addLink_rows ht]; exact fun _ h => h
      exact (steps_withTables hrows).trans (steps_applyConnections _ _)

theorem steps_disconnect (w : World) (a b : Uuid) :
    Steps none w (w.disconnectApplications a b).2 := by
  have hrows : ∀ row ∈ (w.tables.removeLink a b).rows, row ∈ w.tables.rows := fun _ h => h
  have happly : Steps none w
      ((w.withTables (w.tables.removeLink a b)).applyConnections [a, b]).2 :=
    (steps_withTables hrows).trans (steps_applyConnections _ _)
  unfold World.disconnectApplications
  split
  · next h => rw [h] at happly; exact happly
  · next h =>
    rw [h] at happly
    split
    · exact happly
    · next t ht =>
      refine happly.trans (steps_withTables ?_)
      rw [addLink_rows ht]
      exact fun _ h => h

theorem steps_recreate (w : World) (id : Uuid) :
    Steps (some id) w (w.recreateApplication id).2 := by
  unfold World.recreateApplication
  split
  · exact .refl _ w
  next row hrow =>
  obtain rfl := id_of_getApplication hrow
  split
  · exact .refl _ w
  split
  · have hrec := reconciles_start row.id (w.tables.linksOf row.id) (destroy row.id w.daemon)
    have honly := (onlyOn_destroy row.id w.daemon).trans hrec.onlyOn
    refine ⟨fun known h => ?_, honly.frames fun hne => absurd rfl hne⟩
    exact inv_reconcileWith (fun links d => start row.id links (destroy row.id d)) h honly
      hrec.settled
  · exact .refl _ w

theorem steps_delete (w : World) (id : Uuid) : Steps (some id) w (w.deleteApplication id).2 := by
  unfold World.deleteApplication
  split
  · exact .refl _ w
  next row hrow =>
  obtain rfl := id_of_getApplication hrow
  dsimp only
  have hdestroy : Steps (some row.id) w
      (if w.RunsHere row then { w with daemon := destroy row.id w.daemon } else w) := by
    split
    · exact steps_destroy w row.id
    · exact .refl _ w
  generalize (if w.RunsHere row then { w with daemon := destroy row.id w.daemon } else w) = w₁ at *
  have hpeers : Steps (some row.id) w
      ((w₁.withTables (w₁.tables.deleteApplication row.id)).syncPeers (w.tables.linksOf row.id)) :=
    (hdestroy.trans ((steps_withTables fun _ h => mem_of_mem_filter h).weaken _)).trans
      ((steps_syncPeers _ _).weaken _)
  split
  · exact hpeers.trans ((steps_daemon fun c => onlyOn_foldl _ (fun d _ _ =>
      onlyOn_run d (by rintro c ⟨⟩) (by rintro _ _ ⟨⟩)) _).weaken _)
  · exact hpeers

/-- **What one operation does.** -/
theorem steps_next (w : World) (op : Op) : Steps op.removes w (next w op) := by
  cases op with
  | connect a b => exact steps_connect w a b
  | disconnect a b => exact steps_disconnect w a b
  | start id =>
    simp only [next, exec, World.startApplication]
    split
    · exact .refl none w
    · split
      · next row _ _ => exact steps_reconcileWith (reconciles_start row.id)
      · exact .refl none w
  | restart id =>
    simp only [next, exec, World.restartApplication]
    split
    · exact .refl none w
    · split
      · next row _ _ => exact steps_reconcileWith (reconciles_restart row.id)
      · exact .refl none w
  | recreate id => exact steps_recreate w id
  | delete id => exact steps_delete w id

/-! ## Shared networks -/

/-- The assumption on the applications of the install: their short identifiers differ. -/
def Tables.DistinctPrefixes (t : Tables) : Prop :=
  ∀ row ∈ t.rows, ∀ row' ∈ t.rows, shortId row.id = shortId row'.id → row.id = row'.id

def World.HasContainer (w : World) (id : Uuid) : Prop :=
  (∃ row ∈ w.tables.rows, row.id = id ∧ w.RunsHere row) ∧ (w.daemon.containers id).isSome = true

def World.ShareManaged (w : World) (a b : Uuid) : Prop :=
  ∃ n, isManaged n.text = true ∧ (∃ ns, w.daemon.containers a = some ns ∧ n ∈ ns) ∧
    ∃ ns, w.daemon.containers b = some ns ∧ n ∈ ns

def World.Linked (w : World) (a b : Uuid) : Prop := orderedPair a b ∈ w.tables.links

theorem mem_linksOf {peer : Uuid} : peer ∈ t.linksOf id ↔ orderedPair id peer ∈ t.links := by
  have hordered : ∀ p ∈ t.links, orderedPair p.1 p.2 = p :=
    fun p hp => if_pos (t.links_ordered p hp).1
  simp only [Tables.linksOf, mem_dedup, mem_append, mem_map, mem_filter,
    decide_eq_true_eq]
  constructor
  · rintro (⟨p, ⟨hp, rfl⟩, rfl⟩ | ⟨p, ⟨hp, rfl⟩, rfl⟩)
    · rwa [hordered p hp]
    · rwa [orderedPair_comm, hordered p hp]
  · intro h
    rcases orderedPair_cases id peer with heq | heq <;> rw [heq] at h
    · exact .inl ⟨_, ⟨h, rfl⟩, rfl⟩
    · exact .inr ⟨_, ⟨h, rfl⟩, rfl⟩

section

variable (hdistinct : ∀ a b, known a → known b → shortId a = shortId b → a = b)
include hdistinct

/-- With distinct short identifiers a link network's name tells its two ends. -/
theorem linkNetworkName_ends {p q : Uuid}
    (ha : known a) (hp : known p) (hb : known b) (hq : known q)
    (h : linkNetworkName a p = linkNetworkName b q) : orderedPair a p = orderedPair b q := by
  have hpair : ∀ x y, known x → known y →
      known (orderedPair x y).1 ∧ known (orderedPair x y).2 := by
    intro x y hx hy
    rcases orderedPair_cases x y with h | h <;> rw [h]
    · exact ⟨hx, hy⟩
    · exact ⟨hy, hx⟩
  have htext : pairText (orderedPair a p) = pairText (orderedPair b q) :=
    append_cancel_left (congrArg NetworkName.text h)
  obtain ⟨h1, h2⟩ := append_inj htext (by simp [shortId, Uuid.wf])
  exact Prod.ext (hdistinct _ _ (hpair a p ha hp).1 (hpair b q hb hq).1 h1)
    (hdistinct _ _ (hpair a p ha hp).2 (hpair b q hb hq).2 (List.cons.inj h2).2)

/-- Two applications want a common network exactly when they are connected. -/
theorem common_desired_iff (hrows : ∀ row ∈ t.rows, known row.id) (hne : a ≠ b) (ha : known a)
    (hb : known b) :
    (∃ n, n ∈ desiredNetworks a (t.linksOf a) ∧ n ∈ desiredNetworks b (t.linksOf b)) ↔
      orderedPair a b ∈ t.links := by
  have hpeer : ∀ x peer, peer ∈ t.linksOf x → known peer := by
    intro x peer hpeer
    have hends := t.links_known _ (mem_linksOf.mp hpeer)
    have hmem : peer ∈ t.rows.map Row.id := by
      rcases orderedPair_cases x peer with h | h <;> rw [h] at hends
      · exact hends.2
      · exact hends.1
    obtain ⟨row, hrow, rfl⟩ := mem_map.mp hmem
    exact hrows row hrow
  constructor
  · rintro ⟨n, hna, hnb⟩
    rcases mem_desiredNetworks.mp hna with rfl | ⟨p, hp, -, rfl⟩
    · rcases mem_desiredNetworks.mp hnb with h | ⟨q, -, -, h⟩
      · exact absurd (hdistinct a b ha hb (append_cancel_left (congrArg NetworkName.text h))) hne
      · exact absurd h (appNetworkName_ne_linkNetworkName a b q)
    · rcases mem_desiredNetworks.mp hnb with h | ⟨q, hq, -, h⟩
      · exact absurd h.symm (appNetworkName_ne_linkNetworkName b a p)
      · have hpair := linkNetworkName_ends hdistinct ha (hpeer a p hp) hb (hpeer b q hq) h
        have hlink := mem_linksOf.mp hp
        have hpb : p = b := by
          rcases orderedPair_cases a p with h1 | h1 <;> rcases orderedPair_cases b q with h2 | h2 <;>
            rw [h1, h2] at hpair <;> simp only [Prod.mk.injEq] at hpair
          · exact absurd hpair.1 hne
          · exact hpair.2
          · exact hpair.1
          · exact absurd hpair.2 hne
        rwa [hpb] at hlink
  · intro hlink
    have hb' : b ∈ t.linksOf a := mem_linksOf.mpr hlink
    have ha' : a ∈ t.linksOf b := mem_linksOf.mpr (by rwa [orderedPair_comm])
    refine ⟨linkNetworkName a b, mem_desiredNetworks.mpr (.inr ⟨b, hb', hne.symm, rfl⟩),
      mem_desiredNetworks.mpr (.inr ⟨a, ha', hne, by
        simp only [linkNetworkName, orderedPair_comm a b]⟩)⟩

theorem shareManaged_iff (h : Inv known w) (hne : a ≠ b) (ha : w.HasContainer a)
    (hb : w.HasContainer b)
    (hsa : a ∈ w.synced) (hsb : b ∈ w.synced) : w.ShareManaged a b ↔ w.Linked a b := by
  obtain ⟨⟨rowa, hrowa, rfl, -⟩, hca⟩ := ha
  obtain ⟨⟨rowb, hrowb, rfl, -⟩, hcb⟩ := hb
  obtain ⟨nsa, hnsa⟩ := Option.isSome_iff_exists.mp hca
  obtain ⟨nsb, hnsb⟩ := Option.isSome_iff_exists.mp hcb
  rw [World.Linked, ← common_desired_iff hdistinct h.rows hne (h.rows _ hrowa) (h.rows _ hrowb)]
  constructor
  · rintro ⟨n, hm, ⟨ns, hns, hn⟩, ⟨ns', hns', hn'⟩⟩
    exact ⟨n, (h.settled _ hsa ns hns n hm).mp hn, (h.settled _ hsb ns' hns' n hm).mp hn'⟩
  · rintro ⟨n, hna, hnb⟩
    have hm : isManaged n.text = true := by
      rcases mem_desiredNetworks.mp hna with rfl | ⟨_, -, -, rfl⟩ <;> rfl
    exact ⟨n, hm, ⟨nsa, hnsa, (h.settled _ hsa nsa hnsa n hm).mpr hna⟩,
      ⟨nsb, hnsb, (h.settled _ hsb nsb hnsb n hm).mpr hnb⟩⟩

end

/-- **Applications reach each other over a managed network exactly when they are connected**, after
any history, once every container was reconciled since the table changed. No network that is not
ours is ever left, and a container that is not removed keeps those it is on. -/
theorem links_decide_shared_networks (w₀ : World) (hdistinct : w₀.tables.DistinctPrefixes)
    (hsynced : w₀.synced = []) (hissued : w₀.daemon.issued = []) (ops : List Op) :
    ((∀ id, (ops.foldl next w₀).HasContainer id → id ∈ (ops.foldl next w₀).synced) →
      ∀ a b, a ≠ b → (ops.foldl next w₀).HasContainer a → (ops.foldl next w₀).HasContainer b →
        ((ops.foldl next w₀).ShareManaged a b ↔ (ops.foldl next w₀).Linked a b)) ∧
    (∀ name c, .networkDisconnect name c ∈ (ops.foldl next w₀).daemon.issued →
      isManaged name = true) ∧
    (∀ op c ns, op.removes ≠ some c → (ops.foldl next w₀).daemon.containers c = some ns →
      ∃ ns', (next (ops.foldl next w₀) op).daemon.containers c = some ns' ∧
        ∀ n ∈ ns, isManaged n.text = false → n ∈ ns') := by
  let known : Uuid → Prop := fun id => ∃ row ∈ w₀.tables.rows, row.id = id
  have hknown : ∀ a b, known a → known b → shortId a = shortId b → a = b := by
    rintro _ _ ⟨row, hrow, rfl⟩ ⟨row', hrow', rfl⟩ h
    exact hdistinct row hrow row' hrow' h
  have hstart : Inv known w₀ := ⟨fun row hrow => ⟨row, hrow, rfl⟩, by simp [hsynced]⟩
  have hinv : Inv known (ops.foldl next w₀) ∧ ∀ name c,
      .networkDisconnect name c ∈ (ops.foldl next w₀).daemon.issued → isManaged name = true := by
    refine ((run_traceOf next w₀ ops).invariant (fun w => Inv known w ∧ ∀ name c,
      .networkDisconnect name c ∈ w.daemon.issued → isManaged name = true) (fun _ _ => True) ?_
      ⟨hstart, by simp [hissued]⟩ fun _ _ => trivial).1
    rintro w op _ ⟨hw, hissued⟩ - rfl
    refine ⟨(steps_next w op).inv known hw, fun name c h => ?_⟩
    exact ((steps_next w op).frames.managed name c h).elim (hissued name c) id
  refine ⟨fun hall a b hne ha hb => ?_, hinv.2, fun op c ns hop hns => ?_⟩
  · exact shareManaged_iff hknown hinv.1 hne ha hb (hall a ha) (hall b hb)
  · exact (steps_next _ op).frames.kept c hop ns hns

/-- Two containers, each on its own network. -/
def startedPair : World where
  server := none
  tables := .unlinked [⟨⟨Uuid.nil, "proxy", .docker, "/srv/proxy", []⟩, none⟩,
    ⟨⟨Uuid.max, "paper", .docker, "/srv/paper", []⟩, none⟩]
  daemon := ⟨fun id => if id = Uuid.nil ∨ id = Uuid.max then some [appNetworkName id] else none,
    [appNetworkName Uuid.nil, appNetworkName Uuid.max], []⟩
  synced := []

theorem startedPair_connected :
    startedPair.tables.DistinctPrefixes ∧ startedPair.synced = [] ∧ startedPair.daemon.issued = [] ∧
    ¬ startedPair.ShareManaged Uuid.nil Uuid.max ∧
    (next startedPair (.connect Uuid.nil Uuid.max)).HasContainer Uuid.nil ∧
    (next startedPair (.connect Uuid.nil Uuid.max)).HasContainer Uuid.max ∧
    (next startedPair (.connect Uuid.nil Uuid.max)).ShareManaged Uuid.nil Uuid.max := by
  have hdistinct : startedPair.tables.DistinctPrefixes := by
    unfold Tables.DistinctPrefixes
    decide
  have hapart : ¬ startedPair.ShareManaged Uuid.nil Uuid.max := by
    rintro ⟨n, -, ⟨ns, hns, hn⟩, ⟨ns', hns', hn'⟩⟩
    cases hns
    cases hns'
    exact absurd ((mem_singleton.mp hn).symm.trans (mem_singleton.mp hn')) (by decide)
  have hrows : (next startedPair (.connect Uuid.nil Uuid.max)).tables.rows =
    startedPair.tables.rows := by decide
  have hsynced : (next startedPair (.connect Uuid.nil Uuid.max)).synced = [Uuid.max, Uuid.nil] := by
    decide
  have hnil : (next startedPair (.connect Uuid.nil Uuid.max)).HasContainer Uuid.nil :=
    ⟨by decide, by decide⟩
  have hmax : (next startedPair (.connect Uuid.nil Uuid.max)).HasContainer Uuid.max :=
    ⟨by decide, by decide⟩
  have hall : ∀ id, (next startedPair (.connect Uuid.nil Uuid.max)).HasContainer id →
      id ∈ (next startedPair (.connect Uuid.nil Uuid.max)).synced := by
    rintro id ⟨⟨row, hrow, rfl, -⟩, -⟩
    rw [hrows] at hrow
    rw [hsynced]
    revert row
    decide
  have hlinked : (next startedPair (.connect Uuid.nil Uuid.max)).Linked Uuid.nil Uuid.max := by
    unfold World.Linked
    decide
  have h := links_decide_shared_networks startedPair hdistinct rfl rfl [.connect Uuid.nil Uuid.max]
  exact ⟨hdistinct, rfl, rfl, hapart, hnil, hmax,
    (h.1 hall Uuid.nil Uuid.max (by decide) hnil hmax).mpr hlinked⟩

end VibeSsh.Docker
