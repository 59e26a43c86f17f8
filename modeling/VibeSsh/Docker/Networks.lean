import VibeSsh.Models

/-! # The Docker networks of an application

`runtime::docker`, as far as it decides which networks a container is on: the names, the networks an
application should be on, and `reconcile_networks`, which joins what is missing and then leaves what
is managed and no longer wanted. The daemon carries out every command it is given; the alias a
container gets on a network is left out. -/

namespace VibeSsh.Docker

open Lib List

/-- A network's name: not empty and without blanks, as Docker demands. -/
structure NetworkName where
  text : Text
  wf : text ≠ [] ∧ text.all (fun c => !Text.isWhitespace c) = true
  deriving DecidableEq

theorem NetworkName.eq_of_text {a b : NetworkName} (h : a.text = b.text) : a = b := by
  cases a
  cases b
  simpa using h

/-! ## Names -/

def shortId (id : Uuid) : Text := id.simple.take 12

theorem isWhitespace_shortId (id : Uuid) :
    (shortId id).all (fun c => !Text.isWhitespace c) = true := by
  rw [all_eq_true]
  intro c hc
  have hex := all_eq_true.mp id.wf.2 c (mem_of_mem_take hc)
  have hblank : Text.isWhitespace c = false := by
    simp only [Char.isDigit, Bool.or_eq_true, Bool.and_eq_true, decide_eq_true_eq, ge_iff_le,
      Char.le_def, UInt32.le_iff_toNat_le] at hex
    rcases hex with hex | hex <;>
      exact Text.isWhitespace_eq_false (le_trans (by decide) hex.1) (le_trans hex.2 (by decide))
  simp [hblank]

def appNetworkPrefix : Text := "vibessh-net-"

def linkNetworkPrefix : Text := "vibessh-link-"

def managedNetworkPrefix : Text := "vibessh-"

/-- What a name may be put together from: texts without blanks, the first not empty. -/
theorem networkName_wf {start rest : Text} (hne : start ≠ [])
    (hstart : start.all (fun c => !Text.isWhitespace c) = true)
    (hrest : rest.all (fun c => !Text.isWhitespace c) = true) :
    start ++ rest ≠ [] ∧ (start ++ rest).all (fun c => !Text.isWhitespace c) = true := by
  refine ⟨append_ne_nil_of_left_ne_nil hne rest, ?_⟩
  rw [all_append, hstart, hrest]
  rfl

theorem appNetworkText_wf (id : Uuid) :
    appNetworkPrefix ++ shortId id ≠ [] ∧
      (appNetworkPrefix ++ shortId id).all (fun c => !Text.isWhitespace c) = true :=
  networkName_wf (by decide) (by decide) (isWhitespace_shortId id)

def appNetworkName (id : Uuid) : NetworkName := ⟨appNetworkPrefix ++ shortId id, appNetworkText_wf id⟩

/-- `a <= b` of two identifiers: by their digits. -/
instance : LE Uuid := ⟨fun a b => a.simple ≤ b.simple⟩

instance (a b : Uuid) : Decidable (a ≤ b) := inferInstanceAs (Decidable (a.simple ≤ b.simple))

/-- The pair as `application_links` stores it. -/
def orderedPair (a b : Uuid) : Uuid × Uuid := if a ≤ b then (a, b) else (b, a)

variable {a b id : Uuid} {d : Daemon} {ns : List NetworkName}

theorem Uuid.eq_of_simple (h : a.simple = b.simple) : a = b := by
  cases a
  cases b
  simpa using h

theorem orderedPair_comm (a b : Uuid) : orderedPair a b = orderedPair b a := by
  unfold orderedPair
  by_cases hab : a ≤ b
  · by_cases hba : b ≤ a
    · rw [Uuid.eq_of_simple (le_antisymm hab hba)]
    · rw [if_pos hab, if_neg hba]
  · have hba : b ≤ a := (le_total b.simple a.simple).resolve_right hab
    rw [if_neg hab, if_pos hba]

theorem orderedPair_cases (a b : Uuid) : orderedPair a b = (a, b) ∨ orderedPair a b = (b, a) := by
  unfold orderedPair
  split
  · exact .inl rfl
  · exact .inr rfl

def pairText (pair : Uuid × Uuid) : Text := shortId pair.1 ++ '-' :: shortId pair.2

theorem linkNetworkText_wf (pair : Uuid × Uuid) :
    linkNetworkPrefix ++ pairText pair ≠ [] ∧
      (linkNetworkPrefix ++ pairText pair).all (fun c => !Text.isWhitespace c) = true := by
  refine networkName_wf (by decide) (by decide) ?_
  rw [pairText, all_append, all_cons, isWhitespace_shortId, isWhitespace_shortId]
  rfl

/-- The name both ends of a connection derive. -/
def linkNetworkName (a b : Uuid) : NetworkName :=
  ⟨linkNetworkPrefix ++ pairText (orderedPair a b), linkNetworkText_wf (orderedPair a b)⟩

/-- The networks an application's container should be on. -/
def desiredNetworks (id : Uuid) (links : List Uuid) : List NetworkName :=
  links.foldl (fun networks peer =>
    if peer = id then networks
    else if networks.contains (linkNetworkName id peer) then networks
    else networks ++ [linkNetworkName id peer]) [appNetworkName id]

def isManaged (name : Text) : Bool := Text.startsWith managedNetworkPrefix name

/-! ## The daemon -/

/-- The commands that change something; a container is named by its application. -/
inductive Command where
  | networkCreate (internal : Bool) (name : NetworkName)
  | networkConnect (name : NetworkName) (container : Uuid)
  | networkDisconnect (name : Text) (container : Uuid)
  | networkRm (name : NetworkName)
  | create (container : Uuid) (network : NetworkName)
  | start (container : Uuid)
  | restart (container : Uuid)
  | stop (container : Uuid)
  | rm (container : Uuid)
  deriving DecidableEq

/-- Which containers exist and on which networks each is, the networks there are, and the commands
the daemon was given. -/
structure Daemon where
  containers : Uuid → Option (List NetworkName)
  networks : List NetworkName
  issued : List Command

/-- What a command that succeeds does to the containers. -/
def effect (containers : Uuid → Option (List NetworkName)) :
    Command → Uuid → Option (List NetworkName)
  | .networkConnect name c =>
    Function.update containers c ((containers c).map fun ns => if name ∈ ns then ns else ns ++ [name])
  | .networkDisconnect name c =>
    Function.update containers c ((containers c).map fun ns => ns.filter (·.text ≠ name))
  | .create c network => Function.update containers c (some [network])
  | .rm c => Function.update containers c none
  | _ => containers

def Daemon.run (d : Daemon) (command : Command) : Daemon where
  containers := effect d.containers command
  networks := match command with
    | .networkCreate _ name => d.networks ++ [name]
    | .networkRm name => d.networks.filter (· ≠ name)
    | _ => d.networks
  issued := d.issued ++ [command]

/-- `docker inspect -f` with the template that prints each network's name and a blank. -/
def inspectNetworks (ns : List NetworkName) : Text := ns.flatMap fun n => n.text ++ [' ']

def currentNetworks (d : Daemon) (container : Uuid) : List Text :=
  Text.words (inspectNetworks ((d.containers container).getD []))

def ensureNetwork (name : NetworkName) (internal : Bool) (d : Daemon) : Daemon :=
  if name ∈ d.networks then d else d.run (.networkCreate internal name)

/-- The first loop of `reconcile_networks`. -/
def connectMissing (own : NetworkName) (container : Uuid) (current : List Text) (d : Daemon)
    (desired : List NetworkName) : Daemon :=
  desired.foldl (fun d name =>
    if current.contains name.text then d
    else (ensureNetwork name (name != own) d).run (.networkConnect name container)) d

/-- The second: what is ours and not wanted. -/
def disconnectUnwanted (desired : List NetworkName) (container : Uuid) (d : Daemon)
    (current : List Text) : Daemon :=
  current.foldl (fun d name =>
    if !isManaged name || desired.any (·.text == name) then d
    else d.run (.networkDisconnect name container)) d

def reconcileNetworks (id : Uuid) (links : List Uuid) (d : Daemon) : Daemon :=
  let desired := desiredNetworks id links
  let current := currentNetworks d id
  disconnectUnwanted desired id (connectMissing (appNetworkName id) id current d desired) current

def createContainer (id : Uuid) (d : Daemon) : Daemon :=
  (ensureNetwork (appNetworkName id) false d).run (.create id (appNetworkName id))

def start (id : Uuid) (links : List Uuid) (d : Daemon) : Daemon :=
  let d := if (d.containers id).isSome then d else createContainer id d
  (reconcileNetworks id links d).run (.start id)

def restart (id : Uuid) (links : List Uuid) (d : Daemon) : Daemon :=
  if (d.containers id).isSome then (reconcileNetworks id links d).run (.restart id)
  else start id links d

def syncConnections (id : Uuid) (links : List Uuid) (d : Daemon) : Daemon :=
  if (d.containers id).isSome then reconcileNetworks id links d else d

def destroy (id : Uuid) (d : Daemon) : Daemon :=
  if (d.containers id).isSome then (d.run (.stop id)).run (.rm id) else d

def removeNetworks (id : Uuid) (formerPeers : List Uuid) (d : Daemon) : Daemon :=
  (appNetworkName id :: formerPeers.map (linkNetworkName id)).foldl
    (fun d name => d.run (.networkRm name)) d

/-! ## Facts about the names -/

theorem appNetworkName_ne_linkNetworkName (a b c : Uuid) :
    appNetworkName a ≠ linkNetworkName b c := by
  intro h
  have htext : appNetworkPrefix ++ shortId a = linkNetworkPrefix ++ pairText (orderedPair b c) :=
    congrArg NetworkName.text h
  have hhead := congrArg (List.take 9) htext
  rw [take_append_of_le_length (by decide), take_append_of_le_length (by decide)] at hhead
  revert hhead
  decide

theorem mem_desiredNetworks {links : List Uuid} {n : NetworkName} :
    n ∈ desiredNetworks id links ↔
      n = appNetworkName id ∨ ∃ peer ∈ links, peer ≠ id ∧ n = linkNetworkName id peer := by
  have hloop : ∀ (links : List Uuid) (networks : List NetworkName),
      n ∈ links.foldl (fun networks peer =>
        if peer = id then networks
        else if networks.contains (linkNetworkName id peer) then networks
        else networks ++ [linkNetworkName id peer]) networks ↔
        n ∈ networks ∨ ∃ peer ∈ links, peer ≠ id ∧ n = linkNetworkName id peer := by
    intro links
    induction links with
    | nil => simp
    | cons peer links ih =>
      intro networks
      rw [foldl_cons, ih]
      by_cases hself : peer = id
      · simp [hself]
      · by_cases hmem : linkNetworkName id peer ∈ networks
        · simp only [hself, if_false, contains_iff_mem, hmem, if_true]
          grind
        · simp only [hself, if_false, contains_iff_mem, hmem]
          grind
  rw [desiredNetworks, hloop]
  simp

/-! ## What reconciling does -/

theorem words_inspectNetworks (ns : List NetworkName) :
    Text.words (inspectNetworks ns) = ns.map (·.text) := by
  induction ns with
  | nil => rfl
  | cons n ns ih =>
    have hblank : ∀ c ∈ n.text, Text.isWhitespace c = false :=
      fun c hc => Text.isWhitespace_of_mem_all n.wf.2 hc
    rw [inspectNetworks, flatMap_cons, append_assoc, singleton_append,
      Text.words_append_blank (by decide), Text.words_of_noBlank n.wf.1 hblank, map_cons, ← ih]
    rfl

theorem currentNetworks_eq
    (h : d.containers id = some ns) : currentNetworks d id = ns.map (·.text) := by
  rw [currentNetworks, h]
  exact words_inspectNetworks ns

/-- Only one container changes, and no network that is not ours is left. -/
structure OnlyOn (id : Uuid) (d d' : Daemon) : Prop where
  others : ∀ c, c ≠ id → d'.containers c = d.containers c
  managed : ∀ name c, .networkDisconnect name c ∈ d'.issued →
    .networkDisconnect name c ∈ d.issued ∨ isManaged name = true

theorem OnlyOn.refl (id : Uuid) (d : Daemon) : OnlyOn id d d :=
  ⟨fun _ _ => rfl, fun _ _ h => .inl h⟩

theorem OnlyOn.trans {d' d'' : Daemon} (h1 : OnlyOn id d d') (h2 : OnlyOn id d' d'') :
    OnlyOn id d d'' := by
  refine ⟨fun c hc => (h2.others c hc).trans (h1.others c hc), fun name c h => ?_⟩
  rcases h2.managed name c h with h | h
  · exact h1.managed name c h
  · exact .inr h

def Command.target : Command → Option Uuid
  | .networkConnect _ c => some c
  | .networkDisconnect _ c => some c
  | .create c _ => some c
  | .rm c => some c
  | _ => none

theorem onlyOn_run {command : Command} (d : Daemon) (htarget : ∀ c ∈ command.target, c = id)
    (hmanaged : ∀ name c, command = .networkDisconnect name c → isManaged name = true) :
    OnlyOn id d (d.run command) := by
  refine ⟨fun c hc => ?_, fun name c h => ?_⟩
  · cases command <;> simp only [Daemon.run, effect]
    all_goals
      have := htarget _ rfl
      subst this
      exact Function.update_of_ne hc ..
  · rcases mem_append.mp h with h | h
    · exact .inl h
    · exact .inr (hmanaged name c (mem_singleton.mp h).symm)

theorem onlyOn_ensureNetwork (id : Uuid) (name : NetworkName) (internal : Bool) (d : Daemon) :
    OnlyOn id d (ensureNetwork name internal d) := by
  unfold ensureNetwork
  split
  · exact .refl id d
  · exact onlyOn_run d (by rintro c ⟨⟩) (by rintro name c ⟨⟩)

/-- A loop whose every step keeps to one container does. -/
theorem onlyOn_foldl {α : Type} {f : Daemon → α → Daemon} (l : List α)
    (hf : ∀ d, ∀ x ∈ l, OnlyOn id d (f d x)) (d : Daemon) : OnlyOn id d (l.foldl f d) := by
  induction l generalizing d with
  | nil => exact .refl id d
  | cons x l ih =>
    exact (hf d x mem_cons_self).trans (ih (fun d y hy => hf d y (mem_cons_of_mem x hy)) _)

theorem onlyOn_connectMissing (own : NetworkName) (id : Uuid) (current : List Text) (d : Daemon)
    (desired : List NetworkName) : OnlyOn id d (connectMissing own id current d desired) := by
  refine onlyOn_foldl desired (fun d name _ => ?_) d
  split
  · exact .refl id d
  · exact (onlyOn_ensureNetwork id name _ d).trans
      (onlyOn_run _ (by rintro c ⟨⟩; rfl) (by rintro name c ⟨⟩))

theorem onlyOn_disconnectUnwanted (desired : List NetworkName) (id : Uuid) (d : Daemon)
    (current : List Text) : OnlyOn id d (disconnectUnwanted desired id d current) := by
  refine onlyOn_foldl current (fun d name _ => ?_) d
  split
  · exact .refl id d
  · next h =>
    refine onlyOn_run _ (by rintro c ⟨⟩; rfl) ?_
    rintro name' c ⟨⟩
    simpa using (not_or.mp (mt Bool.or_eq_true_iff.mpr h)).1

theorem connectMissing_containers (own : NetworkName) (current : List Text)
    (h : d.containers id = some ns) (desired : List NetworkName) :
    ∃ ns', (connectMissing own id current d desired).containers id = some ns' ∧
      ∀ n, n ∈ ns' ↔ n ∈ ns ∨ (n ∈ desired ∧ n.text ∉ current) := by
  unfold connectMissing
  induction desired generalizing d ns with
  | nil => exact ⟨ns, h, by simp⟩
  | cons name desired ih =>
    rw [foldl_cons]
    by_cases hcur : name.text ∈ current
    · obtain ⟨ns', h', hns'⟩ := ih h
      rw [if_pos (by simpa using hcur)]
      exact ⟨ns', h', fun n => by rw [hns']; grind⟩
    · rw [if_neg (by simpa using hcur)]
      have hstep : ((ensureNetwork name (name != own) d).run (.networkConnect name id)).containers id
          = some (if name ∈ ns then ns else ns ++ [name]) := by
        unfold ensureNetwork
        split <;> simp [Daemon.run, effect, h]
      obtain ⟨ns', h', hns'⟩ := ih hstep
      refine ⟨ns', h', fun n => ?_⟩
      rw [hns']
      by_cases hmem : name ∈ ns
      · rw [if_pos hmem]
        grind
      · rw [if_neg hmem]
        grind

theorem disconnectUnwanted_containers (desired : List NetworkName) (h : d.containers id = some ns)
    (current : List Text) :
    ∃ ns', (disconnectUnwanted desired id d current).containers id = some ns' ∧
      ∀ n, n ∈ ns' ↔ n ∈ ns ∧ (n.text ∈ current → isManaged n.text = true → n ∈ desired) := by
  unfold disconnectUnwanted
  induction current generalizing d ns with
  | nil => exact ⟨ns, h, by simp⟩
  | cons name current ih =>
    rw [foldl_cons]
    have hwanted : ∀ n : NetworkName, n.text = name →
        ((!isManaged name || desired.any (·.text == name)) = true ↔
          (isManaged n.text = true → n ∈ desired)) := by
      rintro n rfl
      have hany : desired.any (·.text == n.text) = true ↔ n ∈ desired := by
        rw [any_eq_true]
        constructor
        · rintro ⟨m, hm, heq⟩
          rwa [NetworkName.eq_of_text (eq_of_beq heq)] at hm
        · exact fun hn => ⟨n, hn, by simp⟩
      rw [Bool.or_eq_true, hany]
      cases isManaged n.text <;> simp
    by_cases hkeep : (!isManaged name || desired.any (·.text == name)) = true
    · rw [if_pos hkeep]
      obtain ⟨ns', h', hns'⟩ := ih h
      refine ⟨ns', h', fun n => ?_⟩
      have := hwanted n
      rw [hns']
      grind
    · rw [if_neg hkeep]
      have hstep : (d.run (.networkDisconnect name id)).containers id =
          some (ns.filter (·.text ≠ name)) := by
        simp [Daemon.run, effect, h]
      obtain ⟨ns', h', hns'⟩ := ih hstep
      refine ⟨ns', h', fun n => ?_⟩
      have := hwanted n
      rw [hns', mem_filter]
      grind

/-- **A reconciled container is on the wanted networks, and on what it was on that is not ours.** -/
theorem reconcileNetworks_containers (links : List Uuid) (h : d.containers id = some ns) :
    ∃ ns', (reconcileNetworks id links d).containers id = some ns' ∧
      ∀ n, n ∈ ns' ↔ n ∈ desiredNetworks id links ∨ (n ∈ ns ∧ isManaged n.text = false) := by
  obtain ⟨ns₁, h₁, hns₁⟩ := connectMissing_containers (appNetworkName id) (currentNetworks d id) h
    (desiredNetworks id links)
  obtain ⟨ns₂, h₂, hns₂⟩ := disconnectUnwanted_containers (desiredNetworks id links) h₁
    (currentNetworks d id)
  refine ⟨ns₂, h₂, fun n => ?_⟩
  have hcur : n.text ∈ currentNetworks d id ↔ n ∈ ns := by
    rw [currentNetworks_eq h, mem_map]
    constructor
    · rintro ⟨m, hm, heq⟩
      rwa [NetworkName.eq_of_text heq] at hm
    · exact fun hn => ⟨n, hn, rfl⟩
  rw [hns₂, hns₁, hcur]
  by_cases hn : n ∈ ns <;> by_cases hm : isManaged n.text = true <;> grind

end VibeSsh.Docker
