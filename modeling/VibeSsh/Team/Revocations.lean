import VibeSsh.Lib.Run
import VibeSsh.Team.AccessSync

/-! # Removals, revocations and syncs at once

`revocations.rs` with any number of installations running `sync_team_access`. The backend changes
its list and its open revocations in one transaction; a sync reads the list when it begins, grants
member by member, reads the open revocations, and carries each out before it reports it as done. All
of these steps interleave. -/

namespace VibeSsh.TeamAccess

open Lib List

/-! ## The system -/

/-- An open row of `node_revocations`; `number` stands for its random id. -/
structure OpenRow where
  number : Nat
  server : Uuid
  user : Uuid
  deriving DecidableEq

/-- An account, with the person whose keys its file holds. -/
structure Held where
  account : Account
  holder : Option Uuid
  wf : account.present = false → holder = none

/-- Whose keys are in the file after a write made for a person. -/
def Held.holderAfter (held : Held) (user : Uuid) : Write → Option Uuid
  | .keys file =>
    if held.account.present then if file.isEmpty then none else some user else held.holder
  | _ => held.holder

theorem present_of_apply {w : Write} {account : Account}
    (h : (w.apply account).present = false) : account.present = false := by
  by_contra hpresent
  rw [present_apply w (Bool.not_eq_false _ ▸ hpresent)] at h
  cases h

def Held.write (user : Uuid) (w : Write) (held : Held) : Held where
  account := w.apply held.account
  holder := held.holderAfter user w
  wf h := by
    have habsent := present_of_apply h
    cases w <;> simp [Held.holderAfter, habsent, held.wf habsent]

/-- How far a sync has come. -/
inductive Phase where
  | granting (todo : List Member)
  | keying (member : Member) (todo : List Member)
  | ruling (member : Member) (todo : List Member)
  | revoking (todo : List OpenRow)
  | completing (row : OpenRow) (todo : List OpenRow)

structure RunningSync where
  server : Uuid
  phase : Phase

structure System where
  /-- The backend's access list of the team. -/
  members : List Member
  rows : List OpenRow
  nextNumber : Nat
  nodes : Uuid → Text → Held
  syncs : Nat → Option RunningSync

section

variable (s : System)

def System.isMember (user : Uuid) : Bool := s.members.any (·.userId = user)

def System.account (server user : Uuid) : Held := s.nodes server (nodeUsername user)

def System.write (server user : Uuid) (writes : List Write) : System :=
  { s with
    nodes := Function.update s.nodes server (Function.update (s.nodes server) (nodeUsername user)
      (Replay.applyAll (Held.write user) writes (s.account server user))) }

def System.put (i : Nat) (sync : Option RunningSync) : System :=
  { s with syncs := Function.update s.syncs i sync }

/-! ## Steps -/

/-- What a sync does next, with how it ends. -/
inductive Act where
  /-- The next member has no key, or needs a helper that is missing. -/
  | skip
  | provision (outcome : Outcome)
  | keys (outcome : Outcome) (landed : Bool)
  | rules (outcome : Outcome) (file : List Text)
  | list
  | revoke (outcome : Outcome) (emptied : Bool)
  /-- The report of a revocation reaches the backend or not. -/
  | complete (reached : Bool)
  /-- It is through, or the connection is lost, or the installation is closed. -/
  | stop

inductive Event where
  | addMember (member : Member)
  | removeMember (user : Uuid)
  /-- Published keys, roles or grants of a member change. -/
  | changeMember (member : Member)
  | begin (sync : Nat) (server : Uuid)
  | act (sync : Nat) (act : Act)

/-- `record_for_removed_member`, for the Nodes without an open row of the person. -/
def System.owe (servers : List Uuid) (s : System) (user : Uuid) : List OpenRow :=
  (servers.filter fun server => !s.rows.any fun row => row.server = server && row.user = user).map
    fun server => ⟨s.nextNumber, server, user⟩

def System.actOn (i : Nat) (server : Uuid) (phase : Phase) (act : Act) :
    Option System :=
  let next := fun (s : System) phase => s.put i (some ⟨server, phase⟩)
  match phase, act with
  | .granting (_ :: todo), .skip => some (next s (.granting todo))
  | .granting (member :: todo), .provision outcome =>
    if member.publicKeys.isEmpty then none
    else
      let ran := Scripts.run outcome provisionScript
      some (next (s.write server member.userId ran.writes)
        (if ran.result.isOk then .keying member todo else .granting todo))
  | .keying member todo, .keys outcome landed =>
    let ran := Scripts.run outcome (authorizedKeysScript landed member.publicKeys)
    some (next (s.write server member.userId ran.writes)
      (if ran.result.isOk then .ruling member todo else .granting todo))
  | .ruling member todo, .rules outcome file =>
    some (next (s.write server member.userId (Scripts.run outcome [.rules file]).writes)
      (.granting todo))
  | .granting [], .list =>
    some (next s (.revoking (s.rows.filter (·.server = server))))
  | .revoking (row :: todo), .revoke outcome emptied =>
    let ran := Scripts.run outcome (revokeScript emptied)
    some (next (s.write server row.user ran.writes)
      (if ran.result.isOk then .completing row todo else .revoking todo))
  | .completing row todo, .complete reached =>
    some (next (if reached then { s with rows := s.rows.filter (· ≠ row) } else s)
      (.revoking todo))
  | _, .stop => some (s.put i none)
  | _, _ => none

def System.step (servers : List Uuid) (s : System) : Event → Option System
  | .addMember member =>
    if s.isMember member.userId then none
    else some { s with
      members := member :: s.members
      rows := s.rows.filter (·.user ≠ member.userId) }
  | .removeMember user =>
    if s.isMember user then some { s with
      members := s.members.filter (·.userId ≠ user)
      rows := s.rows ++ s.owe servers user
      nextNumber := s.nextNumber + 1 }
    else none
  | .changeMember member =>
    some { s with
      members := s.members.map fun m => if m.userId = member.userId then member else m }
  | .begin i server =>
    if (s.syncs i).isNone ∧ server ∈ servers then
      some (s.put i (some ⟨server, .granting s.members⟩))
    else none
  | .act i act =>
    match s.syncs i with
    | none => none
    | some sync => s.actOn i sync.server sync.phase act

/-- Nobody has an account with keys yet, nothing is owed and nothing runs. -/
structure System.Initial (s : System) : Prop where
  rows : s.rows = []
  nodes : ∀ server name, (s.nodes server name).holder = none
  syncs : ∀ i, s.syncs i = none

/-! ## What is claimed, and when it holds -/

/-- Keys of a person who is no longer a member are on a Node only with an open revocation there. -/
def System.RevocationWins : Prop :=
  ∀ server user, (s.account server user).holder = some user → s.isMember user = false →
    ∃ row ∈ s.rows, row.server = server ∧ row.user = user

/-- Some sync has taken the account's access away and has yet to say so. -/
def System.Completing (row : OpenRow) : Prop :=
  ∃ i server todo, s.syncs i = some ⟨server, .completing row todo⟩

/-- Keys may be written for a person who is a member, or whose revocation is still to be carried out. -/
def System.MayHaveKeys (server user : Uuid) : Prop :=
  s.isMember user = true ∨
    (∃ row ∈ s.rows, row.server = server ∧ row.user = user) ∧
      ∀ row ∈ s.rows, row.server = server → row.user = user → ¬ s.Completing row

/-- A sync writes keys only for those who may have them, and a revocation that ends well has emptied
the keys file of the person. -/
def System.Timely : Event → Prop
  | .act i (.keys _ _) => ∀ server member todo,
    s.syncs i = some ⟨server, .keying member todo⟩ → s.MayHaveKeys server member.userId
  | .act i (.revoke .done emptied) => ∀ server row todo,
    s.syncs i = some ⟨server, .revoking (row :: todo)⟩ →
      emptied = true ∨ (s.account server row.user).holder ≠ some row.user
  | _ => True

end

/-! ## Writes and holders -/

section

variable {user v : Uuid} {held : Held} {writes : List Write}

/-- Keys come into a file only by a write of keys, for the person it is made for. -/
theorem holder_applyAll (h : (Replay.applyAll (Held.write user) writes held).holder = some v) :
    held.holder = some v ∨ v = user ∧ ∃ file, file ≠ [] ∧ Write.keys file ∈ writes := by
  induction writes generalizing held with
  | nil => exact .inl h
  | cons w writes ih =>
    rcases ih h with hheld | ⟨hv, file, hne, hmem⟩
    · cases w with
      | keys file =>
        unfold Held.write Held.holderAfter at hheld
        dsimp only at hheld
        split at hheld
        · split at hheld
          · cases hheld
          · next hne =>
            exact .inr ⟨(Option.some.inj hheld).symm, file, by simpa using hne,
              mem_cons_self⟩
        · exact .inl hheld
      | create | lift | rules _ | expire => exact .inl hheld
    · exact .inr ⟨hv, file, hne, mem_cons_of_mem _ hmem⟩

theorem holder_emptied (user : Uuid) (held : Held) (writes : List Write) :
    (Replay.applyAll (Held.write user) (writes ++ [.keys []]) held).holder = none := by
  rw [Replay.applyAll_append]
  generalize Replay.applyAll (Held.write user) writes held = before
  change before.holderAfter user (.keys []) = none
  unfold Held.holderAfter
  dsimp only
  split
  · rfl
  · next habsent => exact before.wf (Bool.not_eq_true _ ▸ habsent)

end

section

variable (s : System) (server user : Uuid) (writes : List Write) {server' user' v : Uuid}

theorem account_write :
    (s.write server user writes).account server' user' =
      if server' = server ∧ nodeUsername user' = nodeUsername user then
        Replay.applyAll (Held.write user) writes (s.account server' user')
      else s.account server' user' := by
  unfold System.write System.account
  by_cases hserver : server' = server
  · subst hserver
    by_cases hname : nodeUsername user' = nodeUsername user
    · simp [hname]
    · simp [hname]
  · simp [hserver]

theorem holder_write (h : ((s.write server user writes).account server' user').holder = some v) :
    (s.account server' user').holder = some v ∨
      server' = server ∧ v = user ∧ ∃ file, file ≠ [] ∧ Write.keys file ∈ writes := by
  rw [account_write] at h
  split at h
  · next hsame =>
    rcases holder_applyAll h with hold | ⟨hv, hfile⟩
    · exact .inl hold
    · exact .inr ⟨hsame.1, hv, hfile⟩
  · exact .inl h

end

/-! ## The invariant -/

def Phase.rows : Phase → List OpenRow
  | .revoking todo => todo
  | .completing row todo => row :: todo
  | _ => []

structure System.Sound (servers : List Uuid) (s : System) : Prop where
  wins : s.RevocationWins
  /-- What is owed is owed for those who have left. -/
  owed : ∀ row ∈ s.rows, s.isMember row.user = false
  numbered : ∀ row ∈ s.rows, row.number < s.nextNumber
  shared : ∀ server user v, (s.account server user).holder = some v → server ∈ servers
  running : ∀ i sync, s.syncs i = some sync → sync.server ∈ servers ∧
    ∀ row ∈ sync.phase.rows, row.server = sync.server ∧ row.number < s.nextNumber
  /-- A row is not reported while the person still has keys there. -/
  revoked : ∀ row ∈ s.rows, s.Completing row →
    (s.account row.server row.user).holder ≠ some row.user

theorem sound_initial (servers : List Uuid) {s : System} (h : s.Initial) : s.Sound servers where
  wins server user hholder := by
    rw [System.account, h.nodes] at hholder
    cases hholder
  owed := by simp [h.rows]
  numbered := by simp [h.rows]
  shared server user v hholder := by
    rw [System.account, h.nodes] at hholder
    cases hholder
  running i sync hsync := by
    rw [h.syncs] at hsync
    cases hsync
  revoked := by simp [h.rows]

section

variable {servers : List Uuid} {s : System}

variable {server : Uuid} {i : Nat}

/-- A write that puts keys in place only where they may be. -/
theorem sound_write (h : s.Sound servers) {user : Uuid} (hserver : server ∈ servers)
    {writes : List Write}
    (hkeys : (∃ file, file ≠ [] ∧ Write.keys file ∈ writes) → s.MayHaveKeys server user) :
    (s.write server user writes).Sound servers where
  wins server' user' hholder hgone := by
    rcases holder_write s server user writes hholder with hold | ⟨rfl, rfl, hfile⟩
    · exact h.wins server' user' hold hgone
    · rcases hkeys hfile with hmember | ⟨hrow, -⟩
      · rw [show s.isMember user' = false from hgone] at hmember
        cases hmember
      · exact hrow
  owed := h.owed
  numbered := h.numbered
  shared server' user' v hholder := by
    rcases holder_write s server user writes hholder with hold | ⟨rfl, -, -⟩
    · exact h.shared server' user' v hold
    · exact hserver
  running := h.running
  revoked row hrow hcompleting hholder := by
    rcases holder_write s server user writes hholder with hold | ⟨hsame, huser, hfile⟩
    · exact h.revoked row hrow hcompleting hold
    · rcases hkeys hfile with hmember | ⟨-, hnone⟩
      · rw [← huser, h.owed row hrow] at hmember
        cases hmember
      · exact hnone row hrow hsame huser hcompleting

theorem syncs_put {j : Nat} {sync : Option RunningSync} {other : RunningSync}
    (h : (s.put i sync).syncs j = some other) : sync = some other ∨ s.syncs j = some other := by
  unfold System.put at h
  by_cases hj : j = i
  · subst hj
    exact .inl (by simpa using h)
  · exact .inr (by simpa [hj] using h)

/-- What the invariant asks of one sync. -/
structure System.SyncSound (servers : List Uuid) (s : System) (sync : RunningSync) : Prop where
  server : sync.server ∈ servers
  rows : ∀ row ∈ sync.phase.rows, row.server = sync.server ∧ row.number < s.nextNumber
  revoked : ∀ row todo, sync.phase = .completing row todo → row ∈ s.rows →
    (s.account row.server row.user).holder ≠ some row.user

/-- A sync goes on, or stops. -/
theorem sound_put (h : s.Sound servers) {sync : Option RunningSync}
    (hsync : ∀ x ∈ sync, s.SyncSound servers x) : (s.put i sync).Sound servers where
  wins := h.wins
  owed := h.owed
  numbered := h.numbered
  shared := h.shared
  running j other hother := by
    rcases syncs_put hother with hnew | hold
    · exact ⟨(hsync other hnew).server, (hsync other hnew).rows⟩
    · exact h.running j other hold
  revoked row hrow := by
    rintro ⟨j, server, todo, hother⟩
    rcases syncs_put hother with hnew | hold
    · exact (hsync _ hnew).revoked row todo rfl hrow
    · exact h.revoked row hrow ⟨j, server, todo, hold⟩

/-- A sync that is not about to report a row. -/
theorem syncSound_of_phase {phase : Phase} (hserver : server ∈ servers)
    (hrows : ∀ row ∈ phase.rows, row.server = server ∧ row.number < s.nextNumber)
    (hphase : ∀ row todo, phase ≠ .completing row todo) : s.SyncSound servers ⟨server, phase⟩ :=
  ⟨hserver, hrows, fun row todo h => absurd h (hphase row todo)⟩

/-! ## Every step -/

theorem sound_addMember (h : s.Sound servers) (member : Member) :
    System.Sound servers { s with
      members := member :: s.members
      rows := s.rows.filter (·.user ≠ member.userId) } where
  wins server user hholder hgone := by
    have hne : member.userId ≠ user ∧ s.isMember user = false := by
      simpa [System.isMember] using hgone
    obtain ⟨row, hrow, hserver, huser⟩ := h.wins server user hholder hne.2
    exact ⟨row, mem_filter.mpr ⟨hrow, by simpa [huser] using hne.1.symm⟩, hserver, huser⟩
  owed row hrow := by
    obtain ⟨hrow, hne⟩ := mem_filter.mp hrow
    have hgone := h.owed row hrow
    have hne : row.user ≠ member.userId := by simpa using hne
    simpa [System.isMember, hne.symm] using hgone
  numbered row hrow := h.numbered row (mem_of_mem_filter hrow)
  shared := h.shared
  running := h.running
  revoked row hrow := h.revoked row (mem_of_mem_filter hrow)

theorem isMember_eq_false {user : Uuid} :
    s.isMember user = false ↔ ∀ m ∈ s.members, m.userId ≠ user := by
  simp [System.isMember]

theorem sound_removeMember (h : s.Sound servers) (user : Uuid) :
    System.Sound servers { s with
      members := s.members.filter (·.userId ≠ user)
      rows := s.rows ++ s.owe servers user
      nextNumber := s.nextNumber + 1 } := by
  have howed : ∀ row ∈ s.owe servers user, row.user = user ∧ row.number = s.nextNumber := by
    intro row hrow
    obtain ⟨server, -, rfl⟩ := mem_map.mp hrow
    exact ⟨rfl, rfl⟩
  refine ⟨fun server other hholder hgone => ?_, fun row hrow => ?_, fun row hrow => ?_, h.shared,
    fun i sync hsync => ?_, fun row hrow hcompleting => ?_⟩
  · by_cases hopen : ∃ row ∈ s.rows, row.server = server ∧ row.user = other
    · obtain ⟨row, hrow, hsame⟩ := hopen
      exact ⟨row, mem_append_left _ hrow, hsame⟩
    · by_cases hother : other = user
      · subst hother
        refine ⟨⟨s.nextNumber, server, other⟩, mem_append_right _ ?_, rfl, rfl⟩
        refine mem_map.mpr ⟨server, mem_filter.mpr ⟨h.shared _ _ _ hholder, ?_⟩, rfl⟩
        simpa using hopen
      · refine absurd (h.wins server other hholder ?_) hopen
        rw [isMember_eq_false] at hgone ⊢
        intro m hm hm'
        exact hgone m (mem_filter.mpr ⟨hm, by simpa [hm'] using hother⟩) hm'
  · rw [isMember_eq_false]
    intro m hm
    obtain ⟨hm, hne⟩ := mem_filter.mp hm
    rcases mem_append.mp hrow with hrow | hrow
    · exact isMember_eq_false.mp (h.owed row hrow) m hm
    · rw [(howed row hrow).1]
      simpa using hne
  · rcases mem_append.mp hrow with hrow | hrow
    · exact Nat.lt_succ_of_lt (h.numbered row hrow)
    · exact Nat.lt_succ_of_le (howed row hrow).2.le
  · obtain ⟨hserver, hrows⟩ := h.running i sync hsync
    exact ⟨hserver, fun row hrow => ⟨(hrows row hrow).1, Nat.lt_succ_of_lt (hrows row hrow).2⟩⟩
  · rcases mem_append.mp hrow with hrow | hrow
    · exact h.revoked row hrow hcompleting
    · -- the new rows are in no sync yet
      obtain ⟨i, server, todo, hsync⟩ := hcompleting
      have hknown := ((h.running i _ hsync).2 row mem_cons_self).2
      rw [(howed row hrow).2] at hknown
      exact absurd hknown (lt_irrefl _)

theorem sound_changeMember (h : s.Sound servers) (member : Member) :
    System.Sound servers { s with
      members := s.members.map fun m => if m.userId = member.userId then member else m } := by
  have hsame : ∀ user, System.isMember { s with
      members := s.members.map fun m => if m.userId = member.userId then member else m } user =
      s.isMember user := by
    intro user
    unfold System.isMember
    rw [any_map]
    refine congrArg (s.members.any ·) (funext fun m => ?_)
    by_cases hm : m.userId = member.userId <;> simp [hm]
  exact ⟨fun server user hholder hgone => h.wins server user hholder (hsame user ▸ hgone),
    fun row hrow => (hsame row.user).trans (h.owed row hrow), h.numbered, h.shared, h.running,
    h.revoked⟩

/-- A script that writes no keys. -/
theorem sound_run (h : s.Sound servers) (user : Uuid) (hserver : server ∈ servers)
    (outcome : Outcome) {script : List Write}
    (hscript : ∀ file, Write.keys file ∈ script → file = []) :
    (s.write server user (Scripts.run outcome script).writes).Sound servers :=
  sound_write h hserver fun ⟨file, hne, hmem⟩ =>
    absurd (hscript file ((follows_run outcome script).1.subset hmem)) hne

theorem keys_mem_revokeScript {emptied : Bool} (file : List Text) :
    Write.keys file ∈ revokeScript emptied → file = [] := by
  cases emptied <;> simp [revokeScript]

/-- After a revocation that is about to be reported, the person's keys are gone. -/
theorem holder_revoked {row : OpenRow} {emptied : Bool} (hserver : row.server = server)
    (hok : emptied = true ∨ (s.account server row.user).holder ≠ some row.user) :
    ((s.write server row.user (revokeScript emptied)).account row.server row.user).holder ≠
      some row.user := by
  intro hholder
  by_cases hemptied : emptied = true
  · rw [account_write, if_pos ⟨hserver, rfl⟩, hemptied] at hholder
    have hnone := holder_emptied row.user (s.account row.server row.user) [.rules [], .expire]
    rw [show revokeScript true = [.rules [], .expire] ++ [.keys []] from rfl, hnone] at hholder
    cases hholder
  · rcases holder_write s server row.user _ hholder with hold | ⟨-, -, file, hne, hmem⟩
    · rw [hserver] at hold
      exact hok.resolve_left hemptied hold
    · exact hne (keys_mem_revokeScript file hmem)

theorem sound_complete (h : s.Sound servers) {row : OpenRow} (hcompleting : s.Completing row) :
    System.Sound servers { s with rows := s.rows.filter (· ≠ row) } where
  wins server user hholder hgone := by
    obtain ⟨r, hr, hserver, huser⟩ := h.wins server user hholder hgone
    refine ⟨r, mem_filter.mpr ⟨hr, ?_⟩, hserver, huser⟩
    rw [decide_eq_true_eq]
    rintro rfl
    refine h.revoked r hr hcompleting ?_
    rw [hserver, huser]
    exact hholder
  owed r hr := h.owed r (mem_of_mem_filter hr)
  numbered r hr := h.numbered r (mem_of_mem_filter hr)
  shared := h.shared
  running := h.running
  revoked r hr := h.revoked r (mem_of_mem_filter hr)

theorem sound_actOn (h : s.Sound servers) {phase : Phase} {act : Act}
    {t : System} (hsync : s.syncs i = some ⟨server, phase⟩) (hok : s.Timely (.act i act))
    (hstep : s.actOn i server phase act = some t) : t.Sound servers := by
  obtain ⟨hserver, hrows⟩ := h.running i _ hsync
  unfold System.actOn at hstep
  dsimp only at hserver hrows hstep
  split at hstep
  · -- skip
    obtain rfl := Option.some.inj hstep
    refine sound_put h fun x hx => ?_
    obtain rfl := Option.some.inj hx
    exact syncSound_of_phase hserver nofun nofun
  · -- provision
    split at hstep
    · cases hstep
    · obtain rfl := Option.some.inj hstep
      refine sound_put (sound_run h _ hserver _ (by simp [provisionScript])) fun x hx => ?_
      obtain rfl := Option.some.inj hx
      refine syncSound_of_phase hserver ?_ ?_ <;> split <;> nofun
  · -- keys
    obtain rfl := Option.some.inj hstep
    refine sound_put (sound_write h hserver fun _ => hok _ _ _ hsync) fun x hx => ?_
    obtain rfl := Option.some.inj hx
    refine syncSound_of_phase hserver ?_ ?_ <;> split <;> nofun
  · -- rules
    obtain rfl := Option.some.inj hstep
    refine sound_put (sound_run h _ hserver _ (by simp)) fun x hx => ?_
    obtain rfl := Option.some.inj hx
    exact syncSound_of_phase hserver nofun nofun
  · -- list
    obtain rfl := Option.some.inj hstep
    refine sound_put h fun x hx => ?_
    obtain rfl := Option.some.inj hx
    refine syncSound_of_phase hserver (fun row hrow => ?_) nofun
    obtain ⟨hrow, hsame⟩ := mem_filter.mp hrow
    exact ⟨by simpa using hsame, h.numbered row hrow⟩
  · -- revoke
    next row todo outcome emptied =>
    obtain rfl := Option.some.inj hstep
    refine sound_put (sound_run h _ hserver _ keys_mem_revokeScript) fun x hx => ?_
    obtain rfl := Option.some.inj hx
    cases outcome with
    | failed e after =>
      exact syncSound_of_phase hserver (fun r hr => hrows r (mem_cons_of_mem _ hr)) nofun
    | done =>
      refine ⟨hserver, hrows, fun r rest hphase hopen => ?_⟩
      obtain ⟨rfl, -⟩ := Phase.completing.inj hphase
      exact holder_revoked (hrows _ mem_cons_self).1 (hok _ _ _ hsync)
  · -- complete
    next row todo reached =>
    obtain rfl := Option.some.inj hstep
    have htodo : ∀ r ∈ todo, r.server = server ∧ r.number < s.nextNumber :=
      fun r hr => hrows r (mem_cons_of_mem _ hr)
    cases reached with
    | false =>
      refine sound_put h fun x hx => ?_
      obtain rfl := Option.some.inj hx
      exact syncSound_of_phase hserver htodo nofun
    | true =>
      refine sound_put (sound_complete h ⟨i, server, todo, hsync⟩) fun x hx => ?_
      obtain rfl := Option.some.inj hx
      exact syncSound_of_phase hserver htodo nofun
  · -- stop
    obtain rfl := Option.some.inj hstep
    exact sound_put h nofun
  · cases hstep

theorem sound_step (h : s.Sound servers) {e : Event} {t : System} (hok : s.Timely e)
    (hstep : s.step servers e = some t) : t.Sound servers := by
  cases e with
  | addMember member =>
    unfold System.step at hstep
    dsimp only at hstep
    split_ifs at hstep
    · obtain rfl := Option.some.inj hstep
      exact sound_addMember h member
  | removeMember user =>
    unfold System.step at hstep
    dsimp only at hstep
    split at hstep
    · obtain rfl := Option.some.inj hstep
      exact sound_removeMember h user
    · cases hstep
  | changeMember member =>
    obtain rfl := Option.some.inj hstep
    exact sound_changeMember h member
  | begin i server =>
    unfold System.step at hstep
    dsimp only at hstep
    split at hstep
    · next hserver =>
      obtain rfl := Option.some.inj hstep
      refine sound_put h fun x hx => ?_
      obtain rfl := Option.some.inj hx
      exact syncSound_of_phase hserver.2 nofun nofun
    · cases hstep
  | act i act =>
    unfold System.step at hstep
    dsimp only at hstep
    split at hstep
    · cases hstep
    · next sync hsync => exact sound_actOn h hsync hok hstep

end

/-- **In every timely interleaving, keys of a person who has left are on a Node only with an open
revocation there.** -/
theorem revocation_wins {servers : List Uuid} {s t : System} {trace : List (Transition System Event)}
    (hs : s.Initial) (hrun : Run (fun s e t => s.step servers e = some t) s trace t)
    (hok : ∀ x ∈ trace, x.pre.Timely x.label) :
    t.RevocationWins ∧ ∀ x ∈ trace, x.post.RevocationWins := by
  obtain ⟨hend, hall⟩ := Run.invariant (System.Sound servers) System.Timely
    (fun h hok hstep => sound_step h hok hstep) hrun (sound_initial servers hs) hok
  exact ⟨hend.wins, fun x hx => (hall x hx).2.2.wins⟩

/-! ## One Node, two installations -/

def lone : System :=
  ⟨[viewer], [], 0, fun _ _ => ⟨noAccount, none, fun _ => rfl⟩, fun _ => none⟩

/-- The first installation has the account made when the member is removed, and writes the keys
while the second has listed the revocation; the second then revokes and reports. -/
def removedInTime : List Event :=
  [.begin 0 Uuid.max, .act 0 (.provision .done), .removeMember viewer.userId,
    .begin 1 Uuid.max, .act 1 .list, .act 0 (.keys .done true), .act 1 (.revoke .done true),
    .act 1 (.complete true), .act 0 (.rules .done []), .act 0 .list, .act 0 .stop, .act 1 .stop]

theorem removedInTime_wins :
    ∃ t, removedInTime.foldlM (System.step [Uuid.max]) lone = some t ∧
      t.isMember viewer.userId = false ∧ t.rows = [] ∧
      (t.RevocationWins ∧ ∀ x ∈ stepsOf (System.step [Uuid.max]) lone removedInTime,
        x.post.RevocationWins) := by
  obtain ⟨t, ht, hgone, hrows⟩ : ∃ t, removedInTime.foldlM (System.step [Uuid.max]) lone = some t ∧
      t.isMember viewer.userId = false ∧ t.rows = [] := ⟨_, rfl, by decide, by decide⟩
  refine ⟨t, ht, hgone, hrows,
    revocation_wins ⟨rfl, fun _ _ => rfl, fun _ => rfl⟩ (run_stepsOf ht) fun x hx => ?_⟩
  iterate 5 (rcases mem_cons.mp hx with rfl | hx; · trivial)
  rcases mem_cons.mp hx with rfl | hx
  · -- the person has left, and their revocation is listed but not carried out
    intro server member todo hsync
    cases hsync
    refine .inr ⟨by decide, fun row _ _ _ ⟨i, server, todo, hsync⟩ => ?_⟩
    rcases i with _ | _ | i <;> cases hsync
  rcases mem_cons.mp hx with rfl | hx
  · exact fun _ _ _ _ => .inl rfl
  iterate 5 (rcases mem_cons.mp hx with rfl | hx; · trivial)
  cases hx

/-- The first installation has read the list when the member is removed; the second carries the
revocation out and reports it; then the first writes the keys. -/
def lateGrant : List Event :=
  [.begin 0 Uuid.max, .act 0 (.provision .done), .removeMember viewer.userId,
    .begin 1 Uuid.max, .act 1 .list, .act 1 (.revoke .done true), .act 1 (.complete true),
    .act 1 .stop, .act 0 (.keys .done true), .act 0 (.rules .done []), .act 0 .list, .act 0 .stop]

/-- Both syncs are through, the person is no member, their keys are on the Node, and nothing is owed
there any more. -/
theorem late_grant_survives :
    ∃ t, lateGrant.foldlM (System.step [Uuid.max]) lone = some t ∧ (∀ i, t.syncs i = none) ∧
      t.isMember viewer.userId = false ∧
      (t.account Uuid.max viewer.userId).holder = some viewer.userId ∧
      (t.account Uuid.max viewer.userId).account.keys = viewer.publicKeys ∧
      t.rows = [] ∧ ¬ t.RevocationWins := by
  have hkeeps : ∀ t : System, t.isMember viewer.userId = false →
      (t.account Uuid.max viewer.userId).holder = some viewer.userId → t.rows = [] →
      ¬ t.RevocationWins := by
    intro t hgone hholder hrows hwins
    obtain ⟨row, hrow, -⟩ := hwins Uuid.max viewer.userId hholder hgone
    rw [hrows] at hrow
    cases hrow
  refine ⟨_, rfl, fun i => ?_, by decide, by decide, by decide,
    by decide, hkeeps _ (by decide) (by decide) (by decide)⟩
  rcases i with _ | _ | i <;> rfl

end VibeSsh.TeamAccess
