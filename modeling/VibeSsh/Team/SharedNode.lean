import VibeSsh.Team.AccessSync

/-! # Two teams on one Node

The accounts of a Node are named after people, not after teams, and every sync writes whole files.
-/

namespace VibeSsh.TeamAccess

open Lib Command MemberSudoers

/-! ## Writes in either order -/

/-- Two values to be written, if both are, are the same. -/
def Agree {α : Type} (x y : Option α) : Prop := ∀ v ∈ x, ∀ w ∈ y, v = w

theorem agree_iff {α : Type} {x y : Option α} {old : α} :
    y.getD (x.getD old) = x.getD (y.getD old) ↔ Agree x y := by
  cases x <;> cases y <;> simp [Agree, eq_comm]

/-- The second value, if there is one, is the one the first leaves. -/
def Repeats {α : Type} (x y : Option α) (old : α) : Prop := ∀ w ∈ y, w = x.getD old

theorem repeats_iff {α : Type} {x y : Option α} {old : α} :
    y.getD (x.getD old) = x.getD old ↔ Repeats x y old := by
  cases y <;> simp [Repeats]

/-- What becomes of an account: whether it is made, and the rules, keys and expiry it is left with,
each if it is written at all. -/
@[ext] structure Effect where
  made : Bool
  rules : Option (List Text)
  keys : Option (List Text)
  expired : Option Bool

def effectOf (log : List Write) : Effect :=
  ⟨Write.create ∈ log, lastRules log, lastKeys log, lastExpired log⟩

/-- What two effects on an account have to agree about. Where only one of them makes the account,
the other must find nothing to change in what the first has made. -/
structure Compatible (account : Account) (first second : Effect) : Prop where
  rules : Agree first.rules second.rules
  both : account.present = true ∨ first.made = true ∧ second.made = true →
    Agree first.keys second.keys ∧ Agree first.expired second.expired
  onlyFirst : account.present = false → first.made = true → second.made = false →
    Repeats first.keys second.keys account.keys ∧
      Repeats first.expired second.expired account.expired
  onlySecond : account.present = false → first.made = false → second.made = true →
    Repeats second.keys first.keys account.keys ∧
      Repeats second.expired first.expired account.expired

section

variable {account : Account} {log first second : List Write}

theorem keys_after (hlog : Orderly log) :
    (account.after log).keys =
      if (account.present || decide (Write.create ∈ log)) = true then
        (lastKeys log).getD account.keys
      else account.keys := by
  split
  · next h => exact (after_of_orderly hlog h).1
  · next h =>
    simp only [Bool.or_eq_true, decide_eq_true_eq, not_or, Bool.not_eq_true] at h
    exact (after_of_absent h.1 h.2).1

theorem expired_after (hlog : Orderly log) :
    (account.after log).expired =
      if (account.present || decide (Write.create ∈ log)) = true then
        (lastExpired log).getD account.expired
      else account.expired := by
  split
  · next h => exact (after_of_orderly hlog h).2
  · next h =>
    simp only [Bool.or_eq_true, decide_eq_true_eq, not_or, Bool.not_eq_true] at h
    rw [(after_of_absent h.1 h.2).2, account.wf h.1]

theorem after_comm_iff (hfirst : Orderly first) (hsecond : Orderly second) :
    (account.after first).after second = (account.after second).after first ↔
      Compatible account (effectOf first) (effectOf second) := by
  have hrules : ((account.after first).after second).rules =
      ((account.after second).after first).rules ↔ Agree (lastRules first) (lastRules second) := by
    rw [rules_after, rules_after, rules_after, rules_after, agree_iff]
  have hpresent : ((account.after first).after second).present =
      ((account.after second).after first).present := by
    rw [present_after, present_after, present_after, present_after, Bool.or_right_comm]
  have hfields : (account.after first).after second = (account.after second).after first ↔
      Agree (lastRules first) (lastRules second) ∧
        ((account.after first).after second).keys = ((account.after second).after first).keys ∧
        ((account.after first).after second).expired =
          ((account.after second).after first).expired := by
    constructor
    · intro h
      exact ⟨hrules.mp (by rw [h]), by rw [h], by rw [h]⟩
    · rintro ⟨hr, hk, he⟩
      exact Account.ext hpresent hk (hrules.mpr hr) he
  rw [hfields, keys_after hsecond, keys_after hfirst, keys_after hfirst, keys_after hsecond,
    expired_after hsecond, expired_after hfirst, expired_after hfirst, expired_after hsecond,
    present_after, present_after]
  by_cases hthere : account.present = true
  · simp only [hthere, Bool.true_or, if_true, agree_iff]
    have hnot : account.present ≠ false := by simp [hthere]
    exact ⟨fun ⟨hr, hk, he⟩ => ⟨hr, fun _ => ⟨hk, he⟩, fun h => absurd h hnot,
      fun h => absurd h hnot⟩, fun h => ⟨h.rules, h.both (.inl hthere)⟩⟩
  · rw [Bool.not_eq_true] at hthere
    have hnot : account.present ≠ true := by simp [hthere]
    have hmade : ∀ {log : List Write}, (effectOf log).made = true ↔ Write.create ∈ log :=
      decide_eq_true_iff
    have hunmade : ∀ {log : List Write}, (effectOf log).made = false ↔ Write.create ∉ log :=
      decide_eq_false_iff_not
    by_cases h1 : Write.create ∈ first <;> by_cases h2 : Write.create ∈ second <;>
      simp only [hthere, h1, h2, decide_true, decide_false, Bool.or_true, Bool.or_false,
        Bool.false_eq_true, if_true, if_false, agree_iff, repeats_iff]
    · exact ⟨fun ⟨hr, hk, he⟩ => ⟨hr, fun _ => ⟨hk, he⟩, fun _ _ h => absurd h2 (hunmade.mp h),
        fun _ h => absurd h1 (hunmade.mp h)⟩,
        fun h => ⟨h.rules, h.both (.inr ⟨hmade.mpr h1, hmade.mpr h2⟩)⟩⟩
    · exact ⟨fun ⟨hr, hk, he⟩ => ⟨hr, fun h => absurd (hmade.mp (h.resolve_left hnot).2) h2,
        fun _ _ _ => ⟨hk, he⟩, fun _ h => absurd h1 (hunmade.mp h)⟩,
        fun h => ⟨h.rules, h.onlyFirst hthere (hmade.mpr h1) (hunmade.mpr h2)⟩⟩
    · refine ⟨fun ⟨hr, hk, he⟩ => ⟨hr, fun h => absurd (hmade.mp (h.resolve_left hnot).1) h1,
        fun _ h => absurd (hmade.mp h) h1,
        fun _ _ _ => ⟨repeats_iff.mp hk.symm, repeats_iff.mp he.symm⟩⟩, fun h => ?_⟩
      obtain ⟨hk, he⟩ := h.onlySecond hthere (hunmade.mpr h1) (hmade.mpr h2)
      exact ⟨h.rules, (repeats_iff.mpr hk).symm, (repeats_iff.mpr he).symm⟩
    · exact ⟨fun ⟨hr, _⟩ => ⟨hr, fun h => absurd (hmade.mp (h.resolve_left hnot).1) h1,
        fun _ h => absurd (hmade.mp h) h1, fun _ _ h => absurd (hmade.mp h) h2⟩,
        fun h => ⟨h.rules, trivial, trivial⟩⟩

theorem after_again (hlog : Orderly log) :
    (account.after log).after log = account.after log := by
  have hthere : ((account.after log).present || decide (Write.create ∈ log)) =
      (account.present || decide (Write.create ∈ log)) := by
    rw [present_after, Bool.or_assoc, Bool.or_self]
  refine Account.ext ?_ ?_ ?_ ?_
  · rw [present_after, hthere, present_after]
  · rw [keys_after hlog, hthere, keys_after hlog]
    split <;> cases lastKeys log <;> rfl
  · rw [rules_after, rules_after]
    cases lastRules log <;> rfl
  · rw [expired_after hlog, hthere, expired_after hlog]
    split <;> cases lastExpired log <;> rfl

end

/-! ## The syncs of two teams -/

/-- A team's sync of the Node: the Node's id with the team, what the backend lists, and how the
scripts end. -/
structure TeamSync where
  teamServerId : Uuid
  answers : Answers
  members : AppResult (List Member)
  pending : AppResult (List Revocation)

section

variable (tools : MemberAccount.Node)

def TeamSync.run (sync : TeamSync) : SyncRun :=
  syncTeamAccess tools sync.teamServerId sync.answers sync.members sync.pending

/-- **A sync made again changes nothing**, whichever of its commands fail. -/
theorem sync_again (sync : TeamSync) (s : Accounts) :
    (sync.run tools).on ((sync.run tools).on s) = (sync.run tools).on s := by
  funext name
  rw [on_apply, on_apply]
  exact after_again (orderly_sync _ _ _ _ _ name)

/-! ### How far a turn comes -/

/-- The writes of a grant that are made, of its four: the account, its expiry lifted, the keys and
the rules. -/
def grantOneStage (a : Answers) (member : Member) : Nat :=
  match a.provision member.userId with
  | .failed _ after => min after 2
  | .done =>
    if (checkKeys member.publicKeys).isOk then
      match a.keys member.userId, a.sudoers member.userId with
      | .failed _ after, _ => 2 + min after 1
      | .done, .failed _ after => 3 + min after 1
      | .done, .done => 4
    else 2

/-- None, without a key or without a helper that is needed. -/
def grantStage (teamServerId : Uuid) (a : Answers) (member : Member) : Nat :=
  let rules := memberRules tools teamServerId a.accountsListed member
  if member.publicKeys.isEmpty ||
      needsConsoleWriter member rules && !a.consoleWriter.isOk ||
      needsFirewallHelper member && !a.firewallHelper.isOk then 0
  else grantOneStage a member

/-- The writes of a revocation that are made: the rules, the expiry and, if it can be, the keys. -/
def revokeStage (a : Answers) (row : Revocation) : Nat :=
  match a.revoke row.id with
  | .failed _ after => after
  | .done => 3

/-- Everyone the sync gets to, and every row. -/
def TeamSync.served (sync : TeamSync) : List Member :=
  match sync.members, sync.answers.connect with
  | .ok members, .ok _ => members
  | _, _ => []

def TeamSync.owed (sync : TeamSync) : List Revocation :=
  match sync.members, sync.answers.connect, sync.pending with
  | .ok _, .ok _, .ok pending => rowsOn sync.teamServerId pending
  | _, _, _ => []

/-- The last of a person's turns on the account that comes as far as the stage. -/
def TeamSync.granted (sync : TeamSync) (name : Text) (stage : Nat) : Option Member :=
  (sync.served.filter fun member => member.nodeUsername = name ∧
    stage ≤ grantStage tools sync.teamServerId sync.answers member).getLast?

/-- Whether a pending row of the account comes as far. -/
def TeamSync.revoked (sync : TeamSync) (name : Text) (stage : Nat) : Bool :=
  sync.owed.any fun row => row.nodeUsername = name ∧ stage ≤ revokeStage sync.answers row

def TeamSync.emptied (sync : TeamSync) (name : Text) : Bool :=
  sync.owed.any fun row => row.nodeUsername = name ∧ 3 ≤ revokeStage sync.answers row ∧
    sync.answers.emptied row.id

/-- What a team's lists make of an account: the last member with a key whose account it is decides,
unless a pending row takes it back. -/
def TeamSync.effect (sync : TeamSync) (name : Text) : Effect where
  made := (sync.granted tools name 1).isSome
  rules := if sync.revoked name 1 then some []
    else (sync.granted tools name 4).map (rulesFor tools sync.teamServerId)
  keys := if sync.emptied name then some []
    else (sync.granted tools name 3).map (keysLeft sync.answers)
  expired := if sync.revoked name 2 then some true
    else (sync.granted tools name 2).map fun _ => false

/-- The team lists this person, with a key. -/
def TeamSync.Grants (sync : TeamSync) (member : Member) : Prop :=
  ∃ members, sync.members = .ok members ∧ member ∈ members ∧ member.publicKeys ≠ []

/-- The person can log in with each of their keys and has the team's rules. -/
structure HasAccess (teamServerId : Uuid) (member : Member) (account : Account) : Prop where
  present : account.present = true
  current : account.expired = false
  keys : member.publicKeys ⊆ account.keys
  rules : rulesFor tools teamServerId member ⊆ account.rules

/-- A team's lists leave a person what another team grants: no pending row expires the account, and
whoever the account is given to has their keys and rules among their own. -/
structure TeamSync.Spares (sync : TeamSync) (teamServerId : Uuid) (member : Member) : Prop where
  current : sync.revoked member.nodeUsername 2 = false
  keys : ∀ last ∈ sync.granted tools member.nodeUsername 3,
    member.publicKeys ⊆ keysLeft sync.answers last
  rules : sync.revoked member.nodeUsername 1 = false →
    ∀ last ∈ sync.granted tools member.nodeUsername 4,
      rulesFor tools teamServerId member ⊆ rulesFor tools sync.teamServerId last
  taken : sync.revoked member.nodeUsername 1 = true → rulesFor tools teamServerId member = []

/-! ### The writes, from the lists -/

variable {tools}

theorem grantOne_writes (teamServerId : Uuid) (a : Answers) (member : Member) :
    (grantOne tools a member (memberRules tools teamServerId a.accountsListed member)).writes =
      (fullGrant tools teamServerId a member).take (grantOneStage a member) := by
  have hname : validateLinuxUsername member.nodeUsername "the member's account name" = .ok () :=
    validate_nodeUsername member.userId _
  obtain ⟨script, hscript, -⟩ := exists_sudoersScript tools member.permissions
    (memberRules tools teamServerId a.accountsListed member) hname
  have hlines := lines_memberRules tools teamServerId a.accountsListed member hscript
  unfold grantOne grantOneStage
  dsimp only
  rw [hname, hscript]
  simp only [Bind.bind, Scripts.lift, Scripts.run, hlines]
  rcases a.provision member.userId with _ | ⟨e, after⟩
  · rcases checkKeys member.publicKeys with e | _
    · rfl
    · rcases a.keys member.userId with _ | ⟨e, after⟩
      · rcases a.sudoers member.userId with _ | ⟨e, after⟩
        · rfl
        · cases after <;> simp [fullGrant, keysLeft, authorizedKeysScript, provisionScript,
            Except.isOk, Except.toBool]
      · cases after <;> simp [fullGrant, keysLeft, authorizedKeysScript, provisionScript,
          Except.isOk, Except.toBool]
  · rcases after with _ | _ | after <;> simp [fullGrant, provisionScript]

theorem requireHelper_ok_or (needed : Bool) (installed : AppResult Unit) :
    requireHelper needed installed = .ok () ∧ (needed && !installed.isOk) = false ∨
      (∃ e, requireHelper needed installed = .error e) ∧ (needed && !installed.isOk) = true := by
  cases needed <;> rcases installed with e | _ <;>
    simp [requireHelper, Except.mapError, Except.isOk, Except.toBool]

theorem syncMember_writes (teamServerId : Uuid) (a : Answers) (member : Member) :
    (syncMember tools teamServerId a member).2 = (fullGrant tools teamServerId a member).take
      (grantStage tools teamServerId a member) := by
  unfold syncMember grantStage
  dsimp only
  cases member.publicKeys.isEmpty
  · rw [if_neg Bool.false_ne_true, Bool.false_or]
    unfold grantMember
    dsimp only
    rcases requireHelper_ok_or (needsConsoleWriter member
      (memberRules tools teamServerId a.accountsListed member)) a.consoleWriter with
      ⟨hok, hneed⟩ | ⟨⟨e, he⟩, hneed⟩
    · rcases requireHelper_ok_or (needsFirewallHelper member) a.firewallHelper with
        ⟨hok', hneed'⟩ | ⟨⟨e, he⟩, hneed'⟩
      · rw [hok, hok', hneed, hneed']
        exact grantOne_writes teamServerId a member
      · rw [hok, he, hneed, hneed']
        rfl
    · rw [he, hneed]
      rfl
  · rfl

theorem revokeOne_writes (a : Answers) (row : Revocation) :
    (revokeOne a row).writes = (revokeScript (a.emptied row.id)).take (revokeStage a row) := by
  have hname := validate_nodeUsername row.userId "the member's account name"
  unfold revokeOne revokeStage
  rw [show validateLinuxUsername row.nodeUsername "the member's account name" = .ok () from hname]
  simp only [Bind.bind, Scripts.lift, Scripts.run]
  rcases a.revoke row.id with _ | ⟨e, after⟩
  · cases a.emptied row.id <;> rfl
  · rfl

theorem under_run (sync : TeamSync) (name : Text) :
    Replay.under name (sync.run tools).log =
      (sync.served.filter (·.nodeUsername = name)).flatMap (fun member =>
        (fullGrant tools sync.teamServerId sync.answers member).take
          (grantStage tools sync.teamServerId sync.answers member)) ++
      (sync.owed.filter (·.nodeUsername = name)).flatMap fun row =>
        (revokeScript (sync.answers.emptied row.id)).take (revokeStage sync.answers row) := by
  have hlog : (sync.run tools).log = grantLog tools sync.teamServerId sync.answers sync.served ++
      revokeLog sync.answers sync.owed := by
    unfold TeamSync.run syncTeamAccess TeamSync.served TeamSync.owed
    rcases sync.members with e | members <;> rcases sync.answers.connect with e | _ <;>
      rcases sync.pending with e | pending <;> simp [grantLog, revokeLog]
  rw [hlog, Replay.under_append, grantLog, revokeLog, Replay.under_flatMap, Replay.under_flatMap]
  simp only [syncMember_writes, completeRevocation, revokeOne_writes]

theorem granted_eq (sync : TeamSync) (name : Text) (stage : Nat) :
    sync.granted tools name stage =
      ((sync.served.filter (·.nodeUsername = name)).filter fun member =>
        stage ≤ grantStage tools sync.teamServerId sync.answers member).getLast? := by
  rw [List.filter_filter, TeamSync.granted]
  congr 2
  funext member
  rw [Bool.decide_and, Bool.and_comm]

theorem getLast?_filter_map_const {α β : Type} (xs : List α) (p : α → Bool) (x : β) :
    (xs.filter p).getLast?.map (fun _ => x) = if xs.any p then some x else none := by
  by_cases h : xs.any p = true
  · obtain ⟨y, hy, hp⟩ := List.any_eq_true.mp h
    have hne : xs.filter p ≠ [] := List.ne_nil_of_mem (List.mem_filter.mpr ⟨hy, hp⟩)
    rw [if_pos h, List.getLast?_eq_some_getLast hne]
    rfl
  · have hnil : xs.filter p = [] := by
      rw [List.filter_eq_nil_iff]
      exact fun y hy hp => h (List.any_eq_true.mpr ⟨y, hy, hp⟩)
    rw [if_neg h, hnil]
    rfl

/-- The rows of one account that set a field of it. -/
theorem last_revokes {φ : Type} {set : Write → Option φ} {a : Answers} {p : Revocation → Bool}
    (x : φ) (h : ∀ row, Replay.last set ((revokeScript (a.emptied row.id)).take (revokeStage a row)) =
      if p row then some x else none) (rows : List Revocation) (name : Text) :
    Replay.last set ((rows.filter (·.nodeUsername = name)).flatMap fun row =>
        (revokeScript (a.emptied row.id)).take (revokeStage a row)) =
      if rows.any (fun row => row.nodeUsername = name ∧ p row) then some x else none := by
  rw [Replay.last_flatMap_filter (fun _ => x) h, getLast?_filter_map_const, List.any_filter]
  simp only [Bool.decide_and, Bool.decide_eq_true]

/-- The grants of one account that come as far as a stage. -/
theorem last_grants {φ : Type} {set : Write → Option φ} (sync : TeamSync) (stage : Nat)
    (value : Member → φ) (h : ∀ member k, Replay.last set
      ((fullGrant tools sync.teamServerId sync.answers member).take k) =
        if stage ≤ k then some (value member) else none) (name : Text) :
    Replay.last set ((sync.served.filter (·.nodeUsername = name)).flatMap fun member =>
        (fullGrant tools sync.teamServerId sync.answers member).take
          (grantStage tools sync.teamServerId sync.answers member)) =
      (sync.granted tools name stage).map value := by
  rw [granted_eq, Replay.last_flatMap_filter value fun member => ?_]
  rw [h]
  simp

theorem last_take_fullGrant (tools : MemberAccount.Node) (teamServerId : Uuid) (a : Answers) (member : Member) (k : Nat) :
    let writes := (fullGrant tools teamServerId a member).take k
    (Write.create ∈ writes ↔ 1 ≤ k) ∧
      Replay.last Write.setsExpired writes = (if 2 ≤ k then some false else none) ∧
      Replay.last Write.setsKeys writes = (if 3 ≤ k then some (keysLeft a member) else none) ∧
      Replay.last Write.setsRules writes =
        if 4 ≤ k then some (rulesFor tools teamServerId member) else none := by
  rcases k with _ | _ | _ | _ | k <;>
    simp [fullGrant, Replay.last_cons, Write.setsExpired, Write.setsKeys, Write.setsRules]

theorem last_take_revokeScript (emptied : Bool) (k : Nat) :
    let writes := (revokeScript emptied).take k
    Write.create ∉ writes ∧
      Replay.last Write.setsRules writes = (if decide (1 ≤ k) then some [] else none) ∧
      Replay.last Write.setsExpired writes = (if decide (2 ≤ k) then some true else none) ∧
      Replay.last Write.setsKeys writes = if decide (3 ≤ k ∧ emptied) then some [] else none := by
  cases emptied <;> rcases k with _ | _ | _ | k <;>
    simp [revokeScript, Replay.last_cons, Write.setsExpired, Write.setsKeys, Write.setsRules]

theorem effectOf_writes (sync : TeamSync) (name : Text) :
    effectOf (Replay.under name (sync.run tools).log) = sync.effect tools name := by
  have hor : ∀ {φ : Type} (c : Bool) (x : φ) (y : Option φ),
      (if c then some x else none).or y = if c then some x else y := by
    intro φ c x y
    cases c <;> rfl
  have hgrant := last_take_fullGrant tools sync.teamServerId sync.answers
  have hrevoke := fun row : Revocation =>
    last_take_revokeScript (sync.answers.emptied row.id) (revokeStage sync.answers row)
  rw [under_run]
  ext1
  · have hmade : (sync.granted tools name 1).isSome = true ↔ ∃ member ∈ sync.served,
        member.nodeUsername = name ∧
          1 ≤ grantStage tools sync.teamServerId sync.answers member := by
      rw [TeamSync.granted, Option.isSome_iff_ne_none, Ne, List.getLast?_eq_none_iff,
        List.filter_eq_nil_iff]
      simp [Nat.one_le_iff_ne_zero]
    have hnone : Write.create ∉ (sync.owed.filter (·.nodeUsername = name)).flatMap fun row =>
        (revokeScript (sync.answers.emptied row.id)).take (revokeStage sync.answers row) := by
      rw [List.mem_flatMap]
      exact fun ⟨row, _, hmem⟩ => (hrevoke row).1 hmem
    rw [effectOf, TeamSync.effect, Bool.eq_iff_iff, decide_eq_true_eq, List.mem_append,
      or_iff_left hnone, List.mem_flatMap, hmade]
    simp only [(hgrant _ _).1, List.mem_filter, decide_eq_true_eq, and_assoc]
  · show Replay.last _ _ = _
    rw [Replay.last_append, last_revokes [] fun row => (hrevoke row).2.1,
      last_grants sync 4 _ fun member k => (hgrant member k).2.2.2, hor]
    simp [TeamSync.effect, TeamSync.revoked]
  · show Replay.last _ _ = _
    rw [Replay.last_append, last_revokes [] fun row => (hrevoke row).2.2.2,
      last_grants sync 3 _ fun member k => (hgrant member k).2.2.1, hor]
    simp [TeamSync.effect, TeamSync.emptied]
  · show Replay.last _ _ = _
    rw [Replay.last_append, last_revokes true fun row => (hrevoke row).2.2.1,
      last_grants sync 2 _ fun member k => (hgrant member k).2.1, hor]
    simp [TeamSync.effect, TeamSync.revoked]

theorem subset_getD_iff {x : Option (List Text)} {wanted old : List Text} (h : wanted ⊆ old) :
    wanted ⊆ x.getD old ↔ ∀ file ∈ x, wanted ⊆ file := by
  cases x <;> simp [h]

theorem hasAccess_after_iff {sync : TeamSync} {teamServerId : Uuid} {member : Member}
    {account : Account} {log : List Write}
    (hkey : member.publicKeys ≠ []) (h : HasAccess tools teamServerId member account)
    (hlog : effectOf log = sync.effect tools member.nodeUsername) :
    HasAccess tools teamServerId member (account.after log) ↔
      sync.Spares tools teamServerId member := by
  obtain ⟨hkeys, hexpired⟩ := after_of_present h.present log
  have hrules := rules_after account log
  rw [show lastKeys log = _ from congrArg Effect.keys hlog] at hkeys
  rw [show lastExpired log = _ from congrArg Effect.expired hlog, h.current] at hexpired
  rw [show lastRules log = _ from congrArg Effect.rules hlog] at hrules
  have hpresent : (account.after log).present = true := by
    rw [present_after, h.present, Bool.true_or]
  have hcurrent : (account.after log).expired = false ↔
      sync.revoked member.nodeUsername 2 = false := by
    rw [hexpired, TeamSync.effect]
    cases sync.revoked member.nodeUsername 2 <;> cases sync.granted tools member.nodeUsername 2 <;>
      simp
  have hemptied : sync.emptied member.nodeUsername = true →
      sync.revoked member.nodeUsername 2 = true := by
    simp only [TeamSync.emptied, TeamSync.revoked, List.any_eq_true, decide_eq_true_eq]
    rintro ⟨row, hmem, hname, hstage, -⟩
    exact ⟨row, hmem, hname, by omega⟩
  have hkept : member.publicKeys ⊆ (account.after log).keys ↔
      sync.emptied member.nodeUsername = false ∧
        ∀ last ∈ sync.granted tools member.nodeUsername 3,
          member.publicKeys ⊆ keysLeft sync.answers last := by
    rw [hkeys, subset_getD_iff h.keys, TeamSync.effect]
    cases sync.emptied member.nodeUsername <;> simp [hkey]
  have hleft : rulesFor tools teamServerId member ⊆ (account.after log).rules ↔
      (sync.revoked member.nodeUsername 1 = false →
        ∀ last ∈ sync.granted tools member.nodeUsername 4,
          rulesFor tools teamServerId member ⊆ rulesFor tools sync.teamServerId last) ∧
      (sync.revoked member.nodeUsername 1 = true → rulesFor tools teamServerId member = []) := by
    rw [hrules, subset_getD_iff h.rules, TeamSync.effect]
    cases sync.revoked member.nodeUsername 1 <;> simp
  constructor
  · intro hafter
    obtain ⟨hrest, htaken⟩ := hleft.mp hafter.rules
    exact ⟨hcurrent.mp hafter.current, (hkept.mp hafter.keys).2, hrest, htaken⟩
  · intro hspares
    have hnot : sync.emptied member.nodeUsername = false := by
      rw [← Bool.not_eq_true]
      exact fun hyes => Bool.false_ne_true (hspares.current.symm.trans (hemptied hyes))
    exact ⟨hpresent, hcurrent.mpr hspares.current, hkept.mpr ⟨hnot, hspares.keys⟩,
      hleft.mpr ⟨hspares.rules, hspares.taken⟩⟩

variable (tools)

/-- **Two teams' syncs leave the same in either order, and the first leaves every person the access
the second team grants, exactly if their lists make the same of every account both write and the
first team's lists spare the person.** -/
theorem shared_node_iff (first second : TeamSync) (s : Accounts) :
    ((second.run tools).on ((first.run tools).on s) =
        (first.run tools).on ((second.run tools).on s) ∧
      ∀ member, second.Grants member →
        HasAccess tools second.teamServerId member (s member.nodeUsername) →
        HasAccess tools second.teamServerId member
          ((first.run tools).on s member.nodeUsername)) ↔
    (∀ name, Compatible (s name) (first.effect tools name) (second.effect tools name)) ∧
      ∀ member, second.Grants member →
        HasAccess tools second.teamServerId member (s member.nodeUsername) →
        first.Spares tools second.teamServerId member := by
  refine and_congr ?_ ?_
  · rw [funext_iff]
    refine forall_congr' fun name => ?_
    rw [on_apply, on_apply, on_apply, on_apply, ← effectOf_writes, ← effectOf_writes]
    exact after_comm_iff
      (orderly_sync tools first.teamServerId first.answers first.members first.pending name)
      (orderly_sync tools second.teamServerId second.answers second.members second.pending name)
  · refine forall₃_congr fun member ⟨_, _, _, hkey⟩ haccess => ?_
    rw [on_apply]
    exact hasAccess_after_iff hkey haccess (effectOf_writes first _)

end

/-! ## One person in two teams -/

/-- The viewer, as a team sees them that lets them write to consoles. -/
def operator : Member := { viewer with permissions := ["applications.console"] }

def viewingTeam : TeamSync := ⟨Uuid.max, allDone, .ok [viewer], .ok []⟩

def operatingTeam : TeamSync := ⟨Uuid.nil, allDone, .ok [operator], .ok []⟩

/-- The team the viewer has been removed from. -/
def formerTeam : TeamSync :=
  ⟨Uuid.max, allDone, .ok [], .ok [⟨Uuid.nil, Uuid.max, viewer.userId, viewer.email⟩]⟩

/-- The team that syncs last decides the rules, and leaving one team takes the access the other
still grants. -/
theorem teams_interfere :
    let run := fun team : TeamSync => team.run consoleNode
    let name := viewer.nodeUsername
    let start : Accounts := fun _ => noAccount
    let served := (run operatingTeam).on start
    ((run viewingTeam).on served name).rules = [] ∧
      ((run operatingTeam).on ((run viewingTeam).on start) name).rules ≠ [] ∧
      operatingTeam.Grants operator ∧
      HasAccess consoleNode operatingTeam.teamServerId operator (served name) ∧
      ((run formerTeam).on served name).expired = true ∧
      ((run formerTeam).on served name).keys = [] := by
  refine ⟨by decide, by decide, ⟨_, rfl, List.mem_singleton.mpr rfl, by decide⟩,
    ⟨by decide, by decide, ?_, ?_⟩, by decide, by decide⟩
  · decide
  · decide

end VibeSsh.TeamAccess
