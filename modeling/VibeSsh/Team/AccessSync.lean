import VibeSsh.Team.Access

/-! # What a sync leaves on a Node

The writes of a grant are the start of one fixed list, and all of it where the grant is reported;
the same for a revocation. -/

namespace VibeSsh.TeamAccess

open Lib Command MemberSudoers List Bool MemberAccount

/-! ## Scripts -/

/-- What is written is the start of a list, and all of it if nothing fails. -/
def Scripts.Follows {α : Type} (m : Scripts α) (writes : List Write) : Prop :=
  m.writes <+: writes ∧ ∀ x, m.result = .ok x → m.writes = writes

theorem follows_lift {α : Type} (r : AppResult α) : (Scripts.lift r).Follows [] :=
  ⟨prefix_rfl, fun _ _ => rfl⟩

theorem follows_run (outcome : Outcome) (writes : List Write) :
    (Scripts.run outcome writes).Follows writes := by
  cases outcome with
  | done => exact ⟨prefix_rfl, fun _ _ => rfl⟩
  | failed e after =>
    have hstart := take_prefix after writes
    exact ⟨hstart, nofun⟩

theorem follows_bind {α β : Type} {m : Scripts α} {f : α → Scripts β} {xs ys : List Write}
    (hm : m.Follows xs) (hf : ∀ x, m.result = .ok x → (f x).Follows ys) :
    (m >>= f).Follows (xs ++ ys) := by
  rcases m with ⟨e | x, writes⟩
  · exact ⟨hm.1.trans (prefix_append xs ys), nofun⟩
  · obtain rfl : writes = xs := hm.2 x rfl
    obtain ⟨hstart, hall⟩ := hf x rfl
    exact ⟨(prefix_append_right_inj writes).mpr hstart,
      fun y hy => congrArg (writes ++ ·) (hall y hy)⟩

theorem follows_bind_lift {α β : Type} {r : AppResult α} {f : α → Scripts β} {ys : List Write}
    (hf : ∀ x, r = .ok x → (f x).Follows ys) : (Scripts.lift r >>= f).Follows ys :=
  follows_bind (follows_lift r) hf

/-! ## The rules of a member -/

theorem validate_nodeUsername (user : Uuid) (field : Text) :
    validateLinuxUsername (nodeUsername user) field = .ok () := by
  have hdigits : ∀ c ∈ user.simple.take 12,
      (c.isLower || c.isDigit || c == '_' || c == '-') = true := by
    intro c hc
    have hhex := all_eq_true.mp user.wf.2 c (mem_of_mem_take hc)
    simp only [or_eq_true, and_eq_true, decide_eq_true_eq] at hhex
    rcases hhex with hdigit | ⟨hlo, hhi⟩
    · simp [hdigit]
    · have : c.isLower = true := by
        simp only [Char.isLower, and_eq_true, decide_eq_true_eq]
        exact ⟨hlo, le_trans hhi (by decide)⟩
      simp [this]
  have hrest : (nodeUsername user).tail.all
      (fun c => c.isLower || c.isDigit || c == '_' || c == '-') = true := by
    unfold nodeUsername
    rw [tail_append_of_ne_nil (by decide), all_append, and_eq_true]
    exact ⟨by decide, all_eq_true.mpr hdigits⟩
  have hlength : ¬ 32 < (nodeUsername user).length := by
    have hten : "vibessh-m-".toList.length = 10 := by decide
    unfold nodeUsername
    rw [length_append, length_take, hten]
    omega
  have hhead : (nodeUsername user).head?.any (fun c => c.isLower || c == '_') = true := by
    unfold nodeUsername
    rw [List.head?_append_of_ne_nil _ (by decide)]
    decide
  unfold validateLinuxUsername
  dsimp only
  rw [hhead, hrest]
  simp [hlength]

section

variable (tools : MemberAccount.Node) (teamServerId : Uuid)

variable (permissions : List Text) (applications : List ApplicationRules) (rules : ApplicationRules)

/-- The lines of a member's file, whichever of its two forms the script takes. -/
theorem exists_sudoersScript {username : Text}
    (hname : validateLinuxUsername username "the member's account name" = .ok ()) :
    ∃ script, sudoersScript username permissions applications = .ok script ∧
      script.lines tools username = (MemberAccount.Script.install
          (roleHeader username (privilegeFor permissions) ++
            helperHeader username permissions ++
            consoleHeader username (besideRole (privilegeFor permissions) applications))
          (roleCommands (privilegeFor permissions) ++
            (besideRole (privilegeFor permissions) applications).flatMap (·.commands)).eraseDups
          (((besideRole (privilegeFor permissions) applications).filterMap
            ApplicationRules.files).map fun files =>
              (files.account, fileLine username files))).lines tools username := by
  unfold sudoersScript
  rw [hname]
  dsimp only [Bind.bind, Except.bind]
  split
  · next hempty =>
    simp only [and_eq_true, List.isEmpty_iff] at hempty
    obtain ⟨⟨hheader, hcommands⟩, hfiles⟩ := hempty
    refine ⟨_, rfl, ?_⟩
    rw [hheader, hcommands, hfiles]
    rfl
  · exact ⟨_, rfl, rfl⟩

theorem dropFileRule_console : (dropFileRule tools rules).console = rules.console := by
  unfold dropFileRule
  split
  · rfl
  · split <;> rfl

theorem dropFileRule_commands : (dropFileRule tools rules).commands = rules.commands := by
  unfold dropFileRule
  split
  · rfl
  · split <;> rfl

theorem dropFileRule_files :
    (dropFileRule tools rules).files =
      rules.files.filter fun files => tools.hasAccount files.account := by
  unfold dropFileRule
  cases hfiles : rules.files with
  | none => simp [hfiles]
  | some files =>
    by_cases haccount : tools.hasAccount files.account = true <;>
      simp [Option.filter, haccount, hfiles]

/-- A file rule for an account that is not there is not written either way. -/
theorem lines_dropFileRule {username : Text}
    (hname : validateLinuxUsername username "the member's account name" = .ok ())
    {dropped kept : MemberAccount.Script} (hdropped : sudoersScript username permissions
      (applications.map (dropFileRule tools)) = .ok dropped)
    (hkept : sudoersScript username permissions applications = .ok kept) :
    dropped.lines tools username = kept.lines tools username := by
  obtain ⟨_, hd, hdlines⟩ :=
    exists_sudoersScript tools permissions (applications.map (dropFileRule tools)) hname
  obtain ⟨_, hk, hklines⟩ := exists_sudoersScript tools permissions applications hname
  obtain rfl := Except.ok.inj (hdropped.symm.trans hd)
  obtain rfl := Except.ok.inj (hkept.symm.trans hk)
  rw [hdlines, hklines]
  have hbeside : besideRole (privilegeFor permissions)
      (applications.map (dropFileRule tools)) =
      (besideRole (privilegeFor permissions) applications).map
        (dropFileRule tools) := by
    cases privilegeFor permissions <;> rfl
  rw [hbeside]
  generalize besideRole (privilegeFor permissions) applications = beside
  have hfiles : (beside.filterMap fun rules =>
      rules.files.filter fun files => tools.hasAccount files.account) =
      (beside.filterMap ApplicationRules.files).filter fun files =>
        tools.hasAccount files.account := by
    rw [filter_filterMap]
  simp only [MemberAccount.Script.lines, consoleHeader, filterMap_map,
    Function.comp_def, dropFileRule_console, flatMap_map, dropFileRule_commands,
    dropFileRule_files, hfiles, filter_map, filter_filter, Bool.and_self]

/-- What the sudoers script of a grant writes, with the accounts looked up or not. -/
theorem lines_memberRules (listed : Bool) (member : Member) {script : MemberAccount.Script}
    (h : sudoersScript member.nodeUsername member.permissions
      (memberRules tools teamServerId listed member) = .ok script) :
    script.lines tools member.nodeUsername = rulesFor tools teamServerId member := by
  have hname := validate_nodeUsername member.userId "the member's account name"
  obtain ⟨kept, hkept, -⟩ := exists_sudoersScript tools member.permissions
    (applicationRulesOn teamServerId member) hname
  have hrules : rulesFor tools teamServerId member = kept.lines tools member.nodeUsername := by
    unfold rulesFor
    rw [show sudoersScript member.nodeUsername member.permissions
      (applicationRulesOn teamServerId member) = .ok kept from hkept]
  rw [hrules]
  cases listed with
  | true => exact lines_dropFileRule tools member.permissions _ hname h hkept
  | false => rw [Except.ok.inj (h.symm.trans hkept)]

/-! ## Grants and revocations -/

variable (a : Answers) (member : Member) (emptied : Uuid → Bool) (rows : List Revocation)

def keysLeft (member : Member) : List Text :=
  if a.landed member.userId then member.publicKeys else []

/-- Everything a grant writes. -/
def fullGrant (member : Member) : List Write :=
  [.create, .lift, .keys (keysLeft a member), .rules (rulesFor tools teamServerId member)]

theorem grantMember_follows :
    (grantMember tools teamServerId a member).Follows (fullGrant tools teamServerId a member) := by
  refine follows_bind_lift fun _ _ => follows_bind_lift fun _ _ => follows_bind_lift fun _ _ => ?_
  refine follows_bind (follows_run _ provisionScript) fun _ _ => ?_
  refine follows_bind_lift fun _ _ => ?_
  refine follows_bind (follows_run _ (authorizedKeysScript (a.landed member.userId)
    member.publicKeys)) fun _ _ => ?_
  refine follows_bind_lift fun script hscript => ?_
  rw [lines_memberRules tools teamServerId a.accountsListed member hscript]
  exact follows_run _ _

theorem revokeOne_follows (row : Revocation) :
    (revokeOne a row).Follows (revokeScript (a.emptied row.id)) := by
  refine follows_bind_lift fun _ _ => ?_
  have := follows_bind (follows_run (a.revoke row.id) (revokeScript (a.emptied row.id)))
    (f := fun _ => Scripts.lift (a.complete row.id)) fun _ _ => follows_lift _
  rwa [append_nil] at this

theorem syncMember_starts :
    (syncMember tools teamServerId a member).2 <+: fullGrant tools teamServerId a member := by
  unfold syncMember
  split
  · exact nil_prefix
  · exact (grantMember_follows tools teamServerId a member).1

/-- A member whose turn reports no error was skipped or granted in full. -/
theorem syncMember_of_no_error {member : Member}
    (h : (syncMember tools teamServerId a member).1.error = none) :
    (syncMember tools teamServerId a member).2 =
      if member.publicKeys.isEmpty then [] else fullGrant tools teamServerId a member := by
  unfold syncMember at h ⊢
  dsimp only at h ⊢
  split
  · rfl
  · next hkeys =>
    rw [if_neg hkeys] at h
    cases hresult : (grantMember tools teamServerId a member).result with
    | ok x => exact (grantMember_follows tools teamServerId a member).2 x hresult
    | error e =>
      rw [hresult] at h
      cases h

theorem orderly_grants (members : List Member) (name : Text) :
    Replay.under name (grantLog tools teamServerId a members) = [] ∨
      (Replay.under name (grantLog tools teamServerId a members)).head? = some .create := by
  unfold grantLog
  rw [Replay.under_flatMap]
  induction members.filter (·.nodeUsername = name) with
  | nil => exact .inl rfl
  | cons member rest ih =>
    rw [flatMap_cons]
    rcases hwrites : (syncMember tools teamServerId a member).2 with _ | ⟨w, ws⟩
    · exact ih
    · have hstart := syncMember_starts tools teamServerId a member
      rw [hwrites, fullGrant, cons_prefix_cons] at hstart
      exact .inr (by rw [hstart.1]; rfl)

theorem create_not_mem_revokeLog (name : Text) :
    Write.create ∉ Replay.under name (revokeLog a rows) := by
  unfold revokeLog
  rw [Replay.under_flatMap, mem_flatMap]
  rintro ⟨row, -, hmem⟩
  have hmem := (revokeOne_follows a row).1.subset hmem
  unfold revokeScript at hmem
  split at hmem <;> simp at hmem

theorem orderly_sync (members : AppResult (List Member)) (pending : AppResult (List Revocation))
    (name : Text) :
    Orderly (Replay.under name (syncTeamAccess tools teamServerId a members pending).log) := by
  obtain ⟨granted, revoked, hlog⟩ : ∃ granted revoked,
      (syncTeamAccess tools teamServerId a members pending).log =
        grantLog tools teamServerId a granted ++ revokeLog a revoked := by
    unfold syncTeamAccess
    split
    · exact ⟨[], [], rfl⟩
    · exact ⟨[], [], rfl⟩
    · exact ⟨_, [], (append_nil _).symm⟩
    · exact ⟨_, _, rfl⟩
  rw [hlog, Replay.under_append]
  intro hcreate
  rw [mem_append] at hcreate
  have hcreate := hcreate.resolve_right (create_not_mem_revokeLog a revoked name)
  rcases orderly_grants tools teamServerId a granted name with hnil | hhead
  · rw [hnil] at hcreate
    cases hcreate
  · rw [List.head?_append, hhead]
    rfl

/-! ## A sync that reports complete success -/

def grantee (members : List Member) (name : Text) : Option Member :=
  (members.filter fun member => !member.publicKeys.isEmpty && member.nodeUsername = name).getLast?

def revocationsOf (pending : List Revocation) (name : Text) : List Revocation :=
  (rowsOn teamServerId pending).filter (·.nodeUsername = name)

variable {tools teamServerId a} {members : List Member} {pending : List Revocation}
  {sync : NodeAccessSync}

theorem under_grantLog_of_no_error
    (h : ∀ member ∈ members, (syncMember tools teamServerId a member).1.error = none)
    (name : Text) :
    Replay.under name (grantLog tools teamServerId a members) =
      (members.filter fun member =>
        !member.publicKeys.isEmpty && member.nodeUsername = name).flatMap
          (fullGrant tools teamServerId a) := by
  unfold grantLog
  rw [Replay.under_flatMap]
  induction members with
  | nil => rfl
  | cons member rest ih =>
    have hfirst := syncMember_of_no_error tools teamServerId a (h member mem_cons_self)
    have hrest := ih fun m hm => h m (mem_cons_of_mem _ hm)
    by_cases hname : member.nodeUsername = name
    · by_cases hkeys : member.publicKeys.isEmpty = true
      · rw [if_pos hkeys] at hfirst
        rw [filter_cons_of_pos (by simpa using hname), flatMap_cons, hfirst, hrest,
          filter_cons_of_neg (by simp [hkeys]), nil_append]
      · rw [if_neg hkeys] at hfirst
        rw [filter_cons_of_pos (by simpa using hname), flatMap_cons, hfirst, hrest,
          filter_cons_of_pos (by simp [hkeys, hname]), flatMap_cons]
    · rw [filter_cons_of_neg (by simpa using hname), hrest,
        filter_cons_of_neg (by simp [hname])]

theorem grants_last (members : List Member) (name : Text) :
    lastKeys ((members.filter fun member =>
        !member.publicKeys.isEmpty && member.nodeUsername = name).flatMap
          (fullGrant tools teamServerId a)) = (grantee members name).map (keysLeft a) ∧
      lastRules ((members.filter fun member =>
        !member.publicKeys.isEmpty && member.nodeUsername = name).flatMap
          (fullGrant tools teamServerId a)) =
        (grantee members name).map (rulesFor tools teamServerId) :=
  ⟨Replay.last_flatMap (keysLeft a) (fun _ => rfl) _,
    Replay.last_flatMap (rulesFor tools teamServerId) (fun _ => rfl) _⟩

theorem create_mem_grants {members : List Member} {name : Text} :
    Write.create ∈ (members.filter fun member =>
        !member.publicKeys.isEmpty && member.nodeUsername = name).flatMap
          (fullGrant tools teamServerId a) ↔ (grantee members name).isSome := by
  unfold grantee
  rw [mem_flatMap, Option.isSome_iff_ne_none, Ne, List.getLast?_eq_none_iff]
  constructor
  · rintro ⟨member, hmem, -⟩
    exact ne_nil_of_mem hmem
  · intro hne
    obtain ⟨member, hmem⟩ := exists_mem_of_ne_nil _ hne
    exact ⟨member, hmem, mem_cons_self⟩

theorem revokes_lastRules :
    lastRules (rows.flatMap fun row => revokeScript (emptied row.id)) =
      if rows.isEmpty then none else some [] := by
  have hone : ∀ row : Revocation, lastRules (revokeScript (emptied row.id)) = some [] := by
    intro row
    cases emptied row.id <;> rfl
  have := Replay.last_flatMap (fun _ => []) hone rows
  rw [lastRules, this]
  cases rows using List.reverseRecOn <;> simp

theorem revokes_lastKeys :
    lastKeys (rows.flatMap fun row => revokeScript (emptied row.id)) =
      if rows.any (emptied ·.id) then some [] else none := by
  induction rows with
  | nil => rfl
  | cons row rows ih =>
    rw [flatMap_cons, lastKeys, Replay.last_append, ← lastKeys, ih, any_cons]
    cases emptied row.id <;> cases rows.any (emptied ·.id) <;> rfl

section

variable (s : Accounts)
  (hok : (syncTeamAccess tools teamServerId a (.ok members) (.ok pending)).result = .ok sync)
  (hcomplete : sync.complete = true) (name : Text)
include hok hcomplete

theorem under_of_complete :
    Replay.under name (syncTeamAccess tools teamServerId a (.ok members) (.ok pending)).log =
      (members.filter fun member =>
        !member.publicKeys.isEmpty && member.nodeUsername = name).flatMap
          (fullGrant tools teamServerId a) ++
      (revocationsOf teamServerId pending name).flatMap fun row =>
        revokeScript (a.emptied row.id) := by
  unfold syncTeamAccess at hok ⊢
  rcases hconnect : a.connect with e | u
  · rw [hconnect] at hok
    cases hok
  · rw [hconnect] at hok
    obtain rfl := Except.ok.inj hok
    simp only [NodeAccessSync.complete, and_eq_true, all_map, all_eq_true,
      Function.comp_apply, Option.isNone_iff_eq_none] at hcomplete
    obtain ⟨hmembers, hrows⟩ := hcomplete
    dsimp only
    rw [Replay.under_append, under_grantLog_of_no_error hmembers, revokeLog, Replay.under_flatMap]
    congr 1
    refine flatMap_congr fun row hrow => ?_
    have hok : (revokeOne a row).result.isOk = true := hrows row (mem_of_mem_filter hrow)
    cases hresult : (revokeOne a row).result with
    | ok x => exact (revokeOne_follows a row).2 x hresult
    | error e =>
      rw [hresult] at hok
      cases hok

theorem present_of_complete :
    ((syncTeamAccess tools teamServerId a (.ok members) (.ok pending)).on s name).present =
      ((s name).present || (grantee members name).isSome) := by
  rw [on_apply, present_after, under_of_complete hok hcomplete]
  congr 1
  rw [Bool.eq_iff_iff, decide_eq_true_eq, mem_append, create_mem_grants]
  refine or_iff_left fun hcreate => ?_
  obtain ⟨row, -, hmem⟩ := mem_flatMap.mp hcreate
  unfold revokeScript at hmem
  split at hmem <;> simp at hmem

theorem rules_of_complete :
    ((syncTeamAccess tools teamServerId a (.ok members) (.ok pending)).on s name).rules =
      if (revocationsOf teamServerId pending name).isEmpty = true then
        ((grantee members name).map (rulesFor tools teamServerId)).getD (s name).rules
      else [] := by
  rw [on_apply, rules_after, under_of_complete hok hcomplete, lastRules, Replay.last_append,
    ← lastRules, ← lastRules, revokes_lastRules, (grants_last members name).2]
  split <;> rfl

theorem keys_of_complete :
    ((syncTeamAccess tools teamServerId a (.ok members) (.ok pending)).on s name).keys =
      if ((revocationsOf teamServerId pending name).any (a.emptied ·.id) &&
          ((s name).present || (grantee members name).isSome)) = true then []
      else ((grantee members name).map (keysLeft a)).getD (s name).keys := by
  have horderly := orderly_sync tools teamServerId a (.ok members) (.ok pending) name
  have hpresent := present_of_complete s hok hcomplete name
  rw [on_apply, present_after] at hpresent
  rw [on_apply]
  by_cases hthere : ((s name).present || (grantee members name).isSome) = true
  · rw [(after_of_orderly horderly (hpresent.trans hthere)).1, under_of_complete hok hcomplete,
      lastKeys, Replay.last_append, ← lastKeys, ← lastKeys, revokes_lastKeys, (grants_last members name).1,
      hthere, Bool.and_true]
    split <;> rfl
  · rw [not_eq_true] at hthere
    have hnone : grantee members name = none := by
      rw [or_eq_false_iff] at hthere
      exact Option.isNone_iff_eq_none.mp (by simpa using hthere.2)
    rw [hthere, or_eq_false_iff] at hpresent
    rw [(after_of_absent hpresent.1 (of_decide_eq_false hpresent.2)).1, hthere, Bool.and_false,
      if_neg Bool.false_ne_true, hnone]
    rfl

end

/-! ## Whether a member is served -/

variable (tools teamServerId a)

/-- The account holds exactly what was published for the member, and exactly the rules their
permissions call for. -/
def Matches (member : Member) (account : Account) : Prop :=
  account.keys = member.publicKeys ∧ account.rules = rulesFor tools teamServerId member

/-- What decides a member's keys: a revocation of the same account that could empty the file, else
the last member with a key who uses the account, else what was there. -/
def KeysServed (members : List Member) (pending : List Revocation) (s : Accounts)
    (member : Member) : Prop :=
  let name := member.nodeUsername
  let granted := grantee members name
  if ((revocationsOf teamServerId pending name).any (a.emptied ·.id) &&
      ((s name).present || granted.isSome)) = true then member.publicKeys = []
  else (∀ last ∈ granted, keysLeft a last = member.publicKeys) ∧
    (granted = none → (s name).keys = member.publicKeys)

/-- The same for the sudo rules, which a revocation always takes. -/
def RulesServed (members : List Member) (pending : List Revocation) (s : Accounts)
    (member : Member) : Prop :=
  let name := member.nodeUsername
  let granted := grantee members name
  if (revocationsOf teamServerId pending name).isEmpty = true then
    (∀ last ∈ granted, rulesFor tools teamServerId last = rulesFor tools teamServerId member) ∧
      (granted = none → (s name).rules = rulesFor tools teamServerId member)
  else rulesFor tools teamServerId member = []

theorem getD_map_eq_iff {α β : Type} {o : Option α} {f : α → β} {x y : β} :
    (o.map f).getD x = y ↔ (∀ v ∈ o, f v = y) ∧ (o = none → x = y) := by
  cases o <;> simp

theorem matches_iff_of_complete (s : Accounts)
    (hok : (syncTeamAccess tools teamServerId a (.ok members) (.ok pending)).result = .ok sync)
    (hcomplete : sync.complete = true) (member : Member) :
    Matches tools teamServerId member
        ((syncTeamAccess tools teamServerId a (.ok members) (.ok pending)).on s
          member.nodeUsername) ↔
      KeysServed teamServerId a members pending s member ∧
        RulesServed tools teamServerId members pending s member := by
  refine and_congr ?_ ?_
  · rw [keys_of_complete s hok hcomplete, KeysServed]
    split
    · exact eq_comm
    · exact getD_map_eq_iff
  · rw [rules_of_complete s hok hcomplete, RulesServed]
    split
    · exact getD_map_eq_iff
    · exact eq_comm

/-- **A sync that reports complete success has given a member their keys and rules exactly if the
account is theirs alone to be granted, and they have a key for it to be granted with or nothing of
theirs was left.** -/
theorem complete_sync_matches_iff (s : Accounts)
    (hok : (syncTeamAccess tools teamServerId a (.ok members) (.ok pending)).result = .ok sync)
    (hcomplete : sync.complete = true) :
    (∀ member ∈ members, Matches tools teamServerId member
        ((syncTeamAccess tools teamServerId a (.ok members) (.ok pending)).on s
          member.nodeUsername)) ↔
      ∀ member ∈ members, KeysServed teamServerId a members pending s member ∧
        RulesServed tools teamServerId members pending s member :=
  forall₂_congr fun member _ => matches_iff_of_complete tools teamServerId a s hok hcomplete member

end

/-! ## Two syncs -/

/-- A Node with no tools to name and none of the applications' accounts. -/
def bareNode : MemberAccount.Node :=
  ⟨["/usr/bin"], fun _ => false, fun _ => false, fun _ _ => false,
    usrBin_isWord⟩

def allDone : Answers where
  connect := .ok ()
  accountsListed := true
  consoleWriter := .ok ()
  firewallHelper := .ok ()
  provision _ := .done
  keys _ := .done
  landed _ := true
  sudoers _ := .done
  revoke _ := .done
  emptied _ := true
  complete _ := .ok ()

def noAccount : Account := ⟨false, [], [], false, fun _ => rfl⟩

/-- A person with a laptop, in a role that earns no sudo rules. -/
def viewer : Member := ⟨Uuid.nil, "a@b.c", ["ssh-ed25519 AAAA laptop"], [], []⟩

/-- A Node with the console writer in place. -/
def consoleNode : MemberAccount.Node :=
  { bareNode with executable := fun path => path == consoleWriterPath }

/-- The viewer and someone who writes to consoles, on a Node that has accounts of both with an older
key and an older rule, while a third person's access is taken back. -/
theorem team_served :
    let team := [viewer, { viewer with userId := Uuid.max, permissions := ["applications.console"] }]
    let before : Accounts := fun _ => ⟨true, ["ssh-ed25519 BBBB old"], ["old rule"], true, nofun⟩
    team.map (rulesFor consoleNode Uuid.max · |>.isEmpty) = [true, false] ∧
      ∀ member ∈ team, Matches consoleNode Uuid.max member
        ((syncTeamAccess consoleNode Uuid.max allDone (.ok team)
          (.ok [⟨Uuid.nil, Uuid.max, .repeated 5, "c@d.e"⟩])).on before member.nodeUsername) := by
  refine ⟨by decide, (complete_sync_matches_iff consoleNode Uuid.max allDone _ rfl
    (by decide)).mpr (forall_mem_cons.mpr ⟨?_, forall_mem_singleton.mpr ?_⟩)⟩
  all_goals
    unfold KeysServed RulesServed
    decide

/-- A person who withdrew their last key keeps it on the Node, and their rules, though the sync says
that all went well. -/
theorem withdrawn_key_survives :
    let former := { viewer with publicKeys := [] }
    let run := syncTeamAccess bareNode Uuid.max allDone (.ok [former]) (.ok [])
    let before : Accounts := fun _ => ⟨true, viewer.publicKeys, ["old rule".toList], false, nofun⟩
    (∃ sync, run.result = .ok sync ∧ sync.complete = true) ∧
      (run.on before former.nodeUsername).keys = viewer.publicKeys ∧
      (run.on before former.nodeUsername).rules = ["old rule".toList] ∧
      rulesFor bareNode Uuid.max former = [] ∧
      ¬ Matches bareNode Uuid.max former (run.on before former.nodeUsername) := by
  refine ⟨⟨_, rfl, by decide⟩, by decide, by decide, by decide, ?_⟩
  rintro ⟨hkeys, -⟩
  revert hkeys
  decide

end VibeSsh.TeamAccess
