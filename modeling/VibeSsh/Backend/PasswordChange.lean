import VibeSsh.Backend.SingleUse

/-! # Sessions a password change ends

`change_password` and the reset's `confirm` set the password, then revoke the account's tokens. A
login or a rotation that looked at the account or at its token before that, and inserts its own
afterwards, keeps a session of the old password alive. -/

namespace VibeSsh.Backend.Auth

open Lib List Option

def UniqueAccounts (db : Accounts) : Prop :=
  ∀ a ∈ db.users, ∀ b ∈ db.users, a.id = b.id → a = b

/-- No login, rotation or change of an older password of the account is in flight. -/
def Quiet (userId : Uuid) (version : Nat) (w : World) : Prop :=
  ∀ task ∈ w.tasks, ∀ older, task.session = some (userId, older) → version ≤ older

/-! ## Accounts -/

section

variable {env : Env} {now : Int} {db : Accounts} {task : Task}

theorem UniqueAccounts.run (h : UniqueAccounts db) : UniqueAccounts (task.run env now db).1 := by
  rcases task.run_users env now db with hsame | ⟨userId, set, hsets, hrun⟩
  · intro a ha b hb hid
    rw [hsame] at ha hb
    exact h a ha b hb hid
  · intro a ha b hb hid
    rw [hrun] at ha hb
    obtain ⟨a', ha', rfl⟩ := mem_map.mp ha
    obtain ⟨b', hb', rfl⟩ := mem_map.mp hb
    have hkeeps : ∀ user : Account, (if user.id = userId then set user else user).id = user.id := by
      intro user
      split
      · exact Task.sets_id hsets user
      · rfl
    rw [hkeeps, hkeeps] at hid
    rw [h a' ha' b' hb' hid]

/-- A password's version never goes back. -/
theorem versionOf_le_run (userId : Uuid) :
    db.versionOf userId ≤ (task.run env now db).1.versionOf userId := by
  rcases task.run_users env now db with hsame | ⟨userId', set, hsets, hrun⟩
  · simp only [Accounts.versionOf, Accounts.userById, hsame, le_refl]
  · have hfind : (task.run env now db).1.userById userId =
        (db.updateUser userId' set).userById userId := by
      simp only [Accounts.userById, hrun]
    simp only [Accounts.versionOf, hfind, userById_updateUser (Task.sets_id hsets)]
    cases db.userById userId with
    | none => simp
    | some user =>
      simp only [map_some, getD_some]
      split
      · unfold Task.sets at hsets
        split at hsets <;> cases hsets <;>
          simp [Account.withPassword, Account.enabled, Account.disabled]
      · exact le_rfl

theorem UniqueAccounts.userById (h : UniqueAccounts db) {user : Account} (huser : user ∈ db.users) :
    db.userById user.id = some user := by
  have hsome : (db.userById user.id).isSome = true := by
    simpa [Accounts.userById] using ⟨user, huser, rfl⟩
  obtain ⟨found, hfound⟩ := isSome_iff_exists.mp hsome
  have hid : found.id = user.id := by simpa using List.find?_some hfound
  rw [hfound, h found (mem_of_find?_eq_some hfound) user huser hid]

end

/-! ## Changes in flight -/

/-- Accounts are unique, and a change in flight knows no later version than the account has. -/
structure Versioned (w : World) : Prop where
  unique : UniqueAccounts w.db
  revoking : ∀ userId version fresh, .revokingAll userId version fresh ∈ w.tasks →
    version ≤ w.db.versionOf userId

theorem Versioned.next {w : World} (h : Versioned w) (env : Env) (e : Event) :
    Versioned (w.next env e) := by
  rcases w.next_cases env e with ⟨i, now, task, -, -, hnext⟩ | ⟨hdb, htasks⟩
  · rw [hnext]
    refine ⟨h.unique.run, fun userId version fresh hmem => ?_⟩
    rcases mem_advanced hmem with hmem | hmore
    · exact (h.revoking userId version fresh hmem).trans (versionOf_le_run userId)
    · cases Task.leads hmore with
      | other hplain => cases hplain
      | passwordSet => exact le_rfl
      | reset => exact le_rfl
  · refine ⟨by rw [hdb]; exact h.unique, fun userId version fresh hmem => ?_⟩
    rw [hdb]
    rcases htasks _ hmem with hmem | ⟨request, hfirst⟩
    · exact h.revoking userId version fresh hmem
    · cases request <;> cases hfirst

/-! ## Ended sessions -/

/-- Nothing of the account is older than a version of its password. -/
structure Ended (userId : Uuid) (version : Nat) (w : World) : Prop where
  tokens : ∀ token ∈ w.db.refreshTokens, token.userId = userId → token.revokedAt = none →
    version ≤ token.version
  quiet : Quiet userId version w
  account : version ≤ w.db.versionOf userId

section

variable {env : Env} {now : Int} {w : World} {userId : Uuid} {version : Nat}

/-- What a statement leads to is no older than what it found. -/
theorem Ended.leads (h : Ended userId version w) (hunique : UniqueAccounts w.db) {task task' : Task}
    (htask : task ∈ w.tasks) (hmore : (task.run env now w.db).2 = .more task') {older : Nat}
    (hsession : task'.session = some (userId, older)) : version ≤ older := by
  cases Task.leads hmore with
  | other _ hopens =>
    rcases hopens _ hsession with hcarried | ⟨user, huser, heq⟩
    · exact h.quiet _ htask older hcarried
    · obtain ⟨rfl, rfl⟩ := Prod.mk.inj heq
      simpa [Accounts.versionOf, hunique.userById huser] using h.account
  | refresh hrow hlive =>
    obtain ⟨hid, rfl⟩ := Prod.mk.inj (some.inj hsession)
    exact h.tokens _ hrow hid hlive
  | @passwordSet account newHash fresh =>
    obtain ⟨rfl, rfl⟩ := Prod.mk.inj (some.inj hsession)
    exact h.account.trans
      (@versionOf_le_run env now w.db (.settingPassword account newHash fresh) account)
  | reset => cases hsession

theorem Ended.next (h : Ended userId version w) (hw : Versioned w) (env : Env) (e : Event) :
    Ended userId version (w.next env e) := by
  rcases w.next_cases env e with ⟨i, now, task, -, hi, hnext⟩ | ⟨hdb, htasks⟩
  · rw [hnext]
    have htask := mem_of_getElem? hi
    refine ⟨fun token htoken hid hlive => ?_, fun task' htask' older hsession => ?_,
      h.account.trans (versionOf_le_run userId)⟩
    · obtain ⟨which, inserted, htokens, hinserted⟩ := task.run_tokens_eq env now w.db
      rw [htokens, mem_append, mem_toList] at htoken
      rcases htoken with hnew | hold
      · cases (hinserted token hnew).1 with
        | issued huser hversion _ | rotated huser hversion _ =>
          exact h.quiet _ htask _ (by rw [← hid, huser, hversion]; rfl)
      · obtain ⟨token', htoken', rfl⟩ := mem_map.mp hold
        rw [revokedBy_userId] at hid
        rw [revokedBy_version]
        refine h.tokens token' htoken' hid ?_
        unfold revokedBy at hlive
        split_ifs at hlive
        · exact hlive
    · rcases mem_advanced htask' with htask' | hmore
      · exact h.quiet task' htask' older hsession
      · exact h.leads hw.unique htask hmore hsession
  · refine ⟨by rw [hdb]; exact h.tokens, fun task htask older hsession => ?_,
      by rw [hdb]; exact h.account⟩
    rcases htasks task htask with htask | ⟨request, rfl⟩
    · exact h.quiet task htask older hsession
    · cases request <;> cases hsession

/-- The statement that revokes an account's tokens leaves none, and ends what is older where nothing
older is in flight. -/
theorem revokingAll_ends {i : Nat} {fresh : Option Fresh}
    (hi : w.tasks[i]? = some (.revokingAll userId version fresh)) (hw : Versioned w)
    (hquiet : Quiet userId version w) :
    (∀ token ∈ (w.next env (.run i now)).db.refreshTokens, token.userId = userId →
      token.revokedAt.isSome = true) ∧ Ended userId version (w.next env (.run i now)) := by
  have hnext : w.next env (.run i now) = ⟨revokeAllForUser now w.db userId,
      advanced w.tasks i ((Task.revokingAll userId version fresh).run env now w.db).2⟩ := by
    simp [World.next, hi, Task.run]
  rw [hnext]
  have hrevoked : ∀ token ∈ (revokeAllForUser now w.db userId).refreshTokens,
      token.userId = userId → token.revokedAt.isSome = true := by
    intro token htoken hid
    obtain ⟨old, -, rfl⟩ := mem_map.mp htoken
    split
    · rfl
    · next hnot =>
      have hid' : old.userId = userId := by simpa [hnot] using hid
      simpa [hid', ← isSome_iff_ne_none] using hnot
  refine ⟨hrevoked, fun token htoken hid hlive => ?_, fun task htask older hsession => ?_,
    hw.revoking userId version fresh (mem_of_getElem? hi)⟩
  · have hsome := hrevoked token htoken hid
    rw [hlive] at hsome
    cases hsome
  · rcases mem_advanced htask with htask | hmore
    · exact hquiet task htask older hsession
    · cases fresh with
      | none => cases hmore
      | some fresh =>
        obtain rfl := Next.more.inj hmore
        obtain ⟨-, rfl⟩ := Prod.mk.inj (some.inj hsession)
        exact le_rfl

end

/-- **A password change ends the sessions before it**, where no login, rotation or change with an
older password of the account is in flight as its tokens are revoked. -/
theorem password_change_ends_sessions (env : Env) (db : Accounts)
    (before after : List (Transition World Event)) (x : Transition World Event) (w : World)
    (userId : Uuid) (version i : Nat) (now : Int) (fresh : Option Fresh) (hdb : UniqueAccounts db)
    (h : Runs env ⟨db, []⟩ (before ++ x :: after) w) (hlabel : x.label = .run i now)
    (hchange : x.pre.tasks[i]? = some (.revokingAll userId version fresh))
    (hquiet : Quiet userId version x.pre) :
    (∀ token ∈ x.post.db.refreshTokens, token.userId = userId → token.revokedAt.isSome = true) ∧
      ∀ raw now' fresh' row, verifyToken env now' w.db raw fresh' = .more (.rotating row fresh') →
        row.userId = userId → version ≤ row.version := by
  obtain ⟨hbefore, hx, hafter⟩ := h.split
  have hkeeps : ∀ {s e t}, Versioned s → True → t = World.next env s e → Versioned t := by
    rintro s e t hs - rfl
    exact hs.next env e
  have hpre : Versioned x.pre :=
    (hbefore.invariant Versioned (fun _ _ => True) hkeeps ⟨hdb, by simp⟩ (by simp)).1
  rw [hlabel] at hx
  obtain ⟨hrevoked, hended⟩ := @revokingAll_ends env now x.pre userId version i fresh hchange hpre
    hquiet
  rw [← hx] at hrevoked hended
  refine ⟨hrevoked, fun raw now' fresh' row hverify hid => ?_⟩
  have hend := (hafter.invariant (fun s => Versioned s ∧ Ended userId version s) (fun _ _ => True)
    (by
      rintro s e t ⟨hs, hended⟩ - rfl
      exact ⟨hs.next env e, hended.next hs env e⟩)
    ⟨by rw [hx]; exact hpre.next env _, hended⟩ (by simp)).1
  obtain ⟨row', hrow, hlive, heq⟩ := verifyToken_more hverify
  cases heq
  exact hend.2.tokens row hrow hid hlive

def ada : Uuid := .repeated 1

def change : Request :=
  .changePassword ada "secret one" "secret two" "secret two" thirdToken

/-- The session is renewed, and then its password changed, up to the statement that revokes. -/
def renewThenChange : List Event :=
  [.arrive (.refresh "first" secondToken), .run 0 1, .run 0 2, .arrive change, .run 0 3,
    .run 0 4]

def renewedThenChanged : World := renewThenChange.foldl (World.next .plain) ⟨oneSession, []⟩

/-- The same change, while the renewal has only read its token. -/
def changeWhileRenewing : List Event :=
  [.arrive (.refresh "first" secondToken), .run 0 1, .arrive change, .run 0 3, .run 0 4]

def changedWhileRenewing : World :=
  changeWhileRenewing.foldl (World.next .plain) ⟨oneSession, []⟩

theorem oneSession_unique : UniqueAccounts oneSession := by
  unfold UniqueAccounts
  decide

theorem renewed_session_ends :
    renewedThenChanged.tasks = [.revokingAll ada 1 (some thirdToken)] ∧
      ∀ raw now fresh row,
        verifyToken .plain now
          ([.run 0 6].foldl (World.next .plain) (renewedThenChanged.next .plain (.run 0 5))).db raw
            fresh = .more (.rotating row fresh) → row.userId = ada → 1 ≤ row.version := by
  have htasks : renewedThenChanged.tasks = [.revokingAll ada 1 (some thirdToken)] := by
    decide
  refine ⟨htasks, ?_⟩
  have hrun := (run_traceOf (World.next .plain) ⟨oneSession, []⟩ renewThenChange).append
    (.cons (a := .run 0 5) rfl (run_traceOf (World.next .plain) _ [.run 0 6]))
  refine (password_change_ends_sessions .plain oneSession _ _ _ _ ada 1 0 5 (some thirdToken)
    oneSession_unique hrun rfl ?_ ?_).2
  · change renewedThenChanged.tasks[0]? = _
    rw [htasks]
    rfl
  · intro task htask older hsession
    change task ∈ renewedThenChanged.tasks at htask
    rw [htasks, mem_singleton] at htask
    subst htask
    cases hsession
    exact le_rfl

/-- The renewal commits after the change has revoked every token and returned: its token, of the
session before the change, is accepted. -/
theorem renewal_outlives_change :
    UniqueAccounts oneSession ∧
      Runs .plain ⟨oneSession, []⟩
        (traceOf (World.next .plain) ⟨oneSession, []⟩ changeWhileRenewing ++
          ⟨changedWhileRenewing, .run 0 5, changedWhileRenewing.next .plain (.run 0 5)⟩ ::
          traceOf (World.next .plain) (changedWhileRenewing.next .plain (.run 0 5))
            [.run 0 6, .run 0 7])
        ([.run 0 6, .run 0 7].foldl (World.next .plain)
          (changedWhileRenewing.next .plain (.run 0 5))) ∧
      changedWhileRenewing.tasks.head? = some (.revokingAll ada 1 (some thirdToken)) ∧
      ([.run 0 6, .run 0 7].foldl (World.next .plain)
        (changedWhileRenewing.next .plain (.run 0 5))).tasks = [] ∧
      verifyToken .plain 8
        ([.run 0 6, .run 0 7].foldl (World.next .plain)
          (changedWhileRenewing.next .plain (.run 0 5))).db
        "second" thirdToken =
          .more (.rotating ⟨secondToken.id, ada, "second", 7, 7 + refreshTokenTtl, none, 0,
            some ⟨List.replicate 32 'a', by decide⟩⟩ thirdToken) := by
  refine ⟨oneSession_unique, ?_, by decide, by decide, by decide⟩
  exact (run_traceOf (World.next .plain) ⟨oneSession, []⟩ changeWhileRenewing).append
    (.cons rfl (run_traceOf (World.next .plain) _ [.run 0 6, .run 0 7]))

end VibeSsh.Backend.Auth
