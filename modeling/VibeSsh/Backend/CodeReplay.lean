import VibeSsh.Backend.TwoFactor

/-! # Codes are used once

`check_second_factor` reads the last step and verifies a code against it in one statement, and
records the step, or spends the recovery code, in another. Whatever runs in between, the second
statement takes only what nothing recorded since rules out. -/

namespace VibeSsh.Backend.Auth

open Lib List

/-! ## What is accepted -/

inductive Accepted where
  | step (n : Int)
  | recoveryCode (codeHash : Text)
  deriving DecidableEq

/-- What may be accepted after what. -/
def Accepted.Before : Accepted → Accepted → Prop
  | .step n, .step m => n < m
  | .recoveryCode codeHash, .recoveryCode codeHash' => codeHash ≠ codeHash'
  | _, _ => True

/-- What the next step accepts as the second factor of an account. -/
def accepted (userId : Uuid) (w : World) : Event → Option Accepted
  | .run i now =>
    match w.tasks[i]? with
    | some (.useCode id step after) =>
      if id = userId ∧ (recordCode w.db id step after).2 = after.next id then some (.step step)
      else none
    | some (.useRecoveryCode id codeHash after) =>
      if id = userId ∧ (spendRecoveryCode now w.db id codeHash after).2 = after.next id then
        some (.recoveryCode codeHash)
      else none
    | _ => none
  | _ => none

/-- The next step turns an account's second factor on or off. -/
def enrols (env : Env) (userId : Uuid) (w : World) : Event → Bool
  | .run i now =>
    match w.tasks[i]? with
    | some (.enabling id _ step codes) => id = userId ∧ (enable env now w.db id step codes).2 = .done
    | some (.disabling id) => id = userId
    | _ => false
  | _ => false

/-- A step checked a code of an account against its secret and let it pass as that of time step `n`,
which is at most one step off the time it was checked at. -/
def ChecksCode (env : Env) (userId : Uuid) (n : Int) (x : Transition World Event) : Prop :=
  ∃ i now totpCode recoveryCode after, x.label = .run i now ∧
    x.pre.tasks[i]? = some (.factor userId totpCode recoveryCode after) ∧
    checkSecondFactor env now x.pre.db userId totpCode recoveryCode after =
      .more (.useCode userId n after) ∧ |n - now / stepSeconds| ≤ skewSteps

/-! ## What is ruled out -/

def Accounts.lastStep (db : Accounts) (userId : Uuid) : Option Int :=
  (db.userById userId).bind (·.totpLastStep)

/-- Nothing that comes before it, or is the same, is accepted any more. -/
def Spent (userId : Uuid) (db : Accounts) : Accepted → Prop
  | .step n => ∃ last ∈ db.lastStep userId, n ≤ last
  | .recoveryCode codeHash => ∀ code ∈ db.recoveryCodes, code.userId = userId →
    code.codeHash = codeHash → code.usedAt ≠ none

section

variable {env : Env} {userId id : Uuid} {db : Accounts} {w : World} {e : Event} {i : Nat} {now : Int}
  {task : Task}

theorem lastStep_updateUser {set : Account → Account} (hid : ∀ user, (set user).id = user.id)
    (h : id = userId → ∀ user, (set user).totpLastStep = user.totpLastStep) :
    (db.updateUser id set).lastStep userId = db.lastStep userId := by
  rw [Accounts.lastStep, Accounts.lastStep, userById_updateUser hid]
  cases hfind : db.userById userId with
  | none => rfl
  | some user =>
    have huser : user.id = userId := by simpa using List.find?_some hfind
    simp only [Option.map_some, Option.bind_some]
    split
    · next heq => exact h (heq.symm.trans huser) user
    · rfl

theorem recordCode_cases (db : Accounts) (userId : Uuid) (step : Int) (after : After) :
    (recordCode db userId step after).1 = db ∧
      (recordCode db userId step after).2 ≠ after.next userId ∨
    (∀ last ∈ db.lastStep userId, last < step) ∧
      (recordCode db userId step after).1.lastStep userId = some step := by
  have hmore : ∀ error, Next.refused error ≠ after.next userId := by cases after <;> simp [After.next]
  unfold recordCode
  split
  · exact .inl ⟨rfl, hmore _⟩
  next user hfind =>
  have huser : user.id = userId := by simpa using List.find?_some hfind
  split
  · next hlast =>
    refine .inr ⟨?_, ?_⟩
    · simpa [Accounts.lastStep, hfind, Option.all_eq_true] using hlast
    · dsimp only
      rw [Accounts.lastStep, userById_updateUser (by intro; rfl), hfind]
      simp [huser]
  · exact .inl ⟨rfl, hmore _⟩

/-- **A statement that keeps the enrolment leaves the last step or moves it on.** -/
theorem lastStep_run (hi : w.tasks[i]? = some task) (h : enrols env userId w (.run i now) = false) :
    (task.run env now w.db).1.lastStep userId = w.db.lastStep userId ∨
      ∃ step, (∀ last ∈ w.db.lastStep userId, last < step) ∧
        (task.run env now w.db).1.lastStep userId = some step := by
  rcases task.run_users env now w.db with hsame | ⟨id, set, hsets, hrun⟩
  · simp only [Accounts.lastStep, Accounts.userById, hsame, true_or]
  have hlast : (task.run env now w.db).1.lastStep userId = (w.db.updateUser id set).lastStep userId := by
    simp only [Accounts.lastStep, Accounts.userById, hrun]
  have hid := Task.sets_id hsets
  by_cases hne : id = userId
  · subst hne
    cases task with
    | useCode _ step after =>
      cases hsets
      rcases recordCode_cases w.db id step after with ⟨hsame, -⟩ | hstep
      · exact .inl (congrArg (·.lastStep id) hsame)
      · exact .inr ⟨step, hstep⟩
    | enabling _ read step codes =>
      cases hsets
      left
      simp only [enrols, hi, true_and, decide_eq_false_iff_not, Task.run, enable] at h ⊢
      split at h
      · exact absurd rfl h
      · next hdup => rw [if_neg hdup]
    | disabling => cases hsets; simp [enrols, hi] at h
    | _ =>
      cases hsets
      try exact .inl (hlast.trans (lastStep_updateUser hid fun _ _ => rfl))
  · exact .inl (hlast.trans (lastStep_updateUser hid fun heq => absurd heq hne))

/-- **A statement that keeps the enrolment gives an account no recovery code.** -/
theorem recoveryCodes_run (hi : w.tasks[i]? = some task)
    (h : enrols env userId w (.run i now) = false) :
    ∀ code ∈ (task.run env now w.db).1.recoveryCodes, code.userId = userId → code.usedAt = none →
      code ∈ w.db.recoveryCodes := by
  intro code hcode huser hunused
  cases task with
  | start request => cases request <;> exact hcode
  | issue account version fresh =>
    rcases issueToken_cases env now w.db account version fresh with hsame | hok
    · exact congrArg Accounts.recoveryCodes hsame ▸ hcode
    · exact congrArg Accounts.recoveryCodes (insertToken_ok hok).2 ▸ hcode
  | rotating row fresh =>
    rcases rotateToken_cases env now w.db row fresh with ⟨hsame, -⟩ | ⟨-, hok⟩
    · exact congrArg Accounts.recoveryCodes hsame ▸ hcode
    · exact congrArg Accounts.recoveryCodes (insertToken_ok hok).2 ▸ hcode
  | useRecoveryCode account codeHash after =>
    simp only [Task.run, spendRecoveryCode] at hcode
    split at hcode
    · obtain ⟨old, hold, rfl⟩ := mem_map.mp hcode
      split_ifs at hunused
      · next hother => rwa [if_neg hother]
    · exact hcode
  | enabling account read step codes =>
    simp only [enrols, hi, Task.run, enable] at h hcode
    split at hcode
    · next hnodup =>
      rcases mem_append.mp hcode with hnew | hold
      · obtain ⟨_, -, rfl⟩ := mem_map.mp hnew
        simp [hnodup, show account = userId from huser] at h
      · exact mem_of_mem_filter hold
    · exact hcode
  | disabling account => exact mem_of_mem_filter hcode
  | _ =>
    simp only [Task.run, recordCode, insertReset, spendReset] at hcode
    repeat' split at hcode
    all_goals exact hcode

/-! ## One step -/

theorem Spent.next {a : Accepted} (h : Spent userId w.db a) (hkeeps : enrols env userId w e = false) :
    Spent userId (w.next env e).db a := by
  rcases w.next_cases env e with ⟨i, now, task, rfl, hi, hnext⟩ | ⟨hdb, -⟩
  · rw [hnext]
    cases a with
    | step n =>
      obtain ⟨last, hlast, hn⟩ := h
      rcases lastStep_run hi hkeeps with hsame | ⟨step, hless, hstep⟩
      · exact ⟨last, hsame ▸ hlast, hn⟩
      · exact ⟨step, hstep, hn.trans (hless last hlast).le⟩
    | recoveryCode codeHash =>
      exact fun code hcode huser hhash hunused =>
        h code (recoveryCodes_run hi hkeeps code hcode huser hunused) huser hhash hunused
  · rwa [hdb]

/-- What is accepted is spent then, and comes after all that was spent. -/
theorem of_accepted {a : Accepted} (h : accepted userId w e = some a) :
    Spent userId (w.next env e).db a ∧ (∀ b, Spent userId w.db b → b.Before a) ∧
      ∀ n, a = .step n → ∃ after, .useCode userId n after ∈ w.tasks := by
  unfold accepted at h
  split at h
  · next i now =>
    split at h
    · next id step after hi =>
      split at h <;> cases h
      next hok =>
      obtain ⟨rfl, hok⟩ := hok
      have hstep := (recordCode_cases w.db id step after).resolve_left fun hsame => hsame.2 hok
      refine ⟨⟨step, by simpa [World.next, hi, Task.run] using hstep.2, le_rfl⟩, fun b hb => ?_,
        fun n hn => ⟨after, by cases hn; exact mem_of_getElem? hi⟩⟩
      cases b with
      | step n =>
        obtain ⟨last, hlast, hn⟩ := hb
        exact hn.trans_lt (hstep.1 last hlast)
      | recoveryCode codeHash => trivial
    · next id codeHash after hi =>
      split at h <;> cases h
      next hok =>
      obtain ⟨rfl, hok⟩ := hok
      simp only [spendRecoveryCode] at hok
      split at hok
      · next hany =>
        refine ⟨fun code hcode huser hhash hunused => ?_, fun b hb => ?_, fun n hn => by cases hn⟩
        · simp only [World.next, hi, Task.run, spendRecoveryCode, if_pos hany] at hcode
          obtain ⟨old, -, rfl⟩ := mem_map.mp hcode
          split at hunused
          · cases hunused
          · next hother =>
            rw [if_neg hother] at huser hhash
            exact hother ⟨huser, hhash, hunused⟩
        · obtain ⟨code, hcode, huser, hhash, hunused⟩ := by simpa using hany
          cases b with
          | step n => trivial
          | recoveryCode spent =>
            rintro rfl
            exact hb code hcode huser hhash hunused
      · cases after <;> cases hok
    · cases h
  · cases h

theorem checksCode_of_useCode {n : Int} {after : After}
    (hrun : (task.run env now db).2 = .more (.useCode userId n after)) :
    ∃ totpCode recoveryCode, task = .factor userId totpCode recoveryCode after ∧
      |n - now / stepSeconds| ≤ skewSteps := by
  cases task with
  | factor id totpCode recoveryCode after' =>
    simp only [Task.run, checkSecondFactor] at hrun
    split at hrun
    · cases hrun
    split at hrun
    · cases after' <;> cases hrun
    split at hrun
    · repeat' split at hrun
      all_goals cases hrun
      next hverify =>
      refine ⟨totpCode, recoveryCode, rfl, ?_⟩
      unfold verify at hverify
      dsimp only at hverify
      split at hverify
      · cases hverify
      · have hmem := mem_of_mem_filter (mem_of_find?_eq_some hverify)
        simp only [mem_cons, not_mem_nil, or_false] at hmem
        rcases hmem with rfl | rfl | rfl <;> simp [skewSteps]
    · split at hrun <;> cases hrun
  | start request =>
    cases request <;>
      simp only [Task.run, login, verifyToken, changePassword, resetRequest, confirmReset,
        twoFactorSetup, twoFactorEnable, twoFactorDisable] at hrun
    all_goals repeat' split at hrun
    all_goals cases hrun
  | useCode _ _ after' | useRecoveryCode _ _ after' =>
    simp only [Task.run, recordCode, spendRecoveryCode] at hrun
    repeat' split at hrun
    all_goals first | cases hrun | (cases after' <;> cases hrun)
  | _ =>
    simp only [Task.run, authUser, issueToken, rotateToken, insertReset, findReset, spendReset,
      enable] at hrun
    repeat' split at hrun
    all_goals cases hrun

end

/-! ## Runs -/

/-- **Every step and every recovery code is accepted once.** While an account's enrolment stays,
each step accepted is later than those before it, no recovery code is accepted twice, and a step is
at most one off the time of its check. -/
theorem second_factor_used_once {env : Env} {db : Accounts} {w u : World}
    {before during : List (Transition World Event)} {userId : Uuid}
    (hbefore : Runs env ⟨db, []⟩ before w) (hduring : Runs env w during u)
    (henrolled : ∀ x ∈ during, enrols env userId x.pre x.label = false) :
    during.Pairwise (fun x y => ∀ a ∈ accepted userId x.pre x.label,
      ∀ b ∈ accepted userId y.pre y.label, a.Before b) ∧
    ∀ earlier x later n, during = earlier ++ x :: later →
      .step n ∈ accepted userId x.pre x.label → ∃ y ∈ before ++ earlier, ChecksCode env userId n y := by
  constructor
  · have honce := Run.pairwise (fun _ => True) (fun w e => enrols env userId w e = false)
      (fun _ _ _ => trivial) (fun a w e => accepted userId w e = some a)
      (fun a w => Spent userId w.db a) Accepted.Before
      (by rintro a w e t - rfl ha; exact (of_accepted ha).1)
      (by rintro a w e t hok rfl ha; exact ha.next hok)
      (fun _ _ ha hb => (@of_accepted env _ _ _ _ hb).2.1 _ ha) hduring trivial henrolled
    exact honce.imp fun hxy a ha b hb => hxy a b ha hb
  · rintro earlier x later n rfl hx
    have hrun := hbefore.append hduring.split.1
    obtain ⟨after, hmem⟩ := (@of_accepted env _ _ _ _ hx).2.2 n rfl
    obtain ⟨_, y, _, htrace, -, hstep, hpre, hpost⟩ := hrun.exists_begin
      (fun w => .useCode userId n after ∈ w.tasks) (by simp) hmem
    refine ⟨y, htrace ▸ by simp, ?_⟩
    rcases y.pre.next_cases env y.label with ⟨i, now, task, hlabel, hi, hnext⟩ | ⟨-, htasks⟩
    · rw [hstep, hnext] at hpost
      have hmore := (mem_advanced hpost).resolve_left hpre
      obtain ⟨totpCode, recoveryCode, rfl, hn⟩ := checksCode_of_useCode hmore
      exact ⟨i, now, totpCode, recoveryCode, after, hlabel, hi, hmore, hn⟩
    · rw [hstep] at hpost
      rcases htasks _ hpost with hold | ⟨request, hfirst⟩
      · exact absurd hold hpre
      · cases request <;> cases hfirst

def enrolled : Accounts :=
  { oneSession with
    users := [⟨ada, "ada@example.org", "secret one", false, some "key", none, some 0, none, 0⟩] }

/-- Two logins with one code, both checked before either of them records it. -/
def racingLogins : List Event :=
  [.arrive (.login "ada@example.org" "secret one" (some "000000") none secondToken),
    .arrive (.login "ada@example.org" "secret one" (some "000000") none thirdToken),
    .run 0 60, .run 1 60, .run 0 60, .run 1 60, .run 0 61, .run 1 61]

theorem racing_logins_use_code_once :
    ((traceOf (World.next .plain) ⟨enrolled, []⟩ racingLogins).filterMap fun x =>
      accepted ada x.pre x.label) = [.step 1] ∧
    (traceOf (World.next .plain) ⟨enrolled, []⟩ racingLogins).Pairwise fun x y =>
      ∀ a ∈ accepted ada x.pre x.label, ∀ b ∈ accepted ada y.pre y.label, a.Before b :=
  ⟨by decide, (second_factor_used_once (.nil _) (run_traceOf _ _ racingLogins)
    (by decide)).1⟩

end VibeSsh.Backend.Auth
