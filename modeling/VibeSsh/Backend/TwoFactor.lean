import VibeSsh.Backend.PasswordChange

/-! # The second factor in every interleaving

`two_factor_enable` reads the pending secret and verifies a code against it, and then, in another
statement, makes whatever is pending at that time the active secret. A second enable in between
leaves nothing pending, so the factor is on with no secret, and a login passes without a code; a
second setup in between puts a secret in place that no code was verified against. -/

namespace VibeSsh.Backend.Auth

open Lib

/-! ## What was verified -/

/-- The account and the pending secret the next step verifies a code against. -/
def checked (env : Env) (w : World) : Event → Option (Uuid × Text)
  | .run i now =>
    match w.tasks[i]? with
    | some (.start (.twoFactorEnable userId code codes)) =>
      match twoFactorEnable env now w.db userId code codes with
      | .more (.enabling userId read _ _) => some (userId, read)
      | _ => none
    | _ => none
  | _ => none

/-- The service, with the secrets that codes have been verified against. -/
structure Watched where
  world : World
  verified : List (Uuid × Text)

def Watched.next (env : Env) (s : Watched) (e : Event) : Watched :=
  ⟨s.world.next env e, (checked env s.world e).toList ++ s.verified⟩

abbrev WatchedRuns (env : Env) := Run fun s e t => t = Watched.next env s e

/-! ## What the second factor is for -/

/-- An account's secret is stored and was verified, and a login in this state needs a code for it or a
recovery code. -/
structure Guarded (env : Env) (s : Watched) (user : Account) : Prop where
  secret : ∃ secret, user.totpSecret = some secret ∧ (user.id, secret) ∈ s.verified
  login : ∀ email password totpCode recoveryCode fresh task,
    Auth.login env s.world.db email password totpCode recoveryCode fresh = .more task →
      ∀ version, task ≠ .issue user.id version fresh
  code : ∀ now totpCode recoveryCode after task,
    checkSecondFactor env now s.world.db user.id totpCode recoveryCode after = .more task →
      (∃ given ∈ totpCode, ∃ stored ∈ user.totpSecret, ∃ secret ∈ env.decrypt user.id stored,
        ∃ step ∈ verify env secret (Text.trim given) now user.totpLastStep,
          task = .useCode user.id step after) ∨
      ∃ given ∈ recoveryCode,
        task = .useRecoveryCode user.id (env.hash (normalizeRecoveryCode given)) after
  recoveryCode : ∀ now codeHash after task,
    (spendRecoveryCode now s.world.db user.id codeHash after).2 = .more task →
      ∃ code ∈ s.world.db.recoveryCodes, code.userId = user.id ∧ code.codeHash = codeHash ∧
        code.usedAt = none

/-- After a step every enabled account is guarded, and its secret is the one it had if it was enabled
before. -/
structure KeepsFactor (env : Env) (s t : Watched) : Prop where
  guarded : ∀ user ∈ t.world.db.users, user.twoFactorEnabled = true → Guarded env t user
  same : ∀ a ∈ s.world.db.users, ∀ b ∈ t.world.db.users, a.id = b.id →
    a.twoFactorEnabled = true → b.twoFactorEnabled = true → b.totpSecret = a.totpSecret

/-! ## The condition -/

/-- The account the next step turns the second factor on for. -/
def enables (env : Env) (w : World) : Event → Option Uuid
  | .run i _ =>
    match w.tasks[i]? with
    | some (.enabling userId _ _ codes) =>
      if (codes.map fun code => env.hash (normalizeRecoveryCode code)).Nodup then some userId
      else none
    | _ => none
  | _ => none

/-- An enable about to commit finds pending a secret that was verified, and no other one active. -/
def EnablesVerified (env : Env) (s : Watched) (e : Event) : Prop :=
  ∀ userId ∈ enables env s.world e, ∀ user ∈ s.world.db.users, user.id = userId →
    ∃ secret ∈ user.totpPendingSecret, (user.id, secret) ∈ s.verified ∧
      (user.twoFactorEnabled = true → user.totpSecret = some secret)

instance (env : Env) (s : Watched) (e : Event) : Decidable (EnablesVerified env s e) := by
  unfold EnablesVerified
  infer_instance

/-! ## One step -/

/-- Accounts are unique, and an enabled one has a verified secret. -/
structure SecretsVerified (s : Watched) : Prop where
  unique : UniqueAccounts s.world.db
  secret : ∀ user ∈ s.world.db.users, user.twoFactorEnabled = true →
    ∃ secret, user.totpSecret = some secret ∧ (user.id, secret) ∈ s.verified

section

variable {env : Env} {s : Watched} {e : Event}

variable {user : Account} {w : World} {userId : Uuid}

/-- Only a code, or a recovery code, gets past a stored secret. -/
theorem code_of_checkSecondFactor {db : Accounts} {stored : Text} {now : Int}
    {totpCode recoveryCode : Option Text} {after : After} {task : Task}
    (hfind : db.userById user.id = some user) (hstored : user.totpSecret = some stored)
    (h : checkSecondFactor env now db user.id totpCode recoveryCode after = .more task) :
    (∃ given ∈ totpCode, ∃ stored ∈ user.totpSecret, ∃ secret ∈ env.decrypt user.id stored,
      ∃ step ∈ verify env secret (Text.trim given) now user.totpLastStep,
        task = .useCode user.id step after) ∨
    ∃ given ∈ recoveryCode,
      task = .useRecoveryCode user.id (env.hash (normalizeRecoveryCode given)) after := by
  unfold checkSecondFactor at h
  simp only [hfind, hstored] at h
  split at h
  · next code hcode =>
    obtain ⟨given, hgiven, rfl⟩ := Option.map_eq_some_iff.mp (Option.filter_eq_some_iff.mp hcode).1
    split at h
    · cases h
    split at h
    · cases h
    next secret hsecret =>
    split at h
    · cases h
    · next step hstep =>
      obtain rfl := Next.more.inj h
      exact .inl ⟨given, hgiven, stored, hstored, secret, hsecret, step, hstep, rfl⟩
  · split at h
    · next code hcode =>
      obtain ⟨given, hgiven, rfl⟩ :=
        Option.map_eq_some_iff.mp (Option.filter_eq_some_iff.mp hcode).1
      obtain rfl := Next.more.inj h
      exact .inr ⟨given, hgiven, rfl⟩
    · cases h

theorem SecretsVerified.guarded (h : SecretsVerified s)
    (huser : user ∈ s.world.db.users) (henabled : user.twoFactorEnabled = true) :
    Guarded env s user := by
  obtain ⟨stored, hstored, hverified⟩ := h.secret user huser henabled
  refine ⟨⟨stored, hstored, hverified⟩, ?_, ?_, ?_⟩
  · intro email password totpCode recoveryCode fresh task hlogin version heq
    subst heq
    obtain ⟨found, hmem, ⟨hoff, heq⟩ | ⟨-, heq⟩⟩ := login_more hlogin
    · injection heq with hid
      rw [← h.unique _ huser _ hmem hid, henabled] at hoff
      cases hoff
    · cases heq
  · intro now totpCode recoveryCode after task hcheck
    exact code_of_checkSecondFactor (h.unique.userById huser) hstored hcheck
  · intro now codeHash after task hspend
    unfold spendRecoveryCode at hspend
    dsimp only at hspend
    split at hspend
    · next hany =>
      obtain ⟨code, hcode, hmatch⟩ := List.any_eq_true.mp hany
      exact ⟨code, hcode, by simpa using hmatch⟩
    · cases hspend

theorem enables_some (h : enables env w e = some userId) :
    ∃ now step, (w.next env e).db.users = (w.db.updateUser userId (Account.enabled now step)).users := by
  unfold enables at h
  split at h
  · next i now =>
    split at h
    · next userId' read step codes hi =>
      split at h
      · next hnodup =>
        obtain rfl := Option.some.inj h
        refine ⟨now, step, ?_⟩
        simp [World.next, hi, Task.run, enable, hnodup]
      · cases h
    · cases h
  · cases h

/-- A statement other than an enable leaves an account's second factor as it is, or turns it off. -/
theorem Task.sets_factor {now : Int} {task : Task} {set : Account → Account}
    (h : task.sets now = some (userId, set)) :
    (∃ read step codes, task = .enabling userId read step codes) ∨
      ∀ user, (set user).twoFactorEnabled = true →
        user.twoFactorEnabled = true ∧ (set user).totpSecret = user.totpSecret := by
  unfold Task.sets at h
  split at h <;> cases h
  all_goals first
    | exact .inr fun user henabled => ⟨henabled, rfl⟩
    | exact .inl ⟨_, _, _, rfl⟩
    | exact .inr fun user henabled => by cases henabled

/-- Where no enable commits, an account that is enabled was, with the same secret. -/
theorem enables_none (h : enables env w e = none)
    (huser : user ∈ (w.next env e).db.users) (henabled : user.twoFactorEnabled = true) :
    ∃ old ∈ w.db.users, old.id = user.id ∧ old.twoFactorEnabled = true ∧
      user.totpSecret = old.totpSecret := by
  have hsame : (w.next env e).db.users = w.db.users → ∃ old ∈ w.db.users, old.id = user.id ∧
      old.twoFactorEnabled = true ∧ user.totpSecret = old.totpSecret := by
    intro hsame
    rw [hsame] at huser
    exact ⟨user, huser, rfl, henabled, rfl⟩
  rcases w.next_cases env e with ⟨i, now, task, rfl, hi, hnext⟩ | ⟨hdb, -⟩
  · rcases task.run_users env now w.db with hrun | ⟨userId, set, hsets, hrun⟩
    · exact hsame (by rw [hnext, hrun])
    rcases Task.sets_factor hsets with ⟨read, step, codes, rfl⟩ | hkeeps
    · refine hsame ?_
      have hnodup : ¬ (codes.map fun code => env.hash (normalizeRecoveryCode code)).Nodup := by
        simpa [enables, hi] using h
      rw [hnext]
      simp [Task.run, enable, hnodup]
    · rw [hnext, hrun] at huser
      obtain ⟨old, hold, rfl⟩ := List.mem_map.mp huser
      by_cases hid : old.id = userId
      · simp only [hid, if_true] at henabled ⊢
        obtain ⟨hwas, hsecret⟩ := hkeeps old henabled
        exact ⟨old, hold, by rw [Task.sets_id hsets, hid], hwas, hsecret⟩
      · simp only [hid, if_false] at henabled ⊢
        exact ⟨old, hold, rfl, henabled, rfl⟩
  · exact hsame (by rw [hdb])

theorem UniqueAccounts.next (h : UniqueAccounts w.db) (env : Env) (e : Event) :
    UniqueAccounts (w.next env e).db := by
  rcases w.next_cases env e with ⟨i, now, task, -, -, hnext⟩ | ⟨hdb, -⟩
  · rw [hnext]
    exact h.run
  · rw [hdb]
    exact h

theorem verified_stays {k : Uuid × Text} (h : k ∈ s.verified) : k ∈ (s.next env e).verified :=
  List.mem_append_right _ h

theorem checked_of_enables (h : enables env w e = some userId) : checked env w e = none := by
  unfold enables at h
  split at h
  · split at h
    · next hi => simp [checked, hi]
    · cases h
  · cases h

/-- Every step but an enable keeps the second factor. -/
theorem keepsFactor_of_enables_none (hs : SecretsVerified s) (h : enables env s.world e = none) :
    KeepsFactor env s (s.next env e) := by
  have hnext : SecretsVerified (s.next env e) := by
    refine ⟨hs.unique.next env e, fun user huser henabled => ?_⟩
    obtain ⟨old, hold, hid, hwas, hsecret⟩ := enables_none h huser henabled
    obtain ⟨secret, hstored, hverified⟩ := hs.secret old hold hwas
    exact ⟨secret, hsecret.trans hstored, verified_stays (hid ▸ hverified)⟩
  refine ⟨fun user huser henabled => hnext.guarded huser henabled, fun a ha b hb hid _ hb' => ?_⟩
  obtain ⟨old, hold, hid', -, hsecret⟩ := enables_none h hb hb'
  rw [hsecret, hs.unique old hold a ha (hid'.trans hid.symm)]

theorem keepsFactor_of_enables (hs : SecretsVerified s)
    (h : enables env s.world e = some userId) (hok : EnablesVerified env s e) :
    KeepsFactor env s (s.next env e) := by
  obtain ⟨now, step, hrun⟩ := enables_some h
  have hnext : SecretsVerified (s.next env e) := by
    refine ⟨hs.unique.next env e, fun user huser henabled => ?_⟩
    change user ∈ (s.world.next env e).db.users at huser
    rw [hrun] at huser
    obtain ⟨old, hold, rfl⟩ := List.mem_map.mp huser
    by_cases hid : old.id = userId
    · obtain ⟨secret, hpending, hverified, -⟩ := hok userId h old hold hid
      simp only [hid, if_true]
      exact ⟨secret, hpending, verified_stays hverified⟩
    · simp only [hid, if_false] at henabled ⊢
      obtain ⟨secret, hstored, hverified⟩ := hs.secret old hold henabled
      exact ⟨secret, hstored, verified_stays hverified⟩
  refine ⟨fun user huser henabled => hnext.guarded huser henabled, fun a ha b hb hid ha' _ => ?_⟩
  change b ∈ (s.world.next env e).db.users at hb
  rw [hrun] at hb
  obtain ⟨old, hold, rfl⟩ := List.mem_map.mp hb
  by_cases hnamed : old.id = userId
  · simp only [hnamed, if_true] at hid ⊢
    obtain rfl := hs.unique a ha old hold hid
    obtain ⟨secret, hpending, -, hsame⟩ := hok userId h a ha hnamed
    rw [hsame ha']
    exact hpending
  · simp only [hnamed, if_false] at hid ⊢
    rw [hs.unique a ha old hold hid]

theorem KeepsFactor.enablesVerified (h : KeepsFactor env s (s.next env e)) :
    EnablesVerified env s e := by
  intro userId henables user huser hid
  obtain ⟨now, step, hrun⟩ := enables_some henables
  have hpost : user.enabled now step ∈ (s.next env e).world.db.users := by
    change _ ∈ (s.world.next env e).db.users
    rw [hrun]
    exact List.mem_map.mpr ⟨user, huser, by simp [hid]⟩
  obtain ⟨secret, hsecret, hverified⟩ := (h.guarded _ hpost rfl).secret
  change _ ∈ (checked env s.world e).toList ++ s.verified at hverified
  rw [checked_of_enables henables] at hverified
  refine ⟨secret, hsecret, hverified, fun hwas => ?_⟩
  rw [← h.same user huser _ hpost rfl hwas rfl]
  exact hsecret

theorem keepsFactor_iff (hs : SecretsVerified s) :
    KeepsFactor env s (s.next env e) ↔ EnablesVerified env s e := by
  refine ⟨KeepsFactor.enablesVerified, fun hok => ?_⟩
  cases h : enables env s.world e with
  | none => exact keepsFactor_of_enables_none hs h
  | some userId => exact keepsFactor_of_enables hs h hok

end

/-! ## Runs -/

/-- **The second factor is kept throughout a run exactly when** every enable that commits finds a
verified secret pending, and no other one active. -/
theorem second_factor_kept_iff (env : Env) (db : Accounts) (verified : List (Uuid × Text))
    (u : Watched) (trace : List (Transition Watched Event))
    (hstart : SecretsVerified ⟨⟨db, []⟩, verified⟩)
    (h : WatchedRuns env ⟨⟨db, []⟩, verified⟩ trace u) :
    (∀ x ∈ trace, KeepsFactor env x.pre x.post) ↔
      ∀ x ∈ trace, EnablesVerified env x.pre x.label := by
  refine Run.forall_iff SecretsVerified (EnablesVerified env) (fun s _ t => KeepsFactor env s t)
    ?_ ?_ h hstart
  · rintro s e t hs rfl
    exact keepsFactor_iff hs
  · rintro s e t hs rfl hkeeps
    exact ⟨hs.unique.next env e, fun user huser henabled =>
      (hkeeps.guarded user huser henabled).secret⟩

/-- Setup, and then an enable with the code the app shows. -/
def setUpAndEnable : List Event :=
  [.arrive (.twoFactorSetup ada "key"), .run 0 1, .run 0 1, .run 0 1,
    .arrive (.twoFactorEnable ada "000000" []), .run 0 60, .run 0 60, .run 0 61]

/-- Setup, and then two enables that have both read the pending secret, the first of them committed. -/
def setUpAndEnableTwice : List Event :=
  [.arrive (.twoFactorSetup ada "key"), .run 0 1, .run 0 1, .run 0 1,
    .arrive (.twoFactorEnable ada "000000" []), .run 0 60, .run 0 60,
    .arrive (.twoFactorEnable ada "000000" []), .run 0 60, .run 0 60, .run 0 61]

def unguarded : Watched := ⟨⟨oneSession, []⟩, []⟩

theorem unguarded_secretsVerified : SecretsVerified unguarded :=
  ⟨oneSession_unique, by decide⟩

theorem setUpAndEnable_keeps :
    (∀ x ∈ traceOf (Watched.next .plain) unguarded setUpAndEnable,
      KeepsFactor .plain x.pre x.post) ∧
    (setUpAndEnable.foldl (Watched.next .plain) unguarded).world.db.users.map
      (fun user => (user.totpSecret, user.totpEnabledAt)) = [(some "key".toList, some 61)] :=
  ⟨(second_factor_kept_iff .plain oneSession [] _ _ unguarded_secretsVerified
    (run_traceOf _ _ setUpAndEnable)).mpr (by decide), by decide⟩

/-- The other enable then commits too: the second factor is on with no secret, and a login without a
code gets past it. -/
theorem second_enable_removes_secret :
    SecretsVerified unguarded ∧
      WatchedRuns .plain unguarded
        (traceOf (Watched.next .plain) unguarded setUpAndEnableTwice ++
          [⟨setUpAndEnableTwice.foldl (Watched.next .plain) unguarded, .run 0 62,
            (setUpAndEnableTwice.foldl (Watched.next .plain) unguarded).next .plain (.run 0 62)⟩])
        ((setUpAndEnableTwice.foldl (Watched.next .plain) unguarded).next .plain (.run 0 62)) ∧
      ((setUpAndEnableTwice.foldl (Watched.next .plain) unguarded).next .plain
        (.run 0 62)).world.db.users.map (fun user => (user.totpSecret, user.totpEnabledAt)) =
          [(none, some 62)] ∧
      checkSecondFactor .plain 63
        ((setUpAndEnableTwice.foldl (Watched.next .plain) unguarded).next .plain
          (.run 0 62)).world.db ada none none (.login 0 secondToken) =
          .more (.issue ada 0 secondToken) ∧
      ¬ KeepsFactor .plain (setUpAndEnableTwice.foldl (Watched.next .plain) unguarded)
        ((setUpAndEnableTwice.foldl (Watched.next .plain) unguarded).next .plain (.run 0 62)) := by
  refine ⟨unguarded_secretsVerified, ?_, by decide, by decide, fun hkeeps => ?_⟩
  · exact (run_traceOf (Watched.next .plain) unguarded setUpAndEnableTwice).append
      (.cons rfl (.nil _))
  · obtain ⟨secret, hsecret, -⟩ := (hkeeps.guarded ⟨ada, "ada@example.org",
      "secret one", false, none, none, some 62, some 1, 0⟩ (by decide) rfl).secret
    cases hsecret

end VibeSsh.Backend.Auth
