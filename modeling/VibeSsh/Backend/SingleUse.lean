import VibeSsh.Backend.Auth

/-! # A refresh token is used once

`verify_and_rotate` reads a token in one statement and revokes it in another, by its identifier
alone. Two calls that have both read the token both revoke it and both issue a successor. -/

namespace VibeSsh.Backend.Auth

open Lib List Option

def revokedBy (now : Int) (which : RefreshToken → Bool) (token : RefreshToken) : RefreshToken :=
  if which token then { token with revokedAt := some now } else token

section

variable {now : Int} {which : RefreshToken → Bool}

variable (token : RefreshToken)

@[simp] theorem revokedBy_id : (revokedBy now which token).id = token.id := by
  unfold revokedBy
  split <;> rfl

@[simp] theorem revokedBy_userId : (revokedBy now which token).userId = token.userId := by
  unfold revokedBy
  split <;> rfl

@[simp] theorem revokedBy_tokenHash : (revokedBy now which token).tokenHash = token.tokenHash := by
  unfold revokedBy
  split <;> rfl

@[simp] theorem revokedBy_version : (revokedBy now which token).version = token.version := by
  unfold revokedBy
  split <;> rfl

@[simp] theorem revokedBy_parent : (revokedBy now which token).parent = token.parent := by
  unfold revokedBy
  split <;> rfl

end

/-- What a statement inserts: a new session's token, or the successor of one it revokes. -/
inductive Inserts : Task → (RefreshToken → Bool) → RefreshToken → Prop where
  | issued {userId : Uuid} {version : Nat} {fresh : Fresh} {which : RefreshToken → Bool}
      {token : RefreshToken} :
    token.userId = userId → token.version = version → token.parent = none →
    Inserts (.issue userId version fresh) which token
  | rotated {row token : RefreshToken} {fresh : Fresh} :
    token.userId = row.userId → token.version = row.version → token.parent = some row.id →
    Inserts (.rotating row fresh) (fun other => other.id = row.id) token

/-- **Every statement revokes some tokens and inserts at most one.** -/
theorem Task.run_tokens_eq (env : Env) (now : Int) (db : Accounts) (task : Task) :
    ∃ (which : RefreshToken → Bool) (inserted : Option RefreshToken),
      (task.run env now db).1.refreshTokens =
        inserted.toList ++ db.refreshTokens.map (revokedBy now which) ∧
      ∀ token ∈ inserted, Inserts task which token ∧
        (token.parent.isSome = true → (task.run env now db).2 = .done) ∧
        ∀ other ∈ db.refreshTokens, other.id ≠ token.id ∧ other.tokenHash ≠ token.tokenHash := by
  have hnever : db.refreshTokens.map (revokedBy now fun _ => false) = db.refreshTokens := by
    exact map_id _
  have hkept (hsame : (task.run env now db).1.refreshTokens = db.refreshTokens) :
      (task.run env now db).1.refreshTokens =
        (none : Option RefreshToken).toList ++ db.refreshTokens.map (revokedBy now fun _ => false) := by
    rw [hsame, hnever]
    rfl
  cases task with
  | start request =>
    cases request with
    | logout raw => exact ⟨_, none, rfl, by simp⟩
    | _ => exact ⟨_, none, hkept rfl, by simp⟩
  | revokingAll userId version fresh => exact ⟨_, none, rfl, by simp⟩
  | issue userId version fresh =>
    rcases issueToken_cases env now db userId version fresh with hsame | hok
    · exact ⟨_, none, hkept (congrArg Accounts.refreshTokens hsame), by simp⟩
    obtain ⟨hfree, hrun⟩ := insertToken_ok hok
    refine ⟨fun _ => false, some _, by rw [Task.run, hrun, hnever]; rfl, fun token htoken => ?_⟩
    obtain rfl := mem_some_iff.mp htoken
    exact ⟨.issued rfl rfl rfl, by simp, hfree⟩
  | rotating row fresh =>
    rcases rotateToken_cases env now db row fresh with ⟨hsame, -⟩ | ⟨hdone, hok⟩
    · exact ⟨_, none, hkept (congrArg Accounts.refreshTokens hsame), by simp⟩
    obtain ⟨hfree, hrun⟩ := insertToken_ok hok
    refine ⟨(·.id = row.id), some _, by rw [Task.run, hrun]; rfl, fun token htoken => ?_⟩
    obtain rfl := mem_some_iff.mp htoken
    refine ⟨.rotated rfl rfl rfl, fun _ => hdone, fun other hother => ?_⟩
    have hother' := hfree (revokedBy now (·.id = row.id) other) (mem_map_of_mem hother)
    simpa using hother'
  | _ =>
    refine ⟨_, none, hkept ?_, by simp⟩
    simp only [Task.run, recordCode, spendRecoveryCode, insertReset, spendReset, enable]
    repeat' split
    all_goals rfl

/-! ## The tokens as rotation leaves them -/

/-- Keys are unique, and a token with a successor is revoked. -/
structure Issued (db : Accounts) : Prop where
  ids : ∀ a ∈ db.refreshTokens, ∀ b ∈ db.refreshTokens, a.id = b.id → a = b
  hashes : ∀ a ∈ db.refreshTokens, ∀ b ∈ db.refreshTokens, a.tokenHash = b.tokenHash → a = b
  spent : ∀ token ∈ db.refreshTokens, ∀ k ∈ token.parent,
    ∃ old ∈ db.refreshTokens, old.id = k ∧ old.revokedAt.isSome = true

/-- No token has two successors. -/
def OneSuccessor (db : Accounts) : Prop :=
  ∀ a ∈ db.refreshTokens, ∀ b ∈ db.refreshTokens, a.parent = b.parent → a.parent.isSome = true → a = b

/-- A rotation in flight is of a token of the table. -/
def TasksKnow (w : World) : Prop :=
  ∀ row fresh, .rotating row fresh ∈ w.tasks →
    ∃ old ∈ w.db.refreshTokens, old.id = row.id ∧ old.tokenHash = row.tokenHash

section

variable {env : Env} {now : Int} {db : Accounts} {task : Task}

/-- A row stays in the table, and stays revoked. -/
theorem token_stays {token : RefreshToken} (h : token ∈ db.refreshTokens) :
    ∃ token' ∈ (task.run env now db).1.refreshTokens, token'.id = token.id ∧
      token'.tokenHash = token.tokenHash ∧ token'.parent = token.parent ∧
      (token.revokedAt.isSome = true → token'.revokedAt.isSome = true) := by
  obtain ⟨which, inserted, htokens, -⟩ := task.run_tokens_eq env now db
  refine ⟨revokedBy now which token, ?_, revokedBy_id _, revokedBy_tokenHash _, revokedBy_parent _,
    fun hsome => ?_⟩
  · rw [htokens]
    exact mem_append_right _ (mem_map_of_mem h)
  · unfold revokedBy
    split
    · rfl
    · exact hsome

/-- Rows that agree in a key which the statement keeps and does not repeat are the same. -/
theorem key_unique {κ : Type} {which : RefreshToken → Bool} {inserted : Option RefreshToken}
    {tokens : List RefreshToken} (key : RefreshToken → κ)
    (hkeeps : ∀ token, key (revokedBy now which token) = key token)
    (hold : ∀ a ∈ tokens, ∀ b ∈ tokens, key a = key b → a = b)
    (hnew : ∀ new ∈ inserted, ∀ other ∈ tokens, key other ≠ key new) :
    ∀ a ∈ inserted.toList ++ tokens.map (revokedBy now which),
      ∀ b ∈ inserted.toList ++ tokens.map (revokedBy now which), key a = key b → a = b := by
  intro a ha b hb heq
  rw [mem_append, mem_toList] at ha hb
  rcases ha with ha | ha
  · rcases hb with hb | hb
    · exact mem_unique ha hb
    · obtain ⟨b', hb', rfl⟩ := mem_map.mp hb
      rw [hkeeps] at heq
      exact absurd heq.symm (hnew a ha b' hb')
  · obtain ⟨a', ha', rfl⟩ := mem_map.mp ha
    rw [hkeeps] at heq
    rcases hb with hb | hb
    · exact absurd heq (hnew b hb a' ha')
    · obtain ⟨b', hb', rfl⟩ := mem_map.mp hb
      rw [hkeeps] at heq
      rw [hold a' ha' b' hb' heq]

theorem Issued.run (h : Issued db)
    (hknows : ∀ row fresh, task = .rotating row fresh →
      ∃ old ∈ db.refreshTokens, old.id = row.id ∧ old.tokenHash = row.tokenHash) :
    Issued (task.run env now db).1 := by
  obtain ⟨which, inserted, htokens, hinserted⟩ := task.run_tokens_eq env now db
  refine ⟨?_, ?_, ?_⟩
  · rw [htokens]
    exact key_unique (·.id) revokedBy_id h.ids fun new hnew other hother =>
      ((hinserted new hnew).2.2 other hother).1
  · rw [htokens]
    exact key_unique (·.tokenHash) revokedBy_tokenHash h.hashes fun new hnew other hother =>
      ((hinserted new hnew).2.2 other hother).2
  · intro token htoken k hk
    rw [htokens, mem_append, mem_toList] at htoken
    rcases htoken with hnew | hold
    · cases (hinserted token hnew).1 with
      | issued _ _ hnone =>
        rw [hnone] at hk
        cases hk
      | @rotated row _ fresh _ _ hparent =>
        obtain ⟨old, hmem, hid, -⟩ := hknows row fresh rfl
        rw [hparent] at hk
        obtain rfl := mem_some_iff.mp hk
        refine ⟨revokedBy now (fun other => other.id = row.id) old, ?_, by simpa using hid,
          by simp [revokedBy, hid]⟩
        rw [htokens]
        exact mem_append_right _ (mem_map_of_mem hmem)
    · obtain ⟨token', htoken', rfl⟩ := mem_map.mp hold
      rw [revokedBy_parent] at hk
      obtain ⟨old, hmem, hid, hrevoked⟩ := h.spent token' htoken' k hk
      obtain ⟨old', hmem', hid', -, -, hrevoked'⟩ := @token_stays env now db task old hmem
      exact ⟨old', hmem', hid'.trans hid, hrevoked' hrevoked⟩

end

/-! ## Calls in flight -/

theorem TasksKnow.next {w : World} (h : TasksKnow w) (env : Env) (e : Event) :
    TasksKnow (w.next env e) := by
  rcases w.next_cases env e with ⟨i, now, task, -, -, hnext⟩ | ⟨hdb, htasks⟩
  · rw [hnext]
    intro row fresh hmem
    have hold : ∃ old ∈ w.db.refreshTokens, old.id = row.id ∧ old.tokenHash = row.tokenHash := by
      rcases mem_advanced hmem with hmem | hmore
      · exact h row fresh hmem
      · cases Task.leads hmore with
        | other hplain => cases hplain
        | refresh hrow _ => exact ⟨row, hrow, rfl, rfl⟩
    obtain ⟨old, hmem, hid, hhash⟩ := hold
    obtain ⟨old', hmem', hid', hhash', -⟩ := @token_stays env now w.db task old hmem
    exact ⟨old', hmem', hid'.trans hid, hhash'.trans hhash⟩
  · intro row fresh hmem
    rw [hdb]
    rcases htasks _ hmem with hmem | ⟨request, hfirst⟩
    · exact h row fresh hmem
    · cases request <;> cases hfirst

/-- The token the next step replaces, if it does. -/
def rotated (env : Env) (w : World) : Event → Option RefreshToken
  | .run i now =>
    match w.tasks[i]? with
    | some (.rotating row fresh) =>
      if (rotateToken env now w.db row fresh).2 = .done then some row else none
    | _ => none
  | _ => none

/-- A call that is about to succeed finds its token still unrevoked. -/
def FindsUnrevoked (env : Env) (w : World) (e : Event) : Prop :=
  ∀ row ∈ rotated env w e, ∀ token ∈ w.db.refreshTokens, token.id = row.id → token.revokedAt = none

instance (env : Env) (w : World) (e : Event) : Decidable (FindsUnrevoked env w e) := by
  unfold FindsUnrevoked
  infer_instance

/-- The token with this hash has a successor. -/
def Replaced (tokenHash : Text) (w : World) : Prop :=
  ∃ old ∈ w.db.refreshTokens, old.tokenHash = tokenHash ∧
    ∃ new ∈ w.db.refreshTokens, new.parent = some old.id

section

variable {env : Env} {w : World} {e : Event} {row : RefreshToken}

theorem rotated_some (h : rotated env w e = some row) : ∃ i now fresh, e = .run i now ∧
    w.tasks[i]? = some (.rotating row fresh) ∧ (rotateToken env now w.db row fresh).2 = .done := by
  unfold rotated at h
  split at h
  · split at h
    · next htask =>
      split at h
      · next hdone =>
        obtain rfl := some.inj h
        exact ⟨_, _, _, rfl, htask, hdone⟩
      · cases h
    · cases h
  · cases h

/-- A step that replaces a token revokes it and inserts one successor. -/
theorem next_of_rotated (h : rotated env w e = some row) : ∃ now new,
    (w.next env e).db.refreshTokens =
      new :: w.db.refreshTokens.map (revokedBy now fun other => other.id = row.id) ∧
    new.parent = some row.id ∧ ∀ other ∈ w.db.refreshTokens, other.id ≠ new.id := by
  obtain ⟨i, now, fresh, rfl, htask, hdone⟩ := rotated_some h
  rcases rotateToken_cases env now w.db row fresh with ⟨-, hnot⟩ | ⟨-, hok⟩
  · exact absurd hdone hnot
  obtain ⟨hfree, hrun⟩ := insertToken_ok hok
  have hnext : (w.next env (.run i now)).db = (rotateToken env now w.db row fresh).1 := by
    simp [World.next, htask, Task.run]
  refine ⟨now, _, by rw [hnext, hrun]; rfl, rfl, fun other hother => ?_⟩
  have hother' := hfree (revokedBy now (·.id = row.id) other) (mem_map_of_mem hother)
  simpa using hother'.1

/-- **Every step revokes some tokens and inserts at most one**, as a successor only of the token it
replaces. -/
theorem next_tokens (env : Env) (w : World) (e : Event) :
    ∃ (now : Int) (which : RefreshToken → Bool) (inserted : Option RefreshToken),
      (w.next env e).db.refreshTokens =
        inserted.toList ++ w.db.refreshTokens.map (revokedBy now which) ∧
      ∀ new ∈ inserted, ∀ k ∈ new.parent, ∃ row, rotated env w e = some row ∧ row.id = k := by
  rcases w.next_cases env e with ⟨i, now, task, rfl, htask, hnext⟩ | ⟨hdb, -⟩
  · obtain ⟨which, inserted, htokens, hinserted⟩ := task.run_tokens_eq env now w.db
    refine ⟨now, which, inserted, by rw [hnext, htokens], fun new hnew k hk => ?_⟩
    obtain ⟨hinserts, hdone, -⟩ := hinserted new hnew
    cases hinserts with
    | issued _ _ hnone =>
      rw [hnone] at hk
      cases hk
    | @rotated row _ fresh _ _ hparent =>
      rw [hparent] at hk
      obtain rfl := mem_some_iff.mp hk
      refine ⟨row, ?_, rfl⟩
      have hdone' : (rotateToken env now w.db row fresh).2 = .done := hdone (by rw [hparent]; rfl)
      simp [Auth.rotated, htask, hdone']
  · exact ⟨0, fun _ => false, none, by rw [hdb]; exact (map_id _).symm, by simp⟩

theorem Replaced.next {tokenHash : Text} (h : Replaced tokenHash w) (env : Env) (e : Event) :
    Replaced tokenHash (w.next env e) := by
  obtain ⟨old, hold, hhash, new, hnew, hparent⟩ := h
  obtain ⟨now, which, inserted, htokens, -⟩ := next_tokens env w e
  have hstays : ∀ token ∈ w.db.refreshTokens,
      revokedBy now which token ∈ (w.next env e).db.refreshTokens := by
    intro token htoken
    rw [htokens]
    exact mem_append_right _ (mem_map_of_mem htoken)
  exact ⟨_, hstays old hold, by simpa using hhash, _, hstays new hnew, by simpa using hparent⟩

theorem Issued.next (h : Issued w.db) (hknows : TasksKnow w) (env : Env) (e : Event) :
    Issued (w.next env e).db := by
  rcases w.next_cases env e with ⟨i, now, task, rfl, htask, hnext⟩ | ⟨hdb, -⟩
  · rw [hnext]
    refine h.run fun row fresh heq => hknows row fresh ?_
    rw [← heq]
    exact mem_of_getElem? htask
  · rw [hdb]
    exact h

theorem Replaced.not_rotated (h : Replaced row.tokenHash w) (hissued : Issued w.db)
    (hknows : TasksKnow w) (hfinds : FindsUnrevoked env w e) : rotated env w e ≠ some row := by
  intro hrotated
  obtain ⟨old, hold, hhash, new, hnew, hparent⟩ := h
  obtain ⟨i, now, fresh, -, htask, -⟩ := rotated_some hrotated
  obtain ⟨read, hread, hid, hhash'⟩ := hknows row fresh (mem_of_getElem? htask)
  obtain rfl := hissued.hashes old hold read hread (hhash.trans hhash'.symm)
  obtain ⟨spent, hspent, hid', hrevoked⟩ := hissued.spent new hnew old.id hparent
  have hnone := hfinds row hrotated spent hspent (hid'.trans hid)
  rw [hnone] at hrevoked
  cases hrevoked

theorem replaced_of_rotated (hknows : TasksKnow w) (h : rotated env w e = some row) :
    Replaced row.tokenHash (w.next env e) := by
  obtain ⟨i, now, fresh, -, htask, -⟩ := rotated_some h
  obtain ⟨read, hread, hid, hhash⟩ := hknows row fresh (mem_of_getElem? htask)
  obtain ⟨now, new, htokens, hparent, -⟩ := next_of_rotated h
  refine ⟨revokedBy now (fun other => other.id = row.id) read, ?_, by simpa using hhash, new, ?_,
    by simpa [hid] using hparent⟩
  · rw [htokens]
    exact mem_cons_of_mem _ (mem_map_of_mem hread)
  · rw [htokens]
    exact mem_cons_self

/-- The condition is what keeps successors unique. -/
theorem OneSuccessor.next (h : OneSuccessor w.db) (hissued : Issued w.db)
    (hfinds : FindsUnrevoked env w e) : OneSuccessor (w.next env e).db := by
  obtain ⟨now, which, inserted, htokens, hinserted⟩ := next_tokens env w e
  -- An inserted token's parent was found unrevoked, so no token of the table was its successor.
  have hnew : ∀ new ∈ inserted, ∀ other ∈ w.db.refreshTokens, new.parent = other.parent →
      new.parent.isSome = true → False := by
    intro new hmem other hother heq hsome
    obtain ⟨k, hk⟩ := isSome_iff_exists.mp hsome
    obtain ⟨row, hrotated, rfl⟩ := hinserted new hmem k hk
    obtain ⟨spent, hspent, hid, hrevoked⟩ := hissued.spent other hother row.id (heq ▸ hk)
    have hnone := hfinds row hrotated spent hspent hid
    rw [hnone] at hrevoked
    cases hrevoked
  intro a ha b hb heq hsome
  rw [htokens, mem_append, mem_toList] at ha hb
  rcases ha with ha | ha
  · rcases hb with hb | hb
    · exact mem_unique ha hb
    · obtain ⟨b', hb', rfl⟩ := mem_map.mp hb
      rw [revokedBy_parent] at heq
      exact (hnew a ha b' hb' heq hsome).elim
  · obtain ⟨a', ha', rfl⟩ := mem_map.mp ha
    rw [revokedBy_parent] at heq hsome
    rcases hb with hb | hb
    · exact (hnew b hb a' ha' heq.symm (heq ▸ hsome)).elim
    · obtain ⟨b', hb', rfl⟩ := mem_map.mp hb
      rw [revokedBy_parent] at heq
      rw [h a' ha' b' hb' heq hsome]

end

/-! ## Runs -/

/-- What rotation keeps while its calls find their tokens unrevoked. -/
structure Orderly (w : World) : Prop where
  issued : Issued w.db
  knows : TasksKnow w
  oneSuccessor : OneSuccessor w.db

/-- No two calls on one token succeed, and no token ever has two successors. -/
def UsedOnce (env : Env) (trace : List (Transition World Event)) : Prop :=
  trace.Pairwise (fun x y => ∀ a ∈ rotated env x.pre x.label, ∀ b ∈ rotated env y.pre y.label,
    a.tokenHash ≠ b.tokenHash) ∧ ∀ x ∈ trace, OneSuccessor x.post.db

/-- **Single use, whatever else runs**, while calls find their tokens unrevoked. -/
theorem usedOnce_of_findsUnrevoked {env : Env} {w u : World}
    {trace : List (Transition World Event)} (h : Runs env w trace u) (hw : Orderly w)
    (hfinds : ∀ x ∈ trace, FindsUnrevoked env x.pre x.label) : UsedOnce env trace := by
  have hstep : ∀ {s e t}, Orderly s → FindsUnrevoked env s e → t = World.next env s e →
      Orderly t := by
    rintro s e t hs hok rfl
    exact ⟨hs.issued.next hs.knows env e, hs.knows.next env e, hs.oneSuccessor.next hs.issued hok⟩
  constructor
  · have honce := Run.pairwise Orderly (FindsUnrevoked env) hstep
      (fun tokenHash s e => ∃ row ∈ rotated env s e, row.tokenHash = tokenHash) Replaced (· ≠ ·)
      (by
        rintro _ s e t hs rfl ⟨row, hrow, rfl⟩
        exact replaced_of_rotated hs.knows hrow)
      (by
        rintro _ s e t - rfl hmark
        exact hmark.next env e)
      (by
        rintro _ _ s e hs hok hmark ⟨row, hrow, rfl⟩ rfl
        exact hmark.not_rotated hs.issued hs.knows hok hrow)
      h hw hfinds
    exact honce.imp fun hxy a ha b hb => hxy _ _ ⟨a, ha, rfl⟩ ⟨b, hb, rfl⟩
  · intro x hx
    exact ((Run.invariant Orderly (FindsUnrevoked env) hstep h hw hfinds).2 x hx).2.2.oneSuccessor

/-! ## Calls of `verify_and_rotate` alone -/

/-- Only calls of `verify_and_rotate` are in flight, and a token one of them has read is revoked only
if another has replaced it. -/
structure OnlyRotations (w : World) : Prop where
  issued : Issued w.db
  knows : TasksKnow w
  tasks : ∀ task ∈ w.tasks, (∃ raw fresh, task = .start (.refresh raw fresh)) ∨
    ∃ row fresh, task = .rotating row fresh
  replaced : ∀ row fresh, .rotating row fresh ∈ w.tasks → ∀ old ∈ w.db.refreshTokens,
    old.id = row.id → old.revokedAt.isSome = true → ∃ new ∈ w.db.refreshTokens,
      new.parent = some row.id

/-- Nothing but `verify_and_rotate` is called. -/
def Event.refreshes : Event → Bool
  | .arrive (.refresh _ _) => true
  | .arrive _ => false
  | _ => true

section

variable {env : Env} {w : World} {e : Event}

section

variable (h : OnlyRotations w)
include h

/-- A task of such a world is one of its own, a call that arrives, or one that has just read its
token; a step that replaces a token ends its call. -/
theorem OnlyRotations.next_task (hcalls : e.refreshes = true) {task : Task}
    (htask : task ∈ (w.next env e).tasks) :
    task ∈ w.tasks ∨ (w.next env e).db = w.db ∧ ((∃ raw fresh, task = .start (.refresh raw fresh)) ∨
        ∃ row fresh, task = .rotating row fresh ∧ row ∈ w.db.refreshTokens ∧
          row.revokedAt = none) := by
  cases e with
  | arrive request =>
    cases request with
    | refresh raw fresh =>
      rcases mem_cons.mp htask with rfl | htask
      · exact .inr ⟨rfl, .inl ⟨raw, fresh, rfl⟩⟩
      · exact .inl htask
    | _ => cases hcalls
  | abort i => exact .inl (mem_of_mem_eraseIdx htask)
  | run i now =>
    cases hi : w.tasks[i]? with
    | none =>
      simp only [World.next, hi] at htask
      exact .inl htask
    | some ran =>
      simp only [World.next, hi] at htask ⊢
      rcases mem_advanced htask with htask | hmore
      · exact .inl htask
      rcases h.tasks ran (mem_of_getElem? hi) with ⟨raw, fresh, rfl⟩ | ⟨row, fresh, rfl⟩
      · obtain ⟨row, hrow, hlive, rfl⟩ := verifyToken_more hmore
        exact .inr ⟨rfl, .inr ⟨_, _, rfl, hrow, hlive⟩⟩
      · simp only [Task.run, rotateToken] at hmore
        split at hmore <;> cases hmore

theorem OnlyRotations.next_db : (w.next env e).db = w.db ∨ ∃ row, rotated env w e = some row := by
  rcases w.next_cases env e with ⟨i, now, task, rfl, hi, hnext⟩ | ⟨hdb, -⟩
  · rcases h.tasks task (mem_of_getElem? hi) with ⟨raw, fresh, rfl⟩ | ⟨row, fresh, rfl⟩
    · exact .inl (by rw [hnext]; rfl)
    · rcases rotateToken_cases env now w.db row fresh with ⟨hsame, -⟩ | ⟨hdone, -⟩
      · exact .inl (by rw [hnext]; exact hsame)
      · exact .inr ⟨row, by simp [rotated, hi, hdone]⟩
  · exact .inl hdb

theorem OnlyRotations.next (hcalls : e.refreshes = true) : OnlyRotations (w.next env e) := by
  refine ⟨h.issued.next h.knows env e, h.knows.next env e, fun task htask => ?_, ?_⟩
  · rcases h.next_task hcalls htask with hold | ⟨-, hstart | ⟨row, fresh, rfl, -⟩⟩
    · exact h.tasks task hold
    · exact .inl hstart
    · exact .inr ⟨row, fresh, rfl⟩
  intro row fresh htask old hold hid hrevoked
  rcases h.next_task hcalls htask with hflight | ⟨hdb, ⟨raw, fresh', heq⟩ | ⟨row', fresh', heq, hrow,
    hlive⟩⟩
  · rcases @OnlyRotations.next_db env w e h with hdb | ⟨row', hrotated⟩
    · rw [hdb] at hold ⊢
      exact h.replaced row fresh hflight old hold hid hrevoked
    -- The successor of this row, if it is the one replaced; else the one it had.
    obtain ⟨now, new, htokens, hparent, hfree⟩ := next_of_rotated hrotated
    rw [htokens] at hold ⊢
    rcases mem_cons.mp hold with rfl | hold
    · obtain ⟨read, hread, hid', -⟩ := h.knows row fresh hflight
      exact absurd (hid'.trans hid.symm) (hfree read hread)
    obtain ⟨old', hold', rfl⟩ := mem_map.mp hold
    rw [revokedBy_id] at hid
    by_cases hsame : old'.id = row'.id
    · exact ⟨new, mem_cons_self, by rw [hparent, ← hsame, hid]⟩
    · have hrevoked' : old'.revokedAt.isSome = true := by simpa [revokedBy, hsame] using hrevoked
      obtain ⟨successor, hmem, hparent'⟩ := h.replaced row fresh hflight old' hold' hid hrevoked'
      exact ⟨_, mem_cons_of_mem _ (mem_map_of_mem hmem), by simpa using hparent'⟩
  · cases heq
  · cases heq
    rw [hdb] at hold
    obtain rfl := h.issued.ids old hold row hrow hid
    rw [hlive] at hrevoked
    cases hrevoked

/-- A call that replaces a token it finds revoked gives it a second successor. -/
theorem OnlyRotations.findsUnrevoked (hone : OneSuccessor (w.next env e).db) :
    FindsUnrevoked env w e := by
  intro row hrotated token htoken hid
  by_contra hrevoked
  obtain ⟨i, now, fresh, -, hi, -⟩ := rotated_some hrotated
  obtain ⟨first, hfirst, hparent⟩ := h.replaced row fresh (mem_of_getElem? hi) token htoken hid
    (isSome_iff_ne_none.mpr hrevoked)
  obtain ⟨now, new, htokens, hparent', hfree⟩ := next_of_rotated hrotated
  have hnew : new ∈ (w.next env e).db.refreshTokens := by
    rw [htokens]
    exact mem_cons_self
  have hstays : revokedBy now (fun other => other.id = row.id) first ∈
      (w.next env e).db.refreshTokens := by
    rw [htokens]
    exact mem_cons_of_mem _ (mem_map_of_mem hfirst)
  have heq := hone new hnew _ hstays (by rw [revokedBy_parent, hparent, hparent'])
    (by rw [hparent']; rfl)
  exact hfree first hfirst (by rw [heq, revokedBy_id])

end

end

/-- **Among calls of `verify_and_rotate` alone**, tokens are used once exactly when every call that
succeeds finds its token unrevoked at the moment it revokes it. -/
theorem refresh_token_used_once_iff (env : Env) (db : Accounts) (u : World)
    (trace : List (Transition World Event)) (hdb : Issued db) (hone : OneSuccessor db)
    (h : Runs env ⟨db, []⟩ trace u) (hcalls : ∀ x ∈ trace, x.label.refreshes = true) :
    UsedOnce env trace ↔ ∀ x ∈ trace, FindsUnrevoked env x.pre x.label := by
  constructor
  · rintro ⟨-, honce⟩ x hx
    have hinv := Run.invariant OnlyRotations (fun _ e => e.refreshes = true)
      (by
        rintro s e t hs hok rfl
        exact hs.next hok)
      h ⟨hdb, by simp [TasksKnow], by simp, by simp⟩ hcalls
    obtain ⟨hpre, hstep, -⟩ := hinv.2 x hx
    refine hpre.findsUnrevoked ?_
    rw [← hstep]
    exact honce x hx
  · exact usedOnce_of_findsUnrevoked h ⟨hdb, by simp [TasksKnow], hone⟩

/-- One account with one session. -/
def oneSession : Accounts where
  users := [⟨.repeated 1, "ada@example.org", "secret one", false,
    none, none, none, none, 0⟩]
  refreshTokens := [⟨.repeated 10, .repeated 1,
    "first", 0, refreshTokenTtl, none, 0, none⟩]
  recoveryCodes := []
  passwordResets := []

def secondToken : Fresh := ⟨.repeated 11, "second"⟩

def thirdToken : Fresh := ⟨.repeated 12, "third"⟩

/-- A session renewed, its token tried again, and renewed with the new one. -/
def renewals : List Event :=
  [.arrive (.refresh "first" secondToken), .run 0 1, .run 0 1,
    .arrive (.refresh "first" thirdToken), .run 0 2,
    .arrive (.refresh "second" thirdToken), .run 0 3, .run 0 3]

/-- Two calls that both read the token before either replaces it. -/
def doubled : List Event :=
  [.arrive (.refresh "first" secondToken), .arrive (.refresh "first" thirdToken),
    .run 0 1, .run 1 1, .run 0 2, .run 0 3]

theorem oneSession_issued : Issued oneSession := ⟨by decide, by decide, by decide⟩

theorem renewals_use_each_once :
    UsedOnce .plain (traceOf (World.next .plain) ⟨oneSession, []⟩ renewals) ∧
      ((renewals.foldl (World.next .plain) ⟨oneSession, []⟩).db.refreshTokens.map (·.parent)).length
        = 3 :=
  ⟨(refresh_token_used_once_iff .plain oneSession _ _ oneSession_issued (by unfold OneSuccessor; decide)
    (run_traceOf _ _ renewals) (by decide)).mpr (by decide), by decide⟩

/-- Both calls succeed, and both successors are valid. -/
theorem doubled_calls_both_succeed :
    Issued oneSession ∧ OneSuccessor oneSession ∧
      Runs .plain ⟨oneSession, []⟩ (traceOf (World.next .plain) ⟨oneSession, []⟩ doubled)
        (doubled.foldl (World.next .plain) ⟨oneSession, []⟩) ∧
      (∀ e ∈ doubled, e.refreshes = true) ∧
      ((doubled.foldl (World.next .plain) ⟨oneSession, []⟩).db.refreshTokens.map
        fun token => (token.parent, token.revokedAt)) =
          [(some (oneSession.refreshTokens.head (by decide)).id, none),
            (some (oneSession.refreshTokens.head (by decide)).id, none), (none, some 3)] ∧
      ¬ UsedOnce .plain (traceOf (World.next .plain) ⟨oneSession, []⟩ doubled) := by
  refine ⟨oneSession_issued, by unfold OneSuccessor; decide, run_traceOf _ _ doubled, by decide,
    by decide, ?_⟩
  rintro ⟨hpairwise, -⟩
  revert hpairwise
  decide

end VibeSsh.Backend.Auth
