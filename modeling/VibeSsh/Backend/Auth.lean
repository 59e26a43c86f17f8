import VibeSsh.Backend.Handlers

/-! # Sign-in, sessions and two-factor

`auth.rs`, `refresh_token.rs` and `password_reset.rs`: the requests that read or write an account's
password, its second factor or its refresh tokens, as tasks that run one statement at a time in any
order. A transaction is one statement, at its commit: each starts by writing the row its other
statements depend on, and other writers of it wait. What is random or salted comes with a request,
the time with a statement. Rate limits refuse a request before its first statement and are left out.
-/

namespace VibeSsh.Backend.Auth

open Lib

/-! ## Tables -/

/-- The columns sign-in reads. `version` counts how often the password was set; no statement
reads it. -/
structure Account where
  id : Uuid
  email : Text
  passwordHash : Text
  mustChangePassword : Bool
  totpSecret : Option Text
  totpPendingSecret : Option Text
  totpEnabledAt : Option Int
  totpLastStep : Option Int
  version : Nat
  deriving DecidableEq

/-- `(totp_enabled_at IS NOT NULL) AS two_factor_enabled`. -/
def Account.twoFactorEnabled (user : Account) : Bool := user.totpEnabledAt.isSome

/-- `password_hash = $1, must_change_password = FALSE`. -/
def Account.withPassword (newHash : Text) (user : Account) : Account :=
  { user with passwordHash := newHash, mustChangePassword := false, version := user.version + 1 }

/-- `totp_secret = totp_pending_secret, totp_pending_secret = NULL, totp_enabled_at = $1,
totp_last_step = $2`. -/
def Account.enabled (now step : Int) (user : Account) : Account :=
  { user with
    totpSecret := user.totpPendingSecret
    totpPendingSecret := none
    totpEnabledAt := some now
    totpLastStep := some step }

/-- The four columns of the second factor set to `NULL`. -/
def Account.disabled (user : Account) : Account :=
  { user with
    totpSecret := none
    totpPendingSecret := none
    totpEnabledAt := none
    totpLastStep := none }

/-- A refresh token. `version` is the password version its session was opened with, and `parent` the
token it replaced; no statement reads them. -/
structure RefreshToken where
  id : Uuid
  userId : Uuid
  tokenHash : Text
  createdAt : Int
  expiresAt : Int
  revokedAt : Option Int
  version : Nat
  parent : Option Uuid
  deriving DecidableEq

structure RecoveryCode where
  userId : Uuid
  codeHash : Text
  usedAt : Option Int
  deriving DecidableEq

structure PasswordReset where
  id : Uuid
  userId : Uuid
  codeHash : Text
  createdAt : Int
  expiresAt : Int
  attempts : Nat
  usedAt : Option Int
  deriving DecidableEq

structure Accounts where
  users : List Account
  refreshTokens : List RefreshToken
  recoveryCodes : List RecoveryCode
  passwordResets : List PasswordReset
  deriving DecidableEq

namespace Accounts

variable (db : Accounts)

def userById (id : Uuid) : Option Account := db.users.find? (·.id = id)

def userByEmail (email : Text) : Option Account := db.users.find? (·.email = email)

def updateUser (id : Uuid) (set : Account → Account) : Accounts :=
  { db with users := db.users.map fun user => if user.id = id then set user else user }

def revokeWhere (now : Int) (which : RefreshToken → Bool) : Accounts :=
  { db with
    refreshTokens := db.refreshTokens.map fun token =>
      if which token then { token with revokedAt := some now } else token }

def insertToken (token : RefreshToken) : ApiResult Accounts :=
  if db.refreshTokens.any fun t => t.id = token.id ∨ t.tokenHash = token.tokenHash then
    .error databaseError
  else if (db.userById token.userId).isNone then .error databaseError
  else .ok { db with refreshTokens := token :: db.refreshTokens }

end Accounts

/-! ## The environment -/

/-- What the service was started with, and the functions of its libraries. -/
structure Env where
  lower : Text.Lowercase
  verifyPassword : Text → Text → Bool
  hash : Text → Text
  hashCode : Text → Text
  hotp : Text → Nat → Nat
  decrypt : Uuid → Text → Option Text
  cipher : Bool
  mailer : Bool

/-- An environment whose hashes and ciphers change nothing and whose codes are always zero. -/
def Env.plain : Env where
  lower := .asciiOnly
  verifyPassword password stored := password == stored
  hash := id
  hashCode := id
  hotp _ _ := 0
  decrypt _ stored := some stored
  cipher := true
  mailer := true

structure Fresh where
  id : Uuid
  raw : Text
  deriving DecidableEq

def byteLen (t : Text) : Nat := (t.map Char.utf8Size).sum

def minPasswordLen : Nat := 8

def maxPasswordLen : Nat := 256

def refreshTokenTtl : Int := 30 * 24 * 60 * 60

def codeLifetime : Int := 30 * 60

def maxAttempts : Nat := 5

def validatePassword (password : Text) : ApiResult Unit :=
  if password.length < minPasswordLen then
    .error (.invalidInput ⟨"password_too_short",
      "password must be at least 8 characters", [("min", "8")]⟩)
  else if maxPasswordLen < byteLen password then
    .error (.invalidInput ⟨"password_too_long",
      "password must be at most 256 characters", [("max", "256")]⟩)
  else .ok ()

/-! ## Codes -/

def stepSeconds : Int := 30

def skewSteps : Int := 1

def sixDigits (n : Nat) : Text :=
  List.replicate (6 - (Text.ofNat n).length) '0' ++ Text.ofNat n

/-- `two_factor::verify`: the time step a code is accepted at. -/
def verify (env : Env) (secret code : Text) (now : Int) (afterStep : Option Int) : Option Int :=
  let digits := code.filter fun c => !Text.isWhitespace c
  if digits.length ≠ 6 || !digits.all Char.isDigit then none
  else
    let current := now / stepSeconds
    ([current - skewSteps, current, current + skewSteps].filter fun step =>
      afterStep.all (· < step) && 0 ≤ step).find? fun step =>
        sixDigits (env.hotp secret step.toNat) == digits

def normalizeRecoveryCode (code : Text) : Text := (code.filter Char.isAlphanum).map Char.toLower

def normalizeCode (code : Text) : Text := (code.filter Char.isAlphanum).map Char.toUpper

/-! ## Requests and tasks -/

inductive Request where
  | login (email password : Text) (totpCode recoveryCode : Option Text) (fresh : Fresh)
  | refresh (raw : Text) (fresh : Fresh)
  | logout (raw : Text)
  | changePassword (userId : Uuid) (current new newHash : Text) (fresh : Fresh)
  | resetRequest (email : Text) (resetId : Uuid) (code : Text)
  | resetConfirm (email code new newHash : Text)
  | twoFactorSetup (userId : Uuid) (encrypted : Text)
  | twoFactorEnable (userId : Uuid) (code : Text) (codes : List Text)
  | twoFactorDisable (userId : Uuid) (password : Text) (totpCode recoveryCode : Option Text)
  deriving DecidableEq

/-- What asked for the second factor. -/
inductive After where
  | login (version : Nat) (fresh : Fresh)
  | disable
  deriving DecidableEq

/-- A request in flight, by the statement it is about to run. -/
inductive Task where
  /-- The `AuthUser` extractor. -/
  | extract (userId : Uuid) (request : Request)
  /-- The handler's first statement. -/
  | start (request : Request)
  | factor (userId : Uuid) (totpCode recoveryCode : Option Text) (after : After)
  | useCode (userId : Uuid) (step : Int) (after : After)
  | useRecoveryCode (userId : Uuid) (codeHash : Text) (after : After)
  | issue (userId : Uuid) (version : Nat) (fresh : Fresh)
  /-- `verify_and_rotate` has found `row` valid. -/
  | rotating (row : RefreshToken) (fresh : Fresh)
  | settingPassword (userId : Uuid) (newHash : Text) (fresh : Fresh)
  /-- `version` is the one this change made; a change goes on to issue a token. -/
  | revokingAll (userId : Uuid) (version : Nat) (fresh : Option Fresh)
  | insertingReset (userId : Uuid) (resetId : Uuid) (code : Text)
  | findingReset (userId : Uuid) (code newHash : Text)
  | countingAttempt (resetId : Uuid)
  | resetting (resetId userId : Uuid) (newHash : Text)
  | settingPending (userId : Uuid) (encrypted : Text)
  /-- `two_factor_enable` has verified a code against the secret `read`. -/
  | enabling (userId : Uuid) (read : Text) (step : Int) (codes : List Text)
  | disabling (userId : Uuid)
  deriving DecidableEq

inductive Next where
  | more (task : Task)
  | done
  | refused (error : ApiError)
  deriving DecidableEq

def Request.first (request : Request) : Task :=
  match request with
  | .twoFactorSetup userId _ => .extract userId request
  | .twoFactorEnable userId _ _ => .extract userId request
  | .twoFactorDisable userId _ _ _ => .extract userId request
  | _ => .start request

def After.next (userId : Uuid) : After → Next
  | .login version fresh => .more (.issue userId version fresh)
  | .disable => .more (.disabling userId)

/-! ## Errors -/

def invalidCredentials : ApiError :=
  .unauthorized (.new "invalid_credentials" "invalid email or password")

def accountGone : Detail := .new "account_gone" "account no longer exists"

def twoFactorUnavailable : ApiError :=
  .invalidInput (.new "two_factor_unavailable"
    "two-factor sign-in isn't available on this server - its TOTP_ENCRYPTION_KEY is not set")

def twoFactorInvalidDetail : Detail :=
  .new "two_factor_invalid"
    "that code isn't right - check the time on your phone, or use a recovery code"

def decryptFailed : ApiError := .internal "couldn't decrypt the two-factor secret"

def invalidCode : ApiError :=
  .invalidInput (.new "reset_code_invalid"
    "that code is wrong, used or expired - ask for a new one")

/-! ## The handlers, statement by statement -/

section

variable (env : Env) (now : Int) (db : Accounts)

variable (userId : Uuid)

def authUser (request : Request) : Next :=
  match db.userById userId with
  | none => .refused (.unauthorized accountGone)
  | some user =>
    if user.mustChangePassword then
      .refused (.passwordChangeRequired (.new "password_change_required"
        "set a new password before using this account - the one it has was set by somebody else"))
    else .more (.start request)

def login (email password : Text) (totpCode recoveryCode : Option Text) (fresh : Fresh) : Next :=
  if maxPasswordLen < byteLen password then .refused invalidCredentials
  else match db.userByEmail (normalizeEmail env.lower email) with
    | none => .refused invalidCredentials
    | some user =>
      if !env.verifyPassword password user.passwordHash then .refused invalidCredentials
      else if user.twoFactorEnabled then
        .more (.factor user.id totpCode recoveryCode (.login user.version fresh))
      else .more (.issue user.id user.version fresh)

def checkSecondFactor (totpCode recoveryCode : Option Text) (after : After) :
    Next :=
  match db.userById userId with
  | none => .refused databaseError
  | some user =>
    match user.totpSecret with
    | none => after.next userId
    | some stored =>
      match (totpCode.map Text.trim).filter fun code => !code.isEmpty with
      | some code =>
        if !env.cipher then .refused twoFactorUnavailable
        else match env.decrypt userId stored with
          | none => .refused decryptFailed
          | some secret =>
            match verify env secret code now user.totpLastStep with
            | none => .refused (.unauthorized twoFactorInvalidDetail)
            | some step => .more (.useCode userId step after)
      | none =>
        match (recoveryCode.map normalizeRecoveryCode).filter fun code => !code.isEmpty with
        | some code => .more (.useRecoveryCode userId (env.hash code) after)
        | none => .refused (.unauthorized (.new "two_factor_required"
            "enter the code from your authenticator app"))

/-- Records the code's step, if no later one was. -/
def recordCode (step : Int) (after : After) : Accounts × Next :=
  match db.userById userId with
  | none => (db, .refused (.unauthorized twoFactorInvalidDetail))
  | some user =>
    if user.totpLastStep.all (· < step) then
      (db.updateUser userId fun u => { u with totpLastStep := some step }, after.next userId)
    else (db, .refused (.unauthorized twoFactorInvalidDetail))

def spendRecoveryCode (codeHash : Text) (after : After) : Accounts × Next :=
  let matching := fun code : RecoveryCode =>
    code.userId = userId ∧ code.codeHash = codeHash ∧ code.usedAt = none
  if db.recoveryCodes.any fun code => matching code then
    ({ db with
      recoveryCodes := db.recoveryCodes.map fun code =>
        if matching code then { code with usedAt := some now } else code }, after.next userId)
  else (db, .refused (.unauthorized twoFactorInvalidDetail))

def issueToken (version : Nat) (fresh : Fresh) : Accounts × Next :=
  match db.insertToken ⟨fresh.id, userId, env.hash fresh.raw, now, now + refreshTokenTtl, none,
      version, none⟩ with
  | .error e => (db, .refused e)
  | .ok db => (db, .done)

def verifyToken (raw : Text) (fresh : Fresh) : Next :=
  match db.refreshTokens.find? (·.tokenHash = env.hash raw) with
  | none =>
    .refused (.unauthorized (.new "refresh_token_invalid" "refresh token is invalid"))
  | some row =>
    if row.revokedAt.isSome then
      .refused (.unauthorized (.new "refresh_token_used"
        "refresh token has already been used or revoked"))
    else if row.expiresAt < now then
      .refused (.unauthorized (.new "refresh_token_expired" "refresh token has expired"))
    else .more (.rotating row fresh)

/-- The writes of `verify_and_rotate`. The `UPDATE` names the row by its identifier alone. -/
def rotateToken (row : RefreshToken) (fresh : Fresh) : Accounts × Next :=
  match (db.revokeWhere now (·.id = row.id)).insertToken ⟨fresh.id, row.userId,
      env.hash fresh.raw, now, now + refreshTokenTtl, none, row.version, some row.id⟩ with
  | .error e => (db, .refused e)
  | .ok db => (db, .done)

def revoke (raw : Text) : Accounts :=
  db.revokeWhere now fun token => token.tokenHash = env.hash raw ∧ token.revokedAt = none

def revokeAllForUser : Accounts :=
  db.revokeWhere now fun token => token.userId = userId ∧ token.revokedAt = none

def changePassword (current new newHash : Text) (fresh : Fresh) : Next :=
  if maxPasswordLen < byteLen current then .refused invalidCredentials
  else match validatePassword new with
    | .error e => .refused e
    | .ok () =>
      match db.userById userId with
      | none => .refused (.notFound accountGone)
      | some user =>
        if !env.verifyPassword current user.passwordHash then .refused invalidCredentials
        else if env.verifyPassword new user.passwordHash then
          .refused (.invalidInput (.new "password_unchanged"
            "the new password must be different from the current one"))
        else .more (.settingPassword userId newHash fresh)

def Accounts.setPassword (newHash : Text) : Accounts :=
  db.updateUser userId (Account.withPassword newHash)

def Accounts.versionOf : Nat := ((db.userById userId).map (·.version)).getD 0

def resetRequest (email : Text) (resetId : Uuid) (code : Text) : Next :=
  if !env.mailer then
    .refused (.invalidInput (.new "password_reset_unavailable"
      "this server can't send email yet, so a password can't be reset by email"))
  else match db.userByEmail (normalizeEmail env.lower email) with
    | none => .done
    | some user => .more (.insertingReset user.id resetId code)

/-- Retires the codes an account has and inserts the new one. -/
def insertReset (userId resetId : Uuid) (code : Text) : Accounts × Next :=
  if db.passwordResets.any (·.id = resetId) ∨ (db.userById userId).isNone then
    (db, .refused databaseError)
  else
    ({ db with
      passwordResets :=
        ⟨resetId, userId, env.hashCode (normalizeCode code), now, now + codeLifetime, 0, none⟩ ::
          db.passwordResets.map fun reset =>
            if reset.userId = userId ∧ reset.usedAt = none then { reset with usedAt := some now }
            else reset }, .done)

def confirmReset (email code new newHash : Text) : Next :=
  match validatePassword new with
  | .error e => .refused e
  | .ok () =>
    match db.userByEmail (normalizeEmail env.lower email) with
    | none => .refused invalidCode
    | some user => .more (.findingReset user.id code newHash)

/-- `… ORDER BY created_at DESC LIMIT 1`. -/
def Accounts.pendingReset : Option PasswordReset :=
  ((db.passwordResets.filter fun reset =>
    reset.userId = userId ∧ reset.usedAt = none ∧ now < reset.expiresAt).insertionSort
      fun a b => b.createdAt ≤ a.createdAt).head?

def findReset (code newHash : Text) : Next :=
  match db.pendingReset now userId with
  | none => .refused invalidCode
  | some reset =>
    if maxAttempts ≤ reset.attempts then .refused invalidCode
    else if env.hashCode (normalizeCode code) ≠ reset.codeHash then
      .more (.countingAttempt reset.id)
    else .more (.resetting reset.id userId newHash)

def countAttempt (resetId : Uuid) : Accounts :=
  { db with
    passwordResets := db.passwordResets.map fun reset =>
      if reset.id = resetId then { reset with attempts := reset.attempts + 1 } else reset }

def spendReset (resetId userId : Uuid) (newHash : Text) : Accounts × Next :=
  let matching := fun reset : PasswordReset => reset.id = resetId ∧ reset.usedAt = none
  if db.passwordResets.any fun reset => matching reset then
    let db := ({ db with
      passwordResets := db.passwordResets.map fun reset =>
        if matching reset then { reset with usedAt := some now } else reset } :
      Accounts).setPassword userId newHash
    (db, .more (.revokingAll userId (db.versionOf userId) none))
  else (db, .refused invalidCode)

def twoFactorSetup (encrypted : Text) : Next :=
  if !env.cipher then .refused twoFactorUnavailable
  else match db.userById userId with
    | none => .refused databaseError
    | some user =>
      if user.twoFactorEnabled then
        .refused (.conflict (.new "two_factor_already_enabled"
          "two-factor sign-in is already on for this account"))
      else .more (.settingPending userId encrypted)

def twoFactorEnable (code : Text) (codes : List Text) : Next :=
  if !env.cipher then .refused twoFactorUnavailable
  else match db.userById userId with
    | none => .refused databaseError
    | some user =>
      match user.totpPendingSecret with
      | none =>
        .refused (.invalidInput (.new "two_factor_setup_missing" "start the two-factor setup again"))
      | some pending =>
        match env.decrypt userId pending with
        | none => .refused decryptFailed
        | some secret =>
          match verify env secret code now none with
          | none => .refused (.invalidInput twoFactorInvalidDetail)
          | some step => .more (.enabling userId pending step codes)

/-- The transaction of `two_factor_enable`: whatever is pending now becomes the secret. -/
def enable (step : Int) (codes : List Text) : Accounts × Next :=
  let hashes := codes.map fun code => env.hash (normalizeRecoveryCode code)
  if hashes.Nodup then
    let db := db.updateUser userId (Account.enabled now step)
    ({ db with
      recoveryCodes := hashes.map (⟨userId, ·, none⟩) ++
        db.recoveryCodes.filter (·.userId ≠ userId) }, .done)
  else (db, .refused databaseError)

def twoFactorDisable (password : Text) (totpCode recoveryCode : Option Text) :
    Next :=
  match db.userById userId with
  | none => .refused databaseError
  | some user =>
    if maxPasswordLen < byteLen password || !env.verifyPassword password user.passwordHash then
      .refused invalidCredentials
    else if !user.twoFactorEnabled then
      .refused (.conflict (.new "two_factor_not_enabled"
        "two-factor sign-in isn't on for this account"))
    else .more (.factor userId totpCode recoveryCode .disable)

def disable : Accounts :=
  let db := db.updateUser userId Account.disabled
  { db with recoveryCodes := db.recoveryCodes.filter (·.userId ≠ userId) }

/-- The statement a task is about to run. -/
def Task.run : Task → Accounts × Next
  | .extract userId request => (db, authUser db userId request)
  | .start (.login email password totpCode recoveryCode fresh) =>
    (db, login env db email password totpCode recoveryCode fresh)
  | .start (.refresh raw fresh) => (db, verifyToken env now db raw fresh)
  | .start (.logout raw) => (revoke env now db raw, .done)
  | .start (.changePassword userId current new newHash fresh) =>
    (db, changePassword env db userId current new newHash fresh)
  | .start (.resetRequest email resetId code) => (db, resetRequest env db email resetId code)
  | .start (.resetConfirm email code new newHash) => (db, confirmReset env db email code new newHash)
  | .start (.twoFactorSetup userId encrypted) => (db, twoFactorSetup env db userId encrypted)
  | .start (.twoFactorEnable userId code codes) => (db, twoFactorEnable env now db userId code codes)
  | .start (.twoFactorDisable userId password totpCode recoveryCode) =>
    (db, twoFactorDisable env db userId password totpCode recoveryCode)
  | .factor userId totpCode recoveryCode after =>
    (db, checkSecondFactor env now db userId totpCode recoveryCode after)
  | .useCode userId step after => recordCode db userId step after
  | .useRecoveryCode userId codeHash after => spendRecoveryCode now db userId codeHash after
  | .issue userId version fresh => issueToken env now db userId version fresh
  | .rotating row fresh => rotateToken env now db row fresh
  | .settingPassword userId newHash fresh =>
    let db := db.setPassword userId newHash
    (db, .more (.revokingAll userId (db.versionOf userId) (some fresh)))
  | .revokingAll userId version fresh =>
    (revokeAllForUser now db userId,
      match fresh with
      | some fresh => .more (.issue userId version fresh)
      | none => .done)
  | .insertingReset userId resetId code => insertReset env now db userId resetId code
  | .findingReset userId code newHash => (db, findReset env now db userId code newHash)
  | .countingAttempt resetId => (countAttempt db resetId, .refused invalidCode)
  | .resetting resetId userId newHash => spendReset now db resetId userId newHash
  | .settingPending userId encrypted =>
    (db.updateUser userId fun user => { user with totpPendingSecret := some encrypted }, .done)
  | .enabling userId _ step codes => enable env now db userId step codes
  | .disabling userId => (disable db userId, .done)

end

/-! ## The service -/

inductive Event where
  | arrive (request : Request)
  | run (i : Nat) (now : Int)
  | abort (i : Nat)
  deriving DecidableEq

structure World where
  db : Accounts
  tasks : List Task
  deriving DecidableEq

def advanced (tasks : List Task) (i : Nat) : Next → List Task
  | .more task => tasks.set i task
  | .done => tasks.eraseIdx i
  | .refused _ => tasks.eraseIdx i

def World.next (env : Env) (w : World) : Event → World
  | .arrive request => { w with tasks := request.first :: w.tasks }
  | .run i now =>
    match w.tasks[i]? with
    | none => w
    | some task =>
      ⟨(task.run env now w.db).1, advanced w.tasks i (task.run env now w.db).2⟩
  | .abort i => { w with tasks := w.tasks.eraseIdx i }

abbrev Runs (env : Env) := Run fun w e w' => w' = World.next env w e

theorem mem_advanced {tasks : List Task} {i : Nat} {n : Next} {task : Task}
    (h : task ∈ advanced tasks i n) : task ∈ tasks ∨ n = .more task := by
  cases n with
  | more next =>
    rcases List.mem_or_eq_of_mem_set h with h | rfl
    · exact .inl h
    · exact .inr rfl
  | done | refused e => exact .inl (List.mem_of_mem_eraseIdx h)

/-- One step: a statement of a task in flight, or a change of the tasks alone. -/
theorem World.next_cases (env : Env) (w : World) (e : Event) :
    (∃ i now task, e = .run i now ∧ w.tasks[i]? = some task ∧
      w.next env e = ⟨(task.run env now w.db).1, advanced w.tasks i (task.run env now w.db).2⟩) ∨
    (w.next env e).db = w.db ∧ ∀ task ∈ (w.next env e).tasks,
      task ∈ w.tasks ∨ ∃ request : Request, task = request.first := by
  cases e with
  | arrive request =>
    refine .inr ⟨rfl, fun task htask => ?_⟩
    rcases List.mem_cons.mp htask with rfl | htask
    · exact .inr ⟨request, rfl⟩
    · exact .inl htask
  | run i now =>
    cases hi : w.tasks[i]? with
    | none => exact .inr (by simpa [World.next, hi] using fun task htask => .inl htask)
    | some task => exact .inl ⟨i, now, task, rfl, hi, by simp [World.next, hi]⟩
  | abort i => exact .inr ⟨rfl, fun task htask => .inl (List.mem_of_mem_eraseIdx htask)⟩

/-! ## What a statement does to the tokens -/

theorem insertToken_ok {db t : Accounts} {token : RefreshToken} (h : db.insertToken token = .ok t) :
    (∀ other ∈ db.refreshTokens, other.id ≠ token.id ∧ other.tokenHash ≠ token.tokenHash) ∧
      t = { db with refreshTokens := token :: db.refreshTokens } := by
  unfold Accounts.insertToken at h
  split at h
  · cases h
  next hfree =>
  split at h
  · cases h
  · refine ⟨?_, (Except.ok.inj h).symm⟩
    simpa [not_or] using hfree

theorem issueToken_cases (env : Env) (now : Int) (db : Accounts) (userId : Uuid) (version : Nat)
    (fresh : Fresh) : (issueToken env now db userId version fresh).1 = db ∨
      db.insertToken ⟨fresh.id, userId, env.hash fresh.raw, now, now + refreshTokenTtl, none,
        version, none⟩ = .ok (issueToken env now db userId version fresh).1 := by
  unfold issueToken
  split
  · exact .inl rfl
  · next hok => exact .inr hok

theorem rotateToken_cases (env : Env) (now : Int) (db : Accounts) (row : RefreshToken)
    (fresh : Fresh) :
    (rotateToken env now db row fresh).1 = db ∧ (rotateToken env now db row fresh).2 ≠ .done ∨
      (rotateToken env now db row fresh).2 = .done ∧
        (db.revokeWhere now (·.id = row.id)).insertToken ⟨fresh.id, row.userId, env.hash fresh.raw,
          now, now + refreshTokenTtl, none, row.version, some row.id⟩ =
          .ok (rotateToken env now db row fresh).1 := by
  unfold rotateToken
  split
  · exact .inl ⟨rfl, by simp⟩
  · next hok => exact .inr ⟨rfl, hok⟩

/-! ## What a statement does to the accounts -/

/-- The account a statement may update, and what it sets there. -/
def Task.sets (now : Int) : Task → Option (Uuid × (Account → Account))
  | .useCode userId step _ => some (userId, fun user => { user with totpLastStep := some step })
  | .settingPassword userId newHash _ => some (userId, Account.withPassword newHash)
  | .resetting _ userId newHash => some (userId, Account.withPassword newHash)
  | .settingPending userId encrypted =>
    some (userId, fun user => { user with totpPendingSecret := some encrypted })
  | .enabling userId _ step _ => some (userId, Account.enabled now step)
  | .disabling userId => some (userId, Account.disabled)
  | _ => none

/-- **The accounts stay, or one of them is updated.** -/
theorem Task.run_users (env : Env) (now : Int) (db : Accounts) (task : Task) :
    (task.run env now db).1.users = db.users ∨ ∃ userId set, task.sets now = some (userId, set) ∧
      (task.run env now db).1.users = (db.updateUser userId set).users := by
  cases task with
  | start request => cases request <;> exact .inl rfl
  | issue userId version fresh =>
    left
    rcases issueToken_cases env now db userId version fresh with hsame | hok
    · exact congrArg Accounts.users hsame
    · have husers := congrArg Accounts.users (insertToken_ok hok).2
      exact husers
  | rotating row fresh =>
    left
    rcases rotateToken_cases env now db row fresh with ⟨hsame, -⟩ | ⟨-, hok⟩
    · exact congrArg Accounts.users hsame
    · have husers := congrArg Accounts.users (insertToken_ok hok).2
      exact husers
  | _ =>
    unfold Task.run recordCode spendRecoveryCode insertReset spendReset enable
    dsimp only
    repeat' split
    all_goals first | exact .inl rfl | exact .inr ⟨_, _, rfl, rfl⟩

theorem Task.sets_id {now : Int} {task : Task} {userId : Uuid} {set : Account → Account}
    (h : task.sets now = some (userId, set)) (user : Account) : (set user).id = user.id := by
  unfold Task.sets at h
  split at h <;> cases h <;> rfl

theorem userById_updateUser {db : Accounts} {userId : Uuid} {set : Account → Account}
    (hid : ∀ user, (set user).id = user.id) (id : Uuid) :
    (db.updateUser userId set).userById id =
      (db.userById id).map fun user => if user.id = userId then set user else user := by
  unfold Accounts.userById Accounts.updateUser
  rw [List.find?_map]
  congr 1
  refine List.find?_congr fun user _ => ?_
  simp only [Function.comp_apply]
  split
  · rw [hid]
  · rfl

/-! ## How a request goes on -/

/-- The password version a login had checked when it asked for the second factor. -/
def After.version : After → Option Nat
  | .login version _ => some version
  | .disable => none

/-- The session a task is about to open or to carry on: its account, and the version of the password
it was opened with. -/
def Task.session : Task → Option (Uuid × Nat)
  | .factor userId _ _ after => after.version.map (userId, ·)
  | .useCode userId _ after => after.version.map (userId, ·)
  | .useRecoveryCode userId _ after => after.version.map (userId, ·)
  | .issue userId version _ => some (userId, version)
  | .rotating row _ => some (row.userId, row.version)
  | .revokingAll userId version (some _) => some (userId, version)
  | _ => none

/-- Neither a rotation nor a revocation. -/
def Task.plain : Task → Bool
  | .rotating .. => false
  | .revokingAll .. => false
  | _ => true

/-- The tasks one statement leads to, and what it has found. -/
inductive Leads (env : Env) (now : Int) (db : Accounts) : Task → Task → Prop where
  /-- The session is the one the task had, or of an account that was just read. -/
  | other {task task' : Task} : task'.plain = true →
    (∀ session ∈ task'.session, task.session = some session ∨
      ∃ user ∈ db.users, session = (user.id, user.version)) → Leads env now db task task'
  | refresh {raw : Text} {fresh : Fresh} {row : RefreshToken} :
    row ∈ db.refreshTokens → row.revokedAt = none →
    Leads env now db (.start (.refresh raw fresh)) (.rotating row fresh)
  | passwordSet {userId : Uuid} {newHash : Text} {fresh : Fresh} :
    Leads env now db (.settingPassword userId newHash fresh)
      (.revokingAll userId ((db.setPassword userId newHash).versionOf userId) (some fresh))
  | reset {userId resetId : Uuid} {newHash : Text} :
    Leads env now db (.resetting resetId userId newHash)
      (.revokingAll userId
        (((Task.resetting resetId userId newHash).run env now db).1.versionOf userId) none)

section

variable {env : Env} {now : Int} {db : Accounts} {task task' : Task}

theorem Leads.idle (hplain : task'.plain = true) (hsession : task'.session = none) :
    Leads env now db task task' :=
  .other hplain (by simp [hsession])

theorem Leads.carried (hplain : task'.plain = true) (hsession : task'.session = task.session) :
    Leads env now db task task' :=
  .other hplain fun _ h => .inl (hsession ▸ h)

variable {fresh : Fresh}

theorem login_more {email password : Text} {totpCode recoveryCode : Option Text}
    (h : login env db email password totpCode recoveryCode fresh = .more task) :
    ∃ user ∈ db.users,
      user.twoFactorEnabled = false ∧ task = .issue user.id user.version fresh ∨
      user.twoFactorEnabled = true ∧
        task = .factor user.id totpCode recoveryCode (.login user.version fresh) := by
  unfold login at h
  split at h
  · cases h
  split at h
  · cases h
  next user hfind =>
  refine ⟨user, List.mem_of_find?_eq_some hfind, ?_⟩
  split at h
  · cases h
  split at h
  · next henabled => exact .inr ⟨henabled, (Next.more.inj h).symm⟩
  · next hoff => exact .inl ⟨by simpa using hoff, (Next.more.inj h).symm⟩

theorem verifyToken_more {raw : Text} (h : verifyToken env now db raw fresh = .more task) :
    ∃ row ∈ db.refreshTokens, row.revokedAt = none ∧ task = .rotating row fresh := by
  unfold verifyToken at h
  split at h
  · cases h
  next row hfind =>
  split at h
  · cases h
  next hlive =>
  split at h
  · cases h
  · exact ⟨row, List.mem_of_find?_eq_some hfind, by simpa using hlive, (Next.more.inj h).symm⟩

theorem After.next_more {after : After} {userId : Uuid} (h : after.next userId = .more task) :
    task.plain = true ∧ task.session = after.version.map (userId, ·) := by
  cases after <;> cases h <;> exact ⟨rfl, rfl⟩

/-- **A request goes on only along these lines.** -/
theorem Task.leads (hrun : (task.run env now db).2 = .more task') : Leads env now db task task' := by
  cases task with
  | start request =>
    cases request with
    | login email password totpCode recoveryCode fresh =>
      obtain ⟨user, huser, ⟨-, rfl⟩ | ⟨-, rfl⟩⟩ := login_more hrun <;>
        exact .other rfl fun _ h => .inr ⟨user, huser, (Option.some.inj h).symm⟩
    | refresh raw fresh =>
      obtain ⟨row, hrow, hlive, rfl⟩ := verifyToken_more hrun
      exact .refresh hrow hlive
    | logout raw => cases hrun
    | _ =>
      simp only [Task.run, changePassword, resetRequest, confirmReset, twoFactorSetup,
        twoFactorEnable, twoFactorDisable] at hrun
      repeat' split at hrun
      all_goals cases hrun
      exact .idle rfl rfl
  | factor userId totpCode recoveryCode after =>
    change checkSecondFactor env now db userId totpCode recoveryCode after = .more task' at hrun
    unfold checkSecondFactor at hrun
    split at hrun
    · cases hrun
    split at hrun
    · exact .carried (After.next_more hrun).1 (After.next_more hrun).2
    · repeat' split at hrun
      all_goals cases hrun
      · exact .carried rfl rfl
      · exact .carried rfl rfl
  | useCode userId step after =>
    simp only [Task.run, recordCode] at hrun
    repeat' split at hrun
    · cases hrun
    · exact .carried (After.next_more hrun).1 (After.next_more hrun).2
    · cases hrun
  | useRecoveryCode userId codeHash after =>
    simp only [Task.run, spendRecoveryCode] at hrun
    split at hrun
    · exact .carried (After.next_more hrun).1 (After.next_more hrun).2
    · cases hrun
  | settingPassword userId newHash fresh =>
    obtain rfl := Next.more.inj hrun
    exact .passwordSet
  | revokingAll userId version fresh =>
    cases fresh with
    | none => cases hrun
    | some fresh =>
      obtain rfl := Next.more.inj hrun
      exact .carried rfl rfl
  | resetting resetId userId newHash =>
    simp only [Task.run, spendReset] at hrun
    split at hrun
    · next hany =>
      obtain rfl := Next.more.inj hrun
      have hreset := @Leads.reset env now db userId resetId newHash
      simpa only [Task.run, spendReset, if_pos hany] using hreset
    · cases hrun
  | countingAttempt resetId | settingPending userId encrypted | disabling userId => cases hrun
  | _ =>
    simp only [Task.run, authUser, issueToken, rotateToken, insertReset, findReset, enable] at hrun
    repeat' split at hrun
    all_goals cases hrun
    all_goals exact .idle rfl rfl

end

end VibeSsh.Backend.Auth
