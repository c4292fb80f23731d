import RiAuth.Identity.Factors
import RiAuth.Identity.PasswordHistory

/-!
# Transactions that verify a credential

Password sign-in, password changes, the password and code steps of workflows, Windows sign-in and
the sign-ins of imported directories and upstream sources. All but the last two share the attempts
row of the username: none of them goes on while the row is locked, and a wrong credential is charged
to it.

Comparing a password with a hash takes long, and most of these requests do it outside of their
transaction. The outcome does not depend on the store, so that it stands where it is used.
-/

namespace RiAuth.Identity

open Checks PasswordHistory

/-! ## The attempts row -/

/-- How long an account stays locked. -/
def lockoutSeconds : ℕ := 900

/-- The failures that lock an account. -/
def lockoutFailures : ℕ := 5

/-- Whether a username has to wait. -/
def locked (s : Accounts) (username : Text) (now : ℕ) : Bool :=
  (s.attempts username).any fun attempts => now < attempts.lockedUntil

/-- One more failed attempt of a username. -/
def failAttempt (s : Accounts) (username : Text) (now : ℕ) : Accounts :=
  let row := Budget.charge lockoutSeconds lockoutFailures now (s.attempts username)
  { s with attempts := Function.update s.attempts username (some row) }.note [.failed username now]

/-- `record_failure`. -/
def recordFailure (s : Accounts) (user : User) (now : ℕ) : Accounts :=
  failAttempt s user.username now

/-- `record_credential_failure` of the workflow executor. -/
def recordCredentialFailure (s : Accounts) (user : User) (now : ℕ) : Accounts :=
  failAttempt s user.username now

/-- `charge` of Windows sign-in: only usernames that exist are counted, and a locked row does not
start a new window. -/
def charge (s : Accounts) (username : Text) (now : ℕ) : Accounts :=
  match s.usernames username with
  | none => s
  | some _ =>
    let row := (s.attempts username).getD ⟨0, 0, 0⟩
    let row := if row.lockedUntil ≤ now ∧ 900 ≤ now - row.windowStart then ⟨0, now, 0⟩ else row
    let row : Attempts := ⟨row.failures + 1, row.windowStart,
      if 5 ≤ row.failures + 1 then now + 900 else row.lockedUntil⟩
    { s with attempts := Function.update s.attempts username (some row) }.note
      [.failed username now]

/-! ## Passwords -/

/-- The hash that a password is compared with; an account without a password costs the same. -/
def hashToVerify (c : Credentials) (user : Option User) : Text :=
  ((user.map User.passwordHash).filter (· ≠ [])).getD c.dummyHash

/-- The form in which a password that matched should be kept, if it is another one. -/
def newForm (c : Credentials) (matched : Bool) (salt : ℕ) (password hash : Text) :
    Result (Option Text) :=
  if matched then c.upgradePasswordHash salt password hash else .ok none

/-- `require_local`: self-service changes only a password that this server verifies. -/
def requireLocal (s : Accounts) (user : User) : Result Unit :=
  if (s.directoryUsers user.id).isSome then
    .error ⟨409, "password_unavailable",
      "Your organization's directory manages this password. Change it there."⟩
  else if user.passwordHash = [] then
    .error ⟨409, "password_unavailable", "This account has no password to change. " ++
      "It signs in with a passkey or another account."⟩
  else .ok ()

/-- `replace`: a verified replacement, with its history, a new epoch and the attempts forgotten. -/
def replacePassword (c : Credentials) (limit : ℕ) (s : Accounts) (user : User)
    (plaintext hash : Text) : Result Accounts := do
  let history ← accept c limit s.passwordHistory user.id user.passwordHash plaintext hash
  let user := { user with passwordHash := hash, epoch := user.epoch + 1 }
  let s := { s with passwordHistory := history }.putUser user
  .ok ((s.clearAttempts user.username).note [.chosen user.id plaintext])

section

variable (c : Credentials) (limit : ℕ) (call : Call)

/-! ## Password sign-in -/

/-- The second factor of a sign-in whose password matched. -/
def loginFactor (user : Option User) (matched : Bool) (otp : Option Text) :
    Result (Option (User × List Fact)) :=
  match user with
  | none => .ok none
  | some user =>
    if matched = true ∧ user.passwordHash ≠ [] ∧ user.enabled = true then
      consumePasswordFactor c user otp call.now
    else .ok none

/-- The hash of today's form is written, and noted in the history. -/
def rehash (s : Accounts) (user : User) : Option Text → Accounts
  | none => s.putUser user
  | some hash =>
    let history := noteRehash limit s.passwordHistory user.id user.passwordHash hash
    { s with passwordHistory := history }.putUser { user with passwordHash := hash }

/-- `password_login` of an account that no directory manages. -/
def passwordLogin (username password : Text) (otp : Option Text) (salt : ℕ) (s : Accounts) :
    Transaction := do
  call.before
  if locked s username call.now then .ok (s, .error rateLimited)
  else
    let user := s.named username
    let hash := hashToVerify c user
    let matched := c.passwordMatches password hash
    let upgraded ← newForm c matched salt password hash
    let spent ← loginFactor c call user matched otp
    match spent with
    | none =>
      .ok (if user.isSome then failAttempt s username call.now else s, .error invalidCredentials)
    | some (user, facts) =>
      let answer ← call.after
      .ok (((rehash limit s user upgraded).clearAttempts username).note facts, answer)

/-! ## Accounts of imported directories -/

/-- The directory that answers for a username. -/
def directoryBinding (s : Accounts) (username : Text) : Option Binding :=
  (s.usernames username).bind s.directoryUsers

/-- The first transaction of `directory_login`. The directory is asked about the password next. -/
def directoryAttempt (binding : Binding) (s : Accounts) : Transaction := do
  call.before
  let attempts := (s.directoryAttempts binding.userId).getD ⟨0, 0⟩
  let attempts := if attempts.start + 900 ≤ call.now then ⟨call.now, 0⟩ else attempts
  require (attempts.count < 5) ⟨429, "rate_limited", "Too many login attempts"⟩
  require ((s.users binding.userId).isSome = true) .unauthorized
  let row : DirectoryAttempts := ⟨attempts.start, attempts.count + 1⟩
  .ok ({ s with
    directoryAttempts := Function.update s.directoryAttempts binding.userId (some row) }, .ok ())

/-- The second transaction of `directory_login`, with what the directory said. -/
def directoryLogin (binding : Binding) (epoch : ℕ) (authenticated : Bool) (otp : Option Text)
    (s : Accounts) : Transaction := do
  let user ← okOr (s.users binding.userId) .unauthorized
  let current ← okOr (s.directoryUsers user.id) .unauthorized
  let valid := authenticated && user.enabled && !user.admin && user.epoch = epoch &&
    current.dn = binding.dn && current.externalId = binding.externalId &&
    current.identityFingerprint = binding.identityFingerprint
  let spent ← (if valid then consumePasswordFactor c user otp call.now else .ok none :
    Result (Option (User × List Fact)))
  match spent with
  | none => .ok (s, .error invalidCredentials)
  | some (user, facts) =>
    let answer ← call.after
    let s := { s with directoryAttempts := Function.update s.directoryAttempts user.id none }
    .ok ((s.putUser user).note facts, answer)

/-! ## Password changes

A change and a workflow step hash between two transactions: the first pins the account, the second
looks again. -/

/-- An account whose password may be looked at, as a request finds it before it hashes. -/
def pinPassword (userId : Text) (missing : Error) (s : Accounts) : Result User := do
  call.before
  let user ← okOr (s.users userId) missing
  requireLocal s user
  require (locked s user.username call.now = false) rateLimited
  .ok user

/-- The read with which `password_change` starts. -/
def pinPasswordChange (userId : Text) := pinPassword call userId .unauthorized

/-- The transaction with which `workflow_password` reserves its attempt. -/
def reserveWorkflowPassword (account : Text) := pinPassword call account .forbidden

/-- `password_change`: `pinned` is the account as the request found it before hashing. -/
def changePassword (pinned : User) (current password : Text) (otp : Option Text) (salt : ℕ)
    (s : Accounts) : Transaction := do
  let newHash ← c.passwordHash salt password
  call.before
  let user ← okOr (s.users pinned.id) .unauthorized
  require (user.epoch = pinned.epoch ∧ user.username = pinned.username ∧
    user.passwordHash = pinned.passwordHash) .forbidden
  requireLocal s user
  if locked s user.username call.now then .ok (s, .error rateLimited)
  else
    let matched := c.passwordMatches current pinned.passwordHash
    let spent ← (if matched then consumePasswordFactor c user otp call.now else .ok none :
      Result (Option (User × List Fact)))
    match spent with
    | none => .ok (failAttempt s user.username call.now, .error invalidCredentials)
    | some (user, facts) => do
      let s ← replacePassword c limit s user password newHash
      let answer ← call.after
      .ok (s.note facts, answer)

/-- The answer to a wrong current password. -/
def invalidCurrentPassword : Error :=
  ⟨403, "invalid_current_password", "Your current password is incorrect"⟩

/-- `portal_password_change`. -/
def portalPasswordChange (userId current password : Text) (salt : ℕ) (s : Accounts) :
    Transaction := do
  let hash ← c.passwordHash salt password
  call.before
  let user ← okOr (s.users userId) .unauthorized
  requireLocal s user
  if locked s user.username call.now then .ok (s, .error rateLimited)
  else if c.passwordMatches current user.passwordHash then do
    let s ← replacePassword c limit s user password hash
    let answer ← call.after
    .ok (s, answer)
  else .ok (recordFailure s user call.now, .error invalidCurrentPassword)

/-! ## Workflow steps -/

/-- The second transaction of `workflow_password`; `username` and `hash` are those of the
reservation, and `finished` says that the run ends authenticated. -/
def workflowPassword (account username hash password : Text) (finished : Bool) (s : Accounts) :
    Transaction := do
  call.before
  let user ← okOr (s.users account) .forbidden
  requireLocal s user
  require (user.username = username ∧ user.passwordHash = hash) .forbidden
  if locked s user.username call.now then .ok (s, .error rateLimited)
  else if c.passwordMatches password hash then do
    let answer ← call.after
    .ok (if finished then s.clearAttempts user.username else s, answer)
  else .ok (recordCredentialFailure s user call.now, .ok ())

/-- What a workflow step asks for. -/
inductive CodeFactor where
  | totp
  | recoveryCode
deriving DecidableEq

/-- A one-time or recovery code. -/
def verifyCode (user : User) (code : Text) : CodeFactor → Result (Option (User × List Fact))
  | .totp => do
    let secret ← okOr user.totpSecret .forbidden
    consumeTotp c user secret code call.now
  | .recoveryCode => .ok (consumeRecoveryCode c user code)

/-- `verify_code_in` of the workflow executor. -/
def workflowCode (account code : Text) (factor : CodeFactor) (s : Accounts) : Transaction := do
  call.before
  let user ← okOr (s.users account) .forbidden
  if locked s user.username call.now then .ok (s, .error rateLimited)
  else
    let spent ← verifyCode c call user code factor
    match spent with
    | none => .ok (recordCredentialFailure s user call.now, .ok ())
    | some (user, facts) =>
      let answer ← call.after
      .ok (((s.putUser user).clearAttempts user.username).note facts, answer)

/-! ## Windows sign-in -/

/-- The one answer to a wrong Windows sign-in. -/
def windowsInvalid : Error :=
  ⟨401, "invalid_credentials", "Invalid device, username, password, or one-time code"⟩

/-- A second factor is missing. -/
def mfaRequired : Error := ⟨401, "mfa_required", "One-time code required"⟩

/-- A session presented instead of a password: whose it is, when it was authenticated and whether
with a second factor. -/
structure ReauthSession where
  userId : Text
  authTime : ℕ
  mfa : Bool
deriving DecidableEq

/-- What a Windows sign-in presents; a session that is not live is `none`. -/
inductive WindowsProof where
  | password (password : Text) (otp : Option Text) (salt : ℕ)
  | reauth (session : Result (Option ReauthSession))

/-- How the proof was judged. -/
inductive Factor where
  | ok (user : User) (facts : List Fact) (upgraded : Option Text)
  | mfaRequired
  | reject

/-- `verify_password` of Windows sign-in. -/
def verifyPassword (user : User) (password : Text) (otp : Option Text) (salt : ℕ) :
    Result Factor := do
  let hash := hashToVerify c (some user)
  let matched := c.passwordMatches password hash
  let upgraded ← newForm c matched salt password hash
  if matched = false ∨ user.passwordHash = [] then .ok .reject
  else
    match user.totpSecret with
    | none => .ok (.ok user [] upgraded)
    | some secret =>
      match otp with
      | none => .ok .mfaRequired
      | some code =>
        let spent ← consumeFactor c user secret (some code) call.now
        match spent with
        | none => .ok .reject
        | some (user, facts) => .ok (.ok user facts upgraded)

/-- `verify_reauth`. -/
def verifyReauth (user : User) (session : Result (Option ReauthSession)) : Result Factor := do
  let session ← session
  match session with
  | none => .ok .reject
  | some session =>
    if session.userId ≠ user.id ∨ 300 < call.now - session.authTime then .ok .reject
    else if user.totpSecret.isSome = true ∧ session.mfa = false then .ok .mfaRequired
    else .ok (.ok user [] none)

/-- The proof of a Windows sign-in. -/
def verifyProof (user : User) : WindowsProof → Result Factor
  | .password password otp salt => verifyPassword c call user password otp salt
  | .reauth session => verifyReauth call user session

/-- The hash of today's form is written. The password history is left alone. -/
def upgradeInPlace (user : User) : Option Text → User
  | none => user
  | some hash => { user with passwordHash := hash }

/-- `windows_login_write`. -/
def windowsLogin (deviceId username deviceSecret : Text) (proof : WindowsProof) (s : Accounts) :
    Transaction :=
  if locked s username call.now then .ok (s, .error rateLimited)
  else
    match (s.devices deviceId).filter fun device => c.digest deviceSecret = device.secretHash with
    | none => .ok (charge s username call.now, .error windowsInvalid)
    | some device => do
      let user ← okOr (s.users device.userId) windowsInvalid
      if device.revoked = true ∨ user.enabled = false ∨ device.username ≠ username ∨
          user.username ≠ username then
        .ok (charge s username call.now, .error windowsInvalid)
      else do
        let factor ← verifyProof c call user proof
        match factor with
        | .mfaRequired => .ok (s, .error mfaRequired)
        | .reject => .ok (charge s username call.now, .error windowsInvalid)
        | .ok user facts upgraded =>
          let user := upgradeInPlace user upgraded
          .ok (((s.putUser user).clearAttempts user.username).note facts, .ok ())

/-! ## Upstream sources -/

/-- `source_finish` for an account that exists; `mfa` says that the source vouched for a second
factor. -/
def sourceFinish (userId : Text) (mfa : Bool) (otp : Option Text) (s : Accounts) : Transaction := do
  call.before
  let user ← okOr (s.users userId) .forbidden
  let spent ← (if mfa then .ok (some (user, [])) else consumePasswordFactor c user otp call.now :
    Result (Option (User × List Fact)))
  match spent with
  | none => .ok (s, .error .unauthorized)
  | some (user, facts) =>
    let answer ← call.after
    .ok ((s.putUser user).note facts, answer)

end

end RiAuth.Identity
