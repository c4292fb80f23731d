import RiAuth.Identity.SignIn

/-!
# Transactions that write a credential

Creation of accounts, the writers of passwords, the life of an authenticator app and its recovery
codes, and maintenance. Maintenance goes through its tables page by page; each row it visits is a
transaction of its own here.
-/

namespace RiAuth.Identity

open Checks PasswordHistory

section

variable (c : Credentials) (limit : ℕ) (call : Call)

/-! ## Accounts -/

/-- An account without an authenticator app. -/
def newUser (id username hash : Text) (admin enabled : Bool) : User :=
  { Authenticator.none with
    id := id, username := username, enabled := enabled, admin := admin, epoch := 0,
    hasPasskeys := false, passwordHash := hash }

/-- The hash of a password, with the salt to use; no password has an empty hash. -/
def initialHash : Option (Text × ℕ) → Result Text
  | none => .ok []
  | some (password, salt) => c.passwordHash salt password

/-- `create_user` and the bootstrap of an instance; directories, sources and provisioning create
accounts without a password. -/
def createUser (id username : Text) (password : Option (Text × ℕ)) (admin enabled : Bool)
    (s : Accounts) : Transaction := do
  let hash ← initialHash c password
  call.before
  require (s.usernames username = none) (.conflict "Username already exists")
  require (s.users id = none) (.conflict "User ID already belongs to another identity")
  let answer ← call.after
  let s := { s with
    passwordHistory := recordImportedHash limit s.passwordHistory id [] hash
    usernames := Function.update s.usernames username (some id) }
  .ok ((s.putUser (newUser id username hash admin enabled)).note
    (if hash = [] then [] else [.imported id hash]), answer)

/-- A directory takes an account over, or renames or releases it. -/
def bindDirectory (userId : Text) (binding : Option Binding)
    (usernames : Text → Option Text) (s : Accounts) : Transaction := do
  call.before
  let answer ← call.after
  .ok ({ s with
    usernames := usernames
    directoryUsers := Function.update s.directoryUsers userId binding }, answer)

/-- Enrolment and revocation of Windows devices. -/
def putDevice (device : WindowsDevice) (s : Accounts) : Transaction := do
  call.before
  let answer ← call.after
  .ok ({ s with devices := Function.update s.devices device.id (some device) }, answer)

/-- Any writer of an account that leaves its credentials alone. -/
def updateProfile (userId : Text) (enabled admin hasPasskeys : Bool) (epoch : ℕ) (s : Accounts) :
    Transaction := do
  call.before
  let user ← okOr (s.users userId) (.missing "User not found")
  let answer ← call.after
  .ok (s.putUser { user with
    enabled := enabled, admin := admin, hasPasskeys := hasPasskeys, epoch := epoch }, answer)

/-! ## Passwords -/

/-- A writer that sets a password given in clear: the history has to accept it, sessions end, and
`change` is what this writer does besides. -/
def setPassword (change : User → User) (userId plaintext : Text) (salt : ℕ) (s : Accounts) :
    Transaction := do
  call.before
  let user ← okOr (s.users userId) (.missing "User not found")
  let hash ← c.passwordHash salt plaintext
  let history ← accept c limit s.passwordHistory user.id user.passwordHash plaintext hash
  let answer ← call.after
  let user := change { user with passwordHash := hash, epoch := user.epoch + 1 }
  let s := { s with passwordHistory := history }.putUser user
  .ok ((s.clearAttempts user.username).note [.chosen user.id plaintext], answer)

/-- Authenticator and recovery codes go. -/
def User.resetFactors (user : User) : User :=
  { user with totpSecret := none, totpPending := none, totpLastStep := none, recoveryCodes := ∅ }

/-- The password of a user patch by an administrator. -/
def patchPassword := setPassword c limit call id

/-- The password of a provisioned user. -/
def scimPassword (enabled : Bool) :=
  setPassword c limit call fun user => { user with enabled := enabled }

/-- The password of a user in a manifest. -/
def manifestPassword (enabled admin : Bool) :=
  setPassword c limit call fun user => { user with enabled := enabled, admin := admin }

/-- `recover_admin` of a stopped store. -/
def recoverAdmin (resetMfa : Bool) :=
  setPassword c limit call fun user =>
    let user := { user with admin := true, enabled := true }
    if resetMfa then { user.resetFactors with hasPasskeys := false } else user

/-- A completed password reset; factors that the help desk has seen are removed. -/
def completeReset (exposed : Bool) :=
  setPassword c limit call fun user =>
    if exposed then { user with toAuthenticator := .none, hasPasskeys := false } else user

/-- An accepted invitation. -/
def acceptInvitation :=
  setPassword c limit call fun user => { user with enabled := true }

/-- The imported hash of a user in a manifest. -/
def importHash (userId hash : Text) (s : Accounts) : Transaction := do
  call.before
  let user ← okOr (s.users userId) (.missing "User not found")
  let imported ← c.validateImportedHash hash
  let answer ← call.after
  let s := { s with
    passwordHistory :=
      recordImportedHash limit s.passwordHistory user.id user.passwordHash imported }
  let user := { user with passwordHash := imported, epoch := user.epoch + 1 }
  .ok (((s.putUser user).clearAttempts user.username).note
    (if imported = [] then [] else [.imported user.id imported]), answer)

/-- A manifest that disables the password. -/
def disablePassword (userId : Text) (s : Accounts) : Transaction := do
  call.before
  let user ← okOr (s.users userId) (.missing "User not found")
  let answer ← call.after
  .ok (s.putUser { user with passwordHash := [], epoch := user.epoch + 1 }, answer)

/-! ## Authenticator apps -/

/-- No enrollment is under way. -/
def noPending : Error := ⟨400, "enrollment_not_found", "No pending MFA enrollment"⟩

/-- `pending`: the enrolment of this session for the epoch of the account. -/
def pending (s : Accounts) (user : User) (sessionId : Text) : Option (Enrollment × Text × ℕ) :=
  match user.totpPending with
  | none => none
  | some (secret, expiresAt) =>
    ((s.enrollments user.id).filter fun enrollment => enrollment.sessionId = sessionId ∧
      enrollment.epoch = user.epoch ∧ enrollment.secretHash = c.digest secret).map
      fun enrollment => (enrollment, secret, expiresAt)

/-- `totp_start_in`, with the secret it draws. -/
def totpStart (userId sessionId secret : Text) (replace : Bool) (s : Accounts) : Transaction := do
  call.before
  let user ← okOr (s.users userId) .unauthorized
  require (¬ (replace = false ∧ user.totpSecret.isSome = true)) (.conflict "MFA already enabled")
  require (¬ (replace = true ∧ user.totpSecret = none))
    (.conflict "No authenticator app to replace")
  let _ ← c.totp .default secret user.username
  let expiresAt := call.now + 600
  let row : Enrollment := ⟨sessionId, user.epoch, c.digest secret, expiresAt, replace⟩
  let s := { s with enrollments := Function.update s.enrollments user.id (some row) }
  .ok ((s.putUser { user with totpPending := some (secret, expiresAt) }).note
    [.drew user.id secret], .ok ())

/-- The account with a new authenticator app, whose first code was just accepted. -/
def User.withSecret (user : User) (secret : Text) (step : ℕ) (codes : List Text) : User :=
  { user with
    totpSecret := some secret, totpSettings := .default, totpPending := none,
    totpLastStep := some step, recoveryCodes := codes.toFinset, epoch := user.epoch + 1 }

/-- `totp_confirm_in`, with the recovery codes it draws. -/
def totpConfirm (userId sessionId code : Text) (codes : List Text) (s : Accounts) : Transaction := do
  call.before
  let user ← okOr (s.users userId) .unauthorized
  let (enrollment, secret, expiresAt) ← okOr (pending c s user sessionId) noPending
  require (call.now < expiresAt) ⟨400, "enrollment_expired", "Enrollment expired"⟩
  require (enrollment.replace = user.totpSecret.isSome) noPending
  let step ← totpStep c secret user.username code call.now none
  let step ← okOr step ⟨400, "invalid_code", "Invalid one-time code"⟩
  let answer ← call.after
  let digests := codes.map c.digest
  let s := { s with enrollments := Function.update s.enrollments user.id none }
  .ok ((s.putUser (user.withSecret secret step digests)).note
    (.code user.id secret step :: digests.map (.issued user.id)), answer)

/-- `totp_cancel_in`. -/
def totpCancel (userId sessionId : Text) (s : Accounts) : Transaction := do
  call.before
  let user ← okOr (s.users userId) .unauthorized
  if (pending c s user sessionId).isNone then .ok (s, .ok ())
  else
    let s := { s with enrollments := Function.update s.enrollments user.id none }
    .ok (s.putUser { user with totpPending := none }, .ok ())

/-- `totp_remove_in`. -/
def totpRemove (userId : Text) (s : Accounts) : Transaction := do
  call.before
  let user ← okOr (s.users userId) .unauthorized
  require (user.totpSecret.isSome = true) (.conflict "No authenticator app is set up")
  let answer ← call.after
  let s := { s with enrollments := Function.update s.enrollments user.id none }
  .ok (s.putUser { user with toAuthenticator := .none, epoch := user.epoch + 1 }, answer)

/-- `recovery_codes_in`, with the codes it draws. -/
def rotateRecoveryCodes (userId : Text) (codes : List Text) (s : Accounts) : Transaction := do
  call.before
  let user ← okOr (s.users userId) .unauthorized
  require (user.totpSecret.isSome = true)
    (.conflict "Set up an authenticator app before creating recovery codes")
  let digests := codes.map c.digest
  .ok ((s.putUser { user with recoveryCodes := digests.toFinset }).note
    (digests.map (.issued user.id)), .ok ())

/-- The factor reset of a user patch by an administrator. -/
def resetMfa (userId : Text) (s : Accounts) : Transaction := do
  call.before
  let user ← okOr (s.users userId) (.missing "User not found")
  require (user.passwordHash ≠ []) (.conflict
    "Passkey-only accounts cannot lose every sign-in credential through remote MFA reset")
  let answer ← call.after
  .ok (s.putUser { user.resetFactors with hasPasskeys := false, epoch := user.epoch + 1 }, answer)

/-- `import` of an authenticator app that a manifest brings in; `secret` is the decoded one. -/
def importTotp (userId : Text) (secret : Result Text) (settings : TotpSettings)
    (lastUsedStep : Option ℕ) (s : Accounts) : Transaction := do
  call.before
  let user ← okOr (s.users userId) (.missing "User not found")
  settings.validate
  let secret ← secret
  let current := call.now / settings.period
  require (∀ step ∈ lastUsedStep, step ≤ current + 1) (.bad "TOTP last-used step is in the future")
  let answer ← call.after
  .ok ((s.putUser { user with
      totpSecret := some secret, totpSettings := settings, totpPending := none,
      totpLastStep := some (max (lastUsedStep.getD 0) current), recoveryCodes := ∅,
      epoch := user.epoch + 1 }).note [.drew user.id secret], answer)

/-! ## Enrolment by a workflow -/

/-- `workflow_totp_change_begin`, with the secret it draws. -/
def reserveWorkflowTotp (run account secret : Text) (s : Accounts) : Transaction := do
  call.before
  let user ← okOr (s.users account) .forbidden
  let _ ← c.totp .default secret user.username
  .ok ({ s with
      workflowSecrets := Function.update s.workflowSecrets run (some (user.id, secret)) }.note
    [.drew user.id secret], .ok ())

/-- The reservation of a run ends: its time is over, or the run is. -/
def discardWorkflowTotp (run : Text) (s : Accounts) : Transaction := do
  call.before
  let answer ← call.after
  .ok ({ s with workflowSecrets := Function.update s.workflowSecrets run none }, answer)

/-- The way in which a workflow sets a second factor. -/
inductive WorkflowTotpChange where
  | passkeyEnroll
  | passwordEnroll
  | passkeyReplace
  | passwordReplace
deriving DecidableEq

/-- Whether an authenticator is replaced. -/
def WorkflowTotpChange.replace : WorkflowTotpChange → Bool
  | passkeyReplace | passwordReplace => true
  | passkeyEnroll | passwordEnroll => false

/-- Whether a passkey proved the user. -/
def WorkflowTotpChange.passkey : WorkflowTotpChange → Bool
  | passkeyEnroll | passkeyReplace => true
  | passwordEnroll | passwordReplace => false

/-- `workflow_totp_change_confirm` with `commit_workflow_totp_change_in`. A wrong code costs the
reservation. -/
def confirmWorkflowTotp (run code : Text) (change : WorkflowTotpChange) (s : Accounts) :
    Transaction := do
  call.before
  let (account, secret) ← okOr (s.workflowSecrets run) .forbidden
  let user ← okOr (s.users account) .forbidden
  let s := { s with workflowSecrets := Function.update s.workflowSecrets run none }
  let step ← totpStep c secret user.username code call.now none
  match step with
  | none => .ok (s, .ok ())
  | some step => do
    require (user.totpSecret.isSome = change.replace ∧ user.totpPending = none ∧
      user.hasPasskeys = change.passkey) .forbidden
    require (change.passkey = true ∨ locked s user.username call.now = false) rateLimited
    let answer ← call.after
    let s := { s with enrollments := Function.update s.enrollments user.id none }
    .ok ((s.putUser (user.withSecret secret step [])).note [.code user.id secret step], answer)

/-! ## Maintenance -/

/-- One row of the sweep over attempts. -/
def sweepAttempts (username : Text) (s : Accounts) : Transaction :=
  match s.attempts username with
  | none => .ok (s, .ok ())
  | some row =>
    if row.windowStart + 1800 < call.now then
      .ok ({ s with attempts := Function.update s.attempts username none }, .ok ())
    else .ok (s, .ok ())

/-- One row of the sweep over enrolments. -/
def sweepEnrollments (userId : Text) (s : Accounts) : Transaction :=
  match s.enrollments userId with
  | none => .ok (s, .ok ())
  | some enrollment =>
    if call.now < enrollment.expiresAt then .ok (s, .ok ())
    else
      let s := { s with enrollments := Function.update s.enrollments userId none }
      match s.users userId with
      | none => .ok (s, .ok ())
      | some user =>
        if user.totpPending.any fun pending => pending.2 ≤ call.now then
          .ok (s.putUser { user with totpPending := none }, .ok ())
        else .ok (s, .ok ())

end

end RiAuth.Identity
