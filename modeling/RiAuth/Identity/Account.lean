import Mathlib.Data.Finset.Basic
import RiAuth.Basic
import RiAuth.Lib.Budget
import RiAuth.Lib.Checks

/-!
# Accounts and their credentials

The tables that every sign-in path and every writer of credentials shares: accounts, the rows that
count failed attempts, the password history, enrolments of authenticator apps, imported directories
and Windows devices. Hashes, codes and random values come from a library (`Credentials`).

Counters and the clock are natural numbers; none of them gets near the width of its machine type.
-/

namespace RiAuth.Identity

open Checks

/-! ## Records -/

/-- How codes are computed. -/
structure TotpSettings where
  algorithm : Text
  digits : ℕ
  period : ℕ
deriving DecidableEq

namespace TotpSettings

/-- What authenticators assume. -/
def default : TotpSettings := ⟨"SHA1".toList, 6, 30⟩

/-- The settings that are accepted. -/
def validate (t : TotpSettings) : Result Unit :=
  require (t.algorithm ∈ ["SHA1".toList, "SHA256".toList, "SHA512".toList] ∧ t.digits ∈ [6, 8] ∧
      15 ≤ t.period ∧ t.period ≤ 120)
    (.bad "TOTP requires SHA1/SHA256/SHA512, 6/8 digits and a 15–120 second period")

end TotpSettings

/-- The authenticator app of an account and its recovery codes. -/
structure Authenticator where
  totpSecret : Option Text
  /-- A secret that waits for its first code, and until when. -/
  totpPending : Option (Text × ℕ)
  /-- The last time step for which a code was accepted. -/
  totpLastStep : Option ℕ
  totpSettings : TotpSettings
  /-- Digests of the recovery codes that are left. -/
  recoveryCodes : Finset Text
deriving DecidableEq

/-- No authenticator app. -/
def Authenticator.none : Authenticator := ⟨.none, .none, .none, .default, ∅⟩

/-- An account. An empty `passwordHash` means that it has no local password. -/
structure User extends Authenticator where
  id : Text
  username : Text
  enabled : Bool
  admin : Bool
  epoch : ℕ
  hasPasskeys : Bool
  passwordHash : Text
deriving DecidableEq

/-- The row that counts failed attempts of a username. -/
abbrev Attempts := Budget.Row

/-- Binds a pending secret to the session and the account epoch that started the enrolment. -/
structure Enrollment where
  sessionId : Text
  epoch : ℕ
  secretHash : Text
  expiresAt : ℕ
  replace : Bool
deriving DecidableEq

/-- An account that an imported directory manages. -/
structure Binding where
  directory : Text
  identityFingerprint : Text
  externalId : Text
  userId : Text
  dn : Text
deriving DecidableEq

/-- The attempts of a directory account, counted apart from the others. -/
structure DirectoryAttempts where
  start : ℕ
  count : ℕ
deriving DecidableEq

/-- The row of an enrolled device. -/
structure WindowsDevice where
  id : Text
  userId : Text
  username : Text
  secretHash : Text
  revoked : Bool
deriving DecidableEq

/-- What a committed transaction did to the credentials of an account. -/
inductive Fact where
  /-- A failed attempt was recorded for the username. -/
  | failed (username : Text) (at_ : ℕ)
  /-- The attempts of the username were forgotten: it signed in, or its credentials were reset. -/
  | cleared (username : Text)
  /-- A secret of an authenticator app was drawn or brought in for the account. -/
  | drew (userId secret : Text)
  /-- A recovery code with this digest was issued. -/
  | issued (userId digest : Text)
  /-- A code of the secret was accepted for the time step. -/
  | code (userId secret : Text) (step : ℕ)
  /-- The recovery code with this digest was accepted. -/
  | recovery (userId digest : Text)
  /-- A new password was accepted. -/
  | chosen (userId plaintext : Text)
  /-- A password was set by its hash. -/
  | imported (userId hash : Text)
deriving DecidableEq

/-- The tables. `workflowSecrets` are the accounts and secrets of the enrolments that workflow runs
have reserved. No transaction reads `trail`: it lists what was done, newest first. -/
structure Accounts where
  users : Text → Option User
  usernames : Text → Option Text
  attempts : Text → Option Attempts
  passwordHistory : Text → Option (List Text)
  enrollments : Text → Option Enrollment
  workflowSecrets : Text → Option (Text × Text)
  directoryUsers : Text → Option Binding
  directoryAttempts : Text → Option DirectoryAttempts
  devices : Text → Option WindowsDevice
  trail : List Fact

/-- The hash and code library, with the salts it draws made explicit. -/
structure Credentials where
  digest : Text → Text
  passwordMatches : (password hash : Text) → Bool
  passwordHash : (salt : ℕ) → (password : Text) → Result Text
  /-- A hash of today's form for a password that matches an older one. -/
  upgradePasswordHash : (salt : ℕ) → (password old : Text) → Result (Option Text)
  validateImportedHash : Text → Result Text
  /-- The code of each point in time, unless the secret is unusable. -/
  totp : TotpSettings → (secret username : Text) → Result (ℕ → Text)
  /-- Verified in place of an account that has no password. -/
  dummyHash : Text

/-- What a transaction gets from elsewhere: the time, the outcome of the checks that do not concern
credentials, and the answer of what it goes on to do once the credentials are written. An error of
the answer itself is committed; any other error rolls the transaction back. -/
structure Call where
  now : ℕ
  before : Result Unit
  after : Result (Result Unit)

/-- A transaction that commits, with its answer, or an error that rolls it back. -/
abbrev Transaction := Result (Accounts × Result Unit)

/-! ## Writes -/

namespace Accounts

/-- The empty store. -/
def empty : Accounts :=
  ⟨fun _ => none, fun _ => none, fun _ => none, fun _ => none, fun _ => none, fun _ => none,
    fun _ => none, fun _ => none, fun _ => none, []⟩

/-- A row is written. -/
def putUser (s : Accounts) (user : User) : Accounts :=
  { s with users := Function.update s.users user.id (some user) }

/-- Facts are added to the trail, newest first. -/
def note (s : Accounts) (facts : List Fact) : Accounts :=
  { s with trail := facts ++ s.trail }

/-- The attempts of a username are forgotten because it signed in or was reset. -/
def clearAttempts (s : Accounts) (username : Text) : Accounts :=
  { s with attempts := Function.update s.attempts username none }.note [.cleared username]

/-- The account behind a username. -/
def named (s : Accounts) (username : Text) : Option User :=
  (s.usernames username).bind s.users

end Accounts

/-! ## Errors -/

/-- Too many attempts. -/
def rateLimited : Error := ⟨429, "rate_limited", "Too many attempts; try again later"⟩

/-- The one answer to any wrong factor. -/
def invalidCredentials : Error :=
  ⟨401, "invalid_credentials", "Invalid username, password, or one-time code"⟩

end RiAuth.Identity
