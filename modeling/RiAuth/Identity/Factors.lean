import RiAuth.Identity.Account

/-!
# One-time codes

A code of an authenticator app is accepted for one of three time steps around the present, and only
for a step later than the last accepted one; a recovery code is removed as it is accepted. The
caller writes the changed account in its own transaction.

`Spends` says once what accepting a factor does to an authenticator, and every way to accept one is
shown to do nothing else: `consumeTotp_ok`, `consumeFactor_ok`, `consumePasswordFactor_ok`,
`consumeRecoveryCode_some`.
-/

namespace RiAuth.Identity

open Checks

/-- Recovery codes are told by their mark. -/
def isRecoveryCode (code : Text) : Bool := "ri_recovery_".toList.isPrefixOf code

section

variable (c : Credentials)

/-- `totp_step_with`: the time step for which the code is good, the present one first. -/
def totpStepWith (secret username code : Text) (at_ : ℕ) (lastStep : Option ℕ)
    (settings : TotpSettings) : Result (Option ℕ) := do
  settings.validate
  if code.bytes = settings.digits ∧ code.all Char.isDigit = true then
    let generate ← c.totp settings secret username
    .ok ([at_ / settings.period, at_ / settings.period + 1, at_ / settings.period - 1].find?
      fun step => lastStep.all (· < step) && generate (step * settings.period) = code)
  else .ok none

/-- `totp_step`. -/
def totpStep (secret username code : Text) (at_ : ℕ) (lastStep : Option ℕ) : Result (Option ℕ) :=
  totpStepWith c secret username code at_ lastStep .default

/-- A recovery code that is left is removed. -/
def removeRecoveryCode (user : User) (code : Text) : Option (User × List Fact) :=
  if c.digest code ∈ user.recoveryCodes then
    some ({ user with recoveryCodes := user.recoveryCodes.erase (c.digest code) },
      [.recovery user.id (c.digest code)])
  else none

/-- A recovery code is used up. -/
def consumeRecoveryCode (user : User) (code : Text) : Option (User × List Fact) :=
  if user.totpSecret.isSome = true ∧ isRecoveryCode code = true then removeRecoveryCode c user code
  else none

/-- A code of the app: its time step becomes the last one. -/
def consumeTotp (user : User) (secret code : Text) (at_ : ℕ) : Result (Option (User × List Fact)) :=
  do
  let step ← totpStepWith c secret user.username code at_ user.totpLastStep user.totpSettings
  .ok (step.map fun step => ({ user with totpLastStep := some step }, [.code user.id secret step]))

/-- The factor of an account that has an authenticator app: a recovery code, or else a code of the
app. The result is the changed account, if the factor was accepted. -/
def consumeFactor (user : User) (secret : Text) (code : Option Text) (at_ : ℕ) :
    Result (Option (User × List Fact)) :=
  match code.filter isRecoveryCode with
  | some code => .ok (removeRecoveryCode c user code)
  | none => consumeTotp c user secret (code.getD []) at_

/-- `consume_password_factor`: an account without an authenticator app needs no code. -/
def consumePasswordFactor (user : User) (code : Option Text) (at_ : ℕ) :
    Result (Option (User × List Fact)) :=
  match user.totpSecret with
  | none => .ok (some (user, []))
  | some secret => consumeFactor c user secret code at_

end

/-! ## What accepting a factor does -/

/-- A factor of the account, or none, is spent: the authenticator afterwards, and what is noted. -/
inductive Spends (userId : Text) (a : Authenticator) : Authenticator → List Fact → Prop
  | nothing : Spends userId a a []
  | code (secret : Text) (step : ℕ) : a.totpSecret = some secret →
      (∀ last ∈ a.totpLastStep, last < step) →
      Spends userId a { a with totpLastStep := some step } [.code userId secret step]
  | recovery (digest : Text) : digest ∈ a.recoveryCodes →
      Spends userId a { a with recoveryCodes := a.recoveryCodes.erase digest }
        [.recovery userId digest]

/-- The account after a factor was spent: only its authenticator has changed. -/
def Spent (user : User) (r : User × List Fact) : Prop :=
  ∃ a, r.1 = { user with toAuthenticator := a } ∧ Spends user.id user.toAuthenticator a r.2

variable {c : Credentials}

variable {secret code : Text} {at_ : ℕ} {user : User} {r : User × List Fact}

/-- A code is good only for a step after the last one. -/
theorem totpStepWith_later {username : Text} {lastStep : Option ℕ} {settings : TotpSettings}
    {step : ℕ} (h : totpStepWith c secret username code at_ lastStep settings = .ok (some step)) :
    ∀ last ∈ lastStep, last < step := by
  obtain ⟨-, h1⟩ := seq_ok.mp h
  split_ifs at h1
  · obtain ⟨generate, -, h2⟩ := bind_ok.mp h1
    have hfound := List.find?_some (Except.ok.inj h2)
    rw [Bool.and_eq_true] at hfound
    intro last hlast
    rw [Option.mem_def.mp hlast, Option.all_some, decide_eq_true_eq] at hfound
    exact hfound.1
  · cases h1

theorem removeRecoveryCode_some (h : removeRecoveryCode c user code = some r) : Spent user r := by
  unfold removeRecoveryCode at h
  split_ifs at h with hmem
  rw [← Option.some.inj h]
  exact ⟨_, rfl, .recovery (c.digest code) hmem⟩

theorem consumeRecoveryCode_some (h : consumeRecoveryCode c user code = some r) : Spent user r := by
  unfold consumeRecoveryCode at h
  split_ifs at h
  exact removeRecoveryCode_some h

theorem consumeTotp_ok (hsecret : user.totpSecret = some secret)
    (h : consumeTotp c user secret code at_ = .ok (some r)) : Spent user r := by
  obtain ⟨step, hstep, h1⟩ := bind_ok.mp h
  obtain ⟨step, rfl, h2⟩ := Option.map_eq_some_iff.mp (Except.ok.inj h1)
  rw [← h2]
  exact ⟨_, rfl, .code secret step hsecret (totpStepWith_later hstep)⟩

theorem consumeFactor_ok {code : Option Text} (hsecret : user.totpSecret = some secret)
    (h : consumeFactor c user secret code at_ = .ok (some r)) : Spent user r := by
  unfold consumeFactor at h
  split at h
  · exact removeRecoveryCode_some (Except.ok.inj h)
  · exact consumeTotp_ok hsecret h

theorem consumePasswordFactor_ok {code : Option Text}
    (h : consumePasswordFactor c user code at_ = .ok (some r)) : Spent user r := by
  unfold consumePasswordFactor at h
  split at h
  · cases h
    exact ⟨_, rfl, .nothing⟩
  · exact consumeFactor_ok ‹_› h

end RiAuth.Identity
