import RiAuth.Workflow.Definition

/-!
# Shipped Essentials default journeys

They need no administrator-authored definition, reference no configured source or stage, and are
the only definitions an Essentials profile accepts.
-/

namespace RiAuth.Workflow

/-- Upper bound for proof age at enrolment, recovery and sensitive-action success. -/
def maxSensitiveProofAgeSeconds : ℕ := 300

/-- An identifier written in the program text. -/
def Id.of (text : String) (valid : Name.ok 64 text.toList = true := by decide) : Id :=
  ⟨text.toList, valid⟩

namespace Essentials

/-- A transition without condition. -/
def go (on : Label) (target : Id) : Transition := ⟨on, none, target⟩

/-- A transition with a condition. -/
def when (on : Label) (condition : Condition) (target : Id) : Transition :=
  ⟨on, some condition, target⟩

/-- The account has a credential. -/
def has (credential : Credential) : Condition := .accountHas credential

/-- A step that can be cancelled. -/
def step (id : Id) (action : Action) (maxAttempts timeoutSeconds : ℕ)
    (transitions : List Transition) : Step :=
  ⟨id, action, maxAttempts, timeoutSeconds, true, transitions⟩

/-- A step that commits a credential change and cannot be cancelled mid-way. -/
def commit (id : Id) (action : Action) (transitions : List Transition) : Step :=
  { step id action 1 300 transitions with cancellable := false }

/-- The terminal of success. -/
def success (outcome : Outcome) (maxProofAgeSeconds : Option ℕ) : Terminal :=
  ⟨Id.of "success", outcome, [], maxProofAgeSeconds⟩

/-- The terminal of refusal. -/
def denied : Terminal := ⟨Id.of "denied", .denied, [], none⟩

/-- The first step is the entry. -/
def definition (id : Id) (category : Category) (maxDurationSeconds maxExecutions : ℕ)
    (first : Step) (others : List Step) (terminals : List Terminal) : Definition :=
  { id := id, revision := 1, category := category, origin := .builtin, entry := first.id,
    limits := ⟨maxDurationSeconds, maxExecutions⟩, steps := first :: others,
    terminals := terminals }

/-- The first step of a fresh verification with an existing factor. -/
def resume : Step :=
  step (Id.of "session") .resumeSession 1 60
    [when .verified (has .passkey) (Id.of "passkey"),
      when .verified (has .password) (Id.of "password"),
      go .verified (Id.of "denied"), go .failed (Id.of "denied")]

/-- The other steps of a fresh verification, with `next` after its success. -/
def reverify (next : Id) : List Step :=
  [step (Id.of "passkey") .verifyPasskey 3 300
      [go .verified next, go .failed (Id.of "denied")],
    step (Id.of "password") .verifyPassword 3 300
      [when .verified (has .totp) (Id.of "totp"), go .verified next,
        go .failed (Id.of "denied")],
    step (Id.of "totp") .verifyTotp 3 300 [go .verified next, go .failed (Id.of "denied")]]

/-- A passkey is enrolled. -/
def enroll : Step :=
  commit (Id.of "enroll") (.enrollCredential .passkey)
    [go .completed (Id.of "success"), go .failed (Id.of "denied")]

/-- Sign-in with a passkey. -/
def passkeySignIn : Definition :=
  definition (Id.of "essentials-passkey-sign-in") .authentication 600 8
    (step (Id.of "passkey") .verifyPasskey 3 300
      [go .verified (Id.of "success"), go .failed (Id.of "denied")])
    [] [success .authenticated none, denied]

/-- The step that verifies the password. -/
def password : Id := Id.of "password"

/-- Sign-in with a password. -/
def passwordSignIn : Definition :=
  definition (Id.of "essentials-password-sign-in") .authentication 900 16
    (step (Id.of "password") .verifyPassword 3 300
      [when .verified (has .totp) (Id.of "totp"),
        when .verified .requestRequiresMfa (Id.of "denied"),
        go .verified (Id.of "success"), go .failed (Id.of "denied")])
    [step (Id.of "totp") .verifyTotp 3 300
        [go .verified (Id.of "success"), go .failed (Id.of "recovery-code")],
      step (Id.of "recovery-code") .verifyRecoveryCode 3 300
        [go .verified (Id.of "success"), go .failed (Id.of "denied")]]
    [success .authenticated none, denied]

/-- Enrollment of a passkey. -/
def passkeyEnrollment : Definition :=
  definition (Id.of "essentials-passkey-enrollment") .enrollment 1200 16 resume
    (reverify (Id.of "enroll") ++ [enroll])
    [success .enrolled (some maxSensitiveProofAgeSeconds), denied]

/-- Enrollment by invitation. -/
def invitation : Definition :=
  definition (Id.of "essentials-invitation") .enrollment 900 4
    (step (Id.of "invitation") (.verifyEmail .invitation) 1 300
      [go .verified (Id.of "enroll"), go .failed (Id.of "denied")])
    [enroll] [success .enrolled (some maxSensitiveProofAgeSeconds), denied]

/-- Reset by mail. -/
def passwordReset : Definition :=
  definition (Id.of "essentials-password-reset") .recovery 2400 4
    (step (Id.of "identify") .identify 1 300 [go .completed (Id.of "email")])
    [step (Id.of "email") (.verifyEmail .reset) 1 1800
        [go .verified (Id.of "reset"), go .failed (Id.of "denied")],
      commit (Id.of "reset") .resetPassword
        [go .completed (Id.of "success"), go .failed (Id.of "denied")]]
    [success .recovered (some maxSensitiveProofAgeSeconds), denied]

/-- Consent to a client. -/
def consent : Definition :=
  definition (Id.of "essentials-consent") .consent 600 4
    (step (Id.of "session") .resumeSession 1 60
      [go .verified (Id.of "consent"), go .failed (Id.of "denied")])
    [step (Id.of "consent") .requestConsent 1 300
        [go .granted (Id.of "success"), go .denied (Id.of "denied")]]
    [success .consentGranted none, denied]

/-- Proof for a sensitive action. -/
def sensitiveAction : Definition :=
  definition (Id.of "essentials-sensitive-action") .sensitiveAction 900 12 resume
    (reverify (Id.of "success"))
    [success .actionAuthorized (some maxSensitiveProofAgeSeconds), denied]

/-- All shipped defaults, in a stable order. -/
def defaults : List Definition :=
  [passkeySignIn, passwordSignIn, passkeyEnrollment, invitation, passwordReset, consent,
    sensitiveAction]

end Essentials

/-- The shipped default with this identifier, if any. -/
def builtin (id : Id) : Option Definition := Essentials.defaults.find? fun d => d.id = id

end RiAuth.Workflow
