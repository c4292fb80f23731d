import RiAuth.Basic

/-!
# Workflow definitions

The document an administrator writes or the product ships: steps with their actions and ordered
transitions, and terminals with the proofs they ask for.

* `Name`: a bounded identifier, valid by construction; `Id` and `Label` are its two lengths;
* `Condition.evaluate`: a routing condition under the facts an executor supplies;
* `Action.signals`, `Action.proof`: what a step may report and what each report proves;
* `Category.allows`, `Category.success`: what each kind of workflow may do and end as.
-/

namespace RiAuth.Workflow

/-! ## Identifiers -/

/-- The pattern `^[a-z][a-z0-9_-]*$` and the length bound. -/
def Name.ok (max : ℕ) (text : Text) : Bool :=
  decide (text.bytes ≤ max) &&
    match text with
    | [] => false
    | c :: rest => c.isLower && rest.all fun c => c.isLower || c.isDigit || c == '_' || c == '-'

/-- A bounded identifier. -/
structure Name (max : ℕ) where
  text : Text
  valid : Name.ok max text = true
deriving DecidableEq

instance {max : ℕ} : ToString (Name max) := ⟨fun name => String.ofList name.text⟩

/-- Workflow, node, source or stage identifier. -/
abbrev Id := Name 64

/-- Signal emitted by a step. -/
abbrev Label := Name 32

instance Label.lawfulBEq : LawfulBEq Label := inferInstance

namespace Label

def verified : Label := ⟨"verified".toList, by decide⟩

def failed : Label := ⟨"failed".toList, by decide⟩

def completed : Label := ⟨"completed".toList, by decide⟩

def granted : Label := ⟨"granted".toList, by decide⟩

def denied : Label := ⟨"denied".toList, by decide⟩

/-- The signals no custom stage may declare. -/
def reserved : List Label := [verified, failed, completed, granted, denied]

end Label

/-! ## The closed vocabularies -/

/-- What a workflow is for. -/
inductive Category where
  | authentication
  | enrollment
  | recovery
  | consent
  | sensitiveAction
deriving DecidableEq, Repr

/-- Shipped default, or written by an administrator of the Platform. -/
inductive Origin where
  | builtin
  | configured
deriving DecidableEq, Repr

/-- Why a message is sent. -/
inductive EmailPurpose where
  | reset
  | invitation
deriving DecidableEq, Repr

/-- What a step enrols. -/
inductive Credential where
  | password
  | passkey
  | totp
  | recoveryCodes
deriving DecidableEq, Repr

/-- What a stage may ask for. -/
inductive StagePermission where
  | readProfile
  | readGroups
  | readRequest
  | network
deriving DecidableEq, Repr

/-- Kind of evidence a built-in action can produce on its success signal. -/
inductive Proof where
  | session
  | password
  | passkey
  | totp
  | recoveryCode
  | resetEmail
  | invitation
  | source
  | consent
  | enrolled
  | passwordReset
  | passkeyRemoved
deriving DecidableEq, Repr

/-- Terminal results. -/
inductive Outcome where
  | authenticated
  | enrolled
  | recovered
  | consentGranted
  | actionAuthorized
  | denied
deriving DecidableEq, Repr

/-- All but denial. -/
def Outcome.isSuccess (outcome : Outcome) : Bool := outcome != .denied

namespace Proof

/-- All proofs. -/
def all : List Proof :=
  [session, password, passkey, totp, recoveryCode, resetEmail, invitation, source, consent,
    enrolled, passwordReset, passkeyRemoved]

/-- `self as u16`. -/
def ordinal : Proof → ℕ
  | session => 0
  | password => 1
  | passkey => 2
  | totp => 3
  | recoveryCode => 4
  | resetEmail => 5
  | invitation => 6
  | source => 7
  | consent => 8
  | enrolled => 9
  | passwordReset => 10
  | passkeyRemoved => 11

theorem ordinal_injective : Function.Injective ordinal := by
  intro p q h
  cases p <;> cases q <;> first | rfl | exact absurd h (by decide)

/-- The place of a proof in a set. -/
def bit (p : Proof) : ℕ := 1 <<< p.ordinal

end Proof

/-! ## Conditions -/

/-- Closed set of routing conditions. -/
inductive Condition where
  | accountHas (credential : Credential)
  | hasProof (proof : Proof)
  | requestRequiresMfa
  | all (of : List Condition)
  | any (of : List Condition)
  | not (condition : Condition)

/-- Inputs an executor supplies to evaluate a condition. -/
structure Facts where
  accountHas : Credential → Bool
  hasProof : Proof → Bool
  requestRequiresMfa : Bool

namespace Condition

mutual

/-- Whether a condition holds. -/
def evaluate (facts : Facts) : Condition → Bool
  | accountHas credential => facts.accountHas credential
  | hasProof proof => facts.hasProof proof
  | requestRequiresMfa => facts.requestRequiresMfa
  | all of => evaluateAll facts of
  | any of => evaluateAny facts of
  | not condition => !evaluate facts condition

/-- Whether all hold. -/
def evaluateAll (facts : Facts) : List Condition → Bool
  | [] => true
  | c :: of => evaluate facts c && evaluateAll facts of

/-- Whether one holds. -/
def evaluateAny (facts : Facts) : List Condition → Bool
  | [] => false
  | c :: of => evaluate facts c || evaluateAny facts of

end

mutual

/-- Whether the condition reads anything about the account. -/
def mentionsAccount : Condition → Bool
  | accountHas _ => true
  | all of => mentionsAccountIn of
  | any of => mentionsAccountIn of
  | not condition => mentionsAccount condition
  | _ => false

/-- Whether one of them does. -/
def mentionsAccountIn : List Condition → Bool
  | [] => false
  | c :: of => mentionsAccount c || mentionsAccountIn of

end

mutual

/-- Structural equality of conditions. -/
def beq : Condition → Condition → Bool
  | accountHas a, accountHas b => a == b
  | hasProof a, hasProof b => a == b
  | requestRequiresMfa, requestRequiresMfa => true
  | all a, all b => beqMembers a b
  | any a, any b => beqMembers a b
  | not a, not b => beq a b
  | _, _ => false

/-- Equality of two lists. -/
def beqMembers : List Condition → List Condition → Bool
  | [], [] => true
  | a :: as, b :: bs => beq a b && beqMembers as bs
  | _, _ => false

end

mutual

theorem beq_iff : ∀ a b : Condition, beq a b = true ↔ a = b
  | accountHas _, b => by cases b <;> simp [beq]
  | hasProof _, b => by cases b <;> simp [beq]
  | requestRequiresMfa, b => by cases b <;> simp [beq]
  | all as, b => by
    cases b with
    | all bs => simpa [beq] using beqMembers_iff as bs
    | _ => simp [beq]
  | any as, b => by
    cases b with
    | any bs => simpa [beq] using beqMembers_iff as bs
    | _ => simp [beq]
  | not a, b => by
    cases b with
    | not b => simpa [beq] using beq_iff a b
    | _ => simp [beq]

theorem beqMembers_iff : ∀ as bs : List Condition, beqMembers as bs = true ↔ as = bs
  | [], bs => by cases bs <;> simp [beqMembers]
  | a :: as, [] => by simp [beqMembers]
  | a :: as, b :: bs => by simp [beqMembers, beq_iff a b, beqMembers_iff as bs]

end

instance : DecidableEq Condition := fun a b => decidable_of_iff _ (beq_iff a b)

end Condition

/-! ## Steps, terminals, definitions -/

/-- Where a signal leads. -/
structure Transition where
  on : Label
  when : Option Condition
  /-- The `to` of the document. -/
  target : Id
deriving DecidableEq

/-- Step behaviour. Only built-in verifiers produce proofs. -/
inductive Action where
  /-- Collect an account identifier. -/
  | identify
  /-- Require the live browser session. -/
  | resumeSession
  | verifyPassword
  | verifyPasskey
  | verifyTotp
  | verifyRecoveryCode
  /-- Consume a purpose-bound single-use mail proof. -/
  | verifyEmail (purpose : EmailPurpose)
  /-- Complete a configured upstream source stage bound to this request. -/
  | verifySource (source : Id)
  | requestConsent
  | enrollCredential (credential : Credential)
  | replaceTotp
  | removePasskey
  | resetPassword
  /-- A registered stage; it may route by its declared outputs but proves nothing. -/
  | custom (stage : Id) (outputs : List Label) (permissions : List StagePermission)
      (maxOutputBytes : ℕ)
deriving DecidableEq

/-- A node with an action. -/
structure Step where
  id : Id
  action : Action
  /-- Attempts before the `failed` signal is taken. -/
  maxAttempts : ℕ
  /-- Per-attempt bound. -/
  timeoutSeconds : ℕ
  cancellable : Bool
  /-- Ordered per signal; the first matching transition wins. -/
  transitions : List Transition
deriving DecidableEq

/-- A node that ends the run. -/
structure Terminal where
  id : Id
  outcome : Outcome
  /-- Proof alternatives beyond the floor of the outcome. -/
  requires : List (List Proof)
  /-- Maximum age of stored evidence at completion. -/
  maxProofAgeSeconds : Option ℕ
deriving DecidableEq

/-- The bounds of a run. -/
structure Limits where
  /-- Wall-clock bound for the whole run. -/
  maxDurationSeconds : ℕ
  /-- Bound on step executions including retries. -/
  maxExecutions : ℕ
deriving DecidableEq

/-- A workflow as it is declared. -/
structure Definition where
  id : Id
  revision : ℕ
  category : Category
  origin : Origin
  entry : Id
  limits : Limits
  steps : List Step
  terminals : List Terminal
deriving DecidableEq

namespace Action

/-- Signals this action can emit; each needs at least one transition. -/
def signals : Action → List Label
  | identify => [.completed]
  | requestConsent => [.granted, .denied]
  | enrollCredential _ | replaceTotp | removePasskey | resetPassword => [.completed, .failed]
  | custom _ outputs _ _ => outputs ++ [.failed]
  | _ => [.verified, .failed]

/-- Proof gained when this action emits `signal`. -/
def proof (action : Action) (signal : Label) : Option Proof :=
  match action with
  | resumeSession => if signal = .verified then some .session else none
  | verifyPassword => if signal = .verified then some .password else none
  | verifyPasskey => if signal = .verified then some .passkey else none
  | verifyTotp => if signal = .verified then some .totp else none
  | verifyRecoveryCode => if signal = .verified then some .recoveryCode else none
  | verifyEmail .reset => if signal = .verified then some .resetEmail else none
  | verifyEmail .invitation => if signal = .verified then some .invitation else none
  | verifySource _ => if signal = .verified then some .source else none
  | requestConsent => if signal = .granted then some .consent else none
  | enrollCredential _ => if signal = .completed then some .enrolled else none
  | replaceTotp => if signal = .completed then some .enrolled else none
  | removePasskey => if signal = .completed then some .passkeyRemoved else none
  | resetPassword => if signal = .completed then some .passwordReset else none
  | _ => none

/-- The action as stored. -/
def name : Action → String
  | identify => "identify"
  | resumeSession => "resume_session"
  | verifyPassword => "verify_password"
  | verifyPasskey => "verify_passkey"
  | verifyTotp => "verify_totp"
  | verifyRecoveryCode => "verify_recovery_code"
  | verifyEmail _ => "verify_email"
  | verifySource _ => "verify_source"
  | requestConsent => "request_consent"
  | enrollCredential _ => "enroll_credential"
  | replaceTotp => "replace_totp"
  | removePasskey => "remove_passkey"
  | resetPassword => "reset_password"
  | custom .. => "custom"

end Action

namespace Category

/-- The outcome a category is for. -/
def success : Category → Outcome
  | authentication => .authenticated
  | enrollment => .enrolled
  | recovery => .recovered
  | consent => .consentGranted
  | sensitiveAction => .actionAuthorized

/-- The actions of a category. -/
def allows : Category → Action → Bool
  | _, .custom .. => true
  | authentication, .identify | authentication, .verifyPassword | authentication, .verifyPasskey
  | authentication, .verifyTotp | authentication, .verifyRecoveryCode
  | authentication, .verifySource _ => true
  | enrollment, .resumeSession | enrollment, .verifyPassword | enrollment, .verifyPasskey
  | enrollment, .verifyTotp | enrollment, .verifySource _ | enrollment, .enrollCredential _
  | enrollment, .replaceTotp | enrollment, .verifyEmail .invitation => true
  | recovery, .identify | recovery, .verifyTotp | recovery, .verifyRecoveryCode
  | recovery, .resetPassword | recovery, .verifyEmail .reset => true
  | consent, .resumeSession | consent, .verifyPassword | consent, .verifyPasskey
  | consent, .verifyTotp | consent, .requestConsent => true
  | sensitiveAction, .resumeSession | sensitiveAction, .verifyPassword
  | sensitiveAction, .verifyPasskey | sensitiveAction, .verifyTotp
  | sensitiveAction, .removePasskey => true
  | _, _ => false

/-- Whether old proofs do not count. -/
def needsFreshProof : Category → Bool
  | enrollment | recovery | sensitiveAction => true
  | _ => false

end Category

end RiAuth.Workflow
