import RiAuth.Workflow.Definition

/-!
# Proof rules

Sets of proofs are 16-bit masks in the source. The rules say what a set of held proofs is good for:
`unmet` is the precondition of an action, `floor` the minimum of a success outcome, `factors` the
second-factor rule applied when a run completes. All of them are fixed by the program; a definition
can only ask for more.

* `testBit_mask`: a mask has exactly the bits of its proofs;
* `subset_of_mask_and`: the mask test for "holds all of these" is list inclusion.
-/

namespace RiAuth.Workflow

/-! ## Debug names -/

/-- The category in messages. -/
def Category.debug : Category → String
  | .authentication => "Authentication"
  | .enrollment => "Enrollment"
  | .recovery => "Recovery"
  | .consent => "Consent"
  | .sensitiveAction => "SensitiveAction"

/-- The outcome in messages. -/
def Outcome.debug : Outcome → String
  | .authenticated => "Authenticated"
  | .enrolled => "Enrolled"
  | .recovered => "Recovered"
  | .consentGranted => "ConsentGranted"
  | .actionAuthorized => "ActionAuthorized"
  | .denied => "Denied"

/-- The proof in messages. -/
def Proof.debug : Proof → String
  | .session => "Session"
  | .password => "Password"
  | .passkey => "Passkey"
  | .totp => "Totp"
  | .recoveryCode => "RecoveryCode"
  | .resetEmail => "ResetEmail"
  | .invitation => "Invitation"
  | .source => "Source"
  | .consent => "Consent"
  | .enrolled => "Enrolled"
  | .passwordReset => "PasswordReset"
  | .passkeyRemoved => "PasskeyRemoved"

/-! ## Masks -/

/-- The proofs as one number, a bit each. -/
def mask (proofs : List Proof) : ℕ := proofs.foldl (fun m p => m ||| p.bit) 0

private theorem testBit_foldl_bit (proofs : List Proof) (m i : ℕ) :
    (proofs.foldl (fun m p => m ||| p.bit) m).testBit i =
      (m.testBit i || decide (∃ p ∈ proofs, p.ordinal = i)) := by
  induction proofs generalizing m with
  | nil => simp
  | cons p proofs ih =>
    rw [List.foldl_cons, ih, Nat.testBit_or, Proof.bit, Nat.one_shiftLeft, Nat.testBit_two_pow,
      Bool.or_assoc]
    simp

theorem testBit_mask_iff (proofs : List Proof) (i : ℕ) :
    (mask proofs).testBit i = decide (∃ p ∈ proofs, p.ordinal = i) := by
  unfold mask
  rw [testBit_foldl_bit, Nat.zero_testBit, Bool.false_or]

theorem testBit_mask (proofs : List Proof) (q : Proof) :
    (mask proofs).testBit q.ordinal = decide (q ∈ proofs) := by
  rw [testBit_mask_iff]
  refine decide_eq_decide.mpr ⟨?_, fun hq => ⟨q, hq, rfl⟩⟩
  rintro ⟨p, hp, hordinal⟩
  exact Proof.ordinal_injective hordinal ▸ hp

/-- Adding what a signal gained keeps the mask of the list. -/
theorem mask_append_gained (held : List Proof) (gained : Option Proof) :
    mask (held ++ gained.toList) = mask held ||| gained.elim 0 Proof.bit := by
  cases gained with
  | none => simp
  | some p => simp [mask]

/-- The mask test for "holds all of these". -/
theorem subset_of_mask_and {held proofs : List Proof}
    (h : mask held &&& mask proofs = mask proofs) : proofs ⊆ held := by
  intro p hp
  have hbit := congrArg (fun m => m.testBit p.ordinal) h
  simp only [Nat.testBit_and, testBit_mask, decide_eq_true hp, Bool.and_true] at hbit
  exact of_decide_eq_true hbit

/-- Whether any of the proofs is held. -/
def holdsAny (held : ℕ) (proofs : List Proof) : Bool := held &&& mask proofs != 0

/-- Proofs that establish which account a run is acting for. -/
def accountBound : ℕ :=
  mask [.session, .password, .passkey, .source, .resetEmail, .invitation]

/-! ## What held proofs are good for -/

/-- A live session with a fresh passkey, or with fresh password and TOTP proofs. -/
def freshFactor (held : ℕ) : Bool :=
  held &&& mask [.session, .passkey] == mask [.session, .passkey] ||
    held &&& mask [.session, .password, .totp] == mask [.session, .password, .totp]

/-- The requirement `action` places on every path into it, if `held` misses it. -/
def unmet (action : Action) (held : ℕ) : Option String :=
  match action with
  | .verifyTotp | .verifyRecoveryCode | .requestConsent =>
    if held &&& accountBound = 0 then some "an account-binding proof" else none
  | .enrollCredential credential =>
    -- A TOTP alone may add a first passkey to a session, nothing else.
    let reverified := holdsAny held [.session] &&
      (holdsAny held [.password, .passkey, .source] ||
        (credential == .passkey && holdsAny held [.totp]))
    let invited := holdsAny held [.invitation] &&
      (credential == .passkey || credential == .password)
    if !reverified && !invited then
      some ("a session with fresh password, passkey or source verification " ++
        "(TOTP only for passkey enrollment), or an invitation for a first passkey or password")
    else none
  | .replaceTotp | .removePasskey =>
    if freshFactor held then none
    else some
      "a live session with a fresh passkey, or fresh password and current TOTP proofs"
  | .resetPassword =>
    if !holdsAny held [.resetEmail] then some "a reset mail proof" else none
  | _ => none

/-- Account- and request-relative factor rules applied at completion. -/
def factors (outcome : Outcome) (held : ℕ) (facts : Facts) : Bool :=
  let second := holdsAny held [.passkey, .totp, .recoveryCode]
  let totp := facts.accountHas .totp
  match outcome with
  | .authenticated => second || !(totp || facts.requestRequiresMfa)
  | .actionAuthorized => second || !totp
  | .enrolled => holdsAny held [.invitation] || second || !totp
  | _ => true

/-- Minimum proofs for each success outcome, independent of the definition. -/
def floor (outcome : Outcome) (held : ℕ) : Bool :=
  match outcome with
  | .authenticated => holdsAny held [.password, .passkey, .source]
  | .enrolled => holdsAny held [.enrolled]
  | .recovered => holdsAny held [.passwordReset]
  | .consentGranted => holdsAny held [.consent] && holdsAny held [.session]
  | .actionAuthorized => holdsAny held [.session] && holdsAny held [.password, .passkey]
  | .denied => true

/-- Some alternative of the terminal is held, where it asks for one. -/
def required (terminal : Terminal) (held : ℕ) : Bool :=
  terminal.requires.isEmpty || terminal.requires.any fun a => held &&& mask a == mask a

/-- A set of proofs in messages. -/
def describe (held : ℕ) : String :=
  let names := (Proof.all.filter fun p => held &&& p.bit != 0).map fun p => p.debug.toLower
  if names.isEmpty then "no proofs" else ", ".intercalate names

end RiAuth.Workflow
