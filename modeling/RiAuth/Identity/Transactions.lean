import RiAuth.Identity.Writers
import RiAuth.Lib.History

/-!
# What a transaction can do

Every transaction of the two modules before is one event of the system. `Effect` is the abstract
view of an event: what it may do to the rows of an account, each kind of credential on its own
(`PasswordChange`, `AuthenticatorChange`, `AttemptsChange`). The laws about lockout, password reuse
and one-time codes are proved of effects.

* **`run_effect`**: every transaction that commits has an effect;
* `Reachable`: the states of runs from the empty store, with a clock that does not go back.
-/

namespace RiAuth.Identity

open Checks PasswordHistory History

/-! ## Events -/

/-- A transaction, with what its request brings along. -/
inductive Event where
  | passwordLogin (username password : Text) (otp : Option Text) (salt : ℕ)
  | directoryAttempt (binding : Binding)
  | directoryLogin (binding : Binding) (epoch : ℕ) (authenticated : Bool) (otp : Option Text)
  | pinPasswordChange (userId : Text)
  | changePassword (pinned : User) (current password : Text) (otp : Option Text) (salt : ℕ)
  | portalPasswordChange (userId current password : Text) (salt : ℕ)
  | reserveWorkflowPassword (account : Text)
  | workflowPassword (account username hash password : Text) (finished : Bool)
  | workflowCode (account code : Text) (factor : CodeFactor)
  | windowsLogin (deviceId username deviceSecret : Text) (proof : WindowsProof)
  | sourceFinish (userId : Text) (mfa : Bool) (otp : Option Text)
  | createUser (id username : Text) (password : Option (Text × ℕ)) (admin enabled : Bool)
  | bindDirectory (userId : Text) (binding : Option Binding) (usernames : Text → Option Text)
  | putDevice (device : WindowsDevice)
  | updateProfile (userId : Text) (enabled admin hasPasskeys : Bool) (epoch : ℕ)
  | patchPassword (userId plaintext : Text) (salt : ℕ)
  | scimPassword (enabled : Bool) (userId plaintext : Text) (salt : ℕ)
  | manifestPassword (enabled admin : Bool) (userId plaintext : Text) (salt : ℕ)
  | recoverAdmin (resetMfa : Bool) (userId plaintext : Text) (salt : ℕ)
  | completeReset (exposed : Bool) (userId plaintext : Text) (salt : ℕ)
  | acceptInvitation (userId plaintext : Text) (salt : ℕ)
  | importHash (userId hash : Text)
  | disablePassword (userId : Text)
  | totpStart (userId sessionId secret : Text) (replace : Bool)
  | totpConfirm (userId sessionId code : Text) (codes : List Text)
  | totpCancel (userId sessionId : Text)
  | totpRemove (userId : Text)
  | rotateRecoveryCodes (userId : Text) (codes : List Text)
  | resetMfa (userId : Text)
  | importTotp (userId : Text) (secret : Result Text) (settings : TotpSettings)
      (lastUsedStep : Option ℕ)
  | reserveWorkflowTotp (run account secret : Text)
  | discardWorkflowTotp (run : Text)
  | confirmWorkflowTotp (run code : Text) (change : WorkflowTotpChange)
  | sweepAttempts (username : Text)
  | sweepEnrollments (userId : Text)

section

variable (c : Credentials) (limit : ℕ)

/-- The transaction of an event. -/
def Event.run (call : Call) : Event → Accounts → Transaction
  | passwordLogin username password otp salt =>
    Identity.passwordLogin c limit call username password otp salt
  | directoryAttempt binding => Identity.directoryAttempt call binding
  | directoryLogin binding epoch authenticated otp =>
    Identity.directoryLogin c call binding epoch authenticated otp
  | pinPasswordChange userId => fun s =>
    (Identity.pinPasswordChange call userId s).map fun _ => (s, .ok ())
  | changePassword pinned current password otp salt =>
    Identity.changePassword c limit call pinned current password otp salt
  | portalPasswordChange userId current password salt =>
    Identity.portalPasswordChange c limit call userId current password salt
  | reserveWorkflowPassword account => fun s =>
    (Identity.reserveWorkflowPassword call account s).map fun _ => (s, .ok ())
  | workflowPassword account username hash password finished =>
    Identity.workflowPassword c call account username hash password finished
  | workflowCode account code factor => Identity.workflowCode c call account code factor
  | windowsLogin deviceId username deviceSecret proof =>
    Identity.windowsLogin c call deviceId username deviceSecret proof
  | sourceFinish userId mfa otp => Identity.sourceFinish c call userId mfa otp
  | createUser id username password admin enabled =>
    Identity.createUser c limit call id username password admin enabled
  | bindDirectory userId binding usernames => Identity.bindDirectory call userId binding usernames
  | putDevice device => Identity.putDevice call device
  | updateProfile userId enabled admin hasPasskeys epoch =>
    Identity.updateProfile call userId enabled admin hasPasskeys epoch
  | patchPassword userId plaintext salt => Identity.patchPassword c limit call userId plaintext salt
  | scimPassword enabled userId plaintext salt =>
    Identity.scimPassword c limit call enabled userId plaintext salt
  | manifestPassword enabled admin userId plaintext salt =>
    Identity.manifestPassword c limit call enabled admin userId plaintext salt
  | recoverAdmin reset userId plaintext salt =>
    Identity.recoverAdmin c limit call reset userId plaintext salt
  | completeReset exposed userId plaintext salt =>
    Identity.completeReset c limit call exposed userId plaintext salt
  | acceptInvitation userId plaintext salt =>
    Identity.acceptInvitation c limit call userId plaintext salt
  | importHash userId hash => Identity.importHash c limit call userId hash
  | disablePassword userId => Identity.disablePassword call userId
  | totpStart userId sessionId secret replace =>
    Identity.totpStart c call userId sessionId secret replace
  | totpConfirm userId sessionId code codes =>
    Identity.totpConfirm c call userId sessionId code codes
  | totpCancel userId sessionId => Identity.totpCancel c call userId sessionId
  | totpRemove userId => Identity.totpRemove call userId
  | rotateRecoveryCodes userId codes => Identity.rotateRecoveryCodes c call userId codes
  | resetMfa userId => Identity.resetMfa call userId
  | importTotp userId secret settings lastUsedStep =>
    Identity.importTotp call userId secret settings lastUsedStep
  | reserveWorkflowTotp run account secret =>
    Identity.reserveWorkflowTotp c call run account secret
  | discardWorkflowTotp run => Identity.discardWorkflowTotp call run
  | confirmWorkflowTotp run code change => Identity.confirmWorkflowTotp c call run code change
  | sweepAttempts username => Identity.sweepAttempts call username
  | sweepEnrollments userId => Identity.sweepEnrollments call userId

/-- A committed transaction. -/
def Step (s : Accounts) (e : Call × Event) (s' : Accounts) : Prop :=
  ∃ answer, e.2.run c limit e.1 s = .ok (s', answer)

/-- A state that a run from the empty store reaches, with a clock that starts and ends at the given
times. -/
def Reachable (start now : ℕ) (s : Accounts) : Prop :=
  ∃ es, Run (Step c limit) .empty es s ∧ Ordered (fun e => e.1.now) es ∧
    ∀ e ∈ es, start ≤ e.1.now ∧ e.1.now ≤ now

/-! ## Effects -/

/-- What may happen to the password of an account: its hash afterwards, the history table afterwards
and what is noted. -/
inductive PasswordChange (t : Table) (user : User) : Text → Table → List Fact → Prop
  | kept : PasswordChange t user user.passwordHash t []
  | chosen {t' : Table} {hash : Text} (plaintext : Text) (salt : ℕ) :
      c.passwordHash salt plaintext = .ok hash →
      accept c limit t user.id user.passwordHash plaintext hash = .ok t' →
      PasswordChange t user hash t' [.chosen user.id plaintext]
  | imported {hash : Text} (raw : Text) : c.validateImportedHash raw = .ok hash →
      PasswordChange t user hash (recordImportedHash limit t user.id user.passwordHash hash)
        (if hash = [] then [] else [.imported user.id hash])
  /-- A sign-in wrote the same password in another form, and noted it. -/
  | rehashed {hash : Text} (password : Text) (salt : ℕ) : user.passwordHash ≠ [] →
      c.passwordMatches password user.passwordHash = true →
      c.upgradePasswordHash salt password user.passwordHash = .ok (some hash) →
      PasswordChange t user hash (noteRehash limit t user.id user.passwordHash hash) []
  /-- A Windows sign-in wrote the same password in another form. -/
  | upgraded {hash : Text} (password : Text) (salt : ℕ) : user.passwordHash ≠ [] →
      c.passwordMatches password user.passwordHash = true →
      c.upgradePasswordHash salt password user.passwordHash = .ok (some hash) →
      PasswordChange t user hash t []
  | disabled : PasswordChange t user [] t []

end

/-- What may happen to the authenticator of an account: how it is afterwards, the reservations of
workflow runs afterwards and what is noted. -/
inductive AuthenticatorChange (userId : Text) (r : Text → Option (Text × Text)) (a : Authenticator) :
    Authenticator → (Text → Option (Text × Text)) → List Fact → Prop
  | spent {a' : Authenticator} {facts : List Fact} : Spends userId a a' facts →
      AuthenticatorChange userId r a a' r facts
  | started (secret : Text) (expiresAt : ℕ) : AuthenticatorChange userId r a
      { a with totpPending := some (secret, expiresAt) } r [.drew userId secret]
  | dropped : AuthenticatorChange userId r a { a with totpPending := none } r []
  | confirmed (secret : Text) (expiresAt step : ℕ) (digests : List Text) :
      a.totpPending = some (secret, expiresAt) →
      AuthenticatorChange userId r a ⟨some secret, none, some step, .default, digests.toFinset⟩ r
        (.code userId secret step :: digests.map (.issued userId))
  | committed (run secret : Text) (step : ℕ) : r run = some (userId, secret) →
      AuthenticatorChange userId r a ⟨some secret, none, some step, .default, ∅⟩
        (Function.update r run none) [.code userId secret step]
  | removed (settings : TotpSettings) :
      AuthenticatorChange userId r a ⟨none, none, none, settings, ∅⟩ r []
  | rotated (digests : List Text) : AuthenticatorChange userId r a
      { a with recoveryCodes := digests.toFinset } r (digests.map (.issued userId))
  | imported (secret : Text) (last : ℕ) (settings : TotpSettings) :
      AuthenticatorChange userId r a ⟨some secret, none, some last, settings, ∅⟩ r
        [.drew userId secret]

/-- What a writer of an account may do to the attempts. -/
inductive AttemptsChange (t : Text → Option Attempts) : (Text → Option Attempts) → List Fact → Prop
  | kept : AttemptsChange t t []
  | cleared (username : Text) :
      AttemptsChange t (Function.update t username none) [.cleared username]

section

variable (c : Credentials) (limit now : ℕ)

/-- What a transaction may do to the credentials of the store. -/
inductive Effect (s : Accounts) : Accounts → Prop
  | same {s' : Accounts} : s'.users = s.users → s'.attempts = s.attempts →
      s'.passwordHistory = s.passwordHistory → s'.workflowSecrets = s.workflowSecrets →
      s'.trail = s.trail → Effect s s'
  | failed (username : Text) : locked s username now = false → Effect s (failAttempt s username now)
  | swept (username : Text) (row : Attempts) : s.attempts username = some row →
      row.windowStart + 1800 < now →
      Effect s { s with attempts := Function.update s.attempts username none }
  | reserved (run userId secret : Text) : Effect s ({ s with
      workflowSecrets := Function.update s.workflowSecrets run (some (userId, secret)) }.note
        [.drew userId secret])
  | discarded (run : Text) :
      Effect s { s with workflowSecrets := Function.update s.workflowSecrets run none }
  | created {s' : Accounts} (user : User) (password : Option (Text × ℕ)) : s.users user.id = none →
      user.toAuthenticator = .none → initialHash c password = .ok user.passwordHash →
      s'.users = Function.update s.users user.id (some user) → s'.attempts = s.attempts →
      s'.passwordHistory =
        recordImportedHash limit s.passwordHistory user.id [] user.passwordHash →
      s'.workflowSecrets = s.workflowSecrets →
      s'.trail = (if user.passwordHash = [] then [] else [.imported user.id user.passwordHash]) ++
        s.trail → Effect s s'
  | wrote {s' : Accounts} (user user' : User) (forAuthenticator forPassword forAttempts : List Fact) :
      s.users user.id = some user → user'.id = user.id →
      s'.users = Function.update s.users user.id (some user') →
      AuthenticatorChange user.id s.workflowSecrets user.toAuthenticator user'.toAuthenticator
        s'.workflowSecrets forAuthenticator →
      PasswordChange c limit s.passwordHistory user user'.passwordHash s'.passwordHistory
        forPassword →
      AttemptsChange s.attempts s'.attempts forAttempts →
      s'.trail = forAuthenticator ++ (forPassword ++ (forAttempts ++ s.trail)) → Effect s s'

end

/-- The library with no form of hashes that is out of date. -/
def Credentials.settled (c : Credentials) : Credentials :=
  { c with upgradePasswordHash := fun _ _ _ => .ok none }

/-- A row was written with another hash. What became of the history is left open. -/
structure Rewrote (s s' : Accounts) (user user' : User) (forAuthenticator forAttempts : List Fact) :
    Prop where
  row : s.users user.id = some user
  id : user'.id = user.id
  users : s'.users = Function.update s.users user.id (some user')
  authenticator : AuthenticatorChange user.id s.workflowSecrets user.toAuthenticator
    user'.toAuthenticator s'.workflowSecrets forAuthenticator
  attempts : AttemptsChange s.attempts s'.attempts forAttempts
  trail : s'.trail = forAuthenticator ++ (forAttempts ++ s.trail)

theorem Rewrote.effect {c : Credentials} {limit now : ℕ} {s s' : Accounts} {user user' : User}
    {forAuthenticator forAttempts : List Fact}
    (h : Rewrote s s' user user' forAuthenticator forAttempts)
    (hpassword : PasswordChange c limit s.passwordHistory user user'.passwordHash
      s'.passwordHistory []) : Effect c limit now s s' :=
  .wrote user user' forAuthenticator [] forAttempts h.row h.id h.users h.authenticator hpassword
    h.attempts h.trail

/-- The two sign-ins that write a hash in a new form. Password sign-in notes the form in the
history, Windows sign-in does not. -/
inductive Rewriting (c : Credentials) (limit : ℕ) (s s' : Accounts) : Event → Prop
  | noted {username password : Text} {otp : Option Text} {salt : ℕ} {user user' : User}
      {facts forAttempts : List Fact} : s.named username = some user → user.passwordHash ≠ [] →
      c.passwordMatches password user.passwordHash = true →
      c.upgradePasswordHash salt password user.passwordHash = .ok (some user'.passwordHash) →
      s'.passwordHistory =
        noteRehash limit s.passwordHistory user.id user.passwordHash user'.passwordHash →
      Rewrote s s' user user' facts forAttempts →
      Rewriting c limit s s' (.passwordLogin username password otp salt)
  | unnoted {deviceId username deviceSecret password : Text} {otp : Option Text} {salt : ℕ}
      {device : WindowsDevice} {user user' : User} {facts forAttempts : List Fact} :
      s.devices deviceId = some device → s.users device.userId = some user →
      user.passwordHash ≠ [] → c.passwordMatches password user.passwordHash = true →
      c.upgradePasswordHash salt password user.passwordHash = .ok (some user'.passwordHash) →
      s'.passwordHistory = s.passwordHistory → Rewrote s s' user user' facts forAttempts →
      Rewriting c limit s s'
        (.windowsLogin deviceId username deviceSecret (.password password otp salt))

theorem Rewriting.effect {c : Credentials} {limit now : ℕ} {s s' : Accounts} {e : Event}
    (h : Rewriting c limit s s' e) : Effect c limit now s s' := by
  cases h with
  | noted _ hlocal hmatched hnew hhistory hrewrote =>
    exact hrewrote.effect (hhistory ▸ .rehashed _ _ hlocal hmatched hnew)
  | unnoted _ _ hlocal hmatched hnew hhistory hrewrote =>
    exact hrewrote.effect (hhistory ▸ .upgraded _ _ hlocal hmatched hnew)

theorem anyMatches_settled (c : Credentials) (plaintext : Text) (seen rest : List Text) :
    anyMatches c.settled plaintext seen rest = anyMatches c plaintext seen rest := by
  induction rest generalizing seen with
  | nil => rfl
  | cons hash rest ih =>
    rw [anyMatches, anyMatches, ih, ih]
    rfl

theorem accept_settled (c : Credentials) (limit : ℕ) (t : Table)
    (userId currentHash plaintext newHash : Text) :
    accept c.settled limit t userId currentHash plaintext newHash =
      accept c limit t userId currentHash plaintext newHash := by
  unfold accept reused
  simp only [anyMatches_settled]
  rfl

theorem PasswordChange.of_settled {c : Credentials} {limit : ℕ} {t t' : Table} {user : User}
    {hash : Text} {facts : List Fact} (h : PasswordChange c.settled limit t user hash t' facts) :
    PasswordChange c limit t user hash t' facts := by
  cases h with
  | kept => exact .kept
  | chosen plaintext salt hhash haccept =>
    rw [accept_settled] at haccept
    exact .chosen plaintext salt hhash haccept
  | imported raw hraw => exact .imported raw hraw
  | rehashed _ _ _ _ hnew => cases hnew
  | upgraded _ _ _ _ hnew => cases hnew
  | disabled => exact .disabled

theorem Effect.of_settled {c : Credentials} {limit now : ℕ} {s s' : Accounts}
    (h : Effect c.settled limit now s s') : Effect c limit now s s' := by
  cases h with
  | same husers hattempts hhistory hsecrets htrail =>
    exact .same husers hattempts hhistory hsecrets htrail
  | failed username hfree => exact .failed username hfree
  | swept username row hrow hold => exact .swept username row hrow hold
  | reserved run userId secret => exact .reserved run userId secret
  | discarded run => exact .discarded run
  | created user password hnew hauth hhash husers hattempts hhistory hsecrets htrail =>
    exact .created user password hnew hauth hhash husers hattempts hhistory hsecrets htrail
  | wrote user user' fa fp ft hrow hid husers hauth hpassword hattempts htrail =>
    exact .wrote user user' fa fp ft hrow hid husers hauth hpassword.of_settled hattempts htrail

/-- Every account is filed under its own id. -/
def Keyed (s : Accounts) : Prop := ∀ id user, s.users id = some user → user.id = id

/-- An account that is read is filed under its own id. -/
theorem Keyed.found {s : Accounts} (h : Keyed s) {β : Type} {id : Text} {e : Error}
    {f : User → Result β} {b : β} (hread : (okOr (s.users id) e >>= f) = .ok b) :
    ∃ user, s.users user.id = some user ∧ f user = .ok b := by
  obtain ⟨user, hfound, hrest⟩ := bind_ok.mp hread
  have hrow := okOr_ok.mp hfound
  rw [← h _ _ hrow] at hrow
  exact ⟨user, hrow, hrest⟩

theorem Keyed.found_checked {s : Accounts} (h : Keyed s) {β : Type} {check : Result Unit} {id : Text}
    {e : Error} {f : User → Result β} {b : β}
    (hread : (check >>= fun _ => okOr (s.users id) e >>= f) = .ok b) :
    ∃ user, s.users user.id = some user ∧ f user = .ok b :=
  h.found (seq_ok.mp hread).2

theorem Effect.keyed {c : Credentials} {limit now : ℕ} {s s' : Accounts}
    (h : Effect c limit now s s') (hs : Keyed s) : Keyed s' := by
  have hput : ∀ user : User, ∀ id found,
      Function.update s.users user.id (some user) id = some found → found.id = id := by
    intro user id found hfound
    rw [Function.update_apply] at hfound
    split_ifs at hfound with hid
    · rw [← Option.some.inj hfound, hid]
    · exact hs id found hfound
  intro id found hfound
  cases h with
  | same husers _ _ _ _ => exact hs id found (husers ▸ hfound)
  | created user password _ _ _ husers _ _ _ _ => exact hput user id found (husers ▸ hfound)
  | wrote user user' _ _ _ _ hid husers _ _ _ _ =>
    rw [husers, ← hid] at hfound
    exact hput user' id found hfound
  | _ => exact hs id found hfound

/-! ## Every transaction has an effect -/

section

variable {c : Credentials} {limit : ℕ} {call : Call} {s s' : Accounts} {answer : Result Unit}

theorem Effect.unchanged : Effect c limit call.now s s := .same rfl rfl rfl rfl rfl

variable {username hash password account code sessionId run : Text} {r : User × List Fact}
  {otp : Option Text}

theorem charge_effect (h : locked s username call.now = false) :
    Effect c limit call.now s (charge s username call.now) := by
  unfold charge
  cases hname : s.usernames username with
  | none => exact .unchanged
  | some uid =>
    -- an unlocked row starts a new window exactly when every other recorder would
    have hfree : ((s.attempts username).getD ⟨0, 0, 0⟩).lockedUntil ≤ call.now := by
      cases hrow : s.attempts username with
      | none => exact Nat.zero_le _
      | some row =>
        rw [locked, hrow, Option.any_some, decide_eq_false_iff_not] at h
        exact Nat.le_of_not_lt h
    have hcharge : Effect c limit call.now s (failAttempt s username call.now) := .failed username h
    simp only [hfree, true_and]
    exact hcharge

theorem Spent.id {user : User} (h : Spent user r) : r.1.id = user.id := by
  obtain ⟨a, hr, -⟩ := h
  rw [hr]

section

variable {user user' : User} {facts : List Fact} {s₁ : Accounts}
  (hrow : s.users user.id = some user) (hid : user'.id = user.id)
  (hhash : user'.passwordHash = user.passwordHash)
  (husers : s₁.users = s.users) (hattempts : s₁.attempts = s.attempts)
  (hhistory : s₁.passwordHistory = s.passwordHistory) (htrail : s₁.trail = s.trail)

include hrow hid hhash husers hattempts hhistory htrail

/-- A writer that touches nothing of the account but its authenticator. -/
theorem authenticator_effect
    (hchange : AuthenticatorChange user.id s.workflowSecrets user.toAuthenticator
      user'.toAuthenticator s₁.workflowSecrets facts) :
    Effect c limit call.now s ((s₁.putUser user').note facts) := by
  refine .wrote user user' facts [] [] hrow hid ?_ hchange ?_ ?_ ?_
  · simp only [Accounts.note, Accounts.putUser, husers, hid]
  · simp only [Accounts.note, Accounts.putUser, hhistory, hhash]
    exact .kept
  · simp only [Accounts.note, Accounts.putUser, hattempts]
    exact .kept
  · simp only [Accounts.note, Accounts.putUser, htrail, List.nil_append]

/-- The same, with nothing to note. -/
theorem authenticator_effect_silent
    (hchange : AuthenticatorChange user.id s.workflowSecrets user.toAuthenticator
      user'.toAuthenticator s₁.workflowSecrets []) :
    Effect c limit call.now s (s₁.putUser user') :=
  authenticator_effect hrow hid hhash husers hattempts hhistory htrail hchange

end

/-- A factor was spent, or none was needed: the row is written back and the factor noted. -/
theorem Spent.effect {user : User} (hspent : Spent user r) (hrow : s.users user.id = some user)
    {s₁ : Accounts} (husers : s₁.users = s.users) (hattempts : s₁.attempts = s.attempts)
    (hhistory : s₁.passwordHistory = s.passwordHistory)
    (hsecrets : s₁.workflowSecrets = s.workflowSecrets) (htrail : s₁.trail = s.trail) :
    Effect c limit call.now s ((s₁.putUser r.1).note r.2) := by
  obtain ⟨a, hr, hspends⟩ := hspent
  refine authenticator_effect hrow (by rw [hr]) (by rw [hr]) husers hattempts hhistory htrail ?_
  rw [hr, hsecrets]
  exact .spent hspends

/-- The same, with the attempts of a username forgotten and a hash of another form written. -/
theorem Spent.rewrote {user : User} (hspent : Spent user r) (hrow : s.users user.id = some user)
    (username : Text) {s₁ : Accounts}
    (husers : s₁.users = Function.update s.users user.id (some { r.1 with passwordHash := hash }))
    (hattempts : s₁.attempts = s.attempts) (hsecrets : s₁.workflowSecrets = s.workflowSecrets)
    (htrail : s₁.trail = s.trail) :
    Rewrote s ((s₁.clearAttempts username).note r.2) user { r.1 with passwordHash := hash } r.2
      [.cleared username] := by
  obtain ⟨a, hr, hspends⟩ := hspent
  refine ⟨hrow, by rw [hr], ?_, ?_, ?_, ?_⟩
  · simp only [Accounts.note, Accounts.clearAttempts, husers]
  · simp only [Accounts.note, Accounts.clearAttempts, hr, hsecrets]
    exact .spent hspends
  · simp only [Accounts.note, Accounts.clearAttempts, hattempts]
    exact .cleared username
  · simp only [Accounts.note, Accounts.clearAttempts, htrail, List.singleton_append]

theorem loginFactor_ok {user : Option User} {matched : Bool}
    (h : loginFactor c call user matched otp = .ok (some r)) :
    ∃ u, user = some u ∧ matched = true ∧ u.passwordHash ≠ [] ∧ Spent u r := by
  cases user with
  | none =>
    change (Except.ok none : Result _) = .ok (some r) at h
    cases h
  | some u =>
    change (if _ then _ else _) = _ at h
    split_ifs at h with hgo
    · exact ⟨u, rfl, hgo.1, hgo.2.1, consumePasswordFactor_ok h⟩
    · cases h

theorem hashToVerify_of_ne {user : User} (h : user.passwordHash ≠ []) :
    hashToVerify c (some user) = user.passwordHash := by
  simp [hashToVerify, Option.filter, h]

/-- A password sign-in wrote the hash in a new form and noted it, or did what it does where no form
is out of date. -/
theorem passwordLogin_cases {salt : ℕ} (hkeyed : Keyed s)
    (h : passwordLogin c limit call username password otp salt s = .ok (s', answer)) :
    Effect c.settled limit call.now s s' ∨
      Rewriting c limit s s' (.passwordLogin username password otp salt) := by
  obtain ⟨-, h1⟩ := seq_ok.mp h
  split_ifs at h1 with hlocked
  · cases h1
    exact .inl .unchanged
  rw [Bool.not_eq_true] at hlocked
  obtain ⟨upgraded, hupgraded, h2⟩ := bind_ok.mp h1
  obtain ⟨spent, hspent, h3⟩ := bind_ok.mp h2
  cases spent with
  | none =>
    cases h3
    split_ifs
    · exact .inl (.failed username hlocked)
    · exact .inl .unchanged
  | some r =>
    obtain ⟨answer', -, h4⟩ := bind_ok.mp h3
    cases h4
    obtain ⟨user, huser, hmatched, hlocal, hr⟩ := loginFactor_ok hspent
    obtain ⟨uid, -, hrow⟩ := Option.bind_eq_some_iff.mp huser
    obtain rfl := hkeyed uid user hrow
    rw [newForm, if_pos hmatched] at hupgraded
    rw [huser, hashToVerify_of_ne hlocal] at hupgraded hmatched
    have hrest := hr
    obtain ⟨a, hra, -⟩ := hrest
    cases upgraded with
    | none =>
      have husers : (rehash limit s r.1 none).users = Function.update s.users user.id
          (some { r.1 with passwordHash := user.passwordHash }) := by
        simp only [rehash, Accounts.putUser, hra]
      exact .inl ((hr.rewrote hrow username husers rfl rfl rfl).effect .kept)
    | some hash =>
      have husers : (rehash limit s r.1 (some hash)).users = Function.update s.users user.id
          (some { r.1 with passwordHash := hash }) := by
        simp only [rehash, Accounts.putUser, hra]
      refine .inr (.noted huser hlocal hmatched hupgraded ?_
        (hr.rewrote hrow username husers rfl rfl rfl))
      simp only [Accounts.note, Accounts.clearAttempts, rehash, Accounts.putUser, hra]

theorem directoryAttempt_effect {binding : Binding}
    (h : directoryAttempt call binding s = .ok (s', answer)) :
    Effect c.settled limit call.now s s' := by
  obtain ⟨-, h1⟩ := seq_ok.mp h
  obtain ⟨-, h2⟩ := seq_ok.mp h1
  obtain ⟨-, h3⟩ := seq_ok.mp h2
  cases h3
  exact .same rfl rfl rfl rfl rfl

theorem directoryLogin_effect {binding : Binding} {epoch : ℕ} {authenticated : Bool}
    (hkeyed : Keyed s)
    (h : directoryLogin c call binding epoch authenticated otp s = .ok (s', answer)) :
    Effect c.settled limit call.now s s' := by
  obtain ⟨user, hrow, h1⟩ := hkeyed.found h
  obtain ⟨current, -, h2⟩ := bind_ok.mp h1
  obtain ⟨spent, hspent, h3⟩ := bind_ok.mp h2
  cases spent with
  | none =>
    cases h3
    exact .unchanged
  | some r =>
    obtain ⟨answer', -, h4⟩ := bind_ok.mp h3
    cases h4
    split_ifs at hspent
    · exact (consumePasswordFactor_ok hspent).effect hrow rfl rfl rfl rfl rfl
    · cases hspent

/-- A password was replaced, perhaps after a factor was spent. -/
theorem replacePassword_effect {user : User} {plaintext : Text} {salt : ℕ} {s₁ : Accounts}
    (hspent : Spent user r) (hrow : s.users user.id = some user)
    (hhash : c.passwordHash salt plaintext = .ok hash)
    (h : replacePassword c limit s r.1 plaintext hash = .ok s₁) :
    Effect c.settled limit call.now s (s₁.note r.2) := by
  obtain ⟨history, haccept, h1⟩ := bind_ok.mp h
  cases h1
  obtain ⟨a, hra, hspends⟩ := hspent
  rw [hra, ← accept_settled] at haccept
  rw [hra]
  refine .wrote user { user with toAuthenticator := a, passwordHash := hash, epoch := user.epoch + 1 }
    r.2 [.chosen user.id plaintext] [.cleared user.username] hrow rfl rfl (.spent hspends)
    (.chosen plaintext salt hhash haccept) (.cleared user.username) rfl

theorem changePassword_effect {pinned : User} {current : Text} {salt : ℕ} (hkeyed : Keyed s)
    (h : changePassword c limit call pinned current password otp salt s = .ok (s', answer)) :
    Effect c.settled limit call.now s s' := by
  obtain ⟨hash, hhash, h1⟩ := bind_ok.mp h
  obtain ⟨-, h2⟩ := seq_ok.mp h1
  obtain ⟨user, hrow, h3⟩ := hkeyed.found h2
  obtain ⟨-, h4⟩ := seq_ok.mp h3
  obtain ⟨-, h5⟩ := seq_ok.mp h4
  split_ifs at h5 with hlocked
  · cases h5
    exact .unchanged
  rw [Bool.not_eq_true] at hlocked
  obtain ⟨spent, hspent, h6⟩ := bind_ok.mp h5
  cases spent with
  | none =>
    cases h6
    exact .failed user.username hlocked
  | some r =>
    obtain ⟨s₁, hreplace, h7⟩ := bind_ok.mp h6
    obtain ⟨answer', -, h8⟩ := bind_ok.mp h7
    cases h8
    split_ifs at hspent
    · exact replacePassword_effect (consumePasswordFactor_ok hspent) hrow hhash hreplace
    · cases hspent

theorem portalPasswordChange_effect {userId current : Text} {salt : ℕ} (hkeyed : Keyed s)
    (h : portalPasswordChange c limit call userId current password salt s = .ok (s', answer)) :
    Effect c.settled limit call.now s s' := by
  obtain ⟨hash, hhash, h1⟩ := bind_ok.mp h
  obtain ⟨-, h2⟩ := seq_ok.mp h1
  obtain ⟨user, hrow, h3⟩ := hkeyed.found h2
  obtain ⟨-, h4⟩ := seq_ok.mp h3
  split_ifs at h4 with hlocked hmatched
  · cases h4
    exact .unchanged
  · obtain ⟨s₁, hreplace, h5⟩ := bind_ok.mp h4
    obtain ⟨answer', -, h6⟩ := bind_ok.mp h5
    cases h6
    have hkept : Spent user (user, []) := ⟨_, rfl, .nothing⟩
    exact replacePassword_effect (r := (user, [])) hkept hrow hhash hreplace
  · cases h4
    rw [Bool.not_eq_true] at hlocked
    exact .failed user.username hlocked

theorem clearAttempts_effect {user : User} (hrow : s.users user.id = some user) :
    Effect c limit call.now s (s.clearAttempts user.username) := by
  refine .wrote user user [] [] [.cleared user.username] hrow rfl ?_ (.spent .nothing) .kept
    (.cleared user.username) rfl
  exact (Function.update_eq_self_iff.mpr hrow.symm).symm

theorem workflowPassword_effect {finished : Bool} (hkeyed : Keyed s)
    (h : workflowPassword c call account username hash password finished s = .ok (s', answer)) :
    Effect c.settled limit call.now s s' := by
  obtain ⟨user, hrow, h2⟩ := hkeyed.found_checked h
  obtain ⟨-, h3⟩ := seq_ok.mp h2
  obtain ⟨-, h4⟩ := seq_ok.mp h3
  split_ifs at h4 with hlocked hmatched hfinished
  · cases h4
    exact .unchanged
  · obtain ⟨answer', -, h5⟩ := bind_ok.mp h4
    cases h5
    exact clearAttempts_effect hrow
  · obtain ⟨answer', -, h5⟩ := bind_ok.mp h4
    cases h5
    exact .unchanged
  · cases h4
    rw [Bool.not_eq_true] at hlocked
    exact .failed user.username hlocked

theorem verifyCode_ok {user : User} {factor : CodeFactor}
    (h : verifyCode c call user code factor = .ok (some r)) : Spent user r := by
  cases factor with
  | totp =>
    obtain ⟨secret, hsecret, h1⟩ := bind_ok.mp h
    exact consumeTotp_ok (okOr_ok.mp hsecret) h1
  | recoveryCode => exact consumeRecoveryCode_some (Except.ok.inj h)

/-- The account keeps its password, and the attempts of its username are forgotten. -/
theorem Spent.effect_signedIn {user : User} (hspent : Spent user r)
    (hrow : s.users user.id = some user) :
    Effect c limit call.now s (((s.putUser r.1).clearAttempts r.1.username).note r.2) := by
  have hrest := hspent
  obtain ⟨a, hra, -⟩ := hrest
  have husers : (s.putUser r.1).users = Function.update s.users user.id
      (some { r.1 with passwordHash := user.passwordHash }) := by
    simp only [Accounts.putUser, hra]
  exact (hspent.rewrote hrow r.1.username husers rfl rfl rfl).effect .kept

theorem workflowCode_effect {factor : CodeFactor} (hkeyed : Keyed s)
    (h : workflowCode c call account code factor s = .ok (s', answer)) :
    Effect c.settled limit call.now s s' := by
  obtain ⟨user, hrow, h2⟩ := hkeyed.found_checked h
  split_ifs at h2 with hlocked
  · cases h2
    exact .unchanged
  obtain ⟨spent, hspent, h3⟩ := bind_ok.mp h2
  cases spent with
  | none =>
    cases h3
    rw [Bool.not_eq_true] at hlocked
    exact .failed user.username hlocked
  | some r =>
    obtain ⟨answer', -, h4⟩ := bind_ok.mp h3
    cases h4
    exact (verifyCode_ok hspent).effect_signedIn hrow

/-- What a Windows sign-in has verified: the factor it spent, and a form of the same password. -/
theorem verifyProof_ok {user user' : User} {facts : List Fact} {upgraded : Option Text}
    {proof : WindowsProof} (h : verifyProof c call user proof = .ok (.ok user' facts upgraded)) :
    Spent user (user', facts) ∧ ∀ hash ∈ upgraded, ∃ password otp salt,
      proof = .password password otp salt ∧ user.passwordHash ≠ [] ∧
      c.passwordMatches password user.passwordHash = true ∧
      c.upgradePasswordHash salt password user.passwordHash = .ok (some hash) := by
  cases proof with
  | reauth session =>
    obtain ⟨session, -, h1⟩ := bind_ok.mp h
    cases session with
    | none => cases h1
    | some session =>
      dsimp only at h1
      split_ifs at h1 <;> cases h1
      exact ⟨⟨_, rfl, .nothing⟩, fun hash hhash => (nomatch hhash)⟩
  | password password otp salt =>
    obtain ⟨form, hform, h1⟩ := bind_ok.mp h
    split_ifs at h1 with hbad
    · cases h1
    obtain ⟨hmatched, hlocal⟩ := not_or.mp hbad
    rw [Bool.not_eq_false] at hmatched
    have hnew : ∀ hash ∈ form, ∃ password' otp' salt',
        WindowsProof.password password otp salt = .password password' otp' salt' ∧
        user.passwordHash ≠ [] ∧ c.passwordMatches password' user.passwordHash = true ∧
        c.upgradePasswordHash salt' password' user.passwordHash = .ok (some hash) := by
      intro hash hhash
      rw [newForm, if_pos hmatched] at hform
      rw [hashToVerify_of_ne hlocal] at hform hmatched
      exact ⟨password, otp, salt, rfl, hlocal, hmatched, hform.trans (congrArg _ hhash)⟩
    cases hsecret : user.totpSecret with
    | none =>
      rw [hsecret] at h1
      cases h1
      exact ⟨⟨_, rfl, .nothing⟩, hnew⟩
    | some secret =>
      rw [hsecret] at h1
      cases otp with
      | none => cases h1
      | some code =>
        obtain ⟨spent, hspent, h2⟩ := bind_ok.mp h1
        cases spent with
        | none => cases h2
        | some r =>
          cases h2
          exact ⟨consumeFactor_ok hsecret hspent, hnew⟩

/-- A Windows sign-in wrote the hash in a new form and left the history alone, or did what it does
where no form is out of date. -/
theorem windowsLogin_cases {deviceId deviceSecret : Text} {proof : WindowsProof} (hkeyed : Keyed s)
    (h : windowsLogin c call deviceId username deviceSecret proof s = .ok (s', answer)) :
    Effect c.settled limit call.now s s' ∨
      Rewriting c limit s s' (.windowsLogin deviceId username deviceSecret proof) := by
  unfold windowsLogin at h
  split_ifs at h with hlocked
  · cases h
    exact .inl .unchanged
  rw [Bool.not_eq_true] at hlocked
  split at h
  · cases h
    exact .inl (charge_effect hlocked)
  next device hdevice =>
    obtain ⟨user, hfound, h1⟩ := bind_ok.mp h
    have hrow := okOr_ok.mp hfound
    have hkeyedRow := hrow
    rw [← hkeyed _ _ hrow] at hrow
    split_ifs at h1
    · cases h1
      exact .inl (charge_effect hlocked)
    obtain ⟨factor, hfactor, h2⟩ := bind_ok.mp h1
    cases factor with
    | mfaRequired =>
      cases h2
      exact .inl .unchanged
    | reject =>
      cases h2
      exact .inl (charge_effect hlocked)
    | ok user' facts upgraded =>
      cases h2
      obtain ⟨hspent, hform⟩ := verifyProof_ok hfactor
      cases upgraded with
      | none => exact .inl (hspent.effect_signedIn hrow)
      | some hash =>
        obtain ⟨password, otp, salt, rfl, hlocal, hmatched, hnew⟩ := hform hash rfl
        have hid : user'.id = user.id := hspent.id
        have husers : (s.putUser { user' with passwordHash := hash }).users =
            Function.update s.users user.id (some { user' with passwordHash := hash }) := by
          simp only [Accounts.putUser, hid]
        exact .inr (.unnoted (Option.filter_eq_some_iff.mp hdevice).1 hkeyedRow hlocal hmatched
          hnew rfl (hspent.rewrote hrow user'.username husers rfl rfl rfl))

theorem sourceFinish_effect {userId : Text} {mfa : Bool} (hkeyed : Keyed s)
    (h : sourceFinish c call userId mfa otp s = .ok (s', answer)) :
    Effect c.settled limit call.now s s' := by
  obtain ⟨user, hrow, h2⟩ := hkeyed.found_checked h
  obtain ⟨spent, hspent, h3⟩ := bind_ok.mp h2
  cases spent with
  | none =>
    cases h3
    exact .unchanged
  | some r =>
    obtain ⟨answer', -, h4⟩ := bind_ok.mp h3
    cases h4
    have hr : Spent user r := by
      split_ifs at hspent
      · cases hspent
        exact ⟨_, rfl, .nothing⟩
      · exact consumePasswordFactor_ok hspent
    exact hr.effect hrow rfl rfl rfl rfl rfl

/-! ### Writers -/

theorem createUser_effect {id : Text} {password : Option (Text × ℕ)} {admin enabled : Bool}
    (h : createUser c limit call id username password admin enabled s = .ok (s', answer)) :
    Effect c.settled limit call.now s s' := by
  obtain ⟨hash, hhash, h1⟩ := bind_ok.mp h
  obtain ⟨-, h2⟩ := seq_ok.mp h1
  obtain ⟨-, h3⟩ := seq_ok.mp h2
  obtain ⟨hfree, h4⟩ := seq_ok.mp h3
  obtain ⟨answer', -, h5⟩ := bind_ok.mp h4
  cases h5
  exact .created (newUser id username hash admin enabled) password (require_ok.mp hfree) rfl hhash
    rfl rfl rfl rfl rfl

theorem bindDirectory_effect {userId : Text} {binding : Option Binding}
    {usernames : Text → Option Text}
    (h : bindDirectory call userId binding usernames s = .ok (s', answer)) :
    Effect c.settled limit call.now s s' := by
  obtain ⟨-, h1⟩ := seq_ok.mp h
  obtain ⟨answer', -, h2⟩ := bind_ok.mp h1
  cases h2
  exact .same rfl rfl rfl rfl rfl

theorem putDevice_effect {device : WindowsDevice} (h : putDevice call device s = .ok (s', answer)) :
    Effect c.settled limit call.now s s' := by
  obtain ⟨-, h1⟩ := seq_ok.mp h
  obtain ⟨answer', -, h2⟩ := bind_ok.mp h1
  cases h2
  exact .same rfl rfl rfl rfl rfl

theorem updateProfile_effect {userId : Text} {enabled admin hasPasskeys : Bool} {epoch : ℕ}
    (hkeyed : Keyed s)
    (h : updateProfile call userId enabled admin hasPasskeys epoch s = .ok (s', answer)) :
    Effect c.settled limit call.now s s' := by
  obtain ⟨user, hrow, h2⟩ := hkeyed.found_checked h
  obtain ⟨answer', -, h3⟩ := bind_ok.mp h2
  cases h3
  exact authenticator_effect_silent hrow rfl rfl rfl rfl rfl rfl (.spent .nothing)

/-- What a writer of a password does besides: it may remove the factors. -/
def KeepsCredentials (change : User → User) : Prop :=
  ∀ user, (change user).id = user.id ∧ (change user).passwordHash = user.passwordHash ∧
    ((change user).toAuthenticator = user.toAuthenticator ∨
      ∃ settings, (change user).toAuthenticator = ⟨none, none, none, settings, ∅⟩)

theorem setPassword_effect {change : User → User} {userId plaintext : Text} {salt : ℕ}
    (hkeyed : Keyed s)
    (h : setPassword c limit call change userId plaintext salt s = .ok (s', answer))
    (hchange : KeepsCredentials change) : Effect c.settled limit call.now s s' := by
  obtain ⟨user, hrow, h2⟩ := hkeyed.found_checked h
  obtain ⟨hash, hhash, h3⟩ := bind_ok.mp h2
  obtain ⟨history, haccept, h4⟩ := bind_ok.mp h3
  obtain ⟨answer', -, h5⟩ := bind_ok.mp h4
  cases h5
  obtain ⟨hid, hsame, hauth⟩ :=
    hchange { user with passwordHash := hash, epoch := user.epoch + 1 }
  refine .wrote user _ [] [.chosen user.id plaintext] [.cleared _] hrow hid ?_ ?_ ?_
    (.cleared _) ?_
  · simp only [Accounts.note, Accounts.clearAttempts, Accounts.putUser, hid]
  · rcases hauth with hkept | ⟨settings, hremoved⟩
    · rw [hkept]
      exact .spent .nothing
    · rw [hremoved]
      exact .removed settings
  · rw [hsame]
    rw [← accept_settled] at haccept
    exact .chosen plaintext salt hhash haccept
  · simp only [Accounts.note, Accounts.clearAttempts, Accounts.putUser, hid, List.nil_append]

theorem importHash_effect {userId raw : Text} (hkeyed : Keyed s)
    (h : importHash c limit call userId raw s = .ok (s', answer)) :
    Effect c.settled limit call.now s s' := by
  obtain ⟨user, hrow, h2⟩ := hkeyed.found_checked h
  obtain ⟨hash, hhash, h3⟩ := bind_ok.mp h2
  obtain ⟨answer', -, h4⟩ := bind_ok.mp h3
  cases h4
  exact .wrote user { user with passwordHash := hash, epoch := user.epoch + 1 } [] _
    [.cleared user.username] hrow rfl rfl (.spent .nothing) (.imported raw hhash)
    (.cleared user.username) rfl

theorem disablePassword_effect {userId : Text} (hkeyed : Keyed s)
    (h : disablePassword call userId s = .ok (s', answer)) : Effect c.settled limit call.now s s' := by
  obtain ⟨user, hrow, h2⟩ := hkeyed.found_checked h
  obtain ⟨answer', -, h3⟩ := bind_ok.mp h2
  cases h3
  exact .wrote user { user with passwordHash := [], epoch := user.epoch + 1 } [] [] [] hrow rfl rfl
    (.spent .nothing) .disabled .kept rfl

theorem totpStart_effect {userId secret : Text} {replace : Bool} (hkeyed : Keyed s)
    (h : totpStart c call userId sessionId secret replace s = .ok (s', answer)) :
    Effect c.settled limit call.now s s' := by
  obtain ⟨user, hrow, h2⟩ := hkeyed.found_checked h
  obtain ⟨-, h3⟩ := seq_ok.mp h2
  obtain ⟨-, h4⟩ := seq_ok.mp h3
  obtain ⟨generate, -, h5⟩ := bind_ok.mp h4
  cases h5
  exact authenticator_effect hrow rfl rfl rfl rfl rfl rfl (.started secret _)

theorem totpConfirm_effect {userId : Text} {codes : List Text} (hkeyed : Keyed s)
    (h : totpConfirm c call userId sessionId code codes s = .ok (s', answer)) :
    Effect c.settled limit call.now s s' := by
  obtain ⟨user, hrow, h2⟩ := hkeyed.found_checked h
  obtain ⟨⟨enrollment, secret, expiresAt⟩, hpending, h3⟩ := bind_ok.mp h2
  obtain ⟨-, h4⟩ := seq_ok.mp h3
  obtain ⟨-, h5⟩ := seq_ok.mp h4
  obtain ⟨step, -, h6⟩ := bind_ok.mp h5
  obtain ⟨accepted, -, h7⟩ := bind_ok.mp h6
  obtain ⟨answer', -, h8⟩ := bind_ok.mp h7
  cases h8
  have hsecret : user.totpPending = some (secret, expiresAt) := by
    have hfound := okOr_ok.mp hpending
    unfold pending at hfound
    split at hfound
    · cases hfound
    · rename_i waiting until_ hwaiting
      obtain ⟨e, -, he⟩ := Option.map_eq_some_iff.mp hfound
      cases he
      exact hwaiting
  exact authenticator_effect hrow rfl rfl rfl rfl rfl rfl
    (.confirmed secret expiresAt accepted _ hsecret)

theorem totpCancel_effect {userId : Text} (hkeyed : Keyed s)
    (h : totpCancel c call userId sessionId s = .ok (s', answer)) :
    Effect c.settled limit call.now s s' := by
  obtain ⟨user, hrow, h2⟩ := hkeyed.found_checked h
  split_ifs at h2
  · cases h2
    exact .unchanged
  · cases h2
    exact authenticator_effect_silent hrow rfl rfl rfl rfl rfl rfl .dropped

theorem totpRemove_effect {userId : Text} (hkeyed : Keyed s)
    (h : totpRemove call userId s = .ok (s', answer)) : Effect c.settled limit call.now s s' := by
  obtain ⟨user, hrow, h2⟩ := hkeyed.found_checked h
  obtain ⟨-, h3⟩ := seq_ok.mp h2
  obtain ⟨answer', -, h4⟩ := bind_ok.mp h3
  cases h4
  exact authenticator_effect_silent hrow rfl rfl rfl rfl rfl rfl (.removed .default)

theorem rotateRecoveryCodes_effect {userId : Text} {codes : List Text} (hkeyed : Keyed s)
    (h : rotateRecoveryCodes c call userId codes s = .ok (s', answer)) :
    Effect c.settled limit call.now s s' := by
  obtain ⟨user, hrow, h2⟩ := hkeyed.found_checked h
  obtain ⟨-, h3⟩ := seq_ok.mp h2
  cases h3
  exact authenticator_effect hrow rfl rfl rfl rfl rfl rfl (.rotated _)

theorem resetMfa_effect {userId : Text} (hkeyed : Keyed s)
    (h : resetMfa call userId s = .ok (s', answer)) : Effect c.settled limit call.now s s' := by
  obtain ⟨user, hrow, h2⟩ := hkeyed.found_checked h
  obtain ⟨-, h3⟩ := seq_ok.mp h2
  obtain ⟨answer', -, h4⟩ := bind_ok.mp h3
  cases h4
  exact authenticator_effect_silent hrow rfl rfl rfl rfl rfl rfl (.removed user.totpSettings)

theorem importTotp_effect {userId : Text} {secret : Result Text} {settings : TotpSettings}
    {lastUsedStep : Option ℕ} (hkeyed : Keyed s)
    (h : importTotp call userId secret settings lastUsedStep s = .ok (s', answer)) :
    Effect c.settled limit call.now s s' := by
  obtain ⟨user, hrow, h2⟩ := hkeyed.found_checked h
  obtain ⟨-, h3⟩ := seq_ok.mp h2
  obtain ⟨secret, -, h4⟩ := bind_ok.mp h3
  obtain ⟨-, h5⟩ := seq_ok.mp h4
  obtain ⟨answer', -, h6⟩ := bind_ok.mp h5
  cases h6
  exact authenticator_effect hrow rfl rfl rfl rfl rfl rfl (.imported secret _ settings)

theorem reserveWorkflowTotp_effect {secret : Text}
    (h : reserveWorkflowTotp c call run account secret s = .ok (s', answer)) :
    Effect c.settled limit call.now s s' := by
  obtain ⟨-, h1⟩ := seq_ok.mp h
  obtain ⟨user, -, h2⟩ := bind_ok.mp h1
  obtain ⟨generate, -, h3⟩ := bind_ok.mp h2
  cases h3
  exact .reserved run user.id secret

theorem discardWorkflowTotp_effect (h : discardWorkflowTotp call run s = .ok (s', answer)) :
    Effect c.settled limit call.now s s' := by
  obtain ⟨-, h1⟩ := seq_ok.mp h
  obtain ⟨answer', -, h2⟩ := bind_ok.mp h1
  cases h2
  exact .discarded run

theorem confirmWorkflowTotp_effect {change : WorkflowTotpChange} (hkeyed : Keyed s)
    (h : confirmWorkflowTotp c call run code change s = .ok (s', answer)) :
    Effect c.settled limit call.now s s' := by
  obtain ⟨-, h1⟩ := seq_ok.mp h
  obtain ⟨⟨account, secret⟩, hreserved, h2⟩ := bind_ok.mp h1
  obtain ⟨user, hfound, h3⟩ := bind_ok.mp h2
  have hrow := okOr_ok.mp hfound
  obtain rfl := hkeyed _ _ hrow
  obtain ⟨step, -, h4⟩ := bind_ok.mp h3
  cases step with
  | none =>
    cases h4
    exact .discarded run
  | some step =>
    obtain ⟨-, h5⟩ := seq_ok.mp h4
    obtain ⟨-, h6⟩ := seq_ok.mp h5
    obtain ⟨answer', -, h7⟩ := bind_ok.mp h6
    cases h7
    exact authenticator_effect hrow rfl rfl rfl rfl rfl rfl
      (.committed run secret step (okOr_ok.mp hreserved))

theorem sweepAttempts_effect (h : sweepAttempts call username s = .ok (s', answer)) :
    Effect c.settled limit call.now s s' := by
  unfold sweepAttempts at h
  cases hrow : s.attempts username with
  | none =>
    rw [hrow] at h
    cases h
    exact .unchanged
  | some row =>
    rw [hrow] at h
    dsimp only at h
    split_ifs at h with hold
    · cases h
      exact .swept username row hrow hold
    · cases h
      exact .unchanged

theorem sweepEnrollments_effect {userId : Text} (hkeyed : Keyed s)
    (h : sweepEnrollments call userId s = .ok (s', answer)) :
    Effect c.settled limit call.now s s' := by
  unfold sweepEnrollments at h
  split at h
  · cases h
    exact .unchanged
  split_ifs at h
  · cases h
    exact .unchanged
  dsimp only at h
  cases hrow : s.users userId with
  | none =>
    rw [hrow] at h
    cases h
    exact .same rfl rfl rfl rfl rfl
  | some user =>
    rw [hrow] at h
    rw [← hkeyed _ _ hrow] at hrow
    dsimp only at h
    split_ifs at h
    · cases h
      exact authenticator_effect_silent hrow rfl rfl rfl rfl rfl rfl .dropped
    · cases h
      exact .same rfl rfl rfl rfl rfl

section PasswordWriters

variable {userId plaintext : Text} {salt : ℕ}

theorem patchPassword_effect (hkeyed : Keyed s)
    (h : patchPassword c limit call userId plaintext salt s = .ok (s', answer)) :
    Effect c.settled limit call.now s s' :=
  setPassword_effect hkeyed h fun _ => ⟨rfl, rfl, .inl rfl⟩

theorem scimPassword_effect {enabled : Bool} (hkeyed : Keyed s)
    (h : scimPassword c limit call enabled userId plaintext salt s = .ok (s', answer)) :
    Effect c.settled limit call.now s s' :=
  setPassword_effect hkeyed h fun _ => ⟨rfl, rfl, .inl rfl⟩

theorem manifestPassword_effect {enabled admin : Bool} (hkeyed : Keyed s)
    (h : manifestPassword c limit call enabled admin userId plaintext salt s = .ok (s', answer)) :
    Effect c.settled limit call.now s s' :=
  setPassword_effect hkeyed h fun _ => ⟨rfl, rfl, .inl rfl⟩

theorem acceptInvitation_effect (hkeyed : Keyed s)
    (h : acceptInvitation c limit call userId plaintext salt s = .ok (s', answer)) :
    Effect c.settled limit call.now s s' :=
  setPassword_effect hkeyed h fun _ => ⟨rfl, rfl, .inl rfl⟩

theorem recoverAdmin_effect {reset : Bool} (hkeyed : Keyed s)
    (h : recoverAdmin c limit call reset userId plaintext salt s = .ok (s', answer)) :
    Effect c.settled limit call.now s s' := by
  refine setPassword_effect hkeyed h fun user => ?_
  cases reset with
  | false => exact ⟨rfl, rfl, .inl rfl⟩
  | true => exact ⟨rfl, rfl, .inr ⟨user.totpSettings, rfl⟩⟩

theorem completeReset_effect {exposed : Bool} (hkeyed : Keyed s)
    (h : completeReset c limit call exposed userId plaintext salt s = .ok (s', answer)) :
    Effect c.settled limit call.now s s' := by
  refine setPassword_effect hkeyed h fun user => ?_
  cases exposed with
  | false => exact ⟨rfl, rfl, .inl rfl⟩
  | true => exact ⟨rfl, rfl, .inr ⟨.default, rfl⟩⟩

end PasswordWriters

/-- A transaction that commits writes a hash in a new form, or does what it does where no form is
out of date. -/
theorem run_cases {e : Event} (hkeyed : Keyed s) (h : e.run c limit call s = .ok (s', answer)) :
    Effect c.settled limit call.now s s' ∨ Rewriting c limit s s' e := by
  cases e with
  | passwordLogin => exact passwordLogin_cases hkeyed h
  | directoryAttempt => exact .inl (directoryAttempt_effect h)
  | directoryLogin => exact .inl (directoryLogin_effect hkeyed h)
  | pinPasswordChange =>
    obtain ⟨user, -, hs⟩ := map_ok.mp h
    cases hs
    exact .inl .unchanged
  | changePassword => exact .inl (changePassword_effect hkeyed h)
  | portalPasswordChange => exact .inl (portalPasswordChange_effect hkeyed h)
  | reserveWorkflowPassword =>
    obtain ⟨user, -, hs⟩ := map_ok.mp h
    cases hs
    exact .inl .unchanged
  | workflowPassword => exact .inl (workflowPassword_effect hkeyed h)
  | workflowCode => exact .inl (workflowCode_effect hkeyed h)
  | windowsLogin => exact windowsLogin_cases hkeyed h
  | sourceFinish => exact .inl (sourceFinish_effect hkeyed h)
  | createUser => exact .inl (createUser_effect h)
  | bindDirectory => exact .inl (bindDirectory_effect h)
  | putDevice => exact .inl (putDevice_effect h)
  | updateProfile => exact .inl (updateProfile_effect hkeyed h)
  | patchPassword => exact .inl (patchPassword_effect hkeyed h)
  | scimPassword => exact .inl (scimPassword_effect hkeyed h)
  | manifestPassword => exact .inl (manifestPassword_effect hkeyed h)
  | recoverAdmin => exact .inl (recoverAdmin_effect hkeyed h)
  | completeReset => exact .inl (completeReset_effect hkeyed h)
  | acceptInvitation => exact .inl (acceptInvitation_effect hkeyed h)
  | importHash => exact .inl (importHash_effect hkeyed h)
  | disablePassword => exact .inl (disablePassword_effect hkeyed h)
  | totpStart => exact .inl (totpStart_effect hkeyed h)
  | totpConfirm => exact .inl (totpConfirm_effect hkeyed h)
  | totpCancel => exact .inl (totpCancel_effect hkeyed h)
  | totpRemove => exact .inl (totpRemove_effect hkeyed h)
  | rotateRecoveryCodes => exact .inl (rotateRecoveryCodes_effect hkeyed h)
  | resetMfa => exact .inl (resetMfa_effect hkeyed h)
  | importTotp => exact .inl (importTotp_effect hkeyed h)
  | reserveWorkflowTotp => exact .inl (reserveWorkflowTotp_effect h)
  | discardWorkflowTotp => exact .inl (discardWorkflowTotp_effect h)
  | confirmWorkflowTotp => exact .inl (confirmWorkflowTotp_effect hkeyed h)
  | sweepAttempts => exact .inl (sweepAttempts_effect h)
  | sweepEnrollments => exact .inl (sweepEnrollments_effect hkeyed h)

/-- **Every transaction that commits has an effect.** -/
theorem run_effect {e : Event} (hkeyed : Keyed s) (h : e.run c limit call s = .ok (s', answer)) :
    Effect c limit call.now s s' := by
  rcases run_cases hkeyed h with heffect | hrewriting
  · exact heffect.of_settled
  · exact hrewriting.effect

theorem keyed_empty : Keyed .empty := fun _ _ h => nomatch h

/-- What every effect keeps, and the empty store has, holds of every reachable state. -/
theorem Reachable.invariant {start now : ℕ} (h : Reachable c limit start now s)
    {I : Accounts → Prop} (hempty : I .empty)
    (hstep : ∀ now s s', Effect c limit now s s' → I s → I s') : I s := by
  obtain ⟨es, hrun, -, -⟩ := h
  refine (hrun.invariant (I := fun s => Keyed s ∧ I s) ?_ ⟨keyed_empty, hempty⟩).2
  rintro s e s' ⟨answer, hok⟩ ⟨hkeyed, hs⟩
  have heffect := run_effect hkeyed hok
  exact ⟨heffect.keyed hkeyed, hstep _ _ _ heffect hs⟩

/-- The same for what also depends on the time. -/
theorem Reachable.invariant_timed {start now : ℕ} (h : Reachable c limit start now s)
    (hclock : start ≤ now) {I : ℕ → Accounts → Prop} (hempty : I start .empty)
    (hlater : ∀ t t' s, t ≤ t' → I t s → I t' s)
    (hstep : ∀ now s s', start ≤ now → Effect c limit now s s' → I now s → I now s') : I now s := by
  obtain ⟨es, hrun, hordered, htimes⟩ := h
  have hboth := hrun.invariant_timed (I := fun t s => Keyed s ∧ I t s)
    (fun t t' s htt' hs => ⟨hs.1, hlater t t' s htt' hs.2⟩) ?_ hordered htimes hclock
    ⟨keyed_empty, hempty⟩
  · exact hboth.2
  · rintro e he s s' ⟨answer, hok⟩ ⟨hkeyed, hs⟩
    have heffect := run_effect hkeyed hok
    exact ⟨heffect.keyed hkeyed, hstep _ _ _ (htimes e he).1 heffect hs⟩

/-! ## Executing a run -/

/-- Execute transactions one after another, as long as they commit. -/
def execute (c : Credentials) (limit : ℕ) : Accounts → List (Call × Event) → Option Accounts
  | s, [] => some s
  | s, e :: es =>
    match e.2.run c limit e.1 s with
    | .ok (s', _) => execute c limit s' es
    | .error _ => none

theorem run_of_execute {es : List (Call × Event)} (h : execute c limit s es = some s') :
    Run (Step c limit) s es s' := by
  induction es generalizing s with
  | nil =>
    cases h
    exact .nil
  | cons e es ih =>
    unfold execute at h
    split at h
    · exact .cons ⟨_, ‹_›⟩ (ih h)
    · cases h

/-- What can be evaluated after executing transactions holds of a reachable state. -/
theorem exists_reachable_of_execute (c : Credentials) (limit : ℕ) (es : List (Call × Event))
    (start now : ℕ) (P : Accounts → Bool) (h : (execute c limit .empty es).any P = true)
    (hordered : Ordered (fun e => e.1.now) es)
    (htimes : ∀ e ∈ es, start ≤ e.1.now ∧ e.1.now ≤ now) :
    ∃ s, Reachable c limit start now s ∧ P s = true := by
  obtain ⟨s, hs, hP⟩ := (Option.any_eq_true _ _).mp h
  exact ⟨s, ⟨es, run_of_execute hs, hordered, htimes⟩, hP⟩

/-- A library for examples. A hash is the password after a letter, of which `o` marks an old form;
the code of a time is its last six digits. -/
def sample : Credentials where
  digest := id
  passwordMatches password hash := hash = 'h' :: password || hash = 'o' :: password
  passwordHash _ password := .ok ('h' :: password)
  upgradePasswordHash _ password old :=
    .ok (if old = 'o' :: password then some ('h' :: password) else none)
  validateImportedHash hash := .ok hash
  totp _ _ _ := .ok fun time => (Nat.toDigits 10 (1000000 + time % 1000000)).drop 1
  dummyHash := ['d']

end

end RiAuth.Identity
