import RiAuth.Basic
import RiAuth.Lib.Checks
import RiAuth.Lib.OrdMap

/-!
# Policy enforcement

What has to hold of an identity before an application is opened to it.

* `Predicate.evaluate`: conditions on facts that the server holds;
* `TrustedPredicateFacts.load`, `ruleReasons`, `enforce`: the policy of a client and of the scopes
  that are asked for;
* `authorizeIdentity`: the checks of the client itself;
* `actual`, `enforceAssurance`: how the identity was authenticated, and what is demanded;
* `enforce_ok`, `authorizeIdentity_ok`, `enforceAssurance_default`: what each of them demands.

Sets of names are lists, of which only the members matter.
-/

namespace RiAuth.Policy

open Checks

/-- Every name of the first set is in the second. -/
def isSubset (a b : List Text) : Bool := a.all fun x => x ∈ b

def isDisjoint (a b : List Text) : Bool := a.all fun x => x ∉ b

/-! ## Records -/

/-- Who is let in. -/
structure Rule where
  allGroups : List Text
  anyGroups : List Text
  deniedGroups : List Text
  users : List Text
  deniedUsers : List Text
  requireMfa : Bool

/-- A proof with an age. -/
inductive AuthenticationProof where
  | password
  | passkey
  | source
deriving DecidableEq

/-- How an identity was proved. -/
inductive AssuranceLevel where
  | password
  | mfa
  | federated
  | certificate
deriving DecidableEq

/-- A condition on the facts of a session. -/
inductive Predicate where
  | application (id : Text)
  | groupMember (group : Text)
  | verifiedSource (source : Text)
  | proofFresh (proof : AuthenticationProof) (maxAgeSeconds : ℕ)
  | assurance (level : AssuranceLevel)
  | approvedDevice (maxAgeSeconds : ℕ)
  | all (of : List Predicate)
  | any (of : List Predicate)
  | not (condition : Predicate)

/-- Conditions for access and for single scopes. -/
structure ConditionalPolicy where
  access : List Predicate
  scopes : OrdMap Text (List Predicate)

/-- The policy of a client. `conditional` is there in the Platform build only. -/
structure Rules where
  access : Rule
  scopes : OrdMap Text Rule
  conditional : Option ConditionalPolicy

/-- The row of a client. -/
structure Client where
  id : Text
  enabled : Bool
  service : Bool
  scopes : List Text
  allowedGroups : List Text
  requireMfa : Bool
  policy : Rules
  defaultAcrValues : List Text
  requireDeviceTrust : Bool
  userinfoOnly : Bool

/-- The row of a user. -/
structure User where
  id : Text
  username : Text
  enabled : Bool
  epoch : ℕ

/-- The source behind an identity. -/
structure SourceIdentity where
  id : Text
  fingerprint : Text
  link : Text
deriving DecidableEq

/-- Who signed in, and how. -/
structure Identity where
  amr : List Text
  source : Option SourceIdentity
  userId : Text
  epoch : ℕ
  mfa : Bool
  authTime : ℕ
  sessionId : Text

/-- The row of a session. -/
structure Session where
  identity : Identity
  expiresAt : ℕ
  revoked : Bool

/-- How the user signed in. -/
def Identity.authenticationMethods (i : Identity) : List Text :=
  if i.amr ≠ [] then i.amr
  else if i.mfa then ["pwd".toList, "otp".toList]
  else ["pwd".toList]

/-- What policy decisions read from the store. -/
structure ClaimsTx where
  groupsFor : Text → Result (List Text)
  session : Text → Result (Option Session)
  verifiedUpstreamSource : Identity → Result (Option Text)
  approvedDeviceAt : Identity → ℕ → Result (Option ℕ)

/-! ## Assurance -/

def PASSWORD : Text := "urn:riauth:acr:password".toList

def MFA : Text := "urn:riauth:acr:mfa".toList

def FEDERATED : Text := "urn:riauth:acr:federated".toList

def CERTIFICATE_ACR : Text := "urn:riauth:acr:certificate".toList

/-- The name of a level. -/
def AssuranceLevel.acr : AssuranceLevel → Text
  | .password => PASSWORD
  | .mfa => MFA
  | .federated => FEDERATED
  | .certificate => CERTIFICATE_ACR

theorem AssuranceLevel.acr_inj {a b : AssuranceLevel} : a.acr = b.acr ↔ a = b := by
  cases a <;> cases b <;> decide

/-- The level at which the identity was authenticated. -/
def actual (i : Identity) : Text :=
  if i.mfa then MFA
  else if i.source.any fun s => !"ldap/".toList.isPrefixOf s.id then FEDERATED
  else if i.amr.any fun method => method = "x509".toList || method = "cert".toList then
    CERTIFICATE_ACR
  else PASSWORD

theorem actual_eq_mfa {i : Identity} : actual i = MFA ↔ i.mfa = true := by
  unfold actual
  split_ifs with hmfa hsource hcert
  · simp [hmfa]
  all_goals
    simp only [hmfa]
    decide

/-- What is asked of one claim. -/
structure Requirement where
  essential : Bool
  value : Option Json
  values : Option (List Json)

/-- The claims that a request asks for. -/
structure ClaimsRequest where
  idToken : OrdMap Text (Option Requirement)
  userinfo : OrdMap Text (Option Requirement)

def ClaimsRequest.empty : ClaimsRequest := ⟨.empty, .empty⟩

/-- Whether a value satisfies a requirement. -/
def matchesValue (r : Requirement) (value : Json) : Bool :=
  r.value.all (fun v => v = value) && r.values.all fun vs => value ∈ vs

/-- The value that an essential claim is compared with. -/
def essentialValue (i : Identity) (claims : Json) (name : Text) : Json :=
  if name = "acr".toList then .str (actual i)
  else if name = "auth_time".toList then if i.authTime ≠ 0 then .int i.authTime else .null
  else if name = "amr".toList then .arr (i.authenticationMethods.map .str)
  else claims.field name

/-- The error of a stronger sign-in needed. -/
def unmet (message : String) : Error := .oauth "unmet_authentication_requirements" message

/-- One requested claim. -/
def enforceEssential (client : Client) (i : Identity) (request : ClaimsRequest) (claims : Json)
    (claim : Text × Option Requirement) : Result Unit :=
  match claim.2 with
  | none => .ok ()
  | some r =>
    if r.essential = false then .ok ()
    else do
      let value := essentialValue i claims claim.1
      require (value ≠ .null ∧ matchesValue r value = true)
        (unmet "An essential claim cannot be satisfied")
      require (¬ (client.userinfoOnly = true ∧ (request.idToken.get? claim.1).isSome = true ∧
          claim.1 ∉ ["sub".toList, "acr".toList, "amr".toList, "auth_time".toList]))
        (unmet "Provider requires this claim to be delivered through UserInfo")

/-- `assurance::enforce`. `acrValues` are the values asked for, already split. -/
def enforceAssurance (client : Client) (i : Identity) (acrValues : Option (List Text))
    (request : ClaimsRequest) (claims : Json) : Result Unit := do
  let values := acrValues.getD client.defaultAcrValues
  require (values = [] ∨ actual i ∈ values) (unmet "Authenticate with a requested assurance method")
  (request.idToken.entries ++ request.userinfo.entries).forM
    (enforceEssential client i request claims)

theorem enforceAssurance_default {client : Client} {i : Identity} {claims : Json} :
    enforceAssurance client i none .empty claims = .ok () ↔
      client.defaultAcrValues = [] ∨ actual i ∈ client.defaultAcrValues := by
  unfold enforceAssurance
  rw [seq_ok, require_ok]
  exact and_iff_left rfl

/-! ## Predicates -/

/-- The facts that predicates are about. -/
structure PredicateFacts where
  application : Text → Bool
  groupMember : Text → Bool
  verifiedSource : Text → Bool
  proofFresh : AuthenticationProof → ℕ → Bool
  assurance : AssuranceLevel → Bool
  approvedDevice : ℕ → Bool

mutual

/-- A predicate on known facts. -/
def Predicate.evaluate (facts : PredicateFacts) : Predicate → Bool
  | .application id => facts.application id
  | .groupMember group => facts.groupMember group
  | .verifiedSource source => facts.verifiedSource source
  | .proofFresh proof maxAge => facts.proofFresh proof maxAge
  | .assurance level => facts.assurance level
  | .approvedDevice maxAge => facts.approvedDevice maxAge
  | .all of => Predicate.evaluateAll facts of
  | .any of => Predicate.evaluateAny facts of
  | .not condition => !condition.evaluate facts

/-- Whether all hold. -/
def Predicate.evaluateAll (facts : PredicateFacts) : List Predicate → Bool
  | [] => true
  | p :: ps => p.evaluate facts && Predicate.evaluateAll facts ps

/-- Whether one holds. -/
def Predicate.evaluateAny (facts : PredicateFacts) : List Predicate → Bool
  | [] => false
  | p :: ps => p.evaluate facts || Predicate.evaluateAny facts ps

end

/-- The facts of one decision, read from what the server holds. -/
structure TrustedPredicateFacts where
  client : Client
  identity : Identity
  groups : List Text
  source : Option Text
  deviceVerifiedAt : Option ℕ
  at_ : ℕ

/-- The session is live, and is the one that the identity was issued for. -/
def Session.holds (s : Session) (at_ : ℕ) (user : User) (i : Identity) : Prop :=
  s.revoked = false ∧ at_ < s.expiresAt ∧ s.identity.userId = user.id ∧
    s.identity.userId = i.userId ∧ s.identity.epoch = user.epoch ∧ s.identity.epoch = i.epoch ∧
    s.identity.sessionId = i.sessionId ∧ s.identity.mfa = i.mfa ∧
    s.identity.authTime = i.authTime ∧ s.identity.amr = i.amr ∧ s.identity.source = i.source

instance (s : Session) (at_ : ℕ) (user : User) (i : Identity) : Decidable (s.holds at_ user i) := by
  unfold Session.holds
  infer_instance

namespace TrustedPredicateFacts

/-- The facts, read from the store. -/
def load (tx : ClaimsTx) (at_ : ℕ) (client : Client) (user : User) (identity : Identity) :
    Result TrustedPredicateFacts := do
  let session ← tx.session identity.sessionId
  let session ← okOr session .forbidden
  require (session.holds at_ user identity) .forbidden
  let source ← tx.verifiedUpstreamSource identity
  let deviceVerifiedAt ← tx.approvedDeviceAt identity at_
  let groups ← tx.groupsFor user.id
  .ok { client, identity, groups, source, deviceVerifiedAt, at_ }

/-- Whether a proof is recent enough. -/
def proofFresh (f : TrustedPredicateFacts) (proof : AuthenticationProof) (maxAge : ℕ) : Bool :=
  0 < f.identity.authTime && f.identity.authTime ≤ f.at_ && f.at_ - f.identity.authTime ≤ maxAge &&
    match proof with
    | .password => f.identity.source.isNone && "pwd".toList ∈ f.identity.authenticationMethods
    | .passkey => f.identity.source.isNone && "webauthn".toList ∈ f.identity.authenticationMethods
    | .source => f.source.isSome

/-- How predicates see the facts. -/
def facts (f : TrustedPredicateFacts) : PredicateFacts where
  application id := f.client.id = id
  groupMember group := group ∈ f.groups
  verifiedSource source := f.source = some source
  proofFresh := f.proofFresh
  assurance level := actual f.identity = level.acr
  approvedDevice maxAge := f.deviceVerifiedAt.any fun verified => f.at_ - verified ≤ maxAge

end TrustedPredicateFacts

/-! ## Rules -/

/-- Why a decision is not to allow. -/
inductive Reason where
  | requiredGroupsMissing
  | noMatchingGroup
  | deniedGroup
  | userNotAllowed
  | userDenied
  | mfaRequired
  | clientDisabled
  | userDisabled
  | serviceClientHasNoUserIdentity
  | unregisteredScope
  | noMatchingClientGroup
  | sourceDisabled
  | assuranceNotAccepted
  | conditionalPolicyDenied
  | conditionalPolicyRequiresLiveProof
  | deviceTrustVerifierUnconfigured
  | deviceTrustSessionRequired
  | deviceTrustRequired
deriving DecidableEq

/-- The reason is given if the condition holds. -/
def Reason.given (r : Reason) (c : Bool) : List Reason := if c then [r] else []

@[simp] theorem Reason.given_eq_nil {r : Reason} {c : Bool} : r.given c = [] ↔ c = false := by
  cases c <;> simp [Reason.given]

/-- Why a rule keeps a user out. -/
def ruleReasons (rule : Rule) (username : Text) (groups : List Text) (mfa : Bool) : List Reason :=
  Reason.requiredGroupsMissing.given (!isSubset rule.allGroups groups) ++
  Reason.noMatchingGroup.given (rule.anyGroups ≠ [] && isDisjoint rule.anyGroups groups) ++
  Reason.deniedGroup.given (!isDisjoint rule.deniedGroups groups) ++
  Reason.userNotAllowed.given (rule.users ≠ [] && username ∉ rule.users) ++
  Reason.userDenied.given (username ∈ rule.deniedUsers) ++
  Reason.mfaRequired.given (rule.requireMfa && !mfa)

/-- The rules for a request: that of the client, and those of the scopes. -/
def Client.rules (client : Client) (scopes : List Text) : List Rule :=
  client.policy.access :: scopes.filterMap client.policy.scopes.get?

/-- `claims::enforce`. -/
def enforce (tx : ClaimsTx) (at_ : ℕ) (client : Client) (user : User) (identity : Identity)
    (scopes : List Text) : Result Unit := do
  let groups ← tx.groupsFor user.id
  require (∀ rule ∈ client.rules scopes, ruleReasons rule user.username groups identity.mfa = [])
    .forbidden
  match client.policy.conditional with
  | none => .ok ()
  | some policy => do
    let f ← TrustedPredicateFacts.load tx at_ client user identity
    require (¬ ((policy.access.all fun c => c.evaluate f.facts) = false ∨
        (scopes.any fun scope => (policy.scopes.get? scope).any fun conditions =>
          !conditions.all fun c => c.evaluate f.facts) = true))
      .forbidden

/-! ## The client -/

/-- What decisions read beside policy facts. -/
structure Context where
  identityUser : Identity → Result User
  /-- A verifier for devices is configured, and can be used. -/
  deviceTrustReady : Bool
  /-- The session of the identity is live, and its device was verified. -/
  deviceVerified : Identity → Result Bool

/-- `device_trust::policy_reason`. -/
def policyReason (ctx : Context) (client : Client) (identity : Option Identity) :
    Result (Option Reason) :=
  if client.requireDeviceTrust = false then .ok none
  else if ctx.deviceTrustReady = false then .ok (some .deviceTrustVerifierUnconfigured)
  else
    match identity with
    | none => .ok (some .deviceTrustSessionRequired)
    | some i => do
      let verified ← ctx.deviceVerified i
      .ok (if verified then none else some .deviceTrustRequired)

/-- `device_trust::require`. -/
def requireDevice (ctx : Context) (client : Client) (identity : Identity) : Result Unit := do
  match ← policyReason ctx client (some identity) with
  | none => .ok ()
  | some .deviceTrustVerifierUnconfigured =>
    .error (unmet "Device trust verifier is not configured")
  | some _ => .error (unmet "Fresh device trust verification is required")

/-- Whether an identity may use a client. -/
def authorizeIdentity (ctx : Context) (tx : ClaimsTx) (at_ : ℕ) (client : Client)
    (identity : Identity) : Result User := do
  let user ← ctx.identityUser identity
  require (client.enabled = true ∧ client.service = false ∧
    ¬ (client.requireMfa = true ∧ identity.mfa = false)) .forbidden
  (if client.allowedGroups = [] then .ok ()
    else do
      let groups ← tx.groupsFor user.id
      require (isDisjoint client.allowedGroups groups = false) .forbidden : Result Unit)
  enforce tx at_ client user identity []
  requireDevice ctx client identity
  .ok user

/-! ## What the checks demand -/

/-- The conditions for a request. -/
def ConditionalPolicy.conditions (policy : ConditionalPolicy) (scopes : List Text) :
    List Predicate :=
  policy.access ++ (scopes.filterMap policy.scopes.get?).flatten

theorem ConditionalPolicy.mem_conditions {policy : ConditionalPolicy} {scopes : List Text}
    {p : Predicate} : p ∈ policy.conditions scopes ↔ p ∈ policy.access ∨
      ∃ scope ∈ scopes, ∃ conditions, policy.scopes.get? scope = some conditions ∧
        p ∈ conditions := by
  unfold ConditionalPolicy.conditions
  rw [List.mem_append, List.mem_flatten]
  refine or_congr_right ⟨?_, ?_⟩
  · rintro ⟨conditions, hmem, hp⟩
    obtain ⟨scope, hscope, hget⟩ := List.mem_filterMap.mp hmem
    exact ⟨scope, hscope, conditions, hget, hp⟩
  · rintro ⟨scope, hscope, conditions, hget, hp⟩
    exact ⟨conditions, List.mem_filterMap.mpr ⟨scope, hscope, hget⟩, hp⟩

section

variable {ctx : Context} {tx : ClaimsTx} {at_ : ℕ} {client : Client} {user : User}
  {identity : Identity} {scopes groups : List Text}

/-- The identity is live, and its facts are what the store holds. The time of its authentication
and the state of its device are any. -/
structure Live (ctx : Context) (tx : ClaimsTx) (at_ : ℕ) (user : User) (identity : Identity)
    (groups : List Text) (source : Option Text) (device : Option ℕ) : Prop where
  valid : ctx.identityUser identity = .ok user
  enabled : user.enabled = true
  session : ∃ s, tx.session identity.sessionId = .ok (some s) ∧ s.holds at_ user identity
  members : tx.groupsFor user.id = .ok groups
  upstream : tx.verifiedUpstreamSource identity = .ok source
  approved : tx.approvedDeviceAt identity at_ = .ok device

variable {source : Option Text} {device : Option ℕ}

theorem Live.load (h : Live ctx tx at_ user identity groups source device) :
    TrustedPredicateFacts.load tx at_ client user identity =
      .ok ⟨client, identity, groups, source, device, at_⟩ := by
  obtain ⟨s, hs, hholds⟩ := h.session
  unfold TrustedPredicateFacts.load
  refine bind_ok.mpr ⟨some s, hs, bind_ok.mpr ⟨s, rfl, ?_⟩⟩
  refine seq_ok.mpr ⟨require_ok.mpr hholds, bind_ok.mpr ⟨source, h.upstream, ?_⟩⟩
  exact bind_ok.mpr ⟨device, h.approved, bind_ok.mpr ⟨groups, h.members, rfl⟩⟩

/-- What the policy demands of a live identity. -/
theorem Live.enforce_ok (h : Live ctx tx at_ user identity groups source device) :
    enforce tx at_ client user identity scopes = .ok () ↔
      (∀ rule ∈ client.rules scopes, ruleReasons rule user.username groups identity.mfa = []) ∧
      ∀ policy, client.policy.conditional = some policy → ∀ p ∈ policy.conditions scopes,
        p.evaluate (TrustedPredicateFacts.mk client identity groups source device at_).facts =
          true := by
  unfold enforce
  rw [bind_ok]
  constructor
  · rintro ⟨groups', hgroups, hrest⟩
    cases h.members.symm.trans hgroups
    obtain ⟨hrules, hrest⟩ := seq_ok.mp hrest
    refine ⟨require_ok.mp hrules, fun policy hpolicy p hp => ?_⟩
    rw [hpolicy] at hrest
    obtain ⟨f, hf, hrest⟩ := bind_ok.mp hrest
    cases h.load.symm.trans hf
    obtain ⟨haccess, hscopes⟩ := not_or.mp (require_ok.mp hrest)
    obtain hp | ⟨scope, hscope, conditions, hget, hp⟩ := ConditionalPolicy.mem_conditions.mp hp
    · exact List.all_eq_true.mp (Bool.not_eq_false _ ▸ haccess) p hp
    · by_contra hfalse
      refine hscopes (List.any_eq_true.mpr ⟨scope, hscope, ?_⟩)
      rw [hget]
      exact Bool.not_eq_true' _ ▸ (List.all_eq_false.mpr ⟨p, hp, hfalse⟩)
  · rintro ⟨hrules, hconditions⟩
    refine ⟨groups, h.members, seq_ok.mpr ⟨require_ok.mpr hrules, ?_⟩⟩
    cases hpolicy : client.policy.conditional with
    | none => rfl
    | some policy =>
      have hall := fun p hp => hconditions policy hpolicy p (ConditionalPolicy.mem_conditions.mpr hp)
      refine bind_ok.mpr ⟨_, h.load, require_ok.mpr (not_or.mpr ⟨?_, ?_⟩)⟩
      · rw [Bool.not_eq_false, List.all_eq_true]
        exact fun p hp => hall p (.inl hp)
      · intro hany
        obtain ⟨scope, hscope, hbad⟩ := List.any_eq_true.mp hany
        obtain ⟨conditions, hget, hbad⟩ := (Option.any_eq_true _ _).mp hbad
        rw [Bool.not_eq_true', List.all_eq_false] at hbad
        obtain ⟨p, hp, hfalse⟩ := hbad
        exact hfalse (hall p (.inr ⟨scope, hscope, conditions, hget, hp⟩))

/-- What a device has to be for an application. -/
theorem requireDevice_ok :
    requireDevice ctx client identity = .ok () ↔ client.requireDeviceTrust = false ∨
      ctx.deviceTrustReady = true ∧ ctx.deviceVerified identity = .ok true := by
  unfold requireDevice policyReason
  cases client.requireDeviceTrust with
  | false => simp [bind, Except.bind]
  | true =>
    cases ctx.deviceTrustReady with
    | false => simp [bind, Except.bind]
    | true =>
      cases hverified : ctx.deviceVerified identity with
      | error e => simp [bind, Except.bind, hverified]
      | ok verified => cases verified <;> simp [bind, Except.bind, hverified]

/-- What the client demands of a live identity. -/
theorem Live.authorizeIdentity_ok (h : Live ctx tx at_ user identity groups source device) :
    authorizeIdentity ctx tx at_ client identity = .ok user ↔
      (client.enabled = true ∧ client.service = false ∧
        ¬ (client.requireMfa = true ∧ identity.mfa = false)) ∧
      (client.allowedGroups = [] ∨ isDisjoint client.allowedGroups groups = false) ∧
      enforce tx at_ client user identity [] = .ok () ∧
      requireDevice ctx client identity = .ok () := by
  have hgroups : ((if client.allowedGroups = [] then .ok ()
      else do
        let groups ← tx.groupsFor user.id
        require (isDisjoint client.allowedGroups groups = false) .forbidden : Result Unit) = .ok ()) ↔
      client.allowedGroups = [] ∨ isDisjoint client.allowedGroups groups = false := by
    split_ifs with hnil
    · simp [hnil]
    · rw [h.members]
      change require _ _ = _ ↔ _
      rw [require_ok]
      exact (or_iff_right hnil).symm
  unfold authorizeIdentity
  rw [h.valid]
  change (require _ _ >>= fun _ => _) = _ ↔ _
  rw [seq_ok, require_ok, seq_ok, hgroups, seq_ok, seq_ok]
  simp

end

end RiAuth.Policy
