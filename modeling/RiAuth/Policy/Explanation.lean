import RiAuth.Policy.Callers

/-!
# Explanations of a policy

What a caller is told about a decision for an account. The caller has to be able to read every group
that the decision looks at, and every group of the account where the groups are told as such.

* `mappedClaims`, `mapsGroups`: the claims, and whether they tell the groups;
* `explain`, `simulatePolicy`: the two ways to ask;
* **`memberships_not_disclosed`**: neither depends on memberships that the caller may not read.
-/

namespace RiAuth.Policy

open Checks

/-! ## Claims -/

section

variable (digest : Text → Text)

/-- The name of the account towards the client. -/
def subject (user : Account) (client : App) : Text :=
  match user.subjects.get? client.id, client.pairwiseSector with
  | some subject, _ => subject
  | none, some sector =>
    digest (user.pairwiseSeed ++ Char.ofNat 0 :: sector ++ Char.ofNat 0 :: user.id)
  | none, none => user.id

/-- The groups as a claim. -/
def groupsJson (groups : Names) : Json := .arr (groups.list.map .str)

/-- The value a mapping reads. -/
def claimValue (groups : Names) (user : Account) : ClaimSource → Json
  | .username => .str user.username
  | .displayName => .str user.displayName
  | .email => (user.email.map .str).getD .null
  | .emailVerified => .bool user.emailVerified
  | .groups => groupsJson groups
  | .attribute key => (user.attributes.get? key).getD .null
  | .literal value => value

/-- The groups are told by a scope. -/
def tellsGroups (client : App) (scopes : List Text) : Bool :=
  "groups".toList ∈ scopes || (client.groupsInProfile && "profile".toList ∈ scopes)

/-- Whether a token tells groups. -/
def mapsGroups (client : App) (scopes : List Text) : Bool :=
  tellsGroups client scopes ||
    client.claimMappings.any fun mapping => mapping.scope ∈ scopes && mapping.source = .groups

/-- The claims of the scopes. -/
def scopeClaims (groups : Names) (user : Account) (client : App) (scopes : List Text) : Json :=
  let claims : Json := .obj [("sub".toList, .str (subject digest user client))]
  let claims := if "profile".toList ∈ scopes then
      (claims.setField "name".toList (.str user.displayName)).setField "preferred_username".toList
        (.str user.username)
    else claims
  let claims := match user.email with
    | some email =>
      if "email".toList ∈ scopes then
        (claims.setField "email".toList (.str email)).setField "email_verified".toList
          (.bool user.emailVerified)
      else claims
    | none => claims
  if tellsGroups client scopes then claims.setField "groups".toList (groupsJson groups) else claims

/-- One mapping, if its scope is asked for and its value is there. -/
def applyMapping (groups : Names) (user : Account) (scopes : List Text) (claims : Json)
    (mapping : ClaimMapping) : Json :=
  if mapping.scope ∈ scopes ∧ claimValue groups user mapping.source ≠ .null then
    claims.setField mapping.claim (claimValue groups user mapping.source)
  else claims

/-- All claims of a user. -/
def mappedClaims (groups : Names) (user : Account) (client : App) (scopes : List Text) : Json :=
  client.claimMappings.foldl (applyMapping groups user scopes)
    (scopeClaims digest groups user client scopes)

/-! ## Explanations -/

/-- A question to the explanation. -/
structure Explain where
  clientId : Text
  username : Text
  scope : List Text
  mfa : Bool

/-- A reason that it gives. -/
inductive ExplainedReason where
  | policy (reason : Reason)
  | conditionalPolicyRequiresSession

/-- The answer; its constant fields are left out. -/
structure Explanation where
  mfaAssumed : Bool
  allowed : Bool
  reasons : List ExplainedReason
  scopeDecisions : List (Text × List Reason)
  userinfo : Json
  idTokenIdentityClaims : Json
  accessTokenIdentityClaims : Json

/-- `explain_decision`, on the groups of the account and the reason of the device. -/
def explainDecision (input : Explain) (client : App) (user : Account) (groups : Names)
    (deviceReason : Option Reason) : Explanation :=
  let reasons := (ordinaryReasons client.toClient user.toUser input.scope groups.list input.mfa ++
      deviceReason.toList).map .policy ++
    if client.policy.conditional.isSome then [.conditionalPolicyRequiresSession] else []
  let scopes := input.scope.filterMap fun scope => (client.policy.scopes.get? scope).map fun rule =>
    (scope, ruleReasons rule user.username groups.list input.mfa)
  let mapped := mappedClaims digest groups user client input.scope
  let bare : Json := .obj [("sub".toList, .str (subject digest user client))]
  { mfaAssumed := input.mfa
    allowed := reasons.isEmpty && scopes.all fun s => s.2.isEmpty
    reasons
    scopeDecisions := scopes
    userinfo := mapped
    idTokenIdentityClaims := if client.userinfoOnly then bare else mapped
    accessTokenIdentityClaims := if client.claimsInAccessToken then mapped else bare }

end

section

variable (c : Config) (ctx : Context) (digest : Text → Text) (r : Records) (m : Memberships)

/-- The account of a name. -/
def userByName (username : Text) : Result Account := do
  let id ← okOr (r.usernames username) (.missing "User not found")
  okOr (r.users id) (.missing "User not found")

/-- The caller can read each of the groups. -/
def requireGroups (actor : Principal) (groups : List Text) : Result Unit :=
  groups.forM fun g => actor.require c.toEdition "group.read".toList ("group/".toList ++ g)

/-- Where the claims tell the groups, the caller can read all of them. -/
def requireMapped (actor : Principal) (client : App) (user : Account) (scopes : List Text) :
    Result Unit :=
  if mapsGroups client scopes then do
    let groups ← groupsFor r m user.id
    requireGroups c actor groups.list
  else .ok ()

/-- Why an access would be granted or not. -/
def explain (token : Text) (input : Explain) : Result Explanation := do
  let actor ← management c r m token "client.read".toList ("client/".toList ++ input.clientId)
  actor.require c.toEdition "user.read".toList ("user/".toList ++ input.username)
  let client ← okOr (r.clients input.clientId) (.missing "Client not found")
  let user ← userByName r input.username
  requireGroups c actor (decisionGroups client.toClient input.scope)
  requireMapped c r m actor client user input.scope
  let groups ← groupsFor r m user.id
  let deviceReason ← policyReason ctx client.toClient none
  .ok (explainDecision digest input client user groups deviceReason)

/-! ## Simulations -/

/-- What the answer is bound to; of the client, what a decision reads. -/
structure Binding where
  revision : ℕ
  request : Simulation
  client : Client
  user : User
  observedGroups : OrdMap Text Bool
  sourceEnabled : Bool
  deviceReason : Option Reason

/-- The answer of a simulation. -/
structure SimulationReport where
  decision : Decision
  revision : ℕ
  dependencyRevision : Text

/-- The names that are accepted. -/
def validateName (name : Text) : Result Unit :=
  require (name ≠ [] ∧ name ≠ ['.'] ∧ name ≠ ['.', '.'] ∧ name.bytes ≤ 64 ∧
    ∀ x ∈ name, x.isAlphanum = true ∨ x ∈ ['-', '_', '.', '@'])
    (.bad "Names must be 1–64 ASCII letters, digits, dots, hyphens, underscores or @")

/-- Source and assurance contradict each other. -/
def Simulation.conflicts (input : Simulation) : Prop :=
  input.assurance = .federated ∧ input.source = none ∨
    input.source ≠ none ∧ ¬ (input.assurance = .federated ∨ input.assurance = .mfa)

instance (input : Simulation) : Decidable input.conflicts :=
  inferInstanceAs (Decidable (_ ∧ _ ∨ _ ∧ ¬ (_ ∨ _)))

/-- The groups that the answer can depend on. -/
def dependencies (input : Simulation) (client : Client) : List Text :=
  decisionGroups client input.scope ++ (input.group.map SimulatedGroup.name).toList

/-- The groups that the account is assumed to have. -/
def assumedGroups (input : Simulation) (client : Client) (actual : Names) : List Text :=
  let known := (dependencies input client).filter fun g => actual.has g
  match input.group with
  | none => known
  | some group => if group.member then group.name :: known else known.filter (· ≠ group.name)

/-- The source that is assumed has to be there. -/
def readSource (actor : Principal) (source : Option Text) : Result Bool :=
  match source with
  | none => .ok false
  | some source => do
    actor.require c.toEdition "source.read".toList ("source/".toList ++ source)
    validateName source
    okOr (r.sources source) (.missing "Source not found")

/-- A simulated group has to exist. -/
def checkGroup (group : Option SimulatedGroup) : Result Unit :=
  match group with
  | none => .ok ()
  | some group => do
    validateName group.name
    require (r.groups group.name = true) (.missing "Group not found")

variable (bindingDigest : Binding → Text)

/-- The answer, once the caller and the request are accepted. -/
def simulationReport (input : Simulation) (client : App) (user : Account) (actual : Names)
    (sourceEnabled : Bool) (deviceReason : Option Reason) : SimulationReport where
  decision := simulateDecision input client.toClient user.toUser
    (assumedGroups input client.toClient actual) sourceEnabled deviceReason
  revision := r.revision
  dependencyRevision := bindingDigest ⟨r.revision, input, client.toClient, user.toUser,
    OrdMap.ofList ((dependencies input client.toClient).map fun g => (g, actual.has g)),
    sourceEnabled, deviceReason⟩

/-- The answer with assumed facts. -/
def simulatePolicy (token : Text) (input : Simulation) : Result SimulationReport := do
  let actor ← management c r m token "client.read".toList ("client/".toList ++ input.clientId)
  actor.require c.toEdition "user.read".toList ("user/".toList ++ input.username)
  let client ← okOr (r.clients input.clientId) (.missing "Client not found")
  let user ← userByName r input.username
  require (input.scope ≠ [] ∧ input.scope.length ≤ 32)
    (.bad "Simulation needs 1–32 requested scopes")
  require (¬ input.conflicts) (.bad "Source and assurance assumptions conflict")
  requireGroups c actor (dependencies input client.toClient)
  checkGroup r input.group
  let sourceEnabled ← readSource c r actor input.source
  let actual ← groupsFor r m user.id
  let deviceReason ← policyReason ctx client.toClient none
  .ok (simulationReport r bindingDigest input client user actual sourceEnabled deviceReason)

end

/-! ## What the answers depend on -/

section

variable {client : App} {user : Account} {a b : Names}

variable {g : Text} {scopes : List Text}

theorem mem_list_congr (h : a.has g = b.has g) : g ∈ a.list ↔ g ∈ b.list := by
  rw [Names.mem_list, Names.mem_list, h]

theorem decisionGroups_access {client : Client} (hg : g ∈ client.policy.access.groups) :
    g ∈ decisionGroups client scopes := by
  refine List.mem_append_left _ (List.mem_append_right _ ?_)
  exact List.mem_flatMap.mpr ⟨_, List.mem_cons_self, hg⟩

theorem decisionGroups_scope {client : Client} {scope : Text} {rule : Rule}
    (hscope : scope ∈ scopes) (hrule : client.policy.scopes.get? scope = some rule)
    (hg : g ∈ rule.groups) : g ∈ decisionGroups client scopes := by
  refine List.mem_append_left _ (List.mem_append_right _ ?_)
  exact List.mem_flatMap.mpr
    ⟨rule, List.mem_cons_of_mem _ (List.mem_filterMap.mpr ⟨scope, hscope, hrule⟩), hg⟩

/-- The reasons see the groups of the decision only. -/
theorem ordinaryReasons_congr {client : Client} {user : User} {mfa : Bool}
    (h : ∀ g ∈ decisionGroups client scopes, a.has g = b.has g) :
    ordinaryReasons client user scopes a.list mfa =
      ordinaryReasons client user scopes b.list mfa := by
  have hrule := @ruleReasons_congr client.policy.access user.username a.list b.list mfa
    fun g hg => mem_list_congr (h g (decisionGroups_access hg))
  have hallowed := isDisjoint_congr (a := client.allowedGroups) fun g hg =>
    mem_list_congr (h g (List.mem_append_left _ (List.mem_append_left _ hg)))
  unfold ordinaryReasons
  rw [hrule, hallowed]

/-- Claims that do not tell groups do not depend on them. -/
theorem mappedClaims_congr {digest : Text → Text} (h : mapsGroups client scopes = false) :
    mappedClaims digest a user client scopes = mappedClaims digest b user client scopes := by
  obtain ⟨htells, hmappings⟩ := Bool.or_eq_false_iff.mp h
  have hscope : scopeClaims digest a user client scopes =
      scopeClaims digest b user client scopes := by
    simp only [scopeClaims, htells, Bool.false_eq_true, if_false]
  unfold mappedClaims
  rw [hscope]
  generalize scopeClaims digest b user client scopes = claims
  -- The mappings are applied one by one, none of them with the groups as its source.
  revert claims hmappings
  generalize client.claimMappings = mappings
  intro hmappings claims
  induction mappings generalizing claims with
  | nil => rfl
  | cons mapping mappings ih =>
    rw [List.any_cons, Bool.or_eq_false_iff] at hmappings
    have hone : applyMapping a user scopes claims mapping =
        applyMapping b user scopes claims mapping := by
      unfold applyMapping
      by_cases hin : mapping.scope ∈ scopes
      · have hsource : mapping.source ≠ .groups := by
          simpa [hin] using hmappings.1
        have hvalue : claimValue a user mapping.source = claimValue b user mapping.source := by
          cases hs : mapping.source <;> first | rfl | exact absurd hs hsource
        rw [hvalue]
      · rw [if_neg fun h => hin h.1, if_neg fun h => hin h.1]
    rw [List.foldl_cons, List.foldl_cons, hone]
    exact ih hmappings.2 _

theorem explainDecision_congr {digest : Text → Text} {input : Explain}
    {deviceReason : Option Reason}
    (h : ∀ g ∈ decisionGroups client.toClient input.scope, a.has g = b.has g)
    (hmaps : mapsGroups client input.scope = true → a = b) :
    explainDecision digest input client user a deviceReason =
      explainDecision digest input client user b deviceReason := by
  have hclaims : mappedClaims digest a user client input.scope =
      mappedClaims digest b user client input.scope := by
    cases hm : mapsGroups client input.scope with
    | true => rw [hmaps hm]
    | false => exact mappedClaims_congr hm
  have hscopes : (input.scope.filterMap fun scope =>
        (client.policy.scopes.get? scope).map fun rule =>
          (scope, ruleReasons rule user.username a.list input.mfa)) =
      input.scope.filterMap fun scope => (client.policy.scopes.get? scope).map fun rule =>
        (scope, ruleReasons rule user.username b.list input.mfa) := by
    refine List.filterMap_congr fun scope hscope => ?_
    cases hrule : client.policy.scopes.get? scope with
    | none => rfl
    | some rule =>
      have hreasons := @ruleReasons_congr rule user.username a.list b.list input.mfa
        fun g hg => mem_list_congr (h g (decisionGroups_scope hscope hrule hg))
      rw [Option.map_some, Option.map_some, hreasons]
  unfold explainDecision
  rw [ordinaryReasons_congr h, hclaims, hscopes]

/-- A simulation sees the groups that it depends on only. -/
theorem simulationReport_congr {r : Records} {bindingDigest : Binding → Text} {input : Simulation}
    {sourceEnabled : Bool} {deviceReason : Option Reason}
    (h : ∀ g ∈ dependencies input client.toClient, a.has g = b.has g) :
    simulationReport r bindingDigest input client user a sourceEnabled deviceReason =
      simulationReport r bindingDigest input client user b sourceEnabled deviceReason := by
  have hknown : (dependencies input client.toClient).filter (fun g => a.has g) =
      (dependencies input client.toClient).filter fun g => b.has g := List.filter_congr h
  have hobserved : ((dependencies input client.toClient).map fun g => (g, a.has g)) =
      (dependencies input client.toClient).map fun g => (g, b.has g) :=
    List.map_congr_left fun g hg => by rw [h g hg]
  simp only [simulationReport, assumedGroups, hknown, hobserved]

end

/-! ## Two stores -/

section

variable {c : Config} {ctx : Context} {digest : Text → Text} {r : Records} {m m' : Memberships}
  {bindingDigest : Binding → Text} {token : Text}

/-- The caller can read the group. -/
def MayRead (c : Config) (r : Records) (m : Memberships) (token g : Text) : Prop :=
  ∃ actor, principal c r m token = .ok actor ∧
    actor.allows c.toEdition "group.read".toList ("group/".toList ++ g) = true

/-- The account has the same groups in both stores, as far as the caller can read them. -/
def Alike (c : Config) (r : Records) (m m' : Memberships) (token username : Text) : Prop :=
  ∀ user a b, userByName r username = .ok user → groupsFor r m user.id = .ok a →
    groupsFor r m' user.id = .ok b →
      ∀ g, MayRead c r m token g ∨ MayRead c r m' token g → a.has g = b.has g

theorem requireGroups_ok {actor : Principal} {groups : List Text} :
    requireGroups c actor groups = .ok () ↔
      ∀ g ∈ groups, actor.allows c.toEdition "group.read".toList ("group/".toList ++ g) = true := by
  unfold requireGroups
  rw [forM_ok]
  exact forall₂_congr fun g _ => require_ok

theorem management_ok {actor : Principal} {action resource : Text}
    (h : management c r m token action resource = .ok actor) :
    principal c r m token = .ok actor := by
  obtain ⟨p, hp, h₁⟩ := bind_ok.mp h
  obtain ⟨-, h₂⟩ := seq_ok.mp h₁
  obtain ⟨-, h₃⟩ := seq_ok.mp h₂
  obtain rfl := Except.ok.inj h₃
  exact hp

/-- Groups are read from both stores, or from none. -/
theorem groupsFor_congr {β : Type} {f f' : Names → Result β} {id : Text}
    (h : ∀ a b, groupsFor r m id = .ok a → groupsFor r m' id = .ok b → f a = f' b) :
    (groupsFor r m id >>= f) = groupsFor r m' id >>= f' := by
  unfold groupsFor extraGroups at h ⊢
  cases haccess : r.temporaryAccess id with
  | error e => rfl
  | ok u =>
    rw [haccess] at h
    exact h _ _ rfl rfl

/-- With the same authority in both stores a simulation ends in the same way. -/
theorem simulatePolicy_eq {input : Simulation} (h : Alike c r m m' token input.username)
    (hprincipal : principal c r m token = principal c r m' token) :
    simulatePolicy c ctx r m bindingDigest token input =
      simulatePolicy c ctx r m' bindingDigest token input := by
  have hmanagement (action resource : Text) :
      management c r m token action resource = management c r m' token action resource := by
    unfold management
    rw [hprincipal]
  unfold simulatePolicy
  rw [← hmanagement]
  refine bind_congr_ok fun actor hactor => bind_congr_ok fun _ _ => ?_
  refine bind_congr_ok fun client _ => bind_congr_ok fun user huser => ?_
  refine bind_congr_ok fun _ _ => bind_congr_ok fun _ _ => ?_
  refine bind_congr_ok fun _ hgroups => bind_congr_ok fun _ _ => bind_congr_ok fun _ _ => ?_
  refine groupsFor_congr fun a b ha hb => bind_congr_ok fun _ _ => ?_
  rw [simulationReport_congr fun g hg => h user a b huser ha hb g
    (.inl ⟨actor, management_ok hactor, requireGroups_ok.mp hgroups g hg⟩)]

/-- What an explanation that is given is made of. -/
theorem explain_ok {input : Explain} {v : Explanation}
    (h : explain c ctx digest r m token input = .ok v) :
    ∃ client user groups deviceReason, r.clients input.clientId = some client ∧
      userByName r input.username = .ok user ∧ groupsFor r m user.id = .ok groups ∧
      policyReason ctx client.toClient none = .ok deviceReason ∧
      (∀ g ∈ decisionGroups client.toClient input.scope, MayRead c r m token g) ∧
      (mapsGroups client input.scope = true → ∀ g ∈ groups.list, MayRead c r m token g) ∧
      v = explainDecision digest input client user groups deviceReason := by
  obtain ⟨actor, hactor, h₁⟩ := bind_ok.mp h
  obtain ⟨-, h₂⟩ := seq_ok.mp h₁
  obtain ⟨client, hclient, h₃⟩ := bind_ok.mp h₂
  obtain ⟨user, huser, h₄⟩ := bind_ok.mp h₃
  obtain ⟨hdecision, h₅⟩ := seq_ok.mp h₄
  have hactor := management_ok hactor
  have hread {groups : List Text} (hgroups : requireGroups c actor groups = .ok ()) :
      ∀ g ∈ groups, MayRead c r m token g :=
    fun g hg => ⟨actor, hactor, requireGroups_ok.mp hgroups g hg⟩
  obtain ⟨hmapped, h₆⟩ := seq_ok.mp h₅
  obtain ⟨groups, hgroups, h₇⟩ := bind_ok.mp h₆
  obtain ⟨deviceReason, hdevice, h₈⟩ := bind_ok.mp h₇
  refine ⟨client, user, groups, deviceReason, okOr_ok.mp hclient, huser, hgroups, hdevice,
    hread hdecision, ?_, (Except.ok.inj h₈).symm⟩
  intro hmaps
  rw [requireMapped, if_pos hmaps, hgroups] at hmapped
  exact hread hmapped

/-- Explanations that are given in both stores are the same. -/
theorem explain_eq {input : Explain} (h : Alike c r m m' token input.username) {v v' : Explanation}
    (hv : explain c ctx digest r m token input = .ok v)
    (hv' : explain c ctx digest r m' token input = .ok v') : v = v' := by
  obtain ⟨client, user, a, reason, hclient, huser, ha, hreason, hdecision, hmaps, rfl⟩ :=
    explain_ok hv
  obtain ⟨client', user', b, reason', hclient', huser', hb, hreason', -, hmaps', rfl⟩ :=
    explain_ok hv'
  obtain rfl := Option.some.inj (hclient.symm.trans hclient')
  obtain rfl := Except.ok.inj (huser.symm.trans huser')
  obtain rfl := Except.ok.inj (hreason.symm.trans hreason')
  have hsame := h user a b huser ha hb
  refine explainDecision_congr (fun g hg => hsame g (.inl (hdecision g hg))) ?_
  -- Every group on either side can be read, so none is on one side only.
  intro htold
  refine Names.ext fun g => Bool.eq_iff_iff.mpr ⟨fun hg => ?_, fun hg => ?_⟩
  · have hread := hmaps htold g (Names.mem_list.mpr hg)
    rw [← hsame g (.inl hread)]
    exact hg
  · have hread := hmaps' htold g (Names.mem_list.mpr hg)
    rw [hsame g (.inr hread)]
    exact hg

end

/-- Over one configuration, with memberships that are the same as far as the caller can read them:
a caller with the same authority gets the same simulation, and explanations that are given are the
same. -/
theorem memberships_not_disclosed (c : Config) (ctx : Context) (digest : Text → Text)
    (bindingDigest : Binding → Text) (r : Records) (m m' : Memberships) (token username : Text)
    (h : Alike c r m m' token username) :
    (∀ input : Simulation, input.username = username →
      principal c r m token = principal c r m' token →
        simulatePolicy c ctx r m bindingDigest token input =
          simulatePolicy c ctx r m' bindingDigest token input) ∧
    ∀ (input : Explain) (v v' : Explanation), input.username = username →
      explain c ctx digest r m token input = .ok v →
        explain c ctx digest r m' token input = .ok v' → v = v' := by
  constructor
  · rintro input rfl hprincipal
    exact simulatePolicy_eq h hprincipal
  · rintro input v v' rfl hv hv'
    exact explain_eq h hv hv'

def sampleConfig : Config where
  toEdition := .of true
  reviewedGroups := ["vault".toList]
  pamApprovers := []
  now := 0

def sampleAccount (id : Text) : Account where
  id := id
  username := id
  enabled := true
  epoch := 0
  admin := false
  displayName := []
  email := none
  emailVerified := false
  attributes := .empty
  subjects := .empty
  pairwiseSeed := []

def sampleApp : App := ⟨openClient, false, false, [], none⟩

/-- One person who supports the account `n` and owns the client `c`. -/
def sampleRecords : Records where
  sessionUser _ := .ok (sampleAccount ['o'])
  agent _ := .error .unauthorized
  users id := some (sampleAccount id)
  usernames name := some name
  stored id := if id = ['o'] then
      [⟨.helpDesk, "user/n".toList, ['n']⟩, ⟨.applicationOwner, "client/c".toList, ['c']⟩]
    else []
  readyForElevation _ := true
  membershipHolders _ := []
  bound _ := true
  validateApplyLease _ := .ok ()
  temporaryAccess _ := .ok ()
  clients _ := some sampleApp
  groups _ := true
  sources _ := none
  revision := 1

/-- Every account is in the listed groups. -/
def sampleMemberships (groups : List Text) : Memberships where
  durable _ := OrdMap.ofList (groups.map fun g => (g, ()))
  temporary _ := .empty

/-- No grant lets a person read a group. -/
theorem HumanGrant.allows_groupRead (g : HumanGrant) (resource : Text) :
    g.allows "group.read".toList resource = false := by
  cases hrole : g.role <;> simp [HumanGrant.allows, hrole]

theorem delegated_of_principal {c : Config} {r : Records} {m : Memberships} {token : Text}
    {user : Account} {actor : Principal} (htoken : "ri_agent_".toList.isPrefixOf token = false)
    (huser : r.sessionUser token = .ok user) (hadmin : user.admin = false)
    (h : principal c r m token = .ok actor) : actor.delegated = true := by
  unfold principal at h
  rw [htoken, if_neg Bool.false_ne_true, huser] at h
  obtain ⟨account, haccount, h₁⟩ := bind_ok.mp h
  obtain rfl := Except.ok.inj haccount
  obtain ⟨grants, -, h₂⟩ := bind_ok.mp h₁
  obtain ⟨-, h₃⟩ := seq_ok.mp h₂
  obtain rfl := Except.ok.inj h₃
  rw [hadmin]
  rfl

theorem sample_alike (groups groups' : List Text) :
    Alike sampleConfig sampleRecords (sampleMemberships groups) (sampleMemberships groups')
      ['t'] ['n'] := by
  have hnone {groups : List Text} {g : Text} :
      ¬ MayRead sampleConfig sampleRecords (sampleMemberships groups) ['t'] g := by
    rintro ⟨actor, hactor, hallows⟩
    have hdelegated := delegated_of_principal (by decide) rfl rfl hactor
    obtain ⟨-, hgrants⟩ := Bool.and_eq_true_iff.mp hallows
    rw [if_pos hdelegated] at hgrants
    obtain ⟨x, -, hx⟩ := List.any_eq_true.mp hgrants
    rw [HumanGrant.allows_groupRead] at hx
    cases hx
  intro user a b _ _ _ g hread
  exact absurd hread (not_or.mpr ⟨hnone, hnone⟩)

theorem memberships_not_disclosed_sample :
    simulatePolicy sampleConfig someContext sampleRecords (sampleMemberships []) (fun _ => [])
        ['t'] (askFor ['a'] none) =
      simulatePolicy sampleConfig someContext sampleRecords (sampleMemberships ["team".toList])
        (fun _ => []) ['t'] (askFor ['a'] none) :=
  (memberships_not_disclosed sampleConfig someContext id (fun _ => []) sampleRecords _ _ _ _
    (sample_alike [] ["team".toList])).1 _ rfl rfl

/-- A membership in a protected group takes the support of the account away, and the simulation is
refused. -/
theorem protected_membership_seen :
    Alike sampleConfig sampleRecords (sampleMemberships []) (sampleMemberships ["vault".toList])
        ['t'] ['n'] ∧
      (simulatePolicy sampleConfig someContext sampleRecords (sampleMemberships []) (fun _ => [])
        ['t'] (askFor ['a'] none)).isOk = true ∧
      simulatePolicy sampleConfig someContext sampleRecords (sampleMemberships ["vault".toList])
        (fun _ => []) ['t'] (askFor ['a'] none) = .error .forbidden :=
  ⟨sample_alike _ _, rfl, rfl⟩

end RiAuth.Policy
