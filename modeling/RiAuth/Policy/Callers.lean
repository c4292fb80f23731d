import RiAuth.Management.Principals
import RiAuth.Policy.Simulation

/-!
# Callers of the management interface

Who may ask about a policy: administrators, agents with permissions, and people with grants that
name one object each. A grant to support an account is void while the account has protected groups.

* `Records`, `Memberships`: what is read from the store, the groups of accounts apart;
* `active`: the grants of a person that still count;
* `principal`, `management`: the caller behind a token.
-/

namespace RiAuth.Policy

open Checks

/-! ## Records -/

/-- A set of names, in the order in which it is written out. -/
abbrev Names := OrdMap Text Unit

def Names.has (names : Names) (name : Text) : Bool := (names.get? name).isSome

/-- The names in order. -/
def Names.list (names : Names) : List Text := names.entries.map Prod.fst

theorem Names.mem_list {names : Names} {name : Text} :
    name ∈ names.list ↔ names.has name = true := by
  rw [Names.list, Names.has, List.mem_map, Option.isSome_iff_exists]
  constructor
  · rintro ⟨⟨k, v⟩, hmem, rfl⟩
    exact ⟨v, OrdMap.mem_entries_iff.mp hmem⟩
  · rintro ⟨v, hget⟩
    exact ⟨(name, v), OrdMap.mem_entries_iff.mpr hget, rfl⟩

theorem Names.ext {a b : Names} (h : ∀ name, a.has name = b.has name) : a = b := by
  refine OrdMap.ext_get? fun name => ?_
  have hname := h name
  unfold Names.has at hname
  cases ha : a.get? name <;> cases hb : b.get? name <;> simp_all

/-- Where a claim takes its value from. -/
inductive ClaimSource where
  | username
  | displayName
  | email
  | emailVerified
  | groups
  | attribute (key : Text)
  | literal (value : Json)
deriving DecidableEq

/-- A claim that a scope gives. -/
structure ClaimMapping where
  scope : Text
  claim : Text
  source : ClaimSource

/-- A client with the settings of its claims. -/
structure App extends Client where
  groupsInProfile : Bool
  claimsInAccessToken : Bool
  claimMappings : List ClaimMapping
  pairwiseSector : Option Text

/-- A user with the fields that claims are made of. -/
structure Account extends User where
  admin : Bool
  displayName : Text
  email : Option Text
  emailVerified : Bool
  attributes : OrdMap Text Json
  subjects : OrdMap Text Text
  pairwiseSeed : Text

/-! ## Authority -/

/-- The build and its configuration. -/
structure Config extends Edition where
  reviewedGroups : List Text
  pamApprovers : List (Text × List Text)
  now : ℕ

/-- The row of an agent. -/
structure Agent where
  id : Text
  enabled : Bool
  expiresAt : ℕ
  parentUser : Option Text
  permissions : List Permission

/-- What is read beside the groups of accounts. -/
structure Records where
  /-- The account behind a session or a browser cookie. -/
  sessionUser : Text → Result Account
  /-- The agent behind its token. -/
  agent : Text → Result Agent
  users : Text → Option Account
  usernames : Text → Option Text
  stored : Text → List HumanGrant
  readyForElevation : Account → Bool
  membershipHolders : Text → List Text
  /-- The other grants: whether the object is still the one that was meant. -/
  bound : HumanGrant → Bool
  /-- A job that the call runs for is still the caller's. -/
  validateApplyLease : Principal → Result Unit
  /-- Records of temporary access can be read. -/
  temporaryAccess : Text → Result Unit
  clients : Text → Option App
  groups : Text → Bool
  /-- Whether a source is enabled. -/
  sources : Text → Option Bool
  revision : ℕ

/-- The groups of each account: by the records of groups, and by temporary access. -/
structure Memberships where
  durable : Text → Names
  temporary : Text → Names

section

variable (c : Config) (r : Records) (m : Memberships)

/-- Groups held for a time. -/
def extraGroups (userId : Text) : Result Names := do
  r.temporaryAccess userId
  .ok (m.temporary userId)

/-- All groups of a user. -/
def groupsFor (userId : Text) : Result Names := do
  let extra ← extraGroups r m userId
  .ok (extra.list.foldl (fun names g => names.insert g ()) (m.durable userId))

/-- Whether a group of the user is guarded. -/
def hasReviewedMembership (userId : Text) : Bool :=
  (r.membershipHolders userId ++ c.reviewedGroups ++ c.pamApprovers.map Prod.fst).any fun g =>
    (m.durable userId).has g

/-- Whether the user holds more than plain groups. -/
def hasProtectedOrTemporaryAccess (userId : Text) : Result Bool :=
  if hasReviewedMembership c r m userId then .ok true
  else do
    let extra ← extraGroups r m userId
    .ok (extra.list ≠ [])

/-- A grant to support an account counts while the account is an ordinary one. -/
def supports (g : HumanGrant) : Result Bool :=
  match "user/".toList.isPrefixOf? g.scope with
  | none => .ok false
  | some name =>
    match r.usernames name with
    | none => .ok false
    | some id =>
      if id ≠ g.targetId then .ok false
      else
        match r.users id with
        | none => .ok false
        | some user =>
          if user.username = name ∧ user.admin = false ∧
              (∀ names ∈ c.pamApprovers, name ∉ names.2) ∧ r.stored user.id = [] then do
            let privileged ← hasProtectedOrTemporaryAccess c r m user.id
            .ok (!privileged)
          else .ok false

/-- The grants of a user that count now. -/
def active (userId : Text) : Result (List HumanGrant) :=
  match r.users userId with
  | none => .ok []
  | some holder =>
    if r.readyForElevation holder then do
      let valid ← (r.stored userId).mapM fun g =>
        if g.role = .helpDesk then supports c r m g else .ok (r.bound g)
      .ok (((r.stored userId).zip valid).filterMap fun e => if e.2 then some e.1 else none)
    else .ok []

/-! ## Agents -/

/-- Management of one's own account. -/
def PERSONAL_ACTIONS : List Text :=
  ["profile.read", "profile.write", "sessions.read", "sessions.revoke", "consents.read",
    "consents.revoke", "agents.read", "agents.revoke", "changes.prepare"].map String.toList

/-- What the owner of an agent may do. -/
inductive OwnerAuthority where
  | unowned
  | administrator (username : Text)
  | scoped (username : Text) (grants : List HumanGrant)

/-- The resource of the owner's account. -/
def ownAccount : OwnerAuthority → Option Text
  | .unowned => none
  | .administrator username => some ("user/".toList ++ username)
  | .scoped username _ => some ("user/".toList ++ username)

/-- What the owner may do. -/
def OwnerAuthority.allows (authority : OwnerAuthority) (action resource : Text) : Bool :=
  match authority with
  | .scoped username grants =>
    (action = "state.read".toList && resource = "state/revision".toList) ||
      (action ∈ PERSONAL_ACTIONS && resource = "user/".toList ++ username) ||
      grants.any fun g => g.allows action resource
  | _ => true

/-- What a scoped owner can reach. -/
def resources : OwnerAuthority → List Text
  | .scoped username grants =>
    ["state/revision".toList, "user/".toList ++ username] ++ grants.map HumanGrant.scope
  | _ => []

/-- The permissions as far as the owner has them. -/
def limit (authority : OwnerAuthority) (approved : List Permission) : List Permission :=
  let candidates := approved.flatMap fun p =>
    let resource := if p.resource = "self".toList then ownAccount authority else some p.resource
    match resource, authority with
    | none, _ => []
    | some resource, .scoped _ _ =>
      (if resource = ['*'] then resources authority else [resource]).map fun x => ⟨p.action, x⟩
    | some resource, _ => [⟨p.action, resource⟩]
  (candidates.filter fun p => authority.allows p.action p.resource).foldl
    (fun effective p => if p ∈ effective then effective else effective ++ [p]) []

/-- The authority of an owner now. -/
def ownerAuthority (owner : Account) : Result OwnerAuthority :=
  if owner.admin then .ok (.administrator owner.username)
  else do
    let grants ← active c r m owner.id
    .ok (.scoped owner.username grants)

/-- The principal of an agent, if it is alive. -/
def livePrincipal (agent : Agent) : Result (Option Principal) :=
  if agent.enabled = false ∨ agent.expiresAt ≤ c.now then .ok none
  else
    match agent.parentUser.map fun id => (r.users id).filter fun owner => owner.enabled with
    | some none => .ok none
    | none => .ok (some ⟨"agent:".toList ++ agent.id, true, false, [],
        limit .unowned agent.permissions⟩)
    | some (some owner) => do
      let authority ← ownerAuthority c r m owner
      .ok (some ⟨"agent:".toList ++ agent.id, true, false, [],
        limit authority agent.permissions⟩)

/-! ## Callers -/

/-- An administrator needs no grants. -/
def grantsOf (user : Account) : Result (List HumanGrant) :=
  if user.admin then .ok [] else active c r m user.id

/-- The caller behind a token. -/
def principal (token : Text) : Result Principal :=
  if "ri_agent_".toList.isPrefixOf token then do
    let agent ← r.agent token
    okOr (← livePrincipal c r m agent) .unauthorized
  else do
    let user ← r.sessionUser token
    let grants ← grantsOf c r m user
    require (user.admin = true ∨ grants ≠ []) .forbidden
    .ok ⟨user.id, false, !user.admin, grants, []⟩

/-- The caller, if it may do this. -/
def management (token action resource : Text) : Result Principal := do
  let actor ← principal c r m token
  actor.require c.toEdition action resource
  r.validateApplyLease actor
  .ok actor

end

end RiAuth.Policy
