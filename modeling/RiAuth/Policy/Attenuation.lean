import RiAuth.Policy.Explanation

/-!
# What an agent may do for its owner

An agent holds permissions that were approved once, but acts only as far as its owner may act now:
`limit` narrows every permission to the owner's authority, and what is left is matched anew at every
use. Some permissions are not available to agents in the smaller edition.

* `bound`: grants other than for support, and the objects they must still name;
* `active_scope`: no grant that counts has a wildcard for its scope;
* `mem_limit_scoped`: the permissions that are left;
* **`agent_attenuated`**: an agent may do what its permissions, read for its owner, and the owner's
  authority both allow, as far as the edition has it.
-/

namespace RiAuth.Policy

open Checks

/-! ## Grants that count -/

/-- The configured directories, as the digests of their settings, and the domains with keys. -/
structure Targets where
  directories : Text → Option Text
  workspaces : Text → Option Text
  entra : Text → Option Text
  keyDomains : Text → Bool

/-- The target a directory scope names. -/
def directoryTarget (platform : Bool) (t : Targets) (scope : Text) : Option Text :=
  if '/' ∈ scope then
    let kind := scope.takeWhile (· ≠ '/')
    let id := (scope.dropWhile (· ≠ '/')).drop 1
    if kind = "directory".toList then t.directories id
    else if platform ∧ kind = "workspace".toList then t.workspaces id
    else if platform ∧ kind = "entra".toList then t.entra id
    else none
  else none

/-- The target a key scope names. -/
def keyTarget (t : Targets) (scope : Text) : Option Text :=
  ("key/".toList.isPrefixOf? scope).filter fun id => id = "signing".toList || t.keyDomains id

/-- A grant other than for support counts while its object is the one that was meant. -/
def bound (platform : Bool) (t : Targets) (clients : Text → Option App) (g : HumanGrant) : Bool :=
  match g.role with
  | .helpDesk => false
  | .applicationOwner =>
    ("client/".toList.isPrefixOf? g.scope).any fun id =>
      id = g.targetId && (clients id).any fun client => client.id = id
  | .directoryOperator => directoryTarget platform t g.scope = some g.targetId
  | .auditor => g.scope = "audit/events".toList && g.targetId = "events".toList
  | .securityAdministrator => keyTarget t g.scope = some g.targetId

variable {c : Config} {r : Records} {m : Memberships} {platform : Bool} {t : Targets}

variable {g : HumanGrant} {clients : Text → Option App} {grants : List HumanGrant} {p : Permission}
  {authority : OwnerAuthority} {username action resource : Text} {approved : List Permission}

theorem supports_scope (h : supports c r m g = .ok true) : g.scope ≠ ['*'] := by
  intro hscope
  have hnone : "user/".toList.isPrefixOf? g.scope = none := by rw [hscope]; rfl
  unfold supports at h
  rw [hnone] at h
  cases h

theorem bound_scope (h : bound platform t clients g = true) : g.scope ≠ ['*'] := by
  intro hscope
  unfold bound at h
  rw [hscope] at h
  cases hrole : g.role <;> rw [hrole] at h
  · cases h
  · cases h
  · cases h
  · simp at h
  · cases h

/-- **No grant that counts has a wildcard for its scope.** -/
theorem active_scope (hbound : r.bound = bound platform t clients) {userId : Text}
    (h : active c r m userId = .ok grants) : ∀ g ∈ grants, g.scope ≠ ['*'] := by
  unfold active at h
  cases huser : r.users userId with
  | none =>
    rw [huser] at h
    cases h
    exact fun g hg => absurd hg List.not_mem_nil
  | some holder =>
    rw [huser] at h
    dsimp only at h
    split_ifs at h
    · obtain ⟨valid, hvalid, h⟩ := bind_ok.mp h
      cases h
      intro g hg
      obtain ⟨⟨g', counts⟩, hmem, hsome⟩ := List.mem_filterMap.mp hg
      cases counts with
      | false => cases hsome
      | true =>
        cases hsome
        have hcheck := (List.forall₂_iff_zip.mp (mapM_ok.mp hvalid)).2 hmem
        split_ifs at hcheck
        · exact supports_scope hcheck
        · rw [hbound] at hcheck
          exact bound_scope (Except.ok.inj hcheck)
    · cases h
      exact fun g hg => absurd hg List.not_mem_nil

/-! ## Permissions that are left -/

/-- The resource of a permission, with the owner's own account for `self`. -/
def resolved (username : Text) (p : Permission) : Text :=
  if p.resource = "self".toList then "user/".toList ++ username else p.resource

/-- The permission covers the resource. -/
def Covers (username : Text) (p : Permission) (resource : Text) : Prop :=
  resolved username p = resource ∨ resolved username p = ['*']

/-- The permissions, read for the owner, allow the action on the resource. -/
def ApprovedAllows (username : Text) (approved : List Permission) (action resource : Text) : Prop :=
  ∃ p ∈ approved, p.action = action ∧ Covers username p resource

theorem mem_dedup {l kept : List Permission} :
    p ∈ l.foldl (fun effective p => if p ∈ effective then effective else effective ++ [p]) kept ↔
      p ∈ kept ∨ p ∈ l := by
  induction l generalizing kept with
  | nil => simp
  | cons q l ih =>
    rw [List.foldl_cons, ih]
    split_ifs with hq
    · constructor
      · exact Or.imp_right (List.mem_cons_of_mem q)
      · rintro (h | h)
        · exact .inl h
        · rcases List.mem_cons.mp h with rfl | h
          · exact .inl hq
          · exact .inr h
    · rw [List.mem_append, List.mem_singleton, List.mem_cons, or_assoc]

theorem ownAccount_resolved (h : ownAccount authority = some ("user/".toList ++ username))
    (p : Permission) :
    (if p.resource = "self".toList then ownAccount authority else some p.resource) =
      some (resolved username p) := by
  unfold resolved
  split_ifs
  · exact h
  · rfl

theorem mem_limit_administrator :
    p ∈ limit (.administrator username) approved ↔
      ∃ q ∈ approved, p = ⟨q.action, resolved username q⟩ := by
  have hself := @ownAccount_resolved (.administrator username) username rfl
  simp only [limit, hself, mem_dedup, List.not_mem_nil, false_or, List.mem_filter,
    List.mem_flatMap, List.mem_singleton]
  exact and_iff_left rfl

theorem HumanGrant.allows_resource (h : g.allows action resource = true) :
    resource = "state/revision".toList ∨ resource = g.scope := by
  rcases Bool.or_eq_true_iff.mp h with h | h
  · exact .inl (of_decide_eq_true (Bool.and_eq_true_iff.mp h).2)
  · exact .inr (of_decide_eq_true (Bool.and_eq_true_iff.mp h).1).symm

/-- Whatever the owner may do is about a resource that a wildcard is narrowed to. -/
theorem mem_resources (h : (OwnerAuthority.scoped username grants).allows action resource = true) :
    resource = "state/revision".toList ∨ resource = "user/".toList ++ username ∨
      ∃ g ∈ grants, g.scope = resource := by
  rcases Bool.or_eq_true_iff.mp h with h | h
  · rcases Bool.or_eq_true_iff.mp h with h | h
    · exact .inl (of_decide_eq_true (Bool.and_eq_true_iff.mp h).2)
    · exact .inr (.inl (of_decide_eq_true (Bool.and_eq_true_iff.mp h).2))
  · obtain ⟨g, hg, h⟩ := List.any_eq_true.mp h
    rcases HumanGrant.allows_resource h with rfl | rfl
    · exact .inl rfl
    · exact .inr (.inr ⟨g, hg, rfl⟩)

/-- A wildcard is narrowed to what the owner may do, and nothing of that is lost. -/
theorem mem_limit_scoped :
    p ∈ limit (.scoped username grants) approved ↔
      (OwnerAuthority.scoped username grants).allows p.action p.resource = true ∧
        ApprovedAllows username approved p.action p.resource := by
  have hself := @ownAccount_resolved (.scoped username grants) username rfl
  simp only [limit, hself, mem_dedup, List.not_mem_nil, false_or, List.mem_filter,
    List.mem_flatMap, List.mem_map]
  rw [and_comm]
  refine and_congr_right fun hallowed => exists_congr fun q => and_congr_right fun _ => ?_
  have hresource : p.resource ∈ resources (.scoped username grants) := by
    simpa [resources, eq_comm] using mem_resources hallowed
  constructor
  · rintro ⟨x, hx, rfl⟩
    refine ⟨rfl, ?_⟩
    split_ifs at hx with hstar
    · exact .inr hstar
    · exact .inl (List.mem_singleton.mp hx).symm
  · rintro ⟨haction, hcovers⟩
    refine ⟨p.resource, ?_, by rw [haction]⟩
    split_ifs with hstar
    · exact hresource
    · exact List.mem_singleton.mpr (hcovers.resolve_right hstar).symm

/-! ## Issuance -/

/-- Whether issuance may approve the permission. -/
def OwnerAuthority.approves (authority : OwnerAuthority) (p : Permission) : Bool :=
  match authority with
  | .scoped _ _ => p.resource ≠ ['*'] && (limit authority [p]).length = 1
  | _ => !(limit authority [p]).isEmpty

theorem limit_exact (hown : ownAccount authority = some ("user/".toList ++ username))
    (hp : p.resource ≠ ['*']) :
    limit authority [p] = if authority.allows p.action (resolved username p) then
      [⟨p.action, resolved username p⟩] else [] := by
  have hresolved : resolved username p ≠ ['*'] := by
    unfold resolved
    split_ifs
    · simp
    · exact hp
  unfold limit
  simp only [List.flatMap_singleton, ownAccount_resolved hown]
  rcases authority with _ | _ | _
  · cases hown
  · rfl
  · simp only [if_neg hresolved, List.map_singleton, List.filter_singleton, cond_eq_ite]
    split_ifs <;> rfl

/-- **What is approved for a scoped owner is never widened**: it is exact and within the authority
now, and under any later one the agent holds nothing else. -/
theorem approval_never_widened (username : Text) (grants : List HumanGrant) (p : Permission) :
    (OwnerAuthority.scoped username grants).approves p = true ↔ p.resource ≠ ['*'] ∧
      (OwnerAuthority.scoped username grants).allows p.action (resolved username p) = true ∧
      ∀ later, ownAccount later = some ("user/".toList ++ username) →
        ∀ q ∈ limit later [p], q = ⟨p.action, resolved username p⟩ := by
  simp only [OwnerAuthority.approves, Bool.and_eq_true, decide_eq_true_eq]
  refine and_congr_right fun hp => ?_
  rw [limit_exact rfl hp]
  constructor
  · intro h
    split_ifs at h with hallows
    refine ⟨hallows, fun later hown q hq => ?_⟩
    rw [limit_exact hown hp] at hq
    split_ifs at hq
    · exact List.mem_singleton.mp hq
    · cases hq
  · rintro ⟨hallows, -⟩
    rw [if_pos hallows, List.length_singleton]

/-! ## What the agent may do -/

/-- The configuration of the platform edition, or of essentials. -/
def Config.Builds (c : Config) (platform : Bool) : Prop := c.toEdition = Edition.of platform

/-- The resource of a permission as the agent holds it: without the wildcard, unless its owner is an
administrator. -/
def held (owner : Account) (p : Permission) (resource : Text) : Text :=
  if owner.admin then resolved owner.username p else resource

theorem Principal.allows_agent {id : Text} {permissions : List Permission} :
    Principal.allows c.toEdition ⟨id, true, false, [], permissions⟩ action resource = true ↔
      c.actionAvailable action = true ∧ ∃ p ∈ permissions, p.action = action ∧
        (p.resource = resource ∨ p.resource = ['*']) ∧
        c.agentPermissionAvailable action p.resource = true := by
  simp only [Principal.allows, Bool.false_eq_true, if_false, if_true, Bool.and_eq_true_iff,
    List.any_eq_true, Bool.or_eq_true_iff, decide_eq_true_eq]
  refine and_congr_right fun _ => exists_congr fun p => and_congr_right fun _ => ?_
  constructor
  · rintro ⟨⟨havailable, rfl⟩, hcovers⟩
    exact ⟨rfl, hcovers, havailable⟩
  · rintro ⟨rfl, hcovers, havailable⟩
    exact ⟨⟨havailable, rfl⟩, hcovers⟩

/-- The principal of an owned agent. -/
theorem livePrincipal_owned {agent : Agent} {id : Text} {owner : Account} {p : Principal}
    (hparent : agent.parentUser = some id) (howner : r.users id = some owner)
    (h : livePrincipal c r m agent = .ok (some p)) :
    ∃ authority, ownerAuthority c r m owner = .ok authority ∧
      p = ⟨"agent:".toList ++ agent.id, true, false, [], limit authority agent.permissions⟩ := by
  unfold livePrincipal at h
  rw [hparent, Option.map_some, howner] at h
  split_ifs at h
  · cases h
  · cases henabled : owner.enabled with
    | false =>
      simp [Option.filter, henabled] at h
    | true =>
      simp only [Option.filter, henabled, if_true] at h
      obtain ⟨authority, hauthority, h⟩ := bind_ok.mp h
      cases h
      exact ⟨authority, hauthority, rfl⟩

theorem ne_star_of_allows (hscopes : ∀ g ∈ grants, g.scope ≠ ['*'])
    (h : (OwnerAuthority.scoped username grants).allows action resource = true) :
    resource ≠ ['*'] := by
  rcases mem_resources h with rfl | rfl | ⟨g, hg, rfl⟩
  · decide
  · simp
  · exact hscopes g hg

/-- **What the agent of an owner may do**, in either edition. -/
theorem allows_limit (hbound : r.bound = bound platform t clients) {owner : Account}
    (hauthority : ownerAuthority c r m owner = .ok authority) {id : Text} :
    Principal.allows c.toEdition ⟨id, true, false, [], limit authority approved⟩ action resource =
      true ↔
      c.actionAvailable action = true ∧ authority.allows action resource = true ∧
        ∃ p ∈ approved, p.action = action ∧ Covers owner.username p resource ∧
          c.agentPermissionAvailable action (held owner p resource) = true := by
  rw [Principal.allows_agent]
  refine and_congr_right fun _ => ?_
  unfold ownerAuthority at hauthority
  split_ifs at hauthority with hadmin
  · cases hauthority
    simp only [mem_limit_administrator, held, hadmin, if_true]
    constructor
    · rintro ⟨p, ⟨q, hq, rfl⟩, haction, hcovers, havailable⟩
      exact ⟨rfl, q, hq, haction, hcovers, havailable⟩
    · rintro ⟨-, q, hq, haction, hcovers, havailable⟩
      exact ⟨_, ⟨q, hq, rfl⟩, haction, hcovers, havailable⟩
  · obtain ⟨grants, hgrants, hauthority⟩ := bind_ok.mp hauthority
    cases hauthority
    simp only [mem_limit_scoped, held, hadmin]
    constructor
    · rintro ⟨p, ⟨hallowed, q, hq, haction, hcovers⟩, rfl, hmatch, havailable⟩
      have hne := ne_star_of_allows (active_scope hbound hgrants) hallowed
      cases hmatch.resolve_right hne
      exact ⟨hallowed, q, hq, haction, hcovers, havailable⟩
    · rintro ⟨hallowed, q, hq, haction, hcovers, havailable⟩
      exact ⟨⟨action, resource⟩, ⟨hallowed, q, hq, haction, hcovers⟩, rfl, .inl rfl, havailable⟩

/-- **Agent permissions are exactly attenuated by the owner.** In the larger edition an owned agent
may do what its approved permissions, read for the owner, and the owner's authority both allow. In
the smaller one the action must be available as well, and the permission as it is held. -/
theorem agent_attenuated {clients : Text → Option App} (hc : c.Builds platform)
    (hbound : r.bound = bound platform t clients) {agent : Agent} {id : Text} {owner : Account}
    {p : Principal} (hparent : agent.parentUser = some id) (howner : r.users id = some owner)
    (hlive : livePrincipal c r m agent = .ok (some p)) :
    ∃ authority, ownerAuthority c r m owner = .ok authority ∧ ∀ action resource : Text,
      (platform = true → (p.allows c.toEdition action resource = true ↔
        ApprovedAllows owner.username agent.permissions action resource ∧
          authority.allows action resource = true)) ∧
      (p.allows c.toEdition action resource = true ↔
        c.actionAvailable action = true ∧ authority.allows action resource = true ∧
          ∃ q ∈ agent.permissions, q.action = action ∧ Covers owner.username q resource ∧
            c.agentPermissionAvailable action (held owner q resource) = true) := by
  obtain ⟨authority, hauthority, rfl⟩ := livePrincipal_owned hparent howner hlive
  refine ⟨authority, hauthority, fun action resource => ⟨?_, allows_limit hbound hauthority⟩⟩
  rintro rfl
  rw [allows_limit hbound hauthority, show c.toEdition = _ from hc]
  constructor
  · rintro ⟨-, hallowed, q, hq, haction, hcovers, -⟩
    exact ⟨⟨q, hq, haction, hcovers⟩, hallowed⟩
  · rintro ⟨⟨q, hq, haction, hcovers⟩, hallowed⟩
    exact ⟨rfl, hallowed, q, hq, haction, hcovers, rfl⟩

/-- The smaller edition. -/
def essentials : Config := { sampleConfig with toEdition := .of false }

/-- Everyone is an administrator. -/
def administrators : Records :=
  { sampleRecords with
    users := fun id => some { sampleAccount id with admin := true }
    bound := bound false ⟨fun _ => some ['d'], fun _ => none, fun _ => none, fun _ => false⟩
      fun _ => none }

def anyDirectory : List Permission := [⟨"directory.read".toList, ['*']⟩]

def directoryAgent : Agent := ⟨['a'], true, 1, some ['o'], anyDirectory⟩

/-- The agent as it is now. -/
def directoryReader : Principal :=
  ⟨"agent:".toList ++ ['a'], true, false, [], limit (.administrator ['o']) anyDirectory⟩

theorem agent_attenuated_directory :
    ∃ authority, ownerAuthority essentials administrators (sampleMemberships [])
        { sampleAccount ['o'] with admin := true } = .ok authority ∧
      ∀ action resource, directoryReader.allows essentials.toEdition action resource = true ↔
        essentials.actionAvailable action = true ∧ authority.allows action resource = true ∧
          ∃ q ∈ anyDirectory, q.action = action ∧ Covers ['o'] q resource ∧
            essentials.agentPermissionAvailable action
              (held { sampleAccount ['o'] with admin := true } q resource) = true := by
  have hc : essentials.Builds false := rfl
  have hlive : livePrincipal essentials administrators (sampleMemberships []) directoryAgent =
      .ok (some directoryReader) := rfl
  obtain ⟨authority, h, hallows⟩ := agent_attenuated hc rfl rfl rfl hlive
  exact ⟨authority, h, fun action resource => (hallows action resource).2⟩

/-- In the smaller edition the agent of an administrator cannot read a directory that its wildcard
and its owner allow. Such an agent can get there: `approve` checks an open proposal
against the owner's authority only, so one prepared under the platform edition is still issued after
the transition, whose preflight looks at agents and not at proposals. -/
theorem wildcard_not_exact :
    livePrincipal essentials administrators (sampleMemberships []) directoryAgent =
        .ok (some directoryReader) ∧
      ownerAuthority essentials administrators (sampleMemberships [])
        { sampleAccount ['o'] with admin := true } = .ok (.administrator ['o']) ∧
      ApprovedAllows ['o'] anyDirectory "directory.read".toList "directory/x".toList ∧
      (OwnerAuthority.administrator ['o']).allows "directory.read".toList "directory/x".toList ∧
      directoryReader.allows essentials.toEdition "directory.read".toList "directory/x".toList =
        false :=
  ⟨rfl, rfl, ⟨_, List.mem_singleton_self _, rfl, .inr rfl⟩, rfl, by decide⟩

end RiAuth.Policy
