import RiAuth.Policy.Enforcement

/-!
# Policy simulation

An administrator asks what a policy would decide for an account under assumptions about one group,
the source and the assurance. Predicates about fresh proofs and devices stay unknown.

* `simulatedPredicate`: predicates in three values, with `simulatedPredicate_sound`;
* `simulateDecision`: the simulated decision;
* **`simulation_sound`**: what is simulated to be allowed is allowed to every live identity that
  meets the assumptions, and what is simulated to be denied is refused, unless it is denied for an
  unregistered scope or a disabled source.
-/

namespace RiAuth.Policy

open Checks

/-! ## The groups that a decision observes -/

/-- The groups a rule reads. -/
def Rule.groups (rule : Rule) : List Text :=
  rule.allGroups ++ rule.anyGroups ++ rule.deniedGroups

mutual

/-- The groups a predicate reads. -/
def Predicate.groups : Predicate → List Text
  | .groupMember group => [group]
  | .all of => Predicate.groupsOf of
  | .any of => Predicate.groupsOf of
  | .not condition => condition.groups
  | _ => []

/-- The groups of a list of predicates. -/
def Predicate.groupsOf : List Predicate → List Text
  | [] => []
  | p :: ps => p.groups ++ Predicate.groupsOf ps

end

/-- The groups a decision reads. -/
def decisionGroups (client : Client) (scopes : List Text) : List Text :=
  client.allowedGroups ++ (client.rules scopes).flatMap Rule.groups ++
    (client.policy.conditional.map fun policy =>
      Predicate.groupsOf (policy.conditions scopes)).getD []

/-! ## The simulation -/

/-- A membership that is assumed. -/
structure SimulatedGroup where
  name : Text
  member : Bool

/-- A question to the simulation. -/
structure Simulation where
  clientId : Text
  username : Text
  scope : List Text
  group : Option SimulatedGroup
  source : Option Text
  assurance : AssuranceLevel

/-- Why rules refuse. -/
def ordinaryReasons (client : Client) (user : User) (scopes groups : List Text) (mfa : Bool) :
    List Reason :=
  ruleReasons client.policy.access user.username groups mfa ++
  Reason.clientDisabled.given (!client.enabled) ++
  Reason.userDisabled.given (!user.enabled) ++
  Reason.serviceClientHasNoUserIdentity.given client.service ++
  Reason.unregisteredScope.given (!isSubset scopes client.scopes) ++
  Reason.noMatchingClientGroup.given
    (client.allowedGroups ≠ [] && isDisjoint client.allowedGroups groups) ++
  Reason.mfaRequired.given (client.requireMfa && !mfa)

section

variable (client : Client) (groups : List Text) (source : Option Text) (assurance : AssuranceLevel)

mutual

/-- A predicate, as far as the facts are known. -/
def simulatedPredicate : Predicate → Option Bool
  | .application id => some (client.id = id)
  | .groupMember group => some (group ∈ groups)
  | .verifiedSource expected => some (source = some expected)
  | .assurance level => some (level = assurance)
  -- an assumed level or source does not prove a fresh authentication or a device
  | .proofFresh _ _ => none
  | .approvedDevice _ => none
  | .all of => simulatedAll false of
  | .any of => simulatedAny false of
  | .not condition => (simulatedPredicate condition).map fun value => !value

/-- The loop of `All`: `unknown` says that a child was unknown. -/
def simulatedAll (unknown : Bool) : List Predicate → Option Bool
  | [] => if unknown then none else some true
  | child :: rest =>
    match simulatedPredicate child with
    | some false => some false
    | none => simulatedAll true rest
    | some true => simulatedAll unknown rest

/-- The loop of `Any`. -/
def simulatedAny (unknown : Bool) : List Predicate → Option Bool
  | [] => if unknown then none else some false
  | child :: rest =>
    match simulatedPredicate child with
    | some true => some true
    | none => simulatedAny true rest
    | some false => simulatedAny unknown rest

end

/-- Why conditions refuse. -/
def conditionalReasons (predicates : List Predicate) : List Reason :=
  let results := predicates.map (simulatedPredicate client groups source assurance)
  if some false ∈ results then [.conditionalPolicyDenied]
  else if none ∈ results then [.conditionalPolicyRequiresLiveProof]
  else []

end

/-- What a simulation decides. -/
inductive Verdict where
  | deny
  | needsLiveProof
  | allow
deriving DecidableEq

/-- What the simulation reports. -/
structure Decision where
  decision : Verdict
  wouldAllow : Option Bool
  reasons : List Reason
  scopeDecisions : List (Text × List Reason)
  assuranceAssumed : AssuranceLevel
  sourceAssumedVerified : Bool

/-- The source that is assumed, if it is enabled. -/
def Simulation.assumed (input : Simulation) (sourceEnabled : Bool) : Option Text :=
  input.source.filter fun _ => sourceEnabled

/-- The reasons that are about no scope. -/
def accessReasons (input : Simulation) (client : Client) (user : User) (groups : List Text)
    (sourceEnabled : Bool) (deviceReason : Option Reason) : List Reason :=
  ordinaryReasons client user input.scope groups (input.assurance = .mfa) ++
  Reason.sourceDisabled.given (input.source.isSome && !sourceEnabled) ++
  Reason.assuranceNotAccepted.given
    (client.defaultAcrValues ≠ [] && input.assurance.acr ∉ client.defaultAcrValues) ++
  deviceReason.toList ++
  (client.policy.conditional.map fun policy =>
    conditionalReasons client groups (input.assumed sourceEnabled) input.assurance
      policy.access).getD []

/-- The reasons that are about one scope. -/
def scopeReasons (input : Simulation) (client : Client) (user : User) (groups : List Text)
    (sourceEnabled : Bool) (scope : Text) : List Reason :=
  ((client.policy.scopes.get? scope).map fun rule =>
    ruleReasons rule user.username groups (input.assurance = .mfa)).getD [] ++
  ((client.policy.conditional.bind fun policy => policy.scopes.get? scope).map fun predicates =>
    conditionalReasons client groups (input.assumed sourceEnabled) input.assurance
      predicates).getD []

/-- The reasons, summed up. -/
def verdict (reasons : List Reason) (scopes : List (List Reason)) : Verdict :=
  let unknown := .conditionalPolicyRequiresLiveProof ∈ reasons ∨
    .deviceTrustSessionRequired ∈ reasons ∨
    ∃ rs ∈ scopes, .conditionalPolicyRequiresLiveProof ∈ rs
  let denied := (∃ r ∈ reasons, r ≠ .conditionalPolicyRequiresLiveProof ∧
      r ≠ .deviceTrustSessionRequired) ∨
    ∃ rs ∈ scopes, ∃ r ∈ rs, r ≠ .conditionalPolicyRequiresLiveProof
  if denied then .deny else if unknown then .needsLiveProof else .allow

/-- `simulate_decision`. The constant fields of the report are left out. -/
def simulateDecision (input : Simulation) (client : Client) (user : User) (groups : List Text)
    (sourceEnabled : Bool) (deviceReason : Option Reason) : Decision :=
  let reasons := accessReasons input client user groups sourceEnabled deviceReason
  let scopeDecisions := input.scope.map fun scope =>
    (scope, scopeReasons input client user groups sourceEnabled scope)
  let decision := verdict reasons (scopeDecisions.map Prod.snd)
  { decision
    wouldAllow := if decision = .needsLiveProof then none else some (decision = .allow)
    reasons
    scopeDecisions
    assuranceAssumed := input.assurance
    sourceAssumedVerified := (input.assumed sourceEnabled).isSome }

/-! ## Predicates -/

/-- The facts are a completion of what is assumed, as far as the names go. Proofs and devices are
any. -/
structure PredicateFacts.Completes (facts : PredicateFacts) (client : Client) (groups : List Text)
    (source : Option Text) (assurance : AssuranceLevel) (names : List Text) : Prop where
  application : ∀ id, facts.application id = decide (client.id = id)
  groupMember : ∀ group ∈ names, facts.groupMember group = decide (group ∈ groups)
  verifiedSource : ∀ s, facts.verifiedSource s = decide (source = some s)
  assurance : ∀ level, facts.assurance level = decide (level = assurance)

section

variable {client : Client} {groups names : List Text} {source : Option Text}
  {assurance : AssuranceLevel} {facts : PredicateFacts}

theorem PredicateFacts.Completes.mono {names' : List Text}
    (h : facts.Completes client groups source assurance names) (hsub : names' ⊆ names) :
    facts.Completes client groups source assurance names' :=
  ⟨h.application, fun group hgroup => h.groupMember group (hsub hgroup), h.verifiedSource,
    h.assurance⟩

/-- Once a child was unknown, the loop of `All` does not end with `true`. -/
theorem simulatedAll_unknown (ps : List Predicate) :
    simulatedAll client groups source assurance true ps ≠ some true := by
  induction ps with
  | nil => simp [simulatedAll]
  | cons child rest ih =>
    rw [simulatedAll]
    split
    · simp
    · exact ih
    · exact ih

theorem simulatedAny_unknown (ps : List Predicate) :
    simulatedAny client groups source assurance true ps ≠ some false := by
  induction ps with
  | nil => simp [simulatedAny]
  | cons child rest ih =>
    rw [simulatedAny]
    split
    · simp
    · exact ih
    · exact ih

mutual

/-- What is simulated to be known is so under every completion. -/
theorem simulatedPredicate_sound : ∀ (p : Predicate) {b : Bool},
    facts.Completes client groups source assurance p.groups →
    simulatedPredicate client groups source assurance p = some b → p.evaluate facts = b
  | .application id, b, h, hb => by
    rw [Predicate.evaluate, h.application]
    exact Option.some.inj hb
  | .groupMember group, b, h, hb => by
    rw [Predicate.evaluate, h.groupMember group (List.mem_singleton.mpr rfl)]
    exact Option.some.inj hb
  | .verifiedSource s, b, h, hb => by
    rw [Predicate.evaluate, h.verifiedSource]
    exact Option.some.inj hb
  | .proofFresh _ _, b, _, hb => nomatch hb
  | .assurance level, b, h, hb => by
    rw [Predicate.evaluate, h.assurance]
    exact Option.some.inj hb
  | .approvedDevice _, b, _, hb => nomatch hb
  | .all of, b, h, hb => by
    rw [Predicate.evaluate]
    exact simulatedAll_sound of h hb
  | .any of, b, h, hb => by
    rw [Predicate.evaluate]
    exact simulatedAny_sound of h hb
  | .not condition, b, h, hb => by
    obtain ⟨b', hb', rfl⟩ := Option.map_eq_some_iff.mp hb
    rw [Predicate.evaluate, simulatedPredicate_sound condition h hb']

theorem simulatedAll_sound : ∀ (ps : List Predicate) {unknown b : Bool},
    facts.Completes client groups source assurance (Predicate.groupsOf ps) →
    simulatedAll client groups source assurance unknown ps = some b →
    Predicate.evaluateAll facts ps = b
  | [], unknown, b, _, hb => by
    rw [simulatedAll] at hb
    split_ifs at hb
    exact Option.some.inj hb
  | child :: rest, unknown, b, h, hb => by
    have hchild := h.mono (List.subset_append_left child.groups (Predicate.groupsOf rest))
    have hrest := h.mono (List.subset_append_right child.groups (Predicate.groupsOf rest))
    rw [simulatedAll] at hb
    rw [Predicate.evaluateAll]
    split at hb
    · rename_i hfalse
      rw [simulatedPredicate_sound child hchild hfalse, Bool.false_and]
      exact Option.some.inj hb
    · -- an unknown child: the loop can only end with `false`
      have hb' := simulatedAll_sound rest hrest hb
      cases b with
      | false => rw [hb', Bool.and_false]
      | true => exact absurd hb (simulatedAll_unknown rest)
    · rename_i htrue
      rw [simulatedPredicate_sound child hchild htrue, Bool.true_and]
      exact simulatedAll_sound rest hrest hb

theorem simulatedAny_sound : ∀ (ps : List Predicate) {unknown b : Bool},
    facts.Completes client groups source assurance (Predicate.groupsOf ps) →
    simulatedAny client groups source assurance unknown ps = some b →
    Predicate.evaluateAny facts ps = b
  | [], unknown, b, _, hb => by
    rw [simulatedAny] at hb
    split_ifs at hb
    exact Option.some.inj hb
  | child :: rest, unknown, b, h, hb => by
    have hchild := h.mono (List.subset_append_left child.groups (Predicate.groupsOf rest))
    have hrest := h.mono (List.subset_append_right child.groups (Predicate.groupsOf rest))
    rw [simulatedAny] at hb
    rw [Predicate.evaluateAny]
    split at hb
    · rename_i htrue
      rw [simulatedPredicate_sound child hchild htrue, Bool.true_or]
      exact Option.some.inj hb
    · have hb' := simulatedAny_sound rest hrest hb
      cases b with
      | true => rw [hb', Bool.or_true]
      | false => exact absurd hb (simulatedAny_unknown rest)
    · rename_i hfalse
      rw [simulatedPredicate_sound child hchild hfalse, Bool.false_or]
      exact simulatedAny_sound rest hrest hb

end

/-- Conditions are simulated to be met when each of them is known to hold. -/
theorem conditionalReasons_eq_nil {ps : List Predicate} :
    conditionalReasons client groups source assurance ps = [] ↔
      ∀ p ∈ ps, simulatedPredicate client groups source assurance p = some true := by
  unfold conditionalReasons
  dsimp only
  constructor
  · intro h p hp
    split_ifs at h with hfalse hnone
    rw [List.mem_map] at hfalse hnone
    match hresult : simulatedPredicate client groups source assurance p with
    | some true => rfl
    | some false => exact absurd ⟨p, hp, hresult⟩ hfalse
    | none => exact absurd ⟨p, hp, hresult⟩ hnone
  · intro h
    rw [if_neg, if_neg]
    all_goals
      rw [List.mem_map]
      rintro ⟨p, hp, hresult⟩
      cases (h p hp).symm.trans hresult

/-- Conditions are simulated to be denied only when one of them is known to fail. -/
theorem conditionalReasons_denied {ps : List Predicate} {r : Reason}
    (h : r ∈ conditionalReasons client groups source assurance ps)
    (hr : r ≠ .conditionalPolicyRequiresLiveProof) :
    ∃ p ∈ ps, simulatedPredicate client groups source assurance p = some false := by
  unfold conditionalReasons at h
  dsimp only at h
  split_ifs at h with hfalse hnone
  · exact List.mem_map.mp hfalse
  · exact absurd (List.mem_singleton.mp h) hr
  · cases h

end

/-! ## Verdicts -/

theorem verdict_eq_allow {reasons : List Reason} {scopes : List (List Reason)} :
    verdict reasons scopes = .allow ↔ reasons = [] ∧ ∀ rs ∈ scopes, rs = [] := by
  unfold verdict
  dsimp only
  constructor
  · intro h
    split_ifs at h with hdenied hunknown
    rw [not_or] at hdenied
    refine ⟨List.eq_nil_iff_forall_not_mem.mpr fun r hr => ?_,
      fun rs hrs => List.eq_nil_iff_forall_not_mem.mpr fun r hr => ?_⟩
    · by_cases hlive : r = .conditionalPolicyRequiresLiveProof
      · exact hunknown (.inl (hlive ▸ hr))
      by_cases hdevice : r = .deviceTrustSessionRequired
      · exact hunknown (.inr (.inl (hdevice ▸ hr)))
      exact hdenied.1 ⟨r, hr, hlive, hdevice⟩
    · by_cases hlive : r = .conditionalPolicyRequiresLiveProof
      · exact hunknown (.inr (.inr ⟨rs, hrs, hlive ▸ hr⟩))
      exact hdenied.2 ⟨rs, hrs, r, hr, hlive⟩
  · rintro ⟨rfl, hscopes⟩
    rw [if_neg, if_neg]
    · rintro (h | h | ⟨rs, hrs, h⟩)
      · cases h
      · cases h
      · rw [hscopes rs hrs] at h
        cases h
    · rintro (⟨r, hr, _⟩ | ⟨rs, hrs, r, hr, _⟩)
      · cases hr
      · rw [hscopes rs hrs] at hr
        cases hr

theorem verdict_eq_deny {reasons : List Reason} {scopes : List (List Reason)} :
    verdict reasons scopes = .deny ↔ (∃ r ∈ reasons, r ≠ .conditionalPolicyRequiresLiveProof ∧
      r ≠ .deviceTrustSessionRequired) ∨
      ∃ rs ∈ scopes, ∃ r ∈ rs, r ≠ .conditionalPolicyRequiresLiveProof := by
  unfold verdict
  dsimp only
  split_ifs with hdenied hunknown <;> simp [hdenied]

/-! ## Groups -/

theorem isSubset_congr {a b b' : List Text} (h : ∀ g ∈ a, g ∈ b ↔ g ∈ b') :
    isSubset a b = isSubset a b' := by
  rw [isSubset, isSubset, Bool.eq_iff_iff, List.all_eq_true, List.all_eq_true]
  exact forall₂_congr fun g hg => by rw [decide_eq_true_eq, decide_eq_true_eq, h g hg]

theorem isDisjoint_congr {a b b' : List Text} (h : ∀ g ∈ a, g ∈ b ↔ g ∈ b') :
    isDisjoint a b = isDisjoint a b' := by
  rw [isDisjoint, isDisjoint, Bool.eq_iff_iff, List.all_eq_true, List.all_eq_true]
  exact forall₂_congr fun g hg => by rw [decide_eq_true_eq, decide_eq_true_eq, h g hg]

/-- A rule sees the groups that it names. -/
theorem ruleReasons_congr {rule : Rule} {username : Text} {groups groups' : List Text} {mfa : Bool}
    (h : ∀ g ∈ rule.groups, g ∈ groups ↔ g ∈ groups') :
    ruleReasons rule username groups mfa = ruleReasons rule username groups' mfa := by
  unfold Rule.groups at h
  unfold ruleReasons
  rw [isSubset_congr fun g hg => h g (List.mem_append_left _ (List.mem_append_left _ hg)),
    isDisjoint_congr fun g hg => h g (List.mem_append_left _ (List.mem_append_right _ hg)),
    isDisjoint_congr (a := rule.deniedGroups) fun g hg => h g (List.mem_append_right _ hg)]

theorem Predicate.groupsOf_eq (ps : List Predicate) :
    Predicate.groupsOf ps = ps.flatMap Predicate.groups := by
  induction ps with
  | nil => rfl
  | cons p ps ih => rw [Predicate.groupsOf, ih, List.flatMap_cons]

/-! ## Soundness -/

/-- The identity is live, and meets what the simulation assumes: the groups that the decision
observes, the source, the application and the assurance. -/
structure Consistent (ctx : Context) (tx : ClaimsTx) (at_ : ℕ) (input : Simulation)
    (client : Client) (user : User) (groups : List Text) (sourceEnabled : Bool)
    (identity : Identity) (members : List Text) (device : Option ℕ) : Prop where
  live : Live ctx tx at_ user identity members (input.assumed sourceEnabled) device
  groups : ∀ g ∈ decisionGroups client input.scope, g ∈ members ↔ g ∈ groups
  assurance : actual identity = input.assurance.acr

/-- What the checks come to, in terms of what the simulation assumes. -/
structure Passes (ctx : Context) (input : Simulation) (client : Client) (user : User)
    (groups : List Text) (identity : Identity) (facts : PredicateFacts) : Prop where
  rules : ∀ rule ∈ client.rules input.scope,
    ruleReasons rule user.username groups (input.assurance = .mfa) = []
  conditions : ∀ policy, client.policy.conditional = some policy →
    ∀ p ∈ policy.conditions input.scope, p.evaluate facts = true
  enabled : client.enabled = true
  service : client.service = false
  mfa : ¬ (client.requireMfa = true ∧ input.assurance ≠ .mfa)
  allowed : client.allowedGroups = [] ∨ isDisjoint client.allowedGroups groups = false
  device : requireDevice ctx client identity = .ok ()
  assurance : client.defaultAcrValues = [] ∨ input.assurance.acr ∈ client.defaultAcrValues

section

variable {ctx : Context} {tx : ClaimsTx} {at_ : ℕ} {input : Simulation} {client : Client}
  {user : User} {groups : List Text} {sourceEnabled : Bool} {deviceReason : Option Reason}
  {identity : Identity} {members : List Text} {device : Option ℕ}

theorem Consistent.mfa
    (h : Consistent ctx tx at_ input client user groups sourceEnabled identity members device) :
    identity.mfa = decide (input.assurance = .mfa) := by
  rw [Bool.eq_iff_iff, decide_eq_true_eq, ← actual_eq_mfa, h.assurance]
  exact AssuranceLevel.acr_inj (b := .mfa)

/-- The facts of the identity complete what is assumed. -/
theorem Consistent.completes
    (h : Consistent ctx tx at_ input client user groups sourceEnabled identity members device)
    {policy : ConditionalPolicy} (hpolicy : client.policy.conditional = some policy)
    {p : Predicate} (hp : p ∈ policy.conditions input.scope) :
    (TrustedPredicateFacts.mk client identity members (input.assumed sourceEnabled) device
      at_).facts.Completes client groups (input.assumed sourceEnabled) input.assurance p.groups := by
  refine ⟨fun _ => rfl, fun g hg => decide_eq_decide.mpr (h.groups g ?_), fun _ => rfl,
    fun level => decide_eq_decide.mpr ?_⟩
  · unfold decisionGroups
    rw [hpolicy, Option.map_some, Option.getD_some, Predicate.groupsOf_eq]
    exact List.mem_append_right _ (List.mem_flatMap.mpr ⟨p, hp, hg⟩)
  · rw [h.assurance, AssuranceLevel.acr_inj, eq_comm]

/-- The three checks together. -/
theorem Consistent.passes_iff
    (h : Consistent ctx tx at_ input client user groups sourceEnabled identity members device)
    (claims : Json) :
    (enforce tx at_ client user identity input.scope = .ok () ∧
      authorizeIdentity ctx tx at_ client identity = .ok user ∧
      enforceAssurance client identity none .empty claims = .ok ()) ↔
    Passes ctx input client user groups identity
      (TrustedPredicateFacts.mk client identity members (input.assumed sourceEnabled) device
        at_).facts := by
  have hrule : ∀ rule ∈ client.rules input.scope,
      ruleReasons rule user.username members identity.mfa =
        ruleReasons rule user.username groups (input.assurance = .mfa) := by
    intro rule hmem
    rw [h.mfa]
    refine ruleReasons_congr fun g hg => h.groups g ?_
    refine List.mem_append_left _ (List.mem_append_right _ ?_)
    exact List.mem_flatMap.mpr ⟨rule, hmem, hg⟩
  have hallowed : isDisjoint client.allowedGroups members = isDisjoint client.allowedGroups groups :=
    isDisjoint_congr fun g hg =>
      h.groups g (List.mem_append_left _ (List.mem_append_left _ hg))
  have hmfa : identity.mfa = false ↔ input.assurance ≠ .mfa := by
    rw [h.mfa, decide_eq_false_iff_not]
  rw [h.live.enforce_ok, h.live.authorizeIdentity_ok, enforceAssurance_default, h.assurance,
    hallowed, hmfa]
  constructor
  · rintro ⟨⟨hrules, hconditions⟩, ⟨⟨henabled, hservice, hfactor⟩, hgroups, _, hdevice⟩, hacr⟩
    exact ⟨fun rule hmem => hrule rule hmem ▸ hrules rule hmem, hconditions, henabled, hservice,
      hfactor, hgroups, hdevice, hacr⟩
  · intro hp
    have hrules : ∀ rule ∈ client.rules input.scope,
        ruleReasons rule user.username members identity.mfa = [] :=
      fun rule hmem => (hrule rule hmem).trans (hp.rules rule hmem)
    refine ⟨⟨hrules, hp.conditions⟩, ⟨⟨hp.enabled, hp.service, hp.mfa⟩, hp.allowed, ?_, hp.device⟩,
      hp.assurance⟩
    -- the check of the identity is made without scopes
    refine h.live.enforce_ok.mpr ⟨fun rule hmem => ?_, fun policy hpolicy p hmem => ?_⟩
    · rw [List.mem_singleton.mp hmem]
      exact hrules _ List.mem_cons_self
    · refine hp.conditions policy hpolicy p (ConditionalPolicy.mem_conditions.mpr (.inl ?_))
      obtain hmem | ⟨scope, hscope, _⟩ := ConditionalPolicy.mem_conditions.mp hmem
      exacts [hmem, nomatch hscope]

/-- The rules of a request: the client's own, and those of the scopes. -/
theorem Client.mem_rules {rule : Rule} {scopes : List Text} :
    rule ∈ client.rules scopes ↔ rule = client.policy.access ∨
      ∃ scope ∈ scopes, client.policy.scopes.get? scope = some rule := by
  rw [Client.rules, List.mem_cons, List.mem_filterMap]

theorem ordinaryReasons_eq_nil {scopes : List Text} {mfa : Bool} :
    ordinaryReasons client user scopes groups mfa = [] ↔
      ruleReasons client.policy.access user.username groups mfa = [] ∧ client.enabled = true ∧
      user.enabled = true ∧ client.service = false ∧ isSubset scopes client.scopes = true ∧
      (client.allowedGroups = [] ∨ isDisjoint client.allowedGroups groups = false) ∧
      ¬ (client.requireMfa = true ∧ mfa = false) := by
  simp only [ordinaryReasons, List.append_eq_nil_iff, Reason.given_eq_nil, Bool.not_eq_false',
    Bool.and_eq_false_imp, decide_eq_true_eq, and_assoc, not_and, Bool.not_eq_false]
  refine and_congr_right fun _ => and_congr_right fun _ => and_congr_right fun _ =>
    and_congr_right fun _ => and_congr_right fun _ => and_congr_left fun _ => ?_
  exact imp_iff_not_or.trans (or_congr_left not_not)

theorem simulateDecision_decision :
    (simulateDecision input client user groups sourceEnabled deviceReason).decision =
      verdict (accessReasons input client user groups sourceEnabled deviceReason)
        (input.scope.map (scopeReasons input client user groups sourceEnabled)) := by
  simp only [simulateDecision, List.map_map, Function.comp_def]

/-- What is simulated to be allowed passes. -/
theorem Consistent.passes_of_allow
    (h : Consistent ctx tx at_ input client user groups sourceEnabled identity members device)
    (hdevice : policyReason ctx client none = .ok deviceReason)
    (hallow : (simulateDecision input client user groups sourceEnabled deviceReason).decision =
      .allow) :
    Passes ctx input client user groups identity
      (TrustedPredicateFacts.mk client identity members (input.assumed sourceEnabled) device
        at_).facts := by
  rw [simulateDecision_decision] at hallow
  obtain ⟨haccess, hscopes⟩ := verdict_eq_allow.mp hallow
  have hscope : ∀ scope ∈ input.scope,
      scopeReasons input client user groups sourceEnabled scope = [] :=
    fun scope hmem => hscopes _ (List.mem_map_of_mem hmem)
  simp only [accessReasons, List.append_eq_nil_iff] at haccess
  obtain ⟨⟨⟨⟨hordinary, _⟩, hacr⟩, hnone⟩, hconditional⟩ := haccess
  obtain ⟨hrule, henabled, _, hservice, _, hgroups, hfactor⟩ := ordinaryReasons_eq_nil.mp hordinary
  have hacr : client.defaultAcrValues = [] ∨ input.assurance.acr ∈ client.defaultAcrValues := by
    by_contra hbad
    simp [not_or] at hbad
    simp [hbad] at hacr
  refine ⟨fun rule hmem => ?_, fun policy hpolicy p hp => ?_, henabled, hservice, ?_, hgroups, ?_,
    hacr⟩
  · obtain rfl | ⟨scope, hmem, hget⟩ := Client.mem_rules.mp hmem
    · exact hrule
    · have hreasons := (List.append_eq_nil_iff.mp (hscope scope hmem)).1
      rw [hget] at hreasons
      exact hreasons
  · refine simulatedPredicate_sound p (h.completes hpolicy hp) ?_
    obtain hmem | ⟨scope, hmem, conditions, hget, hp⟩ := ConditionalPolicy.mem_conditions.mp hp
    · rw [hpolicy] at hconditional
      exact conditionalReasons_eq_nil.mp hconditional p hmem
    · have hreasons := (List.append_eq_nil_iff.mp (hscope scope hmem)).2
      rw [hpolicy, Option.bind_some, hget] at hreasons
      exact conditionalReasons_eq_nil.mp hreasons p hp
  · rwa [decide_eq_false_iff_not] at hfactor
  · -- without a reason about the device, none is demanded
    refine requireDevice_ok.mpr (.inl ?_)
    by_contra htrust
    cases deviceReason with
    | some r => cases hnone
    | none =>
      unfold policyReason at hdevice
      rw [if_neg htrust] at hdevice
      split_ifs at hdevice <;> cases hdevice

/-- What passes is simulated to be denied only for a scope or a source. -/
theorem Consistent.not_deny_of_passes
    (h : Consistent ctx tx at_ input client user groups sourceEnabled identity members device)
    (hdevice : policyReason ctx client none = .ok deviceReason)
    (hregistered : isSubset input.scope client.scopes = true)
    (hsource : input.source.isSome = true → sourceEnabled = true)
    (hpasses : Passes ctx input client user groups identity
      (TrustedPredicateFacts.mk client identity members (input.assumed sourceEnabled) device
        at_).facts) :
    (simulateDecision input client user groups sourceEnabled deviceReason).decision ≠ .deny := by
  -- no condition is known to fail
  have hknown : ∀ policy, client.policy.conditional = some policy →
      ∀ p ∈ policy.conditions input.scope, simulatedPredicate client groups
        (input.assumed sourceEnabled) input.assurance p ≠ some false := by
    intro policy hpolicy p hp hfalse
    have hp' := simulatedPredicate_sound p (h.completes hpolicy hp) hfalse
    cases (hpasses.conditions policy hpolicy p hp).symm.trans hp'
  have hordinary : ordinaryReasons client user input.scope groups (input.assurance = .mfa) = [] := by
    refine ordinaryReasons_eq_nil.mpr ⟨hpasses.rules _ List.mem_cons_self, hpasses.enabled,
      h.live.enabled, hpasses.service, hregistered, hpasses.allowed, ?_⟩
    rw [decide_eq_false_iff_not]
    exact hpasses.mfa
  intro hdeny
  rw [simulateDecision_decision] at hdeny
  obtain ⟨r, hr, hlive, hsession⟩ | ⟨rs, hrs, r, hr, hlive⟩ := verdict_eq_deny.mp hdeny
  · simp only [accessReasons, hordinary, List.nil_append, List.mem_append] at hr
    obtain ((hr | hr) | hr) | hr := hr
    · have hnone : (input.source.isSome && !sourceEnabled) = false := by
        cases hsome : input.source.isSome with
        | false => rfl
        | true => rw [hsource hsome]; rfl
      rw [Reason.given_eq_nil.mpr hnone] at hr
      cases hr
    · have hnone : (decide (client.defaultAcrValues ≠ []) &&
          decide (input.assurance.acr ∉ client.defaultAcrValues)) = false := by
        obtain hnil | hmem := hpasses.assurance <;> simp [*]
      rw [Reason.given_eq_nil.mpr hnone] at hr
      cases hr
    · obtain rfl := Option.mem_toList.mp hr
      obtain htrust | ⟨hready, _⟩ := requireDevice_ok.mp hpasses.device
      · rw [policyReason, if_pos htrust] at hdevice
        cases hdevice
      · unfold policyReason at hdevice
        split_ifs at hdevice with htrust hunready
        · cases hdevice
        · rw [hready] at hunready
          cases hunready
        · cases hdevice
          exact hsession rfl
    · cases hpolicy : client.policy.conditional with
      | none =>
        rw [hpolicy] at hr
        cases hr
      | some policy =>
        rw [hpolicy] at hr
        obtain ⟨p, hp, hfalse⟩ := conditionalReasons_denied hr hlive
        exact hknown policy hpolicy p (ConditionalPolicy.mem_conditions.mpr (.inl hp)) hfalse
  · obtain ⟨scope, hscope, rfl⟩ := List.mem_map.mp hrs
    obtain hr | hr := List.mem_append.mp hr
    · cases hget : client.policy.scopes.get? scope with
      | none =>
        rw [hget] at hr
        cases hr
      | some rule =>
        rw [hget, Option.map_some, Option.getD_some,
          hpasses.rules rule (Client.mem_rules.mpr (.inr ⟨scope, hscope, hget⟩))] at hr
        cases hr
    · cases hpolicy : client.policy.conditional with
      | none =>
        rw [hpolicy] at hr
        cases hr
      | some policy =>
        cases hget : policy.scopes.get? scope with
        | none =>
          rw [hpolicy, Option.bind_some, hget] at hr
          cases hr
        | some conditions =>
          rw [hpolicy, Option.bind_some, hget] at hr
          obtain ⟨p, hp, hfalse⟩ := conditionalReasons_denied hr hlive
          exact hknown policy hpolicy p
            (ConditionalPolicy.mem_conditions.mpr (.inr ⟨scope, hscope, conditions, hget, hp⟩)) hfalse

end

/-- **Policy simulation is sound for enforcement.** `deviceReason` is what the caller finds for the
client. -/
theorem simulation_sound {ctx : Context} {client : Client} {deviceReason : Option Reason}
    (hdevice : policyReason ctx client none = .ok deviceReason) (input : Simulation) (user : User)
    (groups : List Text) (sourceEnabled : Bool) :
    -- for every live identity that meets the assumptions
    (∀ tx at_ identity members device claims,
      Consistent ctx tx at_ input client user groups sourceEnabled identity members device →
      -- what is reported allowed passes every check
      ((simulateDecision input client user groups sourceEnabled deviceReason).decision = .allow →
        enforce tx at_ client user identity input.scope = .ok () ∧
        authorizeIdentity ctx tx at_ client identity = .ok user ∧
        enforceAssurance client identity none .empty claims = .ok ()) ∧
      -- what is reported denied is refused by one of them, or is denied for a scope that the
      -- client does not have or for a source that is disabled
      ((simulateDecision input client user groups sourceEnabled deviceReason).decision = .deny →
        ¬ (enforce tx at_ client user identity input.scope = .ok () ∧
          authorizeIdentity ctx tx at_ client identity = .ok user ∧
          enforceAssurance client identity none .empty claims = .ok ()) ∨
        isSubset input.scope client.scopes = false ∨
        input.source.isSome = true ∧ sourceEnabled = false)) ∧
    -- what is known of a predicate holds under every completion of the facts
    (∀ source assurance p b facts,
      facts.Completes client groups source assurance p.groups →
      simulatedPredicate client groups source assurance p = some b → p.evaluate facts = b) := by
  refine ⟨fun tx at_ identity members device claims h => ⟨fun hallow => ?_, fun hdeny => ?_⟩,
    fun source assurance p b facts hfacts => simulatedPredicate_sound p hfacts⟩
  · exact (h.passes_iff claims).mpr (h.passes_of_allow hdevice hallow)
  · by_contra hbad
    obtain ⟨hpasses, hbad⟩ := not_or.mp hbad
    obtain ⟨hregistered, hsource⟩ := not_or.mp hbad
    refine h.not_deny_of_passes hdevice (Bool.not_eq_false _ ▸ hregistered) (fun hsome => ?_)
      ((h.passes_iff claims).mp (not_not.mp hpasses)) hdeny
    by_contra henabled
    exact hsource ⟨hsome, Bool.not_eq_true _ ▸ henabled⟩

/-! ## Examples -/

/-- A rule that demands nothing. -/
def openRule : Rule := ⟨[], [], [], [], [], false⟩

/-- A client with the scope `a`, and a condition on the application. -/
def openClient : Client where
  id := ['c']
  enabled := true
  service := false
  scopes := [['a']]
  allowedGroups := []
  requireMfa := false
  policy := ⟨openRule, .empty, some ⟨[.any [.application ['c'], .approvedDevice 60]], .empty⟩⟩
  defaultAcrValues := []
  requireDeviceTrust := false
  userinfoOnly := false

def someUser : User := ⟨['u'], ['n'], true, 0⟩

def someIdentity : Identity := ⟨[], none, ['u'], 0, false, 5, ['s']⟩

/-- A store with the session of `someIdentity`. -/
def someTx : ClaimsTx where
  groupsFor _ := .ok []
  session _ := .ok (some ⟨someIdentity, 100, false⟩)
  verifiedUpstreamSource _ := .ok none
  approvedDeviceAt _ _ := .ok none

def someContext : Context where
  identityUser _ := .ok someUser
  deviceTrustReady := false
  deviceVerified _ := .ok false

/-- The simulation for one scope, under an assumed source. -/
def askFor (scope : Text) (source : Option Text) : Simulation :=
  ⟨['c'], ['n'], [scope], none, source, .password⟩

/-- A source that is disabled is not assumed. -/
theorem consistent_askFor (scope : Text) (source : Option Text) :
    Consistent someContext someTx 10 (askFor scope source) openClient someUser [] false someIdentity
      [] none where
  live := ⟨rfl, rfl, ⟨_, rfl, by decide⟩, rfl, by cases source <;> rfl, rfl⟩
  groups _ _ := .rfl
  assurance := rfl

/-- A scope that the client does not have is reported denied, and so is a source that is disabled.
No check refuses either. -/
theorem denied_not_refused :
    policyReason someContext openClient none = .ok none ∧
      ∀ input ∈ [askFor ['b'] none, askFor ['a'] (some "corp".toList)],
        Consistent someContext someTx 10 input openClient someUser [] false someIdentity [] none ∧
        (simulateDecision input openClient someUser [] false none).decision = .deny ∧
        enforce someTx 10 openClient someUser someIdentity input.scope = .ok () ∧
        authorizeIdentity someContext someTx 10 openClient someIdentity = .ok someUser ∧
        enforceAssurance openClient someIdentity none .empty .null = .ok () := by
  refine ⟨rfl, List.forall_mem_cons.mpr ⟨?_, List.forall_mem_singleton.mpr ?_⟩⟩
  · exact ⟨consistent_askFor ['b'] none, by decide, rfl, rfl, rfl⟩
  · exact ⟨consistent_askFor ['a'] _, by decide, rfl, rfl, rfl⟩

theorem simulation_sound_open :
    (simulateDecision (askFor ['a'] none) openClient someUser [] false none).decision = .allow ∧
      enforce someTx 10 openClient someUser someIdentity [['a']] = .ok () := by
  have hallow : (simulateDecision (askFor ['a'] none) openClient someUser [] false none).decision =
      .allow := by decide
  have hdevice : policyReason someContext openClient none = .ok none := rfl
  have hlaw := simulation_sound hdevice (askFor ['a'] none) someUser [] false
  have hpass := (hlaw.1 someTx 10 someIdentity [] none .null (consistent_askFor ['a'] none)).1 hallow
  exact ⟨hallow, hpass.1⟩

end RiAuth.Policy
