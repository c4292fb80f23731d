import RiAuth.Lib.Checks
import RiAuth.Lib.OrdMap
import RiAuth.Lib.TopoSort
import RiAuth.Workflow.Essentials
import RiAuth.Workflow.Rules

/-!
# Validation of workflow definitions

`check` is the source's validator, cut at its blank lines: origin and limits, node identifiers, the
steps with their transitions, the terminals, the topological order, and the two passes along it (the
worst number of executions, and every set of proofs that can be held on arrival at a node). A
`Validated` definition is one that passed; `Validated.resolve` follows a transition of it.

* `defaults_check`: every shipped default passes.
-/

namespace RiAuth.Workflow

open Checks

/-! ## Limits and errors -/

def maxSteps : ℕ := 32

def maxTerminals : ℕ := 8

def maxTransitions : ℕ := 12

def maxAttempts : ℕ := 5

def maxStepTimeoutSeconds : ℕ := 3600

def maxRunSeconds : ℕ := 86400

def maxRunExecutions : ℕ := 64

def maxConditionNodes : ℕ := 16

def maxConditionDepth : ℕ := 4

def maxAlternatives : ℕ := 8

def maxCustomOutputs : ℕ := 8

def maxCustomTimeoutSeconds : ℕ := 30

def maxCustomOutputBytes : ℕ := 4096

/-- Start of the identifiers reserved for shipped definitions. -/
def builtinStart : Text := "essentials-".toList

/-- Which steps are offered. -/
inductive Profile where
  | essentials
  | platform
deriving DecidableEq, Repr

/-- External references a definition may use, supplied from the current configuration. -/
structure Environment where
  profile : Profile
  sources : Finset Id
  /-- Registered custom stages and the permissions each registration grants. -/
  stages : Id → Option (Finset StagePermission)

/-- A build with built-in definitions only. -/
def Environment.essentials : Environment := ⟨.essentials, ∅, fun _ => none⟩

/-- The stable code of a refusal. -/
inductive Code where
  | limit
  | duplicateId
  | unknownNode
  | unknownReference
  | entry
  | forbiddenAction
  | profileRestricted
  | builtin
  | permission
  | signal
  | condition
  | outcome
  | cycle
  | unreachable
  | unbounded
  | precondition
  | implicitSuccess
  | insufficientProof
  | evidence
  | binding
  | stale
  | replay
  | provenance
  | path
  | runExpired
  | mutationPending
deriving DecidableEq, Repr

/-- A refusal. Messages name fields and identifiers. -/
structure Invalid where
  code : Code
  path : String
  message : String
deriving DecidableEq, Repr

/-! ## Origin, limits, identifiers -/

/-- Built-ins are as shipped. -/
def checkOrigin (d : Definition) (env : Environment) : Except Invalid Unit :=
  match d.origin with
  | .builtin => require (builtin d.id = some d)
      ⟨.builtin, "origin", "Built-in definitions must match a shipped Essentials default exactly"⟩
  | .configured => do
    require (env.profile ≠ .essentials) ⟨.profileRestricted, "origin",
      "Essentials uses only built-in default workflows; configured workflows require Platform"⟩
    require (¬ builtinStart.isPrefixOf d.id.text = true) ⟨.builtin, "id",
      "The `essentials-` prefix is reserved for built-in workflows"⟩

/-- The limits of a definition. -/
def checkLimits (d : Definition) : Except Invalid Unit := do
  require (d.revision ≠ 0) ⟨.limit, "revision", "Revision starts at 1"⟩
  require (1 ≤ d.limits.maxDurationSeconds ∧ d.limits.maxDurationSeconds ≤ maxRunSeconds)
    ⟨.limit, "limits.max_duration_seconds", s!"Run duration must be 1..={maxRunSeconds} seconds"⟩
  require (1 ≤ d.limits.maxExecutions ∧ d.limits.maxExecutions ≤ maxRunExecutions)
    ⟨.limit, "limits.max_executions", s!"Step executions must be 1..={maxRunExecutions}"⟩
  require (1 ≤ d.steps.length ∧ d.steps.length ≤ maxSteps)
    ⟨.limit, "steps", s!"A workflow needs 1..={maxSteps} steps"⟩
  require (1 ≤ d.terminals.length ∧ d.terminals.length ≤ maxTerminals)
    ⟨.limit, "terminals", s!"A workflow needs 1..={maxTerminals} terminals"⟩

/-- Node identifiers: steps first, then terminals. -/
def Definition.ids (d : Definition) : List Id := d.steps.map Step.id ++ d.terminals.map Terminal.id

/-- The node with an identifier. -/
def Definition.index (d : Definition) (id : Id) : Option ℕ := d.ids.idxOf? id

/-- How errors name a node. -/
def nodePath (node steps : ℕ) : String :=
  if node < steps then s!"steps[{node}]" else s!"terminals[{node - steps}]"

/-- No id comes twice. -/
def checkIds (d : Definition) : Except Invalid Unit :=
  d.ids.zipIdx.forM fun (id, node) =>
    require (id ∉ d.ids.take node)
      ⟨.duplicateId, nodePath node d.steps.length ++ ".id", s!"Duplicate node id `{id}`"⟩

/-- The entry is a step. -/
def checkEntry (d : Definition) : Except Invalid ℕ :=
  match d.index d.entry with
  | none => .error ⟨.unknownNode, "entry", "Unknown node `" ++ toString d.entry ++ "`"⟩
  | some entry => do
    require (entry < d.steps.length) ⟨.entry, "entry", "Entry must be a step, not a terminal"⟩
    pure entry

/-! ## Steps and transitions -/

/-- The proofs some step can produce. -/
def producible (d : Definition) : ℕ :=
  mask (d.steps.flatMap fun s => s.action.signals.filterMap s.action.proof)

/-- One more condition node at this depth. -/
def enterCondition (depth nodes : ℕ) (path : String) : Except Invalid ℕ := do
  require (depth ≤ maxConditionDepth ∧ nodes + 1 ≤ maxConditionNodes) ⟨.condition, path,
    s!"Conditions are limited to depth {maxConditionDepth} and {maxConditionNodes} nodes"⟩
  pure (nodes + 1)

mutual

/-- The number of condition nodes seen so far, this condition included. -/
def checkCondition (producible : ℕ) : Condition → ℕ → ℕ → String → Except Invalid ℕ
  | .all of, depth, nodes, path => do
    let nodes ← enterCondition depth nodes path
    require (of.isEmpty = false)
      ⟨.condition, path, "Composite conditions need at least one member"⟩
    checkMembers producible of (depth + 1) nodes path 0
  | .any of, depth, nodes, path => do
    let nodes ← enterCondition depth nodes path
    require (of.isEmpty = false)
      ⟨.condition, path, "Composite conditions need at least one member"⟩
    checkMembers producible of (depth + 1) nodes path 0
  | .not condition, depth, nodes, path => do
    let nodes ← enterCondition depth nodes path
    checkCondition producible condition (depth + 1) nodes (path ++ ".condition")
  | .hasProof proof, depth, nodes, path => do
    let nodes ← enterCondition depth nodes path
    require (producible &&& proof.bit ≠ 0)
      ⟨.condition, path, "No step in this workflow can produce " ++ proof.debug⟩
    pure nodes
  | .accountHas _, depth, nodes, path => enterCondition depth nodes path
  | .requestRequiresMfa, depth, nodes, path => enterCondition depth nodes path

/-- The members of a condition. -/
def checkMembers (producible : ℕ) :
    List Condition → ℕ → ℕ → String → ℕ → Except Invalid ℕ
  | [], _, nodes, _, _ => pure nodes
  | c :: of, depth, nodes, path, i => do
    let nodes ← checkCondition producible c depth nodes s!"{path}.of[{i}]"
    checkMembers producible of depth nodes path (i + 1)

end

/-- What a custom stage asks for is registered and bounded. -/
def checkCustom (d : Definition) (env : Environment) (actionPath : String) (stage : Id)
    (outputs : List Label) (permissions : List StagePermission) (maxOutputBytes : ℕ) :
    Except Invalid Unit := do
  require (env.profile = .platform ∧ d.origin = .configured) ⟨.profileRestricted, actionPath,
    "Custom stages require a configured Platform workflow"⟩
  match env.stages stage with
  | none =>
    .error ⟨.unknownReference, actionPath ++ ".stage", s!"Unknown stage `{stage}`"⟩
  | some granted =>
    require (permissions.Nodup ∧ ∀ p ∈ permissions, p ∈ granted)
      ⟨.permission, actionPath ++ ".permissions",
        "Permissions must be distinct and granted by the stage registration"⟩
  require (1 ≤ outputs.length ∧ outputs.length ≤ maxCustomOutputs ∧ outputs.Nodup ∧
      ∀ o ∈ outputs, o ∉ Label.reserved)
    ⟨.signal, actionPath ++ ".outputs",
      s!"Declare 1..={maxCustomOutputs} distinct outputs not named like built-in signals"⟩
  require (1 ≤ maxOutputBytes ∧ maxOutputBytes ≤ maxCustomOutputBytes)
    ⟨.limit, actionPath ++ ".max_output_bytes",
      s!"Output must be 1..={maxCustomOutputBytes} bytes"⟩

/-- The references of an action; the result is its timeout bound. -/
def checkAction (d : Definition) (env : Environment) (actionPath : String) (action : Action) :
    Except Invalid ℕ :=
  let timeout := min maxStepTimeoutSeconds d.limits.maxDurationSeconds
  match action with
  | .verifySource source => do
    require (source ∈ env.sources) ⟨.unknownReference, actionPath ++ ".source",
      s!"Unknown or inactive source `{source}`"⟩
    pure timeout
  | .custom stage outputs permissions maxOutputBytes => do
    checkCustom d env actionPath stage outputs permissions maxOutputBytes
    pure (min timeout maxCustomTimeoutSeconds)
  | _ => pure timeout

/-- One step by itself. -/
def checkStep (d : Definition) (env : Environment) (step : Step) (path : String) :
    Except Invalid Unit := do
  require (d.category.allows step.action) ⟨.forbiddenAction, path ++ ".action",
    "`" ++ step.action.name ++ "` is not allowed in a " ++ d.category.debug ++ " workflow"⟩
  require (1 ≤ step.maxAttempts ∧ step.maxAttempts ≤ maxAttempts)
    ⟨.limit, path ++ ".max_attempts", s!"Attempts must be 1..={maxAttempts}"⟩
  let timeout ← checkAction d env (path ++ ".action") step.action
  require (1 ≤ step.timeoutSeconds ∧ step.timeoutSeconds ≤ timeout)
    ⟨.limit, path ++ ".timeout_seconds", s!"Timeout must be 1..={timeout} seconds"⟩
  require (1 ≤ step.transitions.length ∧ step.transitions.length ≤ maxTransitions)
    ⟨.limit, path ++ ".transitions", s!"A step needs 1..={maxTransitions} transitions"⟩

/-- Whether a node is a terminal with a success outcome. -/
def Definition.isSuccess (d : Definition) (node : ℕ) : Bool :=
  decide (d.steps.length ≤ node) &&
    (d.terminals[node - d.steps.length]?).any fun t => t.outcome.isSuccess

/-- The edge of a transition. -/
def checkTransition (d : Definition) (step : Step) (path : String) (t : Transition) :
    Except Invalid (Label × ℕ) := do
  require (t.on ∈ step.action.signals) ⟨.signal, path ++ ".on",
    "`" ++ step.action.name ++ "` does not emit `" ++ toString t.on ++ "`"⟩
  match d.index t.target with
  | none =>
    .error ⟨.unknownNode, path ++ ".to", "Unknown node `" ++ toString t.target ++ "`"⟩
  | some target =>
    match t.when with
    | none => pure ()
    | some condition =>
      discard (checkCondition (producible d) condition 1 0 (path ++ ".when"))
    require (¬ ((t.on = .failed ∨ t.on = .denied) ∧ d.isSuccess target = true))
      ⟨.implicitSuccess, path ++ ".to",
        "Signal `" ++ toString t.on ++ "` cannot lead directly to success"⟩
    pure (t.on, target)

/-- The transitions for a signal end with the only unconditional one. -/
def checkRoutes (transitions : List Transition) (path : String) (signal : Label) :
    Except Invalid Unit :=
  let routes := transitions.filter fun t => t.on = signal
  match routes.getLast? with
  | none => .error ⟨.signal, path ++ ".transitions", s!"Signal `{signal}` has no transition"⟩
  | some last =>
    require (last.when = none ∧ ∀ t ∈ routes.dropLast, t.when ≠ none)
      ⟨.signal, path ++ ".transitions",
        s!"Signal `{signal}` must end with exactly one unconditional transition"⟩

/-- The edges out of a step. -/
def checkEdges (d : Definition) (env : Environment) (step : Step) (i : ℕ) :
    Except Invalid (List (Label × ℕ)) := do
  let path := s!"steps[{i}]"
  checkStep d env step path
  let row ← step.transitions.zipIdx.mapM fun (t, j) =>
    checkTransition d step s!"{path}.transitions[{j}]" t
  step.action.signals.forM (checkRoutes step.transitions path)
  pure row

/-- Outgoing edges of every node; terminals have none. -/
abbrev Edges := List (List (Label × ℕ))

/-- All steps, with their edges. -/
def checkSteps (d : Definition) (env : Environment) : Except Invalid Edges :=
  d.steps.zipIdx.mapM fun (step, i) => checkEdges d env step i

/-! ## Terminals -/

/-- One terminal. -/
def checkTerminal (d : Definition) (t : Terminal) (path : String) : Except Invalid Unit := do
  require (t.outcome = .denied ∨ t.outcome = d.category.success) ⟨.outcome, path ++ ".outcome",
    "A " ++ d.category.debug ++ " workflow can end only as " ++ d.category.success.debug ++
      " or Denied"⟩
  if t.outcome = .denied then
    require (t.requires = [] ∧ t.maxProofAgeSeconds = none)
      ⟨.outcome, path, "Denial terminals take no proof requirements"⟩
  else do
    require (t.requires.length ≤ maxAlternatives)
      ⟨.limit, path ++ ".requires", s!"At most {maxAlternatives} alternatives"⟩
    t.requires.zipIdx.forM fun (alternative, k) =>
      require (alternative ≠ [] ∧ alternative.Nodup)
        ⟨.insufficientProof, s!"{path}.requires[{k}]",
          "Alternatives must be nonempty lists of distinct proofs"⟩
    match t.maxProofAgeSeconds with
    | some age => do
      require (age ≠ 0 ∧ age ≤ d.limits.maxDurationSeconds)
        ⟨.limit, path ++ ".max_proof_age_seconds",
          "Proof age must be positive and within the run duration"⟩
      require (d.category.needsFreshProof → age ≤ maxSensitiveProofAgeSeconds)
        ⟨.limit, path ++ ".max_proof_age_seconds",
          s!"Proof age is at most {maxSensitiveProofAgeSeconds} seconds for this category"⟩
    | none =>
      require (d.category.needsFreshProof = false)
        ⟨.limit, path ++ ".max_proof_age_seconds", "This category requires a proof age bound"⟩

/-- All terminals. -/
def checkTerminals (d : Definition) : Except Invalid Unit := do
  d.terminals.zipIdx.forM fun (t, i) => checkTerminal d t s!"terminals[{i}]"
  require (∃ t ∈ d.terminals, t.outcome ≠ .denied)
    ⟨.outcome, "terminals", "No success terminal is defined"⟩

/-! ## The order -/

/-- The edges out of a node. -/
def outgoing (edges : Edges) (node : ℕ) : List (Label × ℕ) := edges.getD node []

/-- Where the transitions of a node lead. -/
def successors (edges : Edges) (node : ℕ) : List ℕ := (outgoing edges node).map Prod.snd

/-- A round of the search for each edge and each node, and one to see that it is over. -/
def searchRounds (edges : Edges) (nodes : ℕ) : ℕ :=
  ((List.range nodes).map fun node => (successors edges node).length + 1).sum + 1

/-- Reachable nodes in topological order, rejecting any cycle including self-loops. -/
def topological (edges : Edges) (entry : ℕ) (d : Definition) : Except Invalid (List ℕ) :=
  match TopoSort.run (successors edges) (searchRounds edges d.ids.length) (TopoSort.start entry) with
  | some (.ok order) => .ok order
  | some (.error (node, target)) =>
    let id := (d.ids[target]?).elim "" toString
    .error ⟨.cycle, nodePath node d.steps.length,
      s!"Transition back to `{id}` forms a loop; use bounded max_attempts instead"⟩
  -- Not taken: the search ends within its rounds (`TopoSort.run_isSome`).
  | none => .error ⟨.cycle, "", ""⟩

/-- Each node can be reached. -/
def checkReachable (order : List ℕ) (d : Definition) : Except Invalid Unit :=
  match (List.range d.ids.length).find? fun node => decide (node ∉ order) with
  | some node => .error
      ⟨.unreachable, nodePath node d.steps.length, "Node is unreachable from entry"⟩
  | none => .ok ()

/-! ## The two passes -/

/-- Raise the executions of every successor of a step to those of the step and its attempts. -/
def visitExecutions (d : Definition) (edges : Edges) (executions : ℕ → ℕ) (node : ℕ) : ℕ → ℕ :=
  match d.steps[node]? with
  | none => executions
  | some step =>
    let total := executions node + step.maxAttempts
    (outgoing edges node).foldl
      (fun table e => Function.update table e.2 (max (table e.2) total)) executions

/-- Worst-case executions along any path, retries included. -/
def checkExecutions (d : Definition) (edges : Edges) (order : List ℕ) : Except Invalid Unit :=
  let executions := order.foldl (visitExecutions d edges) fun _ => 0
  let worst := ((List.range d.ids.length).map executions).foldl max 0
  require (worst ≤ d.limits.maxExecutions) ⟨.unbounded, "limits.max_executions",
    s!"A path can execute {worst} steps including retries"⟩

/-- The sets of proofs that can be held on arrival at each node. -/
abbrev Arrivals := ℕ → OrdMap ℕ Unit

/-- A terminal of success, reached with these proofs. -/
def checkArrival (terminal : Terminal) (path : String) (proofs : ℕ) : Except Invalid Unit := do
  require (floor terminal.outcome proofs) ⟨.implicitSuccess, path,
    terminal.outcome.debug ++ " is reachable holding only " ++ describe proofs⟩
  require (terminal.requires = [] ∨
      ∃ a ∈ terminal.requires, proofs &&& mask a = mask a)
    ⟨.insufficientProof, path,
      "A path holding " ++ describe proofs ++ " satisfies no required alternative"⟩

/-- A step, reached with these proofs. -/
def checkPrecondition (action : Action) (path : String) (proofs : ℕ) : Except Invalid Unit :=
  match unmet action proofs with
  | none => .ok ()
  | some what => .error ⟨.precondition, path,
      "`" ++ action.name ++ "` requires " ++ what ++ "; a path arrives holding " ++
        describe proofs⟩

/-- The bit a signal of the action adds. -/
def gained (action : Action) (signal : Label) : ℕ := (action.proof signal).elim 0 Proof.bit

/-- An account condition of a transition needs an account-binding proof on every path. -/
def checkDisclosure (action : Action) (arriving : List ℕ) (path : String)
    (t : Transition) (e : Label × ℕ) : Except Invalid Unit :=
  require (¬ (t.when.any Condition.mentionsAccount = true ∧
      ∃ proofs ∈ arriving, (proofs ||| gained action e.1) &&& accountBound = 0))
    ⟨.condition, path, "Account conditions need an account-binding proof on every path; " ++
      "otherwise routing reveals whether the account exists"⟩

/-- What the arrivals at a node must satisfy. -/
def checkNode (d : Definition) (edges : Edges) (held : Arrivals) (node : ℕ) :
    Except Invalid Unit :=
  let arriving := (held node).entries.map Prod.fst
  let path := nodePath node d.steps.length
  match d.steps[node]? with
  | some step => do
    arriving.forM (checkPrecondition step.action path)
    (step.transitions.zip (outgoing edges node)).zipIdx.forM fun ((t, e), j) =>
      checkDisclosure step.action arriving s!"{path}.transitions[{j}].when" t e
  | none =>
    match d.terminals[node - d.steps.length]? with
    | some terminal =>
      if terminal.outcome.isSuccess then arriving.forM (checkArrival terminal path) else .ok ()
    | none => .ok ()

/-- Every arrival at the target, with what the edge's signal adds. -/
def push (action : Action) (arriving : List ℕ) (held : Arrivals) (e : Label × ℕ) : Arrivals :=
  arriving.foldl (fun held proofs =>
    Function.update held e.2 ((held e.2).insert (proofs ||| gained action e.1) ())) held

/-- Take the arrivals of a node and hand them to its successors. -/
def visitHeld (d : Definition) (edges : Edges) (held : Arrivals) (node : ℕ) : Arrivals :=
  let arriving := (held node).entries.map Prod.fst
  let held := Function.update held node .empty
  match d.steps[node]? with
  | none => held
  | some step => (outgoing edges node).foldl (push step.action arriving) held

/-- The entry is reached with no proofs. -/
def arrivals (entry : ℕ) : Arrivals :=
  Function.update (fun _ => .empty) entry (OrdMap.empty.insert 0 ())

/-- Proofs held at each node. -/
def checkHeld (d : Definition) (edges : Edges) (entry : ℕ) (order : List ℕ) :
    Except Invalid Unit :=
  pass (checkNode d edges) (visitHeld d edges) (arrivals entry) order

/-! ## Validation -/

/-- All checks of a definition. -/
def check (d : Definition) (env : Environment) : Except Invalid Unit := do
  checkOrigin d env
  checkLimits d
  checkIds d
  let entry ← checkEntry d
  let edges ← checkSteps d env
  checkTerminals d
  let order ← topological edges entry d
  checkReachable order d
  checkExecutions d edges order
  checkHeld d edges entry order

/-- **Every shipped default passes.** -/
theorem defaults_check : ∀ d ∈ Essentials.defaults, check d .essentials = .ok () := by
  intro d hd
  simp only [Essentials.defaults, List.mem_cons, List.not_mem_nil, or_false] at hd
  obtain rfl | rfl | rfl | rfl | rfl | rfl | rfl := hd <;> decide

theorem passwordSignIn_checks : ∃ env, check Essentials.passwordSignIn env = .ok () :=
  ⟨.essentials, defaults_check _ (.tail _ (.head _))⟩

/-- Identity of the live source registration used by a source-verifier run. -/
structure SourceRegistration where
  source : Id
  fingerprint : Text
deriving DecidableEq

/-- A definition that passed the checks of some environment. -/
structure Validated where
  definition : Definition
  fingerprint : Text
  sourceRegistration : Option SourceRegistration
  extensionSha256 : Option Text
  checked : ∃ env, check definition env = .ok ()

/-- Validate a definition. `fingerprint` is the SHA-256 of the canonical encoding. -/
def validate (fingerprint : Definition → Text) (d : Definition) (env : Environment) :
    Except Invalid Validated :=
  match h : check d env with
  | .error e => .error e
  | .ok () => .ok ⟨d, fingerprint d, none, none, env, h⟩

/-- The shipped password sign-in, validated. -/
def passwordSignIn : Validated where
  definition := Essentials.passwordSignIn
  fingerprint := []
  sourceRegistration := none
  extensionSha256 := none
  checked := passwordSignIn_checks

/-- Where a transition leads. -/
inductive Target where
  | step (step : Step)
  | terminal (terminal : Terminal)
deriving DecidableEq

namespace Validated

/-- The step of an id. -/
def step (v : Validated) (id : Id) : Option Step := v.definition.steps.find? fun s => s.id = id

/-- The first step. -/
def entry (v : Validated) : Option Step := v.step v.definition.entry

/-- The node a transition names. -/
def target (v : Validated) (id : Id) : Option Target :=
  match v.step id with
  | some step => some (.step step)
  | none => (v.definition.terminals.find? fun t => t.id = id).map .terminal

/-- Select the transition for a step's signal. There is no default target. -/
def resolve (v : Validated) (step : Id) (signal : Label) (facts : Facts) :
    Except Invalid Target :=
  match v.step step with
  | none => .error ⟨.unknownNode, toString step, "Unknown step"⟩
  | some current =>
    let routes := current.transitions.filter fun t => t.on = signal
    match routes.find? fun t => t.when.all (Condition.evaluate facts) with
    | none => .error ⟨.signal, toString step, s!"No transition for signal `{signal}`"⟩
    | some transition =>
      match v.target transition.target with
      | some target => .ok target
      | none => .error ⟨.unknownNode, toString transition.target, "Unknown node"⟩

end Validated

end RiAuth.Workflow
