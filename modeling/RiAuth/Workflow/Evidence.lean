import RiAuth.Workflow.Validate

/-!
# Completion of a run

A run ends at a terminal only through `Validated.complete`: the recorded steps are replayed from the
entry, every proof among them is checked against a stored receipt, and the proofs gathered on the
way must satisfy the terminal. Where the run and its receipts are kept is the business of a
`CompletionStore`; its `finish` spends the receipts and makes the run final.

* `StoredRun`, `StoredStep`, `StoredEvidence`: what the executor records;
* `checkEvidence`: one receipt against one recorded step;
* `Validated.replay`: the recorded steps, one after the other;
* `Validated.complete`: the whole of it.
-/

namespace RiAuth.Workflow

open Checks

/-! ## Records -/

/-- How far a run is. -/
inductive RunState where
  | active (step : Id) (attempt : ℕ)
  | finished (terminal : Id) (outcome : Outcome)
  | cancelled
  | expired
deriving DecidableEq

/-- Whether a run is over. -/
def RunState.isFinal : RunState → Bool
  | active _ _ => false
  | _ => true

/-- What a run is pinned to. -/
structure RunBinding where
  workflow : Id
  revision : ℕ
  fingerprint : Text
  sourceRegistration : Option SourceRegistration
  extensionSha256 : Option Text
deriving DecidableEq

/-- What a run is bound to. -/
def Validated.binding (v : Validated) : RunBinding :=
  ⟨v.definition.id, v.definition.revision, v.fingerprint, v.sourceRegistration,
    v.extensionSha256⟩

/-- A step that was taken. -/
structure StoredStep where
  step : Id
  attempt : ℕ
  signal : Label
  /-- Reference to a receipt; `none` for a signal without proof. -/
  evidence : Option Text
deriving DecidableEq

/-- The run identity and the step signals recorded by the executor. -/
structure StoredRun where
  id : Text
  account : Text
  accountEpoch : ℕ
  session : Option Text
  request : Text
  binding : RunBinding
  startedAt : ℕ
  state : RunState
  steps : List StoredStep
deriving DecidableEq

/-- The session at the source of a sign-in. -/
structure SourceSession where
  subject : Option Text
  index : Text
  expiresAt : Option ℕ
  expiryVerified : Bool
deriving DecidableEq

/-- What an upstream verifier vouches for. -/
structure SourceEvidence where
  source : Id
  fingerprint : Text
  link : Text
  subject : Text
  transaction : Text
  mfa : Bool
  samlSession : Option SourceSession
deriving DecidableEq

/-- A typed receipt from an existing verifier. -/
structure StoredEvidence where
  id : Text
  proof : Proof
  step : Id
  attempt : ℕ
  action : Action
  account : Text
  accountEpoch : ℕ
  session : Option Text
  request : Text
  run : Text
  binding : RunBinding
  verifiedAt : ℕ
  expiresAt : ℕ
  /-- A receipt may authorize at most one run completion. -/
  consumed : Bool
  source : Option SourceEvidence
deriving DecidableEq

/-- Account and request facts read by the trusted store. -/
structure TrustedFacts where
  account : Text
  accountEpoch : ℕ
  request : Text
  credentials : Finset Credential
  requestRequiresMfa : Bool
deriving DecidableEq

/-- The facts of a path: those of the store, and the proofs held so far. -/
def pathFacts (trusted : TrustedFacts) (held : Finset Proof) : Facts where
  accountHas credential := decide (credential ∈ trusted.credentials)
  hasProof proof := decide (proof ∈ held)
  requestRequiresMfa := trusted.requestRequiresMfa

/-- The proofs of a set, in their order. -/
def Proof.listed (held : Finset Proof) : List Proof := Proof.all.filter (· ∈ held)

/-- What a proof has to be bound to. -/
structure Binding where
  account : Bool
  request : Bool
  run : Bool
  session : Bool

/-- Session and consent evidence require a session. -/
def Proof.binding (p : Proof) : Binding :=
  ⟨true, true, true, p == .session || p == .consent || p == .passkeyRemoved⟩

/-- `u64::saturating_add`. -/
def saturatingAdd (a b : ℕ) : ℕ := min (a + b) u64Max

/-! ## The store behind a completion -/

/-- Where runs, receipts and account facts are read, and where the end of a run is written. -/
structure CompletionStore (σ : Type) where
  now : σ → ℕ
  loadRun : σ → Text → Except Invalid (Option StoredRun)
  loadEvidence : σ → Text → Except Invalid (Option StoredEvidence)
  loadFacts : σ → StoredRun → Except Invalid TrustedFacts
  /-- Only a live mutation capability in the same writer may cross an account epoch. -/
  authorizesMutation : σ → StoredRun → Terminal → Bool
  /-- Compare once more, consume the receipts and mark the run final. -/
  finish : σ → StoredRun → TrustedFacts → Terminal → List StoredEvidence → Except Invalid σ

/-! ## Receipts -/

/-- The upstream authority a receipt names, where its action has one. -/
def SourceEvidence.complete (source : Id) (authority : SourceEvidence) : Prop :=
  source = authority.source ∧ authority.fingerprint ≠ [] ∧ authority.link ≠ [] ∧
    authority.subject ≠ [] ∧ authority.transaction ≠ []

instance (source : Id) (authority : SourceEvidence) :
    Decidable (authority.complete source) := by
  unfold SourceEvidence.complete
  infer_instance

/-- The source has to match the action. -/
def checkSource (action : Action) (source : Option SourceEvidence) : Except Invalid Unit :=
  let refused : Invalid := ⟨.provenance, "evidence", "Source authority does not match"⟩
  match action, source with
  | .verifySource source, some authority => require (authority.complete source) refused
  | .verifySource _, none => .error refused
  | _, some _ => .error refused
  | _, none => .ok ()

/-- One receipt against the step that refers to it. `freshness` is `none` for historical evidence of
a denial; else the receipt must be live, and within the age bound of the terminal. -/
def checkEvidence (run : StoredRun) (recorded : StoredStep) (step : Step) (proof : Proof)
    (reference : Text) (record : StoredEvidence) (now : ℕ) (freshness : Option (Option ℕ)) :
    Except Invalid Unit := do
  require (record.id = reference ∧ record.proof = proof ∧ record.step = step.id ∧
      record.attempt = recorded.attempt ∧ record.action = step.action)
    ⟨.provenance, "evidence", "Evidence has the wrong verifier or step"⟩
  checkSource record.action record.source
  require (record.account = run.account ∧ record.accountEpoch = run.accountEpoch ∧
      record.session = run.session ∧ record.request = run.request ∧ record.run = run.id ∧
      record.binding = run.binding ∧ ¬ (proof.binding.session = true ∧ run.session = none))
    ⟨.binding, "evidence", "Evidence binding does not match"⟩
  require (record.consumed = false) ⟨.replay, "evidence", "Evidence was already consumed"⟩
  require (run.startedAt ≤ record.verifiedAt ∧ record.verifiedAt ≤ now ∧
      record.verifiedAt < record.expiresAt ∧
      ∀ bound ∈ freshness, now < record.expiresAt ∧
        ∀ age ∈ bound, now - record.verifiedAt ≤ age)
    ⟨.stale, "evidence", "Evidence is stale"⟩

/-! ## The replay -/

/-- The loop state of a replay. -/
structure Replay where
  /-- The step the path is at. -/
  next : Id
  held : Finset Proof
  /-- References already used. -/
  seen : List Text
  evidence : List StoredEvidence
  lastVerified : ℕ

/-- What a replay is measured against. -/
structure Completing where
  run : StoredRun
  facts : TrustedFacts
  target : Terminal
  now : ℕ
  load : Text → Except Invalid (Option StoredEvidence)

namespace Completing

/-- A success needs live receipts; a denial may rest on historical ones. -/
def freshness (c : Completing) : Option (Option ℕ) :=
  if c.target.outcome.isSuccess then some c.target.maxProofAgeSeconds else none

/-- Load, check and count the receipt of a recorded step. -/
def count (c : Completing) (path : String) (recorded : StoredStep) (current : Step)
    (proof : Proof) (reference : Text) (s : Replay) : Except Invalid Replay := do
  require (reference ≠ [] ∧ reference ∉ s.seen) ⟨.replay, path, "Evidence was reused"⟩
  match ← c.load reference with
  | none => .error ⟨.evidence, path, "Verified evidence is unavailable"⟩
  | some record => do
    checkEvidence c.run recorded current proof reference record c.now c.freshness
    require (s.lastVerified ≤ record.verifiedAt) ⟨.stale, path, "Evidence is out of order"⟩
    pure { s with
      held := insert proof s.held
      seen := reference :: s.seen
      evidence := s.evidence ++ [record]
      lastVerified := record.verifiedAt }

/-- The proof a recorded signal yields and the receipt it refers to come together. -/
def gather (c : Completing) (path : String) (recorded : StoredStep) (current : Step)
    (s : Replay) : Except Invalid Replay :=
  match current.action.proof recorded.signal, recorded.evidence with
  | some proof, some reference => c.count path recorded current proof reference s
  | some _, none => .error ⟨.evidence, path, "Built-in proof is missing"⟩
  | none, some _ => .error ⟨.provenance, path, "This action cannot produce proof"⟩
  | none, none => .ok s

end Completing

namespace Validated

/-- One recorded step: it is the next one, in range, justified, and leads on. -/
def replayStep (v : Validated) (c : Completing) (index : ℕ) (recorded : StoredStep)
    (s : Replay) : Except Invalid Replay := do
  let path := s!"run.steps[{index}]"
  require (recorded.step = s.next) ⟨.path, path, "Step is not next on the run path"⟩
  match v.step recorded.step with
  | none => .error ⟨.path, path, "Unknown path step"⟩
  | some current => do
    require (recorded.attempt ≠ 0 ∧ recorded.attempt ≤ current.maxAttempts)
      ⟨.path, path, "Step attempt is out of range"⟩
    require (recorded.signal ∈ current.action.signals)
      ⟨.path, path, "Action cannot emit this signal"⟩
    let s ← c.gather path recorded current s
    match ← v.resolve recorded.step recorded.signal (pathFacts c.facts s.held) with
    | .step step => do
      require (index + 1 < c.run.steps.length) ⟨.path, path, "Path does not reach terminal"⟩
      pure { s with next := step.id }
    | .terminal reached => do
      require (index + 1 = c.run.steps.length ∧ reached.id = c.target.id)
        ⟨.path, path, "Path does not reach terminal"⟩
      pure s

/-- All recorded steps, from an index on. -/
def replayFrom (v : Validated) (c : Completing) : ℕ → List StoredStep → Replay →
    Except Invalid Replay
  | _, [], s => .ok s
  | index, recorded :: rest, s => do
    let s ← v.replayStep c index recorded s
    v.replayFrom c (index + 1) rest s

/-- The recorded steps from the entry. -/
def replay (v : Validated) (c : Completing) : Except Invalid Replay :=
  v.replayFrom c 0 c.run.steps ⟨v.definition.entry, ∅, [], [], c.run.startedAt⟩

end Validated

/-! ## Completion -/

/-- The factor rules, applied to checked proofs only. -/
def completionRules (target : Terminal) (held : List Proof) (facts : Facts) :
    Except Invalid Unit :=
  if target.outcome.isSuccess then
    let proofs := mask held
    require (floor target.outcome proofs ∧ required target proofs ∧
        factors target.outcome proofs facts)
      ⟨.insufficientProof, toString target.id,
        target.outcome.debug ++ " needs more than " ++ describe proofs ++
          " for this account and request"⟩
  else .ok ()

/-- Attempts of all recorded steps, a `u32` sum. -/
def executionsOf (steps : List StoredStep) : ℕ := (steps.map StoredStep.attempt).sum % 2 ^ 32

namespace Validated

/-- The run is this one and pinned to this definition. -/
def checkRun (v : Validated) (runId : Text) (run : StoredRun) : Except Invalid Unit :=
  require (run.id = runId ∧ run.id ≠ [] ∧ run.account ≠ [] ∧ run.request ≠ [] ∧
      run.session ≠ some [] ∧ run.binding = v.binding)
    ⟨.binding, "run", "Run binding does not match"⟩

/-- The active step is the last recorded one. -/
def checkActive (v : Validated) (run : StoredRun) : Except Invalid Unit :=
  match run.state with
  | .active step attempt =>
    match run.steps.getLast? with
    | none => .error ⟨.path, "run.steps", "Run has no completed path"⟩
    | some last =>
      require (step = last.step ∧ attempt = last.attempt ∧
          ∃ s ∈ v.step step, attempt ≠ 0 ∧ attempt ≤ s.maxAttempts)
        ⟨.path, "run.state", "Active step is inconsistent"⟩
  | _ => .error ⟨.replay, "run", "Run is already final"⟩

/-- When a run that started then is over. -/
def deadline (v : Validated) (startedAt : ℕ) : ℕ :=
  saturatingAdd startedAt v.definition.limits.maxDurationSeconds

/-- Outcomes that change a credential. -/
def mutates (v : Validated) (target : Terminal) : Bool :=
  target.outcome == .enrolled || target.outcome == .recovered ||
    (target.outcome == .actionAuthorized && v.definition.steps.any fun s => s.action == .removePasskey)

/-- Finish only an active run whose recorded path reaches the terminal. -/
def complete {σ : Type} (v : Validated) (store : CompletionStore σ) (runId : Text)
    (terminalId : Id) (s : σ) : Except Invalid (Outcome × σ) := do
  match ← store.loadRun s runId with
  | none => .error ⟨.evidence, "run", "Run is unavailable"⟩
  | some run => do
    v.checkRun runId run
    v.checkActive run
    let now := store.now s
    require (run.startedAt ≤ now ∧ now < v.deadline run.startedAt)
      ⟨.runExpired, "run", "Run has expired"⟩
    require (executionsOf run.steps ≤ v.definition.limits.maxExecutions)
      ⟨.path, "run.steps", "Run path exceeds its limit"⟩
    match v.definition.terminals.find? fun t => t.id = terminalId with
    | none => .error ⟨.unknownNode, toString terminalId, "Unknown terminal"⟩
    | some target => do
      require (v.mutates target → store.authorizesMutation s run target)
        ⟨.mutationPending, toString terminalId,
          "Credential mutation needs atomic epoch transition and finalization"⟩
      let facts ← store.loadFacts s run
      require (facts.account = run.account ∧ facts.accountEpoch = run.accountEpoch ∧
          facts.request = run.request)
        ⟨.binding, "run", "Account or request facts changed"⟩
      let replayed ← v.replay ⟨run, facts, target, now, store.loadEvidence s⟩
      completionRules target (Proof.listed replayed.held) (pathFacts facts replayed.held)
      let s ← store.finish s run facts target replayed.evidence
      pure (target.outcome, s)

end Validated

end RiAuth.Workflow
