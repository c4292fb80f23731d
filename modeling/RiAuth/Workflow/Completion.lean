import Mathlib.Data.Finset.Option
import RiAuth.Workflow.Evidence
import RiAuth.Workflow.Sound

/-!
# A completed run is justified by evidence

What the replay accepts is a path of the definition, so it is one of the runs validation has looked
at (`Path.runs`). Therefore the bounds a completion checks at run time are already known: only the
account-relative factor rules can refuse a replayed path.

* `Path`: recorded steps that lead from the entry to a node under `resolve`;
* `Receipt`: a receipt that justifies a recorded step;
* `Replayed`: the invariant of the replay loop;
* `complete_justified`: what a success rests on, and what cannot fail.
-/

namespace RiAuth.Workflow

open Checks

/-! ## Paths -/

/-- `Path v ok steps node held`: the recorded steps lead from the entry to `node` under `resolve`,
each followed under facts that are `ok`, and their signals yield the proofs `held`. -/
inductive Path (v : Validated) (ok : TrustedFacts → Prop) :
    List StoredStep → Target → Finset Proof → Prop
  | start {entry : Step} : v.entry = some entry → Path v ok [] (.step entry) ∅
  | next {steps : List StoredStep} {step : Step} {held : Finset Proof} {recorded : StoredStep}
      {facts : TrustedFacts} {target : Target} :
    Path v ok steps (.step step) held → recorded.step = step.id →
    1 ≤ recorded.attempt → recorded.attempt ≤ step.maxAttempts →
    recorded.signal ∈ step.action.signals → ok facts →
    v.resolve step.id recorded.signal
        (pathFacts facts (held ∪ (step.action.proof recorded.signal).toFinset)) = .ok target →
    Path v ok (steps ++ [recorded]) target
      (held ∪ (step.action.proof recorded.signal).toFinset)

section Path

variable {v : Validated} {ok : TrustedFacts → Prop} {steps : List StoredStep} {node : Target}
  {held : Finset Proof}

/-- The recorded steps of a path are the trace of a run. -/
theorem Path.runs (h : Path v ok steps node held) :
    ∃ trace proofs, Runs v trace node proofs ∧
      List.Forall₂ (fun (step : Step) a => 1 ≤ a ∧ a ≤ step.maxAttempts) trace
        (steps.map StoredStep.attempt) ∧
      ∀ p, p ∈ held ↔ p ∈ proofs := by
  induction h with
  | start hentry => exact ⟨[], [], .start hentry, .nil, fun p => by simp⟩
  | @next steps step held recorded facts target _ _ hlow hhigh hsignal _ hresolve ih =>
    obtain ⟨trace, proofs, hruns, hattempts, hheld⟩ := ih
    refine ⟨_, _, hruns.next hsignal hresolve, ?_, fun p => ?_⟩
    · rw [List.map_append]
      exact List.rel_append hattempts (.cons ⟨hlow, hhigh⟩ .nil)
    · rw [Finset.mem_union, List.mem_append, hheld p, Option.mem_toFinset, Option.mem_toList,
        Option.mem_def]

/-- The attempts of a path are within the limit, whatever node it is at. -/
theorem Path.attempts_le (h : Path v ok steps node held) :
    (steps.map StoredStep.attempt).sum ≤ v.definition.limits.maxExecutions := by
  obtain ⟨env, hcheck⟩ := v.checked
  obtain ⟨edges, entry, order, hc⟩ := check_checked hcheck
  obtain ⟨trace, proofs, hruns, hattempts, -⟩ := h.runs
  exact (sum_le_of_forall₂ hattempts).trans (hruns.weight_le hc)

end Path

/-! ## Masks of sets -/

theorem mem_listed {held : Finset Proof} {p : Proof} : p ∈ Proof.listed held ↔ p ∈ held := by
  unfold Proof.listed
  rw [List.mem_filter, decide_eq_true_iff]
  exact and_iff_right (by cases p <;> decide)

/-- A mask depends on the members only. -/
theorem mask_congr {a b : List Proof} (h : ∀ p, p ∈ a ↔ p ∈ b) : mask a = mask b := by
  refine Nat.eq_of_testBit_eq fun i => ?_
  rw [testBit_mask_iff, testBit_mask_iff]
  simp only [h]

/-- The mask test accepts what is held. -/
theorem mask_and_of_subset {held proofs : List Proof} (h : proofs ⊆ held) :
    mask held &&& mask proofs = mask proofs := by
  refine Nat.eq_of_testBit_eq fun i => ?_
  rw [Nat.testBit_and, testBit_mask_iff, testBit_mask_iff]
  by_cases hp : ∃ p ∈ proofs, p.ordinal = i
  · obtain ⟨p, hp, rfl⟩ := hp
    have hheld : ∃ q ∈ held, q.ordinal = p.ordinal := ⟨p, h hp, rfl⟩
    rw [decide_eq_true hheld, Bool.true_and]
  · rw [decide_eq_false hp, Bool.and_false]

/-! ## Receipts -/

/-- The receipt `r` justifies the recorded step: it is the stored record the step refers to, it was
produced by the action of that very step and attempt, it is bound to the run in every respect, it
has not been spent, and for a success it is live and young enough. -/
structure Receipt (c : Completing) (recorded : StoredStep) (current : Step) (r : StoredEvidence) :
    Prop where
  stored : c.load r.id = .ok (some r)
  reference : recorded.evidence = some r.id
  proof : current.action.proof recorded.signal = some r.proof
  step : r.step = current.id
  attempt : r.attempt = recorded.attempt
  action : r.action = current.action
  account : r.account = c.run.account ∧ r.accountEpoch = c.run.accountEpoch
  session : r.session = c.run.session ∧ (r.proof.binding.session = true → r.session ≠ none)
  request : r.request = c.run.request
  run : r.run = c.run.id
  binding : r.binding = c.run.binding
  unconsumed : r.consumed = false
  verified : c.run.startedAt ≤ r.verifiedAt ∧ r.verifiedAt ≤ c.now
  live : c.target.outcome.isSuccess = true →
    c.now < r.expiresAt ∧ ∀ age ∈ c.target.maxProofAgeSeconds, c.now - r.verifiedAt ≤ age

/-- A step with a receipt, and its receipt. -/
def Justifies (v : Validated) (c : Completing) (recorded : StoredStep) (r : StoredEvidence) : Prop :=
  ∃ step, v.step recorded.step = some step ∧ Receipt c recorded step r

/-- The recorded steps that refer to a receipt. -/
def proving (steps : List StoredStep) : List StoredStep := steps.filter (·.evidence.isSome)

variable {c : Completing} {recorded : StoredStep} {step : Step} {u : Unit} {s s' : Replay}
  {t : Terminal}

theorem checkEvidence_ok {proof : Proof} {reference : Text} {r : StoredEvidence}
    (hload : c.load reference = .ok (some r)) (href : recorded.evidence = some reference)
    (hproof : step.action.proof recorded.signal = some proof)
    (h : checkEvidence c.run recorded step proof reference r c.now c.freshness = .ok u) :
    r.id = reference ∧ r.proof = proof ∧ Receipt c recorded step r := by
  unfold checkEvidence at h
  obtain ⟨hwho, h1⟩ := seq_ok.mp h
  obtain ⟨-, h2⟩ := seq_ok.mp h1
  obtain ⟨hbound, h3⟩ := seq_ok.mp h2
  obtain ⟨hspent, hlast⟩ := seq_ok.mp h3
  obtain ⟨rfl, rfl, hstep, hattempt, haction⟩ := require_ok.mp hwho
  obtain ⟨haccount, hepoch, hsession, hrequest, hrun, hbinding, hneeds⟩ := require_ok.mp hbound
  obtain ⟨hstarted, hnow, -, hfresh⟩ := require_ok.mp hlast
  refine ⟨rfl, rfl, ⟨hload, href, hproof, hstep, hattempt, haction, ⟨haccount, hepoch⟩,
    ⟨hsession, fun hb hnone => hneeds ⟨hb, hsession ▸ hnone⟩⟩, hrequest, hrun, hbinding,
    require_ok.mp hspent, ⟨hstarted, hnow⟩, fun hsuccess => ?_⟩⟩
  refine hfresh c.target.maxProofAgeSeconds ?_
  unfold Completing.freshness
  rw [if_pos hsuccess]
  rfl

/-! ## The replay loop -/

/-- The loop invariant: the steps replayed so far are a path, each proof among them has its own
receipt, and the proofs held are those of the receipts. -/
structure Replayed (v : Validated) (c : Completing) (steps : List StoredStep) (node : Target)
    (s : Replay) : Prop where
  path : Path v (· = c.facts) steps node s.held
  receipts : List.Forall₂ (Justifies v c) (proving steps) s.evidence
  seen : ∀ r ∈ s.evidence, r.id ∈ s.seen
  distinct : (s.evidence.map StoredEvidence.id).Nodup
  held : ∀ p ∈ s.held, ∃ r ∈ s.evidence, r.proof = p

/-- What a recorded step adds to the proofs and receipts. -/
theorem gather_ok {v : Validated} {path : String} {current : Step} {steps : List StoredStep}
    {node : Target} (hr : Replayed v c steps node s) (hstep : v.step recorded.step = some current)
    (h : c.gather path recorded current s = .ok s') :
    s'.held = s.held ∪ (current.action.proof recorded.signal).toFinset ∧ s'.next = s.next ∧
      List.Forall₂ (Justifies v c) (proving (steps ++ [recorded])) s'.evidence ∧
      (∀ r ∈ s'.evidence, r.id ∈ s'.seen) ∧ (s'.evidence.map StoredEvidence.id).Nodup ∧
      ∀ p ∈ s'.held, ∃ r ∈ s'.evidence, r.proof = p := by
  unfold Completing.gather at h
  split at h
  · rename_i proof reference hproof href
    unfold Completing.count at h
    obtain ⟨hnew, h⟩ := seq_ok.mp h
    obtain ⟨loaded, hload, h⟩ := bind_ok.mp h
    cases loaded with
    | none => cases h
    | some r =>
      obtain ⟨hcheck, h⟩ := seq_ok.mp h
      obtain ⟨-, h⟩ := seq_ok.mp h
      obtain ⟨hid, hkind, hreceipt⟩ := checkEvidence_ok hload href hproof hcheck
      cases h
      have hfresh : reference ∉ s.seen := (require_ok.mp hnew).2
      refine ⟨?_, rfl, ?_, ?_, ?_, ?_⟩
      · rw [hproof, Option.toFinset_some, Finset.union_comm, Finset.singleton_union]
      · unfold proving
        rw [List.filter_append, List.filter_cons_of_pos (by rw [href]; rfl)]
        exact List.rel_append hr.receipts (.cons ⟨current, hstep, hreceipt⟩ .nil)
      · intro r' hr'
        rcases List.mem_append.mp hr' with hr' | hr'
        · exact List.mem_cons_of_mem _ (hr.seen r' hr')
        · rw [List.mem_singleton.mp hr', hid]
          exact List.mem_cons_self
      · rw [List.map_append, List.map_singleton, hid]
        refine List.nodup_append.mpr ⟨hr.distinct, List.nodup_singleton _, ?_⟩
        intro id hmem id' hmem' heq
        obtain ⟨r', hr', rfl⟩ := List.mem_map.mp hmem
        rw [List.mem_singleton.mp hmem'] at heq
        exact hfresh (heq ▸ hr.seen r' hr')
      · intro p hp
        rcases Finset.mem_insert.mp hp with rfl | hp
        · exact ⟨r, List.mem_append_right _ List.mem_cons_self, hkind⟩
        · obtain ⟨r', hr', hp⟩ := hr.held p hp
          exact ⟨r', List.mem_append_left _ hr', hp⟩
  · cases h
  · cases h
  · rename_i hproof href
    cases h
    refine ⟨?_, rfl, ?_, hr.seen, hr.distinct, hr.held⟩
    · rw [hproof, Option.toFinset_none, Finset.union_empty]
    · unfold proving
      rw [List.filter_append, List.filter_cons_of_neg (by rw [href]; decide), List.filter_nil,
        List.append_nil]
      exact hr.receipts

theorem Validated.step_self {v : Validated} {id : Id} (h : v.step id = some step) :
    step.id = id ∧ v.step step.id = some step := by
  have hfound := List.find?_some h
  have hid : step.id = id := of_decide_eq_true hfound
  exact ⟨hid, hid ▸ h⟩

/-- A terminal that a transition leads to is the first one of its identifier. -/
theorem Validated.target_cases {v : Validated} {id : Id} {target : Target}
    (h : v.target id = some target) :
    match target with
    | .step step => v.step step.id = some step
    | .terminal t => v.definition.terminals.find? (fun t' => t'.id = t.id) = some t := by
  unfold Validated.target at h
  split at h
  · rename_i step hstep
    cases h
    exact (Validated.step_self hstep).2
  · obtain ⟨t, ht, rfl⟩ := Option.map_eq_some_iff.mp h
    have hfound := List.find?_some ht
    have hid : t.id = id := of_decide_eq_true hfound
    show v.definition.terminals.find? (fun t' => t'.id = t.id) = some t
    rw [hid]
    exact ht

theorem Validated.resolve_target {v : Validated} {step : Id} {signal : Label} {facts : Facts}
    {target : Target} (h : v.resolve step signal facts = .ok target) :
    ∃ id, v.target id = some target := by
  unfold Validated.resolve at h
  split at h
  · cases h
  · dsimp only at h
    split at h
    · cases h
    · split at h
      · rename_i target' htarget
        cases h
        exact ⟨_, htarget⟩
      · cases h

theorem Path.step_eq {v : Validated} {ok : TrustedFacts → Prop} {steps : List StoredStep}
    {held : Finset Proof} (h : Path v ok steps (.step step) held) : v.step step.id = some step := by
  cases h with
  | start hentry => exact (Validated.step_self hentry).2
  | next _ _ _ _ _ _ hresolve =>
    obtain ⟨id, hid⟩ := Validated.resolve_target hresolve
    exact Validated.target_cases hid

theorem Path.terminal_eq {v : Validated} {ok : TrustedFacts → Prop} {steps : List StoredStep}
    {held : Finset Proof} (h : Path v ok steps (.terminal t) held) :
    v.definition.terminals.find? (fun t' => t'.id = t.id) = some t := by
  cases h with
  | next _ _ _ _ _ _ hresolve =>
    obtain ⟨id, hid⟩ := Validated.resolve_target hresolve
    exact Validated.target_cases hid

/-- Where the loop is after the steps `steps` of the run. -/
def Reached (c : Completing) (steps : List StoredStep) (s : Replay) : Target → Prop
  | .step step => s.next = step.id ∧ steps.length < c.run.steps.length
  | .terminal t => steps.length = c.run.steps.length ∧ t.id = c.target.id

/-- One step of the loop. -/
theorem replayStep_ok {v : Validated} {steps : List StoredStep}
    (hr : Replayed v c steps (.step step) s) (hnext : s.next = step.id)
    (h : v.replayStep c steps.length recorded s = .ok s') :
    ∃ node, Replayed v c (steps ++ [recorded]) node s' ∧
      Reached c (steps ++ [recorded]) s' node := by
  unfold Validated.replayStep at h
  obtain ⟨hstep, h1⟩ := seq_ok.mp h
  have hid : recorded.step = step.id := (require_ok.mp hstep).trans hnext
  rw [hid, hr.path.step_eq] at h1
  obtain ⟨hattempt, h2⟩ := seq_ok.mp h1
  obtain ⟨hsignal, h3⟩ := seq_ok.mp h2
  obtain ⟨gathered, hgather, h4⟩ := bind_ok.mp h3
  obtain ⟨target, hresolve, h5⟩ := bind_ok.mp h4
  obtain ⟨hheld, hkeep, hreceipts, hseen, hdistinct, hproofs⟩ :=
    gather_ok hr (hid ▸ hr.path.step_eq) hgather
  obtain ⟨hlow, hhigh⟩ := require_ok.mp hattempt
  rw [hheld] at hresolve
  have hpath : Path v (· = c.facts) (steps ++ [recorded]) target gathered.held := by
    rw [hheld]
    exact hr.path.next hid (Nat.one_le_iff_ne_zero.mpr hlow) hhigh (require_ok.mp hsignal) rfl
      hresolve
  refine ⟨target, ?_⟩
  cases target with
  | step next =>
    obtain ⟨hmore, h6⟩ := seq_ok.mp h5
    cases h6
    refine ⟨⟨hpath, hreceipts, hseen, hdistinct, hproofs⟩, rfl, ?_⟩
    rw [List.length_append, List.length_singleton]
    exact require_ok.mp hmore
  | terminal reached =>
    obtain ⟨hlast, h6⟩ := seq_ok.mp h5
    cases h6
    refine ⟨⟨hpath, hreceipts, hseen, hdistinct, hproofs⟩, ?_⟩
    obtain ⟨hlength, hreached⟩ := require_ok.mp hlast
    refine ⟨?_, hreached⟩
    rw [List.length_append, List.length_singleton]
    exact hlength

/-- The rest of the loop ends at the terminal. -/
theorem replayFrom_ok {v : Validated} {rest steps : List StoredStep}
    (hr : Replayed v c steps (.step step) s) (hnext : s.next = step.id)
    (hsteps : steps ++ rest = c.run.steps) (hne : rest ≠ [])
    (h : v.replayFrom c steps.length rest s = .ok s') :
    ∃ t, Replayed v c c.run.steps (.terminal t) s' ∧ t.id = c.target.id := by
  induction rest generalizing steps step s with
  | nil => exact absurd rfl hne
  | cons recorded rest ih =>
    obtain ⟨mid, hmid, hrest⟩ := bind_ok.mp h
    obtain ⟨node, hr', hreached⟩ := replayStep_ok hr hnext hmid
    have hsteps' : steps ++ [recorded] ++ rest = c.run.steps := by
      rw [List.append_assoc]
      exact hsteps
    have hlen : (steps ++ [recorded]).length = steps.length + 1 := by simp
    rw [← hlen] at hrest
    cases node with
    | step next =>
      refine ih hr' hreached.1 hsteps' ?_ hrest
      rintro rfl
      rw [List.append_nil] at hsteps'
      exact absurd hreached.2 (hsteps' ▸ lt_irrefl _)
    | terminal t =>
      have hnil : rest = [] := by
        have hlength := congrArg List.length hsteps'
        rw [List.length_append, hreached.1] at hlength
        exact List.length_eq_zero_iff.mp (Nat.add_eq_left.mp hlength)
      subst hnil
      cases hrest
      rw [List.append_nil] at hsteps'
      exact ⟨t, hsteps' ▸ hr', hreached.2⟩

/-- The entry is a step, so the loop starts well. -/
theorem Validated.entry_exists (v : Validated) : ∃ entry, v.entry = some entry := by
  obtain ⟨env, hcheck⟩ := v.checked
  obtain ⟨edges, entry, order, hc⟩ := check_checked hcheck
  obtain ⟨step, hentry, -⟩ := entry_at hc
  exact ⟨step, hentry⟩

/-- **What the replay accepts is a path to the terminal**, each proof of which has its receipt. -/
theorem replay_ok {v : Validated} (hne : c.run.steps ≠ [])
    (htarget : v.definition.terminals.find? (fun t => t.id = c.target.id) = some c.target)
    (h : v.replay c = .ok s) : Replayed v c c.run.steps (.terminal c.target) s := by
  obtain ⟨entry, hentry⟩ := v.entry_exists
  have hstart : Replayed v c [] (.step entry)
      ⟨v.definition.entry, ∅, [], [], c.run.startedAt⟩ :=
    ⟨.start hentry, .nil, fun _ h => (nomatch h), .nil, fun p hp => absurd hp (Finset.notMem_empty p)⟩
  obtain ⟨t, hr, hid⟩ := replayFrom_ok hstart (Validated.step_self hentry).1.symm rfl hne h
  have hfind := hr.path.terminal_eq
  rw [hid, htarget] at hfind
  exact Option.some.inj hfind ▸ hr

/-! ## What a completion rests on -/

/-- Validation has already checked what a path to a terminal is asked for. -/
theorem Path.guarantees {v : Validated} {ok : TrustedFacts → Prop} {steps : List StoredStep}
    {held : Finset Proof} (h : Path v ok steps (.terminal t) held) :
    executionsOf steps ≤ v.definition.limits.maxExecutions ∧
      (t.outcome.isSuccess = true →
        floor t.outcome (mask (Proof.listed held)) = true ∧
          required t (mask (Proof.listed held)) = true) := by
  obtain ⟨env, hcheck⟩ := v.checked
  obtain ⟨edges, entry, order, hc⟩ := check_checked hcheck
  obtain ⟨trace, proofs, hruns, -, hheld⟩ := h.runs
  refine ⟨(Nat.mod_le _ _).trans h.attempts_le, fun hsuccess => ?_⟩
  have hmask : mask (Proof.listed held) = mask proofs :=
    mask_congr fun p => mem_listed.trans (hheld p)
  obtain ⟨-, hfloor, hrequires⟩ := (hruns.sound hc).terminal t rfl hsuccess
  rw [hmask]
  refine ⟨hfloor, ?_⟩
  unfold required
  by_cases hne : t.requires = []
  · rw [hne]
    rfl
  · obtain ⟨a, ha, hsub⟩ := hrequires hne
    rw [Bool.or_eq_true]
    exact .inr (List.any_eq_true.mpr ⟨a, ha, beq_iff_eq.mpr (mask_and_of_subset hsub)⟩)

/-- What a success rests on: the recorded steps are a path from the entry to the terminal, each
proof among them has a receipt of its own, and the proofs of the receipts satisfy the terminal for
this account and request. -/
structure Justified (v : Validated) (c : Completing) (receipts : List StoredEvidence)
    (held : Finset Proof) : Prop where
  pinned : c.run.binding = v.binding
  known : c.facts.account = c.run.account ∧ c.facts.accountEpoch = c.run.accountEpoch ∧
    c.facts.request = c.run.request
  path : Path v (· = c.facts) c.run.steps (.terminal c.target) held
  covered : List.Forall₂ (Justifies v c) (proving c.run.steps) receipts
  distinct : (receipts.map StoredEvidence.id).Nodup
  proofs : ∀ p ∈ held, ∃ r ∈ receipts, r.proof = p
  least : floor c.target.outcome (mask (Proof.listed held)) = true
  alternative : c.target.requires ≠ [] → ∃ a ∈ c.target.requires, ∀ p ∈ a, p ∈ held
  second : factors c.target.outcome (mask (Proof.listed held)) (pathFacts c.facts held) = true

/-- The completion of `run` at `target`, as the store has it. -/
def Completing.of {σ : Type} (store : CompletionStore σ) (s : σ) (run : StoredRun)
    (facts : TrustedFacts) (target : Terminal) : Completing :=
  ⟨run, facts, target, store.now s, store.loadEvidence s⟩

theorem checkActive_ok {v : Validated} {run : StoredRun} (h : v.checkActive run = .ok u) :
    run.steps ≠ [] ∧ run.state.isFinal = false := by
  unfold Validated.checkActive at h
  split at h
  · rename_i hstate
    split at h
    · cases h
    · rename_i last hlast
      refine ⟨?_, hstate ▸ rfl⟩
      rintro hnil
      rw [hnil] at hlast
      cases hlast
  · cases h

theorem alternative_of_required {held : Finset Proof}
    (h : required t (mask (Proof.listed held)) = true) (hne : t.requires ≠ []) :
    ∃ a ∈ t.requires, ∀ p ∈ a, p ∈ held := by
  unfold required at h
  rw [List.isEmpty_eq_false_iff.mpr hne, Bool.false_or, List.any_eq_true] at h
  obtain ⟨a, ha, hmask⟩ := h
  exact ⟨a, ha, fun p hp => mem_listed.mp (subset_of_mask_and (beq_iff_eq.mp hmask) hp)⟩

theorem completionRules_ok {target : Terminal} {held : List Proof} {facts : Facts}
    (hsuccess : target.outcome.isSuccess = true) (h : completionRules target held facts = .ok u) :
    floor target.outcome (mask held) = true ∧ required target (mask held) = true ∧
      factors target.outcome (mask held) facts = true := by
  unfold completionRules at h
  rw [if_pos hsuccess] at h
  exact require_ok.mp h

/-- Everything a completion went through. -/
theorem complete_ok {σ : Type} {v : Validated} {store : CompletionStore σ} {runId : Text}
    {terminalId : Id} {s s' : σ} {outcome : Outcome}
    (h : v.complete store runId terminalId s = .ok (outcome, s')) :
    ∃ (run : StoredRun) (facts : TrustedFacts) (target : Terminal) (replayed : Replay),
      store.loadRun s runId = .ok (some run) ∧
      v.checkRun runId run = .ok () ∧ v.checkActive run = .ok () ∧
      v.definition.terminals.find? (fun t => t.id = terminalId) = some target ∧
      store.loadFacts s run = .ok facts ∧
      (facts.account = run.account ∧ facts.accountEpoch = run.accountEpoch ∧
        facts.request = run.request) ∧
      v.replay (.of store s run facts target) = .ok replayed ∧
      completionRules target (Proof.listed replayed.held) (pathFacts facts replayed.held) = .ok () ∧
      store.finish s run facts target replayed.evidence = .ok s' ∧ outcome = target.outcome := by
  unfold Validated.complete at h
  obtain ⟨loaded, hload, h1⟩ := bind_ok.mp h
  cases loaded with
  | none => cases h1
  | some run =>
    obtain ⟨hrun, h2⟩ := seq_ok.mp h1
    obtain ⟨hactive, h3⟩ := seq_ok.mp h2
    obtain ⟨-, h4⟩ := seq_ok.mp h3
    obtain ⟨-, h5⟩ := seq_ok.mp h4
    split at h5
    · cases h5
    · rename_i target htarget
      obtain ⟨-, h6⟩ := seq_ok.mp h5
      obtain ⟨facts, hfacts, h7⟩ := bind_ok.mp h6
      obtain ⟨hknown, h8⟩ := seq_ok.mp h7
      obtain ⟨replayed, hreplay, h9⟩ := bind_ok.mp h8
      obtain ⟨hrules, h10⟩ := seq_ok.mp h9
      obtain ⟨final, hfinish, h11⟩ := bind_ok.mp h10
      cases h11
      exact ⟨run, facts, target, replayed, hload, hrun, hactive, htarget, hfacts,
        require_ok.mp hknown, hreplay, hrules, hfinish, rfl⟩

/-- **A completed run is justified by evidence.** A success rests on a path of the definition with a
receipt for each proof; and conversely, of a path the replay accepts the execution bound, the floor
and the alternatives of the terminal hold already, by validation. -/
theorem complete_justified (v : Validated) :
    (∀ (σ : Type) (store : CompletionStore σ) (runId : Text) (terminalId : Id) (s s' : σ)
        (outcome : Outcome), v.complete store runId terminalId s = .ok (outcome, s') →
        outcome.isSuccess = true →
        ∃ (run : StoredRun) (facts : TrustedFacts) (target : Terminal)
            (receipts : List StoredEvidence) (held : Finset Proof),
          store.loadRun s runId = .ok (some run) ∧ run.id = runId ∧
          run.state.isFinal = false ∧ store.loadFacts s run = .ok facts ∧
          target.id = terminalId ∧ target.outcome = outcome ∧
          Justified v (.of store s run facts target) receipts held) ∧
    ∀ (c : Completing) (s : Replay), c.run.steps ≠ [] →
      v.definition.terminals.find? (fun t => t.id = c.target.id) = some c.target →
      v.replay c = .ok s →
      executionsOf c.run.steps ≤ v.definition.limits.maxExecutions ∧
        (c.target.outcome.isSuccess = true →
          floor c.target.outcome (mask (Proof.listed s.held)) = true ∧
            required c.target (mask (Proof.listed s.held)) = true) := by
  refine ⟨?_, fun c s hne htarget h => (replay_ok hne htarget h).path.guarantees⟩
  intro σ store runId terminalId s s' outcome h hsuccess
  obtain ⟨run, facts, target, replayed, hload, hrun, hactive, htarget, hfacts, hknown, hreplay,
    hrules, -, rfl⟩ := complete_ok h
  have hfound := List.find?_some htarget
  have hid : target.id = terminalId := of_decide_eq_true hfound
  obtain ⟨hsteps, hopen⟩ := checkActive_ok hactive
  have hr := replay_ok hsteps (hid ▸ htarget) hreplay
  obtain ⟨hrunId, -, -, -, -, hbinding⟩ := require_ok.mp hrun
  obtain ⟨hfloor, hrequired, hfactors⟩ := completionRules_ok hsuccess hrules
  exact ⟨run, facts, target, replayed.evidence, replayed.held, hload, hrunId, hopen, hfacts, hid, rfl,
    hbinding, hknown, hr.path, hr.receipts, hr.distinct, hr.held, hfloor,
    alternative_of_required hrequired, hfactors⟩

/-! ## A password sign-in -/

/-- A run that has recorded its verified password. -/
def passwordRun : StoredRun where
  id := ['r']
  account := ['u']
  accountEpoch := 1
  session := none
  request := ['q']
  binding := passwordSignIn.binding
  startedAt := 100
  state := .active Essentials.password 1
  steps := [⟨Essentials.password, 1, .verified, some ['e']⟩]

def passwordReceipt : StoredEvidence where
  id := ['e']
  proof := .password
  step := Essentials.password
  attempt := 1
  action := .verifyPassword
  account := ['u']
  accountEpoch := 1
  session := none
  request := ['q']
  run := ['r']
  binding := passwordSignIn.binding
  verifiedAt := 110
  expiresAt := 230
  consumed := false
  source := none

/-- A store that holds that run and its receipt; finishing only counts. -/
def passwordStore : CompletionStore ℕ where
  now _ := 120
  loadRun _ id := .ok (if id = ['r'] then some passwordRun else none)
  loadEvidence _ id := .ok (if id = ['e'] then some passwordReceipt else none)
  loadFacts _ _ := .ok ⟨['u'], 1, ['q'], {.password}, false⟩
  authorizesMutation _ _ _ := false
  finish n _ _ _ _ := .ok (n + 1)

/-- What its replay is measured against. -/
def passwordCompleting : Completing :=
  .of passwordStore 0 passwordRun ⟨['u'], 1, ['q'], {.password}, false⟩
    (Essentials.success .authenticated none)

/-- The password sign-in completes, so it is justified; and its replay is accepted, so its proofs
meet the floor. -/
theorem complete_justified_password :
    passwordSignIn.complete passwordStore ['r'] (Id.of "success") 0 = .ok (.authenticated, 1) ∧
      (∃ facts target receipts held,
        Justified passwordSignIn (.of passwordStore 0 passwordRun facts target) receipts held) ∧
      ∃ s, passwordSignIn.replay passwordCompleting = .ok s ∧
        floor .authenticated (mask (Proof.listed s.held)) = true := by
  have h : passwordSignIn.complete passwordStore ['r'] (Id.of "success") 0 =
      .ok (.authenticated, 1) := by decide
  refine ⟨h, ?_, ?_⟩
  · obtain ⟨run, facts, target, receipts, held, hload, -, -, -, -, -, hj⟩ :=
      (complete_justified passwordSignIn).1 ℕ passwordStore ['r'] (Id.of "success") 0 1
        .authenticated h rfl
    cases hload
    exact ⟨facts, target, receipts, held, hj⟩
  · have hsome : (passwordSignIn.replay passwordCompleting).toOption.isSome = true := by
      decide
    cases hs : passwordSignIn.replay passwordCompleting with
    | error e =>
      rw [hs] at hsome
      cases hsome
    | ok s =>
      exact ⟨s, rfl, (((complete_justified passwordSignIn).2 passwordCompleting s (by decide)
        (by decide) hs).2 rfl).1⟩

end RiAuth.Workflow
