import RiAuth.Workflow.Graph

/-!
# Validation is sound for execution

A run starts at the entry with no proofs. At each step it emits one of the step's signals, follows
it under whatever facts hold at that moment, and adds the proof the signal yields. The validator
never sees a run: it propagates sets of proofs and numbers of executions along a topological order
of the graph, ignoring conditions. The two passes cover every run (`visitHeld_push`,
`visitExecutions_push` and the rule `TopoSort.Topo.walk`), so what they checked holds of every run.

* `Runs`: the runs of a validated definition;
* `Runs.arrival`: the node a run is at was checked with the very proofs the run holds;
* `Runs.executions_le`: the attempts of a run are within the limit;
* `validate_sound`: the guarantees of validation, for every run;
* `follow_terminates`: every way of running ends at a terminal.
-/

namespace RiAuth.Workflow

open Checks

/-! ## Runs -/

/-- `Runs v trace node held`: a run that has left the steps of `trace`, in order, is now at `node`
and holds the proofs `held`. -/
inductive Runs (v : Validated) : List Step → Target → List Proof → Prop
  | start {entry : Step} : v.entry = some entry → Runs v [] (.step entry) []
  | next {trace : List Step} {step : Step} {held : List Proof} {signal : Label} {facts : Facts}
      {target : Target} :
    Runs v trace (.step step) held → signal ∈ step.action.signals →
    v.resolve step.id signal facts = .ok target →
    Runs v (trace ++ [step]) target (held ++ (step.action.proof signal).toList)

/-- The steps a run has entered. -/
def visited (trace : List Step) : Target → List Step
  | .step step => trace ++ [step]
  | .terminal _ => trace

/-- What a run carries along an edge: its proofs and the attempts of the steps it left. -/
def Follows (d : Definition) (edges : Edges) (u : ℕ) (s : List Proof × ℕ) (w : ℕ)
    (s' : List Proof × ℕ) : Prop :=
  ∃ step signal, d.steps[u]? = some step ∧ (signal, w) ∈ outgoing edges u ∧
    s' = (s.1 ++ (step.action.proof signal).toList, s.2 + step.maxAttempts)

/-! ## One node of each pass -/

section Held

private theorem insert_all (gain : ℕ) (arriving : List ℕ) (held : Arrivals) (w : ℕ) :
    (∀ u k, (held u).get? k = some () →
      (arriving.foldl (fun held proofs =>
        Function.update held w ((held w).insert (proofs ||| gain) ())) held u).get? k = some ()) ∧
    ∀ proofs ∈ arriving,
      (arriving.foldl (fun held proofs =>
        Function.update held w ((held w).insert (proofs ||| gain) ())) held w).get?
          (proofs ||| gain) = some () := by
  induction arriving generalizing held with
  | nil => exact ⟨fun _ _ h => h, fun _ h => (nomatch h)⟩
  | cons p arriving ih =>
    obtain ⟨hkeep, hnew⟩ := ih (Function.update held w ((held w).insert (p ||| gain) ()))
    refine ⟨fun u k h => hkeep u k ?_, List.forall_mem_cons.mpr ⟨hkeep w _ (by simp), hnew⟩⟩
    by_cases hu : u = w
    · subst hu
      rw [Function.update_self, OrdMap.get?_insert]
      split
      · rfl
      · exact h
    · rw [Function.update_of_ne hu]
      exact h

theorem push_keep (action : Action) (arriving : List ℕ) {held : Arrivals} (e : Label × ℕ) {u k : ℕ}
    (h : (held u).get? k = some ()) : (push action arriving held e u).get? k = some () :=
  (insert_all (gained action e.1) arriving held e.2).1 u k h

theorem push_mem (action : Action) {arriving : List ℕ} (held : Arrivals) (e : Label × ℕ)
    {proofs : ℕ} (h : proofs ∈ arriving) :
    (push action arriving held e e.2).get? (proofs ||| gained action e.1) = some () :=
  (insert_all (gained action e.1) arriving held e.2).2 proofs h

private theorem pushAll_keep (action : Action) (arriving : List ℕ) (row : List (Label × ℕ))
    {held : Arrivals} {u k : ℕ} (h : (held u).get? k = some ()) :
    (row.foldl (push action arriving) held u).get? k = some () := by
  induction row generalizing held with
  | nil => exact h
  | cons e row ih => exact ih (push_keep action arriving e h)

private theorem pushAll_mem (action : Action) {arriving : List ℕ} {row : List (Label × ℕ)}
    (held : Arrivals) {e : Label × ℕ} (he : e ∈ row) {proofs : ℕ} (h : proofs ∈ arriving) :
    (row.foldl (push action arriving) held e.2).get? (proofs ||| gained action e.1) =
      some () := by
  induction row generalizing held with
  | nil => cases he
  | cons e' row ih =>
    rcases List.mem_cons.mp he with rfl | he
    · exact pushAll_keep action arriving row (push_mem action held e h)
    · exact ih (push action arriving held e') he

variable {d : Definition} {edges : Edges}

/-- The table knows that a run can arrive at the node with these proofs. -/
def Covered (held : Arrivals) (node : ℕ) (s : List Proof × ℕ) : Prop :=
  (held node).get? (mask s.1) = some ()

/-- Visiting a node keeps what is known about the others. -/
theorem visitHeld_keep (held : Arrivals) (u w : ℕ) (s : List Proof × ℕ) (hne : u ≠ w)
    (h : Covered held w s) : Covered (visitHeld d edges held u) w s := by
  have hcleared : Covered (Function.update held u .empty) w s := by
    unfold Covered
    rw [Function.update_of_ne (Ne.symm hne)]
    exact h
  unfold visitHeld
  dsimp only
  split
  · exact hcleared
  · exact pushAll_keep _ _ _ hcleared

/-- Visiting a node hands every arrival, with what the signal adds, to the end of the edge. -/
theorem visitHeld_push (held : Arrivals) (u : ℕ) (s : List Proof × ℕ) (w : ℕ)
    (s' : List Proof × ℕ) (h : Covered held u s) (hnext : Follows d edges u s w s') :
    Covered (visitHeld d edges held u) w s' := by
  obtain ⟨step, signal, hstep, hedge, rfl⟩ := hnext
  unfold visitHeld
  dsimp only
  rw [hstep]
  have harrives : mask s.1 ∈ (held u).entries.map Prod.fst :=
    List.mem_map.mpr ⟨(mask s.1, ()), OrdMap.mem_entries_iff.mpr h, rfl⟩
  unfold Covered
  rw [mask_append_gained]
  exact pushAll_mem step.action _ hedge harrives

theorem arrivals_covered (entry : ℕ) : Covered (arrivals entry) entry ([], 0) := by
  unfold Covered arrivals
  rw [Function.update_self, OrdMap.get?_insert]
  rfl

end Held

section Executions

variable {d : Definition} {edges : Edges}

private theorem raise_all (total : ℕ) (row : List (Label × ℕ)) (table : ℕ → ℕ) :
    (∀ u, table u ≤ row.foldl
      (fun table e => Function.update table e.2 (max (table e.2) total)) table u) ∧
    ∀ e ∈ row, total ≤ row.foldl
      (fun table e => Function.update table e.2 (max (table e.2) total)) table e.2 := by
  induction row generalizing table with
  | nil => exact ⟨fun _ => le_rfl, fun _ h => (nomatch h)⟩
  | cons e row ih =>
    obtain ⟨hkeep, hnew⟩ := ih (Function.update table e.2 (max (table e.2) total))
    refine ⟨fun u => le_trans ?_ (hkeep u), List.forall_mem_cons.mpr ⟨le_trans ?_ (hkeep e.2), hnew⟩⟩
    · by_cases hu : u = e.2
      · rw [hu, Function.update_self]
        exact le_max_left _ _
      · rw [Function.update_of_ne hu]
    · rw [Function.update_self]
      exact le_max_right _ _

theorem visitExecutions_mono (table : ℕ → ℕ) (u w : ℕ) :
    table w ≤ visitExecutions d edges table u w := by
  unfold visitExecutions
  cases d.steps[u]? with
  | none => exact le_rfl
  | some step => exact (raise_all _ _ table).1 w

/-- The table allows for the attempts of the steps a run has left. -/
def Weighed (table : ℕ → ℕ) (node : ℕ) (s : List Proof × ℕ) : Prop := s.2 ≤ table node

/-- Visiting a step accounts for its attempts at the end of each of its edges. -/
theorem visitExecutions_push (table : ℕ → ℕ) (u : ℕ) (s : List Proof × ℕ) (w : ℕ)
    (s' : List Proof × ℕ) (h : Weighed table u s) (hnext : Follows d edges u s w s') :
    Weighed (visitExecutions d edges table u) w s' := by
  obtain ⟨step, signal, hstep, hedge, rfl⟩ := hnext
  unfold Weighed visitExecutions
  rw [hstep]
  exact (Nat.add_le_add_right h _).trans ((raise_all _ _ table).2 (signal, w) hedge)

theorem foldl_visitExecutions_mono (l : List ℕ) (table : ℕ → ℕ) (w : ℕ) :
    table w ≤ l.foldl (visitExecutions d edges) table w := by
  induction l generalizing table with
  | nil => exact le_rfl
  | cons u l ih => exact (visitExecutions_mono table u w).trans (ih _)

end Executions

/-! ## Every run is covered -/

section Runs

variable {v : Validated} {edges : Edges} {entry : ℕ} {order : List ℕ}

theorem Follows.succ {d : Definition} (u : ℕ) (s : List Proof × ℕ) (w : ℕ) (s' : List Proof × ℕ)
    (h : Follows d edges u s w s') : w ∈ successors edges u := by
  obtain ⟨step, signal, -, hedge, -⟩ := h
  exact List.mem_map.mpr ⟨(signal, w), hedge, rfl⟩

theorem entry_at (hc : Checked v.definition edges entry order) :
    ∃ step, v.entry = some step ∧ At v.definition entry (.step step) := by
  obtain ⟨target, htarget, hat⟩ := at_of_index hc.entry_index
  cases target with
  | step step =>
    refine ⟨step, ?_, hat⟩
    have hid : step.id = v.definition.entry := by
      obtain ⟨target', hnode, -, hid⟩ := target_of_index hc.entry_index
      rw [hat.2] at hnode
      cases hnode
      exact hid
    unfold Validated.entry
    rw [← hid]
    exact hat.step_eq
  | terminal t =>
    have hnone := hat.terminals.1
    rw [List.getElem?_eq_none_iff] at hnone
    exact absurd hc.entry_step (not_lt.mpr hnone)

variable {trace : List Step} {node : Target} {held : List Proof}

/-- A run is a walk through the graph. -/
theorem Runs.walk (hc : Checked v.definition edges entry order) (h : Runs v trace node held) :
    ∃ i indices, At v.definition i node ∧
      List.Forall₂ (fun step j => At v.definition j (.step step)) trace indices ∧
      TopoSort.Walk (Follows v.definition edges) entry ([], 0) indices i
        (held, (trace.map Step.maxAttempts).sum) := by
  induction h with
  | start hentry =>
    obtain ⟨step, hstep, hat⟩ := entry_at hc
    rw [hstep] at hentry
    cases hentry
    exact ⟨entry, [], hat, .nil, .start⟩
  | next _ _ hresolve ih =>
    obtain ⟨i, indices, hat, htrace, hwalk⟩ := ih
    obtain ⟨j, hedge, hatj⟩ := resolve_cases hc hat hresolve
    refine ⟨j, indices ++ [i], hatj, List.rel_append htrace (.cons hat .nil), ?_⟩
    refine hwalk.step ⟨_, _, hat.steps, hedge, ?_⟩
    simp

/-- **The node a run is at was checked with the very proofs the run holds**, and the run has not
been there before. -/
theorem Runs.arrival (hc : Checked v.definition edges entry order) (h : Runs v trace node held) :
    ∃ i indices, ∃ table : Arrivals, At v.definition i node ∧
      List.Forall₂ (fun step j => At v.definition j (.step step)) trace indices ∧
      (indices ++ [i]).Nodup ∧ Covered table i (held, 0) ∧
      checkNode v.definition edges table i = .ok () := by
  obtain ⟨i, indices, hat, htrace, hwalk⟩ := h.walk hc
  obtain ⟨l₁, l₂, rfl, hsub, hnodup, hcovers⟩ := hc.topo.walk Follows.succ visitHeld_push
    visitHeld_keep hc.entry_mem (arrivals_covered entry) hwalk
  refine ⟨i, indices, _, hat, htrace, ?_, hcovers, pass_ok hc.held⟩
  refine List.nodup_append.mpr ⟨hnodup, List.nodup_singleton i, fun j hj j' hj' => ?_⟩
  rw [List.mem_singleton.mp hj']
  rintro rfl
  exact List.disjoint_of_nodup_append hc.topo.nodup (hsub hj) List.mem_cons_self

/-- The attempts of the steps a run has left are within the executions of the node it is at. -/
theorem Runs.weight_le (hc : Checked v.definition edges entry order) (h : Runs v trace node held) :
    (trace.map Step.maxAttempts).sum ≤ v.definition.limits.maxExecutions := by
  obtain ⟨i, indices, hat, -, hwalk⟩ := h.walk hc
  have hstart : Weighed (fun _ => 0) entry ([], 0) := le_rfl
  have hkeep : ∀ table u w s, u ≠ w → Weighed table w s →
      Weighed (visitExecutions v.definition edges table u) w s :=
    fun table u w s _ hle => hle.trans (visitExecutions_mono table u w)
  obtain ⟨l₁, l₂, rfl, -, -, hle⟩ := hc.topo.walk Follows.succ visitExecutions_push hkeep
    hc.entry_mem hstart hwalk
  have hlast := hc.executions i (index_lt hat.1)
  rw [List.foldl_append] at hlast
  exact hle.trans ((foldl_visitExecutions_mono _ _ i).trans hlast)

/-! ## The guarantees -/

theorem checkNode_step {d : Definition} {table : Arrivals} {i : ℕ} {step : Step} {n : ℕ}
    (hstep : d.steps[i]? = some step) (hcovered : Covered table i (held, n))
    (h : checkNode d edges table i = .ok ()) : unmet step.action (mask held) = none := by
  unfold checkNode at h
  rw [hstep] at h
  have hprecondition := forM_ok.mp (seq_ok.mp h).1 (mask held)
    (List.mem_map.mpr ⟨(mask held, ()), OrdMap.mem_entries_iff.mpr hcovered, rfl⟩)
  unfold checkPrecondition at hprecondition
  cases hunmet : unmet step.action (mask held) with
  | none => rfl
  | some what => rw [hunmet] at hprecondition; cases hprecondition

theorem checkNode_terminal {d : Definition} {table : Arrivals} {i : ℕ} {terminal : Terminal} {n : ℕ}
    (hstep : d.steps[i]? = none) (hterminal : d.terminals[i - d.steps.length]? = some terminal)
    (hcovered : Covered table i (held, n)) (h : checkNode d edges table i = .ok ())
    (hsuccess : terminal.outcome.isSuccess = true) :
    floor terminal.outcome (mask held) = true ∧
      (terminal.requires = [] ∨ ∃ a ∈ terminal.requires, mask held &&& mask a = mask a) := by
  unfold checkNode at h
  rw [hstep] at h
  dsimp only at h
  rw [hterminal] at h
  dsimp only at h
  rw [if_pos hsuccess] at h
  have harrival := forM_ok.mp h (mask held)
    (List.mem_map.mpr ⟨(mask held, ()), OrdMap.mem_entries_iff.mpr hcovered, rfl⟩)
  obtain ⟨hfloor, hrequires⟩ := seq_ok.mp harrival
  exact ⟨require_ok.mp hfloor, require_ok.mp hrequires⟩

theorem signals_ne_nil (action : Action) : action.signals ≠ [] := by
  cases action <;> simp [Action.signals]

theorem sum_le_of_forall₂ {steps : List Step} {attempts : List ℕ}
    (h : List.Forall₂ (fun step a => 1 ≤ a ∧ a ≤ step.maxAttempts) steps attempts) :
    attempts.sum ≤ (steps.map Step.maxAttempts).sum := by
  induction h with
  | nil => exact le_rfl
  | cons ha _ ih =>
    rw [List.sum_cons, List.map_cons, List.sum_cons]
    exact Nat.add_le_add ha.2 ih

/-- What validation guarantees about a run that has left the steps of `trace`, is now at `node` and
holds the proofs `held`. -/
structure Sound (v : Validated) (trace : List Step) (node : Target) (held : List Proof) :
    Prop where
  /-- Whatever attempt each entered step was left at, the attempts are within the limit. -/
  executions : ∀ attempts,
    List.Forall₂ (fun step a => 1 ≤ a ∧ a ≤ step.maxAttempts) (visited trace node) attempts →
    attempts.sum ≤ v.definition.limits.maxExecutions
  /-- No step is entered twice. -/
  fresh : ((visited trace node).map Step.id).Nodup
  /-- The transitions followed so far. -/
  length_le : trace.length ≤ v.definition.steps.length
  /-- At a step the precondition of its action is met, whatever it reports is followed, and the run
  is not at its last transition yet. -/
  step : ∀ step, node = .step step →
    trace.length < v.definition.steps.length ∧ unmet step.action (mask held) = none ∧
      ∀ signal ∈ step.action.signals, ∀ facts, ∃ target,
        v.resolve step.id signal facts = .ok target
  /-- A success is the success of the category, and its proofs are held. -/
  terminal : ∀ terminal, node = .terminal terminal → terminal.outcome.isSuccess = true →
    terminal.outcome = v.definition.category.success ∧
      floor terminal.outcome (mask held) = true ∧
      (terminal.requires ≠ [] → ∃ a ∈ terminal.requires, a ⊆ held)

/-- Steps at different indices have different identifiers, and there are no more of them than the
definition has. -/
theorem fresh_of_indices {d : Definition} {steps : List Step} {indices : List ℕ}
    (h : List.Forall₂ (fun step j => At d j (.step step)) steps indices) (hnodup : indices.Nodup) :
    (steps.map Step.id).Nodup ∧ steps.length ≤ d.steps.length := by
  have hindex : (steps.map Step.id).map d.index = indices.map some := by
    clear hnodup
    induction h with
    | nil => rfl
    | cons hat _ ih => exact congrArg₂ List.cons hat.1 ih
  have hlt : ∀ j ∈ indices, j < d.steps.length := by
    clear hindex hnodup
    induction h with
    | nil => exact fun _ h => (nomatch h)
    | cons hat _ ih =>
      exact List.forall_mem_cons.mpr ⟨(List.getElem?_eq_some_iff.mp hat.steps).1, ih⟩
  refine ⟨List.Nodup.of_map d.index ?_, ?_⟩
  · rw [hindex]
    exact hnodup.map (Option.some_injective ℕ)
  · calc steps.length = indices.length := h.length_eq
      _ ≤ (List.range d.steps.length).length :=
        (List.subperm_of_subset hnodup fun j hj => List.mem_range.mpr (hlt j hj)).length_le
      _ = d.steps.length := List.length_range

theorem Runs.fresh (hc : Checked v.definition edges entry order) (h : Runs v trace node held) :
    ((visited trace node).map Step.id).Nodup ∧
      (visited trace node).length ≤ v.definition.steps.length := by
  obtain ⟨i, indices, table, hat, htrace, hnodup, -, -⟩ := h.arrival hc
  cases node with
  | step step => exact fresh_of_indices (List.rel_append htrace (.cons hat .nil)) hnodup
  | terminal t => exact fresh_of_indices htrace (List.nodup_append.mp hnodup).1

/-- The attempts of all entered steps are within the limit: a step can be left once more. -/
theorem Runs.executions_le (hc : Checked v.definition edges entry order)
    (h : Runs v trace node held) :
    ((visited trace node).map Step.maxAttempts).sum ≤ v.definition.limits.maxExecutions := by
  cases node with
  | terminal t => exact h.weight_le hc
  | step step =>
    obtain ⟨i, -, -, hat, -⟩ := h.arrival hc
    obtain ⟨signal, hsignal⟩ := List.exists_mem_of_ne_nil _ (signals_ne_nil step.action)
    obtain ⟨target, htarget⟩ := resolve_ok hc hat hsignal ⟨fun _ => false, fun _ => false, false⟩
    exact (h.next hsignal htarget).weight_le hc

theorem Runs.sound (hc : Checked v.definition edges entry order) (h : Runs v trace node held) :
    Sound v trace node held := by
  obtain ⟨i, indices, table, hat, htrace, hnodup, hcovered, hnode⟩ := h.arrival hc
  obtain ⟨hfresh, hlength⟩ := h.fresh hc
  refine ⟨fun attempts ha => (sum_le_of_forall₂ ha).trans (h.executions_le hc), hfresh, ?_, ?_, ?_⟩
  · refine le_trans ?_ hlength
    cases node with
    | step step => exact (List.length_append ▸ Nat.le_add_right _ _)
    | terminal t => exact le_rfl
  · rintro step rfl
    refine ⟨?_, checkNode_step hat.steps hcovered hnode,
      fun signal hsignal facts => resolve_ok hc hat hsignal facts⟩
    rw [visited, List.length_append] at hlength
    exact hlength
  · rintro terminal rfl hsuccess
    obtain ⟨hsteps, hterminal⟩ := hat.terminals
    obtain ⟨hfloor, hrequires⟩ := checkNode_terminal hsteps hterminal hcovered hnode hsuccess
    refine ⟨?_, hfloor, fun hne => ?_⟩
    · refine (hc.outcome terminal (List.mem_of_getElem? hterminal)).resolve_left ?_
      rintro hdenied
      rw [hdenied] at hsuccess
      cases hsuccess
    · obtain ⟨a, ha, hmask⟩ := hrequires.resolve_left hne
      exact ⟨a, ha, subset_of_mask_and hmask⟩

end Runs

/-! ## Running to the end -/

/-- Run at most this many transitions. `pick` says what a step reports, given the steps left before
it, and under which facts the report is followed. -/
def Validated.follow (v : Validated) (pick : List Step → Step → Label × Facts) :
    ℕ → List Step → Target → List Proof → Except Invalid (List Step × Target × List Proof)
  | 0, trace, node, held => .ok (trace, node, held)
  | _ + 1, trace, .terminal t, held => .ok (trace, .terminal t, held)
  | n + 1, trace, .step s, held => do
    let (signal, facts) := pick trace s
    let target ← v.resolve s.id signal facts
    v.follow pick n (trace ++ [s]) target (held ++ (s.action.proof signal).toList)

/-- **Every way of running ends at a terminal** within the transitions that remain. -/
theorem follow_terminates {v : Validated} {edges : Edges} {entry : ℕ} {order : List ℕ}
    (hc : Checked v.definition edges entry order) {pick : List Step → Step → Label × Facts}
    (hpick : ∀ trace step, (pick trace step).1 ∈ step.action.signals) (n : ℕ) {trace : List Step}
    {node : Target} {held : List Proof} (h : Runs v trace node held)
    (hn : v.definition.steps.length ≤ trace.length + n) :
    ∃ trace' terminal held', v.follow pick n trace node held =
      .ok (trace', .terminal terminal, held') ∧
      Runs v trace' (.terminal terminal) held' := by
  induction n generalizing trace node held with
  | zero =>
    cases node with
    | terminal t => exact ⟨trace, t, held, rfl, h⟩
    | step s => exact absurd ((h.sound hc).step s rfl).1 (not_lt.mpr hn)
  | succ n ih =>
    cases node with
    | terminal t => exact ⟨trace, t, held, rfl, h⟩
    | step s =>
      have hsignal := hpick trace s
      obtain ⟨target, htarget⟩ := ((h.sound hc).step s rfl).2.2 _ hsignal (pick trace s).2
      obtain ⟨trace', terminal, held', hfollow, hruns⟩ := ih (h.next hsignal htarget) (by
        rw [List.length_append, List.length_singleton]
        omega)
      refine ⟨trace', terminal, held', ?_, hruns⟩
      unfold Validated.follow
      exact bind_ok.mpr ⟨target, htarget, hfollow⟩

theorem validate_definition {fingerprint : Definition → Text} {d : Definition} {env : Environment}
    {v : Validated} (h : validate fingerprint d env = .ok v) : v.definition = d := by
  unfold validate at h
  split at h
  · cases h
  · cases h
    rfl

theorem exists_validate {d : Definition} {env : Environment} (h : check d env = .ok ())
    (fingerprint : Definition → Text) : ∃ v, validate fingerprint d env = .ok v := by
  unfold validate
  split
  · rename_i e he
    rw [h] at he
    cases he
  · exact ⟨_, rfl⟩

/-- **Validation is sound for execution.** Of every run of a validated definition the guarantees of
`Sound` hold, and however its steps report and whatever the facts are each time, following it ends
at a terminal after at most as many transitions as there are steps. -/
theorem validate_sound {fingerprint : Definition → Text} {d : Definition} {env : Environment}
    {v : Validated} (h : validate fingerprint d env = .ok v) :
    v.definition = d ∧
      (∀ trace node held, Runs v trace node held → Sound v trace node held) ∧
      ∃ entry, v.entry = some entry ∧
        ∀ pick : List Step → Step → Label × Facts,
          (∀ trace step, (pick trace step).1 ∈ step.action.signals) →
          ∃ trace terminal held,
            v.follow pick d.steps.length [] (.step entry) [] =
                .ok (trace, .terminal terminal, held) ∧
              Runs v trace (.terminal terminal) held := by
  have hd := validate_definition h
  obtain ⟨env', hcheck⟩ := v.checked
  obtain ⟨edges, entry, order, hc⟩ := check_checked hcheck
  refine ⟨hd, fun trace node held hruns => hruns.sound hc, ?_⟩
  obtain ⟨step, hentry, -⟩ := entry_at hc
  refine ⟨step, hentry, fun pick hpick => ?_⟩
  exact follow_terminates hc hpick d.steps.length (.start hentry) (by rw [hd]; simp)

/-- The shipped password sign-in passes, so its runs have the guarantees. -/
theorem validate_sound_passwordSignIn :
    ∃ v, validate (fun _ => []) Essentials.passwordSignIn .essentials = .ok v ∧
      ∀ trace node held, Runs v trace node held → Sound v trace node held := by
  have hmem : Essentials.passwordSignIn ∈ Essentials.defaults := .tail _ (.head _)
  obtain ⟨v, hv⟩ := exists_validate (defaults_check _ hmem) fun _ => []
  exact ⟨v, hv, (validate_sound hv).2.1⟩

end RiAuth.Workflow
