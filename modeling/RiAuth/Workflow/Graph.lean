import RiAuth.Lib.Lists
import RiAuth.Workflow.Validate

/-!
# What a passed validation says

`Checked` lists what the checks leave behind about the transition graph of a definition: every
signal has a way out, every edge leads to a node, the order is topological, and both passes along it
succeeded. Everything known about runs is derived from these fields.

* `check_checked`: a definition that passes the checks is `Checked`;
* `target_of_index`: an identifier resolves to the node it indexes;
* `resolve_ok`: a step that emits one of its signals is followed to the end of one of its edges.
-/

namespace RiAuth.Workflow

open Checks

/-- The node at an index. -/
def Definition.node (d : Definition) (i : ℕ) : Option Target :=
  match d.steps[i]? with
  | some step => some (.step step)
  | none => (d.terminals[i - d.steps.length]?).map .terminal

/-- What the checks of a definition leave behind. -/
structure Checked (d : Definition) (edges : Edges) (entry : ℕ) (order : List ℕ) : Prop where
  entry_index : d.index d.entry = some entry
  entry_step : entry < d.steps.length
  routes : ∀ step ∈ d.steps, ∀ signal ∈ step.action.signals,
    ∃ last ∈ step.transitions, last.on = signal ∧ last.when = none
  edge : ∀ {i : ℕ} {step : Step}, d.steps[i]? = some step → ∀ t ∈ step.transitions,
    ∃ node, d.index t.target = some node ∧ (t.on, node) ∈ outgoing edges i
  edge_lt : ∀ i, ∀ w ∈ successors edges i, w < d.ids.length
  outcome : ∀ t ∈ d.terminals, t.outcome = .denied ∨ t.outcome = d.category.success
  topo : TopoSort.Topo (successors edges) order
  entry_mem : entry ∈ order
  executions : ∀ node, node < d.ids.length →
    order.foldl (visitExecutions d edges) (fun _ => 0) node ≤ d.limits.maxExecutions
  held : checkHeld d edges entry order = .ok ()

/-! ## The checks one by one -/

variable {d : Definition} {step : Step} {path : String} {signal : Label} {u : Unit}
  {env : Environment} {i : ℕ}

theorem index_lt {id : Id} {node : ℕ} (h : d.index id = some node) : node < d.ids.length := by
  unfold Definition.index at h
  rw [List.idxOf?_eq_some_iff] at h
  exact h.1

theorem checkEntry_ok {entry : ℕ} (h : checkEntry d = .ok entry) :
    d.index d.entry = some entry ∧ entry < d.steps.length := by
  unfold checkEntry at h
  cases hindex : d.index d.entry with
  | none => rw [hindex] at h; cases h
  | some e =>
    rw [hindex] at h
    obtain ⟨hlt, he⟩ := seq_ok.mp h
    cases he
    exact ⟨rfl, require_ok.mp hlt⟩

theorem checkTransition_ok {t : Transition} {e : Label × ℕ}
    (h : checkTransition d step path t = .ok e) : e.1 = t.on ∧ d.index t.target = some e.2 := by
  unfold checkTransition at h
  obtain ⟨-, h⟩ := seq_ok.mp h
  cases hindex : d.index t.target with
  | none => rw [hindex] at h; cases h
  | some node =>
    rw [hindex] at h
    cases hwhen : t.when with
    | none =>
      rw [hwhen] at h
      obtain ⟨-, h⟩ := seq_ok.mp h
      cases h
      exact ⟨rfl, rfl⟩
    | some condition =>
      rw [hwhen] at h
      obtain ⟨-, h⟩ := seq_ok.mp h
      obtain ⟨-, h⟩ := seq_ok.mp h
      cases h
      exact ⟨rfl, rfl⟩

theorem checkRoutes_ok {transitions : List Transition}
    (h : checkRoutes transitions path signal = .ok u) :
    ∃ last ∈ transitions, last.on = signal ∧ last.when = none := by
  unfold checkRoutes at h
  dsimp only at h
  cases hlast : (transitions.filter fun t => t.on = signal).getLast? with
  | none => rw [hlast] at h; cases h
  | some last =>
    rw [hlast] at h
    obtain ⟨hwhen, -⟩ := require_ok.mp h
    obtain ⟨hmem, hon⟩ := List.mem_filter.mp (List.mem_of_getLast? hlast)
    exact ⟨last, hmem, of_decide_eq_true hon, hwhen⟩

theorem checkTerminal_ok {t : Terminal} (h : checkTerminal d t path = .ok u) :
    t.outcome = .denied ∨ t.outcome = d.category.success := by
  unfold checkTerminal at h
  exact require_ok.mp (seq_ok.mp h).1

/-- The edges of a step are those of its transitions. -/
theorem checkEdges_ok {row : List (Label × ℕ)} (h : checkEdges d env step i = .ok row) :
    (∀ signal ∈ step.action.signals,
        ∃ last ∈ step.transitions, last.on = signal ∧ last.when = none) ∧
      (∀ t ∈ step.transitions, ∃ node, d.index t.target = some node ∧ (t.on, node) ∈ row) ∧
      ∀ e ∈ row, e.2 < d.ids.length := by
  unfold checkEdges at h
  obtain ⟨-, h⟩ := seq_ok.mp h
  obtain ⟨row', hrow, h⟩ := bind_ok.mp h
  obtain ⟨hroutes, h⟩ := seq_ok.mp h
  cases h
  refine ⟨fun signal hs => checkRoutes_ok (forM_ok.mp hroutes signal hs),
    fun t ht => ?_, fun e he => ?_⟩
  · obtain ⟨j, hj⟩ := List.getElem?_of_mem ht
    obtain ⟨e, he, hcheck⟩ := mapM_ok_get hrow
      (show step.transitions.zipIdx[j]? = some (t, j) by simp [hj])
    obtain ⟨hon, hindex⟩ := checkTransition_ok hcheck
    exact ⟨e.2, hindex, hon ▸ List.mem_of_getElem? he⟩
  · obtain ⟨a, -, hcheck⟩ := exists_of_mem_mapM hrow he
    exact index_lt (checkTransition_ok hcheck).2

/-! ## The search -/

theorem checkSteps_ok {edges : Edges} (h : checkSteps d env = .ok edges)
    (hi : d.steps[i]? = some step) : checkEdges d env step i = .ok (outgoing edges i) := by
  obtain ⟨row, hrow, hcheck⟩ := mapM_ok_get h
    (show d.steps.zipIdx[i]? = some (step, i) by simp [hi])
  rw [outgoing, List.getD_eq_getElem?_getD, hrow, Option.getD_some]
  exact hcheck

/-- A transition and the edge at its place stand together, under the same signal. -/
theorem mem_zip_of_checkSteps {edges : Edges} (h : checkSteps d env = .ok edges)
    (hi : d.steps[i]? = some step) {t : Transition} (ht : t ∈ step.transitions) :
    ∃ e, (t, e) ∈ step.transitions.zip (outgoing edges i) ∧ e.1 = t.on := by
  have hedges := checkSteps_ok h hi
  unfold checkEdges at hedges
  obtain ⟨-, hedges⟩ := seq_ok.mp hedges
  obtain ⟨row, hrow, hedges⟩ := bind_ok.mp hedges
  obtain ⟨-, hedges⟩ := seq_ok.mp hedges
  cases hedges
  obtain ⟨j, hj⟩ := List.getElem?_of_mem ht
  obtain ⟨e, he, hcheck⟩ := mapM_ok_get hrow
    (show step.transitions.zipIdx[j]? = some (t, j) by simp [hj])
  refine ⟨e, List.mem_of_getElem? (?_ : _[j]? = _), (checkTransition_ok hcheck).1⟩
  rw [List.getElem?_zip_eq_some]
  exact ⟨hj, he⟩

theorem edge_lt_of_checkSteps {edges : Edges} (h : checkSteps d env = .ok edges) (i : ℕ) :
    ∀ w ∈ successors edges i, w < d.ids.length := by
  intro w hw
  obtain ⟨e, he, rfl⟩ := List.mem_map.mp hw
  unfold outgoing at he
  rw [List.getD_eq_getElem?_getD] at he
  cases hrow : edges[i]? with
  | none => rw [hrow] at he; cases he
  | some row =>
    rw [hrow] at he
    obtain ⟨a, -, hcheck⟩ := exists_of_mem_mapM h (List.mem_of_getElem? hrow)
    exact (checkEdges_ok hcheck).2.2 e he

theorem topological_ok {edges : Edges} {entry : ℕ} {order : List ℕ}
    (h : topological edges entry d = .ok order) :
    TopoSort.Topo (successors edges) order ∧ entry ∈ order := by
  unfold topological at h
  split at h
  · cases h
    exact TopoSort.run_ok ‹_›
  · cases h
  · cases h

private theorem le_foldl_max (l : List ℕ) (a : ℕ) :
    a ≤ l.foldl max a ∧ ∀ n ∈ l, n ≤ l.foldl max a := by
  induction l generalizing a with
  | nil => exact ⟨le_rfl, fun _ h => (nomatch h)⟩
  | cons b l ih =>
    obtain ⟨hmax, hl⟩ := ih (max a b)
    exact ⟨(le_max_left a b).trans hmax,
      List.forall_mem_cons.mpr ⟨(le_max_right a b).trans hmax, hl⟩⟩

theorem checkExecutions_ok {edges : Edges} {order : List ℕ}
    (h : checkExecutions d edges order = .ok u) {node : ℕ} (hnode : node < d.ids.length) :
    order.foldl (visitExecutions d edges) (fun _ => 0) node ≤ d.limits.maxExecutions := by
  unfold checkExecutions at h
  refine le_trans ?_ (require_ok.mp h)
  exact (le_foldl_max _ 0).2 _ (List.mem_map.mpr ⟨node, List.mem_range.mpr hnode, rfl⟩)

/-- What the checks leave behind, with the edges they computed. -/
theorem check_ok (h : check d env = .ok u) :
    ∃ edges entry order, checkSteps d env = .ok edges ∧ Checked d edges entry order := by
  unfold check at h
  obtain ⟨-, h⟩ := seq_ok.mp h
  obtain ⟨-, h⟩ := seq_ok.mp h
  obtain ⟨-, h⟩ := seq_ok.mp h
  obtain ⟨entry, hentry, h⟩ := bind_ok.mp h
  obtain ⟨edges, hedges, h⟩ := bind_ok.mp h
  obtain ⟨hterminals, h⟩ := seq_ok.mp h
  obtain ⟨order, horder, h⟩ := bind_ok.mp h
  obtain ⟨-, h⟩ := seq_ok.mp h
  obtain ⟨hexecutions, hheld⟩ := seq_ok.mp h
  obtain ⟨hindex, hstep⟩ := checkEntry_ok hentry
  obtain ⟨htopo, hmem⟩ := topological_ok horder
  refine ⟨edges, entry, order, hedges, ⟨hindex, hstep, fun step hs => ?_,
    fun hi t ht => (checkEdges_ok (checkSteps_ok hedges hi)).2.1 t ht,
    edge_lt_of_checkSteps hedges, fun t ht => ?_, htopo, hmem,
    fun node hnode => checkExecutions_ok hexecutions hnode, hheld⟩⟩
  · obtain ⟨i, hi⟩ := List.getElem?_of_mem hs
    exact (checkEdges_ok (checkSteps_ok hedges hi)).1
  · obtain ⟨i, hi⟩ := List.getElem?_of_mem ht
    have hall := forM_ok.mp (seq_ok.mp hterminals).1 (t, i)
      (List.mem_of_getElem? (show d.terminals.zipIdx[i]? = some (t, i) by simp [hi]))
    exact checkTerminal_ok hall

/-- **A definition that passes the checks is `Checked`.** -/
theorem check_checked (h : check d env = .ok u) :
    ∃ edges entry order, Checked d edges entry order := by
  obtain ⟨edges, entry, order, -, hc⟩ := check_ok h
  exact ⟨edges, entry, order, hc⟩

/-! ## Following a transition -/

/-- The id of a node. -/
def Target.id : Target → Id
  | .step s => s.id
  | .terminal t => t.id

/-- An identifier names the node it indexes. -/
theorem target_of_index {v : Validated} {id : Id} (h : v.definition.index id = some i) :
    ∃ target, v.definition.node i = some target ∧ v.target id = some target ∧ target.id = id := by
  unfold Definition.index List.idxOf? Definition.ids at h
  rw [List.findIdx?_append, List.findIdx?_map, List.findIdx?_map, List.length_map] at h
  unfold Definition.node Validated.target Validated.step
  cases hs : v.definition.steps.findIdx? ((fun x => x == id) ∘ Step.id) with
  | some j =>
    rw [hs] at h
    cases h
    obtain ⟨step, hstep, hfind, hid⟩ := List.find?_of_findIdx? hs
    refine ⟨.step step, by rw [hstep], ?_, eq_of_beq hid⟩
    rw [show v.definition.steps.find? (fun s => s.id = id) = some step from hfind]
  | none =>
    -- No step has the identifier, so the index is that of a terminal, past all steps.
    rw [hs, Option.none_or, Option.map_eq_some_iff] at h
    obtain ⟨j, hj, rfl⟩ := h
    obtain ⟨terminal, hterminal, hfind, hid⟩ := List.find?_of_findIdx? hj
    have hnone : v.definition.steps.find? (fun s => s.id = id) = none :=
      List.find?_eq_none.mpr fun s hmem => by
        simpa using List.findIdx?_eq_none_iff.mp hs s hmem
    refine ⟨.terminal terminal, ?_, ?_, eq_of_beq hid⟩
    · rw [List.getElem?_eq_none (Nat.le_add_left _ _), Nat.add_sub_cancel, hterminal]
      rfl
    · rw [hnone, show v.definition.terminals.find? (fun t => t.id = id) = some terminal from hfind]
      rfl

/-- A target stands at an index of its definition. -/
def At (d : Definition) (i : ℕ) (target : Target) : Prop :=
  d.index target.id = some i ∧ d.node i = some target

theorem At.steps (h : At d i (.step step)) : d.steps[i]? = some step := by
  have hnode := h.2
  unfold Definition.node at hnode
  cases hs : d.steps[i]? with
  | some s =>
    rw [hs] at hnode
    cases hnode
    rfl
  | none =>
    rw [hs] at hnode
    obtain ⟨t, -, ht⟩ := Option.map_eq_some_iff.mp hnode
    cases ht

theorem At.terminals {terminal : Terminal} (h : At d i (.terminal terminal)) :
    d.steps[i]? = none ∧ d.terminals[i - d.steps.length]? = some terminal := by
  have hnode := h.2
  unfold Definition.node at hnode
  cases hs : d.steps[i]? with
  | some s =>
    rw [hs] at hnode
    cases hnode
  | none =>
    rw [hs] at hnode
    obtain ⟨t, ht, heq⟩ := Option.map_eq_some_iff.mp hnode
    cases heq
    exact ⟨rfl, ht⟩

theorem at_of_index {v : Validated} {id : Id} (h : v.definition.index id = some i) :
    ∃ target, v.target id = some target ∧ At v.definition i target := by
  obtain ⟨target, hnode, htarget, hid⟩ := target_of_index h
  exact ⟨target, htarget, hid ▸ h, hnode⟩

/-- The step at an index is the one its identifier finds. -/
theorem At.step_eq {v : Validated} (h : At v.definition i (.step step)) :
    v.step step.id = some step := by
  obtain ⟨target, hnode, htarget, -⟩ := target_of_index h.1
  rw [h.2] at hnode
  cases hnode
  unfold Validated.target at htarget
  change (match v.step step.id with
    | some s => some (Target.step s)
    | none => _) = _ at htarget
  cases hs : v.step step.id with
  | some s =>
    rw [hs] at htarget
    cases htarget
    rfl
  | none =>
    rw [hs] at htarget
    obtain ⟨t, -, ht⟩ := Option.map_eq_some_iff.mp htarget
    cases ht

variable {v : Validated} {edges : Edges} {entry : ℕ} {order : List ℕ}

/-- What following a signal out of a step comes to. -/
theorem resolve_cases (hc : Checked v.definition edges entry order)
    (h : At v.definition i (.step step)) {facts : Facts} {target : Target}
    (hresolve : v.resolve step.id signal facts = .ok target) :
    ∃ j, (signal, j) ∈ outgoing edges i ∧ At v.definition j target := by
  unfold Validated.resolve at hresolve
  rw [h.step_eq] at hresolve
  dsimp only at hresolve
  split at hresolve
  · cases hresolve
  · rename_i transition hfind
    obtain ⟨hmem, hon⟩ := List.mem_filter.mp (List.mem_of_find?_eq_some hfind)
    obtain ⟨j, hindex, hedge⟩ := hc.edge h.steps transition hmem
    obtain ⟨target', htarget, hat⟩ := at_of_index hindex
    rw [htarget] at hresolve
    cases hresolve
    exact ⟨j, of_decide_eq_true hon ▸ hedge, hat⟩

/-- A signal of a step is always followed. -/
theorem resolve_ok (hc : Checked v.definition edges entry order)
    (h : At v.definition i (.step step)) (hsignal : signal ∈ step.action.signals) (facts : Facts) :
    ∃ target, v.resolve step.id signal facts = .ok target := by
  have hstep : step ∈ v.definition.steps := List.mem_of_getElem? h.steps
  obtain ⟨last, hlast, hon, hwhen⟩ := hc.routes step hstep signal hsignal
  -- The unconditional transition matches whatever the facts are.
  have hfound : ((step.transitions.filter fun t => t.on = signal).find? fun t =>
      t.when.all (Condition.evaluate facts)).isSome := by
    rw [List.find?_isSome]
    exact ⟨last, List.mem_filter.mpr ⟨hlast, decide_eq_true hon⟩, by rw [hwhen]; rfl⟩
  obtain ⟨transition, hfind⟩ := Option.isSome_iff_exists.mp hfound
  have hmem := (List.mem_filter.mp (List.mem_of_find?_eq_some hfind)).1
  obtain ⟨j, hindex, -⟩ := hc.edge h.steps transition hmem
  obtain ⟨target, htarget, -⟩ := at_of_index hindex
  refine ⟨target, ?_⟩
  unfold Validated.resolve
  rw [h.step_eq]
  dsimp only
  rw [hfind]
  dsimp only
  rw [htarget]

end RiAuth.Workflow
