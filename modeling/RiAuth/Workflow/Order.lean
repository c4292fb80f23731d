import RiAuth.Workflow.Graph

/-!
# The order of a workflow

The validator orders the nodes of a workflow by a depth-first search from the entry and refuses a
definition whose search comes back to an open node.

* `Definition.Leads`: the transitions of a definition, as a relation of its nodes;
* `leads_iff`: the edges that the checks compute are those transitions;
* **`topological_exact`**: a cycle is reported exactly if one can be reached from the entry, and
  otherwise the nodes that can be reached are ordered.
-/

namespace RiAuth.Workflow

open Checks TopoSort Relation

/-- A transition of the step leads to the node. -/
def Definition.Leads (d : Definition) (v w : ℕ) : Prop :=
  ∃ step, d.steps[v]? = some step ∧ ∃ t ∈ step.transitions, d.index t.target = some w

/-- The edges that the checks compute are the transitions of the definition. -/
theorem leads_iff {d : Definition} {env : Environment} {edges : Edges}
    (h : checkSteps d env = .ok edges) (v w : ℕ) : w ∈ successors edges v ↔ d.Leads v w := by
  constructor
  · intro hw
    obtain ⟨e, he, rfl⟩ := List.mem_map.mp hw
    cases hstep : d.steps[v]? with
    | none =>
      -- there are as many rows as steps
      have hlen := (mapM_ok.mp h).length_eq
      rw [List.length_zipIdx] at hlen
      have hrow : edges[v]? = none := by
        rw [List.getElem?_eq_none_iff, ← hlen]
        exact List.getElem?_eq_none_iff.mp hstep
      rw [outgoing, List.getD_eq_getElem?_getD, hrow] at he
      cases he
    | some step =>
      have hedges := checkSteps_ok h hstep
      unfold checkEdges at hedges
      obtain ⟨-, hedges⟩ := seq_ok.mp hedges
      obtain ⟨row, hrow, hedges⟩ := bind_ok.mp hedges
      obtain ⟨-, hedges⟩ := seq_ok.mp hedges
      obtain rfl : row = outgoing edges v := Except.ok.inj hedges
      obtain ⟨⟨t, j⟩, ht, hcheck⟩ := exists_of_mem_mapM hrow he
      exact ⟨step, hstep, t, List.fst_mem_of_mem_zipIdx ht, (checkTransition_ok hcheck).2⟩
  · rintro ⟨step, hstep, t, ht, hindex⟩
    obtain ⟨node, hnode, hmem⟩ := (checkEdges_ok (checkSteps_ok h hstep)).2.1 t ht
    obtain rfl : w = node := Option.some.inj (hindex.symm.trans hnode)
    exact List.mem_map_of_mem hmem

theorem searchRounds_eq (edges : Edges) (nodes : ℕ) :
    searchRounds edges nodes =
      ∑ v ∈ Finset.range nodes, ((successors edges v).length + 1) + 1 := rfl

/-- **The order of a workflow is exact.** For every definition and every table of edges between its
nodes, a cycle is reported if and only if one can be reached from the entry; otherwise the order
holds exactly the nodes that can be reached, each once and before all nodes its edges lead to. The
edges that the checks compute are the transitions of the definition. -/
theorem topological_exact (d : Definition) (edges : Edges) (entry : ℕ)
    (hentry : entry < d.ids.length)
    (hedges : ∀ v, ∀ w ∈ successors edges v, w < d.ids.length) :
    ((∃ e, topological edges entry d = .error e ∧ e.code = .cycle) ↔
      ∃ v, OnCycle (successors edges) entry v) ∧
    ((¬ ∃ v, OnCycle (successors edges) entry v) →
      ∃ order, topological edges entry d = .ok order ∧ order.Nodup ∧
        (∀ v, v ∈ order ↔ ReflTransGen (Edge (successors edges)) entry v) ∧
        ∀ before v after, order = before ++ v :: after →
          ∀ w ∈ successors edges v, w ∈ after) ∧
    ∀ env, checkSteps d env = .ok edges → ∀ v w, w ∈ successors edges v ↔ d.Leads v w := by
  have hrun := @run_exact ℕ _ (successors edges) (Finset.range d.ids.length)
    (fun v w hw => Finset.mem_range.mpr (hedges v w hw)) entry (Finset.mem_range.mpr hentry)
    (searchRounds edges d.ids.length) (by rw [searchRounds_eq]; omega)
  unfold topological
  obtain ⟨e, v, herror, hcycle⟩ | ⟨order, hok, htopo, hreach, hnone⟩ := hrun
  · rw [herror]
    exact ⟨⟨fun _ => ⟨v, hcycle⟩, fun _ => ⟨_, rfl, rfl⟩⟩, fun h => absurd ⟨v, hcycle⟩ h,
      fun env hsteps => leads_iff hsteps⟩
  · rw [hok]
    refine ⟨⟨?_, fun ⟨v, hv⟩ => absurd hv (hnone v)⟩, fun _ => ?_,
      fun env hsteps => leads_iff hsteps⟩
    · rintro ⟨e, he, -⟩
      cases he
    · refine ⟨order, rfl, htopo.nodup, hreach, ?_⟩
      rintro before v after rfl w hw
      exact htopo.succ_mem hw

/-- A step that leads back to the entry is a cycle, whatever its signal. -/
theorem topological_exact_loop : ∃ e,
    topological [[(.failed, 1)], [(.failed, 0)]] 0 Essentials.passwordSignIn = .error e ∧
      e.code = .cycle := by
  have hedges : ∀ v, ∀ w ∈ successors [[(.failed, 1)], [(.failed, 0)]] v,
      w < Essentials.passwordSignIn.ids.length := by
    intro v w hw
    have hlt : w < 2 := by
      rcases v with _ | _ | v <;> simp [successors, outgoing] at hw <;> omega
    exact hlt.trans_le (by decide)
  have hto : Edge (successors [[(.failed, 1)], [(.failed, 0)]]) 0 1 := List.mem_singleton_self 1
  have hback : Edge (successors [[(.failed, 1)], [(.failed, 0)]]) 1 0 := List.mem_singleton_self 0
  exact (topological_exact _ _ 0 (by decide) hedges).1.mpr ⟨0, .refl, .tail (.single hto) hback⟩

end RiAuth.Workflow
