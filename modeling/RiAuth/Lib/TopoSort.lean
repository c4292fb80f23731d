import Mathlib.Algebra.BigOperators.Group.Finset.Basic
import Mathlib.Algebra.GroupWithZero.Nat

/-!
# Depth-first topological order

An iterative depth-first search with an explicit stack, which either meets a node that is still open
or finishes every node it reaches. A search that finishes leaves a topological order: every edge
leads from an earlier to a later node. Facts about paths then follow by one pass over that order.

* `TopoSort.run_ok` — **the order of a finished search is topological and holds the entry.**
* `TopoSort.run_exact` — **a search with enough fuel finds a cycle if one can be reached, and else
  orders exactly the nodes that can be reached.**
* `Topo.walk`       — **a pass over the order that hands each node's facts to its successors
  covers every path.**
-/

namespace TopoSort

/-- Whether a search has seen a node: not yet, on the stack, or finished. -/
inductive Mark where
  | new
  | opened
  | done
deriving DecidableEq

/-- A search: the marks, the open nodes with the number of edges already followed, top first, and
the finished nodes, the last one first. -/
structure Search (α : Type) where
  marks : α → Mark
  stack : List (α × ℕ)
  order : List α

/-- What one round of the search leads to. -/
inductive Progress (α : Type) where
  | more (s : Search α)
  | cycle (node target : α)
  | finished (order : List α)

variable {α : Type} [DecidableEq α] (succ : α → List α)

/-- Follow the next edge of the top node, or finish it. -/
def step (s : Search α) : Progress α :=
  match s.stack with
  | [] => .finished s.order
  | (node, next) :: rest =>
    match (succ node)[next]? with
    | none => .more
        { marks := Function.update s.marks node .done, stack := rest, order := node :: s.order }
    | some target =>
      match s.marks target with
      | .opened => .cycle node target
      | .new => .more
          { s with
            marks := Function.update s.marks target .opened
            stack := (target, 0) :: (node, next + 1) :: rest }
      | .done => .more { s with stack := (node, next + 1) :: rest }

/-- The search before its first round. -/
def start (entry : α) : Search α :=
  { marks := Function.update (fun _ => .new) entry .opened, stack := [(entry, 0)], order := [] }

/-- The whole search: the edge that closes a cycle, or the order. -/
def run : ℕ → Search α → Option (Except (α × α) (List α))
  | 0, _ => none
  | fuel + 1, s =>
    match step succ s with
    | .more s' => run fuel s'
    | .cycle node target => some (.error (node, target))
    | .finished order => some (.ok order)

/-! ## Topological order -/

/-- Each node comes once and before all its successors. -/
def Topo : List α → Prop
  | [] => True
  | v :: l => v ∉ l ∧ (∀ w ∈ succ v, w ∈ l) ∧ Topo l

variable {succ}

omit [DecidableEq α] in
theorem Topo.nodup {l : List α} (h : Topo succ l) : l.Nodup := by
  induction l with
  | nil => exact List.nodup_nil
  | cons v l ih => exact List.nodup_cons.mpr ⟨h.1, ih h.2.2⟩

omit [DecidableEq α] in
theorem Topo.succ_mem {l₁ l₂ : List α} {v w : α} (h : Topo succ (l₁ ++ v :: l₂))
    (hw : w ∈ succ v) : w ∈ l₂ := by
  induction l₁ with
  | nil => exact h.2.1 w hw
  | cons u l₁ ih => exact ih h.2.2

/-! ## The search leaves a topological order -/

/-- The edges of the open nodes that were followed lead to finished nodes, or to the open node
above. -/
def Explored (succ : α → List α) (done : List α) : Option α → List (α × ℕ) → Prop
  | _, [] => True
  | child, (node, next) :: rest =>
    (∀ i w, i < next → (succ node)[i]? = some w → w ∈ done ∨ child = some w) ∧
      Explored succ done (some node) rest

omit [DecidableEq α] in
theorem Explored.mono {done done' : List α} (hsub : done ⊆ done') {child : Option α}
    {stack : List (α × ℕ)} (h : Explored succ done child stack) :
    Explored succ done' child stack := by
  induction stack generalizing child with
  | nil => trivial
  | cons e rest ih => exact ⟨fun i w hi hw => (h.1 i w hi hw).imp_left (@hsub w), ih h.2⟩

omit [DecidableEq α] in
/-- When the top node is finished, the edge that led to it counts as explored. -/
theorem Explored.finish {done : List α} {node : α} {stack : List (α × ℕ)}
    (h : Explored succ done (some node) stack) : Explored succ (node :: done) none stack := by
  cases stack with
  | nil => trivial
  | cons e rest =>
    refine ⟨fun i w hi hw => Or.inl ?_, h.2.mono (List.subset_cons_self _ _)⟩
    rcases h.1 i w hi hw with hdone | hchild
    · exact List.mem_cons_of_mem _ hdone
    · rw [Option.some.inj hchild]
      exact List.mem_cons_self

/-- What holds between the rounds of a search. -/
structure Inv (succ : α → List α) (s : Search α) : Prop where
  done_iff : ∀ v, v ∈ s.order ↔ s.marks v = .done
  opened_iff : ∀ v, v ∈ s.stack.map Prod.fst ↔ s.marks v = .opened
  nodup : (s.stack.map Prod.fst).Nodup
  topo : Topo succ s.order
  explored : Explored succ s.order none s.stack

theorem inv_start (entry : α) : Inv succ (start entry) where
  done_iff v := by
    by_cases h : v = entry <;> simp [start, h]
  opened_iff v := by
    by_cases h : v = entry <;> simp [start, h]
  nodup := List.nodup_singleton _
  topo := trivial
  explored := ⟨fun _ _ hi => absurd hi (Nat.not_lt_zero _), trivial⟩

/-- What a round that is not the last one does. -/
theorem step_more {s s' : Search α} (h : step succ s = .more s') :
    ∃ node next rest, s.stack = (node, next) :: rest ∧
      ((succ node)[next]? = none ∧
          s' = ⟨Function.update s.marks node .done, rest, node :: s.order⟩ ∨
        ∃ target, (succ node)[next]? = some target ∧
          (s.marks target = .new ∧
              s' = ⟨Function.update s.marks target .opened,
                (target, 0) :: (node, next + 1) :: rest, s.order⟩ ∨
            s.marks target = .done ∧ s' = ⟨s.marks, (node, next + 1) :: rest, s.order⟩)) := by
  unfold step at h
  cases hstack : s.stack with
  | nil =>
    rw [hstack] at h
    cases h
  | cons e rest =>
    obtain ⟨node, next⟩ := e
    rw [hstack] at h
    refine ⟨node, next, rest, rfl, ?_⟩
    dsimp only at h
    cases hedge : (succ node)[next]? with
    | none =>
      rw [hedge] at h
      exact .inl ⟨rfl, (Progress.more.inj h).symm⟩
    | some target =>
      rw [hedge] at h
      dsimp only at h
      cases hmark : s.marks target with
      | opened =>
        rw [hmark] at h
        cases h
      | new =>
        rw [hmark] at h
        exact .inr ⟨target, rfl, .inl ⟨hmark, (Progress.more.inj h).symm⟩⟩
      | done =>
        rw [hmark] at h
        exact .inr ⟨target, rfl, .inr ⟨hmark, (Progress.more.inj h).symm⟩⟩

/-- The edge that closes a cycle leads from the top node to an open one. -/
theorem step_cycle {s : Search α} {node target : α} (h : step succ s = .cycle node target) :
    ∃ next rest, s.stack = (node, next) :: rest ∧ target ∈ succ node ∧
      s.marks target = .opened := by
  unfold step at h
  split at h
  · cases h
  · split at h
    · cases h
    · rename_i hedge
      split at h
      · obtain ⟨rfl, rfl⟩ := Progress.cycle.inj h
        exact ⟨_, _, ‹_›, List.mem_of_getElem? hedge, ‹_›⟩
      · cases h
      · cases h

theorem step_finished {s : Search α} {order : List α} (h : step succ s = .finished order) :
    s.stack = [] ∧ s.order = order := by
  unfold step at h
  split at h
  · exact ⟨‹_›, Progress.finished.inj h⟩
  · split at h
    · cases h
    · split at h <;> cases h

/-- **One round keeps the invariant**, and no mark goes back. -/
theorem Inv.step {s s' : Search α} (h : Inv succ s) (hs : step succ s = .more s') :
    Inv succ s' ∧ ∀ v, s.marks v ≠ .new → s'.marks v ≠ .new := by
  obtain ⟨node, next, rest, hstack, hround⟩ := step_more hs
  obtain ⟨marks, stack, order⟩ := s
  obtain ⟨hdone, hopened, hnodup, htopo, hexplored⟩ := h
  dsimp only at hdone hopened hnodup htopo hexplored hstack hround
  subst hstack
  obtain ⟨hnode, hrest⟩ := List.nodup_cons.mp hnodup
  have hopen : marks node = .opened := (hopened node).mp List.mem_cons_self
  obtain ⟨hedge, rfl⟩ | ⟨target, hedge, ⟨hmark, rfl⟩ | ⟨hmark, rfl⟩⟩ := hround
  · have hnew : node ∉ order := fun hin => by
      rw [(hdone node).mp hin] at hopen
      cases hopen
    refine ⟨⟨fun v => ?_, fun v => ?_, hrest, ⟨hnew, fun w hw => ?_, htopo⟩,
      hexplored.2.finish⟩, fun v hv => ?_⟩
    · by_cases hv : v = node
      · simp [hv]
      · simp [hv, hdone]
    · by_cases hv : v = node
      · simpa [hv] using hnode
      · have := hopened v
        simpa [hv] using this
    · -- all edges were followed before the node is finished
      obtain ⟨i, hi, hw⟩ := List.mem_iff_getElem.mp hw
      have hlt : i < next := hi.trans_le (List.getElem?_eq_none_iff.mp hedge)
      rcases hexplored.1 i w hlt (by rw [List.getElem?_eq_getElem hi, hw]) with hin | hchild
      · exact hin
      · cases hchild
    · by_cases hvn : v = node
      · simp [hvn]
      · simpa [hvn] using hv
  · have hfresh : target ∉ node :: rest.map Prod.fst := fun hin => by
      rw [(hopened target).mp hin] at hmark
      cases hmark
    refine ⟨⟨fun v => ?_, fun v => ?_, ?_, htopo, ?_⟩, fun v hv => ?_⟩
    · by_cases hv : v = target
      · have := hdone v
        rw [hv, hmark] at this
        simp [hv, this]
      · simp [hv, hdone]
    · by_cases hv : v = target
      · simp [hv]
      · have := hopened v
        simpa [hv] using this
    · exact List.nodup_cons.mpr ⟨hfresh, hnodup⟩
    · refine ⟨fun _ _ hi => absurd hi (Nat.not_lt_zero _), fun i w hi hw => ?_, hexplored.2⟩
      rcases Nat.lt_succ_iff_lt_or_eq.mp hi with hi | rfl
      · exact (hexplored.1 i w hi hw).imp_right fun h => nomatch h
      · exact Or.inr (hedge.symm.trans hw)
    · by_cases hvt : v = target
      · simp [hvt]
      · simpa [hvt] using hv
  · refine ⟨⟨hdone, hopened, hnodup, htopo, fun i w hi hw => ?_, hexplored.2⟩, fun v hv => hv⟩
    rcases Nat.lt_succ_iff_lt_or_eq.mp hi with hi | rfl
    · exact hexplored.1 i w hi hw
    · obtain rfl := Option.some.inj (hedge.symm.trans hw)
      exact Or.inl ((hdone _).mpr hmark)

theorem Inv.run {fuel : ℕ} {s : Search α} {l : List α} (h : Inv succ s)
    (hrun : run succ fuel s = some (.ok l)) :
    Topo succ l ∧ ∀ v, s.marks v ≠ .new → v ∈ l := by
  induction fuel generalizing s with
  | zero => cases hrun
  | succ fuel ih =>
    unfold TopoSort.run at hrun
    cases hs : TopoSort.step succ s with
    | more s' =>
      rw [hs] at hrun
      obtain ⟨hinv, hmarks⟩ := h.step hs
      obtain ⟨htopo, hin⟩ := ih hinv hrun
      exact ⟨htopo, fun v hv => hin v (hmarks v hv)⟩
    | cycle node target =>
      rw [hs] at hrun
      cases hrun
    | finished order =>
      rw [hs] at hrun
      obtain rfl : order = l := by simpa using hrun
      obtain ⟨hstack, rfl⟩ := step_finished hs
      refine ⟨h.topo, fun v hv => (h.done_iff v).mpr ?_⟩
      -- no node is open any more
      have hnone := (h.opened_iff v).not
      rw [hstack] at hnone
      cases hmark : s.marks v with
      | new => exact absurd hmark hv
      | opened => exact absurd hmark (hnone.mp (by simp))
      | done => rfl

/-- **The order of a finished search is topological and holds the entry.** -/
theorem run_ok {fuel : ℕ} {entry : α} {l : List α}
    (h : run succ fuel (start entry) = some (.ok l)) : Topo succ l ∧ entry ∈ l := by
  obtain ⟨htopo, hin⟩ := (inv_start entry).run h
  exact ⟨htopo, hin entry (by simp [start])⟩

/-! ## Enough fuel -/

/-- The rounds a search still has to make: one for each edge not yet followed and one for each node
not yet finished. -/
def remaining (succ : α → List α) (nodes : Finset α) (s : Search α) : ℕ :=
  (∑ v ∈ nodes, if s.marks v = .new then (succ v).length + 1 else 0) +
    (s.stack.map fun e => (succ e.1).length - e.2 + 1).sum

theorem remaining_start {nodes : Finset α} {entry : α} (h : entry ∈ nodes) :
    remaining succ nodes (start entry) = ∑ v ∈ nodes, ((succ v).length + 1) := by
  unfold remaining start
  rw [← Finset.add_sum_erase nodes _ h, ← Finset.add_sum_erase nodes _ h]
  have hrest : ∀ v ∈ nodes.erase entry,
      (if Function.update (fun _ => Mark.new) entry .opened v = .new then (succ v).length + 1
        else 0) = (succ v).length + 1 := by
    intro v hv
    simp [Function.update_of_ne (Finset.ne_of_mem_erase hv)]
  rw [Finset.sum_congr rfl hrest]
  simp [add_comm]

theorem remaining_step {nodes : Finset α} (hnodes : ∀ v, ∀ w ∈ succ v, w ∈ nodes) {s s' : Search α}
    (h : Inv succ s) (hs : step succ s = .more s') :
    remaining succ nodes s' < remaining succ nodes s := by
  obtain ⟨node, next, rest, hstack, hround⟩ := step_more hs
  have hopen : s.marks node = .opened := (h.opened_iff node).mp (by simp [hstack])
  unfold remaining
  rw [hstack, List.map_cons, List.sum_cons]
  obtain ⟨hedge, rfl⟩ | ⟨target, hedge, ⟨hmark, rfl⟩ | ⟨hmark, rfl⟩⟩ := hround
  · have hsame : ∀ v, (Function.update s.marks node .done v = .new ↔ s.marks v = .new) := by
      intro v
      by_cases hv : v = node <;> simp [hv, hopen]
    simp only [hsame]
    omega
  · have hlt : next < (succ node).length := (List.getElem?_eq_some_iff.mp hedge).1
    have hin : target ∈ nodes := hnodes node target (List.mem_of_getElem? hedge)
    -- the target moves from the new nodes to the stack
    have hother : (∑ v ∈ nodes.erase target,
        if Function.update s.marks target .opened v = .new then (succ v).length + 1 else 0) =
        ∑ v ∈ nodes.erase target, if s.marks v = .new then (succ v).length + 1 else 0 :=
      Finset.sum_congr rfl fun v hv => by
        rw [Function.update_of_ne (Finset.ne_of_mem_erase hv)]
    rw [← Finset.add_sum_erase nodes _ hin, ← Finset.add_sum_erase nodes _ hin, hother]
    simp only [Function.update_self, hmark, reduceCtorEq, if_false, if_true, List.map_cons,
      List.sum_cons]
    omega
  · have hlt : next < (succ node).length := (List.getElem?_eq_some_iff.mp hedge).1
    simp only [List.map_cons, List.sum_cons]
    omega

/-- A search with fuel for every edge and every node comes to an end. -/
theorem run_isSome {nodes : Finset α} (hnodes : ∀ v, ∀ w ∈ succ v, w ∈ nodes) {fuel : ℕ}
    {s : Search α} (h : Inv succ s) (hfuel : remaining succ nodes s < fuel) :
    (run succ fuel s).isSome := by
  induction fuel generalizing s with
  | zero => exact absurd hfuel (Nat.not_lt_zero _)
  | succ fuel ih =>
    unfold TopoSort.run
    cases hs : TopoSort.step succ s with
    | more s' =>
      have hless := remaining_step hnodes h hs
      exact ih (h.step hs).1 (by omega)
    | cycle node target => rfl
    | finished order => rfl

/-! ## Cycles -/

/-- An edge leads from the one node to the other. -/
def Edge (succ : α → List α) (v w : α) : Prop := w ∈ succ v

/-- The node can be reached, and from it the node itself again. -/
def OnCycle (succ : α → List α) (entry v : α) : Prop :=
  Relation.ReflTransGen (Edge succ) entry v ∧ Relation.TransGen (Edge succ) v v

omit [DecidableEq α] in
theorem Topo.mem_of_reach {l : List α} {v w : α} (h : Topo succ l) (hv : v ∈ l)
    (hw : Relation.ReflTransGen (Edge succ) v w) : w ∈ l := by
  induction hw with
  | refl => exact hv
  | tail _ hedge ih =>
    obtain ⟨l₁, l₂, rfl⟩ := List.append_of_mem ih
    exact List.mem_append_right _ (List.mem_cons_of_mem _ (h.succ_mem hedge))

omit [DecidableEq α] in
/-- No node of a topological order is on a cycle. -/
theorem Topo.acyclic {l : List α} {v : α} (h : Topo succ l) (hv : v ∈ l) :
    ¬ Relation.TransGen (Edge succ) v v := by
  induction l with
  | nil => cases hv
  | cons u l ih =>
    intro hcycle
    obtain rfl | hv := List.mem_cons.mp hv
    · -- the path leaves the head for nodes after it
      obtain ⟨w, hedge, hback⟩ := Relation.TransGen.head'_iff.mp hcycle
      exact h.1 (h.2.2.mem_of_reach (h.2.1 w hedge) hback)
    · exact ih h.2.2 hv hcycle

/-- The open nodes are a path, the last one on top, and every node that was seen is reached. -/
structure Linked (succ : α → List α) (entry : α) (s : Search α) : Prop where
  path : (s.stack.map Prod.fst).IsChain fun w v => w ∈ succ v
  seen : ∀ v, s.marks v ≠ .new → Relation.ReflTransGen (Edge succ) entry v

theorem linked_start (entry : α) : Linked succ entry (start entry) where
  path := List.isChain_singleton _
  seen v hv := by
    by_cases h : v = entry
    · rw [h]
    · simp [start, h] at hv

theorem Linked.step {entry : α} {s s' : Search α} (hl : Linked succ entry s) (h : Inv succ s)
    (hs : step succ s = .more s') : Linked succ entry s' := by
  obtain ⟨node, next, rest, hstack, hround⟩ := step_more hs
  have hopen : s.marks node = .opened := (h.opened_iff node).mp (by simp [hstack])
  have hnode : Relation.ReflTransGen (Edge succ) entry node := hl.seen node (by simp [hopen])
  have hpath := hl.path
  rw [hstack, List.map_cons] at hpath
  obtain ⟨hedge, rfl⟩ | ⟨target, hedge, ⟨hmark, rfl⟩ | ⟨hmark, rfl⟩⟩ := hround
  · refine ⟨hpath.tail, fun v hv => ?_⟩
    by_cases heq : v = node
    · exact heq ▸ hnode
    · exact hl.seen v (by simpa [heq] using hv)
  · have htarget : target ∈ succ node := List.mem_of_getElem? hedge
    refine ⟨List.isChain_cons_cons.mpr ⟨htarget, hpath⟩, fun v hv => ?_⟩
    by_cases heq : v = target
    · exact heq ▸ hnode.tail htarget
    · exact hl.seen v (by simpa [heq] using hv)
  · exact ⟨hpath, hl.seen⟩

omit [DecidableEq α] in
/-- The top node is reached from every open one. -/
theorem reach_top {node v : α} {below : List α}
    (h : (node :: below).IsChain fun w v => w ∈ succ v) (hv : v ∈ node :: below) :
    Relation.ReflTransGen (Edge succ) v node := by
  induction below generalizing node with
  | nil => rw [List.mem_singleton.mp hv]
  | cons u below ih =>
    obtain ⟨hedge, hrest⟩ := List.isChain_cons_cons.mp h
    obtain rfl | hv := List.mem_cons.mp hv
    · exact .refl
    · exact (ih hrest hv).tail hedge

theorem Linked.run {entry : α} {fuel : ℕ} {s : Search α} (hl : Linked succ entry s)
    (h : Inv succ s) :
    (∀ e, run succ fuel s = some (.error e) → ∃ v, OnCycle succ entry v) ∧
      ∀ l, run succ fuel s = some (.ok l) → ∀ v ∈ l, Relation.ReflTransGen (Edge succ) entry v := by
  induction fuel generalizing s with
  | zero => exact ⟨fun _ hrun => (by cases hrun), fun _ hrun => (by cases hrun)⟩
  | succ fuel ih =>
    unfold TopoSort.run
    cases hs : TopoSort.step succ s with
    | more s' => exact ih (hl.step h hs) (h.step hs).1
    | cycle node target =>
      refine ⟨fun _ _ => ⟨target, ?_⟩, fun _ hrun => (by cases hrun)⟩
      obtain ⟨next, rest, hstack, hedge, hopen⟩ := step_cycle hs
      have hmem := (h.opened_iff target).mpr hopen
      have hpath := hl.path
      rw [hstack, List.map_cons] at hmem hpath
      exact ⟨hl.seen target (by simp [hopen]), .tail' (reach_top hpath hmem) hedge⟩
    | finished order =>
      refine ⟨fun _ hrun => (by cases hrun), fun l hrun v hv => hl.seen v ?_⟩
      obtain rfl : order = l := by simpa using hrun
      rw [(h.done_iff v).mp ((step_finished hs).2 ▸ hv)]
      rintro ⟨⟩

/-- **The search is exact**: it finds a cycle if one can be reached, and else orders the nodes that
can be reached. -/
theorem run_exact {nodes : Finset α} (hnodes : ∀ v, ∀ w ∈ succ v, w ∈ nodes) {entry : α}
    (hentry : entry ∈ nodes) {fuel : ℕ} (hfuel : ∑ v ∈ nodes, ((succ v).length + 1) < fuel) :
    (∃ e v, run succ fuel (start entry) = some (.error e) ∧ OnCycle succ entry v) ∨
      ∃ l, run succ fuel (start entry) = some (.ok l) ∧ Topo succ l ∧
        (∀ v, v ∈ l ↔ Relation.ReflTransGen (Edge succ) entry v) ∧
        ∀ v, ¬ OnCycle succ entry v := by
  have hends := run_isSome hnodes (inv_start entry) (by rwa [remaining_start hentry])
  obtain ⟨herror, hok⟩ := @Linked.run α _ succ entry fuel _ (linked_start entry) (inv_start entry)
  cases hrun : TopoSort.run succ fuel (start entry) with
  | none =>
    rw [hrun] at hends
    cases hends
  | some result =>
    cases result with
    | error e =>
      obtain ⟨v, hv⟩ := herror e hrun
      exact .inl ⟨e, v, rfl, hv⟩
    | ok l =>
      obtain ⟨htopo, hmem⟩ := run_ok hrun
      refine .inr ⟨l, rfl, htopo, fun v => ⟨hok l hrun v, htopo.mem_of_reach hmem⟩, ?_⟩
      exact fun v hv => htopo.acyclic (htopo.mem_of_reach hmem hv.1) hv.2

/-! ## Passes over the order -/

/-- The paths from a node, with the nodes left behind and a state carried along. -/
inductive Walk {S : Type} (next : α → S → α → S → Prop) (u₀ : α) (s₀ : S) :
    List α → α → S → Prop
  | start : Walk next u₀ s₀ [] u₀ s₀
  | step {trace : List α} {u v : α} {s s' : S} :
    Walk next u₀ s₀ trace u s → next u s v s' → Walk next u₀ s₀ (trace ++ [u]) v s'

section Pass

variable {S τ : Type} {next : α → S → α → S → Prop} {covers : τ → α → S → Prop} {visit : τ → α → τ}

omit [DecidableEq α] in
theorem covers_foldl (hkeep : ∀ t u v s, u ≠ v → covers t v s → covers (visit t u) v s)
    {l : List α} {t : τ} {v : α} {s : S} (hv : v ∉ l) (h : covers t v s) :
    covers (l.foldl visit t) v s := by
  induction l generalizing t with
  | nil => exact h
  | cons u l ih =>
    obtain ⟨hne, hl⟩ := not_or.mp (mt List.mem_cons.mpr hv)
    exact ih hl (hkeep t u v s (Ne.symm hne) h)

omit [DecidableEq α] in
/-- **A pass over a topological order covers every path.** Visiting a node hands what is known there
to its successors and takes nothing from the others; then, when the pass comes to a node, it knows
every state in which a path can arrive there, and the nodes of the path lie behind it. -/
theorem Topo.walk {l : List α} (h : Topo succ l) (hedge : ∀ u s v s', next u s v s' → v ∈ succ u)
    (hpush : ∀ t u s v s', covers t u s → next u s v s' → covers (visit t u) v s')
    (hkeep : ∀ t u v s, u ≠ v → covers t v s → covers (visit t u) v s)
    {t₀ : τ} {u₀ : α} {s₀ : S} (hu₀ : u₀ ∈ l) (h₀ : covers t₀ u₀ s₀) {trace : List α} {v : α} {s : S}
    (hwalk : Walk next u₀ s₀ trace v s) :
    ∃ l₁ l₂, l = l₁ ++ v :: l₂ ∧ trace ⊆ l₁ ∧ trace.Nodup ∧ covers (l₁.foldl visit t₀) v s := by
  have hnodup := h.nodup
  induction hwalk with
  | start =>
    obtain ⟨l₁, l₂, rfl⟩ := List.append_of_mem hu₀
    have hnew : u₀ ∉ l₁ := fun hin =>
      (List.disjoint_of_nodup_append hnodup) hin List.mem_cons_self
    exact ⟨l₁, l₂, rfl, List.nil_subset _, List.nodup_nil, covers_foldl hkeep hnew h₀⟩
  | step _ hnext ih =>
    rename_i trace u v s s' _
    obtain ⟨l₁, l₂, rfl, hsub, htrace, hcovers⟩ := ih
    obtain ⟨a, b, rfl⟩ := List.append_of_mem (h.succ_mem (hedge u s v s' hnext))
    have hu : u ∉ l₁ := fun hin =>
      (List.disjoint_of_nodup_append hnodup) hin List.mem_cons_self
    have hv : v ∉ a := by
      have hrest := (List.nodup_cons.mp (List.nodup_append.mp hnodup).2.1).2
      exact fun hin => (List.disjoint_of_nodup_append hrest) hin List.mem_cons_self
    refine ⟨l₁ ++ u :: a, b, by simp, ?_, ?_, ?_⟩
    · intro w hw
      rcases List.mem_append.mp hw with hw | hw
      · exact List.mem_append_left _ (hsub hw)
      · rw [List.mem_singleton.mp hw]
        exact List.mem_append_right _ List.mem_cons_self
    · refine List.nodup_append.mpr ⟨htrace, List.nodup_singleton u, fun w hw w' hw' => ?_⟩
      rw [List.mem_singleton.mp hw']
      rintro rfl
      exact hu (hsub hw)
    · rw [List.foldl_append, List.foldl_cons]
      exact covers_foldl hkeep hv (hpush _ u s v s' hcovers hnext)

end Pass

end TopoSort
