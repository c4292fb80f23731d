import Mathlib.Data.Finset.Card
import RiAuth.Basic
import RiAuth.Lib.Checks
import RiAuth.Lib.OrdMap

/-!
# Ancestors of exported groups

An export names the parents of each group. Members of a group also carry all its ancestors, which
are found by a walk along the parents, breadth first and with a limit; the walk fails when it comes
back to the group it started at. Every exported group is walked.

* `Parent`: the exported hierarchy, as a relation of groups;
* `walk_spec`: the walk finds everything above its start, or a cycle through it, or too much;
* **`group_ancestors_exact`**: within the limit, a walk reports a cycle exactly if its start is on
  one, and otherwise finds exactly the ancestors; and the export is refused exactly if there is a
  cycle.
-/

namespace RiAuth.Migration

open Checks Relation

/-- A set of group names. -/
abbrev GroupIds := OrdMap Text Unit

/-- The most ancestors of one group. -/
def MAX_GROUP_ANCESTORS : ℕ := 1024

/-! ## The hierarchy -/

/-- A group of an export. Older exports have one parent, newer ones a list. -/
structure ExportedGroup where
  id : Text
  parents : Option GroupIds
  parent : Option Text

/-- Its parents, from both fields. -/
def ExportedGroup.direct (g : ExportedGroup) : GroupIds :=
  let listed := g.parents.getD .empty
  g.parent.elim listed fun id => listed.insert id ()

/-- The exported groups, and the parents of those that have any. -/
structure Hierarchy where
  groups : GroupIds
  parents : OrdMap Text GroupIds

/-- One more group. -/
def Hierarchy.add (h : Hierarchy) (g : ExportedGroup) : Result Hierarchy := do
  require (h.groups.get? g.id = none) (.bad "Duplicate exported group ID")
  .ok ⟨h.groups.insert g.id (),
    if g.direct.entries = [] then h.parents else h.parents.insert g.id g.direct⟩

/-- The parents of each group. -/
def hierarchy (groups : List ExportedGroup) : Result Hierarchy :=
  groups.foldlM Hierarchy.add ⟨.empty, .empty⟩

/-! ## The walk -/

/-- The groups that were found, and those of them whose parents are still to be looked at. -/
structure Found where
  seen : GroupIds
  queue : List Text

/-- A group is its own ancestor. -/
def cycleError : Error := .bad "Cycle in exported group hierarchy"

/-- Too many ancestors. -/
def limitError : Error := .bad "Exported group has more than 1024 ancestors"

/-- One parent is met. -/
def Found.visit (start : Text) (w : Found) (parent : Text) : Result Found := do
  require (parent ≠ start) cycleError
  if (w.seen.get? parent).isSome then .ok w
  else do
    require ((w.seen.insert parent ()).entries.length ≤ MAX_GROUP_ANCESTORS) limitError
    .ok ⟨w.seen.insert parent (), w.queue ++ [parent]⟩

/-- The direct parents of a group. -/
def parentsOf (parents : OrdMap Text GroupIds) (group : Text) : List Text :=
  (parents.get? group).elim [] fun ids => ids.entries.map Prod.fst

/-- The loop over the queue, with the rounds that it may still take. -/
def walk (parents : OrdMap Text GroupIds) (start : Text) : ℕ → Found → Result GroupIds
  | _, ⟨seen, []⟩ => .ok seen
  -- Not taken: every round but the first one is for a group that was found.
  | 0, ⟨_, _ :: _⟩ => .error .internal
  | rounds + 1, ⟨seen, group :: queue⟩ => do
    let w ← (parentsOf parents group).foldlM (Found.visit start) ⟨seen, queue⟩
    walk parents start rounds w

/-- All groups above a group. -/
def groupAncestors (parents : OrdMap Text GroupIds) (start : Text) : Result GroupIds :=
  walk parents start (MAX_GROUP_ANCESTORS + 1) ⟨.empty, [start]⟩

/-- The ancestors of every exported group. -/
def ancestors (h : Hierarchy) : Result (List (Text × GroupIds)) :=
  h.groups.entries.mapM fun e => do
    let seen ← groupAncestors h.parents e.1
    .ok (e.1, seen)

/-! ## What a walk finds -/

/-- The second group is a parent of the first. -/
def Parent (parents : OrdMap Text GroupIds) (group parent : Text) : Prop :=
  parent ∈ parentsOf parents group

/-- More groups than the limit are above the group. -/
def TooMany (parents : OrdMap Text GroupIds) (start : Text) : Prop :=
  ∃ s : Finset Text, (∀ g ∈ s, TransGen (Parent parents) start g) ∧ MAX_GROUP_ANCESTORS < s.card

/-- What was found is above the start, and what is not in the queue was looked at, except for the
group in turn. -/
structure Found.Inv (parents : OrdMap Text GroupIds) (start : Text) (turn : Option Text)
    (w : Found) : Prop where
  sound : ∀ g, w.seen.get? g = some () → TransGen (Parent parents) start g
  fresh : w.seen.get? start = none
  explored : ∀ g, g = start ∨ w.seen.get? g = some () →
    g ∈ w.queue ∨ turn = some g ∨ ∀ p ∈ parentsOf parents g, w.seen.get? p = some ()
  queued : ∀ g ∈ w.queue, ReflTransGen (Parent parents) start g
  short : w.seen.entries.length ≤ MAX_GROUP_ANCESTORS

/-- The rounds that a walk can still take. -/
def Found.left (w : Found) : ℕ := w.queue.length + (MAX_GROUP_ANCESTORS - w.seen.entries.length)

/-- A visit kept what was found, and the rounds that are left. -/
structure Found.Grows (w w' : Found) : Prop where
  keeps : ∀ g, w.seen.get? g = some () → w'.seen.get? g = some ()
  left_eq : w'.left = w.left

variable {parents : OrdMap Text GroupIds} {start : Text} {turn : Option Text}

variable {w : Found} {p g : Text} {seen : GroupIds}

theorem Found.Inv.tooMany (h : w.Inv parents start turn) (hp : TransGen (Parent parents) start p)
    (hnew : w.seen.get? p = none) (hlong : MAX_GROUP_ANCESTORS < w.seen.entries.length + 1) :
    TooMany parents start := by
  have hnot : p ∉ (w.seen.entries.map Prod.fst).toFinset := by
    intro hmem
    obtain ⟨e, he, rfl⟩ := List.mem_map.mp (List.mem_toFinset.mp hmem)
    have hget : w.seen.get? e.1 = some e.2 := OrdMap.mem_entries_iff.mp he
    rw [hnew] at hget
    cases hget
  refine ⟨insert p (w.seen.entries.map Prod.fst).toFinset, ?_, ?_⟩
  · intro g hg
    rcases Finset.mem_insert.mp hg with rfl | hg
    · exact hp
    · obtain ⟨e, he, rfl⟩ := List.mem_map.mp (List.mem_toFinset.mp hg)
      exact h.sound e.1 (OrdMap.mem_entries_iff.mp he)
  · rw [Finset.card_insert_of_notMem hnot, List.toFinset_card_of_nodup w.seen.nodup_names,
      List.length_map]
    exact hlong

/-- A new group, found and put into the queue. -/
theorem Found.Inv.push (h : w.Inv parents start turn) (hp : TransGen (Parent parents) start p)
    (hne : p ≠ start) (hshort : (w.seen.insert p ()).entries.length ≤ MAX_GROUP_ANCESTORS) :
    Found.Inv parents start turn ⟨w.seen.insert p (), w.queue ++ [p]⟩ := by
  have hkeeps : ∀ g, w.seen.get? g = some () → (w.seen.insert p ()).get? g = some () := by
    intro g hg
    rw [OrdMap.get?_insert, hg, ite_self]
  refine ⟨?_, ?_, ?_, ?_, hshort⟩
  · intro g hg
    rcases OrdMap.get?_insert_cases hg with ⟨rfl, -⟩ | ⟨-, hg⟩
    · exact hp
    · exact h.sound g hg
  · rw [OrdMap.get?_insert, if_neg hne.symm, h.fresh]
  · intro g hg
    by_cases hgp : g = p
    · exact .inl (List.mem_append_right _ (List.mem_singleton.mpr hgp))
    · rw [OrdMap.get?_insert, if_neg hgp] at hg
      rcases h.explored g hg with hq | ht | hall
      · exact .inl (List.mem_append_left _ hq)
      · exact .inr (.inl ht)
      · exact .inr (.inr fun q hq => hkeeps q (hall q hq))
  · intro g hg
    rcases List.mem_append.mp hg with hg | hg
    · exact h.queued g hg
    · rw [List.mem_singleton.mp hg]
      exact hp.to_reflTransGen

/-- What a visit of a group above the start does. -/
theorem Found.Inv.visit (h : w.Inv parents start turn) (hp : TransGen (Parent parents) start p) :
    (∃ w', w.visit start p = .ok w' ∧ w'.Inv parents start turn ∧ w.Grows w' ∧
        w'.seen.get? p = some ()) ∨
      w.visit start p = .error cycleError ∧ p = start ∨
      ∃ e, w.visit start p = .error e ∧ TooMany parents start := by
  by_cases hps : p = start
  · exact .inr (.inl ⟨by simp [Found.visit, require, hps, bind, Except.bind], hps⟩)
  cases hseen : w.seen.get? p with
  | some u => exact .inl ⟨w, by simp [Found.visit, require, hps, hseen, bind, Except.bind], h,
      ⟨fun _ hg => hg, rfl⟩, hseen⟩
  | none =>
    have hlength : (w.seen.insert p ()).entries.length = w.seen.entries.length + 1 := by
      rw [OrdMap.length_insert, OrdMap.erase_of_notMem hseen]
    by_cases hshort : (w.seen.insert p ()).entries.length ≤ MAX_GROUP_ANCESTORS
    · refine .inl ⟨⟨w.seen.insert p (), w.queue ++ [p]⟩,
        by simp [Found.visit, require, hps, hseen, hshort, bind, Except.bind],
        h.push hp hps hshort, ⟨?_, ?_⟩, by simp⟩
      · intro g hg
        rw [OrdMap.get?_insert, hg, ite_self]
      · -- the new group is one more in the queue, and one less to find
        simp only [Found.left, List.length_append, List.length_singleton]
        omega
    · exact .inr (.inr ⟨limitError,
        by simp [Found.visit, require, hps, hseen, hshort, bind, Except.bind],
        h.tooMany hp hseen (by omega)⟩)

/-- All parents of the group in turn. -/
theorem Found.Inv.visits {ps : List Text} (h : w.Inv parents start turn)
    (hps : ∀ p ∈ ps, TransGen (Parent parents) start p) :
    (∃ w', ps.foldlM (Found.visit start) w = .ok w' ∧ w'.Inv parents start turn ∧ w.Grows w' ∧
        ∀ p ∈ ps, w'.seen.get? p = some ()) ∨
      ps.foldlM (Found.visit start) w = .error cycleError ∧ start ∈ ps ∨
      ∃ e, ps.foldlM (Found.visit start) w = .error e ∧ TooMany parents start := by
  induction ps generalizing w with
  | nil => exact .inl ⟨w, rfl, h, ⟨fun _ hg => hg, rfl⟩, fun p hp => absurd hp List.not_mem_nil⟩
  | cons p ps ih =>
    obtain ⟨hp, hps⟩ := List.forall_mem_cons.mp hps
    rw [List.foldlM_cons]
    rcases h.visit hp with ⟨w₁, hw₁, h₁, hg₁, hseen⟩ | ⟨he, rfl⟩ | ⟨e, he, hmany⟩
    · rw [hw₁]
      rcases ih h₁ hps with ⟨w₂, hw₂, h₂, hg₂, hall⟩ | ⟨he, hmem⟩ | ⟨e, he, hmany⟩
      · exact .inl ⟨w₂, hw₂, h₂,
          ⟨fun g hg => hg₂.keeps g (hg₁.keeps g hg), hg₂.left_eq.trans hg₁.left_eq⟩,
          List.forall_mem_cons.mpr ⟨hg₂.keeps p hseen, hall⟩⟩
      · exact .inr (.inl ⟨he, List.mem_cons_of_mem p hmem⟩)
      · exact .inr (.inr ⟨e, he, hmany⟩)
    · exact .inr (.inl ⟨by rw [he]; rfl, List.mem_cons_self⟩)
    · exact .inr (.inr ⟨e, by rw [he]; rfl, hmany⟩)

/-- The first group leaves the queue and is in turn. -/
theorem Found.Inv.pop {group : Text} {queue : List Text}
    (h : Found.Inv parents start none ⟨seen, group :: queue⟩) :
    Found.Inv parents start (some group) ⟨seen, queue⟩ := by
  refine ⟨h.sound, h.fresh, ?_, fun g hg => h.queued g (List.mem_cons_of_mem _ hg), h.short⟩
  intro g hg
  rcases h.explored g hg with hq | ht | hall
  · rcases List.mem_cons.mp hq with rfl | hq
    · exact .inr (.inl rfl)
    · exact .inl hq
  · cases ht
  · exact .inr (.inr hall)

/-- Its parents are all found: the turn is over. -/
theorem Found.Inv.finish {group : Text} (h : w.Inv parents start (some group))
    (hall : ∀ p ∈ parentsOf parents group, w.seen.get? p = some ()) : w.Inv parents start none := by
  refine ⟨h.sound, h.fresh, ?_, h.queued, h.short⟩
  intro g hg
  rcases h.explored g hg with hq | ht | hdone
  · exact .inl hq
  · cases ht
    exact .inr (.inr hall)
  · exact .inr (.inr hdone)

/-- With an empty queue, what was found is closed under parents. -/
theorem Found.Inv.complete (h : Found.Inv parents start none ⟨seen, []⟩)
    (hg : TransGen (Parent parents) start g) : seen.get? g = some () := by
  have hclosed : ∀ a b, a = start ∨ seen.get? a = some () → Parent parents a b →
      seen.get? b = some () := by
    intro a b ha hab
    rcases h.explored a ha with hq | ht | hall
    · exact absurd hq List.not_mem_nil
    · cases ht
    · exact hall b hab
  induction hg with
  | single hstep => exact hclosed start _ (.inl rfl) hstep
  | tail _ hstep ih => exact hclosed _ _ (.inr ih) hstep

theorem Found.Inv.acyclic (h : Found.Inv parents start none ⟨seen, []⟩) :
    ¬ TransGen (Parent parents) start start := by
  intro hcycle
  have hstart := h.complete hcycle
  rw [h.fresh] at hstart
  cases hstart

/-- **What a walk can end with**: everything above the start, which is then not on a cycle; a cycle
through the start; or too many groups. -/
theorem walk_spec {rounds : ℕ} (h : w.Inv parents start none) (hrounds : w.left ≤ rounds) :
    (∃ seen, walk parents start rounds w = .ok seen ∧
        (∀ g, seen.get? g = some () ↔ TransGen (Parent parents) start g) ∧
        ¬ TransGen (Parent parents) start start) ∨
      walk parents start rounds w = .error cycleError ∧ TransGen (Parent parents) start start ∨
      ∃ e, walk parents start rounds w = .error e ∧ TooMany parents start := by
  induction rounds generalizing w with
  | zero =>
    obtain ⟨seen, queue⟩ := w
    cases queue with
    | nil => exact .inl ⟨seen, rfl, fun g => ⟨h.sound g, h.complete⟩, h.acyclic⟩
    | cons group queue => simp [Found.left] at hrounds
  | succ rounds ih =>
    obtain ⟨seen, queue⟩ := w
    cases queue with
    | nil => exact .inl ⟨seen, rfl, fun g => ⟨h.sound g, h.complete⟩, h.acyclic⟩
    | cons group queue =>
      have habove : ∀ p ∈ parentsOf parents group, TransGen (Parent parents) start p :=
        fun p hp => TransGen.tail' (h.queued group List.mem_cons_self) hp
      rw [walk]
      rcases h.pop.visits habove with ⟨w', hw', h', hgrows, hall⟩ | ⟨he, hmem⟩ | ⟨e, he, hmany⟩
      · rw [hw']
        refine ih (h'.finish hall) ?_
        rw [hgrows.left_eq]
        simp only [Found.left, List.length_cons] at hrounds ⊢
        omega
      · exact .inr (.inl ⟨by rw [he]; rfl, habove start hmem⟩)
      · exact .inr (.inr ⟨e, by rw [he]; rfl, hmany⟩)

theorem Found.inv_start (parents : OrdMap Text GroupIds) (start : Text) :
    Found.Inv parents start none ⟨.empty, [start]⟩ := by
  refine ⟨?_, rfl, ?_, ?_, Nat.zero_le _⟩
  · intro g hg
    cases hg
  · rintro g (rfl | hg)
    · exact .inl (List.mem_singleton_self g)
    · cases hg
  · intro g hg
    rw [List.mem_singleton.mp hg]

/-- `walk_spec` of a whole walk. -/
theorem groupAncestors_spec (parents : OrdMap Text GroupIds) (start : Text) :
    (∃ seen, groupAncestors parents start = .ok seen ∧
        (∀ g, seen.get? g = some () ↔ TransGen (Parent parents) start g) ∧
        ¬ TransGen (Parent parents) start start) ∨
      groupAncestors parents start = .error cycleError ∧ TransGen (Parent parents) start start ∨
      ∃ e, groupAncestors parents start = .error e ∧ TooMany parents start := by
  refine walk_spec (Found.inv_start parents start) ?_
  simp [Found.left, OrdMap.empty, Nat.add_comm]

/-! ## The whole export -/

/-- Only exported groups have parents. -/
theorem hierarchy_groups {groups : List ExportedGroup} {h : Hierarchy}
    (hread : hierarchy groups = .ok h) (hp : Parent h.parents g p) : h.groups.get? g = some () := by
  have hkept : ∀ g ids, h.parents.get? g = some ids → h.groups.get? g = some () := by
    refine foldlM_invariant (P := fun h : Hierarchy =>
      ∀ g ids, h.parents.get? g = some ids → h.groups.get? g = some ()) ?_ hread ?_
    · intro h e h' hadd hinv g ids hget
      obtain ⟨-, hadd⟩ := seq_ok.mp hadd
      cases hadd
      rw [OrdMap.get?_insert]
      split_ifs with hg
      · rfl
      · refine hinv g ids ?_
        dsimp only at hget
        split_ifs at hget
        · exact hget
        · rwa [OrdMap.get?_insert, if_neg hg] at hget
    · intro g ids hget
      cases hget
  cases hget : h.parents.get? g with
  | some ids => exact hkept g ids hget
  | none => simp [Parent, parentsOf, hget] at hp

/-- The export is refused exactly if one of the walks fails. -/
theorem ancestors_error {h : Hierarchy} :
    (∃ e, ancestors h = .error e) ↔
      ∃ g, h.groups.get? g = some () ∧ ∃ e, groupAncestors h.parents g = .error e := by
  have hok : (∃ r, ancestors h = .ok r) ↔ ∀ e ∈ h.groups.entries, ∃ b,
      (do let seen ← groupAncestors h.parents e.1; .ok (e.1, seen)) = Except.ok b := exists_mapM_ok
  constructor
  · rintro ⟨e, he⟩
    by_contra hnone
    push Not at hnone
    obtain ⟨r, hr⟩ := hok.mpr fun ⟨g, u⟩ hg => by
      cases hwalk : groupAncestors h.parents g with
      | error e' => exact absurd hwalk (hnone g (OrdMap.mem_entries_iff.mp hg) e')
      | ok seen => exact ⟨_, rfl⟩
    rw [hr] at he
    cases he
  · rintro ⟨g, hg, e, he⟩
    cases hall : ancestors h with
    | error e' => exact ⟨e', rfl⟩
    | ok r =>
      obtain ⟨b, hb⟩ := hok.mp ⟨r, hall⟩ (g, ()) (OrdMap.mem_entries_iff.mpr hg)
      obtain ⟨seen, hseen, -⟩ := bind_ok.mp hb
      rw [he] at hseen
      cases hseen

/-- **Group ancestry is exact.** Where at most `MAX_GROUP_ANCESTORS` groups are above `start`, the
walk fails with a cycle exactly if `start` is on one, and otherwise finds exactly the groups above
`start`. An export with a cycle is refused; one within the limit is refused only then. -/
theorem group_ancestors_exact :
    (∀ (parents : OrdMap Text GroupIds) (start : Text), ¬ TooMany parents start →
      (groupAncestors parents start = .error cycleError ↔
        TransGen (Parent parents) start start) ∧
      (¬ TransGen (Parent parents) start start → ∃ seen, groupAncestors parents start = .ok seen ∧
        ∀ g, seen.get? g = some () ↔ TransGen (Parent parents) start g)) ∧
    ∀ (groups : List ExportedGroup) (h : Hierarchy), hierarchy groups = .ok h →
      ((∃ g, TransGen (Parent h.parents) g g) → ∃ e, ancestors h = .error e) ∧
      ((∀ g, h.groups.get? g = some () → ¬ TooMany h.parents g) →
        (∃ e, ancestors h = .error e) → ∃ g, TransGen (Parent h.parents) g g) := by
  refine ⟨fun parents start hfew => ?_, fun groups h hread => ⟨?_, fun hfew => ?_⟩⟩
  · rcases groupAncestors_spec parents start with
      ⟨seen, hok, hseen, hno⟩ | ⟨he, hcycle⟩ | ⟨-, -, hmany⟩
    · refine ⟨⟨fun he => ?_, fun hcycle => absurd hcycle hno⟩, fun _ => ⟨seen, hok, hseen⟩⟩
      rw [hok] at he
      cases he
    · exact ⟨⟨fun _ => hcycle, fun _ => he⟩, fun hno => absurd hcycle hno⟩
    · exact absurd hmany hfew
  · rintro ⟨g, hcycle⟩
    obtain ⟨p, hp, -⟩ := TransGen.head'_iff.mp hcycle
    refine ancestors_error.mpr ⟨g, hierarchy_groups hread hp, ?_⟩
    rcases groupAncestors_spec h.parents g with ⟨-, -, -, hno⟩ | ⟨he, -⟩ | ⟨e, he, -⟩
    · exact absurd hcycle hno
    · exact ⟨_, he⟩
    · exact ⟨e, he⟩
  · intro hrefused
    obtain ⟨g, hg, e, he⟩ := ancestors_error.mp hrefused
    rcases groupAncestors_spec h.parents g with ⟨seen, hok, -, -⟩ | ⟨-, hcycle⟩ | ⟨-, -, hmany⟩
    · rw [hok] at he
      cases he
    · exact ⟨g, hcycle⟩
    · exact absurd hmany (hfew g hg)

/-- Three groups above each other, and one that is its own parent. -/
def mixedExport : List ExportedGroup :=
  [⟨['a'], none, some ['b']⟩, ⟨['b'], none, some ['c']⟩, ⟨['c'], none, none⟩,
    ⟨['g'], none, some ['g']⟩]

def mixedHierarchy : Hierarchy where
  groups := (((OrdMap.empty.insert ['a'] ()).insert ['b'] ()).insert ['c'] ()).insert ['g'] ()
  parents := ((OrdMap.empty.insert ['a'] (OrdMap.empty.insert ['b'] ())).insert ['b']
    (OrdMap.empty.insert ['c'] ())).insert ['g'] (OrdMap.empty.insert ['g'] ())

theorem parent_mixedHierarchy (h : Parent mixedHierarchy.parents g p) :
    g = ['a'] ∧ p = ['b'] ∨ g = ['b'] ∧ p = ['c'] ∨ g = ['g'] ∧ p = ['g'] := by
  simp only [Parent, parentsOf, mixedHierarchy, OrdMap.get?_insert, OrdMap.get?_empty] at h
  split_ifs at h with hg hb ha
  · exact .inr (.inr ⟨hg, List.mem_singleton.mp h⟩)
  · exact .inr (.inl ⟨hb, List.mem_singleton.mp h⟩)
  · exact .inl ⟨ha, List.mem_singleton.mp h⟩
  · exact absurd h List.not_mem_nil

theorem not_tooMany_mixedHierarchy (g : Text) : ¬ TooMany mixedHierarchy.parents g := by
  rintro ⟨s, hs, hcard⟩
  have hsub : s ⊆ {['b'], ['c'], ['g']} := by
    intro p hp
    obtain ⟨q, -, hq⟩ := TransGen.tail'_iff.mp (hs p hp)
    rcases parent_mixedHierarchy hq with ⟨-, rfl⟩ | ⟨-, rfl⟩ | ⟨-, rfl⟩ <;> simp
  have hle := (Finset.card_le_card hsub).trans Finset.card_le_three
  exact absurd hcard (by simp only [MAX_GROUP_ANCESTORS]; omega)

theorem above_a : TransGen (Parent mixedHierarchy.parents) ['a'] g ↔
    g = ['b'] ∨ g = ['c'] := by
  have hab : Parent mixedHierarchy.parents ['a'] ['b'] := List.mem_singleton_self _
  have hbc : Parent mixedHierarchy.parents ['b'] ['c'] := List.mem_singleton_self _
  constructor
  · intro h
    induction h with
    | single h => rcases parent_mixedHierarchy h with ⟨-, rfl⟩ | ⟨h, -⟩ | ⟨h, -⟩ <;> simp_all
    | tail _ h ih =>
      rcases parent_mixedHierarchy h with ⟨rfl, rfl⟩ | ⟨rfl, rfl⟩ | ⟨rfl, rfl⟩ <;> simp_all
  · rintro (rfl | rfl)
    · exact .single hab
    · exact .tail (.single hab) hbc

/-- The chain is found, and the loop is refused. -/
theorem group_ancestors_exact_mixed :
    hierarchy mixedExport = .ok mixedHierarchy ∧
      (∃ seen, groupAncestors mixedHierarchy.parents ['a'] = .ok seen ∧
        ∀ g, seen.get? g = some () ↔ g = ['b'] ∨ g = ['c']) ∧
      groupAncestors mixedHierarchy.parents ['g'] = .error cycleError ∧
      ∃ e, ancestors mixedHierarchy = .error e := by
  have hread : hierarchy mixedExport = .ok mixedHierarchy := rfl
  have hcycle : TransGen (Parent mixedHierarchy.parents) ['g'] ['g'] :=
    .single (List.mem_singleton_self _)
  have hfew := not_tooMany_mixedHierarchy
  have hchain : ¬ TransGen (Parent mixedHierarchy.parents) ['a'] ['a'] := by
    rw [above_a]
    decide
  obtain ⟨seen, hseen, hmem⟩ := (group_ancestors_exact.1 _ _ (hfew ['a'])).2 hchain
  exact ⟨hread, ⟨seen, hseen, fun g => (hmem g).trans above_a⟩,
    (group_ancestors_exact.1 _ _ (hfew ['g'])).1.mpr hcycle,
    (group_ancestors_exact.2 _ _ hread).1 ⟨_, hcycle⟩⟩

end RiAuth.Migration
