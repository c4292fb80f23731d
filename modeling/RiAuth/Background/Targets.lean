import RiAuth.Basic
import RiAuth.Lib.History
import RiAuth.Lib.OrdMap

/-!
# Connector admission

Work on a connector target holds a slot of its process and a row of a shared ledger, which expires.
Both are given back by a release, or by dropping the permit, which queues the release for the next
admission.

* `Background.tryTargetIn`: admission, inside an open transaction;
* `System`: any number of processes over one ledger, with one transaction open at a time, and
  `step`: what can happen;
* `Sound`: the invariant, and `tryTargetIn_effect`: what one call does;
* `connector_admission_exclusive`: **admissions exclude each other, the ledger is bounded, a row
  that has not expired goes only through the release of its own admission, and deactivations keep to
  their own slot.**
-/

namespace RiAuth.Background

/-! ## Admission -/

/-- How long an admission lasts. -/
def LEASE_SECONDS : ℕ := 60

/-- The most live admissions. -/
def MAX_ADMISSIONS : ℕ := 128

/-- Slots for general connector jobs. -/
def CONNECTOR_SLOTS : ℕ := 2

/-- The slots of a process: the general ones, and one for deactivations. -/
def TARGET_SLOTS : ℕ := CONNECTOR_SLOTS + 1

/-- What a permit is for. -/
inductive Job where
  | reconciliation
  | provisioning
  | mail
  | delivery
  | maintenance
  | alerts
  | manualConnector
  | deactivation
deriving DecidableEq

/-- The row that holds a target. -/
structure Admission where
  owner : Text
  generation : ℕ
  expiresAt : ℕ
deriving DecidableEq

/-- A row that is to be given back. -/
structure TargetRelease where
  key : Text
  owner : Text
  generation : ℕ
deriving DecidableEq

/-- The right to work on a target. -/
structure TargetPermit where
  slot : ℕ
  release : Option TargetRelease
deriving DecidableEq

/-- The table `connector_admissions`. -/
abbrev Ledger := OrdMap Text Admission

/-- A release deletes the row of its own admission, if that is still there. -/
def settle (ledger : Ledger) (release : TargetRelease) : Ledger :=
  match ledger.get? release.key with
  | some current =>
    if current.owner = release.owner ∧ current.generation = release.generation then
      ledger.erase release.key
    else ledger
  | none => ledger

/-- The expired ones among the scanned rows are deleted. -/
def prune (at_ : ℕ) (ledger : Ledger) : Ledger :=
  (ledger.entries.take MAX_ADMISSIONS).foldl
    (fun l e => if e.2.expiresAt ≤ at_ then l.erase e.1 else l) ledger

/-- The slots that a job may take. -/
def available (job : Job) (slots : ℕ) : List ℕ :=
  if job = .deactivation then List.range' CONNECTOR_SLOTS (slots - CONNECTOR_SLOTS)
  else List.range CONNECTOR_SLOTS

end RiAuth.Background

/-- What a process keeps in memory. -/
structure RiAuth.Background where
  targets : List (Option RiAuth.Text)
  targetReleases : List RiAuth.Background.TargetRelease

namespace RiAuth.Background

open History

/-- All slots free. -/
def new : Background := ⟨List.replicate TARGET_SLOTS none, []⟩

/-- `try_target_in`. An error aborts the transaction; what happens in memory stays. -/
def tryTargetIn (digest : Text → Text) (at_ : ℕ) (owner : Text) (b : Background) (ledger : Ledger)
    (job : Job) (scope : Text) : Background × Result (Ledger × Option TargetPermit) :=
  let ledger := b.targetReleases.foldl settle ledger
  let b := { b with targetReleases := [] }
  let grant (ledger : Ledger) (slot generation : ℕ) :=
    ({ b with targets := b.targets.set slot (some scope) },
      .ok (ledger.insert (digest scope)
          ⟨owner, generation, min (at_ + LEASE_SECONDS) u64Max⟩,
        some ⟨slot, some ⟨digest scope, owner, generation⟩⟩))
  if some scope ∈ b.targets then (b, .ok (ledger, none))
  else
    match (available job b.targets.length).find? fun slot => b.targets[slot]? = some none with
    | none => (b, .ok (ledger, none))
    | some slot =>
      match ledger.get? (digest scope) with
      | some row =>
        if at_ < row.expiresAt then (b, .ok (ledger, none))
        else if row.generation + 1 ≤ u64Max then grant ledger slot (row.generation + 1)
        else (b, .error (.conflict "Connector admission generation exhausted"))
      | none =>
        -- a full ledger refuses, and never evicts a live owner
        if MAX_ADMISSIONS ≤ (ledger.entries.take MAX_ADMISSIONS).countP (at_ < ·.2.expiresAt) then
          (b, .ok (prune at_ ledger, none))
        else grant (prune at_ ledger) slot 1

/-- Dropping a permit frees its slot and queues its release. -/
def drop (b : Background) (permit : TargetPermit) : Background where
  targets := b.targets.set permit.slot none
  targetReleases := b.targetReleases ++ permit.release.toList

/-! ## What one call does -/

/-- Rows only go when they have expired, or by a release of their own. -/
def Keeps (at_ : ℕ) (releases : List TargetRelease) (l l' : Ledger) : Prop :=
  ∀ k r, l.get? k = some r → l'.get? k ≠ some r →
    r.expiresAt ≤ at_ ∨ ⟨k, r.owner, r.generation⟩ ∈ releases

/-- No row is added, and rows only go for one of these reasons. -/
structure Shrinks (at_ : ℕ) (releases : List TargetRelease) (l l' : Ledger) : Prop where
  sub : ∀ k r, l'.get? k = some r → l.get? k = some r
  keeps : Keeps at_ releases l l'
  length : l'.entries.length ≤ l.entries.length

section

variable {at_ : ℕ} {releases : List TargetRelease} {l l' l'' : Ledger}

theorem Keeps.refl (l : Ledger) : Keeps at_ releases l l := fun _ _ h h' => absurd h h'

theorem Keeps.trans (h : Keeps at_ releases l l') (h' : Keeps at_ releases l' l'') :
    Keeps at_ releases l l'' := by
  intro k r hr hgone
  by_cases hmid : l'.get? k = some r
  · exact h' k r hmid hgone
  · exact h k r hr hmid

theorem Keeps.mono {t : ℕ} {more : List TargetRelease} (h : Keeps at_ releases l l') (ht : at_ ≤ t)
    (hsub : releases ⊆ more) : Keeps t more l l' :=
  fun k r hr hgone => (h k r hr hgone).imp (·.trans ht) (hsub ·)

theorem Shrinks.refl (l : Ledger) : Shrinks at_ releases l l :=
  ⟨fun _ _ h => h, .refl l, le_rfl⟩

theorem Shrinks.trans (h : Shrinks at_ releases l l') (h' : Shrinks at_ releases l' l'') :
    Shrinks at_ releases l l'' :=
  ⟨fun k r hr => h.sub k r (h'.sub k r hr), h.keeps.trans h'.keeps, h'.length.trans h.length⟩

theorem Shrinks.erase {k : Text}
    (h : ∀ r, l.get? k = some r → r.expiresAt ≤ at_ ∨ ⟨k, r.owner, r.generation⟩ ∈ releases) :
    Shrinks at_ releases l (l.erase k) where
  sub _ _ := OrdMap.get?_of_erase
  keeps k' r' hr' hgone := by
    by_cases hk : k' = k
    · subst hk
      exact h r' hr'
    · rw [OrdMap.get?_erase, if_neg hk] at hgone
      exact absurd hr' hgone
  length := OrdMap.length_restrict_le ..

/-- **A release removes the row of its own admission and no other.** -/
theorem shrinks_settle {release : TargetRelease} (h : release ∈ releases) :
    Shrinks at_ releases l (settle l release) := by
  unfold settle
  split
  · rename_i current hcurrent
    split_ifs with hown
    · refine .erase fun r hr => .inr ?_
      cases hcurrent.symm.trans hr
      rw [hown.1, hown.2]
      exact h
    · exact .refl l
  · exact .refl l

theorem shrinks_settleAll (l : Ledger) : Shrinks at_ releases l (releases.foldl settle l) :=
  List.foldlRecOn releases settle (motive := Shrinks at_ releases l) (.refl l)
    fun _ hmid _ hrelease => hmid.trans (shrinks_settle hrelease)

theorem shrinks_prune : Shrinks at_ releases l (prune at_ l) := by
  refine List.foldlRecOn _ _ (motive := Shrinks at_ releases l) (.refl l) ?_
  intro mid hmid e he
  split_ifs with hexpired
  · refine hmid.trans (.erase fun r hr => .inl ?_)
    have hentry := OrdMap.mem_entries_iff.mp (List.mem_of_mem_take he)
    cases (hmid.sub _ _ hr).symm.trans hentry
    exact hexpired
  · exact hmid

theorem get?_foldl_erase (rows : List (Text × Admission)) (l : Ledger) {e : Text × Admission}
    (he : e ∈ rows ∨ l.get? e.1 = none) (hexpired : e.2.expiresAt ≤ at_) :
    (rows.foldl (fun l e => if e.2.expiresAt ≤ at_ then l.erase e.1 else l) l).get? e.1 = none := by
  induction rows generalizing l with
  | nil => exact he.resolve_left List.not_mem_nil
  | cons d rows ih =>
    rw [List.foldl_cons]
    refine ih _ ?_
    rcases he with he | hnone
    · rcases List.mem_cons.mp he with rfl | he
      · rw [if_pos hexpired, OrdMap.get?_erase, if_pos rfl]
        exact .inr rfl
      · exact .inl he
    · refine .inr ?_
      split_ifs
      · rw [OrdMap.get?_erase, hnone, ite_self]
      · exact hnone

/-- Of at most `MAX_ADMISSIONS` rows the live ones remain. -/
theorem length_prune_le (h : l.entries.length ≤ MAX_ADMISSIONS) : (prune at_ l).entries.length ≤
    (l.entries.take MAX_ADMISSIONS).countP (at_ < ·.2.expiresAt) := by
  rw [List.countP_eq_length_filter, List.take_of_length_le h]
  refine (List.Nodup.of_map Prod.fst (prune at_ l).nodup_names).length_le_of_subset fun e he => ?_
  have hget := OrdMap.mem_entries_iff.mp he
  have hl := (shrinks_prune : Shrinks at_ [] l _).sub _ _ hget
  refine List.mem_filter.mpr ⟨OrdMap.mem_entries_iff.mpr hl, decide_eq_true ?_⟩
  by_contra hexpired
  have hscanned : e ∈ l.entries.take MAX_ADMISSIONS := by
    rw [List.take_of_length_le h]
    exact OrdMap.mem_entries_iff.mpr hl
  cases hget.symm.trans (get?_foldl_erase _ l (.inl hscanned) (not_lt.mp hexpired))

end

/-- What a call can do: it settles the queued releases, and may grant a permit. -/
inductive Effect (digest : Text → Text) (at_ : ℕ) (owner : Text) (b : Background) (l : Ledger)
    (job : Job) (scope : Text) : Background × Result (Ledger × Option TargetPermit) → Prop
  | refused {l' : Ledger} : Shrinks at_ b.targetReleases l l' →
    Effect digest at_ owner b l job scope (⟨b.targets, []⟩, .ok (l', none))
  | failed (e : Error) : Effect digest at_ owner b l job scope (⟨b.targets, []⟩, .error e)
  | admitted {l' : Ledger} {slot generation : ℕ} (row : Admission) :
    Shrinks at_ b.targetReleases l l' → row.owner = owner → row.generation = generation →
    (∀ r, l'.get? (digest scope) = some r → r.expiresAt ≤ at_) →
    (l.entries.length ≤ MAX_ADMISSIONS →
      (l'.insert (digest scope) row).entries.length ≤ MAX_ADMISSIONS) →
    some scope ∉ b.targets → b.targets[slot]? = some none → slot ∈ available job b.targets.length →
    Effect digest at_ owner b l job scope (⟨b.targets.set slot (some scope), []⟩,
      .ok (l'.insert (digest scope) row, some ⟨slot, some ⟨digest scope, owner, generation⟩⟩))

theorem tryTargetIn_effect (digest : Text → Text) (at_ : ℕ) (owner : Text) (b : Background)
    (l : Ledger) (job : Job) (scope : Text) :
    Effect digest at_ owner b l job scope (b.tryTargetIn digest at_ owner l job scope) := by
  have hsettled : Shrinks at_ b.targetReleases l (b.targetReleases.foldl settle l) :=
    shrinks_settleAll l
  unfold tryTargetIn
  by_cases hscope : some scope ∈ b.targets
  · rw [if_pos hscope]
    exact .refused hsettled
  rw [if_neg hscope]
  split
  · exact .refused hsettled
  rename_i slot hslot
  have hfree : b.targets[slot]? = some none := by
    have := List.find?_some hslot
    exact of_decide_eq_true this
  have hmem := List.mem_of_find?_eq_some hslot
  split
  · rename_i row hrow
    split_ifs with hlive hgeneration
    · exact .refused hsettled
    · refine .admitted _ hsettled rfl rfl (fun r hr => ?_) (fun hlen => ?_) hscope hfree hmem
      · cases hrow.symm.trans hr
        exact not_lt.mp hlive
      · exact (OrdMap.length_insert_of_mem hrow _).trans (hsettled.length.trans hlen)
    · exact .failed _
  · rename_i hnone
    have hpruned := hsettled.trans shrinks_prune
    split_ifs with hfull
    · exact .refused hpruned
    · refine .admitted _ hpruned rfl rfl (fun r hr => ?_) (fun hlen => ?_) hscope hfree hmem
      · cases hnone.symm.trans ((shrinks_prune : Shrinks at_ [] _ _).sub _ _ hr)
      · have hkept : (prune at_ (b.targetReleases.foldl settle l)).entries.length ≤ _ :=
          length_prune_le (hsettled.length.trans hlen)
        have hinsert := OrdMap.length_insert_le (prune at_ (b.targetReleases.foldl settle l))
          (digest scope) ⟨owner, 1, min (at_ + LEASE_SECONDS) u64Max⟩
        omega

/-! ## Processes -/

/-- A permit with the work that it was given for. -/
structure Held where
  job : Job
  scope : Text
  permit : TargetPermit
deriving DecidableEq

/-- What a process has in memory. -/
structure Process where
  background : Background
  /-- The live permits. -/
  held : List Held

/-- Each live permit has a slot of its own, of the kind its job may take, and no two slots have the
same scope. -/
structure Process.Exclusive (p : Process) : Prop where
  size : p.background.targets.length = TARGET_SLOTS
  slot : ∀ h ∈ p.held, p.background.targets[h.permit.slot]? = some (some h.scope)
  kind : ∀ h ∈ p.held, h.permit.slot ∈ available h.job TARGET_SLOTS
  distinct : (p.held.map fun h => h.permit.slot).Nodup
  scope : ∀ (i j : ℕ) (scope : Text), p.background.targets[i]? = some (some scope) →
    p.background.targets[j]? = some (some scope) → i = j

namespace Process

variable {p : Process}

/-- A permit is given back. -/
def drop (p : Process) (h : Held) : Process := ⟨p.background.drop h.permit, p.held.erase h⟩

/-- The release of the permit has been acknowledged. -/
def acknowledge (p : Process) (h : Held) : Process :=
  ⟨p.background, p.held.map fun g => if g = h then { g with permit.release := none } else g⟩

theorem exclusive_new : Exclusive ⟨new, []⟩ where
  size := rfl
  slot _ h := absurd h List.not_mem_nil
  kind _ h := absurd h List.not_mem_nil
  distinct := List.nodup_nil
  scope i j scope h := by
    obtain ⟨hi, h⟩ := List.getElem?_eq_some_iff.mp h
    simp [new] at h

namespace Exclusive

/-- **No two live permits of a process are for the same scope.** -/
theorem nodup_scopes (hp : p.Exclusive) : (p.held.map Held.scope).Nodup := by
  refine hp.distinct.of_map.map_on fun g hg h hh heq => ?_
  refine List.inj_on_of_nodup_map hp.distinct hg hh ?_
  exact hp.scope _ _ g.scope (hp.slot g hg) (heq ▸ hp.slot h hh)

/-- Only the slots matter. -/
theorem releases (hp : p.Exclusive) (releases : List TargetRelease) :
    Exclusive ⟨⟨p.background.targets, releases⟩, p.held⟩ :=
  ⟨hp.size, hp.slot, hp.kind, hp.distinct, hp.scope⟩

theorem acknowledge (hp : p.Exclusive) (h : Held) : (p.acknowledge h).Exclusive where
  size := hp.size
  scope := hp.scope
  slot g hg := by
    obtain ⟨f, hf, rfl⟩ := List.mem_map.mp hg
    split_ifs <;> exact hp.slot f hf
  kind g hg := by
    obtain ⟨f, hf, rfl⟩ := List.mem_map.mp hg
    split_ifs <;> exact hp.kind f hf
  distinct := by
    have hslots : (fun h : Held => h.permit.slot) ∘
        (fun g => if g = h then { g with permit.release := none } else g) =
          fun g => g.permit.slot := by
      funext g
      rw [Function.comp_apply]
      split_ifs <;> rfl
    rw [Process.acknowledge, List.map_map, hslots]
    exact hp.distinct

theorem drop (hp : p.Exclusive) {h : Held} (hh : h ∈ p.held) : (p.drop h).Exclusive where
  size := (List.length_set ..).trans hp.size
  slot g hg := by
    obtain ⟨hne, hg⟩ := hp.distinct.of_map.mem_erase_iff.mp hg
    have hslot : h.permit.slot ≠ g.permit.slot := fun heq =>
      hne (List.inj_on_of_nodup_map hp.distinct hg hh heq.symm)
    rw [Process.drop, Background.drop, List.getElem?_set_ne hslot]
    exact hp.slot g hg
  kind g hg := hp.kind g (List.mem_of_mem_erase hg)
  distinct := hp.distinct.sublist (List.erase_sublist.map _)
  scope i j scope hi hj := by
    have hold : ∀ i : ℕ, (p.drop h).background.targets[i]? = some (some scope) →
        p.background.targets[i]? = some (some scope) := by
      intro i hi
      rw [Process.drop, Background.drop, List.getElem?_set] at hi
      split_ifs at hi
      · cases hi
      · exact hi
    exact hp.scope i j scope (hold i hi) (hold j hj)

theorem grant (hp : p.Exclusive) {job : Job} {scope : Text} {slot : ℕ} (releases : List TargetRelease)
    (release : Option TargetRelease) (hscope : some scope ∉ p.background.targets)
    (hfree : p.background.targets[slot]? = some none)
    (hkind : slot ∈ available job p.background.targets.length) :
    Exclusive ⟨⟨p.background.targets.set slot (some scope), releases⟩,
      ⟨job, scope, ⟨slot, release⟩⟩ :: p.held⟩ := by
  have hlt : slot < p.background.targets.length := (List.getElem?_eq_some_iff.mp hfree).1
  have hother : ∀ h ∈ p.held, slot ≠ h.permit.slot := by
    rintro h hh rfl
    cases hfree.symm.trans (hp.slot h hh)
  refine ⟨(List.length_set ..).trans hp.size, ?_, ?_, ?_, ?_⟩
  · refine List.forall_mem_cons.mpr ⟨List.getElem?_set_self hlt, fun h hh => ?_⟩
    exact (List.getElem?_set_ne (hother h hh)).trans (hp.slot h hh)
  · exact List.forall_mem_cons.mpr ⟨hp.size ▸ hkind, hp.kind⟩
  · refine List.nodup_cons.mpr ⟨fun hmem => ?_, hp.distinct⟩
    obtain ⟨h, hh, heq⟩ := List.mem_map.mp hmem
    exact hother h hh heq.symm
  · have hcase : ∀ (i : ℕ) (sc : Text),
        (p.background.targets.set slot (some scope))[i]? = some (some sc) →
        i = slot ∧ sc = scope ∨ i ≠ slot ∧ p.background.targets[i]? = some (some sc) ∧ sc ≠ scope := by
      intro i sc hi
      by_cases heq : slot = i
      · subst heq
        rw [List.getElem?_set_self hlt] at hi
        exact .inl ⟨rfl, (Option.some.inj (Option.some.inj hi)).symm⟩
      · rw [List.getElem?_set_ne heq] at hi
        refine .inr ⟨Ne.symm heq, hi, ?_⟩
        rintro rfl
        exact hscope (List.mem_of_getElem? hi)
    intro i j sc hi hj
    rcases hcase i sc hi with ⟨rfl, rfl⟩ | ⟨-, hi, hne⟩
    · rcases hcase j _ hj with ⟨rfl, -⟩ | ⟨-, -, hne⟩
      · rfl
      · exact absurd rfl hne
    · rcases hcase j sc hj with ⟨-, heq⟩ | ⟨-, hj, -⟩
      · exact absurd heq hne
      · exact hp.scope i j sc hi hj

end Exclusive

end Process

/-! ## The system -/

/-- An admission, as history. -/
structure Admitted where
  owner : Text
  scope : Text
  generation : ℕ

/-- The open transaction: whose it is, what it would leave, and the releases it settled. -/
structure Transaction (Node : Type) where
  node : Node
  ledger : Ledger
  settled : List TargetRelease

/-- The store, its open transaction and all processes. -/
structure System (Node : Type) where
  now : ℕ
  ledger : Ledger
  working : Option (Transaction Node)
  process : Node → Process
  admitted : List Admitted

/-- No rows and no permits. -/
def System.init (Node : Type) (now : ℕ) : System Node := ⟨now, .empty, none, fun _ => ⟨new, []⟩, []⟩

/-- What may happen next. -/
inductive Event (Node : Type) where
  | tick (now : ℕ)
  /-- A writer takes the write lock. -/
  | start (n : Node)
  /-- `try_target_in` in the open transaction, with the generated owner id. -/
  | tryTarget (job : Job) (scope owner : Text)
  /-- A storage error in `try_target_in`, before or after the queue is cleared. -/
  | fail (cleared : Bool)
  | commit
  | abort
  /-- `release` in a transaction of its own, which may commit without an answer. -/
  | release (n : Node) (h : Held) (acknowledged : Bool)
  | drop (n : Node) (h : Held)
  /-- The process ends, and starts again. -/
  | crash (n : Node)

section

variable {Node : Type}

/-- One process changes. -/
def System.setProcess [DecidableEq Node] (s : System Node) (n : Node) (p : Process) : System Node :=
  { s with process := Function.update s.process n p }

/-- What an event leads to, if it can happen. -/
def System.next [DecidableEq Node] (digest : Text → Text) (s : System Node) :
    Event Node → Option (System Node)
  | .tick now => if s.now ≤ now then some { s with now } else none
  | .start n =>
    if s.working.isNone then some { s with working := some ⟨n, s.ledger, []⟩ } else none
  | .tryTarget job scope owner => do
    let w ← s.working
    if owner ∈ s.admitted.map Admitted.owner then none
    else
      let p := s.process w.node
      match p.background.tryTargetIn digest s.now owner w.ledger job scope with
      | (b, .error _) => some { s.setProcess w.node ⟨b, p.held⟩ with working := none }
      | (b, .ok (ledger, none)) =>
        some { s.setProcess w.node ⟨b, p.held⟩ with
          working := some ⟨w.node, ledger, p.background.targetReleases ++ w.settled⟩ }
      | (b, .ok (ledger, some permit)) =>
        some { s.setProcess w.node ⟨b, ⟨job, scope, permit⟩ :: p.held⟩ with
          working := some ⟨w.node, ledger, p.background.targetReleases ++ w.settled⟩
          admitted := ⟨owner, scope, (permit.release.map TargetRelease.generation).getD 0⟩ ::
            s.admitted }
  | .fail cleared => do
    let w ← s.working
    let p := s.process w.node
    some { s.setProcess w.node ⟨⟨p.background.targets,
      if cleared then [] else p.background.targetReleases⟩, p.held⟩ with working := none }
  | .commit => do
    let w ← s.working
    some { s with ledger := w.ledger, working := none }
  | .abort => do
    let _ ← s.working
    some { s with working := none }
  | .release n h acknowledged => do
    let release ← h.permit.release
    if s.working.isNone ∧ h ∈ (s.process n).held then
      let s' := { s with ledger := settle s.ledger release }
      some (if acknowledged then s'.setProcess n ((s.process n).acknowledge h) else s')
    else none
  | .drop n h =>
    if h ∈ (s.process n).held then some (s.setProcess n ((s.process n).drop h)) else none
  | .crash n =>
    some { s.setProcess n ⟨new, []⟩ with working := s.working.filter fun w => w.node ≠ n }

/-- The releases that an event settles in the ledger. -/
def System.settledBy (s : System Node) : Event Node → List TargetRelease
  | .commit => (s.working.map Transaction.settled).getD []
  | .release _ h _ => h.permit.release.toList
  | _ => []

/-- The release is that of an admission. -/
def Known (digest : Text → Text) (admitted : List Admitted) (release : TargetRelease) : Prop :=
  ∃ e ∈ admitted, release = ⟨digest e.scope, e.owner, e.generation⟩

/-- A ledger whose rows stem from admissions, of which there are not too many. -/
structure Sound.Rows (digest : Text → Text) (admitted : List Admitted) (l : Ledger) : Prop where
  known : ∀ k r, l.get? k = some r → Known digest admitted ⟨k, r.owner, r.generation⟩
  bounded : l.entries.length ≤ MAX_ADMISSIONS

/-- The releases that are still to come. -/
def Process.releases (p : Process) : List TargetRelease :=
  p.background.targetReleases ++ p.held.filterMap fun h => h.permit.release

theorem Process.releases_acknowledge {p : Process} (h : Held) :
    (p.acknowledge h).releases ⊆ p.releases := by
  intro r hr
  rcases List.mem_append.mp hr with hr | hr
  · exact List.mem_append_left _ hr
  · obtain ⟨g, hg, hr⟩ := List.mem_filterMap.mp hr
    obtain ⟨f, hf, rfl⟩ := List.mem_map.mp hg
    split_ifs at hr
    exact List.mem_append_right _ (List.mem_filterMap.mpr ⟨f, hf, hr⟩)

theorem Process.releases_drop {p : Process} {h : Held} (hh : h ∈ p.held) :
    (p.drop h).releases ⊆ p.releases := by
  intro r hr
  rcases List.mem_append.mp hr with hr | hr
  · rcases List.mem_append.mp hr with hr | hr
    · exact List.mem_append_left _ hr
    · exact List.mem_append_right _ (List.mem_filterMap.mpr ⟨h, hh, Option.mem_toList.mp hr⟩)
  · obtain ⟨g, hg, hr⟩ := List.mem_filterMap.mp hr
    exact List.mem_append_right _ (List.mem_filterMap.mpr ⟨g, List.mem_of_mem_erase hg, hr⟩)

/-- The invariant of all runs. -/
structure Sound (digest : Text → Text) (s : System Node) : Prop where
  owners : (s.admitted.map Admitted.owner).Nodup
  process : ∀ n, (s.process n).Exclusive
  releases : ∀ n, ∀ release ∈ (s.process n).releases, Known digest s.admitted release
  ledger : Sound.Rows digest s.admitted s.ledger
  working : ∀ w, s.working = some w → Sound.Rows digest s.admitted w.ledger ∧
    Keeps s.now w.settled s.ledger w.ledger ∧ ∀ release ∈ w.settled, Known digest s.admitted release

/-! ## The invariant is kept -/

variable {digest : Text → Text} {s s' : System Node} {e : Event Node}

variable {admitted : List Admitted}

theorem Known.mono {release : TargetRelease} (h : Known digest admitted release) (e : Admitted) :
    Known digest (e :: admitted) release :=
  h.imp fun _ hd => hd.imp_left (List.mem_cons_of_mem _)

theorem Sound.Rows.mono {l : Ledger} (h : Sound.Rows digest admitted l) (e : Admitted) :
    Sound.Rows digest (e :: admitted) l :=
  ⟨fun k r hr => (h.known k r hr).mono e, h.bounded⟩

theorem Sound.Rows.shrinks {at_ : ℕ} {releases : List TargetRelease} {l l' : Ledger}
    (h : Sound.Rows digest admitted l) (hl : Shrinks at_ releases l l') :
    Sound.Rows digest admitted l' :=
  ⟨fun k r hr => h.known k r (hl.sub k r hr), hl.length.trans h.bounded⟩

namespace Sound

theorem init (now : ℕ) : Sound digest (System.init Node now) where
  owners := List.nodup_nil
  process _ := Process.exclusive_new
  releases _ _ h := absurd h List.not_mem_nil
  ledger := ⟨fun _ _ h => (nomatch h), Nat.zero_le _⟩
  working _ h := by cases h

theorem abort (hs : Sound digest s) : Sound digest { s with working := none } :=
  ⟨hs.owners, hs.process, hs.releases, hs.ledger, fun _ h => by cases h⟩

/-- The open transaction has settled the queue of its process. -/
theorem settle (hs : Sound digest s) {w : Transaction Node} (hw : s.working = some w) {l' : Ledger}
    (hl : Shrinks s.now (s.process w.node).background.targetReleases w.ledger l') :
    Rows digest s.admitted l' ∧
      Keeps s.now ((s.process w.node).background.targetReleases ++ w.settled) s.ledger l' ∧
      ∀ release ∈ (s.process w.node).background.targetReleases ++ w.settled,
        Known digest s.admitted release := by
  obtain ⟨hrows, hkeeps, hknown⟩ := hs.working w hw
  refine ⟨hrows.shrinks hl, ?_, fun release hrelease => ?_⟩
  · exact (hkeeps.mono le_rfl (List.subset_append_right ..)).trans
      (hl.keeps.mono le_rfl (List.subset_append_left ..))
  · rcases List.mem_append.mp hrelease with h | h
    · exact hs.releases w.node release (List.mem_append_left _ h)
    · exact hknown release h

variable [DecidableEq Node]

theorem forall_setProcess (s : System Node) (n : Node) (p : Process) (P : Process → Prop) :
    (∀ m, P ((s.setProcess n p).process m)) ↔ P p ∧ ∀ m, m ≠ n → P (s.process m) :=
  Function.forall_update_iff s.process fun _ => P

theorem setProcess (hs : Sound digest s) (n : Node) {p : Process} (hp : p.Exclusive)
    (hreleases : ∀ release ∈ p.releases, Known digest s.admitted release) :
    Sound digest (s.setProcess n p) where
  owners := hs.owners
  process := (forall_setProcess s n p _).mpr ⟨hp, fun m _ => hs.process m⟩
  releases := (forall_setProcess s n p fun q =>
    ∀ release ∈ q.releases, Known digest s.admitted release).mpr
    ⟨hreleases, fun m _ => hs.releases m⟩
  ledger := hs.ledger
  working := hs.working

/-- The queue of a process may be cleared. -/
theorem clear (hs : Sound digest s) (n : Node) {queue : List TargetRelease}
    (hqueue : queue ⊆ (s.process n).background.targetReleases) :
    Sound digest (s.setProcess n
      ⟨⟨(s.process n).background.targets, queue⟩, (s.process n).held⟩) := by
  refine hs.setProcess n ((hs.process n).releases queue) fun release hrelease => ?_
  refine hs.releases n release ?_
  rcases List.mem_append.mp hrelease with h | h
  · exact List.mem_append_left _ (hqueue h)
  · exact List.mem_append_right _ h

/-- Admission keeps the invariant. -/
theorem grant (hs : Sound digest s) {w : Transaction Node} (hw : s.working = some w) {job : Job}
    {scope owner : Text} {l' : Ledger} {slot generation : ℕ} {row : Admission}
    (hfresh : owner ∉ s.admitted.map Admitted.owner)
    (hl : Shrinks s.now (s.process w.node).background.targetReleases w.ledger l')
    (hrow : row.owner = owner ∧ row.generation = generation)
    (hexpired : ∀ r, l'.get? (digest scope) = some r → r.expiresAt ≤ s.now)
    (hbound : w.ledger.entries.length ≤ MAX_ADMISSIONS →
      (l'.insert (digest scope) row).entries.length ≤ MAX_ADMISSIONS)
    (hscope : some scope ∉ (s.process w.node).background.targets)
    (hfree : (s.process w.node).background.targets[slot]? = some none)
    (hkind : slot ∈ available job (s.process w.node).background.targets.length) :
    Sound digest { s.setProcess w.node
        ⟨⟨(s.process w.node).background.targets.set slot (some scope), []⟩,
          ⟨job, scope, ⟨slot, some ⟨digest scope, owner, generation⟩⟩⟩ :: (s.process w.node).held⟩ with
      working := some ⟨w.node, l'.insert (digest scope) row,
        (s.process w.node).background.targetReleases ++ w.settled⟩
      admitted := ⟨owner, scope, generation⟩ :: s.admitted } := by
  obtain ⟨hrows, hkeeps, hknown⟩ := hs.settle hw hl
  have hnew : Known digest (⟨owner, scope, generation⟩ :: s.admitted)
    ⟨digest scope, owner, generation⟩ := ⟨_, List.mem_cons_self, rfl⟩
  have hlater : Sound digest { s with
      admitted := ⟨owner, scope, generation⟩ :: s.admitted, working := none } :=
    ⟨List.nodup_cons.mpr ⟨hfresh, hs.owners⟩, hs.process,
      fun n release h => (hs.releases n release h).mono _, hs.ledger.mono _, fun _ h => by cases h⟩
  have hprocess := hlater.setProcess w.node
    ((hs.process w.node).grant [] (some ⟨digest scope, owner, generation⟩) hscope hfree hkind) ?_
  · refine ⟨hprocess.owners, hprocess.process, hprocess.releases, hprocess.ledger, ?_⟩
    rintro _ ⟨⟩
    refine ⟨⟨fun k r hr => ?_, hbound (hs.working w hw).1.bounded⟩, hkeeps.trans ?_,
      fun release h => (hknown release h).mono _⟩
    · rcases OrdMap.get?_insert_cases hr with ⟨rfl, rfl⟩ | ⟨-, hr⟩
      · rw [hrow.1, hrow.2]
        exact hnew
      · exact (hrows.known k r hr).mono _
    · intro k r hr hgone
      rw [OrdMap.get?_insert] at hgone
      split_ifs at hgone with hk
      · exact .inl (hexpired r (hk ▸ hr))
      · exact absurd hr hgone
  · rintro release hrelease
    rcases List.mem_cons.mp hrelease with rfl | hrelease
    · exact hnew
    · exact (hs.releases w.node release (List.mem_append_right _ hrelease)).mono _

theorem tryTarget (hs : Sound digest s) {job : Job} {scope owner : Text}
    (h : s.next digest (.tryTarget job scope owner) = some s') :
    Sound digest s' ∧ s'.ledger = s.ledger := by
  obtain ⟨w, hw, h⟩ := Option.bind_eq_some_iff.mp h
  by_cases hfresh : owner ∈ s.admitted.map Admitted.owner
  · rw [if_pos hfresh] at h
    cases h
  rw [if_neg hfresh] at h
  dsimp only at h
  have heffect := tryTargetIn_effect digest s.now owner (s.process w.node).background w.ledger job
    scope
  generalize hresult : (s.process w.node).background.tryTargetIn digest s.now owner w.ledger job
    scope = result at heffect h
  cases heffect with
  | refused hl =>
    cases h
    have hcleared := hs.clear w.node (List.nil_subset _)
    exact ⟨⟨hcleared.owners, hcleared.process, hcleared.releases, hs.ledger, fun _ hw' => by
      cases hw'
      exact hs.settle hw hl⟩, rfl⟩
  | failed e =>
    cases h
    exact ⟨(hs.clear w.node (List.nil_subset _)).abort, rfl⟩
  | admitted row hl howner hgeneration hexpired hbound hscope hfree hkind =>
    cases h
    exact ⟨hs.grant hw hfresh hl ⟨howner, hgeneration⟩ hexpired hbound hscope hfree hkind, rfl⟩

/-- **One event**: the invariant is kept, and rows go from the ledger only when they have expired or
by a release of their own. -/
theorem next (hs : Sound digest s) (h : s.next digest e = some s') :
    Sound digest s' ∧ Keeps s'.now (s.settledBy e) s.ledger s'.ledger := by
  cases e with
  | tick now =>
    rw [System.next] at h
    split_ifs at h with hnow
    cases h
    refine ⟨⟨hs.owners, hs.process, hs.releases, hs.ledger, fun w hw => ?_⟩, .refl _⟩
    obtain ⟨hrows, hkeeps, hknown⟩ := hs.working w hw
    exact ⟨hrows, hkeeps.mono hnow (List.Subset.refl _), hknown⟩
  | start n =>
    rw [System.next] at h
    split_ifs at h
    cases h
    refine ⟨⟨hs.owners, hs.process, hs.releases, hs.ledger, fun w hw => ?_⟩, .refl _⟩
    cases hw
    exact ⟨hs.ledger, .refl _, fun _ h => absurd h List.not_mem_nil⟩
  | tryTarget job scope owner =>
    obtain ⟨hsound, hledger⟩ := hs.tryTarget h
    exact ⟨hsound, hledger ▸ .refl _⟩
  | fail cleared =>
    obtain ⟨w, hw, h⟩ := Option.bind_eq_some_iff.mp h
    cases h
    refine ⟨(hs.clear w.node ?_).abort, .refl _⟩
    split_ifs
    · exact List.nil_subset _
    · exact List.Subset.refl _
  | commit =>
    obtain ⟨w, hw, h⟩ := Option.bind_eq_some_iff.mp h
    cases h
    obtain ⟨hrows, hkeeps, -⟩ := hs.working w hw
    refine ⟨⟨hs.owners, hs.process, hs.releases, hrows, fun _ h => by cases h⟩, ?_⟩
    rw [System.settledBy, hw]
    exact hkeeps
  | abort =>
    obtain ⟨w, hw, h⟩ := Option.bind_eq_some_iff.mp h
    cases h
    exact ⟨hs.abort, .refl _⟩
  | release n h' acknowledged =>
    obtain ⟨release, hrelease, h⟩ := Option.bind_eq_some_iff.mp h
    by_cases hcan : s.working.isNone ∧ h' ∈ (s.process n).held
    swap
    · rw [if_neg hcan] at h
      cases h
    rw [if_pos hcan] at h
    have hshrinks : Shrinks s.now [release] s.ledger (Background.settle s.ledger release) :=
      shrinks_settle List.mem_cons_self
    have hsettled : Sound digest { s with ledger := Background.settle s.ledger release } :=
      ⟨hs.owners, hs.process, hs.releases, hs.ledger.shrinks hshrinks, fun w hw => by
        rw [Option.isNone_iff_eq_none.mp hcan.1] at hw
        cases hw⟩
    rw [System.settledBy, hrelease]
    obtain rfl := Option.some.inj h
    cases acknowledged with
    | false => exact ⟨hsettled, hshrinks.keeps⟩
    | true =>
      exact ⟨hsettled.setProcess n ((hs.process n).acknowledge h') fun r hr =>
        hs.releases n r (Process.releases_acknowledge h' hr), hshrinks.keeps⟩
  | drop n h' =>
    rw [System.next] at h
    split_ifs at h with hheld
    cases h
    exact ⟨hs.setProcess n ((hs.process n).drop hheld) fun r hr =>
      hs.releases n r (Process.releases_drop hheld hr), .refl _⟩
  | crash n =>
    cases h
    have hnew := hs.setProcess n Process.exclusive_new fun _ h => absurd h List.not_mem_nil
    refine ⟨⟨hnew.owners, hnew.process, hnew.releases, hnew.ledger, fun w hw => ?_⟩, .refl _⟩
    exact hs.working w (Option.filter_eq_some_iff.mp hw).1

end Sound

/-- What a release removes has its own owner. -/
theorem owner_of_settle {l : Ledger} {release : TargetRelease} {k : Text} {r : Admission}
    (hr : l.get? k = some r) (hgone : (settle l release).get? k ≠ some r) :
    r.owner = release.owner := by
  unfold settle at hgone
  split at hgone
  · rename_i current hcurrent
    split_ifs at hgone with hown
    · rw [OrdMap.get?_erase] at hgone
      split_ifs at hgone with hk
      · subst hk
        cases hcurrent.symm.trans hr
        exact hown.1
      · exact absurd hr hgone
    · exact absurd hr hgone
  · exact absurd hr hgone

/-- **Connector admission is exclusive and bounded**, in every state that events lead to:
* one row at most is there for a scope, and one live permit at most in each process;
* the ledger never has more than `MAX_ADMISSIONS` rows;
* a release that is still to come removes no row but that of its own admission;
* whatever happens next, a row that has not expired is only removed or replaced by settling the
  release of its own owner;
* general jobs and deactivations keep to their own slots. -/
theorem connector_admission_exclusive [DecidableEq Node] {now : ℕ} {es : List (Event Node)}
    (run : Run (fun s e s' => s.next digest e = some s') (System.init Node now) es s) :
    (∀ k r k' r', s.ledger.get? k = some r → s.ledger.get? k' = some r' →
      ∀ a ∈ s.admitted, ∀ a' ∈ s.admitted, a.owner = r.owner → a'.owner = r'.owner →
        a.scope = a'.scope → k = k' ∧ r = r') ∧
    (∀ n, ((s.process n).held.map Held.scope).Nodup) ∧
    s.ledger.entries.length ≤ MAX_ADMISSIONS ∧
    (∀ n, ∀ release ∈ (s.process n).releases, ∃ a ∈ s.admitted,
      release = ⟨digest a.scope, a.owner, a.generation⟩ ∧
        ∀ (l : Ledger) k r, l.get? k = some r → (settle l release).get? k ≠ some r →
          ∀ a' ∈ s.admitted, a'.owner = r.owner → a' = a) ∧
    (∀ e s', s.next digest e = some s' → Keeps s'.now (s.settledBy e) s.ledger s'.ledger) ∧
    ∀ n, ∀ h ∈ (s.process n).held, (h.permit.slot < CONNECTOR_SLOTS ↔ h.job ≠ .deactivation) := by
  have hs : Sound digest s := run.invariant (fun _ _ _ h hs => (hs.next h).1) (.init now)
  have hunique : ∀ a ∈ s.admitted, ∀ a' ∈ s.admitted, a.owner = a'.owner → a = a' :=
    fun a ha a' ha' => List.inj_on_of_nodup_map hs.owners ha ha'
  refine ⟨?_, fun n => (hs.process n).nodup_scopes, hs.ledger.bounded, ?_, fun e s' h => (hs.next h).2,
    ?_⟩
  · intro k r k' r' hr hr' a ha a' ha' howner howner' hscope
    obtain ⟨b, hb, hkey⟩ := hs.ledger.known k r hr
    obtain ⟨b', hb', hkey'⟩ := hs.ledger.known k' r' hr'
    obtain rfl := hunique a ha b hb (howner.trans (congrArg TargetRelease.owner hkey))
    obtain rfl := hunique a' ha' b' hb' (howner'.trans (congrArg TargetRelease.owner hkey'))
    obtain rfl : k = k' := (congrArg TargetRelease.key hkey).trans
      ((congrArg digest hscope).trans (congrArg TargetRelease.key hkey').symm)
    exact ⟨rfl, Option.some.inj (hr.symm.trans hr')⟩
  · intro n release hrelease
    obtain ⟨a, ha, rfl⟩ := hs.releases n release hrelease
    refine ⟨a, ha, rfl, fun l k r hr hgone a' ha' howner => ?_⟩
    exact hunique a' ha' a ha (howner.trans (owner_of_settle hr hgone))
  · intro n h hh
    have hkind := (hs.process n).kind h hh
    unfold available at hkind
    split_ifs at hkind with hjob
    · obtain ⟨hle, -⟩ := List.mem_range'_1.mp hkind
      exact iff_of_false (not_lt.mpr hle) (not_not.mpr hjob)
    · exact iff_of_true (List.mem_range.mp hkind) hjob

/-- The permit that the first of two processes gets. -/
def firstAdmission : Held :=
  ⟨.provisioning, "scim/a".toList, ⟨0, some ⟨"scim/a".toList, "1".toList, 1⟩⟩⟩

/-- Two processes want one target. The second is refused until the row of the first expires, and
then replaces it. The first process drops its permit late, and its next admission settles the stale
release. -/
def contest : List (Event Bool) :=
  [.start false, .tryTarget .provisioning "scim/a".toList "1".toList, .commit,
    .start true, .tryTarget .provisioning "scim/a".toList "2".toList, .commit, .tick 60,
    .start true, .tryTarget .provisioning "scim/a".toList "3".toList, .commit,
    .drop false firstAdmission,
    .start false, .tryTarget .provisioning "scim/b".toList "4".toList, .commit]

/-- The stale release leaves the new row where it is. -/
theorem connector_admission_exclusive_of_two : ∃ s : System Bool,
    Run (fun s e s' => s.next id e = some s') (System.init Bool 0) contest s ∧
      s.ledger.get? "scim/a".toList = some ⟨"3".toList, 2, 120⟩ ∧
      s.ledger.entries.length ≤ MAX_ADMISSIONS ∧
      ∀ e s', s.next id e = some s' → Keeps s'.now (s.settledBy e) s.ledger s'.ledger := by
  have run : Run (fun s e s' => s.next id e = some s') (System.init Bool 0) contest _ :=
    .cons rfl (.cons rfl (.cons rfl (.cons rfl (.cons rfl (.cons rfl (.cons rfl (.cons rfl
      (.cons rfl (.cons rfl (.cons rfl (.cons rfl (.cons rfl (.cons rfl .nil)))))))))))))
  have hlaw := connector_admission_exclusive run
  exact ⟨_, run, rfl, hlaw.2.2.1, hlaw.2.2.2.2.1⟩

end

end RiAuth.Background
