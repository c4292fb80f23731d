import RiAuth.Background.Targets

/-!
# Releases of dropped permits

Dropping a permit queues its release in memory, and the next admission settles the queue inside its
own transaction. The queue is cleared at once, whether or not that transaction commits.

* `System.interrupts`: a transaction is given up after it has taken the release from the queue;
* `System.abandons`: so that the row of the release stays;
* `Queued`, `Draining`, `Settled`: where the release of a dropped permit is;
* **`dropped_release_settled`**: unless it is abandoned, the release has removed its row once a
  later admission of the process commits;
* `dropped_release_lost`: after an abort the row stays.
-/

namespace RiAuth.Background

open History

/-- The row of the admission is not there. -/
def TargetRelease.Gone (release : TargetRelease) (l : Ledger) : Prop :=
  ∀ row, l.get? release.key = some row →
    ¬ (row.owner = release.owner ∧ row.generation = release.generation)

section

variable {release : TargetRelease} {l l' : Ledger} {at_ : ℕ} {releases : List TargetRelease}

theorem TargetRelease.Gone.shrinks (h : release.Gone l) (hl : Shrinks at_ releases l l') :
    release.Gone l' :=
  fun row hrow => h row (hl.sub _ _ hrow)

theorem gone_settle (l : Ledger) (release : TargetRelease) : release.Gone (settle l release) := by
  intro row hrow
  unfold settle at hrow
  split at hrow
  · rename_i current hcurrent
    split_ifs at hrow with hown
    · rw [OrdMap.get?_erase, if_pos rfl] at hrow
      cases hrow
    · cases hcurrent.symm.trans hrow
      exact hown
  · rename_i hnone
    cases hnone.symm.trans hrow

/-- **Settling a queue removes the row of each release in it.** -/
theorem gone_settleAll (h : release ∈ releases) (l : Ledger) :
    release.Gone (releases.foldl settle l) := by
  induction releases generalizing l with
  | nil => cases h
  | cons first releases ih =>
    rw [List.foldl_cons]
    rcases List.mem_cons.mp h with rfl | h
    · exact (gone_settle l release).shrinks (shrinks_settleAll _ : Shrinks 0 _ _ _)
    · exact ih h _

/-- A new admission has an owner of its own. -/
theorem TargetRelease.Gone.insert (h : release.Gone l) {key : Text} {row : Admission}
    (howner : row.owner ≠ release.owner) : release.Gone (l.insert key row) := by
  intro row' hrow'
  rcases OrdMap.get?_insert_cases hrow' with ⟨-, rfl⟩ | ⟨-, hold⟩
  · exact fun hsame => howner hsame.1
  · exact h row' hold

end

/-- The queue is settled before anything else. -/
theorem tryTargetIn_settled (digest : Text → Text) (at_ : ℕ) (owner : Text) (b : Background)
    (l : Ledger) (job : Job) (scope : Text) :
    b.tryTargetIn digest at_ owner l job scope =
      (⟨b.targets, []⟩ : Background).tryTargetIn digest at_ owner (b.targetReleases.foldl settle l)
        job scope :=
  rfl

variable {Node : Type} {digest : Text → Text} {release : TargetRelease} {n : Node}
  {s s' : System Node} {e : Event Node}

/-! ## Where a release is -/

/-- The event gives up a transaction of the process that has cleared the queue, or ends the
process. -/
def System.interrupts (digest : Text → Text) (release : TargetRelease) (n : Node)
    (s : System Node) : Event Node → Prop
  | .abort => ∃ w, s.working = some w ∧ w.node = n ∧ release ∈ w.settled
  | .fail cleared =>
    ∃ w, s.working = some w ∧ w.node = n ∧ (release ∈ w.settled ∨ cleared = true)
  | .tryTarget job scope owner => ∃ w e, s.working = some w ∧ w.node = n ∧
    ((s.process n).background.tryTargetIn digest s.now owner w.ledger job scope).2 = .error e
  | .crash m => m = n
  | _ => False

/-- The row of the release is there without the open transaction of the process. -/
def Left (release : TargetRelease) (n : Node) (s : System Node) : Prop :=
  ¬ release.Gone s.ledger ∨ ∃ w, s.working = some w ∧ w.node ≠ n ∧ ¬ release.Gone w.ledger

/-- The event interrupts the release while its row is there. -/
def System.abandons (digest : Text → Text) (release : TargetRelease) (n : Node) (s : System Node)
    (e : Event Node) : Prop :=
  s.interrupts digest release n e ∧ Left release n s

theorem not_abandons_start (s : System Node) (m : Node) :
    ¬ s.abandons digest release n (.start m) := fun h => h.1

/-- A process still has the release to do. -/
def Queued (release : TargetRelease) (n : Node) (s : System Node) : Prop :=
  release ∈ (s.process n).background.targetReleases

/-- The open transaction has settled the release. -/
def Draining (release : TargetRelease) (n : Node) (s : System Node) : Prop :=
  ∃ w, s.working = some w ∧ w.node = n ∧ release ∈ w.settled ∧ release.Gone w.ledger

/-- No row of the release is left, committed or not. -/
def Settled (release : TargetRelease) (s : System Node) : Prop :=
  release.Gone s.ledger ∧ ∀ w, s.working = some w → release.Gone w.ledger

theorem settled_of_idle (h : release.Gone s.ledger) (hidle : s.working = none) :
    Settled release s := by
  refine ⟨h, fun w hw => ?_⟩
  rw [hidle] at hw
  cases hw

theorem Queued.of_process (h : Queued release n s) (hp : s'.process n = s.process n) :
    Queued release n s' := by
  rw [Queued, hp]
  exact h

theorem queued_of_mem {p : Process} (hp : s'.process n = p)
    (h : release ∈ p.background.targetReleases) : Queued release n s' := by
  rw [Queued, hp]
  exact h

variable [DecidableEq Node]

theorem process_of_ne {m : Node} (h : m ≠ n) (p : Process) :
    (s.setProcess n p).process m = s.process m := by
  exact Function.update_of_ne h p s.process

/-- What an admission does to a release. -/
theorem tryTarget_release (hknown : Known digest s.admitted release) {job : Job}
    {scope owner : Text} (h : s.next digest (.tryTarget job scope owner) = some s') :
    ∃ w, s.working = some w ∧ s'.ledger = s.ledger ∧ Known digest s'.admitted release ∧
      (∀ m, m ≠ w.node → s'.process m = s.process m) ∧
      ((s'.working = none ∧ ∃ e, ((s.process w.node).background.tryTargetIn digest s.now owner
          w.ledger job scope).2 = .error e) ∨
        ∃ l', s'.working = some ⟨w.node, l',
            (s.process w.node).background.targetReleases ++ w.settled⟩ ∧
          (release.Gone w.ledger ∨ release ∈ (s.process w.node).background.targetReleases →
            release.Gone l')) := by
  obtain ⟨w, hw, h⟩ := Option.bind_eq_some_iff.mp h
  by_cases hfresh : owner ∈ s.admitted.map Admitted.owner
  · rw [if_pos hfresh] at h
    cases h
  rw [if_neg hfresh] at h
  dsimp only at h
  have hother : ∀ (p : Process) (m : Node), m ≠ w.node →
      (s.setProcess w.node p).process m = s.process m := fun p m hm => process_of_ne hm p
  have hsettled : release.Gone w.ledger ∨
      release ∈ (s.process w.node).background.targetReleases →
      release.Gone ((s.process w.node).background.targetReleases.foldl settle w.ledger) := by
    rintro (hgone | hqueued)
    · exact hgone.shrinks (shrinks_settleAll _ : Shrinks 0 _ _ _)
    · exact gone_settleAll hqueued _
  have heffect := tryTargetIn_effect digest s.now owner ⟨(s.process w.node).background.targets, []⟩
    ((s.process w.node).background.targetReleases.foldl settle w.ledger) job scope
  rw [← tryTargetIn_settled] at heffect
  refine ⟨w, hw, ?_⟩
  generalize (s.process w.node).background.tryTargetIn digest s.now owner w.ledger job scope =
    result at heffect h ⊢
  cases heffect with
  | refused hl =>
    cases h
    exact ⟨rfl, hknown, hother _, .inr ⟨_, rfl, fun hrelease => (hsettled hrelease).shrinks hl⟩⟩
  | failed e =>
    cases h
    exact ⟨rfl, hknown, hother _, .inl ⟨rfl, e, rfl⟩⟩
  | admitted row hl howner hgeneration _ _ _ _ _ =>
    cases h
    refine ⟨rfl, hknown.mono _, hother _, .inr ⟨_, rfl, fun hrelease => ?_⟩⟩
    refine ((hsettled hrelease).shrinks hl).insert fun hsame => hfresh ?_
    obtain ⟨a, ha, rfl⟩ := hknown
    exact List.mem_map.mpr ⟨a, ha, hsame.symm.trans howner⟩

/-- **One event**: a release that is settled stays settled; one that is in the open transaction is
settled when that commits; and one that is queued waits for an admission. -/
theorem next_release (hknown : Known digest s.admitted release)
    (h : s.next digest e = some s') :
    Known digest s'.admitted release ∧ (Settled release s → Settled release s') ∧
      (Draining release n s → Draining release n s' ∨ Settled release s' ∨
        (s.interrupts digest release n e ∧ s'.working = none)) ∧
      (Queued release n s → Queued release n s' ∨ Draining release n s' ∨
        s.interrupts digest release n e) := by
  cases e with
  | tick now =>
    rw [System.next] at h
    split_ifs at h
    cases h
    exact ⟨hknown, id, .inl, .inl⟩
  | start m =>
    rw [System.next] at h
    split_ifs at h with hnone
    cases h
    refine ⟨hknown, fun hs => ⟨hs.1, ?_⟩, ?_, .inl⟩
    · rintro w ⟨⟩
      exact hs.1
    · rintro ⟨w, hw, -⟩
      rw [hw] at hnone
      cases hnone
  | tryTarget job scope owner =>
    obtain ⟨w, hw, hledger, hknown', hother, hend⟩ := tryTarget_release hknown h
    refine ⟨hknown', fun hs => ⟨hledger ▸ hs.1, fun w' hw' => ?_⟩, ?_, fun hq => ?_⟩
    · obtain ⟨hnone, -⟩ | ⟨l', hsome, hgone⟩ := hend
      · cases hnone.symm.trans hw'
      · cases hsome.symm.trans hw'
        exact hgone (.inl (hs.2 w hw))
    · rintro ⟨w', hw', rfl, hmem, hgone'⟩
      cases hw.symm.trans hw'
      obtain ⟨hnone, e, he⟩ | ⟨l', hsome, hgone⟩ := hend
      · exact .inr (.inr ⟨⟨w, e, hw, rfl, he⟩, hnone⟩)
      · exact .inl ⟨_, hsome, rfl, List.mem_append_right _ hmem, hgone (.inl hgone')⟩
    · by_cases hn : w.node = n
      · subst hn
        obtain ⟨-, e, he⟩ | ⟨l', hsome, hgone⟩ := hend
        · exact .inr (.inr ⟨w, e, hw, rfl, he⟩)
        · exact .inr (.inl ⟨_, hsome, rfl, List.mem_append_left _ hq, hgone (.inr hq)⟩)
      · exact .inl (hq.of_process (hother n (Ne.symm hn)))
  | fail cleared =>
    obtain ⟨w, hw, h⟩ := Option.bind_eq_some_iff.mp h
    cases h
    refine ⟨hknown, fun hs => settled_of_idle hs.1 rfl, ?_, fun hq => ?_⟩
    · rintro ⟨w', hw', hn, hmem, -⟩
      exact .inr (.inr ⟨⟨w', hw', hn, .inl hmem⟩, rfl⟩)
    · by_cases hn : w.node = n
      · subst hn
        cases cleared with
        | true => exact .inr (.inr ⟨w, hw, rfl, .inr rfl⟩)
        | false => exact .inl (queued_of_mem (Function.update_self ..) hq)
      · exact .inl (hq.of_process (process_of_ne (Ne.symm hn) _))
  | commit =>
    obtain ⟨w, hw, h⟩ := Option.bind_eq_some_iff.mp h
    cases h
    refine ⟨hknown, fun hs => settled_of_idle (hs.2 w hw) rfl, ?_, .inl⟩
    rintro ⟨w', hw', -, -, hgone⟩
    cases hw.symm.trans hw'
    exact .inr (.inl (settled_of_idle hgone rfl))
  | abort =>
    obtain ⟨w, hw, h⟩ := Option.bind_eq_some_iff.mp h
    cases h
    refine ⟨hknown, fun hs => settled_of_idle hs.1 rfl, ?_, .inl⟩
    rintro ⟨w', hw', hn, hmem, -⟩
    exact .inr (.inr ⟨⟨w', hw', hn, hmem⟩, rfl⟩)
  | release m held acknowledged =>
    obtain ⟨r, -, h⟩ := Option.bind_eq_some_iff.mp h
    by_cases hcan : s.working.isNone ∧ held ∈ (s.process m).held
    swap
    · rw [if_neg hcan] at h
      cases h
    rw [if_pos hcan] at h
    obtain rfl := Option.some.inj h
    have hclosed : s.working = none := Option.isNone_iff_eq_none.mp hcan.1
    have hgone : Settled release s → release.Gone (settle s.ledger r) := fun hs =>
      hs.1.shrinks (shrinks_settle (List.mem_singleton.mpr rfl) : Shrinks 0 [r] _ _)
    have hdraining : ¬ Draining release n s := by
      rintro ⟨w, hw, -⟩
      cases hclosed.symm.trans hw
    cases acknowledged with
    | false => exact ⟨hknown, fun hs => ⟨hgone hs, hs.2⟩, fun hd => absurd hd hdraining, .inl⟩
    | true =>
      refine ⟨hknown, fun hs => ⟨hgone hs, hs.2⟩, fun hd => absurd hd hdraining, fun hq => .inl ?_⟩
      by_cases hn : n = m
      · subst hn
        exact queued_of_mem (Function.update_self ..) hq
      · exact hq.of_process (process_of_ne hn _)
  | drop m held =>
    rw [System.next] at h
    split_ifs at h
    cases h
    refine ⟨hknown, id, .inl, fun hq => .inl ?_⟩
    by_cases hn : n = m
    · subst hn
      exact queued_of_mem (Function.update_self ..) (List.mem_append_left _ hq)
    · exact hq.of_process (process_of_ne hn _)
  | crash m =>
    cases h
    refine ⟨hknown, fun hs => ⟨hs.1, fun w hw => ?_⟩, ?_, fun hq => ?_⟩
    · exact hs.2 w (Option.filter_eq_some_iff.mp hw).1
    · rintro ⟨w, hw, hn, hmem, hgone⟩
      by_cases hm : m = n
      · refine .inr (.inr ⟨hm, ?_⟩)
        simp [hw, hn, hm]
      · refine .inl ⟨w, ?_, hn, hmem, hgone⟩
        simp [hw, hn, Ne.symm hm]
    · by_cases hm : m = n
      · exact .inr (.inr hm)
      · exact .inl (hq.of_process (process_of_ne (Ne.symm hm) _))

/-- Without an open transaction nothing commits, until another starts. -/
theorem working_eq_none (h : s.next digest e = some s') (he : ∀ m, e ≠ .start m)
    (hnone : s.working = none) : s'.working = none := by
  cases e with
  | tick now =>
    rw [System.next] at h
    split_ifs at h
    cases h
    exact hnone
  | start m => exact absurd rfl (he m)
  | release m held acknowledged =>
    obtain ⟨r, -, h⟩ := Option.bind_eq_some_iff.mp h
    by_cases hcan : s.working.isNone ∧ held ∈ (s.process m).held
    · rw [if_pos hcan] at h
      obtain rfl := Option.some.inj h
      cases acknowledged <;> exact hnone
    · rw [if_neg hcan] at h
      cases h
  | drop m held =>
    rw [System.next] at h
    split_ifs at h
    cases h
    exact hnone
  | crash m =>
    cases h
    simp [hnone]
  | _ =>
    obtain ⟨w, hw, -⟩ := Option.bind_eq_some_iff.mp h
    cases hnone.symm.trans hw

/-- On its way, a release is settled unless the transaction is given up. -/
theorem underway_next (hknown : Known digest s.admitted release) (h : s.next digest e = some s')
    (hstatus : Draining release n s ∨ Settled release s) :
    (Draining release n s' ∨ Settled release s') ∨
      (s.interrupts digest release n e ∧ s'.working = none) := by
  obtain ⟨-, hsettled, hdraining, -⟩ := next_release (n := n) hknown h
  rcases hstatus with hd | hs
  · rcases hdraining hd with hd | hs | hinterrupted
    · exact .inl (.inl hd)
    · exact .inl (.inr hs)
    · exact .inr hinterrupted
  · exact .inl (.inr (hsettled hs))

/-- An admission that ends in an error gives up the transaction. -/
theorem tryTarget_of_error {job : Job} {scope owner : Text} {w : Transaction Node} {err : Error}
    (h : s.next digest (.tryTarget job scope owner) = some s') (hw : s.working = some w)
    (herr : ((s.process w.node).background.tryTargetIn digest s.now owner w.ledger job scope).2 =
      .error err) : s'.ledger = s.ledger ∧ s'.working = none := by
  obtain ⟨w', hw', h⟩ := Option.bind_eq_some_iff.mp h
  cases hw.symm.trans hw'
  split_ifs at h
  dsimp only at h
  split at h
  · cases h
    exact ⟨rfl, rfl⟩
  all_goals
    rename_i heq
    rw [heq] at herr
    cases herr

/-- What was interrupted with no row left is settled. -/
theorem settled_of_interrupts (h : s.next digest e = some s')
    (hinterrupted : s.interrupts digest release n e) (hleft : ¬ Left release n s) :
    Settled release s' := by
  obtain ⟨hgone, hother⟩ := not_or.mp hleft
  have hgone := not_not.mp hgone
  cases e with
  | abort =>
    obtain ⟨w, -, h⟩ := Option.bind_eq_some_iff.mp h
    cases h
    exact settled_of_idle hgone rfl
  | fail cleared =>
    obtain ⟨w, -, h⟩ := Option.bind_eq_some_iff.mp h
    cases h
    exact settled_of_idle hgone rfl
  | tryTarget job scope owner =>
    obtain ⟨w, e, hw, rfl, he⟩ := hinterrupted
    obtain ⟨hledger, hidle⟩ := tryTarget_of_error h hw he
    exact settled_of_idle (hledger ▸ hgone) hidle
  | crash m =>
    obtain rfl : m = n := hinterrupted
    cases h
    refine ⟨hgone, fun w hw => by_contra fun hrow => ?_⟩
    obtain ⟨hw, hnode⟩ := Option.filter_eq_some_iff.mp hw
    exact hother ⟨w, hw, of_decide_eq_true hnode, hrow⟩
  | _ => exact hinterrupted.elim

/-! ## Runs -/

/-- **A dropped permit is released.** A permit is dropped, and a later call of `try_target_in` in
its process is made in a transaction that commits. If no event between the two abandons the release,
the row of the permit is not there after the commit. -/
theorem dropped_release_settled {now : ℕ} {s₀ s₁ s₂ s₃ s₄ s₅ : System Node}
    {es₀ es₁ es₂ : List (Event Node)} {held : Held} {w : Transaction Node} {job : Job}
    {scope owner : Text}
    (run₀ : Run (fun s e s' => s.next digest e = some s') (System.init Node now) es₀ s₀)
    (hrelease : held.permit.release = some release)
    (hdrop : s₀.next digest (.drop n held) = some s₁)
    (run₁ : Run (fun s e s' => s.next digest e = some s' ∧ ¬ s.abandons digest release n e)
      s₁ es₁ s₂)
    (hw : s₂.working = some w) (hn : w.node = n)
    (htry : s₂.next digest (.tryTarget job scope owner) = some s₃)
    (run₂ : Run (fun s e s' => s.next digest e = some s') s₃ es₂ s₄)
    (hopen : ∀ m, .start m ∉ es₂) (hcommit : s₄.next digest .commit = some s₅) :
    release.Gone s₅.ledger := by
  have hsound : Sound digest s₀ := run₀.invariant (fun _ _ _ h hs => (hs.next h).1) (.init now)
  have hheld : held ∈ (s₀.process n).held := by
    rw [System.next] at hdrop
    split_ifs at hdrop with hheld
    exact hheld
  have hknown₀ : Known digest s₀.admitted release := hsound.releases n release
    (List.mem_append_right _ (List.mem_filterMap.mpr ⟨held, hheld, hrelease⟩))
  have hqueued : Queued release n s₁ := by
    rw [System.next, if_pos hheld] at hdrop
    cases hdrop
    refine queued_of_mem (Function.update_self ..) (List.mem_append_right _ ?_)
    exact Option.mem_toList.mpr hrelease
  -- until the call, the release waits in the queue or is on its way
  have hbefore : Known digest s₂.admitted release ∧
      (Queued release n s₂ ∨ Draining release n s₂ ∨ Settled release s₂) := by
    refine run₁.invariant (I := fun s => Known digest s.admitted release ∧
      (Queued release n s ∨ Draining release n s ∨ Settled release s)) ?_
      ⟨(next_release (n := n) hknown₀ hdrop).1, .inl hqueued⟩
    rintro s e s' ⟨hnext, hkept⟩ ⟨hknown, hq | hstatus⟩
    · obtain ⟨hknown', -, -, hqueued⟩ := next_release (n := n) hknown hnext
      rcases hqueued hq with hq | hd | hinterrupted
      · exact ⟨hknown', .inl hq⟩
      · exact ⟨hknown', .inr (.inl hd)⟩
      · have hleft : ¬ Left release n s := fun hleft => hkept ⟨hinterrupted, hleft⟩
        exact ⟨hknown', .inr (.inr (settled_of_interrupts hnext hinterrupted hleft))⟩
    · refine ⟨(next_release (n := n) hknown hnext).1, .inr ?_⟩
      rcases underway_next hknown hnext hstatus with hstatus | ⟨hinterrupted, -⟩
      · exact hstatus
      · have hleft : ¬ Left release n s := fun hleft => hkept ⟨hinterrupted, hleft⟩
        exact .inr (settled_of_interrupts hnext hinterrupted hleft)
  obtain ⟨hknown₂, hstatus⟩ := hbefore
  -- the call takes it from the queue, or gives up the transaction
  have hafter : s₃.working = none ∨ Draining release n s₃ ∨ Settled release s₃ := by
    rcases hstatus with hq | hstatus
    · obtain ⟨w', hw', -, -, -, ⟨hnone, -⟩ | ⟨l', hsome, hgone⟩⟩ := tryTarget_release hknown₂ htry
      · exact .inl hnone
      · cases hw.symm.trans hw'
        subst hn
        exact .inr (.inl ⟨_, hsome, rfl, List.mem_append_left _ hq, hgone (.inr hq)⟩)
    · rcases underway_next hknown₂ htry hstatus with hstatus | ⟨-, hnone⟩
      · exact .inr hstatus
      · exact .inl hnone
  have hlast : Known digest s₄.admitted release ∧
      (s₄.working = none ∨ Draining release n s₄ ∨ Settled release s₄) := by
    refine run₂.invariant_on (I := fun s => Known digest s.admitted release ∧
      (s.working = none ∨ Draining release n s ∨ Settled release s)) ?_
      ⟨(next_release (n := n) hknown₂ htry).1, hafter⟩
    rintro e he s s' hnext ⟨hknown, hnone | hstatus⟩
    all_goals refine ⟨(next_release (n := n) hknown hnext).1, ?_⟩
    · exact .inl (working_eq_none hnext (fun m heq => hopen m (heq ▸ he)) hnone)
    · rcases underway_next hknown hnext hstatus with hstatus | ⟨-, hnone⟩
      · exact .inr hstatus
      · exact .inl hnone
  obtain ⟨w', hw', hcommit⟩ := Option.bind_eq_some_iff.mp hcommit
  cases hcommit
  rcases hlast.2 with hnone | ⟨w'', hw'', -, -, hgone⟩ | hs
  · cases hnone.symm.trans hw'
  · cases hw'.symm.trans hw''
    exact hgone
  · exact hs.2 w' hw'

/-! ### A permit that is dropped -/

/-- A permit for the first target. -/
def firstRelease : TargetRelease := ⟨"a".toList, "1".toList, 1⟩

def firstHeld : Held := ⟨.provisioning, "a".toList, ⟨0, some firstRelease⟩⟩

/-- A permit for one target is granted and dropped, and another target is admitted, which settles
the release. The end of the process then does no harm. -/
theorem dropped_release_settled_once : ∃ s : System Unit,
    Run (fun s e s' => s.next id e = some s') (System.init Unit 0)
      [.start (), .tryTarget .provisioning "a".toList "1".toList, .commit, .drop () firstHeld,
        .start (), .tryTarget .provisioning "b".toList "2".toList, .commit, .crash (),
        .start (), .tryTarget .provisioning "c".toList "3".toList, .commit] s ∧
      firstRelease.Gone s.ledger := by
  have run₀ : Run (fun s e s' => s.next id e = some s') (System.init Unit 0)
      [.start (), .tryTarget .provisioning "a".toList "1".toList, .commit] _ :=
    .cons rfl (.cons rfl (.cons rfl .nil))
  refine ⟨_, run₀.append (.cons rfl (.cons rfl (.cons rfl (.cons rfl (.cons rfl (.cons rfl
    (.cons rfl (.cons rfl .nil)))))))), ?_⟩
  refine dropped_release_settled (n := ()) run₀ (show firstHeld.permit.release = some _ from rfl) rfl
    (.cons (e := .start ()) ⟨rfl, not_abandons_start _ _⟩
      (.cons (e := .tryTarget .provisioning "b".toList "2".toList) ⟨rfl, ?_⟩
        (.cons (e := .commit) ⟨rfl, ?_⟩ (.cons (e := .crash ()) ⟨rfl, ?_⟩
          (.cons (e := .start ()) ⟨rfl, not_abandons_start _ _⟩ .nil)))))
    rfl rfl (show System.next id _ (.tryTarget .provisioning "c".toList "3".toList) = some _ from rfl)
    .nil (fun _ => List.not_mem_nil) rfl
  · rintro ⟨⟨w, e, hw, -, he⟩, -⟩
    cases hw
    cases he
  · exact fun h => h.1
  · rintro ⟨-, hrow | ⟨w, hw, -⟩⟩
    · exact hrow fun row hrow => nomatch hrow
    · cases hw

/-- The transaction of the next admission aborts, and the one after it commits. The row of the
dropped permit is still there. -/
theorem dropped_release_lost : ∃ s : System Unit,
    Run (fun s e s' => s.next id e = some s') (System.init Unit 0)
      [.start (), .tryTarget .provisioning "a".toList "1".toList, .commit,
        .drop () firstHeld,
        .start (), .tryTarget .provisioning "b".toList "2".toList, .abort,
        .start (), .tryTarget .provisioning "c".toList "3".toList, .commit] s ∧
      ¬ firstRelease.Gone s.ledger := by
  refine ⟨_, .cons rfl (.cons rfl (.cons rfl (.cons rfl (.cons rfl (.cons rfl (.cons rfl
    (.cons rfl (.cons rfl (.cons rfl .nil))))))))), fun hgone => ?_⟩
  exact hgone ⟨"1".toList, 1, 60⟩ rfl ⟨rfl, rfl⟩

end RiAuth.Background
