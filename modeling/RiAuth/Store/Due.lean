import RiAuth.Lib.Checks
import RiAuth.Lib.Pages
import RiAuth.Lib.Reindex
import RiAuth.Store.Times

/-!
# Claiming from a due queue

The pending rows of a queue are indexed by the time at which they are due. A call reads a page of
the index after a stored cursor and offers its rows to a visitor, up to a cutoff that stays frozen
until the index has been read to its end.

* `connectorDue`: one call;
* `scanPass_spec`: what one pass over a page visits, and how it ends;
* `connectorDue_course`: a call returns, after one pass or two;
* `Course.visits`: **a call visits a row at most once, and only rows that are due.**
-/

namespace RiAuth.Store.Due

variable {ρ σ R : Type} (digest : Text → Text) (due : ρ → Option ℕ)

/-- A queue: its records, the index of the pending ones, and the stored cursor with its cutoff. -/
structure Queue (ρ : Type) where
  records : OrdMap Text ρ
  index : OrdMap Text Text
  cursor : Option (Text × ℕ)

/-- The row of a record in the index: pending records have one, under the time at which they are
due. -/
def dueRow (id : Text) (record : ρ) : Option Text := (due record).map fun d => indexKey digest d id

/-- A write of a record, or its removal, with what `update_queue_indexes` does to the due index. -/
def Queue.write (q : Queue ρ) (id : Text) (record : Option ρ) : Queue ρ :=
  { q with
    records := q.records.set id record
    index := Reindex.update (dueRow digest due) q.records q.index id record }

/-- What a visitor makes of a row: its own state, the row as it leaves it, and a result if it
accepts. -/
structure Verdict (σ ρ R : Type) where
  state : σ
  record : Option ρ
  result : Option R

/-- A visitor. It is given an identifier and its record. -/
abbrev Visitor (σ ρ R : Type) := σ → Text → ρ → Verdict σ ρ R

/-- A pass over a page. `visited` lists the identifiers that the visitor was given. -/
structure Pass (σ ρ R : Type) where
  queue : Queue ρ
  state : σ
  last : Option Text
  selected : Option R
  exhausted : Bool
  visited : List Text

/-- The loop over the entries of a page. -/
def scanPass (claim : Visitor σ ρ R) (cutoff : ℕ) :
    List (Text × Text) → Pass σ ρ R → Result (Pass σ ρ R)
  | [], p => .ok p
  | (key, id) :: entries, p => do
    let time ← Checks.okOr (keyTime key) Error.internal
    if cutoff < time then .ok { p with exhausted := true }
    else
      match p.queue.records.get? id with
      | none => scanPass claim cutoff entries { p with last := some key }
      | some record =>
        let v := claim p.state id record
        let p := { p with
          queue := p.queue.write digest due id v.record
          state := v.state
          last := some key
          visited := p.visited ++ [id] }
        match v.result with
        -- remaining entries in this page have not been inspected
        | some result => .ok { p with selected := some result, exhausted := false }
        | none => scanPass claim cutoff entries p

/-- `LIMIT`. -/
def limit : ℕ := 16

/-- The page of the index after a key. -/
def page (q : Queue ρ) (after : Option Text) : List (Text × Text) := q.index.page false limit after

/-- One round of the outer loop: a page after `after`. -/
def pass (claim : Visitor σ ρ R) (cutoff : ℕ) (after : Option Text) (p : Pass σ ρ R) :
    Result (Pass σ ρ R) :=
  let entries := page p.queue after
  scanPass digest due claim cutoff entries
    { p with last := none, exhausted := entries.length < limit }

/-- The stored cursor after a call. -/
def stored (p : Pass σ ρ R) (cutoff : ℕ) (wrapped : Bool) : Option (Text × ℕ) :=
  (p.last.filter fun _ => !p.exhausted && !wrapped).map fun last => (last, cutoff)

/-- The queue with the cursor that a call leaves. -/
def finish (p : Pass σ ρ R) (cutoff : ℕ) (wrapped : Bool) : Pass σ ρ R :=
  { p with queue := { p.queue with cursor := stored p cutoff wrapped } }

/-- The cutoff of a call. -/
def cutoff (q : Queue ρ) (now : ℕ) : ℕ := q.cursor.elim now fun c => min c.2 now

/-- `connector_due`, on one of its two queues. A stored cursor whose forward pass inspects no due
row restarts once from the head of the index. -/
def connectorDue (q : Queue ρ) (now : ℕ) (claim : Visitor σ ρ R) (state : σ) :
    Result (Pass σ ρ R) := do
  let first ← pass digest due claim (cutoff q now) (q.cursor.map Prod.fst)
    ⟨q, state, none, none, false, []⟩
  if q.cursor.isSome ∧ first.last = none ∧ first.selected = none then
    let second ← pass digest due claim (cutoff q now) none first
    .ok (finish second (cutoff q now) true)
  else .ok (finish first (cutoff q now) false)

/-! ## Consistent queues -/

/-- The index has the row of every pending record, and no others. -/
def Consistent (q : Queue ρ) : Prop := Reindex.Indexes (dueRow digest due) q.records q.index

/-- Times are `u64` numbers. -/
def Times : Prop := ∀ record d, due record = some d → d ≤ u64Max

/-- A record that is due at some time. -/
def DueAt (q : Queue ρ) (id : Text) (d : ℕ) : Prop :=
  ∃ record, q.records.get? id = some record ∧ due record = some d

variable {digest due} {q : Queue ρ} {id : Text}

theorem dueRow_inj (hdigest : Function.Injective digest) {i j : Text} {a b : ρ} {key : Text}
    (ha : dueRow digest due i a = some key) (hb : dueRow digest due j b = some key) : i = j := by
  obtain ⟨d, -, hd⟩ := Option.map_eq_some_iff.mp ha
  obtain ⟨e, -, he⟩ := Option.map_eq_some_iff.mp hb
  exact ((indexKey_inj hdigest).mp (hd.trans he.symm)).2

theorem Consistent.write (hdigest : Function.Injective digest) (h : Consistent digest due q)
    (id : Text) (record : Option ρ) : Consistent digest due (q.write digest due id record) :=
  Reindex.Indexes.set (dueRow_inj hdigest) h id record

/-- The rows of the index. -/
theorem Consistent.row (h : Consistent digest due q) {key : Text} :
    q.index.get? key = some id ↔ ∃ d, DueAt due q id d ∧ key = indexKey digest d id := by
  rw [h key id]
  constructor
  · rintro ⟨record, hrecord, hkey⟩
    obtain ⟨d, hd, rfl⟩ := Option.map_eq_some_iff.mp hkey
    exact ⟨d, ⟨record, hrecord, hd⟩, rfl⟩
  · rintro ⟨d, ⟨record, hrecord, hd⟩, rfl⟩
    exact ⟨record, hrecord, by rw [dueRow, hd, Option.map_some]⟩

/-! ## One pass -/

/-- An entry of the index, with the time at which its record is due. -/
def Entry (digest : Text → Text) (due : ρ → Option ℕ) (q : Queue ρ) (e : Text × Text) (d : ℕ) :
    Prop :=
  DueAt due q e.2 d ∧ e.1 = indexKey digest d e.2

/-- A visitor that reschedules rows for later than the clock. -/
def Reschedules (due : ρ → Option ℕ) (now : ℕ) (claim : Visitor σ ρ R) : Prop :=
  ∀ state id record record' d, (claim state id record).record = some record' →
    due record' = some d → due record = some d ∨ now < d

/-- Rows that were added or rescheduled are due after the clock. -/
def Later (due : ρ → Option ℕ) (now : ℕ) (q q' : Queue ρ) : Prop :=
  ∀ id d, DueAt due q' id d → DueAt due q id d ∨ now < d

/-- Only the visited rows have changed. -/
structure Moved (digest : Text → Text) (due : ρ → Option ℕ) (claim : Visitor σ ρ R)
    (visited : List Text) (q q' : Queue ρ) : Prop where
  consistent : Consistent digest due q'
  others : ∀ id ∉ visited, q'.records.get? id = q.records.get? id
  later : ∀ now, Reschedules due now claim → Later due now q q'

variable {claim : Visitor σ ρ R} {now bound : ℕ} {p p' : Pass σ ρ R}

theorem Moved.refl (h : Consistent digest due q) : Moved digest due claim [] q q :=
  ⟨h, fun _ _ => rfl, fun _ _ _ _ hd => .inl hd⟩

theorem Moved.trans {q₁ q₂ : Queue ρ} {l l' : List Text} (h : Moved digest due claim l q q₁)
    (h' : Moved digest due claim l' q₁ q₂) : Moved digest due claim (l ++ l') q q₂ where
  consistent := h'.consistent
  others id hid := by
    rw [List.mem_append, not_or] at hid
    rw [h'.others id hid.2, h.others id hid.1]
  later now hclaim id d hd := by
    rcases h'.later now hclaim id d hd with hd | hd
    · exact h.later now hclaim id d hd
    · exact .inr hd

/-- A visitor's write of the row that it was given. -/
theorem Moved.visit (hdigest : Function.Injective digest) (h : Consistent digest due q) {state : σ}
    {record : ρ} (hrecord : q.records.get? id = some record) :
    Moved digest due claim [id] q (q.write digest due id (claim state id record).record) where
  consistent := h.write hdigest id _
  others id' hid := by
    rw [List.mem_singleton] at hid
    rw [Queue.write, OrdMap.get?_set, if_neg hid]
  later now hclaim id' d hd := by
    obtain ⟨record', hrecord', hd⟩ := hd
    rw [Queue.write, OrdMap.get?_set] at hrecord'
    split_ifs at hrecord' with hid
    · rcases hclaim _ _ _ _ _ hrecord' hd with hd | hd
      · exact .inl ⟨record, hid ▸ hrecord, hd⟩
      · exact .inr hd
    · exact .inl ⟨record', hrecord', hd⟩

variable {visited : List Text} {d : ℕ} {e : Text × Text}

/-- A row that is not visited stays due. -/
theorem Moved.dueAt {q' : Queue ρ} (h : Moved digest due claim visited q q') (hid : id ∉ visited) :
    DueAt due q' id d ↔ DueAt due q id d := by
  rw [DueAt, DueAt, h.others id hid]

/-- How a pass ends: the visitor accepts, the page ends, or the next row is not due yet. -/
inductive Ended (digest : Text → Text) (due : ρ → Option ℕ) (bound : ℕ) (p p' : Pass σ ρ R) :
    List (Text × Text) → List (Text × Text) → Prop where
  | accepted {pre rest : List (Text × Text)} (hpre : pre ≠ []) (hselected : p'.selected ≠ none)
    (hexhausted : p'.exhausted = false) : Ended digest due bound p p' pre rest
  | page {pre : List (Text × Text)} (hselected : p'.selected = p.selected)
    (hexhausted : p'.exhausted = p.exhausted) : Ended digest due bound p p' pre []
  | cutoff {pre rest : List (Text × Text)} {e : Text × Text} {d : ℕ}
    (hselected : p'.selected = p.selected) (hexhausted : p'.exhausted = true)
    (hentry : Entry digest due p.queue e d) (hd : bound < d) :
    Ended digest due bound p p' pre (e :: rest)

/-- What a pass does: it visits the entries `pre` of the page and leaves `rest`. -/
structure Passed (digest : Text → Text) (due : ρ → Option ℕ) (claim : Visitor σ ρ R) (bound : ℕ)
    (p p' : Pass σ ρ R) (pre rest : List (Text × Text)) : Prop where
  reached : ∀ e ∈ pre, ∃ d ≤ bound, Entry digest due p.queue e d
  visited : p'.visited = p.visited ++ pre.map Prod.snd
  last : p'.last = (pre.getLast?.map Prod.fst).or p.last
  moved : Moved digest due claim (pre.map Prod.snd) p.queue p'.queue
  ended : Ended digest due bound p p' pre rest

theorem Moved.entry {q' : Queue ρ} (h : Moved digest due claim visited q q') (hid : e.2 ∉ visited) :
    Entry digest due q' e d ↔ Entry digest due q e d := by
  rw [Entry, Entry, h.dueAt hid]

/-- The rest of a pass after a declined row. -/
theorem Passed.cons {p₁ : Pass σ ρ R} {pre rest : List (Text × Text)}
    (h : Passed digest due claim bound p₁ p' pre rest) (hentry : Entry digest due p.queue e d)
    (hd : d ≤ bound) (hmoved : Moved digest due claim [e.2] p.queue p₁.queue)
    (hvisited : p₁.visited = p.visited ++ [e.2]) (hlast : p₁.last = some e.1)
    (hselected : p₁.selected = p.selected) (hexhausted : p₁.exhausted = p.exhausted)
    (hfresh : ∀ x ∈ pre ++ rest, x.2 ≠ e.2) :
    Passed digest due claim bound p p' (e :: pre) rest := by
  have hother (x : Text × Text) (hx : x ∈ pre ++ rest) (d : ℕ)
      (hxd : Entry digest due p₁.queue x d) : Entry digest due p.queue x d :=
    (hmoved.entry fun hmem => hfresh x hx (List.mem_singleton.mp hmem)).mp hxd
  refine ⟨fun x hx => ?_, ?_, ?_, hmoved.trans h.moved, ?_⟩
  · rcases List.mem_cons.mp hx with rfl | hx
    · exact ⟨d, hd, hentry⟩
    · obtain ⟨d', hd', hx'⟩ := h.reached x hx
      exact ⟨d', hd', hother x (List.mem_append_left _ hx) d' hx'⟩
  · rw [h.visited, hvisited, List.map_cons, List.append_assoc, List.singleton_append]
  · rw [h.last, hlast, List.getLast?_cons]
    cases pre.getLast? <;> rfl
  · cases h.ended with
    | accepted hpre hsel hexh => exact .accepted (List.cons_ne_nil _ _) hsel hexh
    | page hsel hexh => exact .page (hsel.trans hselected) (hexh.trans hexhausted)
    | cutoff hsel hexh hentry' hd' =>
      refine .cutoff (hsel.trans hselected) hexh (hother _ ?_ _ hentry') hd'
      exact List.mem_append_right _ List.mem_cons_self

/-- **One pass.** It visits the first entries of the page, each due and once. -/
theorem scanPass_spec (hdigest : Function.Injective digest) (htimes : Times due)
    (entries : List (Text × Text)) (p : Pass σ ρ R) (h : Consistent digest due p.queue)
    (hentries : ∀ e ∈ entries, ∃ d, Entry digest due p.queue e d)
    (hnodup : (entries.map Prod.snd).Nodup) :
    ∃ p' pre rest, scanPass digest due claim bound entries p = .ok p' ∧ entries = pre ++ rest ∧
      Passed digest due claim bound p p' pre rest := by
  induction entries generalizing p with
  | nil =>
    exact ⟨p, [], [], rfl, rfl, fun _ hx => absurd hx List.not_mem_nil, by simp, rfl, .refl h,
      .page rfl rfl⟩
  | cons e entries ih =>
    obtain ⟨d, hentry⟩ := hentries e List.mem_cons_self
    obtain ⟨key, id⟩ := e
    have hentry' := hentry
    obtain ⟨⟨record, hrecord, hd⟩, hkey⟩ := hentry'
    have htime : keyTime key = some d := by
      rw [show key = indexKey digest d id from hkey]
      exact keyTime_indexKey (htimes record d hd)
    rw [List.map_cons, List.nodup_cons] at hnodup
    rw [scanPass, htime]
    change ∃ p' pre rest, (if bound < d then _ else _) = _ ∧ _
    split_ifs with hlt
    · exact ⟨_, [], (key, id) :: entries, rfl, rfl, fun _ hx => absurd hx List.not_mem_nil, by simp,
        rfl, .refl h, .cutoff rfl rfl hentry hlt⟩
    · have hmoved : Moved digest due claim [id] p.queue
          (p.queue.write digest due id (claim p.state id record).record) :=
        .visit hdigest h hrecord
      have hfresh : ∀ x ∈ entries, x.2 ≠ id := by
        rintro x hx rfl
        exact hnodup.1 (List.mem_map.mpr ⟨x, hx, rfl⟩)
      rw [show p.queue.records.get? id = some record from hrecord]
      dsimp only
      cases hresult : (claim p.state id record).result with
      | some result =>
        refine ⟨_, [(key, id)], entries, rfl, rfl, fun x hx => ?_, rfl, rfl, hmoved,
          .accepted (List.cons_ne_nil _ _) (Option.some_ne_none _) rfl⟩
        rw [List.mem_singleton.mp hx]
        exact ⟨d, not_lt.mp hlt, hentry⟩
      | none =>
        have hrest : ∀ x ∈ entries, ∃ d, Entry digest due
            (p.queue.write digest due id (claim p.state id record).record) x d := fun x hx => by
          obtain ⟨d', hd'⟩ := hentries x (List.mem_cons_of_mem _ hx)
          exact ⟨d', (hmoved.entry fun hmem => hfresh x hx (List.mem_singleton.mp hmem)).mpr hd'⟩
        obtain ⟨p', pre, rest, hrun, rfl, hpassed⟩ := ih
          { p with
            queue := p.queue.write digest due id (claim p.state id record).record
            state := (claim p.state id record).state
            last := some key
            visited := p.visited ++ [id] } hmoved.consistent hrest hnodup.2
        exact ⟨p', (key, id) :: pre, rest, hrun, rfl,
          hpassed.cons hentry (not_lt.mp hlt) hmoved rfl rfl rfl rfl hfresh⟩

/-! ## Pages of the index -/

theorem mem_page {after : Option Text} (h : e ∈ page q after) :
    q.index.get? e.1 = some e.2 ∧ ∀ a ∈ after, a < e.1 := by
  have hafter := List.mem_filter.mp (List.mem_of_mem_take h)
  refine ⟨OrdMap.mem_entries_iff.mp hafter.1, ?_⟩
  rintro a rfl
  exact OrdMap.before_false.mp (by simpa using hafter.2)

theorem after_pairwise (q : Queue ρ) (after : Option Text) :
    (q.index.after false after).Pairwise fun a b => a.1 < b.1 :=
  q.index.sorted.filter _

theorem page_pairwise (q : Queue ρ) (after : Option Text) :
    (page q after).Pairwise fun a b => a.1 < b.1 :=
  (after_pairwise q after).sublist (List.take_sublist _ _)

/-- A row after the cursor is in the page, or the page is full of rows before it. -/
theorem mem_page_or_full {after : Option Text} (he : q.index.get? e.1 = some e.2)
    (hafter : ∀ a ∈ after, a < e.1) :
    e ∈ page q after ∨ (page q after).length = limit ∧ ∀ x ∈ page q after, x.1 < e.1 := by
  have hmem : e ∈ q.index.after false after := by
    refine List.mem_filter.mpr ⟨OrdMap.mem_entries_iff.mpr he, ?_⟩
    cases after with
    | none => rfl
    | some a => exact OrdMap.before_false.mpr (hafter a rfl)
  rw [← List.take_append_drop limit (q.index.after false after)] at hmem
  rcases List.mem_append.mp hmem with htake | hdrop
  · exact .inl htake
  · have hsorted := after_pairwise q after
    rw [← List.take_append_drop limit (q.index.after false after), List.pairwise_append] at hsorted
    have hlen := List.length_pos_of_mem hdrop
    rw [List.length_drop] at hlen
    refine .inr ⟨?_, fun x hx => hsorted.2.2 x hx e hdrop⟩
    rw [page, OrdMap.page, List.length_take]
    omega

theorem DueAt.unique {d' : ℕ} (h : DueAt due q id d) (h' : DueAt due q id d') : d = d' := by
  obtain ⟨record, hrecord, hd⟩ := h
  obtain ⟨record', hrecord', hd'⟩ := h'
  rw [hrecord, Option.some.injEq] at hrecord'
  subst hrecord'
  exact Option.some.inj (hd.symm.trans hd')

/-- The rows of a page, each with its own record. -/
theorem Consistent.page (h : Consistent digest due q) (after : Option Text) :
    (∀ e ∈ page q after, ∃ d, Entry digest due q e d) ∧
      ((page q after).map Prod.snd).Nodup := by
  have hentry : ∀ e ∈ Due.page q after, ∃ d, Entry digest due q e d := fun e he =>
    h.row.mp (mem_page he).1
  refine ⟨hentry, ?_⟩
  rw [List.Nodup, List.pairwise_map]
  refine (page_pairwise q after).imp_of_mem fun {a b} ha hb hlt heq => ?_
  obtain ⟨d, hd, hkey⟩ := hentry a ha
  obtain ⟨d', hd', hkey'⟩ := hentry b hb
  rw [heq] at hd hkey
  rw [hkey, hkey', hd.unique hd'] at hlt
  exact lt_irrefl _ hlt

theorem pass_spec (hdigest : Function.Injective digest) (htimes : Times due)
    (claim : Visitor σ ρ R) (bound : ℕ) (p : Pass σ ρ R) (h : Consistent digest due p.queue)
    (after : Option Text) :
    ∃ p' pre rest, pass digest due claim bound after p = .ok p' ∧ page p.queue after = pre ++ rest ∧
      Passed digest due claim bound
        { p with last := none, exhausted := (page p.queue after).length < limit } p' pre rest := by
  obtain ⟨hentries, hnodup⟩ := h.page after
  exact scanPass_spec hdigest htimes (page p.queue after)
    { p with last := none, exhausted := (page p.queue after).length < limit } h hentries hnodup

/-! ## One call -/

/-- Where a call starts. -/
def begun (q : Queue ρ) (state : σ) : Pass σ ρ R :=
  ⟨q, state, none, none, (page q (q.cursor.map Prod.fst)).length < limit, []⟩

/-- The passes of a call: one, or a second one from the head of the index if the first one, after a
stored cursor, visits nothing. -/
inductive Course (digest : Text → Text) (due : ρ → Option ℕ) (claim : Visitor σ ρ R) (q : Queue ρ)
    (now : ℕ) (state : σ) : Pass σ ρ R → Prop where
  | straight {first : Pass σ ρ R} {pre rest : List (Text × Text)}
    (hpage : page q (q.cursor.map Prod.fst) = pre ++ rest)
    (hfirst : Passed digest due claim (cutoff q now) (begun q state) first pre rest) :
    Course digest due claim q now state (finish first (cutoff q now) false)
  | wrapped {first second : Pass σ ρ R} {rest pre' rest' : List (Text × Text)}
    (hcursor : q.cursor ≠ none) (hpage : page q (q.cursor.map Prod.fst) = rest)
    (hfirst : Passed digest due claim (cutoff q now) (begun q state) first [] rest)
    (hpage' : page first.queue none = pre' ++ rest')
    (hsecond : Passed digest due claim (cutoff q now)
      { first with last := none, exhausted := (page first.queue none).length < limit } second
      pre' rest') :
    Course digest due claim q now state (finish second (cutoff q now) true)

theorem connectorDue_course (hdigest : Function.Injective digest) (htimes : Times due)
    (h : Consistent digest due q) (now : ℕ) (claim : Visitor σ ρ R) (state : σ) :
    ∃ out, connectorDue digest due q now claim state = .ok out ∧
      Course digest due claim q now state out := by
  obtain ⟨first, pre, rest, hrun, hpage, hfirst⟩ :=
    pass_spec hdigest htimes claim (cutoff q now) ⟨q, state, none, none, false, []⟩ h
      (q.cursor.map Prod.fst)
  rw [connectorDue, hrun]
  change ∃ out, (if q.cursor.isSome = true ∧ first.last = none ∧ first.selected = none
    then _ else _) = _ ∧ _
  split_ifs with hwrap
  · obtain ⟨hcursor, hlast, -⟩ := hwrap
    have hnil : pre = [] := by
      have hlast' := hfirst.last
      rw [hlast] at hlast'
      cases pre using List.reverseRecOn with
      | nil => rfl
      | append_singleton pre e => simp at hlast'
    subst hnil
    obtain ⟨second, pre', rest', hrun', hpage', hsecond⟩ :=
      pass_spec hdigest htimes claim (cutoff q now) first hfirst.moved.consistent none
    rw [hrun']
    exact ⟨_, rfl, .wrapped (Option.isSome_iff_ne_none.mp hcursor) hpage hfirst hpage' hsecond⟩
  · exact ⟨_, rfl, .straight hpage hfirst⟩

theorem cutoff_le (q : Queue ρ) (now : ℕ) : cutoff q now ≤ now := by
  rw [cutoff]
  cases q.cursor with
  | none => exact le_rfl
  | some c => exact Nat.min_le_right _ _

theorem Moved.finish (h : Moved digest due claim visited q p.queue) (bound : ℕ) (wrapped : Bool) :
    Moved digest due claim visited q (Due.finish p bound wrapped).queue :=
  ⟨h.consistent, h.others, h.later⟩

/-- **A call visits a row at most once and only rows that are due, and changes no others.** -/
theorem Course.visits {state : σ} {out : Pass σ ρ R} (h : Consistent digest due q)
    (hcourse : Course digest due claim q now state out) :
    out.visited.Nodup ∧ (∀ id ∈ out.visited, ∃ d ≤ now, DueAt due q id d) ∧
      Moved digest due claim out.visited q out.queue := by
  cases hcourse with
  | @straight first pre rest hpage hfirst =>
    have hvisited : (Due.finish first (cutoff q now) false).visited = pre.map Prod.snd :=
      hfirst.visited
    rw [hvisited]
    refine ⟨?_, fun id hid => ?_, hfirst.moved.finish _ _⟩
    · have hnodup := (h.page (q.cursor.map Prod.fst)).2
      rw [hpage, List.map_append] at hnodup
      exact hnodup.of_append_left
    · obtain ⟨e, he, rfl⟩ := List.mem_map.mp hid
      obtain ⟨d, hd, hentry⟩ := hfirst.reached e he
      exact ⟨d, hd.trans (cutoff_le q now), hentry.1⟩
  | @wrapped first second rest pre' rest' hcursor hpage hfirst hpage' hsecond =>
    have hvisited : (Due.finish second (cutoff q now) true).visited = pre'.map Prod.snd := by
      have hnone : first.visited = [] := hfirst.visited
      exact hsecond.visited.trans (by rw [hnone, List.nil_append])
    rw [hvisited]
    refine ⟨?_, fun id hid => ?_, (hfirst.moved.trans hsecond.moved).finish _ _⟩
    · have hnodup := (hfirst.moved.consistent.page none).2
      rw [hpage', List.map_append] at hnodup
      exact hnodup.of_append_left
    · obtain ⟨e, he, rfl⟩ := List.mem_map.mp hid
      obtain ⟨d, hd, hentry⟩ := hsecond.reached e he
      exact ⟨d, hd.trans (cutoff_le q now), (hfirst.moved.dueAt List.not_mem_nil).mp hentry.1⟩

end RiAuth.Store.Due
