import RiAuth.Store.Due

/-!
# No row of a due queue starves

Calls at times that do not go backwards, with visitors that accept and decline as they like and
other writers in between. A row that is due and stays unchanged is visited within `2n + 3` calls,
where `n` rows were due when it became due.

* `rank`: how many calls it can take until the row is visited;
* `Course.rank_lt`: **a call that does not visit the row lowers its rank**;
* `Waiting.rank_le`: so does a whole run, whatever the other writers do;
* `connector_due_no_starvation`: the bound.
-/

namespace RiAuth.Store.Due

variable {ρ σ R : Type} {digest : Text → Text} {due : ρ → Option ℕ} {claim : Visitor σ ρ R}
  {q q' : Queue ρ} {r key : Text} {d T now bound : ℕ} {p p' out : Pass σ ρ R} {state : σ}
  {pre rest : List (Text × Text)}

/-! ## The rows that were due -/

/-- The time of a key is not after `t`. -/
def dueBy (t : ℕ) (key : Text) : Bool := (keyTime key).any (· ≤ t)

/-- The index keys of the rows that are due at `t`. -/
def dueKeys (q : Queue ρ) (t : ℕ) : Finset Text :=
  ((q.index.entries.map Prod.fst).filter (dueBy t)).toFinset

/-- The number of rows that are due at `t`. -/
def dueCount (due : ρ → Option ℕ) (q : Queue ρ) (t : ℕ) : ℕ :=
  (q.records.entries.filter fun e => (due e.2).any (· ≤ t)).length

theorem dueBy_indexKey (hd : d ≤ u64Max) (t : ℕ) (id : Text) :
    dueBy t (indexKey digest d id) = true ↔ d ≤ t := by
  rw [dueBy, keyTime_indexKey hd, Option.any_some, decide_eq_true_iff]

theorem DueAt.le (htimes : Times due) (h : DueAt due q r d) : d ≤ u64Max := by
  obtain ⟨record, -, hd⟩ := h
  exact htimes record d hd

theorem mem_dueKeys (htimes : Times due) (h : Consistent digest due q) {t : ℕ} {k : Text} :
    k ∈ dueKeys q t ↔ ∃ id d, DueAt due q id d ∧ d ≤ t ∧ k = indexKey digest d id := by
  rw [dueKeys, List.mem_toFinset, List.mem_filter, List.mem_map]
  constructor
  · rintro ⟨⟨⟨k, id⟩, hmem, rfl⟩, hby⟩
    obtain ⟨d, hd, rfl⟩ := h.row.mp (OrdMap.mem_entries_iff.mp hmem)
    exact ⟨id, d, hd, (dueBy_indexKey (hd.le htimes) t id).mp hby, rfl⟩
  · rintro ⟨id, d, hd, hle, rfl⟩
    refine ⟨⟨(_, id), OrdMap.mem_entries_iff.mpr (h.row.mpr ⟨d, hd, rfl⟩), rfl⟩, ?_⟩
    exact (dueBy_indexKey (hd.le htimes) t id).mpr hle

/-- No row becomes one of those that were due. -/
theorem dueKeys_subset (htimes : Times due) (h : Consistent digest due q)
    (h' : Consistent digest due q') (hlater : Later due now q q') (hT : T ≤ now) :
    dueKeys q' T ⊆ dueKeys q T := by
  intro k hk
  obtain ⟨id, d, hd, hle, rfl⟩ := (mem_dueKeys htimes h').mp hk
  rcases hlater id d hd with hd | hlt
  · exact (mem_dueKeys htimes h).mpr ⟨id, d, hd, hle, rfl⟩
  · omega

theorem card_dueKeys_le (htimes : Times due) (h : Consistent digest due q) (t : ℕ) :
    (dueKeys q t).card ≤ dueCount due q t := by
  have hsub : dueKeys q t ⊆ ((q.records.entries.filter fun e => (due e.2).any (· ≤ t)).map
      fun e => indexKey digest ((due e.2).getD 0) e.1).toFinset := by
    intro k hk
    obtain ⟨id, d, ⟨record, hrecord, hd⟩, hle, rfl⟩ := (mem_dueKeys htimes h).mp hk
    rw [List.mem_toFinset, List.mem_map]
    refine ⟨(id, record), List.mem_filter.mpr ⟨OrdMap.mem_entries_iff.mpr hrecord, ?_⟩, ?_⟩
    · simp [hd, hle]
    · simp [hd]
  calc (dueKeys q t).card ≤ _ := Finset.card_le_card hsub
    _ ≤ _ := List.toFinset_card_le _
    _ = dueCount due q t := List.length_map ..

/-! ## The rank of a row -/

/-- How many calls it can take until the row with index key `key`, due at `d`, is visited. After a
cursor before it and under a cutoff that covers it, the rows in between; else the rest of the sweep,
one restart and the rows before it. -/
def rank (keys : Finset Text) (key : Text) (d : ℕ) : Option (Text × ℕ) → ℕ
  | none => (keys.filter (· < key)).card + 1
  | some (k, t) =>
    if k < key ∧ d ≤ t then (keys.filter fun x => k < x ∧ x < key).card + 1
    else (keys.filter fun x => k < x ∧ dueBy t x = true).card + (keys.filter (· < key)).card + 2

/-- The cutoff of a cursor is not later than the row became due, unless the row is still ahead of
the cursor. -/
def Aimed (T : ℕ) (key : Text) (d : ℕ) (cursor : Option (Text × ℕ)) : Prop :=
  ∀ k t, cursor = some (k, t) → t ≤ T ∨ k < key ∧ d ≤ t

theorem aimed_none (T : ℕ) (key : Text) (d : ℕ) : Aimed T key d none := by
  intro k t heq
  cases heq

theorem rank_mono {keys keys' : Finset Text} (h : keys' ⊆ keys) (key : Text) (d : ℕ)
    (cursor : Option (Text × ℕ)) : rank keys' key d cursor ≤ rank keys key d cursor := by
  have hle : ∀ P : Text → Prop, ∀ [DecidablePred P], (keys'.filter P).card ≤ (keys.filter P).card :=
    fun P _ => Finset.card_le_card (Finset.filter_subset_filter P h)
  cases cursor with
  | none => exact Nat.add_le_add_right (hle _) 1
  | some c =>
    rw [rank, rank]
    split_ifs
    · exact Nat.add_le_add_right (hle _) 1
    · exact Nat.add_le_add_right (Nat.add_le_add (hle _) (hle _)) 2

theorem rank_le (keys : Finset Text) (key : Text) (d : ℕ) (cursor : Option (Text × ℕ)) :
    rank keys key d cursor ≤ 2 * keys.card + 2 := by
  have hle : ∀ P : Text → Prop, ∀ [DecidablePred P], (keys.filter P).card ≤ keys.card :=
    fun P _ => Finset.card_filter_le keys P
  cases cursor with
  | none =>
    have := hle (· < key)
    rw [rank]
    omega
  | some c =>
    have h₁ := hle (· < key)
    have h₂ := hle fun x => c.1 < x ∧ x < key
    have h₃ := hle fun x => c.1 < x ∧ dueBy c.2 x = true
    rw [rank]
    split_ifs <;> omega

/-! ## One call -/

theorem Passed.exists_last (h : Passed digest due claim bound p p' pre rest) (hpre : pre ≠ []) :
    ∃ e ∈ pre, p'.last = some e.1 := by
  refine ⟨pre.getLast hpre, List.getLast_mem hpre, ?_⟩
  rw [h.last, List.getLast?_eq_some_getLast hpre]
  rfl

/-- The rows of a page that come before a row after the cursor: those that are visited, and the next
one at most. -/
theorem page_before {after : Option Text} (hrow : q.index.get? key = some r)
    (hafter : ∀ a ∈ after, a < key) (hpage : page q after = pre ++ rest)
    (hr : r ∉ pre.map Prod.snd) :
    (∀ e ∈ pre, e.1 < key) ∧ (∀ e rest', rest = e :: rest' → e.1 ≤ key) ∧
      (rest = [] → (page q after).length = limit) := by
  have hsorted := page_pairwise q after
  have hnot : (key, r) ∉ pre := fun hmem => hr (List.mem_map.mpr ⟨(key, r), hmem, rfl⟩)
  rcases mem_page_or_full (e := (key, r)) hrow hafter with hmem | ⟨hfull, hbefore⟩
  · rw [hpage] at hsorted hmem
    have hrest : (key, r) ∈ rest := (List.mem_append.mp hmem).resolve_left hnot
    rw [List.pairwise_append] at hsorted
    refine ⟨fun e he => hsorted.2.2 e he _ hrest, ?_, ?_⟩
    · rintro e rest' rfl
      rcases List.mem_cons.mp hrest with rfl | htail
      · exact le_rfl
      · exact ((List.pairwise_cons.mp hsorted.2.1).1 _ htail).le
    · rintro rfl
      exact absurd hrest List.not_mem_nil
  · rw [hpage] at hbefore
    refine ⟨fun e he => hbefore e (List.mem_append_left _ he), ?_, fun _ => hfull⟩
    rintro e rest' rfl
    exact (hbefore e (List.mem_append_right _ List.mem_cons_self)).le

/-- A pass after a cursor before the row, under a cutoff that covers it, moves towards the row. -/
theorem Passed.approach {after : Option Text} (htimes : Times due) (h : Consistent digest due q)
    (hdue : DueAt due q r d) (hafter : ∀ a ∈ after, a < indexKey digest d r)
    (hpage : page q after = pre ++ rest) (hqueue : p.queue = q)
    (hexhausted : p.exhausted = decide ((page q after).length < limit))
    (hpassed : Passed digest due claim bound p p' pre rest) (hd : d ≤ bound)
    (hr : r ∉ pre.map Prod.snd) :
    ∃ e ∈ pre, p'.last = some e.1 ∧ e.1 < indexKey digest d r ∧ p'.exhausted = false := by
  have hrow : q.index.get? (indexKey digest d r) = some r := h.row.mpr ⟨d, hdue, rfl⟩
  obtain ⟨hbefore, hnext, hfull⟩ := page_before hrow hafter hpage hr
  have hends : pre ≠ [] ∧ p'.exhausted = false := by
    cases hpassed.ended with
    | accepted hpre _ hexh => exact ⟨hpre, hexh⟩
    | page _ hexh =>
      have hlen := hfull rfl
      refine ⟨?_, by rw [hexh, hexhausted, hlen]; rfl⟩
      rintro rfl
      rw [hpage] at hlen
      exact absurd hlen (by decide)
    | @cutoff rest' e d' _ _ hentry hd' =>
      -- the next row would be due before the one that waits
      rw [hqueue] at hentry
      have hlt : indexKey digest d r < e.1 := by
        rw [hentry.2, indexKey_lt_iff (hdue.le htimes) (hentry.1.le htimes)]
        exact .inl (by omega)
      exact absurd hlt (not_lt.mpr (hnext e rest' rfl))
  obtain ⟨e, he, hlast⟩ := hpassed.exists_last hends.1
  exact ⟨e, he, hlast, hbefore e he, hends.2⟩

/-- The rows that a pass has visited were due. -/
theorem Passed.mem_dueKeys (htimes : Times due) (h : Consistent digest due q)
    (hqueue : p.queue = q) (hpassed : Passed digest due claim bound p p' pre rest) {e : Text × Text}
    (he : e ∈ pre) : ∃ t ≤ bound, DueAt due q e.2 t ∧ e.1 = indexKey digest t e.2 ∧
      ∀ T, t ≤ T → e.1 ∈ dueKeys q T := by
  obtain ⟨t, ht, hentry⟩ := hpassed.reached e he
  rw [hqueue] at hentry
  exact ⟨t, ht, hentry.1, hentry.2, fun T hT =>
    (Due.mem_dueKeys htimes h).mpr ⟨e.2, t, hentry.1, hT, hentry.2⟩⟩

theorem stored_of_last {t : ℕ} {k : Text} (hlast : p.last = some k) (hexh : p.exhausted = false) :
    (finish p t false).queue.cursor = some (k, t) := by
  simp [finish, stored, hlast, hexh]

/-! ## How the rank falls -/

section Rank

variable {keys : Finset Text} {k e : Text} {t t' : ℕ}

theorem card_filter_lt {P P' : Text → Prop} [DecidablePred P] [DecidablePred P'] (he : e ∈ keys)
    (hP : P e) (hP' : ¬P' e) (himp : ∀ x, P' x → P x) :
    (keys.filter P').card < (keys.filter P).card := by
  refine Finset.card_lt_card ((Finset.ssubset_iff_of_subset ?_).mpr ⟨e, ?_, ?_⟩)
  · exact Finset.monotone_filter_right keys fun x _ => himp x
  · exact Finset.mem_filter.mpr ⟨he, hP⟩
  · exact fun hmem => hP' (Finset.mem_filter.mp hmem).2

theorem rank_none_lt (he : e ∈ keys) (hlt : e < key) (hd : d ≤ t) :
    rank keys key d (some (e, t)) < rank keys key d none := by
  rw [rank, rank, if_pos ⟨hlt, hd⟩]
  exact Nat.add_lt_add_right (card_filter_lt he hlt (fun h => lt_irrefl _ h.1) fun x hx => hx.2) 1

theorem rank_ahead_lt (hk : k < key ∧ d ≤ t) (he : e ∈ keys) (hke : k < e) (hlt : e < key)
    (hd : d ≤ t') : rank keys key d (some (e, t')) < rank keys key d (some (k, t)) := by
  rw [rank, rank, if_pos ⟨hlt, hd⟩, if_pos hk]
  refine Nat.add_lt_add_right (card_filter_lt he ⟨hke, hlt⟩ (fun h => lt_irrefl _ h.1) ?_) 1
  exact fun x hx => ⟨hke.trans hx.1, hx.2⟩

theorem rank_restart_lt (hk : ¬(k < key ∧ d ≤ t)) :
    rank keys key d none < rank keys key d (some (k, t)) := by
  rw [rank, rank, if_neg hk]
  omega

/-- A sweep that has passed the row, or does not cover it, does not come back to it. -/
theorem not_ahead (hk : ¬(k < key ∧ d ≤ t)) (hke : k < e) : ¬(e < key ∧ d ≤ t) :=
  fun h => hk ⟨hke.trans h.1, h.2⟩

theorem rank_sweep_lt (hk : ¬(k < key ∧ d ≤ t)) (he : e ∈ keys) (hke : k < e)
    (hby : dueBy t e = true) :
    rank keys key d (some (e, t)) < rank keys key d (some (k, t)) := by
  rw [rank, rank, if_neg hk, if_neg (not_ahead hk hke)]
  refine Nat.add_lt_add_right (Nat.add_lt_add_right (card_filter_lt he ⟨hke, hby⟩
    (fun h => lt_irrefl _ h.1) ?_) _) 2
  exact fun x hx => ⟨hke.trans hx.1, hx.2⟩

end Rank

/-- A first pass that moves towards the row. -/
theorem Passed.ahead (htimes : Times due) (h : Consistent digest due q) (hdue : DueAt due q r d)
    (hd : d ≤ T) (hafter : ∀ a ∈ q.cursor.map Prod.fst, a < indexKey digest d r)
    (hpage : page q (q.cursor.map Prod.fst) = pre ++ rest) (hbound : d ≤ bound)
    (hfirst : Passed digest due claim bound (begun q state) p' pre rest)
    (hr : r ∉ pre.map Prod.snd) :
    ∃ e ∈ dueKeys q T, (finish p' bound false).queue.cursor = some (e, bound) ∧
      (∀ a ∈ q.cursor.map Prod.fst, a < e) ∧ e < indexKey digest d r := by
  obtain ⟨e, he, hlast, hlt, hexh⟩ :=
    hfirst.approach htimes h hdue hafter hpage rfl rfl hbound hr
  obtain ⟨t, -, hdue', hkey, hkeys⟩ := hfirst.mem_dueKeys htimes h rfl he
  have ht : t ≤ d := by
    rw [hkey, indexKey_lt_iff (hdue'.le htimes) (hdue.le htimes)] at hlt
    omega
  refine ⟨e.1, hkeys T (ht.trans hd), stored_of_last hlast hexh, ?_, hlt⟩
  exact (mem_page (hpage ▸ List.mem_append_left _ he)).2

/-- A first pass that continues a sweep. -/
theorem Passed.sweep (htimes : Times due) (h : Consistent digest due q) (hbound : bound ≤ T)
    (hpage : page q (q.cursor.map Prod.fst) = pre ++ rest)
    (hfirst : Passed digest due claim bound (begun q state) p' pre rest) :
    (finish p' bound false).queue.cursor = none ∨
      ∃ e ∈ dueKeys q T, (finish p' bound false).queue.cursor = some (e, bound) ∧
        (∀ a ∈ q.cursor.map Prod.fst, a < e) ∧ dueBy bound e = true := by
  by_cases hpre : pre = []
  · subst hpre
    have hlast : p'.last = none := hfirst.last
    exact .inl (by simp [finish, stored, hlast])
  · obtain ⟨e, he, hlast⟩ := hfirst.exists_last hpre
    obtain ⟨t, ht, hdue', hkey, hkeys⟩ := hfirst.mem_dueKeys htimes h rfl he
    cases hexh : p'.exhausted with
    | true => exact .inl (by simp [finish, stored, hexh])
    | false =>
      refine .inr ⟨e.1, hkeys T (ht.trans hbound), stored_of_last hlast hexh, ?_, ?_⟩
      · exact (mem_page (hpage ▸ List.mem_append_left _ he)).2
      · rw [hkey]
        exact (dueBy_indexKey (hdue'.le htimes) bound e.2).mpr ht

/-- The cursor of a call that does not visit the row. -/
theorem Course.cursor_lt (htimes : Times due) (h : Consistent digest due q)
    (hdue : DueAt due q r d) (hd : d ≤ T) (hT : T ≤ now)
    (haimed : Aimed T (indexKey digest d r) d q.cursor)
    (hcourse : Course digest due claim q now state out) (hr : r ∉ out.visited) :
    Aimed T (indexKey digest d r) d out.queue.cursor ∧
      rank (dueKeys q T) (indexKey digest d r) d out.queue.cursor <
        rank (dueKeys q T) (indexKey digest d r) d q.cursor := by
  cases hcourse with
  | @straight first pre rest hpage hfirst =>
    have hpre : r ∉ pre.map Prod.snd := fun hmem => hr (by
      rw [show (finish first (cutoff q now) false).visited = _ from hfirst.visited]
      exact List.mem_append_right _ hmem)
    cases hcursor : q.cursor with
    | none =>
      have hcut : cutoff q now = now := by rw [cutoff, hcursor]; rfl
      have hle : d ≤ cutoff q now := by omega
      obtain ⟨e, he, hstored, -, hlt⟩ := hfirst.ahead htimes h hdue hd (by simp [hcursor]) hpage hle
        hpre
      rw [hstored, hcut]
      refine ⟨fun k t heq => ?_, rank_none_lt he hlt (hd.trans hT)⟩
      cases heq
      exact .inr ⟨hlt, hd.trans hT⟩
    | some c =>
      obtain ⟨k, t⟩ := c
      have hcut : cutoff q now = min t now := by rw [cutoff, hcursor]; rfl
      by_cases hk : k < indexKey digest d r ∧ d ≤ t
      · have hle : d ≤ cutoff q now := by omega
        obtain ⟨e, he, hstored, hafter, hlt⟩ := hfirst.ahead htimes h hdue hd
          (by simpa [hcursor] using hk.1) hpage hle hpre
        rw [hstored]
        refine ⟨fun k' t' heq => ?_, rank_ahead_lt hk he (hafter k (by simp [hcursor])) hlt hle⟩
        cases heq
        exact .inr ⟨hlt, hle⟩
      · have ht : t ≤ T := (haimed k t hcursor).resolve_right hk
        have hcut : cutoff q now = t := by omega
        rw [hcut] at hfirst ⊢
        rcases hfirst.sweep htimes h ht hpage with hnone | ⟨e, he, hstored, hafter, hby⟩
        · rw [hnone]
          exact ⟨aimed_none _ _ _, rank_restart_lt hk⟩
        · rw [hstored]
          refine ⟨fun k' t' heq => ?_, rank_sweep_lt hk he (hafter k (by simp [hcursor])) hby⟩
          cases heq
          exact .inl ht
  | @wrapped first second rest pre' rest' hsome hpage hfirst hpage' hsecond =>
    have hnone : (finish second (cutoff q now) true).queue.cursor = none := by
      simp [finish, stored]
    rw [hnone]
    cases hcursor : q.cursor with
    | none => exact absurd hcursor hsome
    | some c =>
      obtain ⟨k, t⟩ := c
      refine ⟨aimed_none _ _ _, rank_restart_lt fun hk => ?_⟩
      have hcut : cutoff q now = min t now := by rw [cutoff, hcursor]; rfl
      obtain ⟨e, he, hlast, -, -⟩ := hfirst.approach htimes h hdue
        (by simpa [hcursor] using hk.1) hpage rfl rfl (by omega) List.not_mem_nil
      exact absurd he List.not_mem_nil

/-- **A call that does not visit the row lowers its rank.** -/
theorem Course.rank_lt (htimes : Times due) (h : Consistent digest due q)
    (hdue : DueAt due q r d) (hd : d ≤ T) (hT : T ≤ now)
    (haimed : Aimed T (indexKey digest d r) d q.cursor) (hclaim : Reschedules due now claim)
    (hcourse : Course digest due claim q now state out) (hr : r ∉ out.visited) :
    Aimed T (indexKey digest d r) d out.queue.cursor ∧
      rank (dueKeys out.queue T) (indexKey digest d r) d out.queue.cursor <
        rank (dueKeys q T) (indexKey digest d r) d q.cursor := by
  obtain ⟨-, -, hmoved⟩ := hcourse.visits h
  obtain ⟨haimed', hlt⟩ := hcourse.cursor_lt htimes h hdue hd hT haimed hr
  have hsub := dueKeys_subset htimes h hmoved.consistent (hmoved.later now hclaim) hT
  exact ⟨haimed', (rank_mono hsub _ _ _).trans_lt hlt⟩

/-! ## Runs -/

/-- A run from a queue at a clock: calls, and changes by other writers that leave the row `r` alone.
`log` lists what each call has visited. Rows that others add or reschedule, and rows that a visitor
reschedules, are due after the clock at that moment. -/
inductive Calls (digest : Text → Text) (due : ρ → Option ℕ) (r : Text) (q : Queue ρ) (T : ℕ) :
    List (List Text) → Queue ρ → ℕ → Prop where
  | start : Calls digest due r q T [] q T
  | change {log : List (List Text)} {q₁ q₂ : Queue ρ} {clock now : ℕ}
    (hrun : Calls digest due r q T log q₁ clock) (hle : clock ≤ now)
    (hconsistent : Consistent digest due q₂) (hcursor : q₂.cursor = q₁.cursor)
    (hr : q₂.records.get? r = q₁.records.get? r) (hlater : Later due now q₁ q₂) :
    Calls digest due r q T log q₂ now
  | call {log : List (List Text)} {q₁ : Queue ρ} {clock now : ℕ} {σ R : Type}
    {claim : Visitor σ ρ R} {state : σ} {out : Pass σ ρ R}
    (hrun : Calls digest due r q T log q₁ clock) (hle : clock ≤ now)
    (hclaim : Reschedules due now claim)
    (hout : connectorDue digest due q₁ now claim state = .ok out) :
    Calls digest due r q T (log ++ [out.visited]) out.queue now

variable {log : List (List Text)} {clock : ℕ}

/-- What holds of a queue while the row waits. -/
structure Waiting (digest : Text → Text) (due : ρ → Option ℕ) (r : Text) (d T : ℕ) (q : Queue ρ)
    (clock : ℕ) : Prop where
  consistent : Consistent digest due q
  dueAt : DueAt due q r d
  clock : T ≤ clock
  aimed : Aimed T (indexKey digest d r) d q.cursor

/-- **A run that does not visit the row lowers its rank with every call.** -/
theorem Calls.rank_le (hdigest : Function.Injective digest) (htimes : Times due) (hd : d ≤ T)
    (hrun : Calls digest due r q T log q' clock) (hq : Waiting digest due r d T q T)
    (hr : ∀ visited ∈ log, r ∉ visited) :
    Waiting digest due r d T q' clock ∧
      rank (dueKeys q' T) (indexKey digest d r) d q'.cursor + log.length ≤
        rank (dueKeys q T) (indexKey digest d r) d q.cursor := by
  induction hrun with
  | start => exact ⟨hq, le_rfl⟩
  | @change log q₁ q₂ clock now hrun hle hconsistent hcursor hsame hlater ih =>
    obtain ⟨hw, hrank⟩ := ih hr
    have hsub := dueKeys_subset htimes hw.consistent hconsistent hlater (hw.clock.trans hle)
    refine ⟨⟨hconsistent, ?_, hw.clock.trans hle, hcursor ▸ hw.aimed⟩, ?_⟩
    · rw [DueAt, hsame]
      exact hw.dueAt
    · rw [hcursor]
      exact (Nat.add_le_add_right (rank_mono hsub _ _ _) _).trans hrank
  | @call log q₁ clock now σ R claim state out hrun hle hclaim hout ih =>
    obtain ⟨hw, hrank⟩ := ih fun visited hv => hr visited (List.mem_append_left _ hv)
    obtain ⟨out', hout', hcourse⟩ :=
      connectorDue_course hdigest htimes hw.consistent now claim state
    cases Except.ok.inj (hout.symm.trans hout')
    have hnot : r ∉ out.visited := hr _ (List.mem_append_right _ (List.mem_singleton_self _))
    obtain ⟨-, -, hmoved⟩ := hcourse.visits hw.consistent
    obtain ⟨haimed, hlt⟩ := hcourse.rank_lt htimes hw.consistent hw.dueAt hd (hw.clock.trans hle)
      hw.aimed hclaim hnot
    refine ⟨⟨hmoved.consistent, (hmoved.dueAt hnot).mpr hw.dueAt, hw.clock.trans hle, haimed⟩, ?_⟩
    rw [List.length_append, List.length_singleton]
    omega

theorem Calls.consistent (hdigest : Function.Injective digest) (htimes : Times due)
    (hrun : Calls digest due r q T log q' clock) (h : Consistent digest due q) :
    Consistent digest due q' := by
  induction hrun with
  | start => exact h
  | change hrun hle hconsistent => exact hconsistent
  | @call log q₁ clock now σ R claim state out hrun hle hclaim hout ih =>
    obtain ⟨out', hout', hcourse⟩ := connectorDue_course hdigest htimes ih now claim state
    cases Except.ok.inj (hout.symm.trans hout')
    exact (hcourse.visits ih).2.2.consistent

/-- The cutoff that a call stores is not later than its time. -/
theorem Course.stored_le (hcourse : Course digest due claim q now state out) {k : Text} {t : ℕ}
    (h : out.queue.cursor = some (k, t)) : t ≤ now := by
  have hstored : ∀ (p : Pass σ ρ R) (w : Bool),
      (finish p (cutoff q now) w).queue.cursor = some (k, t) → t = cutoff q now := by
    intro p w heq
    obtain ⟨last, -, hpair⟩ := Option.map_eq_some_iff.mp heq
    exact (congrArg Prod.snd hpair).symm
  cases hcourse with
  | straight => exact hstored _ _ h ▸ cutoff_le q now
  | wrapped => exact hstored _ _ h ▸ cutoff_le q now

/-! ## Rows that are their due times -/

/-- A row that is due at its own number. -/
def dueTime (row : UInt64) : Option ℕ := some row.toNat

theorem dueTime_times : Times dueTime := by
  rintro row d hd
  cases hd
  exact Nat.le_of_lt_succ row.toNat_lt

/-- A visitor that declines some rows, accepts the others and leaves all as they are. -/
def acceptBut (declined : List Text) : Visitor Unit UInt64 Unit :=
  fun _ id row => ⟨(), some row, if id ∈ declined then none else some ()⟩

theorem acceptBut_reschedules (declined : List Text) (now : ℕ) :
    Reschedules dueTime now (acceptBut declined) := by
  intro _ _ row row' d hrow hd
  cases hrow
  exact .inl hd

/-- A queue with more rows. -/
def withRows (rows : List (Text × UInt64)) (q : Queue UInt64) : Queue UInt64 :=
  rows.foldl (fun q row => q.write id dueTime row.1 (some row.2)) q

theorem withRows_consistent (rows : List (Text × UInt64)) {q : Queue UInt64}
    (hq : Consistent id dueTime q) : Consistent id dueTime (withRows rows q) := by
  induction rows generalizing q with
  | nil => exact hq
  | cons row rows ih => exact ih (hq.write Function.injective_id row.1 (some row.2))

/-- A queue without rows. -/
def noRows (cursor : Option (Text × ℕ)) : Queue UInt64 := ⟨.empty, .empty, cursor⟩

theorem noRows_consistent (cursor : Option (Text × ℕ)) :
    Consistent id dueTime (noRows cursor) := by
  intro key id
  simp [noRows]

/-- The visits of `n` calls of this visitor at one time. -/
def acceptCalls (declined : List Text) (now : ℕ) : ℕ → Queue UInt64 → List (List Text)
  | 0, _ => []
  | n + 1, q =>
    match connectorDue id dueTime q now (acceptBut declined) () with
    | .ok out => out.visited :: acceptCalls declined now n out.queue
    | .error _ => []

/-- These calls are a run. -/
theorem exists_acceptCalls {q : Queue UInt64} (declined : List Text) (now n : ℕ)
    {log : List (List Text)}
    {q₁ : Queue UInt64} {clock : ℕ} (hq : Consistent id dueTime q₁) (hle : clock ≤ now)
    (hrun : Calls id dueTime r q T log q₁ clock) :
    ∃ q₂ clock₂, Calls id dueTime r q T (log ++ acceptCalls declined now n q₁) q₂ clock₂ := by
  induction n generalizing log q₁ clock with
  | zero => exact ⟨q₁, clock, by simpa [acceptCalls] using hrun⟩
  | succ n ih =>
    obtain ⟨out, hout, hcourse⟩ :=
      connectorDue_course Function.injective_id dueTime_times hq now (acceptBut declined) ()
    have hcall := hrun.call hle (acceptBut_reschedules declined now) hout
    have hrest := ih (hcourse.visits hq).2.2.consistent le_rfl hcall
    have hcalls : acceptCalls declined now (n + 1) q₁ =
        out.visited :: acceptCalls declined now n out.queue := by
      simp only [acceptCalls, hout]
    rwa [List.append_assoc, List.singleton_append, ← hcalls] at hrest

/-! ## Every row is visited -/

/-- **Claiming from a due queue starves no row.** From every queue with a consistent index, along
every run: a call returns, visits a row at most once and only rows that are due at its time, and the
cutoff of the cursor that it leaves is not later than its time. A row that is due and stays
unchanged is visited by one of `2n + 3` calls, where `n` rows were due at the start, if the stored
cutoff is not later than the clock there. -/
theorem connector_due_no_starvation (hdigest : Function.Injective digest) (htimes : Times due)
    (hq : Consistent digest due q) (hrun : Calls digest due r q T log q' clock) :
    (∀ (σ R : Type) (now : ℕ) (claim : Visitor σ ρ R) (state : σ),
      ∃ out, connectorDue digest due q' now claim state = .ok out ∧ out.visited.Nodup ∧
        (∀ id ∈ out.visited, ∃ d ≤ now, DueAt due q' id d) ∧
        ∀ k t, out.queue.cursor = some (k, t) → t ≤ now) ∧
    ∀ d ≤ T, DueAt due q r d → (∀ k t, q.cursor = some (k, t) → t ≤ T) →
      log.length = 2 * dueCount due q T + 3 → ∃ visited ∈ log, r ∈ visited := by
  have hq' := hrun.consistent hdigest htimes hq
  constructor
  · intro σ R now claim state
    obtain ⟨out, hout, hcourse⟩ := connectorDue_course hdigest htimes hq' now claim state
    obtain ⟨hnodup, hdue, -⟩ := hcourse.visits hq'
    exact ⟨out, hout, hnodup, hdue, fun k t => hcourse.stored_le⟩
  · intro d hd hdue hcursor hlength
    by_contra hnone
    push Not at hnone
    have hw : Waiting digest due r d T q T := ⟨hq, hdue, le_rfl, fun k t h => .inl (hcursor k t h)⟩
    obtain ⟨-, hrank⟩ := hrun.rank_le hdigest htimes hd hw hnone
    have hle := rank_le (dueKeys q T) (indexKey digest d r) d q.cursor
    have hcard := card_dueKeys_le htimes hq T
    omega

/-- Three rows are due before `r`. The cursor stands after the first one, with a cutoff that leaves
`r` out. -/
def behindThree : Queue UInt64 :=
  withRows [(['a'], 1), (['b'], 2), (['c'], 3), (['r'], 5)] (noRows (some (indexKey id 1 ['a'], 4)))

/-- The visitor declines two of the rows before `r` and takes the other again and again. -/
theorem connector_due_no_starvation_behindThree :
    ∃ log q' clock, Calls id dueTime ['r'] behindThree 5 log q' clock ∧
      log.take 4 = [[['b']], [['c']], [['a'], ['b']], [['c'], ['r']]] ∧
      log.length = 2 * 4 + 3 ∧ ∃ visited ∈ log, ['r'] ∈ visited := by
  have hconsistent : Consistent id dueTime behindThree := withRows_consistent _ (noRows_consistent _)
  have hstart : Calls id dueTime ['r'] behindThree 5 [] behindThree 5 := .start
  obtain ⟨q', clock, hrun⟩ := exists_acceptCalls [['a'], ['c']] 5 11 hconsistent le_rfl hstart
  refine ⟨_, q', clock, hrun, by decide, by decide, ?_⟩
  have hstarves := connector_due_no_starvation Function.injective_id dueTime_times hconsistent hrun
  refine hstarves.2 5 le_rfl ⟨5, by decide, rfl⟩ ?_ (by decide)
  rintro k t ⟨⟩
  decide

/-- Row `r` is due at 5, and five other rows come due from 6 to 10. The cursor stands after `r`,
with a cutoff of 100. -/
def lateCutoff : Queue UInt64 :=
  withRows [(['r'], 5), (['a'], 6), (['b'], 7), (['c'], 8), (['d'], 9), (['e'], 10)]
    (noRows (some (indexKey id 5 ['r'], 100)))

/-- With a stored cutoff that is later than the clock, five calls visit the rows after the cursor
and not the one row that was due. -/
theorem connector_due_late_cutoff :
    Consistent id dueTime lateCutoff ∧ DueAt dueTime lateCutoff ['r'] 5 ∧
      dueCount dueTime lateCutoff 5 = 1 ∧
      ∃ log q' clock, Calls id dueTime ['r'] lateCutoff 5 log q' clock ∧
        log.length = 2 * 1 + 3 ∧ ¬∃ visited ∈ log, ['r'] ∈ visited := by
  have hconsistent : Consistent id dueTime lateCutoff := withRows_consistent _ (noRows_consistent _)
  have hstart : Calls id dueTime ['r'] lateCutoff 5 [] lateCutoff 5 := .start
  obtain ⟨q', clock, hrun⟩ := exists_acceptCalls [] 100 5 hconsistent (by decide) hstart
  refine ⟨hconsistent, ⟨5, by decide, rfl⟩, by decide, _, q', clock, hrun, ?_⟩
  decide

end RiAuth.Store.Due
