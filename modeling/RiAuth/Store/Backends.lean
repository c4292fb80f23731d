import Mathlib.Algebra.Order.BigOperators.Group.List
import Mathlib.Algebra.Order.Ring.Nat
import RiAuth.Lib.Checks
import RiAuth.Lib.Lists
import RiAuth.Store.Snapshot

/-!
# The two backends of a snapshot

A snapshot page is read from redb by a loop over the records after the cursor, and from PostgreSQL
by a query that adds up record sizes before any value is read. `size` is the number of stored bytes
of a record, its name included.

* `redbPage`, `postgresPage`: a page as each of the backends reads it;
* `redbPage_eq`, `postgresPage_eq`: both read the page of `snapshotPage`;
* **`snapshot_backends`**: page by page, either backend enumerates the store.
-/

namespace RiAuth.Store

open Checks

variable {V : Type} (size : Text → V → ℕ)

/-! ## redb -/

/-- The loop over the records of a page. Sizes are added as unsigned 64-bit numbers. -/
def redbLoop (maxRawBytes : ℕ) :
    List (Text × V) → ℕ → List (Text × V) → Result (List (Text × V))
  | page, _, [] => .ok page
  | page, used, e :: rest =>
    if 2 ^ 64 ≤ used + size e.1 e.2 then .error (oversizedSnapshotRecord maxRawBytes)
    else if maxRawBytes < used + size e.1 e.2 then
      if page = [] then .error (oversizedSnapshotRecord maxRawBytes) else .ok page
    else redbLoop maxRawBytes (page ++ [e]) (used + size e.1 e.2) rest

/-- What both backends check before they read. -/
def checkedPage (limit maxRawBytes : ℕ) (read : Result (List (Text × V))) :
    Result (List (Text × V)) :=
  if limit = 0 then .ok []
  else if maxRawBytes = 0 then .error (.bad "Snapshot page byte limit must be positive")
  else read

/-- A page of the embedded store. -/
def redbPage (m : OrdMap Text V) (after : Option Text) (limit maxRawBytes : ℕ) :
    Result (List (Text × V)) :=
  checkedPage limit maxRawBytes
    (redbLoop size maxRawBytes [] 0 ((recordsAfter m after).take (min limit PAGE)))

/-! ## PostgreSQL -/

/-- A row of the window query: the running sum of the sizes, and the number of the row. -/
structure SizedRow where
  key : Text
  totalBytes : ℕ
  ordinal : ℕ

/-- `sum(record_bytes) OVER (ORDER BY key)` and `row_number() OVER (ORDER BY key)`. -/
def sized : ℕ → ℕ → List (Text × V) → List SizedRow
  | _, _, [] => []
  | total, ordinal, e :: rest =>
    ⟨e.1, total + size e.1 e.2, ordinal + 1⟩ :: sized (total + size e.1 e.2) (ordinal + 1) rest

/-- The rows that are selected: those within the bound, and the first one, whose key is `NULL` when
it is not. -/
def metadata (maxRawBytes : ℕ) (candidates : List (Text × V)) : List (Option Text) :=
  ((sized size 0 0 candidates).filter fun row =>
    row.totalBytes ≤ maxRawBytes ∨ row.ordinal = 1).map fun row =>
      if row.totalBytes ≤ maxRawBytes then some row.key else none

/-- The rows from the first key to the last, which have to be the ones that were measured. -/
def rowsBetween (m : OrdMap Text V) (keys : List Text) : Result (List (Text × V)) :=
  match keys.head?, keys.getLast? with
  | some first, some last => do
    let rows := m.entries.filter fun e => decide (¬e.1 < first) && decide (¬last < e.1)
    require (rows.length = keys.length) .internal
    require (∀ pair ∈ rows.zip keys, pair.1.1 = pair.2) .internal
    .ok rows
  | _, _ => .ok []

/-- A page of the shared store. -/
def postgresPage (m : OrdMap Text V) (after : Option Text) (limit maxRawBytes : ℕ) :
    Result (List (Text × V)) :=
  checkedPage limit maxRawBytes (do
    require (maxRawBytes < 2 ^ 63) .internal
    let keys ← (metadata size maxRawBytes ((recordsAfter m after).take (min limit PAGE))).mapM
      fun key => okOr key (oversizedSnapshotRecord maxRawBytes)
    rowsBetween m keys)

/-! ## Repeated calls -/

/-- The pages from a cursor on, until one is empty. The first number bounds them. -/
def snapshotPages (read : Option Text → Result (List (Text × V))) :
    ℕ → Option Text → Result (List (List (Text × V)))
  | 0, _ => .ok []
  | fuel + 1, after => do
    let page ← read after
    if page = [] then .ok []
    else do
      let later ← snapshotPages read fuel (lastName page)
      .ok (page :: later)

variable {size}

/-! ## The loop -/

variable {maxRawBytes limit : ℕ} {m : OrdMap Text V} {after : Option Text}
  {page rest : List (Text × V)}

theorem redbLoop_eq (hmax : maxRawBytes < 2 ^ 63) :
    ∀ {rest page : List (Text × V)} {used : ℕ}, page ≠ [] → used ≤ maxRawBytes →
      (∀ e ∈ rest, size e.1 e.2 < 2 ^ 63) →
      redbLoop size maxRawBytes page used rest =
        .ok (page ++ recordsWithin size maxRawBytes used rest)
  | [], page, used, _, _, _ => by rw [redbLoop, recordsWithin, List.append_nil]
  | e :: rest, page, used, hne, hused, hsize => by
    have hlt := hsize e List.mem_cons_self
    rw [redbLoop, recordsWithin, if_neg (by omega)]
    split
    · rw [List.append_nil]
    · rename_i hfit
      rw [redbLoop_eq hmax (List.append_ne_nil_of_right_ne_nil _ (List.cons_ne_nil _ _))
        (not_lt.mp hfit) fun d hd => hsize d (List.mem_cons_of_mem _ hd), List.append_assoc]
      rfl

theorem redbPage_eq (hmax : maxRawBytes < 2 ^ 63) (hsize : ∀ e ∈ m.entries, size e.1 e.2 < 2 ^ 63) :
    redbPage size m after limit maxRawBytes = snapshotPage size m after limit maxRawBytes := by
  have hrows : ∀ e ∈ (recordsAfter m after).take (min limit PAGE), size e.1 e.2 < 2 ^ 63 :=
    fun e he => hsize e (List.mem_filter.mp (List.mem_of_mem_take he)).1
  unfold redbPage snapshotPage checkedPage
  split
  · rfl
  · split
    · rfl
    · cases hcandidates : (recordsAfter m after).take (min limit PAGE) with
      | nil => rfl
      | cons e rest =>
        rw [hcandidates] at hrows
        have hlt := hrows e List.mem_cons_self
        simp only [redbLoop, Nat.zero_add]
        rw [if_neg (by omega), if_true]
        split
        · rfl
        · rename_i hfit
          rw [List.nil_append, redbLoop_eq hmax (List.cons_ne_nil _ _) (not_lt.mp hfit) fun d hd =>
            hrows d (List.mem_cons_of_mem _ hd), recordsWithin, Nat.zero_add, if_neg hfit]
          rfl

/-! ## The query -/

/-- Once the running sum is beyond the bound, it stays there. -/
theorem sized_beyond : ∀ {rest : List (Text × V)} {total ordinal : ℕ},
    maxRawBytes < total → ordinal ≠ 0 →
    (sized size total ordinal rest).filter (fun row =>
      row.totalBytes ≤ maxRawBytes ∨ row.ordinal = 1) = []
  | [], _, _, _, _ => rfl
  | e :: rest, total, ordinal, htotal, hordinal => by
    rw [sized, List.filter_cons, if_neg, sized_beyond (by omega) (Nat.succ_ne_zero ordinal)]
    rw [decide_eq_true_iff, not_or]
    constructor
    · change ¬total + size e.1 e.2 ≤ maxRawBytes
      omega
    · change ordinal + 1 ≠ 1
      omega

theorem metadata_within : ∀ {rest : List (Text × V)} {total ordinal : ℕ},
    ordinal ≠ 0 ∨ (∀ e ∈ rest.head?, total + size e.1 e.2 ≤ maxRawBytes) →
    ((sized size total ordinal rest).filter fun row =>
      row.totalBytes ≤ maxRawBytes ∨ row.ordinal = 1).map (fun row =>
        if row.totalBytes ≤ maxRawBytes then some row.key else none) =
      (recordsWithin size maxRawBytes total rest).map fun e => some e.1
  | [], _, _, _ => rfl
  | e :: rest, total, ordinal, hfirst => by
    rw [sized, recordsWithin]
    split
    · rename_i hbeyond
      have hordinal : ordinal ≠ 0 := by
        rcases hfirst with h | h
        · exact h
        · exact absurd (h e rfl) (not_le.mpr hbeyond)
      rw [List.filter_cons, if_neg, sized_beyond hbeyond (Nat.succ_ne_zero ordinal)]
      · rfl
      · rw [decide_eq_true_iff, not_or]
        exact ⟨not_le.mpr hbeyond, fun h => hordinal (Nat.succ_injective h)⟩
    · rename_i hfit
      rw [List.filter_cons, if_pos (decide_eq_true (.inl (not_lt.mp hfit))), List.map_cons,
        List.map_cons, if_pos (not_lt.mp hfit), metadata_within (.inl (Nat.succ_ne_zero ordinal))]

theorem mapM_some {α β ε : Type} (f : α → β) (e : ε) :
    ∀ l : List α, (l.map fun a => some (f a)).mapM (fun o => okOr o e) = .ok (l.map f)
  | [] => rfl
  | a :: l => by
    rw [List.map_cons, List.mapM_cons, mapM_some f e l]
    rfl

/-- The rows between the ends of a page are the page. -/
theorem filter_between {first last : Text × V} (h : recordsAfter m after = page ++ rest)
    (hfirst : page.head? = some first) (hlast : page.getLast? = some last) :
    (m.entries.filter fun e => decide (¬e.1 < first.1) && decide (¬last.1 < e.1)) = page := by
  have hsorted : (page ++ rest).Pairwise fun a b => a.1 < b.1 := by
    rw [← h]
    exact m.sorted.filter _
  obtain ⟨hpage, -, hrest⟩ := List.pairwise_append.mp hsorted
  have hafter : after.all (fun a => decide (a < first.1)) = true := by
    have hmem : first ∈ recordsAfter m after :=
      h ▸ List.mem_append_left _ (List.mem_of_mem_head? hfirst)
    exact (List.mem_filter.mp hmem).2
  -- what is not before the first record is after the cursor
  have hsame : (m.entries.filter fun e => decide (¬e.1 < first.1) && decide (¬last.1 < e.1)) =
      (recordsAfter m after).filter fun e => decide (¬e.1 < first.1) && decide (¬last.1 < e.1) := by
    rw [recordsAfter, List.filter_filter]
    refine List.filter_congr fun e _ => ?_
    cases after with
    | none => rw [Option.all_none, Bool.and_true]
    | some a =>
      rw [Option.all_some] at hafter ⊢
      by_cases hlt : e.1 < first.1
      · rw [decide_eq_false (not_not.mpr hlt), Bool.false_and, Bool.false_and]
      · rw [decide_eq_true (lt_of_lt_of_le (of_decide_eq_true hafter) (not_lt.mp hlt)),
          Bool.and_true]
  rw [hsame, h, List.filter_append, List.filter_eq_self.mpr, List.filter_eq_nil_iff.mpr,
    List.append_nil]
  · intro e he hbetween
    rw [Bool.and_eq_true, decide_eq_true_iff, decide_eq_true_iff] at hbetween
    exact hbetween.2 (hrest last (List.mem_of_getLast? hlast) e he)
  · intro e he
    rw [Bool.and_eq_true, decide_eq_true_iff, decide_eq_true_iff]
    constructor
    · obtain ⟨tail, rfl⟩ := List.head?_eq_some_iff.mp hfirst
      rcases List.mem_cons.mp he with rfl | he
      · exact lt_irrefl _
      · exact not_lt.mpr ((List.pairwise_cons.mp hpage).1 e he).le
    · obtain ⟨init, rfl⟩ := List.getLast?_eq_some_iff.mp hlast
      rcases List.mem_append.mp he with he | he
      · exact not_lt.mpr ((List.pairwise_append.mp hpage).2.2 e he last List.mem_cons_self).le
      · rw [List.mem_singleton.mp he]
        exact lt_irrefl _

theorem rowsBetween_page (h : recordsAfter m after = page ++ rest) :
    rowsBetween m (page.map Prod.fst) = .ok page := by
  cases hfirst : page.head? with
  | none =>
    rw [List.head?_eq_none_iff.mp hfirst]
    rfl
  | some first =>
    cases hlast : page.getLast? with
    | none =>
      rw [List.getLast?_eq_none_iff.mp hlast]
      rfl
    | some last =>
      unfold rowsBetween
      rw [List.head?_map, hfirst, List.getLast?_map, hlast]
      simp only [Option.map_some, filter_between h hfirst hlast]
      rw [seq_ok, require_ok, seq_ok, require_ok]
      exact ⟨(List.length_map _).symm, fun _ hpair => List.eq_of_mem_zip_map Prod.fst hpair, rfl⟩

theorem postgresPage_eq (hmax : maxRawBytes < 2 ^ 63) :
    postgresPage size m after limit maxRawBytes = snapshotPage size m after limit maxRawBytes := by
  unfold postgresPage snapshotPage checkedPage
  split
  · rfl
  · split
    · rfl
    · cases hcandidates : (recordsAfter m after).take (min limit PAGE) with
      | nil =>
        rw [require, if_pos hmax]
        rfl
      | cons e rest =>
        dsimp only
        split
        · rename_i hbeyond
          have hmetadata : metadata size maxRawBytes (e :: rest) = [none] := by
            rw [metadata, sized, Nat.zero_add, List.filter_cons, if_pos (decide_eq_true (.inr rfl)),
              sized_beyond hbeyond Nat.one_ne_zero, List.map_singleton, if_neg (not_le.mpr hbeyond)]
          rw [hmetadata, require, if_pos hmax]
          rfl
        · rename_i hfit
          have hmetadata : metadata size maxRawBytes (e :: rest) =
              (recordsWithin size maxRawBytes 0 (e :: rest)).map fun e => some e.1 := by
            refine metadata_within (.inr fun d hd => ?_)
            cases hd
            rw [Nat.zero_add]
            exact not_lt.mp hfit
          obtain ⟨tail, htail⟩ := recordsWithin_initial size maxRawBytes 0 (e :: rest)
          have hafter : recordsAfter m after =
              recordsWithin size maxRawBytes 0 (e :: rest) ++
                (tail ++ (recordsAfter m after).drop (min limit PAGE)) := by
            rw [← List.append_assoc, ← htail, ← hcandidates, List.take_append_drop]
          rw [hmetadata, mapM_some Prod.fst, require, if_pos hmax]
          exact rowsBetween_page hafter

/-! ## Whole snapshots -/

/-- Stored bytes of a list of records. -/
def storedBytes (size : Text → V → ℕ) (records : List (Text × V)) : ℕ :=
  (records.map fun e => size e.1 e.2).sum

/-- A part at the front of a list that keeps within both limits. -/
def Fits (size : Text → V → ℕ) (count maxRawBytes : ℕ) (rest page : List (Text × V)) : Prop :=
  (∃ tail, rest = page ++ tail) ∧ page.length ≤ count ∧ storedBytes size page ≤ maxRawBytes

/-- The longest such part. -/
def Longest (size : Text → V → ℕ) (count maxRawBytes : ℕ) (rest page : List (Text × V)) : Prop :=
  Fits size count maxRawBytes rest page ∧
    ∀ other, Fits size count maxRawBytes rest other → other.length ≤ page.length

theorem storedBytes_recordsWithin : ∀ {rest : List (Text × V)} {used : ℕ},
    used ≤ maxRawBytes →
    used + storedBytes size (recordsWithin size maxRawBytes used rest) ≤ maxRawBytes
  | [], used, h => h
  | e :: rest, used, h => by
    rw [recordsWithin]
    split
    · exact h
    · rename_i hfit
      rw [storedBytes, List.map_cons, List.sum_cons, ← Nat.add_assoc]
      exact storedBytes_recordsWithin (not_lt.mp hfit)

theorem length_le_recordsWithin :
    ∀ {rest other tail : List (Text × V)} {used : ℕ}, rest = other ++ tail →
      used + storedBytes size other ≤ maxRawBytes →
      other.length ≤ (recordsWithin size maxRawBytes used rest).length
  | _, [], _, _, _, _ => Nat.zero_le _
  | _, e :: other, tail, used, rfl, h => by
    rw [storedBytes, List.map_cons, List.sum_cons, ← Nat.add_assoc] at h
    rw [List.cons_append, recordsWithin, if_neg (by omega), List.length_cons, List.length_cons]
    exact Nat.succ_le_succ (length_le_recordsWithin rfl h)

theorem recordsWithin_longest (size : Text → V → ℕ) (count maxRawBytes : ℕ)
    (rest : List (Text × V)) :
    Longest size count maxRawBytes rest (recordsWithin size maxRawBytes 0 (rest.take count)) := by
  obtain ⟨tail, htail⟩ := recordsWithin_initial size maxRawBytes 0 (rest.take count)
  refine ⟨⟨⟨tail ++ rest.drop count, ?_⟩, ?_, ?_⟩, ?_⟩
  · rw [← List.append_assoc, ← htail, List.take_append_drop]
  · have := congrArg List.length htail
    rw [List.length_append, List.length_take] at this
    omega
  · rw [← Nat.zero_add (storedBytes _ _)]
    exact storedBytes_recordsWithin (Nat.zero_le maxRawBytes)
  · rintro other ⟨⟨tail', rfl⟩, hcount, hbytes⟩
    have htake : (other ++ tail').take count = other ++ tail'.take (count - other.length) := by
      rw [List.take_append, List.take_of_length_le hcount]
    exact length_le_recordsWithin htake (by rwa [Nat.zero_add])

theorem Longest.size_le {count : ℕ} (h : Longest size count maxRawBytes rest page) :
    ∀ e ∈ page, size e.1 e.2 ≤ maxRawBytes :=
  fun _ he => (List.single_le_sum (fun _ _ => Nat.zero_le _) _ (List.mem_map_of_mem he)).trans
    h.1.2.2

/-- A page that is read, and what is left behind it. -/
theorem snapshotPage_longest {done : List (Text × V)} (h : m.entries = done ++ rest)
    (hlimit : limit ≠ 0) (hmax : maxRawBytes ≠ 0)
    (hfit : ∀ e ∈ rest.head?, size e.1 e.2 ≤ maxRawBytes) :
    ∃ page rest', snapshotPage size m (lastName done) limit maxRawBytes = .ok page ∧
      Longest size (min limit PAGE) maxRawBytes rest page ∧ rest = page ++ rest' ∧
      (rest ≠ [] → page ≠ []) := by
  obtain ⟨page, rest', hpage, hrest, hne⟩ := snapshotPage_ok h hlimit hmax hfit
  refine ⟨page, rest', hpage, ?_, hrest, hne⟩
  rw [snapshotPage_eq h hlimit hmax hfit] at hpage
  cases hpage
  exact recordsWithin_longest _ _ _ _

theorem snapshotPages_cons {done : List (Text × V)} (hne : page ≠ [])
    (hpage : snapshotPage size m (lastName done) limit maxRawBytes = .ok page) (fuel : ℕ) :
    snapshotPages (snapshotPage size m · limit maxRawBytes) (fuel + 1) (lastName done) =
      (snapshotPages (snapshotPage size m · limit maxRawBytes) fuel (lastName (done ++ page))).map
        (page :: ·) := by
  rw [snapshotPages, hpage, lastName_append hne]
  change (if page = [] then _ else _) = _
  rw [if_neg hne]
  cases snapshotPages (snapshotPage size m · limit maxRawBytes) fuel (lastName page) <;> rfl

/-- Page by page all records are read, unless one of them does not fit. -/
theorem snapshotPages_eq (hlimit : limit ≠ 0) (hmax : maxRawBytes ≠ 0) :
    ∀ {fuel : ℕ} {done rest : List (Text × V)}, m.entries = done ++ rest → rest.length < fuel →
      ((∀ e ∈ rest, size e.1 e.2 ≤ maxRawBytes) →
        ∃ pages, snapshotPages (snapshotPage size m · limit maxRawBytes) fuel (lastName done) =
          .ok pages ∧ pages.flatten = rest) ∧
      ((∃ e ∈ rest, maxRawBytes < size e.1 e.2) →
        snapshotPages (snapshotPage size m · limit maxRawBytes) fuel (lastName done) =
          .error (oversizedSnapshotRecord maxRawBytes))
  | 0, _, _, _, hfuel => absurd hfuel (Nat.not_lt_zero _)
  | fuel + 1, done, [], h, _ => by
    have hhead : ∀ e ∈ ([] : List (Text × V)).head?, size e.1 e.2 ≤ maxRawBytes := nofun
    obtain ⟨page, rest', hpage, -, hrest, -⟩ := snapshotPage_longest h hlimit hmax hhead
    obtain ⟨rfl, rfl⟩ := List.append_eq_nil_iff.mp hrest.symm
    refine ⟨fun _ => ⟨[], ?_, rfl⟩, ?_⟩
    · rw [snapshotPages, hpage]
      rfl
    · rintro ⟨e, he, -⟩
      exact absurd he List.not_mem_nil
  | fuel + 1, done, d :: rest, h, hfuel => by
    rcases Nat.lt_or_ge maxRawBytes (size d.1 d.2) with hd | hd
    · refine ⟨fun hfit => absurd (hfit d List.mem_cons_self) (not_le.mpr hd), fun _ => ?_⟩
      rw [snapshotPages, snapshotPage_oversized h hlimit hmax hd]
      rfl
    · have hhead : ∀ e ∈ (d :: rest).head?, size e.1 e.2 ≤ maxRawBytes := by
        rintro e ⟨⟩
        exact hd
      obtain ⟨page, rest', hpage, hlongest, hrest, hne⟩ := snapshotPage_longest h hlimit hmax hhead
      have hne := hne (List.cons_ne_nil _ _)
      have hpos := List.length_pos_iff.mpr hne
      have hentries : m.entries = (done ++ page) ++ rest' := by
        rw [h, hrest, List.append_assoc]
      have hleft : rest'.length < fuel := by
        rw [hrest, List.length_append] at hfuel
        omega
      obtain ⟨hok, herror⟩ := snapshotPages_eq hlimit hmax hentries hleft
      rw [snapshotPages_cons hne hpage, hrest]
      constructor
      · intro hfit
        obtain ⟨pages, hpages, hflatten⟩ := hok fun e he => hfit e (List.mem_append_right _ he)
        refine ⟨page :: pages, ?_, ?_⟩
        · rw [hpages]
          rfl
        · rw [List.flatten_cons, hflatten]
      · rintro ⟨e, he, hsize⟩
        rcases List.mem_append.mp he with he | he
        · exact absurd (hlongest.size_le e he) (not_le.mpr hsize)
        · rw [herror ⟨e, he, hsize⟩]
          rfl

/-- With positive limits, of which the byte limit is a signed 64-bit number as all sizes are: the
backends read the same pages, each the longest part of what is left that keeps within both limits,
and all of them together are the records in order. A record that does not fit by itself is the only
failure. -/
theorem snapshot_backends {size : Text → V → ℕ} {m : OrdMap Text V} {limit maxRawBytes : ℕ}
    (hlimit : 0 < limit) (hmax : 0 < maxRawBytes) (hsigned : maxRawBytes < 2 ^ 63)
    (hsize : ∀ e ∈ m.entries, size e.1 e.2 < 2 ^ 63) :
    (∀ after, redbPage size m after limit maxRawBytes =
      postgresPage size m after limit maxRawBytes) ∧
    (∀ done rest, m.entries = done ++ rest →
      ((∀ e ∈ rest.head?, size e.1 e.2 ≤ maxRawBytes) →
        ∃ page, redbPage size m (lastName done) limit maxRawBytes = .ok page ∧
          Longest size (min limit PAGE) maxRawBytes rest page) ∧
      ∀ e ∈ rest.head?, maxRawBytes < size e.1 e.2 →
        redbPage size m (lastName done) limit maxRawBytes =
          .error (oversizedSnapshotRecord maxRawBytes)) ∧
    (∀ fuel, m.entries.length < fuel →
      ((∀ e ∈ m.entries, size e.1 e.2 ≤ maxRawBytes) →
        ∃ pages, snapshotPages (redbPage size m · limit maxRawBytes) fuel none = .ok pages ∧
          pages.flatten = m.entries) ∧
      ((∃ e ∈ m.entries, maxRawBytes < size e.1 e.2) →
        snapshotPages (redbPage size m · limit maxRawBytes) fuel none =
          .error (oversizedSnapshotRecord maxRawBytes))) := by
  have hredb : (redbPage size m · limit maxRawBytes) = (snapshotPage size m · limit maxRawBytes) :=
    funext fun after => redbPage_eq hsigned hsize
  refine ⟨fun after => ?_, fun done rest h => ⟨fun hfit => ?_, fun e he hlarge => ?_⟩,
    fun fuel hfuel => ?_⟩
  · rw [redbPage_eq hsigned hsize, postgresPage_eq hsigned]
  · obtain ⟨page, -, hpage, hlongest, -, -⟩ :=
      snapshotPage_longest h hlimit.ne' hmax.ne' hfit
    exact ⟨page, (redbPage_eq hsigned hsize).trans hpage, hlongest⟩
  · obtain ⟨tail, rfl⟩ := List.head?_eq_some_iff.mp he
    rw [redbPage_eq hsigned hsize]
    exact snapshotPage_oversized h hlimit.ne' hmax.ne' hlarge
  · have hentries : m.entries = [] ++ m.entries := rfl
    rw [hredb]
    exact snapshotPages_eq hlimit.ne' hmax.ne' hentries hfuel

/-- Two records of three bytes, of which a page of five bytes holds one. -/
def twoRecords : OrdMap Text ℕ := (OrdMap.empty.insert "a/x".toList 3).insert "a/y".toList 3

theorem snapshot_backends_twoRecords :
    ∃ pages, snapshotPages (redbPage (fun _ n => n) twoRecords · 10 5) 3 none = .ok pages ∧
      pages.flatten = twoRecords.entries :=
  ((snapshot_backends (by decide) (by decide) (by decide) (by decide)).2.2 3
    (by decide)).1 (by decide)

/-- With a count limit of zero the first page is empty, whatever is stored. -/
theorem snapshot_limit_zero :
    twoRecords.entries ≠ [] ∧
      snapshotPages (redbPage (fun _ n => n) twoRecords · 0 5) 3 none = .ok [] := by
  decide

end RiAuth.Store
