import RiAuth.Lib.Sweep
import RiAuth.Store.Scans
import RiAuth.Store.Snapshot

/-!
# Maintenance sweeps

Maintenance goes through a bucket in pages. A durable cursor stands on the last key of a page, and a
durable bound keeps the greatest key at the start of the sweep, so that new records at the end do
not keep the sweep from coming round.

* `maintenancePage`: the next page, with its cursor and bound;
* `Sweep`: calls between which anybody writes to the store;
* **`maintenance_sweep`**: a sweep reads whatever stays there, once, and comes to an end.
-/

namespace RiAuth.Store

variable {V : Type}

/-- The store, with the two buckets that maintenance keeps for itself. -/
structure Maintained (V : Type) where
  records : OrdMap Text V
  cursors : OrdMap Text Text
  bounds : OrdMap Text Text

namespace Maintained

/-- The greatest key of a bucket. -/
def greatest (records : OrdMap Text V) (bucket : Text) : Option Text :=
  (scanReverse records bucket none 1).head?.map Prod.fst

/-- The sweep of a bucket is over. -/
def cleared (s : Maintained V) (bucket : Text) : Maintained V :=
  { s with cursors := s.cursors.erase bucket, bounds := s.bounds.erase bucket }

/-- The next page of a sweep. -/
def maintenancePage (s : Maintained V) (bucket : Text) : List (Text × V) × Maintained V :=
  let cursor := s.cursors.get? bucket
  match (s.bounds.get? bucket).or (greatest s.records bucket) with
  | none => ([], s.cleared bucket)
  | some stop =>
    let records := OrdMap.upTo stop (scan s.records bucket cursor PAGE)
    if OrdMap.Done PAGE stop records then (records, s.cleared bucket)
    else
      -- a page that is full has a last record
      (records, records.getLast?.elim s fun last =>
        { s with cursors := s.cursors.insert bucket last.1,
                 bounds := s.bounds.insert bucket stop })

/-- A sweep of a bucket from a call without a cursor on: the records at its start, all the records
it met, newest first, and the pages it read. -/
inductive Sweep (bucket : Text) (start : OrdMap Text V) :
    List (OrdMap Text V) → List (List (Text × V)) → Maintained V → Prop
  | first {s : Maintained V} (hrecords : s.records = start) (hcursor : s.cursors.get? bucket = none)
      (hbound : s.bounds.get? bucket = none) :
      Sweep bucket start [start] [(s.maintenancePage bucket).1] (s.maintenancePage bucket).2
  | write {moments : List (OrdMap Text V)} {pages : List (List (Text × V))} {s : Maintained V}
      (hsweep : Sweep bucket start moments pages s) (name : Text) (record : Option V) :
      Sweep bucket start (s.records.set name record :: moments) pages
        { s with records := s.records.set name record }
  | page {moments : List (OrdMap Text V)} {pages : List (List (Text × V))} {s : Maintained V}
      (hsweep : Sweep bucket start moments pages s) (hcursor : s.cursors.get? bucket ≠ none) :
      Sweep bucket start moments (pages ++ [(s.maintenancePage bucket).1])
        (s.maintenancePage bucket).2

/-! ## One call -/

theorem get?_bucketOf (m : OrdMap Text V) (bucket k : Text) :
    (bucketOf m bucket).get? k = m.get? (recordKey bucket k) := by
  ext v
  rw [← OrdMap.mem_entries_iff, mem_bucketOf]

/-- The bound of a call: the one that was kept, or the greatest key. -/
def stop (s : Maintained V) (bucket : Text) : Option Text :=
  (s.bounds.get? bucket).or (greatest s.records bucket)

/-- The page that a call reads up to a bound. -/
def pageTo (s : Maintained V) (bucket stop : Text) : List (Text × V) :=
  (bucketOf s.records bucket).sweepPage PAGE (s.cursors.get? bucket) stop

/-- All that a call can do. -/
inductive Paged (s : Maintained V) (bucket : Text) : List (Text × V) × Maintained V → Prop
  | empty (hstop : s.stop bucket = none) : Paged s bucket ([], s.cleared bucket)
  | last {stop : Text} (hstop : s.stop bucket = some stop)
      (hdone : OrdMap.Done PAGE stop (s.pageTo bucket stop)) :
      Paged s bucket (s.pageTo bucket stop, s.cleared bucket)
  | more {stop : Text} {last : Text × V} (hstop : s.stop bucket = some stop)
      (hdone : ¬OrdMap.Done PAGE stop (s.pageTo bucket stop))
      (hlast : (s.pageTo bucket stop).getLast? = some last) :
      Paged s bucket (s.pageTo bucket stop,
        { s with cursors := s.cursors.insert bucket last.1,
                 bounds := s.bounds.insert bucket stop })

theorem maintenancePage_paged (s : Maintained V) (bucket : Text) :
    Paged s bucket (s.maintenancePage bucket) := by
  unfold maintenancePage
  split
  · rename_i hstop
    exact .empty hstop
  · rename_i stop hstop
    have hpage : OrdMap.upTo stop (scan s.records bucket (s.cursors.get? bucket) PAGE) =
        s.pageTo bucket stop := by
      rw [scan, scanDirection_eq]
      rfl
    dsimp only
    rw [hpage]
    split
    · rename_i hdone
      exact .last hstop hdone
    · rename_i hdone
      have hlength : (s.pageTo bucket stop).length = PAGE := OrdMap.length_sweepPage hdone
      have hne : s.pageTo bucket stop ≠ [] := List.length_pos_iff.mp (hlength ▸ by decide)
      have hlast := List.getLast?_eq_some_getLast hne
      rw [hlast]
      exact .more hstop hdone hlast

/-- Cursor and bound come and go together. -/
theorem maintenancePage_paired (s : Maintained V) (bucket : Text) :
    (s.maintenancePage bucket).2.cursors.get? bucket = none ↔
      (s.maintenancePage bucket).2.bounds.get? bucket = none := by
  have hcleared : (s.cleared bucket).cursors.get? bucket = none ↔
      (s.cleared bucket).bounds.get? bucket = none := by
    simp [cleared, OrdMap.get?_erase]
  have hpaged := maintenancePage_paged s bucket
  generalize s.maintenancePage bucket = result at hpaged ⊢
  cases hpaged with
  | empty => exact hcleared
  | last => exact hcleared
  | more => simp

/-! ## Sweeps -/

/-- How far a sweep has come. An empty bucket has no bound, and its sweep ends at once. -/
inductive Progress (bucket : Text) (start : OrdMap Text V) (moments : List (OrdMap Text V))
    (pages : List (List (Text × V))) (s : Maintained V) : Prop
  | empty (hgreatest : greatest start bucket = none) (hpages : pages = [[]])
      (hcursor : s.cursors.get? bucket = none)
  | swept {stop : Text} (hgreatest : greatest start bucket = some stop)
      (hswept : OrdMap.Swept PAGE stop (moments.map (bucketOf · bucket)) pages
        (s.cursors.get? bucket) (s.cursors.get? bucket).isNone)
      (hbound : s.cursors.get? bucket ≠ none → s.bounds.get? bucket = some stop)

variable {bucket : Text} {start : OrdMap Text V} {moments : List (OrdMap Text V)}
  {pages : List (List (Text × V))} {s : Maintained V}

/-- A call takes a sweep one page further. -/
theorem progress_page {stop : Text} (hgreatest : greatest start bucket = some stop)
    (hmem : s.records ∈ moments)
    (hswept : OrdMap.Swept PAGE stop (moments.map (bucketOf · bucket)) pages
      (s.cursors.get? bucket) false)
    (hstop : s.stop bucket = some stop) :
    Progress bucket start moments (pages ++ [(s.maintenancePage bucket).1])
      (s.maintenancePage bucket).2 := by
  have hbucket : bucketOf s.records bucket ∈ moments.map (bucketOf · bucket) :=
    List.mem_map_of_mem hmem
  have hpage : ∀ {next : Option Text},
      (next.isNone = true ↔ OrdMap.Done PAGE stop (s.pageTo bucket stop)) →
      (next.isNone = false → next = (s.pageTo bucket stop).getLast?.map Prod.fst) →
      OrdMap.Swept PAGE stop (moments.map (bucketOf · bucket))
        (pages ++ [s.pageTo bucket stop]) next next.isNone :=
    fun hlast hnext => hswept.page hbucket (by decide) hlast hnext
  have hpaged := maintenancePage_paged s bucket
  generalize s.maintenancePage bucket = result at hpaged ⊢
  cases hpaged with
  | empty hnone => exact absurd (hnone.symm.trans hstop) (Option.some_ne_none stop).symm
  | last hsome hdone =>
    cases hsome.symm.trans hstop
    have hcleared : (s.cleared bucket).cursors.get? bucket = none := by
      simp [cleared, OrdMap.get?_erase]
    refine .swept hgreatest ?_ fun h => absurd hcleared h
    rw [hcleared]
    exact hpage ⟨fun _ => hdone, fun _ => rfl⟩ nofun
  | more hsome hdone hlast =>
    cases hsome.symm.trans hstop
    rename_i last
    have hmoved : (s.cursors.insert bucket last.1).get? bucket = some last.1 := by simp
    refine .swept hgreatest ?_ fun _ => by simp
    change OrdMap.Swept _ _ _ _ ((s.cursors.insert bucket last.1).get? bucket) _
    rw [hmoved]
    refine hpage ⟨nofun, fun h => absurd h hdone⟩ fun _ => ?_
    rw [hlast, Option.map_some]

theorem Sweep.mem (h : Sweep bucket start moments pages s) :
    s.records ∈ moments ∧ start ∈ moments := by
  have hkeep : ∀ s : Maintained V, (s.maintenancePage bucket).2.records = s.records := fun s => by
    have hpaged := maintenancePage_paged s bucket
    generalize s.maintenancePage bucket = result at hpaged ⊢
    cases hpaged <;> rfl
  induction h with
  | first hrecords =>
    rw [hkeep, hrecords]
    exact ⟨List.mem_cons_self, List.mem_cons_self⟩
  | write _ _ _ ih => exact ⟨List.mem_cons_self, List.mem_cons_of_mem _ ih.2⟩
  | page _ _ ih =>
    rw [hkeep]
    exact ih

theorem Sweep.progress (h : Sweep bucket start moments pages s) :
    Progress bucket start moments pages s := by
  induction h with
  | @first s hrecords hcursor hbound =>
    have hstop : s.stop bucket = greatest start bucket := by
      rw [stop, hbound, Option.none_or, hrecords]
    cases hgreatest : greatest start bucket with
    | none =>
      rw [hgreatest] at hstop
      have hpaged := maintenancePage_paged s bucket
      generalize s.maintenancePage bucket = result at hpaged ⊢
      cases hpaged with
      | empty => exact .empty hgreatest rfl (by simp [cleared, OrdMap.get?_erase])
      | last hsome => exact absurd (hstop.symm.trans hsome) (Option.some_ne_none _).symm
      | more hsome => exact absurd (hstop.symm.trans hsome) (Option.some_ne_none _).symm
    | some stop =>
      have hmem : s.records ∈ [start] := List.mem_singleton.mpr hrecords
      have hnone : OrdMap.Swept PAGE stop ([start].map (bucketOf · bucket)) []
          (s.cursors.get? bucket) false := by
        rw [hcursor]
        exact OrdMap.Swept.start _ _ _
      exact progress_page hgreatest hmem hnone (hstop.trans hgreatest)
  | write hsweep name record ih =>
    cases ih with
    | empty hgreatest hpages hcursor => exact .empty hgreatest hpages hcursor
    | swept hgreatest hswept hbound => exact .swept hgreatest (hswept.change _) hbound
  | @page moments pages s hsweep hcursor ih =>
    cases ih with
    | empty _ _ hnone => exact absurd hnone hcursor
    | swept hgreatest hswept hbound =>
      rw [Option.isNone_eq_false_iff.mpr (Option.isSome_iff_ne_none.mpr hcursor)] at hswept
      refine progress_page hgreatest hsweep.mem.1 hswept ?_
      rw [stop, hbound hcursor, Option.some_or]

theorem greatest_eq (m : OrdMap Text V) (bucket : Text) :
    greatest m bucket = (bucketOf m bucket).entries.getLast?.map Prod.fst := by
  rw [greatest, scanReverse, scanDirection_eq, OrdMap.page, OrdMap.after_none, List.head?_take,
    if_neg Nat.one_ne_zero]
  change (List.reverse _).head?.map _ = _
  rw [List.head?_reverse]

/-- The greatest key is the greatest. -/
theorem le_greatest {m : OrdMap Text V} {bucket k : Text}
    (h : m.get? (recordKey bucket k) ≠ none) :
    ∃ stop, greatest m bucket = some stop ∧ k ≤ stop := by
  obtain ⟨v, hv⟩ := Option.ne_none_iff_exists'.mp h
  have hmem := mem_bucketOf.mpr hv
  have hsorted := (bucketOf m bucket).sorted
  rw [greatest_eq]
  rcases List.eq_nil_or_concat (bucketOf m bucket).entries with hnil | ⟨init, e, hconcat⟩
  · rw [hnil] at hmem
    exact absurd hmem List.not_mem_nil
  · rw [List.concat_eq_append] at hconcat
    rw [hconcat] at hmem hsorted ⊢
    refine ⟨e.1, by simp, ?_⟩
    rcases List.mem_append.mp hmem with hmem | hmem
    · exact ((List.pairwise_append.mp hsorted).2.2 _ hmem e List.mem_cons_self).le
    · rw [← List.mem_singleton.mp hmem]

/-- Whatever is written between the calls of a sweep: no key is read twice, none above the bound at
the start, and only records that were there. What was there all the time has been read once when the
cursor is cleared, and there are no more calls than the keys up to the bound allow. -/
theorem maintenance_sweep {bucket : Text} {start : OrdMap Text V} {moments : List (OrdMap Text V)}
    {pages : List (List (Text × V))} {s : Maintained V} (h : Sweep bucket start moments pages s) :
    (pages.flatten.map Prod.fst).Pairwise (· < ·) ∧
    (∀ e ∈ pages.flatten, (∃ stop, greatest start bucket = some stop ∧ e.1 ≤ stop) ∧
      ∃ m ∈ moments, m.get? (recordKey bucket e.1) = some e.2) ∧
    (s.cursors.get? bucket = none → ∀ k, (∀ m ∈ moments, m.get? (recordKey bucket k) ≠ none) →
      (pages.flatten.map Prod.fst).count k = 1) ∧
    (∀ ks : Finset Text, (∀ m ∈ moments, ∀ k, m.get? (recordKey bucket k) ≠ none →
        (∃ stop, greatest start bucket = some stop ∧ k ≤ stop) → k ∈ ks) →
      pages.length ≤ ks.card / PAGE + 1 ∧
        (s.cursors.get? bucket ≠ none → pages.length ≤ ks.card / PAGE)) ∧
    (s.cursors.get? bucket = none ↔ s.bounds.get? bucket = none) := by
  have hpaired : s.cursors.get? bucket = none ↔ s.bounds.get? bucket = none := by
    induction h with
    | first => exact maintenancePage_paired _ _
    | write _ _ _ ih => exact ih
    | page => exact maintenancePage_paired _ _
  have hstart := h.mem.2
  cases h.progress with
  | empty hgreatest hpages hcursor =>
    subst hpages
    refine ⟨List.Pairwise.nil, nofun, fun _ k hall => ?_, fun ks _ => ⟨?_, ?_⟩, hpaired⟩
    · obtain ⟨stop, hstop, -⟩ := le_greatest (hall start hstart)
      exact absurd (hgreatest.symm.trans hstop) (Option.some_ne_none _).symm
    · exact Nat.le_add_left 1 _
    · exact fun hne => absurd hcursor hne
  | @swept stop hgreatest hswept hbound =>
    refine ⟨List.pairwise_map.mpr hswept.sorted, fun e he => ⟨⟨stop, hgreatest,
      hswept.bounded e he⟩, ?_⟩, fun hnone k hall => ?_, fun ks hks => ?_, hpaired⟩
    · obtain ⟨m', hm', hget⟩ := hswept.read e he
      obtain ⟨m, hm, rfl⟩ := List.mem_map.mp hm'
      rw [get?_bucketOf] at hget
      exact ⟨m, hm, hget⟩
    · obtain ⟨stop', hstop', hle⟩ := le_greatest (hall start hstart)
      cases hgreatest.symm.trans hstop'
      have hmoments : ∀ m ∈ moments.map (bucketOf · bucket), m.get? k ≠ none := by
        intro m' hm'
        obtain ⟨m, hm, rfl⟩ := List.mem_map.mp hm'
        rw [get?_bucketOf]
        exact hall m hm
      obtain ⟨v, hv⟩ := hswept.covered k hle (.inl (Option.isNone_iff_eq_none.mpr hnone)) hmoments
      exact List.count_eq_one_of_mem hswept.nodup (List.mem_map_of_mem hv)
    · have hnames : ∀ m ∈ moments.map (bucketOf · bucket), ∀ k ≤ stop, m.get? k ≠ none →
          k ∈ ks := by
        intro m' hm' k hk hget
        obtain ⟨m, hm, rfl⟩ := List.mem_map.mp hm'
        rw [get?_bucketOf] at hget
        exact hks m hm k hget ⟨stop, hgreatest, hk⟩
      have hcount := hswept.length_le (by decide) hnames
      exact ⟨hcount.1, fun hne => hcount.2 (Option.isNone_eq_false_iff.mpr
        (Option.isSome_iff_ne_none.mpr hne))⟩

/-! ### A sweep of two calls -/

theorem length_maintenancePage_le (s : Maintained V) (bucket : Text) :
    (s.maintenancePage bucket).1.length ≤ PAGE := by
  have hpage : ∀ stop, (s.pageTo bucket stop).length ≤ PAGE := fun stop => by
    rw [pageTo, OrdMap.sweepPage_eq]
    exact List.length_take_le _ _
  have hpaged := maintenancePage_paged s bucket
  generalize s.maintenancePage bucket = result at hpaged ⊢
  cases hpaged with
  | empty => exact Nat.zero_le _
  | last => exact hpage _
  | more => exact hpage _

/-- The name of a record. -/
def nthName (i : ℕ) : Text := List.replicate i 'a'

theorem nthName_injective : Function.Injective nthName :=
  fun i j h => by simpa [nthName] using congrArg List.length h

theorem recordKey_nthName_injective :
    Function.Injective fun i => recordKey "s".toList (nthName i) := fun i j h =>
  nthName_injective (by simpa using congrArg (keyOf "s".toList) h)

/-- Two records more than a page has. -/
def overfull : OrdMap Text ℕ :=
  OrdMap.ofList ((List.range 130).map fun i => (recordKey "s".toList (nthName i), i))

theorem get?_overfull {k : Text} :
    overfull.get? (recordKey "s".toList k) ≠ none ↔ ∃ i < 130, k = nthName i := by
  have hnodup : (((List.range 130).map fun i => (recordKey "s".toList (nthName i), i)).map
      Prod.fst).Nodup := by
    rw [List.map_map]
    exact List.nodup_range.map recordKey_nthName_injective
  rw [Option.ne_none_iff_exists']
  constructor
  · rintro ⟨v, hv⟩
    obtain ⟨i, hi, heq⟩ := List.mem_map.mp ((OrdMap.get?_ofList hnodup).mp hv)
    refine ⟨i, List.mem_range.mp hi, ?_⟩
    simpa using (congrArg (keyOf "s".toList ∘ Prod.fst) heq).symm
  · rintro ⟨i, hi, rfl⟩
    exact ⟨i, (OrdMap.get?_ofList hnodup).mpr (List.mem_map.mpr ⟨i, List.mem_range.mpr hi, rfl⟩)⟩

/-- The records that stay are there, with no others than the first one and a new one. -/
def Around (m : OrdMap Text ℕ) : Prop :=
  (∀ k, m.get? (recordKey "s".toList k) ≠ none → ∃ i < 131, k = nthName i) ∧
    ∀ i, 1 ≤ i → i < 130 → m.get? (recordKey "s".toList (nthName i)) ≠ none

theorem around_overfull : Around overfull := by
  refine ⟨fun k hk => ?_, fun i _ hi => get?_overfull.mpr ⟨i, hi, rfl⟩⟩
  obtain ⟨i, hi, rfl⟩ := get?_overfull.mp hk
  exact ⟨i, by omega, rfl⟩

theorem Around.set {m : OrdMap Text ℕ} (h : Around m) {j : ℕ} (hj : j = 0 ∨ j = 130)
    (record : Option ℕ) : Around (m.set (recordKey "s".toList (nthName j)) record) := by
  refine ⟨fun k hk => ?_, fun i hpos hi => ?_⟩
  · rw [OrdMap.get?_set] at hk
    split_ifs at hk with hkey
    · exact ⟨j, by omega, by simpa using congrArg (keyOf "s".toList) hkey⟩
    · exact h.1 k hk
  · rw [OrdMap.get?_set, if_neg fun hkey => ?_]
    · exact h.2 i hpos hi
    · have hij := recordKey_nthName_injective hkey
      omega

/-- Between the two calls the first record goes, and one comes beyond the bound. The second call
ends the sweep, and all that stayed was read once. -/
theorem maintenance_sweep_overfull : ∃ moments pages s,
    Sweep "s".toList overfull moments pages s ∧ moments.length = 3 ∧ pages.length = 2 ∧
      s.cursors.get? "s".toList = none ∧
      ∀ i, 1 ≤ i → i < 130 → (pages.flatten.map Prod.fst).count (nthName i) = 1 := by
  obtain ⟨s₁, page, hfirst, hlength⟩ : ∃ s page, Sweep "s".toList overfull [overfull] [page] s ∧
      page.length ≤ PAGE := by
    have hstart : Sweep "s".toList overfull [overfull] _ _ :=
      .first (show (⟨overfull, .empty, .empty⟩ : Maintained ℕ).records = _ from rfl) rfl rfl
    exact ⟨_, _, hstart, length_maintenancePage_le _ _⟩
  -- one page does not hold all the records
  have hmore : s₁.cursors.get? "s".toList ≠ none := by
    intro hnone
    have hsub : (List.range 130).map nthName ⊆ page.map Prod.fst := by
      intro k hk
      obtain ⟨i, hi, rfl⟩ := List.mem_map.mp hk
      have hcount := (maintenance_sweep hfirst).2.2.1 hnone (nthName i) fun m hm => by
        rw [List.mem_singleton.mp hm]
        exact get?_overfull.mpr ⟨i, List.mem_range.mp hi, rfl⟩
      rw [List.flatten_singleton] at hcount
      exact List.count_pos_iff.mp (hcount ▸ Nat.one_pos)
    have hall := (List.subperm_of_subset (List.nodup_range.map nthName_injective) hsub).length_le
    rw [List.length_map, List.length_map, List.length_range] at hall
    exact absurd (hall.trans hlength) (by decide)
  obtain ⟨moments, s₂, hwritten, hthree, haround, hmore⟩ : ∃ moments s,
      Sweep "s".toList overfull moments [page] s ∧ moments.length = 3 ∧
        (∀ m ∈ moments, Around m) ∧ s.cursors.get? "s".toList ≠ none := by
    have hrecords : s₁.records = overfull := List.mem_singleton.mp hfirst.mem.1
    have hless := (hrecords ▸ around_overfull).set (.inl rfl) none
    exact ⟨_, _, (hfirst.write (recordKey "s".toList (nthName 0)) none).write
      (recordKey "s".toList (nthName 130)) (some 130), rfl, List.forall_mem_cons.mpr
        ⟨hless.set (.inr rfl) (some 130), List.forall_mem_cons.mpr
          ⟨hless, List.forall_mem_singleton.mpr around_overfull⟩⟩, hmore⟩
  have hsecond := hwritten.page hmore
  refine ⟨_, _, _, hsecond, hthree, rfl, ?_⟩
  obtain ⟨-, -, hread, hcalls, -⟩ := maintenance_sweep hsecond
  refine (and_iff_left_of_imp fun hnone i hpos hi => ?_).mpr (by_contra fun hne => ?_)
  · exact hread hnone _ fun m hm => (haround m hm).2 i hpos hi
  · -- a third call would need another page of names
    obtain ⟨-, htwo⟩ := hcalls ((Finset.range 131).image nthName) fun m hm k hk _ => by
      obtain ⟨i, hi, rfl⟩ := (haround m hm).1 k hk
      exact Finset.mem_image_of_mem _ (Finset.mem_range.mpr hi)
    have hcard : ((Finset.range 131).image nthName).card ≤ 131 :=
      Finset.card_image_le.trans (Finset.card_range _).le
    have hle : 2 ≤ 131 / PAGE := (htwo hne).trans (Nat.div_le_div_right hcard)
    exact absurd hle (by decide)

end Maintained

end RiAuth.Store
