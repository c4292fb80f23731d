import Mathlib.Data.List.Sort
import Mathlib.Data.List.Lex

/-!
# Finite ordered maps

A finite map over a linear order, kept as its strictly ascending list of entries. The order of
the entries is a field of the structure, so two maps with the same lookups are equal
(`OrdMap.ext_get?`) and a range scan is a filter of the entries.

* `OrdMap.get?_set`      — a point write changes one name and nothing else.
* `OrdMap.get?_applyAll` — a batch of writes is seen through, name by name.
* `OrdMap.scan_overlay`  — **a bounded scan can be answered from a scan of the base map widened by
  the number of pending writes and overlaid with them.**
-/

/-- A finite map over a linear order, as its strictly ascending list of entries. -/
structure OrdMap (K V : Type) [LinearOrder K] where
  entries : List (K × V)
  sorted : entries.Pairwise (fun a b => a.1 < b.1)

namespace OrdMap

variable {K V : Type} [LinearOrder K]

instance [DecidableEq V] : DecidableEq (OrdMap K V) := fun m n =>
  decidable_of_iff (m.entries = n.entries) (by
    cases m; cases n; simp)

/-- The map without entries. -/
def empty : OrdMap K V := ⟨[], List.Pairwise.nil⟩

/-- The value stored under a name. -/
def get? (m : OrdMap K V) (k : K) : Option V :=
  (m.entries.find? (fun e => e.1 = k)).map Prod.snd

/-- Keep the entries whose name satisfies a predicate. -/
def restrict (m : OrdMap K V) (p : K → Bool) : OrdMap K V :=
  ⟨m.entries.filter (fun e => p e.1), m.sorted.filter _⟩

/-- Drop a name. -/
def erase (m : OrdMap K V) (k : K) : OrdMap K V :=
  m.restrict (fun x => x ≠ k)

/-- Store a value under a name, replacing the old one. -/
def insert (m : OrdMap K V) (k : K) (v : V) : OrdMap K V where
  entries := m.entries.filter (fun e => e.1 < k) ++
    (k, v) :: m.entries.filter (fun e => k < e.1)
  sorted := by
    refine List.pairwise_append.mpr ⟨m.sorted.filter _, ?_, ?_⟩
    · refine List.pairwise_cons.mpr ⟨?_, m.sorted.filter _⟩
      intro e he
      simpa using (List.mem_filter.mp he).2
    · intro a ha b hb
      have hak : a.1 < k := by simpa using (List.mem_filter.mp ha).2
      rcases List.mem_cons.mp hb with rfl | hb
      · exact hak
      · exact hak.trans (by simpa using (List.mem_filter.mp hb).2)

/-- A point write: `none` deletes. -/
def set (m : OrdMap K V) (k : K) : Option V → OrdMap K V
  | some v => m.insert k v
  | none => m.erase k

/-- A batch of point writes, applied from the left. -/
def applyAll (ws : List (K × Option V)) (m : OrdMap K V) : OrdMap K V :=
  ws.foldl (fun m w => m.set w.1 w.2) m

/-- The map holding the listed entries, a later one replacing an earlier one. -/
def ofList (l : List (K × V)) : OrdMap K V :=
  l.foldl (fun m e => m.insert e.1 e.2) empty

/-! ## Entries and lookups -/

variable {m : OrdMap K V} {k c : K} {v : V} {reverse : Bool} {n : ℕ}

theorem mem_entries_iff : (k, v) ∈ m.entries ↔ m.get? k = some v := by
  obtain ⟨l, hl⟩ := m
  induction l with
  | nil => simp [get?]
  | cons e l ih =>
    have hl' := List.pairwise_cons.mp hl
    have ih := ih hl'.2
    by_cases hk : e.1 = k
    · -- the head holds `k`, so no later entry does
      subst hk
      have htail : ¬ (e.1, v) ∈ l := fun hmem => lt_irrefl _ (hl'.1 (e.1, v) hmem)
      simp [get?, htail, Prod.ext_iff, eq_comm]
    · have hne : (k, v) ≠ e := fun h => hk (by rw [← h])
      simpa [get?, hk, hne] using ih

theorem get?_eq_none_iff : m.get? k = none ↔ ∀ v, (k, v) ∉ m.entries := by
  rw [Option.eq_none_iff_forall_ne_some]
  exact forall_congr' fun v => by rw [Ne, mem_entries_iff]

/-- **Two maps with the same lookups are the same map.** -/
theorem ext_get? {n : OrdMap K V} (h : ∀ k, m.get? k = n.get? k) : m = n := by
  have hmem : ∀ e, e ∈ m.entries ↔ e ∈ n.entries := fun e => by
    obtain ⟨k, v⟩ := e
    rw [mem_entries_iff, mem_entries_iff, h]
  have hentries : m.entries = n.entries := by
    have : Std.Irrefl (fun a b : K × V => a.1 < b.1) := ⟨fun a => lt_irrefl a.1⟩
    have : Std.Antisymm (fun a b : K × V => a.1 < b.1) :=
      ⟨fun a b hab hba => absurd hab hba.asymm⟩
    exact m.sorted.eq_of_mem_iff n.sorted hmem
  cases m; cases n; cases hentries; rfl

@[simp] theorem get?_empty (k : K) : (empty : OrdMap K V).get? k = none := rfl

@[simp] theorem get?_restrict (m : OrdMap K V) (p : K → Bool) (k : K) :
    (m.restrict p).get? k = if p k then m.get? k else none := by
  ext v
  rw [← mem_entries_iff]
  by_cases hp : p k <;> simp [restrict, hp, mem_entries_iff]

@[simp] theorem get?_insert (m : OrdMap K V) (k k' : K) (v : V) :
    (m.insert k v).get? k' = if k' = k then some v else m.get? k' := by
  ext w
  rw [← mem_entries_iff]
  by_cases hk : k' = k
  · subst hk; simp [insert, eq_comm]
  · rcases lt_or_gt_of_ne hk with h | h
    · simp [insert, hk, h, h.le, mem_entries_iff]
    · simp [insert, hk, h, h.le, mem_entries_iff]

theorem get?_erase (m : OrdMap K V) (k k' : K) :
    (m.erase k).get? k' = if k' = k then none else m.get? k' := by
  by_cases hk : k' = k <;> simp [erase, hk]

/-- What is stored after a write. -/
theorem get?_insert_cases {k' : K} {v' : V} (h : (m.insert k v).get? k' = some v') :
    k' = k ∧ v' = v ∨ k' ≠ k ∧ m.get? k' = some v' := by
  rw [get?_insert] at h
  split_ifs at h with hk
  · exact .inl ⟨hk, (Option.some.inj h).symm⟩
  · exact .inr ⟨hk, h⟩

theorem get?_of_erase {k' : K} (h : (m.erase k).get? k' = some v) : m.get? k' = some v := by
  rw [get?_erase] at h
  split_ifs at h
  exact h

/-- A point write changes its own name and nothing else. -/
@[simp] theorem get?_set (m : OrdMap K V) (k k' : K) (o : Option V) :
    (m.set k o).get? k' = if k' = k then o else m.get? k' := by
  cases o with
  | some v => exact get?_insert m k k' v
  | none => exact get?_erase m k k'

/-! ## Batches of writes -/

@[simp] theorem applyAll_nil (m : OrdMap K V) : applyAll [] m = m := rfl

@[simp] theorem applyAll_cons (w : K × Option V) (ws : List (K × Option V)) (m : OrdMap K V) :
    applyAll (w :: ws) m = applyAll ws (m.set w.1 w.2) := rfl

/-- The pending writes `w` decide a name they hold; the base map decides the others. -/
theorem get?_applyAll (w : OrdMap K (Option V)) (m : OrdMap K V) (k : K) :
    (applyAll w.entries m).get? k = (w.get? k).getD (m.get? k) := by
  obtain ⟨ws, hws⟩ := w
  induction ws generalizing m with
  | nil => rfl
  | cons e ws ih =>
    have hws' := List.pairwise_cons.mp hws
    rw [applyAll_cons, ih _ hws'.2, get?_set]
    by_cases hk : e.1 = k
    · -- later writes are to larger names
      have hnone : (⟨ws, hws'.2⟩ : OrdMap K (Option V)).get? k = none :=
        get?_eq_none_iff.mpr fun v hv => lt_irrefl _ (hk ▸ hws'.1 (k, v) hv)
      rw [hnone]
      simp [get?, hk]
    · simp [get?, hk, Ne.symm hk]

/-- Staging one more write on top of pending ones is the same as writing it through them. -/
theorem applyAll_insert (w : OrdMap K (Option V)) (m : OrdMap K V) (k : K) (o : Option V) :
    applyAll (w.insert k o).entries m = (applyAll w.entries m).set k o := by
  refine ext_get? fun k' => ?_
  rw [get?_applyAll, get?_set, get?_applyAll, get?_insert]
  by_cases hk : k' = k <;> simp [hk]

/-- Collecting entries with distinct names keeps them all, whatever their order. -/
theorem get?_ofList {l : List (K × V)} (hl : (l.map Prod.fst).Nodup) :
    (ofList l).get? k = some v ↔ (k, v) ∈ l := by
  suffices h : ∀ m : OrdMap K V, (∀ e ∈ l, m.get? e.1 = none) →
      ((l.foldl (fun m e => m.insert e.1 e.2) m).get? k = some v ↔
        (k, v) ∈ l ∨ m.get? k = some v) by
    simpa [ofList] using h empty (by simp)
  induction l with
  | nil => simp
  | cons e l ih =>
    intro m hm
    have hl' := List.nodup_cons.mp (List.map_cons (f := Prod.fst) ▸ hl)
    have hfresh : ∀ x ∈ l, (m.insert e.1 e.2).get? x.1 = none := fun x hx => by
      have hne : x.1 ≠ e.1 := fun heq => hl'.1 (heq ▸ List.mem_map_of_mem hx)
      rw [get?_insert, if_neg hne, hm x (List.mem_cons_of_mem _ hx)]
    rw [List.foldl_cons, ih hl'.2 _ hfresh, get?_insert]
    by_cases hk : k = e.1
    · have hnone : m.get? k = none := hk ▸ hm e (List.mem_cons_self)
      have hmem : (k, v) ∉ l := fun h => hl'.1 (hk ▸ List.mem_map_of_mem h)
      simp [hk ▸ hnone, hk ▸ hmem, hk, Prod.ext_iff, eq_comm]
    · have hne : (k, v) ≠ e := fun h => hk (by rw [← h])
      simp [hk, hne]

/-- Collecting entries that are already in order. -/
theorem entries_ofList {l : List (K × V)} (hl : l.Pairwise (fun a b => a.1 < b.1)) :
    (ofList l).entries = l := by
  have hnodup : (l.map Prod.fst).Nodup :=
    List.pairwise_map.mpr (hl.imp fun {a b} h => ne_of_lt h)
  have hsame : ofList l = ⟨l, hl⟩ := by
    refine ext_get? fun k => Option.ext fun v => ?_
    rw [get?_ofList hnodup, ← mem_entries_iff]
  rw [hsame]

/-- The entries with other values. -/
def map {W : Type} (f : V → W) (m : OrdMap K V) : OrdMap K W :=
  ⟨m.entries.map fun e => (e.1, f e.2), List.pairwise_map.mpr m.sorted⟩

@[simp] theorem get?_map {W : Type} (f : V → W) (m : OrdMap K V) (k : K) :
    (m.map f).get? k = (m.get? k).map f := by
  unfold get? map
  rw [List.find?_map, Option.map_map, Option.map_map]
  rfl

@[simp] theorem map_insert {W : Type} (f : V → W) (m : OrdMap K V) (k : K) (v : V) :
    (m.insert k v).map f = (m.map f).insert k (f v) := by
  refine ext_get? fun k' => ?_
  rw [get?_map, get?_insert, get?_insert, get?_map]
  split <;> rfl

/-! ## Range scans -/

/-- A bounded range of names `start ≤ name < stop`, read in ascending or descending order. -/
structure Range (K : Type) where
  start : K
  stop : K
  limit : ℕ
  reverse : Bool
deriving DecidableEq

/-- Whether a name lies in the range. -/
def Range.holds (r : Range K) (k : K) : Bool := r.start ≤ k ∧ k < r.stop

theorem Range.holds_iff {r : Range K} : r.holds k = true ↔ r.start ≤ k ∧ k < r.stop :=
  decide_eq_true_iff

/-- A list in scan order. -/
def directed {α : Type} (reverse : Bool) (l : List α) : List α :=
  if reverse then l.reverse else l

/-- The first `limit` entries of the range in scan order. -/
def scan (m : OrdMap K V) (r : Range K) : List (K × V) :=
  (directed r.reverse (m.restrict r.holds).entries).take r.limit

/-- Whether `k` comes strictly before `c` in scan order. -/
def before (reverse : Bool) (c k : K) : Bool :=
  if reverse then c < k else k < c

theorem before_false : before false c k = true ↔ k < c := decide_eq_true_iff

theorem before_true : before true c k = true ↔ c < k := decide_eq_true_iff

theorem directed_append_of_initial {p : K → Bool} (hp : ∀ a b, a < b → p b → p a) :
    m.entries = (m.restrict p).entries ++ (m.restrict (fun k => !p k)).entries := by
  obtain ⟨l, hl⟩ := m
  simp only [restrict]
  induction l with
  | nil => rfl
  | cons e l ih =>
    have hl' := List.pairwise_cons.mp hl
    by_cases hpe : p e.1
    · simpa [hpe] using ih hl'.2
    · -- nothing after a failing entry passes
      have hnone : l.filter (fun x => p x.1) = [] :=
        List.filter_eq_nil_iff.mpr fun x hx h => hpe (hp _ _ (hl'.1 x hx) h)
      have hall : l.filter (fun x => !p x.1) = l :=
        List.filter_eq_self.mpr fun x hx => by
          simpa using fun h => hpe (hp _ _ (hl'.1 x hx) h)
      simp [hpe, hnone, hall]

/-- The entries before a cut come first in scan order. -/
theorem directed_entries_split (m : OrdMap K V) (reverse : Bool) (c : K) :
    directed reverse m.entries = directed reverse (m.restrict (before reverse c)).entries ++
      directed reverse (m.restrict (fun k => !before reverse c k)).entries := by
  cases reverse with
  | false =>
    exact directed_append_of_initial fun a b hab hb => by
      simpa [before] using hab.trans (by simpa [before] using hb)
  | true =>
    have h := directed_append_of_initial (m := m) (p := fun k => !before true c k)
      fun a b hab hb => by
        simp only [before, if_true, Bool.not_eq_true', decide_eq_false_iff_not, not_lt] at hb ⊢
        exact hab.le.trans hb
    simp only [Bool.not_not] at h
    simp only [directed, if_true]
    rw [← List.reverse_append, ← h]

theorem directed_pairwise (m : OrdMap K V) (reverse : Bool) :
    (directed reverse m.entries).Pairwise (fun a b => before reverse b.1 a.1) := by
  cases reverse with
  | false => simpa [directed, before] using m.sorted
  | true => simpa [directed, before, List.pairwise_reverse] using m.sorted

@[simp] theorem mem_directed {α : Type} {l : List α} {a : α} : a ∈ directed reverse l ↔ a ∈ l := by
  cases reverse <;> simp [directed]

@[simp] theorem length_directed {α : Type} (reverse : Bool) (l : List α) :
    (directed reverse l).length = l.length := by
  cases reverse <;> simp [directed]

/-! ## Sizes -/

theorem nodup_names (m : OrdMap K V) : (m.entries.map Prod.fst).Nodup := by
  rw [List.Nodup, List.pairwise_map]
  exact m.sorted.imp fun h => h.ne

theorem length_restrict_le (m : OrdMap K V) (p : K → Bool) :
    (m.restrict p).entries.length ≤ m.entries.length :=
  List.length_filter_le ..

/-- A write adds its entry to the others. -/
theorem perm_insert (m : OrdMap K V) (k : K) (v : V) :
    (m.insert k v).entries.Perm ((k, v) :: (m.erase k).entries) := by
  have hnot : (k, v) ∉ (m.erase k).entries := fun hmem => by
    rw [mem_entries_iff, get?_erase, if_pos rfl] at hmem
    cases hmem
  refine (List.perm_ext_iff_of_nodup (m.insert k v).nodup_names.of_map
    (List.nodup_cons.mpr ⟨hnot, (m.erase k).nodup_names.of_map⟩)).mpr fun ⟨k', v'⟩ => ?_
  rw [List.mem_cons, mem_entries_iff, mem_entries_iff, get?_insert, get?_erase, Prod.mk.injEq]
  by_cases hk : k' = k <;> simp [hk, eq_comm]

theorem length_insert (m : OrdMap K V) (k : K) (v : V) :
    (m.insert k v).entries.length = (m.erase k).entries.length + 1 := by
  simpa using (m.perm_insert k v).length_eq

theorem length_insert_le (m : OrdMap K V) (k : K) (v : V) :
    (m.insert k v).entries.length ≤ m.entries.length + 1 := by
  rw [length_insert]
  exact Nat.succ_le_succ (m.length_restrict_le _)

/-- A write of what is there changes nothing. -/
theorem set_of_get? {o : Option V} (h : m.get? k = o) : m.set k o = m :=
  ext_get? fun k' => by
    rw [get?_set]
    split_ifs with hk
    · rw [hk, h]
    · rfl

theorem length_erase_of_mem (h : m.get? k = some v) :
    (m.erase k).entries.length + 1 = m.entries.length := by
  have hself : m.insert k v = m := set_of_get? h
  rw [← length_insert m k v, hself]

/-- Replacing the value of a name does not make the map larger. -/
theorem length_insert_of_mem {w : V} (h : m.get? k = some w) (v : V) :
    (m.insert k v).entries.length ≤ m.entries.length := by
  rw [length_insert, length_erase_of_mem h]

theorem erase_of_notMem (h : m.get? k = none) : m.erase k = m :=
  set_of_get? h

/-! ## Overlaying pending writes on a widened scan -/

/-- A point write removes at most one entry of a restriction. -/
theorem length_restrict_set (m : OrdMap K V) (p : K → Bool) (k : K) (o : Option V) :
    (m.restrict p).entries.length ≤ ((m.set k o).restrict p).entries.length + 1 := by
  -- every other entry survives, and names are distinct
  have hsub : ((m.restrict p).entries.map Prod.fst).erase k ⊆
      ((m.set k o).restrict p).entries.map Prod.fst := fun x hx => by
    have hx' := (((m.restrict p).nodup_names).mem_erase_iff).mp hx
    obtain ⟨⟨x, v⟩, hv, rfl⟩ := List.mem_map.mp hx'.2
    refine List.mem_map.mpr ⟨(x, v), ?_, rfl⟩
    rw [mem_entries_iff] at hv ⊢
    rw [get?_restrict] at hv ⊢
    rwa [get?_set, if_neg hx'.1]
  have hlen := ((m.restrict p).nodup_names.erase k).length_le_of_subset hsub
  have herase := List.le_length_erase (a := k) (l := (m.restrict p).entries.map Prod.fst)
  simp only [List.length_map] at hlen herase
  omega

theorem length_restrict_applyAll (ws : List (K × Option V)) (m : OrdMap K V) (p : K → Bool) :
    (m.restrict p).entries.length ≤
      ((applyAll ws m).restrict p).entries.length + ws.length := by
  induction ws generalizing m with
  | nil => simp
  | cons w ws ih =>
    have h1 := length_restrict_set m p w.1 w.2
    have h2 := ih (m.set w.1 w.2)
    rw [applyAll_cons, List.length_cons]
    omega

theorem restrict_applyAll (w : OrdMap K (Option V)) (m : OrdMap K V) (p : K → Bool) :
    (applyAll w.entries m).restrict p =
      applyAll (w.restrict p).entries (m.restrict p) := by
  refine ext_get? fun k => ?_
  simp only [get?_restrict, get?_applyAll]
  by_cases hp : p k <;> simp [hp]

/-- Every name of a list of entries that lies before the cut is decided by the first `n`. -/
theorem mem_take_of_before {d : K × V} {rest : List (K × V)}
    (hdrop : (directed reverse m.entries).drop n = d :: rest) {e : K × V} (he : e ∈ m.entries) :
    e ∈ (directed reverse m.entries).take n ↔ before reverse d.1 e.1 := by
  have hpair := m.directed_pairwise reverse
  rw [← List.take_append_drop n (directed reverse m.entries), hdrop] at hpair
  have hmem : e ∈ (directed reverse m.entries).take n ++ d :: rest := by
    rw [← hdrop, List.take_append_drop]
    exact mem_directed.mpr he
  obtain ⟨-, htail, hcross⟩ := List.pairwise_append.mp hpair
  refine ⟨fun h => hcross e h d List.mem_cons_self, fun h => ?_⟩
  rcases List.mem_append.mp hmem with h' | h'
  · exact h'
  · exfalso
    rcases List.mem_cons.mp h' with rfl | h'
    · cases reverse <;> simp [before] at h
    · have h'' := (List.pairwise_cons.mp htail).1 e h'
      cases reverse <;> simp [before] at h h'' <;> exact lt_asymm h h''

/-- When the first `n` entries are not all, they all lie before the next one. -/
theorem le_length_before {d : K × V} {rest : List (K × V)}
    (hdrop : (directed reverse m.entries).drop n = d :: rest) :
    n ≤ (m.restrict (before reverse d.1)).entries.length := by
  have hsub : (directed reverse m.entries).take n ⊆
      (m.restrict (before reverse d.1)).entries := fun e he => by
    have hem : e ∈ m.entries := mem_directed.mp (List.mem_of_mem_take he)
    have hbefore := (mem_take_of_before hdrop hem).mp he
    simp [restrict, hem, hbefore]
  have hnodup : ((directed reverse m.entries).take n).Nodup := by
    refine List.Nodup.sublist (List.take_sublist _ _) ?_
    have hentries := List.Nodup.of_map Prod.fst m.nodup_names
    cases reverse <;> simpa [directed] using hentries
  have hlt : n ≤ (directed reverse m.entries).length := by
    by_contra hge
    rw [List.drop_eq_nil_iff.mpr (not_le.mp hge).le] at hdrop
    cases hdrop
  calc n = ((directed reverse m.entries).take n).length := (List.length_take_of_le hlt).symm
    _ ≤ _ := hnodup.length_le_of_subset hsub

theorem ofList_take_eq (m : OrdMap K V) (reverse : Bool) (n : ℕ) :
    (ofList ((directed reverse m.entries).take n)).get? k = some v ↔
      (k, v) ∈ (directed reverse m.entries).take n := by
  refine get?_ofList ?_
  have hnodup : ((directed reverse m.entries).map Prod.fst).Nodup := by
    cases reverse
    · exact m.nodup_names
    · simpa [directed] using m.nodup_names
  rw [List.map_take]
  exact hnodup.sublist (List.take_sublist _ _)

/-- Two maps that agree before a cut and have enough entries there start with the same entries. -/
theorem take_directed_eq {x y : OrdMap K V}
    (h : x.restrict (before reverse c) = y.restrict (before reverse c))
    (hn : n ≤ (x.restrict (before reverse c)).entries.length) :
    (directed reverse x.entries).take n = (directed reverse y.entries).take n := by
  rw [x.directed_entries_split reverse c, y.directed_entries_split reverse c, ← h,
    List.take_append_of_le_length (by simpa using hn),
    List.take_append_of_le_length (by simpa using hn)]

/-- **A bounded scan through pending writes.** Scanning the base map with the bound widened by the
number of pending writes, overlaying the writes of the range and cutting back to the bound gives
the scan of the written map. -/
theorem scan_overlay (m : OrdMap K V) (w : OrdMap K (Option V)) (r : Range K) :
    (directed r.reverse (applyAll (w.restrict r.holds).entries
      (ofList (m.scan { r with limit := r.limit + w.entries.length }))).entries).take r.limit =
      (applyAll w.entries m).scan r := by
  set t := m.restrict r.holds with ht
  set u := w.restrict r.holds with hu
  set n := r.limit + w.entries.length with hn
  have hscan : m.scan { r with limit := n } = (directed r.reverse t.entries).take n := rfl
  have hfull : (applyAll w.entries m).scan r =
      (directed r.reverse (applyAll u.entries t).entries).take r.limit := by
    rw [scan, restrict_applyAll]
  rw [hscan, hfull]
  set b := ofList ((directed r.reverse t.entries).take n) with hb
  rcases hdrop : (directed r.reverse t.entries).drop n with _ | ⟨d, rest⟩
  · -- the widened scan read the whole range
    have hbt : b = t := ext_get? fun k => Option.ext fun v => by
      rw [hb, ofList_take_eq, List.take_of_length_le (List.drop_eq_nil_iff.mp hdrop),
        mem_directed, mem_entries_iff]
    rw [hbt]
  · -- it stopped before `d`: nothing the writes can do reaches past the cut
    have hagree : b.restrict (before r.reverse d.1) = t.restrict (before r.reverse d.1) := by
      refine ext_get? fun k => ?_
      rw [get?_restrict, get?_restrict]
      by_cases hk : before r.reverse d.1 k
      · rw [if_pos hk, if_pos hk]
        refine Option.ext fun v => ?_
        rw [hb, ofList_take_eq]
        refine ⟨fun h => mem_entries_iff.mp (mem_directed.mp (List.mem_of_mem_take h)),
          fun h => ?_⟩
        exact (mem_take_of_before hdrop (mem_entries_iff.mpr h)).mpr hk
      · rw [if_neg hk, if_neg hk]
    have hlen : n ≤ (b.restrict (before r.reverse d.1)).entries.length :=
      hagree ▸ le_length_before hdrop
    refine take_directed_eq (c := d.1) ?_ ?_
    · rw [restrict_applyAll, restrict_applyAll, hagree]
    · have hcount := length_restrict_applyAll u.entries b (before r.reverse d.1)
      have hu' : u.entries.length ≤ w.entries.length := List.length_filter_le _ _
      omega

end OrdMap
