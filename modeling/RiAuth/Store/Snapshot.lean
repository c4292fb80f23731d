import RiAuth.Store.Tx

/-!
# Paged snapshots

A snapshot is read page by page: at most `PAGE` records strictly after a cursor, and no more stored
bytes than a bound. A single record beyond the bound is refused. `size` is the number of stored
bytes of a record, its name included.

* `snapshotPage_ok`: a page starts where the cursor stands, and it is empty only at the end;
* `snapshotPage_oversized`: a record beyond the bound stops the walk.
-/

namespace RiAuth.Store

variable {V : Type} (size : Text → V → ℕ)

/-- Records of one page. -/
def PAGE : ℕ := 128

/-- The error names the limit. -/
def oversizedSnapshotRecord (maxRawBytes : ℕ) : Error :=
  let size :=
    if maxRawBytes % (1024 * 1024) = 0 then toString (maxRawBytes / (1024 * 1024)) ++ " MiB"
    else if maxRawBytes % 1024 = 0 then toString (maxRawBytes / 1024) ++ " KiB"
    else toString maxRawBytes ++ " bytes"
  .bad (s!"Backup record exceeds snapshot page limit of {maxRawBytes} bytes (" ++ size ++ ")")

/-- The records strictly after a cursor. -/
def recordsAfter (m : OrdMap Text V) (after : Option Text) : List (Text × V) :=
  m.entries.filter fun e => after.all fun a => decide (a < e.1)

/-- The longest initial part of the records that keeps within the bound. -/
def recordsWithin (maxRawBytes : ℕ) : ℕ → List (Text × V) → List (Text × V)
  | _, [] => []
  | used, e :: rest =>
    if maxRawBytes < used + size e.1 e.2 then []
    else e :: recordsWithin maxRawBytes (used + size e.1 e.2) rest

/-- `snapshot_page_bounded`. Both backends read the same page. -/
def snapshotPage (m : OrdMap Text V) (after : Option Text) (limit maxRawBytes : ℕ) :
    Result (List (Text × V)) :=
  if limit = 0 then .ok []
  else if maxRawBytes = 0 then .error (.bad "Snapshot page byte limit must be positive")
  else
    match (recordsAfter m after).take (min limit PAGE) with
    | [] => .ok []
    | e :: rest =>
      if maxRawBytes < size e.1 e.2 then .error (oversizedSnapshotRecord maxRawBytes)
      else .ok (recordsWithin size maxRawBytes 0 (e :: rest))

/-- The cursor behind a list of records. -/
def lastName (records : List (Text × V)) : Option Text := records.getLast?.map Prod.fst

variable {size}

variable {done page rest : List (Text × V)} {m : OrdMap Text V} {limit maxRawBytes : ℕ}

theorem lastName_append (h : page ≠ []) : lastName (done ++ page) = lastName page := by
  unfold lastName
  rw [List.getLast?_append_of_ne_nil _ h]

/-- Behind the cursor of an initial part stands the rest. -/
theorem recordsAfter_lastName (h : m.entries = done ++ rest) :
    recordsAfter m (lastName done) = rest := by
  have hsorted := m.sorted
  unfold recordsAfter
  rw [h] at hsorted ⊢
  rcases List.eq_nil_or_concat done with rfl | ⟨init, e, rfl⟩
  · exact List.filter_eq_self.mpr fun _ _ => rfl
  · obtain ⟨hdone, -, hrest⟩ := List.pairwise_append.mp hsorted
    have hlast : lastName (init.concat e) = some e.1 := by simp [lastName]
    rw [hlast, List.filter_append, List.filter_eq_nil_iff.mpr, List.nil_append,
      List.filter_eq_self.mpr]
    · intro a ha
      exact decide_eq_true (hrest e (by simp) a ha)
    · intro a ha hlt
      have hlt : e.1 < a.1 := of_decide_eq_true hlt
      rw [List.concat_eq_append, List.mem_append, List.mem_singleton] at ha
      rcases ha with ha | rfl
      · rw [List.concat_eq_append] at hdone
        have := (List.pairwise_append.mp hdone).2.2 a ha e (List.mem_singleton_self e)
        exact absurd this hlt.asymm
      · exact lt_irrefl _ hlt

/-- The cursor moves on. -/
theorem lastName_lt {next : Text} (h : m.entries = done ++ (page ++ rest))
    (hnext : lastName page = some next) :
    ¬ ((lastName done).any fun previous => decide (next ≤ previous)) = true := by
  have hsorted := m.sorted
  rw [h] at hsorted
  rw [Option.any_eq_true]
  rintro ⟨previous, hprevious, hle⟩
  obtain ⟨e, he, rfl⟩ := Option.map_eq_some_iff.mp hprevious
  obtain ⟨f, hf, rfl⟩ := Option.map_eq_some_iff.mp hnext
  have hlt := (List.pairwise_append.mp hsorted).2.2 e (List.mem_of_getLast? he) f
    (List.mem_append_left _ (List.mem_of_getLast? hf))
  exact absurd hlt (not_lt.mpr (of_decide_eq_true hle))

theorem recordsWithin_initial (size : Text → V → ℕ) (maxRawBytes used : ℕ)
    (l : List (Text × V)) :
    ∃ rest, l = recordsWithin size maxRawBytes used l ++ rest := by
  induction l generalizing used with
  | nil => exact ⟨[], rfl⟩
  | cons e l ih =>
    unfold recordsWithin
    split
    · exact ⟨e :: l, rfl⟩
    · obtain ⟨rest, hrest⟩ := ih (used + size e.1 e.2)
      exact ⟨rest, congrArg (List.cons e) hrest⟩

/-- The page behind a cursor whose first record fits. -/
theorem snapshotPage_eq (h : m.entries = done ++ rest) (hlimit : limit ≠ 0) (hmax : maxRawBytes ≠ 0)
    (hfit : ∀ e ∈ rest.head?, size e.1 e.2 ≤ maxRawBytes) :
    snapshotPage size m (lastName done) limit maxRawBytes =
      .ok (recordsWithin size maxRawBytes 0 (rest.take (min limit PAGE))) := by
  unfold snapshotPage
  rw [if_neg hlimit, if_neg hmax, recordsAfter_lastName h]
  cases rest with
  | nil =>
    rw [List.take_nil]
    rfl
  | cons e rest =>
    obtain ⟨n, hn⟩ : ∃ n, min limit PAGE = n + 1 :=
      Nat.exists_eq_succ_of_ne_zero (by unfold PAGE; omega)
    rw [hn, List.take_succ_cons]
    dsimp only
    rw [if_neg (not_lt.mpr (hfit e rfl))]

/-- The longest part within the bound is empty only for an empty list. -/
theorem recordsWithin_ne_nil {n : ℕ} (hfit : ∀ e ∈ rest.head?, size e.1 e.2 ≤ maxRawBytes)
    (hne : rest ≠ []) : recordsWithin size maxRawBytes 0 (rest.take (n + 1)) ≠ [] := by
  cases rest with
  | nil => exact absurd rfl hne
  | cons e rest =>
    rw [List.take_succ_cons, recordsWithin, if_neg]
    · exact List.cons_ne_nil _ _
    · rw [Nat.zero_add]
      exact not_lt.mpr (hfit e rfl)

/-- **A page starts where its cursor stands.** It is empty only when nothing is left. -/
theorem snapshotPage_ok (h : m.entries = done ++ rest) (hlimit : limit ≠ 0) (hmax : maxRawBytes ≠ 0)
    (hfit : ∀ e ∈ rest.head?, size e.1 e.2 ≤ maxRawBytes) :
    ∃ page rest', snapshotPage size m (lastName done) limit maxRawBytes = .ok page ∧
      rest = page ++ rest' ∧ (rest ≠ [] → page ≠ []) := by
  obtain ⟨n, hn⟩ : ∃ n, min limit PAGE = n + 1 :=
    Nat.exists_eq_succ_of_ne_zero (by unfold PAGE; omega)
  obtain ⟨tail, htail⟩ := recordsWithin_initial size maxRawBytes 0 (rest.take (n + 1))
  refine ⟨_, tail ++ rest.drop (n + 1), snapshotPage_eq h hlimit hmax hfit, ?_, fun hne => ?_⟩
  · rw [hn, ← List.append_assoc, ← htail, List.take_append_drop]
  · rw [hn]
    exact recordsWithin_ne_nil hfit hne

theorem snapshotPage_oversized {e : Text × V} (h : m.entries = done ++ e :: rest)
    (hlimit : limit ≠ 0) (hmax : maxRawBytes ≠ 0) (hsize : maxRawBytes < size e.1 e.2) :
    snapshotPage size m (lastName done) limit maxRawBytes =
      .error (oversizedSnapshotRecord maxRawBytes) := by
  unfold snapshotPage
  rw [if_neg hlimit, if_neg hmax, recordsAfter_lastName h]
  obtain ⟨n, hn⟩ : ∃ n, min limit PAGE = n + 1 :=
    Nat.exists_eq_succ_of_ne_zero (by unfold PAGE; omega)
  rw [hn, List.take_succ_cons]
  dsimp only
  rw [if_pos hsize]

/-- What a page that was read says: it is a part of the rest, empty only at the end. -/
theorem snapshotPage_eq_ok (h : m.entries = done ++ rest) (hlimit : limit ≠ 0)
    (hmax : maxRawBytes ≠ 0)
    (hpage : snapshotPage size m (lastName done) limit maxRawBytes = .ok page) :
    ∃ rest', rest = page ++ rest' ∧ (rest ≠ [] → page ≠ []) := by
  have hfit : ∀ e ∈ rest.head?, size e.1 e.2 ≤ maxRawBytes := by
    intro e he
    by_contra hsize
    obtain ⟨tail, rfl⟩ := List.head?_eq_some_iff.mp he
    rw [snapshotPage_oversized h hlimit hmax (not_le.mp hsize)] at hpage
    cases hpage
  obtain ⟨page', rest', hok, hrest, hne⟩ := snapshotPage_ok h hlimit hmax hfit
  rw [hok] at hpage
  cases hpage
  exact ⟨rest', hrest, hne⟩

end RiAuth.Store
