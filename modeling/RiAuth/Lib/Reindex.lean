import RiAuth.Lib.OrdMap

/-!
# An index that follows its records

Every record has at most one row in an index, under a key computed from it. A write of the record
removes the row of the old value and adds the row of the new one.

* `Reindex.update`: the index after a write;
* `Reindex.Indexes.set`: **the index has the rows of the records after every write.**
-/

namespace Reindex

variable {K V I : Type} [LinearOrder K] [LinearOrder I] (row : K → V → Option I)

/-- The index after the write of a record, or its removal. -/
def update (records : OrdMap K V) (index : OrdMap I K) (k : K) (value : Option V) : OrdMap I K :=
  let cleared := ((records.get? k).bind (row k)).elim index fun i => index.erase i
  (value.bind (row k)).elim cleared fun i => cleared.insert i k

/-- The index has the row of every record, and no others. -/
def Indexes (records : OrdMap K V) (index : OrdMap I K) : Prop :=
  ∀ i k, index.get? i = some k ↔ ∃ v, records.get? k = some v ∧ row k v = some i

variable {row} {records : OrdMap K V} {index : OrdMap I K}

/-- Without the row of a record, the rows of the others are left. -/
theorem Indexes.cleared (h : Indexes row records index) (k k' : K) (i : I) :
    (((records.get? k).bind (row k)).elim index fun i => index.erase i).get? i = some k' ↔
      k' ≠ k ∧ index.get? i = some k' := by
  have hself : ∀ i, index.get? i = some k ↔ (records.get? k).bind (row k) = some i := fun i => by
    rw [h i k, Option.bind_eq_some_iff]
  cases hrow : (records.get? k).bind (row k) with
  | none =>
    refine ⟨fun hi => ⟨?_, hi⟩, And.right⟩
    rintro rfl
    rw [Option.elim_none, hself, hrow] at hi
    cases hi
  | some j =>
    rw [Option.elim_some, OrdMap.get?_erase]
    have hj := (hself j).mpr hrow
    split_ifs with hij
    · subst hij
      rw [hj, Option.some.injEq]
      exact ⟨nofun, fun ⟨hne, heq⟩ => absurd heq.symm hne⟩
    · refine ⟨fun hi => ⟨?_, hi⟩, And.right⟩
      rintro rfl
      rw [hself, hrow, Option.some.injEq] at hi
      exact hij hi.symm

/-- **The index has the rows of the records after a write**, if different records have different
rows. -/
theorem Indexes.set (hrow : ∀ {k k' v v' i}, row k v = some i → row k' v' = some i → k = k')
    (h : Indexes row records index) (k : K) (value : Option V) :
    Indexes row (records.set k value) (update row records index k value) := by
  intro i k'
  have hcleared := h.cleared k k' i
  rw [OrdMap.get?_set, update]
  cases hi : value.bind (row k) with
  | none =>
    rw [Option.elim_none, hcleared]
    split_ifs with hk
    · subst hk
      simp only [ne_eq, not_true_eq_false, false_and, false_iff, not_exists, not_and]
      intro v hv hvi
      rw [hv, Option.bind_some, hvi] at hi
      cases hi
    · rw [h i k']
      simp [hk]
  | some j =>
    obtain ⟨v, rfl, hj⟩ := Option.bind_eq_some_iff.mp hi
    rw [Option.elim_some, OrdMap.get?_insert]
    by_cases hk : k' = k
    · subst hk
      simp only [if_true, Option.some.injEq, exists_eq_left', hj]
      split_ifs with hij
      · simp [hij]
      · simp [hcleared, Ne.symm hij]
    · simp only [if_neg hk]
      rw [← h i k']
      split_ifs with hij
      · -- the new row is not one of another record
        have hne : index.get? i ≠ some k' := fun hother => by
          obtain ⟨v', -, hv'⟩ := (h i k').mp hother
          exact hk (hrow hv' (hij ▸ hj))
        simp [hne, Ne.symm hk]
      · simp [hcleared, hk]

end Reindex
