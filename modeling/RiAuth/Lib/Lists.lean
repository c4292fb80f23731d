import Mathlib.Data.List.Forall2

/-!
# Lists

Facts about lists that the library does not have.

* `List.mem_splitOn`: a part of a list that is split has no separator;
* `List.filter_eq_singleton`: of distinct keys, each is that of one entry.
-/

namespace List

variable {α β : Type}

/-- A part of a list has no separator, and nothing that the list does not have. -/
theorem mem_splitOn [DecidableEq α] {x : α} {s part : List α} (h : part ∈ s.splitOn x) :
    x ∉ part ∧ part ⊆ s := by
  induction s generalizing part with
  | nil =>
    rw [splitOn_nil, mem_singleton] at h
    rw [h]
    exact ⟨not_mem_nil, Subset.refl _⟩
  | cons c s ih =>
    rw [splitOn_cons_eq_if_modifyHead] at h
    split_ifs at h with hc
    · obtain rfl | h := mem_cons.mp h
      · exact ⟨not_mem_nil, nil_subset _⟩
      · exact (ih h).imp_right (subset_cons_of_subset c)
    · cases hs : s.splitOn x with
      | nil => exact absurd hs (splitOn_ne_nil _ _)
      | cons first rest =>
        rw [hs] at h ih
        obtain rfl | h := mem_cons.mp h
        · obtain ⟨hnot, hsub⟩ := ih mem_cons_self
          refine ⟨fun hmem => ?_, cons_subset_cons c hsub⟩
          obtain rfl | hmem := mem_cons.mp hmem
          · exact hc (by simp)
          · exact hnot hmem
        · exact (ih (mem_cons_of_mem _ h)).imp_right (subset_cons_of_subset c)

variable {l : List α} {a : α} {R : α → β → Prop} {m : List β}

/-- Entries with distinct keys: the key of an entry is that of no other one. -/
theorem filter_eq_singleton [DecidableEq β] {f : α → β} (hl : (l.map f).Nodup) (ha : a ∈ l) :
    l.filter (fun b => f b = f a) = [a] := by
  induction l with
  | nil => cases ha
  | cons b l ih =>
    obtain ⟨hb, hl⟩ := nodup_cons.mp hl
    obtain rfl | ha := mem_cons.mp ha
    · rw [filter_cons_of_pos (by simp), filter_eq_nil_iff.mpr]
      exact fun c hc heq => hb (of_decide_eq_true heq ▸ mem_map_of_mem hc)
    · rw [filter_cons_of_neg, ih hl ha]
      exact fun heq => hb (of_decide_eq_true heq ▸ mem_map_of_mem ha)

/-- What stands at the first index is what is found first. -/
theorem find?_of_findIdx? {p : α → Bool} {i : ℕ} (h : l.findIdx? p = some i) :
    ∃ a, l[i]? = some a ∧ l.find? p = some a ∧ p a = true := by
  obtain ⟨hi, hp, hbefore⟩ := findIdx?_eq_some_iff_getElem.mp h
  refine ⟨l[i], getElem?_eq_getElem hi, ?_, hp⟩
  exact find?_eq_some_iff_getElem.mpr
    ⟨hp, i, hi, rfl, fun j hj => Bool.not_eq_true' _ ▸ eq_false_of_ne_true (hbefore j hj)⟩

theorem zipIdx_zipIdx (l : List α) (i : ℕ) :
    (l.zipIdx i).zipIdx i = (l.zipIdx i).map fun p => (p, p.2) := by
  induction l generalizing i with
  | nil => rfl
  | cons e l ih => rw [zipIdx_cons, zipIdx_cons, map_cons, ih]

theorem eq_of_mem_zip_map (f : α → β) {pair : α × β} (h : pair ∈ l.zip (l.map f)) :
    f pair.1 = pair.2 := by
  induction l with
  | nil => cases h
  | cons a l ih =>
    rw [map_cons, zip_cons_cons, mem_cons] at h
    rcases h with rfl | h
    · rfl
    · exact ih h

/-- Lists that are not empty are no more than their entries. -/
theorem length_le_flatten {l : List (List α)} (h : ∀ part ∈ l, part ≠ []) :
    l.length ≤ l.flatten.length := by
  induction l with
  | nil => exact Nat.le_refl _
  | cons part l ih =>
    obtain ⟨hpart, hl⟩ := forall_mem_cons.mp h
    have hpos := length_pos_iff.mpr hpart
    have hrest := ih hl
    rw [flatten_cons, length_append, length_cons]
    omega

theorem forall₂_mem_left (h : Forall₂ R l m) (ha : a ∈ l) : ∃ b ∈ m, R a b := by
  induction h with
  | nil => cases ha
  | cons hab _ ih =>
    obtain rfl | ha := mem_cons.mp ha
    · exact ⟨_, mem_cons_self, hab⟩
    · obtain ⟨b, hb, hrel⟩ := ih ha
      exact ⟨b, mem_cons_of_mem _ hb, hrel⟩

/-- A relation may be weakened for what stands in the second list. -/
theorem forall₂_imp_right {S : α → β → Prop} (h : Forall₂ R l m) (hRS : ∀ a, ∀ b ∈ m, R a b → S a b) :
    Forall₂ S l m := by
  induction h with
  | nil => exact .nil
  | cons hab _ ih =>
    exact .cons (hRS _ _ mem_cons_self hab)
      (ih fun a b hb hrel => hRS a b (mem_cons_of_mem _ hb) hrel)

/-- What a list with a last entry is related to has a last entry, too. -/
theorem forall₂_concat_left (h : Forall₂ R (l ++ [a]) m) :
    ∃ m₀ b, m = m₀ ++ [b] ∧ Forall₂ R l m₀ ∧ R a b := by
  rw [← forall₂_reverse_iff, reverse_append] at h
  obtain ⟨b, r, hb, hr, hm⟩ := forall₂_cons_left_iff.mp h
  refine ⟨r.reverse, b, ?_, ?_, hb⟩
  · rw [← reverse_reverse m, hm, reverse_cons]
  · rw [← forall₂_reverse_iff, reverse_reverse]
    exact hr

end List
