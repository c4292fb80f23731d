import RiAuth.Lib.OrdMap

/-!
# Reading a map page by page

A loop reads an ordered map in pages of bounded size, each one after the last name of the page
before, and ends with a page that is not full.

* `OrdMap.after`, `OrdMap.page`: what is left after a cursor, and the next page of it;
* **`OrdMap.forPages_eq`**: the loop is one loop over all that is left.
-/

namespace OrdMap

variable {K V : Type} [LinearOrder K]

/-- The entries after the cursor, in scan order. -/
def after (m : OrdMap K V) (reverse : Bool) (cursor : Option K) : List (K × V) :=
  (directed reverse m.entries).filter fun e => cursor.all fun c => before reverse e.1 c

/-- A page of entries after the cursor. -/
def page (m : OrdMap K V) (reverse : Bool) (limit : ℕ) (cursor : Option K) : List (K × V) :=
  (m.after reverse cursor).take limit

theorem after_none (m : OrdMap K V) (reverse : Bool) :
    m.after reverse none = directed reverse m.entries :=
  List.filter_eq_self.mpr fun _ _ => rfl

variable {reverse : Bool} {m : OrdMap K V} {cursor : Option K}

theorem before_trans {a b c : K} (h₁ : before reverse b a = true) (h₂ : before reverse c b = true) :
    before reverse c a = true := by
  cases reverse with
  | false => exact decide_eq_true ((of_decide_eq_true h₁).trans (of_decide_eq_true h₂))
  | true => exact decide_eq_true ((of_decide_eq_true h₂).trans (of_decide_eq_true h₁))

theorem before_asymm {a b : K} (h : before reverse b a = true) : before reverse a b = false := by
  cases reverse with
  | false => exact decide_eq_false (of_decide_eq_true h).not_gt
  | true => exact decide_eq_false (of_decide_eq_true h).not_gt

/-- What is left after an entry that was among the rest. -/
theorem after_mem {done rest : List (K × V)} {e : K × V}
    (h : m.after reverse cursor = done ++ e :: rest) : m.after reverse (some e.1) = rest := by
  have hsorted := (m.directed_pairwise reverse).filter
    fun e => cursor.all fun c => before reverse e.1 c
  change (m.after reverse cursor).Pairwise _ at hsorted
  rw [h, List.pairwise_append, List.pairwise_cons] at hsorted
  obtain ⟨_, ⟨hrest, _⟩, hdone⟩ := hsorted
  have hcursor : cursor.all (fun c => before reverse e.1 c) = true := by
    have hmem : e ∈ m.after reverse cursor := h ▸ List.mem_append_right _ List.mem_cons_self
    exact (List.mem_filter.mp hmem).2
  -- an entry after this one is after the cursor
  have hfilter : m.after reverse (some e.1) =
      (m.after reverse cursor).filter fun x => before reverse x.1 e.1 := by
    unfold after
    rw [List.filter_filter]
    refine List.filter_congr fun x _ => ?_
    rw [Option.all_some]
    cases hx : before reverse x.1 e.1 with
    | false => rfl
    | true =>
      cases cursor with
      | none => rfl
      | some c => rw [Option.all_some, before_trans hcursor hx, Bool.and_self]
  rw [hfilter, h, List.filter_append, List.filter_cons, List.filter_eq_nil_iff.mpr fun x hx => ?_,
    if_neg ?_, List.filter_eq_self.mpr fun x hx => hrest x hx, List.nil_append]
  · intro hself
    exact Bool.false_ne_true ((before_asymm hself).symm.trans hself)
  · rw [before_asymm (hdone x hx e List.mem_cons_self)]
    exact Bool.false_ne_true

/-- What is left after a page. -/
theorem after_last {limit : ℕ} {e : K × V} (h : (m.page reverse limit cursor).getLast? = some e) :
    m.after reverse (some e.1) = (m.after reverse cursor).drop limit := by
  obtain ⟨done, hdone⟩ := List.getLast?_eq_some_iff.mp h
  have hsplit : m.after reverse cursor = done ++ e :: (m.after reverse cursor).drop limit := by
    conv_lhs => rw [← List.take_append_drop limit (m.after reverse cursor)]
    unfold page at hdone
    rw [hdone, List.append_assoc]
    rfl
  exact after_mem hsplit

/-- Run the body over page after page. The first number bounds the pages. -/
def forPages {ε σ : Type} (limit : ℕ) (read : Option K → List (K × V))
    (body : σ → K × V → Except ε σ) : ℕ → Option K → σ → Except ε σ
  | 0, _, s => .ok s
  | fuel + 1, cursor, s =>
    if read cursor = [] then .ok s
    else do
      let s ← (read cursor).foldlM body s
      if (read cursor).length < limit then .ok s
      else forPages limit read body fuel ((read cursor).getLast?.map Prod.fst) s

/-- **The loop runs its body over every entry that is left**, in order. -/
theorem forPages_eq {ε σ : Type} {limit : ℕ} (hlimit : 0 < limit) (body : σ → K × V → Except ε σ)
    {fuel : ℕ} {s : σ} (hfuel : (m.after reverse cursor).length < fuel) :
    forPages limit (m.page reverse limit) body fuel cursor s =
      (m.after reverse cursor).foldlM body s := by
  induction fuel generalizing cursor s with
  | zero => exact absurd hfuel (Nat.not_lt_zero _)
  | succ fuel ih =>
    unfold forPages
    have hsplit := List.take_append_drop limit (m.after reverse cursor)
    by_cases hempty : m.page reverse limit cursor = []
    · have hnil : m.after reverse cursor = [] := by
        have hlength := congrArg List.length hempty
        rw [page, List.length_take, List.length_nil] at hlength
        exact List.length_eq_zero_iff.mp (by omega)
      rw [if_pos hempty, hnil]
      rfl
    · rw [if_neg hempty]
      by_cases hshort : (m.page reverse limit cursor).length < limit
      · -- the page is not full, so nothing is left
        have hall : m.page reverse limit cursor = m.after reverse cursor := by
          rw [page, List.length_take] at hshort
          exact List.take_of_length_le (by omega)
        rw [hall] at hshort ⊢
        simp only [if_pos hshort]
        cases (m.after reverse cursor).foldlM body s <;> rfl
      · obtain ⟨e, he⟩ := Option.ne_none_iff_exists'.mp fun h =>
          hempty (List.getLast?_eq_none_iff.mp h)
        have hrest := after_last he
        have hdrop : (m.after reverse (some e.1)).length < fuel := by
          rw [hrest, List.length_drop]
          have hpos := List.length_pos_iff.mpr hempty
          rw [page, List.length_take] at hpos
          omega
        simp only [if_neg hshort, he, Option.map_some, ih hdrop]
        rw [hrest, ← List.foldlM_append, page, hsplit]

end OrdMap
