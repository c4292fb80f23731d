import Mathlib.Data.List.Sort

/-!
# Keeping the first few of many

A loop meets elements in any order and keeps the first `k` of them in a strict order: an element
that does not fit in replaces the last one that is kept, if it precedes it.

* `arrange`: all elements in order;
* `keep`: one round of the loop, on the elements that are kept, in order;
* **`foldl_keep`**: what is kept is the beginning of all elements in order.
-/

namespace Window

variable {α : Type} (r : α → α → Prop) [DecidableRel r]

/-- The elements in order, put in one after the other. -/
def arrange (l : List α) : List α := l.foldl (fun kept a => kept.orderedInsert r a) []

/-- An element is kept if there is room, or if it precedes the last one that is kept. -/
def keep (k : ℕ) (kept : List α) (a : α) : List α :=
  if kept.length < k then kept.orderedInsert r a
  else if kept.getLast?.any (fun last => decide (r a last)) then kept.dropLast.orderedInsert r a
  else kept

/-- Any two different elements are in order. -/
structure Strict (l : List α) : Prop where
  irrefl : ∀ a, ¬ r a a
  trans : ∀ a b c, r a b → r b c → r a c
  total : l.Pairwise fun a b => r a b ∨ r b a

variable {r}

theorem pairwise_orderedInsert {l : List α} {a : α} (htrans : ∀ a b c, r a b → r b c → r a c)
    (hl : l.Pairwise r) (ha : ∀ b ∈ l, r a b ∨ r b a) : (l.orderedInsert r a).Pairwise r := by
  induction l with
  | nil => exact List.pairwise_singleton r a
  | cons b l ih =>
    obtain ⟨hb, hl'⟩ := List.pairwise_cons.mp hl
    obtain ⟨hab, hrest⟩ := List.forall_mem_cons.mp ha
    rw [List.orderedInsert_cons]
    split_ifs with hlt
    · exact List.pairwise_cons.mpr
        ⟨List.forall_mem_cons.mpr ⟨hlt, fun c hc => htrans a b c hlt (hb c hc)⟩, hl⟩
    · refine List.pairwise_cons.mpr ⟨fun c hc => ?_, ih hl' hrest⟩
      obtain rfl | hc := List.mem_orderedInsert r |>.mp hc
      · exact hab.resolve_left hlt
      · exact hb c hc

/-- An element that precedes the last one kept pushes it out. -/
theorem take_orderedInsert_of_lt {l : List α} {a last : α} {n : ℕ} (hlast : l[n]? = some last)
    (hlt : r a last) :
    (l.orderedInsert r a).take (n + 1) = (l.take n).orderedInsert r a := by
  induction l generalizing n with
  | nil => cases hlast
  | cons b l ih =>
    rw [List.orderedInsert_cons]
    by_cases hab : r a b
    · rw [if_pos hab, List.take_succ_cons]
      cases n with
      | zero => rfl
      | succ n => rw [List.take_succ_cons, List.orderedInsert_cons, if_pos hab]
    · rw [if_neg hab, List.take_succ_cons]
      cases n with
      | zero =>
        cases hlast
        exact absurd hlt hab
      | succ n => rw [List.take_succ_cons, List.orderedInsert_cons, if_neg hab, ih hlast]

/-- An element that precedes none of those kept comes after them. -/
theorem take_orderedInsert_of_not_lt {l : List α} {a : α} {k : ℕ}
    (hk : k ≤ l.length) (h : ∀ b ∈ l.take k, ¬ r a b) : (l.orderedInsert r a).take k = l.take k := by
  induction l generalizing k with
  | nil =>
    cases Nat.le_zero.mp hk
    rfl
  | cons b l ih =>
    cases k with
    | zero => rfl
    | succ k =>
      rw [List.take_succ_cons, List.forall_mem_cons] at h
      rw [List.orderedInsert_cons, if_neg h.1, List.take_succ_cons, List.take_succ_cons,
        ih (Nat.le_of_succ_le_succ hk) h.2]

/-- **One round keeps the beginning.** -/
theorem keep_take {l : List α} {a : α} {k : ℕ} (hirrefl : ∀ a, ¬ r a a)
    (htrans : ∀ a b c, r a b → r b c → r a c) (hl : l.Pairwise r)
    (ha : ∀ b ∈ l, r a b ∨ r b a) : keep r k (l.take k) a = (l.orderedInsert r a).take k := by
  unfold keep
  by_cases hroom : (l.take k).length < k
  · rw [if_pos hroom]
    rw [List.length_take] at hroom
    rw [List.take_of_length_le (by omega), List.take_of_length_le]
    rw [List.orderedInsert_length]
    omega
  · rw [if_neg hroom]
    rw [List.length_take] at hroom
    cases k with
    | zero => rfl
    | succ n =>
      obtain ⟨last, hlast⟩ : ∃ last, l[n]? = some last :=
        ⟨_, List.getElem?_eq_getElem (by omega)⟩
      have htake : l.take (n + 1) = l.take n ++ [last] := by
        rw [List.take_add_one, hlast]
        rfl
      rw [htake, List.getLast?_concat, Option.any_some, List.dropLast_concat]
      by_cases hlt : r a last
      · rw [if_pos (decide_eq_true hlt), take_orderedInsert_of_lt hlast hlt]
      · rw [if_neg fun h => hlt (of_decide_eq_true h), ← htake,
          take_orderedInsert_of_not_lt (by omega)]
        -- the last one precedes the element, and all others precede the last one
        have hafter := (ha last (List.mem_of_getElem? hlast)).resolve_left hlt
        have hsorted := hl.sublist (List.take_sublist (n + 1) l)
        rw [htake, List.pairwise_append] at hsorted
        intro b hb hab
        rw [htake] at hb
        obtain hb | hb := List.mem_append.mp hb
        · exact hirrefl a (htrans a last a (htrans a b last hab
            (hsorted.2.2 b hb last List.mem_cons_self)) hafter)
        · rw [List.mem_singleton.mp hb] at hab
          exact hlt hab

section

variable {l : List α}

/-- The rounds so far, from elements that are in order. -/
theorem foldl_spec (k : ℕ) {start : List α} (h : Strict r (start ++ l)) (hstart : start.Pairwise r) :
    l.foldl (keep r k) (start.take k) =
        (l.foldl (fun kept a => kept.orderedInsert r a) start).take k ∧
      (l.foldl (fun kept a => kept.orderedInsert r a) start).Pairwise r ∧
      (l.foldl (fun kept a => kept.orderedInsert r a) start).Perm (start ++ l) := by
  induction l generalizing start with
  | nil => exact ⟨rfl, hstart, by rw [List.append_nil]; rfl⟩
  | cons a l ih =>
    have hperm : (start.orderedInsert r a ++ l).Perm (start ++ a :: l) :=
      ((List.perm_orderedInsert r a start).append_right l).trans List.perm_middle.symm
    have ha : ∀ b ∈ start, r a b ∨ r b a := fun b hb =>
      ((List.pairwise_append.mp h.total).2.2 b hb a List.mem_cons_self).symm
    have hstrict : Strict r (start.orderedInsert r a ++ l) :=
      ⟨h.irrefl, h.trans, hperm.symm.pairwise h.total fun {x y} => Or.symm⟩
    rw [List.foldl_cons, List.foldl_cons, keep_take h.irrefl h.trans hstart ha]
    obtain ⟨hkept, hsorted, hall⟩ := ih hstrict (pairwise_orderedInsert h.trans hstart ha)
    exact ⟨hkept, hsorted, hall.trans hperm⟩

/-- **What the loop keeps is the beginning of all elements in order.** -/
theorem foldl_keep (h : Strict r l) (k : ℕ) : l.foldl (keep r k) [] = (arrange r l).take k := by
  have hspec := (foldl_spec k (by rwa [List.nil_append]) (List.Pairwise.nil (R := r))).1
  rwa [List.take_nil] at hspec

theorem arrange_pairwise (h : Strict r l) : (arrange r l).Pairwise r :=
  (foldl_spec 0 (by rwa [List.nil_append]) List.Pairwise.nil).2.1

theorem arrange_perm (h : Strict r l) : (arrange r l).Perm l :=
  (foldl_spec 0 (by rwa [List.nil_append]) List.Pairwise.nil).2.2

end

end Window
