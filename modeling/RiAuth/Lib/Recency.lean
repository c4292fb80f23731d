import Mathlib.Data.List.DropRight
import Mathlib.Data.List.Nodup

/-!
# The most recent elements

A bounded list keeps names of the newest elements of a sequence, oldest first. A new name moves to
the end, and the list is cut to its bound from the front. The sequence itself, and the names where
they are compared with it, are written with the newest first.

* `push`: one more name in the bounded list;
* `Names`: the newest names are names of the newest elements;
* `Names.push`: the bounded list goes on naming them;
* `Names.map`: the names may be changed for others of the same elements.
-/

namespace Recency

variable {α β : Type}

/-- The first `m` names have one for each of the last `m` elements, for every `m` up to `n`. -/
def Names (R : α → β → Prop) (n : ℕ) (names : List α) (seq : List β) : Prop :=
  ∀ m ≤ n, ∀ y ∈ seq.take m, ∃ x ∈ names.take m, R x y

section

variable {R : α → β → Prop} {n : ℕ} {names : List α} {seq : List β}

theorem names_nil (R : α → β → Prop) (n : ℕ) (names : List α) : Names R n names [] := by
  intro m _ y hy
  rw [List.take_nil] at hy
  cases hy

theorem Names.mono {n' : ℕ} (h : Names R n names seq) (hn : n' ≤ n) : Names R n' names seq :=
  fun m hm => h m (hm.trans hn)

theorem Names.map {f : α → α} (h : Names R n names seq)
    (hf : ∀ x ∈ names, ∀ y, R x y → R (f x) y) : Names R n (names.map f) seq := by
  intro m hm y hy
  obtain ⟨x, hx, hxy⟩ := h m hm y hy
  refine ⟨f x, ?_, hf x (List.mem_of_mem_take hx) y hxy⟩
  rw [← List.map_take]
  exact List.mem_map_of_mem hx

/-- What drops out makes the others newer. -/
theorem filter_take_subset (p : α → Bool) (l : List α) (m : ℕ) :
    (l.take m).filter p ⊆ (l.filter p).take m := by
  have hprefix := (List.take_prefix m l).filter p
  rw [List.prefix_iff_eq_take.mp hprefix]
  refine List.take_subset_take_left _ ?_
  exact (List.length_filter_le _ _).trans (List.length_take_le m _)

end

variable [DecidableEq α] {R : α → β → Prop} {n : ℕ} {kept : List α} {seq : List β}

/-- A bounded list with one more name, which is the newest one now. -/
def push (n : ℕ) (kept : List α) (x : α) : List α :=
  (kept.filter (· ≠ x) ++ [x]).rtake n

theorem reverse_push (n : ℕ) (kept : List α) (x : α) :
    (push n kept x).reverse = (x :: kept.reverse.filter (· ≠ x)).take n := by
  rw [push, List.rtake_eq_reverse_take_reverse, List.reverse_reverse, List.reverse_append,
    List.reverse_singleton, List.singleton_append, ← List.filter_reverse]

theorem mem_push_self (hn : 0 < n) (x : α) : x ∈ push n kept x := by
  obtain ⟨m, rfl⟩ := Nat.exists_eq_succ_of_ne_zero hn.ne'
  rw [← List.mem_reverse, reverse_push, List.take_succ_cons]
  exact List.mem_cons_self

theorem mem_of_mem_push {x y : α} (h : y ∈ push n kept x) : y = x ∨ y ∈ kept := by
  rw [← List.mem_reverse, reverse_push] at h
  refine (List.mem_cons.mp (List.mem_of_mem_take h)).imp_right fun hy => ?_
  exact List.mem_reverse.mp (List.mem_of_mem_filter hy)

theorem nodup_push (h : kept.Nodup) (x : α) : (push n kept x).Nodup := by
  rw [← List.nodup_reverse, reverse_push]
  refine List.Nodup.sublist (List.take_sublist _ _) (List.nodup_cons.mpr ⟨?_, ?_⟩)
  · exact fun hx => of_decide_eq_true (List.mem_filter.mp hx).2 rfl
  · exact (List.nodup_reverse.mpr h).filter _

/-- **The bounded list goes on naming the last elements.** Of the old names, those of one element
less are enough. -/
theorem Names.push {x : α} {y : β} (h : Names R (n - 1) kept.reverse seq) (hxy : R x y) :
    Names R n (push n kept x).reverse (y :: seq) := by
  intro m hm z hz
  rw [reverse_push, List.take_take, min_eq_left hm]
  cases m with
  | zero =>
    rw [List.take_zero] at hz
    cases hz
  | succ m =>
    rw [List.take_succ_cons] at hz ⊢
    rcases List.mem_cons.mp hz with rfl | hz
    · exact ⟨x, List.mem_cons_self, hxy⟩
    obtain ⟨w, hw, hwz⟩ := h m (Nat.le_sub_one_of_lt hm) z hz
    by_cases hwx : w = x
    · exact ⟨x, List.mem_cons_self, hwx ▸ hwz⟩
    · refine ⟨w, List.mem_cons_of_mem _ (filter_take_subset _ _ _ ?_), hwz⟩
      exact List.mem_filter.mpr ⟨hw, decide_eq_true hwx⟩

end Recency
