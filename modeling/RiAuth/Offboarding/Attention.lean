import Mathlib.Data.List.Induction
import Mathlib.Data.Prod.Lex
import RiAuth.Basic
import RiAuth.Lib.Window

/-!
# The rows that need attention

The diagnostics of offboarding read every delivery, but show only the worst rows. The rows that are
shown are gathered while the deliveries are read: a list that is filled in the order of arrival, is
sorted once it is full, and from then on takes a better row in at its place and drops the last one.

* `ListedItem.Before`: the order of rows, by rank and then by id;
* `Holds.retain`: one row taken into the list keeps what a window on the sorted rows keeps;
* **`retain_attention_top`**: the list is the beginning of all rows in order, whatever order they
  arrived in.
-/

namespace RiAuth.Offboarding

/-- The most items a report lists. -/
def DIAGNOSTIC_ITEMS : ℕ := 50

/-- A row of the diagnostics. -/
structure ListedItem where
  rank : ℕ
  late : Option ℕ
  id : Text
  body : Json

/-- Rank, then id. -/
def ListedItem.key (item : ListedItem) : ℕ ×ₗ Text := toLex (item.rank, item.id)

/-- `slice::partition_point`: where a list splits into elements with a property and elements without
it, the place at which it does. Of a list that does not split nothing is known. -/
structure PartitionPoint where
  find : (ListedItem → Bool) → List ListedItem → ℕ
  find_append : ∀ {p : ListedItem → Bool} {l₁ l₂ : List ListedItem},
    (∀ a ∈ l₁, p a = true) → (∀ a ∈ l₂, p a = false) → find p (l₁ ++ l₂) = l₁.length

/-- The lowest rank first. -/
def sortAttention (items : List ListedItem) : List ListedItem :=
  items.mergeSort fun left right => left.key ≤ right.key

/-- Keep the best `DIAGNOSTIC_ITEMS` rows. -/
def retainAttention (search : PartitionPoint) (items : List ListedItem) (item : ListedItem) :
    List ListedItem :=
  if items.length < DIAGNOSTIC_ITEMS then
    let items := items ++ [item]
    if items.length = DIAGNOSTIC_ITEMS then sortAttention items else items
  else
    match items.getLast? with
    -- Not taken: the list is full.
    | none => items
    | some worst =>
      if item.key < worst.key then
        let items := items.dropLast
        items.insertIdx (search.find (fun existing => existing.key < item.key) items) item
      else items

/-! ## The order of rows -/

/-- The order of the list. -/
def ListedItem.Before (a b : ListedItem) : Prop := a.key < b.key

instance : DecidableRel ListedItem.Before := fun a b => inferInstanceAs (Decidable (a.key < b.key))

theorem ListedItem.Before.trans : ∀ a b c : ListedItem, a.Before b → b.Before c → a.Before c :=
  fun _ _ _ => lt_trans

variable {l : List ListedItem}

theorem ListedItem.strict (h : (l.map ListedItem.key).Nodup) :
    Window.Strict ListedItem.Before l where
  irrefl a := lt_irrefl a.key
  trans := ListedItem.Before.trans
  total := (List.pairwise_map.mp h).imp fun hne => lt_or_gt_of_ne hne

/-- Rows in strict order are what sorting makes of them, however they lie. -/
theorem sortAttention_eq {m : List ListedItem} (hm : m.Pairwise ListedItem.Before)
    (hperm : m.Perm l) : sortAttention l = m := by
  have hkeys : (m.map ListedItem.key).Nodup := List.pairwise_map.mpr (hm.imp fun h => ne_of_lt h)
  have hsort : (sortAttention l).Perm m := (List.mergeSort_perm l _).trans hperm.symm
  have hle : (sortAttention l).Pairwise fun a b => a.key ≤ b.key := by
    refine (List.pairwise_mergeSort ?_ ?_ l).imp fun h => of_decide_eq_true h
    · intro a b c hab hbc
      exact decide_eq_true (le_trans (of_decide_eq_true hab) (of_decide_eq_true hbc))
    · intro a b
      simpa using le_total a.key b.key
  have hsame : ∀ a b, a ∈ sortAttention l → b ∈ m → a.key ≤ b.key → b.key ≤ a.key → a = b := by
    intro a b ha hb hab hba
    exact List.inj_on_of_nodup_map hkeys (hsort.mem_iff.mp ha) hb (le_antisymm hab hba)
  exact List.Perm.eq_of_pairwise hsame hle (hm.imp le_of_lt) hsort

/-! ## One row -/

/-- Putting a row at its place of a sorted list. -/
theorem insertIdx_find (search : PartitionPoint) {item : ListedItem}
    (hl : l.Pairwise ListedItem.Before) (hitem : ∀ b ∈ l, item.Before b ∨ b.Before item) :
    l.insertIdx (search.find (fun existing => existing.key < item.key) l) item =
      l.orderedInsert ListedItem.Before item := by
  have hsorted := Window.pairwise_orderedInsert ListedItem.Before.trans hl hitem
  rw [List.orderedInsert_eq_take_drop] at hsorted ⊢
  have hl' : l = l.takeWhile (fun b => decide ¬ item.Before b) ++
      l.dropWhile (fun b => decide ¬ item.Before b) := List.takeWhile_append_dropWhile.symm
  generalize l.takeWhile (fun b => decide ¬ item.Before b) = front at hsorted hl' ⊢
  generalize l.dropWhile (fun b => decide ¬ item.Before b) = back at hsorted hl' ⊢
  obtain ⟨-, hback, hfront⟩ := List.pairwise_append.mp hsorted
  have hfind : search.find (fun existing => existing.key < item.key) l = front.length := by
    rw [hl']
    refine search.find_append ?_ ?_
    · intro a ha
      exact decide_eq_true (hfront a ha item List.mem_cons_self)
    · intro a ha
      exact decide_eq_false (lt_asymm ((List.pairwise_cons.mp hback).1 a ha))
  rw [hfind, hl']
  clear * -
  induction front with
  | nil => rfl
  | cons b front ih => rw [List.length_cons, List.cons_append, List.insertIdx_succ_cons, ih]; rfl

/-- The list holds the rows of a sorted window: in any order while there is room, then in the same
order. -/
structure Holds (items kept : List ListedItem) : Prop where
  perm : items.Perm kept
  short : kept.length ≤ DIAGNOSTIC_ITEMS
  sorted : items.length = DIAGNOSTIC_ITEMS → items = kept

/-- **A row is taken in as a sorted window takes it in.** -/
theorem Holds.retain {search : PartitionPoint} {items kept : List ListedItem} {item : ListedItem}
    (h : Holds items kept) (hkept : kept.Pairwise ListedItem.Before)
    (hitem : ∀ b ∈ kept, item.Before b ∨ b.Before item) :
    Holds (retainAttention search items item)
      (Window.keep ListedItem.Before DIAGNOSTIC_ITEMS kept item) := by
  have hlength := h.perm.length_eq
  unfold retainAttention Window.keep
  by_cases hroom : items.length < DIAGNOSTIC_ITEMS
  · have hperm : (items ++ [item]).Perm (kept.orderedInsert ListedItem.Before item) :=
      (List.perm_append_singleton item items).trans
        ((h.perm.cons item).trans (List.perm_orderedInsert _ item kept).symm)
    have hsorted := Window.pairwise_orderedInsert ListedItem.Before.trans hkept hitem
    have hroom' : kept.length < DIAGNOSTIC_ITEMS := hlength ▸ hroom
    simp only [if_pos hroom, if_pos hroom']
    split_ifs with hfull
    · rw [sortAttention_eq hsorted hperm.symm]
      exact ⟨List.Perm.refl _, by rw [← hperm.length_eq, hfull], fun _ => rfl⟩
    · refine ⟨hperm, ?_, fun hfull' => absurd hfull' hfull⟩
      rw [List.orderedInsert_length, ← hlength]
      exact hroom
  · have hfull : items.length = DIAGNOSTIC_ITEMS := by
      have := h.short
      omega
    cases h.sorted hfull
    rw [if_neg hroom, if_neg hroom]
    cases hlast : items.getLast? with
    | none => exact ⟨List.Perm.refl _, h.short, fun _ => rfl⟩
    | some worst =>
      have hsub : items.dropLast.Sublist items := List.dropLast_sublist items
      simp only [Option.any_some, decide_eq_true_eq]
      by_cases hbetter : item.key < worst.key
      · have hbefore : item.Before worst := hbetter
        rw [if_pos hbetter, if_pos hbefore,
          insertIdx_find search (hkept.sublist hsub) fun b hb => hitem b (hsub.subset hb)]
        refine ⟨List.Perm.refl _, ?_, fun _ => rfl⟩
        rw [List.orderedInsert_length, List.length_dropLast, hfull]
        decide
      · have hbefore : ¬ item.Before worst := hbetter
        rw [if_neg hbetter, if_neg hbefore]
        exact ⟨List.Perm.refl _, h.short, fun _ => rfl⟩

/-! ## All rows -/

/-- The rows that have arrived, and a window on them in order. -/
theorem foldl_retain {search : PartitionPoint} (h : (l.map ListedItem.key).Nodup) :
    Holds (l.foldl (retainAttention search) [])
      ((Window.arrange ListedItem.Before l).take DIAGNOSTIC_ITEMS) := by
  induction l using List.reverseRecOn with
  | nil => exact ⟨List.Perm.refl _, Nat.zero_le _, fun _ => rfl⟩
  | append_singleton l item ih =>
    have hbefore : (l.map ListedItem.key).Nodup :=
      h.sublist ((List.sublist_append_left l [item]).map _)
    have hstrict := ListedItem.strict hbefore
    have hsorted := Window.arrange_pairwise hstrict
    have hitem : ∀ b ∈ Window.arrange ListedItem.Before l, item.Before b ∨ b.Before item := by
      intro b hb
      have hb' := (Window.arrange_perm hstrict).mem_iff.mp hb
      exact ((List.pairwise_append.mp (ListedItem.strict h).total).2.2 b hb' item
        (List.mem_singleton_self item)).symm
    have hkeep := Window.keep_take (k := DIAGNOSTIC_ITEMS) (fun a => lt_irrefl a.key)
      ListedItem.Before.trans hsorted hitem
    have harrange : Window.arrange ListedItem.Before (l ++ [item]) =
        (Window.arrange ListedItem.Before l).orderedInsert ListedItem.Before item :=
      List.foldl_concat ..
    rw [List.foldl_concat, harrange, ← hkeep]
    exact (ih hbefore).retain (hsorted.sublist (List.take_sublist _ _))
      fun b hb => hitem b (List.mem_of_mem_take hb)

/-- **The bounded list is a true top.** Rows that differ in rank or id, taken into the list one by
one and sorted in the end, are the first `DIAGNOSTIC_ITEMS` of all rows in order, and so the same
for every order of arrival. -/
theorem retain_attention_top (search : PartitionPoint) (items : List ListedItem)
    (hdistinct : (items.map ListedItem.key).Nodup) :
    sortAttention (items.foldl (retainAttention search) []) =
        (sortAttention items).take DIAGNOSTIC_ITEMS ∧
      ∀ arrived : List ListedItem, arrived.Perm items →
        sortAttention (arrived.foldl (retainAttention search) []) =
          (sortAttention items).take DIAGNOSTIC_ITEMS := by
  have htop : ∀ l : List ListedItem, (l.map ListedItem.key).Nodup →
      sortAttention (l.foldl (retainAttention search) []) =
        (sortAttention l).take DIAGNOSTIC_ITEMS := by
    intro l hl
    have hstrict := ListedItem.strict hl
    have hsorted := Window.arrange_pairwise hstrict
    rw [sortAttention_eq hsorted (Window.arrange_perm hstrict)]
    exact sortAttention_eq (hsorted.sublist (List.take_sublist _ _)) (foldl_retain hl).perm.symm
  refine ⟨htop items hdistinct, fun arrived hperm => ?_⟩
  have hstrict := ListedItem.strict hdistinct
  have hsorted := Window.arrange_pairwise hstrict
  have hall := Window.arrange_perm hstrict
  rw [htop arrived ((hperm.map ListedItem.key).nodup_iff.mpr hdistinct),
    sortAttention_eq hsorted hall, sortAttention_eq hsorted (hall.trans hperm.symm)]

/-- A search that looks at one element after the other. -/
def linearSearch : PartitionPoint where
  find p l := (l.takeWhile p).length
  find_append {p l₁ l₂} h₁ h₂ := by
    rw [List.takeWhile_append_of_pos h₁]
    cases l₂ with
    | nil => simp
    | cons b l₂ => simp [h₂ b List.mem_cons_self]

/-- Sixty rows of three ranks. -/
def manyRows : List ListedItem :=
  (List.range 60).map fun i => ⟨i % 3, none, List.replicate i 'a', .null⟩

theorem nodup_manyRows : (manyRows.map ListedItem.key).Nodup := by
  rw [manyRows, List.map_map]
  refine List.nodup_range.map fun i j h => ?_
  have hid : List.replicate i 'a' = List.replicate j 'a' := congrArg (fun k => (ofLex k).2) h
  simpa using congrArg List.length hid

/-- However they arrive, ten of the sixty drop out, and they are the last ones. -/
theorem retain_attention_top_sixty :
    sortAttention (manyRows.reverse.foldl (retainAttention linearSearch) []) =
        (sortAttention manyRows).take DIAGNOSTIC_ITEMS ∧
      (sortAttention (manyRows.reverse.foldl (retainAttention linearSearch) [])).length = 50 := by
  have htop := (retain_attention_top linearSearch manyRows nodup_manyRows).2 _
    manyRows.reverse_perm
  refine ⟨htop, ?_⟩
  rw [htop, List.length_take, sortAttention, List.length_mergeSort, manyRows, List.length_map,
    List.length_range]
  rfl

end RiAuth.Offboarding
