import Mathlib.Data.Finset.Card
import RiAuth.Lib.Pages

/-!
# Sweeps of a map that changes

A sweep reads an ordered map page by page up to a bound that stays fixed. Between the pages anybody
may change the map. The sweep goes on after the last name it read, and it ends with a page that is
not full or that reaches the bound.

* `OrdMap.sweepPage`, `OrdMap.Done`: the next page, and whether it is the last;
* `OrdMap.Swept`: what a sweep has read so far;
* `OrdMap.Swept.change`, `OrdMap.Swept.page`: what a change and a page preserve;
* `OrdMap.Swept.length_le`: how many pages there can be.
-/

namespace OrdMap

variable {K V : Type} [LinearOrder K]

/-- Entries up to a bound. -/
def upTo (stop : K) (l : List (K × V)) : List (K × V) := l.takeWhile fun e => e.1 ≤ stop

/-- A page that ends at a fixed key. -/
def sweepPage (m : OrdMap K V) (limit : ℕ) (cursor : Option K) (stop : K) : List (K × V) :=
  upTo stop (m.page false limit cursor)

/-- A page after which nothing is left up to the bound. -/
def Done (limit : ℕ) (stop : K) (page : List (K × V)) : Prop :=
  page.length < limit ∨ ∃ e ∈ page.getLast?, stop ≤ e.1

instance (limit : ℕ) (stop : K) (page : List (K × V)) : Decidable (Done limit stop page) :=
  inferInstanceAs (Decidable (_ ∨ _))

/-! ## One page -/

theorem upTo_take (stop : K) (n : ℕ) (l : List (K × V)) :
    upTo stop (l.take n) = (upTo stop l).take n := by
  induction l generalizing n with
  | nil => rw [List.take_nil, upTo, List.takeWhile_nil, List.take_nil]
  | cons e l ih =>
    cases n with
    | zero => rw [List.take_zero, List.take_zero, upTo, List.takeWhile_nil]
    | succ n =>
      unfold upTo at ih ⊢
      rw [List.take_succ_cons, List.takeWhile_cons, List.takeWhile_cons]
      split
      · rw [ih, List.take_succ_cons]
      · rw [List.take_nil]

variable {e : K × V} {m : OrdMap K V}

theorem mem_upTo {stop : K} {l : List (K × V)} (hl : l.Pairwise fun a b => a.1 < b.1) :
    e ∈ upTo stop l ↔ e ∈ l ∧ e.1 ≤ stop := by
  induction l with
  | nil => simp [upTo]
  | cons a l ih =>
    obtain ⟨ha, hl⟩ := List.pairwise_cons.mp hl
    unfold upTo at ih ⊢
    rw [List.takeWhile_cons]
    split
    · rename_i hle
      rw [List.mem_cons, List.mem_cons, ih hl, or_and_right]
      refine or_congr_left ⟨?_, fun h => h.1⟩
      rintro rfl
      exact ⟨rfl, of_decide_eq_true hle⟩
    · rename_i hgt
      have hgt : ¬a.1 ≤ stop := fun h => hgt (decide_eq_true h)
      refine ⟨fun h => absurd h List.not_mem_nil, ?_⟩
      rintro ⟨hmem, hle⟩
      rcases List.mem_cons.mp hmem with rfl | hmem
      · exact absurd hle hgt
      · exact absurd ((ha e hmem).le.trans hle) hgt

/-- All that is left up to the bound. -/
def remaining (m : OrdMap K V) (cursor : Option K) (stop : K) : List (K × V) :=
  upTo stop (m.after false cursor)

theorem sweepPage_eq (m : OrdMap K V) (limit : ℕ) (cursor : Option K) (stop : K) :
    m.sweepPage limit cursor stop = (m.remaining cursor stop).take limit := by
  rw [sweepPage, page, upTo_take, remaining]

theorem after_sorted (m : OrdMap K V) (cursor : Option K) :
    (m.after false cursor).Pairwise fun a b => a.1 < b.1 := m.sorted.filter _

theorem remaining_sorted (m : OrdMap K V) (cursor : Option K) (stop : K) :
    (m.remaining cursor stop).Pairwise fun a b => a.1 < b.1 :=
  (m.after_sorted cursor).sublist (List.takeWhile_sublist _)

theorem mem_remaining {cursor : Option K} {stop : K} :
    e ∈ m.remaining cursor stop ↔ e ∈ m.entries ∧ (∀ c ∈ cursor, c < e.1) ∧ e.1 ≤ stop := by
  rw [remaining, mem_upTo (m.after_sorted cursor), after, List.mem_filter, and_assoc]
  refine and_congr_right fun _ => and_congr_left fun _ => ?_
  cases cursor with
  | none => simp
  | some c => simp [before_false]

/-- What is left and comes no later than an entry of the page stands in the page. -/
theorem mem_sweepPage_of_le {limit : ℕ} {cursor : Option K} {stop : K} {d : K × V}
    (hd : d ∈ m.sweepPage limit cursor stop) (he : e ∈ m.remaining cursor stop) (hle : e.1 ≤ d.1) :
    e ∈ m.sweepPage limit cursor stop := by
  rw [sweepPage_eq] at hd ⊢
  have hsorted := m.remaining_sorted cursor stop
  rw [← List.take_append_drop limit (m.remaining cursor stop)] at he hsorted
  rcases List.mem_append.mp he with he | he
  · exact he
  · have := (List.pairwise_append.mp hsorted).2.2 d hd e he
    exact absurd hle (not_le.mpr this)

/-- After the last page nothing is left. -/
theorem mem_sweepPage_of_done {limit : ℕ} {cursor : Option K} {stop : K}
    (hdone : Done limit stop (m.sweepPage limit cursor stop)) (he : e ∈ m.remaining cursor stop) :
    e ∈ m.sweepPage limit cursor stop := by
  rcases hdone with hshort | ⟨d, hd, hle⟩
  · rw [sweepPage_eq, List.length_take] at hshort
    rwa [sweepPage_eq, List.take_of_length_le (by omega)]
  · exact mem_sweepPage_of_le (List.mem_of_getLast? hd) he ((mem_remaining.mp he).2.2.trans hle)

theorem length_sweepPage {limit : ℕ} {cursor : Option K} {stop : K}
    (hdone : ¬Done limit stop (m.sweepPage limit cursor stop)) :
    (m.sweepPage limit cursor stop).length = limit := by
  have hle : (m.sweepPage limit cursor stop).length ≤ limit := by
    rw [sweepPage_eq]
    exact List.length_take_le _ _
  exact le_antisymm hle (not_lt.mp fun h => hdone (.inl h))

/-! ## Sweeps -/

/-- What a sweep has read so far, in a map that went through some moments, newest first. -/
structure Swept (limit : ℕ) (stop : K) (moments : List (OrdMap K V)) (pages : List (List (K × V)))
    (cursor : Option K) (done : Bool) : Prop where
  sorted : pages.flatten.Pairwise fun a b => a.1 < b.1
  bounded : ∀ e ∈ pages.flatten, e.1 ≤ stop
  read : ∀ e ∈ pages.flatten, ∃ m ∈ moments, m.get? e.1 = some e.2
  below : done = false → ∀ e ∈ pages.flatten, ∃ c ∈ cursor, e.1 ≤ c
  covered : ∀ k ≤ stop, (done = true ∨ ∃ c ∈ cursor, k ≤ c) →
    (∀ m ∈ moments, m.get? k ≠ none) → ∃ v, (k, v) ∈ pages.flatten
  full : done = false → ∀ page ∈ pages, page.length = limit
  full_init : ∀ page ∈ pages.dropLast, page.length = limit

namespace Swept

variable {limit : ℕ} {stop : K} {moments : List (OrdMap K V)} {pages : List (List (K × V))}
  {cursor : Option K} {done : Bool}

theorem start (limit : ℕ) (stop : K) (moments : List (OrdMap K V)) :
    Swept limit stop moments [] none false where
  sorted := List.Pairwise.nil
  bounded := nofun
  read := nofun
  below := nofun
  covered := fun _ _ h => by simp at h
  full := nofun
  full_init := nofun

/-- Somebody changes the map. -/
theorem change (h : Swept limit stop moments pages cursor done) (m : OrdMap K V) :
    Swept limit stop (m :: moments) pages cursor done where
  sorted := h.sorted
  bounded := h.bounded
  read := fun e he => by
    obtain ⟨m', hm', hget⟩ := h.read e he
    exact ⟨m', List.mem_cons_of_mem _ hm', hget⟩
  below := h.below
  covered := fun k hk hbelow hall =>
    h.covered k hk hbelow fun m' hm' => hall m' (List.mem_cons_of_mem _ hm')
  full := h.full
  full_init := h.full_init

/-- The sweep reads its next page. -/
theorem page (h : Swept limit stop moments pages cursor false) {m : OrdMap K V}
    (hm : m ∈ moments) (hlimit : 0 < limit) {next : Option K} {last : Bool}
    (hlast : last = true ↔ Done limit stop (m.sweepPage limit cursor stop))
    (hnext : last = false → next = (m.sweepPage limit cursor stop).getLast?.map Prod.fst) :
    Swept limit stop moments (pages ++ [m.sweepPage limit cursor stop]) next last := by
  have hflatten : (pages ++ [m.sweepPage limit cursor stop]).flatten =
      pages.flatten ++ m.sweepPage limit cursor stop := by
    rw [List.flatten_append, List.flatten_singleton]
  have hpage : (m.sweepPage limit cursor stop).Pairwise fun a b => a.1 < b.1 := by
    rw [sweepPage_eq]
    exact (m.remaining_sorted cursor stop).take
  have hmem : ∀ e ∈ m.sweepPage limit cursor stop,
      e ∈ m.entries ∧ (∀ c ∈ cursor, c < e.1) ∧ e.1 ≤ stop := by
    intro e he
    rw [sweepPage_eq] at he
    exact mem_remaining.mp (List.mem_of_mem_take he)
  have hcross : ∀ a ∈ pages.flatten, ∀ b ∈ m.sweepPage limit cursor stop, a.1 < b.1 := by
    intro a ha b hb
    obtain ⟨c, hc, hle⟩ := h.below rfl a ha
    exact lt_of_le_of_lt hle ((hmem b hb).2.1 c hc)
  have hnotDone : last = false → ¬Done limit stop (m.sweepPage limit cursor stop) := by
    intro hfalse hdone
    exact Bool.false_ne_true (hfalse.symm.trans (hlast.mpr hdone))
  -- while the sweep goes on, the cursor stands on the last entry of the page
  have hcursor : last = false → ∃ d, (m.sweepPage limit cursor stop).getLast? = some d ∧
      next = some d.1 := by
    intro hfalse
    have hlength := length_sweepPage (hnotDone hfalse)
    have hne : m.sweepPage limit cursor stop ≠ [] := List.length_pos_iff.mp (by omega)
    refine ⟨_, List.getLast?_eq_some_getLast hne, ?_⟩
    rw [hnext hfalse, List.getLast?_eq_some_getLast hne, Option.map_some]
  constructor
  case sorted =>
    rw [hflatten]
    exact List.pairwise_append.mpr ⟨h.sorted, hpage, hcross⟩
  case bounded =>
    intro e he
    rw [hflatten] at he
    rcases List.mem_append.mp he with he | he
    · exact h.bounded e he
    · exact (hmem e he).2.2
  case read =>
    intro e he
    rw [hflatten] at he
    rcases List.mem_append.mp he with he | he
    · exact h.read e he
    · exact ⟨m, hm, mem_entries_iff.mp (hmem e he).1⟩
  case below =>
    intro hfalse e he
    obtain ⟨d, hd, rfl⟩ := hcursor hfalse
    refine ⟨d.1, rfl, ?_⟩
    rw [hflatten] at he
    rcases List.mem_append.mp he with he | he
    · exact (hcross e he d (List.mem_of_getLast? hd)).le
    · obtain ⟨init, hinit⟩ := List.getLast?_eq_some_iff.mp hd
      rw [hinit] at he hpage
      rcases List.mem_append.mp he with he | he
      · exact ((List.pairwise_append.mp hpage).2.2 e he d List.mem_cons_self).le
      · rw [List.mem_singleton.mp he]
  case covered =>
    intro k hk hbelow hall
    rw [hflatten]
    by_cases hread : ∃ c ∈ cursor, k ≤ c
    · obtain ⟨v, hv⟩ := h.covered k hk (.inr hread) hall
      exact ⟨v, List.mem_append_left _ hv⟩
    · obtain ⟨v, hv⟩ := Option.ne_none_iff_exists'.mp (hall m hm)
      have hleft : (k, v) ∈ m.remaining cursor stop :=
        mem_remaining.mpr ⟨mem_entries_iff.mpr hv, fun c hc => not_le.mp fun hle =>
          hread ⟨c, hc, hle⟩, hk⟩
      refine ⟨v, List.mem_append_right _ ?_⟩
      cases hcase : last with
      | true => exact mem_sweepPage_of_done (hlast.mp hcase) hleft
      | false =>
        obtain ⟨d, hd, rfl⟩ := hcursor hcase
        rcases hbelow with htrue | ⟨c, hc, hle⟩
        · exact absurd (hcase.symm.trans htrue) Bool.false_ne_true
        · cases hc
          exact mem_sweepPage_of_le (List.mem_of_getLast? hd) hleft hle
  case full =>
    intro hfalse p hp
    rcases List.mem_append.mp hp with hp | hp
    · exact h.full rfl p hp
    · rw [List.mem_singleton.mp hp]
      exact length_sweepPage (hnotDone hfalse)
  case full_init =>
    rw [List.dropLast_concat]
    exact h.full rfl

/-- No name is read twice. -/
theorem nodup (h : Swept limit stop moments pages cursor done) :
    (pages.flatten.map Prod.fst).Nodup :=
  List.pairwise_map.mpr (h.sorted.imp fun hlt => hlt.ne)

omit [LinearOrder K] in
theorem length_flatten_of_full {limit : ℕ} : ∀ {pages : List (List (K × V))},
    (∀ page ∈ pages, page.length = limit) → pages.flatten.length = pages.length * limit
  | [], _ => by rw [List.length_nil, Nat.zero_mul]; rfl
  | page :: pages, h => by
    rw [List.flatten_cons, List.length_append, h page List.mem_cons_self, List.length_cons,
      length_flatten_of_full fun p hp => h p (List.mem_cons_of_mem _ hp), Nat.succ_mul,
      Nat.add_comm]

/-- Each page but the last holds as many names as a page can. -/
theorem length_le (h : Swept limit stop moments pages cursor done) (hlimit : 0 < limit)
    {ks : Finset K} (hks : ∀ m ∈ moments, ∀ k ≤ stop, m.get? k ≠ none → k ∈ ks) :
    pages.length ≤ ks.card / limit + 1 ∧ (done = false → pages.length ≤ ks.card / limit) := by
  have hnames : pages.flatten.length ≤ ks.card := by
    rw [← List.length_map Prod.fst, ← List.toFinset_card_of_nodup h.nodup]
    refine Finset.card_le_card fun k hk => ?_
    obtain ⟨e, he, rfl⟩ := List.mem_map.mp (List.mem_toFinset.mp hk)
    obtain ⟨m, hm, hget⟩ := h.read e he
    exact hks m hm e.1 (h.bounded e he) (hget ▸ Option.some_ne_none _)
  constructor
  · rcases List.eq_nil_or_concat pages with rfl | ⟨init, page, rfl⟩
    · exact Nat.zero_le _
    · have hinit := h.full_init
      rw [List.concat_eq_append] at hinit hnames ⊢
      rw [List.dropLast_concat] at hinit
      rw [List.flatten_append, List.length_append, length_flatten_of_full hinit] at hnames
      rw [List.length_append, List.length_singleton, Nat.add_le_add_iff_right,
        Nat.le_div_iff_mul_le hlimit]
      omega
  · intro hdone
    rw [length_flatten_of_full (h.full hdone)] at hnames
    exact (Nat.le_div_iff_mul_le hlimit).mpr hnames

end Swept

end OrdMap
