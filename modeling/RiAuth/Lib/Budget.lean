import Mathlib.Order.Nat

/-!
# Counting failures in windows

A row counts failures in a window of fixed width, which starts with its first failure. The failure
that reaches the limit locks the row for one more width; the first failure after the window starts a
new one. The history of failures is a list of times, newest first.

* `charge`: one more failure;
* `Counts`: how a row stands to the failures it has counted;
* `Counts.charge`, `Counts.forget`: kept by a failure of an unlocked row, and by dropping a row that
  has been out of use for two widths;
* `Counts.bound`: any half-open interval as long as a window holds at most `2 * limit - 2` failures.
  At most `limit - 2` of them belong to a window that began before the interval: such a window has
  its first failure outside, and one that reached the limit has locked the row for the rest of the
  interval.
-/

namespace Budget

/-- The failures of one window. -/
structure Row where
  failures : ℕ
  windowStart : ℕ
  lockedUntil : ℕ
deriving DecidableEq

/-- Failures at times of the half-open interval. -/
def within (a b : ℕ) (log : List ℕ) : ℕ := log.countP fun t => a ≤ t ∧ t < b

theorem within_cons (a b t : ℕ) (log : List ℕ) :
    within a b (t :: log) = within a b log + if a ≤ t ∧ t < b then 1 else 0 := by
  simp [within, List.countP_cons]

theorem within_le_add (a b c : ℕ) (log : List ℕ) :
    within a c log ≤ within a b log + within b c log := by
  induction log with
  | nil => exact Nat.le_refl 0
  | cons t log ih =>
    rw [within_cons, within_cons, within_cons]
    split_ifs <;> omega

theorem within_le_append (a b : ℕ) (log log' : List ℕ) :
    within a b log ≤ within a b (log ++ log') := by
  rw [within, within, List.countP_append]
  exact Nat.le_add_right _ _

theorem within_mono {a b a' b' : ℕ} (ha : a' ≤ a) (hb : b ≤ b') (log : List ℕ) :
    within a b log ≤ within a' b' log := by
  refine List.countP_mono_left fun t _ ht => ?_
  simp only [decide_eq_true_eq] at ht ⊢
  omega

theorem within_eq_zero {a b : ℕ} {log : List ℕ} (h : ∀ t ∈ log, t < a ∨ b ≤ t) :
    within a b log = 0 := by
  refine List.countP_eq_zero.mpr fun t ht => ?_
  have := h t ht
  simp only [decide_eq_true_eq]
  omega

section

variable (width limit : ℕ)

/-- The row to which the next failure is added: a new window if the last one is over. -/
def current (now : ℕ) (row : Option Row) : Row :=
  let row := row.getD ⟨0, 0, 0⟩
  if width ≤ now - row.windowStart then ⟨0, now, 0⟩ else row

/-- One more failure. -/
def charge (now : ℕ) (row : Option Row) : Row :=
  let row := current width now row
  ⟨row.failures + 1, row.windowStart,
    if limit ≤ row.failures + 1 then now + width else row.lockedUntil⟩

/-- How a row stands to the failures of its window and of the time before. -/
structure Counts.Window (log : List ℕ) (row : Row) : Prop where
  counted : 1 ≤ row.failures ∧ row.failures ≤ limit
  /-- Every failure lies before the end of the window. -/
  ended : ∀ t ∈ log, t < row.windowStart + width
  /-- The window holds no more failures than were counted, its first one at its start. -/
  total : ∀ b, within row.windowStart b log ≤ row.failures
  later : ∀ b, within (row.windowStart + 1) b log ≤ row.failures - 1
  open_ : row.failures < limit → row.lockedUntil = 0
  locked : row.failures = limit → row.windowStart + width ≤ row.lockedUntil ∧
    row.lockedUntil < row.windowStart + 2 * width ∧ ∀ t ∈ log, t + width ≤ row.lockedUntil
  /-- An interval that reaches into the window holds few failures from before it. -/
  before : ∀ a, row.windowStart < a + width → within a row.windowStart log ≤ limit - 2

/-- A row and the failures that it has counted, as of some time. -/
structure Counts (log : List ℕ) (now : ℕ) (row : Option Row) : Prop where
  past : ∀ t ∈ log, t ≤ now
  bound : ∀ a, within a (a + width) log ≤ 2 * limit - 2
  absent : row = none → ∀ t ∈ log, t + width ≤ now
  present : ∀ r, row = some r → r.windowStart ≤ now ∧ Counts.Window width limit log r

end

variable {width limit : ℕ} {log : List ℕ} {now : ℕ}

/-- No failure and no row. -/
theorem Counts.start : Counts width limit [] now none where
  past _ ht := absurd ht List.not_mem_nil
  bound _ := Nat.zero_le _
  absent _ _ ht := absurd ht List.not_mem_nil
  present _ hr := nomatch hr

variable {row : Option Row}

theorem Counts.later (h : Counts width limit log now row) {now' : ℕ} (hnow : now ≤ now') :
    Counts width limit log now' row where
  past t ht := (h.past t ht).trans hnow
  bound := h.bound
  absent hr t ht := (h.absent hr t ht).trans hnow
  present r hr := ⟨(h.present r hr).1.trans hnow, (h.present r hr).2⟩

/-- A row that has been out of use for two widths may be dropped. -/
theorem Counts.forget {row : Row} (h : Counts width limit log now (some row))
    (hold : row.windowStart + 2 * width ≤ now) : Counts width limit log now none where
  past := h.past
  bound := h.bound
  absent _ t ht := by
    have := (h.present row rfl).2.ended t ht
    omega
  present _ hr := nomatch hr

/-- A row that was never locked, or whose lock is over, has either room for a failure or a window
that is over. -/
theorem Counts.Window.over_or_room {row : Row} (h : Counts.Window width limit log row)
    (hunlocked : row.lockedUntil ≤ now) :
    width ≤ now - row.windowStart ∨ row.failures < limit := by
  rcases h.counted.2.lt_or_eq with hroom | hfull
  · exact .inr hroom
  · have := (h.locked hfull).1
    omega

/-- A failure that starts a window. -/
theorem Counts.charge_fresh (h : Counts width limit log now row) (hwidth : 0 < width)
    (hlimit : 2 ≤ limit) (hpast : ∀ t ∈ log, t < now)
    (hbefore : ∀ a, now < a + width → within a now log ≤ limit - 2) :
    Counts width limit (now :: log) now (some ⟨1, now, 0⟩) where
  past := List.forall_mem_cons.mpr ⟨le_rfl, h.past⟩
  bound a := by
    rw [within_cons]
    split_ifs with hin
    · have hsplit := within_le_add a now (a + width) log
      have hrest : within now (a + width) log = 0 :=
        within_eq_zero fun t ht => .inl (hpast t ht)
      have := hbefore a hin.2
      omega
    · exact h.bound a
  absent hr := nomatch hr
  present r hr := by
    obtain rfl := Option.some.inj hr
    refine ⟨le_rfl, ?_⟩
    have hnone : ∀ a b, now ≤ a → within a b log = 0 := fun a b ha =>
      within_eq_zero fun t ht => .inl ((hpast t ht).trans_le ha)
    constructor
    · exact ⟨le_rfl, le_of_lt hlimit⟩
    · have hend : now < now + width := Nat.lt_add_of_pos_right hwidth
      exact List.forall_mem_cons.mpr ⟨hend, fun t ht => (hpast t ht).trans hend⟩
    · intro b
      rw [within_cons, hnone _ b le_rfl]
      split_ifs <;> simp
    · intro b
      have hnot : ¬ (now + 1 ≤ now ∧ now < b) := by omega
      rw [within_cons, hnone _ b (Nat.le_succ now), if_neg hnot]
      exact Nat.zero_le _
    · exact fun _ => rfl
    · intro hfull
      change 1 = limit at hfull
      omega
    · intro a ha
      rw [within_cons, if_neg (by simp)]
      exact hbefore a ha

/-- One more failure in a window that has room for it. -/
theorem Counts.charge_room {row : Row} (h : Counts width limit log now (some row))
    (hlimit : 2 ≤ limit) (hwindow : now < row.windowStart + width) (hroom : row.failures < limit) :
    Counts width limit (now :: log) now (some ⟨row.failures + 1, row.windowStart,
      if limit ≤ row.failures + 1 then now + width else row.lockedUntil⟩) where
  past := List.forall_mem_cons.mpr ⟨le_rfl, h.past⟩
  bound a := by
    obtain ⟨hstart, hw⟩ := h.present row rfl
    rw [within_cons]
    split_ifs with hin
    · -- what is counted in the interval lies in this window, or before it
      have hsplit := within_le_add a row.windowStart (a + width) log
      have hmine := hw.total (a + width)
      have := hw.before a (hstart.trans_lt hin.2)
      omega
    · exact h.bound a
  absent hr := nomatch hr
  present r hr := by
    obtain rfl := Option.some.inj hr
    obtain ⟨hstart, hw⟩ := h.present row rfl
    have hcounted := hw.counted
    refine ⟨hstart, ?_⟩
    constructor
    · exact ⟨Nat.le_add_left 1 _, hroom⟩
    · exact List.forall_mem_cons.mpr ⟨hwindow, hw.ended⟩
    · intro b
      rw [within_cons]
      have := hw.total b
      split_ifs <;> simp only <;> omega
    · intro b
      rw [within_cons]
      have := hw.later b
      split_ifs <;> simp only <;> omega
    · intro hmore
      change row.failures + 1 < limit at hmore
      change (if limit ≤ row.failures + 1 then now + width else row.lockedUntil) = 0
      rw [if_neg (by omega)]
      exact hw.open_ (by omega)
    · intro hfull
      change row.failures + 1 = limit at hfull
      simp only [hfull, le_refl, if_true]
      refine ⟨by omega, by omega, List.forall_mem_cons.mpr ⟨le_rfl, fun t ht => ?_⟩⟩
      exact Nat.add_le_add_right (h.past t ht) width
    · intro a ha
      have hnot : ¬ (a ≤ now ∧ now < row.windowStart) := by omega
      rw [within_cons, if_neg hnot]
      exact hw.before a ha

/-- **A failure of an unlocked row is counted.** The clock has to be past the width of a window: the
first window of a missing row would otherwise be taken to have started at zero. -/
theorem Counts.charge (h : Counts width limit log now row) (hwidth : 0 < width) (hlimit : 2 ≤ limit)
    (hclock : width ≤ now) (hunlocked : ∀ r, row = some r → r.lockedUntil ≤ now) :
    Counts width limit (now :: log) now (some (charge width limit now row)) := by
  have hone : ¬ limit ≤ 1 := by omega
  cases row with
  | none =>
    have hcharge : Budget.charge width limit now none = ⟨1, now, 0⟩ := by
      simp [Budget.charge, current, hclock, hone]
    have hold := h.absent rfl
    rw [hcharge]
    refine h.charge_fresh hwidth hlimit (fun t ht => ?_) fun a ha => ?_
    · have := hold t ht
      omega
    · rw [within_eq_zero fun t ht => ?_]
      · exact Nat.zero_le _
      · have := hold t ht
        omega
  | some row =>
    obtain ⟨hstart, hw⟩ := h.present row rfl
    have hfree := hunlocked row rfl
    by_cases hover : width ≤ now - row.windowStart
    · have hcharge : Budget.charge width limit now (some row) = ⟨1, now, 0⟩ := by
        simp [Budget.charge, current, hover, hone]
      rw [hcharge]
      refine h.charge_fresh hwidth hlimit (fun t ht => ?_) fun a ha => ?_
      · have := hw.ended t ht
        omega
      · -- the interval starts after the first failure of the old window, and after its lock
        rcases hw.counted.2.lt_or_eq with hroom | hfull
        · have hlater := hw.later now
          have := within_mono (show row.windowStart + 1 ≤ a by omega) (le_refl now) log
          omega
        · rw [within_eq_zero fun t ht => ?_]
          · exact Nat.zero_le _
          · have := (hw.locked hfull).2.2 t ht
            omega
    · have hroom := (hw.over_or_room hfree).resolve_left hover
      have hcharge : Budget.charge width limit now (some row) = ⟨row.failures + 1, row.windowStart,
          if limit ≤ row.failures + 1 then now + width else row.lockedUntil⟩ := by
        simp [Budget.charge, current, hover]
      rw [hcharge]
      exact h.charge_room hlimit (by omega) hroom

end Budget
