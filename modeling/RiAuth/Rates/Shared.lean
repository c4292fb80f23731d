import RiAuth.Lib.Checks
import RiAuth.Lib.Reindex
import RiAuth.Rates.Table
import RiAuth.Store.Times

/-!
# Request counters that nodes share

The windows are records of `http_rates`, with a count of them and an index by the time at which they
expire. A full table reclaims up to sixty-four expired windows, then drops the one that expires
first.

* `Shared.hit`: one request;
* `Shared.Consistent`: the count and the index agree with the records;
* `Shared.Follows.hit`: **while the unexpired windows fit, the shared counters count as the ledger
  does**, whatever expired rows are left.
-/

namespace RiAuth.Rates

open RiAuth.Store

/-- `u64::saturating_add`. -/
def saturatingAdd (a b : ℕ) : ℕ := min (a + b) u64Max

/-- The records of `http_rates`, their rows in `index_expiry_http_rates`, and their number in
`index_counts`. -/
structure Shared where
  rates : OrdMap Text Count
  expiry : OrdMap Text Text
  count : ℕ

namespace Shared

variable (digest : Text → Text)

/-- How one write changes a counter. -/
def counterChange (value : ℕ) (before after : Bool) : ℕ :=
  if !before && after then saturatingAdd value 1
  else if before && !after then value - 1
  else value

/-- The row of a window in the index. -/
def expiryKey (id : Text) (w : Count) : Text := indexKey digest (saturatingAdd w.1 60) id

/-- A write of a window, or its removal, with what `update_indexes` does for a counted bucket. -/
def write (s : Shared) (id : Text) (after : Option Count) : Shared where
  rates := s.rates.set id after
  expiry := Reindex.update (fun id w => some (expiryKey digest id w)) s.rates s.expiry id after
  count := counterChange s.count (s.rates.get? id).isSome after.isSome

/-- A row is written. -/
def put (s : Shared) (id : Text) (w : Count) : Shared := s.write digest id (some w)

/-- A row is removed. -/
def delete (s : Shared) (id : Text) : Shared := s.write digest id none

/-- The loop of `reclaim_expired_limits` over the rows that it has read. -/
def reclaimLoop (now : ℕ) : List (Text × Text) → Shared → Result Shared
  | [], s => .ok s
  | (key, id) :: rows, s => do
    let expiry ← Checks.okOr (keyTime key) Error.internal
    if now < expiry then .ok s else reclaimLoop now rows (s.delete digest id)

/-- Expired rows make room. -/
def reclaimExpiredLimits (s : Shared) (now : ℕ) : Result Shared :=
  reclaimLoop digest now (s.expiry.entries.take 64) s

/-- Deletes the record whose expiry comes first. -/
def evictOldestLimit (s : Shared) : Shared :=
  s.expiry.entries.head?.elim s fun row => s.delete digest row.2

/-- Room for a window that is not there yet. -/
def makeRoom (s : Shared) (previous : Option Count) (capacity now : ℕ) : Result Shared :=
  if previous = none ∧ capacity ≤ s.count then do
    let s ← s.reclaimExpiredLimits digest now
    .ok (if capacity ≤ s.count then s.evictOldestLimit digest else s)
  else .ok s

/-- `shared_rate_limit_within`, for the record `id`. -/
def hit (s : Shared) (id : Text) (limit : UInt32) (capacity now : ℕ) : Result (Bool × Shared) := do
  let previous := s.rates.get? id
  let w := (previous.filter fun w => now < saturatingAdd w.1 60).getD (now, 0)
  let s ← s.makeRoom digest previous capacity now
  .ok (limit.toNat ≤ w.2, s.put digest id (w.1, min (w.2 + 1) u32Max))

/-! ## The indexes -/

/-- The index has one row for every window, and the count is their number. -/
structure Consistent (s : Shared) : Prop where
  expiry : Reindex.Indexes (fun id w => some (expiryKey digest id w)) s.rates s.expiry
  count : s.count = s.rates.entries.length
  fits : s.count ≤ u64Max

variable {digest} {s : Shared} {id : Text} {w : Count} {now : ℕ}

theorem counterChange_le {value : ℕ} (h : value ≤ u64Max) (before after : Bool) :
    counterChange value before after ≤ u64Max := by
  rw [counterChange, saturatingAdd]
  split_ifs <;> omega

/-- The count follows the records, if there is room for another one. -/
theorem Consistent.counterChange_eq (h : s.Consistent digest) (after : Option Count)
    (hroom : after ≠ none → s.rates.get? id = none → s.count < u64Max) :
    counterChange s.count (s.rates.get? id).isSome after.isSome =
      (s.rates.set id after).entries.length := by
  have hcount := h.count
  cases hid : s.rates.get? id with
  | none =>
    cases after with
    | none => simpa [counterChange, OrdMap.set, OrdMap.erase_of_notMem hid] using hcount
    | some w =>
      have hlt := hroom (Option.some_ne_none w) hid
      simp only [counterChange, saturatingAdd, OrdMap.set, OrdMap.length_insert,
        OrdMap.erase_of_notMem hid, Option.isSome_none, Option.isSome_some, Bool.not_false,
        Bool.and_true, if_true]
      omega
  | some v =>
    have hlen := OrdMap.length_erase_of_mem hid
    cases after with
    | none =>
      simp only [counterChange, OrdMap.set, Option.isSome_none, Option.isSome_some, Bool.not_true,
        Bool.not_false, Bool.and_true, Bool.and_false, Bool.false_eq_true, if_true, if_false]
      omega
    | some w => simpa [counterChange, OrdMap.set, OrdMap.length_insert, hlen] using hcount

theorem Consistent.write (hdigest : Function.Injective digest) (h : s.Consistent digest)
    (after : Option Count) (hroom : after ≠ none → s.rates.get? id = none → s.count < u64Max) :
    (s.write digest id after).Consistent digest where
  expiry := h.expiry.set (fun hv hw => ((indexKey_inj hdigest).mp
    (Option.some.inj (hv.trans hw.symm))).2) id after
  count := h.counterChange_eq after hroom
  fits := counterChange_le h.fits _ _

/-! ## Expired windows -/

theorem lt_saturatingAdd_iff (hnow : now < u64Max) {start : ℕ} :
    now < saturatingAdd start 60 ↔ unexpired now start = true := by
  rw [unexpired_iff, saturatingAdd]
  omega

/-- Expired windows have gone, and nothing else has changed. -/
structure Reclaimed (digest : Text → Text) (now : ℕ) (s s' : Shared) : Prop where
  consistent : s'.Consistent digest
  kept : ∀ id w, unexpired now w.1 = true → s.rates.get? id = some w → s'.rates.get? id = some w
  only : ∀ id w, s'.rates.get? id = some w → s.rates.get? id = some w

theorem Reclaimed.refl (h : s.Consistent digest) : Reclaimed digest now s s :=
  ⟨h, fun _ _ _ hw => hw, fun _ _ hw => hw⟩

theorem Reclaimed.trans {s₁ s₂ s₃ : Shared} (h : Reclaimed digest now s₁ s₂)
    (h' : Reclaimed digest now s₂ s₃) : Reclaimed digest now s₁ s₃ :=
  ⟨h'.consistent, fun id w hlive hw => h'.kept id w hlive (h.kept id w hlive hw),
    fun id w hw => h.only id w (h'.only id w hw)⟩

theorem delete_rates : (s.delete digest id).rates = s.rates.erase id := rfl

/-- Deleting an expired window. -/
theorem Reclaimed.delete (hdigest : Function.Injective digest) (h : s.Consistent digest)
    (hid : ∀ w, s.rates.get? id = some w → unexpired now w.1 = false) :
    Reclaimed digest now s (s.delete digest id) where
  consistent := h.write hdigest none fun hnone => absurd rfl hnone
  kept id' w hlive hw := by
    have hne : id' ≠ id := by
      rintro rfl
      exact absurd hlive (by simp [hid w hw])
    rw [delete_rates, OrdMap.get?_erase, if_neg hne, hw]
  only id' w hw := by
    rw [delete_rates, OrdMap.get?_erase] at hw
    split_ifs at hw
    exact hw

/-- A row of the index tells when its window expires. -/
theorem Consistent.row (h : s.Consistent digest) (hnow : now < u64Max) {key : Text}
    (hrow : s.expiry.get? key = some id) :
    ∃ w, s.rates.get? id = some w ∧ keyTime key = some (saturatingAdd w.1 60) ∧
      (saturatingAdd w.1 60 ≤ now ↔ unexpired now w.1 = false) := by
  obtain ⟨w, hw, hkey⟩ := (h.expiry key id).mp hrow
  cases Option.some.inj hkey
  refine ⟨w, hw, keyTime_indexKey (Nat.min_le_right _ _), ?_⟩
  rw [← Bool.not_eq_true, ← lt_saturatingAdd_iff hnow, not_lt]

/-- The loop reclaims rows of windows that have expired. -/
theorem reclaimLoop_spec (hdigest : Function.Injective digest) {s₀ : Shared}
    (h₀ : s₀.Consistent digest) (hnow : now < u64Max) (rows : List (Text × Text))
    (hrows : ∀ row ∈ rows, s₀.expiry.get? row.1 = some row.2) (s : Shared)
    (h : Reclaimed digest now s₀ s) :
    ∃ s', reclaimLoop digest now rows s = .ok s' ∧ Reclaimed digest now s₀ s' := by
  induction rows generalizing s with
  | nil => exact ⟨s, rfl, h⟩
  | cons row rows ih =>
    obtain ⟨key, id⟩ := row
    obtain ⟨w, hw, htime, hexpired⟩ := h₀.row hnow (hrows (key, id) List.mem_cons_self)
    rw [reclaimLoop, htime]
    change ∃ s', (if now < saturatingAdd w.1 60 then _ else _) = _ ∧ _
    split_ifs with hlt
    · exact ⟨s, rfl, h⟩
    · refine ih (fun row hrow => hrows row (List.mem_cons_of_mem _ hrow)) _
        (h.trans (.delete hdigest h.consistent fun v hv => ?_))
      have hv₀ := h.only id v hv
      rw [hw, Option.some.injEq] at hv₀
      exact hv₀ ▸ hexpired.mp (not_lt.mp hlt)

theorem reclaimExpiredLimits_spec (hdigest : Function.Injective digest) (h : s.Consistent digest)
    (hnow : now < u64Max) :
    ∃ s', s.reclaimExpiredLimits digest now = .ok s' ∧ Reclaimed digest now s s' :=
  reclaimLoop_spec hdigest h hnow _
    (fun _ hrow => OrdMap.mem_entries_iff.mp (List.mem_of_mem_take hrow)) s (.refl h)

theorem saturatingAdd_le (a b : ℕ) : saturatingAdd a b ≤ u64Max := Nat.min_le_right _ _

/-- The first row of the index is that of a window that expires first. -/
theorem Consistent.first_row (h : s.Consistent digest) {row : Text × Text}
    {rest : List (Text × Text)} (hentries : s.expiry.entries = row :: rest) :
    ∃ v, s.rates.get? row.2 = some v ∧ ∀ id w, s.rates.get? id = some w →
      saturatingAdd v.1 60 ≤ saturatingAdd w.1 60 := by
  have hrow : s.expiry.get? row.1 = some row.2 :=
    OrdMap.mem_entries_iff.mp (by rw [hentries]; exact List.mem_cons_self)
  obtain ⟨v, hv, hkey⟩ := (h.expiry _ _).mp hrow
  refine ⟨v, hv, fun id w hw => not_lt.mp fun hlt => ?_⟩
  have hmem : (expiryKey digest id w, id) ∈ s.expiry.entries :=
    OrdMap.mem_entries_iff.mpr ((h.expiry _ id).mpr ⟨w, hw, rfl⟩)
  have hbefore : expiryKey digest id w < row.1 := by
    rw [← Option.some.inj hkey, expiryKey, expiryKey,
      indexKey_lt_iff (saturatingAdd_le ..) (saturatingAdd_le ..)]
    exact .inl hlt
  have hsorted := s.expiry.sorted
  rw [hentries] at hsorted hmem
  rcases List.mem_cons.mp hmem with hhead | htail
  · exact lt_irrefl _ (hhead ▸ hbefore)
  · exact lt_asymm hbefore ((List.pairwise_cons.mp hsorted).1 _ htail)

/-- If a window has expired, the one that is evicted has. -/
theorem evictOldestLimit_spec (hdigest : Function.Injective digest) (h : s.Consistent digest)
    (hnow : now < u64Max) (hid : s.rates.get? id = some w) (hw : unexpired now w.1 = false) :
    Reclaimed digest now s (s.evictOldestLimit digest) ∧
      (s.evictOldestLimit digest).count + 1 = s.count := by
  have hexpired : ∀ v : Count, unexpired now v.1 = false ↔ saturatingAdd v.1 60 ≤ now := fun v => by
    rw [← Bool.not_eq_true, ← lt_saturatingAdd_iff hnow, not_lt]
  cases hentries : s.expiry.entries with
  | nil =>
    have hmem := OrdMap.mem_entries_iff.mpr ((h.expiry _ id).mpr ⟨w, hid, rfl⟩)
    exact absurd hmem (by simp [hentries])
  | cons row rest =>
    obtain ⟨v, hv, hfirst⟩ := h.first_row hentries
    have hevict : s.evictOldestLimit digest = s.delete digest row.2 := by
      rw [evictOldestLimit, hentries]
      rfl
    have hdeleted : Reclaimed digest now s (s.delete digest row.2) :=
      .delete hdigest h fun u hu => by
        rw [hv, Option.some.injEq] at hu
        rw [← hu, hexpired]
        exact (hfirst id w hid).trans ((hexpired w).mp hw)
    refine ⟨hevict ▸ hdeleted, ?_⟩
    rw [hevict, hdeleted.consistent.count, h.count, delete_rates, OrdMap.length_erase_of_mem hv]

/-! ## One request -/

variable {κ : Type} {name : κ → Text} {l : Ledger κ} {prev c : ℕ} {key : κ}

/-- The unexpired windows are those of the ledger. Rows that have expired may still be there. -/
structure Follows (name : κ → Text) (s : Shared) (l : Ledger κ) (now : ℕ) : Prop where
  windows : ∀ k, (s.rates.get? (name k)).filter (fun w => unexpired now w.1) = l.live now k
  named : ∀ id w, s.rates.get? id = some w → unexpired now w.1 = true → id ∈ Set.range name

theorem Follows.later (h : s.Follows name l prev) (hle : prev ≤ now) : s.Follows name l now where
  windows k := by
    have hrates : (s.rates.get? (name k)).filter (fun w => unexpired now w.1) =
        ((s.rates.get? (name k)).filter fun w => unexpired prev w.1).filter
          (fun w => unexpired now w.1) :=
      Ledger.live_later (l := fun k => s.rates.get? (name k)) hle
    rw [hrates, h.windows k, Ledger.live_later hle]
  named id w hw hlive := h.named id w hw (unexpired_of_le hle hlive)

theorem Reclaimed.follows {s' : Shared} (hr : Reclaimed digest now s s')
    (h : s.Follows name l now) : s'.Follows name l now where
  windows k := by
    rw [← h.windows k]
    ext w
    rw [Option.filter_eq_some_iff, Option.filter_eq_some_iff]
    exact ⟨fun ⟨hw, hlive⟩ => ⟨hr.only _ w hw, hlive⟩,
      fun ⟨hw, hlive⟩ => ⟨hr.kept _ w hlive hw, hlive⟩⟩
  named id w hw hlive := h.named id w (hr.only id w hw) hlive

variable [DecidableEq κ]

/-- A full table has an expired window, while the unexpired ones and a new one fit. -/
theorem Follows.exists_expired (h : s.Follows name l now) (hfit : (l.hit key now).AtMost c now)
    (hkey : l.live now key = none) (hfull : c ≤ s.rates.entries.length) :
    ∃ id w, s.rates.get? id = some w ∧ unexpired now w.1 = false := by
  by_contra hnone
  push Not at hnone
  have hget : ∀ id ∈ s.rates.entries.map Prod.fst, ∃ w, s.rates.get? id = some w ∧
      unexpired now w.1 = true := fun id hid => by
    obtain ⟨⟨id, w⟩, hmem, rfl⟩ := List.mem_map.mp hid
    have hw := OrdMap.mem_entries_iff.mp hmem
    exact ⟨w, hw, Bool.of_not_eq_false (hnone id w hw)⟩
  have hrange : s.rates.entries.map Prod.fst ∈ Set.range (List.map name) := by
    rw [Set.range_list_map]
    intro id hid
    obtain ⟨w, hw, hlive⟩ := hget id hid
    exact h.named id w hw hlive
  obtain ⟨ks, hks⟩ := hrange
  have hnodup : ks.Nodup := .of_map name (hks ▸ s.rates.nodup_names)
  have hlt := hfit.room hkey hnodup fun k hk => by
    obtain ⟨w, hw, hlive⟩ := hget (name k) (hks ▸ List.mem_map_of_mem hk)
    rw [← h.windows k, hw, Option.filter_some, if_pos hlive]
    exact Option.some_ne_none w
  have hlen := congrArg List.length hks
  simp only [List.length_map] at hlen
  omega

theorem makeRoom_spec (hdigest : Function.Injective digest) (hs : s.Consistent digest)
    (h : s.Follows name l now) (hnow : now < u64Max) (hc : c ≤ u64Max)
    (hfit : (l.hit key now).AtMost c now) :
    ∃ s', s.makeRoom digest (s.rates.get? (name key)) c now = .ok s' ∧ Reclaimed digest now s s' ∧
      (s'.rates.get? (name key) = none → s'.count < u64Max) := by
  rw [makeRoom]
  split_ifs with hfull
  · obtain ⟨s₁, hs₁, hr⟩ := reclaimExpiredLimits_spec hdigest hs hnow
    rw [hs₁]
    refine ⟨_, rfl, ?_⟩
    split_ifs with hstill
    · have hlive : l.live now key = none := by
        rw [← h.windows key, hfull.1, Option.filter_none]
      rw [hr.consistent.count] at hstill
      obtain ⟨id, w, hw, hexpired⟩ := (hr.follows h).exists_expired hfit hlive hstill
      obtain ⟨hevicted, hcount⟩ := evictOldestLimit_spec hdigest hr.consistent hnow hw hexpired
      have hfits := hr.consistent.fits
      exact ⟨hr.trans hevicted, fun _ => by omega⟩
    · exact ⟨hr, fun _ => by omega⟩
  · refine ⟨s, rfl, .refl hs, fun hnone => ?_⟩
    have hlt := not_le.mp fun hle => hfull ⟨hnone, hle⟩
    omega

theorem Follows.put (hname : Function.Injective name) (h : s.Follows name l now) :
    Follows name
      (s.put digest (name key) ((l.current now key).1, min ((l.current now key).2 + 1) u32Max))
      (l.hit key now) now where
  windows k := by
    simp only [Shared.put, write, OrdMap.set, OrdMap.get?_insert, hname.eq_iff]
    by_cases hk : k = key
    · rw [if_pos hk, hk, Ledger.live_hit_self, Option.filter_some, if_pos Ledger.unexpired_current]
    · rw [if_neg hk, Ledger.live_hit_of_ne hk, h.windows k]
  named id w hw hlive := by
    rcases OrdMap.get?_insert_cases hw with ⟨rfl, -⟩ | ⟨-, hw⟩
    · exact ⟨key, rfl⟩
    · exact h.named id w hw hlive

/-- **While the unexpired windows fit, the shared counters count as the ledger does.** -/
theorem Follows.hit (hdigest : Function.Injective digest) (hname : Function.Injective name)
    (h : s.Follows name l prev) (hs : s.Consistent digest) (hle : prev ≤ now) (hnow : now < u64Max)
    (hc : c ≤ u64Max) (hfit : (l.hit key now).AtMost c now) (limit : UInt32) :
    ∃ s', s.hit digest (name key) limit c now = .ok (limit.toNat ≤ (l.current now key).2, s') ∧
      s'.Consistent digest ∧ s'.Follows name (l.hit key now) now := by
  have hnow' := h.later hle
  have hcurrent : ((s.rates.get? (name key)).filter fun w => now < saturatingAdd w.1 60).getD
      (now, 0) = l.current now key := by
    simp only [lt_saturatingAdd_iff hnow, Bool.decide_eq_true]
    rw [hnow'.windows key, Ledger.current]
  obtain ⟨s₁, hs₁, hr, hlt⟩ := makeRoom_spec hdigest hs hnow' hnow hc hfit
  refine ⟨_, ?_, hr.consistent.write hdigest _ fun _ => hlt, (hr.follows hnow').put hname⟩
  simp only [Shared.hit, hs₁, hcurrent]
  rfl

end Shared

end RiAuth.Rates
