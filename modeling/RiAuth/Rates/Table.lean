import RiAuth.Basic
import RiAuth.Lib.OrdMap

/-!
# Request counters of a node

One fixed window of sixty seconds per address and category. Windows are kept in the order in which
they started; a full table drops its oldest window instead of refusing clients it has not seen.

* `RateTable.hit`: one request;
* `RateTable.Valid`: **the map and the queue hold the same windows, oldest first**;
* `RateTable.Valid.hit_drops`: which windows a request drops;
* `Ledger`: what the table is for, a count per key and window without any bound on the windows;
* `RateTable.Follows.hit`: while the table has room, it counts as the ledger does.
-/

namespace RiAuth.Rates

/-- `u32::MAX`. -/
def u32Max : ℕ := 4294967295

/-- `WINDOW`, in seconds. -/
def window : ℕ := 60

/-- A window is its start and the requests counted in it. -/
abbrev Count := ℕ × ℕ

/-- A window that started at `start` still counts. -/
def unexpired (now start : ℕ) : Bool := now < start + window

theorem unexpired_iff {now start : ℕ} : unexpired now start = true ↔ now < start + 60 :=
  decide_eq_true_iff

theorem unexpired_of_le {now later start : ℕ} (hle : now ≤ later)
    (h : unexpired later start = true) : unexpired now start = true := by
  rw [unexpired_iff] at h ⊢
  omega

/-- The counts in the memory of a server. -/
structure RateTable (κ : Type) [LinearOrder κ] where
  windows : OrdMap κ Count
  /-- One entry per window in `windows`, oldest first. -/
  order : List (ℕ × κ)
  capacity : ℕ

namespace RateTable

variable {κ : Type} [LinearOrder κ]

/-- An empty table with room for one at least. -/
def new (capacity : ℕ) : RateTable κ := ⟨.empty, [], max capacity 1⟩

/-- The oldest window goes. -/
def evictOldest (t : RateTable κ) : RateTable κ :=
  match t.order with
  | [] => t
  | (_, key) :: order => { t with windows := t.windows.erase key, order }

/-- The loop that drops expired windows from the front, for at most `n` rounds. -/
def expireLoop (now : ℕ) : ℕ → RateTable κ → RateTable κ
  | 0, t => t
  | n + 1, t =>
    if t.order.head?.any (fun w => !unexpired now w.1) then expireLoop now n t.evictOldest else t

/-- Every round shortens the queue, so its length bounds the rounds. -/
def expire (t : RateTable κ) (now : ℕ) : RateTable κ := expireLoop now t.order.length t

/-- The windows at the time of a request, with one for its key. -/
def enter (t : RateTable κ) (key : κ) (now : ℕ) : RateTable κ :=
  let t := t.expire now
  if t.windows.get? key = none then
    let t := if t.capacity ≤ t.windows.entries.length then t.evictOldest else t
    { t with windows := t.windows.insert key (now, 0), order := t.order ++ [(now, key)] }
  else t

/-- Counts one request. True when `key` is over `limit` in its current window. `enter` has put the
window in (`enter_get?`), so the default is never used. -/
def hit (t : RateTable κ) (key : κ) (limit : UInt32) (now : ℕ) : Bool × RateTable κ :=
  let t := t.enter key now
  let w := (t.windows.get? key).getD (now, 0)
  let count := min (w.2 + 1) u32Max
  (limit.toNat < count, { t with windows := t.windows.insert key (w.1, count) })

/-! ## The map and the queue -/

/-- **The map and the queue hold the same windows, once each and oldest first, and no more than the
capacity.** -/
structure Valid (t : RateTable κ) (now : ℕ) : Prop where
  nodup : (t.order.map Prod.snd).Nodup
  windows : ∀ k s, (s, k) ∈ t.order ↔ ∃ n, t.windows.get? k = some (s, n)
  oldest : t.order.Pairwise fun a b => a.1 ≤ b.1
  room : t.order.length ≤ t.capacity
  past : ∀ w ∈ t.order, w.1 ≤ now
  capacity : 1 ≤ t.capacity

/-- The windows that still count, oldest first. -/
def live (t : RateTable κ) (now : ℕ) : List (ℕ × κ) := t.order.filter fun w => unexpired now w.1

variable {t : RateTable κ} {now prev : ℕ} {key : κ} {limit : UInt32}

theorem new_valid (c now : ℕ) : (new c : RateTable κ).Valid now :=
  ⟨List.nodup_nil, fun _ _ => by simp [new], List.Pairwise.nil, Nat.zero_le _,
    fun _ h => absurd h List.not_mem_nil, Nat.le_max_right c 1⟩

theorem Valid.mono (h : t.Valid prev) (hle : prev ≤ now) : t.Valid now :=
  { h with past := fun w hw => (h.past w hw).trans hle }

theorem Valid.mem_keys (h : t.Valid now) {k : κ} :
    k ∈ t.order.map Prod.snd ↔ t.windows.get? k ≠ none := by
  rw [List.mem_map, Option.ne_none_iff_exists']
  constructor
  · rintro ⟨⟨s, k⟩, hmem, rfl⟩
    obtain ⟨n, hn⟩ := (h.windows k s).mp hmem
    exact ⟨_, hn⟩
  · rintro ⟨⟨s, n⟩, hn⟩
    exact ⟨(s, k), (h.windows k s).mpr ⟨n, hn⟩, rfl⟩

/-- The map is as large as the queue. -/
theorem Valid.length_windows (h : t.Valid now) : t.windows.entries.length = t.order.length := by
  have hperm : (t.windows.entries.map Prod.fst).Perm (t.order.map Prod.snd) := by
    refine (List.perm_ext_iff_of_nodup t.windows.nodup_names h.nodup).mpr fun k => ?_
    rw [h.mem_keys, Option.ne_none_iff_exists', List.mem_map]
    constructor
    · rintro ⟨⟨k, v⟩, hmem, rfl⟩
      exact ⟨v, OrdMap.mem_entries_iff.mp hmem⟩
    · rintro ⟨v, hv⟩
      exact ⟨(k, v), OrdMap.mem_entries_iff.mpr hv, rfl⟩
  simpa using hperm.length_eq

/-- Dropping the oldest window. -/
theorem Valid.evictOldest (h : t.Valid now) : t.evictOldest.Valid now := by
  unfold RateTable.evictOldest
  split
  · exact h
  · rename_i s key order horder
    obtain ⟨hnodup, hwindows, holdest, hroom, hpast, hcap⟩ := h
    rw [horder] at hnodup hwindows holdest hroom hpast
    simp only [List.map_cons, List.nodup_cons] at hnodup
    refine ⟨hnodup.2, fun k s' => ?_, (List.pairwise_cons.mp holdest).2,
      (Nat.le_succ _).trans hroom, fun w hw => hpast w (List.mem_cons_of_mem _ hw), hcap⟩
    rw [OrdMap.get?_erase]
    split_ifs with hk
    · subst hk
      have hnot : (s', k) ∉ order := fun hmem => hnodup.1 (List.mem_map_of_mem hmem)
      simp [hnot]
    · rw [← hwindows k s', List.mem_cons]
      have hne : (s', k) ≠ (s, key) := fun heq => hk (congrArg Prod.snd heq)
      simp [hne]

/-! ## Expired windows -/

theorem Valid.unexpired_of_head {w : ℕ × κ} {order : List (ℕ × κ)} (h : t.Valid now)
    (horder : t.order = w :: order) (hw : unexpired now w.1 = true) :
    ∀ v ∈ t.order, unexpired now v.1 = true := by
  intro v hv
  have holdest := h.oldest
  rw [horder] at holdest hv
  rcases List.mem_cons.mp hv with rfl | hv
  · exact hw
  · have hle := (List.pairwise_cons.mp holdest).1 v hv
    rw [unexpired_iff] at hw ⊢
    omega

/-- What the loop leaves of the table. -/
structure Expired (now : ℕ) (t u : RateTable κ) : Prop where
  valid : u.Valid now
  order : u.order = t.live now
  capacity : u.capacity = t.capacity
  windows : ∀ k w, u.windows.get? k = some w ↔
    t.windows.get? k = some w ∧ unexpired now w.1 = true

theorem Valid.expired_self (h : t.Valid now) (hall : ∀ w ∈ t.order, unexpired now w.1 = true) :
    Expired now t t where
  valid := h
  order := (List.filter_eq_self.mpr hall).symm
  capacity := rfl
  windows k w := by
    refine ⟨fun hw => ⟨hw, ?_⟩, And.left⟩
    exact hall (w.1, k) ((h.windows k w.1).mpr ⟨w.2, hw⟩)

theorem Valid.expired_cons {w : ℕ × κ} {order : List (ℕ × κ)} {u : RateTable κ} (h : t.Valid now)
    (horder : t.order = w :: order) (hw : unexpired now w.1 = false)
    (hu : Expired now t.evictOldest u) : Expired now t u := by
  have hevict : t.evictOldest = { t with windows := t.windows.erase w.2, order := order } := by
    rw [RateTable.evictOldest, horder]
  rw [hevict] at hu
  refine ⟨hu.valid, ?_, hu.capacity, fun k v => ?_⟩
  · rw [hu.order, live, live, horder, List.filter_cons_of_neg (by simp [hw])]
  · rw [hu.windows, OrdMap.get?_erase]
    split_ifs with hk
    · -- the window of the dropped key is the expired one
      subst hk
      simp only [false_and, false_iff, not_and]
      intro hv hlive
      obtain ⟨n, hn⟩ := (h.windows w.2 w.1).mp (by rw [horder]; exact List.mem_cons_self)
      rw [hv, Option.some.injEq] at hn
      subst hn
      exact absurd hlive (by simp [hw])
    · rfl

theorem expireLoop_spec (n : ℕ) (t : RateTable κ) (h : t.Valid now) (hn : t.order.length ≤ n) :
    Expired now t (expireLoop now n t) := by
  induction n generalizing t with
  | zero =>
    have hnil : t.order = [] := List.length_eq_zero_iff.mp (Nat.le_zero.mp hn)
    exact h.expired_self fun w hw => absurd hw (by simp [hnil])
  | succ n ih =>
    rw [expireLoop]
    cases horder : t.order with
    | nil =>
      exact h.expired_self fun w hw => absurd hw (by simp [horder])
    | cons w order =>
      cases hw : unexpired now w.1 with
      | true =>
        rw [if_neg (by simp [hw])]
        exact h.expired_self (h.unexpired_of_head horder hw)
      | false =>
        rw [if_pos (by simp [hw])]
        refine h.expired_cons horder hw (ih _ h.evictOldest ?_)
        rw [horder, List.length_cons] at hn
        simp only [RateTable.evictOldest, horder]
        omega

theorem Valid.expire (h : t.Valid prev) (hle : prev ≤ now) : Expired now t (t.expire now) :=
  expireLoop_spec _ t (h.mono hle) le_rfl

/-! ## One request -/

/-- A window for `key` that starts now. -/
def push (t : RateTable κ) (key : κ) (now : ℕ) : RateTable κ :=
  { t with windows := t.windows.insert key (now, 0), order := t.order ++ [(now, key)] }

theorem Valid.push (h : t.Valid now) (hkey : t.windows.get? key = none)
    (hroom : t.order.length < t.capacity) :
    (t.push key now).Valid now := by
  have hnot : ∀ s, (s, key) ∉ t.order := fun s hmem => by
    obtain ⟨n, hn⟩ := (h.windows key s).mp hmem
    exact absurd hn (by simp [hkey])
  refine ⟨?_, fun k s => ?_, ?_, ?_, fun w hw => ?_, h.capacity⟩
  · have hnew : key ∉ t.order.map Prod.snd := fun hmem => (h.mem_keys.mp hmem) hkey
    simp only [RateTable.push, List.map_append, List.map_cons, List.map_nil]
    exact List.nodup_append.mpr ⟨h.nodup, List.nodup_singleton _, fun a ha b hb hab =>
      hnew (by rwa [← List.mem_singleton.mp hb, ← hab])⟩
  · simp only [RateTable.push, List.mem_append, List.mem_singleton, Prod.mk.injEq,
      OrdMap.get?_insert]
    split_ifs with hk
    · subst hk
      simp [hnot s, eq_comm]
    · simp [hk, h.windows k s]
  · refine List.pairwise_append.mpr ⟨h.oldest, List.pairwise_singleton _ _, fun a ha b hb => ?_⟩
    rw [List.mem_singleton.mp hb]
    exact h.past a ha
  · simp only [RateTable.push, List.length_append, List.length_singleton]
    omega
  · rcases List.mem_append.mp hw with hw | hw
    · exact h.past w hw
    · rw [List.mem_singleton.mp hw]

/-- What a request does to the windows, before it is counted. -/
inductive Entered (key : κ) (now : ℕ) (u : RateTable κ) : RateTable κ → Prop where
  | counting {w : Count} (hkey : u.windows.get? key = some w) : Entered key now u u
  | opened (hkey : u.windows.get? key = none) (hroom : u.order.length < u.capacity) :
    Entered key now u (u.push key now)
  | evicted {w : ℕ × κ} {rest : List (ℕ × κ)} (hkey : u.windows.get? key = none)
    (hfull : u.order.length = u.capacity) (horder : u.order = w :: rest) :
    Entered key now u (u.evictOldest.push key now)

theorem Valid.enter (h : t.Valid prev) (hle : prev ≤ now) :
    Entered key now (t.expire now) (t.enter key now) := by
  have hu := h.expire hle
  rw [RateTable.enter]
  generalize t.expire now = u at hu ⊢
  cases hkey : u.windows.get? key with
  | some w =>
    rw [if_neg nofun]
    exact .counting hkey
  | none =>
    rw [if_pos rfl]
    by_cases hfull : u.capacity ≤ u.windows.entries.length
    · have hlen : u.order.length = u.capacity :=
        le_antisymm hu.valid.room (hu.valid.length_windows ▸ hfull)
      have hpos := hu.valid.capacity
      cases horder : u.order with
      | nil =>
        rw [horder, List.length_nil] at hlen
        omega
      | cons w rest =>
        simp only [if_pos hfull]
        exact .evicted hkey hlen horder
    · simp only [if_neg hfull]
      exact .opened hkey (by rw [← hu.valid.length_windows]; omega)

theorem evictOldest_order {w : ℕ × κ} {rest : List (ℕ × κ)} (h : t.order = w :: rest) :
    t.evictOldest.order = rest ∧ t.evictOldest.capacity = t.capacity ∧
      t.evictOldest.windows = t.windows.erase w.2 := by
  simp [RateTable.evictOldest, h]

theorem Entered.valid {u v : RateTable κ} (hu : u.Valid now) (h : Entered key now u v) :
    v.Valid now ∧ v.capacity = u.capacity ∧ ∃ w, v.windows.get? key = some w := by
  cases h with
  | counting hkey => exact ⟨hu, rfl, _, hkey⟩
  | opened hkey hroom => exact ⟨hu.push hkey hroom, rfl, (now, 0), by simp [push]⟩
  | @evicted w rest hkey hfull horder =>
    obtain ⟨hrest, hcap, hwindows⟩ := evictOldest_order horder
    have hnone : u.evictOldest.windows.get? key = none := by
      rw [hwindows, OrdMap.get?_erase, hkey, ite_self]
    have hroom : u.evictOldest.order.length < u.evictOldest.capacity := by
      rw [hrest, hcap, ← hfull, horder, List.length_cons]
      omega
    exact ⟨hu.evictOldest.push hnone hroom, hcap, (now, 0), by simp [push]⟩

theorem Valid.count {w : Count} (h : t.Valid now) (hkey : t.windows.get? key = some w) (n : ℕ) :
    Valid { t with windows := t.windows.insert key (w.1, n) } now := by
  refine { h with windows := fun k s => ?_ }
  rw [h.windows k s, OrdMap.get?_insert]
  split_ifs with hk
  · subst hk
    rw [hkey]
    constructor
    · rintro ⟨m, hm⟩
      cases hm
      exact ⟨n, rfl⟩
    · rintro ⟨m, hm⟩
      cases hm
      exact ⟨w.2, rfl⟩
  · rfl

theorem hit_order : (t.hit key limit now).2.order = (t.enter key now).order := rfl

/-- **A request keeps the table valid.** -/
theorem Valid.hit (h : t.Valid prev) (hle : prev ≤ now) (key : κ) (limit : UInt32) :
    (t.hit key limit now).2.Valid now ∧ (t.hit key limit now).2.capacity = t.capacity := by
  have henter : Entered key now (t.expire now) (t.enter key now) := h.enter hle
  obtain ⟨hvalid, hcap, w, hw⟩ := henter.valid (h.expire hle).valid
  refine ⟨?_, hcap.trans (h.expire hle).capacity⟩
  have hcount := hvalid.count hw (min (w.2 + 1) u32Max)
  simpa only [RateTable.hit, hw, Option.getD_some] using hcount

/-- **A request drops a window only if it has expired, or if it is the oldest of as many unexpired
windows as the table holds and the request opens another one.** -/
theorem Valid.hit_drops (h : t.Valid prev) (hle : prev ≤ now) {w : ℕ × κ} (hw : w ∈ t.order)
    (hdrop : w ∉ (t.hit key limit now).2.order) :
    w.1 + 60 ≤ now ∨
      (t.live now).head? = some w ∧ (t.live now).length = t.capacity ∧
        key ∉ (t.live now).map Prod.snd := by
  have hu := h.expire hle
  have henter : Entered key now (t.expire now) (t.enter key now) := h.enter hle
  rw [hit_order] at hdrop
  by_cases hlive : unexpired now w.1 = true
  · right
    have hmem : w ∈ (t.expire now).order := by
      rw [hu.order]
      exact List.mem_filter.mpr ⟨hw, hlive⟩
    rw [← hu.order, ← hu.capacity, hu.valid.mem_keys]
    generalize t.expire now = u at *
    generalize t.enter key now = v at *
    cases henter with
    | counting hkey => exact absurd hmem hdrop
    | opened hkey hroom => exact absurd (List.mem_append_left _ hmem) hdrop
    | @evicted v rest hkey hfull horder =>
      refine ⟨?_, hfull, by simp [hkey]⟩
      rw [horder] at hmem ⊢
      rcases List.mem_cons.mp hmem with rfl | hmem
      · rfl
      · refine absurd (List.mem_append_left _ ?_) hdrop
        rwa [(evictOldest_order horder).1]
  · left
    rw [unexpired_iff] at hlive
    omega

end RateTable

/-! ## What is counted -/

/-- The requests of every key in its current window, as many windows as there are keys. -/
abbrev Ledger (κ : Type) := κ → Option Count

namespace Ledger

variable {κ : Type}

/-- The window of a key that still counts. -/
def live (l : Ledger κ) (now : ℕ) (k : κ) : Option Count := (l k).filter fun w => unexpired now w.1

/-- The window that a request is counted in. -/
def current (l : Ledger κ) (now : ℕ) (k : κ) : Count := (l.live now k).getD (now, 0)

/-- One more request. -/
def hit [DecidableEq κ] (l : Ledger κ) (key : κ) (now : ℕ) : Ledger κ := fun k =>
  if k = key then some ((l.current now key).1, min ((l.current now key).2 + 1) u32Max) else l k

/-- At most `c` windows are unexpired. -/
def AtMost (l : Ledger κ) (c now : ℕ) : Prop :=
  ∀ ks : List κ, ks.Nodup → (∀ k ∈ ks, l.live now k ≠ none) → ks.length ≤ c

variable {l : Ledger κ} {now later c : ℕ} {key k : κ} {w : Count}

theorem live_eq_some : l.live now k = some w ↔ l k = some w ∧ unexpired now w.1 = true :=
  Option.filter_eq_some_iff

theorem live_later (hle : now ≤ later) :
    l.live later k = (l.live now k).filter fun w => unexpired later w.1 := by
  ext w
  rw [Option.filter_eq_some_iff, live_eq_some, live_eq_some]
  constructor
  · rintro ⟨hw, hlive⟩
    exact ⟨⟨hw, unexpired_of_le hle hlive⟩, hlive⟩
  · rintro ⟨⟨hw, -⟩, hlive⟩
    exact ⟨hw, hlive⟩

/-- The window that a request is counted in is unexpired. -/
theorem unexpired_current : unexpired now (l.current now k).1 = true := by
  rw [current]
  cases h : l.live now k with
  | none =>
    rw [Option.getD_none, unexpired_iff]
    omega
  | some w => exact (live_eq_some.mp h).2

section

variable [DecidableEq κ]

theorem live_hit_self : (l.hit key now).live now key =
    some ((l.current now key).1, min ((l.current now key).2 + 1) u32Max) := by
  rw [live_eq_some]
  exact ⟨if_pos rfl, unexpired_current⟩

theorem live_hit_of_ne (h : k ≠ key) : (l.hit key now).live now k = l.live now k := by
  rw [live, live, hit, if_neg h]

/-- There is room for a new window beside any others that are unexpired. -/
theorem AtMost.room (h : (l.hit key now).AtMost c now) (hkey : l.live now key = none) {ks : List κ}
    (hks : ks.Nodup) (hlive : ∀ k ∈ ks, l.live now k ≠ none) : ks.length < c := by
  have hnot : key ∉ ks := fun hmem => hlive key hmem hkey
  refine h (key :: ks) (List.nodup_cons.mpr ⟨hnot, hks⟩) fun k hk => ?_
  rcases List.mem_cons.mp hk with rfl | hk
  · rw [live_hit_self]
    exact Option.some_ne_none _
  · have hne : k ≠ key := fun heq => hnot (by rwa [← heq])
    rw [live_hit_of_ne hne]
    exact hlive k hk

end

end Ledger

namespace RateTable

variable {κ : Type} [LinearOrder κ] {t : RateTable κ} {l : Ledger κ} {now prev : ℕ} {key : κ}

/-- The unexpired windows of the table are those of the ledger. -/
def Follows (t : RateTable κ) (l : Ledger κ) (now : ℕ) : Prop :=
  ∀ k, (t.windows.get? k).filter (fun w => unexpired now w.1) = l.live now k

theorem Follows.later (h : t.Follows l prev) (hle : prev ≤ now) : t.Follows l now := fun k => by
  have htable : (t.windows.get? k).filter (fun w => unexpired now w.1) =
      ((t.windows.get? k).filter fun w => unexpired prev w.1).filter
        (fun w => unexpired now w.1) :=
    Ledger.live_later (l := t.windows.get?) hle
  rw [htable, h k, Ledger.live_later hle]

theorem Follows.expire (h : t.Follows l prev) (hvalid : t.Valid prev) (hle : prev ≤ now) (k : κ) :
    (t.expire now).windows.get? k = l.live now k := by
  ext w
  rw [(hvalid.expire hle).windows, ← h.later hle k, Option.filter_eq_some_iff]

/-- While the ledger's windows fit, a request finds the window that the ledger counts it in. -/
theorem Follows.enter (h : t.Follows l prev) (hvalid : t.Valid prev) (hle : prev ≤ now)
    (hfit : (l.hit key now).AtMost t.capacity now) (k : κ) :
    (t.enter key now).windows.get? k =
      if k = key then some (l.current now key) else l.live now k := by
  have hu := hvalid.expire hle
  have hget := h.expire hvalid hle
  have henter : Entered key now (t.expire now) (t.enter key now) := hvalid.enter hle
  generalize t.expire now = u at *
  generalize t.enter key now = v at *
  rw [← hu.capacity] at hfit
  cases henter with
  | @counting w hkey =>
    have hlive : l.live now key = some w := (hget key).symm.trans hkey
    split_ifs with hk
    · rw [hk, hkey, Ledger.current, hlive, Option.getD_some]
    · exact hget k
  | opened hkey hroom =>
    have hlive : l.live now key = none := (hget key).symm.trans hkey
    rw [push, OrdMap.get?_insert, Ledger.current, hlive, Option.getD_none, hget k]
  | evicted hkey hfull =>
    -- the windows of a full table and the new one are more than fit
    have hlive : l.live now key = none := (hget key).symm.trans hkey
    have hlt := hfit.room hlive hu.valid.nodup fun k hk => by
      rw [← hget k]
      exact hu.valid.mem_keys.mp hk
    rw [List.length_map] at hlt
    omega

/-- **While the ledger's windows fit, the table counts as the ledger does.** -/
theorem Follows.hit (h : t.Follows l prev) (hvalid : t.Valid prev) (hle : prev ≤ now)
    (hfit : (l.hit key now).AtMost t.capacity now) (limit : UInt32) :
    (t.hit key limit now).2.Follows (l.hit key now) now ∧
      (t.hit key limit now).1 = decide (limit.toNat < min ((l.current now key).2 + 1) u32Max) := by
  have hget := h.enter hvalid hle hfit
  have hkey : (t.enter key now).windows.get? key = some (l.current now key) := by
    rw [hget, if_pos rfl]
  refine ⟨fun k => ?_, by rw [RateTable.hit, hkey, Option.getD_some]⟩
  simp only [RateTable.hit, hkey, Option.getD_some, OrdMap.get?_insert, hget]
  by_cases hk : k = key
  · rw [if_pos hk, hk, Ledger.live_hit_self, Option.filter_some, if_pos Ledger.unexpired_current]
  · rw [if_neg hk, if_neg hk, Ledger.live_hit_of_ne hk, ← Ledger.live_later le_rfl]

end RateTable

end RiAuth.Rates
