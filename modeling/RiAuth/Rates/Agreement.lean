import RiAuth.Rates.Shared
import Mathlib.Data.Prod.Lex

/-!
# The two rate limiters

A node without a shared store counts requests in a `RateTable`; nodes that share a store count them
in its records. Both are run on one sequence of requests and compared through the ledger.

* `RateTable.run_valid`: the table along a whole run;
* `refuses_iff`: the two comparisons, on one count;
* `answers_eq_iff`, `rate_limiters_agree`: **the limiters refuse the same requests, unless a request
  with the limit `u32::MAX` comes in a window that has counted `u32::MAX` requests**, which no limit
  that the program admits does.
-/

namespace RiAuth.Rates

open RiAuth.Store

/-- A client address, by the text that it prints as, and a category. -/
structure Key where
  ip : Text
  category : Text
  nul_free : '\x00' ∉ ip

namespace Key

theorem ext_pair {a b : Key} (h : toLex (a.ip, a.category) = toLex (b.ip, b.category)) : a = b := by
  cases a
  cases b
  cases toLex_inj.mp h
  rfl

instance : LinearOrder Key :=
  LinearOrder.lift' (fun k => toLex (k.ip, k.category)) fun _ _ => ext_pair

/-- The shared record of a key. -/
def record (digest : Text → Text) (k : Key) : Text := digest (k.ip ++ '\x00' :: k.category)

theorem record_injective {digest : Text → Text} (hdigest : Function.Injective digest) :
    Function.Injective (record digest) := by
  intro a b h
  have htext := hdigest h
  have hip := congrArg (List.takeWhile (· ≠ '\x00')) htext
  have htake (k : Key) : (k.ip ++ '\x00' :: k.category).takeWhile (· ≠ '\x00') = k.ip := by
    rw [List.takeWhile_append_of_pos fun c hc => by
      simpa using fun heq : c = '\x00' => k.nul_free (heq ▸ hc)]
    simp
  rw [htake, htake] at hip
  rw [hip] at htext
  have hcategory := (List.cons.inj (List.append_cancel_left htext)).2
  exact ext_pair (by rw [hip, hcategory])

end Key

/-- A request. Both clocks count their seconds in an `i64`. -/
structure Request where
  key : Key
  limit : UInt32
  time : Fin (2 ^ 63)

variable {digest : Text → Text} {t : RateTable Key} {s : Shared} {l : Ledger Key} {r : Request}
  {rs : List Request} {c prev now : ℕ}

/-! ## Runs -/

/-- The table after requests. -/
def RateTable.run (t : RateTable Key) (rs : List Request) : RateTable Key :=
  rs.foldl (fun t r => (t.hit r.key r.limit r.time).2) t

/-- Which requests are refused. -/
def RateTable.answers : RateTable Key → List Request → List Bool
  | _, [] => []
  | t, r :: rs =>
    (t.hit r.key r.limit r.time).1 :: RateTable.answers (t.hit r.key r.limit r.time).2 rs

/-- The answers to requests, in turn. -/
def Shared.answers (digest : Text → Text) (c : ℕ) : Shared → List Request → Result (List Bool)
  | _, [] => .ok []
  | s, r :: rs => do
    let hit ← s.hit digest (r.key.record digest) r.limit c r.time
    let rest ← Shared.answers digest c hit.2 rs
    .ok (hit.1 :: rest)

/-- Requests at times that do not go backwards. -/
def Ordered (rs : List Request) : Prop := rs.Pairwise fun a b => a.time ≤ b.time

/-- **The table is valid along a run.** -/
theorem RateTable.run_valid (hvalid : t.Valid prev) (hordered : Ordered rs)
    (hprev : ∀ r ∈ rs, prev ≤ r.time) (hnow : ∀ r ∈ rs, r.time ≤ now) (hle : prev ≤ now) :
    (t.run rs).Valid now ∧ (t.run rs).capacity = t.capacity := by
  induction rs generalizing t prev with
  | nil => exact ⟨hvalid.mono hle, rfl⟩
  | cons r rs ih =>
    obtain ⟨hhit, hcap⟩ := hvalid.hit (hprev r List.mem_cons_self) r.key r.limit
    have hrest := List.pairwise_cons.mp hordered
    have hrun := ih hhit hrest.2 hrest.1 (fun q hq => hnow q (List.mem_cons_of_mem _ hq))
      (hnow r List.mem_cons_self)
    exact ⟨hrun.1, hrun.2.trans hcap⟩

/-! ## What the ledger says about a run -/

namespace Ledger

/-- At most `c` windows are unexpired at any time of the run. -/
def Fits (c : ℕ) : Ledger Key → List Request → Prop
  | _, [] => True
  | l, r :: rs => (l.hit r.key r.time).AtMost c r.time ∧ Fits c (l.hit r.key r.time) rs

/-- A request with the limit `u32::MAX` in a window that has counted `u32::MAX` requests. -/
def Saturated (l : Ledger Key) (r : Request) : Prop :=
  r.limit.toNat = u32Max ∧ (l.current r.time r.key).2 = u32Max

/-- No request of the run is such a one. -/
def Unsaturated : Ledger Key → List Request → Prop
  | _, [] => True
  | l, r :: rs => ¬l.Saturated r ∧ Unsaturated (l.hit r.key r.time) rs

/-- Counts are `u32` numbers. -/
def Bounded (l : Ledger Key) : Prop := ∀ k w, l k = some w → w.2 ≤ u32Max

theorem Bounded.current (h : l.Bounded) (now : ℕ) (k : Key) : (l.current now k).2 ≤ u32Max := by
  rw [Ledger.current]
  cases hlive : l.live now k with
  | none => exact Nat.zero_le _
  | some w => exact h k w (live_eq_some.mp hlive).1

theorem Bounded.hit (h : l.Bounded) (key : Key) (now : ℕ) : (l.hit key now).Bounded := by
  intro k w hw
  rw [Ledger.hit] at hw
  split_ifs at hw
  · cases hw
    exact Nat.min_le_right _ _
  · exact h k w hw

end Ledger

/-! ## Agreement -/

/-- One limiter compares the new count with `>`, the other one the count before it with `≥`. They
differ only where the count saturates at the limit. -/
theorem refuses_iff {limit n : ℕ} (hlimit : limit ≤ u32Max) (hn : n ≤ u32Max) :
    (limit ≤ n ↔ limit < min (n + 1) u32Max) ↔ ¬(limit = u32Max ∧ n = u32Max) := by
  omega

/-- **The limiters refuse the same requests of a run, exactly if none of them saturates.** -/
theorem answers_eq_iff (hdigest : Function.Injective digest) (hc : c ≤ u64Max)
    (hvalid : t.Valid prev) (hcap : t.capacity = c) (ht : t.Follows l prev)
    (hs : s.Consistent digest) (hfollows : s.Follows (Key.record digest) l prev) (hl : l.Bounded)
    (hordered : Ordered rs) (hprev : ∀ r ∈ rs, prev ≤ r.time) (hfits : l.Fits c rs) :
    s.answers digest c rs = .ok (t.answers rs) ↔ l.Unsaturated rs := by
  induction rs generalizing t s l prev with
  | nil => exact iff_of_true rfl trivial
  | cons r rs ih =>
    have hle := hprev r List.mem_cons_self
    have hrest := List.pairwise_cons.mp hordered
    have hnow : (r.time : ℕ) < u64Max := by
      have := r.time.isLt
      rw [u64Max]
      omega
    obtain ⟨s', hhit, hs', hfollows'⟩ := hfollows.hit hdigest (Key.record_injective hdigest) hs hle
      hnow hc hfits.1 r.limit
    obtain ⟨ht', hanswer⟩ := ht.hit hvalid hle (hcap ▸ hfits.1) r.limit
    obtain ⟨hvalid', hcap'⟩ := hvalid.hit hle r.key r.limit
    have ih := ih hvalid' (hcap'.trans hcap) ht' hs' hfollows' (hl.hit _ _) hrest.2 hrest.1 hfits.2
    have hlimit : r.limit.toNat ≤ u32Max := Nat.le_of_lt_succ r.limit.toNat_lt
    have hstep := refuses_iff hlimit (hl.current r.time r.key)
    rw [Ledger.Unsaturated, ← ih, Ledger.Saturated, ← hstep, Shared.answers, hhit,
      RateTable.answers, hanswer]
    change (Shared.answers digest c s' rs >>= _) = _ ↔ _
    rw [Checks.bind_ok]
    constructor
    · rintro ⟨rest, hrest, heq⟩
      obtain ⟨hfirst, hothers⟩ := List.cons.inj (Except.ok.inj heq)
      exact ⟨decide_eq_decide.mp hfirst, hothers ▸ hrest⟩
    · rintro ⟨heq, hrest⟩
      exact ⟨_, hrest, by simp only [decide_eq_decide.mpr heq]⟩

/-! ## Where a run starts -/

/-- Nothing has been counted. -/
def Ledger.none : Ledger Key := fun _ => Option.none

theorem Ledger.none_bounded : Ledger.none.Bounded := nofun

theorem RateTable.new_follows (c now : ℕ) : (RateTable.new c).Follows Ledger.none now :=
  fun _ => rfl

/-- Rows that have expired count for nothing. -/
theorem Shared.follows_none (hexpired : ∀ id w, s.rates.get? id = some w →
    unexpired now w.1 = false) : s.Follows (Key.record digest) Ledger.none now where
  windows k := by
    refine Option.filter_eq_none_iff.mpr fun w hw => ?_
    simp [hexpired _ w hw]
  named id w hw hlive := absurd hlive (by simp [hexpired id w hw])

/-- Requests of a few clients need no more windows than there are clients. -/
theorem fits_of_keys {keys : List Key} (hkeys : keys.length ≤ c) (hrs : ∀ r ∈ rs, r.key ∈ keys)
    (h : ∀ k ∉ keys, l k = none) : l.Fits c rs := by
  induction rs generalizing l with
  | nil => trivial
  | cons r rs ih =>
    have hhit : ∀ k ∉ keys, l.hit r.key r.time k = none := fun k hk => by
      have hne : k ≠ r.key := fun heq => hk (heq ▸ hrs r List.mem_cons_self)
      rw [Ledger.hit, if_neg hne, h k hk]
    refine ⟨fun ks hks hlive => ?_, ih (fun q hq => hrs q (List.mem_cons_of_mem _ hq)) hhit⟩
    have hsub : ks ⊆ keys := fun k hk => by
      by_contra hout
      refine hlive k hk ?_
      change (l.hit r.key r.time k).filter _ = none
      rw [hhit k hout, Option.filter_none]
    exact (hks.length_le_of_subset hsub).trans hkeys

/-! ## The two limiters -/

/-- **The table.** Its map and its queue hold the same windows, oldest first and no more than the
capacity, and a request drops a window only if it has expired or is the oldest of a full table. -/
theorem RateTable.windows_along_run (hpos : 1 ≤ c) {past rest : List Request}
    (hordered : Ordered (past ++ r :: rest)) :
    let t := (RateTable.new c).run past
    let t' := (t.hit r.key r.limit r.time).2
    (t'.Valid r.time ∧ t'.capacity = c ∧ t'.windows.entries.length = t'.order.length) ∧
      ∀ w ∈ t.order, w ∉ t'.order → w.1 + 60 ≤ r.time ∨
        (t.live r.time).head? = some w ∧ (t.live r.time).length = c ∧
          r.key ∉ (t.live r.time).map Prod.snd := by
  intro t t'
  have hsplit := List.pairwise_append.mp hordered
  have hrun := RateTable.run_valid (RateTable.new_valid c 0) hsplit.1 (fun _ _ => Nat.zero_le _)
    (fun q hq => hsplit.2.2 q hq r List.mem_cons_self) (Nat.zero_le r.time)
  have htcap : t.capacity = c := hrun.2.trans (max_eq_left hpos)
  obtain ⟨hvalid, hcap'⟩ := hrun.1.hit le_rfl r.key r.limit
  refine ⟨⟨hvalid, hcap'.trans htcap, hvalid.length_windows⟩, fun w hw hdrop => ?_⟩
  rw [← htcap]
  exact hrun.1.hit_drops le_rfl hw hdrop

/-- **The two rate limiters, for every limit.** If the unexpired windows fit the capacity, the
shared records refuse exactly the requests that the table refuses, whatever expired rows they start
with, if and only if no request with the limit `u32::MAX` comes in a window that has counted
`u32::MAX` requests. -/
theorem rate_limiters_agree (hdigest : Function.Injective digest) (hpos : 1 ≤ c) (hc : c ≤ u64Max)
    (hordered : Ordered rs) (hs : s.Consistent digest)
    (hexpired : ∀ r ∈ rs, ∀ id w, s.rates.get? id = some w → w.1 + 60 ≤ r.time)
    (hfits : Ledger.none.Fits c rs) :
    s.answers digest c rs = .ok ((RateTable.new c).answers rs) ↔ Ledger.none.Unsaturated rs := by
  cases rs with
  | nil => exact iff_of_true rfl trivial
  | cons r rs =>
    have hrest := List.pairwise_cons.mp hordered
    refine answers_eq_iff hdigest hc (RateTable.new_valid c r.time) (max_eq_left hpos)
      (RateTable.new_follows c r.time) hs (Shared.follows_none fun id w hw => ?_)
      Ledger.none_bounded hordered (fun q hq => ?_) hfits
    · have hle := hexpired r List.mem_cons_self id w hw
      rw [← Bool.not_eq_true, unexpired_iff]
      omega
    · rcases List.mem_cons.mp hq with rfl | hq
      · exact le_rfl
      · exact hrest.1 q hq

/-- The largest limit that a configuration or the agreement of the nodes admits. The limits that are
written in the code are 60 and 600. -/
def MAX_RATE_LIMIT : ℕ := 100000

/-- A limit that is admitted is below the count at which a window saturates. -/
theorem Ledger.unsaturated_of_le (h : ∀ r ∈ rs, r.limit.toNat ≤ MAX_RATE_LIMIT) :
    l.Unsaturated rs := by
  induction rs generalizing l with
  | nil => trivial
  | cons r rs ih =>
    have hle := h r List.mem_cons_self
    refine ⟨fun hsaturated => ?_, ih fun q hq => h q (List.mem_cons_of_mem _ hq)⟩
    rw [hsaturated.1] at hle
    exact absurd hle (by decide)

/-- **The two rate limiters agree.** For every capacity and every sequence of requests, the table
keeps its windows as `RateTable.windows_along_run` says; and if the unexpired windows fit the
capacity, the shared records refuse exactly the requests that the table refuses, whatever expired
rows they start with. -/
theorem rate_limiters_refuse_alike (hdigest : Function.Injective digest) (hpos : 1 ≤ c)
    (hc : c ≤ u64Max) (hordered : Ordered rs) (hlimits : ∀ r ∈ rs, r.limit.toNat ≤ MAX_RATE_LIMIT) :
    (∀ past r rest, rs = past ++ r :: rest →
      let t := (RateTable.new c).run past
      let t' := (t.hit r.key r.limit r.time).2
      (t'.Valid r.time ∧ t'.capacity = c ∧ t'.windows.entries.length = t'.order.length) ∧
        ∀ w ∈ t.order, w ∉ t'.order → w.1 + 60 ≤ r.time ∨
          (t.live r.time).head? = some w ∧ (t.live r.time).length = c ∧
            r.key ∉ (t.live r.time).map Prod.snd) ∧
    ∀ s : Shared, s.Consistent digest →
      (∀ r ∈ rs, ∀ id w, s.rates.get? id = some w → w.1 + 60 ≤ r.time) → Ledger.none.Fits c rs →
        s.answers digest c rs = .ok ((RateTable.new c).answers rs) := by
  constructor
  · rintro past r rest rfl
    exact RateTable.windows_along_run hpos hordered
  · intro s hs hexpired hfits
    exact (rate_limiters_agree hdigest hpos hc hordered hs hexpired hfits).mpr
      (Ledger.unsaturated_of_le hlimits)

/-- Two clients. -/
def visitors : List Key := [⟨['a'], ['b'], by decide⟩, ⟨['c'], ['b'], by decide⟩]

/-- The first client comes twice in a minute, once more than it may, and again after it. -/
def visits : List Request :=
  [(0, 60), (0, 61), (1, 90), (0, 120)].map fun v => ⟨visitors.getD v.1 ⟨[], [], by decide⟩, 1, v.2⟩

/-- Records with a row that has expired and has not been reclaimed. -/
def staleRates : Shared :=
  Shared.put codeDigest ⟨.empty, .empty, 0⟩ "stale".toList (0, 1)

theorem staleRates_consistent : staleRates.Consistent codeDigest := by
  have hempty : Shared.Consistent codeDigest ⟨.empty, .empty, 0⟩ :=
    ⟨fun key id => by simp, rfl, Nat.zero_le _⟩
  exact hempty.write codeDigest_injective _ fun _ _ => by decide

theorem rate_limiters_refuse_alike_visits :
    (RateTable.new 2).answers visits = [false, true, false, false] ∧
      staleRates.answers codeDigest 2 visits = .ok ((RateTable.new 2).answers visits) := by
  refine ⟨by decide, (rate_limiters_refuse_alike codeDigest_injective (by decide) (by decide)
    (by unfold Ordered; decide) (by decide)).2 staleRates staleRates_consistent ?_ ?_⟩
  · intro r hr id w hw
    obtain ⟨rfl, rfl⟩ | ⟨-, hempty⟩ := OrdMap.get?_insert_cases hw
    · revert r
      decide
    · cases hempty
  · exact fits_of_keys (show visitors.length ≤ 2 by decide) (by decide) fun _ _ => rfl

end RiAuth.Rates
