import RiAuth.Lib.History

/-!
# One-use records that expire

A message that may take effect once is fenced by a record with an expiry: a presentation is refused
while the record is unexpired, and expired records may be deleted at any time. The fence holds as
long as the record outlives the time during which the message would still be taken.

* `free`, `record`, `prune`: the test, the record and the clean-up;
* `Blocks`: the record of a key refuses a presentation now;
* `Keeps`: a step changes no unexpired record; recording under a free key and pruning both do;
* `once`: if the record of every acceptance outlives the message, it is accepted at most once.
-/

namespace Fence

open History

variable {κ : Type}

/-- No unexpired record refuses `k` at time `t`. -/
def free (rows : κ → Option ℕ) (t : ℕ) (k : κ) : Bool := (rows k).all fun e => e ≤ t

/-- Record `k` until `e`. -/
def record [DecidableEq κ] (rows : κ → Option ℕ) (k : κ) (e : ℕ) : κ → Option ℕ :=
  Function.update rows k (some e)

/-- Delete those records of a page that have expired by `t`. -/
def prune [DecidableEq κ] (rows : κ → Option ℕ) (page : List κ) (t : ℕ) : κ → Option ℕ :=
  fun k => if k ∈ page ∧ free rows t k = true then none else rows k

/-- The record of `k` refuses a presentation at time `t`. -/
def Blocks (rows : κ → Option ℕ) (t : ℕ) (k : κ) : Prop :=
  ∃ e, rows k = some e ∧ t < e

/-- No record that is unexpired at time `t` is changed. -/
def Keeps (t : ℕ) (rows rows' : κ → Option ℕ) : Prop :=
  ∀ k e, rows k = some e → t < e → rows' k = some e

theorem free_iff {rows : κ → Option ℕ} {t : ℕ} {k : κ} :
    free rows t k = true ↔ ¬ Blocks rows t k := by
  unfold free Blocks
  cases rows k with
  | none => simp
  | some e => simp

@[simp] theorem record_self [DecidableEq κ] (rows : κ → Option ℕ) (k : κ) (e : ℕ) :
    record rows k e k = some e :=
  Function.update_self ..

theorem Keeps.refl (t : ℕ) (rows : κ → Option ℕ) : Keeps t rows rows :=
  fun _ _ h _ => h

theorem keeps_prune [DecidableEq κ] (rows : κ → Option ℕ) (page : List κ) (t : ℕ) :
    Keeps t rows (prune rows page t) := by
  intro k e hk ht
  unfold prune
  rw [if_neg, hk]
  rintro ⟨-, hfree⟩
  exact free_iff.mp hfree ⟨e, hk, ht⟩

/-- Recording under a key that is free now changes no unexpired record. -/
theorem keeps_record [DecidableEq κ] {t : ℕ} {rows : κ → Option ℕ} {k : κ}
    (h : free rows t k = true) (e : ℕ) : Keeps t rows (record rows k e) := by
  intro k' e' hk' ht
  have hne : k' ≠ k := by
    rintro rfl
    exact free_iff.mp h ⟨e', hk', ht⟩
  unfold record
  rw [Function.update_of_ne hne, hk']

section Runs

variable {σ ι : Type} {step : σ → ι → σ → Prop} (rows : σ → κ → Option ℕ) (time : ι → ℕ)

/-- A record stays as long as the run does not reach its expiry. -/
theorem record_stays (hkeeps : ∀ s e s', step s e s' → Keeps (time e) (rows s) (rows s'))
    {s s' : σ} {es : List ι} (hrun : Run step s es s') {k : κ} {expiry : ℕ}
    (hbefore : ∀ e ∈ es, time e < expiry) (h : rows s k = some expiry) :
    rows s' k = some expiry :=
  hrun.invariant_on (fun e he s s' hstep hk => hkeeps s e s' hstep k expiry hk (hbefore e he)) h

/-- **At most once.** `accepts e` says that the event takes the message. If that happens only up to
`last`, only under a free key, and leaves a record that outlives `last`, it happens at most once in
a run whose clock does not go back. -/
theorem once (k : κ) (last : ℕ)
    (hkeeps : ∀ s e s', step s e s' → Keeps (time e) (rows s) (rows s')) {accepts : ι → Prop}
    (haccept : ∀ s e s', step s e s' → accepts e → time e ≤ last ∧
      free (rows s) (time e) k = true ∧ ∃ expiry, last < expiry ∧ rows s' k = some expiry)
    {s s' : σ} {es : List ι} (hrun : Run step s es s') (hordered : Ordered time es) :
    es.Pairwise fun a b => accepts a → ¬ accepts b := by
  induction hrun with
  | nil => exact .nil
  | @cons s mid last' e es hfirst hrest ih =>
    obtain ⟨-, hordered'⟩ := List.pairwise_cons.mp hordered
    refine List.pairwise_cons.mpr ⟨fun b hb ha hb' => ?_, ih hordered'⟩
    obtain ⟨-, -, expiry, hlast, hrecord⟩ := haccept _ _ _ hfirst ha
    -- the rest of the run up to the second acceptance
    obtain ⟨before, after, rfl⟩ := List.append_of_mem hb
    obtain ⟨mid', hbefore, hafter⟩ := hrest.split
    obtain _ | ⟨hsecond, -⟩ := hafter
    obtain ⟨htime, hfree, -⟩ := haccept _ _ _ hsecond hb'
    apply free_iff.mp hfree
    refine ⟨expiry, record_stays rows time hkeeps hbefore (fun c hc => ?_) hrecord,
      Nat.lt_of_le_of_lt htime hlast⟩
    have hle : time c ≤ time b :=
      (List.pairwise_append.mp hordered').2.2 c hc b List.mem_cons_self
    exact Nat.lt_of_le_of_lt (Nat.le_trans hle htime) hlast

end Runs

end Fence
