import Mathlib.Data.List.Forall2

/-!
# Chains of checks

A validator is a chain of checks, each of which passes or ends the chain with its own error. The
rules below take a passed chain apart:

* `bind_ok`, `require_ok`, `okOr_ok`, `map_ok`: one check after another, one condition, a value that
  has to be there, another value;
* `forM_ok`, `mapM_ok`: a check made of every element of a list;
* `foldlM_invariant`, `foldlM_simulation`: a loop that may end with an error;
* `pass_ok`: a pass that carries a table and checks each element against the table so far.
-/

namespace Checks

variable {ε α β : Type}

/-- Pass when the condition holds, else end with the error. -/
def require (p : Prop) [Decidable p] (e : ε) : Except ε Unit :=
  if p then .ok () else .error e

variable {e : ε} {a : α} {f : α → Except ε β} {x : Except ε α} {b : β} {l : List α} {r : List β}

theorem require_ok {p : Prop} [Decidable p] {u : Unit} : require p e = .ok u ↔ p := by
  unfold require
  by_cases h : p <;> simp [h]

/-- A value that has to be there. -/
def okOr (o : Option α) (e : ε) : Except ε α :=
  match o with
  | none => .error e
  | some a => .ok a

theorem okOr_ok {o : Option α} : okOr o e = .ok a ↔ o = some a := by
  cases o <;> simp [okOr]

theorem okOr_some_bind : (okOr (some a) e >>= f) = f a := rfl

theorem bind_ok : (x >>= f) = .ok b ↔ ∃ a, x = .ok a ∧ f a = .ok b := by
  cases x with
  | error e => exact ⟨fun h => (nomatch h), fun ⟨_, h, _⟩ => (nomatch h)⟩
  | ok a =>
    refine ⟨fun h => ⟨a, rfl, h⟩, ?_⟩
    rintro ⟨a', ha, hf⟩
    cases ha
    exact hf

/-- What follows a step matters only where the step passes. -/
theorem bind_congr_ok {g : α → Except ε β} (h : ∀ a, x = .ok a → f a = g a) :
    (x >>= f) = x >>= g := by
  cases x with
  | error e => rfl
  | ok a => exact h a rfl

/-- A unit check followed by another. -/
theorem seq_ok {x : Except ε Unit} {f : Unit → Except ε β} :
    (x >>= f) = .ok b ↔ x = .ok () ∧ f () = .ok b := by
  rw [bind_ok]
  exact ⟨fun ⟨_, h⟩ => h, fun h => ⟨(), h⟩⟩

theorem map_ok {f : α → β} : x.map f = .ok b ↔ ∃ a, x = .ok a ∧ f a = b := by
  cases x with
  | error e => exact ⟨fun h => (nomatch h), fun ⟨_, h, _⟩ => (nomatch h)⟩
  | ok a =>
    refine ⟨fun h => ⟨a, rfl, Except.ok.inj h⟩, ?_⟩
    rintro ⟨a', ha, rfl⟩
    cases ha
    rfl

theorem mapError_ok {ε' : Type} {f : ε → ε'} : x.mapError f = .ok a ↔ x = .ok a := by
  cases x <;> simp [Except.mapError]

theorem forM_ok {f : α → Except ε Unit} {u : Unit} : l.forM f = .ok u ↔ ∀ a ∈ l, f a = .ok () := by
  induction l with
  | nil => exact ⟨fun _ a h => absurd h List.not_mem_nil, fun _ => rfl⟩
  | cons a l ih =>
    change (f a >>= fun _ => l.forM f) = .ok u ↔ _
    rw [seq_ok, ih, List.forall_mem_cons]

theorem mapM_ok : l.mapM f = .ok r ↔ List.Forall₂ (fun a b => f a = .ok b) l r := by
  induction l generalizing r with
  | nil =>
    refine ⟨fun h => ?_, fun h => ?_⟩
    · cases h
      exact .nil
    · cases h
      rfl
  | cons a l ih =>
    rw [List.mapM_cons, bind_ok]
    constructor
    · rintro ⟨b, hb, h⟩
      obtain ⟨bs, hbs, h⟩ := bind_ok.mp h
      rw [← Except.ok.inj h]
      exact .cons hb (ih.mp hbs)
    · rintro (_ | ⟨hb, hbs⟩)
      exact ⟨_, hb, bind_ok.mpr ⟨_, ih.mpr hbs, rfl⟩⟩

/-- A list of checks passes exactly if each of them does. -/
theorem exists_mapM_ok : (∃ r, l.mapM f = .ok r) ↔ ∀ a ∈ l, ∃ b, f a = .ok b := by
  induction l with
  | nil => exact ⟨fun _ a ha => absurd ha List.not_mem_nil, fun _ => ⟨[], rfl⟩⟩
  | cons a l ih =>
    rw [List.forall_mem_cons, ← ih]
    constructor
    · rintro ⟨r, hr⟩
      cases mapM_ok.mp hr with
      | cons hb hbs => exact ⟨⟨_, hb⟩, ⟨_, mapM_ok.mpr hbs⟩⟩
    · rintro ⟨⟨b, hb⟩, bs, hbs⟩
      exact ⟨b :: bs, mapM_ok.mpr (.cons hb (mapM_ok.mp hbs))⟩

/-- Where each check passes on a condition with a fixed result, so does the list of them. -/
theorem mapM_ok_iff_map {p : α → Prop} {g : α → β} (hf : ∀ a b, f a = .ok b ↔ p a ∧ b = g a) :
    l.mapM f = .ok r ↔ (∀ a ∈ l, p a) ∧ r = l.map g := by
  rw [mapM_ok]
  constructor
  · intro h
    induction h with
    | nil => exact ⟨by simp, rfl⟩
    | cons hab _ ih =>
      obtain ⟨hp, rfl⟩ := (hf _ _).mp hab
      obtain ⟨hall, rfl⟩ := ih
      exact ⟨List.forall_mem_cons.mpr ⟨hp, hall⟩, rfl⟩
  · rintro ⟨hall, rfl⟩
    rw [List.forall₂_map_right_iff, List.forall₂_same]
    exact fun a ha => (hf _ _).mpr ⟨hall a ha, rfl⟩

/-- What a passed list of checks says about one position. -/
theorem mapM_ok_get (h : l.mapM f = .ok r) {i : ℕ} (ha : l[i]? = some a) :
    ∃ b, r[i]? = some b ∧ f a = .ok b := by
  have hall := mapM_ok.mp h
  clear h
  induction hall generalizing i with
  | nil => cases ha
  | cons hb _ ih =>
    cases i with
    | zero =>
      cases ha
      exact ⟨_, rfl, hb⟩
    | succ i => exact ih ha

/-- Every result of a passed list of checks is the result of one of them. -/
theorem exists_of_mem_mapM (h : l.mapM f = .ok r) (hb : b ∈ r) : ∃ a ∈ l, f a = .ok b := by
  have hall := mapM_ok.mp h
  clear h
  induction hall with
  | nil => cases hb
  | cons hab _ ih =>
    rcases List.mem_cons.mp hb with rfl | hb
    · exact ⟨_, List.mem_cons_self, hab⟩
    · obtain ⟨a, ha, hf⟩ := ih hb
      exact ⟨a, List.mem_cons_of_mem _ ha, hf⟩

/-- A loop that passed took every step. -/
theorem foldlM_ok {σ : Type} {f : σ → α → Except ε σ} {s t : σ} (h : l.foldlM f s = .ok t) :
    ∀ a ∈ l, ∃ s' t', f s' a = .ok t' := by
  induction l generalizing s with
  | nil => exact fun a ha => absurd ha List.not_mem_nil
  | cons a l ih =>
    rw [List.foldlM_cons] at h
    obtain ⟨s', hs', h⟩ := bind_ok.mp h
    exact List.forall_mem_cons.mpr ⟨⟨s, s', hs'⟩, ih h⟩

/-- What every step of a loop keeps, for the elements of the list, holds of its result. -/
theorem foldlM_invariant_mem {σ : Type} {f : σ → α → Except ε σ} {P : σ → Prop}
    (hstep : ∀ a ∈ l, ∀ s s', f s a = .ok s' → P s → P s') {s t : σ} (h : l.foldlM f s = .ok t)
    (hs : P s) : P t := by
  induction l generalizing s with
  | nil =>
    cases h
    exact hs
  | cons a l ih =>
    rw [List.foldlM_cons] at h
    obtain ⟨mid, hmid, h⟩ := bind_ok.mp h
    exact ih (fun b hb => hstep b (List.mem_cons_of_mem a hb)) h
      (hstep a List.mem_cons_self _ _ hmid hs)

/-- What every step of a loop keeps holds of its result. -/
theorem foldlM_invariant {σ : Type} {f : σ → α → Except ε σ} {P : σ → Prop}
    (hstep : ∀ s a s', f s a = .ok s' → P s → P s') {s t : σ} (h : l.foldlM f s = .ok t) (hs : P s) :
    P t :=
  foldlM_invariant_mem (fun a _ s s' => hstep s a s') h hs

/-- A loop that may end with an error and one that cannot go together, step by step. -/
theorem foldlM_simulation {σ τ : Type} {f : σ → α → Except ε σ} {g : τ → α → τ} {R : σ → τ → Prop}
    (hstep : ∀ a s s' t, f s a = .ok s' → R s t → R s' (g t a)) {s s' : σ} {t : τ}
    (h : l.foldlM f s = .ok s') (hR : R s t) : R s' (l.foldl g t) := by
  induction l generalizing s t with
  | nil =>
    cases h
    exact hR
  | cons a l ih =>
    rw [List.foldlM_cons] at h
    obtain ⟨mid, hmid, h⟩ := bind_ok.mp h
    exact ih h (hstep a s mid t hmid hR)

section Pass

variable {τ : Type} {check : τ → α → Except ε Unit} {visit : τ → α → τ}

/-- A pass over a list: check each element against the table, then let it update the table. -/
def pass (check : τ → α → Except ε Unit) (visit : τ → α → τ) : τ → List α → Except ε Unit
  | _, [] => .ok ()
  | t, a :: l => check t a >>= fun _ => pass check visit (visit t a) l

/-- A passed pass has checked each element against the table its predecessors leave. -/
theorem pass_ok {t : τ} {l₁ l₂ : List α} {a : α} {u : Unit}
    (h : pass check visit t (l₁ ++ a :: l₂) = .ok u) : check (l₁.foldl visit t) a = .ok () := by
  induction l₁ generalizing t with
  | nil => exact (seq_ok.mp h).1
  | cons b l₁ ih => exact ih (seq_ok.mp h).2

end Pass

end Checks
