import Mathlib.Tactic.Common

/-!
# Both ends of a fallible step

`Ends x Q E` says what holds of the value of a step that succeeds and of the error of one that
fails, where the error carries whatever the step leaves behind. The rules follow the shape of the
program:

* `Ends.bind`: one step after another, with one account of failure for both;
* `Ends.foldlM`: a loop over a list, with an invariant about the part already done.
-/

namespace Outcome

variable {ε α β : Type}

/-- `Q` of the value, or `E` of the error. -/
def Ends (x : Except ε α) (Q : α → Prop) (E : ε → Prop) : Prop :=
  match x with
  | .ok a => Q a
  | .error e => E e

namespace Ends

variable {x : Except ε α} {f : α → Except ε β} {P : α → Prop} {Q : β → Prop} {E : ε → Prop}

theorem ok_of (h : Ends x P E) {a : α} (hx : x = .ok a) : P a := by
  rw [hx] at h
  exact h

theorem bind (hx : Ends x P E) (hf : ∀ a, P a → Ends (f a) Q E) : Ends (x >>= f) Q E := by
  cases x with
  | error e => exact hx
  | ok a => exact hf a hx

theorem mono {P' : α → Prop} {E' : ε → Prop} (hx : Ends x P E) (hP : ∀ a, P a → P' a)
    (hE : ∀ e, E e → E' e) : Ends x P' E' := by
  cases x with
  | error e => exact hE e hx
  | ok a => exact hP a hx

/-- A loop over a part of a list: the invariant speaks of what was done and of the state it led
to. -/
theorem foldlM {σ : Type} {step : σ → α → Except ε σ} {I : List α → σ → Prop} {all : List α}
    (hstep : ∀ done a state, done ++ [a] <+: all → I done state →
      Ends (step state a) (I (done ++ [a])) E)
    (l : List α) {done : List α} {state : σ} (hl : done ++ l <+: all) (h : I done state) :
    Ends (l.foldlM step state) (I (done ++ l)) E := by
  induction l generalizing done state with
  | nil =>
    rw [List.append_nil]
    exact h
  | cons a l ih =>
    rw [List.append_cons] at hl
    rw [List.foldlM_cons, List.append_cons]
    exact (hstep done a state ((List.prefix_append _ _).trans hl) h).bind fun _ h' => ih hl h'

end Ends

end Outcome
