import Mathlib.Data.List.Pairwise

/-!
# Timed histories

A history is a run of a labelled transition relation; each event carries the time at which it
happens, and times never go back.

* `Run`: the run, with its events in order;
* `Run.invariant`, `Run.invariant_timed`: what every step keeps holds at the end;
* `Run.split`: a run cut at one of its events;
* `Ordered`: the clock never goes back.
-/

namespace History

variable {σ ι : Type}

/-- A run of a transition relation, with the events it takes in order. -/
inductive Run (step : σ → ι → σ → Prop) : σ → List ι → σ → Prop
  | nil {s : σ} : Run step s [] s
  | cons {s mid last : σ} {e : ι} {es : List ι} : step s e mid → Run step mid es last →
    Run step s (e :: es) last

/-- Times never go back. -/
def Ordered (time : ι → ℕ) (es : List ι) : Prop :=
  es.Pairwise fun a b => time a ≤ time b

variable {step : σ → ι → σ → Prop}

namespace Run

variable {s last : σ} {es : List ι}

theorem append {mid : σ} {fs : List ι} (h : Run step s es mid) (h' : Run step mid fs last) :
    Run step s (es ++ fs) last := by
  induction h with
  | nil => exact h'
  | cons hstep _ ih => exact .cons hstep (ih h')

theorem single {e : ι} (h : step s e last) : Run step s [e] last :=
  .cons h .nil

/-- A run over one list of events and then another passes through a state between the two. -/
theorem split {fs : List ι} (h : Run step s (es ++ fs) last) :
    ∃ mid, Run step s es mid ∧ Run step mid fs last := by
  induction es generalizing s with
  | nil => exact ⟨s, .nil, h⟩
  | cons e es ih =>
    obtain _ | ⟨hstep, h⟩ := h
    obtain ⟨mid, h₁, h₂⟩ := ih h
    exact ⟨mid, .cons hstep h₁, h₂⟩

/-- The same run of another relation. -/
theorem mono {step' : σ → ι → σ → Prop} (h : Run step s es last)
    (hstep : ∀ e ∈ es, ∀ s s', step s e s' → step' s e s') : Run step' s es last := by
  induction h with
  | nil => exact .nil
  | cons hfirst _ ih =>
    refine .cons (hstep _ List.mem_cons_self _ _ hfirst) ?_
    exact ih fun e he => hstep e (List.mem_cons_of_mem _ he)

/-- What every step of the run keeps holds at its end. -/
theorem invariant_on {I : σ → Prop} (h : Run step s es last)
    (hstep : ∀ e ∈ es, ∀ s s', step s e s' → I s → I s') (hs : I s) : I last := by
  induction h with
  | nil => exact hs
  | cons hfirst _ ih =>
    apply ih fun e he => hstep e (List.mem_cons_of_mem _ he)
    exact hstep _ List.mem_cons_self _ _ hfirst hs

/-- What every step keeps holds at the end of every run. -/
theorem invariant {I : σ → Prop} (h : Run step s es last)
    (hstep : ∀ s e s', step s e s' → I s → I s') (hs : I s) : I last :=
  h.invariant_on (fun e _ s s' => hstep s e s') hs

/-- What holds from some time on, and is kept by every step at its own time, holds at the end of
every run whose clock does not go back. -/
theorem invariant_timed {time : ι → ℕ} {I : ℕ → σ → Prop}
    (hlater : ∀ t t' s, t ≤ t' → I t s → I t' s) (h : Run step s es last)
    (hstep : ∀ e ∈ es, ∀ s s', step s e s' → I (time e) s → I (time e) s')
    (hordered : Ordered time es) {t t' : ℕ} (htimes : ∀ e ∈ es, t ≤ time e ∧ time e ≤ t')
    (htt' : t ≤ t') (hs : I t s) : I t' last := by
  induction h generalizing t with
  | nil => exact hlater t t' _ htt' hs
  | @cons s mid last e es hfirst _ ih =>
    obtain ⟨hnext, hordered'⟩ := List.pairwise_cons.mp hordered
    obtain ⟨hfrom, huntil⟩ := htimes e List.mem_cons_self
    have hmid : I (time e) mid :=
      hstep e List.mem_cons_self _ _ hfirst (hlater _ _ _ hfrom hs)
    exact ih (fun e' he' => hstep e' (List.mem_cons_of_mem _ he')) hordered'
      (fun e' he' => ⟨hnext e' he', (htimes e' (List.mem_cons_of_mem _ he')).2⟩) huntil hmid

end Run

end History
