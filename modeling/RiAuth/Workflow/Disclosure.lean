import Mathlib.Data.List.Find
import RiAuth.Lib.Lists
import RiAuth.Workflow.Sound

/-!
# Routing does not disclose accounts

A condition may ask what credentials an account has. Before a run is bound to an account that answer
would tell an outsider whether the account exists, so the validator rejects a transition with such a
condition wherever a path can take its signal without an account-binding proof. Two runs that report
the same signals, and whose facts differ in nothing but the account, are compared here.

* `Routes`: a run of a validated definition, with the signals it reported and the facts it met;
* `evaluate_of_agree`: a condition that does not mention the account reads only what the runs share;
* `resolve_of_agree`: without an account-binding proof a signal is followed alike in both runs;
* `routes_of_agree`: so both runs are at the same node.
-/

namespace RiAuth.Workflow

open Checks

/-! ## Runs and what two of them share -/

/-- `Routes v events node held`: the run reported the signals of `events`, each under the facts next
to it, is now at `node` and holds the proofs `held`. -/
inductive Routes (v : Validated) : List (Label × Facts) → Target → List Proof → Prop
  | start {entry : Step} : v.entry = some entry → Routes v [] (.step entry) []
  | next {events : List (Label × Facts)} {step : Step} {held : List Proof} {signal : Label}
      {facts : Facts} {target : Target} :
    Routes v events (.step step) held → signal ∈ step.action.signals →
    v.resolve step.id signal facts = .ok target →
    Routes v (events ++ [(signal, facts)]) target (held ++ (step.action.proof signal).toList)

/-- The facts agree, except that every account condition may take any value. -/
structure Facts.Agree (f g : Facts) : Prop where
  hasProof : f.hasProof = g.hasProof
  requestRequiresMfa : f.requestRequiresMfa = g.requestRequiresMfa

/-- The same signal, under facts that agree. -/
def SameReport (a b : Label × Facts) : Prop := a.1 = b.1 ∧ a.2.Agree b.2

/-- None of the proofs establishes which account the run is acting for. -/
def Unbound (held : List Proof) : Prop := mask held &&& accountBound = 0

instance (held : List Proof) : Decidable (Unbound held) :=
  inferInstanceAs (Decidable (_ = _))

variable {held : List Proof} {node : Target}

theorem Unbound.of_append {gained : Option Proof} (h : Unbound (held ++ gained.toList)) :
    Unbound held := by
  unfold Unbound at h ⊢
  rw [mask_append_gained, Nat.and_or_distrib_right] at h
  exact (Nat.or_eq_zero_iff.mp h).1

theorem Routes.runs {v : Validated} {events : List (Label × Facts)} (h : Routes v events node held) :
    ∃ trace, Runs v trace node held := by
  induction h with
  | start hentry => exact ⟨[], .start hentry⟩
  | next _ hsignal hresolve ih =>
    obtain ⟨trace, hruns⟩ := ih
    exact ⟨_, hruns.next hsignal hresolve⟩

theorem Routes.first {v : Validated} (h : Routes v [] node held) :
    ∃ entry, v.entry = some entry ∧ node = .step entry ∧ held = [] := by
  generalize hevents : [] = events at h
  cases h with
  | start hentry => exact ⟨_, hentry, rfl, rfl⟩
  | next => simp at hevents

theorem Routes.last {v : Validated} {events : List (Label × Facts)} {report : Label × Facts}
    (h : Routes v (events ++ [report]) node held) :
    ∃ step before, Routes v events (.step step) before ∧
      v.resolve step.id report.1 report.2 = .ok node ∧
      held = before ++ (step.action.proof report.1).toList := by
  generalize hevents : events ++ [report] = all at h
  cases h with
  | start => simp at hevents
  | next hroutes _ hresolve =>
    obtain ⟨rfl, hreport⟩ := List.append_inj' hevents rfl
    cases hreport
    exact ⟨_, _, hroutes, hresolve, rfl⟩

/-! ## Conditions -/

section Conditions

variable {f g : Facts}

mutual

/-- A condition that does not mention the account reads only what the facts agree on. -/
theorem evaluate_of_agree (h : f.Agree g) :
    ∀ c : Condition, c.mentionsAccount = false → c.evaluate f = c.evaluate g
  | .accountHas _, hc => nomatch hc
  | .hasProof p, _ => congrFun h.hasProof p
  | .requestRequiresMfa, _ => h.requestRequiresMfa
  | .all of, hc => (evaluateIn_of_agree h of hc).1
  | .any of, hc => (evaluateIn_of_agree h of hc).2
  | .not c, hc => congrArg (!·) (evaluate_of_agree h c hc)

theorem evaluateIn_of_agree (h : f.Agree g) :
    ∀ of : List Condition, Condition.mentionsAccountIn of = false →
      Condition.evaluateAll f of = Condition.evaluateAll g of ∧
        Condition.evaluateAny f of = Condition.evaluateAny g of
  | [], _ => ⟨rfl, rfl⟩
  | c :: of, hc => by
    rw [Condition.mentionsAccountIn, Bool.or_eq_false_iff] at hc
    have hone := evaluate_of_agree h c hc.1
    obtain ⟨hall, hany⟩ := evaluateIn_of_agree h of hc.2
    simp only [Condition.evaluateAll, Condition.evaluateAny, hone, hall, hany, and_self]

end

end Conditions

/-! ## One signal -/

section Reports

variable {v : Validated} {env : Environment} {edges : Edges} {entry : ℕ} {order : List ℕ}

variable {held : List Proof}

/-- What the disclosure check leaves behind: a signal that binds no account is followed without
looking at the account. -/
theorem when_of_checkNode {d : Definition} (hedges : checkSteps d env = .ok edges)
    {table : Arrivals} {i : ℕ} {step : Step} {n : ℕ} (hstep : d.steps[i]? = some step)
    (hcovered : Covered table i (held, n)) (h : checkNode d edges table i = .ok ()) {t : Transition}
    (ht : t ∈ step.transitions) (hunbound : Unbound (held ++ (step.action.proof t.on).toList)) :
    t.when.any Condition.mentionsAccount = false := by
  obtain ⟨e, he, hon⟩ := mem_zip_of_checkSteps hedges hstep ht
  unfold checkNode at h
  rw [hstep] at h
  obtain ⟨j, hj⟩ := List.getElem?_of_mem he
  have hcheck := forM_ok.mp (seq_ok.mp h).2 ((t, e), j)
    (List.mem_of_getElem? (show _[j]? = some ((t, e), j) by simp [hj]))
  have hdisclosure := require_ok.mp hcheck
  refine Bool.eq_false_iff.mpr fun hmentions => hdisclosure ⟨hmentions, mask held, ?_, ?_⟩
  · exact List.mem_map.mpr ⟨(mask held, ()), OrdMap.mem_entries_iff.mpr hcovered, rfl⟩
  · rw [hon, gained, ← mask_append_gained]
    exact hunbound

/-- **Without an account-binding proof a signal is followed alike** under facts that agree. -/
theorem resolve_of_agree (hedges : checkSteps v.definition env = .ok edges)
    (hc : Checked v.definition edges entry order) {trace : List Step} {step : Step}
    (hruns : Runs v trace (.step step) held) {signal : Label}
    (hunbound : Unbound (held ++ (step.action.proof signal).toList)) {f g : Facts} (h : f.Agree g) :
    v.resolve step.id signal f = v.resolve step.id signal g := by
  obtain ⟨i, -, table, hat, -, -, hcovered, hnode⟩ := hruns.arrival hc
  -- The transitions tried for the signal match alike, so the first match is the same.
  have hmatch : ∀ t ∈ step.transitions.filter fun t => t.on = signal,
      t.when.all (Condition.evaluate f) = t.when.all (Condition.evaluate g) := by
    intro t ht
    obtain ⟨hmem, hon⟩ := List.mem_filter.mp ht
    have hwhen := when_of_checkNode hedges hat.steps hcovered hnode hmem
      (of_decide_eq_true hon ▸ hunbound)
    cases hcondition : t.when with
    | none => rfl
    | some c =>
      rw [hcondition] at hwhen
      exact evaluate_of_agree h c hwhen
  unfold Validated.resolve
  rw [hat.step_eq]
  dsimp only
  rw [List.find?_congr hmatch]

/-- **Two runs that share their reports are at the same node** while they are bound to no
account. -/
theorem routes_of_agree (hedges : checkSteps v.definition env = .ok edges)
    (hc : Checked v.definition edges entry order) {events : List (Label × Facts)} {node : Target}
    (h : Routes v events node held) (hunbound : Unbound held) {events' : List (Label × Facts)}
    {node' : Target} {held' : List Proof} (h' : Routes v events' node' held')
    (hsame : List.Forall₂ SameReport events events') : node = node' ∧ held = held' := by
  induction h generalizing events' node' held' with
  | start hentry =>
    cases hsame
    obtain ⟨entry', hentry', rfl, rfl⟩ := h'.first
    rw [hentry] at hentry'
    cases hentry'
    exact ⟨rfl, rfl⟩
  | next hroutes _ hresolve ih =>
    obtain ⟨before, report, rfl, hbefore, hsignal, hagree⟩ := List.forall₂_concat_left hsame
    obtain ⟨step', held₀, hroutes', hresolve', rfl⟩ := h'.last
    obtain ⟨hnode, rfl⟩ := ih hunbound.of_append hroutes' hbefore
    cases hnode
    obtain ⟨trace, hruns⟩ := hroutes.runs
    dsimp only at hsignal hagree
    rw [← hsignal, ← resolve_of_agree hedges hc hruns hunbound hagree, hresolve] at hresolve'
    cases hresolve'
    exact ⟨rfl, by rw [hsignal]⟩

end Reports

/-! ## Whole runs -/

/-- **Routing does not disclose accounts.** Take two runs of a validated definition that report the
same signals, under facts that agree except about the account. After every number of transitions at
which the proofs held bind no account, both are at the same node with the same proofs; if they are
never bound they end at the same terminal. -/
theorem routing_undisclosed (v : Validated) {events events' : List (Label × Facts)}
    (hsame : List.Forall₂ SameReport events events') :
    (∀ k node node' held held', Routes v (events.take k) node held →
      Routes v (events'.take k) node' held' → Unbound held → node = node' ∧ held = held') ∧
    ∀ terminal terminal' held held', Routes v events (.terminal terminal) held →
      Routes v events' (.terminal terminal') held' → Unbound held → terminal = terminal' := by
  obtain ⟨env, hcheck⟩ := v.checked
  obtain ⟨edges, entry, order, hedges, hc⟩ := check_ok hcheck
  refine ⟨fun k node node' held held' hroutes hroutes' hunbound => ?_,
    fun terminal terminal' held held' hroutes hroutes' hunbound => ?_⟩
  · exact routes_of_agree hedges hc hroutes hunbound hroutes' (List.forall₂_take k hsame)
  · exact Target.terminal.inj (routes_of_agree hedges hc hroutes hunbound hroutes' hsame).1

/-- Facts about an account that has every credential, or none. -/
def accountFacts (has : Bool) : Facts := ⟨fun _ => has, fun _ => false, false⟩

theorem signIn_failed (has : Bool) :
    Routes passwordSignIn [(.failed, accountFacts has)] (.terminal Essentials.denied) [] := by
  obtain ⟨entry, hentry, hsignal, hproof, hresolve⟩ : ∃ entry, passwordSignIn.entry = some entry ∧
      Label.failed ∈ entry.action.signals ∧ entry.action.proof .failed = none ∧
      passwordSignIn.resolve entry.id .failed (accountFacts has) =
        .ok (.terminal Essentials.denied) := by
    refine ⟨_, rfl, by decide, rfl, ?_⟩
    cases has <;> rfl
  have hroutes := Routes.next (.start hentry) hsignal hresolve
  rw [hproof] at hroutes
  exact hroutes

/-- Whoever fails the password ends at the same denial, with a second factor or without an
account. -/
theorem routing_undisclosed_signIn :
    Routes passwordSignIn [(.failed, accountFacts true)] (.terminal Essentials.denied) [] ∧
      Unbound [] ∧
      ∀ terminal held,
        Routes passwordSignIn [(.failed, accountFacts false)] (.terminal terminal) held →
        Essentials.denied = terminal := by
  have hsame : List.Forall₂ SameReport [(.failed, accountFacts true)]
      [(.failed, accountFacts false)] := .cons ⟨rfl, rfl, rfl⟩ .nil
  exact ⟨signIn_failed true, by decide, fun terminal held h =>
    (routing_undisclosed passwordSignIn hsame).2 _ terminal _ held (signIn_failed true) h (by decide)⟩

end RiAuth.Workflow
