import RiAuth.Saml.Logout

/-!
# The account of a logout

Whatever calls come to a flow, in any order and at any time, its counts agree with what happened.

* `Step`, `Run`: calls that succeed, newest first;
* `Account`: what the calls so far say of the flow;
* **`saml_logout_accounting`**: every target is counted once, and success means that none failed.
-/

namespace RiAuth.Saml

open Checks

variable {W K : Type} (port : Port W K)

/-! ## Runs -/

/-- What a call did. -/
inductive Event where
  /-- A request went to the target at a position. -/
  | dispatched (position : ℕ) (id : Text)
  /-- A response was taken for the target at a position. -/
  | consumed (position : ℕ) (id : Text) (success : Bool)
  | finished (reply : Reply)
  | other

/-- A call that comes to a flow, after some events. A call that fails changes nothing. -/
inductive Step (events : List Event) : Flow → Event → Flow → Prop
  /-- New identifiers have not been used. -/
  | dispatch {w : W} {now : ℕ} {fresh : ℕ → Text} {ticket : Text} {flow flow' : Flow}
      {reply : Reply} {pending : Pending}
      (hfresh : ∀ p id, .dispatched p id ∈ events → ∀ q, id ≠ '_' :: fresh q)
      (hnext : next port w now fresh ticket (some flow) = .ok (flow', reply, some pending)) :
      Step events flow (.dispatched flow'.position pending.id) flow'
  | finish {w : W} {now : ℕ} {fresh : ℕ → Text} {ticket : Text} {flow flow' : Flow}
      {reply : Reply}
      (hnext : next port w now fresh ticket (some flow) = .ok (flow', reply, none)) :
      Step events flow (.finished reply) flow'
  | respond {w : W} {now : ℕ} {flow flow' : Flow} {peer : Peer} {raw : Text} {post : Bool}
      {response : LogoutResponse}
      (hresponse : responseIn port w now (some flow) peer raw post = .ok (flow', response)) :
      Step events flow (.consumed flow.position response.request response.success) flow'
  | other {flow : Flow} : Step events flow .other flow

/-- What happens to a flow from its start on, newest first. -/
inductive Run : Flow → List Event → Flow → Prop
  | start {w : W} {now : ℕ} {id : Text} {sessionIds : List Text} {finish : Finish} {reply : Reply}
      {flow : Flow} (hstart : start port w now id sessionIds finish = .ok (reply, some flow)) :
      Run flow [] flow
  | next {first flow flow' : Flow} {events : List Event} {e : Event}
      (hrun : Run first events flow) (hstep : Step port events flow e flow') :
      Run first (e :: events) flow'

section

variable {port}

/-- What the events say of a flow that began as another. -/
structure Account (first : Flow) (events : List Event) (flow : Flow) : Prop where
  targets : flow.targets = first.targets
  position : flow.position ≤ flow.targets.length
  balance : flow.confirmed + flow.failed = flow.position + first.failed
  confirmed : flow.confirmed ≤ flow.position
  pending : ∀ pd ∈ flow.pending, flow.position < flow.targets.length ∧
    .dispatched flow.position pd.id ∈ events
  /-- What was sent to the current target is what is pending. -/
  current : ∀ id, .dispatched flow.position id ∈ events → ∃ pd ∈ flow.pending, pd.id = id
  dispatched : ∀ p id, .dispatched p id ∈ events → p ≤ flow.position
  oneId : ∀ p id id', .dispatched p id ∈ events → .dispatched p id' ∈ events → id = id'
  onePosition : ∀ p p' id, .dispatched p id ∈ events → .dispatched p' id ∈ events → p = p'
  consumed : ∀ p id s, .consumed p id s ∈ events → p < flow.position ∧ .dispatched p id ∈ events

variable {first : Flow} {reply : Reply}

theorem Account.other {flow : Flow} {events : List Event} {e : Event}
    (h : Account first events flow) (hd : ∀ p id, e ≠ .dispatched p id)
    (hc : ∀ p id s, e ≠ .consumed p id s) : Account first (e :: events) flow := by
  have hdispatched : ∀ p id, .dispatched p id ∈ e :: events ↔ .dispatched p id ∈ events :=
    fun p id => ⟨fun hmem => (List.mem_cons.mp hmem).resolve_left (hd p id).symm,
      List.mem_cons_of_mem _⟩
  have hconsumed : ∀ p id s, .consumed p id s ∈ e :: events ↔ .consumed p id s ∈ events :=
    fun p id s => ⟨fun hmem => (List.mem_cons.mp hmem).resolve_left (hc p id s).symm,
      List.mem_cons_of_mem _⟩
  constructor
  case targets => exact h.targets
  case position => exact h.position
  case balance => exact h.balance
  case confirmed => exact h.confirmed
  case pending => simpa only [hdispatched] using h.pending
  case current => simpa only [hdispatched] using h.current
  case dispatched => simpa only [hdispatched] using h.dispatched
  case oneId => simpa only [hdispatched] using h.oneId
  case onePosition => simpa only [hdispatched] using h.onePosition
  case consumed => simpa only [hdispatched, hconsumed] using h.consumed

theorem mem_dispatched {events : List Event} {p q : ℕ} {id id' : Text} :
    .dispatched p id ∈ .dispatched q id' :: events ↔
      (p = q ∧ id = id') ∨ .dispatched p id ∈ events := by
  simp

/-- A relation stays functional with one more pair. -/
theorem unique_cons {α β : Type} {R S : α → β → Prop} {a : α} {b : β}
    (hS : ∀ {x y}, S x y → (x = a ∧ y = b) ∨ R x y)
    (hR : ∀ x y y', R x y → R x y' → y = y') (hnew : ∀ y, R a y → y = b)
    {x : α} {y y' : β} (hy : S x y) (hy' : S x y') : y = y' := by
  rcases hS hy with ⟨rfl, rfl⟩ | hy <;> rcases hS hy' with ⟨hx, rfl⟩ | hy'
  · rfl
  · exact (hnew y' hy').symm
  · exact hnew y (hx ▸ hy)
  · exact hR x y y' hy hy'

/-- The account after a request went out. -/
theorem Account.dispatch {flow flow' : Flow} {events : List Event} {fresh : ℕ → Text} {pd : Pending}
    (h : Account first events flow) (hadvanced : Advanced fresh flow flow' (some pd))
    (hfresh : ∀ p id, .dispatched p id ∈ events → ∀ q, id ≠ '_' :: fresh q) :
    Account first (.dispatched flow'.position pd.id :: events) flow' := by
  obtain ⟨hpending, hlt, hcases⟩ := hadvanced.request pd rfl
  have hposition := hadvanced.position
  have hfailed := hadvanced.failed
  have hconfirmed := hadvanced.confirmed
  have hbalance := h.balance
  have hle := h.confirmed
  -- what was sent to this target before is what goes out again
  have hsame : ∀ id, .dispatched flow'.position id ∈ events → id = pd.id := by
    intro id hid
    have heq : flow'.position = flow.position := le_antisymm (h.dispatched _ _ hid) hposition
    rw [heq] at hid
    obtain ⟨pd', hpd', rfl⟩ := h.current id hid
    rcases hcases with ⟨-, hold⟩ | ⟨hnone, -⟩
    · cases hold.symm.trans hpd'
      rfl
    · cases (hnone heq).symm.trans hpd'
  have hother : ∀ p, .dispatched p pd.id ∈ events → p = flow'.position := by
    intro p hp
    rcases hcases with ⟨heq, hold⟩ | ⟨-, hid⟩
    · exact (h.onePosition _ _ _ hp (h.pending pd hold).2).trans heq.symm
    · exact absurd hid (hfresh p pd.id hp _)
  constructor
  case targets => exact hadvanced.targets.trans h.targets
  case position => exact hadvanced.targets ▸ hlt.le
  case balance => omega
  case confirmed => omega
  case pending =>
    intro pd' hpd'
    cases hpending.symm.trans hpd'
    exact ⟨hadvanced.targets ▸ hlt, List.mem_cons_self⟩
  case current =>
    intro id hid
    rcases List.mem_cons.mp hid with heq | hid
    · cases heq
      exact ⟨pd, hpending, rfl⟩
    · exact ⟨pd, hpending, (hsame id hid).symm⟩
  case dispatched =>
    intro p id hid
    rcases List.mem_cons.mp hid with heq | hid
    · cases heq
      exact le_rfl
    · exact (h.dispatched p id hid).trans hposition
  case oneId =>
    intro p id id' hid hid'
    exact unique_cons (R := fun p id => .dispatched p id ∈ events) mem_dispatched.mp h.oneId hsame
      hid hid'
  case onePosition =>
    intro p p' id hid hid'
    exact unique_cons (R := fun id p => .dispatched p id ∈ events)
      (S := fun id p => .dispatched p id ∈ .dispatched flow'.position pd.id :: events)
      (fun hmem => (mem_dispatched.mp hmem).imp_left And.symm)
      (fun id p p' => h.onePosition p p' id) hother hid hid'
  case consumed =>
    intro p id s hmem
    obtain ⟨hp, hdispatched⟩ :=
      h.consumed p id s ((List.mem_cons.mp hmem).resolve_left nofun)
    exact ⟨hp.trans_le hposition, List.mem_cons_of_mem _ hdispatched⟩

/-- The account after the last target. -/
theorem Account.finish {flow flow' : Flow} {events : List Event} {fresh : ℕ → Text}
    (h : Account first events flow) (hadvanced : Advanced fresh flow flow' none) :
    Account first events flow' := by
  obtain ⟨hend, hpending⟩ := hadvanced.finished rfl
  rcases hpending with hpending | rfl
  · have hposition := hadvanced.position
    have hfailed := hadvanced.failed
    have hconfirmed := hadvanced.confirmed
    have hbalance := h.balance
    have hle := h.confirmed
    constructor
    case targets => exact hadvanced.targets.trans h.targets
    case position => exact (hend.trans (congrArg List.length hadvanced.targets).symm).le
    case balance => omega
    case confirmed => omega
    case pending =>
      intro pd hpd
      cases hpending.symm.trans hpd
    case current =>
      intro id hid
      have heq : flow'.position = flow.position := le_antisymm (h.dispatched _ _ hid) hposition
      rw [heq] at hid hend
      obtain ⟨pd, hpd, -⟩ := h.current id hid
      exact absurd hend (h.pending pd hpd).1.ne
    case dispatched => exact fun p id hid => (h.dispatched p id hid).trans hposition
    case oneId => exact h.oneId
    case onePosition => exact h.onePosition
    case consumed =>
      intro p id s hmem
      exact ⟨(h.consumed p id s hmem).1.trans_le hposition, (h.consumed p id s hmem).2⟩
  · exact h

/-- The account after a response. -/
theorem Account.respond {flow flow' : Flow} {events : List Event} {pd : Pending} {success : Bool}
    (h : Account first events flow) (hpd : flow.pending = some pd)
    (htargets : flow'.targets = flow.targets) (hposition : flow'.position = flow.position + 1)
    (hpending : flow'.pending = none)
    (hbalance : flow'.confirmed + flow'.failed = flow.confirmed + flow.failed + 1)
    (hconfirmed : flow'.confirmed ≤ flow.confirmed + 1) :
    Account first (.consumed flow.position pd.id success :: events) flow' := by
  obtain ⟨hlt, hsent⟩ := h.pending pd hpd
  have hdispatched : ∀ p id, .dispatched p id ∈ .consumed flow.position pd.id success :: events →
      .dispatched p id ∈ events := fun p id hmem => (List.mem_cons.mp hmem).resolve_left nofun
  have hbefore := h.balance
  have hle := h.confirmed
  constructor
  case targets => exact htargets.trans h.targets
  case position =>
    rw [htargets]
    omega
  case balance => omega
  case confirmed => omega
  case pending =>
    intro pd' hpd'
    cases hpending.symm.trans hpd'
  case current =>
    intro id hid
    have := h.dispatched _ _ (hdispatched _ _ hid)
    omega
  case dispatched =>
    intro p id hid
    have := h.dispatched _ _ (hdispatched _ _ hid)
    omega
  case oneId =>
    exact fun p id id' hid hid' => h.oneId p id id' (hdispatched _ _ hid) (hdispatched _ _ hid')
  case onePosition =>
    exact fun p p' id hid hid' =>
      h.onePosition p p' id (hdispatched _ _ hid) (hdispatched _ _ hid')
  case consumed =>
    intro p id s hmem
    rcases List.mem_cons.mp hmem with heq | hmem
    · cases heq
      exact ⟨by omega, List.mem_cons_of_mem _ hsent⟩
    · have := h.consumed p id s hmem
      exact ⟨by omega, List.mem_cons_of_mem _ this.2⟩

theorem Step.account {flow flow' : Flow} {events : List Event} {e : Event}
    (hstep : Step port events flow e flow') (h : Account first events flow) :
    Account first (e :: events) flow' ∧ flow.position ≤ flow'.position := by
  cases hstep with
  | dispatch hfresh hnext =>
    have hadvanced := (next_ok h.position hnext).1
    exact ⟨h.dispatch hadvanced hfresh, hadvanced.position⟩
  | finish hnext =>
    have hadvanced := (next_ok h.position hnext).1
    exact ⟨(h.finish hadvanced).other nofun nofun, hadvanced.position⟩
  | respond hresponse =>
    obtain ⟨⟨pd, hpd, hid, -⟩, -, htargets, hposition, hpending, hbalance, hconfirmed⟩ :=
      responseIn_ok hresponse
    rw [← hid]
    exact ⟨h.respond hpd htargets hposition hpending hbalance hconfirmed, by omega⟩
  | other => exact ⟨h.other nofun nofun, le_rfl⟩

theorem Run.account {flow : Flow} {events : List Event} (h : Run port first events flow) :
    Account first events flow := by
  induction h with
  | start hstart =>
    obtain ⟨hposition, hconfirmed, hpending, -, -⟩ := start_ok hstart
    refine ⟨rfl, by omega, by omega, by omega, ?_, nofun, nofun, nofun, nofun, nofun⟩
    intro pd hpd
    cases hpending.symm.trans hpd
  | next hrun hstep ih => exact (hstep.account ih).1

/-- The identifier of a request whose response was taken. -/
def consumedId : Event → Option Text
  | .consumed _ id _ => some id
  | _ => none

theorem mem_consumedId {events : List Event} {id : Text} (h : id ∈ events.filterMap consumedId) :
    ∃ p s, .consumed p id s ∈ events := by
  obtain ⟨e, he, hid⟩ := List.mem_filterMap.mp h
  cases e with
  | consumed p id' s =>
    cases hid
    exact ⟨p, s, he⟩
  | dispatched => cases hid
  | finished => cases hid
  | other => cases hid

/-- No response is taken twice. -/
theorem Run.nodup {flow : Flow} {events : List Event} (h : Run port first events flow) :
    (events.filterMap consumedId).Nodup := by
  induction h with
  | start => exact List.nodup_nil
  | next hrun hstep ih =>
    cases hstep with
    | dispatch => exact ih
    | finish => exact ih
    | other => exact ih
    | respond hresponse =>
      refine List.nodup_cons.mpr ⟨fun hmem => ?_, ih⟩
      obtain ⟨⟨pd, hpd, hid, -⟩, -⟩ := responseIn_ok hresponse
      obtain ⟨p, s, hconsumed⟩ := mem_consumedId hmem
      obtain ⟨hlt, hdispatched⟩ := hrun.account.consumed p _ s hconsumed
      rw [← hid] at hdispatched
      exact absurd (hrun.account.onePosition _ _ _ hdispatched (hrun.account.pending pd hpd).2)
        hlt.ne

/-- Replies that report full success. -/
def Succeeds : Reply → Prop
  | .page status => status.status = "complete"
  | .logoutResponse _ partialLogout => partialLogout = false
  | _ => False

theorem finishReply_succeeds {w : W} {now : ℕ} {flow : Flow}
    (h : finishReply port w now flow = .ok reply) (hs : Succeeds reply) : flow.failed = 0 := by
  unfold finishReply at h
  split at h
  · simp only [bind_ok] at h
    obtain ⟨current, -, target, -, xml, -, -, -, h⟩ := h
    cases h
    have hs : decide (0 < flow.failed) = false := hs
    have := of_decide_eq_false hs
    omega
  · split at h
    · cases h
      cases hs
    · cases h
      have hs : (flow.report now).status = "complete" := hs
      by_contra hne
      simp only [Flow.report, hne, if_false] at hs
      split at hs
      · exact absurd hs (by decide)
      · split at hs <;> exact absurd hs (by decide)

/-- A logout that is over at once reports success only if there was nobody to be told. -/
theorem start_succeeds {w : W} {now : ℕ} {id : Text} {sessionIds : List Text} {finish : Finish}
    (h : start port w now id sessionIds finish = .ok (reply, none)) (hs : Succeeds reply) :
    (newFlow now id (participants port w now sessionIds finish) finish).failed = 0 ∧
      (newFlow now id (participants port w now sessionIds finish) finish).targets = [] := by
  unfold start at h
  rw [seq_ok] at h
  replace h := h.2
  dsimp only at h
  split at h
  · rename_i hnone
    rw [bind_ok] at h
    obtain ⟨r, hr, h⟩ := h
    cases h
    exact ⟨finishReply_succeeds hr hs, hnone.1⟩
  · split at h
    · rw [bind_ok] at h
      obtain ⟨r, hr, h⟩ := h
      cases h
      have hzero := finishReply_succeeds hr hs
      obtain ⟨hfailed, htargets⟩ := Nat.add_eq_zero_iff.mp hzero
      exact ⟨hfailed, List.eq_nil_of_length_eq_zero htargets⟩
    · cases h

/-- After the last reply nothing changes any more, and what it reported stays true. -/
theorem Run.finished {flow : Flow} {events : List Event} (h : Run port first events flow)
    (hreply : .finished reply ∈ events) :
    flow.position = flow.targets.length ∧ (Succeeds reply → flow.failed = 0) := by
  induction h with
  | start => exact absurd hreply List.not_mem_nil
  | @next first flow flow' events e hrun hstep ih =>
    have haccount := hrun.account
    cases hstep with
    | dispatch hfresh hnext =>
      have hdone := ih ((List.mem_cons.mp hreply).resolve_left nofun)
      have hadvanced := (next_ok haccount.position hnext).1
      have := (hadvanced.request _ rfl).2.1
      have := hadvanced.position
      omega
    | respond hresponse =>
      have hdone := ih ((List.mem_cons.mp hreply).resolve_left nofun)
      obtain ⟨⟨pd, hpd, -, -⟩, -⟩ := responseIn_ok hresponse
      exact absurd hdone.1 (haccount.pending pd hpd).1.ne
    | other => exact ih ((List.mem_cons.mp hreply).resolve_left nofun)
    | finish hnext =>
      obtain ⟨hadvanced, hfinish⟩ := next_ok haccount.position hnext
      have hend := (hadvanced.finished rfl).1
      refine ⟨hend.trans (congrArg List.length hadvanced.targets).symm, fun hs => ?_⟩
      rcases List.mem_cons.mp hreply with heq | hmem
      · cases heq
        exact finishReply_succeeds (hfinish rfl) hs
      · have hdone := ih hmem
        have := hadvanced.failed
        have := hdone.2 hs
        omega

/-- Whatever calls come: the position only grows, the counts are those of the targets passed and of
those that failed at the start, each target gets requests of one identifier only and its response is
taken once, while it is awaited. A last reply that reports success means that every target confirmed
and none failed. -/
theorem saml_logout_accounting {first flow : Flow} {events : List Event}
    (hrun : Run port first events flow) :
    (first.position = 0 ∧ first.confirmed = 0 ∧ first.targets.Nodup ∧
      flow.targets = first.targets ∧ flow.position ≤ flow.targets.length) ∧
    flow.confirmed + flow.failed = flow.position + first.failed ∧
    (∀ e flow', Step port events flow e flow' → flow.position ≤ flow'.position) ∧
    (∀ p id id', .dispatched p id ∈ events → .dispatched p id' ∈ events → id = id') ∧
    (events.filterMap consumedId).Nodup ∧
    (∀ p id s, .consumed p id s ∈ events → p < flow.position ∧ .dispatched p id ∈ events) ∧
    (∀ w now peer raw post flow' response,
      responseIn port w now (some flow) peer raw post = .ok (flow', response) →
      (∃ pending ∈ flow.pending, pending.id = response.request ∧ now < pending.deadline) ∧
      (∃ t ∈ flow.targets[flow.position]?, t.peer = peer) ∧ flow'.position = flow.position + 1) ∧
    (∀ reply, .finished reply ∈ events → Succeeds reply →
      flow.failed = 0 ∧ first.failed = 0 ∧ flow.confirmed = flow.targets.length) ∧
    (∀ w now id sessionIds finish reply,
      start port w now id sessionIds finish = .ok (reply, none) → Succeeds reply →
      (newFlow now id (participants port w now sessionIds finish) finish).failed = 0 ∧
        (newFlow now id (participants port w now sessionIds finish) finish).targets = []) := by
  have haccount := hrun.account
  have hfirst : first.position = 0 ∧ first.confirmed = 0 ∧ first.targets.Nodup := by
    clear haccount
    induction hrun with
    | start hstart =>
      obtain ⟨hposition, hconfirmed, -, hnodup, -⟩ := start_ok hstart
      exact ⟨hposition, hconfirmed, hnodup⟩
    | next _ _ ih => exact ih
  refine ⟨⟨hfirst.1, hfirst.2.1, hfirst.2.2, haccount.targets, haccount.position⟩,
    haccount.balance, fun e flow' hstep => (hstep.account haccount).2, haccount.oneId, hrun.nodup,
    haccount.consumed, ?_, ?_, fun w now id sessionIds finish reply => start_succeeds⟩
  · intro w now peer raw post flow' response hresponse
    obtain ⟨hpending, htarget, -, hposition, -⟩ := responseIn_ok hresponse
    exact ⟨hpending, htarget, hposition⟩
  · intro reply hreply hs
    obtain ⟨hend, hfailed⟩ := hrun.finished hreply
    have hzero := hfailed hs
    have hbalance := haccount.balance
    have hle := haccount.confirmed
    omega

end

/-! ## Examples -/

def sampleTicket : Text := List.replicate 43 'a'

/-- One session with two clients, which are reached by redirects. The first response reports
success, and no other does. -/
def samplePort : Port Unit Unit where
  sessionRecord := fun _ _ => none
  rpSessions := fun _ => ["c".toList, "d".toList].map fun c =>
    ⟨"s".toList, c, [], 100, "n".toList, [], some "i".toList⟩
  upstreamSession := fun _ _ => none
  sourceFormat := fun _ _ => none
  flows := fun _ _ => 0
  current := fun _ _ => .ok ⟨some "u".toList, none, ()⟩
  requestXml := fun _ _ _ id _ _ => .ok id
  encode := fun _ _ _ _ _ => .ok ()
  responseXml := fun _ _ _ _ _ => .ok []
  allowed := fun _ _ => false
  receive := fun _ raw _ => .ok ⟨sampleTicket, raw, raw = "_r0".toList⟩

/-- The flow of that session. -/
def sampleFlow (position : ℕ) (pending : Option Pending) (confirmed failed : ℕ) : Flow :=
  ⟨sampleTicket, 600, ["c".toList, "d".toList].map fun c =>
    ⟨.client c [], "n".toList, [], "i".toList⟩, position, pending, confirmed, failed,
    ⟨none, none, none, []⟩⟩

def samplePending (id : Text) : Pending := ⟨id, id, false, 30⟩

section

variable {events : List Event} {flow flow' : Flow} {id : Text}

theorem sample_dispatch (fresh : Text) {position confirmed : ℕ}
    (hfresh : ∀ p used, .dispatched p used ∈ events → used ≠ '_' :: fresh)
    (hnext : next samplePort () 0 (fun _ => fresh) sampleTicket (some flow) =
      .ok (sampleFlow position (some (samplePending id)) confirmed 0,
        .logoutRequest id sampleTicket, some (samplePending id))) :
    Step samplePort events flow (.dispatched position id)
      (sampleFlow position (some (samplePending id)) confirmed 0) :=
  .dispatch (fun p used hused _ => hfresh p used hused) hnext

theorem sample_respond (client : Text) {success : Bool}
    (h : responseIn samplePort () 0 (some flow) (.client client []) id false =
      .ok (flow', ⟨sampleTicket, id, success⟩)) :
    Step samplePort events flow (.consumed flow.position id success) flow' :=
  .respond h

end

theorem sample_dispatched : Run samplePort (sampleFlow 0 none 0 0) [.dispatched 0 "_r0".toList]
    (sampleFlow 0 (some (samplePending "_r0".toList)) 0 0) := by
  have hstart : start samplePort () 0 sampleTicket ["s".toList] ⟨none, none, none, []⟩ =
      .ok (.resume sampleTicket [], some (sampleFlow 0 none 0 0)) := rfl
  exact .next (.start hstart)
    (sample_dispatch "r0".toList (fun _ _ hid => absurd hid List.not_mem_nil) rfl)

theorem sample_consumed : Run samplePort (sampleFlow 0 none 0 0)
    [.consumed 0 "_r0".toList true, .dispatched 0 "_r0".toList] (sampleFlow 1 none 1 0) :=
  .next sample_dispatched (sample_respond "c".toList rfl)

/-- The first of two clients confirms and the second does not, which the last page reports. -/
theorem saml_logout_accounting_sample :
    ∃ flow, Run samplePort (sampleFlow 0 none 0 0)
        [.finished (.page (flow.report 0)), .consumed 1 "_r1".toList false,
          .dispatched 1 "_r1".toList, .consumed 0 "_r0".toList true,
          .dispatched 0 "_r0".toList] flow ∧
      (flow.report 0).status = "partial_logout" ∧ flow.position = 2 ∧
      flow.confirmed + flow.failed = flow.position + (sampleFlow 0 none 0 0).failed := by
  have hsecond : Run samplePort (sampleFlow 0 none 0 0) [.dispatched 1 "_r1".toList,
      .consumed 0 "_r0".toList true, .dispatched 0 "_r0".toList]
      (sampleFlow 1 (some (samplePending "_r1".toList)) 1 0) := by
    refine .next sample_consumed (sample_dispatch "r1".toList (fun p id hid => ?_) rfl)
    simp only [List.mem_cons, List.not_mem_nil, or_false] at hid
    rcases hid with hid | hid
    · cases hid
    · cases hid
      decide
  have hlast : next samplePort () 0 (fun _ => []) sampleTicket (some (sampleFlow 2 none 1 1)) =
      .ok (sampleFlow 2 none 1 1, .page ((sampleFlow 2 none 1 1).report 0), none) := rfl
  have hanswer : responseIn samplePort () 0 (some (sampleFlow 1 (some (samplePending "_r1".toList))
      1 0)) (.client "d".toList []) "_r1".toList false =
    .ok (sampleFlow 2 none 1 1, ⟨sampleTicket, "_r1".toList, false⟩) := rfl
  have hrun := (hsecond.next (.respond hanswer)).next (.finish hlast)
  exact ⟨_, hrun, rfl, rfl, (saml_logout_accounting hrun).2.1⟩

/-- A request that is pending goes out again with the next call. -/
theorem saml_logout_request_sent_twice : Run samplePort (sampleFlow 0 none 0 0)
    [.dispatched 0 "_r0".toList, .dispatched 0 "_r0".toList]
    (sampleFlow 0 (some (samplePending "_r0".toList)) 0 0) := by
  refine .next sample_dispatched (sample_dispatch "x".toList (fun p id hid => ?_) rfl)
  cases List.mem_singleton.mp hid
  decide

end RiAuth.Saml
