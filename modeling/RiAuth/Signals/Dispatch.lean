import RiAuth.Signals.Delivery

/-!
# A delivery is sent at most once per attempt

`Change` is the abstract view of a transaction: rows move on (`Moves`), a delivery is added, or one
is pinned for sending. Every transaction is a sequence of changes, and the invariant is kept by
each.

* **`after_changes`**: every transaction is a sequence of changes;
* `Sound`: what is known of the store, and of the attempts that were sent;
* **`dispatch_law`**: at most one dispatch per attempt and five per delivery, none once the delivery
  is over or its stream has gone, and a late answer changes nothing.
-/

namespace RiAuth.Signals

open History Workflow

/-! ## What a transaction can do -/

/-- What may happen to the row of a delivery, other than being pinned. -/
inductive Moves (d : Delivery) : Delivery → Prop
  | kept : Moves d d
  /-- The delivery is over. A claim that finds a bad destination counts one more attempt. -/
  | finished {d' : Delivery} : d'.ended = true → d'.streamId = d.streamId → d'.uri = d.uri →
      (d'.attempts = d.attempts ∨ d'.attempts = d.attempts + 1 ∧ d.attempts < MAX_ATTEMPTS) →
      (d'.lease = none ∨ d'.lease = d.lease ∧ d'.dispatchStarted = d.dispatchStarted ∧
        d'.attempts = d.attempts) → Moves d d'
  /-- The attempt failed and another one may follow. -/
  | released {d' : Delivery} : d.ended = false → d'.streamId = d.streamId → d'.uri = d.uri →
      d'.attempts = d.attempts → d'.lease = none → Moves d d'
  /-- A worker claimed the next attempt. -/
  | claimed {d' : Delivery} : d.ended = false → d'.streamId = d.streamId → d'.uri = d.uri →
      d.attempts < MAX_ATTEMPTS → d'.attempts = d.attempts + 1 → d'.dispatchStarted = none →
      Moves d d'

/-- A row was pinned for sending. -/
def Tables.pin (t : Tables) (id : Text) (d : Delivery) : Tables :=
  { t.putDelivery id { d with dispatchStarted := some true } with
    dispatched := (id, d.attempts) :: t.dispatched }

/-- What one step may do to the tables. -/
inductive Change (t : Tables) : Tables → Prop
  /-- Rows moved on or were deleted. A delivery that goes on still has its stream. -/
  | moved {t' : Tables} : t'.created = t.created → t'.dispatched = t.dispatched →
      (∀ id d', t'.deliveries id = some d' → ∃ d, t.deliveries id = some d ∧ Moves d d' ∧
        (d'.ended = false → t.current d' = true → t'.current d' = true)) → Change t t'
  | added (id : Text) (d : Delivery) : id ∉ t.created → d.attempts = 0 → d.lease = none →
      t.current d = true → Change t { t.putDelivery id d with created := id :: t.created }
  | pinned (id : Text) (d : Delivery) : t.deliveries id = some d → d.ended = false →
      d.lease ≠ none → d.dispatchStarted ≠ some true → t.current d = true → Change t (t.pin id d)

/-- Changes one after another. -/
abbrev Changes : Tables → Tables → Prop := Relation.ReflTransGen Change

section

variable {x : Destinations} {t t' : Tables} {id : Text} {d d' : Delivery}

theorem Moves.streamId (h : Moves d d') : d'.streamId = d.streamId := by
  cases h with
  | kept => rfl
  | finished _ h _ _ _ => exact h
  | released _ h _ _ _ => exact h
  | claimed _ h _ _ _ _ => exact h

theorem Moves.uri (h : Moves d d') : d'.uri = d.uri := by
  cases h with
  | kept => rfl
  | finished _ _ h _ _ => exact h
  | released _ _ h _ _ => exact h
  | claimed _ _ h _ _ _ => exact h

theorem Tables.current_congr (hstream : d'.streamId = d.streamId) (huri : d'.uri = d.uri) :
    t.current d' = t.current d := by
  rw [Tables.current, Tables.current, hstream, huri]

theorem Tables.putDelivery_row (id' : Text) :
    (t.putDelivery id d).deliveries id' = if id' = id then some d else t.deliveries id' :=
  Function.update_apply ..

/-- One row moved on. -/
theorem Change.put (hrow : t.deliveries id = some d) (h : Moves d d') :
    Change t (t.putDelivery id d') := by
  refine .moved rfl rfl fun id' found hfound => ?_
  rw [Tables.putDelivery_row] at hfound
  split_ifs at hfound with hid
  · cases hfound
    exact ⟨d, hid ▸ hrow, h, fun _ hcurrent => hcurrent⟩
  · exact ⟨found, hfound, .kept, fun _ hcurrent => hcurrent⟩

theorem claimRow_moves {now : ℕ} {lease : Text} {send : Bool}
    (h : claimRow x t now lease d = some (d', send)) : Moves d d' := by
  unfold claimRow at h
  split_ifs at h with hover hspent hurl
  · cases h
    exact .finished (by simp [Delivery.ended, clearOwner]) rfl rfl (.inl rfl) (.inl rfl)
  · cases h
    have hattempts : d.attempts < MAX_ATTEMPTS := Nat.lt_of_not_le fun hle => hspent (.inl hle)
    exact .finished (by simp [Delivery.ended, clearOwner]) rfl rfl (.inr ⟨rfl, hattempts⟩) (.inl rfl)
  · have hattempts : d.attempts < MAX_ATTEMPTS := Nat.lt_of_not_le fun hle => hspent (.inl hle)
    have hended : d.ended = false := by
      rw [not_or, not_or] at hover
      simp [Delivery.ended, hover.1, hover.2.1]
    split at h
    · cases h
      exact .finished (by simp [Delivery.ended, clearOwner]) rfl rfl (.inl rfl) (.inl rfl)
    · split_ifs at h
      · cases h
        exact .finished (by simp [Delivery.ended, clearOwner]) rfl rfl (.inl rfl) (.inl rfl)
      · cases h
        exact .finished (by simp [Delivery.ended, clearOwner]) rfl rfl (.inr ⟨rfl, hattempts⟩)
          (.inl rfl)
      · cases h
        exact .claimed hended rfl rfl hattempts rfl rfl

theorem claimFrom_changes (excluded : List Text) (now : ℕ) (due : List (Text × Text)) (room : ℕ)
    (t : Tables) : Changes t (claimFrom x excluded now room due t).1 := by
  induction due generalizing room t with
  | nil => exact .refl
  | cons row due ih =>
    obtain ⟨id, lease⟩ := row
    unfold claimFrom
    split_ifs
    · exact .refl
    · exact ih room t
    · split
      · exact ih room t
      · next d' hclaim =>
        obtain ⟨d, hrow, hd⟩ := Option.bind_eq_some_iff.mp hclaim
        exact .head (.put hrow (claimRow_moves hd)) (ih room _)
      · next d' hclaim =>
        obtain ⟨d, hrow, hd⟩ := Option.bind_eq_some_iff.mp hclaim
        exact .head (.put hrow (claimRow_moves hd)) (ih (room - 1) _)

theorem beginDispatch_changes (lease : Text) (now : ℕ) :
    Changes t (recordDispatch id t (beginDispatch id lease now t)) := by
  unfold beginDispatch
  split_ifs with hempty
  · exact .refl
  cases hrow : t.deliveries id with
  | none => exact .refl
  | some d =>
    dsimp only
    split_ifs with hother hstopped hpinned hgone
    · exact .refl
    · exact .single (.put hrow (.finished (by simp [Delivery.ended, clearOwner, hstopped]) rfl rfl
        (.inl rfl) (.inl rfl)))
    · exact .refl
    · exact .single (.put hrow (.finished (by simp [Delivery.ended, clearOwner]) rfl rfl (.inl rfl)
        (.inl rfl)))
    · obtain ⟨hdelivered, hlease⟩ := not_or.mp hother
      have hended : d.ended = false := by
        simp [Delivery.ended, hstopped, hdelivered]
      have hpin :
          recordDispatch id t (t.putDelivery id { d with dispatchStarted := some true }, true) =
          t.pin id d := by
        simp only [recordDispatch, hrow, Option.elim_some, Tables.pin]
      rw [hpin]
      refine .single (.pinned id d hrow hended ?_ (not_or.mp hpinned).1 (by simpa using hgone))
      rw [not_not.mp hlease]
      exact Option.some_ne_none _

theorem finishRow_moves {attempt now : ℕ} {status : Option ℕ}
    (h : finishRow attempt status now d = some d') : Moves d d' := by
  unfold finishRow at h
  by_cases hold : d.attempts ≠ attempt ∨ d.deliveredAt.isSome = true ∨ d.stopped = true
  · rw [if_pos hold] at h
    cases h
  rw [if_neg hold] at h
  dsimp only at h
  split_ifs at h
  · cases h
    exact .finished (by simp [Delivery.ended, clearOwner]) rfl rfl (.inl rfl) (.inl rfl)
  · cases h
    exact .finished (by simp [Delivery.ended, clearOwner]) rfl rfl (.inl rfl) (.inl rfl)
  · cases h
    rw [not_or, not_or] at hold
    exact .released (by simp [Delivery.ended, hold.2.1, hold.2.2]) rfl rfl rfl rfl

theorem finishDelivery_changes (attempt : ℕ) (status : Option ℕ) (now : ℕ) :
    Changes t (finishDelivery id attempt status now t) := by
  unfold finishDelivery
  split
  · exact .refl
  · next d' hfinish =>
    obtain ⟨d, hrow, hd⟩ := Option.bind_eq_some_iff.mp hfinish
    exact .single (.put hrow (finishRow_moves hd))

/-- The rows of a stream are over once its pending deliveries were cancelled. -/
theorem cancelPending_row {streamId : Text} (h : (cancelPending streamId t).deliveries id = some d') :
    ∃ d, t.deliveries id = some d ∧ Moves d d' ∧ (d'.streamId = streamId → d'.ended = true) := by
  obtain ⟨d, hrow, rfl⟩ := Option.map_eq_some_iff.mp h
  refine ⟨d, hrow, ?_⟩
  split_ifs with hpending
  · exact ⟨.finished (by simp [Delivery.ended]) rfl rfl (.inl rfl) (.inr ⟨rfl, rfl, rfl⟩),
      fun _ => by simp [Delivery.ended]⟩
  · refine ⟨.kept, fun hstream => ?_⟩
    rw [not_and, not_and] at hpending
    cases hdelivered : d.deliveredAt with
    | some at_ => simp [Delivery.ended, hdelivered]
    | none => simpa [Delivery.ended, hdelivered] using hpending hstream hdelivered

/-- A stream was replaced or removed, after its pending deliveries were cancelled. -/
theorem Change.replaced (streamId : Text) (stream : Option Stream) :
    Change t ((cancelPending streamId t).putStream streamId stream) := by
  refine .moved rfl rfl fun id d' hrow => ?_
  obtain ⟨d, hbefore, hmoves, hover⟩ := cancelPending_row hrow
  refine ⟨d, hbefore, hmoves, fun hended hcurrent => ?_⟩
  have hother : d'.streamId ≠ streamId := fun hsame => by
    rw [hover hsame] at hended
    cases hended
  rw [Tables.current] at hcurrent ⊢
  exact (congrArg _ (Function.update_of_ne hother _ _)).trans hcurrent

/-- A stream was replaced by one with the same destination, or a new one came. -/
theorem Change.putStream {streamId : Text} {stream : Stream}
    (h : ∀ old, t.streams streamId = some old → old.endpointUrl = stream.endpointUrl) :
    Change t (t.putStream streamId (some stream)) := by
  refine .moved rfl rfl fun id d hrow => ⟨d, hrow, .kept, fun _ hcurrent => ?_⟩
  rw [Tables.current] at hcurrent ⊢
  unfold Tables.putStream
  dsimp only
  rw [Function.update_apply]
  split_ifs with hid
  · obtain ⟨old, hold, huri⟩ := (Option.any_eq_true _ _).mp hcurrent
    rw [Option.any_some, ← h old (hid ▸ hold)]
    exact huri
  · exact hcurrent

/-- **Every transaction is a sequence of changes.** -/
theorem after_changes {e : Event} (hfresh : e.fresh t = true) : Changes t (e.after x t) := by
  cases e with
  | enqueue streamId subject userId event credentialType id now =>
    change Changes t (enqueue streamId subject userId event credentialType id now t)
    unfold enqueue
    split
    · exact .refl
    · next stream hstream =>
      split_ifs
      · refine .single (.added id _ (by simpa [Event.fresh] using hfresh) rfl rfl ?_)
        simp [Tables.current, hstream]
      · exact .refl
  | claim limit excluded due now => exact claimFrom_changes excluded now _ _ t
  | begin_ id lease now => exact beginDispatch_changes lease now
  | finish id attempt status now => exact finishDelivery_changes attempt status now
  | cancel streamId =>
    refine .single (.moved rfl rfl fun id d' hrow => ?_)
    obtain ⟨d, hbefore, hmoves, -⟩ := cancelPending_row hrow
    exact ⟨d, hbefore, hmoves, fun _ hcurrent => hcurrent⟩
  | createStream id stream =>
    change Changes t (createStream id stream t)
    unfold createStream
    split
    · next hnone =>
      exact .single (.putStream fun old hold => nomatch hnone.symm.trans hold)
    · exact .refl
  | deleteStream id => exact .single (.replaced id none)
  | updateReceiver id events method endpoint authorization =>
    change Changes t (updateReceiver id events method endpoint authorization t)
    unfold updateReceiver
    split
    · exact .refl
    · next stream hstream =>
      dsimp only
      split_ifs with hchanged
      · exact .single (.replaced id _)
      · rw [not_or, not_or, not_not, not_not] at hchanged
        refine .single (.putStream fun old hold => ?_)
        cases hstream.symm.trans hold
        exact hchanged.2.1.symm
  | bindSubjects id subjects =>
    change Changes t (bindSubjects id subjects t)
    unfold bindSubjects
    split
    · exact .refl
    · split_ifs
      · exact .refl
      · exact .single (.replaced id _)
  | cleanup page now =>
    refine .single (.moved rfl rfl fun id d hrow => ?_)
    exact ⟨d, (Option.filter_eq_some_iff.mp hrow).1, .kept, fun _ hcurrent => hcurrent⟩

/-! ## The invariant -/

/-- What is known of a delivery, with the attempts that were sent. -/
structure RowSound (t : Tables) (id : Text) (d : Delivery) : Prop where
  known : id ∈ t.created
  bounded : d.attempts ≤ MAX_ATTEMPTS
  claimed : d.lease ≠ none → 1 ≤ d.attempts
  current : d.ended = false → t.current d = true
  sent : ∀ attempt, (id, attempt) ∈ t.dispatched → attempt ≤ d.attempts
  pinned : (id, d.attempts) ∈ t.dispatched → d.dispatchStarted = some true ∨ d.lease = none

/-- The invariant of all runs. -/
structure Sound (t : Tables) : Prop where
  rows : ∀ id d, t.deliveries id = some d → RowSound t id d
  sent : ∀ id attempt, (id, attempt) ∈ t.dispatched →
    id ∈ t.created ∧ 1 ≤ attempt ∧ attempt ≤ MAX_ATTEMPTS
  once : t.dispatched.Nodup

theorem RowSound.moves (h : RowSound t id d) (hmoves : Moves d d')
    (hcreated : t'.created = t.created) (hdispatched : t'.dispatched = t.dispatched)
    (hcurrent : d'.ended = false → t.current d' = true → t'.current d' = true) :
    RowSound t' id d' := by
  have hstill : d'.ended = false → d.ended = false → t'.current d' = true := by
    intro hended' hended
    refine hcurrent hended' ?_
    rw [Tables.current_congr hmoves.streamId hmoves.uri]
    exact h.current hended
  cases hmoves with
  | kept =>
    exact ⟨hcreated ▸ h.known, h.bounded, h.claimed, fun he => hstill he he,
      hdispatched ▸ h.sent, hdispatched ▸ h.pinned⟩
  | finished hover _ _ hattempts hlease =>
    have hmono : d.attempts ≤ d'.attempts := by
      rcases hattempts with heq | ⟨heq, -⟩ <;> omega
    have hbound := h.bounded
    refine ⟨hcreated ▸ h.known, by omega, fun hsome => ?_, fun he => ?_, fun attempt hmem => ?_,
      fun hmem => ?_⟩
    · rcases hlease with hnone | ⟨hsame, -, hcount⟩
      · exact absurd hnone hsome
      · exact hcount ▸ h.claimed (hsame ▸ hsome)
    · rw [hover] at he
      cases he
    · exact (h.sent attempt (hdispatched ▸ hmem)).trans hmono
    · rcases hlease with hnone | ⟨hsame, hpin, hcount⟩
      · exact .inr hnone
      · rw [hpin, hsame]
        rw [hcount, hdispatched] at hmem
        exact h.pinned hmem
  | released hended _ _ hattempts hlease =>
    refine ⟨hcreated ▸ h.known, hattempts ▸ h.bounded, fun hsome => absurd hlease hsome,
      fun he => hstill he hended, fun attempt hmem => ?_, fun _ => .inr hlease⟩
    exact hattempts ▸ h.sent attempt (hdispatched ▸ hmem)
  | claimed hended _ _ hroom hattempts hpin =>
    refine ⟨hcreated ▸ h.known, by omega, fun _ => by omega, fun he => hstill he hended,
      fun attempt hmem => ?_, fun hmem => ?_⟩
    · have := h.sent attempt (hdispatched ▸ hmem)
      omega
    · -- the new attempt was not sent yet
      have := h.sent _ (hdispatched ▸ hmem)
      omega

theorem Change.sound (h : Change t t') (hs : Sound t) : Sound t' := by
  cases h with
  | moved hcreated hdispatched hrows =>
    refine ⟨fun id d' hrow => ?_, ?_, hdispatched ▸ hs.once⟩
    · obtain ⟨d, hbefore, hmoves, hcurrent⟩ := hrows id d' hrow
      exact (hs.rows id d hbefore).moves hmoves hcreated hdispatched hcurrent
    · rw [hdispatched, hcreated]
      exact hs.sent
  | added id d hnew hattempts hlease hcurrent =>
    refine ⟨fun id' found hrow => ?_, fun id' attempt hmem => ?_, hs.once⟩
    · change (t.putDelivery id d).deliveries id' = some found at hrow
      rw [Tables.putDelivery_row] at hrow
      split_ifs at hrow with hid
      · cases hrow
        subst hid
        have hunsent : ∀ attempt, (id', attempt) ∉ t.dispatched := fun attempt hmem =>
          hnew (hs.sent id' attempt hmem).1
        exact ⟨List.mem_cons_self, by omega, fun hsome => absurd hlease hsome, fun _ => hcurrent,
          fun attempt hmem => absurd hmem (hunsent attempt), fun hmem => absurd hmem (hunsent _)⟩
      · have hrow := hs.rows id' found hrow
        exact ⟨List.mem_cons_of_mem _ hrow.known, hrow.bounded, hrow.claimed, hrow.current,
          hrow.sent, hrow.pinned⟩
    · obtain ⟨hknown, hbounds⟩ := hs.sent id' attempt hmem
      exact ⟨List.mem_cons_of_mem _ hknown, hbounds⟩
  | pinned id d hrow hended hlease hunpinned hcurrent =>
    have hd := hs.rows id d hrow
    have hunsent : (id, d.attempts) ∉ t.dispatched := fun hmem =>
      (hd.pinned hmem).elim hunpinned hlease
    refine ⟨fun id' found hfound => ?_, fun id' attempt hmem => ?_,
      List.nodup_cons.mpr ⟨hunsent, hs.once⟩⟩
    · change (t.putDelivery id _).deliveries id' = some found at hfound
      rw [Tables.putDelivery_row] at hfound
      split_ifs at hfound with hid
      · cases hfound
        subst hid
        refine ⟨hd.known, hd.bounded, hd.claimed, hd.current, fun attempt hmem => ?_,
          fun _ => .inl rfl⟩
        rcases List.mem_cons.mp hmem with hsame | hmem
        · cases hsame
          exact le_rfl
        · exact hd.sent attempt hmem
      · have hother := hs.rows id' found hfound
        have hmem' : ∀ attempt, (id', attempt) ∈ (id, d.attempts) :: t.dispatched →
            (id', attempt) ∈ t.dispatched := fun attempt hmem =>
          (List.mem_cons.mp hmem).resolve_left fun hsame => hid (Prod.mk.inj hsame).1
        exact ⟨hother.known, hother.bounded, hother.claimed, hother.current,
          fun attempt hmem => hother.sent attempt (hmem' attempt hmem),
          fun hmem => hother.pinned (hmem' _ hmem)⟩
    · rcases List.mem_cons.mp hmem with hsame | hmem
      · cases hsame
        exact ⟨hd.known, hd.claimed hlease, hd.bounded⟩
      · exact hs.sent id' attempt hmem

/-- The delivery is over, or deleted. -/
def Over (id : Text) (t : Tables) : Prop :=
  id ∈ t.created ∧ ∀ d, t.deliveries id = some d → d.ended = true

theorem Change.finished (h : Change t t') (hover : Over id t) : Over id t' := by
  obtain ⟨hknown, hended⟩ := hover
  cases h with
  | moved hcreated _ hrows =>
    refine ⟨hcreated ▸ hknown, fun d' hrow => ?_⟩
    obtain ⟨d, hbefore, hmoves, -⟩ := hrows id d' hrow
    have hd := hended d hbefore
    cases hmoves with
    | kept => exact hd
    | finished hover _ _ _ _ => exact hover
    | released hnot _ _ _ _ => exact nomatch hd.symm.trans hnot
    | claimed hnot _ _ _ _ _ => exact nomatch hd.symm.trans hnot
  | added id' d hnew _ _ _ =>
    refine ⟨List.mem_cons_of_mem _ hknown, fun found hrow => ?_⟩
    have hid : id ≠ id' := fun hsame => hnew (hsame ▸ hknown)
    change (t.putDelivery id' d).deliveries id = some found at hrow
    rw [Tables.putDelivery_row, if_neg hid] at hrow
    exact hended found hrow
  | pinned id' d hrow hnot _ _ _ =>
    refine ⟨hknown, fun found hfound => ?_⟩
    have hid : id ≠ id' := by
      rintro rfl
      exact nomatch (hended d hrow).symm.trans hnot
    change (t.putDelivery id' _).deliveries id = some found at hfound
    rw [Tables.putDelivery_row, if_neg hid] at hfound
    exact hended found hfound

theorem Changes.invariant {I : Tables → Prop} (hstep : ∀ t t', Change t t' → I t → I t')
    (h : Changes t t') (ht : I t) : I t' := by
  induction h with
  | refl => exact ht
  | tail _ hchange ih => exact hstep _ _ hchange ih

/-- What every change keeps, a run keeps. -/
theorem run_keeps {I : Tables → Prop} (hstep : ∀ t t', Change t t' → I t → I t')
    {es : List Event} (h : Run (Step x) t es t') (ht : I t) : I t' := by
  refine h.invariant (fun t e t' hstep' ht => ?_) ht
  obtain ⟨hfresh, rfl⟩ := hstep'
  exact Changes.invariant hstep (after_changes hfresh) ht

theorem sound_empty : Sound .empty := ⟨nofun, nofun, List.nodup_nil⟩

/-- A worker is told to send only an open delivery of a stream that is there and has not moved. -/
theorem beginDispatch_true {lease : Text} {now : ℕ} (h : (beginDispatch id lease now t).2 = true) :
    ∃ d, t.deliveries id = some d ∧ d.ended = false ∧ t.current d = true := by
  unfold beginDispatch at h
  split_ifs at h
  cases hrow : t.deliveries id with
  | none =>
    rw [hrow] at h
    cases h
  | some d =>
    rw [hrow] at h
    dsimp only at h
    split_ifs at h with hother hstopped hpinned hgone
    have hdelivered := (not_or.mp hother).1
    exact ⟨d, rfl, by simp [Delivery.ended, hstopped, hdelivered], by simpa using hgone⟩

/-- The dispatches of one delivery. -/
def dispatchesOf (t : Tables) (id : Text) : List (Text × ℕ) := t.dispatched.filter (·.1 = id)

theorem length_dispatchesOf_le (h : Sound t) (id : Text) :
    (dispatchesOf t id).length ≤ MAX_ATTEMPTS := by
  have hsubset : dispatchesOf t id ⊆ (List.range MAX_ATTEMPTS).map fun k => (id, k + 1) := by
    rintro ⟨id', attempt⟩ hmem
    obtain ⟨hsent, hid⟩ := List.mem_filter.mp hmem
    obtain rfl : id' = id := by simpa using hid
    obtain ⟨-, hpos, hle⟩ := h.sent id' attempt hsent
    refine List.mem_map.mpr ⟨attempt - 1, List.mem_range.mpr (by omega), ?_⟩
    rw [Nat.sub_add_cancel hpos]
  have hlength := ((h.once.filter _).subperm hsubset).length_le
  rwa [List.length_map, List.length_range] at hlength

/-- **Dispatch law.** In every state that a run reaches: for each delivery a worker was told to send
at most once per attempt, and at most five times; once a delivery is over, or its stream is gone or
has another destination, no worker is told to send it any more, now or later; and the answer of an
older attempt changes nothing. -/
theorem dispatch_law {es : List Event} (h : Run (Step x) .empty es t) :
    t.dispatched.Nodup ∧
    (∀ id, (dispatchesOf t id).length ≤ MAX_ATTEMPTS) ∧
    (∀ id d, t.deliveries id = some d → d.ended = true ∨ t.current d = false →
      ∀ fs t', Run (Step x) t fs t' → ∀ lease now, (beginDispatch id lease now t').2 = false) ∧
    ∀ id d attempt, t.deliveries id = some d → attempt < d.attempts →
      ∀ status now, finishDelivery id attempt status now t = t := by
  have hsound : Sound t := run_keeps (fun _ _ => Change.sound) h sound_empty
  refine ⟨hsound.once, length_dispatchesOf_le hsound, ?_, ?_⟩
  · intro id d hrow hgone fs t' hrun lease now
    have hd := hsound.rows id d hrow
    have hended : d.ended = true := by
      refine hgone.elim (fun hover => hover) fun hmoved => ?_
      by_contra hopen
      rw [hd.current (Bool.eq_false_of_not_eq_true hopen)] at hmoved
      cases hmoved
    have hover : Over id t := ⟨hd.known, fun found hfound => by
      cases hrow.symm.trans hfound
      exact hended⟩
    have hover' : Over id t' := run_keeps (I := Over id) (fun _ _ => Change.finished) hrun hover
    by_contra hbegin
    rw [Bool.not_eq_false] at hbegin
    obtain ⟨found, hfound, hopen, -⟩ := beginDispatch_true hbegin
    exact nomatch (hover'.2 found hfound).symm.trans hopen
  · intro id d attempt hrow hold status now
    have hnone : finishRow attempt status now d = none := by
      rw [finishRow, if_pos (.inl hold.ne')]
    rw [finishDelivery, hrow, Option.bind_some, hnone]

end

/-- A stream with one subject, a delivery that a worker claims and sends, and an administrator who
removes the stream. -/
def sentOnce : List Event :=
  let stream : Stream := ⟨"a".toList, ["e".toList], PUSH, "https://r".toList, none,
    [("s".toList, "u".toList)], false⟩
  [.createStream "s1".toList stream,
    .enqueue "s1".toList "s".toList "u".toList "e".toList [] "d1".toList 1000,
    .claim 1 [] [("d1".toList, "l1".toList)] 1000,
    .begin_ "d1".toList "l1".toList 1001,
    .deleteStream "s1".toList]

/-- It was sent once, and after the stream was removed it is not sent again. -/
theorem dispatch_law_sent_once :
    ∃ t d, Run (Step ⟨fun _ => true, fun _ => true⟩) .empty sentOnce t ∧
      t.dispatched = [("d1".toList, 1)] ∧ t.deliveries "d1".toList = some d ∧ d.ended = true ∧
      (dispatchesOf t "d1".toList).length ≤ MAX_ATTEMPTS ∧
      (beginDispatch "d1".toList "l1".toList 1002 t).2 = false := by
  have hrun : ∃ t, Run (Step ⟨fun _ => true, fun _ => true⟩) .empty sentOnce t ∧
      t.dispatched = [("d1".toList, 1)] ∧
      (t.deliveries "d1".toList).any Delivery.ended = true := by
    refine ⟨_, .cons ⟨rfl, rfl⟩ (.cons ⟨rfl, rfl⟩ (.cons ⟨rfl, rfl⟩ (.cons ⟨rfl, rfl⟩
      (.cons ⟨rfl, rfl⟩ .nil)))), ?_, ?_⟩
    · decide
    · decide
  obtain ⟨t, hrun, hsent, hany⟩ := hrun
  obtain ⟨d, hrow, hended⟩ := (Option.any_eq_true _ _).mp hany
  have hlaw := dispatch_law hrun
  exact ⟨t, d, hrun, hsent, hrow, hended, hlaw.2.1 _,
    hlaw.2.2.1 _ d hrow (.inl hended) [] t .nil _ _⟩

end RiAuth.Signals
