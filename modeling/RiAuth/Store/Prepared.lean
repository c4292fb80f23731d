import RiAuth.Store.Tx

/-!
# Prepared writes

`Store::prepared_write` runs a callback without the writer lock. Every uncached read is a short
transaction of its own, writes are staged, and the writer commits the staged writes only after all
recorded point reads and range reads still match. Between any two accesses to the base store other
writers may commit anything.

* `preparedWrite`       — the four attempts, with the other writers as an explicit schedule.
* `Matches`             — what the writer revalidates.
* `prepare_sound`       — **if the recorded reads match a store, the attempt computed what the
  callback computes alone on that store.**
* `attended`            — no read failed in an attempt that is committed.
* `preparedWrite_serializable` — the whole run, as long as it is attended.
* `preparedWrite_misses_failed_read` — a read that failed is not recorded, so a callback that goes
  on after it commits against a store on which it would have decided otherwise.
-/

namespace RiAuth.Store

/-! ## The recorded reads and staged writes -/

/-- A range read and the records it returned. -/
structure ReadRange (V : Type) where
  range : OrdMap.Range Text
  records : List (Text × V)

/-- What an attempt has read and staged so far. -/
structure Prepared (V : Type) where
  startedAt : ℕ
  deadline : Option ℕ
  reads : OrdMap Text (Option V)
  writes : OrdMap Text (Option V)
  scans : List (ReadRange V)

/-- The base store together with the number of turns the other writers have had. -/
structure World (V : Type) where
  store : OrdMap Text V
  tick : ℕ

section

variable {V : Type}

/-- `Prepared::default`. -/
def Prepared.new (now : ℕ) : Prepared V := ⟨now, none, .empty, .empty, []⟩

/-- Before each access to the base store the other writers have a turn; `others n` is everything
they commit in the `n`-th one. -/
def World.turn (others : ℕ → OrdMap Text V → OrdMap Text V) (w : World V) : World V :=
  ⟨others w.tick w.store, w.tick + 1⟩

end

section

variable {V α : Type} (decode : Text → V → Result Json)
  (others : ℕ → OrdMap Text V → OrdMap Text V) (clock : ℕ → ℕ)

/-- A record that expires after the attempt started bounds the time of its commit. -/
def Prepared.trackExpiry (p : Prepared V) (name : Text) (bytes : V) : Result (Prepared V) :=
  match decode name bytes with
  | .error e => .error e
  | .ok value =>
    match (value.field "expires_at".toList).asU64 with
    | some expiry =>
      if p.startedAt < expiry then
        .ok { p with deadline := some (min (p.deadline.getD u64Max) expiry) }
      else .ok p
    | none => .ok p

/-- The expiry of every record of a range; what was tracked before a failure stays. -/
def Prepared.trackAll (p : Prepared V) : List (Text × V) → Prepared V × Result Unit
  | [] => (p, .ok ())
  | (name, bytes) :: rest =>
    match p.trackExpiry decode name bytes with
    | .error e => (p, .error e)
    | .ok p' => p'.trackAll rest

/-- A point read: staged writes, then recorded reads, then the base store. The read is recorded
only after its expiry was tracked. -/
def rawGet (name : Text) (p : Prepared V) (w : World V) :
    Result (Option V) × Prepared V × World V :=
  match p.writes.get? name with
  | some bytes => (.ok bytes, p, w)
  | none =>
    match p.reads.get? name with
    | some bytes => (.ok bytes, p, w)
    | none =>
      let w := w.turn others
      match w.store.get? name with
      | none => (.ok none, { p with reads := p.reads.insert name none }, w)
      | some bytes =>
        match p.trackExpiry decode name bytes with
        | .error e => (.error e, p, w)
        | .ok p => (.ok (some bytes), { p with reads := p.reads.insert name (some bytes) }, w)

/-- Stage a write; a name never read before is read now, so that it is revalidated too. -/
def stage (name : Text) (bytes : Option V) (p : Prepared V) (w : World V) :
    Prepared V × World V :=
  match p.reads.get? name with
  | some _ => ({ p with writes := p.writes.insert name bytes }, w)
  | none =>
    let w := w.turn others
    ({ p with
      reads := p.reads.insert name (w.store.get? name)
      writes := p.writes.insert name bytes }, w)

/-- A range read: the base range, widened by the number of staged writes and overlaid with them.
The sum of the two bounds saturates in the source, which no list of records can notice. -/
def scanRecords (range : OrdMap.Range Text) (p : Prepared V) (w : World V) :
    Result (List (Text × V)) × Prepared V × World V :=
  let widened := { range with limit := range.limit + p.writes.entries.length }
  let w := w.turn others
  let records := w.store.scan widened
  match p.trackAll decode records with
  | (p, .error e) => (.error e, p, w)
  | (p, .ok ()) =>
    let overlay := OrdMap.applyAll (p.writes.restrict range.holds).entries (OrdMap.ofList records)
    (.ok ((OrdMap.directed range.reverse overlay.entries).take range.limit),
      { p with scans := p.scans ++ [⟨widened, records⟩] }, w)

/-- One attempt at the callback. -/
def prepare : Callback V α → Prepared V → World V → Result α × Prepared V × World V
  | .done r, p, w => (r, p, w)
  | .get name next, p, w =>
    let (r, p, w) := rawGet decode others name p w
    prepare (next r) p w
  | .put name bytes next, p, w =>
    let (p, w) := stage others name bytes p w
    prepare next p w
  | .scan range next, p, w =>
    let (r, p, w) := scanRecords decode others range p w
    prepare (next r) p w

variable [DecidableEq V]

/-- The checks of the committing writer: the deadline, every point read, every range read. -/
def Prepared.validated (p : Prepared V) (now : ℕ) (m : OrdMap Text V) : Bool :=
  !(p.deadline.any (· ≤ now)) &&
    p.reads.entries.all (fun e => m.get? e.1 = e.2) &&
    p.scans.all (fun s => m.scan s.range = s.records)

/-- How a prepared write ended: its result, the store it left, and the store it committed to. -/
structure Outcome (V α : Type) where
  result : Result α
  world : World V
  committed : Option (OrdMap Text V)

/-- Another writer came first. -/
def transactionConflict : Error :=
  ⟨503, "transaction_conflict", "Authentication state changed concurrently; retry the request"⟩

/-- The remaining attempts. A callback error ends the prepared write at once. -/
def attempts (f : Callback V α) : ℕ → World V → Outcome V α
  | 0, w => ⟨.error transactionConflict, w, none⟩
  | n + 1, w =>
    let w := w.turn others
    match prepare decode others f (.new (clock w.tick)) w with
    | (.error e, _, w) => ⟨.error e, w, none⟩
    | (.ok output, p, w) =>
      let w := w.turn others
      if p.validated (clock w.tick) w.store then
        ⟨.ok output, { w with store := OrdMap.applyAll p.writes.entries w.store }, some w.store⟩
      else attempts f n w

/-- `Store::prepared_write`. -/
def preparedWrite (f : Callback V α) (w : World V) : Outcome V α :=
  attempts decode others clock f 4 w

/-! ## Reads that fail -/

/-- Every read that this attempt makes succeeds. -/
def opens : Callback V α → Prepared V → World V → Bool
  | .done _, _, _ => true
  | .get name next, p, w =>
    let (r, p, w) := rawGet decode others name p w
    r.isOk && opens (next r) p w
  | .put name bytes next, p, w =>
    let (p, w) := stage others name bytes p w
    opens next p w
  | .scan range next, p, w =>
    let (r, p, w) := scanRecords decode others range p w
    r.isOk && opens (next r) p w

/-- Along the attempts that are made: no read failed in one whose recorded reads match the store
when the writer looks at them. -/
def attended (f : Callback V α) : ℕ → World V → Bool
  | 0, _ => true
  | n + 1, w =>
    let w := w.turn others
    match prepare decode others f (.new (clock w.tick)) w with
    | (.error _, _, _) => true
    | (.ok _, p, v) =>
      let v := v.turn others
      if p.validated (clock v.tick) v.store then
        opens decode others f (.new (clock w.tick)) w
      else attended f n v

end

/-! ## What one attempt records -/

section

variable {V α : Type} {decode : Text → V → Result Json}
  {others : ℕ → OrdMap Text V → OrdMap Text V} {clock : ℕ → ℕ}

/-- The recorded point reads and range reads hold of a store. -/
def Matches (p : Prepared V) (m : OrdMap Text V) : Prop :=
  (∀ name bytes, p.reads.get? name = some bytes → m.get? name = bytes) ∧
    ∀ s ∈ p.scans, m.scan s.range = s.records

/-- `p'` records at least what `p` records. -/
def Extends (p p' : Prepared V) : Prop :=
  (∀ name bytes, p.reads.get? name = some bytes → p'.reads.get? name = some bytes) ∧
    ∀ s ∈ p.scans, s ∈ p'.scans

theorem Extends.refl (p : Prepared V) : Extends p p := ⟨fun _ _ h => h, fun _ h => h⟩

variable {p p' : Prepared V} {m : OrdMap Text V} {name : Text} {w w' : World V} {f : Callback V α}

theorem Extends.trans {q r : Prepared V} (h : Extends p q) (h' : Extends q r) : Extends p r :=
  ⟨fun name bytes hr => h'.1 name bytes (h.1 name bytes hr), fun s hs => h'.2 s (h.2 s hs)⟩

theorem Extends.matches (h : Extends p p') (hm : Matches p' m) : Matches p m :=
  ⟨fun name bytes hr => hm.1 name bytes (h.1 name bytes hr), fun s hs => hm.2 s (h.2 s hs)⟩

theorem extends_insert (hnew : p.reads.get? name = none) (bytes : Option V)
    (writes : OrdMap Text (Option V)) :
    Extends p { p with reads := p.reads.insert name bytes, writes := writes } := by
  refine ⟨fun k b hk => ?_, fun s hs => hs⟩
  have hne : k ≠ name := by
    rintro rfl
    rw [hnew] at hk
    cases hk
  simpa [hne] using hk

/-- Tracking an expiry only moves the deadline. -/
theorem trackExpiry_eq {bytes : V} (h : p.trackExpiry decode name bytes = .ok p') :
    ∃ deadline, p' = { p with deadline := deadline } := by
  unfold Prepared.trackExpiry at h
  split at h
  · cases h
  · split at h
    · split at h <;> cases h
      · exact ⟨_, rfl⟩
      · exact ⟨p.deadline, rfl⟩
    · cases h
      exact ⟨p.deadline, rfl⟩

variable (decode) in
theorem trackAll_eq (p : Prepared V) (records : List (Text × V)) :
    ∃ deadline, (p.trackAll decode records).1 = { p with deadline := deadline } := by
  induction records generalizing p with
  | nil => exact ⟨p.deadline, rfl⟩
  | cons e rest ih =>
    unfold Prepared.trackAll
    rcases h : p.trackExpiry decode e.1 e.2 with _ | p'
    · exact ⟨p.deadline, rfl⟩
    · obtain ⟨d, rfl⟩ := trackExpiry_eq h
      exact ih _

/-- Zero or more turns of the other writers lead from `w` to `w'`. -/
def Reaches (others : ℕ → OrdMap Text V → OrdMap Text V) (w w' : World V) : Prop :=
  ∃ n, w' = (World.turn others)^[n] w

theorem Reaches.refl (w : World V) : Reaches others w w := ⟨0, rfl⟩

theorem Reaches.turn (w : World V) : Reaches others w (w.turn others) := ⟨1, rfl⟩

theorem Reaches.trans {w'' : World V} (h : Reaches others w w') (h' : Reaches others w' w'') :
    Reaches others w w'' := by
  obtain ⟨n, rfl⟩ := h
  obtain ⟨k, rfl⟩ := h'
  exact ⟨k + n, (Function.iterate_add_apply _ k n w).symm⟩

/-- What a point read does: its result is what a matching store holds under the staged writes. -/
theorem rawGet_spec {r : Result (Option V)} (h : rawGet decode others name p w = (r, p', w')) :
    Extends p p' ∧ p'.writes = p.writes ∧ Reaches others w w' ∧
      ∀ m bytes, Matches p' m → r = .ok bytes →
        (OrdMap.applyAll p.writes.entries m).get? name = bytes := by
  unfold rawGet at h
  rcases hw : p.writes.get? name with _ | bytes
  · rcases hr : p.reads.get? name with _ | bytes
    · simp only [hw, hr] at h
      rcases hb : (w.turn others).store.get? name with _ | bytes
      · simp only [hb] at h
        cases h
        refine ⟨extends_insert hr none p.writes, rfl, Reaches.turn w, ?_⟩
        rintro m _ hm ⟨rfl⟩
        rw [OrdMap.get?_applyAll, hw]
        exact hm.1 name none (by simp)
      · simp only [hb] at h
        rcases ht : p.trackExpiry decode name bytes with e | q
        · simp only [ht] at h
          cases h
          exact ⟨Extends.refl p, rfl, Reaches.turn w, fun _ _ _ hok => (nomatch hok)⟩
        · simp only [ht] at h
          cases h
          obtain ⟨d, rfl⟩ := trackExpiry_eq ht
          refine ⟨extends_insert hr (some bytes) p.writes, rfl, Reaches.turn w, ?_⟩
          rintro m _ hm ⟨rfl⟩
          rw [OrdMap.get?_applyAll, hw]
          exact hm.1 name (some bytes) (by simp)
    · simp only [hw, hr] at h
      cases h
      refine ⟨Extends.refl p, rfl, Reaches.refl w, ?_⟩
      rintro m _ hm ⟨rfl⟩
      rw [OrdMap.get?_applyAll, hw]
      exact hm.1 name bytes hr
  · simp only [hw] at h
    cases h
    refine ⟨Extends.refl p, rfl, Reaches.refl w, ?_⟩
    rintro m _ - ⟨rfl⟩
    rw [OrdMap.get?_applyAll, hw]
    rfl

/-- What staging does: one more staged write, and its name is among the recorded reads. -/
theorem stage_spec {bytes : Option V} (h : stage others name bytes p w = (p', w')) :
    Extends p p' ∧ p'.writes = p.writes.insert name bytes ∧ Reaches others w w' := by
  unfold stage at h
  rcases hr : p.reads.get? name with _ | before
  · simp only [hr] at h
    cases h
    exact ⟨extends_insert hr _ _, rfl, Reaches.turn w⟩
  · simp only [hr] at h
    cases h
    exact ⟨⟨fun _ _ hk => hk, fun _ hs => hs⟩, rfl, Reaches.refl w⟩

/-- What a range read does: the same as a point read, for the range. -/
theorem scanRecords_spec {range : OrdMap.Range Text} {r : Result (List (Text × V))}
    (h : scanRecords decode others range p w = (r, p', w')) :
    Extends p p' ∧ p'.writes = p.writes ∧ Reaches others w w' ∧
      ∀ m records, Matches p' m → r = .ok records →
        (OrdMap.applyAll p.writes.entries m).scan range = records := by
  unfold scanRecords at h
  set widened : OrdMap.Range Text :=
    { range with limit := range.limit + p.writes.entries.length } with hwidened
  obtain ⟨d, hd⟩ := trackAll_eq decode p ((w.turn others).store.scan widened)
  rcases ht : p.trackAll decode ((w.turn others).store.scan widened) with ⟨q, e | u⟩
  · simp only [ht] at h hd
    cases h
    subst hd
    exact ⟨⟨fun _ _ hk => hk, fun _ hs => hs⟩, rfl, Reaches.turn w,
      fun _ _ _ hok => (nomatch hok)⟩
  · simp only [ht] at h hd
    cases h
    subst hd
    refine ⟨⟨fun _ _ hk => hk, fun _ hs => List.mem_append_left _ hs⟩, rfl, Reaches.turn w, ?_⟩
    rintro m _ hm ⟨rfl⟩
    -- the recorded range still reads the same, so the overlay is that of the matching store
    have hsame : m.scan widened = (w.turn others).store.scan widened :=
      hm.2 ⟨widened, _⟩ (List.mem_append_right _ List.mem_cons_self)
    rw [← OrdMap.scan_overlay m p.writes range, ← hsame]

/-! ## From one attempt to the whole prepared write -/

variable (decode others) in
theorem prepare_spec (f : Callback V α) (p : Prepared V) (w : World V) :
    Extends p (prepare decode others f p w).2.1 ∧
      Reaches others w (prepare decode others f p w).2.2 := by
  induction f generalizing p w with
  | done r => exact ⟨Extends.refl p, Reaches.refl w⟩
  | get name next ih =>
    rcases h : rawGet decode others name p w with ⟨r, q, v⟩
    obtain ⟨hext, -, hw, -⟩ := rawGet_spec h
    simp only [prepare, h]
    exact (ih r q v).imp hext.trans hw.trans
  | put name bytes next ih =>
    rcases h : stage others name bytes p w with ⟨q, v⟩
    obtain ⟨hext, -, hw⟩ := stage_spec h
    simp only [prepare, h]
    exact (ih q v).imp hext.trans hw.trans
  | scan range next ih =>
    rcases h : scanRecords decode others range p w with ⟨r, q, v⟩
    obtain ⟨hext, -, hw, -⟩ := scanRecords_spec h
    simp only [prepare, h]
    exact (ih r q v).imp hext.trans hw.trans

/-- **One attempt.** If the reads an attempt recorded match a store `m` and none of its reads
failed, the callback alone on `m`, with the writes staged before, returns the same output and leaves
`m` under the writes staged after. -/
theorem prepare_sound {a : α} (hopens : opens decode others f p w = true)
    (hrun : prepare decode others f p w = (.ok a, p', w')) (hmatch : Matches p' m) :
    f.run (OrdMap.applyAll p.writes.entries m) =
      (.ok a, OrdMap.applyAll p'.writes.entries m) := by
  induction f generalizing p w with
  | done r =>
    cases hrun
    rfl
  | get name next ih =>
    rcases hget : rawGet decode others name p w with ⟨r, q, v⟩
    obtain ⟨-, hwrites, -, hok⟩ := rawGet_spec hget
    simp only [prepare, hget] at hrun
    simp only [opens, hget, Bool.and_eq_true] at hopens
    have hq : Matches q m := by
      have hext := (prepare_spec decode others (next r) q v).1
      rw [hrun] at hext
      exact hext.matches hmatch
    rcases r with e | bytes
    · cases hopens.1
    · have hrest := ih _ hopens.2 hrun
      rw [hwrites] at hrest
      rw [Program.run, hok m bytes hq rfl]
      exact hrest
  | put name bytes next ih =>
    rcases hput : stage others name bytes p w with ⟨q, v⟩
    obtain ⟨-, hwrites, -⟩ := stage_spec hput
    simp only [prepare, hput] at hrun
    simp only [opens, hput] at hopens
    have hrest := ih hopens hrun
    rw [hwrites, OrdMap.applyAll_insert] at hrest
    exact hrest
  | scan range next ih =>
    rcases hscan : scanRecords decode others range p w with ⟨r, q, v⟩
    obtain ⟨-, hwrites, -, hok⟩ := scanRecords_spec hscan
    simp only [prepare, hscan] at hrun
    simp only [opens, hscan, Bool.and_eq_true] at hopens
    have hq : Matches q m := by
      have hext := (prepare_spec decode others (next r) q v).1
      rw [hrun] at hext
      exact hext.matches hmatch
    rcases r with e | records
    · cases hopens.1
    · have hrest := ih _ hopens.2 hrun
      rw [hwrites] at hrest
      rw [Program.run, hok m records hq rfl]
      exact hrest

/-- What a prepared write promises: a commit is the callback alone on the store of that instant;
anything else is an error that changed nothing. -/
structure Serializable (others : ℕ → OrdMap Text V → OrdMap Text V) (f : Callback V α)
    (w : World V) (out : Outcome V α) : Prop where
  committed : ∀ m, out.committed = some m →
    (∃ w', Reaches others w w' ∧ m = w'.store) ∧
      ∃ a, out.result = .ok a ∧ write f m = (.ok a, out.world.store)
  uncommitted : out.committed = none →
    (∃ e, out.result = .error e) ∧ Reaches others w out.world

theorem Serializable.of_reaches {out : Outcome V α} (hw : Reaches others w w')
    (h : Serializable others f w' out) : Serializable others f w out :=
  ⟨fun m hm => by
    obtain ⟨⟨v, hv, hstore⟩, hout⟩ := h.committed m hm
    exact ⟨⟨v, hw.trans hv, hstore⟩, hout⟩,
  fun hn => ⟨(h.uncommitted hn).1, hw.trans (h.uncommitted hn).2⟩⟩

variable [DecidableEq V]

theorem matches_of_validated {now : ℕ} (h : p.validated now m) : Matches p m := by
  simp only [Prepared.validated, Bool.and_eq_true, List.all_eq_true, decide_eq_true_eq] at h
  obtain ⟨⟨-, hreads⟩, hscans⟩ := h
  exact ⟨fun name bytes hr => hreads (name, bytes) (OrdMap.mem_entries_iff.mpr hr), hscans⟩

/-- Any number of attempts, by induction on the attempts left. -/
theorem attempts_serializable (n : ℕ) (hattended : attended decode others clock f n w = true) :
    Serializable others f w (attempts decode others clock f n w) := by
  induction n generalizing w with
  | zero => exact ⟨fun m hm => (nomatch hm), fun _ => ⟨⟨_, rfl⟩, Reaches.refl w⟩⟩
  | succ n ih =>
    rcases hrun : prepare decode others f (.new (clock (w.turn others).tick)) (w.turn others)
      with ⟨r, p, v⟩
    have hv : Reaches others w v := by
      have h := (prepare_spec decode others f (.new (clock (w.turn others).tick)) (w.turn others)).2
      rw [hrun] at h
      exact (Reaches.turn w).trans h
    have hv' : Reaches others w (v.turn others) := hv.trans (Reaches.turn v)
    rw [attempts]
    rw [attended] at hattended
    rcases r with e | output
    · simp only [hrun]
      exact ⟨fun m hm => (nomatch hm), fun _ => ⟨⟨e, rfl⟩, hv⟩⟩
    · simp only [hrun] at hattended ⊢
      by_cases hvalid : p.validated (clock (v.turn others).tick) (v.turn others).store
      · rw [if_pos hvalid] at hattended ⊢
        refine ⟨?_, fun hn => by cases hn⟩
        rintro m ⟨rfl⟩
        refine ⟨⟨_, hv', rfl⟩, output, rfl, Program.transact_of_run_ok ?_⟩
        exact prepare_sound hattended hrun (matches_of_validated hvalid)
      · rw [if_neg hvalid] at hattended ⊢
        exact (ih hattended).of_reaches hv'

/-- **Prepared writes are serializable** for every callback, every schedule of the other writers and
every clock, as long as no read failed in an attempt that the writer is about to commit. -/
theorem preparedWrite_serializable (decode : Text → V → Result Json)
    (others : ℕ → OrdMap Text V → OrdMap Text V) (clock : ℕ → ℕ) (f : Callback V α) (w : World V)
    (hattended : attended decode others clock f 4 w = true) :
    Serializable others f w (preparedWrite decode others clock f w) :=
  attempts_serializable 4 hattended

end

/-! ## A failed read is not recorded -/

/-- Stored values of the two runs below: `0` stands for bytes that do not open. -/
def openedUnlessZero (_ : Text) : ℕ → Result Json
  | 0 => .error (.bad "Encrypted data authentication failed: wrong key or damaged data")
  | n => .ok (.int n)

/-- Read `users/a` and note in `meta/seen` whether that worked. -/
def noteReadable : Callback ℕ Unit := do
  match ← (Tx.get openedUnlessZero "users".toList "a".toList).attempt with
  | .ok _ => Program.write (recordKey "meta".toList "seen".toList) (some 1)
  | .error _ => Program.write (recordKey "meta".toList "seen".toList) (some 2)

/-- Another writer replaces `users/a` by bytes that open, in the last turn before the commit. -/
def repairUser (n : ℕ) (m : OrdMap Text ℕ) : OrdMap Text ℕ :=
  if n = 3 then m.insert (recordKey "users".toList "a".toList) 7 else m

/-- The store in which `users/a` does not open. -/
def unreadableUser : World ℕ :=
  ⟨OrdMap.empty.insert (recordKey "users".toList "a".toList) 0, 0⟩

/-- Read `users/a`, and only if there is none `users/b`; what was found first is counted in
`meta/seen`. -/
def noteFirst : Callback ℕ Unit := do
  match ← Program.read (recordKey "users".toList "a".toList) with
  | some n => Program.write (recordKey "meta".toList "seen".toList) (some (n + 1))
  | none => do
    let _ ← Program.read (recordKey "users".toList "b".toList)
    Program.write (recordKey "meta".toList "seen".toList) (some 1)

/-- `users/b` does not open; `users/a` does, and another writer changes it after the first attempt
has read it. The second attempt commits. -/
theorem preparedWrite_serializable_noteFirst :
    let w : World ℕ := ⟨.ofList [(recordKey "users".toList "a".toList, 4),
      (recordKey "users".toList "b".toList, 0)], 0⟩
    attended openedUnlessZero repairUser id noteFirst 4 w = true ∧
      Serializable repairUser noteFirst w (preparedWrite openedUnlessZero repairUser id noteFirst w) ∧
      (preparedWrite openedUnlessZero repairUser id noteFirst w).world.store.get?
        (recordKey "meta".toList "seen".toList) = some 8 :=
  ⟨by decide, preparedWrite_serializable _ _ _ _ _ (by decide), by decide⟩

/-- **A failed read is not revalidated.** The attempt sees `users/a` unreadable and goes on; the
other writer repairs it; the commit is accepted although the callback alone, on the store of that
instant, writes something else. -/
theorem preparedWrite_misses_failed_read :
    ∃ m, (preparedWrite openedUnlessZero repairUser id noteReadable unreadableUser).committed =
        some m ∧
      (preparedWrite openedUnlessZero repairUser id noteReadable unreadableUser).world.store.get?
        (recordKey "meta".toList "seen".toList) = some 2 ∧
      (write noteReadable m).2.get? (recordKey "meta".toList "seen".toList) = some 1 := by
  refine ⟨OrdMap.empty.insert (recordKey "users".toList "a".toList) 7, ?_, ?_, ?_⟩ <;> decide

end RiAuth.Store
