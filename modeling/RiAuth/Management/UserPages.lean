import RiAuth.Management.UserListing

/-!
# A user list is a snapshot

Following the cursors of the user list page by page, and what happens to them when the store
changes.

* `pageAfter_spec`: what a page shows, and where its cursor stands;
* `exists_follows`: **following the cursors names every user that the caller may read, once and in
  order**, as long as each cursor is used before it expires;
* `Run.pinned`: the generation and the epoch tell whether a user record has changed;
* `continued_of_ok`: **a cursor is accepted only in the state that issued it.**
-/

namespace RiAuth.UserListing

variable {U V D : Type} {env : Env U V D} {s s₀ s₁ : Store U D} {actor : Principal}
  {token material : Text} {limit now : ℕ} {encoded : Option Text} {p : Page V}

/-! ## Following the cursors -/

/-- What a page shows, and where its cursor stands. -/
theorem pageAfter_spec (env : Env U V D) (s : Store U D) (now : ℕ) (actor : Principal)
    (token material : Text) (limit : ℕ) (after : Option Text) :
    ∃ seen left, s.users.after false after = seen ++ left ∧
      (pageAfter env s now actor token material limit after).items =
        seen.filterMap (visible env actor) ∧
      ((pageAfter env s now actor token material limit after).nextCursor = none → left = []) ∧
      ∀ t, (pageAfter env s now actor token material limit after).nextCursor = some t →
        ∃ e ∈ seen, t = env.encode material (nextCursor env s now actor token limit (some e.1)) ∧
          s.users.after false (some e.1) = left := by
  obtain ⟨seen, left, hsplit, hseen, hall, hsome⟩ := scanPages_spec env actor limit s.users
    (maxExamined + 1) ⟨[], 0, after⟩ (Nat.succ_pos _) (by dsimp only; omega)
  refine ⟨seen, left, hsplit, hseen.items, fun hnone => ?_, fun t ht => ?_⟩
  · rw [pageAfter] at hnone
    dsimp only at hnone
    split_ifs at hnone with hexhausted
    exact hall hexhausted
  · rw [pageAfter] at ht
    dsimp only at ht
    split_ifs at ht with hexhausted
    have hne := hsome (Bool.eq_false_iff.mpr hexhausted)
    obtain ⟨done, e, rfl⟩ := (List.eq_nil_or_concat seen).resolve_left hne
    refine ⟨e, by simp, ?_, ?_⟩
    · rw [← Option.some.inj ht, hseen.after, List.concat_eq_append, List.getLast?_append]
      rfl
    · rw [List.concat_eq_append, List.append_assoc, List.singleton_append] at hsplit
      exact OrdMap.after_mem hsplit

/-- A list that is read to its end: requests number `i`, `i + 1`, … at the given times, each with
the cursor of the one before. -/
inductive Follows (env : Env U V D) (s : Store U D) (token : Text) (limit : ℕ) (times : ℕ → ℕ) :
    ℕ → Option Text → List (Page V) → Prop where
  | last {i : ℕ} {encoded : Option Text} {p : Page V}
    (hpage : listUsersPage env s (times i) token limit encoded = .ok p)
    (hnext : p.nextCursor = none) : Follows env s token limit times i encoded [p]
  | more {i : ℕ} {encoded : Option Text} {p : Page V} {t : Text} {ps : List (Page V)}
    (hpage : listUsersPage env s (times i) token limit encoded = .ok p)
    (hnext : p.nextCursor = some t)
    (hrest : Follows env s token limit times (i + 1) (some t) ps) :
    Follows env s token limit times i encoded (p :: ps)

/-- A caller who reads the list of an unchanged store: the token stands for the same principal at
every request, each cursor is used within the hour, and the cursors can hold the record keys and fit
into a request. -/
structure Reads (env : Env U V D) (s : Store U D) (token : Text) (limit : ℕ) (actor : Principal)
    (material : Text) (times : ℕ → ℕ) : Prop where
  principal : ∀ i, env.principal s token (times i) = .ok actor
  stored : s.material = some material
  within : ∀ i, times i ≤ times (i + 1) ∧ times (i + 1) < times i + 3600
  keys : ∀ k u, s.users.get? k = some u → afterOk k
  carried : ∀ i k u, s.users.get? k = some u →
    encodedOk (env.encode material (nextCursor env s (times i) actor token limit (some k)))

variable {times : ℕ → ℕ}

/-- The first page. -/
theorem Reads.first (h : Reads env s token limit actor material times)
    (hlimit : 1 ≤ limit ∧ limit ≤ 100) (i : ℕ) : listUsersPage env s (times i) token limit none =
      .ok (pageAfter env s (times i) actor token material limit none) := by
  rw [listUsersPage, Checks.require, if_pos hlimit, Checks.require, if_pos nofun, h.principal,
    h.stored]
  rfl

/-- What a request with a cursor comes down to. -/
theorem Reads.resumed (henv : env.Sound) (h : Reads env s token limit actor material times)
    (hlimit : 1 ≤ limit ∧ limit ≤ 100) (i : ℕ) {k : Text} {u : U} (hk : s.users.get? k = some u)
    {now : ℕ} (hprincipal : env.principal s token now = .ok actor) :
    listUsersPage env s now token limit
        (some (env.encode material (nextCursor env s (times i) actor token limit (some k)))) =
      (do
        Checks.require (now < times i + 3600)
          (Error.conflict "User list or authorization changed; restart pagination")
        .ok (pageAfter env s now actor token material limit (some k))) := by
  have hencoded : ∀ t ∈ some (env.encode material
      (nextCursor env s (times i) actor token limit (some k))), encodedOk t := by
    rintro t ht
    cases ht
    exact h.carried i k u hk
  have hstart : startAfter env s now actor token material limit
      (some (env.encode material (nextCursor env s (times i) actor token limit (some k)))) = (do
        Checks.require (now < times i + 3600)
          (Error.conflict "User list or authorization changed; restart pagination")
        .ok (some k)) := by
    rw [startAfter, henv.decode_encode, if_pos rfl]
    change (Checks.require _ _ >>= fun _ => Checks.require _ _ >>= _) = _
    rw [Checks.require, if_pos ⟨rfl, rfl, rfl, rfl, h.keys k u hk⟩]
    change (Checks.require _ _ >>= _) = _
    by_cases hlate : now < times i + 3600
    · rw [Checks.require, if_pos ⟨rfl, rfl, rfl, rfl, hlate⟩, Checks.require, if_pos hlate]
      rfl
    · rw [Checks.require, if_neg fun hpinned => hlate hpinned.2.2.2.2, Checks.require, if_neg hlate]
      rfl
  rw [listUsersPage, Checks.require, if_pos hlimit, Checks.require, if_pos hencoded, hprincipal,
    h.stored]
  change (startAfter env s _ actor token material limit _ >>= _) = _
  rw [hstart, bind_assoc]
  rfl

/-- A page after a cursor. -/
theorem Reads.next (henv : env.Sound) (h : Reads env s token limit actor material times)
    (hlimit : 1 ≤ limit ∧ limit ≤ 100) (i : ℕ) {k : Text} {u : U} (hk : s.users.get? k = some u) :
    listUsersPage env s (times (i + 1)) token limit
        (some (env.encode material (nextCursor env s (times i) actor token limit (some k)))) =
      .ok (pageAfter env s (times (i + 1)) actor token material limit (some k)) := by
  rw [h.resumed henv hlimit i hk (h.principal (i + 1)), Checks.require, if_pos (h.within i).2]
  rfl

/-- **From a page on, the cursors lead through the users that are left.** -/
theorem Reads.exists_follows (henv : env.Sound) (h : Reads env s token limit actor material times)
    (hlimit : 1 ≤ limit ∧ limit ≤ 100) (i : ℕ) (after : Option Text) (encoded : Option Text)
    (hpage : listUsersPage env s (times i) token limit encoded =
      .ok (pageAfter env s (times i) actor token material limit after)) :
    ∃ ps, Follows env s token limit times i encoded ps ∧
      ps.flatMap Page.items = (s.users.after false after).filterMap (visible env actor) ∧
      ps.length ≤ (s.users.after false after).length + 1 := by
  induction hn : (s.users.after false after).length using Nat.strong_induction_on
    generalizing i after encoded with
  | _ n ih =>
    obtain ⟨seen, left, hsplit, hitems, hnone, hsome⟩ :=
      pageAfter_spec env s (times i) actor token material limit after
    cases hnext : (pageAfter env s (times i) actor token material limit after).nextCursor with
    | none =>
      refine ⟨[_], .last hpage hnext, ?_, Nat.le_add_left 1 n⟩
      rw [List.flatMap_singleton, hitems, hsplit, hnone hnext, List.append_nil]
    | some t =>
      obtain ⟨e, he, rfl, hleft⟩ := hsome t hnext
      have hmem : e ∈ s.users.after false after := hsplit ▸ List.mem_append_left _ he
      have hkey : s.users.get? e.1 = some e.2 :=
        OrdMap.mem_entries_iff.mp (List.mem_filter.mp hmem).1
      have hpos := List.length_pos_of_mem he
      have hlen : (s.users.after false (some e.1)).length < n := by
        rw [← hn, hsplit, hleft, List.length_append]
        omega
      obtain ⟨ps, hfollows, hall, hcount⟩ :=
        ih _ hlen (i + 1) (some e.1) _ (h.next henv hlimit i hkey) rfl
      refine ⟨_ :: ps, .more hpage hnext hfollows, ?_, ?_⟩
      · rw [List.flatMap_cons, hitems, hall, hsplit, hleft, List.filterMap_append]
      · rw [List.length_cons]
        omega

/-! ## What changes a store -/

section Changes

variable [DecidableEq U]

/-- A write of a user record, or its removal: `update_indexes` counts it if it changes anything. -/
def Store.writeUser (s : Store U D) (key : Text) (record : Option U) : Result (Store U D) :=
  if s.users.get? key = record then .ok { s with users := s.users.set key record }
  else do
    Checks.require (s.generation < u64Max) Error.internal
    .ok { s with users := s.users.set key record, generation := s.generation + 1 }

/-- What happens to a store: user records are written, other records change, or a backup is restored
over it under an epoch that was never used. `used` lists the epochs, and `changed` says whether a
user record has changed or a restore has taken place. -/
inductive Run (s₀ : Store U D) : List Text → Prop → Store U D → Prop where
  | start : Run s₀ [s₀.epoch] False s₀
  | user {used : List Text} {changed : Prop} {s s' : Store U D} {key : Text} {record : Option U}
    (hrun : Run s₀ used changed s) (hwrite : s.writeUser key record = .ok s') :
    Run s₀ used (changed ∨ s.users.get? key ≠ record) s'
  | other {used : List Text} {changed : Prop} {s s' : Store U D} (hrun : Run s₀ used changed s)
    (husers : s'.users = s.users) (hgeneration : s'.generation = s.generation)
    (hepoch : s'.epoch = s.epoch) : Run s₀ used changed s'
  | restore {used : List Text} {changed : Prop} {s s' : Store U D} (hrun : Run s₀ used changed s)
    (hfresh : s'.epoch ∉ used) : Run s₀ (s'.epoch :: used) True s'

theorem Store.writeUser_ok {s s' : Store U D} {key : Text} {record : Option U}
    (h : s.writeUser key record = .ok s') : s'.epoch = s.epoch ∧
      s'.users = s.users.set key record ∧
      (s.users.get? key = record ∧ s'.generation = s.generation ∨
        s.users.get? key ≠ record ∧ s'.generation = s.generation + 1) := by
  rw [Store.writeUser] at h
  split_ifs at h with hsame
  · cases Except.ok.inj h
    exact ⟨rfl, rfl, .inl ⟨hsame, rfl⟩⟩
  · obtain ⟨-, hs'⟩ := Checks.seq_ok.mp h
    cases Except.ok.inj hs'
    exact ⟨rfl, rfl, .inr ⟨hsame, rfl⟩⟩

/-- What the epoch and the generation tell about a run. -/
structure Pinned (s₀ : Store U D) (used : List Text) (changed : Prop) (s : Store U D) : Prop where
  used : s₀.epoch ∈ used
  generation : s.epoch = s₀.epoch → s₀.generation ≤ s.generation
  changed : s.epoch = s₀.epoch → s.generation = s₀.generation → ¬changed ∧ s.users = s₀.users

/-- **In the same epoch and generation, no user record has changed.** -/
theorem Run.pinned {used : List Text} {changed : Prop} (h : Run s₀ used changed s) :
    Pinned s₀ used changed s := by
  induction h with
  | start => exact ⟨List.mem_singleton_self _, fun _ => le_rfl, fun _ _ => ⟨not_false, rfl⟩⟩
  | @user used changed s s' key record hrun hwrite ih =>
    obtain ⟨hepoch, husers, hcase⟩ := Store.writeUser_ok hwrite
    refine ⟨ih.used, fun he => ?_, fun he hg => ?_⟩
    · have hle := ih.generation (hepoch ▸ he)
      omega
    · have hle := ih.generation (hepoch ▸ he)
      rcases hcase with ⟨hsame, hgen⟩ | ⟨-, hgen⟩
      · obtain ⟨hnot, heq⟩ := ih.changed (hepoch ▸ he) (hgen ▸ hg)
        exact ⟨fun hor => hor.elim hnot fun hne => hne hsame,
          by rw [husers, OrdMap.set_of_get? hsame, heq]⟩
      · omega
  | other hrun husers hgeneration hepoch ih =>
    refine ⟨ih.used, fun he => hgeneration ▸ ih.generation (hepoch ▸ he), fun he hg => ?_⟩
    rw [husers]
    exact ih.changed (hepoch ▸ he) (hgeneration ▸ hg)
  | @restore used changed s s' hrun hfresh ih =>
    have hne : s'.epoch ≠ s₀.epoch := fun heq => hfresh (heq ▸ ih.used)
    exact ⟨List.mem_cons_of_mem _ ih.used, fun he => absurd he hne, fun he => absurd he hne⟩

end Changes

/-! ## Cursors that are accepted -/

/-- A cursor comes from a page of its state. -/
theorem issued_of_ok {t : Text} (h : listUsersPage env s now token limit encoded = .ok p)
    (ht : p.nextCursor = some t) : ∃ actor material k, env.principal s token now = .ok actor ∧
      s.material = some material ∧
      t = env.encode material (nextCursor env s now actor token limit (some k)) := by
  obtain ⟨-, h⟩ := Checks.seq_ok.mp h
  obtain ⟨-, h⟩ := Checks.seq_ok.mp h
  obtain ⟨actor, hactor, h⟩ := Checks.bind_ok.mp h
  obtain ⟨material, hmaterial, h⟩ := Checks.bind_ok.mp h
  obtain ⟨after, -, h⟩ := Checks.bind_ok.mp h
  cases Except.ok.inj h
  obtain ⟨seen, left, -, -, -, hsome⟩ := pageAfter_spec env s now actor token material limit after
  obtain ⟨e, -, rfl, -⟩ := hsome t ht
  exact ⟨actor, material, e.1, hactor, Checks.okOr_ok.mp hmaterial, rfl⟩

/-- **A cursor is accepted only in the state that issued it**, as far as the cursor can tell. -/
theorem continued_of_ok (henv : env.Sound) {k token₁ : Text} {limit₁ now₁ : ℕ}
    (h : listUsersPage env s₁ now₁ token₁ limit₁
      (some (env.encode material (nextCursor env s₀ now actor token limit (some k)))) = .ok p) :
    ∃ actor₁, env.principal s₁ token₁ now₁ = .ok actor₁ ∧ s₁.revision = s₀.revision ∧
      s₁.generation = s₀.generation ∧ s₁.epoch = s₀.epoch ∧
      authorityOf env s₁ actor₁ = authorityOf env s₀ actor := by
  obtain ⟨-, h⟩ := Checks.seq_ok.mp h
  obtain ⟨-, h⟩ := Checks.seq_ok.mp h
  obtain ⟨actor₁, hactor, h⟩ := Checks.bind_ok.mp h
  obtain ⟨material₁, -, h⟩ := Checks.bind_ok.mp h
  obtain ⟨after, hafter, -⟩ := Checks.bind_ok.mp h
  obtain ⟨c, hc, hafter⟩ := Checks.bind_ok.mp hafter
  rw [Checks.okOr_ok, henv.decode_encode] at hc
  split_ifs at hc
  cases Option.some.inj hc
  obtain ⟨-, hafter⟩ := Checks.seq_ok.mp hafter
  obtain ⟨hpins, -⟩ := Checks.seq_ok.mp hafter
  obtain ⟨hrevision, hgeneration, hepoch, hauthority, -⟩ := Checks.require_ok.mp hpins
  exact ⟨actor₁, hactor, hrevision.symm, hgeneration.symm, hepoch.symm,
    henv.render_injective (henv.digest_injective hauthority.symm)⟩

/-! ## A plain environment -/

section Sample

/-- A text after its length. -/
def field (t : Text) : Text := List.replicate t.length 'a' ++ 'b' :: t

/-- One field and what follows it. -/
def readField (t : Text) : Text × Text :=
  let rest := t.drop ((t.takeWhile (· = 'a')).length + 1)
  (rest.take (t.takeWhile (· = 'a')).length, rest.drop (t.takeWhile (· = 'a')).length)

/-- Fields one after the other. -/
def fields (l : List Text) : Text := l.flatMap field

/-- So many fields. -/
def readFields : ℕ → Text → List Text
  | 0, _ => []
  | n + 1, t => (readField t).1 :: readFields n (readField t).2

theorem readField_field (t rest : Text) : readField (field t ++ rest) = (t, rest) := by
  have hlength : ((field t ++ rest).takeWhile (· = 'a')).length = t.length := by
    rw [field, List.append_assoc, List.takeWhile_append_of_pos (by simp)]
    simp
  have hdrop : (field t ++ rest).drop (t.length + 1) = t ++ rest := by
    simp [field, List.drop_append]
  simp only [readField, hlength, hdrop, List.take_left, List.drop_left]

theorem readFields_fields (l : List Text) : readFields l.length (fields l) = l := by
  induction l with
  | nil => rfl
  | cons t l ih =>
    rw [fields, List.flatMap_cons, List.length_cons, readFields, readField_field]
    exact congrArg _ ih

theorem fields_injective : Function.Injective fields := by
  intro l l' h
  induction l generalizing l' with
  | nil =>
    cases l' with
    | nil => rfl
    | cons t l' => simp [fields, field] at h
  | cons t l ih =>
    cases l' with
    | nil => simp [fields, field] at h
    | cons t' l' =>
      have hread := congrArg readField h
      rw [fields, fields, List.flatMap_cons, List.flatMap_cons, readField_field, readField_field,
        Prod.mk.injEq] at hread
      rw [hread.1, ih hread.2]

/-- A number in decimal. -/
def decimal (n : ℕ) : Text := Nat.toDigits 10 n

/-- The number that digits spell. -/
def readDecimal (t : Text) : ℕ := Nat.ofDigitChars 10 t 0

theorem readDecimal_decimal (n : ℕ) : readDecimal (decimal n) = n :=
  Nat.ofDigitChars_toDigits (by decide) (by decide)

/-- A text of an authority. -/
def plainAuthority (a : Authority) : Text :=
  fields [decimal a.agent.toNat, decimal a.delegated.toNat,
    fields (a.permissions.map fun p => fields [p.action, p.resource]),
    fields (a.grants.map fun g => fields [decimal g.role.ctorIdx, g.scope, g.targetId]),
    decimal a.grantGeneration]

theorem plainAuthority_injective : Function.Injective plainAuthority := by
  have hdecimal : Function.Injective decimal :=
    Function.LeftInverse.injective readDecimal_decimal
  have hbool : Function.Injective Bool.toNat := by
    intro a b
    cases a <;> cases b <;> simp
  have hpermission : Function.Injective fun p : Permission => fields [p.action, p.resource] := by
    intro p q h
    have h := fields_injective h
    cases p
    cases q
    simp_all
  have hgrant : Function.Injective
      fun g : HumanGrant => fields [decimal g.role.ctorIdx, g.scope, g.targetId] := by
    intro g g' h
    have h := fields_injective h
    simp only [List.cons.injEq, hdecimal.eq_iff, and_true] at h
    have hrole : g.role = g'.role := by
      revert h
      cases g.role <;> cases g'.role <;> simp [HumanRole.ctorIdx]
    cases g
    cases g'
    simp_all
  intro a b h
  have h := fields_injective h
  simp only [List.cons.injEq, hdecimal.eq_iff, hbool.eq_iff, fields_injective.eq_iff,
    (List.map_injective_iff.mpr hpermission).eq_iff, (List.map_injective_iff.mpr hgrant).eq_iff,
    and_true] at h
  cases a
  cases b
  simp_all

/-- A cursor as its fields, after the key. -/
def plainCursor (k : Text) (c : Cursor) : Text :=
  fields [k, decimal c.version, c.actor, c.credential, c.authority, decimal c.revision,
    decimal c.usersGeneration, c.cursorEpoch, decimal c.limit, decimal c.expiresAt, c.after]

/-- A cursor, if it was made under the key. -/
def readCursor (k t : Text) : Option Cursor :=
  match readFields 11 t with
  | [k', version, actor, credential, authority, revision, generation, epoch, limit, expires,
      after] =>
    if k = k' then
      some ⟨readDecimal version, actor, credential, authority, readDecimal revision,
        readDecimal generation, epoch, readDecimal limit, readDecimal expires, after⟩
    else none
  | _ => none

theorem readCursor_plainCursor (k k' : Text) (c : Cursor) :
    readCursor k' (plainCursor k c) = if k' = k then some c else none := by
  have hread : readFields 11 (plainCursor k c) = _ := readFields_fields [k, decimal c.version,
    c.actor, c.credential, c.authority, decimal c.revision, decimal c.usersGeneration,
    c.cursorEpoch, decimal c.limit, decimal c.expiresAt, c.after]
  simp only [readCursor, hread, readDecimal_decimal]

/-- A caller who supports two users. -/
def supporter : Principal :=
  ⟨['s'], false, true, [⟨.helpDesk, "user/p".toList, []⟩, ⟨.helpDesk, "user/r".toList, []⟩], []⟩

/-- Records are names, and every token is that of the supporter. -/
def plainEnv : Env Text Text Unit where
  platform := false
  principal := fun _ _ _ => .ok supporter
  grantGeneration := fun _ _ => 0
  username := id
  view := id
  digest := id
  render := plainAuthority
  encode := plainCursor
  decode := readCursor

theorem plainEnv_sound : plainEnv.Sound where
  digest_injective := Function.injective_id
  render_injective := plainAuthority_injective
  decode_encode := readCursor_plainCursor

/-- Three users, of which the supporter may not read the second. -/
def threeUsers : Store Text Unit :=
  ⟨.ofList [(['x'], ['p']), (['y'], ['q']), (['z'], ['r'])], 3, 1, ['e'], some ['k'], ()⟩

theorem key_threeUsers {k u : Text} (h : threeUsers.users.get? k = some u) :
    k = ['x'] ∨ k = ['y'] ∨ k = ['z'] := by
  rcases List.mem_cons.mp (OrdMap.mem_entries_iff.mpr h) with h | h
  · exact .inl (congrArg Prod.fst h)
  rcases List.mem_cons.mp h with h | h
  · exact .inr (.inl (congrArg Prod.fst h))
  · exact .inr (.inr (congrArg Prod.fst (List.mem_singleton.mp h)))

set_option maxRecDepth 2000 in
theorem supporter_reads : Reads plainEnv threeUsers ['t'] 1 supporter ['k'] fun _ => 0 := by
  refine ⟨fun _ => rfl, rfl, fun _ => ⟨le_rfl, by decide⟩, fun k u hk => ?_, fun i k u hk => ?_⟩
  · rcases key_threeUsers hk with rfl | rfl | rfl <;> decide
  · rcases key_threeUsers hk with rfl | rfl | rfl <;> decide

end Sample

/-! ## The user list -/

/-- **User list cursors enumerate a stable snapshot.** In an unchanged store, following the cursors
to the end names every user that the caller may read once and in key order, in no more pages than
there are users and one, if each cursor is used before it expires. Once a user record, the revision,
the epoch or the authority of the caller has changed, a cursor is refused; a page that it gives
comes from the same users. -/
theorem user_list_snapshot [DecidableEq U] (henv : env.Sound) :
    (∀ (s : Store U D) token limit actor material times, 1 ≤ limit → limit ≤ 100 →
      Reads env s token limit actor material times →
      ∃ ps, Follows env s token limit times 0 none ps ∧
        ps.flatMap Page.items = s.users.entries.filterMap (visible env actor) ∧
        ps.length ≤ s.users.entries.length + 1) ∧
    ∀ (s₀ s₁ : Store U D) used changed now₀ token₀ limit₀ encoded₀ p₀ t actor₀ now₁ token₁ limit₁,
      Run s₀ used changed s₁ → listUsersPage env s₀ now₀ token₀ limit₀ encoded₀ = .ok p₀ →
      p₀.nextCursor = some t → env.principal s₀ token₀ now₀ = .ok actor₀ →
      (changed ∨ s₁.revision ≠ s₀.revision ∨ s₁.epoch ≠ s₀.epoch ∨
        (∃ actor₁, env.principal s₁ token₁ now₁ = .ok actor₁ ∧
          authorityOf env s₁ actor₁ ≠ authorityOf env s₀ actor₀) →
        ∃ e, listUsersPage env s₁ now₁ token₁ limit₁ (some t) = .error e) ∧
      ∀ p₁, listUsersPage env s₁ now₁ token₁ limit₁ (some t) = .ok p₁ → s₁.users = s₀.users := by
  constructor
  · intro s token limit actor material times hpos hle h
    have hfollows := h.exists_follows henv ⟨hpos, hle⟩ 0 none none (h.first ⟨hpos, hle⟩ 0)
    rwa [OrdMap.after_none] at hfollows
  · intro s₀ s₁ used changed now₀ token₀ limit₀ encoded₀ p₀ t actor₀ now₁ token₁ limit₁ hrun hpage
      ht hactor₀
    obtain ⟨actor, material, k, hactor, -, rfl⟩ := issued_of_ok hpage ht
    cases Except.ok.inj (hactor₀.symm.trans hactor)
    have haccepted : ∀ p₁, listUsersPage env s₁ now₁ token₁ limit₁
        (some (env.encode material (nextCursor env s₀ now₀ actor₀ token₀ limit₀ (some k)))) =
          .ok p₁ → _ := fun p₁ hp₁ => continued_of_ok henv hp₁
    constructor
    · intro hchange
      cases hresult : listUsersPage env s₁ now₁ token₁ limit₁
          (some (env.encode material (nextCursor env s₀ now₀ actor₀ token₀ limit₀ (some k)))) with
      | error e => exact ⟨e, rfl⟩
      | ok p₁ =>
        obtain ⟨actor₁, hactor₁, hrevision, hgeneration, hepoch, hauthority⟩ :=
          haccepted p₁ hresult
        have hpinned := hrun.pinned.changed hepoch hgeneration
        rcases hchange with h | h | h | ⟨actor', hactor', h⟩
        · exact absurd h hpinned.1
        · exact absurd hrevision h
        · exact absurd hepoch h
        · cases Except.ok.inj (hactor₁.symm.trans hactor')
          exact absurd hauthority h
    · intro p₁ hp₁
      obtain ⟨actor₁, -, -, hgeneration, hepoch, -⟩ := haccepted p₁ hp₁
      exact (hrun.pinned.changed hepoch hgeneration).2

/-- The pages skip the second user; once that one is removed, the cursor of the first page is
refused. -/
theorem user_list_snapshot_threeUsers :
    (∃ ps, Follows plainEnv threeUsers ['t'] 1 (fun _ => 0) 0 none ps ∧
      ps.flatMap Page.items = [['p'], ['r']]) ∧
    ∃ p t s, listUsersPage plainEnv threeUsers 0 ['t'] 1 none = .ok p ∧ p.nextCursor = some t ∧
      threeUsers.writeUser ['y'] none = .ok s ∧
      ∃ e, listUsersPage plainEnv s 0 ['t'] 1 (some t) = .error e := by
  obtain ⟨hlist, hchange⟩ := user_list_snapshot plainEnv_sound
  constructor
  · obtain ⟨ps, hfollows, hitems, -⟩ := hlist threeUsers ['t'] 1 _ _ _ le_rfl (by decide)
      supporter_reads
    exact ⟨ps, hfollows, hitems.trans (by decide)⟩
  · have hpage := supporter_reads.first ⟨le_rfl, by decide⟩ 0
    have hwrite : threeUsers.writeUser ['y'] none = .ok _ := rfl
    refine ⟨_, _, _, hpage, rfl, hwrite, ?_⟩
    exact (hchange _ _ _ _ _ _ _ _ _ _ _ 0 ['t'] 1 (.user .start hwrite) hpage rfl rfl).1
      (.inl (.inr (by decide)))

/-- An hour after the first page of an unchanged list, its cursor is refused. -/
theorem user_list_cursor_expires :
    ∃ p t, listUsersPage plainEnv threeUsers 0 ['t'] 1 none = .ok p ∧ p.nextCursor = some t ∧
      listUsersPage plainEnv threeUsers 3600 ['t'] 1 (some t) =
        .error (Error.conflict "User list or authorization changed; restart pagination") := by
  refine ⟨_, _, supporter_reads.first ⟨le_rfl, by decide⟩ 0, rfl, ?_⟩
  exact supporter_reads.resumed plainEnv_sound ⟨le_rfl, by decide⟩ 0 (k := ['x']) (u := ['p']) rfl rfl

end RiAuth.UserListing
