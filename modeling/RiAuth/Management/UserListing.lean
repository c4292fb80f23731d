import RiAuth.Lib.Checks
import RiAuth.Lib.Pages
import RiAuth.Management.Principals

/-!
# Pages of the user list

The management list of users is read in pages. A page names the users that the caller may read, and
a sealed cursor from which the next one continues; the cursor pins the revision, the generation of
the user records, the restore epoch and the authority of the caller.

* `listUsersPage`: one page;
* `scanPages_spec`: **the loops examine the first of the users that are left**, and know whether
  these were all of them.
-/

namespace RiAuth.UserListing

/-! ## Cursors -/

/-- What is stored, as far as the listing reads it; `rest` is everything else. Counters that are not
stored are zero, and so is the epoch empty. -/
structure Store (U D : Type) where
  users : OrdMap Text U
  /-- `user_listing_generation` -/
  generation : ℕ
  /-- `meta/revision` -/
  revision : ℕ
  /-- `meta/user_listing_cursor_epoch` -/
  epoch : Text
  /-- `meta/dummy_hash`, from which the cursor key is made -/
  material : Option Text
  rest : D

/-- What a sealed cursor holds. -/
structure Cursor where
  version : ℕ
  actor : Text
  credential : Text
  authority : Text
  revision : ℕ
  usersGeneration : ℕ
  cursorEpoch : Text
  limit : ℕ
  expiresAt : ℕ
  after : Text

/-- What the authority of a caller consists of. -/
structure Authority where
  agent : Bool
  delegated : Bool
  permissions : List Permission
  grants : List HumanGrant
  grantGeneration : ℕ

/-- What the listing is built from: who a token stands for, the grant generation of a user, the view
of a record, the digest, JSON texts, and cursors sealed under a key and read back. -/
structure Env (U V D : Type) where
  platform : Bool
  principal : Store U D → Text → ℕ → Result Principal
  grantGeneration : Store U D → Text → ℕ
  username : U → Text
  view : U → V
  digest : Text → Text
  render : Authority → Text
  encode : Text → Cursor → Text
  decode : Text → Text → Option Cursor

/-- Digests do not collide, JSON texts tell their values, and a cursor opens only under the key that
sealed it. -/
structure Env.Sound {U V D : Type} (env : Env U V D) : Prop where
  digest_injective : Function.Injective env.digest
  render_injective : Function.Injective env.render
  decode_encode : ∀ k k' c,
    env.decode k' (env.encode k c) = if k' = k then some c else none

variable {U V D : Type} (env : Env U V D)

/-- What an actor's cursor is bound to. -/
def authorityOf (s : Store U D) (actor : Principal) : Authority where
  agent := actor.agent
  delegated := actor.delegated
  permissions := actor.permissions
  grants := actor.grants
  grantGeneration := if actor.delegated then env.grantGeneration s actor.id else 0

/-- Its digest. -/
def authorityText (s : Store U D) (actor : Principal) : Text :=
  env.digest (env.render (authorityOf env s actor))

/-- A record key that a cursor may hold. -/
def afterOk (after : Text) : Prop :=
  after ≠ [] ∧ after.bytes ≤ 256 ∧ ∀ c ∈ after, isControl c = false

instance (after : Text) : Decidable (afterOk after) := inferInstanceAs (Decidable (_ ∧ _ ∧ _))

/-- A text that a request may pass as its cursor. -/
def encodedOk (encoded : Text) : Prop :=
  encoded ≠ [] ∧ encoded.bytes ≤ 4096 ∧ ∀ c ∈ encoded, isControl c = false

instance (encoded : Text) : Decidable (encodedOk encoded) :=
  inferInstanceAs (Decidable (_ ∧ _ ∧ _))

/-- The record after which a page starts. -/
def startAfter (s : Store U D) (now : ℕ) (actor : Principal) (token material : Text) (limit : ℕ) :
    Option Text → Result (Option Text)
  | none => .ok none
  | some encoded => do
    let c ← Checks.okOr (env.decode material encoded) (Error.bad "Invalid user list cursor")
    Checks.require (c.version = 1 ∧ c.actor = actor.id ∧ c.credential = env.digest token ∧
      c.limit = limit ∧ afterOk c.after)
      (Error.bad "User list cursor belongs to another query or actor")
    Checks.require (c.revision = s.revision ∧ c.usersGeneration = s.generation ∧
      c.cursorEpoch = s.epoch ∧ c.authority = authorityText env s actor ∧ now < c.expiresAt)
      (Error.conflict "User list or authorization changed; restart pagination")
    .ok (some c.after)

/-! ## One page -/

/-- `MAX_EXAMINED` -/
def maxExamined : ℕ := 10000

/-- What the loops carry along. -/
structure Scan (V : Type) where
  items : List V
  examined : ℕ
  after : Option Text

/-- The view of a record that the caller may read. -/
def visible (actor : Principal) (e : Text × U) : Option V :=
  if actor.allows (.of env.platform) "user.read".toList ("user/".toList ++ env.username e.2) then
    some (env.view e.2)
  else none

/-- One record. -/
def Scan.examine (actor : Principal) (p : Scan V) (e : Text × U) : Scan V where
  items := p.items ++ (visible env actor e).toList
  examined := p.examined + 1
  after := some e.1

/-- The loop over a batch. It may end the outer loop, and says whether the list was exhausted. -/
def scanBatch (actor : Principal) (limit : ℕ) (full : Bool) :
    List (Text × U) → Scan V → Scan V × Option Bool
  | [], p => (p, none)
  | e :: batch, p =>
    let p := p.examine env actor e
    let exhausted := !full && batch.isEmpty
    if p.items.length = limit ∨ p.examined = maxExamined ∨ exhausted = true then (p, some exhausted)
    else scanBatch actor limit full batch p

/-- The loop over batches. Each one examines a record, so `maxExamined` bounds the rounds. -/
def scanPages (actor : Principal) (limit : ℕ) (users : OrdMap Text U) : ℕ → Scan V → Scan V × Bool
  | 0, p => (p, false)
  | fuel + 1, p =>
    let batchLimit := min 128 (maxExamined - p.examined)
    let batch := users.page false batchLimit p.after
    if batch = [] then (p, true)
    else
      let full := batch.length == batchLimit
      match scanBatch env actor limit full batch p with
      | (p, some exhausted) => (p, exhausted)
      | (p, none) => if full then scanPages actor limit users fuel p else (p, true)

/-- One page of a list. -/
structure Page (V : Type) where
  items : List V
  nextCursor : Option Text
  limit : ℕ
  revision : ℕ
deriving DecidableEq

/-- The cursor after a page. A page that is not the last one has examined a record
(`scanPages_spec`), so the default is never used. -/
def nextCursor (s : Store U D) (now : ℕ) (actor : Principal) (token : Text) (limit : ℕ)
    (after : Option Text) : Cursor where
  version := 1
  actor := actor.id
  credential := env.digest token
  authority := authorityText env s actor
  revision := s.revision
  usersGeneration := s.generation
  cursorEpoch := s.epoch
  limit := limit
  expiresAt := now + 3600
  after := after.getD []

/-- The page for a caller after a record. -/
def pageAfter (s : Store U D) (now : ℕ) (actor : Principal) (token material : Text) (limit : ℕ)
    (after : Option Text) : Page V :=
  let scan := scanPages env actor limit s.users (maxExamined + 1) ⟨[], 0, after⟩
  { items := scan.1.items
    nextCursor :=
      if scan.2 then none
      else some (env.encode material (nextCursor env s now actor token limit scan.1.after))
    limit
    revision := s.revision }

/-- One page of users, or where it ends. -/
def listUsersPage (s : Store U D) (now : ℕ) (token : Text) (limit : ℕ) (encoded : Option Text) :
    Result (Page V) := do
  Checks.require (1 ≤ limit ∧ limit ≤ 100) (Error.bad "User list limit must be 1–100")
  Checks.require (∀ t ∈ encoded, encodedOk t) (Error.bad "Invalid user list cursor")
  let actor ← env.principal s token now
  let material ← Checks.okOr s.material Error.internal
  let after ← startAfter env s now actor token material limit encoded
  .ok (pageAfter env s now actor token material limit after)

/-! ## What the loops examine -/

variable {env} {actor : Principal} {limit : ℕ} {users : OrdMap Text U} {p : Scan V} {full : Bool}
  {batch : List (Text × U)}

/-- The loops have gone on from `p` by the records `seen`. -/
structure Scan.Seen (env : Env U V D) (actor : Principal) (p p' : Scan V)
    (seen : List (Text × U)) : Prop where
  items : p'.items = p.items ++ seen.filterMap (visible env actor)
  examined : p'.examined = p.examined + seen.length
  after : p'.after = (seen.getLast?.map Prod.fst).or p.after

theorem Scan.Seen.nil (p : Scan V) : Scan.Seen env actor p p ([] : List (Text × U)) :=
  ⟨by simp, by simp, rfl⟩

theorem Scan.Seen.append {p₁ p₂ p₃ : Scan V} {l l' : List (Text × U)}
    (h : Scan.Seen env actor p₁ p₂ l) (h' : Scan.Seen env actor p₂ p₃ l') :
    Scan.Seen env actor p₁ p₃ (l ++ l') where
  items := by rw [h'.items, h.items, List.filterMap_append, List.append_assoc]
  examined := by rw [h'.examined, h.examined, List.length_append, Nat.add_assoc]
  after := by
    rw [h'.after, h.after, List.getLast?_append]
    cases l'.getLast? <;> rfl

theorem Scan.Seen.examine (p : Scan V) (e : Text × U) :
    Scan.Seen env actor p (p.examine env actor e) [e] := by
  refine ⟨?_, rfl, rfl⟩
  rw [Scan.examine, List.filterMap_cons, List.filterMap_nil]
  cases visible env actor e <;> rfl

/-- How the loop over a batch ends: before the end of the list, at its end, or with the batch. -/
structure BatchEnd (full : Bool) (batch seen left : List (Text × U)) (p p' : Scan V)
    (out : Option Bool) : Prop where
  stopped : ∀ exhausted, out = some exhausted →
    seen ≠ [] ∧ (exhausted = true → left = [] ∧ full = false)
  went : out = none → left = [] ∧ (batch ≠ [] → full = true) ∧
    (p.examined < maxExamined → p'.examined < maxExamined)

theorem scanBatch_spec (env : Env U V D) (actor : Principal) (limit : ℕ) (full : Bool)
    (batch : List (Text × U)) (p : Scan V) : ∃ seen left, batch = seen ++ left ∧
      Scan.Seen env actor p (scanBatch env actor limit full batch p).1 seen ∧
      BatchEnd full batch seen left p (scanBatch env actor limit full batch p).1
        (scanBatch env actor limit full batch p).2 := by
  induction batch generalizing p with
  | nil => exact ⟨[], [], rfl, .nil p, nofun, fun _ => ⟨rfl, fun h => absurd rfl h, id⟩⟩
  | cons e batch ih =>
    rw [scanBatch]
    split_ifs with hstop
    · refine ⟨[e], batch, rfl, .examine p e, fun exhausted heq => ⟨List.cons_ne_nil _ _, ?_⟩, nofun⟩
      cases heq
      intro hend
      rw [Bool.and_eq_true, Bool.not_eq_true', List.isEmpty_iff] at hend
      exact ⟨hend.2, hend.1⟩
    · obtain ⟨seen, left, rfl, hseen, hend⟩ := ih (p.examine env actor e)
      refine ⟨e :: seen, left, rfl, (Scan.Seen.examine p e).append hseen, fun exhausted heq => ?_,
        fun hnone => ?_⟩
      · exact ⟨List.cons_ne_nil _ _, (hend.stopped exhausted heq).2⟩
      · obtain ⟨hleft, hfull, hlt⟩ := hend.went hnone
        push Not at hstop
        refine ⟨hleft, fun _ => ?_, fun hp => hlt ?_⟩
        · -- the last record of a batch that is not full ends the list
          by_contra hnot
          have hne : seen ++ left ≠ [] := fun hnil => hstop.2.2 (by simp [hnil, hnot])
          exact hnot (hfull hne)
        · have hexamined : (p.examine env actor e).examined = p.examined + 1 := rfl
          have := hstop.2.1
          omega

/-- A page that is not full is all that is left. -/
theorem drop_eq_nil_of_not_full (users : OrdMap Text U) (batchLimit : ℕ) (after : Option Text)
    (h : (users.page false batchLimit after).length ≠ batchLimit) :
    (users.after false after).drop batchLimit = [] := by
  rw [OrdMap.page, List.length_take] at h
  exact List.drop_eq_nil_of_le (by omega)

/-- **The loops examine the first of the users that are left.** If the list was exhausted, these
were all of them; else there was one at least. -/
theorem scanPages_spec (env : Env U V D) (actor : Principal) (limit : ℕ) (users : OrdMap Text U)
    (fuel : ℕ) (p : Scan V) (hp : p.examined < maxExamined)
    (hfuel : maxExamined ≤ p.examined + fuel) :
    ∃ seen left, users.after false p.after = seen ++ left ∧
      Scan.Seen env actor p (scanPages env actor limit users fuel p).1 seen ∧
      ((scanPages env actor limit users fuel p).2 = true → left = []) ∧
      ((scanPages env actor limit users fuel p).2 = false → seen ≠ []) := by
  induction fuel generalizing p with
  | zero => omega
  | succ fuel ih =>
    have hpos : 0 < min 128 (maxExamined - p.examined) := by omega
    rw [scanPages]
    generalize min 128 (maxExamined - p.examined) = batchLimit at hpos ⊢
    have hsplit : users.after false p.after = users.page false batchLimit p.after ++
        (users.after false p.after).drop batchLimit := (List.take_append_drop _ _).symm
    have hshort := drop_eq_nil_of_not_full users batchLimit p.after
    obtain ⟨seen, left, hbatch, hseen, hend⟩ := scanBatch_spec env actor limit
      ((users.page false batchLimit p.after).length == batchLimit)
      (users.page false batchLimit p.after) p
    dsimp only
    by_cases hnil : users.page false batchLimit p.after = []
    · rw [if_pos hnil]
      refine ⟨[], [], ?_, .nil p, fun _ => rfl, nofun⟩
      rw [hsplit, hnil, hshort (by rw [hnil, List.length_nil]; omega)]
    · rw [if_neg hnil]
      generalize scanBatch env actor limit _ _ p = out at hseen hend ⊢
      obtain ⟨p', out⟩ := out
      cases out with
      | some exhausted =>
        obtain ⟨hne, hexhausted⟩ := hend.stopped exhausted rfl
        refine ⟨seen, left ++ (users.after false p.after).drop batchLimit, ?_, hseen,
          fun htrue => ?_, fun _ => hne⟩
        · rw [← List.append_assoc, ← hbatch, ← hsplit]
        · obtain ⟨hleft, hfull⟩ := hexhausted htrue
          rw [hleft, hshort (by simpa using hfull), List.append_nil]
      | none =>
        obtain ⟨rfl, hfull, hlt⟩ := hend.went rfl
        rw [List.append_nil] at hbatch
        simp only [hfull hnil, if_true]
        -- the next batch starts after the last record of this one
        obtain ⟨e, he⟩ := Option.ne_none_iff_exists'.mp fun h =>
          hnil (List.getLast?_eq_none_iff.mp h)
        have hafter : p'.after = some e.1 := by
          rw [hseen.after, ← hbatch, he]
          rfl
        have hexamined := hseen.examined
        have hlen : 0 < seen.length := by
          rw [← hbatch]
          exact List.length_pos_iff.mpr hnil
        obtain ⟨seen', left', hrest, hseen', htrue, -⟩ := ih p' (hlt hp) (by dsimp only at *; omega)
        rw [hafter, OrdMap.after_last he] at hrest
        refine ⟨seen ++ seen', left', ?_, hseen.append hseen', htrue, fun _ hnone => ?_⟩
        · rw [hsplit, hrest, hbatch, List.append_assoc]
        · rw [List.append_eq_nil_iff] at hnone
          exact hnil (hbatch.trans hnone.1)

end RiAuth.UserListing
