import RiAuth.Identity.Transactions

/-!
# No recent password comes back

The trail has the passwords that were set on an account, chosen in clear or imported as a hash. The
history of the account is bounded, and holds each password in the form in which it is stored. `Kept`
links the two: the newest hashes of the history are forms of the newest passwords. A Windows sign-in
that rewrites the stored hash does not tell the history, so the next password finds the same one
there twice, and an older one falls out too soon.

* `Kept.pushed`, `Kept.rehashed`, `Kept.upgraded`, `Kept.disabled`: what the writers do to the link;
* **`accepted_password_is_new`**: a password that is accepted matches none of the last ones, as long
  as no Windows sign-in rewrites a hash where the history has others;
* `windows_sign_in_forgets`: a Windows sign-in that rewrites a hash costs the history a password.
-/

namespace RiAuth.Identity

open Checks PasswordHistory History Recency

/-! ## The passwords that were set -/

/-- The fact says that a password was set on the account. -/
def Fact.sets (id : Text) : Fact → Bool
  | .chosen userId _ => userId = id
  | .imported userId _ => userId = id
  | _ => false

/-- The password that was set is this one. -/
def Fact.isPassword (c : Credentials) (plaintext : Text) : Fact → Bool
  | .chosen _ password => plaintext = password
  | .imported _ hash => c.passwordMatches plaintext hash
  | _ => false

/-- The passwords that were set on an account, newest first. -/
def passwords (id : Text) (trail : List Fact) : List Fact := trail.filter (Fact.sets id)

/-- A hash verifies exactly the password it was made from. -/
structure Credentials.Exact (c : Credentials) : Prop where
  hashed : ∀ salt password hash, c.passwordHash salt password = .ok hash →
    hash ≠ [] ∧ ∀ plaintext, c.passwordMatches plaintext hash = decide (plaintext = password)
  upgraded : ∀ salt password old hash, c.upgradePasswordHash salt password old = .ok (some hash) →
    hash ≠ [] ∧ ∀ plaintext, c.passwordMatches plaintext hash = decide (plaintext = password)
  one : ∀ hash p q, c.passwordMatches p hash = true → c.passwordMatches q hash = true → p = q

/-- The hash is a form of the password that was set. -/
def IsForm (c : Credentials) (hash : Text) (set : Fact) : Prop :=
  hash ≠ [] ∧ ∀ plaintext, c.passwordMatches plaintext hash = set.isPassword c plaintext

/-- The history of an account, its current hash and the passwords that were set belong together. A
current hash that the history lacks does no harm yet: in front of the history it leaves one password
less. -/
structure Kept (c : Credentials) (limit : ℕ) (history : List Text) (current : Text)
    (set : List Fact) : Prop where
  nodup : history.Nodup
  length_le : history.length ≤ limit
  ne_nil : ∀ hash ∈ history, hash ≠ []
  names : Names (IsForm c) limit history.reverse set
  missing : current ≠ [] → current ∉ history →
    Names (IsForm c) (limit - 1) (current :: history.reverse) set
  newest : current ≠ [] → ∃ fact, set.head? = some fact ∧ IsForm c current fact

section

variable {c : Credentials} {limit : ℕ} {history : List Text} {current : Text} {set : List Fact}

theorem load_save (t : Table) (id : Text) (history : List Text) (h : ∀ hash ∈ history, hash ≠ []) :
    load (save t id history) id = history := by
  have hfilter : history.filter (· ≠ []) = history :=
    List.filter_eq_self.mpr fun hash hhash => decide_eq_true (h hash hhash)
  unfold load save
  rw [Function.update_self]
  split_ifs with hempty
  · rw [hempty]
    rfl
  · exact hfilter

theorem load_save_of_ne (t : Table) {id other : Text} (history : List Text) (h : other ≠ id) :
    load (save t id history) other = load t other := by
  unfold load save
  rw [Function.update_of_ne h]

variable {fact : Fact} {user : User} {facts trail : List Fact} {t t' : Table}

/-- The same password in the form that an upgrade gives it. -/
theorem IsForm.upgraded (h : IsForm c current fact) (hc : c.Exact) {hash password : Text} {salt : ℕ}
    (hmatched : c.passwordMatches password current = true)
    (hnew : c.upgradePasswordHash salt password current = .ok (some hash)) :
    IsForm c hash fact := by
  obtain ⟨hne, hexact⟩ := hc.upgraded salt password _ hash hnew
  refine ⟨hne, fun plaintext => ?_⟩
  rw [hexact, ← h.2, Bool.eq_iff_iff, decide_eq_true_eq]
  exact ⟨fun hp => hp ▸ hmatched, fun hp => hc.one _ _ _ hp hmatched⟩

namespace Kept

theorem nil (c : Credentials) (limit : ℕ) : Kept c limit [] [] [] where
  nodup := .nil
  length_le := Nat.zero_le _
  ne_nil := nofun
  names := names_nil _ _ _
  missing h := absurd rfl h
  newest h := absurd rfl h

/-- One more password was set, and `retain` put its hash in the history. -/
theorem pushed (h : Kept c limit history current set) (hlimit : 1 ≤ limit) {hash : Text}
    {fact : Fact} (hform : IsForm c hash fact) :
    Kept c limit (retain history current hash limit) hash (fact :: set) := by
  obtain ⟨kept, hretain, hnodup, hkept⟩ := retain_eq_push h.nodup current hash limit
  have hnames : Names (IsForm c) (limit - 1) kept.reverse set := by
    rcases hkept with rfl | ⟨rfl, hne, hmissing⟩
    · exact h.names.mono (Nat.sub_le _ _)
    · rw [List.reverse_append]
      exact h.missing hne hmissing
  have hne : ∀ x ∈ kept, x ≠ [] := by
    rcases hkept with rfl | ⟨rfl, hne, -⟩
    · exact h.ne_nil
    · exact List.forall_mem_append.mpr ⟨h.ne_nil, List.forall_mem_singleton.mpr hne⟩
  refine ⟨?_, length_trim_le _ _, ?_, ?_, fun _ hmissing => absurd ?_ hmissing, fun _ => ?_⟩
  · exact hretain ▸ nodup_push hnodup hash
  · intro x hx
    rcases mem_of_mem_push (hretain ▸ hx) with rfl | hx
    · exact hform.1
    · exact hne x hx
  · exact hretain ▸ hnames.push hform
  · exact hretain ▸ mem_push_self hlimit hash
  · exact ⟨fact, rfl, hform⟩

section

variable {hash password : Text} {salt : ℕ}

/-- The current password is stored in another form, which the history notes. -/
theorem rehashed (h : Kept c limit history current set) (hc : c.Exact)
    (hmatched : c.passwordMatches password current = true)
    (hnew : c.upgradePasswordHash salt password current = .ok (some hash))
    (hold : current ∈ history) (hfresh : hash ∉ history) :
    Kept c limit (trim (firsts [] (history.replace current hash)) limit) hash set := by
  have hforms : ∀ x ∈ history.reverse, ∀ fact, IsForm c x fact →
      IsForm c (renamed current hash x) fact := by
    intro x _ fact hform
    unfold renamed
    split_ifs with hx
    · exact (hx ▸ hform).upgraded hc hmatched hnew
    · exact hform
  rw [trim_firsts_replace h.nodup hfresh h.length_le]
  refine ⟨h.nodup.map_on (renamed_injOn hfresh), ?_, ?_, ?_, fun _ hmissing => absurd ?_ hmissing,
    fun _ => ?_⟩
  · rw [List.length_map]
    exact h.length_le
  · refine List.forall_mem_map.mpr fun x hx => ?_
    unfold renamed
    split_ifs
    · exact (hc.upgraded _ _ _ _ hnew).1
    · exact h.ne_nil x hx
  · rw [← List.map_reverse]
    exact h.names.map hforms
  · exact List.mem_map.mpr ⟨current, hold, if_pos rfl⟩
  · obtain ⟨fact, hhead, hform⟩ := h.newest (h.ne_nil current hold)
    exact ⟨fact, hhead, hform.upgraded hc hmatched hnew⟩

/-- The current password is stored in another form, and the history does not hear of it. That is
harmless where the history has no other hash, and where it is for two passwords at most: the next
one leaves room for the current one only. -/
theorem upgraded (h : Kept c limit history current set) (hc : c.Exact) (hlocal : current ≠ [])
    (hmatched : c.passwordMatches password current = true)
    (hnew : c.upgradePasswordHash salt password current = .ok (some hash))
    (hsafe : limit ≤ 2 ∨ ∀ x ∈ history, x = current) : Kept c limit history hash set := by
  obtain ⟨newest, hhead, hnewest⟩ := h.newest hlocal
  refine ⟨h.nodup, h.length_le, h.ne_nil, h.names, fun _ _ m hm fact hfact => ?_,
    fun _ => ⟨newest, hhead, hnewest.upgraded hc hmatched hnew⟩⟩
  obtain ⟨m, rfl⟩ : ∃ m', m = m' + 1 := by
    refine Nat.exists_eq_succ_of_ne_zero ?_
    rintro rfl
    rw [List.take_zero] at hfact
    cases hfact
  rw [List.take_succ_cons]
  refine ⟨hash, List.mem_cons_self, ?_⟩
  rcases hsafe with hsmall | hsame
  · obtain rfl : m = 0 := by omega
    obtain ⟨older, rfl⟩ := List.head?_eq_some_iff.mp hhead
    rw [List.mem_singleton.mp hfact]
    exact hnewest.upgraded hc hmatched hnew
  · obtain ⟨x, hx, hform⟩ := h.names _ (hm.trans (Nat.sub_le _ _)) fact hfact
    rw [hsame x (List.mem_reverse.mp (List.mem_of_mem_take hx))] at hform
    exact hform.upgraded hc hmatched hnew

end

theorem disabled (h : Kept c limit history current set) : Kept c limit history [] set :=
  ⟨h.nodup, h.length_le, h.ne_nil, h.names, fun hne => absurd rfl hne, fun hne => absurd rfl hne⟩

/-- What was not refused is none of the last passwords. -/
theorem new_of_not_reused (h : Kept c limit history current set) {plaintext : Text}
    (hnew : reused c plaintext history current limit = false) {fact : Fact}
    (hfact : fact ∈ set.take limit) : fact.isPassword c plaintext = false := by
  obtain ⟨hash, hmem, hform⟩ := h.names limit le_rfl fact hfact
  rw [← hform.2]
  exact not_matches_of_not_reused hnew hmem hform.1

end Kept

/-! ## One account along a run -/

/-- The hash that is stored for an account, if any. -/
def storedHash (s : Accounts) (id : Text) : Text :=
  ((s.users id).map fun user => user.passwordHash).getD []

/-- No password that was chosen is one of the last that were set before it. -/
def NoneRecent (c : Credentials) (limit : ℕ) (id : Text) (trail : List Fact) : Prop :=
  ∀ plaintext older, .chosen id plaintext :: older <:+ trail →
    ∀ set ∈ (passwords id older).take limit, set.isPassword c plaintext = false

theorem storedHash_of_row {s : Accounts} (h : s.users user.id = some user) :
    storedHash s user.id = user.passwordHash := by
  rw [storedHash, h]
  rfl

/-- What is known of an account at each point of a run. -/
def Linked (c : Credentials) (limit : ℕ) (id : Text) (history : List Text) (current : Text)
    (trail : List Fact) : Prop :=
  Kept c limit history current (passwords id trail) ∧ NoneRecent c limit id trail

theorem passwords_append {id : Text} (h : ∀ fact ∈ facts, fact.sets id = false) (trail : List Fact) :
    passwords id (facts ++ trail) = passwords id trail := by
  have hnone : facts.filter (Fact.sets id) = [] :=
    List.filter_eq_nil_iff.mpr fun fact hfact => by simp [h fact hfact]
  rw [passwords, List.filter_append, hnone, List.nil_append]
  rfl

theorem NoneRecent.cons {id : Text} (h : NoneRecent c limit id trail)
    (hfact : ∀ plaintext, fact = .chosen id plaintext →
      ∀ set ∈ (passwords id trail).take limit, set.isPassword c plaintext = false) :
    NoneRecent c limit id (fact :: trail) := by
  intro plaintext older hsuffix
  rcases List.suffix_cons_iff.mp hsuffix with heq | hsuffix
  · obtain ⟨rfl, rfl⟩ := List.cons.inj heq
    exact hfact plaintext rfl
  · exact h plaintext older hsuffix

theorem NoneRecent.append {id : Text} (h : NoneRecent c limit id trail)
    (hfacts : ∀ fact ∈ facts, fact.sets id = false) : NoneRecent c limit id (facts ++ trail) := by
  induction facts with
  | nil => exact h
  | cons fact facts ih =>
    obtain ⟨hfact, hrest⟩ := List.forall_mem_cons.mp hfacts
    refine (ih hrest).cons ?_
    rintro plaintext rfl
    simp [Fact.sets] at hfact

/-- Facts that set no password of the account change nothing. -/
theorem Linked.append {id : Text} (h : Linked c limit id history current trail) (facts : List Fact)
    (hfacts : ∀ fact ∈ facts, fact.sets id = false) :
    Linked c limit id history current (facts ++ trail) := by
  refine ⟨?_, h.2.append hfacts⟩
  rw [passwords_append hfacts]
  exact h.1

/-- A password was set that is none of the last ones, or not chosen in clear. -/
theorem Linked.pushed {id : Text} (h : Linked c limit id history current trail) (hlimit : 1 ≤ limit)
    {hash : Text} (hsets : fact.sets id = true) (hform : IsForm c hash fact)
    (hnew : ∀ plaintext, fact = .chosen id plaintext →
      reused c plaintext history current limit = false) :
    Linked c limit id (retain history current hash limit) hash (fact :: trail) := by
  obtain ⟨hkept, hnone⟩ := h
  refine ⟨?_, hnone.cons fun plaintext hfact set hset => ?_⟩
  · rw [passwords, List.filter_cons_of_pos hsets]
    exact hkept.pushed hlimit hform
  · exact hkept.new_of_not_reused (hnew plaintext hfact) hset

theorem AuthenticatorChange.sets {userId id : Text} {r r' : Text → Option (Text × Text)}
    {a a' : Authenticator} (h : AuthenticatorChange userId r a a' r' facts) :
    ∀ fact ∈ facts, fact.sets id = false := by
  intro fact hfact
  cases h with
  | spent hspends =>
    cases hspends <;> simp_all [Fact.sets]
  | confirmed secret expiresAt step digests hpending =>
    rcases List.mem_cons.mp hfact with rfl | hfact
    · rfl
    · obtain ⟨digest, -, rfl⟩ := List.mem_map.mp hfact
      rfl
  | rotated digests =>
    obtain ⟨digest, -, rfl⟩ := List.mem_map.mp hfact
    rfl
  | _ => simp_all [Fact.sets]

theorem AttemptsChange.sets {id : Text} {t t' : Text → Option Attempts}
    (h : AttemptsChange t t' facts) : ∀ fact ∈ facts, fact.sets id = false := by
  cases h <;> simp [Fact.sets]

/-- What is known of an account of the store. -/
def Accounts.Linked (c : Credentials) (limit : ℕ) (s : Accounts) (id : Text) : Prop :=
  Identity.Linked c limit id (load s.passwordHistory id) (storedHash s id) s.trail

theorem Linked.saved {id : Text} (h : Linked c limit id history current trail) :
    Linked c limit id (load (save t id history) id) current trail := by
  rw [load_save t id history h.1.ne_nil]
  exact h

/-- A hash was imported, or nothing at all. -/
theorem Linked.imported {id hash : Text} (h : Linked c limit id (load t id) current trail)
    (hlimit : 1 ≤ limit) :
    Linked c limit id (load (recordImportedHash limit t id current hash) id) hash
      ((if hash = [] then [] else [.imported id hash]) ++ trail) := by
  unfold recordImportedHash
  by_cases hempty : hash = []
  · subst hempty
    rw [if_pos (.inl rfl), if_pos rfl]
    exact ⟨h.1.disabled, h.2⟩
  · have hgo : ¬ (hash = [] ∨ limit = 0) := not_or.mpr ⟨hempty, by omega⟩
    rw [if_neg hgo, if_neg hempty]
    refine (h.pushed hlimit (by simp [Fact.sets]) ⟨hempty, fun _ => rfl⟩ ?_).saved
    rintro plaintext ⟨⟩

/-- The password of an account changed, with no form written anew. -/
theorem PasswordChange.linked {hash : Text}
    (h : PasswordChange c.settled limit t user hash t' facts) (hlimit : 1 ≤ limit) (hc : c.Exact)
    (hlinked : Linked c limit user.id (load t user.id) user.passwordHash trail) :
    Linked c limit user.id (load t' user.id) hash (facts ++ trail) := by
  cases h with
  | kept => exact hlinked
  | chosen plaintext salt hhash haccept =>
    obtain ⟨hne, hexact⟩ := hc.hashed salt plaintext hash hhash
    have hgo : ¬ (hash = [] ∨ limit = 0) := not_or.mpr ⟨hne, by omega⟩
    rw [accept_settled, accept, if_neg hgo] at haccept
    obtain ⟨hreused, hsave⟩ := seq_ok.mp haccept
    have hnew := require_ok.mp hreused
    cases hsave
    have hform : IsForm c hash (.chosen user.id plaintext) := ⟨hne, hexact⟩
    refine (hlinked.pushed hlimit (by simp [Fact.sets]) hform ?_).saved
    rintro plaintext' ⟨⟩
    exact hnew
  | imported raw hraw => exact hlinked.imported hlimit
  | rehashed _ _ _ _ hnew => cases hnew
  | upgraded _ _ _ _ hnew => cases hnew
  | disabled => exact ⟨hlinked.1.disabled, hlinked.2⟩

/-! ## What is written to the table -/

/-- At most one history was written, and it was cut to the limit. -/
def Written (limit : ℕ) (t : Table) (id : Text) (t' : Table) : Prop :=
  t' = t ∨ ∃ history, t' = save t id (trim history limit)

theorem accept_written {id plaintext newHash : Text}
    (h : accept c limit t id current plaintext newHash = .ok t') : Written limit t id t' := by
  unfold accept at h
  split_ifs at h
  · cases h
    exact .inl rfl
  · obtain ⟨-, hsave⟩ := seq_ok.mp h
    cases hsave
    exact .inr ⟨_, rfl⟩

theorem recordImportedHash_written (t : Table) (id hash : Text) :
    Written limit t id (recordImportedHash limit t id current hash) := by
  unfold recordImportedHash
  split_ifs
  · exact .inl rfl
  · exact .inr ⟨_, rfl⟩

theorem noteRehash_written (t : Table) (id old new : Text) :
    Written limit t id (noteRehash limit t id old new) := by
  unfold noteRehash
  split_ifs
  · exact .inl rfl
  · dsimp only
    split_ifs
    · exact .inr ⟨_, rfl⟩
    · exact .inr ⟨_, rfl⟩

theorem PasswordChange.written {hash : Text} (h : PasswordChange c limit t user hash t' facts) :
    Written limit t user.id t' := by
  cases h with
  | chosen _ _ _ haccept => exact accept_written haccept
  | imported raw _ => exact recordImportedHash_written t user.id hash
  | rehashed _ _ _ _ _ => exact noteRehash_written t user.id user.passwordHash hash
  | _ => exact .inl rfl

theorem Written.load {id other : Text} (h : Written limit t id t') (hother : other ≠ id) :
    PasswordHistory.load t' other = PasswordHistory.load t other := by
  obtain rfl | ⟨history, rfl⟩ := h
  · rfl
  · exact load_save_of_ne t _ hother

/-- No history is longer than the limit. -/
def Bounded (limit : ℕ) (t : Table) : Prop :=
  ∀ id history, t id = some history → history.length ≤ limit

theorem Written.bounded {id : Text} (h : Written limit t id t') (ht : Bounded limit t) :
    Bounded limit t' := by
  obtain rfl | ⟨history, rfl⟩ := h
  · exact ht
  intro other stored hstored
  rw [save, Function.update_apply] at hstored
  split_ifs at hstored with hother hempty
  · exact Option.some.inj hstored ▸ length_trim_le history limit
  · exact ht other stored hstored

theorem Effect.bounded {now : ℕ} {s s' : Accounts} (h : Effect c limit now s s')
    (hs : Bounded limit s.passwordHistory) : Bounded limit s'.passwordHistory := by
  cases h with
  | same _ _ hhistory _ _ => exact hhistory ▸ hs
  | created user _ _ _ _ _ _ hhistory _ _ =>
    rw [hhistory]
    exact (recordImportedHash_written _ _ _).bounded hs
  | wrote user user' _ _ _ _ _ _ _ hpassword _ _ => exact hpassword.written.bounded hs
  | _ => exact hs

theorem PasswordChange.sets_of_ne {hash id : Text} (h : PasswordChange c limit t user hash t' facts)
    (hid : id ≠ user.id) : ∀ fact ∈ facts, fact.sets id = false := by
  cases h with
  | imported raw _ =>
    intro fact hfact
    split_ifs at hfact
    · cases hfact
    · rw [List.mem_singleton.mp hfact]
      exact decide_eq_false hid.symm
  | _ => simp [Fact.sets, hid.symm]

/-! ## Every step keeps the link -/

variable {s s' : Accounts}

/-- A row was written. -/
theorem linked_of_put {user' : User} (forAuthenticator forPassword forAttempts : List Fact)
    {id : Text} (husers : s'.users = Function.update s.users user.id (some user'))
    (hauthenticator : ∀ fact ∈ forAuthenticator, fact.sets id = false)
    (hattempts : ∀ fact ∈ forAttempts, fact.sets id = false)
    (htrail : s'.trail = forAuthenticator ++ (forPassword ++ (forAttempts ++ s.trail)))
    (hs : s.Linked c limit id) (hother : id ≠ user.id →
      load s'.passwordHistory id = load s.passwordHistory id ∧
        ∀ fact ∈ forPassword, fact.sets id = false) (hsame : id = user.id → ∀ trail,
      Linked c limit id (load s.passwordHistory id) (storedHash s id) trail →
        Linked c limit id (load s'.passwordHistory id) user'.passwordHash
          (forPassword ++ trail)) : s'.Linked c limit id := by
  unfold Accounts.Linked at *
  rw [htrail]
  refine Linked.append ?_ _ hauthenticator
  have hbefore := hs.append _ hattempts
  by_cases hid : id = user.id
  · have hstored : storedHash s' id = user'.passwordHash := by
      rw [storedHash, husers, hid, Function.update_self]
      rfl
    rw [hstored]
    exact hsame hid _ hbefore
  · have hstored : storedHash s' id = storedHash s id := by
      rw [storedHash, husers, Function.update_of_ne hid]
      rfl
    obtain ⟨hload, hfacts⟩ := hother hid
    rw [hstored, hload]
    exact hbefore.append _ hfacts

theorem Effect.linked {now : ℕ} (h : Effect c.settled limit now s s') (hlimit : 1 ≤ limit)
    (hc : c.Exact) {id : Text} (hs : s.Linked c limit id) : s'.Linked c limit id := by
  cases h with
  | same husers _ hhistory _ htrail =>
    unfold Accounts.Linked storedHash
    rw [husers, hhistory, htrail]
    exact hs
  | failed username _ =>
    exact Linked.append hs [.failed username now] (by simp [Fact.sets])
  | swept _ _ _ _ => exact hs
  | reserved run userId secret =>
    exact Linked.append hs [.drew userId secret] (by simp [Fact.sets])
  | discarded _ => exact hs
  | created user _ hnew _ _ husers _ hhistory _ htrail =>
    refine linked_of_put [] _ [] husers (by simp) (by simp) htrail hs ?_ ?_
    · intro hne
      refine ⟨hhistory ▸ (recordImportedHash_written _ _ _).load hne, fun fact hfact => ?_⟩
      split_ifs at hfact
      · cases hfact
      · rw [List.mem_singleton.mp hfact]
        exact decide_eq_false hne.symm
    · rintro rfl trail hlinked
      have hstored : storedHash s user.id = [] := by
        rw [storedHash, hnew]
        rfl
      rw [hhistory]
      exact (hstored ▸ hlinked).imported hlimit
  | wrote user user' fa fp ft hrow hid husers hauth hpassword hattempts htrail =>
    refine linked_of_put fa fp ft husers hauth.sets hattempts.sets htrail hs ?_ ?_
    · exact fun hne => ⟨hpassword.written.load hne, hpassword.sets_of_ne hne⟩
    · rintro rfl trail hlinked
      exact hpassword.linked hlimit hc (storedHash_of_row hrow ▸ hlinked)

/-- The transaction keeps the history in step with the stored hash. A Windows sign-in rewrites the
hash only where the history has no other one, or has room for two at most. A password sign-in, which
notes the form it writes, rewrites only a hash that the history has, and writes a form that it does
not have yet: forms are salted, and what an upgrade wrote is not upgraded again. -/
def Event.notes (c : Credentials) (limit : ℕ) (s : Accounts) : Event → Bool
  | .passwordLogin username password _ salt => (s.named username).all fun user =>
      match c.upgradePasswordHash salt password user.passwordHash with
      | .ok (some hash) =>
        decide (user.passwordHash ∈ load s.passwordHistory user.id) &&
          decide (hash ∉ load s.passwordHistory user.id)
      | _ => true
  | .windowsLogin deviceId _ _ (.password password _ salt) =>
    ((s.devices deviceId).bind fun device => s.users device.userId).all fun user =>
      match newForm c (c.passwordMatches password user.passwordHash) salt password
        user.passwordHash with
      | .ok (some _) =>
        decide (limit ≤ 2) || (load s.passwordHistory user.id).all (· = user.passwordHash)
      | _ => true
  | _ => true

theorem Rewriting.linked {e : Event} (h : Rewriting c limit s s' e) (hlimit : 1 ≤ limit)
    (hc : c.Exact) (hnotes : e.notes c limit s = true) {id : Text} (hs : s.Linked c limit id) :
    s'.Linked c limit id := by
  cases h with
  | @unnoted _ _ _ password _ salt _ user user' fa ft hdevice huser hlocal hmatched hnew hhistory
      hrewrote =>
    refine linked_of_put fa [] ft hrewrote.users hrewrote.authenticator.sets hrewrote.attempts.sets
      hrewrote.trail hs ?_ ?_
    · exact fun _ => ⟨hhistory ▸ rfl, by simp⟩
    · rintro rfl trail hlinked
      have hsafe : limit ≤ 2 ∨ ∀ x ∈ load s.passwordHistory user.id, x = user.passwordHash := by
        simpa [Event.notes, hdevice, huser, newForm, hmatched, hnew] using hnotes
      rw [storedHash_of_row hrewrote.row] at hlinked
      rw [hhistory]
      exact ⟨hlinked.1.upgraded hc hlocal hmatched hnew hsafe, hlinked.2⟩
  | @noted _ password _ salt user user' fa ft hname hlocal hmatched hnew hhistory hrewrote =>
    refine linked_of_put fa [] ft hrewrote.users hrewrote.authenticator.sets hrewrote.attempts.sets
      hrewrote.trail hs ?_ ?_
    · exact fun hne => ⟨hhistory ▸ (noteRehash_written _ _ _ _).load hne, by simp⟩
    · rintro rfl trail hlinked
      obtain ⟨hold, hfresh⟩ : user.passwordHash ∈ load s.passwordHistory user.id ∧
          user'.passwordHash ∉ load s.passwordHistory user.id := by
        simpa [Event.notes, hname, hnew] using hnotes
      rw [storedHash_of_row hrewrote.row] at hlinked
      have hgo : ¬ (user'.passwordHash = [] ∨ limit = 0 ∨ user.passwordHash = user'.passwordHash) := by
        refine not_or.mpr ⟨(hc.upgraded _ _ _ _ hnew).1, not_or.mpr ⟨by omega, fun heq => ?_⟩⟩
        exact hfresh (heq ▸ hold)
      rw [hhistory, noteRehash, if_neg hgo, if_pos hold]
      exact Linked.saved ⟨hlinked.1.rehashed hc hmatched hnew hold hfresh, hlinked.2⟩

/-- A committed transaction that keeps the history in step. -/
def NotedStep (c : Credentials) (limit : ℕ) (s : Accounts) (e : Call × Event) (s' : Accounts) :
    Prop :=
  Step c limit s e s' ∧ e.2.notes c limit s = true

theorem linked_empty (id : Text) : Accounts.empty.Linked c limit id := by
  refine ⟨.nil c limit, fun plaintext older hsuffix => ?_⟩
  exact absurd (List.suffix_nil.mp hsuffix) (List.cons_ne_nil _ _)

/-- **A password that is accepted is none of the last ones.** Whatever writes passwords, as long as
the sign-ins keep the history in step: when a password chosen in clear is accepted, it matches none
of the last `limit` passwords that were set before it, and no history is longer than `limit`. -/
theorem accepted_password_is_new (hc : c.Exact) (hlimit : 1 ≤ limit) {es : List (Call × Event)}
    (h : Run (NotedStep c limit) .empty es s) :
    (∀ id plaintext older, .chosen id plaintext :: older <:+ s.trail →
      ∀ set ∈ (passwords id older).take limit, set.isPassword c plaintext = false) ∧
    ∀ id history, s.passwordHistory id = some history → history.length ≤ limit := by
  have hall : Keyed s ∧ Bounded limit s.passwordHistory ∧ ∀ id, s.Linked c limit id := by
    refine h.invariant (I := fun s => Keyed s ∧ Bounded limit s.passwordHistory ∧
      ∀ id, s.Linked c limit id) ?_ ⟨keyed_empty, fun _ _ hnone => (nomatch hnone), linked_empty⟩
    rintro s e s' ⟨⟨answer, hok⟩, hnotes⟩ ⟨hkeyed, hbounded, hlinked⟩
    have heffect := run_effect hkeyed hok
    refine ⟨heffect.keyed hkeyed, heffect.bounded hbounded, fun id => ?_⟩
    rcases run_cases hkeyed hok with hsettled | hrewriting
    · exact hsettled.linked hlimit hc (hlinked id)
    · exact hrewriting.linked hlimit hc hnotes (hlinked id)
  exact ⟨fun id => (hall.2.2 id).2, hall.2.1⟩

end

/-! ## Examples -/

/-- An account with this password, then `p1` imported in an old form, and a Windows device. -/
def importedAccount (password : Option (Text × ℕ)) : List (Call × Event) :=
  let call : Call := ⟨1000, .ok (), .ok (.ok ())⟩
  [(call, .createUser "u".toList "alice".toList password false true),
    (call, .importHash "u".toList "op1".toList),
    (call, .putDevice ⟨"pc".toList, "u".toList, "alice".toList, "x".toList, false⟩)]

/-- A Windows sign-in with `p1`. -/
def windowsSignIn : Call × Event :=
  (⟨1000, .ok (), .ok (.ok ())⟩,
    .windowsLogin "pc".toList "alice".toList "x".toList (.password "p1".toList none 0))

/-- The administrator sets a password. -/
def chooses (password : Text) : Call × Event :=
  (⟨1000, .ok (), .ok (.ok ())⟩, .patchPassword "u".toList password 0)

/-- Three passwords are to be remembered. A Windows sign-in writes the second one in a new form, the
history then has it twice, and the first password is accepted again after the third. -/
theorem windows_sign_in_forgets :
    ∃ es s older, Run (Step sample 3) .empty es s ∧
      .chosen "u".toList "p0".toList :: older <:+ s.trail ∧
      ∃ set ∈ (passwords "u".toList older).take 3, set.isPassword sample "p0".toList = true := by
  obtain ⟨s, hs, hP⟩ := (Option.any_eq_true _ _).mp (show (execute sample 3 .empty
    (importedAccount (some ("p0".toList, 0)) ++
      [windowsSignIn, chooses "p2".toList, chooses "p0".toList])).any (fun s =>
        s.trail.head? = some (.chosen "u".toList "p0".toList) &&
        ((passwords "u".toList s.trail.tail).take 3).any (Fact.isPassword sample "p0".toList)) = true
    by decide)
  rw [Bool.and_eq_true, decide_eq_true_eq, List.any_eq_true] at hP
  obtain ⟨older, htrail⟩ := List.head?_eq_some_iff.mp hP.1
  refine ⟨_, s, older, run_of_execute hs, htrail ▸ List.suffix_refl _, ?_⟩
  rw [htrail, List.tail_cons] at hP
  exact hP.2

theorem sample_exact : sample.Exact where
  hashed := by
    rintro salt password hash ⟨⟩
    exact ⟨List.cons_ne_nil _ _, fun plaintext => by simp [sample, eq_comm]⟩
  upgraded := by
    intro salt password old hash h
    have hhash : (if old = 'o' :: password then some ('h' :: password) else none) = some hash :=
      Except.ok.inj h
    split_ifs at hhash
    cases hhash
    exact ⟨List.cons_ne_nil _ _, fun plaintext => by simp [sample, eq_comm]⟩
  one := by
    intro hash p q hp hq
    simp only [sample, Bool.or_eq_true, decide_eq_true_eq] at hp hq
    rcases hp with rfl | rfl <;> rcases hq with h | h <;> cases h <;> rfl

/-- The same sign-in of an account that had no password before `p1` does no harm: `p1` is still
known when `p3` comes as the third one. -/
theorem accepted_password_is_new_third :
    ∃ s older, Run (NotedStep sample 3) .empty (importedAccount none ++
        [windowsSignIn, chooses "p2".toList, chooses "p3".toList]) s ∧
      .chosen "u".toList "p3".toList :: older <:+ s.trail ∧
      (passwords "u".toList older).length = 2 ∧
      ∀ set ∈ (passwords "u".toList older).take 3, set.isPassword sample "p3".toList = false := by
  obtain ⟨mid, hmid, hP⟩ := (Option.any_eq_true _ _).mp (show (execute sample 3 .empty
    (importedAccount none)).any (fun mid => windowsSignIn.2.notes sample 3 mid &&
      (execute sample 3 mid [windowsSignIn, chooses "p2".toList, chooses "p3".toList]).any
        fun s => s.trail.head? = some (.chosen "u".toList "p3".toList) &&
          (passwords "u".toList s.trail.tail).length = 2) = true by decide)
  rw [Bool.and_eq_true] at hP
  obtain ⟨s, hs, hlast⟩ := (Option.any_eq_true _ _).mp hP.2
  rw [Bool.and_eq_true, decide_eq_true_eq, decide_eq_true_eq] at hlast
  obtain ⟨older, htrail⟩ := List.head?_eq_some_iff.mp hlast.1
  have hbefore : Run (NotedStep sample 3) .empty (importedAccount none) mid := by
    refine (run_of_execute hmid).mono fun e he s s' hstep => ⟨hstep, ?_⟩
    simp only [importedAccount, List.mem_cons, List.not_mem_nil, or_false] at he
    rcases he with rfl | rfl | rfl <;> rfl
  have hafter : Run (NotedStep sample 3) mid
      [windowsSignIn, chooses "p2".toList, chooses "p3".toList] s := by
    obtain _ | ⟨hfirst, hrest⟩ := run_of_execute hs
    refine .cons ⟨hfirst, hP.1⟩ (hrest.mono fun e he s s' hstep => ⟨hstep, ?_⟩)
    simp only [List.mem_cons, List.not_mem_nil, or_false] at he
    rcases he with rfl | rfl <;> rfl
  have hrun := hbefore.append hafter
  have hsuffix : .chosen "u".toList "p3".toList :: older <:+ s.trail :=
    htrail ▸ List.suffix_refl _
  refine ⟨s, older, hrun, hsuffix, ?_, ?_⟩
  · rw [htrail, List.tail_cons] at hlast
    exact hlast.2
  · exact (accepted_password_is_new sample_exact (by decide) hrun).1 _ _ _ hsuffix

end RiAuth.Identity
