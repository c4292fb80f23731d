import RiAuth.Identity.Transactions

/-!
# The lockout law

Password sign-in, password change, the workflow steps, Windows sign-in and maintenance share the
attempts row of a username. Each has its own code for the window and the lock; the law is about all
of them together.

* `attempts_counted`: in every reachable state the row has counted the failures since it was last
  forgotten, in the sense of `Budget.Counts`;
* `run_of_gate_locked`: a transaction that finds the row locked does nothing;
* `blind_of_gate_locked`: nor does its outcome depend on what comparing a password would say.
-/

namespace RiAuth.Identity

open Checks Budget

/-! ## What a transaction looks at -/

/-- The same library with other answers about passwords. -/
def Credentials.answering (c : Credentials) (answers : (password hash : Text) → Bool) : Credentials :=
  { c with passwordMatches := answers }

/-- Whatever comparing passwords says, the outcome of the transaction is the same. -/
def Event.Blind (c : Credentials) (limit : ℕ) (call : Call) (s : Accounts) (e : Event) : Prop :=
  ∀ answers, e.run (c.answering answers) limit call s = e.run c limit call s

/-- The transactions that share the attempts row of a username. -/
def Event.sharesAttempts : Event → Bool
  | passwordLogin .. | pinPasswordChange .. | changePassword .. | portalPasswordChange ..
  | reserveWorkflowPassword .. | workflowPassword .. | workflowCode .. | windowsLogin ..
  | sweepAttempts .. => true
  | _ => false

/-! ## The failures that a row has counted -/

/-- The times of the failures of a username since its row was last forgotten, newest first. -/
def failures (username : Text) : List Fact → List ℕ
  | [] => []
  | .failed name at_ :: rest =>
    if name = username then at_ :: failures username rest else failures username rest
  | .cleared name :: rest => if name = username then [] else failures username rest
  | _ :: rest => failures username rest

variable {facts : List Fact}

/-- Facts about other credentials do not matter. -/
theorem failures_append_of_irrelevant {username : Text} {rest : List Fact}
    (h : ∀ fact ∈ facts, ∀ name at_, fact ≠ .failed name at_ ∧ fact ≠ .cleared name) :
    failures username (facts ++ rest) = failures username rest := by
  induction facts with
  | nil => rfl
  | cons fact facts ih =>
    obtain ⟨hfirst, hothers⟩ := List.forall_mem_cons.mp h
    rw [List.cons_append, ← ih hothers]
    cases fact with
    | failed name at_ => exact absurd rfl (hfirst name at_).1
    | cleared name => exact absurd rfl (hfirst name 0).2
    | _ => rfl

theorem AuthenticatorChange.irrelevant {userId : Text} {r r' : Text → Option (Text × Text)}
    {a a' : Authenticator} (h : AuthenticatorChange userId r a a' r' facts) :
    ∀ fact ∈ facts, ∀ name at_, fact ≠ .failed name at_ ∧ fact ≠ .cleared name := by
  intro fact hfact name at_
  cases h with
  | spent hspends =>
    cases hspends <;> simp at hfact <;> subst hfact <;> exact ⟨nofun, nofun⟩
  | confirmed secret expiresAt step digests _ =>
    rcases List.mem_cons.mp hfact with rfl | hfact
    · exact ⟨nofun, nofun⟩
    · obtain ⟨digest, -, rfl⟩ := List.mem_map.mp hfact
      exact ⟨nofun, nofun⟩
  | rotated digests =>
    obtain ⟨digest, -, rfl⟩ := List.mem_map.mp hfact
    exact ⟨nofun, nofun⟩
  | _ => simp at hfact <;> subst hfact <;> exact ⟨nofun, nofun⟩

theorem PasswordChange.irrelevant {c : Credentials} {limit : ℕ} {t t' : PasswordHistory.Table}
    {user : User} {hash : Text} (h : PasswordChange c limit t user hash t' facts) :
    ∀ fact ∈ facts, ∀ name at_, fact ≠ .failed name at_ ∧ fact ≠ .cleared name := by
  intro fact hfact name at_
  cases h with
  | imported raw _ =>
    split_ifs at hfact
    · cases hfact
    · obtain rfl := List.mem_singleton.mp hfact
      exact ⟨nofun, nofun⟩
  | chosen plaintext salt _ _ =>
    obtain rfl := List.mem_singleton.mp hfact
    exact ⟨nofun, nofun⟩
  | _ => cases hfact

variable {c : Credentials} {limit start now : ℕ} {s s' : Accounts}

theorem lockedUntil_le_of_unlocked {username : Text} (h : locked s username now = false)
    {row : Attempts} (hrow : s.attempts username = some row) : row.lockedUntil ≤ now := by
  rw [locked, hrow, Option.any_some, decide_eq_false_iff_not] at h
  exact Nat.le_of_not_lt h

/-- One transaction keeps the row and its failures together. -/
theorem Effect.counts {username : Text} (h : Effect c limit now s s')
    (hclock : lockoutSeconds ≤ now)
    (hs : Counts lockoutSeconds lockoutFailures (failures username s.trail) now
      (s.attempts username)) :
    Counts lockoutSeconds lockoutFailures (failures username s'.trail) now
      (s'.attempts username) := by
  cases h with
  | same _ hattempts _ _ htrail => rwa [hattempts, htrail]
  | failed name hunlocked =>
    by_cases hname : name = username
    · subst hname
      have hcharge := hs.charge (by decide) (by decide) hclock
        fun row hrow => lockedUntil_le_of_unlocked hunlocked hrow
      simpa [failAttempt, Accounts.note, failures] using hcharge
    · simpa [failAttempt, Accounts.note, failures, hname, Ne.symm hname] using hs
  | swept name row hrow hold =>
    by_cases hname : name = username
    · subst hname
      rw [hrow] at hs
      have hforget := hs.forget (show row.windowStart + 2 * 900 ≤ now by omega)
      simpa using hforget
    · simpa [Ne.symm hname] using hs
  | reserved run userId secret => exact hs
  | discarded run => exact hs
  | created user password _ _ _ _ hattempts _ _ htrail =>
    rw [hattempts, htrail, failures_append_of_irrelevant]
    · exact hs
    · intro fact hfact name at_
      split_ifs at hfact
      · cases hfact
      · obtain rfl := List.mem_singleton.mp hfact
        constructor <;> rintro ⟨⟩
  | wrote user user' _ _ _ _ _ _ hauth hpassword hattempts htrail =>
    rw [htrail, failures_append_of_irrelevant hauth.irrelevant,
      failures_append_of_irrelevant hpassword.irrelevant]
    generalize s'.attempts = t at hattempts
    cases hattempts with
    | kept => exact hs
    | cleared name =>
      by_cases hname : name = username
      · subst hname
        simpa [failures] using Counts.start
      · simpa [failures, hname, Ne.symm hname] using hs

/-- **The row of a username has counted its failures**, in every reachable state. -/
theorem attempts_counted (username : Text) (h : Reachable c limit start now s)
    (hstart : lockoutSeconds ≤ start) (hclock : start ≤ now) :
    Counts lockoutSeconds lockoutFailures (failures username s.trail) now (s.attempts username) := by
  refine h.invariant_timed hclock
    (I := fun now s => Counts lockoutSeconds lockoutFailures (failures username s.trail) now
      (s.attempts username)) .start (fun t t' s htt' hs => hs.later htt') ?_
  exact fun t s s' hfrom heffect hs => heffect.counts (hstart.trans hfrom) hs

/-! ## While the row is locked -/

section Locked

variable {username : Text} {call : Call}

variable {userId name password : Text} {user : User} {salt : ℕ} {e : Event}

theorem pinPassword_ok {missing : Error} (h : pinPassword call userId missing s = .ok user) :
    s.users userId = some user ∧ locked s user.username call.now = false := by
  obtain ⟨-, h1⟩ := seq_ok.mp h
  obtain ⟨found, hfound, h2⟩ := bind_ok.mp h1
  obtain ⟨-, h3⟩ := seq_ok.mp h2
  obtain ⟨hunlocked, h4⟩ := seq_ok.mp h3
  cases h4
  exact ⟨okOr_ok.mp hfound, require_ok.mp hunlocked⟩

/-- The rows that are locked stay as they are. -/
def LeavesLocked (now : ℕ) (s s' : Accounts) : Prop :=
  ∀ name, locked s name now = true → s'.attempts name = s.attempts name

theorem LeavesLocked.refl : LeavesLocked now s s := fun _ _ => rfl

/-- A transaction that found a row unlocked may change it. -/
theorem leavesLocked_of_unlocked (row : Option Attempts) (hunlocked : ¬ locked s name now = true)
    (h : s'.attempts = Function.update s.attempts name row) : LeavesLocked now s s' := by
  intro other hother
  have hne : other ≠ name := by
    rintro rfl
    exact hunlocked hother
  rw [h, Function.update_of_ne hne]

theorem charge_leavesLocked (h : ¬ locked s name now = true) :
    LeavesLocked now s (charge s name now) := by
  unfold charge
  split
  · exact .refl
  · exact leavesLocked_of_unlocked _ h rfl

theorem rehash_attempts (user : User) (upgraded : Option Text) :
    (rehash limit s user upgraded).attempts = s.attempts := by
  cases upgraded <;> rfl

theorem replacePassword_attempts {plaintext hash : Text}
    (h : replacePassword c limit s user plaintext hash = .ok s') :
    s'.attempts = Function.update s.attempts user.username none := by
  obtain ⟨history, -, h1⟩ := bind_ok.mp h
  cases h1
  rfl

variable {answer : Result Unit}

theorem passwordLogin_leavesLocked {otp : Option Text}
    (h : passwordLogin c limit call name password otp salt s = .ok (s', answer)) :
    LeavesLocked call.now s s' := by
  obtain ⟨-, h1⟩ := seq_ok.mp h
  split_ifs at h1 with hlocked
  · cases h1
    exact .refl
  obtain ⟨upgraded, -, h2⟩ := bind_ok.mp h1
  obtain ⟨spent, -, h3⟩ := bind_ok.mp h2
  cases spent with
  | none =>
    cases h3
    split_ifs
    · exact leavesLocked_of_unlocked _ hlocked rfl
    · exact .refl
  | some r =>
    obtain ⟨answer', -, h4⟩ := bind_ok.mp h3
    cases h4
    refine leavesLocked_of_unlocked none hlocked ?_
    change Function.update (rehash limit s r.1 upgraded).attempts name none = _
    rw [rehash_attempts]

theorem changePassword_leavesLocked {pinned : User} {current : Text} {otp : Option Text}
    (h : changePassword c limit call pinned current password otp salt s = .ok (s', answer)) :
    LeavesLocked call.now s s' := by
  obtain ⟨hash, -, h1⟩ := bind_ok.mp h
  obtain ⟨-, h2⟩ := seq_ok.mp h1
  obtain ⟨user, -, h3⟩ := bind_ok.mp h2
  obtain ⟨-, h4⟩ := seq_ok.mp h3
  obtain ⟨-, h5⟩ := seq_ok.mp h4
  split_ifs at h5 with hlocked
  · cases h5
    exact .refl
  obtain ⟨spent, hspent, h6⟩ := bind_ok.mp h5
  cases spent with
  | none =>
    cases h6
    exact leavesLocked_of_unlocked _ hlocked rfl
  | some r =>
    obtain ⟨s₁, hreplace, h7⟩ := bind_ok.mp h6
    obtain ⟨answer', -, h8⟩ := bind_ok.mp h7
    cases h8
    split_ifs at hspent
    · obtain ⟨a, hr, -⟩ := consumePasswordFactor_ok hspent
      have hattempts := replacePassword_attempts hreplace
      rw [hr] at hattempts
      exact leavesLocked_of_unlocked _ hlocked hattempts
    · cases hspent

theorem portalPasswordChange_leavesLocked {current : Text}
    (h : portalPasswordChange c limit call userId current password salt s = .ok (s', answer)) :
    LeavesLocked call.now s s' := by
  obtain ⟨hash, -, h1⟩ := bind_ok.mp h
  obtain ⟨-, h2⟩ := seq_ok.mp h1
  obtain ⟨user, -, h3⟩ := bind_ok.mp h2
  obtain ⟨-, h4⟩ := seq_ok.mp h3
  split_ifs at h4 with hlocked hmatched
  · cases h4
    exact .refl
  · obtain ⟨s₁, hreplace, h5⟩ := bind_ok.mp h4
    obtain ⟨answer', -, h6⟩ := bind_ok.mp h5
    cases h6
    exact leavesLocked_of_unlocked _ hlocked (replacePassword_attempts hreplace)
  · cases h4
    exact leavesLocked_of_unlocked _ hlocked rfl

theorem workflowPassword_leavesLocked {account hash : Text} {finished : Bool}
    (h : workflowPassword c call account name hash password finished s = .ok (s', answer)) :
    LeavesLocked call.now s s' := by
  obtain ⟨-, h1⟩ := seq_ok.mp h
  obtain ⟨user, -, h2⟩ := bind_ok.mp h1
  obtain ⟨-, h3⟩ := seq_ok.mp h2
  obtain ⟨-, h4⟩ := seq_ok.mp h3
  split_ifs at h4 with hlocked hmatched hfinished
  · cases h4
    exact .refl
  · obtain ⟨answer', -, h5⟩ := bind_ok.mp h4
    cases h5
    exact leavesLocked_of_unlocked _ hlocked rfl
  · obtain ⟨answer', -, h5⟩ := bind_ok.mp h4
    cases h5
    exact .refl
  · cases h4
    exact leavesLocked_of_unlocked _ hlocked rfl

theorem workflowCode_leavesLocked {account code : Text} {factor : CodeFactor}
    (h : workflowCode c call account code factor s = .ok (s', answer)) :
    LeavesLocked call.now s s' := by
  obtain ⟨-, h1⟩ := seq_ok.mp h
  obtain ⟨user, -, h2⟩ := bind_ok.mp h1
  split_ifs at h2 with hlocked
  · cases h2
    exact .refl
  obtain ⟨spent, hspent, h3⟩ := bind_ok.mp h2
  cases spent with
  | none =>
    cases h3
    exact leavesLocked_of_unlocked _ hlocked rfl
  | some r =>
    obtain ⟨answer', -, h4⟩ := bind_ok.mp h3
    cases h4
    obtain ⟨a, hr, -⟩ := verifyCode_ok hspent
    refine leavesLocked_of_unlocked none hlocked ?_
    rw [hr]
    rfl

theorem windowsLogin_leavesLocked {deviceId deviceSecret : Text} {proof : WindowsProof}
    (h : windowsLogin c call deviceId name deviceSecret proof s = .ok (s', answer)) :
    LeavesLocked call.now s s' := by
  unfold windowsLogin at h
  split_ifs at h with hlocked
  · cases h
    exact .refl
  split at h
  · cases h
    exact charge_leavesLocked hlocked
  obtain ⟨user, -, h1⟩ := bind_ok.mp h
  split_ifs at h1 with hrefused
  · cases h1
    exact charge_leavesLocked hlocked
  obtain ⟨factor, hfactor, h2⟩ := bind_ok.mp h1
  cases factor with
  | mfaRequired =>
    cases h2
    exact .refl
  | reject =>
    cases h2
    exact charge_leavesLocked hlocked
  | ok user' facts upgraded =>
    cases h2
    -- the account is the one of the username, so that it is this row that is forgotten
    obtain ⟨⟨a, hr, -⟩, -⟩ := verifyProof_ok hfactor
    have hname : (upgradeInPlace user' upgraded).username = name := by
      have hsame : user'.username = user.username := by
        change user' = _ at hr
        rw [hr]
      have huser : user.username = name := by
        by_contra hne
        exact hrefused (.inr (.inr (.inr hne)))
      cases upgraded <;> exact hsame.trans huser
    refine leavesLocked_of_unlocked none hlocked ?_
    rw [← hname]
    rfl

theorem sweepAttempts_leavesLocked {log : Text → List ℕ}
    (hs : ∀ name, Counts lockoutSeconds lockoutFailures (log name) now (s.attempts name))
    (h : sweepAttempts call name s = .ok (s', answer)) : LeavesLocked call.now s s' := by
  unfold sweepAttempts at h
  cases hrow : s.attempts name with
  | none =>
    rw [hrow] at h
    cases h
    exact .refl
  | some row =>
    rw [hrow] at h
    dsimp only at h
    split_ifs at h with hold
    · cases h
      -- a lock ends before its row is old enough to be dropped
      refine leavesLocked_of_unlocked none ?_ rfl
      obtain ⟨-, hw⟩ := (hs name).present row hrow
      rw [locked, hrow, Option.any_some, decide_eq_true_iff]
      rcases hw.counted.2.lt_or_eq with hroom | hfull
      · rw [hw.open_ hroom]
        exact Nat.not_lt_zero _
      · have hend := (hw.locked hfull).2.1
        change row.lockedUntil < row.windowStart + 2 * 900 at hend
        omega
    · cases h
      exact .refl

/-- **No transaction of those that share the row changes it while it is locked.** -/
theorem run_leavesLocked {log : Text → List ℕ}
    (hs : ∀ name, Counts lockoutSeconds lockoutFailures (log name) now (s.attempts name))
    (hshares : e.sharesAttempts = true) (h : e.run c limit call s = .ok (s', answer)) :
    LeavesLocked call.now s s' := by
  cases e with
  | passwordLogin => exact passwordLogin_leavesLocked h
  | pinPasswordChange =>
    obtain ⟨user, -, hsame⟩ := map_ok.mp h
    cases hsame
    exact .refl
  | changePassword => exact changePassword_leavesLocked h
  | portalPasswordChange => exact portalPasswordChange_leavesLocked h
  | reserveWorkflowPassword =>
    obtain ⟨user, -, hsame⟩ := map_ok.mp h
    cases hsame
    exact .refl
  | workflowPassword => exact workflowPassword_leavesLocked h
  | workflowCode => exact workflowCode_leavesLocked h
  | windowsLogin => exact windowsLogin_leavesLocked h
  | sweepAttempts => exact sweepAttempts_leavesLocked hs h
  | _ => cases hshares

/-- The username whose row a transaction looks at before it uses a credential. -/
def Event.gate (s : Accounts) : Event → Option Text
  | passwordLogin username _ _ _ | windowsLogin _ username _ _ => some username
  | changePassword pinned _ _ _ _ => (s.users pinned.id).map User.username
  | portalPasswordChange userId _ _ _ => (s.users userId).map User.username
  | workflowPassword account _ _ _ _ | workflowCode account _ _ =>
    (s.users account).map User.username
  | _ => none

theorem locked_of_named (hlocked : locked s username call.now = true) {id : Text}
    (hrow : s.users id = some user) (hname : (s.users id).map User.username = some username) :
    locked s user.username call.now = true := by
  rw [hrow, Option.map_some, Option.some.injEq] at hname
  rwa [hname]

/-- **A transaction that finds the row locked does nothing**, whatever was compared before. -/
theorem run_of_gate_locked (hlocked : locked s username call.now = true)
    (hgate : e.gate s = some username) (h : e.run c limit call s = .ok (s', answer)) :
    s' = s ∧ answer = .error rateLimited := by
  cases e with
  | passwordLogin name password otp salt =>
    obtain rfl := Option.some.inj hgate
    obtain ⟨-, h1⟩ := seq_ok.mp h
    rw [if_pos hlocked] at h1
    cases h1
    exact ⟨rfl, rfl⟩
  | windowsLogin deviceId name deviceSecret proof =>
    obtain rfl := Option.some.inj hgate
    change windowsLogin c call deviceId name deviceSecret proof s = _ at h
    rw [windowsLogin, if_pos hlocked] at h
    cases h
    exact ⟨rfl, rfl⟩
  | changePassword pinned current password otp salt =>
    obtain ⟨hash, -, h1⟩ := bind_ok.mp h
    obtain ⟨-, h2⟩ := seq_ok.mp h1
    obtain ⟨user, hfound, h3⟩ := bind_ok.mp h2
    obtain ⟨-, h4⟩ := seq_ok.mp h3
    obtain ⟨-, h5⟩ := seq_ok.mp h4
    rw [if_pos (locked_of_named hlocked (okOr_ok.mp hfound) hgate)] at h5
    cases h5
    exact ⟨rfl, rfl⟩
  | portalPasswordChange userId current password salt =>
    obtain ⟨hash, -, h1⟩ := bind_ok.mp h
    obtain ⟨-, h2⟩ := seq_ok.mp h1
    obtain ⟨user, hfound, h3⟩ := bind_ok.mp h2
    obtain ⟨-, h4⟩ := seq_ok.mp h3
    rw [if_pos (locked_of_named hlocked (okOr_ok.mp hfound) hgate)] at h4
    cases h4
    exact ⟨rfl, rfl⟩
  | workflowPassword account name hash password finished =>
    obtain ⟨-, h1⟩ := seq_ok.mp h
    obtain ⟨user, hfound, h2⟩ := bind_ok.mp h1
    obtain ⟨-, h3⟩ := seq_ok.mp h2
    obtain ⟨-, h4⟩ := seq_ok.mp h3
    rw [if_pos (locked_of_named hlocked (okOr_ok.mp hfound) hgate)] at h4
    cases h4
    exact ⟨rfl, rfl⟩
  | workflowCode account code factor =>
    obtain ⟨-, h1⟩ := seq_ok.mp h
    obtain ⟨user, hfound, h2⟩ := bind_ok.mp h1
    rw [if_pos (locked_of_named hlocked (okOr_ok.mp hfound) hgate)] at h2
    cases h2
    exact ⟨rfl, rfl⟩
  | _ => cases hgate

/-- **A transaction that finds the row locked does not look at the password.** -/
theorem blind_of_gate_locked (hlocked : locked s username call.now = true)
    (hgate : e.gate s = some username) : e.Blind c limit call s := by
  intro answers
  cases e with
  | passwordLogin name password otp salt =>
    obtain rfl := Option.some.inj hgate
    simp only [Event.run, passwordLogin, hlocked, if_true]
  | windowsLogin deviceId name deviceSecret proof =>
    obtain rfl := Option.some.inj hgate
    simp only [Event.run, windowsLogin, hlocked, if_true]
  | changePassword pinned current password otp salt =>
    obtain ⟨user, hrow, -⟩ := Option.map_eq_some_iff.mp hgate
    simp only [Event.run, changePassword, hrow, okOr_some_bind,
      locked_of_named hlocked hrow hgate, if_true]
    rfl
  | portalPasswordChange userId current password salt =>
    obtain ⟨user, hrow, -⟩ := Option.map_eq_some_iff.mp hgate
    simp only [Event.run, portalPasswordChange, hrow, okOr_some_bind,
      locked_of_named hlocked hrow hgate, if_true]
    rfl
  | workflowPassword account name hash password finished =>
    obtain ⟨user, hrow, -⟩ := Option.map_eq_some_iff.mp hgate
    simp only [Event.run, workflowPassword, hrow, okOr_some_bind,
      locked_of_named hlocked hrow hgate, if_true]
  | workflowCode account code factor =>
    obtain ⟨user, hrow, -⟩ := Option.map_eq_some_iff.mp hgate
    simp only [Event.run, workflowCode, hrow, okOr_some_bind,
      locked_of_named hlocked hrow hgate, if_true]
  | _ => cases hgate

/-- Nor is a locked account pinned for a comparison to come. -/
theorem pinPassword_of_locked {missing : Error} (hlocked : locked s username call.now = true)
    (h : pinPassword call userId missing s = .ok user) : user.username ≠ username := by
  rintro rfl
  rw [(pinPassword_ok h).2] at hlocked
  cases hlocked

end Locked

/-! ## The law -/

theorem failures_append {username : Text} {since before : List Fact}
    (h : .cleared username ∉ since) :
    failures username (since ++ before) = failures username since ++ failures username before := by
  induction since with
  | nil => rfl
  | cons fact since ih =>
    obtain ⟨hfirst, hothers⟩ := not_or.mp (mt List.mem_cons.mpr h)
    have hrest := ih hothers
    cases fact with
    | failed name at_ =>
      simp only [List.cons_append, failures, hrest]
      split_ifs <;> rfl
    | cleared name =>
      have hname : name ≠ username := fun hsame => hfirst (by rw [hsame])
      simp only [List.cons_append, failures, hrest, if_neg hname]
    | _ => exact hrest

/-- **The lockout law.** While the row of a username is locked, a transaction that would use a
credential of the account answers that it is locked and changes nothing, whatever comparing the
password would say, the account is not pinned for a comparison to come, and the transactions that
share the row leave it as it is. In any half-open interval of 900 seconds at most eight failures are
recorded that no sign-in or reset lies between. -/
theorem lockout_law (username : Text) (h : Reachable c limit start now s)
    (hstart : lockoutSeconds ≤ start) (hclock : start ≤ now) :
    (∀ (call : Call) (e : Event), locked s username call.now = true →
      (e.gate s = some username → e.Blind c limit call s) ∧
      (∀ userId missing user, pinPassword call userId missing s = .ok user →
        user.username ≠ username) ∧
      ∀ s' answer, e.run c limit call s = .ok (s', answer) →
        (e.sharesAttempts = true → s'.attempts username = s.attempts username) ∧
        (e.gate s = some username → s' = s ∧ answer = .error rateLimited)) ∧
    ∀ since before a, s.trail = since ++ before → .cleared username ∉ since →
      within a (a + 900) (failures username since) ≤ 8 := by
  have hcounted := fun name => attempts_counted name h hstart hclock
  refine ⟨fun call e hlocked => ⟨blind_of_gate_locked hlocked, fun _ _ _ =>
    pinPassword_of_locked hlocked, fun s' answer hok => ⟨?_, ?_⟩⟩, ?_⟩
  · exact fun hshares => run_leavesLocked hcounted hshares hok username hlocked
  · exact fun hgate => run_of_gate_locked hlocked hgate hok
  · intro since before a htrail hcleared
    have hbound := (hcounted username).bound a
    rw [htrail, failures_append hcleared] at hbound
    exact (within_le_append a (a + 900) _ _).trans hbound

/-! ## Examples -/

/-- Five Windows sign-ins from an unknown device at one time. -/
def unknownDevice (username : Text) : List (Call × Event) :=
  List.replicate 5 (⟨1000, .ok (), .ok (.ok ())⟩,
    .windowsLogin "pc".toList username "x".toList (.reauth (.ok none)))

def noonCall : Call := ⟨1000, .ok (), .ok (.ok ())⟩

def corpBinding : Binding :=
  ⟨"corp".toList, "f".toList, "7".toList, "u".toList, "cn=alice".toList⟩

/-- An account of a directory, locked; then a password sign-in starts. -/
def lockedDirectoryAccount : List (Call × Event) :=
  let alice := "alice".toList
  [(noonCall, .createUser "u".toList alice none false true),
    (noonCall, .bindDirectory "u".toList (some corpBinding) fun name =>
      if name = alice then some "u".toList else none)] ++ unknownDevice alice ++
    [(noonCall, .directoryAttempt corpBinding)]

/-- An account with a password of its own. -/
def localAccount : List (Call × Event) :=
  [(noonCall, .createUser "u".toList "alice".toList (some ("secret".toList, 0)) false true)]

/-- The answer of a transaction that commits. -/
def Event.answer (e : Event) (s : Accounts) : Option (Result Unit) :=
  (e.run sample 5 noonCall s).toOption.map Prod.snd

/-- Two things a locked account is still asked. A directory is asked about the password of its own
account, and its answer counts: the row is never read. And a password change may have its password
compared while the row is being locked, between its two transactions; the second one then
refuses. -/
theorem directory_asked_while_locked :
    (∃ s, Reachable sample 5 900 1000 s ∧ locked s "alice".toList 1000 = true ∧
      directoryBinding s "alice".toList = some corpBinding ∧
      (Event.directoryLogin corpBinding 0 true none).answer s = some (.ok ()) ∧
      (Event.directoryLogin corpBinding 0 false none).answer s ≠ some (.ok ())) ∧
    ∃ s pinned s', Reachable sample 5 900 1000 s ∧
      pinPassword noonCall "u".toList .unauthorized s = .ok pinned ∧
      History.Run (Step sample 5) s (unknownDevice "alice".toList) s' ∧
      locked s' "alice".toList 1000 = true ∧
      (Event.changePassword pinned "secret".toList "new".toList none 1).answer s' =
        some (.error rateLimited) := by
  constructor
  · obtain ⟨s, hs, hP⟩ := exists_reachable_of_execute sample 5 lockedDirectoryAccount 900 1000
      (fun s => locked s "alice".toList 1000 &&
        (directoryBinding s "alice".toList = some corpBinding &&
          ((Event.directoryLogin corpBinding 0 true none).answer s = some (.ok ()) &&
            (Event.directoryLogin corpBinding 0 false none).answer s ≠ some (.ok ()))))
      (by decide) (by unfold History.Ordered; decide) (by decide)
    simp only [Bool.and_eq_true, decide_eq_true_eq] at hP
    exact ⟨s, hs, hP⟩
  · obtain ⟨s, hs, hP⟩ := exists_reachable_of_execute sample 5 localAccount 900 1000
      (fun s => (pinPassword noonCall "u".toList .unauthorized s).toOption.any fun pinned =>
        (execute sample 5 s (unknownDevice "alice".toList)).any fun s' =>
          locked s' "alice".toList 1000 &&
            (Event.changePassword pinned "secret".toList "new".toList none 1).answer s' =
              some (.error rateLimited))
      (by decide) (by unfold History.Ordered; decide) (by decide)
    obtain ⟨pinned, hpinned, hP⟩ := (Option.any_eq_true _ _).mp hP
    have hpin : pinPassword noonCall "u".toList .unauthorized s = .ok pinned := by
      cases hpin : pinPassword noonCall "u".toList .unauthorized s with
      | error e =>
        rw [hpin] at hpinned
        cases hpinned
      | ok user =>
        rw [hpin] at hpinned
        cases hpinned
        rfl
    obtain ⟨s', hs', hP⟩ := (Option.any_eq_true _ _).mp hP
    simp only [Bool.and_eq_true, decide_eq_true_eq] at hP
    exact ⟨s, pinned, s', hs, hpin, run_of_execute hs', hP⟩

/-- Five failures at one time lock an account, and a sign-in is then answered without a look at its
hash. -/
theorem lockout_law_five :
    ∃ s, Reachable sample 5 900 1000 s ∧ locked s "alice".toList 1000 = true ∧
      failures "alice".toList s.trail = [1000, 1000, 1000, 1000, 1000] ∧
      (Event.passwordLogin "alice".toList "secret".toList none 0).Blind sample 5 noonCall s ∧
      within 900 1800 (failures "alice".toList s.trail) ≤ 8 := by
  obtain ⟨s, hs, hP⟩ := exists_reachable_of_execute sample 5
    (localAccount ++ unknownDevice "alice".toList) 900 1000
    (fun s => locked s "alice".toList 1000 &&
      failures "alice".toList s.trail = [1000, 1000, 1000, 1000, 1000] &&
      .cleared "alice".toList ∉ s.trail)
    (by decide) (by unfold History.Ordered; decide) (by decide)
  simp only [Bool.and_eq_true, decide_eq_true_eq] at hP
  obtain ⟨⟨hlocked, hfailures⟩, hcleared⟩ := hP
  have hlaw := lockout_law "alice".toList hs (by decide) (by decide)
  refine ⟨s, hs, hlocked, hfailures, ?_, ?_⟩
  · exact (hlaw.1 noonCall _ hlocked).1 rfl
  · exact hlaw.2 s.trail [] 900 (List.append_nil _).symm hcleared

end RiAuth.Identity
