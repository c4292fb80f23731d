import RiAuth.OneUse.Messages

/-!
# Each message takes effect at most once

Histories of presentations, clean-up and everything else that leaves unexpired replay records alone.
For each kind of message the record outlives the time during which the message is taken: `exp` for
an assertion, the largest age for a security event token, 330 seconds after its first presentation
for a logout request.

* `consumeAssertion_ok`, `acceptSet_applied`, `sourceLogout_ok`: when a message is taken, and the
  record it leaves;
* `messages_at_most_once`: **no message takes effect twice**, where an assertion counts separately
  for each role and client it is presented for.
-/

namespace RiAuth.OneUse

open Checks History Fence

variable {l : Library}

/-! ## The records that the messages leave -/

/-- The name of the replay record of an assertion. -/
def assertionReplay (l : Library) (claims : Json) (domain : Text) : Text :=
  l.digest (domain ++ '\x00' :: (l.jsonText (claims.field "iss".toList) ++
    '\x00' :: (claims.field "jti".toList).asStr.getD []))

/-- The `exp` of an assertion. -/
def expiryOf (claims : Json) : ℕ := (claims.field "exp".toList).asU64.getD 0

variable {now : ℕ} {claims : Json} {token : Text}

theorem consumeAssertion_ok {replays replays' : Text → Option ℕ} {domain : Text}
    (h : consumeAssertion l replays now claims domain = .ok replays') :
    now < expiryOf claims ∧ free replays now (assertionReplay l claims domain) = true ∧
      replays' = record replays (assertionReplay l claims domain) (expiryOf claims) := by
  unfold consumeAssertion at h
  split at h
  · cases h
  · cases h
  · cases h
  · rename_i iat exp jti hiat hexp hjti
    obtain ⟨-, h1⟩ := seq_ok.mp h
    obtain ⟨hlife, h2⟩ := seq_ok.mp h1
    obtain ⟨hfree, h3⟩ := seq_ok.mp h2
    have hkey : assertionReplay l claims domain = l.digest (domain ++ '\x00' ::
        (l.jsonText (claims.field "iss".toList) ++ '\x00' :: jti)) := by
      unfold assertionReplay
      rw [hjti, Option.getD_some]
    have hexpiry : expiryOf claims = exp := by
      unfold expiryOf
      rw [hexp, Option.getD_some]
    rw [hkey, hexpiry]
    exact ⟨(require_ok.mp hlife).2.1, require_ok.mp hfree, (Except.ok.inj h3).symm⟩

theorem verify_eq {jwks : Jwks} {issuer audience : Text}
    (h : l.verify jwks token issuer audience now = some claims) : claims = l.payload token := by
  unfold Library.verify at h
  split at h
  · exact (Option.some.inj h).symm
  · cases h

/-- Whatever the role, the claims are those of the signed token. -/
theorem assertionClaims_ok {client : AssertionClient} {role : Role}
    (h : assertionClaims l client now token role = .ok claims) : claims = l.payload token := by
  unfold assertionClaims at h
  cases role with
  | client =>
    simp only at h
    split at h
    · cases h
    · obtain ⟨-, h1⟩ := seq_ok.mp h
      split at h1
      · cases h1
      · rename_i hverify
        obtain ⟨-, h2⟩ := seq_ok.mp h1
        rw [← Except.ok.inj h2]
        exact verify_eq hverify
  | machine =>
    obtain ⟨-, h1⟩ := seq_ok.mp h
    split at h1
    · cases h1
    · rename_i claims' hfind
      rw [← Except.ok.inj h1]
      obtain ⟨trust, -, htrust⟩ := List.exists_of_findSome?_eq_some hfind
      exact verify_eq (Option.filter_eq_some_iff.mp htrust).1

theorem presentAssertion_ok {s s' : State} {role : Role} {cid : Text}
    (h : presentAssertion l s now role cid token = .ok s') :
    now < expiryOf (l.payload token) ∧
      free s.assertionReplays now (assertionReplay l (l.payload token) (role.domain cid)) = true ∧
      s' = { s with
        assertionReplays := record s.assertionReplays
          (assertionReplay l (l.payload token) (role.domain cid)) (expiryOf (l.payload token)) } := by
  unfold presentAssertion at h
  split at h
  · cases h
  · obtain ⟨claims, hclaims, h1⟩ := bind_ok.mp h
    obtain ⟨replays, hreplays, h2⟩ := bind_ok.mp h1
    rw [assertionClaims_ok hclaims] at hreplays
    obtain ⟨hnow, hfree, rfl⟩ := consumeAssertion_ok hreplays
    exact ⟨hnow, hfree, (Except.ok.inj h2).symm⟩

/-- The `iat` of a security event token. -/
def issuedAt (claims : Json) : ℕ := (claims.field "iat".toList).asU64.getD 0

theorem verifySet_fresh {stream : SetStream} (h : (verifySet l stream token now).isSome = true) :
    now ≤ issuedAt (l.payload token) + maxSetAge := by
  unfold verifySet at h
  simp only at h
  split at h
  · rename_i hall
    obtain ⟨-, -, -, -, -, -, -, -, ⟨iat, hiat, -, hage⟩, -⟩ := hall
    have hissued : issuedAt (l.payload token) = iat := by
      unfold issuedAt
      rw [Option.mem_def.mp hiat, Option.getD_some]
    rw [hissued]
    omega
  · cases h

/-- A token that was seen before changes nothing. -/
theorem acceptSet_seen {s s' : State} (h : acceptSet l s now token = .ok (.seen, s')) : s' = s := by
  unfold acceptSet at h
  obtain ⟨-, h1⟩ := seq_ok.mp h
  simp only at h1
  split at h1
  · cases h1
  · split at h1
    · exact (Prod.mk.inj (Except.ok.inj h1)).2.symm
    · split at h1
      · cases h1
      · obtain ⟨accounts, -, h2⟩ := bind_ok.mp h1
        cases h2

/-- A token whose events are applied is fresh, has no unexpired record, and leaves one that outlives
it by a minute. -/
theorem acceptSet_applied {s s' : State} (h : acceptSet l s now token = .ok (.applied, s')) :
    now ≤ issuedAt (l.payload token) + maxSetAge ∧
      free s.ssfJti now (setReplay l (l.payload token)) = true ∧
      ∃ accounts, s' = { s with
        accounts := accounts
        ssfJti := record s.ssfJti (setReplay l (l.payload token))
          (issuedAt (l.payload token) + maxSetAge + 60) } := by
  unfold acceptSet at h
  obtain ⟨-, h1⟩ := seq_ok.mp h
  simp only at h1
  split at h1
  · cases h1
  · rename_i hmatched
    obtain ⟨stream, hstream⟩ := List.exists_mem_of_ne_nil _ hmatched
    have hfresh := verifySet_fresh (List.mem_filter.mp hstream).2
    split at h1
    · cases h1
    · rename_i hfree
      split at h1
      · cases h1
      · obtain ⟨accounts, -, h2⟩ := bind_ok.mp h1
        refine ⟨hfresh, by simpa using hfree, accounts, ?_⟩
        exact (Prod.mk.inj (Except.ok.inj h2)).2.symm

theorem receiveLogout_ok {id : Text} {source : SamlSource} {raw : Text} {post : Bool}
    {request : LogoutRequest} (h : receiveLogout l id source now raw post = .ok request) :
    request.destination = logoutCallback l id ∧ request.instant ≤ now + 30 ∧
      now ≤ request.instant + 300 := by
  unfold receiveLogout at h
  split at h
  · cases h
  · obtain ⟨hdestination, h1⟩ := seq_ok.mp h
    obtain ⟨hinstant, h2⟩ := seq_ok.mp h1
    obtain ⟨-, h3⟩ := seq_ok.mp h2
    obtain ⟨-, h4⟩ := seq_ok.mp h3
    obtain ⟨-, h5⟩ := seq_ok.mp h4
    obtain ⟨-, h6⟩ := seq_ok.mp h5
    rw [← Except.ok.inj h6]
    exact ⟨require_ok.mp hdestination, require_ok.mp hinstant⟩

theorem sourceLogout_ok {s s' : State} {id raw : Text} {post : Bool} {replayCount : ℕ}
    {begin_ : Result Unit} {request : LogoutRequest}
    (h : sourceLogout l s now id raw post replayCount begin_ = .ok (request, s')) :
    request.destination = logoutCallback l id ∧ request.instant ≤ now + 30 ∧
      now ≤ request.instant + 300 ∧ free s.samlReplays now (logoutReplay l id request) = true ∧
      ∃ accounts, s' = { s with
        accounts := accounts
        samlReplays := record s.samlReplays (logoutReplay l id request) (now + 630) } := by
  unfold sourceLogout at h
  split at h
  · cases h
  · obtain ⟨-, h1⟩ := seq_ok.mp h
    obtain ⟨request', hrequest, h2⟩ := bind_ok.mp h1
    obtain ⟨hfree, h3⟩ := seq_ok.mp h2
    obtain ⟨-, h4⟩ := seq_ok.mp h3
    obtain ⟨-, h5⟩ := seq_ok.mp h4
    obtain ⟨-, h6⟩ := seq_ok.mp h5
    obtain ⟨-, h7⟩ := seq_ok.mp h6
    obtain ⟨rfl, rfl⟩ := Prod.mk.inj (Except.ok.inj h7)
    obtain ⟨hdestination, hinstant, hlate⟩ := receiveLogout_ok hrequest
    exact ⟨hdestination, hinstant, hlate, require_ok.mp hfree, _, rfl⟩

/-- Different sources listen at different addresses. -/
theorem logoutCallback_inj {id id' : Text} (h : logoutCallback l id = logoutCallback l id') :
    id = id' := by
  unfold logoutCallback at h
  exact List.append_cancel_left (List.append_cancel_right h)

/-! ## Histories -/

/-- What happens, successful presentations only: a request that fails leaves no trace. -/
inductive Event where
  | assertion (now : ℕ) (role : Role) (cid token : Text)
  | set (now : ℕ) (token : Text) (acceptance : Acceptance)
  | logout (now : ℕ) (id : Text) (request : LogoutRequest)
  | cleanup (now : ℕ) (assertions sets logouts : List Text)
  /-- Any other operation: configuration, accounts and sessions may change, and records may be made
  under free names. -/
  | others (now : ℕ)

def Event.time : Event → ℕ
  | assertion now .. => now
  | set now .. => now
  | logout now .. => now
  | cleanup now .. => now
  | others now => now

/-- One event takes a state to another. -/
def Step (l : Library) (s : State) : Event → State → Prop
  | .assertion now role cid token, s' => presentAssertion l s now role cid token = .ok s'
  | .set now token acceptance, s' => acceptSet l s now token = .ok (acceptance, s')
  | .logout now id request, s' => ∃ raw post replayCount begin_,
      sourceLogout l s now id raw post replayCount begin_ = .ok (request, s')
  | .cleanup now assertions sets logouts, s' => s' = { s with
      assertionReplays := prune s.assertionReplays assertions now
      ssfJti := prune s.ssfJti sets now
      samlReplays := prune s.samlReplays logouts now }
  | .others now, s' => Keeps now s.assertionReplays s'.assertionReplays ∧
      Keeps now s.ssfJti s'.ssfJti ∧ Keeps now s.samlReplays s'.samlReplays

/-- No step touches an unexpired record. -/
theorem Step.keeps {s s' : State} {e : Event} (h : Step l s e s') :
    Keeps e.time s.assertionReplays s'.assertionReplays ∧ Keeps e.time s.ssfJti s'.ssfJti ∧
      Keeps e.time s.samlReplays s'.samlReplays := by
  cases e with
  | assertion now role cid token =>
    obtain ⟨-, hfree, rfl⟩ := presentAssertion_ok h
    exact ⟨keeps_record hfree _, .refl _ _, .refl _ _⟩
  | set now token acceptance =>
    cases acceptance with
    | seen =>
      cases acceptSet_seen h
      exact ⟨.refl _ _, .refl _ _, .refl _ _⟩
    | applied =>
      obtain ⟨-, hfree, accounts, rfl⟩ := acceptSet_applied h
      exact ⟨.refl _ _, keeps_record hfree _, .refl _ _⟩
  | logout now id request =>
    obtain ⟨raw, post, replayCount, begin_, h⟩ := h
    obtain ⟨-, -, -, hfree, accounts, rfl⟩ := sourceLogout_ok h
    exact ⟨.refl _ _, .refl _ _, keeps_record hfree _⟩
  | cleanup now assertions sets logouts =>
    cases h
    exact ⟨keeps_prune _ _ _, keeps_prune _ _ _, keeps_prune _ _ _⟩
  | others now => exact h

/-- The event consumes the assertion in this role for this client. -/
def Event.Consumes (role : Role) (cid token : Text) (e : Event) : Prop :=
  ∃ now, e = .assertion now role cid token

/-- The event applies the events of the token. -/
def Event.Applies (token : Text) (e : Event) : Prop :=
  ∃ now, e = .set now token .applied

/-- The event ends the sessions that the request names. -/
def Event.LogsOut (request : LogoutRequest) (e : Event) : Prop :=
  ∃ now id, e = .logout now id request

variable {s s' : State} {es : List Event}

theorem assertion_once (hrun : Run (Step l) s es s') (hordered : Ordered Event.time es) (role : Role)
    (cid token : Text) :
    es.Pairwise fun a b => a.Consumes role cid token → ¬ b.Consumes role cid token := by
  refine once State.assertionReplays Event.time
    (assertionReplay l (l.payload token) (role.domain cid)) (expiryOf (l.payload token) - 1)
    (fun s e s' hstep => hstep.keeps.1) ?_ hrun hordered
  rintro s _ s' hstep ⟨now, rfl⟩
  obtain ⟨hnow, hfree, rfl⟩ := presentAssertion_ok hstep
  refine ⟨Nat.le_pred_of_lt hnow, hfree, _, ?_, record_self ..⟩
  exact Nat.pred_lt_of_lt hnow

theorem set_once (hrun : Run (Step l) s es s') (hordered : Ordered Event.time es) (token : Text) :
    es.Pairwise fun a b => a.Applies token → ¬ b.Applies token := by
  refine once State.ssfJti Event.time (setReplay l (l.payload token))
    (issuedAt (l.payload token) + maxSetAge) (fun s e s' hstep => hstep.keeps.2.1) ?_ hrun hordered
  rintro s _ s' hstep ⟨now, rfl⟩
  obtain ⟨hfresh, hfree, accounts, rfl⟩ := acceptSet_applied hstep
  exact ⟨hfresh, hfree, _, Nat.lt_add_of_pos_right (by decide), record_self ..⟩

theorem logout_once (hrun : Run (Step l) s es s') (hordered : Ordered Event.time es)
    (request : LogoutRequest) :
    es.Pairwise fun a b => a.LogsOut request → ¬ b.LogsOut request := by
  -- the request names the one source that can take it
  obtain ⟨id, hid⟩ : ∃ id, ∀ id', request.destination = logoutCallback l id' → id' = id := by
    by_cases hsource : ∃ id, request.destination = logoutCallback l id
    · obtain ⟨id, hid⟩ := hsource
      exact ⟨id, fun id' hid' => logoutCallback_inj (hid'.symm.trans hid)⟩
    · exact ⟨[], fun id' hid' => absurd ⟨id', hid'⟩ hsource⟩
  refine once State.samlReplays Event.time (logoutReplay l id request) (request.instant + 300)
    (fun s e s' hstep => hstep.keeps.2.2) ?_ hrun hordered
  rintro s _ s' hstep ⟨now, id', rfl⟩
  obtain ⟨raw, post, replayCount, begin_, hstep⟩ := hstep
  obtain ⟨hdestination, hinstant, hlate, hfree, accounts, rfl⟩ := sourceLogout_ok hstep
  cases hid id' hdestination
  refine ⟨hlate, hfree, _, ?_, record_self ..⟩
  show request.instant + 300 < now + 630
  omega

/-- Once the events of a token were applied, presenting it again changes nothing at all. -/
theorem set_seen (hrun : Run (Step l) s es s') (hordered : Ordered Event.time es)
    (happlied : ∃ e ∈ es, e.Applies token) (hnow : ∀ e ∈ es, e.time ≤ now) {r : Acceptance × State}
    (h : acceptSet l s' now token = .ok r) : r = (.seen, s') := by
  obtain ⟨acceptance, s''⟩ := r
  cases acceptance with
  | seen => rw [acceptSet_seen h]
  | applied =>
    obtain ⟨e, he, hfirst⟩ := happlied
    have hstep : Step l s' (.set now token .applied) s'' := h
    have hlonger : Ordered Event.time (es ++ [.set now token .applied]) := by
      refine List.pairwise_append.mpr ⟨hordered, List.pairwise_singleton .., fun a ha b hb => ?_⟩
      cases List.mem_singleton.mp hb
      exact hnow a ha
    have honce := set_once (hrun.append (.single hstep)) hlonger token
    exact absurd ⟨now, rfl⟩
      ((List.pairwise_append.mp honce).2.2 e he _ (List.mem_singleton.mpr rfl) hfirst)

/-- **No message takes effect twice.** In every history whose clock does not go back, an assertion
is consumed at most once in each role and for each client, the events of a security event token are
applied at most once, and a logout request of a source is carried out at most once; accepting a
security event token again later changes no record. -/
theorem messages_at_most_once (hrun : Run (Step l) s es s') (hordered : Ordered Event.time es) :
    (∀ role cid token,
      es.Pairwise fun a b => a.Consumes role cid token → ¬ b.Consumes role cid token) ∧
    (∀ token, es.Pairwise fun a b => a.Applies token → ¬ b.Applies token) ∧
    (∀ request, es.Pairwise fun a b => a.LogsOut request → ¬ b.LogsOut request) ∧
    ∀ token, (∃ e ∈ es, e.Applies token) → ∀ now, (∀ e ∈ es, e.time ≤ now) →
      ∀ r, acceptSet l s' now token = .ok r → r = (.seen, s') :=
  ⟨assertion_once hrun hordered, set_once hrun hordered, logout_once hrun hordered,
    fun _ happlied _ hnow _ h => set_seen hrun hordered happlied hnow h⟩

/-! ## One workload trusted by two clients -/

/-- An assertion of the workload `w`. -/
def workloadClaims : Json :=
  .obj [("iss".toList, .str ['i']), ("sub".toList, .str ['w']), ("iat".toList, .int 100),
    ("exp".toList, .int 200), ("jti".toList, .str ['j'])]

/-- A token that says that the sessions of its subject were revoked. -/
def revokedClaims : Json :=
  .obj [("iss".toList, .str ['i']), ("iat".toList, .int 100), ("jti".toList, .str ['j']),
    ("sub_id".toList, .null), ("events".toList, .obj [(sessionRevoked, .obj [])])]

/-- Libraries under which the token `t` is the assertion and any other the security event token. -/
def plainLibrary : Library where
  digest := id
  jsonText _ := ['i']
  issuer := ['h']
  payload token := if token = ['t'] then workloadClaims else revokedClaims
  signed _ _ := true
  audience _ _ := true
  notBefore _ := 0
  secEvent _ := true
  subjectId _ := some ⟨['u'], fun _ => none⟩
  unmatched _ _ := validationFailed
  logoutRequest _ _ _ := none

/-- A service client that trusts the workload. -/
def trustingClient (id : Text) : AssertionClient where
  id := id
  enabled := true
  service := true
  privateKeyJwt := false
  jwks := none
  machineTrust := [⟨['i'], ['w'], 0⟩]

/-- Two service clients with the same trust, and a stream that links a subject to an account. -/
def plainState : State where
  clients := [trustingClient ['a'], trustingClient ['b']]
  streams := [⟨['s'], ['o'], ['i'], ['d'], supported, 0, [(['u'], ['x'])]⟩]
  sources := []
  upstream := []
  accounts := ⟨[(['x'], ⟨['x'], false, true, 0⟩)], [], [], []⟩
  assertionReplays _ := none
  ssfJti _ := none
  samlReplays _ := none

/-- The clients for which the assertion is consumed when it is presented for each of these. -/
def consumedFor (cids : List Text) : List Text :=
  (cids.foldl (fun (state : State × List Text) cid =>
    match presentAssertion plainLibrary state.1 100 .machine cid ['t'] with
    | .ok s => (s, state.2 ++ [cid])
    | .error _ => state) (plainState, [])).2

/-- **One assertion, two clients.** Each client that trusts the workload takes its assertion, and
each takes it once. -/
theorem assertion_consumed_by_two :
    consumedFor [['a'], ['a'], ['b'], ['b']] = [['a'], ['b']] := by
  decide

/-- An assertion is consumed and a security event token applied; presented again, the token changes
nothing. -/
theorem messages_at_most_once_plain : ∃ s', Run (Step plainLibrary) plainState
      [.assertion 100 .machine ['a'] ['t'], .set 100 ['r'] .applied] s' ∧
    ∀ r, acceptSet plainLibrary s' 150 ['r'] = .ok r → r = (.seen, s') := by
  obtain ⟨s₁, h₁, hs₁⟩ : ∃ s₁, presentAssertion plainLibrary plainState 100 .machine ['a'] ['t'] =
      .ok s₁ ∧ (acceptSet plainLibrary s₁ 100 ['r']).map Prod.fst = .ok .applied :=
    bind_ok.mp (by decide :
      (presentAssertion plainLibrary plainState 100 .machine ['a'] ['t'] >>= fun s₁ =>
        (acceptSet plainLibrary s₁ 100 ['r']).map Prod.fst) = .ok .applied)
  obtain ⟨⟨acceptance, s₂⟩, h₂, rfl⟩ := map_ok.mp hs₁
  have hrun : Run (Step plainLibrary) plainState
      [.assertion 100 .machine ['a'] ['t'], .set 100 ['r'] .applied] s₂ :=
    .cons h₁ (.single h₂)
  refine ⟨s₂, hrun, fun r => (messages_at_most_once hrun (by simp [Ordered, Event.time])).2.2.2
    ['r'] ⟨_, List.mem_cons_of_mem _ List.mem_cons_self, 100, rfl⟩ 150 (by simp [Event.time]) r⟩

end RiAuth.OneUse
