import RiAuth.Lib.OrdMap
import RiAuth.Radius.Fragments

/-!
# Duplicate requests

A network server sends an Access-Request again until it hears an answer. The first copy claims a row
in a cache, checks the credentials and commits its answer to the row. Later copies are answered from
the row, after another look at the client and at the identity.

* `radiusClaim`, `papCommit`, `eapCommit`, `cleanupCache`: the transactions on the row;
* `Step`, `Run`: copies, commits and anything else, in any order, while the row lasts;
* **`radius_duplicates`**: credentials are checked once, and an answer can only turn into a reject.
-/

namespace RiAuth.Radius.Duplicates

open Checks Framing

/-! ## Transactions -/

/-- What the transactions ask of the rest of the store: client profiles and their fingerprints,
whether an identity is still good for a client, its attributes and their digest, sessions, and what
is written when an identity is closed or an answer is audited. -/
structure Port (W C U I : Type) where
  profile : W → Text → Result C
  fingerprint : C → Result Text
  eapTls : C → Bool
  identity : W → ℕ → C → I → Result U
  attributes : C → U → Result (List WireAttribute)
  username : U → Bytes
  digest : List WireAttribute → Result Text
  session : W → ℕ → Text → Result I
  close : W → Option I → Result W
  audit : W → Option I → String → Result W

/-- The row of a request. -/
structure Cached (I : Type) where
  expiresAt : ℕ
  clientId : Text
  clientFingerprint : Text
  attributesFingerprint : Option Text
  response : Option Bytes
  identity : Option I

/-- The rows, and all else in the store. -/
structure State (W I : Type) where
  world : W
  requests : OrdMap Text (Cached I)

/-- A request of a client, with the key under which its copies meet. -/
structure Request where
  clientId : Text
  key : Text
  packet : Packet
  secret : Bytes

/-- What a claim of a row finds. -/
inductive Claim where
  | cached (response : Option Bytes)
  | new

/-- What EAP makes of a request. -/
inductive Outcome (I : Type) where
  | challenge (attrs : List WireAttribute)
  | accept (identity : I) (attrs : List WireAttribute)
  | reject (attrs : List WireAttribute)

/-- The server's own failures. -/
def isServerError (e : Error) : Prop := 500 ≤ e.status ∧ e.status < 600

instance (e : Error) : Decidable (isServerError e) := inferInstanceAs (Decidable (_ ∧ _))

/-- An EAP packet in attributes of at most 253 bytes. -/
def attributes (eap : Bytes) : List WireAttribute :=
  (chunks 253 eap.length eap).map fun c => (79, c)

/-- The EAP failure that answers a request, if it carries an EAP response. -/
def failure (request : Packet) : List WireAttribute :=
  match message request with
  | .ok m => attributes (packet 4 ((m.drop 1).headD 0) none [])
  | .error _ => []

variable {W C U I : Type} (h : Hashes) (port : Port W C U I) (now : ℕ)

/-- Whether the answer in a row no longer stands. -/
def changed (world : W) (rq : Request) (client : C) (fp : Text) (cached : Cached I) :
    Result Bool :=
  if cached.clientId ≠ rq.clientId ∨ cached.clientFingerprint ≠ fp then .ok true
  else
    match cached.identity with
    | none => .ok false
    | some identity =>
      match port.identity world now client identity with
      | .ok user => do
        let attrs ← port.attributes client user
        let attrs :=
          if (rq.packet.attr 79).isSome then attrs ++ [(1, port.username user)] else attrs
        let digest ← port.digest attrs
        .ok (decide (cached.attributesFingerprint ≠ some digest))
      | .error e => if isServerError e then .error e else .ok true

/-- A row for the first copy. -/
def claimNew (s : State W I) (rq : Request) (fp : Text) : Result (Claim × State W I) := do
  require (s.requests.entries.length < 10000) (.conflict "RADIUS duplicate cache is full")
  let row := ⟨now + 90, rq.clientId, fp, none, none, none⟩
  .ok (.new, { s with requests := s.requests.insert rq.key row })

/-- The first look at a request. -/
def radiusClaim (s : State W I) (rq : Request) : Result (Claim × State W I) := do
  let client ← port.profile s.world rq.clientId
  let fp ← port.fingerprint client
  match s.requests.get? rq.key with
  | none => claimNew now s rq fp
  | some cached =>
    if now < cached.expiresAt then do
      let stale ← changed port now s.world rq client fp cached
      if stale then do
        let world ← port.close s.world cached.identity
        let response ← rq.packet.response h 3 rq.secret (failure rq.packet)
        .ok (.cached (some response), ⟨world, s.requests.insert rq.key
          { cached with identity := none, response := some response }⟩)
      else .ok (.cached cached.response, s)
    else do
      let world ← port.close s.world cached.identity
      claimNew now { s with world } rq fp

/-- The row that waits for an answer. -/
def waiting (s : State W I) (rq : Request) : Result (Cached I) :=
  okOr ((s.requests.get? rq.key).filter fun c => now < c.expiresAt ∧ c.response = none)
    (.conflict "RADIUS request expired")

/-- The event of an answer. -/
def auditEvent (code : UInt8) : String := if code = 2 then "radius.accept" else "radius.reject"

/-- What is to be answered: a code, attributes, and the row with what it has to keep. -/
abbrev Decision (I : Type) := UInt8 × List WireAttribute × Cached I

/-- The checks of a password. -/
def papAllowed (s : State W I) (rq : Request) (token : Option Text) (cached : Cached I) :
    Result (I × List WireAttribute) := do
  let client ← port.profile s.world rq.clientId
  let fp ← port.fingerprint client
  require (fp = cached.clientFingerprint) .forbidden
  let token ← okOr token .unauthorized
  let identity ← port.session s.world now token
  let user ← port.identity s.world now client identity
  let attrs ← port.attributes client user
  .ok (identity, attrs)

/-- The answer to a password. -/
def papDecision (s : State W I) (rq : Request) (token : Option Text) (cached : Cached I) :
    Result (Decision I) :=
  match papAllowed port now s rq token cached with
  | .ok allowed => do
    let digest ← port.digest allowed.2
    .ok (2, allowed.2, { cached with
      identity := some allowed.1, attributesFingerprint := some digest })
  | .error e => if isServerError e then .error e else .ok (3, [], cached)

/-- The answer to a password. -/
def papCommit (s : State W I) (rq : Request) (token : Option Text) :
    Result (Bytes × State W I) := do
  let cached ← waiting now s rq
  let decision ← papDecision port now s rq token cached
  let response ← rq.packet.response h decision.1 rq.secret decision.2.1
  let world ← port.audit s.world decision.2.2.identity (auditEvent decision.1)
  .ok (response, ⟨world, s.requests.insert rq.key
    { decision.2.2 with response := some response }⟩)

/-- The answer to EAP. -/
def eapDecision (s : State W I) (rq : Request) (outcome : Outcome I) (client : C) (fp : Text)
    (cached : Cached I) : Result (Decision I) :=
  if ¬(port.eapTls client = true ∧ fp = cached.clientFingerprint) then
    .ok (3, failure rq.packet, cached)
  else match outcome with
  | .challenge attrs => .ok (11, attrs, cached)
  | .reject attrs => .ok (3, attrs, cached)
  | .accept identity protocolAttrs =>
    match port.identity s.world now client identity with
    | .ok user => do
      let attrs ← port.attributes client user
      let attrs := attrs ++ [(1, port.username user)]
      let digest ← port.digest attrs
      .ok (2, attrs ++ protocolAttrs, { cached with
        identity := some identity, attributesFingerprint := some digest })
    | .error e => if isServerError e then .error e else .ok (3, failure rq.packet, cached)

/-- The answer to EAP. -/
def eapCommit (s : State W I) (rq : Request) (outcome : Outcome I) :
    Result (Bytes × State W I) := do
  let cached ← waiting now s rq
  let client ← port.profile s.world rq.clientId
  let fp ← port.fingerprint client
  let decision ← eapDecision port now s rq outcome client fp cached
  let response ← rq.packet.response h decision.1 rq.secret decision.2.1
  -- a challenge is not audited
  let world ← (if decision.1 = 11 then .ok s.world
    else port.audit s.world decision.2.2.identity (auditEvent decision.1) : Result W)
  .ok (response, ⟨world, s.requests.insert rq.key
    { decision.2.2 with response := some response }⟩)

/-- Maintenance removes what has expired, of a page of rows. -/
def cleanupCache (s : State W I) (page : List (Text × Cached I)) : Result (State W I) :=
  page.foldlM (fun s e =>
    if e.2.expiresAt < now then do
      let world ← port.close s.world e.2.identity
      .ok ⟨world, s.requests.erase e.1⟩
    else .ok s) s

/-! ## Runs -/

/-- Where the copies of a request stand: the store, how many have claimed the row and not checked
the credentials yet, and how many have checked them and not come back yet. -/
structure Node (W I : Type) where
  state : State W I
  claimed : ℕ
  checked : ℕ

/-- What became of a copy. -/
inductive Event where
  /-- A copy claimed the row. -/
  | fresh
  /-- A copy was answered from the row, or not at all. The row was rewritten if it was stale. -/
  | copy (reply : Option Bytes) (stale : Bool)
  /-- Credentials were checked. -/
  | authenticated
  | committed (response : Bytes)
  | other
deriving DecidableEq

/-- A copy that a server takes for a request of some client. The key names the network server, and
the configuration which client that is. -/
def Request.as (rq : Request) (clientId : Text) : Request := { rq with clientId }

variable (rq : Request)

/-- What can happen. The copy that claimed the row is `rq` itself; later ones may be taken for
requests of other clients. -/
inductive Step : Node W I → Event → Node W I → Prop
  | fresh {n : Node W I} {s : State W I} {clientId : Text}
      (hclaim : radiusClaim h port now n.state (rq.as clientId) = .ok (.new, s)) :
      Step n .fresh { n with state := s, claimed := n.claimed + 1 }
  | copy {n : Node W I} {s : State W I} {reply : Option Bytes} {clientId : Text} {client : C}
      {fp : Text} {cached : Cached I} {stale : Bool}
      (hprofile : port.profile n.state.world clientId = .ok client)
      (hfp : port.fingerprint client = .ok fp)
      (hcached : n.state.requests.get? rq.key = some cached)
      (hstale : changed port now n.state.world (rq.as clientId) client fp cached = .ok stale)
      (hclaim : radiusClaim h port now n.state (rq.as clientId) = .ok (.cached reply, s)) :
      Step n (.copy reply stale) { n with state := s }
  | refused {n : Node W I} {clientId : Text} {e : Error}
      (hclaim : radiusClaim h port now n.state (rq.as clientId) = .error e) :
      Step n (.copy none false) n
  /-- A login or an EAP step, which may write anything but a row of the cache. -/
  | authenticate {n : Node W I} {k : ℕ} (hclaimed : n.claimed = k + 1) (world : W) :
      Step n .authenticated
        { state := { n.state with world }, claimed := k, checked := n.checked + 1 }
  | papCommit {n : Node W I} {s : State W I} {k : ℕ} {token : Option Text} {response : Bytes}
      (hchecked : n.checked = k + 1)
      (hcommit : papCommit h port now n.state rq token = .ok (response, s)) :
      Step n (.committed response) { n with state := s, checked := k }
  | eapCommit {n : Node W I} {s : State W I} {k : ℕ} {outcome : Outcome I} {response : Bytes}
      (hchecked : n.checked = k + 1)
      (hcommit : eapCommit h port now n.state rq outcome = .ok (response, s)) :
      Step n (.committed response) { n with state := s, checked := k }
  /-- A copy whose check or commit failed ends without an answer. -/
  | failed {n : Node W I} {k : ℕ} (hchecked : n.checked = k + 1) :
      Step n .other { n with checked := k }
  | cleanup {n : Node W I} {s : State W I} {page : List (Text × Cached I)}
      (hpage : ∀ e ∈ page, n.state.requests.get? e.1 = some e.2)
      (hcleanup : cleanupCache port now n.state page = .ok s) : Step n .other { n with state := s }
  /-- Other requests and whatever else is written. -/
  | other {n : Node W I} (s : State W I)
      (hkey : s.requests.get? rq.key = n.state.requests.get? rq.key) :
      Step n .other { n with state := s }

/-- What happens while a row lasts, newest first, from the claim on. -/
inductive Run (start : ℕ) : List Event → Node W I → ℕ → Prop
  | claim {s s' : State W I} (hclaim : radiusClaim h port start s rq = .ok (.new, s')) :
      Run start [] ⟨s', 1, 0⟩ start
  | next {events : List Event} {n n' : Node W I} {time now : ℕ} {e : Event}
      (hrun : Run start events n time) (hle : time ≤ now) (hwindow : now < start + 90)
      (hstep : Step h port now rq n e n') : Run start (e :: events) n' now

/-- The code of a reject is 3, that of an accept is 2. -/
def Rejects (response : Bytes) : Prop := response.head? = some 3

/-- What an event has to do with the ones before it. -/
def Good : Event → List Event → Prop
  | .fresh, _ => False
  | .authenticated, earlier => .authenticated ∉ earlier
  | .committed _, earlier =>
    (∀ r, .committed r ∉ earlier) ∧ ∀ reply, .copy reply true ∉ earlier
  | .copy reply stale, earlier =>
    -- before the commit there is no answer, unless the row is or was found stale
    ((∀ r, .committed r ∉ earlier) → stale = false → (∀ reply, .copy reply true ∉ earlier) →
      reply = none) ∧
    ((∀ r, .committed r ∉ earlier) → ∀ r ∈ reply, Rejects r) ∧
    -- after it there is the one that was committed, or a reject
    (∀ r₀, .committed r₀ ∈ earlier → ∀ r ∈ reply, r = r₀ ∨ Rejects r) ∧
    -- once stale, always rejected
    (stale = true → ∃ r ∈ reply, Rejects r) ∧
    ((∃ reply, .copy reply true ∈ earlier) → ∀ r ∈ reply, Rejects r)
  | .other, _ => True

/-! ## One transaction -/

section

variable {h port now rq}

variable {r response : Bytes} {s s' : State W I} {cached : Cached I} {start : ℕ}
  {events : List Event}

theorem response_code {p : Packet} {code : UInt8} {secret : Bytes} {attrs : List WireAttribute}
    (hr : p.response h code secret attrs = .ok r) : r.head? = some code := by
  unfold Packet.response at hr
  rw [seq_ok, seq_ok] at hr
  obtain ⟨-, -, hr⟩ := hr
  cases hr
  rfl

theorem radiusClaim_new (hcached : s.requests.get? rq.key = some cached)
    (hlive : now < cached.expiresAt) : radiusClaim h port now s rq ≠ .ok (.new, s') := by
  intro hclaim
  unfold radiusClaim at hclaim
  simp only [bind_ok, hcached, hlive, if_true] at hclaim
  obtain ⟨client, -, fp, -, stale, -, hclaim⟩ := hclaim
  split at hclaim
  · simp only [bind_ok] at hclaim
    obtain ⟨world, -, response, -, hclaim⟩ := hclaim
    cases hclaim
  · cases hclaim

/-- The row of the first copy. -/
theorem radiusClaim_row (hclaim : radiusClaim h port now s rq = .ok (.new, s')) :
    ∃ fp, s'.requests.get? rq.key = some ⟨now + 90, rq.clientId, fp, none, none, none⟩ := by
  have hnew : ∀ {s₀ : State W I} {fp : Text}, claimNew now s₀ rq fp = .ok (.new, s') →
      ∃ fp, s'.requests.get? rq.key = some ⟨now + 90, rq.clientId, fp, none, none, none⟩ := by
    intro s₀ fp hclaim
    unfold claimNew at hclaim
    rw [seq_ok] at hclaim
    cases hclaim.2
    exact ⟨fp, by simp⟩
  cases hcached : s.requests.get? rq.key with
  | none =>
    unfold radiusClaim at hclaim
    simp only [bind_ok, hcached] at hclaim
    obtain ⟨client, -, fp, -, hclaim⟩ := hclaim
    exact hnew hclaim
  | some cached =>
    have hdead : ¬now < cached.expiresAt := fun hlive => radiusClaim_new hcached hlive hclaim
    unfold radiusClaim at hclaim
    simp only [bind_ok, hcached, hdead, if_false] at hclaim
    obtain ⟨client, -, fp, -, world, -, hclaim⟩ := hclaim
    exact hnew hclaim

/-- A row that a copy finds is left as it is, or it rejects from then on. -/
theorem radiusClaim_cached (rq : Request) {client : C} {fp : Text} {stale : Bool}
    {reply : Option Bytes} (hprofile : port.profile s.world rq.clientId = .ok client)
    (hfp : port.fingerprint client = .ok fp) (hcached : s.requests.get? rq.key = some cached)
    (hlive : now < cached.expiresAt)
    (hstale : changed port now s.world rq client fp cached = .ok stale)
    (hclaim : radiusClaim h port now s rq = .ok (.cached reply, s')) :
    stale = false ∧ reply = cached.response ∧ s' = s ∨
    stale = true ∧ ∃ r, Rejects r ∧ reply = some r ∧ s'.requests.get? rq.key =
      some { cached with identity := none, response := some r } := by
  unfold radiusClaim at hclaim
  simp only [bind_ok, hcached, hlive, if_true] at hclaim
  obtain ⟨_, hc, _, hf, _, hst, hclaim⟩ := hclaim
  cases hprofile.symm.trans hc
  cases hfp.symm.trans hf
  cases hstale.symm.trans hst
  cases stale with
  | false =>
    cases hclaim
    exact .inl ⟨rfl, rfl, rfl⟩
  | true =>
    rw [if_pos rfl] at hclaim
    simp only [bind_ok] at hclaim
    obtain ⟨world, -, response, hresponse, hclaim⟩ := hclaim
    cases hclaim
    exact .inr ⟨rfl, response, response_code hresponse, rfl, by simp⟩

/-- A commit answers a row that waits, and the row keeps its time. -/
def Commits (rq : Request) (s s' : State W I) (response : Bytes) : Prop :=
  ∃ cached cached', s.requests.get? rq.key = some cached ∧ cached.response = none ∧
    s'.requests.get? rq.key = some cached' ∧ cached'.expiresAt = cached.expiresAt ∧
    cached'.response = some response

theorem commits_of_waiting {kept : Cached I} {world : W} (hwaiting : waiting now s rq = .ok cached)
    (hkept : kept.expiresAt = cached.expiresAt) :
    Commits rq s ⟨world, s.requests.insert rq.key { kept with response := some response }⟩
      response := by
  unfold waiting at hwaiting
  rw [okOr_ok, Option.filter_eq_some_iff, decide_eq_true_iff] at hwaiting
  exact ⟨cached, { kept with response := some response }, hwaiting.1, hwaiting.2.2, by simp,
    hkept, rfl⟩

theorem papDecision_expiresAt {token : Option Text} {d : Decision I}
    (hd : papDecision port now s rq token cached = .ok d) : d.2.2.expiresAt = cached.expiresAt := by
  unfold papDecision at hd
  split at hd
  · rw [bind_ok] at hd
    obtain ⟨digest, -, hd⟩ := hd
    cases hd
    rfl
  · split at hd <;> cases hd
    rfl

theorem eapDecision_expiresAt {outcome : Outcome I} {client : C} {fp : Text} {d : Decision I}
    (hd : eapDecision port now s rq outcome client fp cached = .ok d) :
    d.2.2.expiresAt = cached.expiresAt := by
  unfold eapDecision at hd
  split at hd
  · cases hd
    rfl
  · split at hd
    · cases hd
      rfl
    · cases hd
      rfl
    · split at hd
      · simp only [bind_ok] at hd
        obtain ⟨attrs, -, digest, -, hd⟩ := hd
        cases hd
        rfl
      · split at hd <;> cases hd
        rfl

theorem papCommit_commits {token : Option Text}
    (hcommit : papCommit h port now s rq token = .ok (response, s')) :
    Commits rq s s' response := by
  unfold papCommit at hcommit
  simp only [bind_ok] at hcommit
  obtain ⟨cached, hwaiting, decision, hdecision, r, -, world, -, hcommit⟩ := hcommit
  cases hcommit
  exact commits_of_waiting hwaiting (papDecision_expiresAt hdecision)

theorem eapCommit_commits {outcome : Outcome I}
    (hcommit : eapCommit h port now s rq outcome = .ok (response, s')) :
    Commits rq s s' response := by
  unfold eapCommit at hcommit
  simp only [bind_ok] at hcommit
  obtain ⟨cached, hwaiting, client, -, fp, -, decision, hdecision, r, -, world, -, hcommit⟩ :=
    hcommit
  cases hcommit
  exact commits_of_waiting hwaiting (eapDecision_expiresAt hdecision)

/-- A row that has not expired survives maintenance. -/
theorem cleanupCache_row {page : List (Text × Cached I)}
    (hpage : ∀ e ∈ page, s.requests.get? e.1 = some e.2)
    (hcached : s.requests.get? rq.key = some cached) (hlive : now < cached.expiresAt)
    (hcleanup : cleanupCache port now s page = .ok s') : s'.requests.get? rq.key = some cached := by
  have hstep : ∀ e ∈ page, ∀ s₁ s₂ : State W I,
      (if e.2.expiresAt < now then do
        let world ← port.close s₁.world e.2.identity
        .ok ⟨world, s₁.requests.erase e.1⟩
      else .ok s₁ : Result (State W I)) = .ok s₂ →
      s₁.requests.get? rq.key = some cached → s₂.requests.get? rq.key = some cached := by
    intro e he s₁ s₂ hs₂ hs₁
    split at hs₂
    · rename_i hexpired
      rw [bind_ok] at hs₂
      obtain ⟨world, -, hs₂⟩ := hs₂
      cases hs₂
      have hne : rq.key ≠ e.1 := by
        intro heq
        have := hpage e he
        rw [← heq, hcached] at this
        cases this
        exact Nat.lt_asymm hexpired hlive
      change (s₁.requests.erase e.1).get? rq.key = _
      rw [OrdMap.get?_erase, if_neg hne]
      exact hs₁
    · cases hs₂
      exact hs₁
  exact foldlM_invariant_mem hstep hcleanup hcached

/-! ## Whole runs -/

/-- What the row says of the events so far. -/
structure Row (start : ℕ) (events : List Event) (cached : Cached I) : Prop where
  expiresAt : cached.expiresAt = start + 90
  undecided : cached.response = none →
    (∀ r, .committed r ∉ events) ∧ ∀ reply, .copy reply true ∉ events
  committed : ∀ r ∈ cached.response, ∀ r₀, .committed r₀ ∈ events → r = r₀ ∨ Rejects r
  rejected : ∀ r ∈ cached.response, (∀ r₀, .committed r₀ ∉ events) →
    Rejects r ∧ ∃ reply, .copy reply true ∈ events
  stale : ∀ r ∈ cached.response, (∃ reply, .copy reply true ∈ events) → Rejects r

/-- An event that neither commits nor finds the row stale. -/
def Quiet (e : Event) : Prop := (∀ r, e ≠ .committed r) ∧ ∀ reply, e ≠ .copy reply true

theorem quiet_copy (reply : Option Bytes) : Quiet (.copy reply false) :=
  ⟨nofun, fun _ heq => Bool.false_ne_true (Event.copy.inj heq).2⟩

theorem Row.quiet {e : Event} (hrow : Row start events cached) (hquiet : Quiet e) :
    Row start (e :: events) cached := by
  have hcommitted : ∀ r, .committed r ∈ e :: events ↔ .committed r ∈ events := fun r =>
    ⟨fun hmem => (List.mem_cons.mp hmem).resolve_left (hquiet.1 r).symm, List.mem_cons_of_mem _⟩
  have hcopy : ∀ reply, .copy reply true ∈ e :: events ↔ .copy reply true ∈ events := fun reply =>
    ⟨fun hmem => (List.mem_cons.mp hmem).resolve_left (hquiet.2 reply).symm,
      List.mem_cons_of_mem _⟩
  refine ⟨hrow.expiresAt, ?_, ?_, ?_, ?_⟩
  · simpa only [hcommitted, hcopy] using hrow.undecided
  · simpa only [hcommitted] using hrow.committed
  · simpa only [hcommitted, hcopy] using hrow.rejected
  · simpa only [hcopy] using hrow.stale

/-- The row after it was found stale. -/
theorem Row.downgrade (hrow : Row start events cached) (hr : Rejects r) :
    Row start (.copy (some r) true :: events)
      ({ cached with identity := none, response := some r } : Cached I) := by
  refine ⟨hrow.expiresAt, nofun, ?_, ?_, ?_⟩
  · rintro _ ⟨⟩ r₀ -
    exact .inr hr
  · rintro _ ⟨⟩ -
    exact ⟨hr, some r, List.mem_cons_self⟩
  · rintro _ ⟨⟩ -
    exact hr

/-- The row after the commit. -/
theorem Row.commit {cached' : Cached I} (hrow : Row start events cached)
    (hnone : cached.response = none) (hexpires : cached'.expiresAt = cached.expiresAt)
    (hr : cached'.response = some r) : Row start (.committed r :: events) cached' := by
  obtain ⟨hcommitted, hcopy⟩ := hrow.undecided hnone
  refine ⟨hexpires.trans hrow.expiresAt, ?_, ?_, ?_, ?_⟩
  · intro hresponse
    exact absurd (hr.symm.trans hresponse) (Option.some_ne_none r)
  · intro r' hr' r₀ hr₀
    cases hr.symm.trans hr'
    rcases List.mem_cons.mp hr₀ with heq | hmem
    · cases heq
      exact .inl rfl
    · exact absurd hmem (hcommitted r₀)
  · intro r' hr' hnot
    exact absurd List.mem_cons_self (hnot r)
  · rintro r' - ⟨reply, hreply⟩
    rcases List.mem_cons.mp hreply with heq | hmem
    · cases heq
    · exact absurd hmem (hcopy reply)

/-- What holds while the row lasts. -/
structure Holds (rq : Request) (start : ℕ) (events : List Event) (n : Node W I) : Prop where
  row : ∃ cached, n.state.requests.get? rq.key = some cached ∧ Row start events cached
  claimed : n.claimed + events.count .authenticated = 1

/-- A copy that finds the row as it was is answered with what stands there. -/
theorem Row.good_copy (hrow : Row start events cached) :
    Good (.copy cached.response false) events := by
  refine ⟨fun hnone _ hcopy => ?_, fun hnone r hr => (hrow.rejected r hr hnone).1,
    fun r₀ hr₀ r hr => hrow.committed r hr r₀ hr₀, nofun, fun hstale r hr => hrow.stale r hr hstale⟩
  by_contra hresponse
  obtain ⟨r, hr⟩ := Option.ne_none_iff_exists'.mp hresponse
  obtain ⟨-, reply, hreply⟩ := hrow.rejected r hr hnone
  exact hcopy reply hreply

theorem good_none (events : List Event) : Good (.copy none false) events :=
  ⟨fun _ _ _ => rfl, nofun, nofun, nofun, nofun⟩

theorem good_stale (hr : Rejects r) (events : List Event) : Good (.copy (some r) true) events := by
  have hall : ∀ r' ∈ some r, Rejects r' := by
    rintro _ ⟨⟩
    exact hr
  exact ⟨nofun, fun _ => hall, fun _ _ r' hr' => .inr (hall r' hr'), fun _ => ⟨r, rfl, hr⟩,
    fun _ => hall⟩

/-- One step keeps the row in order, and what happens fits what happened. -/
theorem Step.good {n n' : Node W I} {e : Event} (hstep : Step h port now rq n e n')
    (hholds : Holds rq start events n) (hwindow : now < start + 90) :
    Good e events ∧ Holds rq start (e :: events) n' := by
  obtain ⟨⟨cached, hcached, hrow⟩, hclaimed⟩ := hholds
  have hlive : now < cached.expiresAt := hrow.expiresAt ▸ hwindow
  cases hstep with
  | fresh hclaim => exact absurd hclaim (radiusClaim_new hcached hlive)
  | copy hprofile hfp hget hstale hclaim =>
    cases hcached.symm.trans hget
    rcases radiusClaim_cached (rq.as _) hprofile hfp hcached hlive hstale hclaim with
      ⟨rfl, rfl, rfl⟩ | ⟨rfl, r, hr, rfl, hrow'⟩
    · exact ⟨hrow.good_copy, ⟨cached, hcached, hrow.quiet (quiet_copy _)⟩, hclaimed⟩
    · exact ⟨good_stale hr events, ⟨_, hrow', hrow.downgrade hr⟩, hclaimed⟩
  | refused hclaim =>
    exact ⟨good_none events, ⟨cached, hcached, hrow.quiet (quiet_copy none)⟩, hclaimed⟩
  | @authenticate k hone world =>
    have hcount : events.count .authenticated = 0 := by omega
    refine ⟨List.count_eq_zero.mp hcount, ⟨cached, hcached, hrow.quiet ⟨nofun, nofun⟩⟩, ?_⟩
    rw [List.count_cons_self]
    change k + (events.count .authenticated + 1) = 1
    omega
  | papCommit hchecked hcommit =>
    obtain ⟨cached₁, cached', hget, hnone, hget', hexpires, hr⟩ := papCommit_commits hcommit
    cases hcached.symm.trans hget
    exact ⟨hrow.undecided hnone, ⟨cached', hget', hrow.commit hnone hexpires hr⟩, hclaimed⟩
  | eapCommit hchecked hcommit =>
    obtain ⟨cached₁, cached', hget, hnone, hget', hexpires, hr⟩ := eapCommit_commits hcommit
    cases hcached.symm.trans hget
    exact ⟨hrow.undecided hnone, ⟨cached', hget', hrow.commit hnone hexpires hr⟩, hclaimed⟩
  | failed hchecked =>
    exact ⟨trivial, ⟨cached, hcached, hrow.quiet ⟨nofun, nofun⟩⟩, hclaimed⟩
  | cleanup hpage hcleanup =>
    exact ⟨trivial, ⟨cached, cleanupCache_row hpage hcached hlive hcleanup,
      hrow.quiet ⟨nofun, nofun⟩⟩, hclaimed⟩
  | other s hkey =>
    exact ⟨trivial, ⟨cached, hkey.trans hcached, hrow.quiet ⟨nofun, nofun⟩⟩, hclaimed⟩

theorem Run.good {time : ℕ} {n : Node W I} (hrun : Run h port rq start events n time) :
    (∀ later e earlier, events = later ++ e :: earlier → Good e earlier) ∧
      Holds rq start events n := by
  induction hrun with
  | claim hclaim =>
    obtain ⟨fp, hrow⟩ := radiusClaim_row hclaim
    exact ⟨fun later e earlier heq => absurd heq.symm (List.append_ne_nil_of_right_ne_nil _
      (List.cons_ne_nil _ _)), ⟨_, hrow, rfl, fun _ => ⟨nofun, nofun⟩, nofun, nofun, nofun⟩, rfl⟩
  | next hrun hle hwindow hstep ih =>
    obtain ⟨hgood, hholds⟩ := hstep.good ih.2 hwindow
    refine ⟨fun later e earlier heq => ?_, hholds⟩
    cases later with
    | nil =>
      cases heq
      exact hgood
    | cons e' later =>
      cases heq
      exact ih.1 later e earlier rfl

/-- While its row lasts, the credentials of a request are checked once, and no copy claims the row
again. Before the commit a copy is not answered, unless the row is found stale, which rejects it and
lets nothing be committed any more. After the commit a copy is answered with what was committed or
rejected, and once rejected because the row was stale, it is always rejected. -/
theorem radius_duplicates {start time : ℕ} {events : List Event} {n : Node W I}
    (hrun : Run h port rq start events n time) :
    .fresh ∉ events ∧ events.count .authenticated ≤ 1 ∧
    ∀ later e earlier, events = later ++ e :: earlier → Good e earlier := by
  obtain ⟨hgood, hholds⟩ := hrun.good
  refine ⟨fun hfresh => ?_, ?_, hgood⟩
  · obtain ⟨later, earlier, heq⟩ := List.append_of_mem hfresh
    exact hgood later .fresh earlier heq
  · have := hholds.claimed
    omega

end

/-! ## A client that changes -/

/-- A store that holds the fingerprint of its only client. -/
def samplePort : Port Text Text Unit Unit where
  profile := fun world _ => .ok world
  fingerprint := .ok
  eapTls := fun _ => false
  identity := fun _ _ _ _ => .ok ()
  attributes := fun _ _ => .ok []
  username := fun _ => []
  digest := fun _ => .ok []
  session := fun _ _ _ => .ok ()
  close := fun world _ => .ok world
  audit := fun world _ _ => .ok world

def sampleHashes : Hashes :=
  ⟨fun _ => zeros, fun _ _ => zeros, fun _ => length_zeros, fun _ _ => length_zeros⟩

def sampleRequest : Request := ⟨"c".toList, "k".toList, ⟨7, zeros, []⟩, []⟩

/-- The store after the claim, when the client has some fingerprint. -/
def sampleState (fp : Text) : State Text Unit :=
  ⟨fp, OrdMap.empty.insert "k".toList ⟨90, "c".toList, [], none, none, none⟩⟩

theorem sample_claim :
    radiusClaim sampleHashes samplePort 0 ⟨[], OrdMap.empty⟩ sampleRequest =
      .ok (.new, sampleState []) := rfl

theorem sample_copy {n : Node Text Unit} {s : State Text Unit} {reply : Option Bytes}
    {cached : Cached Unit} {stale : Bool} (clientId : Text)
    (hcached : n.state.requests.get? "k".toList = some cached)
    (hstale : changed samplePort 1 n.state.world (sampleRequest.as clientId) n.state.world
      n.state.world cached = .ok stale)
    (hclaim : radiusClaim sampleHashes samplePort 1 n.state (sampleRequest.as clientId) =
      .ok (.cached reply, s)) :
    Step sampleHashes samplePort 1 sampleRequest n (.copy reply stale) { n with state := s } :=
  .copy rfl rfl hcached hstale hclaim

/-- A copy comes before the commit and one after it. Then a copy is taken for a request of another
client, and after that even one of the first client is rejected. -/
theorem radius_duplicates_sample : ∃ accept reject n,
    Run sampleHashes samplePort sampleRequest 0 [.copy (some reject) false, .copy (some reject) true,
        .copy (some accept) false, .committed accept, .authenticated, .copy none false] n 1 ∧
      accept.head? = some 2 ∧ Rejects reject := by
  have hfirst : Run sampleHashes samplePort sampleRequest 0 [.copy none false]
      ⟨sampleState [], 1, 0⟩ 1 :=
    .next (.claim sample_claim) (by decide) (by decide)
      (sample_copy "c".toList rfl rfl rfl)
  have hchecked := hfirst.next le_rfl (by decide) (.authenticate rfl [])
  have hcommitted := hchecked.next le_rfl (by decide) (.papCommit rfl
    (show papCommit sampleHashes samplePort _ _ _ (some ['t']) = _ from rfl))
  have hanswered := hcommitted.next le_rfl (by decide)
    (sample_copy "c".toList rfl rfl rfl)
  have hother := hanswered.next le_rfl (by decide)
    (sample_copy "d".toList rfl rfl rfl)
  have hlast := hother.next le_rfl (by decide) (sample_copy "c".toList rfl rfl rfl)
  refine ⟨_, _, _, hlast, rfl, ?_⟩
  exact ((radius_duplicates hlast).2.2 [] _ _ rfl).2.2.2.2 ⟨_, List.mem_cons_self⟩ _ rfl

/-- A copy that arrives before the commit is rejected if the client has changed. -/
theorem radius_duplicate_rejected : ∃ (r : Bytes) (n : Node Text Unit),
    Run sampleHashes samplePort sampleRequest 0 [.copy (some r) true, .other] n 1 ∧
      r.head? = some 3 := by
  have hclaim : Run sampleHashes samplePort sampleRequest 0 [] ⟨sampleState [], 1, 0⟩ 0 :=
    .claim sample_claim
  have hchange : Run sampleHashes samplePort sampleRequest 0 [.other]
      ⟨sampleState "x".toList, 1, 0⟩ 1 :=
    .next hclaim (by decide) (by decide) (.other _ rfl)
  exact ⟨_, _, .next hchange (by decide) (by decide)
    (sample_copy "c".toList rfl rfl rfl), rfl⟩

end RiAuth.Radius.Duplicates
