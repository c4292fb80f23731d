import RiAuth.Basic
import RiAuth.Lib.Checks
import RiAuth.Lib.Fence

/-!
# Signed messages that take effect once

Three kinds of signed message are each fenced by a replay record of their own:

* client and workload assertions (`jose::consume_assertion`), recorded until their `exp`;
* inbound security event tokens (`accept_set`), recorded past the largest age a token may have;
* logout requests of SAML sources (`source_logout`), recorded for 630 seconds.

Signatures, JSON and XML are parameters (`Library`): what a signed text says does not depend on when
it is looked at.
-/

namespace RiAuth.OneUse

open Checks Fence

/-! ## Records -/

/-- A key set; which keys it holds is up to the signature library. -/
abbrev Jwks := ℕ

/-- The issuer whose assertions a client presents. -/
structure MachineTrust where
  issuer : Text
  subject : Text
  jwks : Jwks
deriving DecidableEq

/-- What a client says about assertions. -/
structure AssertionClient where
  id : Text
  enabled : Bool
  service : Bool
  privateKeyJwt : Bool
  jwks : Option Jwks
  machineTrust : List MachineTrust
deriving DecidableEq

/-- A receiving stream. -/
structure SetStream where
  id : Text
  owner : Text
  issuer : Text
  audience : Text
  events : List Text
  jwks : Jwks
  subjects : List (Text × Text)
deriving DecidableEq

/-- The row of a user. -/
structure User where
  id : Text
  admin : Bool
  enabled : Bool
  epoch : ℕ
deriving DecidableEq

/-- A session, with the upstream source it came from and that source's fingerprint. -/
structure Session where
  userId : Text
  revoked : Bool
  expiresAt : ℕ
  source : Option (Text × Text)
  pinRetired : Bool
deriving DecidableEq

/-- The upstream half of a session. -/
structure UpstreamSession where
  subject : Option Text
  index : Text
  expiresAt : Option ℕ
deriving DecidableEq

/-- A SAML source, with the parts of its settings that logout looks at. -/
structure SamlSource where
  enabled : Bool
  fingerprint : Text
  issuer : Text
  clientId : Text
  nameIdFormat : Text
  certificates : List Text
  redirect : Option Text
  post : Option Text
deriving DecidableEq

/-- A line of the trail. -/
structure AuditEvent where
  actor : Text
  action : Text
  target : Text
deriving DecidableEq

/-- What messages change: accounts, sessions, the audit log and the queue of logouts. -/
structure Accounts where
  users : List (Text × User)
  sessions : List (Text × Session)
  audits : List AuditEvent
  logouts : List Text
deriving DecidableEq

/-- The tables that the messages touch. -/
structure State where
  clients : List AssertionClient
  streams : List SetStream
  sources : List (Text × SamlSource)
  upstream : List (Text × UpstreamSession)
  accounts : Accounts
  assertionReplays : Text → Option ℕ
  ssfJti : Text → Option ℕ
  samlReplays : Text → Option ℕ

/-- A logout request, as its signed XML says. -/
structure LogoutRequest where
  id : Text
  destination : Text
  issuer : Text
  instant : ℕ
  notOnOrAfter : Option ℕ
  nameId : Text
  format : Option Text
  nameQualifier : Option Text
  spNameQualifier : Option Text
  indices : List Text
deriving DecidableEq

/-- An SSF subject: its serialised form, and the plain form that a stream of this issuer may have
recorded. -/
structure SubjectId where
  key : Text
  legacyKey : Text → Option Text

/-- The token, JSON and XML libraries, the hash and the configured issuer. -/
structure Library where
  digest : Text → Text
  jsonText : Json → Text
  issuer : Text
  /-- The claims of a signed token. -/
  payload : Text → Json
  /-- The token carries a signature of the set, a pinned key and supported headers. -/
  signed : Jwks → Text → Bool
  /-- The audience of the claims includes this one. -/
  audience : Json → Text → Bool
  /-- The `nbf` claim, zero when it is missing. -/
  notBefore : Json → ℕ
  /-- The header of a security event token: its type and no reference to foreign keys. -/
  secEvent : Text → Bool
  /-- A subject identifier that is well formed. -/
  subjectId : Json → Option SubjectId
  /-- The error for a token that no stream takes. -/
  unmatched : Text → List SetStream → Error
  /-- A logout request with a signature of one of the certificates; `true` for the POST binding. -/
  logoutRequest : List Text → Text → Bool → Option LogoutRequest

/-! ## Assertions -/

/-- `verify_claims` without a security event: issuer, audience, expiry and `nbf`, no leeway. -/
def Library.verify (l : Library) (jwks : Jwks) (token issuer audience : Text) (now : ℕ) :
    Option Json :=
  if token.bytes ≤ 16384 ∧ l.signed jwks token = true ∧
      ((l.payload token).field "iss".toList).asStr = some issuer ∧
      l.audience (l.payload token) audience = true ∧
      (∃ exp ∈ ((l.payload token).field "exp".toList).asU64, now ≤ exp) ∧
      l.notBefore (l.payload token) ≤ now then
    some (l.payload token)
  else none

/-- `consume_assertion`. -/
def consumeAssertion (l : Library) (replays : Text → Option ℕ) (now : ℕ) (claims : Json)
    (domain : Text) : Result (Text → Option ℕ) :=
  match (claims.field "iat".toList).asU64, (claims.field "exp".toList).asU64,
      (claims.field "jti".toList).asStr with
  | none, _, _ => .error (.bad "Assertion requires iat")
  | _, none, _ => .error (.bad "Assertion requires exp")
  | _, _, none => .error (.bad "Assertion requires a bounded unique jti")
  | some iat, some exp, some jti => do
    require (jti ≠ [] ∧ jti.bytes ≤ 256) (.bad "Assertion requires a bounded unique jti")
    require (iat ≤ now + 30 ∧ now < exp ∧ iat < exp ∧ exp - iat ≤ 300 ∧ now - iat ≤ 300)
      (.bad "Assertion lifetime must be at most five minutes")
    let key := l.digest (domain ++ '\x00' :: (l.jsonText (claims.field "iss".toList) ++
      '\x00' :: jti))
    require (free replays now key = true) (.bad "Assertion already used")
    .ok (record replays key exp)

/-- In which role an assertion is presented. -/
inductive Role where
  | client
  | machine
deriving DecidableEq

/-- The namespace of a role and a client. -/
def Role.domain (cid : Text) : Role → Text
  | client => "client:".toList ++ cid
  | machine => "machine:".toList ++ cid

/-- The audience of client assertions. -/
def tokenEndpoint (l : Library) : Text := l.issuer ++ "/oauth/token".toList

/-- The answer to a failed authentication. -/
def invalidClient : Error := ⟨401, "invalid_client", "Client authentication failed"⟩

/-- The answer to a bad exchange proof. -/
def invalidExchange : Error :=
  .oauth "invalid_grant" "Exchange proof is invalid, expired or revoked"

/-- The claims of an assertion that the client may use in this role: its own keys and name, or one
of its workload trusts. -/
def assertionClaims (l : Library) (client : AssertionClient) (now : ℕ) (token : Text) :
    Role → Result Json
  | .client =>
    match client.jwks with
    | none => .error invalidClient
    | some jwks => do
      require (client.privateKeyJwt = true) invalidClient
      match l.verify jwks token client.id (tokenEndpoint l) now with
      | none => .error invalidClient
      | some claims => do
        require ((claims.field "sub".toList).asStr = some client.id) invalidClient
        .ok claims
  | .machine => do
    require (client.service = true) (.oauth "unauthorized_client" "JWT grants are machine identities")
    match client.machineTrust.findSome? fun trust =>
        (l.verify trust.jwks token trust.issuer (tokenEndpoint l) now).filter fun claims =>
          (claims.field "sub".toList).asStr = some trust.subject with
    | none => .error invalidExchange
    | some claims => .ok claims

/-- An assertion consumed by a request of client `cid`. -/
def presentAssertion (l : Library) (s : State) (now : ℕ) (role : Role) (cid token : Text) :
    Result State :=
  match s.clients.find? fun c => c.id = cid ∧ c.enabled = true with
  | none => .error invalidClient
  | some client => do
    let claims ← assertionClaims l client now token role
    let replays ← consumeAssertion l s.assertionReplays now claims (role.domain cid)
    .ok { s with assertionReplays := replays }

/-! ## Security event tokens -/

/-- A week, the age an event token may have. -/
def maxSetAge : ℕ := 7 * 86400

def accountDisabled : Text :=
  "https://schemas.openid.net/secevent/risc/event-type/account-disabled".toList

def sessionRevoked : Text :=
  "https://schemas.openid.net/secevent/caep/event-type/session-revoked".toList

def credentialChange : Text :=
  "https://schemas.openid.net/secevent/caep/event-type/credential-change".toList

/-- The events that are acted on. -/
def supported : List Text := [accountDisabled, sessionRevoked, credentialChange]

/-- The one answer to a bad event token. -/
def validationFailed : Error := .bad "Security event token validation failed"

/-- The members of a JSON object. -/
def members : Json → Option (List (Text × Json))
  | .obj fields => some fields
  | _ => none

/-- The payload of one event: a subject of its own has to be the subject of the token, and a change
of a credential says which and how. -/
def checkEvent (l : Library) (subject : SubjectId) (event : Text × Json) : Bool :=
  (match event.2.get? "subject".toList with
    | none => true
    | some nested =>
      match l.subjectId nested with
      | none => false
      | some nested => nested.key = subject.key) &&
  (event.1 ≠ credentialChange ||
    (match (event.2.field "credential_type".toList).asStr with
      | none => false
      | some kind => kind ≠ [] && Text.bytes kind ≤ 128 && !kind.any isControl) &&
    ((event.2.field "change_type".toList).asStr.any fun change =>
      change ∈ ["create".toList, "revoke".toList, "update".toList, "delete".toList]))

/-- `verify_set`: the claims of the token, if this stream takes it now. -/
def verifySet (l : Library) (stream : SetStream) (token : Text) (now : ℕ) : Option Json :=
  let claims := l.payload token
  if l.secEvent token = true ∧ token.bytes ≤ 16384 ∧ l.signed stream.jwks token = true ∧
      (claims.field "iss".toList).asStr = some stream.issuer ∧
      l.audience claims stream.audience = true ∧ l.notBefore claims ≤ now ∧
      claims.get? "exp".toList = none ∧ claims.get? "sub".toList = none ∧
      (∃ iat ∈ (claims.field "iat".toList).asU64, iat ≤ now + 60 ∧ now - iat ≤ maxSetAge) ∧
      (∃ jti ∈ (claims.field "jti".toList).asStr, jti ≠ [] ∧ jti.bytes ≤ 128 ∧
        ∀ c ∈ jti, 33 ≤ c.toNat ∧ c.toNat ≤ 126) ∧
      (∃ events ∈ members (claims.field "events".toList), events ≠ [] ∧ events.length ≤ 4 ∧
        (∀ e ∈ events, (members e.2).isSome = true) ∧
        ∃ subject ∈ l.subjectId (claims.field "sub_id".toList),
          ∀ e ∈ events, checkEvent l subject e = true) then
    some claims
  else none

/-- One more audit entry. -/
def Accounts.audit (a : Accounts) (actor action target : Text) : Accounts :=
  { a with audits := a.audits ++ [⟨actor, action, target⟩] }

/-- A row is replaced. -/
def Accounts.putUser (a : Accounts) (id : Text) (user : User) : Accounts :=
  { a with users := a.users.map fun row => if row.1 = id then (id, user) else row }

/-- `revoke_sessions`. -/
def Accounts.revokeSessions (a : Accounts) (userId : Text) : Accounts :=
  { a with
    sessions := a.sessions.map fun row =>
      if row.2.userId = userId then (row.1, { row.2 with revoked := true }) else row
    logouts := a.logouts ++ [userId] }

/-- `another_admin`. -/
def Accounts.anotherAdmin (a : Accounts) (user : User) : Bool :=
  a.users.any fun row => row.2.id ≠ user.id && row.2.admin && row.2.enabled

/-- How the audit names a stream. -/
def actorOf (stream : SetStream) : Text :=
  "ssf:".toList ++ stream.id ++ ':' :: stream.owner

/-- The change one event makes to its user, under the given audit action. -/
def Accounts.change (a : Accounts) (stream : SetStream) (user : User) (action : String) : Accounts :=
  ((a.putUser user.id user).revokeSessions user.id).audit (actorOf stream) action.toList user.id

/-- `apply_event`: the accounts afterwards, and whether anything was done. -/
def applyEvent (a : Accounts) (stream : SetStream) (userId event : Text) : Result (Accounts × Bool) :=
  match (a.users.find? fun row => row.1 = userId).map Prod.snd with
  | none => .error (.bad "Linked user is missing")
  | some user =>
    if event = accountDisabled then
      if user.admin = true ∧ user.enabled = true ∧ a.anotherAdmin user = false then .ok (a, false)
      else .ok (a.change stream
        (if user.enabled then { user with enabled := false, epoch := user.epoch + 1 } else user)
        "ssf.account-disabled", true)
    else if event = sessionRevoked then
      .ok (a.change stream { user with epoch := user.epoch + 1 } "ssf.session-revoked", true)
    else if event = credentialChange then
      .ok (a.change stream { user with epoch := user.epoch + 1 } "ssf.credential-change", true)
    else .ok (a, false)

/-- The events of a token for the user that one stream links to its subject. -/
def applyStream (events : List Text) (subject : SubjectId) (a : Accounts) (stream : SetStream) :
    Result Accounts :=
  let linked (key : Text) := (stream.subjects.find? fun row => row.1 = key).map Prod.snd
  match (linked subject.key).or ((subject.legacyKey stream.issuer).bind linked) with
  | none => .ok (a.audit (actorOf stream) "ssf.ignored".toList stream.id)
  | some userId => do
    let (a, acted) ← events.foldlM (fun (state : Accounts × Bool) event =>
      if event ∈ stream.events ∧ event ∈ supported then do
        let (a, did) ← applyEvent state.1 stream userId event
        .ok (a, state.2 || did)
      else .ok state) (a, false)
    if acted then .ok a else .ok (a.audit (actorOf stream) "ssf.ignored".toList stream.id)

/-- How an accepted token ended: its events were applied, or it had been seen before. -/
inductive Acceptance where
  | applied
  | seen
deriving DecidableEq

/-- The name of the replay record of a token. -/
def setReplay (l : Library) (claims : Json) : Text :=
  l.digest ((claims.field "iss".toList).asStr.getD [] ++
    '\x00' :: (claims.field "jti".toList).asStr.getD [])

/-- `accept_set`. -/
def acceptSet (l : Library) (s : State) (now : ℕ) (token : Text) : Result (Acceptance × State) := do
  require (token.bytes ≤ 16384 ∧ token.any isControl = false) validationFailed
  let matched := s.streams.filter fun stream => (verifySet l stream token now).isSome
  if matched = [] then .error (l.unmatched token s.streams)
  else
    let claims := l.payload token
    let replay := setReplay l claims
    if free s.ssfJti now replay = false then .ok (.seen, s)
    else
      let iat := (claims.field "iat".toList).asU64.getD 0
      match l.subjectId (claims.field "sub_id".toList) with
      | none => .error validationFailed
      | some subject => do
        let events := ((members (claims.field "events".toList)).getD []).map Prod.fst
        let accounts ← matched.foldlM (applyStream events subject) s.accounts
        .ok (.applied, { s with
          accounts := accounts, ssfJti := record s.ssfJti replay (iat + maxSetAge + 60) })

/-! ## Logout requests of SAML sources -/

/-- The address at which a source sends its logout messages. -/
def logoutCallback (l : Library) (id : Text) : Text :=
  l.issuer ++ "/saml/sources/".toList ++ id ++ "/slo".toList

/-- `receive_logout`: the request, if it is meant for this source and fresh. -/
def receiveLogout (l : Library) (id : Text) (source : SamlSource) (now : ℕ) (raw : Text)
    (post : Bool) : Result LogoutRequest :=
  match l.logoutRequest source.certificates raw post with
  | none => .error (.bad "Invalid SAML message")
  | some request => do
    require (request.destination = logoutCallback l id) (.bad "SAML logout envelope mismatch")
    require (request.instant ≤ now + 30 ∧ now ≤ request.instant + 300)
      (.bad "SAML logout is expired or future dated")
    require (request.issuer = source.issuer) .forbidden
    require (∀ expiry ∈ request.notOnOrAfter, now < expiry ∧ expiry ≤ request.instant + 300)
      (.bad "Invalid SAML logout expiry")
    require (request.nameQualifier.getD source.issuer = source.issuer ∧
      request.spNameQualifier.getD source.clientId = source.clientId) .forbidden
    require (1 ≤ request.indices.length ∧ request.indices.length ≤ 8 ∧ request.indices.Nodup)
      (.bad "SAML logout requires one to eight distinct session indices")
    .ok request

/-- Whether an upstream session and its local session are among those the request ends. -/
def endsSession (s : State) (id : Text) (source : SamlSource) (request : LogoutRequest) (now : ℕ)
    (row : Text × UpstreamSession) : Bool :=
  row.2.subject = some request.nameId && row.2.index ∈ request.indices &&
    (row.2.expiresAt.all fun at_ => now < at_) &&
    match (s.accounts.sessions.find? fun session => session.1 = row.1).map Prod.snd with
    | none => false
    | some session => now < session.expiresAt && session.source.any fun linked =>
        linked.1 = id && (linked.2 = source.fingerprint || session.revoked && session.pinRetired)

/-- `revoke_source_session`. -/
def Accounts.endSession (a : Accounts) (sourceId sid : Text) : Accounts :=
  match (a.sessions.find? fun row => row.1 = sid).map Prod.snd with
  | none => a
  | some session =>
    let sessions := a.sessions.map fun row =>
      if row.1 = sid then (sid, { session with revoked := true }) else row
    { a with sessions := sessions, logouts := a.logouts ++ [sid] : Accounts }.audit session.userId
      "saml.source.logout".toList sourceId

/-- The name of the replay record of a request. -/
def logoutReplay (l : Library) (id : Text) (request : LogoutRequest) : Text :=
  l.digest ("source/".toList ++ id ++ '\x00' :: request.id)

/-- `source_logout` for a message that is a request. `replayCount` is the number of replay records,
and `begin_` the outcome of starting the logout of the other parties. -/
def sourceLogout (l : Library) (s : State) (now : ℕ) (id raw : Text) (post : Bool)
    (replayCount : ℕ) (begin_ : Result Unit) : Result (LogoutRequest × State) :=
  match (s.sources.find? fun row => row.1 = id ∧ row.2.enabled = true).map Prod.snd with
  | none => .error .forbidden
  | some source => do
    require ((if post then source.post else source.redirect).isSome = true)
      (.bad "SAML logout binding is not registered")
    let request ← receiveLogout l id source now raw post
    require (free s.samlReplays now (logoutReplay l id request) = true)
      (.conflict "SAML logout request replay")
    require (request.format.getD source.nameIdFormat = source.nameIdFormat) .forbidden
    let found := s.upstream.filter (endsSession s id source request now)
    require ((found.map fun row => row.2.index).dedup.length = request.indices.length) .forbidden
    require (replayCount < 20000) (.conflict "Too many SAML requests")
    begin_
    .ok (request, { s with
      accounts := (found.map Prod.fst).foldl (Accounts.endSession · id ·) s.accounts
      samlReplays := record s.samlReplays (logoutReplay l id request) (now + 630) })

end RiAuth.OneUse
