import RiAuth.Lib.History
import RiAuth.Workflow.Evidence

/-!
# Key rings

Tokens are signed with the active key of a ring: the primary ring, or the ring of a key domain that
a client was moved to. A key that is replaced stays published until its retention window is over.

* `publicKeys`: what is published;
* `configureSigningKey`, `rotateSigningKey`: an active key is replaced;
* `issue`: tokens are signed;
* `Step`: what happens to the rings, at one time.
-/

namespace RiAuth.Keyring

open Checks Workflow

/-! ## Keys -/

/-- A public key. -/
structure Jwk where
  kid : Text
  algorithm : Text
  material : Text
deriving DecidableEq

/-- A signing key: a private key in PEM form, or the public part of a remote one. -/
structure SigningKey where
  remote : Option Jwk
  algorithm : Text
  kid : Text
  pem : Text
  createdAt : ℕ
deriving DecidableEq

/-- A public key that is published until it expires. -/
structure RetiredKey where
  jwk : Jwk
  expiresAt : ℕ
deriving DecidableEq

/-- A key ring. -/
structure Keys where
  active : SigningKey
  retired : List RetiredKey
deriving DecidableEq

/-- What is taken from the cryptographic library. -/
structure Crypto where
  /-- The public part of a private key of an algorithm. -/
  publicPart : Text → Text → Result Text
  /-- `PublicJwk::validate`. -/
  validate : Jwk → Result Unit

/-- What a client says about its tokens. -/
structure Client where
  enabled : Bool
  signingKey : Option Text
  accessTokenTtl : Option ℕ
deriving DecidableEq

/-- The lifetime that holds for clients without one of their own; `Config::validate` bounds it. -/
structure Config where
  accessTokenTtl : ℕ
  valid : 30 ≤ accessTokenTtl ∧ accessTokenTtl ≤ 3600

/-- A token that was handed out, with the key that signed it. -/
structure Token where
  key : SigningKey
  exp : ℕ
deriving DecidableEq

/-- The rings and the clients; `tokens` records for the proofs what was signed. -/
structure State where
  primary : Keys
  domains : OrdMap Text Keys
  clients : OrdMap Text Client
  tokens : List Token

/-- All key rings, the primary one first. -/
def State.rings (s : State) : List Keys := s.primary :: s.domains.entries.map Prod.snd

/-- The id of the primary ring. -/
def SIGNING : Text := "signing".toList

/-- The ring of an id. -/
def State.ring? (s : State) (id : Text) : Option Keys :=
  if id = SIGNING then some s.primary else s.domains.get? id

/-- A ring is written. -/
def State.setRing (s : State) (id : Text) (keys : Keys) : State :=
  if id = SIGNING then { s with primary := keys }
  else { s with domains := s.domains.insert id keys }

/-- `keyring::for_client`. -/
def forClient (s : State) (client : Client) : Result Keys :=
  match client.signingKey with
  | none => .ok s.primary
  | some id => okOr (s.ring? id) (.bad "Client signing domain is missing")

section

variable (c : Crypto)

/-- The public half of a key. -/
def SigningKey.jwk (key : SigningKey) : Result Jwk :=
  match key.remote with
  | some remote => do
    c.validate remote
    require (remote.kid = key.kid ∧ remote.algorithm = key.algorithm ∧ key.pem = [])
      (.bad "External key metadata mismatch")
    return remote
  | none => do
    let material ← c.publicPart key.algorithm key.pem
    return ⟨key.kid, key.algorithm, material⟩

/-- What one ring publishes. -/
def Keys.publicKeys (at_ : ℕ) (ring : Keys) : Result (List Jwk) := do
  let jwk ← ring.active.jwk c
  return jwk :: (ring.retired.filter fun k => at_ < k.expiresAt).map RetiredKey.jwk

/-- `keyring::public_keys`. -/
def publicKeys (at_ : ℕ) (s : State) : Result (List Jwk) := do
  let published ← s.rings.mapM (Keys.publicKeys c at_)
  return published.flatten

/-! ## Replacing keys -/

/-- The request for a new ring. -/
structure KeyInput where
  remoteSigner : Option Text
  id : Text
  algorithm : Text
  privateKeyPem : Option Text
  kid : Option Text

/-- What a change of keys finds outside the rings. A key that is imported or generated was checked
for its public part. -/
structure World where
  authorized : Bool
  /-- The caller may import private keys. -/
  authorizedImport : Bool
  externalSigningKey : Text → Result SigningKey
  importKey : Text → Text → Option Text → Result SigningKey
  generateKey : Text → Result SigningKey
  generated : ∀ algorithm key, generateKey algorithm = .ok key → ∃ jwk, key.jwk c = .ok jwk
  /-- The expiries of the relying parties' sessions. -/
  rpSessions : List ℕ

variable {c}

/-- How long a replaced key stays published: for the tokens it signed, and for logout hints. -/
def World.retention (w : World c) (at_ : ℕ) : ℕ :=
  max ((w.rpSessions.map fun e => saturatingAdd e 3600).foldr max 0) (at_ + 3720)

/-- The key that is to become active. -/
def World.replacement (w : World c) (input : KeyInput) : Result SigningKey :=
  match input.remoteSigner with
  | some name => do
    require (input.privateKeyPem = none ∧ input.kid = none)
      (.bad "External keys use the pinned public key and kid from server configuration")
    let key ← w.externalSigningKey name
    require (key.algorithm = input.algorithm)
      (.bad "External signer algorithm differs from requested algorithm")
    return key
  | none =>
    match input.privateKeyPem with
    | some pem => w.importKey input.algorithm pem input.kid
    | none => do
      require (input.kid = none) (.bad "Explicit kid is supported when importing a private key")
      w.generateKey input.algorithm

/-- The retired keys of a ring whose active key is replaced, if there is room. -/
def World.retire (w : World c) (at_ : ℕ) (full : String) (existing : Option Keys) :
    Result (List RetiredKey) := do
  let kept := ((existing.map Keys.retired).getD []).filter fun k => at_ < k.expiresAt
  require (kept.length < 32) (.conflict full)
  match existing with
  | none => return kept
  | some previous => do
    let jwk ← previous.active.jwk c
    return kept ++ [⟨jwk, w.retention at_⟩]

/-- `configure_signing_key`. -/
def configureSigningKey (w : World c) (input : KeyInput) (at_ : ℕ) (s : State) : Result State := do
  require (w.authorized = true) .forbidden
  require (input.privateKeyPem = none ∨ w.authorizedImport = true) .forbidden
  let key ← w.replacement input
  let published ← publicKeys c at_ s
  require (∀ jwk ∈ published, jwk.kid ≠ key.kid) (.conflict "Signing key id is already in use")
  let retired ← w.retire at_ "Too many retained keys; wait for their retention windows"
    (s.ring? input.id)
  -- the answer shows the public part of the new key
  let _ ← key.jwk c
  return s.setRing input.id ⟨key, retired⟩

/-- `rotate_signing_key`. -/
def rotateSigningKey (w : World c) (at_ : ℕ) (s : State) : Result State := do
  require (w.authorized = true) .forbidden
  let retired ← w.retire at_ ("32 retained signing keys remain in use; wait for their retention " ++
    "windows before rotating") (some s.primary)
  let key ← w.generateKey "RS256".toList
  return s.setRing SIGNING ⟨key, retired⟩

/-! ## Clients and tokens -/

/-- A client is written; its lifetime is bounded and its ring is there. -/
def setClient (id : Text) (client : Client) (s : State) : Result State := do
  let _ ← forClient s client
  require (∀ ttl, client.accessTokenTtl = some ttl → 30 ≤ ttl ∧ ttl ≤ 3600)
    (.bad "Provider token lifetime is outside its supported range")
  return { s with clients := s.clients.insert id client }

/-- `Core::issue`: an access token for a grant that was admitted, and an ID token with it if the
grant asks for one. -/
def issue (cfg : Config) (id : Text) (grantExpires : ℕ) (idToken : Bool) (admitted : Result Unit)
    (at_ : ℕ) (s : State) : Result State := do
  let client ← okOr ((s.clients.get? id).filter Client.enabled)
    ⟨401, "invalid_client", "Client authentication failed"⟩
  let expires := min (at_ + client.accessTokenTtl.getD cfg.accessTokenTtl) grantExpires
  let keys ← forClient s client
  admitted
  let token : Token := ⟨keys.active, expires⟩
  return { s with tokens := token :: (if idToken then [token] else []) ++ s.tokens }

end

/-- An operation on the store. -/
inductive Op (c : Crypto) where
  | issue (cfg : Config) (id : Text) (grantExpires : ℕ) (idToken : Bool) (admitted : Result Unit)
  | configure (w : World c) (input : KeyInput)
  | rotate (w : World c)
  | setClient (id : Text) (client : Client)

/-- An operation at its time. -/
structure Event (c : Crypto) where
  at_ : ℕ
  op : Op c

section

variable {c : Crypto}

/-- An operation, as the server carries it out. -/
def Op.perform (at_ : ℕ) (s : State) : Op c → Result State
  | .issue cfg id grantExpires idToken admitted =>
    Keyring.issue cfg id grantExpires idToken admitted at_ s
  | .configure w input => configureSigningKey w input at_ s
  | .rotate w => rotateSigningKey w at_ s
  | .setClient id client => Keyring.setClient id client s

/-- A generated key has an id that no ring holds. -/
def Op.Genuine (s : State) : Op c → Prop
  | .rotate w => ∀ key, w.generateKey "RS256".toList = .ok key → ∀ ring ∈ s.rings,
      ring.active.kid ≠ key.kid ∧ ∀ k ∈ ring.retired, k.jwk.kid ≠ key.kid
  | _ => True

/-- An operation that fails changes nothing. -/
def Step (s : State) (e : Event c) (s' : State) : Prop :=
  e.op.Genuine s ∧ (e.op.perform e.at_ s = .ok s' ∨ ∃ err, e.op.perform e.at_ s = .error err ∧ s' = s)

end

end RiAuth.Keyring
