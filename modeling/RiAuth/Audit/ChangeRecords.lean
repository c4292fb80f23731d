import RiAuth.Audit.Redaction
import RiAuth.Management.Principals
import RiAuth.Store.Tx

/-!
# Change records

Every write of a user, client, group, agent, source or device leaves a change entry in its
transaction: the public view of the record before and after, redacted, with markers for the
credentials it has and for those that changed. The entries of the transaction go to the audit log.

* `publicRecord`, `credentialMarkers`: what is shown of a record;
* `recordChange`: the entry of one write;
* `audited`: what an audit event holds of the entries.
-/

namespace RiAuth.Audit

/-! ## Records -/

/-- The fields of a user that the views and the markers read. -/
structure User where
  id : Text
  username : Text
  email : Option Text
  displayName : Text
  passwordHash : Text
  enabled : Bool
  admin : Bool
  hasPasskeys : Bool
  pairwiseSeed : Text
  totpSecret : Option Text
  totpPending : Option (Text × ℕ)
  createdAt : ℕ
  attributes : List (Text × Json)
  emailVerified : Bool
  subjects : List (Text × Text)
  recoveryCodes : List Text
deriving DecidableEq

/-- The row of a client. -/
structure Client where
  id : Text
  name : Text
  secretHash : Option Text
  redirectUris : List Text
  scopes : List Text
  allowedGroups : List Text
  requireMfa : Bool
  enabled : Bool
  service : Bool
  /-- The provider settings as they are serialized. -/
  settings : Json
deriving DecidableEq

/-- The row of an agent. -/
structure Agent where
  id : Text
  permissions : List Permission
  expiresAt : ℕ
  createdAt : ℕ
  enabled : Bool
  tokenHash : Text
  parentUser : Option Text
  authorizedBy : Option Text
deriving DecidableEq

/-- A bucket, as `record_change` tells them apart. -/
inductive Bucket where
  | users
  | clients
  | agents
  | groups
  | sources
  | windowsDevices
  | sourceSecrets
  | other (name : Text)
deriving DecidableEq

/-- The bucket as stored keys spell it. -/
def Bucket.name : Bucket → Text
  | users => "users".toList
  | clients => "clients".toList
  | agents => "agents".toList
  | groups => "groups".toList
  | sources => "sources".toList
  | windowsDevices => "windows_devices".toList
  | sourceSecrets => "source_secrets".toList
  | other name => name

/-- The records of a bucket. Those without a view of their own are their serialized form. -/
def Bucket.Row : Bucket → Type
  | users => User
  | clients => Client
  | agents => Agent
  | _ => Json

/-! ## Serialized records -/

def text (t : Text) : Json := .str t

def optional (t : Option Text) : Json := t.elim .null .str

def texts (ts : List Text) : Json := .arr (ts.map .str)

def number (n : ℕ) : Json := .int n

/-- An object, with its fields in the order of their names. -/
def object (fields : List (String × Json)) : Json := .obj (fields.map fun f => (f.1.toList, f.2))

theorem get?_object_self (key : String) (v : Json) (rest : List (String × Json)) :
    (object ((key, v) :: rest)).get? key.toList = some v := by
  simp [object, Json.get?]

theorem get?_object_of_ne {key name : String} (h : key ≠ name) (v : Json)
    (rest : List (String × Json)) :
    (object ((key, v) :: rest)).get? name.toList = (object rest).get? name.toList := by
  have hkey : key.toList ≠ name.toList := fun heq => h (String.toList_inj.mp heq)
  simp [object, Json.get?, hkey]

/-- The stored record. -/
def User.json (u : User) : Json :=
  object [("admin", .bool u.admin), ("attributes", .obj u.attributes),
    ("created_at", number u.createdAt), ("display_name", text u.displayName),
    ("email", optional u.email), ("email_verified", .bool u.emailVerified),
    ("enabled", .bool u.enabled), ("has_passkeys", .bool u.hasPasskeys), ("id", text u.id),
    ("pairwise_seed", text u.pairwiseSeed), ("password_hash", text u.passwordHash),
    ("recovery_codes", texts u.recoveryCodes),
    ("subjects", .obj (u.subjects.map fun s => (s.1, text s.2))),
    ("totp_pending", u.totpPending.elim .null fun p => .arr [text p.1, number p.2]),
    ("totp_secret", optional u.totpSecret), ("username", text u.username)]

/-- The stored record. -/
def Client.json (c : Client) : Json :=
  object [("allowed_groups", texts c.allowedGroups), ("enabled", .bool c.enabled),
    ("id", text c.id), ("name", text c.name), ("redirect_uris", texts c.redirectUris),
    ("require_mfa", .bool c.requireMfa), ("scopes", texts c.scopes),
    ("secret_hash", optional c.secretHash), ("service", .bool c.service),
    ("settings", c.settings)]

def Agent.permissionsJson (a : Agent) : Json :=
  .arr (a.permissions.map fun p =>
    object [("action", text p.action), ("resource", text p.resource)])

/-- The stored record. -/
def Agent.json (a : Agent) : Json :=
  object [("authorized_by", optional a.authorizedBy), ("created_at", number a.createdAt),
    ("enabled", .bool a.enabled), ("expires_at", number a.expiresAt), ("id", text a.id),
    ("parent_user", optional a.parentUser), ("permissions", a.permissionsJson),
    ("token_hash", text a.tokenHash)]

/-! ## Public views -/

/-- `UserView`. -/
def User.view (u : User) : Json :=
  object [("admin", .bool u.admin), ("attributes", .obj u.attributes),
    ("created_at", number u.createdAt), ("display_name", text u.displayName),
    ("email", optional u.email), ("email_verified", .bool u.emailVerified),
    ("enabled", .bool u.enabled), ("id", text u.id),
    ("mfa_enabled", .bool (u.totpSecret.isSome || u.hasPasskeys)),
    ("password_available", .bool (u.passwordHash ≠ [])),
    ("subjects", .obj (u.subjects.map fun s => (s.1, text s.2))), ("username", text u.username)]

/-- Whether the client can hold a secret. -/
def Client.confidential (c : Client) : Bool :=
  c.secretHash.isSome ||
    c.settings.field "token_endpoint_auth_method".toList = text "private_key_jwt".toList

/-- What the log may show of a client. -/
def Client.view (c : Client) : Json :=
  object [("allowed_groups", texts c.allowedGroups), ("client_id", text c.id),
    ("confidential", .bool c.confidential), ("enabled", .bool c.enabled), ("name", text c.name),
    ("redirect_uris", texts c.redirectUris), ("require_mfa", .bool c.requireMfa),
    ("scopes", texts c.scopes), ("service", .bool c.service), ("settings", c.settings)]

/-- What the log may show of an agent. -/
def Agent.view (a : Agent) : Json :=
  object [("authorized_by", optional a.authorizedBy), ("created_at", number a.createdAt),
    ("enabled", .bool a.enabled), ("expires_at", number a.expiresAt), ("id", text a.id),
    ("parent_user", optional a.parentUser), ("permissions", a.permissionsJson)]

/-- The stored value of a record. -/
def Bucket.raw : (b : Bucket) → b.Row → Json
  | users, u => User.json u
  | clients, c => Client.json c
  | agents, a => Agent.json a
  | groups, v | sources, v | windowsDevices, v | sourceSecrets, v | other _, v => v

/-- What may be shown of a record. -/
def Bucket.view : (b : Bucket) → b.Row → Json
  | users, u => User.view u
  | clients, c => Client.view c
  | agents, a => Agent.view a
  | groups, v | sources, v | windowsDevices, v | sourceSecrets, v | other _, v => v

/-- The view of a row, null where it is absent. -/
def publicRecord (b : Bucket) (row : Option b.Row) : Json := row.elim .null b.view

/-! ## Credentials -/

/-- The credential fields of a bucket, and what they are called in a change entry. -/
def credentialFields : Bucket → List (Text × Text)
  | .users => [("password_hash".toList, "password".toList), ("totp_secret".toList, "totp".toList),
      ("totp_pending".toList, "totp_pending".toList),
      ("recovery_codes".toList, "recovery_codes".toList),
      ("pairwise_seed".toList, "pairwise_seed".toList)]
  | .clients => [("secret_hash".toList, "client_secret".toList)]
  | .agents => [("token_hash".toList, "agent_credential".toList)]
  | _ => []

/-- A credential, if there is one. -/
def credentialMaterial : Option Json → Option Json
  | none | some .null | some (.str []) | some (.arr []) => none
  | some other => some other

/-- What the record holds in a credential field. -/
def material (b : Bucket) (row : Option b.Row) (field : Text) : Option Json :=
  credentialMaterial (row.bind fun r => (b.raw r).get? field)

/-- A marker stands for a credential. -/
def stampCredential (view : Json) (label marker : Text) : Json :=
  match view with
  | .obj fields => (Json.obj fields).setField label (.str marker)
  | other => other

/-- The views with their markers, and the labels of the changed credentials. -/
abbrev Marked := Json × Json × List Text

/-- Stamp the views for one credential field that was `left` and is `right`. -/
def markCredential (label : Text) (left right : Option Json) (s : Marked) : Marked :=
  if left = none ∧ right = none then s
  else if left = right then
    (stampCredential s.1 label redacted, stampCredential s.2.1 label redacted, s.2.2)
  else
    (if left.isSome then stampCredential s.1 label redacted else s.1,
      if right.isSome then stampCredential s.2.1 label changed else s.2.1, s.2.2 ++ [label])

/-- Compare credential fields without copying them into the audit record. -/
def credentialMarkers (b : Bucket) (before after : Option b.Row) (views : Json × Json) : Marked :=
  (credentialFields b).foldl
    (fun s f => markCredential f.2 (material b before f.1) (material b after f.1) s)
    (views.1, views.2, [])

/-! ## Entries -/

/-- A change entry. It has `changed_credentials` when there are some. -/
structure Entry where
  resource : Text
  before : Json
  after : Json
  changedCredentials : List Text
deriving DecidableEq

/-- The entries of a transaction, by the names of their records. -/
abbrev Log := OrdMap Text Entry

/-- Labels without repetition, in order. -/
def mergeChangedCredentials (existing labels : List Text) : List Text :=
  labels.foldl (fun existing label => if label ∈ existing then existing else existing ++ [label])
    existing

/-- Existence only. The secret bytes are never decoded into the change log. -/
def recordRedactedSecret (log : Log) (key : Text) (existed hasAfter : Bool) : Log :=
  if !existed && !hasAfter then log
  else
    let name := Store.recordKey Bucket.sourceSecrets.name key
    let shown (present : Bool) : Json := if present then .str redacted else .null
    let secret := ["source_secret".toList]
    let entry := (log.get? name).getD ⟨name, shown existed, .null, secret⟩
    log.insert name { entry with
      after := shown hasAfter
      changedCredentials :=
        if entry.changedCredentials = [] then secret else entry.changedCredentials }

/-- A write of one record: what it was, and what it becomes. -/
structure Change where
  bucket : Bucket
  key : Text
  before : Option bucket.Row
  after : Option bucket.Row

/-- The views of both sides, redacted and marked. -/
def Change.marked (c : Change) : Marked :=
  credentialMarkers c.bucket c.before c.after
    (redactAuditValue (publicRecord c.bucket c.before),
      redactAuditValue (publicRecord c.bucket c.after))

/-- The entry of a record, over the one it has already in the transaction. -/
def Entry.amend (name : Text) (existing : Option Entry) (m : Marked) : Entry :=
  let entry := existing.getD ⟨name, m.1, .null, []⟩
  { entry with
    after := m.2.1
    changedCredentials :=
      if m.2.2 = [] then entry.changedCredentials
      else mergeChangedCredentials entry.changedCredentials m.2.2 }

/-- The log with one more change. -/
def recordChange (log : Log) (c : Change) : Log :=
  match c.bucket with
  | .sourceSecrets => recordRedactedSecret log c.key c.before.isSome c.after.isSome
  | .other _ => log
  | _ =>
    let name := Store.recordKey c.bucket.name c.key
    log.insert name (Entry.amend name (log.get? name) c.marked)

/-! ## Audit events -/

/-- An entry in an audit event, whose details are redacted as a whole: what is shown of the record
stands at depth 3 of them. -/
def Entry.audited (e : Entry) : Entry :=
  { e with before := redactAt 3 e.before, after := redactAt 3 e.after }

/-- `details.changes` of an audit event. -/
def audited (log : Log) : Log := log.map Entry.audited

end RiAuth.Audit
