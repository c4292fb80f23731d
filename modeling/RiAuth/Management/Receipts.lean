import RiAuth.Management.Principals
import RiAuth.Workflow.Evidence

/-!
# Idempotency receipts

A management mutation that carries an idempotency key leaves a receipt in its own transaction. A
later call with the key is answered from the receipt. Receipts are kept for a day, and then for six
more days as tombstones that refuse the key. A receipt of an older writer may hold a credential;
such a receipt is redacted where it is found, and keeps its key, scope and expiry.

* `replayReceipt`, `saveReceipt`, `cleanup`, `scrub`: the operations on the table;
* `redactLegacyIssuance`: the four envelopes that hold a credential;
* `mutationChecked`: the mutation and its receipt in one transaction;
* `redact_redacted`: a redacted receipt is left alone from then on.
-/

namespace RiAuth.Management

open Checks Workflow

/-! ## Receipts -/

/-- What is kept of a mutation. -/
structure Receipt where
  fingerprint : Text
  permissions : Json
  result : Json
  expiresAt : ℕ
deriving DecidableEq

/-- `exact_keys`: the object has these fields and no others. -/
def exactKeys (object : Json) (keys : List String) : Bool :=
  match object with
  | .obj fields => fields.length = keys.length &&
      keys.all fun key => (object.get? key.toList).isSome
  | _ => false

def startsWith (mark : String) (text : Text) : Bool := mark.toList.isPrefixOf text

def isStr (value : Json) : Bool := value.asStr.isSome

/-- `as_array`. -/
def asArr : Json → Option (List Json)
  | .arr items => some items
  | _ => none

/-- A text that is not empty. -/
def nonEmptyStr (value : Json) : Option Text := value.asStr.filter (· ≠ [])

/-- A permission as the view of an agent shows it. -/
def isPermission (value : Json) : Bool :=
  exactKeys value ["action", "resource"] && isStr (value.field "action".toList) &&
    isStr (value.field "resource".toList)

/-- `legacy_agent_issuance_id`. -/
def legacyAgentIssuanceId (receipt : Receipt) : Option Text := do
  guard (receipt.permissions = .arr [])
  guard (exactKeys receipt.result ["agent", "credential"])
  let agent ← receipt.result.get? "agent".toList
  guard (exactKeys agent
    ["id", "permissions", "expires_at", "created_at", "enabled", "parent_user"])
  let id ← nonEmptyStr (agent.field "id".toList)
  guard (agent.field "enabled".toList = .bool true)
  let _ ← (agent.field "created_at".toList).asU64
  let expiresAt ← (agent.field "expires_at".toList).asU64
  guard ((agent.field "parent_user".toList).isNull || isStr (agent.field "parent_user".toList))
  let permissions ← asArr (agent.field "permissions".toList)
  guard (permissions ≠ [] ∧ permissions.all isPermission)
  let credential ← receipt.result.get? "credential".toList
  guard (exactKeys credential ["issuer", "agent_id", "token", "expires_at"])
  guard (isStr (credential.field "issuer".toList))
  guard (credential.field "agent_id".toList = .str id)
  guard ((credential.field "expires_at".toList).asU64 = some expiresAt)
  let token ← (credential.field "token".toList).asStr
  guard (startsWith "ri_agent_" token)
  some id

/-- `legacy_client_issuance_id`. -/
def legacyClientIssuanceId (receipt : Receipt) : Option Text := do
  let secret ← (receipt.result.field "client_secret".toList).asStr
  guard (startsWith "ri_client_" secret)
  if exactKeys receipt.result ["client_id", "client_secret"] then
    nonEmptyStr (receipt.result.field "client_id".toList)
  else
    guard (exactKeys receipt.result ["client", "client_secret"])
    let client ← receipt.result.get? "client".toList
    guard (exactKeys client ["client_id", "name", "confidential", "redirect_uris", "scopes",
      "allowed_groups", "require_mfa", "enabled", "service", "settings"])
    guard (client.field "confidential".toList = .bool true)
    nonEmptyStr (client.field "client_id".toList)

/-- `legacy_registration_issuance_id`. -/
def legacyRegistrationIssuanceId (receipt : Receipt) : Option Text := do
  guard (exactKeys receipt.result ["registration", "initial_access_token"])
  let token ← (receipt.result.field "initial_access_token".toList).asStr
  guard (startsWith "ri_register_" token)
  let registration ← receipt.result.get? "registration".toList
  guard (exactKeys registration ["template", "created_by", "expires_at", "used", "enabled"])
  nonEmptyStr ((registration.field "template".toList).field "id".toList)

/-- `legacy_windows_device_issuance_id`. -/
def legacyWindowsDeviceIssuanceId (receipt : Receipt) : Option Text := do
  guard (exactKeys receipt.result
    ["device", "device_secret", "offline_ticket", "offline_expires_at"])
  let secret ← (receipt.result.field "device_secret".toList).asStr
  guard (startsWith "ri_windev_" secret)
  let ticket := receipt.result.field "offline_ticket".toList
  guard (ticket.isNull || isStr ticket)
  let expiresAt := receipt.result.field "offline_expires_at".toList
  guard (expiresAt.isNull || expiresAt.asU64.isSome)
  let device ← receipt.result.get? "device".toList
  guard (exactKeys device
    ["id", "display_name", "username", "user_id", "created_at", "rotated_at", "revoked"])
  nonEmptyStr (device.field "id".toList)

/-- What is left of a result that held a credential. -/
def issued (name : String) (id : Text) : Json :=
  (Json.obj [("credential_issued".toList, .bool true)]).setField name.toList (.str id)

/-- The result of a receipt without the credential it holds, if it holds one. -/
def legacyMarker (receipt : Receipt) : Option Json :=
  (legacyAgentIssuanceId receipt).map (issued "agent_id") <|>
    (legacyClientIssuanceId receipt).map (issued "client_id") <|>
    (legacyRegistrationIssuanceId receipt).map (issued "registration_id") <|>
    (legacyWindowsDeviceIssuanceId receipt).map (issued "device_id")

/-- `redact_legacy_issuance`. -/
def redactLegacyIssuance (receipt : Receipt) : Option Receipt :=
  (legacyMarker receipt).map fun result => { receipt with result := result }

/-- The receipt after it was found by a scan. -/
def redact (receipt : Receipt) : Receipt := (redactLegacyIssuance receipt).getD receipt

/-! ## The table -/

/-- The store: what mutations are about, and the receipts. -/
structure Tables (D : Type) where
  data : D
  receipts : Text → Option Receipt

section

variable {D : Type}

/-- `replay_receipt`. -/
def replayReceipt (s : Tables D) (key fingerprint : Text) (permissions : Json) (now : ℕ) :
    Result (Option Json) :=
  match s.receipts key with
  | none => .ok none
  | some receipt => do
    require (now < receipt.expiresAt)
      (.conflict "Idempotency receipt expired; inspect state before using a new key")
    require (receipt.fingerprint = fingerprint)
      (.conflict "Idempotency key was used for a different request")
    require (receipt.permissions = permissions) .forbidden
    .ok (some receipt.result)

/-- `save_receipt`. -/
def saveReceipt (s : Tables D) (key fingerprint : Text) (permissions result : Json) (now : ℕ) :
    Tables D :=
  { s with
    receipts := Function.update s.receipts key
      (some ⟨fingerprint, permissions, result, now + 86400⟩) }

/-- What `cleanup` makes of one receipt. `deadline` reads the retention of a receipt that an older
device poll left, which no other receipt can look like. -/
def cleanupReceipt (deadline : Text → Receipt → Option ℕ) (now : ℕ) (key : Text)
    (receipt : Receipt) : Option Receipt :=
  let poll :=
    if receipt.permissions.field "protocol".toList = .str "oidc-device-poll-v1".toList then
      deadline key receipt
    else none
  match poll with
  | some until_ => if until_ ≤ now then none else some receipt
  | none =>
    if saturatingAdd receipt.expiresAt (6 * 86400) ≤ now then none else some (redact receipt)

/-- `cleanup`, over the page that is due. -/
def cleanup (deadline : Text → Receipt → Option ℕ) (page : List Text) (now : ℕ) (s : Tables D) :
    Tables D :=
  { s with
    receipts := fun key =>
      if key ∈ page then (s.receipts key).bind (cleanupReceipt deadline now key)
      else s.receipts key }

/-- One page of the scan that redacts receipts when the store is opened. -/
def scrub (page : List Text) (s : Tables D) : Tables D :=
  { s with
    receipts := fun key => if key ∈ page then (s.receipts key).map redact else s.receipts key }

/-! ## Mutations -/

/-- The headers of a request. -/
structure RequestContext where
  idempotencyKey : Option Text
  fingerprint : Text
  revision : Option ℕ

/-- A role as it is serialized. -/
def roleText : HumanRole → Text
  | .helpDesk => "help_desk".toList
  | .applicationOwner => "application_owner".toList
  | .directoryOperator => "directory_operator".toList
  | .auditor => "auditor".toList
  | .securityAdministrator => "security_administrator".toList

/-- A grant as it is serialized. -/
def grantJson (g : HumanGrant) : Json :=
  .obj [("role".toList, .str (roleText g.role)), ("scope".toList, .str g.scope),
    ("target_id".toList, .str g.targetId)]

/-- `management_permissions`; `generation` is the grant generation of the caller. -/
def managementPermissions (generation : ℕ) (actor : Principal) : Json :=
  if actor.delegated then
    .obj [("generation".toList, .int generation),
      ("human_grants".toList, .arr (actor.grants.map grantJson))]
  else
    .arr (actor.permissions.map fun p =>
      .obj [("action".toList, .str p.action), ("resource".toList, .str p.resource)])

/-- A transaction never touches a receipt that is there: every writer looks its key up first. -/
def KeepsReceipts (s s' : Tables D) : Prop :=
  ∀ key receipt, s.receipts key = some receipt → s'.receipts key = some receipt

/-- A call of `mutation_checked`: the times at which it reads the clock, who calls, what is checked
and what is done. -/
structure Mutation (D : Type) where
  now : ℕ
  savedAt : ℕ
  ordered : now ≤ savedAt
  principal : Tables D → Result Principal
  generation : Tables D → Text → ℕ
  context : Option RequestContext
  check : Tables D → Principal → Option RequestContext → Result Unit
  body : Tables D → Result (Tables D × Json)
  keeps : ∀ s s' result, body s = .ok (s', result) → KeepsReceipts s s'

namespace Mutation

variable (digest : Text → Text)

/-- The key of the receipt, and the fingerprint it is for. -/
def receiptKey (m : Mutation D) (actor : Principal) : Option (Text × Text) :=
  m.context.bind fun context => context.idempotencyKey.map fun key =>
    (digest (actor.id ++ '\x00' :: key), context.fingerprint)

/-- The permissions a receipt is bound to. -/
def permissions (m : Mutation D) (s : Tables D) (actor : Principal) : Json :=
  managementPermissions (m.generation s actor.id) actor

/-- The answer of an earlier call with the key, if there was one. -/
def replay (m : Mutation D) (s : Tables D) (actor : Principal) : Result (Option Json) :=
  match m.receiptKey digest actor with
  | none => .ok none
  | some (key, fingerprint) => replayReceipt s key fingerprint (m.permissions s actor) m.now

/-- The receipt of a call that did its work. -/
def save (m : Mutation D) (actor : Principal) (permissions : Json) (s : Tables D) (result : Json) :
    Tables D :=
  match m.receiptKey digest actor with
  | none => s
  | some (key, fingerprint) => saveReceipt s key fingerprint permissions result m.savedAt

/-- `mutation_checked`. -/
def mutationChecked (m : Mutation D) (s : Tables D) : Result (Tables D × Json) := do
  let actor ← m.principal s
  let replayed ← m.replay digest s actor
  match replayed with
  | some result => .ok (s, result)
  | none => do
    m.check s actor m.context
    let (s', result) ← m.body s
    .ok (m.save digest actor (m.permissions s actor) s' result, result)

end Mutation

end

/-! ## Redaction -/

/-- The marker of a redacted result is none of the envelopes. -/
theorem legacyMarker_issued (receipt : Receipt) (id : Text) {name : String}
    (hname : name ∈ ["agent_id", "client_id", "registration_id", "device_id"]) :
    legacyMarker { receipt with result := issued name id } = none := by
  simp only [List.mem_cons, List.not_mem_nil, or_false] at hname
  have hagent : legacyAgentIssuanceId { receipt with result := issued name id } = none := by
    unfold legacyAgentIssuanceId
    by_cases h : receipt.permissions = .arr []
    · rcases hname with rfl | rfl | rfl | rfl <;> simp only [guard, h, if_true] <;> rfl
    · simp only [guard, h, if_false]
      rfl
  unfold legacyMarker
  rw [hagent]
  rcases hname with rfl | rfl | rfl | rfl <;> rfl

theorem exists_of_legacyMarker {receipt : Receipt} {result : Json}
    (h : legacyMarker receipt = some result) :
    ∃ name ∈ ["agent_id", "client_id", "registration_id", "device_id"], ∃ id,
      result = issued name id := by
  simp only [legacyMarker, Option.orElse_eq_some, Option.map_eq_some_iff] at h
  rcases h with ⟨id, -, rfl⟩ | ⟨-, ⟨id, -, rfl⟩ | ⟨-, ⟨id, -, rfl⟩ | ⟨-, id, -, rfl⟩⟩⟩
  · exact ⟨"agent_id", by decide, id, rfl⟩
  · exact ⟨"client_id", by decide, id, rfl⟩
  · exact ⟨"registration_id", by decide, id, rfl⟩
  · exact ⟨"device_id", by decide, id, rfl⟩

/-- A redacted receipt is left alone from then on. -/
theorem redact_redacted (receipt : Receipt) : redact (redact receipt) = redact receipt := by
  cases h : legacyMarker receipt with
  | none =>
    have hsame : redact receipt = receipt := by
      rw [redact, redactLegacyIssuance, h]
      rfl
    rw [hsame, hsame]
  | some result =>
    obtain ⟨name, hname, id, rfl⟩ := exists_of_legacyMarker h
    have hredact : redact receipt = { receipt with result := issued name id } := by
      rw [redact, redactLegacyIssuance, h]
      rfl
    rw [hredact, redact, redactLegacyIssuance, legacyMarker_issued receipt id hname]
    rfl

theorem redact_permissions (receipt : Receipt) :
    (redact receipt).permissions = receipt.permissions := by
  unfold redact redactLegacyIssuance
  cases legacyMarker receipt <;> rfl

theorem redact_fingerprint (receipt : Receipt) :
    (redact receipt).fingerprint = receipt.fingerprint := by
  unfold redact redactLegacyIssuance
  cases legacyMarker receipt <;> rfl

theorem redact_expiresAt (receipt : Receipt) : (redact receipt).expiresAt = receipt.expiresAt := by
  unfold redact redactLegacyIssuance
  cases legacyMarker receipt <;> rfl

/-- The scope of a management receipt is not that of a device poll. -/
theorem managementPermissions_protocol (generation : ℕ) (actor : Principal) :
    (managementPermissions generation actor).field "protocol".toList = .null := by
  unfold managementPermissions
  split_ifs
  · rfl
  · rfl

end RiAuth.Management
