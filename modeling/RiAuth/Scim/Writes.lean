import RiAuth.Scim.Resources

/-!
# Inbound SCIM: the local part of a write

* `owned`: the owner of a resource, and nobody else, reads it;
* `writeAccount`, `readMembers`: the account of a user resource is written, and the members of a
  group resource are read;
* `writeLocal`: what a create, a replacement or a patch does with the body it arrived at.
-/

namespace RiAuth.Scim

open Checks

/-- Who asks, and what its rights are at the time. -/
structure Actor where
  id : Text
  agent : Bool
  allows : Text → Text → Bool

/-- The kind in a permission. -/
def Kind.scope : Kind → Text
  | .users => "user".toList
  | .groups => "group".toList

/-- A right on a resource. -/
def Actor.require (actor : Actor) (kind : Kind) (action : String) (label : Text) : Result Unit :=
  Checks.require (actor.allows (kind.scope ++ '.' :: action.toList) (kind.scope ++ '/' :: label) =
    true)
    .forbidden

/-- The parts of a request that this development does not look into: how the body is read, and the
checks of names, texts, credentials and policy. -/
structure Request where
  patch : Bool
  /-- The patch is about members. -/
  patchesMembers : Bool
  /-- `normalize`, or `patch_resource` over the base. -/
  body : Json → Result Json
  validateName : Text → Result Unit
  validateDisplay : Text → Result Unit
  /-- The addresses of a full resource, normalized and checked. -/
  emailEntries : Json → Result Json
  /-- The hash of a password that is accepted. -/
  passwordHash : User → Text → Result Text
  /-- The other checks on an account that is written. -/
  accountWritable : Option User → User → Result Unit
  /-- The other checks on a group whose members change. -/
  groupWritable : Text → Result Unit
  storable : Record → Result Unit

def USER : Text := "urn:ietf:params:scim:schemas:core:2.0:User".toList

def GROUP : Text := "urn:ietf:params:scim:schemas:core:2.0:Group".toList

/-- The schema of a kind. -/
def Kind.schema : Kind → Text
  | .users => USER
  | .groups => GROUP

section

variable (v : Env) (actor : Actor)

/-- A live resource of the actor. -/
def owned (t : Tables) (kind : Kind) (id : Text) : Result Record := do
  let r ← okOr (((t.bucket kind).get? id).filter fun r => !r.deleted && r.owner = actor.id)
    (.missing "SCIM resource not found")
  recordBinding kind r
  .ok r

variable (q : Request)

/-! ## What is written -/

/-- The account before a write. A new one has no password. -/
def accountBefore (t : Tables) (existing : Option Record) (label : Text) : Result User :=
  match existing with
  | some old => okOr (t.users.get? old.localId) (.missing "User missing")
  | none => do
    require (t.users.entries.all (fun e => !eqIgnoreAsciiCase e.2.username label) = true)
      (.conflict "Username already exists; provisioning cannot take ownership")
    .ok ⟨label, label, none, true, [], false⟩

/-- The account of a user resource is written. The id of the account and what is stored of the body
are returned. -/
def writeAccount (t : Tables) (existing : Option Record) (label : Text) (data : Json) :
    Result (Tables × Text × Json) := do
  require (data.get? "members".toList = none) (.bad "Users cannot supply group members")
  let before ← accountBefore t existing label
  require (before.admin = false) .forbidden
  let enabled ← (match data.get? "active".toList with
    | none => .ok true
    | some active => okOr active.asBool (.bad "active must be a boolean") : Result Bool)
  let display := ((data.field "displayName".toList).asStr.orElse fun _ =>
    ((data.field "name".toList).field "formatted".toList).asStr).getD label
  q.validateDisplay display
  let data ← (match data.get? "emails".toList with
    | none => .ok data
    | some emails =>
      if q.patch then .ok data
      else do
        let emails ← q.emailEntries emails
        .ok (data.setField "emails".toList emails) : Result Json)
  let email ← readEmail v data
  let hash ← (match data.get? "password".toList with
    | none => .ok before.passwordHash
    | some password => do
      let plaintext ← okOr password.asStr (.bad "password must be a string")
      q.passwordHash before plaintext : Result Text)
  let after := { before with email, displayName := display, enabled, passwordHash := hash }
  actor.require .users "write" after.username
  q.accountWritable (existing.map fun _ => before) after
  let data := (data.removeField "password".toList).removeField "groups".toList
  match existing with
  | some old => .ok (putUser v old.localId after t, old.localId, data)
  | none =>
    let user := v.id t.next
    .ok (putUser v user after t.generate, user, data)

/-- One member of the body: its account joins the set, and it is listed. -/
def readMember (t : Tables) (acc : Finset Text × List Json) (member : Json) :
    Result (Finset Text × List Json) := do
  let id ← okOr (member.field "value".toList).asStr (.bad "Member ID required")
  let r ← owned actor t .users id
  require (r.localId ∉ acc.1) (.bad "Duplicate group member")
  .ok (insert r.localId acc.1, acc.2 ++ [relation id r])

/-- The members that are not live resources of the actor stay. -/
def ownerScopedGroupMembers (t : Tables) (group : Text) (requested : Finset Text) :
    Result (Finset Text) := do
  let current ← okOr (t.groups.get? group) (.missing "Group not found")
  .ok (requested ∪ current.filter fun m => ¬ ∃ e ∈ t.scimUsers.entries,
    e.2.deleted = false ∧ e.2.owner = actor.id ∧ e.2.localId = m)

/-- What a group may have. -/
def groupFields : List Text :=
  ["schemas".toList, "id".toList, "meta".toList, "externalId".toList, "displayName".toList,
    "members".toList]

/-- The members of a group resource, if the body is about them, and what is stored of the body. -/
def readMembers (t : Tables) (existing : Option Record) (label : Text) (data : Json) :
    Result (Json × Option (Finset Text)) := do
  require ((data.fields.all fun f => f.1 ∈ groupFields) = true) (.bad "Unsupported group attribute")
  actor.require .groups "members" label
  require (¬ (existing = none ∧ (t.groups.get? label).isSome = true))
    (.conflict "Group already exists; provisioning cannot take ownership")
  if q.patch = false ∨ q.patchesMembers = true then do
    let array ← (match data.get? "members".toList with
      | none => .ok []
      | some (.arr members) => .ok members
      | some _ => .error (.bad "members must be an array") : Result (List Json))
    let (members, listed) ← array.foldlM (readMember actor t) (∅, [])
    let members ← (if existing.isSome then ownerScopedGroupMembers actor t label members
      else .ok members : Result (Finset Text))
    require (members.card ≤ 1000) (.bad "Too many group members")
    .ok (data.setField "members".toList (.arr listed), some members)
  else .ok (data, none)

/-- The local part of a write. -/
def writeLocal (kind : Kind) (existing : Option Record) (label : Text) (data : Json) (t : Tables) :
    Result (Tables × Text × Json × Option (Finset Text)) :=
  match kind with
  | .users => do
    let (t, localId, data) ← writeAccount v actor q t existing label data
    .ok (t, localId, data, none)
  | .groups => do
    let (data, members) ← readMembers actor q t existing label data
    .ok (t, label, data, members)

end

end RiAuth.Scim
