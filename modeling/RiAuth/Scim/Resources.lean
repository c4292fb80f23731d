import Mathlib.Data.Finset.Card
import RiAuth.JsonText
import RiAuth.Lib.Checks
import RiAuth.Lib.OrdMap

/-!
# Inbound SCIM: resources and stamps

A SCIM resource is a record of its own, which points to a local account or group.

* `withUser`: the live fields of an account over the stored ones;
* `putUser`: a local account is written; the transition hook gives a new stamp to its resource.
-/

namespace RiAuth.Scim

open Checks

/-! ## Records -/

/-- What the code computes with: generated ids, and the digest of a version's text. Neither
repeats. -/
structure Env where
  id : ℕ → Text
  id_inj : ∀ i j, id i = id j → i = j
  /-- The digest of the serialized value. -/
  fingerprint : Json → Text
  fingerprint_inj : ∀ a b, fingerprint a = fingerprint b → a = b
  validateEmail : Text → Result Unit

/-- Ids are strokes, and a version is the text of what it is made of. -/
def plainEnv : Env where
  id := tally
  id_inj _ _ h := (tally_append_inj (congrArg (· ++ []) h)).1
  fingerprint := Json.text
  fingerprint_inj _ _ h := Json.text_injective h
  validateEmail _ := .ok ()

/-- The two kinds of resources. -/
inductive Kind where
  | users
  | groups
deriving DecidableEq

/-- The fields of an account that SCIM reads or writes. -/
structure User where
  username : Text
  displayName : Text
  email : Option Text
  enabled : Bool
  passwordHash : Text
  admin : Bool
deriving DecidableEq

/-- The row of a resource. -/
structure Record where
  owner : Text
  kind : Kind
  localId : Text
  externalId : Option Text
  data : Json
  deleted : Bool
  version : Text
deriving DecidableEq

/-- What is stored. `next` counts the ids that were generated. -/
structure Tables where
  users : OrdMap Text User
  groups : OrdMap Text (Finset Text)
  scimUsers : OrdMap Text Record
  scimGroups : OrdMap Text Record
  next : ℕ

namespace Tables

/-- The table of a kind. -/
def bucket (t : Tables) : Kind → OrdMap Text Record
  | .users => t.scimUsers
  | .groups => t.scimGroups

/-- A record is written. -/
def put (t : Tables) (kind : Kind) (id : Text) (r : Record) : Tables :=
  match kind with
  | .users => { t with scimUsers := t.scimUsers.insert id r }
  | .groups => { t with scimGroups := t.scimGroups.insert id r }

/-- An id is generated. -/
def generate (t : Tables) : Tables := { t with next := t.next + 1 }

/-- A record is written with a new stamp. -/
def stamp (t : Tables) (v : Env) (kind : Kind) (id : Text) (r : Record) : Tables :=
  (t.put kind id { r with version := v.id t.next }).generate

end Tables

/-- The attribute that names it. -/
def Kind.nameField : Kind → Text
  | .users => "userName".toList
  | .groups => "displayName".toList

/-- The name of a resource. -/
def name (r : Record) : Text := (r.data.field r.kind.nameField).asStr.getD []

/-- A record has to match its group. -/
def recordBinding (kind : Kind) (r : Record) : Result Unit :=
  require (r.kind = kind ∧ ¬ (kind = .groups ∧ (r.localId = [] ∨ r.localId ≠ name r)))
    (.conflict "SCIM resource identity does not match its local record")

/-! ## Views -/

/-- Too many addresses. -/
def emailsError : Error := .bad "emails must be an array of at most eight values"

/-- One round of `read_email`: the primary address so far, and the first one. -/
def readEntry (v : Env) (acc : Option Text × Option Text) (email : Json) :
    Result (Option Text × Option Text) := do
  let value ← okOr (email.field "value".toList).asStr (.bad "Email value missing")
  v.validateEmail value
  let first := acc.2.orElse fun _ => some value
  if (email.field "primary".toList).asBool = some true then do
    require (acc.1 = none) (.bad "At most one primary email is allowed")
    .ok (some value, first)
  else .ok (acc.1, first)

/-- The address of the account. -/
def readEmail (v : Env) (data : Json) : Result (Option Text) :=
  match data.get? "emails".toList with
  | none => .ok none
  | some (.arr emails) => do
    require (emails.length ≤ 8) emailsError
    let (primary, first) ← emails.foldlM (readEntry v) (none, none)
    .ok (primary.orElse fun _ => first)
  | some _ => .error emailsError

/-- The live fields of the account over the stored ones. -/
def withUser (v : Env) (value : Json) (user : User) : Result Json := do
  let value := value.setField "active".toList (.bool user.enabled)
  let value := value.setField "displayName".toList (.str user.displayName)
  let stored ← readEmail v value
  .ok (if stored ≠ user.email then
      value.setField "emails".toList (.arr (user.email.toList.map fun email =>
        .obj [("primary".toList, .bool true), ("value".toList, .str email)]))
    else value)

/-- How a related resource is listed. -/
def relation (id : Text) (r : Record) : Json :=
  .obj [("display".toList, .str (name r)), ("value".toList, .str id)]

/-! ## Local accounts -/

/-- The fields whose change makes earlier versions stale. -/
def User.effective (u : User) : Text × Text × Option Text × Bool × Text :=
  (u.username, u.displayName, u.email, u.enabled, u.passwordHash)

/-- A new stamp for the live resource of the account. -/
def stampAccount (v : Env) (user : Text) (t : Tables) (row : Text × Record) : Tables :=
  if !row.2.deleted && row.2.localId = user then t.stamp v .users row.1 row.2 else t

/-- The account is written, and `record_transition` runs. -/
def putUser (v : Env) (user : Text) (after : User) (t : Tables) : Tables :=
  let before := t.users.get? user
  let t := { t with users := t.users.insert user after }
  if before.map User.effective = some after.effective then t
  else t.scimUsers.entries.foldl (stampAccount v user) t

end RiAuth.Scim
