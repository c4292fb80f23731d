import Mathlib.Data.List.TakeWhile
import RiAuth.Scim.Filters
import RiAuth.Scim.Writes

/-!
# SCIM PATCH

A patch is a list of operations on the fields of a resource. An operation names its fields in a
path, in any letter case, or has an object of fields.

* `normalize`: a resource under its canonical attribute names;
* `patchOperation`, `patchResource`: one operation, and a whole patch.
-/

namespace RiAuth.Scim

open Checks

/-! ## Attribute names -/

/-- The attributes that are known. -/
def attributes : List Text :=
  ["userName", "displayName", "externalId", "schemas", "name", "active", "emails", "password",
    "members", "id", "meta", "groups"].map String.toList

/-- The canonical name of an attribute. -/
def canonicalName (key : Text) : Option Text := attributes.find? fun a => eqIgnoreAsciiCase a key

/-- A field under its known name. -/
def normalizeField (normalized : Json) (f : Text × Json) : Result Json := do
  let key ← okOr (canonicalName f.1) (.bad "Unsupported SCIM attribute")
  require (normalized.get? key = none) (.bad "Duplicate case-insensitive SCIM attribute")
  .ok (normalized.setField key f.2)

/-- All fields under their known names. -/
def normalize (value : Json) : Result Json :=
  match value with
  | .obj fields => fields.foldlM normalizeField (.obj [])
  | _ => .error (.bad "SCIM resource must be an object")

/-! ## Operations -/

/-- What an operation does at its path. -/
inductive PatchOp where
  | add
  | replace
  | remove
deriving DecidableEq

/-- The operation, in any case. -/
def readPatchOp (op : Json) : Result PatchOp :=
  match String.ofList (((op.field "op".toList).asStr.getD []).map Char.toLower) with
  | "add" => .ok .add
  | "replace" => .ok .replace
  | "remove" => .ok .remove
  | _ => .error (.bad "Unsupported patch operation")

/-- The error of a target not found. -/
def noTarget (message : String) : Error := .oauth "noTarget" message

/-- The error of a bad path. -/
def invalidPath (message : String) : Error := .oauth "invalidPath" message

/-- The error of a fixed attribute. -/
def mutability (message : String) : Error := .oauth "mutability" message

/-- The two multi-valued attributes. -/
inductive Multi where
  | emails
  | members
deriving DecidableEq

/-- The attribute's name. -/
def Multi.name : Multi → Text
  | .emails => "emails".toList
  | .members => "members".toList

/-- The sub-attributes of an entry. -/
inductive Sub where
  | value
  | type
  | primary
deriving DecidableEq

/-- The part's name. -/
def Sub.name : Sub → Text
  | .value => "value".toList
  | .type => "type".toList
  | .primary => "primary".toList

/-! ## Value paths -/

/-- What a value path selects in, by which filter, and the sub-attribute it names. -/
abbrev ValuePath := Multi × FilterExpr × Option Sub

/-- The part that a path ends in. -/
def readSub (field : Multi) (tail : Text) : Result (Option Sub) :=
  match tail with
  | [] => .ok none
  | '.' :: tail =>
    match field, String.ofList (tail.map Char.toLower) with
    | _, "value" => .ok (some .value)
    | .emails, "type" => .ok (some .type)
    | .emails, "primary" => .ok (some .primary)
    | .members, "display" => .error (mutability "Member display is read-only")
    | _, _ => .error (invalidPath "Unsupported PATCH sub-attribute")
  | _ => .error (invalidPath "Unsupported PATCH path suffix")

/-- The multi-valued attribute of a value path, and what its filter is about. -/
def readRoot (root : Text) : Result (Multi × FilterScope) :=
  if eqIgnoreAsciiCase root "emails".toList then .ok (.emails, .email)
  else if eqIgnoreAsciiCase root "members".toList then .ok (.members, .member)
  else .error (invalidPath "Unsupported PATCH valuePath")

/-- A path with a filter. -/
def patchValuePath (path : Text) : Result (Option ValuePath) := do
  require (Text.bytes path ≤ 1024 ∧ (path.any isAsciiControl) = false)
    (invalidPath "Invalid PATCH path")
  if '[' ∈ path then do
    let (field, scope) ← readRoot (path.takeWhile (· ≠ '['))
    let inner := (path.dropWhile (· ≠ '[')).tail
    let (filter, p) ← (orExpr MAX_FILTER_DEPTH scope (FilterParser.mk inner 0).spaces).mapError
      fun _ => invalidPath "Invalid PATCH valuePath filter"
    let p := p.spaces
    require (p.peek = some ']') (invalidPath "PATCH valuePath is missing a closing bracket")
    let sub ← readSub field p.advance.rest
    .ok (some (field, filter, sub))
  else .ok none

/-! ## Entries of a multi-valued attribute -/

section

variable (v : Env)

/-- A text of at most so many bytes, not empty and without control characters. -/
def plain (bytes : ℕ) (s : Text) : Bool :=
  decide (s ≠ [] ∧ Text.bytes s ≤ bytes) && !s.any isControl

/-- The check of one sub-attribute of an address. -/
def checkEmailSub (sub : Sub) (value : Json) : Result Unit :=
  match sub with
  | .value => do
    let value ← okOr value.asStr (.bad "Email value must be a string")
    v.validateEmail value
  | .type => do
    let kind ← okOr value.asStr (.bad "Email type must be a string")
    require (plain 64 kind = true) (.bad "Invalid email type")
  | .primary => require (value.asBool.isSome = true) (.bad "Email primary must be a boolean")

/-- The sub-attribute that a key of an entry names; `none` for a member's display name, which is
dropped. -/
def entrySub (field : Multi) (key : Text) (value : Json) : Result (Option Sub) :=
  match field, String.ofList (key.map Char.toLower) with
  | _, "value" => .ok (some .value)
  | .emails, "type" => .ok (some .type)
  | .emails, "primary" => .ok (some .primary)
  | .members, "display" => do
    require (value.asStr.isSome = true) (.bad "Member display must be a string")
    .ok none
  | _, _ => .error (.bad "Unsupported complex PATCH sub-attribute")

/-- One part of an entry. -/
def entryField (field : Multi) (result : Json) (f : Text × Json) : Result Json := do
  match ← entrySub field f.1 f.2 with
  | none => .ok result
  | some sub => do
    (if field = .emails then checkEmailSub v sub f.2 else .ok () : Result Unit)
    require (result.get? sub.name = none) (.bad "Duplicate complex PATCH sub-attribute")
    .ok (result.setField sub.name f.2)

/-- One entry of a list. -/
def patchEntry (field : Multi) (value : Json) : Result Json :=
  match value with
  | .obj fields => do
    let result ← fields.foldlM (entryField v field) (.obj [])
    (if field = .members then do
        let id ← okOr (result.field "value".toList).asStr (.bad "Member ID required")
        require (plain 256 id = true) (.bad "Invalid member ID")
      else .ok () : Result Unit)
    .ok result
  | _ => .error (.bad "Complex PATCH value must be an object")

/-- The entries of a value. -/
def patchEntries (field : Multi) (value : Json) : Result (List Json) := do
  let raw ← (match value with
    | .arr values => .ok values
    | .obj _ => .ok [value]
    | _ => .error (.bad "Complex PATCH value must be an object or array") : Result (List Json))
  require (raw.length ≤ if field = .emails then 8 else 1000) (.bad "Too many complex PATCH values")
  raw.mapM (patchEntry v field)

/-- Only the winner is primary. -/
def setEmailPrimary (items : List Json) (winner : ℕ) : List Json :=
  items.mapIdx fun i email =>
    if i = winner then email else email.setField "primary".toList (.bool false)

/-- The entries have the same value. -/
def sameEntry (field : Multi) (key : Text) (old : Json) : Bool :=
  (old.field "value".toList).asStr.any fun v =>
    if field = .emails then eqIgnoreAsciiCase v key else v = key

/-- An entry joins the current ones, if its value is new. -/
def appendEntry (field : Multi) (current : List Json) (item : Json) : Result (List Json) := do
  let key ← okOr (item.field "value".toList).asStr (.bad "Complex value is required")
  if current.any (sameEntry field key) then .ok current
  else
    let current := current ++ [item]
    .ok (if field = .emails ∧ item.field "primary".toList = .bool true then
        setEmailPrimary current (current.length - 1)
      else current)

/-- Entries are added or replaced. -/
def patchMultiRoot (data : Json) (field : Multi) (operation : PatchOp) (value : Json) :
    Result Json := do
  let incoming ← patchEntries v field value
  if operation = .replace then .ok (data.setField field.name (.arr incoming))
  else do
    let current ← (match data.get? field.name with
      | none => .ok []
      | some (.arr current) => .ok current
      | some _ => .error (.bad "Complex attribute must be an array") : Result (List Json))
    let current ← incoming.foldlM (appendEntry field) current
    .ok (data.setField field.name (.arr current))

/-- The value of a sub-attribute is one it may have. -/
def validSub (field : Multi) (sub : Sub) (value : Json) : Bool :=
  match sub with
  | .value => value.asStr.any fun s =>
      if field = .emails then (v.validateEmail s).isOk else plain 256 s
  | .type => value.asStr.any (plain 64)
  | .primary => value.asBool.isSome

/-- The selected entries are removed, or lose a sub-attribute. -/
def removeSelected (current : List Json) (filter : FilterExpr) (sub : Option Sub) :
    Result (List Json) :=
  match sub with
  | none => .ok (current.filter fun e => !filter.matches e)
  | some .value => .error (mutability "Cannot remove a required value")
  | some sub => .ok (current.map fun e => if filter.matches e then e.removeField sub.name else e)

/-- What the selected entries get: their sub-attributes, and whether one becomes primary. -/
def readReplacement (field : Multi) (sub : Option Sub) (value : Json) :
    Result (List (Text × Json) × Bool) :=
  match sub with
  | some sub => do
    require (¬ (field = .members ∧ sub ≠ .value)) (mutability "Member display is read-only")
    require (validSub v field sub value = true) (.bad "Invalid complex PATCH sub-attribute value")
    .ok ([(sub.name, value)], sub = .primary && value = .bool true)
  | none => do
    let entry ← patchEntry v field value
    .ok (entry.fields, entry.field "primary".toList = .bool true)

/-- Nothing is selected, which only a removal accepts. -/
def noSelection (data : Json) (operation : PatchOp) : Result Json :=
  if operation = .remove then .ok data
  else .error (noTarget "PATCH valuePath matched no value")

/-- The selected entries change. -/
def patchMultiSelected (data : Json) (field : Multi) (filter : FilterExpr) (sub : Option Sub)
    (operation : PatchOp) (value : Json) : Result Json :=
  match data.get? field.name with
  | some (.arr current) =>
    if current.any filter.matches = false then noSelection data operation
    else if operation = .remove then do
      let current ← removeSelected current filter sub
      .ok (data.setField field.name (.arr current))
    else do
      let (fields, promote) ← readReplacement v field sub value
      require (¬ (promote = true ∧ current.countP filter.matches ≠ 1))
        (.bad "Primary email target is ambiguous")
      let winner := current.findIdx filter.matches
      let current := current.map fun e =>
        if filter.matches e then fields.foldl (fun e f => e.setField f.1 f.2) e else e
      .ok (data.setField field.name
        (.arr (if promote then setEmailPrimary current winner else current)))
  | _ => noSelection data operation

end

/-! ## Names -/

/-- A path into the name of a user. -/
inductive NamePath where
  | whole
  | sub (name : Text)

/-- The known part of a name. -/
def nameSub (sub : Text) : Option Text :=
  ["formatted", "givenName", "familyName"].map String.toList |>.find? (eqIgnoreAsciiCase · sub)

/-- The path without the schema of users. -/
def withoutSchema (path : Text) : Result Text :=
  let schema := USER ++ [':']
  if eqIgnoreAsciiCase (path.take schema.length) schema then .ok (path.drop schema.length)
  else do
    require (':' ∉ path) (invalidPath "Unsupported PATCH schema path")
    .ok path

/-- A path into the name. -/
def namePath (kind : Kind) (path : Text) : Result (Option NamePath) := do
  let path ← withoutSchema path
  let root := path.takeWhile (· ≠ '.')
  let found ← (if eqIgnoreAsciiCase path "name".toList then .ok (some .whole)
    else if '.' ∈ path ∧ eqIgnoreAsciiCase root "name".toList = true then do
      let sub ← okOr (nameSub (path.drop (root.length + 1)))
        (invalidPath "Unsupported name sub-attribute")
      .ok (some (.sub sub))
    else .ok none : Result (Option NamePath))
  require (found.isNone = true ∨ kind = .users) (invalidPath "Name is not a Group attribute")
  .ok found

/-- The text of a part. -/
def nameText (value : Json) : Result Unit := do
  let text ← okOr value.asStr (.bad "Name sub-attribute must be a string")
  require (plain 200 text = true)
    (.bad "Name sub-attribute must be 1–200 bytes without control characters")

/-- One part of a name. -/
def nameField (fields : Json) (f : Text × Json) : Result Json := do
  let key ← okOr (nameSub f.1) (.bad "Unsupported name sub-attribute")
  nameText f.2
  require (fields.get? key = none) (.bad "Duplicate name sub-attribute")
  .ok (fields.setField key f.2)

/-- All parts of a name. -/
def nameFields (value : Json) : Result Json :=
  match value with
  | .obj fields => fields.foldlM nameField (.obj [])
  | _ => .error (.bad "name must be a complex object")

/-- The name that is stored, if there is one. -/
def storedName (data : Json) : Result (Option Json) :=
  match data.get? "name".toList with
  | none | some .null => .ok none
  | some (.obj fields) => .ok (some (.obj fields))
  | some _ => .error (.bad "name must be a complex object")

/-- The name without a sub-attribute, in any spelling. -/
def removeNameKey (fields : List (Text × Json)) (sub : Text) : List (Text × Json) :=
  fields.filter fun f => !eqIgnoreAsciiCase f.1 sub

/-- There is no such part. -/
def unassigned : Error := noTarget "Name path is not assigned"

/-- A name or a part is removed. -/
def removeName (data : Json) : NamePath → Result Json
  | .whole => do
    require ((data.field "name".toList).isNull = false) unassigned
    .ok (data.removeField "name".toList)
  | .sub sub => do
    let stored ← storedName data
    let stored ← okOr stored unassigned
    let rest := removeNameKey stored.fields sub
    require (rest ≠ stored.fields) unassigned
    .ok (if rest = [] then data.removeField "name".toList
      else data.setField "name".toList (.obj rest))

/-- A name changes. -/
def patchName (data : Json) (path : NamePath) (operation : PatchOp) (value : Json) : Result Json :=
  if operation = .remove then removeName data path
  else do
    let updates ← (match path with
      | .whole => do
        let fields ← nameFields value
        require (fields.fields ≠ []) (.bad "name PATCH value needs a sub-attribute")
        .ok fields.fields
      | .sub sub => do
        nameText value
        .ok [(sub, value)] : Result (List (Text × Json)))
    let stored ← storedName data
    .ok (data.setField "name".toList (updates.foldl
      (fun name f => (Json.obj (removeNameKey name.fields f.1)).setField f.1 f.2)
      (stored.getD (.obj []))))

/-! ## Whole patches -/

section

variable (v : Env)

/-- Whether it has just this schema. -/
def hasSchema (data : Json) (schema : Text) : Bool :=
  data.field "schemas".toList = .arr [.str schema]

/-- What a patch works on: the kind that the schemas of the resource say. -/
def patchKind (old : Json) : Kind := if hasSchema old USER then .users else .groups

/-- The list attribute of a kind. -/
def Kind.multi : Kind → Multi
  | .users => .emails
  | .groups => .members

/-- The list attribute of a name. -/
def readMulti (key : Text) : Option Multi :=
  if key = "emails".toList then some .emails
  else if key = "members".toList then some .members
  else none

/-- One field of an operation without a path. -/
def patchField (kind : Kind) (operation : PatchOp) (data : Json) (f : Text × Json) : Result Json := do
  require (f.1 ∉ ["id", "meta", "schemas", "groups"].map String.toList)
    (mutability "Cannot patch read-only attributes")
  match readMulti f.1 with
  | some field => patchMultiRoot v data field operation f.2
  | none =>
    if f.1 = "name".toList then do
      require (kind = .users) (invalidPath "Name is not a Group attribute")
      patchName data .whole operation f.2
    else .ok (data.setField f.1 f.2)

/-- An operation on a plain attribute. -/
def patchAttribute (kind : Kind) (operation : PatchOp) (data : Json) (path : Text) (value : Json) :
    Result Json := do
  require ('.' ∉ path) (invalidPath "Unsupported PATCH complex path")
  let key ← okOr (canonicalName path) (.bad "Unsupported SCIM attribute")
  require (key ∉ ["id", "meta", "schemas", "groups", "userName"].map String.toList)
    (mutability "Cannot patch this attribute")
  if operation = .remove then .ok (data.removeField key)
  else
    match readMulti key with
    | some field => do
      require (field = kind.multi) (invalidPath "Attribute is not valid for this resource")
      patchMultiRoot v data field operation value
    | none => .ok (data.setField key value)

/-- An operation with a path. -/
def patchPath (kind : Kind) (operation : PatchOp) (data : Json) (path : Text) (value : Json) :
    Result Json := do
  match ← patchValuePath path with
  | some (field, filter, sub) => do
    require (field = kind.multi) (invalidPath "ValuePath is not valid for this resource")
    patchMultiSelected v data field filter sub operation value
  | none => do
    match ← namePath kind path with
    | some path => patchName data path operation value
    | none => patchAttribute v kind operation data path value

/-- One operation. -/
def patchOperation (kind : Kind) (data op : Json) : Result Json := do
  let operation ← readPatchOp op
  if (op.field "path".toList).isNull then do
    require (operation ≠ .remove) (noTarget "remove requires a path")
    let value ← normalize (op.field "value".toList)
    value.fields.foldlM (patchField v kind operation) data
  else do
    let path ← okOr (op.field "path".toList).asStr (.bad "Invalid patch path")
    patchPath v kind operation data path (op.field "value".toList)

/-- The operation is about the addresses. -/
def patchesEmails (op : Json) : Bool :=
  if (op.field "path".toList).isNull then
    (op.field "value".toList).fields.any fun f => eqIgnoreAsciiCase f.1 "emails".toList
  else (op.field "path".toList).asStr.any fun path =>
    eqIgnoreAsciiCase (path.takeWhile (· ≠ '[')) "emails".toList

/-- The check of one address of a resource, after those before it. -/
def validateEmailEntry (seen : List Text) (email : Json) : Result (List Text) := do
  let value ← okOr (email.field "value".toList).asStr (.bad "Email value missing")
  v.validateEmail value
  let key := value.map Char.toLower
  require (key ∉ seen) (.bad "Duplicate email value")
  (match email.get? "type".toList with
    | none => .ok ()
    | some kind => do
      let kind ← okOr kind.asStr (.bad "Email type must be a string")
      require (plain 64 kind = true) (.bad "Invalid email type") : Result Unit)
  (match email.get? "primary".toList with
    | none => .ok ()
    | some primary =>
      require (primary.asBool.isSome = true) (.bad "Email primary must be a boolean") : Result Unit)
  .ok (key :: seen)

/-- The entries after a patch. -/
def validateEmailEntries (data : Json) : Result Unit :=
  match data.get? "emails".toList with
  | none => .ok ()
  | some (.arr emails) => do
    require (emails.length ≤ 8) emailsError
    let _ ← emails.foldlM (validateEmailEntry v) []
    let _ ← readEmail v data
    .ok ()
  | some _ => .error emailsError

/-- The schema of a patch. -/
def PATCH : Text := "urn:ietf:params:scim:api:messages:2.0:PatchOp".toList

/-- All operations, and the checks after them. -/
def patchResource (old input : Json) : Result Json := do
  require (hasSchema input PATCH = true) (.bad "Invalid SCIM patch schema")
  let operations := items input "Operations".toList
  require (operations ≠ [] ∧ operations.length ≤ 100) (.bad "Patch needs 1–100 operations")
  let data ← operations.foldlM (patchOperation v (patchKind old)) old
  (if operations.any patchesEmails = true ∧ patchKind old = .users then validateEmailEntries v data
    else .ok () : Result Unit)
  .ok data

end

/-! ## What a patch leaves alone -/

/-- The attributes that no patch may write. -/
def readOnly : List Text := ["id", "meta", "schemas", "groups"].map String.toList

/-- The attributes of the other kind of resource. -/
def foreign : Kind → List Text
  | .users => ["members".toList]
  | .groups => ["emails".toList, "name".toList]

/-- The path without the schema of users in front. -/
def unqualified (path : Text) : Text :=
  let schema := USER ++ [':']
  if eqIgnoreAsciiCase (path.take schema.length) schema then path.drop schema.length else path

/-- The operation names the attribute, in some spelling: as a key of its value, in a path or in a
value path. Paths into the name of a user may have the schema in front. -/
def addresses (op : Json) (name : Text) : Bool :=
  if (op.field "path".toList).isNull then
    (op.field "value".toList).fields.any fun f => eqIgnoreAsciiCase f.1 name
  else (op.field "path".toList).asStr.any fun path =>
    eqIgnoreAsciiCase (path.takeWhile (· ≠ '[')) name ||
      decide (name = "name".toList) && eqIgnoreAsciiCase ((unqualified path).takeWhile (· ≠ '.')) name

/-- When an operation may change an attribute. Only an operation without a path writes one of the
other kind, and never a name. -/
structure MayChange (kind : Kind) (op : Json) (name : Text) (new : Option Json) : Prop where
  addressed : addresses op name = true
  writable : name ∉ readOnly
  foreign : name ∈ foreign kind → new = none ∨
    name ≠ "name".toList ∧ (op.field "path".toList).isNull = true

section

variable {v : Env} {kind : Kind} {operation : PatchOp} {data data' : Json}

theorem eqIgnoreAsciiCase_symm {a b : Text} (h : eqIgnoreAsciiCase a b = true) :
    eqIgnoreAsciiCase b a = true := by
  simpa [eqIgnoreAsciiCase, eq_comm] using h

/-- The canonical name of an attribute is the attribute in another spelling. -/
theorem canonicalName_some {key name : Text} (h : canonicalName key = some name) :
    eqIgnoreAsciiCase key name = true :=
  eqIgnoreAsciiCase_symm (List.find?_some (p := fun a => eqIgnoreAsciiCase a key) h)

variable {field : Multi} {value : Json} {path : Text}

theorem readMulti_some {key : Text} (h : readMulti key = some field) : field.name = key := by
  unfold readMulti at h
  split_ifs at h with hemails hmembers
  · cases h
    exact hemails.symm
  · cases h
    exact hmembers.symm

theorem patchMultiRoot_get? {name : Text} (hne : name ≠ field.name)
    (h : patchMultiRoot v data field operation value = .ok data') :
    data'.get? name = data.get? name := by
  unfold patchMultiRoot at h
  obtain ⟨incoming, -, h⟩ := bind_ok.mp h
  split_ifs at h
  · cases h
    exact Json.get?_setField_ne hne
  · obtain ⟨current, -, h⟩ := bind_ok.mp h
    obtain ⟨current', -, h⟩ := bind_ok.mp h
    cases h
    exact Json.get?_setField_ne hne

theorem noSelection_ok (h : noSelection data operation = .ok data') :
    operation = .remove ∧ data' = data := by
  unfold noSelection at h
  split_ifs at h with hremove
  cases h
  exact ⟨hremove, rfl⟩

theorem patchMultiSelected_get? {filter : FilterExpr} {sub : Option Sub} {name : Text}
    (hne : name ≠ field.name)
    (h : patchMultiSelected v data field filter sub operation value = .ok data') :
    data'.get? name = data.get? name := by
  unfold patchMultiSelected at h
  split at h
  · split_ifs at h with hnone hremove
    · rw [(noSelection_ok h).2]
    · obtain ⟨current, -, h⟩ := bind_ok.mp h
      cases h
      exact Json.get?_setField_ne hne
    · obtain ⟨⟨fields, promote⟩, -, h⟩ := bind_ok.mp h
      obtain ⟨-, h⟩ := seq_ok.mp h
      cases h
      exact Json.get?_setField_ne hne
  · rw [(noSelection_ok h).2]

theorem patchName_get? {path : NamePath} {name : Text} (hne : name ≠ "name".toList)
    (h : patchName data path operation value = .ok data') : data'.get? name = data.get? name := by
  unfold patchName at h
  split_ifs at h with hremove
  · cases path with
    | whole =>
      obtain ⟨-, h⟩ := seq_ok.mp h
      cases h
      exact Json.get?_removeField_ne hne
    | sub sub =>
      obtain ⟨stored, -, h⟩ := bind_ok.mp h
      obtain ⟨stored', -, h⟩ := bind_ok.mp h
      obtain ⟨-, h⟩ := seq_ok.mp h
      cases h
      split_ifs
      · exact Json.get?_removeField_ne hne
      · exact Json.get?_setField_ne hne
  · obtain ⟨updates, -, h⟩ := bind_ok.mp h
    obtain ⟨stored, -, h⟩ := bind_ok.mp h
    cases h
    exact Json.get?_setField_ne hne

/-- The root of a value path names its attribute. -/
theorem patchValuePath_some {filter : FilterExpr} {sub : Option Sub}
    (h : patchValuePath path = .ok (some (field, filter, sub))) :
    '[' ∈ path ∧ eqIgnoreAsciiCase (path.takeWhile (· ≠ '[')) field.name = true := by
  unfold patchValuePath at h
  obtain ⟨-, h⟩ := seq_ok.mp h
  split_ifs at h with hpath
  · obtain ⟨⟨field', scope⟩, hroot, h⟩ := bind_ok.mp h
    obtain ⟨⟨filter', p⟩, -, h⟩ := bind_ok.mp h
    obtain ⟨-, h⟩ := seq_ok.mp h
    obtain ⟨sub', -, h⟩ := bind_ok.mp h
    cases h
    refine ⟨hpath, ?_⟩
    unfold readRoot at hroot
    split_ifs at hroot with hemails hmembers
    · cases hroot
      exact hemails
    · cases hroot
      exact hmembers
  · cases h

theorem patchValuePath_none (h : patchValuePath path = .ok none) : '[' ∉ path := by
  unfold patchValuePath at h
  obtain ⟨-, h⟩ := seq_ok.mp h
  split_ifs at h with hpath
  · obtain ⟨⟨field, scope⟩, -, h⟩ := bind_ok.mp h
    obtain ⟨⟨filter, p⟩, -, h⟩ := bind_ok.mp h
    obtain ⟨-, h⟩ := seq_ok.mp h
    obtain ⟨sub, -, h⟩ := bind_ok.mp h
    cases h
  · exact hpath

theorem mem_fields_setField {name : Text} {new : Json} {f : Text × Json}
    (h : f ∈ (data.setField name new).fields) : f ∈ data.fields ∨ f = (name, new) := by
  cases data with
  | obj fields =>
    simp only [Json.setField, Json.fields, List.mem_append, List.mem_cons, List.mem_filter] at h ⊢
    obtain ⟨hf, -⟩ | hf | ⟨hf, -⟩ := h
    · exact .inl hf
    · exact .inr hf
    · exact .inl hf
  | null => exact .inr (List.mem_singleton.mp h)
  | _ => exact .inl h

/-- Every field of a normalized resource stands in the resource, in some spelling. -/
theorem normalize_fields {normalized : Json} (h : normalize value = .ok normalized) :
    ∀ f ∈ normalized.fields, ∃ g ∈ value.fields, eqIgnoreAsciiCase g.1 f.1 = true := by
  cases value with
  | obj fields =>
    refine foldlM_invariant_mem (P := fun normalized => ∀ f ∈ normalized.fields,
      ∃ g ∈ fields, eqIgnoreAsciiCase g.1 f.1 = true) (fun g hg s s' hstep hs f hf => ?_) h nofun
    unfold normalizeField at hstep
    obtain ⟨key, hkey, hstep⟩ := bind_ok.mp hstep
    obtain ⟨-, hstep⟩ := seq_ok.mp hstep
    cases hstep
    obtain hf | rfl := mem_fields_setField hf
    · exact hs f hf
    · exact ⟨g, hg, canonicalName_some (okOr_ok.mp hkey)⟩
  | _ => cases h

/-- A field of an operation without a path changes that field only, and it is one that may be
written. -/
theorem patchField_effect {f : Text × Json} (h : patchField v kind operation data f = .ok data') :
    f.1 ∉ readOnly ∧ (f.1 = "name".toList → kind = .users) ∧
      ∀ name, name ≠ f.1 → data'.get? name = data.get? name := by
  unfold patchField at h
  obtain ⟨hwritable, h⟩ := seq_ok.mp h
  refine ⟨require_ok.mp hwritable, ?_⟩
  cases hmulti : readMulti f.1 with
  | some field =>
    rw [hmulti] at h
    refine ⟨fun hname => ?_, fun name hne => patchMultiRoot_get? (readMulti_some hmulti ▸ hne) h⟩
    rw [hname] at hmulti
    cases hmulti
  | none =>
    rw [hmulti] at h
    dsimp only at h
    split_ifs at h with hname
    · obtain ⟨hkind, h⟩ := seq_ok.mp h
      exact ⟨fun _ => require_ok.mp hkind, fun name hne => patchName_get? (hname ▸ hne) h⟩
    · cases h
      exact ⟨fun hname' => absurd hname' hname, fun name hne => Json.get?_setField_ne hne⟩

/-- An operation on a plain attribute changes that attribute only. It takes the attribute away, or
the attribute is not one of the other kind. -/
theorem patchAttribute_effect (h : patchAttribute v kind operation data path value = .ok data') :
    ∃ key, canonicalName path = some key ∧ key ∉ readOnly ∧
      (data'.get? key = none ∨ ∀ field, readMulti key = some field → field = kind.multi) ∧
      ∀ name, name ≠ key → data'.get? name = data.get? name := by
  unfold patchAttribute at h
  obtain ⟨-, h⟩ := seq_ok.mp h
  obtain ⟨key, hkey, h⟩ := bind_ok.mp h
  obtain ⟨hwritable, h⟩ := seq_ok.mp h
  have hkey := okOr_ok.mp hkey
  have hwritable : key ∉ readOnly := fun hmem =>
    require_ok.mp hwritable (List.mem_append_left ["userName".toList] hmem)
  split_ifs at h
  · cases h
    exact ⟨key, hkey, hwritable, .inl Json.get?_removeField_self,
      fun name hne => Json.get?_removeField_ne hne⟩
  · cases hmulti : readMulti key with
    | some field =>
      rw [hmulti] at h
      obtain ⟨hfield, h⟩ := seq_ok.mp h
      refine ⟨key, hkey, hwritable, .inr fun field' hfield' => ?_,
        fun name hne => patchMultiRoot_get? (readMulti_some hmulti ▸ hne) h⟩
      rw [hmulti] at hfield'
      cases hfield'
      exact require_ok.mp hfield
    | none =>
      rw [hmulti] at h
      cases h
      exact ⟨key, hkey, hwritable, .inr fun field' hfield' => (nomatch hmulti.symm.trans hfield'),
        fun name hne => Json.get?_setField_ne hne⟩

theorem withoutSchema_ok {rest : Text} (h : withoutSchema path = .ok rest) :
    rest = unqualified path := by
  unfold withoutSchema at h
  unfold unqualified
  dsimp only at h ⊢
  split_ifs at h ⊢
  · cases h
    rfl
  · obtain ⟨-, h⟩ := seq_ok.mp h
    cases h
    rfl

/-- A text that is a word in some spelling has only the characters of the word. -/
theorem not_mem_of_eqIgnoreAsciiCase {word : Text} {c : Char}
    (h : eqIgnoreAsciiCase path word = true) (hc : c.toLower ∉ word.map Char.toLower) :
    c ∉ path := by
  intro hmem
  rw [← of_decide_eq_true h] at hc
  exact hc (List.mem_map_of_mem hmem)

theorem takeWhile_of_not_mem {c : Char} (h : c ∉ path) : path.takeWhile (· ≠ c) = path := by
  rw [List.takeWhile_eq_self_iff]
  intro d hd
  rw [decide_eq_true_eq]
  rintro rfl
  exact h hd

/-- A path into the name is one of a user. -/
theorem namePath_some {found : NamePath} (h : namePath kind path = .ok (some found)) :
    kind = .users ∧
      eqIgnoreAsciiCase ((unqualified path).takeWhile (· ≠ '.')) "name".toList = true := by
  unfold namePath at h
  obtain ⟨rest, hrest, h⟩ := bind_ok.mp h
  obtain ⟨found', hfound, h⟩ := bind_ok.mp h
  obtain ⟨hkind, h⟩ := seq_ok.mp h
  cases h
  rw [← withoutSchema_ok hrest]
  refine ⟨(require_ok.mp hkind).resolve_left (by simp), ?_⟩
  split_ifs at hfound with hwhole hsub
  · rwa [takeWhile_of_not_mem (not_mem_of_eqIgnoreAsciiCase hwhole (by decide))]
  · exact hsub.2
  · cases hfound

/-- A path that is the name of the attribute is a path into the name. -/
theorem namePath_none (h : namePath kind path = .ok none) :
    eqIgnoreAsciiCase path "name".toList = false := by
  rw [Bool.eq_false_iff]
  intro hname
  unfold namePath at h
  obtain ⟨rest, hrest, h⟩ := bind_ok.mp h
  obtain ⟨found', hfound, h⟩ := bind_ok.mp h
  obtain ⟨-, h⟩ := seq_ok.mp h
  cases h
  -- a path of four characters has no schema in front
  have hrest : rest = path := by
    have hlength : path.length = 4 := by
      simpa using congrArg List.length (of_decide_eq_true hname)
    rw [withoutSchema_ok hrest, unqualified, if_neg]
    intro hschema
    have hlong := congrArg List.length (of_decide_eq_true hschema)
    rw [List.length_map, List.length_map, List.length_take, hlength] at hlong
    revert hlong
    decide
  rw [hrest, if_pos hname] at hfound
  cases hfound

/-- **What one operation may do to an attribute**: it leaves it, or it names it and may write it. -/
theorem patchOperation_get? {op : Json} (h : patchOperation v kind data op = .ok data')
    (name : Text) :
    data'.get? name = data.get? name ∨ MayChange kind op name (data'.get? name) := by
  unfold patchOperation at h
  obtain ⟨operation, -, h⟩ := bind_ok.mp h
  split_ifs at h with hnull
  · obtain ⟨-, h⟩ := seq_ok.mp h
    obtain ⟨value, hvalue, h⟩ := bind_ok.mp h
    refine foldlM_invariant_mem (P := fun d : Json => d.get? name = data.get? name ∨
      MayChange kind op name (data'.get? name)) (fun f hf d d' hstep hd => ?_) h (.inl rfl)
    obtain ⟨hwritable, hname, hrest⟩ := patchField_effect hstep
    by_cases hne : name = f.1
    · subst hne
      obtain ⟨g, hg, hspelled⟩ := normalize_fields hvalue f hf
      refine .inr ⟨?_, hwritable, fun hforeign => .inr ⟨fun hname' => ?_, hnull⟩⟩
      · rw [addresses, if_pos hnull]
        exact List.any_eq_true.mpr ⟨g, hg, hspelled⟩
      · rw [hname hname', hname'] at hforeign
        revert hforeign
        decide
    · rwa [hrest name hne]
  · obtain ⟨path, hread, h⟩ := bind_ok.mp h
    have haddresses : addresses op name = (eqIgnoreAsciiCase (path.takeWhile (· ≠ '[')) name ||
        decide (name = "name".toList) &&
          eqIgnoreAsciiCase ((unqualified path).takeWhile (· ≠ '.')) name) := by
      rw [addresses, if_neg hnull, okOr_ok.mp hread, Option.any_some]
    unfold patchPath at h
    obtain ⟨found, hfound, h⟩ := bind_ok.mp h
    cases found with
    | some found =>
      obtain ⟨field, filter, sub⟩ := found
      obtain ⟨hfield, h⟩ := seq_ok.mp h
      by_cases hne : name = field.name
      · subst hne
        refine .inr ⟨?_, by cases field <;> decide, fun hforeign => ?_⟩
        · rw [haddresses, (patchValuePath_some hfound).2, Bool.true_or]
        · rw [require_ok.mp hfield] at hforeign
          cases kind <;> exact absurd hforeign (by decide)
      · exact .inl (patchMultiSelected_get? hne h)
    | none =>
      obtain ⟨found, hname, h⟩ := bind_ok.mp h
      cases found with
      | some found =>
        by_cases hne : name = "name".toList
        · subst hne
          obtain ⟨hkind, hroot⟩ := namePath_some hname
          refine .inr ⟨?_, by decide, fun hforeign => ?_⟩
          · rw [haddresses, hroot]
            simp
          · rw [hkind] at hforeign
            exact absurd hforeign (by decide)
        · exact .inl (patchName_get? hne h)
      | none =>
        obtain ⟨key, hkey, hwritable, hnew, hrest⟩ := patchAttribute_effect h
        by_cases hne : name = key
        · subst hne
          refine .inr ⟨?_, hwritable, fun hforeign => .inl (hnew.resolve_right fun hmulti => ?_)⟩
          · rw [haddresses, takeWhile_of_not_mem (patchValuePath_none hfound), canonicalName_some hkey,
              Bool.true_or]
          · cases kind with
            | users =>
              cases List.mem_singleton.mp hforeign
              exact absurd (hmulti .members rfl) (by decide)
            | groups =>
              obtain hemails | hname' : name = "emails".toList ∨ name = "name".toList := by
                simpa [foreign] using hforeign
              · subst hemails
                exact absurd (hmulti .emails rfl) (by decide)
              · subst hname'
                exact absurd (canonicalName_some hkey) (Bool.eq_false_iff.mp (namePath_none hname))
        · exact .inl (hrest name hne)

/-- The operations of an accepted patch are run one after the other. -/
theorem patchResource_ok {old input : Json} (h : patchResource v old input = .ok data) :
    (items input "Operations".toList).foldlM (patchOperation v (patchKind old)) old = .ok data ∧
      ((items input "Operations".toList).any patchesEmails = true → patchKind old = .users →
        validateEmailEntries v data = .ok ()) := by
  unfold patchResource at h
  obtain ⟨-, h⟩ := seq_ok.mp h
  obtain ⟨-, h⟩ := seq_ok.mp h
  obtain ⟨data', hdata, h⟩ := bind_ok.mp h
  obtain ⟨hemails, h⟩ := seq_ok.mp h
  cases h
  refine ⟨hdata, fun hany hkind => ?_⟩
  rwa [if_pos ⟨hany, hkind⟩] at hemails

end

end RiAuth.Scim
