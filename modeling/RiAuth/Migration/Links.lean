import RiAuth.Basic
import RiAuth.Lib.Checks
import RiAuth.Lib.OrdMap

/-!
# Source links of a migration

An import names the links of accounts to upstream identities that are to be carried over. A link is
carried only where the export shows the connection; every connection that is not carried is told.

* `readConnections`: the exported connections;
* `verifyLinks`: which links are carried, and the findings;
* `Accounted`: carried links are justified, and links and connections are all accounted for;
* **`links_accounted_iff`**: they are, unless two links differ in their issuer only.
-/

namespace RiAuth.Migration

open Checks

/-! ## Findings -/

/-- How much of an object is taken over. -/
inductive Classification where
  | exact
  | manual
  | unsupported
deriving DecidableEq

/-- A finding about a source link, the only kind of item here. -/
structure Finding where
  id : Text
  classification : Classification
  blocking : Bool
  reason : String
  action : String
  blocker : Option Text
deriving DecidableEq

/-- A finding that blocks nothing. -/
def Finding.note (id : Text) (classification : Classification) (reason action : String) : Finding :=
  ⟨id, classification, false, reason, action, none⟩

/-- The finding as a blocker. -/
def Finding.block (f : Finding) (blocker : Text) : Finding :=
  { f with blocking := true, blocker := some blocker }

/-! ## The import -/

/-- A link between a user and a source. -/
structure LinkSpec where
  source : Text
  username : Text
  subject : Text
  issuer : Option Text
deriving DecidableEq

/-- What of a reviewed source is used here. -/
structure Source where
  id : Text
  enabled : Bool
  autoProvision : Bool
deriving DecidableEq

/-- The part of an import about links. -/
structure Import where
  sourceLinks : List LinkSpec
  userSourceConnections : Option Json

/-- `Value::as_u64`. -/
def asU64 : Json → Option ℕ
  | .int n => if 0 ≤ n ∧ n ≤ u64Max then some n.toNat else none
  | _ => none

def asArray : Json → Option (List Json)
  | .arr items => some items
  | _ => none

def asStr : Json → Option Text
  | .str s => some s
  | _ => none

def isObject : Json → Bool
  | .obj _ => true
  | _ => false

/-- The rows of an export, plain or paged. -/
def rows (value : Json) : Result (List Json) :=
  match asArray value with
  | some rows => .ok rows
  | none => do
    let rows ← okOr (asArray (value.field "results".toList))
      (.bad "Exports must contain an array or complete API results")
    let pagination := value.field "pagination".toList
    require (¬ (asU64 (pagination.field "count".toList) ≠ some rows.length ∨
      (asU64 (pagination.field "next".toList)).any (0 < ·) = true ∨
      (asStr (value.field "next".toList)).isSome = true))
      (.bad "Incomplete paginated export; collect every page into an array first")
    .ok rows

/-- A text or a number as id. -/
def identifier (value : Json) : Result Text :=
  match asStr value, asU64 value with
  | some s, _ => if s = [] then .error (.bad "Missing export identifier") else .ok s
  | none, some n => .ok (toString n).toList
  | none, none => .error (.bad "Missing export identifier")

/-- A required text field. -/
def field (value : Json) (name : String) : Result Text :=
  okOr (asStr (value.field name.toList)) (.bad ("Export is missing " ++ name))

/-- The owning user, the source and the identifier matched at sign-in. -/
structure Connection where
  owner : Text
  source : Text
  identifier : Text
deriving DecidableEq

/-- The link that a row stands for. -/
def connection (row : Json) : Result Connection := do
  let source ← if isObject (row.field "source".toList) then
      identifier ((row.field "source".toList).field "pk".toList)
    else identifier (row.field "source".toList)
  let user ← identifier (row.field "user".toList)
  let id ← field row "identifier"
  .ok ⟨user, source, id⟩

/-- The username of each exported user, by the user's identifier. -/
def readOwners (users : List Json) : Result (OrdMap Text Text) := do
  let entries ← users.mapM fun u => do
    let pk ← identifier (u.field "pk".toList)
    let username ← field u "username"
    .ok (pk, username)
  .ok (OrdMap.ofList entries)

/-- A row, with its owner and source resolved. -/
def readConnection (owners : OrdMap Text Text) (exportedSources : List Text) (row : Json) :
    Result Connection := do
  let c ← connection row
  let owner ← okOr (owners.get? c.owner) (.bad "Source connection references an unexported user")
  require (c.source ∈ exportedSources)
    (.bad "Source connection references an unexported source")
  .ok { c with owner := owner }

/-- The exported connections by username, if there is an export of them. -/
def readConnections (input : Import) (users : List Json) (exportedSources : List Text) :
    Result (Option (List Connection)) := do
  let owners ← readOwners users
  match input.userSourceConnections with
  | none => .ok none
  | some value => do
    let connections ← (← rows value).mapM (readConnection owners exportedSources)
    .ok (some connections)

/-! ## Requested links -/

/-- What tells two links apart. -/
def LinkSpec.key (l : LinkSpec) : Text × Text × Text := (l.source, l.username, l.subject)

def slash (a b : Text) : Text := a ++ '/' :: b

/-- How findings name a link. -/
def LinkSpec.id (l : LinkSpec) : Text := slash l.username l.source

/-- The links, without those whose source, account and subject came before. -/
def requested (seen : List (Text × Text × Text)) : List LinkSpec → List LinkSpec
  | [] => []
  | l :: links =>
    if l.key ∈ seen then requested seen links else l :: requested (l.key :: seen) links

/-- The exported sources that the riAuth source replaces. -/
def replaced (applied : OrdMap Text Source) (source : Text) : List Text :=
  (applied.entries.filter fun e => e.2.id = source).map Prod.fst

def unverifiable : String :=
  "Export user_source_connections so every source link can be verified"

/-- A link that has to be made by hand. -/
def refuse (l : LinkSpec) (reason action : String) (blocker : Text) : Finding :=
  (Finding.note l.id .manual reason action).block blocker

/-- The identifiers that the export shows for the account and the source. -/
def exported (applied : OrdMap Text Source) (connections : List Connection) (l : LinkSpec) :
    List Text :=
  (connections.filter fun c => c.owner = l.username ∧ c.source ∈ replaced applied l.source).map
    Connection.identifier

/-- Why a link is refused, or nothing for a link that an exported connection establishes. -/
def refusal (applied : OrdMap Text Source) (accounts : List Text)
    (connections : Option (List Connection)) (l : LinkSpec) : Option Finding :=
  if replaced applied l.source = [] then
    some (refuse l
      ("The link names a riAuth source that no applied source resolution provides; it was not " ++
        "applied")
      ("Resolve the Authentik source it replaces in source_resolutions, or link the account " ++
        "after cutover")
      (l.id ++ ": source link names no applied source resolution".toList))
  else if l.username ∉ accounts then
    some (refuse l
      "The link names an account that is not in the export or is not converted; it was not applied"
      "Remove the link, or correct the account and export again"
      (l.id ++ ": source link names no converted account".toList))
  else
    match connections with
    | some connections =>
      if l.subject ∈ exported applied connections l then none
      else if exported applied connections l = [] then
        some (refuse l
          ("No exported connection links this account to the source; riAuth never creates a " ++
            "link the export does not show")
          ("Remove the link and have the user link the source after signing in, or export the " ++
            "connections again")
          (l.id ++ ": source link is not backed by an exported connection".toList))
      else
        some (refuse l
          ("The link's subject differs from the exported connection's identifier; riAuth never " ++
            "moves an upstream identity to another subject")
          "Use the exported identifier, or remove the link"
          (l.id ++ ": source link subject differs from the exported connection".toList))
    | none =>
      some (refuse l
        ("The link cannot be verified without the exported user source connections; it was not " ++
          "applied")
        "Add the complete user source connection export" unverifiable.toList)

/-- The links that are not refused. -/
def shown (applied : OrdMap Text Source) (accounts : List Text)
    (connections : Option (List Connection)) (links : List LinkSpec) : List LinkSpec :=
  links.filter fun l => refusal applied accounts connections l = none

/-! ## Carried links -/

/-- Links of one upstream identity. -/
def claims (matched : List LinkSpec) (l : LinkSpec) : ℕ :=
  matched.countP fun m => m.source = l.source ∧ m.subject = l.subject

/-- What becomes of a link that a connection establishes: whether it is carried, and the finding. -/
def settle (applied : OrdMap Text Source) (matched : List LinkSpec) (l : LinkSpec) :
    Bool × Finding :=
  if l.subject = [] ∨ 255 < l.subject.bytes ∨ l.subject.any isControl = true then
    (false, (Finding.note l.id .unsupported
      ("The exported identifier is empty, longer than 255 bytes or contains control characters, " ++
        "so it cannot be a riAuth source subject")
      "Have the user link the source again after signing in").block
      (l.id ++ ": exported identifier is not a valid source subject".toList))
  else if 1 < claims matched l then
    (false, (Finding.note l.id .unsupported
      ("The same upstream identity is connected to several exported accounts; riAuth never " ++
        "merges identities")
      "Remove all but one of these connections in Authentik before the final export").block
      (l.source ++ ": one upstream identity is linked to several accounts".toList))
  else if ¬ applied.entries.any (fun e => e.2.id = l.source ∧ e.2.enabled = true) then
    (false, (Finding.note l.id .manual
      "The reviewed source is disabled, so the link cannot be applied"
      "Enable the reviewed source, or remove the link").block
      (l.id ++ ": source link needs an enabled source".toList))
  else
    (true, Finding.note l.id .exact
      "The exported Authentik connection is carried over unchanged as an explicit link"
      ("Rehearse this user's sign-in; the reviewed source must return the identifier Authentik " ++
        "stored as its subject"))

/-- The link that carries a connection over to a source. -/
def Carries (c : Connection) (source : Source) (l : LinkSpec) : Prop :=
  l.username = c.owner ∧ l.source = source.id ∧ l.subject = c.identifier

instance (c : Connection) (source : Source) (l : LinkSpec) : Decidable (Carries c source l) :=
  inferInstanceAs (Decidable (_ ∧ _ ∧ _))

/-- What is told of a connection, if anything. -/
def account (applied : OrdMap Text Source) (accounts : List Text) (carried : List LinkSpec)
    (c : Connection) : Option Finding :=
  if c.owner ∉ accounts then none
  else
    match applied.get? c.source with
    | none => some (Finding.note (slash c.owner c.source) .unsupported
        "The connection's source is not converted, so this upstream sign-in does not carry over"
        "Resolve the source, or retire it before the final export")
    | some source =>
      if ∃ l ∈ carried, Carries c source l then none
      else if source.autoProvision then
        some ((Finding.note (slash c.owner source.id) .manual
          ("The exported connection is not carried over, and the reviewed source creates a " ++
            "separate account on the next upstream sign-in")
          ("Carry the connection over in source_links, or turn off auto_provision so the user " ++
            "links the source again after signing in")).block (slash c.owner source.id ++
            ": exported connection is not linked and the source provisions accounts".toList))
      else
        some (Finding.note (slash c.owner source.id) .manual
          ("The exported connection is not carried over; the upstream sign-in is refused until " ++
            "the user links the source again")
          ("Carry the connection over in source_links, or have the user link the source after " ++
            "signing in locally"))

/-- The finding for a missing export of connections. -/
def missingExport : Finding :=
  (Finding.note ['*'] .manual
    ("The bundle has no user_source_connections export, so existing links can be neither " ++
      "verified nor accounted for")
    ("Add the complete /api/v3/sources/user_connections/all/ export, or an empty array when no " ++
      "account has a connection")).block unverifiable.toList

/-- The findings so far with those about links, and the links that are carried. -/
def verifyLinks (items : List Finding) (input : Import) (users : List Json) (accounts : List Text)
    (applied : OrdMap Text Source) (exportedSources : List Text) :
    Result (List Finding × List LinkSpec) := do
  let connections ← readConnections input users exportedSources
  let missing :=
    if connections = none ∧ (applied.entries ≠ [] ∨ input.sourceLinks ≠ []) then [missingExport]
    else []
  let links := requested [] input.sourceLinks
  let refused := links.filterMap (refusal applied accounts connections)
  let matched := shown applied accounts connections links
  let settled := matched.map fun l => (settle applied matched l).2
  let carried := matched.filter fun l => (settle applied matched l).1
  let told := (connections.getD []).filterMap (account applied accounts carried)
  .ok (items ++ missing ++ refused ++ settled ++ told, carried)

/-! ## What each step shows -/

section

variable {applied : OrdMap Text Source} {accounts : List Text}
  {connections : Option (List Connection)} {matched carried : List LinkSpec}

theorem requested_subset (seen : List (Text × Text × Text)) (links : List LinkSpec) :
    requested seen links ⊆ links := by
  induction links generalizing seen with
  | nil => exact List.Subset.refl _
  | cons l links ih =>
    rw [requested]
    split_ifs
    · exact List.subset_cons_of_subset l (ih seen)
    · exact List.cons_subset_cons l (ih _)

variable {l m : LinkSpec}

/-- A link that is left out has its key in one that came before. -/
theorem exists_requested (seen : List (Text × Text × Text)) {links : List LinkSpec} (hl : l ∈ links) :
    l.key ∈ seen ∨ ∃ m ∈ requested seen links, m.key = l.key := by
  induction links generalizing seen with
  | nil => cases hl
  | cons a links ih =>
    rw [requested]
    by_cases ha : a.key ∈ seen
    · rw [if_pos ha]
      rcases List.mem_cons.mp hl with rfl | hl
      · exact .inl ha
      · exact ih seen hl
    · rw [if_neg ha]
      rcases List.mem_cons.mp hl with rfl | hl
      · exact .inr ⟨l, List.mem_cons_self, rfl⟩
      · rcases ih (a.key :: seen) hl with hseen | ⟨m, hm, hkey⟩
        · rcases List.mem_cons.mp hseen with heq | hseen
          · exact .inr ⟨a, List.mem_cons_self, heq.symm⟩
          · exact .inl hseen
        · exact .inr ⟨m, List.mem_cons_of_mem a hm, hkey⟩

/-- A finding that blocks, about this link. -/
def Blocks (f : Finding) (l : LinkSpec) : Prop := f.id = l.id ∧ f.blocking = true

/-- Only the source, the account and the subject of a link are looked at. -/
theorem refusal_congr (h : m.key = l.key) :
    refusal applied accounts connections m = refusal applied accounts connections l := by
  obtain ⟨source, username, subject, issuer⟩ := l
  obtain ⟨source', username', subject', issuer'⟩ := m
  cases h
  rfl

theorem settle_congr (h : m.key = l.key) : settle applied matched m = settle applied matched l := by
  obtain ⟨source, username, subject, issuer⟩ := l
  obtain ⟨source', username', subject', issuer'⟩ := m
  cases h
  rfl

theorem blocks_of_refusal {f : Finding} (h : refusal applied accounts connections l = some f) :
    Blocks f l := by
  have hrefuse {reason action : String} {blocker : Text} :
      Blocks (refuse l reason action blocker) l := ⟨rfl, rfl⟩
  unfold refusal at h
  split_ifs at h
  · exact Option.some.inj h ▸ hrefuse
  · split at h
    · split_ifs at h <;> exact Option.some.inj h ▸ hrefuse
    · exact Option.some.inj h ▸ hrefuse
  · exact Option.some.inj h ▸ hrefuse

theorem mem_replaced {pk source : Text} :
    pk ∈ replaced applied source ↔ ∃ spec, applied.get? pk = some spec ∧ spec.id = source := by
  simp only [replaced, List.mem_map, List.mem_filter, decide_eq_true_eq]
  constructor
  · rintro ⟨⟨k, spec⟩, ⟨hmem, hid⟩, rfl⟩
    exact ⟨spec, OrdMap.mem_entries_iff.mp hmem, hid⟩
  · rintro ⟨spec, hget, hid⟩
    exact ⟨(pk, spec), ⟨OrdMap.mem_entries_iff.mpr hget, hid⟩, rfl⟩

/-- A link that is not refused is shown by a connection. -/
theorem exists_of_refusal_none (h : refusal applied accounts connections l = none) :
    ∃ pk spec, applied.get? pk = some spec ∧ spec.id = l.source ∧
      ⟨l.username, pk, l.subject⟩ ∈ connections.getD [] := by
  unfold refusal at h
  split_ifs at h
  split at h
  case h_1 cs =>
    split_ifs at h with hsubject
    obtain ⟨c, hc, hid⟩ := List.mem_map.mp hsubject
    obtain ⟨hmem, hfilter⟩ := List.mem_filter.mp hc
    obtain ⟨howner, hsource⟩ := of_decide_eq_true hfilter
    obtain ⟨spec, hget, hspec⟩ := mem_replaced.mp hsource
    refine ⟨c.source, spec, hget, hspec, ?_⟩
    rw [← howner, ← hid]
    exact hmem
  case h_2 => cases h

/-- A link that is settled without being carried is blocked. -/
theorem blocks_of_settle (h : (settle applied matched l).1 = false) :
    Blocks (settle applied matched l).2 l := by
  unfold settle at h ⊢
  split_ifs at h ⊢ <;> exact ⟨rfl, rfl⟩

theorem of_settle (h : (settle applied matched l).1 = true) :
    claims matched l ≤ 1 ∧ ∃ pk spec, applied.get? pk = some spec ∧ spec.id = l.source ∧
      spec.enabled = true := by
  unfold settle at h
  split_ifs at h with hsubject hclaims hdisabled
  obtain ⟨⟨pk, spec⟩, hmem, hspec⟩ := List.any_eq_true.mp hdisabled
  obtain ⟨hid, henabled⟩ := of_decide_eq_true hspec
  exact ⟨Nat.not_lt.mp hclaims, pk, spec, OrdMap.mem_entries_iff.mp hmem, hid, henabled⟩

/-- Two links of one identity are counted twice. -/
theorem eq_of_claims (hl : l ∈ matched) (hm : m ∈ matched) (hsource : m.source = l.source)
    (hsubject : m.subject = l.subject) (hclaims : claims matched l ≤ 1) : m = l := by
  by_contra hne
  have hsub : [m, l].Subperm matched :=
    List.subperm_of_subset (by simp [hne]) (by simp [hl, hm])
  have htwo : claims [m, l] l = 2 := by simp [claims, hsource, hsubject]
  have hle : claims [m, l] l ≤ claims matched l := hsub.countP_le _
  omega

/-- A connection of a converted account is carried or told, and told with a block where the source
makes accounts. -/
theorem account_spec {c : Connection} (howner : c.owner ∈ accounts) :
    (∃ source, applied.get? c.source = some source ∧ ∃ l ∈ carried, Carries c source l) ∨
      ∃ f, account applied accounts carried c = some f ∧
        ∀ source, applied.get? c.source = some source → source.autoProvision = true →
          f.blocking = true := by
  unfold account
  rw [if_neg (not_not.mpr howner)]
  cases hget : applied.get? c.source with
  | none => exact .inr ⟨_, rfl, by rintro _ ⟨⟩⟩
  | some source =>
    by_cases hcarried : ∃ l ∈ carried, Carries c source l
    · exact .inl ⟨source, rfl, hcarried⟩
    · right
      simp only [if_neg hcarried]
      by_cases hauto : source.autoProvision = true
      · rw [if_pos hauto]
        exact ⟨_, rfl, fun _ _ _ => rfl⟩
      · rw [if_neg hauto]
        refine ⟨_, rfl, ?_⟩
        rintro _ ⟨⟩ hprovision
        exact absurd hprovision hauto

end

/-! ## The accounting -/

section

variable (applied : OrdMap Text Source) (accounts : List Text)
  (connections : Option (List Connection)) (links : List LinkSpec)

/-- The requested links that connections establish. -/
def matchedLinks : List LinkSpec := shown applied accounts connections (requested [] links)

/-- Nothing is wrong with the source, the account and the subject of a link. -/
def Established (l : LinkSpec) : Prop :=
  refusal applied accounts connections l = none ∧
    (settle applied (matchedLinks applied accounts connections links) l).1 = true

/-- The finding says what is wrong with the link. -/
def Explains (f : Finding) (l : LinkSpec) : Prop :=
  Blocks f l ∧ (refusal applied accounts connections l = some f ∨
    settle applied (matchedLinks applied accounts connections links) l = (false, f))

/-- All specifications of one riAuth source agree on whether it is enabled. -/
def Uniform : Prop :=
  ∀ pk spec pk' spec', applied.get? pk = some spec → applied.get? pk' = some spec' →
    spec.id = spec'.id → spec.enabled = spec'.enabled

/-- What becomes of the links that are asked for and of the connections that are exported. -/
structure Accounted (findings : List Finding) (carried : List LinkSpec) : Prop where
  /-- A carried link is a connection to a source that the riAuth source replaces. -/
  justified : ∀ l ∈ carried, l ∈ links ∧ ∃ pk spec, applied.get? pk = some spec ∧
    spec.id = l.source ∧ ⟨l.username, pk, l.subject⟩ ∈ connections.getD [] ∧
      (Uniform applied → spec.enabled = true)
  /-- The riAuth source is enabled, by one of its specifications. -/
  enabled : ∀ l ∈ carried, ∃ pk spec, applied.get? pk = some spec ∧ spec.id = l.source ∧
    spec.enabled = true
  unique : ∀ l ∈ carried, ∀ m ∈ carried, m.source = l.source → m.subject = l.subject → m = l
  explained : ∀ l ∈ links, l ∈ carried ∨
    ∃ f ∈ findings, Explains applied accounts connections links f l
  /-- A connection of a converted account is carried or told, with a block where its source makes
  accounts. -/
  told : ∀ c ∈ connections.getD [], c.owner ∈ accounts →
    (∃ source, applied.get? c.source = some source ∧ ∃ l ∈ carried, Carries c source l) ∨
      ∃ f ∈ findings, account applied accounts carried c = some f ∧
        ∀ source, applied.get? c.source = some source → source.autoProvision = true →
          f.blocking = true

/-- Links to one identity of one account name one issuer, unless they are refused anyway. -/
def OneIssuer : Prop :=
  ∀ l ∈ links, ∀ m ∈ links, m.key = l.key → m.issuer ≠ l.issuer →
    ¬ Established applied accounts connections links l

end

section

variable {applied : OrdMap Text Source} {accounts : List Text}
  {connections : Option (List Connection)} {links carried : List LinkSpec} {findings : List Finding}

theorem LinkSpec.eq_of_key {l m : LinkSpec} (hkey : m.key = l.key) (hissuer : m.issuer = l.issuer) :
    m = l := by
  obtain ⟨source, username, subject, issuer⟩ := l
  obtain ⟨source', username', subject', issuer'⟩ := m
  cases hkey
  cases hissuer
  rfl

/-- If every link is accounted for, no second issuer was passed over. -/
theorem Accounted.oneIssuer (h : Accounted applied accounts connections links findings carried) :
    OneIssuer applied accounts connections links := by
  intro l hl m hm hkey hissuer hestablished
  have hcarried : ∀ k ∈ links, k.key = l.key → k ∈ carried := by
    intro k hk hsame
    refine (h.explained k hk).resolve_right ?_
    rintro ⟨f, -, -, hrefusal | hsettle⟩
    · rw [refusal_congr hsame, hestablished.1] at hrefusal
      cases hrefusal
    · have hfalse := hestablished.2
      rw [← settle_congr hsame, hsettle] at hfalse
      cases hfalse
  obtain ⟨hsource, hrest⟩ := Prod.mk.inj hkey
  have hsame := h.unique l (hcarried l hl rfl) m (hcarried m hm hkey) hsource (Prod.mk.inj hrest).2
  exact hissuer (hsame ▸ rfl)

/-- **Migrated links are justified and accounted for** exactly where no two links that agree in
source, account and subject, and that nothing else is wrong with, name different issuers. -/
theorem links_accounted_iff (items findings : List Finding) (input : Import) (users : List Json)
    (accounts : List Text) (applied : OrdMap Text Source) (exportedSources : List Text)
    (carried : List LinkSpec)
    (h : verifyLinks items input users accounts applied exportedSources = .ok (findings, carried)) :
    ∃ connections, readConnections input users exportedSources = .ok connections ∧
      (Accounted applied accounts connections input.sourceLinks findings carried ↔
        OneIssuer applied accounts connections input.sourceLinks) := by
  obtain ⟨connections, hread, h₁⟩ := bind_ok.mp h
  obtain ⟨rfl, rfl⟩ := Prod.mk.inj (Except.ok.inj h₁)
  refine ⟨connections, hread, Accounted.oneIssuer, fun hissuer => ⟨?_, ?_, ?_, ?_, ?_⟩⟩
  · intro l hl
    obtain ⟨hmatched, hsettle⟩ := List.mem_filter.mp hl
    obtain ⟨hlinks, hrefusal⟩ := List.mem_filter.mp hmatched
    obtain ⟨pk, spec, hspec, hid, hconnection⟩ :=
      exists_of_refusal_none (of_decide_eq_true hrefusal)
    refine ⟨requested_subset _ _ hlinks, pk, spec, hspec, hid, hconnection, fun huniform => ?_⟩
    obtain ⟨-, pk', spec', hspec', hid', henabled⟩ := of_settle hsettle
    rw [huniform pk spec pk' spec' hspec hspec' (hid.trans hid'.symm), henabled]
  · intro l hl
    exact (of_settle (List.mem_filter.mp hl).2).2
  · intro l hl m hm hsource hsubject
    obtain ⟨hlmatched, hsettle⟩ := List.mem_filter.mp hl
    obtain ⟨hmmatched, -⟩ := List.mem_filter.mp hm
    exact eq_of_claims hlmatched hmmatched hsource hsubject (of_settle hsettle).1
  · intro l hl
    obtain hseen | ⟨m, hm, hkey⟩ := exists_requested [] hl
    · cases hseen
    -- The first link of this key was refused, or settled with or without being carried.
    cases hrefusal : refusal applied accounts connections l with
    | some f =>
      have hmem := List.mem_filterMap.mpr ⟨m, hm, (refusal_congr hkey).trans hrefusal⟩
      exact .inr ⟨f, by simp only [List.mem_append, hmem, or_true, true_or],
        blocks_of_refusal hrefusal, .inl hrefusal⟩
    | none =>
      have hmatched : m ∈ matchedLinks applied accounts connections input.sourceLinks :=
        List.mem_filter.mpr ⟨hm, decide_eq_true ((refusal_congr hkey).trans hrefusal)⟩
      by_cases hsettle :
          (settle applied (matchedLinks applied accounts connections input.sourceLinks) l).1 = true
      · have hsame : m = l := by
          by_contra hne
          exact hissuer l hl m (requested_subset _ _ hm) hkey
            (fun heq => hne (LinkSpec.eq_of_key hkey heq)) ⟨hrefusal, hsettle⟩
        subst hsame
        exact .inl (List.mem_filter.mpr ⟨hmatched, hsettle⟩)
      · have hfalse := Bool.eq_false_of_not_eq_true hsettle
        refine .inr ⟨_, ?_, blocks_of_settle hfalse, .inr (Prod.ext hfalse rfl)⟩
        apply List.mem_append_left
        apply List.mem_append_right
        exact List.mem_map.mpr ⟨m, hmatched, congrArg Prod.snd (settle_congr hkey)⟩
  · intro c hc howner
    obtain hcarried | ⟨f, hf, hblocking⟩ := account_spec howner
    · exact .inl hcarried
    · have hmem := List.mem_filterMap.mpr ⟨c, hc, hf⟩
      exact .inr ⟨f, List.mem_append_right _ hmem, hf, hblocking⟩

end

/-- A link of the one connected account, to the upstream identity `subject`. -/
def sampleLink (subject : String) (issuer : Option Text) : LinkSpec :=
  ⟨"corp".toList, "ann".toList, subject.toList, issuer⟩

/-- One connection, of the account and the first source below. -/
def sampleImport (links : List LinkSpec) : Import where
  sourceLinks := links
  userSourceConnections := some (.arr [.obj [("user".toList, .int 1), ("source".toList, .int 7),
    ("identifier".toList, .str "s1".toList)]])

def sampleUsers : List Json :=
  [.obj [("pk".toList, .int 1), ("username".toList, .str "ann".toList)]]

/-- Two exported sources are replaced by one riAuth source. -/
def sampleApplied : OrdMap Text Source :=
  OrdMap.ofList [("7".toList, ⟨"corp".toList, true, true⟩), ("8".toList, ⟨"corp".toList, true, true⟩)]

def sampleConnection : Connection := ⟨"ann".toList, "7".toList, "s1".toList⟩

theorem sampleImport_read (links : List LinkSpec) :
    readConnections (sampleImport links) sampleUsers ["7".toList, "8".toList] =
      .ok (some [sampleConnection]) := by
  change readConnections (sampleImport []) sampleUsers ["7".toList, "8".toList] = _
  decide

/-- What comes of the links in the sample. -/
def sampleResult (links : List LinkSpec) : Result (List Finding × List LinkSpec) :=
  verifyLinks [] (sampleImport links) sampleUsers ["ann".toList] sampleApplied
    ["7".toList, "8".toList]

/-- The link that is carried is told. -/
def sampleFinding : Finding := (settle sampleApplied [sampleLink "s1" none] (sampleLink "s1" none)).2

/-- A link that is asked for twice, and two issuers for an identity that the export does not
show. -/
def sampleLinks : List LinkSpec :=
  [sampleLink "s1" none, sampleLink "s1" none, sampleLink "s2" none,
    sampleLink "s2" (some "other".toList)]

theorem links_accounted_iff_sample :
    ∃ findings, sampleResult sampleLinks = .ok (findings, [sampleLink "s1" none]) ∧
      Accounted sampleApplied ["ann".toList] (some [sampleConnection]) sampleLinks findings
        [sampleLink "s1" none] := by
  have hresult : ∃ findings, sampleResult sampleLinks = .ok (findings, [sampleLink "s1" none]) := by
    unfold sampleResult verifyLinks
    rw [sampleImport_read]
    exact ⟨_, rfl⟩
  obtain ⟨findings, hresult⟩ := hresult
  obtain ⟨connections, hread, hiff⟩ := links_accounted_iff _ _ _ _ _ _ _ _ hresult
  cases (sampleImport_read sampleLinks).symm.trans hread
  refine ⟨findings, hresult, hiff.mpr ?_⟩
  unfold OneIssuer Established
  decide

/-- A second link that differs only in its issuer is left out without a finding. -/
theorem second_issuer_left_out :
    sampleResult [sampleLink "s1" none, sampleLink "s1" (some "other".toList)] =
        .ok ([sampleFinding], [sampleLink "s1" none]) ∧
      sampleLink "s1" (some "other".toList) ∉ [sampleLink "s1" none] ∧
      sampleFinding.blocking = false := by
  refine ⟨?_, by decide, by decide⟩
  unfold sampleResult verifyLinks
  rw [sampleImport_read]
  decide

end RiAuth.Migration
