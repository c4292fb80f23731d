import RiAuth.Audit.ChangeRecords

/-!
# Change records never reveal credentials

Two transactions write the same records, except for what is in credential fields. Their change logs,
and what an audit event holds of them, are the same up to the markers and the two booleans of the
views that say whether a credential is set. Where both agree on that too, they are the same.

* `Alike`: two changes that agree off the credentials and on which of them changed;
* `AlikeSet`: moreover, they agree on which credentials are set;
* `recordChange_unmark`, `recordChange_eq`: one change;
* `changes_undisclosed`: all changes of a transaction.
-/

namespace RiAuth.Audit

/-! ## What two transactions share -/

/-- All secrets of a user blanked. -/
def User.withoutCredentials (u : User) : User :=
  { u with passwordHash := [], totpSecret := none, totpPending := none, recoveryCodes := [],
           pairwiseSeed := [] }

/-- The secret of a client blanked. -/
def Client.withoutCredentials (c : Client) : Client := { c with secretHash := none }

/-- The token of an agent blanked. -/
def Agent.withoutCredentials (a : Agent) : Agent := { a with tokenHash := [] }

/-- The records agree except in credential fields. Where a bucket names none, these are the fields
with sensitive names, at any depth. -/
def Bucket.Agree : (b : Bucket) → b.Row → b.Row → Prop
  | users, u, u' => User.withoutCredentials u = User.withoutCredentials u'
  | clients, c, c' => Client.withoutCredentials c = Client.withoutCredentials c'
  | agents, a, a' => Agent.withoutCredentials a = Agent.withoutCredentials a'
  | groups, v, v' | sources, v, v' | windowsDevices, v, v' | other _, v, v' => Audit.Agree v v'
  | sourceSecrets, _, _ => True

/-- Whether the field has a value, and whether there is something in it. -/
def presence (b : Bucket) (row : Option b.Row) (field : Text) : Bool × Bool :=
  ((row.bind fun r => (b.raw r).get? field).getD .null ≠ .null, (material b row field).isSome)

/-- The changes agree except in credential fields, and on whether each of them changed. -/
inductive Alike : Change → Change → Prop
  | intro {b : Bucket} {key : Text} {before before' after after' : Option b.Row} :
    Option.Rel b.Agree before before' → Option.Rel b.Agree after after' →
    (∀ f ∈ credentialFields b, material b before f.1 = material b after f.1 ↔
      material b before' f.1 = material b after' f.1) →
    Alike ⟨b, key, before, after⟩ ⟨b, key, before', after'⟩

/-- The changes agree on which credential fields are set. -/
inductive AlikeSet : Change → Change → Prop
  | intro {b : Bucket} {key : Text} {before before' after after' : Option b.Row} :
    (∀ f ∈ credentialFields b, presence b before f.1 = presence b before' f.1 ∧
      presence b after f.1 = presence b after' f.1) →
    AlikeSet ⟨b, key, before, after⟩ ⟨b, key, before', after'⟩

/-- The markers of a change entry. -/
def markers : List Text :=
  (credentialFields .users ++ credentialFields .clients ++ credentialFields .agents).map Prod.snd

/-- The booleans of the views that say whether a credential is set. -/
def setFlags : List Text := ["mfa_enabled".toList, "confidential".toList]

/-- An entry without the named fields of its views. -/
def Entry.without (names : List Text) (e : Entry) : Entry :=
  { e with before := strip names e.before, after := strip names e.after }

/-- An entry without markers, and without the booleans. -/
def Entry.unmark (e : Entry) : Entry := e.without (markers ++ setFlags)

/-! ## Views -/

/-- The fields of a view stand in the order of their names. -/
theorem sorted_object (names : List String) {fields : List (String × Json)}
    (hnames : fields.map Prod.fst = names) (h : (names.map String.toList).Pairwise (· < ·)) :
    Sorted (object fields) := by
  rw [← hnames, List.map_map] at h
  exact List.pairwise_map.mpr (List.pairwise_map.mp h)

variable {b : Bucket} {names : List Text}

/-- A bucket with credential fields has sorted views. -/
theorem sorted_publicRecord (h : credentialFields b ≠ []) (row : Option b.Row) :
    Sorted (publicRecord b row) := by
  cases row with
  | none => exact .nil
  | some r =>
    cases b with
    | users => exact sorted_object ["admin", "attributes", "created_at", "display_name", "email",
        "email_verified", "enabled", "id", "mfa_enabled", "password_available", "subjects",
        "username"] rfl (by decide)
    | clients => exact sorted_object ["allowed_groups", "client_id", "confidential", "enabled",
        "name", "redirect_uris", "require_mfa", "scopes", "service", "settings"] rfl (by decide)
    | agents => exact sorted_object ["authorized_by", "created_at", "enabled", "expires_at", "id",
        "parent_user", "permissions"] rfl (by decide)
    | _ => exact absurd rfl h

/-- What the view of a user shows, with its two booleans. -/
def User.shown (u : User) (mfa password : Bool) : List (Text × Json) :=
  [("admin".toList, .bool u.admin), ("attributes".toList, .obj u.attributes),
    ("created_at".toList, number u.createdAt), ("display_name".toList, text u.displayName),
    ("email".toList, optional u.email), ("email_verified".toList, .bool u.emailVerified),
    ("enabled".toList, .bool u.enabled), ("id".toList, text u.id),
    ("mfa_enabled".toList, .bool mfa), ("password_available".toList, .bool password),
    ("subjects".toList, .obj (u.subjects.map fun s => (s.1, text s.2))),
    ("username".toList, text u.username)]

theorem User.view_eq (u : User) :
    u.view = .obj (u.withoutCredentials.shown (u.totpSecret.isSome || u.hasPasskeys)
      (u.passwordHash ≠ [])) := rfl

/-- The boolean about the password has a sensitive name. -/
theorem agree_passwordAvailable (a b : Bool) (fields : List (Text × Json)) :
    AgreeFields (("password_available".toList, .bool a) :: fields)
      (("password_available".toList, .bool b) :: fields) := by
  refine ⟨rfl, ?_, AgreeFields.refl fields⟩
  rw [if_pos (by decide)]
  exact .inr ⟨rfl, rfl⟩

theorem User.shown_agree (u : User) (mfa a b : Bool) :
    Audit.Agree (.obj (u.shown mfa a)) (.obj (u.shown mfa b)) := by
  unfold User.shown Audit.Agree
  iterate 9 refine AgreeFields.cons _ ?_
  exact agree_passwordAvailable a b _

theorem User.strip_shown (u : User) (mfa password : Bool) :
    strip (markers ++ setFlags) (.obj (u.shown mfa password)) =
      strip (markers ++ setFlags) (.obj (u.shown false password)) := rfl

/-- What the view of a client shows, with its boolean. -/
def Client.shown (c : Client) (confidential : Bool) : List (Text × Json) :=
  [("allowed_groups".toList, texts c.allowedGroups), ("client_id".toList, text c.id),
    ("confidential".toList, .bool confidential), ("enabled".toList, .bool c.enabled),
    ("name".toList, text c.name), ("redirect_uris".toList, texts c.redirectUris),
    ("require_mfa".toList, .bool c.requireMfa), ("scopes".toList, texts c.scopes),
    ("service".toList, .bool c.service), ("settings".toList, c.settings)]

theorem Client.view_eq (c : Client) :
    c.view = .obj (c.withoutCredentials.shown c.confidential) := rfl

theorem Client.strip_shown (c : Client) (confidential : Bool) :
    strip (markers ++ setFlags) (.obj (c.shown confidential)) =
      strip (markers ++ setFlags) (.obj (c.shown false)) := rfl

section

variable {u u' : User} {c c' : Client} {a a' : Agent}

theorem User.strip_redact (h : u.withoutCredentials = u'.withoutCredentials) :
    strip (markers ++ setFlags) (redactAuditValue u.view) =
      strip (markers ++ setFlags) (redactAuditValue u'.view) := by
  unfold redactAuditValue
  rw [User.view_eq, User.view_eq u', h, ← redactAt_strip, User.strip_shown, redactAt_strip,
    redactAt_of_agree 0 _ _ (User.shown_agree _ _ _ _), ← redactAt_strip, ← User.strip_shown,
    redactAt_strip]

theorem User.redact_eq (h : u.withoutCredentials = u'.withoutCredentials)
    (hset : u.totpSecret.isSome = u'.totpSecret.isSome) :
    redactAuditValue u.view = redactAuditValue u'.view := by
  have hpasskeys := congrArg User.hasPasskeys h
  change u.hasPasskeys = u'.hasPasskeys at hpasskeys
  unfold redactAuditValue
  rw [User.view_eq, User.view_eq u', h, hset, hpasskeys]
  exact redactAt_of_agree 0 _ _ (User.shown_agree _ _ _ _)

theorem Client.strip_redact (h : c.withoutCredentials = c'.withoutCredentials) :
    strip (markers ++ setFlags) (redactAuditValue c.view) =
      strip (markers ++ setFlags) (redactAuditValue c'.view) := by
  unfold redactAuditValue
  rw [Client.view_eq, Client.view_eq c', h, ← redactAt_strip, Client.strip_shown,
    ← Client.strip_shown _ c'.confidential, redactAt_strip]

theorem Client.redact_eq (h : c.withoutCredentials = c'.withoutCredentials)
    (hset : c.secretHash.isSome = c'.secretHash.isSome) :
    redactAuditValue c.view = redactAuditValue c'.view := by
  have hsettings := congrArg Client.settings h
  change c.settings = c'.settings at hsettings
  have hconfidential : c.confidential = c'.confidential := by
    unfold Client.confidential
    rw [hset, hsettings]
  rw [Client.view_eq, Client.view_eq c', h, hconfidential]

theorem Agent.redact_eq (h : a.withoutCredentials = a'.withoutCredentials) :
    redactAuditValue a.view = redactAuditValue a'.view := by
  have hview : a.withoutCredentials.view = a'.withoutCredentials.view := congrArg Agent.view h
  exact congrArg redactAuditValue hview

end

/-- Records that agree are shown alike, apart from the booleans. -/
theorem strip_redact_view (hb : b ≠ .sourceSecrets) {r r' : b.Row} (h : b.Agree r r') :
    strip (markers ++ setFlags) (redactAuditValue (b.view r)) =
      strip (markers ++ setFlags) (redactAuditValue (b.view r')) := by
  cases b with
  | users => exact User.strip_redact h
  | clients => exact Client.strip_redact h
  | agents => exact congrArg _ (Agent.redact_eq h)
  | sourceSecrets => exact absurd rfl hb
  | _ => exact congrArg _ (redactAt_of_agree 0 _ _ h)

/-- What a user holds in the credential fields. -/
theorem User.get?_credentials (u : User) :
    u.json.get? "password_hash".toList = some (text u.passwordHash) ∧
      u.json.get? "totp_secret".toList = some (optional u.totpSecret) ∧
      u.json.get? "totp_pending".toList =
        some (u.totpPending.elim .null fun p => .arr [text p.1, number p.2]) ∧
      u.json.get? "recovery_codes".toList = some (texts u.recoveryCodes) ∧
      u.json.get? "pairwise_seed".toList = some (text u.pairwiseSeed) := by
  unfold User.json
  refine ⟨?_, ?_, ?_, ?_, ?_⟩ <;>
    simp (disch := simp) only [get?_object_of_ne, get?_object_self]

theorem User.presence_totp (u : User) :
    (presence .users (some u) "totp_secret".toList).1 = u.totpSecret.isSome := by
  change decide ((u.json.get? _).getD .null ≠ .null) = _
  rw [u.get?_credentials.2.1]
  cases u.totpSecret <;> rfl

theorem Client.presence_secret (c : Client) :
    (presence .clients (some c) "secret_hash".toList).1 = c.secretHash.isSome := by
  have hget : c.json.get? "secret_hash".toList = some (optional c.secretHash) := by
    unfold Client.json
    simp (disch := simp) only [get?_object_of_ne, get?_object_self]
  change decide ((c.json.get? _).getD .null ≠ .null) = _
  rw [hget]
  cases c.secretHash <;> rfl

/-- Records that agree, also on which credentials are set, are shown alike. -/
theorem redact_view (hb : b ≠ .sourceSecrets) {r r' : b.Row} (h : b.Agree r r')
    (hset : ∀ f ∈ credentialFields b, presence b (some r) f.1 = presence b (some r') f.1) :
    redactAuditValue (b.view r) = redactAuditValue (b.view r') := by
  cases b with
  | users =>
    refine User.redact_eq h ?_
    have hpresence := congrArg Prod.fst (hset _ (.tail _ (.head _)))
    exact (User.presence_totp r).symm.trans (hpresence.trans (User.presence_totp r'))
  | clients =>
    refine Client.redact_eq h ?_
    have hpresence := congrArg Prod.fst (hset _ (.head _))
    exact (Client.presence_secret r).symm.trans (hpresence.trans (Client.presence_secret r'))
  | agents => exact Agent.redact_eq h
  | sourceSecrets => exact absurd rfl hb
  | _ => exact redactAt_of_agree 0 _ _ h

/-! ## Markers -/

/-- The marks of one field read only whether it is set and whether it changed. -/
theorem markCredential_congr (label : Text) {l r l' r' : Option Json} (s : Marked)
    (hl : l.isSome = l'.isSome) (hr : r.isSome = r'.isSome) (h : l = r ↔ l' = r') :
    markCredential label l r s = markCredential label l' r' s := by
  have hnone : l = none ∧ r = none ↔ l' = none ∧ r' = none := by
    simp only [← Option.isNone_iff_eq_none, ← Option.not_isSome, hl, hr]
  unfold markCredential
  simp only [hnone, h, hl, hr]

/-- A stamp does not show without its label. -/
theorem strip_stampCredential {label : Text} (h : label ∈ names) {v : Json} (hv : Sorted v)
    (marker : Text) : strip names (stampCredential v label marker) = strip names v := by
  cases v with
  | obj fields => exact strip_setField h hv _
  | _ => rfl

theorem Sorted.stampCredential {v : Json} (hv : Sorted v) (label marker : Text) :
    Sorted (stampCredential v label marker) := by
  cases v with
  | obj fields => exact hv.setField _ _
  | _ => exact hv

/-- What the marks of one field leave behind. -/
theorem markCredential_strip {label : Text} (h : label ∈ names) (l r : Option Json) {s : Marked}
    (hs : Sorted s.1 ∧ Sorted s.2.1) :
    (Sorted (markCredential label l r s).1 ∧ Sorted (markCredential label l r s).2.1) ∧
      strip names (markCredential label l r s).1 = strip names s.1 ∧
      strip names (markCredential label l r s).2.1 = strip names s.2.1 ∧
      (markCredential label l r s).2.2 = s.2.2 ++ if l = r then [] else [label] := by
  obtain ⟨hbefore, hafter⟩ := hs
  unfold markCredential
  by_cases hnone : l = none ∧ r = none
  · rw [if_pos hnone, if_pos (hnone.1.trans hnone.2.symm), List.append_nil]
    exact ⟨⟨hbefore, hafter⟩, rfl, rfl, rfl⟩
  · by_cases heq : l = r
    · rw [if_neg hnone, if_pos heq, if_pos heq, List.append_nil]
      exact ⟨⟨hbefore.stampCredential _ _, hafter.stampCredential _ _⟩,
        strip_stampCredential h hbefore _, strip_stampCredential h hafter _, rfl⟩
    · rw [if_neg hnone, if_neg heq, if_neg heq]
      refine ⟨⟨?_, ?_⟩, ?_, ?_, rfl⟩
      · dsimp only
        split
        · exact hbefore.stampCredential _ _
        · exact hbefore
      · dsimp only
        split
        · exact hafter.stampCredential _ _
        · exact hafter
      · dsimp only
        split
        · exact strip_stampCredential h hbefore _
        · rfl
      · dsimp only
        split
        · exact strip_stampCredential h hafter _
        · rfl

/-- The labels of the credentials that changed. -/
def changedLabels (b : Bucket) (before after : Option b.Row) : List Text :=
  (credentialFields b).flatMap fun f =>
    if material b before f.1 = material b after f.1 then [] else [f.2]

/-- What the marks of all fields leave behind. -/
theorem credentialMarkers_strip (hnames : ∀ f ∈ credentialFields b, f.2 ∈ names)
    (before after : Option b.Row) {views : Json × Json}
    (hviews : credentialFields b ≠ [] → Sorted views.1 ∧ Sorted views.2) :
    strip names (credentialMarkers b before after views).1 = strip names views.1 ∧
      strip names (credentialMarkers b before after views).2.1 = strip names views.2 ∧
      (credentialMarkers b before after views).2.2 = changedLabels b before after := by
  -- Over the fields still to come, from any views and labels.
  have hfold : ∀ (fields : List (Text × Text)) (s : Marked), (∀ f ∈ fields, f.2 ∈ names) →
      (fields ≠ [] → Sorted s.1 ∧ Sorted s.2.1) →
      let t := fields.foldl
        (fun s f => markCredential f.2 (material b before f.1) (material b after f.1) s) s
      strip names t.1 = strip names s.1 ∧ strip names t.2.1 = strip names s.2.1 ∧
        t.2.2 = s.2.2 ++ fields.flatMap fun f =>
          if material b before f.1 = material b after f.1 then [] else [f.2] := by
    intro fields
    induction fields with
    | nil => intro s _ _; simp
    | cons f fields ih =>
      intro s hin hs
      obtain ⟨hsorted, hbefore, hafter, hlabels⟩ := markCredential_strip
        (hin f List.mem_cons_self) (material b before f.1) (material b after f.1)
        (hs (List.cons_ne_nil _ _))
      obtain ⟨hb, ha, hl⟩ := ih (markCredential f.2 (material b before f.1) (material b after f.1) s)
        (fun g hg => hin g (List.mem_cons_of_mem f hg)) fun _ => hsorted
      refine ⟨hb.trans hbefore, ha.trans hafter, ?_⟩
      rw [List.foldl_cons, hl, hlabels, List.flatMap_cons, List.append_assoc]
  exact hfold (credentialFields b) (views.1, views.2, []) hnames hviews

/-- The marks read only which fields are set and which changed. -/
theorem credentialMarkers_congr {before before' after after' : Option b.Row}
    (hset : ∀ f ∈ credentialFields b, presence b before f.1 = presence b before' f.1 ∧
      presence b after f.1 = presence b after' f.1)
    (hchanged : ∀ f ∈ credentialFields b, material b before f.1 = material b after f.1 ↔
      material b before' f.1 = material b after' f.1) (views : Json × Json) :
    credentialMarkers b before after views = credentialMarkers b before' after' views := by
  unfold credentialMarkers
  refine List.foldl_ext _ _ _ fun s f hf => ?_
  obtain ⟨hbefore, hafter⟩ := hset f hf
  exact markCredential_congr f.2 s (congrArg Prod.snd hbefore) (congrArg Prod.snd hafter)
    (hchanged f hf)

theorem label_mem_markers (b : Bucket) : ∀ f ∈ credentialFields b, f.2 ∈ markers ++ setFlags := by
  cases b with
  | users => decide
  | clients => decide
  | agents => decide
  | _ => exact fun f hf => (nomatch hf)

/-! ## One change -/

/-- An amended entry, without markers. -/
theorem Entry.unmark_amend (name : Text) (existing : Option Entry) (m : Marked) :
    (Entry.amend name existing m).unmark = Entry.amend name (existing.map Entry.unmark)
      (strip (markers ++ setFlags) m.1, strip (markers ++ setFlags) m.2.1, m.2.2) := by
  cases existing <;> rfl

/-- The views of a change, without markers, and the labels of what changed. -/
theorem Change.marked_strip (key : Text) (before after : Option b.Row) :
    let m := (Change.mk b key before after).marked
    strip (markers ++ setFlags) m.1 =
        strip (markers ++ setFlags) (redactAuditValue (publicRecord b before)) ∧
      strip (markers ++ setFlags) m.2.1 =
        strip (markers ++ setFlags) (redactAuditValue (publicRecord b after)) ∧
      m.2.2 = changedLabels b before after :=
  credentialMarkers_strip (label_mem_markers b) before after fun h =>
    ⟨(sorted_publicRecord h before).redactAt 0, (sorted_publicRecord h after).redactAt 0⟩

theorem strip_publicRecord (hb : b ≠ .sourceSecrets) {row row' : Option b.Row}
    (h : Option.Rel b.Agree row row') :
    strip (markers ++ setFlags) (redactAuditValue (publicRecord b row)) =
      strip (markers ++ setFlags) (redactAuditValue (publicRecord b row')) := by
  cases h with
  | some hr => exact strip_redact_view hb hr
  | none => rfl

theorem redact_publicRecord (hb : b ≠ .sourceSecrets) {row row' : Option b.Row}
    (h : Option.Rel b.Agree row row')
    (hset : ∀ f ∈ credentialFields b, presence b row f.1 = presence b row' f.1) :
    redactAuditValue (publicRecord b row) = redactAuditValue (publicRecord b row') := by
  cases h with
  | some hr => exact redact_view hb hr hset
  | none => rfl

theorem changedLabels_congr {before before' after after' : Option b.Row}
    (h : ∀ f ∈ credentialFields b, material b before f.1 = material b after f.1 ↔
      material b before' f.1 = material b after' f.1) :
    changedLabels b before after = changedLabels b before' after' := by
  unfold changedLabels
  refine List.flatMap_congr fun f hf => ?_
  simp only [h f hf]

theorem isSome_of_rel {α : Type} {R : α → α → Prop} {o o' : Option α} (h : Option.Rel R o o') :
    o.isSome = o'.isSome := by
  cases h <;> rfl

/-- How a change is recorded: a secret by its existence, other buckets not at all, and the rest
with an entry. -/
theorem recordChange_cases (b : Bucket) :
    (b = .sourceSecrets ∨ (∃ name, b = .other name) ∨ b ≠ .sourceSecrets ∧
      ∀ (log : Log) (key : Text) (before after : Option b.Row),
        recordChange log ⟨b, key, before, after⟩ =
          log.insert (Store.recordKey b.name key) (Entry.amend (Store.recordKey b.name key)
            (log.get? (Store.recordKey b.name key)) (Change.mk b key before after).marked)) := by
  cases b with
  | sourceSecrets => exact .inl rfl
  | other name => exact .inr (.inl ⟨name, rfl⟩)
  | _ => exact .inr (.inr ⟨nofun, fun _ _ _ _ => rfl⟩)

theorem recordRedactedSecret_unmark (log : Log) (key : Text) (existed hasAfter : Bool) :
    (recordRedactedSecret log key existed hasAfter).map Entry.unmark =
      recordRedactedSecret (log.map Entry.unmark) key existed hasAfter := by
  unfold recordRedactedSecret
  split
  · rfl
  · dsimp only
    rw [OrdMap.map_insert, OrdMap.get?_map]
    congr 1
    cases log.get? (Store.recordKey Bucket.sourceSecrets.name key) <;>
      cases existed <;> cases hasAfter <;> rfl

/-- **Changes that agree off the credentials leave the same log, up to markers and booleans.** -/
theorem recordChange_unmark {c c' : Change} (h : Alike c c') {log log' : Log}
    (hlog : log.map Entry.unmark = log'.map Entry.unmark) :
    (recordChange log c).map Entry.unmark = (recordChange log' c').map Entry.unmark := by
  obtain ⟨hbefore, hafter, hchanged⟩ := h
  rename_i b key before before' after after'
  obtain rfl | ⟨name, rfl⟩ | ⟨hb, hrecord⟩ := recordChange_cases b
  · change (recordRedactedSecret log key _ _).map _ = (recordRedactedSecret log' key _ _).map _
    rw [recordRedactedSecret_unmark, recordRedactedSecret_unmark, hlog, isSome_of_rel hbefore,
      isSome_of_rel hafter]
  · exact hlog
  · obtain ⟨hb₁, ha₁, hl₁⟩ := Change.marked_strip key before after
    obtain ⟨hb₂, ha₂, hl₂⟩ := Change.marked_strip key before' after'
    have hget := congrArg (fun l => l.get? (Store.recordKey b.name key)) hlog
    simp only [OrdMap.get?_map] at hget
    rw [hrecord, hrecord, OrdMap.map_insert, OrdMap.map_insert, Entry.unmark_amend,
      Entry.unmark_amend, hlog, hget, hb₁, ha₁, hl₁, hb₂, ha₂, hl₂,
      strip_publicRecord hb hbefore, strip_publicRecord hb hafter, changedLabels_congr hchanged]

/-- **Changes that agree on which credentials are set, too, leave the same log.** -/
theorem recordChange_eq {c c' : Change} (h : Alike c c') (hset : AlikeSet c c') (log : Log) :
    recordChange log c = recordChange log c' := by
  obtain ⟨hbefore, hafter, hchanged⟩ := h
  rename_i b key before before' after after'
  obtain ⟨hset⟩ := hset
  obtain rfl | ⟨name, rfl⟩ | ⟨hb, hrecord⟩ := recordChange_cases b
  · change recordRedactedSecret log key _ _ = recordRedactedSecret log key _ _
    rw [isSome_of_rel hbefore, isSome_of_rel hafter]
  · rfl
  · have hmarked : (Change.mk b key before after).marked =
        (Change.mk b key before' after').marked := by
      unfold Change.marked
      dsimp only
      rw [credentialMarkers_congr hset hchanged,
        redact_publicRecord hb hbefore fun f hf => (hset f hf).1,
        redact_publicRecord hb hafter fun f hf => (hset f hf).2]
    rw [hrecord, hrecord, hmarked]

/-! ## All changes of a transaction -/

theorem Entry.unmark_audited (e : Entry) : e.audited.unmark = e.unmark.audited := by
  simp only [Entry.unmark, Entry.without, Entry.audited, redactAt_strip]

theorem audited_unmark {log log' : Log} (h : log.map Entry.unmark = log'.map Entry.unmark) :
    (audited log).map Entry.unmark = (audited log').map Entry.unmark := by
  refine OrdMap.ext_get? fun name => ?_
  have hget := congrArg (fun l => (l.get? name).map Entry.audited) h
  simp only [audited, OrdMap.get?_map, Option.map_map, Function.comp_def,
    Entry.unmark_audited] at hget ⊢
  exact hget

/-- **Change records never reveal credentials.** Two transactions whose changes agree except in
credential fields, and on which of these changed, leave the same change log and the same audit
entries, up to the markers and the booleans that say whether a credential is set. If they agree on
that as well, the logs are the same. -/
theorem changes_undisclosed {changes changes' : List Change}
    (h : List.Forall₂ Alike changes changes') (log : Log) :
    ((changes.foldl recordChange log).map Entry.unmark =
        (changes'.foldl recordChange log).map Entry.unmark ∧
      (audited (changes.foldl recordChange log)).map Entry.unmark =
        (audited (changes'.foldl recordChange log)).map Entry.unmark) ∧
    (List.Forall₂ AlikeSet changes changes' →
      changes.foldl recordChange log = changes'.foldl recordChange log) := by
  have hunmark : ∀ log log' : Log, log.map Entry.unmark = log'.map Entry.unmark →
      (changes.foldl recordChange log).map Entry.unmark =
        (changes'.foldl recordChange log').map Entry.unmark := by
    induction h with
    | nil => exact fun _ _ hlog => hlog
    | cons hc _ ih => exact fun log log' hlog => ih _ _ (recordChange_unmark hc hlog)
  refine ⟨⟨hunmark log log rfl, audited_unmark (hunmark log log rfl)⟩, fun hset => ?_⟩
  clear hunmark
  induction h generalizing log with
  | nil => rfl
  | cons hc _ ih =>
    obtain _ | ⟨hs, hset⟩ := hset
    rw [List.foldl_cons, List.foldl_cons, recordChange_eq hc hs log]
    exact ih _ hset

/-- A user without a second factor whose password hash is given. -/
def sample (passwordHash : Text) (totpSecret : Option Text) : User where
  id := "u1".toList
  username := "alice".toList
  email := none
  displayName := "Alice".toList
  passwordHash := passwordHash
  enabled := true
  admin := false
  hasPasskeys := false
  pairwiseSeed := []
  totpSecret := totpSecret
  totpPending := none
  createdAt := 0
  attributes := []
  emailVerified := false
  subjects := []
  recoveryCodes := []

theorem sample_agree (p p' : Text) (t t' : Option Text) :
    (sample p t).withoutCredentials = (sample p' t').withoutCredentials := rfl

/-- The user is written. -/
def sampleChange (before after : User) : Change :=
  ⟨.users, "u1".toList, some before, some after⟩

/-- The user gets a new password. -/
def newPassword (old new : Text) : Change := sampleChange (sample old none) (sample new none)

theorem mem_credentialFields_users {f : Text × Text} (hf : f ∈ credentialFields .users) :
    f.1 = "password_hash".toList ∨ f.1 = "totp_secret".toList ∨ f.1 = "totp_pending".toList ∨
      f.1 = "recovery_codes".toList ∨ f.1 = "pairwise_seed".toList := by
  simp only [credentialFields, List.mem_cons, List.not_mem_nil, or_false] at hf
  obtain rfl | rfl | rfl | rfl | rfl := hf <;> simp only [true_or, or_true]

/-- Two writes of the user agree if they agree on which of the two credentials changed. -/
theorem sample_alike {p q p' q' : Text} {t u t' u' : Option Text}
    (hpassword : credentialMaterial (some (text p)) = credentialMaterial (some (text q)) ↔
      credentialMaterial (some (text p')) = credentialMaterial (some (text q')))
    (htotp : credentialMaterial (some (optional t)) = credentialMaterial (some (optional u)) ↔
      credentialMaterial (some (optional t')) = credentialMaterial (some (optional u'))) :
    Alike (sampleChange (sample p t) (sample q u)) (sampleChange (sample p' t') (sample q' u')) := by
  refine .intro (.some (sample_agree ..)) (.some (sample_agree ..)) fun f hf => ?_
  change credentialMaterial ((sample p t).json.get? _) =
    credentialMaterial ((sample q u).json.get? _) ↔
    credentialMaterial ((sample p' t').json.get? _) = credentialMaterial ((sample q' u').json.get? _)
  obtain hf | hf | hf | hf | hf := mem_credentialFields_users hf <;>
    simp only [hf, User.get?_credentials]
  · exact hpassword
  · exact htotp
  all_goals exact Iff.rfl

theorem newPassword_alike :
    Alike (newPassword "h1".toList "h2".toList) (newPassword "h3".toList "h4".toList) :=
  sample_alike (by decide) Iff.rfl

theorem newPassword_alikeSet :
    AlikeSet (newPassword "h1".toList "h2".toList) (newPassword "h3".toList "h4".toList) := by
  have hpresence : ∀ p q : Text, p ≠ [] → q ≠ [] → ∀ f ∈ credentialFields .users,
      presence .users (some (sample p none)) f.1 = presence .users (some (sample q none)) f.1 := by
    intro p q hp hq f hf
    obtain ⟨a, p, rfl⟩ := List.exists_cons_of_ne_nil hp
    obtain ⟨b, q, rfl⟩ := List.exists_cons_of_ne_nil hq
    change (decide (((sample _ _).json.get? f.1).getD .null ≠ .null),
        (credentialMaterial ((sample _ _).json.get? f.1)).isSome) =
      (decide (((sample _ _).json.get? f.1).getD .null ≠ .null),
        (credentialMaterial ((sample _ _).json.get? f.1)).isSome)
    obtain hf | hf | hf | hf | hf := mem_credentialFields_users hf <;>
      · simp only [hf, User.get?_credentials]
        rfl
  exact .intro fun f hf =>
    ⟨hpresence _ _ (by decide) (by decide) f hf, hpresence _ _ (by decide) (by decide) f hf⟩

/-- A new password leaves the same log whatever the old and the new hash are. -/
theorem changes_undisclosed_password :
    [newPassword "h1".toList "h2".toList].foldl recordChange .empty =
      [newPassword "h3".toList "h4".toList].foldl recordChange .empty :=
  (changes_undisclosed (.cons newPassword_alike .nil) .empty).2 (.cons newPassword_alikeSet .nil)

/-- The first TOTP secret of a user and another one are both a change, but the view says whether
there was one before. -/
theorem recordChange_shows_set :
    Alike (sampleChange (sample [] none) (sample [] (some "s2".toList)))
        (sampleChange (sample [] (some "s1".toList)) (sample [] (some "s2".toList))) ∧
      (recordChange .empty
          (sampleChange (sample [] none) (sample [] (some "s2".toList)))).map
            (Entry.without markers) ≠
        (recordChange .empty
          (sampleChange (sample [] (some "s1".toList)) (sample [] (some "s2".toList)))).map
            (Entry.without markers) :=
  ⟨sample_alike Iff.rfl (by decide), by decide⟩

end RiAuth.Audit
