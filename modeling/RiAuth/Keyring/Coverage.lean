import RiAuth.Keyring.Rotation

/-!
# Published keys cover the live tokens

A token is covered while the key that signed it is active in some ring, or retired there for at
least as long as the token lasts. Replacing a key turns the first into the second, since the
retention window is longer than the longest lifetime.

* `Shown`: what is published, said without the order of the list;
* `Sound`: coverage, with what it needs;
* `Sound.setRing`: a ring whose active key is replaced keeps it.
-/

namespace RiAuth.Keyring

open Checks Workflow

variable {c : Crypto} {t t' : ℕ} {s s' : State}

/-! ## What is published -/

/-- A ring publishes a key. -/
def Keys.Shows (c : Crypto) (t : ℕ) (ring : Keys) (jwk : Jwk) : Prop :=
  ring.active.jwk c = .ok jwk ∨ ∃ k ∈ ring.retired, t < k.expiresAt ∧ k.jwk = jwk

/-- Some ring publishes a key. -/
def Shown (c : Crypto) (t : ℕ) (s : State) (jwk : Jwk) : Prop :=
  ∃ ring ∈ s.rings, ring.Shows c t jwk

variable {key : SigningKey} {jwk : Jwk} {ring : Keys} {w : World c} {full : String}
  {retired : List RetiredKey}

theorem SigningKey.jwk_kid (h : key.jwk c = .ok jwk) : jwk.kid = key.kid := by
  unfold SigningKey.jwk at h
  split at h
  · simp only [seq_ok, require_ok] at h
    obtain ⟨-, ⟨hkid, -, -⟩, h⟩ := h
    cases h
    exact hkid
  · obtain ⟨material, -, h⟩ := bind_ok.mp h
    cases h
    rfl

theorem Keys.mem_publicKeys {l : List Jwk} (h : ring.publicKeys c t = .ok l) :
    jwk ∈ l ↔ ring.Shows c t jwk := by
  obtain ⟨active, hactive, h⟩ := bind_ok.mp h
  cases h
  simp [Keys.Shows, hactive, and_assoc, eq_comm]

theorem mem_publicKeys {l : List Jwk} (h : publicKeys c t s = .ok l) :
    jwk ∈ l ↔ Shown c t s jwk := by
  obtain ⟨published, hpublished, h⟩ := bind_ok.mp h
  cases h
  rw [List.mem_flatten]
  constructor
  · rintro ⟨keys, hkeys, hjwk⟩
    obtain ⟨ring, hring, heq⟩ := exists_of_mem_mapM hpublished hkeys
    exact ⟨ring, hring, (Keys.mem_publicKeys heq).mp hjwk⟩
  · rintro ⟨ring, hring, hjwk⟩
    obtain ⟨i, hi⟩ := List.mem_iff_getElem?.mp hring
    obtain ⟨keys, hkeys, heq⟩ := mapM_ok_get hpublished hi
    exact ⟨keys, List.mem_of_getElem? hkeys, (Keys.mem_publicKeys heq).mpr hjwk⟩

/-- The list is there if every active key has a public part. -/
theorem publicKeys_of_active (h : ∀ ring ∈ s.rings, ∃ jwk, ring.active.jwk c = .ok jwk) :
    ∃ l, publicKeys c t s = .ok l := by
  obtain ⟨r, hr⟩ : ∃ r, s.rings.mapM (Keys.publicKeys c t) = .ok r := by
    refine exists_mapM_ok.mpr fun ring hring => ?_
    obtain ⟨jwk, hjwk⟩ := h ring hring
    exact ⟨_, bind_ok.mpr ⟨jwk, hjwk, rfl⟩⟩
  exact ⟨r.flatten, bind_ok.mpr ⟨r, hr, rfl⟩⟩

theorem Keys.Shows.earlier (h : ring.Shows c t' jwk) (htt' : t ≤ t') : ring.Shows c t jwk := by
  rcases h with h | ⟨k, hk, hlive, hjwk⟩
  · exact .inl h
  · exact .inr ⟨k, hk, by omega, hjwk⟩

/-! ## Rings of a state -/

theorem mem_rings : ring ∈ s.rings ↔ ring = s.primary ∨ ∃ id, s.domains.get? id = some ring := by
  simp only [State.rings, List.mem_cons, List.mem_map, Prod.exists, exists_eq_right,
    OrdMap.mem_entries_iff]

theorem mem_rings_of_ring? {id : Text} (h : s.ring? id = some ring) : ring ∈ s.rings := by
  unfold State.ring? at h
  split_ifs at h
  · exact mem_rings.mpr (.inl (Option.some.inj h).symm)
  · exact mem_rings.mpr (.inr ⟨id, h⟩)

theorem mem_setRing (s : State) (id : Text) (keys : Keys) : keys ∈ (s.setRing id keys).rings := by
  rw [mem_rings]
  unfold State.setRing
  split_ifs
  · exact .inl rfl
  · exact .inr ⟨id, by rw [OrdMap.get?_insert, if_pos rfl]⟩

theorem mem_rings_of_setRing {id : Text} {keys : Keys} (h : ring ∈ (s.setRing id keys).rings) :
    ring = keys ∨ ring ∈ s.rings := by
  rw [mem_rings] at h ⊢
  unfold State.setRing at h
  split_ifs at h
  · exact h.imp_right .inr
  · rcases h with h | ⟨other, h⟩
    · exact .inr (.inl h)
    · rcases OrdMap.get?_insert_cases h with ⟨-, h⟩ | ⟨-, h⟩
      · exact .inl h
      · exact .inr (.inr ⟨other, h⟩)

/-- A ring stays, unless it is the one that is replaced. -/
theorem mem_setRing_of_mem (id : Text) (keys : Keys) (h : ring ∈ s.rings) :
    s.ring? id = some ring ∨ ring ∈ (s.setRing id keys).rings := by
  rw [mem_rings] at h ⊢
  unfold State.setRing State.ring?
  split_ifs with hid
  · rcases h with rfl | h
    · exact .inl rfl
    · exact .inr (.inr h)
  · rcases h with h | ⟨other, h⟩
    · exact .inr (.inl h)
    · by_cases hother : other = id
      · exact .inl (hother ▸ h)
      · refine .inr (.inr ⟨other, ?_⟩)
        rw [OrdMap.get?_insert, if_neg hother]
        exact h

/-! ## Coverage -/

/-- A ring holds the key of a token, for as long as the token lasts. -/
def Keys.Covers (c : Crypto) (ring : Keys) (token : Token) : Prop :=
  ring.active = token.key ∨
    ∃ k ∈ ring.retired, token.key.jwk c = .ok k.jwk ∧ token.exp ≤ k.expiresAt

/-- What holds of the rings at time `t`. -/
structure Sound (c : Crypto) (t : ℕ) (s : State) : Prop where
  active : ∀ ring ∈ s.rings, ∃ jwk, ring.active.jwk c = .ok jwk
  retained : ∀ ring ∈ s.rings, ring.retired.length ≤ 32
  kids : ∀ jwk jwk', Shown c t s jwk → Shown c t s jwk' → jwk.kid = jwk'.kid → jwk = jwk'
  lifetimes : ∀ id client ttl, s.clients.get? id = some client →
    client.accessTokenTtl = some ttl → ttl ≤ 3600
  exps : ∀ token ∈ s.tokens, token.exp ≤ t + 3600
  covered : ∀ token ∈ s.tokens, t < token.exp → ∃ ring ∈ s.rings, ring.Covers c token

theorem Sound.later (h : Sound c t s) (htt' : t ≤ t') : Sound c t' s where
  active := h.active
  retained := h.retained
  kids := by
    rintro jwk jwk' ⟨ring, hring, hjwk⟩ ⟨ring', hring', hjwk'⟩
    exact h.kids jwk jwk' ⟨ring, hring, hjwk.earlier htt'⟩ ⟨ring', hring', hjwk'.earlier htt'⟩
  lifetimes := h.lifetimes
  exps token htoken := (h.exps token htoken).trans (by omega)
  covered token htoken hlive := h.covered token htoken (by omega)

/-- The key of a live token is published. -/
theorem Sound.shown (h : Sound c t s) {token : Token} (htoken : token ∈ s.tokens)
    (hlive : t < token.exp) : ∃ jwk, token.key.jwk c = .ok jwk ∧ Shown c t s jwk := by
  obtain ⟨ring, hring, hactive | ⟨k, hk, hjwk, hexp⟩⟩ := h.covered token htoken hlive
  · obtain ⟨jwk, hjwk⟩ := h.active ring hring
    exact ⟨jwk, hactive ▸ hjwk, ring, hring, .inl hjwk⟩
  · exact ⟨k.jwk, hjwk, ring, hring, .inr ⟨k, hk, by omega, rfl⟩⟩

/-! ## Replacing a key -/

theorem retire_length {existing : Option Keys} (h : w.retire t full existing = .ok retired) :
    retired.length ≤ 32 := by
  unfold World.retire at h
  simp only [seq_ok, require_ok] at h
  obtain ⟨hroom, h⟩ := h
  cases existing with
  | none =>
    cases h
    exact hroom.le
  | some previous =>
    obtain ⟨jwk, -, h⟩ := bind_ok.mp h
    cases h
    rw [List.length_append]
    exact hroom

/-- The retired keys of a ring that is replaced are keys that it showed. -/
theorem shows_of_retire {existing : Option Keys} (h : w.retire t full existing = .ok retired)
    {k : RetiredKey} (hk : k ∈ retired) :
    ∃ previous, existing = some previous ∧ previous.Shows c t k.jwk := by
  unfold World.retire at h
  simp only [seq_ok, require_ok] at h
  obtain ⟨-, h⟩ := h
  cases existing with
  | none =>
    cases h
    simp at hk
  | some previous =>
    obtain ⟨jwk, hjwk, h⟩ := bind_ok.mp h
    cases h
    refine ⟨previous, rfl, ?_⟩
    rcases List.mem_append.mp hk with hk | hk
    · obtain ⟨hk, hlive⟩ := List.mem_filter.mp hk
      exact .inr ⟨k, hk, of_decide_eq_true hlive, rfl⟩
    · rw [List.mem_singleton.mp hk]
      exact .inl hjwk

/-- What a replaced ring covered, its successor covers: the window outlasts every token. -/
theorem covers_of_retire {previous : Keys} (h : w.retire t full (some previous) = .ok retired)
    {token : Token} (hlive : t < token.exp) (hexp : token.exp ≤ t + 3600)
    (hcovers : previous.Covers c token) : Keys.Covers c ⟨key, retired⟩ token := by
  unfold World.retire at h
  simp only [seq_ok, require_ok] at h
  obtain ⟨-, h⟩ := h
  obtain ⟨jwk, hjwk, h⟩ := bind_ok.mp h
  cases h
  rcases hcovers with hactive | ⟨k, hk, hkey, hlasts⟩
  · refine .inr ⟨⟨jwk, w.retention t⟩, List.mem_append_right _ List.mem_cons_self, ?_, ?_⟩
    · exact hactive ▸ hjwk
    · have hwindow : t + 3720 ≤ w.retention t := le_max_right _ _
      simp only
      omega
  · refine .inr ⟨k, List.mem_append_left _ (List.mem_filter.mpr ⟨hk, ?_⟩), hkey, hlasts⟩
    exact decide_eq_true (by omega)

/-- A ring whose active key is replaced by one with a new id keeps the rings sound. -/
theorem Sound.setRing (h : Sound c t s) {id : Text} (hjwk : key.jwk c = .ok jwk)
    (hnew : ∀ other, Shown c t s other → other.kid ≠ key.kid)
    (hretire : w.retire t full (s.ring? id) = .ok retired) :
    Sound c t (s.setRing id ⟨key, retired⟩) := by
  -- nothing is shown afterwards but the new key and what was shown before
  have hshown : ∀ other, Shown c t (s.setRing id ⟨key, retired⟩) other →
      other = jwk ∨ Shown c t s other := by
    rintro other ⟨ring, hring, hother⟩
    rcases mem_rings_of_setRing hring with rfl | hring
    · rcases hother with hother | ⟨k, hk, -, rfl⟩
      · exact .inl (Except.ok.inj (hother.symm.trans hjwk))
      · obtain ⟨previous, hprevious, hshows⟩ := shows_of_retire hretire hk
        exact .inr ⟨previous, mem_rings_of_ring? hprevious, hshows⟩
    · exact .inr ⟨ring, hring, hother⟩
  have hkid := SigningKey.jwk_kid hjwk
  have hrest : (s.setRing id ⟨key, retired⟩).clients = s.clients ∧
      (s.setRing id ⟨key, retired⟩).tokens = s.tokens := by
    unfold State.setRing
    split_ifs <;> exact ⟨rfl, rfl⟩
  constructor
  · intro ring hring
    rcases mem_rings_of_setRing hring with rfl | hring
    · exact ⟨jwk, hjwk⟩
    · exact h.active ring hring
  · intro ring hring
    rcases mem_rings_of_setRing hring with rfl | hring
    · exact retire_length hretire
    · exact h.retained ring hring
  · intro a b ha hb hab
    rcases hshown a ha with rfl | ha' <;> rcases hshown b hb with rfl | hb'
    · rfl
    · exact absurd (hab.symm.trans hkid) (hnew b hb')
    · exact absurd (hab.trans hkid) (hnew a ha')
    · exact h.kids a b ha' hb' hab
  · rw [hrest.1]
    exact h.lifetimes
  · rw [hrest.2]
    exact h.exps
  · rw [hrest.2]
    intro token htoken hlive
    obtain ⟨ring, hring, hcovers⟩ := h.covered token htoken hlive
    rcases mem_setRing_of_mem id ⟨key, retired⟩ hring with hreplaced | hstays
    · rw [hreplaced] at hretire
      exact ⟨_, mem_setRing _ _ _, covers_of_retire hretire hlive (h.exps token htoken) hcovers⟩
    · exact ⟨ring, hstays, hcovers⟩

theorem Sound.configureSigningKey (h : Sound c t s) {input : KeyInput}
    (hdone : configureSigningKey w input t s = .ok s') : Sound c t s' := by
  unfold Keyring.configureSigningKey at hdone
  simp only [seq_ok, require_ok] at hdone
  obtain ⟨-, -, hdone⟩ := hdone
  obtain ⟨key, -, hdone⟩ := bind_ok.mp hdone
  obtain ⟨published, hpublished, hdone⟩ := bind_ok.mp hdone
  simp only [seq_ok, require_ok] at hdone
  obtain ⟨hnew, hdone⟩ := hdone
  obtain ⟨retired, hretire, hdone⟩ := bind_ok.mp hdone
  obtain ⟨jwk, hjwk, hdone⟩ := bind_ok.mp hdone
  cases hdone
  exact h.setRing hjwk (fun other hother => hnew other ((mem_publicKeys hpublished).mpr hother))
    hretire

theorem Sound.rotateSigningKey (h : Sound c t s) (hgenuine : (Op.rotate w).Genuine s)
    (hdone : rotateSigningKey w t s = .ok s') : Sound c t s' := by
  unfold Keyring.rotateSigningKey at hdone
  simp only [seq_ok, require_ok] at hdone
  obtain ⟨-, hdone⟩ := hdone
  obtain ⟨retired, hretire, hdone⟩ := bind_ok.mp hdone
  obtain ⟨key, hkey, hdone⟩ := bind_ok.mp hdone
  cases hdone
  obtain ⟨jwk, hjwk⟩ := w.generated _ _ hkey
  have hnew : ∀ other, Shown c t s other → other.kid ≠ key.kid := by
    rintro other ⟨ring, hring, hother⟩
    obtain ⟨hactive, hretired⟩ := hgenuine key hkey ring hring
    rcases hother with hother | ⟨k, hk, -, rfl⟩
    · rw [SigningKey.jwk_kid hother]
      exact hactive
    · exact hretired k hk
  have hprimary : s.ring? SIGNING = some s.primary := if_pos rfl
  exact h.setRing hjwk hnew (hprimary ▸ hretire)

/-! ## Clients and tokens -/

theorem Sound.setClient (h : Sound c t s) {id : Text} {client : Client}
    (hdone : setClient id client s = .ok s') : Sound c t s' := by
  unfold Keyring.setClient at hdone
  obtain ⟨-, -, hdone⟩ := bind_ok.mp hdone
  simp only [seq_ok, require_ok] at hdone
  obtain ⟨hrange, hdone⟩ := hdone
  cases hdone
  refine ⟨h.active, h.retained, h.kids, ?_, h.exps, h.covered⟩
  intro id' client' ttl hclient httl
  rcases OrdMap.get?_insert_cases hclient with ⟨-, rfl⟩ | ⟨-, hclient⟩
  · exact (hrange ttl httl).2
  · exact h.lifetimes id' client' ttl hclient httl

theorem mem_rings_of_forClient {client : Client} {keys : Keys} (h : forClient s client = .ok keys) :
    keys ∈ s.rings := by
  unfold forClient at h
  split at h
  · exact mem_rings.mpr (.inl (Except.ok.inj h).symm)
  · exact mem_rings_of_ring? (okOr_ok.mp h)

/-- New tokens are signed with the active key of a ring, and last an hour at most. -/
theorem Sound.issue (h : Sound c t s) {cfg : Config} {id : Text} {grantExpires : ℕ} {idToken : Bool}
    {admitted : Result Unit} (hdone : issue cfg id grantExpires idToken admitted t s = .ok s') :
    Sound c t s' := by
  unfold Keyring.issue at hdone
  obtain ⟨client, hclient, hdone⟩ := bind_ok.mp hdone
  obtain ⟨keys, hkeys, hdone⟩ := bind_ok.mp hdone
  obtain ⟨-, hdone⟩ := seq_ok.mp hdone
  cases hdone
  have httl : client.accessTokenTtl.getD cfg.accessTokenTtl ≤ 3600 := by
    obtain ⟨hclient, -⟩ := Option.filter_eq_some_iff.mp (okOr_ok.mp hclient)
    cases hown : client.accessTokenTtl with
    | none => exact cfg.valid.2
    | some ttl => exact h.lifetimes id client ttl hclient hown
  have htokens : ∀ token : Token,
      token ∈ (⟨keys.active, min (t + client.accessTokenTtl.getD cfg.accessTokenTtl) grantExpires⟩ ::
        (if idToken then [⟨keys.active,
          min (t + client.accessTokenTtl.getD cfg.accessTokenTtl) grantExpires⟩] else []) ++
        s.tokens : List Token) →
      (token.key = keys.active ∧ token.exp ≤ t + 3600) ∨ token ∈ s.tokens := by
    intro token htoken
    rcases List.mem_append.mp htoken with htoken | htoken
    · left
      have heq : token = ⟨keys.active,
          min (t + client.accessTokenTtl.getD cfg.accessTokenTtl) grantExpires⟩ := by
        cases idToken <;> simpa using htoken
      rw [heq]
      exact ⟨rfl, (min_le_left _ _).trans (by omega)⟩
    · exact .inr htoken
  refine ⟨h.active, h.retained, h.kids, h.lifetimes, ?_, ?_⟩
  · intro token htoken
    rcases htokens token htoken with ⟨-, hexp⟩ | htoken
    · exact hexp
    · exact h.exps token htoken
  · intro token htoken hlive
    rcases htokens token htoken with ⟨hkey, -⟩ | htoken
    · exact ⟨keys, mem_rings_of_forClient hkeys, .inl hkey.symm⟩
    · exact h.covered token htoken hlive

/-! ## Every history -/

theorem Sound.step {e : Event c} (h : Sound c e.at_ s) (hstep : Step s e s') :
    Sound c e.at_ s' := by
  obtain ⟨at_, op⟩ := e
  obtain ⟨hgenuine, hdone | ⟨-, -, rfl⟩⟩ := hstep
  · cases op with
    | issue => exact h.issue hdone
    | configure => exact h.configureSigningKey hdone
    | rotate => exact h.rotateSigningKey hgenuine hdone
    | setClient => exact h.setClient hdone
  · exact h

/-- A new installation: one key. -/
def initial (key : SigningKey) : State := ⟨⟨key, []⟩, OrdMap.empty, OrdMap.empty, []⟩

theorem sound_initial (hjwk : key.jwk c = .ok jwk) : Sound c t (initial key) := by
  have hrings : (initial key).rings = [⟨key, []⟩] := rfl
  constructor
  · simpa [hrings] using ⟨jwk, hjwk⟩
  · simp [hrings]
  · simp only [Shown, hrings, List.mem_singleton, exists_eq_left, Keys.Shows, List.not_mem_nil,
      false_and, exists_false, or_false]
    intro a b ha hb _
    exact Except.ok.inj (ha.symm.trans hb)
  · simp [initial]
  · simp [initial]
  · simp [initial]

/-- **Key rotation never orphans a live token.** At every time of every history, the keys are
published, among them the key of every token that has not expired; keys that are published under one
id are one key; and no ring retains more than 32. -/
theorem live_tokens_published {key : SigningKey} {jwk : Jwk} (hkey : key.jwk c = .ok jwk)
    {es : List (Event c)} {last : State} (hrun : History.Run Step (initial key) es last)
    (hordered : History.Ordered Event.at_ es) {now : ℕ} (hnow : ∀ e ∈ es, e.at_ ≤ now) :
    ∃ published, publicKeys c now last = .ok published ∧
      (∀ token ∈ last.tokens, now < token.exp →
        ∃ signer ∈ published, token.key.jwk c = .ok signer) ∧
      (∀ a ∈ published, ∀ b ∈ published, a.kid = b.kid → a = b) ∧
      ∀ ring ∈ last.rings, ring.retired.length ≤ 32 := by
  have hsound : Sound c now last :=
    hrun.invariant_timed (fun _ _ _ hle h => h.later hle) (fun _ _ _ _ hstep h => h.step hstep)
      hordered (fun e he => ⟨Nat.zero_le _, hnow e he⟩) (Nat.zero_le now) (sound_initial hkey)
  obtain ⟨published, hpublished⟩ := publicKeys_of_active hsound.active
  have hmem : ∀ a, a ∈ published ↔ Shown c now last a := fun a => mem_publicKeys hpublished
  refine ⟨published, hpublished, ?_, ?_, hsound.retained⟩
  · intro token htoken hlive
    obtain ⟨signer, hsigner, hshown⟩ := hsound.shown htoken hlive
    exact ⟨signer, (hmem signer).mpr hshown, hsigner⟩
  · intro a ha b hb
    exact hsound.kids a b ((hmem a).mp ha) ((hmem b).mp hb)

/-! ### A rotation while tokens are out -/

/-- A library in which a private key is its own public part. -/
def plainCrypto : Crypto := ⟨fun _ pem => .ok pem, fun _ => .ok ()⟩

def plainKey (kid : Text) : SigningKey := ⟨none, "RS256".toList, kid, kid, 0⟩

/-- An administrator, and a generator about to make one key. -/
def plainWorld (kid : Text) : World plainCrypto where
  authorized := true
  authorizedImport := false
  externalSigningKey _ := .error .forbidden
  importKey _ _ _ := .error .forbidden
  generateKey _ := .ok (plainKey kid)
  generated := by
    rintro algorithm key ⟨⟩
    exact ⟨_, rfl⟩
  rpSessions := []

/-- A client gets tokens from the primary ring, is moved to a domain, and the primary key
rotates. -/
def rotation : List (Event plainCrypto) :=
  [⟨100, .setClient "app".toList ⟨true, none, some 600⟩⟩,
    ⟨100, .issue ⟨900, by decide⟩ "app".toList 5000 true (.ok ())⟩,
    ⟨110, .configure (plainWorld "b".toList) ⟨none, "eu".toList, "RS256".toList, none, none⟩⟩,
    ⟨110, .setClient "app".toList ⟨true, some "eu".toList, none⟩⟩,
    ⟨120, .rotate (plainWorld "c".toList)⟩,
    ⟨130, .issue ⟨900, by decide⟩ "app".toList 5000 false (.ok ())⟩]

def rotated : State where
  primary := ⟨plainKey "c".toList, [⟨⟨"a".toList, "RS256".toList, "a".toList⟩, 3840⟩]⟩
  domains := OrdMap.empty.insert "eu".toList ⟨plainKey "b".toList, []⟩
  clients := (OrdMap.empty.insert "app".toList ⟨true, none, some 600⟩).insert "app".toList
    ⟨true, some "eu".toList, none⟩
  tokens := [⟨plainKey "b".toList, 1030⟩, ⟨plainKey "a".toList, 700⟩, ⟨plainKey "a".toList, 700⟩]

theorem rotation_run : History.Run Step (initial (plainKey "a".toList)) rotation rotated := by
  have hgenuine : ∀ clients tokens, (Op.rotate (plainWorld "c".toList)).Genuine
      ⟨⟨plainKey "a".toList, []⟩, OrdMap.empty.insert "eu".toList ⟨plainKey "b".toList, []⟩, clients,
        tokens⟩ := by
    rintro clients tokens key ⟨⟩
    have hfresh : ∀ ring ∈ [Keys.mk (plainKey "a".toList) [], Keys.mk (plainKey "b".toList) []],
        ring.active.kid ≠ "c".toList ∧ ∀ k ∈ ring.retired, k.jwk.kid ≠ "c".toList := by decide
    exact hfresh
  refine .cons ⟨trivial, .inl rfl⟩ (.cons ⟨trivial, .inl rfl⟩ (.cons ⟨trivial, .inl rfl⟩ ?_))
  exact .cons ⟨trivial, .inl rfl⟩ (.cons ⟨hgenuine _ _, .inl rfl⟩ (.cons ⟨trivial, .inl rfl⟩ .nil))

theorem live_tokens_published_rotated :
    History.Run Step (initial (plainKey "a".toList)) rotation rotated ∧
    ∃ published, publicKeys plainCrypto 150 rotated = .ok published ∧
      (∀ token ∈ rotated.tokens, 150 < token.exp →
        ∃ signer ∈ published, token.key.jwk plainCrypto = .ok signer) ∧
      (∀ a ∈ published, ∀ b ∈ published, a.kid = b.kid → a = b) ∧
      ∀ ring ∈ rotated.rings, ring.retired.length ≤ 32 :=
  ⟨rotation_run, live_tokens_published rfl rotation_run (by simp [History.Ordered, rotation])
    (by decide)⟩

end RiAuth.Keyring
