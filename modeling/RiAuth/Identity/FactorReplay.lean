import RiAuth.Identity.Transactions

/-!
# No factor is accepted twice

Secrets of authenticator apps are drawn once, and wait in an enrolment or in a workflow run before
they become the secret of an account. `Codes` says where a secret can be and what is known of the
codes accepted for it; `Recoveries` says the same of recovery codes.

* `Codes.shrink`, `Codes.draw`, `Codes.move`, `Codes.accept`: what the transactions do to secrets;
* **`factors_accepted_once`**: for one secret the accepted time steps only grow, and no recovery
  code is accepted twice.
-/

namespace RiAuth.Identity

open Checks History

/-! ## What was accepted -/

/-- The time step of an accepted code of the secret. -/
def Fact.step (id secret : Text) : Fact → Option ℕ
  | .code userId key step => if userId = id ∧ key = secret then some step else none
  | _ => none

/-- The digest of an accepted recovery code. -/
def Fact.recovered (id : Text) : Fact → Option Text
  | .recovery userId digest => if userId = id then some digest else none
  | _ => none

/-- The account and secret of a draw. -/
def Fact.drawn : Fact → Option (Text × Text)
  | .drew userId secret => some (userId, secret)
  | _ => none

/-- The account and digest of a recovery code that was issued. -/
def Fact.issue : Fact → Option (Text × Text)
  | .issued userId digest => some (userId, digest)
  | _ => none

/-- The accepted time steps of a secret, newest first. -/
def steps (id secret : Text) (trail : List Fact) : List ℕ := trail.filterMap (Fact.step id secret)

/-- The accepted recovery codes of an account, newest first. -/
def recoveries (id : Text) (trail : List Fact) : List Text := trail.filterMap (Fact.recovered id)

/-- What is drawn at random is drawn once: secrets and recovery codes. -/
structure Fresh (trail : List Fact) : Prop where
  draws : (trail.filterMap Fact.drawn).Nodup
  issues : (trail.filterMap Fact.issue).Nodup

theorem Fresh.of_append (facts : List Fact) {trail : List Fact} (h : Fresh (facts ++ trail)) :
    Fresh trail := by
  constructor
  · have hall := h.draws
    rw [List.filterMap_append] at hall
    exact (List.nodup_append.mp hall).2.1
  · have hall := h.issues
    rw [List.filterMap_append] at hall
    exact (List.nodup_append.mp hall).2.1

theorem Fresh.drew {id secret : Text} {trail : List Fact} (h : Fresh (.drew id secret :: trail)) :
    .drew id secret ∉ trail := by
  intro hmem
  refine (List.nodup_cons.mp h.draws).1 ?_
  exact List.mem_filterMap.mpr ⟨_, hmem, rfl⟩

theorem Fresh.issued {id : Text} {digests : List Text} {trail : List Fact}
    (h : Fresh (digests.map (.issued id) ++ trail)) {digest : Text} (hdigest : digest ∈ digests) :
    .issued id digest ∉ trail := by
  intro hmem
  have hall := h.issues
  rw [List.filterMap_append] at hall
  refine (List.nodup_append.mp hall).2.2 (id, digest) ?_ (id, digest) ?_ rfl
  · exact List.mem_filterMap.mpr ⟨_, List.mem_map_of_mem hdigest, rfl⟩
  · exact List.mem_filterMap.mpr ⟨_, hmem, rfl⟩

/-! ## Where a secret can be -/

/-- The places of an account that hold a secret. -/
inductive Place where
  | current
  | pending
  | reserved (run : Text)

/-- The reservations of workflow runs. -/
abbrev Reservations := Text → Option (Text × Text)

/-- The secret is in this place. -/
def Holds (id : Text) (a : Authenticator) (r : Reservations) (secret : Text) : Place → Prop
  | .current => a.totpSecret = some secret
  | .pending => ∃ expiresAt, a.totpPending = some (secret, expiresAt)
  | .reserved run => r run = some (id, secret)

/-- A secret is in one place at most, and what was accepted for it is known to the account. -/
structure Codes (id : Text) (a : Authenticator) (r : Reservations) (trail : List Fact) : Prop where
  drawn : ∀ p secret, Holds id a r secret p → .drew id secret ∈ trail
  one : ∀ p q secret, Holds id a r secret p → Holds id a r secret q → p = q
  used : ∀ p secret step, .code id secret step ∈ trail → Holds id a r secret p →
    p = .current ∧ ∃ last ∈ a.totpLastStep, step ≤ last
  origin : ∀ secret step, .code id secret step ∈ trail → .drew id secret ∈ trail
  increasing : ∀ secret, (steps id secret trail).Pairwise (· > ·)

section Codes

variable {id secret : Text} {a a' : Authenticator} {r r' : Reservations} {trail : List Fact}

variable {step : ℕ} {userId : Text}

theorem mem_steps : step ∈ steps id secret trail ↔ .code id secret step ∈ trail := by
  unfold steps
  rw [List.mem_filterMap]
  constructor
  · rintro ⟨fact, hfact, hstep⟩
    cases fact <;> simp only [Fact.step, reduceCtorEq] at hstep
    split_ifs at hstep with hsame
    cases hstep
    rw [← hsame.1, ← hsame.2]
    exact hfact
  · exact fun hmem => ⟨_, hmem, by simp [Fact.step]⟩

/-- The facts say nothing of secrets of the account. -/
def Fact.ofSecret (id : Text) : Fact → Bool
  | .drew userId _ => userId = id
  | .code userId _ _ => userId = id
  | _ => false

theorem Codes.append (h : Codes id a r trail) (facts : List Fact)
    (hfacts : ∀ fact ∈ facts, fact.ofSecret id = false) : Codes id a r (facts ++ trail) := by
  have hmem : ∀ fact : Fact, fact.ofSecret id = true → fact ∈ facts ++ trail → fact ∈ trail := by
    intro fact hof hfact
    refine (List.mem_append.mp hfact).resolve_left fun hnew => ?_
    rw [hfacts fact hnew] at hof
    cases hof
  have hsteps : ∀ secret, steps id secret (facts ++ trail) = steps id secret trail := by
    intro secret
    have hnone : facts.filterMap (Fact.step id secret) = [] := by
      refine List.filterMap_eq_nil_iff.mpr fun fact hfact => ?_
      have hof := hfacts fact hfact
      cases fact <;> simp_all [Fact.step, Fact.ofSecret]
    rw [steps, List.filterMap_append, hnone, List.nil_append]
    rfl
  exact {
    drawn := fun p secret hp => List.mem_append_right _ (h.drawn p secret hp)
    one := h.one
    used := fun p secret step hcode => h.used p secret step (hmem _ (by simp [Fact.ofSecret]) hcode)
    origin := fun secret step hcode => List.mem_append_right _
      (h.origin secret step (hmem _ (by simp [Fact.ofSecret]) hcode))
    increasing := fun secret => hsteps secret ▸ h.increasing secret }

/-- Places were emptied, or nothing happened. -/
theorem Codes.shrink (h : Codes id a r trail)
    (hholds : ∀ p secret, Holds id a' r' secret p → Holds id a r secret p)
    (hlast : a'.totpSecret ≠ none → a'.totpLastStep = a.totpLastStep) : Codes id a' r' trail where
  drawn p secret hp := h.drawn p secret (hholds p secret hp)
  one p q secret hp hq := h.one p q secret (hholds p secret hp) (hholds q secret hq)
  used p secret step hcode hp := by
    obtain ⟨rfl, hle⟩ := h.used p secret step hcode (hholds p secret hp)
    have hsome : a'.totpSecret ≠ none := fun hnone => nomatch hnone.symm.trans hp
    exact ⟨rfl, hlast hsome ▸ hle⟩
  origin := h.origin
  increasing := h.increasing

/-- A new secret came into a place. -/
theorem Codes.draw (h : Codes id a r trail) (new : Text) (place : Place)
    (hnew : .drew id new ∉ trail)
    (hholds : ∀ p secret, Holds id a' r' secret p →
      (p = place ∧ secret = new) ∨
      (Holds id a r secret p ∧ (p = .current → a'.totpLastStep = a.totpLastStep))) :
    Codes id a' r' (.drew id new :: trail) where
  drawn p secret hp := by
    rcases hholds p secret hp with ⟨-, rfl⟩ | ⟨hp, -⟩
    · exact List.mem_cons_self
    · exact List.mem_cons_of_mem _ (h.drawn p secret hp)
  one p q secret hp hq := by
    rcases hholds p secret hp with ⟨rfl, rfl⟩ | ⟨hp, -⟩ <;>
      rcases hholds q _ hq with ⟨rfl, hsame⟩ | ⟨hq, -⟩
    · rfl
    · exact absurd (h.drawn q _ hq) hnew
    · exact absurd (hsame ▸ h.drawn p secret hp) hnew
    · exact h.one p q secret hp hq
  used p secret step hcode hp := by
    have hold : .code id secret step ∈ trail := by simpa using hcode
    rcases hholds p secret hp with ⟨-, rfl⟩ | ⟨hp, hlast⟩
    · exact absurd (h.origin secret step hold) hnew
    · obtain ⟨hcurrent, hle⟩ := h.used p secret step hold hp
      exact ⟨hcurrent, hlast hcurrent ▸ hle⟩
  origin secret step hcode :=
    List.mem_cons_of_mem _ (h.origin secret step (by simpa using hcode))
  increasing := h.increasing

theorem Codes.increasing_cons (h : Codes id a r trail)
    (hlater : ∀ older, .code id secret older ∈ trail → older < step) (key : Text) :
    (steps id key (.code id secret step :: trail)).Pairwise (· > ·) := by
  unfold steps
  rw [List.filterMap_cons]
  by_cases hkey : secret = key
  · subst hkey
    rw [Fact.step, if_pos ⟨rfl, rfl⟩]
    exact List.pairwise_cons.mpr
      ⟨fun older holder => hlater older (mem_steps.mp holder), h.increasing secret⟩
  · rw [Fact.step, if_neg fun hsame => hkey hsame.2]
    exact h.increasing key

/-- A code of a secret that waited was accepted: it is the secret of the account now. -/
theorem Codes.move (h : Codes id a r trail) (place : Place) (hplace : Holds id a r secret place)
    (hwaits : place ≠ .current) (hholds : ∀ p key, Holds id a' r' key p →
      (p = .current ∧ key = secret) ∨ (Holds id a r key p ∧ p ≠ place ∧ p ≠ .current))
    (hlast : a'.totpLastStep = some step) : Codes id a' r' (.code id secret step :: trail) := by
  have hunused : ∀ older, .code id secret older ∉ trail := fun older hcode =>
    hwaits (h.used place secret older hcode hplace).1
  exact {
    drawn := fun p key hp => by
      rcases hholds p key hp with ⟨-, rfl⟩ | ⟨hp, -, -⟩
      · exact List.mem_cons_of_mem _ (h.drawn place key hplace)
      · exact List.mem_cons_of_mem _ (h.drawn p key hp)
    one := fun p q key hp hq => by
      rcases hholds p key hp with ⟨rfl, rfl⟩ | ⟨hp, hpp, -⟩ <;>
        rcases hholds q _ hq with ⟨rfl, hsame⟩ | ⟨hq, hqp, -⟩
      · rfl
      · exact absurd (h.one q place _ hq hplace) hqp
      · exact absurd (h.one p place key hp (hsame ▸ hplace)) hpp
      · exact h.one p q key hp hq
    used := fun p key older hcode hp => by
      rcases hholds p key hp with ⟨rfl, rfl⟩ | ⟨hp, hpp, hpc⟩
      · rcases List.mem_cons.mp hcode with hcode | hcode
        · cases hcode
          exact ⟨rfl, step, hlast, le_rfl⟩
        · exact absurd hcode (hunused older)
      · rcases List.mem_cons.mp hcode with hcode | hcode
        · cases hcode
          exact absurd (h.one p place secret hp hplace) hpp
        · exact absurd (h.used p key older hcode hp).1 hpc
    origin := fun key older hcode => by
      rcases List.mem_cons.mp hcode with hcode | hcode
      · cases hcode
        exact List.mem_cons_of_mem _ (h.drawn place secret hplace)
      · exact List.mem_cons_of_mem _ (h.origin key older hcode)
    increasing := h.increasing_cons fun older hcode => absurd hcode (hunused older) }

/-- A code of the secret of the account was accepted. -/
theorem Codes.accept (h : Codes id a r trail) (hsecret : a.totpSecret = some secret)
    (hlater : ∀ last ∈ a.totpLastStep, last < step) :
    Codes id { a with totpLastStep := some step } r (.code id secret step :: trail) := by
  have hcurrent : Holds id a r secret .current := hsecret
  have hbefore : ∀ older, .code id secret older ∈ trail → older < step := by
    intro older hcode
    obtain ⟨-, last, hlast, hle⟩ := h.used .current secret older hcode hcurrent
    exact Nat.lt_of_le_of_lt hle (hlater last hlast)
  have hholds : ∀ p key, Holds id { a with totpLastStep := some step } r key p →
      Holds id a r key p := fun p key hp => by cases p <;> exact hp
  exact {
    drawn := fun p key hp => List.mem_cons_of_mem _ (h.drawn p key (hholds p key hp))
    one := fun p q key hp hq => h.one p q key (hholds p key hp) (hholds q key hq)
    used := fun p key older hcode hp => by
      have hp := hholds p key hp
      rcases List.mem_cons.mp hcode with hcode | hcode
      · cases hcode
        exact ⟨h.one p .current secret hp hcurrent, step, rfl, le_rfl⟩
      · obtain ⟨rfl, last, hlast, hle⟩ := h.used p key older hcode hp
        exact ⟨rfl, step, rfl, hle.trans (hlater last hlast).le⟩
    origin := fun key older hcode => by
      rcases List.mem_cons.mp hcode with hcode | hcode
      · cases hcode
        exact List.mem_cons_of_mem _ (h.drawn .current secret hcurrent)
      · exact List.mem_cons_of_mem _ (h.origin key older hcode)
    increasing := h.increasing_cons hbefore }

/-- A reservation was given up. -/
theorem Codes.discard (h : Codes id a r trail) (run : Text) :
    Codes id a (Function.update r run none) trail := by
  refine h.shrink (fun p key hp => ?_) fun _ => rfl
  cases p with
  | reserved other =>
    have hkept : Function.update r run none other = some (id, key) := hp
    rw [Function.update_apply] at hkept
    split_ifs at hkept
    exact hkept
  | _ => exact hp

theorem reserved_of_update {run other key : Text}
    (h : Function.update r run (some (userId, secret)) other = some (id, key)) :
    (other = run ∧ userId = id ∧ key = secret) ∨ r other = some (id, key) := by
  rw [Function.update_apply] at h
  split_ifs at h with hsame
  · cases h
    exact .inl ⟨hsame, rfl, rfl⟩
  · exact .inr h

/-- A run reserves a new secret, for this account or another. -/
theorem Codes.reserve (h : Codes id a r trail) (run : Text)
    (hfresh : Fresh (.drew userId secret :: trail)) :
    Codes id a (Function.update r run (some (userId, secret))) (.drew userId secret :: trail) := by
  by_cases hid : userId = id
  · subst hid
    refine h.draw secret (.reserved run) hfresh.drew fun p key hp => ?_
    cases p with
    | reserved other =>
      rcases reserved_of_update hp with ⟨rfl, -, rfl⟩ | hkept
      · exact .inl ⟨rfl, rfl⟩
      · exact .inr ⟨hkept, nofun⟩
    | _ => exact .inr ⟨hp, fun _ => rfl⟩
  · refine (h.append [.drew userId secret] (by simp [Fact.ofSecret, hid])).shrink
      (fun p key hp => ?_) fun _ => rfl
    cases p with
    | reserved other => exact (reserved_of_update hp).resolve_left fun hsame => hid hsame.2.1
    | _ => exact hp

theorem issued_ofSecret {digests : List Text} :
    ∀ fact ∈ digests.map (Fact.issued userId), fact.ofSecret id = false := by
  intro fact hfact
  obtain ⟨digest, -, rfl⟩ := List.mem_map.mp hfact
  rfl

/-- What happens to an authenticator keeps the codes in order. -/
theorem AuthenticatorChange.codes {facts : List Fact} (h : AuthenticatorChange id r a a' r' facts)
    (hcodes : Codes id a r trail) (hfresh : Fresh (facts ++ trail)) :
    Codes id a' r' (facts ++ trail) := by
  cases h with
  | spent hspends =>
    cases hspends with
    | nothing => exact hcodes
    | code secret step hsecret hlater => exact hcodes.accept hsecret hlater
    | recovery digest hdigest =>
      have happended := hcodes.append [.recovery id digest] (by simp [Fact.ofSecret])
      refine happended.shrink (fun p key hp => ?_) fun _ => rfl
      cases p <;> exact hp
  | started secret expiresAt =>
    refine hcodes.draw secret .pending hfresh.drew fun p key hp => ?_
    cases p with
    | pending =>
      obtain ⟨_, hpending⟩ := hp
      cases hpending
      exact .inl ⟨rfl, rfl⟩
    | _ => exact .inr ⟨hp, fun _ => rfl⟩
  | dropped =>
    refine hcodes.shrink (fun p key hp => ?_) fun _ => rfl
    cases p with
    | pending => exact nomatch hp.choose_spec
    | _ => exact hp
  | confirmed secret expiresAt step digests hpending =>
    refine Codes.move (hcodes.append _ issued_ofSecret) .pending ⟨expiresAt, hpending⟩ nofun
      (fun p key hp => ?_) rfl
    cases p with
    | current =>
      cases hp
      exact .inl ⟨rfl, rfl⟩
    | pending => exact nomatch hp.choose_spec
    | reserved run => exact .inr ⟨hp, nofun, nofun⟩
  | committed run secret step hrun =>
    refine hcodes.move (.reserved run) hrun nofun (fun p key hp => ?_) rfl
    cases p with
    | current =>
      cases hp
      exact .inl ⟨rfl, rfl⟩
    | pending => exact nomatch hp.choose_spec
    | reserved other =>
      have hother : Function.update r run none other = some (id, key) := hp
      rw [Function.update_apply] at hother
      split_ifs at hother with hsame
      exact .inr ⟨hother, fun heq => hsame (Place.reserved.inj heq), nofun⟩
  | removed settings =>
    refine hcodes.shrink (fun p key hp => ?_) fun hsome => absurd rfl hsome
    cases p with
    | current => exact nomatch hp
    | pending => exact nomatch hp.choose_spec
    | reserved run => exact hp
  | rotated digests =>
    refine Codes.shrink (hcodes.append _ issued_ofSecret) (fun p key hp => ?_) fun _ => rfl
    cases p <;> exact hp
  | imported secret last settings =>
    refine hcodes.draw secret .current hfresh.drew fun p key hp => ?_
    cases p with
    | current =>
      cases hp
      exact .inl ⟨rfl, rfl⟩
    | pending => exact nomatch hp.choose_spec
    | reserved run => exact .inr ⟨hp, nofun⟩

/-- Secrets of other accounts are not touched. -/
theorem AuthenticatorChange.codes_of_ne {other : Text} {b b' : Authenticator} {facts : List Fact}
    (h : AuthenticatorChange other r b b' r' facts) (hother : other ≠ id)
    (hcodes : Codes id a r trail) : Codes id a r' (facts ++ trail) := by
  have hfacts : ∀ fact ∈ facts, fact.ofSecret id = false := by
    cases h with
    | spent hspends => cases hspends <;> simp [Fact.ofSecret, hother]
    | confirmed secret expiresAt step digests hpending =>
      refine List.forall_mem_cons.mpr ⟨by simp [Fact.ofSecret, hother], issued_ofSecret⟩
    | rotated digests => exact issued_ofSecret
    | _ => simp [Fact.ofSecret, hother]
  refine (hcodes.append facts hfacts).shrink (fun p key hp => ?_) fun _ => rfl
  cases p with
  | current => exact hp
  | pending => exact hp
  | reserved run =>
    cases h with
    | committed done secret step hrun =>
      have hkept : Function.update r done none run = some (id, key) := hp
      rw [Function.update_apply] at hkept
      split_ifs at hkept
      exact hkept
    | _ => exact hp

end Codes

/-! ## Recovery codes -/

/-- The recovery codes an account has left were issued to it, and those accepted are gone. -/
structure Recoveries (id : Text) (codes : Finset Text) (trail : List Fact) : Prop where
  issued : ∀ digest ∈ codes, .issued id digest ∈ trail
  gone : ∀ digest, .recovery id digest ∈ trail → digest ∉ codes ∧ .issued id digest ∈ trail
  once : (recoveries id trail).Nodup

section Recoveries

variable {id : Text} {codes : Finset Text} {trail : List Fact}

/-- The fact says something of recovery codes of the account. -/
def Fact.ofRecovery (id : Text) : Fact → Bool
  | .issued userId _ => userId = id
  | .recovery userId _ => userId = id
  | _ => false

theorem mem_recoveries {digest : Text} :
    digest ∈ recoveries id trail ↔ .recovery id digest ∈ trail := by
  unfold recoveries
  rw [List.mem_filterMap]
  constructor
  · rintro ⟨fact, hfact, hdigest⟩
    cases fact <;> simp only [Fact.recovered, reduceCtorEq] at hdigest
    split_ifs at hdigest with hsame
    cases hdigest
    exact hsame ▸ hfact
  · exact fun hmem => ⟨_, hmem, by simp [Fact.recovered]⟩

theorem Recoveries.append (h : Recoveries id codes trail) (facts : List Fact)
    (hfacts : ∀ fact ∈ facts, fact.ofRecovery id = false) : Recoveries id codes (facts ++ trail) := by
  have hnone : facts.filterMap (Fact.recovered id) = [] := by
    refine List.filterMap_eq_nil_iff.mpr fun fact hfact => ?_
    have hof := hfacts fact hfact
    cases fact <;> simp_all [Fact.recovered, Fact.ofRecovery]
  refine ⟨fun digest hdigest => List.mem_append_right _ (h.issued digest hdigest),
    fun digest hmem => ?_, ?_⟩
  · rcases List.mem_append.mp hmem with hnew | hold
    · simpa [Fact.ofRecovery] using hfacts _ hnew
    · exact (h.gone digest hold).imp_right (List.mem_append_right _)
  · rw [recoveries, List.filterMap_append, hnone, List.nil_append]
    exact h.once

/-- A set of new codes takes the place of the old one. -/
theorem Recoveries.issue (h : Recoveries id codes trail) (digests : List Text)
    (hfresh : Fresh (digests.map (.issued id) ++ trail)) :
    Recoveries id digests.toFinset (digests.map (.issued id) ++ trail) := by
  have hnone : (digests.map (Fact.issued id)).filterMap (Fact.recovered id) = [] := by
    refine List.filterMap_eq_nil_iff.mpr fun fact hfact => ?_
    obtain ⟨digest, -, rfl⟩ := List.mem_map.mp hfact
    rfl
  refine ⟨fun digest hdigest => ?_, fun digest hmem => ?_, ?_⟩
  · exact List.mem_append_left _ (List.mem_map_of_mem (List.mem_toFinset.mp hdigest))
  · have hold : .recovery id digest ∈ trail := by simpa using hmem
    have hissued := (h.gone digest hold).2
    refine ⟨fun hdigest => ?_, List.mem_append_right _ hissued⟩
    exact hfresh.issued (List.mem_toFinset.mp hdigest) hissued
  · rw [recoveries, List.filterMap_append, hnone, List.nil_append]
    exact h.once

/-- Codes are forgotten. -/
theorem Recoveries.clear (h : Recoveries id codes trail) : Recoveries id ∅ trail :=
  ⟨by simp, fun digest hmem => ⟨by simp, (h.gone digest hmem).2⟩, h.once⟩

/-- A code was accepted. -/
theorem Recoveries.accept (h : Recoveries id codes trail) {digest : Text} (hdigest : digest ∈ codes) :
    Recoveries id (codes.erase digest) (.recovery id digest :: trail) := by
  have hissued := h.issued digest hdigest
  refine ⟨fun other hother => ?_, fun other hmem => ?_, ?_⟩
  · exact List.mem_cons_of_mem _ (h.issued other (Finset.mem_of_mem_erase hother))
  · rcases List.mem_cons.mp hmem with hsame | hold
    · cases hsame
      exact ⟨Finset.notMem_erase _ _, List.mem_cons_of_mem _ hissued⟩
    · obtain ⟨hgone, hother⟩ := h.gone other hold
      exact ⟨fun hkept => hgone (Finset.mem_of_mem_erase hkept), List.mem_cons_of_mem _ hother⟩
  · rw [recoveries, List.filterMap_cons, Fact.recovered, if_pos rfl]
    refine List.nodup_cons.mpr ⟨fun hmem => ?_, h.once⟩
    exact (h.gone digest (mem_recoveries.mp hmem)).1 hdigest

theorem AuthenticatorChange.recoveries {a a' : Authenticator} {r r' : Reservations}
    {facts : List Fact} (h : AuthenticatorChange id r a a' r' facts)
    (hcodes : Recoveries id a.recoveryCodes trail) (hfresh : Fresh (facts ++ trail)) :
    Recoveries id a'.recoveryCodes (facts ++ trail) := by
  cases h with
  | spent hspends =>
    cases hspends with
    | nothing => exact hcodes
    | code secret step _ _ => exact hcodes.append [.code id secret step] (by simp [Fact.ofRecovery])
    | recovery digest hdigest => exact hcodes.accept hdigest
  | started secret _ => exact hcodes.append [.drew id secret] (by simp [Fact.ofRecovery])
  | dropped => exact hcodes
  | confirmed secret expiresAt step digests hpending =>
    have hissue := hcodes.issue digests (Fresh.of_append [.code id secret step] hfresh)
    exact hissue.append [.code id secret step] (by simp [Fact.ofRecovery])
  | committed run secret step hrun =>
    exact hcodes.clear.append [.code id secret step] (by simp [Fact.ofRecovery])
  | removed settings => exact hcodes.clear
  | rotated digests => exact hcodes.issue digests hfresh
  | imported secret last settings =>
    exact hcodes.clear.append [.drew id secret] (by simp [Fact.ofRecovery])

theorem AuthenticatorChange.ofRecovery_of_ne {other : Text} {a a' : Authenticator}
    {r r' : Reservations} {facts : List Fact} (h : AuthenticatorChange other r a a' r' facts)
    (hother : other ≠ id) : ∀ fact ∈ facts, fact.ofRecovery id = false := by
  have hissued : ∀ digests : List Text,
      ∀ fact ∈ digests.map (Fact.issued other), fact.ofRecovery id = false := by
    intro digests fact hfact
    obtain ⟨digest, -, rfl⟩ := List.mem_map.mp hfact
    exact decide_eq_false hother
  cases h with
  | spent hspends => cases hspends <;> simp [Fact.ofRecovery, hother]
  | confirmed secret expiresAt step digests hpending =>
    exact List.forall_mem_cons.mpr ⟨rfl, hissued digests⟩
  | rotated digests => exact hissued digests
  | _ => simp [Fact.ofRecovery]

end Recoveries

/-! ## Along a run -/

section

variable {c : Credentials} {limit now start : ℕ} {s s' : Accounts} {id : Text}

/-- The authenticator of an account; an account that does not exist has none. -/
def Accounts.authenticator (s : Accounts) (id : Text) : Authenticator :=
  ((s.users id).map fun user => user.toAuthenticator).getD .none

/-- The secrets and recovery codes of an account are in order. -/
def Accounts.InOrder (s : Accounts) (id : Text) : Prop :=
  Codes id (s.authenticator id) s.workflowSecrets s.trail ∧
    Recoveries id (s.authenticator id).recoveryCodes s.trail

/-- Facts about passwords and attempts. -/
theorem InOrder.append (h : s.InOrder id) (facts : List Fact)
    (hfacts : ∀ fact ∈ facts, fact.ofSecret id = false ∧ fact.ofRecovery id = false) :
    Codes id (s.authenticator id) s.workflowSecrets (facts ++ s.trail) ∧
      Recoveries id (s.authenticator id).recoveryCodes (facts ++ s.trail) :=
  ⟨h.1.append facts fun fact hfact => (hfacts fact hfact).1,
    h.2.append facts fun fact hfact => (hfacts fact hfact).2⟩

theorem PasswordChange.quiet {t t' : PasswordHistory.Table} {user : User} {hash : Text}
    {facts : List Fact} (h : PasswordChange c limit t user hash t' facts) :
    ∀ fact ∈ facts, fact.ofSecret id = false ∧ fact.ofRecovery id = false := by
  cases h with
  | imported raw _ =>
    intro fact hfact
    split_ifs at hfact
    · cases hfact
    · rw [List.mem_singleton.mp hfact]
      exact ⟨rfl, rfl⟩
  | _ => simp [Fact.ofSecret, Fact.ofRecovery]

theorem AttemptsChange.quiet {t t' : Text → Option Attempts} {facts : List Fact}
    (h : AttemptsChange t t' facts) :
    ∀ fact ∈ facts, fact.ofSecret id = false ∧ fact.ofRecovery id = false := by
  cases h <;> simp [Fact.ofSecret, Fact.ofRecovery]

/-- Every transaction keeps the secrets and recovery codes of every account in order. -/
theorem Effect.inOrder (h : Effect c limit now s s') (hfresh : Fresh s'.trail)
    (hs : s.InOrder id) : s'.InOrder id := by
  have hobtain : ∀ user : User, s.users user.id = some user →
      s.authenticator user.id = user.toAuthenticator := by
    intro user hrow
    rw [Accounts.authenticator, hrow]
    rfl
  cases h with
  | same husers _ _ hsecrets htrail =>
    unfold Accounts.InOrder Accounts.authenticator
    rw [husers, hsecrets, htrail]
    exact hs
  | failed username _ =>
    exact InOrder.append hs [.failed username now] (by simp [Fact.ofSecret, Fact.ofRecovery])
  | swept _ _ _ _ => exact hs
  | discarded run => exact ⟨hs.1.discard run, hs.2⟩
  | reserved run userId secret =>
    exact ⟨hs.1.reserve run hfresh, hs.2.append [.drew userId secret] (by simp [Fact.ofRecovery])⟩
  | created user _ hnew hnone _ husers _ _ hsecrets htrail =>
    have hsame : s'.authenticator id = s.authenticator id := by
      unfold Accounts.authenticator
      rw [husers, Function.update_apply]
      split_ifs with hid
      · subst hid
        rw [hnew, Option.map_some, hnone]
        rfl
      · rfl
    unfold Accounts.InOrder
    rw [hsame, hsecrets, htrail]
    refine InOrder.append hs _ fun fact hfact => ?_
    split_ifs at hfact
    · cases hfact
    · rw [List.mem_singleton.mp hfact]
      exact ⟨rfl, rfl⟩
  | wrote user user' fa fp ft hrow hid husers hauth hpassword hattempts htrail =>
    have hquiet : ∀ fact ∈ fp ++ ft, fact.ofSecret id = false ∧ fact.ofRecovery id = false := by
      intro fact hfact
      rcases List.mem_append.mp hfact with hfact | hfact
      · exact hpassword.quiet fact hfact
      · exact hattempts.quiet fact hfact
    obtain ⟨hcodes, hrecoveries⟩ := InOrder.append hs (fp ++ ft) hquiet
    rw [← List.append_assoc fp] at htrail
    unfold Accounts.InOrder
    rw [htrail] at hfresh ⊢
    by_cases hsame : user.id = id
    · subst hsame
      have hafter : s'.authenticator user.id = user'.toAuthenticator := by
        rw [Accounts.authenticator, husers, Function.update_self]
        rfl
      rw [hobtain user hrow] at hcodes hrecoveries
      rw [hafter]
      exact ⟨hauth.codes hcodes hfresh, hauth.recoveries hrecoveries hfresh⟩
    · have hafter : s'.authenticator id = s.authenticator id := by
        rw [Accounts.authenticator, husers, Function.update_of_ne (Ne.symm hsame)]
        rfl
      rw [hafter]
      exact ⟨hauth.codes_of_ne hsame hcodes,
        hrecoveries.append fa (hauth.ofRecovery_of_ne hsame)⟩

theorem Effect.trail_suffix (h : Effect c limit now s s') : ∃ facts, s'.trail = facts ++ s.trail := by
  cases h with
  | same _ _ _ _ htrail => exact ⟨[], htrail⟩
  | failed username _ => exact ⟨[.failed username now], rfl⟩
  | swept _ _ _ _ => exact ⟨[], rfl⟩
  | reserved run userId secret => exact ⟨[.drew userId secret], rfl⟩
  | discarded _ => exact ⟨[], rfl⟩
  | created _ _ _ _ _ _ _ _ _ htrail => exact ⟨_, htrail⟩
  | wrote _ _ fa fp ft _ _ _ _ _ _ htrail =>
    exact ⟨fa ++ (fp ++ ft), by rw [htrail, List.append_assoc, List.append_assoc]⟩

theorem inOrder_empty : Accounts.empty.InOrder id := by
  refine ⟨⟨fun p secret hp => ?_, fun p q secret hp => ?_, nofun, nofun, fun _ => .nil⟩,
    ⟨nofun, nofun, List.nodup_nil⟩⟩
  · cases p with
    | pending => exact nomatch hp.choose_spec
    | _ => exact nomatch hp
  · cases p with
    | pending => exact nomatch hp.choose_spec
    | _ => exact nomatch hp

/-- **No factor is accepted twice.** In every state that the transactions reach, with secrets and
recovery codes drawn once: the time steps accepted for one secret of an account grow from one to the
next (the trail is newest first), and every recovery code was accepted at most once. -/
theorem factors_accepted_once (h : Reachable c limit start now s) (hfresh : Fresh s.trail)
    (id : Text) :
    (∀ secret, (steps id secret s.trail).Pairwise (· > ·)) ∧ (recoveries id s.trail).Nodup := by
  have horder : Fresh s.trail → s.InOrder id := by
    refine h.invariant (I := fun s => Fresh s.trail → s.InOrder id) (fun _ => inOrder_empty) ?_
    intro now s s' heffect hs hfresh
    obtain ⟨facts, htrail⟩ := heffect.trail_suffix
    exact heffect.inOrder hfresh (hs (Fresh.of_append facts (htrail ▸ hfresh)))
  obtain ⟨hcodes, hrecoveries⟩ := horder hfresh
  exact ⟨hcodes.increasing, hrecoveries.once⟩

end

/-- An authenticator app is enrolled; a code of it and a recovery code are then used to sign in. -/
def twoSignIns : List (Call × Event) :=
  let at_ (now : ℕ) : Call := ⟨now, .ok (), .ok (.ok ())⟩
  let alice := "alice".toList
  [(at_ 900, .createUser "u".toList alice (some ("secret".toList, 0)) false true),
    (at_ 900, .totpStart "u".toList "session".toList "key".toList false),
    (at_ 900, .totpConfirm "u".toList "session".toList "000900".toList
      ["ri_recovery_a".toList, "ri_recovery_b".toList]),
    (at_ 930, .passwordLogin alice "secret".toList (some "000930".toList) 0),
    (at_ 930, .passwordLogin alice "secret".toList (some "ri_recovery_a".toList) 0)]

/-- Three factors were accepted, each of them once. -/
theorem factors_accepted_once_three :
    ∃ s, Reachable sample 5 900 930 s ∧ steps "u".toList "key".toList s.trail = [31, 30] ∧
      recoveries "u".toList s.trail = ["ri_recovery_a".toList] ∧
      (steps "u".toList "key".toList s.trail).Pairwise (· > ·) ∧
      (recoveries "u".toList s.trail).Nodup := by
  obtain ⟨s, hs, hP⟩ := exists_reachable_of_execute sample 5 twoSignIns 900 930
    (fun s => steps "u".toList "key".toList s.trail = [31, 30] &&
      recoveries "u".toList s.trail = ["ri_recovery_a".toList] &&
      decide (s.trail.filterMap Fact.drawn).Nodup && decide (s.trail.filterMap Fact.issue).Nodup)
    (by decide) (by unfold History.Ordered; decide) (by decide)
  simp only [Bool.and_eq_true, decide_eq_true_eq] at hP
  obtain ⟨⟨⟨hsteps, hrecoveries⟩, hdraws⟩, hissues⟩ := hP
  have hlaw := factors_accepted_once hs ⟨hdraws, hissues⟩ "u".toList
  exact ⟨s, hs, hsteps, hrecoveries, hlaw.1 _, hlaw.2⟩

end RiAuth.Identity
