import RiAuth.Basic
import RiAuth.Lib.Checks
import RiAuth.Lib.Fence

/-!
# DPoP proofs

`dpop::verify`: a proof is a token signed with the key in its own header. It is fresh while its
`iat` lies within sixty seconds of the clock, and a record under its key and `jti` refuses a second
presentation for two minutes after the first.

The two windows are counted from different instants. A proof dated as far ahead as is allowed is
still fresh in the second in which its record expires, and then it is taken again.

* `verify_ok`: what an accepted proof says, and the record it leaves;
* `verify_again_iff`: **when a proof can be taken a second time**.
-/

namespace RiAuth.Dpop

open Checks History Fence

/-! ## The token library -/

/-- Signature algorithms; the rest of the library's list is `other`. -/
inductive Algorithm where
  | rs256 | es256 | edDsa | other
deriving DecidableEq

/-- The name in the header. -/
def Algorithm.name : Algorithm → Option Text
  | rs256 => some "RS256".toList
  | es256 => some "ES256".toList
  | edDsa => some "EdDSA".toList
  | other => none

/-- The header fields that are looked at. -/
structure Header where
  typ : Option Text
  alg : Algorithm
  jku : Option Text
  x5u : Option Text
  crit : Option (List Text)
deriving DecidableEq

/-- A public key. -/
structure PublicJwk where
  kty : Text
  kid : Text
  alg : Text
  n : Option Text
  e : Option Text
  crv : Option Text
  x : Option Text
  y : Option Text
deriving DecidableEq

/-- The token, JSON and URL libraries and the hash. -/
structure Jose where
  /-- `jsonwebtoken::decode_header`. -/
  decodeHeader : Text → Option Header
  /-- The first segment of the token as JSON. -/
  rawHeader : Text → Option Json
  /-- The key as `PublicJwk`, which refuses unknown members, and its own validation. -/
  publicJwk : Json → Option PublicJwk
  /-- The claims, if the signature is one of this key. -/
  claims : Text → PublicJwk → Option Json
  /-- The `nbf` claim, zero when it is missing. -/
  notBefore : Json → ℕ
  /-- A URL without its query and fragment. -/
  parseUrl : Text → Option Text
  /-- `serde_json::to_string`. -/
  jsonText : Json → Text
  digest : Text → Text

/-! ## Verification -/

/-- The one answer to a bad proof. -/
def invalid : Error :=
  .oauth "invalid_dpop_proof" "Invalid, stale, mismatched or replayed DPoP proof"

/-- A value, or the one error of this module. -/
def expect {α : Type} : Option α → Result α
  | some a => .ok a
  | none => .error invalid

theorem expect_ok {α : Type} {o : Option α} {a : α} : expect o = .ok a ↔ o = some a := by
  cases o with
  | none => exact ⟨fun h => (nomatch h), fun h => (nomatch h)⟩
  | some b => exact ⟨fun h => congrArg some (Except.ok.inj h), fun h => by cases h; rfl⟩

/-- `abs_diff`. -/
def absDiff (a b : ℕ) : ℕ := (a - b) + (b - a)

/-- A text that may be missing, as JSON. -/
def optional : Option Text → Json
  | some t => .str t
  | none => .null

/-- The members of a key that its thumbprint covers. -/
def canonical (key : PublicJwk) : Option Json :=
  if key.kty = "RSA".toList then
    some (.obj [("e".toList, optional key.e), ("kty".toList, .str "RSA".toList),
      ("n".toList, optional key.n)])
  else if key.kty = "EC".toList then
    some (.obj [("crv".toList, optional key.crv), ("kty".toList, .str "EC".toList),
      ("x".toList, optional key.x), ("y".toList, optional key.y)])
  else if key.kty = "OKP".toList then
    some (.obj [("crv".toList, optional key.crv), ("kty".toList, .str "OKP".toList),
      ("x".toList, optional key.x)])
  else none

/-- The digest that names a key. -/
def thumbprint (j : Jose) (key : PublicJwk) : Result Text := do
  let members ← expect (canonical key)
  .ok (j.digest (j.jsonText members))

/-- The `jwk` member with the algorithm of the header and a key id. -/
def completeKey (key : Json) (alg : Text) : Json :=
  let key := key.setField "alg".toList (.str alg)
  match key.get? "kid".toList with
  | some _ => key
  | none => key.setField "kid".toList (.str "dpop".toList)

/-- The key in the header of a proof. -/
def proofKey (j : Jose) (proof : Text) : Result PublicJwk := do
  require (proof.bytes ≤ 16384) invalid
  let header ← expect (j.decodeHeader proof)
  require (header.typ = some "dpop+jwt".toList ∧ header.jku = none ∧ header.x5u = none ∧
    header.crit.getD [] = []) invalid
  let raw ← expect (j.rawHeader proof)
  require (raw.get? "b64".toList = none) invalid
  let key ← match raw.get? "jwk".toList with
    | some (.obj members) => .ok (.obj members)
    | _ => .error invalid
  let alg ← expect header.alg.name
  require (((key : Json).get? "alg".toList).getD (.str alg) = .str alg) invalid
  expect (j.publicJwk (completeKey key alg))

/-- What a proof says, whenever it is looked at: its claims, the thumbprint of its key, its `iat`
and its `jti`. -/
structure Stamp where
  claims : Json
  jkt : Text
  iat : ℕ
  jti : Text

/-- The stamp of a proof. -/
def stamp (j : Jose) (proof : Text) : Result Stamp := do
  let key ← proofKey j proof
  let claims ← expect (j.claims proof key)
  let iat ← expect (claims.field "iat".toList).asU64
  let jti ← expect ((claims.field "jti".toList).asStr.filter fun v : Text => v ≠ [] ∧ v.bytes ≤ 256)
  let jkt ← thumbprint j key
  .ok ⟨claims, jkt, iat, jti⟩

/-- The name of the replay record of a proof. -/
def Stamp.replay (p : Stamp) (j : Jose) : Text := j.digest (p.jkt ++ '\x00' :: p.jti)

/-- `ath` names the access token the proof comes with; without one it is absent. -/
def checkAth (j : Jose) (claims : Json) : Option Text → Result Unit
  | some token => require ((claims.field "ath".toList).asStr = some (j.digest token)) invalid
  | none => require (claims.get? "ath".toList = none) invalid

/-- `dpop::verify` at time `now`. All its refusals are the same error, so that those that do not
look at the clock come first here. -/
def verify (j : Jose) (replays : Text → Option ℕ) (now : ℕ) (proof method endpoint : Text)
    (accessToken : Option Text) : Result (Text × (Text → Option ℕ)) := do
  let p ← stamp j proof
  require (j.notBefore p.claims ≤ now) invalid
  let target ← expect (j.parseUrl endpoint)
  require (absDiff p.iat now ≤ 60 ∧ (p.claims.field "htm".toList).asStr = some method ∧
    (p.claims.field "htu".toList).asStr = some target) invalid
  checkAth j p.claims accessToken
  require (free replays now (p.replay j) = true) invalid
  .ok (p.jkt, record replays (p.replay j) (now + 120))

/-- The conditions under which a proof is accepted. -/
structure Accepts (j : Jose) (replays : Text → Option ℕ) (now : ℕ) (p : Stamp)
    (method endpoint : Text) (accessToken : Option Text) : Prop where
  begun : j.notBefore p.claims ≤ now
  fresh : absDiff p.iat now ≤ 60
  htm : (p.claims.field "htm".toList).asStr = some method
  htu : ∃ target, j.parseUrl endpoint = some target ∧
    (p.claims.field "htu".toList).asStr = some target
  ath : checkAth j p.claims accessToken = .ok ()
  unused : free replays now (p.replay j) = true

theorem verify_ok {j : Jose} {replays : Text → Option ℕ} {now : ℕ} {proof method endpoint : Text}
    {accessToken : Option Text} {r : Text × (Text → Option ℕ)} :
    verify j replays now proof method endpoint accessToken = .ok r ↔
      ∃ p, stamp j proof = .ok p ∧ Accepts j replays now p method endpoint accessToken ∧
        r = (p.jkt, record replays (p.replay j) (now + 120)) := by
  unfold verify
  constructor
  · intro h
    obtain ⟨p, hp, h1⟩ := bind_ok.mp h
    obtain ⟨hbegun, h2⟩ := seq_ok.mp h1
    obtain ⟨target, htarget, h3⟩ := bind_ok.mp h2
    obtain ⟨hfresh, h4⟩ := seq_ok.mp h3
    obtain ⟨hath, h5⟩ := seq_ok.mp h4
    obtain ⟨hunused, h6⟩ := seq_ok.mp h5
    obtain ⟨hfresh, hhtm, hhtu⟩ := require_ok.mp hfresh
    exact ⟨p, hp, ⟨require_ok.mp hbegun, hfresh, hhtm, ⟨target, expect_ok.mp htarget, hhtu⟩, hath,
      require_ok.mp hunused⟩, (Except.ok.inj h6).symm⟩
  · rintro ⟨p, hp, ⟨hbegun, hfresh, hhtm, ⟨target, htarget, hhtu⟩, hath, hunused⟩, rfl⟩
    refine bind_ok.mpr ⟨p, hp, seq_ok.mpr ⟨require_ok.mpr hbegun, ?_⟩⟩
    refine bind_ok.mpr ⟨target, expect_ok.mpr htarget, ?_⟩
    refine seq_ok.mpr ⟨require_ok.mpr ⟨hfresh, hhtm, hhtu⟩, seq_ok.mpr ⟨hath, ?_⟩⟩
    exact seq_ok.mpr ⟨require_ok.mpr hunused, rfl⟩

/-! ## Histories -/

/-- What happens to the replay records: a transaction commits with an accepted proof, or
maintenance looks at a page. A transaction that fails leaves no trace. -/
inductive Event where
  | verify (now : ℕ) (proof method endpoint : Text) (accessToken : Option Text)
  | cleanup (now : ℕ) (page : List Text)

/-- When an event happens. -/
def Event.time : Event → ℕ
  | verify now .. => now
  | cleanup now _ => now

/-- One step of the replay records. -/
def Step (j : Jose) (replays : Text → Option ℕ) : Event → (Text → Option ℕ) → Prop
  | .verify now proof method endpoint accessToken, replays' =>
    ∃ jkt, verify j replays now proof method endpoint accessToken = .ok (jkt, replays')
  | .cleanup now page, replays' => replays' = prune replays page now

theorem Step.keeps {j : Jose} {replays replays' : Text → Option ℕ} {e : Event}
    (h : Step j replays e replays') : Keeps e.time replays replays' := by
  cases e with
  | verify now proof method endpoint accessToken =>
    obtain ⟨jkt, h⟩ := h
    obtain ⟨p, -, haccepts, hr⟩ := verify_ok.mp h
    cases hr
    exact keeps_record haccepts.unused _
  | cleanup now page =>
    cases h
    exact keeps_prune replays page now

/-- The `iat` of a proof. -/
def issuedAt (j : Jose) (proof : Text) : Option ℕ :=
  match stamp j proof with
  | .ok p => some p.iat
  | .error _ => none

theorem issuedAt_eq {j : Jose} {proof : Text} {p : Stamp} (h : stamp j proof = .ok p) :
    issuedAt j proof = some p.iat := by
  unfold issuedAt
  rw [h]

/-- A fresh proof whose record was made at `t₁` and which is not dated a full minute ahead is stale
before the record expires. -/
theorem stale_before_expiry {iat t₁ t₂ : ℕ} (h₁ : absDiff iat t₁ ≤ 60) (h₂ : absDiff iat t₂ ≤ 60)
    (hne : iat ≠ t₁ + 60) : t₂ < t₁ + 120 := by
  unfold absDiff at h₁ h₂
  omega

/-- **Once more, and when.** A proof has been accepted at `t₁`. Whatever is accepted and cleaned up
afterwards, it is never accepted again — unless it is dated exactly sixty seconds ahead of `t₁`:
then it is still fresh when its record expires two minutes later, and it is accepted again. -/
theorem verify_again_iff {j : Jose} {replays replays₁ : Text → Option ℕ} {t₁ : ℕ}
    {proof method endpoint jkt : Text} {accessToken : Option Text}
    (hfirst : verify j replays t₁ proof method endpoint accessToken = .ok (jkt, replays₁)) :
    (∀ es replays₂ t₂ method' endpoint' accessToken', Run (Step j) replays₁ es replays₂ →
        Ordered Event.time es → (∀ e ∈ es, t₁ ≤ e.time ∧ e.time ≤ t₂) → t₁ ≤ t₂ →
        ∀ r, verify j replays₂ t₂ proof method' endpoint' accessToken' ≠ .ok r) ↔
      issuedAt j proof ≠ some (t₁ + 60) := by
  obtain ⟨p, hp, haccepts, hr⟩ := verify_ok.mp hfirst
  cases hr
  rw [issuedAt_eq hp]
  constructor
  · intro hnever hiat
    -- two minutes after the first acceptance, with nothing in between
    refine hnever [] _ (t₁ + 120) method endpoint accessToken .nil .nil
      (fun e he => absurd he List.not_mem_nil) (Nat.le_add_right ..) _
      (verify_ok.mpr ⟨p, hp, ⟨?_, ?_, haccepts.htm, haccepts.htu, haccepts.ath, ?_⟩, rfl⟩)
    · exact Nat.le_trans haccepts.begun (Nat.le_add_right ..)
    · rw [Option.some.inj hiat]
      unfold absDiff
      omega
    · unfold free
      rw [record_self]
      exact decide_eq_true (Nat.le_refl _)
  · intro hne es replays₂ t₂ method' endpoint' accessToken' hrun _ htimes _ r hsecond
    obtain ⟨p', hp', haccepts', -⟩ := verify_ok.mp hsecond
    rw [hp] at hp'
    cases hp'
    have hlate : t₂ < t₁ + 120 :=
      stale_before_expiry haccepts.fresh haccepts'.fresh fun h => hne (congrArg some h)
    have hstays : replays₂ (p.replay j) = some (t₁ + 120) :=
      record_stays id Event.time (fun _ _ _ => Step.keeps) hrun
        (fun e he => Nat.lt_of_le_of_lt (htimes e he).2 hlate) (record_self ..)
    exact free_iff.mp haccepts'.unused ⟨_, hstays, hlate⟩

/-! ## A proof taken twice -/

/-- Libraries under which one token stands for one proof, whose claims are given. -/
def plainJose (claims : Json) : Jose where
  decodeHeader _ := some ⟨some "dpop+jwt".toList, .es256, none, none, none⟩
  rawHeader _ := some (.obj [("jwk".toList, .obj [])])
  publicJwk _ := some ⟨"EC".toList, [], [], none, none, none, none, none⟩
  claims _ _ := some claims
  notBefore _ := 0
  parseUrl url := some url
  jsonText _ := ['k']
  digest := id

/-- The claims of a proof for the token endpoint. -/
def tokenClaims (iat : ℕ) : Json :=
  .obj [("iat".toList, .int iat), ("jti".toList, .str ['j']), ("htm".toList, .str ['P']),
    ("htu".toList, .str ['u'])]

/-- The instants at which a proof dated `iat` is accepted when it is presented at each of these. -/
def acceptedAt (iat : ℕ) (times : List ℕ) : List ℕ :=
  (times.foldl (fun (state : (Text → Option ℕ) × List ℕ) now =>
    match verify (plainJose (tokenClaims iat)) state.1 now ['p'] ['P'] ['u'] none with
    | .ok (_, replays) => (replays, state.2 ++ [now])
    | .error _ => state) (fun _ => none, [])).2

/-- A proof dated 1060, first presented at 1000: refused for two minutes, then taken again. -/
theorem verify_accepts_twice :
    acceptedAt 1060 [1000, 1001, 1060, 1119, 1120, 1121] = [1000, 1120] := by
  decide

/-- A proof dated now is taken once. -/
theorem verify_again_plain : ∃ replays₁, (∀ es replays₂ t₂ method' endpoint' accessToken',
    Run (Step (plainJose (tokenClaims 1000))) replays₁ es replays₂ → Ordered Event.time es →
    (∀ e ∈ es, 1000 ≤ e.time ∧ e.time ≤ t₂) → 1000 ≤ t₂ → ∀ r,
    verify (plainJose (tokenClaims 1000)) replays₂ t₂ ['p'] method' endpoint' accessToken' ≠
      .ok r) := by
  have hfirst : verify (plainJose (tokenClaims 1000)) (fun _ => none) 1000 ['p'] ['P'] ['u'] none =
      .ok (['k'], record (fun _ => none) (['k'] ++ '\x00' :: ['j']) 1120) := rfl
  exact ⟨_, (verify_again_iff hfirst).mpr (by decide)⟩

end RiAuth.Dpop
