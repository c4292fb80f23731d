import RiAuth.Management.Receipts
import RiAuth.Lib.History

/-!
# Mutations run at most once

A run interleaves calls of `mutation_checked`, any other transactions, the cleanup of receipts and
the scan that redacts them. `Answers` says what is known of the receipt of a call that did its work:
it is the one the call saved, perhaps redacted.

* `mutationChecked_ok`: a call that succeeds was answered from a receipt, or did its work;
* `Answers.step`: until it is deleted, the receipt stays what it is;
* **`mutation_runs_once`**: while the receipt is there, no call with the key does anything.
-/

namespace RiAuth.Management

open Checks Workflow History

variable {D : Type} (digest : Text → Text) (deadline : Text → Receipt → Option ℕ)

/-! ## Runs -/

/-- A transaction of the system. -/
inductive Event (D : Type) where
  | call (m : Mutation D)
  | other (write : Tables D → Result (Tables D × Json))
      (keeps : ∀ s s' answer, write s = .ok (s', answer) → KeepsReceipts s s')
  | cleanup (page : List Text) (now : ℕ)
  | scrub (page : List Text)

/-- The store after a transaction; one that fails leaves it as it was. -/
def settle {α : Type} (s : Tables D) : Result (Tables D × α) → Tables D
  | .ok (s', _) => s'
  | .error _ => s

/-- The tables after an event. -/
def Event.after (s : Tables D) : Event D → Tables D
  | .call m => settle s (m.mutationChecked digest s)
  | .other write _ => settle s (write s)
  | .cleanup page now => Management.cleanup deadline page now s
  | .scrub page => Management.scrub page s

/-- The event leaves the receipt of the key in the store. -/
def Retains (key : Text) (s : Tables D) (e : Event D) (s' : Tables D) : Prop :=
  s' = e.after digest deadline s ∧ s'.receipts key ≠ none

/-! ## One call -/

/-- The call did its work under the key, and saved this receipt. -/
structure Executes (m : Mutation D) (key : Text) (s s' : Tables D) (receipt : Receipt) : Prop where
  ok : m.mutationChecked digest s = .ok (s', receipt.result)
  body : ∃ s₁, m.body s = .ok (s₁, receipt.result)
  actor : ∃ actor, m.principal s = .ok actor ∧
    m.receiptKey digest actor = some (key, receipt.fingerprint) ∧
    receipt.permissions = m.permissions s actor
  unused : s.receipts key = none
  saved : s'.receipts key = some receipt
  expires : receipt.expiresAt = m.savedAt + 86400
  keeps : KeepsReceipts s s'

/-- The call was answered from a receipt. -/
structure Replays (m : Mutation D) (key : Text) (s : Tables D) (receipt : Receipt) : Prop where
  found : s.receipts key = some receipt
  unexpired : m.now < receipt.expiresAt
  actor : ∃ actor, m.principal s = .ok actor ∧
    m.receiptKey digest actor = some (key, receipt.fingerprint) ∧
    receipt.permissions = m.permissions s actor

variable {s s' : Tables D} {key : Text} {saved : Receipt}

theorem replayReceipt_ok {fingerprint : Text} {permissions : Json} {now : ℕ} {answer : Option Json}
    (h : replayReceipt s key fingerprint permissions now = .ok answer) :
    (answer = none ∧ s.receipts key = none) ∨ ∃ receipt, s.receipts key = some receipt ∧
      now < receipt.expiresAt ∧ receipt.fingerprint = fingerprint ∧
      receipt.permissions = permissions ∧ answer = some receipt.result := by
  unfold replayReceipt at h
  cases hfound : s.receipts key with
  | none =>
    rw [hfound] at h
    cases h
    exact .inl ⟨rfl, rfl⟩
  | some receipt =>
    rw [hfound] at h
    obtain ⟨hexpiry, h1⟩ := seq_ok.mp h
    obtain ⟨hfingerprint, h2⟩ := seq_ok.mp h1
    obtain ⟨hpermissions, h3⟩ := seq_ok.mp h2
    cases h3
    exact .inr ⟨receipt, rfl, require_ok.mp hexpiry, require_ok.mp hfingerprint,
      require_ok.mp hpermissions, rfl⟩

/-- A call that succeeds was answered from a receipt, did its work and saved a receipt, or carries
no key. -/
theorem mutationChecked_ok {m : Mutation D} {result : Json}
    (h : m.mutationChecked digest s = .ok (s', result)) :
    (∃ key receipt, Replays digest m key s receipt ∧ s' = s ∧ result = receipt.result) ∨
    (∃ key receipt, Executes digest m key s s' receipt ∧ result = receipt.result) ∨
    ∃ actor, m.principal s = .ok actor ∧ m.receiptKey digest actor = none ∧
      m.body s = .ok (s', result) := by
  obtain ⟨actor, hactor, h1⟩ := bind_ok.mp h
  obtain ⟨replayed, hreplayed, h2⟩ := bind_ok.mp h1
  cases hkey : m.receiptKey digest actor with
  | none =>
    rw [Mutation.replay, hkey] at hreplayed
    cases hreplayed
    obtain ⟨-, h3⟩ := seq_ok.mp h2
    obtain ⟨⟨s₁, result₁⟩, hbody, h4⟩ := bind_ok.mp h3
    simp only [Mutation.save, hkey] at h4
    cases h4
    exact .inr (.inr ⟨actor, hactor, hkey, hbody⟩)
  | some pair =>
    obtain ⟨key, fingerprint⟩ := pair
    rw [Mutation.replay, hkey] at hreplayed
    rcases replayReceipt_ok hreplayed with ⟨rfl, hunused⟩ | ⟨receipt, hfound, hnow, rfl, hscope, rfl⟩
    · obtain ⟨-, h3⟩ := seq_ok.mp h2
      obtain ⟨⟨s₁, result₁⟩, hbody, h4⟩ := bind_ok.mp h3
      simp only [Mutation.save, hkey] at h4
      cases h4
      refine .inr (.inl ⟨key, ⟨fingerprint, m.permissions s actor, result, m.savedAt + 86400⟩,
        ⟨h, ⟨s₁, hbody⟩, ⟨actor, hactor, hkey, rfl⟩, hunused, Function.update_self .., rfl, ?_⟩, rfl⟩)
      intro other receipt hfound
      have hother : other ≠ key := by
        rintro rfl
        rw [hunused] at hfound
        cases hfound
      exact (Function.update_of_ne hother _ _).trans (m.keeps s s₁ _ hbody other receipt hfound)
    · cases h2
      exact .inl ⟨key, receipt, ⟨hfound, hnow, actor, hactor, hkey, hscope⟩, rfl, rfl⟩

/-! ## The receipt along a run -/

/-- A receipt of the key is there: the one that was saved, perhaps redacted. -/
def Answers (key : Text) (saved : Receipt) (s : Tables D) : Prop :=
  ∃ receipt, s.receipts key = some receipt ∧ (receipt = saved ∨ receipt = redact saved)

variable {digest deadline}

theorem Answers.of_keeps (h : Answers key saved s) (hkeeps : KeepsReceipts s s') :
    Answers key saved s' := by
  obtain ⟨receipt, hfound, hsame⟩ := h
  exact ⟨receipt, hkeeps key receipt hfound, hsame⟩

/-- A call leaves every receipt alone that is there. -/
theorem mutationChecked_keeps {m : Mutation D} {result : Json}
    (h : m.mutationChecked digest s = .ok (s', result)) : KeepsReceipts s s' := by
  obtain ⟨key, receipt, -, rfl, -⟩ | ⟨key, receipt, hexecutes, -⟩ | ⟨actor, -, -, hbody⟩ :=
    mutationChecked_ok digest h
  · exact fun _ _ hfound => hfound
  · exact hexecutes.keeps
  · exact m.keeps s s' result hbody

/-- The state after a transaction that may have failed. -/
theorem Answers.of_result {α : Type} (h : Answers key saved s) {r : Result (Tables D × α)}
    (hkeeps : ∀ s' a, r = .ok (s', a) → KeepsReceipts s s') : Answers key saved (settle s r) := by
  cases r with
  | error e => exact h
  | ok pair => exact h.of_keeps (hkeeps pair.1 pair.2 rfl)

/-- What `cleanup` makes of a management receipt: it is deleted a week after it was saved, and
redacted before. -/
theorem cleanupReceipt_eq {receipt : Receipt} {now : ℕ}
    (hscope : receipt.permissions.field "protocol".toList = .null) :
    cleanupReceipt deadline now key receipt =
      if saturatingAdd receipt.expiresAt (6 * 86400) ≤ now then none else some (redact receipt) := by
  unfold cleanupReceipt
  rw [hscope, if_neg nofun]

/-- Until it is deleted, a receipt stays what it is; only `cleanup` deletes it, a week after. -/
theorem Answers.step (h : Answers key saved s)
    (hscope : saved.permissions.field "protocol".toList = .null) (e : Event D) :
    Answers key saved (e.after digest deadline s) ∨
      ((e.after digest deadline s).receipts key = none ∧ ∃ page now, e = .cleanup page now ∧
        saturatingAdd saved.expiresAt (6 * 86400) ≤ now) := by
  cases e with
  | call m => exact .inl (h.of_result fun _ _ => mutationChecked_keeps)
  | other write keeps => exact .inl (h.of_result (keeps s))
  | cleanup page now =>
    obtain ⟨receipt, hfound, hsame⟩ := h
    have hreceipt : receipt.permissions = saved.permissions ∧
        receipt.expiresAt = saved.expiresAt ∧ redact receipt = redact saved := by
      rcases hsame with rfl | rfl
      · exact ⟨rfl, rfl, rfl⟩
      · exact ⟨redact_permissions saved, redact_expiresAt saved, redact_redacted saved⟩
    obtain ⟨hpermissions, hexpires, hredact⟩ := hreceipt
    have hrow : cleanupReceipt deadline now key receipt =
        if saturatingAdd saved.expiresAt (6 * 86400) ≤ now then none else some (redact saved) := by
      rw [cleanupReceipt_eq (hpermissions ▸ hscope), hexpires, hredact]
    have hafter : ((Event.cleanup page now).after digest deadline s).receipts key =
        if key ∈ page then
          if saturatingAdd saved.expiresAt (6 * 86400) ≤ now then none else some (redact saved)
        else some receipt := by
      simp only [Event.after, cleanup, hfound, Option.bind_some, hrow]
    by_cases hpage : key ∈ page
    · rw [if_pos hpage] at hafter
      by_cases hold : saturatingAdd saved.expiresAt (6 * 86400) ≤ now
      · exact .inr ⟨hafter.trans (if_pos hold), page, now, rfl, hold⟩
      · exact .inl ⟨redact saved, hafter.trans (if_neg hold), .inr rfl⟩
    · exact .inl ⟨receipt, hafter.trans (if_neg hpage), hsame⟩
  | scrub page =>
    obtain ⟨receipt, hfound, hsame⟩ := h
    have hredact : redact receipt = redact saved := by
      rcases hsame with rfl | rfl
      · rfl
      · exact redact_redacted saved
    have hafter : ((Event.scrub page : Event D).after digest deadline s).receipts key =
        if key ∈ page then some (redact saved) else some receipt := by
      simp only [Event.after, scrub, hfound, Option.map_some, hredact]
    by_cases hpage : key ∈ page
    · exact .inl ⟨redact saved, hafter.trans (if_pos hpage), .inr rfl⟩
    · exact .inl ⟨receipt, hafter.trans (if_neg hpage), hsame⟩

/-- Along a run that leaves the receipt in the store, it stays what it is. -/
theorem Answers.run {t : Tables D} {es : List (Event D)} (h : Answers key saved s)
    (hscope : saved.permissions.field "protocol".toList = .null)
    (hrun : Run (Retains digest deadline key) s es t) : Answers key saved t := by
  refine hrun.invariant (fun s e s' hstep hs => ?_) h
  obtain ⟨rfl, hretained⟩ := hstep
  exact (hs.step hscope e).resolve_right fun hgone => hretained hgone.1

/-- **Mutations run at most once.** Let a call do its work under a key, and let a run follow that
leaves the receipt in the store. Then a call with the key that succeeds changes nothing: it is
answered from the receipt, within a day, for the same request and the same permissions, and its
answer is the committed result, or what redaction left of it. The receipt goes only by a cleanup, a
week after it was saved. In every store a call whose work fails changes nothing. -/
theorem mutation_runs_once (deadline : Text → Receipt → Option ℕ) {m : Mutation D} {key : Text}
    {s s' t : Tables D} {receipt : Receipt} {es : List (Event D)}
    (h : Executes digest m key s s' receipt)
    (hrun : Run (Retains digest deadline key) s' es t) :
    (∀ (b : Mutation D) (actor : Principal) (fingerprint : Text), b.principal t = .ok actor →
      b.receiptKey digest actor = some (key, fingerprint) →
      ∀ t' result, b.mutationChecked digest t = .ok (t', result) →
        t' = t ∧ fingerprint = receipt.fingerprint ∧
        b.permissions t actor = receipt.permissions ∧ b.now < m.savedAt + 86400 ∧
        (result = receipt.result ∨ legacyMarker receipt = some result)) ∧
    (∀ e : Event D, (e.after digest deadline t).receipts key = none →
      ∃ page now, e = .cleanup page now ∧
        saturatingAdd (m.savedAt + 86400) (6 * 86400) ≤ now) ∧
    ∀ (b : Mutation D) (u : Tables D) (error : Error), b.body u = .error error →
      (Event.call b).after digest deadline u = u := by
  obtain ⟨caller, -, -, hpermissions⟩ := h.actor
  have hscope : receipt.permissions.field "protocol".toList = .null := by
    rw [hpermissions]
    exact managementPermissions_protocol _ _
  have hsaved : Answers key receipt s' := ⟨receipt, h.saved, .inl rfl⟩
  have hanswers := hsaved.run hscope hrun
  refine ⟨fun b actor fingerprint hactor hkey t' result hok => ?_, fun e hgone => ?_,
    fun b u error hbody => ?_⟩
  · obtain ⟨found, hfound, hsame⟩ := hanswers
    obtain ⟨key', replayed, hreplays, rfl, rfl⟩ | ⟨key', executed, hexecutes, rfl⟩ |
      ⟨actor', hactor', hnone, -⟩ := mutationChecked_ok digest hok
    · obtain ⟨actor', hactor', hkey', hscope'⟩ := hreplays.actor
      cases hactor.symm.trans hactor'
      cases hkey.symm.trans hkey'
      cases hfound.symm.trans hreplays.found
      have hunexpired := hreplays.unexpired
      rcases hsame with rfl | rfl
      · exact ⟨rfl, rfl, hscope'.symm, h.expires ▸ hunexpired, .inl rfl⟩
      · rw [redact_expiresAt, h.expires] at hunexpired
        rw [redact_permissions] at hscope'
        refine ⟨rfl, redact_fingerprint receipt, hscope'.symm, hunexpired, ?_⟩
        unfold redact redactLegacyIssuance
        cases legacyMarker receipt with
        | none => exact .inl rfl
        | some marker => exact .inr rfl
    · obtain ⟨actor', hactor', hkey', -⟩ := hexecutes.actor
      cases hactor.symm.trans hactor'
      cases hkey.symm.trans hkey'
      cases hfound.symm.trans hexecutes.unused
    · cases hactor.symm.trans hactor'
      cases hkey.symm.trans hnone
  · rcases hanswers.step hscope e with ⟨found, hfound, -⟩ | ⟨-, page, now, rfl, hold⟩
    · cases hgone.symm.trans hfound
    · exact ⟨page, now, rfl, h.expires ▸ hold⟩
  · change settle u (b.mutationChecked digest u) = u
    cases hok : b.mutationChecked digest u with
    | error e => rfl
    | ok pair =>
      obtain ⟨_, _, -, hsame, -⟩ | ⟨_, _, hexecutes, -⟩ | ⟨_, -, -, hbody'⟩ :=
        mutationChecked_ok digest hok
      · exact hsame
      · obtain ⟨s₁, hbody'⟩ := hexecutes.body
        cases hbody.symm.trans hbody'
      · cases hbody.symm.trans hbody'

/-! ## Examples -/

/-- A mutation of a counter, by an administrator, that answers with a credential. -/
def rotate : Mutation ℕ where
  now := 1000
  savedAt := 1000
  ordered := le_rfl
  principal _ := .ok ⟨"admin".toList, false, false, [], []⟩
  generation _ _ := 0
  context := some ⟨some "retry".toList, "fp".toList, none⟩
  check _ _ _ := .ok ()
  body s := .ok ({ s with data := s.data + 1 },
    .obj [("client_id".toList, .str "c".toList),
      ("client_secret".toList, .str "ri_client_x".toList)])
  keeps := by
    rintro s s' result ⟨⟩ key receipt hfound
    exact hfound

/-- The key of its receipt. -/
def rotateKey : Text := "admin".toList ++ '\x00' :: "retry".toList

/-- The receipt that the mutation saves. -/
def rotateReceipt : Receipt where
  fingerprint := "fp".toList
  permissions := .arr []
  result := .obj [("client_id".toList, .str "c".toList),
    ("client_secret".toList, .str "ri_client_x".toList)]
  expiresAt := 87400

theorem rotate_executes :
    Executes id rotate rotateKey ⟨0, fun _ => none⟩
      ⟨1, Function.update (fun _ => none) rotateKey (some rotateReceipt)⟩ rotateReceipt where
  ok := rfl
  body := ⟨_, rfl⟩
  actor := ⟨_, rfl, rfl, rfl⟩
  unused := rfl
  saved := by simp only [Function.update_self]
  expires := rfl
  keeps := nofun

/-- The store after a mutation and a cleanup, and the receipt in it. -/
def cleanedUp : Tables ℕ :=
  cleanup (fun _ _ => none) [rotateKey] 2000
    ⟨1, Function.update (fun _ => none) rotateKey (some rotateReceipt)⟩

/-- Another transaction that writes to the counter. -/
def bump : Event ℕ :=
  .other (fun s => .ok ({ s with data := s.data + 10 }, .null)) (by
    rintro s s' answer ⟨⟩ key receipt hfound
    exact hfound)

theorem bump_retains {s : Tables ℕ} (h : s.receipts key ≠ none) :
    Retains id (fun _ _ => none) key s bump { s with data := s.data + 10 } :=
  ⟨rfl, h⟩

theorem cleanedUp_receipt : cleanedUp.receipts rotateKey =
    some { rotateReceipt with result := issued "client_id" "c".toList } := by
  decide

/-- The answer to a retry after a cleanup is not the committed one: the credential is gone. -/
theorem retry_is_redacted :
    ∃ s t : Tables ℕ, Executes id rotate rotateKey ⟨0, fun _ => none⟩ s rotateReceipt ∧
      Run (Retains id (fun _ _ => none) rotateKey) s [.cleanup [rotateKey] 2000] t ∧
      ∃ result, rotate.mutationChecked id t = .ok (t, result) ∧ result ≠ rotateReceipt.result := by
  refine ⟨_, cleanedUp, rotate_executes, .single ⟨rfl, ?_⟩, issued "client_id" "c".toList, ?_, ?_⟩
  · rw [cleanedUp_receipt]
    exact Option.some_ne_none _
  · have hreplay : rotate.replay id cleanedUp ⟨"admin".toList, false, false, [], []⟩ =
        .ok (some (issued "client_id" "c".toList)) := by
      change replayReceipt cleanedUp rotateKey "fp".toList (.arr []) 1000 = _
      rw [replayReceipt, cleanedUp_receipt]
      rfl
    change (do
      let replayed ← rotate.replay id cleanedUp ⟨"admin".toList, false, false, [], []⟩
      _ : Result (Tables ℕ × Json)) = _
    rw [hreplay]
    rfl
  · decide

/-- A retry after another write and a cleanup changes nothing, and is answered with what the cleanup
left of the result. -/
theorem mutation_runs_once_retry :
    ∃ s t : Tables ℕ, Executes id rotate rotateKey ⟨0, fun _ => none⟩ s rotateReceipt ∧
      Run (Retains id (fun _ _ => none) rotateKey) s [.cleanup [rotateKey] 2000, bump] t ∧
      t.data = 11 ∧ ∀ t' result, rotate.mutationChecked id t = .ok (t', result) →
        t' = t ∧ (result = rotateReceipt.result ∨ legacyMarker rotateReceipt = some result) := by
  have hcleaned : cleanedUp.receipts rotateKey ≠ none := by
    rw [cleanedUp_receipt]
    exact Option.some_ne_none _
  have hrun : Run (Retains id (fun _ _ => none) rotateKey)
      ⟨1, Function.update (fun _ => none) rotateKey (some rotateReceipt)⟩
      [.cleanup [rotateKey] 2000, bump] { cleanedUp with data := cleanedUp.data + 10 } :=
    .cons ⟨rfl, hcleaned⟩ (.single (bump_retains hcleaned))
  have hdata : cleanedUp.data = 1 := rfl
  refine ⟨_, _, rotate_executes, hrun, congrArg (· + 10) hdata, fun t' result hok => ?_⟩
  have honce := (mutation_runs_once (fun _ _ => none) rotate_executes hrun).1 rotate _ _ rfl rfl
    t' result hok
  exact ⟨honce.1, honce.2.2.2.2⟩

end RiAuth.Management
