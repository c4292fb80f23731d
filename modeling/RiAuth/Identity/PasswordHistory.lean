import RiAuth.Identity.Account
import RiAuth.Lib.Recency

/-!
# The password history

The history of an account is a bounded list of hashes, oldest first, that ends with the hash of the
current password. Every writer of passwords goes through one of `accept` (a password chosen in
clear, refused if the history knows it), `recordImportedHash` (a hash set as it is) and `noteRehash`
(the same password in another form).

* `retain_eq_push`: `retain` is `Recency.push`, after a current hash that the history lacks;
* `not_matches_of_not_reused`: what `accept` lets through matches none of the newest hashes;
* `trim_firsts_replace`: a new form takes the place of the old one.
-/

namespace RiAuth.Identity

open Checks

namespace PasswordHistory

/-- The table: the stored hashes of each account. -/
abbrev Table := Text → Option (List Text)

/-- The hashes kept for a user. -/
def load (t : Table) (userId : Text) : List Text :=
  ((t userId).getD []).filter (· ≠ [])

/-- An empty history has no row. -/
def save (t : Table) (userId : Text) (history : List Text) : Table :=
  Function.update t userId (if history = [] then none else some history)

/-- The newest hashes only. -/
def trim (history : List Text) (limit : ℕ) : List Text :=
  if limit < history.length then history.drop (history.length - limit) else history

/-- The part of `reused` that goes through the history, with the hashes tried so far. -/
def anyMatches (c : Credentials) (plaintext : Text) : List Text → List Text → Bool
  | _, [] => false
  | seen, hash :: rest =>
    if hash = [] ∨ hash ∈ seen then anyMatches c plaintext seen rest
    else if c.passwordMatches plaintext hash then true
    else anyMatches c plaintext (hash :: seen) rest

/-- Whether a password was used before. -/
def reused (c : Credentials) (plaintext : Text) (history : List Text) (currentHash : Text)
    (limit : ℕ) : Bool :=
  if currentHash = [] then anyMatches c plaintext [] (history.reverse.take limit)
  else if c.passwordMatches plaintext currentHash then true
  else anyMatches c plaintext [currentHash] (history.reverse.take limit)

/-- The history with one more hash. -/
def retain (history : List Text) (currentHash hash : Text) (limit : ℕ) : List Text :=
  let history :=
    if currentHash ≠ [] ∧ currentHash ≠ hash ∧ currentHash ∉ history then history ++ [currentHash]
    else history
  let history :=
    if history.getLast? = some hash then history
    else history.filter (· ≠ hash) ++ [hash]
  trim history limit

/-- The history after a new password. -/
def accept (c : Credentials) (limit : ℕ) (t : Table) (userId currentHash plaintext newHash : Text) :
    Result Table :=
  if newHash = [] ∨ limit = 0 then .ok t
  else do
    let history := load t userId
    require (reused c plaintext history currentHash limit = false) (.bad "Password was used recently")
    .ok (save t userId (retain history currentHash newHash limit))

/-- A hash that came from elsewhere. -/
def recordImportedHash (limit : ℕ) (t : Table) (userId currentHash hash : Text) : Table :=
  if hash = [] ∨ limit = 0 then t
  else save t userId (retain (load t userId) currentHash hash limit)

/-- `retain` with a set of what was seen: the first of equal elements stays. -/
def firsts : List Text → List Text → List Text
  | _, [] => []
  | seen, hash :: rest =>
    if hash ∈ seen then firsts seen rest else hash :: firsts (hash :: seen) rest

/-- A rehash takes the place of its old hash. -/
def noteRehash (limit : ℕ) (t : Table) (userId oldHash newHash : Text) : Table :=
  if newHash = [] ∨ limit = 0 ∨ oldHash = newHash then t
  else
    let history := load t userId
    if oldHash ∈ history then
      save t userId (trim (firsts [] (history.replace oldHash newHash)) limit)
    else save t userId (retain history [] newHash limit)

/-! ## Properties -/

theorem trim_eq_rtake (history : List Text) (limit : ℕ) :
    trim history limit = history.rtake limit := by
  unfold trim List.rtake
  split_ifs with h
  · rfl
  · rw [Nat.sub_eq_zero_of_le (Nat.le_of_not_lt h), List.drop_zero]

theorem length_trim_le (history : List Text) (limit : ℕ) : (trim history limit).length ≤ limit := by
  rw [trim_eq_rtake, List.rtake, List.length_drop]
  omega

variable {history : List Text}

/-- `retain` moves the new hash to the end of the history, or of the history with the current hash
where that is missing. -/
theorem retain_eq_push (hnodup : history.Nodup) (currentHash hash : Text) (limit : ℕ) :
    ∃ kept, retain history currentHash hash limit = Recency.push limit kept hash ∧
      kept.Nodup ∧ (kept = history ∨
        kept = history ++ [currentHash] ∧ currentHash ≠ [] ∧ currentHash ∉ history) := by
  have hmove : ∀ kept : List Text, kept.Nodup →
      trim (if kept.getLast? = some hash then kept else kept.filter (· ≠ hash) ++ [hash]) limit =
        Recency.push limit kept hash := by
    intro kept hkept
    rw [trim_eq_rtake, Recency.push]
    split_ifs with hlast
    · -- the hash is at the end already
      obtain ⟨front, rfl⟩ := List.getLast?_eq_some_iff.mp hlast
      have hfront : hash ∉ front := fun hmem =>
        (List.nodup_append.mp hkept).2.2 hash hmem hash List.mem_cons_self rfl
      rw [List.filter_append, List.filter_eq_self.mpr fun x hx =>
        decide_eq_true (ne_of_mem_of_not_mem hx hfront)]
      simp
    · rfl
  unfold retain
  split_ifs with hmissing
  · have hkept : (history ++ [currentHash]).Nodup :=
      List.nodup_append.mpr ⟨hnodup, List.nodup_singleton _, fun x hx y hy heq =>
        hmissing.2.2 (List.mem_singleton.mp hy ▸ heq ▸ hx)⟩
    exact ⟨_, hmove _ hkept, hkept, .inr ⟨rfl, hmissing.1, hmissing.2.2⟩⟩
  · exact ⟨history, hmove _ hnodup, hnodup, .inl rfl⟩

theorem anyMatches_of_mem {c : Credentials} {plaintext hash : Text} {seen rest : List Text}
    (hmem : hash ∈ rest) (hne : hash ≠ []) (hnew : hash ∉ seen)
    (hmatch : c.passwordMatches plaintext hash = true) : anyMatches c plaintext seen rest = true := by
  induction rest generalizing seen with
  | nil => cases hmem
  | cons first rest ih =>
    unfold anyMatches
    split_ifs with hskip hfirst
    · refine ih ?_ hnew
      rcases List.mem_cons.mp hmem with rfl | hmem
      · exact absurd hskip (not_or.mpr ⟨hne, hnew⟩)
      · exact hmem
    · rfl
    · rcases List.mem_cons.mp hmem with rfl | hmem
      · exact absurd hmatch hfirst
      · refine ih hmem fun hseen => ?_
        rcases List.mem_cons.mp hseen with rfl | hseen
        · exact hfirst hmatch
        · exact hnew hseen

/-- A password that was not refused matches none of the newest hashes. -/
theorem not_matches_of_not_reused {c : Credentials} {plaintext currentHash hash : Text} {limit : ℕ}
    (h : reused c plaintext history currentHash limit = false)
    (hmem : hash ∈ history.reverse.take limit) (hne : hash ≠ []) :
    c.passwordMatches plaintext hash = false := by
  by_contra hmatch
  rw [Bool.not_eq_false] at hmatch
  unfold reused at h
  split_ifs at h with hempty hcurrent
  · rw [anyMatches_of_mem hmem hne List.not_mem_nil hmatch] at h
    cases h
  · by_cases hsame : hash = currentHash
    · exact hcurrent (hsame ▸ hmatch)
    · rw [anyMatches_of_mem hmem hne (by simpa using hsame) hmatch] at h
      cases h

theorem firsts_of_nodup {seen : List Text} (h : history.Nodup)
    (hnew : ∀ hash ∈ history, hash ∉ seen) : firsts seen history = history := by
  induction history generalizing seen with
  | nil => rfl
  | cons hash rest ih =>
    obtain ⟨hhash, hrest⟩ := List.nodup_cons.mp h
    obtain ⟨hfirst, hothers⟩ := List.forall_mem_cons.mp hnew
    rw [firsts, if_neg hfirst, ih hrest fun x hx hseen => ?_]
    rcases List.mem_cons.mp hseen with rfl | hseen
    · exact hhash hx
    · exact hothers x hx hseen

/-- One name for another. -/
def renamed (old new hash : Text) : Text := if hash = old then new else hash

theorem replace_eq_map (h : history.Nodup) (old new : Text) :
    history.replace old new = history.map (renamed old new) := by
  induction history with
  | nil => rfl
  | cons hash rest ih =>
    obtain ⟨hhash, hrest⟩ := List.nodup_cons.mp h
    rw [List.replace_cons, List.map_cons]
    by_cases hold : hash = old
    · subst hold
      have hsame : rest.map (renamed hash new) = rest := by
        refine (List.map_congr_left fun x hx => ?_).trans (List.map_id rest)
        exact if_neg (ne_of_mem_of_not_mem hx hhash)
      rw [beq_self_eq_true, hsame, renamed, if_pos rfl]
    · rw [beq_false_of_ne (Ne.symm hold), ih hrest, renamed, if_neg hold]

theorem renamed_injOn {old new : Text} {hashes : List Text} (hnew : new ∉ hashes) :
    ∀ x ∈ hashes, ∀ y ∈ hashes, renamed old new x = renamed old new y → x = y := by
  intro x hx y hy h
  unfold renamed at h
  split_ifs at h with h₁ h₂ h₂
  · exact h₁.trans h₂.symm
  · exact absurd (h ▸ hy) hnew
  · exact absurd (h ▸ hx) hnew
  · exact h

/-- A new form of the current password takes the place of the old one. -/
theorem trim_firsts_replace {old new : Text} {limit : ℕ} (h : history.Nodup) (hnew : new ∉ history)
    (hlength : history.length ≤ limit) :
    trim (firsts [] (history.replace old new)) limit = history.map (renamed old new) := by
  rw [replace_eq_map h]
  have hmap : (history.map (renamed old new)).Nodup :=
    h.map_on (renamed_injOn hnew)
  rw [firsts_of_nodup hmap fun _ _ => List.not_mem_nil, trim, if_neg]
  rw [List.length_map]
  omega

end PasswordHistory

end RiAuth.Identity
