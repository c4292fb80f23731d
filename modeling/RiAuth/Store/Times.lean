import RiAuth.Store.Names

/-!
# Indexes by time

An index by time keys its rows with the padded time and the digest of the record's identifier, so
its rows lie in the order of their times.

* `indexKey`, `keyTime`: the key of a row, and the time read back from it;
* `indexKey_lt_iff`: **the rows of an index lie by time, then by digest.**
-/

namespace RiAuth.Store

/-- `str::parse::<u64>`: digits, after an optional sign; the value must fit. -/
def parseU64 (t : Text) : Option ℕ :=
  let digits := if t.head? = some '+' then t.tail else t
  let value := Nat.ofDigitChars 10 digits 0
  if digits ≠ [] ∧ digits.all Char.isDigit ∧ value ≤ u64Max then some value else none

/-- The key of a row. -/
def indexKey (digest : Text → Text) (time : ℕ) (id : Text) : Text :=
  padded time ++ '/' :: digest id

/-- The time in a row's key: what stands before its first slash. -/
def keyTime (key : Text) : Option ℕ := parseU64 (root key)

/-! ## Reading a time back -/

variable {n : ℕ} {digest : Text → Text}

theorem isDigit_of_mem_padded {c : Char} (h : c ∈ padded n) : c.isDigit = true := by
  rcases List.mem_append.mp h with h | h
  · rw [List.eq_of_mem_replicate h]
    decide
  · exact Nat.isDigit_of_mem_toDigits (by decide) (by decide) h

theorem parseU64_padded (h : n ≤ u64Max) : parseU64 (padded n) = some n := by
  have hne : padded n ≠ [] := fun hnil => by
    have hlen := congrArg List.length hnil
    have hpos : 0 < (Nat.toDigits 10 n).length := Nat.length_toDigits_pos
    simp only [padded, List.length_append, List.length_replicate, List.length_nil] at hlen
    omega
  have hsign : (padded n).head? ≠ some '+' := fun hhead => by
    have hdigit := isDigit_of_mem_padded (List.mem_of_head? hhead)
    revert hdigit
    decide
  have hdigits : (padded n).all Char.isDigit = true :=
    List.all_eq_true.mpr fun c hc => isDigit_of_mem_padded hc
  simp only [parseU64, if_neg hsign, ofDigitChars_padded]
  exact if_pos ⟨hne, hdigits, h⟩

theorem keyTime_indexKey {time : ℕ} {id : Text} (h : time ≤ u64Max) :
    keyTime (indexKey digest time id) = some time := by
  rw [keyTime, indexKey, root_append_slash (slash_notMem_padded time), parseU64_padded h]

/-! ## The order of the rows -/

theorem length_padded (h : n ≤ u64Max) : (padded n).length = 20 := by
  have hlen : (Nat.toDigits 10 n).length ≤ 20 := by
    rw [Nat.length_toDigits_le_iff (by decide) (by decide)]
    rw [u64Max] at h
    omega
  simp only [padded, List.length_append, List.length_replicate]
  omega

/-- Numbers of equally many digits compare as their texts do. -/
theorem ofDigitChars_lt_iff {l l' : Text} (hlen : l.length = l'.length)
    (hl : ∀ c ∈ l, c.isDigit = true) (hl' : ∀ c ∈ l', c.isDigit = true) (a b : ℕ) :
    Nat.ofDigitChars 10 l a < Nat.ofDigitChars 10 l' b ↔ a < b ∨ a = b ∧ l < l' := by
  induction l generalizing l' a b with
  | nil =>
    obtain rfl : l' = [] := List.length_eq_zero_iff.mp hlen.symm
    simp
  | cons c l ih =>
    cases l' with
    | nil => simp at hlen
    | cons d l' =>
      have hc := hl c List.mem_cons_self
      have hd := hl' d List.mem_cons_self
      simp only [Char.isDigit, Bool.and_eq_true, decide_eq_true_eq] at hc hd
      have hc' : 48 ≤ c.toNat ∧ c.toNat ≤ 57 := hc
      have hd' : 48 ≤ d.toNat ∧ d.toNat ≤ 57 := hd
      have hlt : c < d ↔ c.toNat < d.toNat := Iff.rfl
      have heq : c = d ↔ c.toNat = d.toNat := Char.toNat_inj.symm
      rw [Nat.ofDigitChars_cons, Nat.ofDigitChars_cons,
        ih (by simpa using hlen) (fun x hx => hl x (List.mem_cons_of_mem _ hx))
          (fun x hx => hl' x (List.mem_cons_of_mem _ hx)),
        List.cons_lt_cons_iff, hlt, heq]
      have hzero : '0'.toNat = 48 := rfl
      rw [hzero]
      by_cases htail : l < l' <;> simp only [htail, and_true, and_false, or_false] <;> omega

theorem append_lt_append_iff {l l' : Text} (hlen : l.length = l'.length) (x y : Text) :
    l ++ x < l' ++ y ↔ l < l' ∨ l = l' ∧ x < y := by
  induction l generalizing l' with
  | nil =>
    obtain rfl : l' = [] := List.length_eq_zero_iff.mp hlen.symm
    simp
  | cons c l ih =>
    cases l' with
    | nil => simp at hlen
    | cons d l' =>
      rw [List.cons_append, List.cons_append, List.cons_lt_cons_iff, List.cons_lt_cons_iff,
        ih (by simpa using hlen), List.cons.injEq]
      tauto

/-- **The rows of an index lie by time, then by digest.** -/
theorem indexKey_lt_iff {s t : ℕ} {i j : Text} (hs : s ≤ u64Max) (ht : t ≤ u64Max) :
    indexKey digest s i < indexKey digest t j ↔ s < t ∨ s = t ∧ digest i < digest j := by
  have hlen : (padded s).length = (padded t).length := by rw [length_padded hs, length_padded ht]
  have hlt : padded s < padded t ↔ s < t := by
    have := ofDigitChars_lt_iff hlen (fun c => isDigit_of_mem_padded)
      (fun c => isDigit_of_mem_padded) 0 0
    rw [ofDigitChars_padded, ofDigitChars_padded] at this
    simpa using this.symm
  rw [indexKey, indexKey, append_lt_append_iff hlen, hlt, padded_injective.eq_iff,
    List.cons_lt_cons_iff]
  simp

theorem indexKey_inj (hdigest : Function.Injective digest) {s t : ℕ} {i j : Text} :
    indexKey digest s i = indexKey digest t j ↔ s = t ∧ i = j := by
  constructor
  · intro h
    have hroot := congrArg root h
    rw [indexKey, indexKey, root_append_slash (slash_notMem_padded s),
      root_append_slash (slash_notMem_padded t)] at hroot
    obtain rfl := padded_injective hroot
    exact ⟨rfl, hdigest (List.cons.inj (List.append_cancel_left h)).2⟩
  · rintro ⟨rfl, rfl⟩
    rfl

end RiAuth.Store
