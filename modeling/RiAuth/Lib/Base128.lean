import Mathlib.Tactic.Positivity
import Mathlib.Tactic.Ring
import RiAuth.Lib.Framing

/-!
# Numbers in base 128

A number is spelled by its base-128 digits, least significant first; every byte but the last has its
top bit set. The same number has many spellings, but a spelling ends where it ends.

* `Spells`: the spellings of a number;
* `readFrom`: a reader that stops at a number of bytes and refuses some last bytes;
* **`readFrom_zero`**: it reads the spellings that are short enough of the numbers that are small
  enough, and nothing else.
-/

namespace Base128

open Framing

/-- The bytes spell the number, the low digit first. -/
inductive Spells : Bytes → ℕ → Prop
  | last {b : UInt8} : b.toNat < 128 → Spells [b] b.toNat
  | more {b : UInt8} {bs : Bytes} {n : ℕ} : 128 ≤ b.toNat → Spells bs n →
    Spells (b :: bs) (b.toNat - 128 + 128 * n)

theorem Spells.ne_nil {bs : Bytes} {n : ℕ} (h : Spells bs n) : bs ≠ [] := by
  cases h <;> exact List.cons_ne_nil _ _

theorem Spells.append_ne_nil {bs rest : Bytes} {n : ℕ} (h : Spells bs n) : [] ≠ bs ++ rest :=
  fun heq => h.ne_nil (List.append_eq_nil_iff.mp heq.symm).1

/-- **A spelling ends where it ends**, whatever comes after it. -/
theorem Spells.append_inj {bs bs' rest rest' : Bytes} {n n' : ℕ} (h : Spells bs n)
    (h' : Spells bs' n') (heq : bs ++ rest = bs' ++ rest') : bs = bs' ∧ n = n' ∧ rest = rest' := by
  induction h generalizing bs' n' with
  | @last b hb =>
    cases h' with
    | last hb' =>
      obtain ⟨rfl, rfl⟩ := List.cons.inj heq
      exact ⟨rfl, rfl, rfl⟩
    | more hb' _ =>
      obtain ⟨rfl, -⟩ := List.cons.inj heq
      omega
  | @more b bs n hb _ ih =>
    cases h' with
    | last hb' =>
      obtain ⟨rfl, -⟩ := List.cons.inj heq
      omega
    | more hb' hs' =>
      obtain ⟨rfl, htail⟩ := List.cons.inj heq
      obtain ⟨rfl, rfl, rfl⟩ := ih hs' htail
      exact ⟨rfl, rfl, rfl⟩

/-- Read at most `limit` bytes, the digits from `shift` on, over the value so far. The last byte
that may be read is refused by some condition of its own. -/
def readFrom (refused : UInt8 → Bool) : ℕ → ℕ → ℕ → Bytes → Option (ℕ × Bytes)
  | 0, _, _, _ => none
  | _ + 1, _, _, [] => none
  | limit + 1, shift, value, b :: rest =>
    if limit = 0 && refused b then none
    else
      let value := value ||| (b.toNat % 128) <<< shift
      if b.toNat < 128 then some (value, rest) else readFrom refused limit (shift + 7) value rest

section

variable {refused : UInt8 → Bool} {top : ℕ}

theorem or_shiftLeft {value shift : ℕ} (h : value < 2 ^ shift) (digit : ℕ) :
    value ||| digit <<< shift = value + 2 ^ shift * digit := by
  rw [Nat.or_comm, ← Nat.shiftLeft_add_eq_or_of_lt h, Nat.shiftLeft_eq, Nat.mul_comm, Nat.add_comm]

/-- What is read, over the value so far. -/
theorem readFrom_iff (hrefused : ∀ b, b.toNat < 128 → (refused b = true ↔ top < b.toNat))
    {limit shift value : ℕ} (hvalue : value < 2 ^ shift) {bs rest : Bytes} {n : ℕ} :
    readFrom refused (limit + 1) shift value bs = some (n, rest) ↔
      ∃ pre m, bs = pre ++ rest ∧ Spells pre m ∧ pre.length ≤ limit + 1 ∧
        m < (top + 1) * 128 ^ limit ∧ n = value + 2 ^ shift * m := by
  induction limit generalizing shift value bs n with
  | zero =>
    cases bs with
    | nil =>
      constructor
      · rintro ⟨⟩
      · rintro ⟨pre, m, heq, hs, -⟩
        exact absurd heq hs.append_ne_nil
    | cons b bs =>
      rw [readFrom]
      constructor
      · intro h
        split_ifs at h with hbad hlast
        · obtain ⟨rfl, rfl⟩ := Prod.mk.inj (Option.some.inj h)
          refine ⟨[b], b.toNat, rfl, .last hlast, le_rfl, ?_, ?_⟩
          · have hle : ¬ top < b.toNat := fun hlt => hbad (by simp [(hrefused b hlast).mpr hlt])
            omega
          · rw [Nat.mod_eq_of_lt hlast, or_shiftLeft hvalue]
        · cases h
      · rintro ⟨pre, m, heq, hs, hlen, hm, rfl⟩
        cases hs with
        | @last c hc =>
          obtain ⟨rfl, rfl⟩ := List.cons.inj heq
          have hok : ¬ refused b = true := by
            rw [hrefused b hc]
            omega
          rw [if_neg (by simp [hok]), if_pos hc, Nat.mod_eq_of_lt hc, or_shiftLeft hvalue]
        | more hc hs =>
          have hpos := List.length_pos_iff.mpr hs.ne_nil
          rw [List.length_cons] at hlen
          omega
  | succ limit ih =>
    cases bs with
    | nil =>
      constructor
      · rintro ⟨⟩
      · rintro ⟨pre, m, heq, hs, -⟩
        exact absurd heq hs.append_ne_nil
    | cons b bs =>
      have hdigit : b.toNat % 128 < 128 := Nat.mod_lt _ (by decide)
      have hvalue' : value ||| (b.toNat % 128) <<< shift < 2 ^ (shift + 7) := by
        rw [or_shiftLeft hvalue, Nat.pow_add]
        have := Nat.mul_le_mul_left (2 ^ shift) (Nat.le_of_lt_succ hdigit)
        omega
      have hpow : (top + 1) * 128 ^ (limit + 1) = 128 * ((top + 1) * 128 ^ limit) := by ring
      have hpos : 0 < (top + 1) * 128 ^ limit := by positivity
      rw [readFrom, if_neg (by simp)]
      by_cases hlast : b.toNat < 128
      · rw [if_pos hlast, Nat.mod_eq_of_lt hlast, or_shiftLeft hvalue]
        constructor
        · intro h
          obtain ⟨rfl, rfl⟩ := Prod.mk.inj (Option.some.inj h)
          exact ⟨[b], b.toNat, rfl, .last hlast, by simp, by omega, rfl⟩
        · rintro ⟨pre, m, heq, hs, -, -, rfl⟩
          obtain ⟨rfl, rfl, rfl⟩ := @Spells.append_inj _ _ bs _ _ _ (.last hlast) hs heq
          rfl
      · rw [if_neg hlast]
        have hrest : b.toNat % 128 = b.toNat - 128 := by
          have := b.toNat_lt
          omega
        have hsum : ∀ m : ℕ, value + 2 ^ shift * (b.toNat - 128 + 128 * m) =
            value + 2 ^ shift * (b.toNat - 128) + 2 ^ (shift + 7) * m := by
          intro m
          rw [Nat.pow_add]
          ring
        rw [ih hvalue', or_shiftLeft hvalue, hrest]
        constructor
        · rintro ⟨pre, m, rfl, hs, hlen, hm, rfl⟩
          refine ⟨b :: pre, _, rfl, .more (not_lt.mp hlast) hs, ?_, ?_, (hsum m).symm⟩
          · exact Nat.succ_le_succ hlen
          · have := b.toNat_lt
            omega
        · rintro ⟨pre, m, heq, hs, hlen, hm, rfl⟩
          cases hs with
          | last hc =>
            obtain ⟨rfl, -⟩ := List.cons.inj heq
            exact absurd hc hlast
          | @more c pre m hc hs =>
            obtain ⟨rfl, rfl⟩ := List.cons.inj heq
            refine ⟨pre, m, rfl, hs, Nat.le_of_succ_le_succ hlen, by omega, hsum m⟩

theorem readFrom_zero (hrefused : ∀ b, b.toNat < 128 → (refused b = true ↔ top < b.toNat))
    {limit : ℕ} {bs rest : Bytes} {n : ℕ} :
    readFrom refused (limit + 1) 0 0 bs = some (n, rest) ↔ ∃ pre, bs = pre ++ rest ∧
      Spells pre n ∧ pre.length ≤ limit + 1 ∧ n < (top + 1) * 128 ^ limit := by
  rw [readFrom_iff hrefused Nat.one_pos]
  simp only [Nat.zero_add, Nat.pow_zero, Nat.one_mul]
  constructor
  · rintro ⟨pre, m, rfl, hs, hlen, hm, rfl⟩
    exact ⟨pre, rfl, hs, hlen, hm⟩
  · rintro ⟨pre, rfl, hs, hlen, hn⟩
    exact ⟨pre, n, rfl, hs, hlen, hn, rfl⟩

end

/-- A number below 128 is spelled by its byte. -/
theorem spells_singleton {n : ℕ} (h : n < 128) : Spells [UInt8.ofNat n] n := by
  have hn : (UInt8.ofNat n).toNat = n := by
    rw [UInt8.toNat_ofNat']
    exact Nat.mod_eq_of_lt (by omega)
  have hs : Spells [UInt8.ofNat n] (UInt8.ofNat n).toNat := .last (by omega)
  rwa [hn] at hs

end Base128
