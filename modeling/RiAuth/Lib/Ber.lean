import RiAuth.Lib.Framing

/-!
# Basic encoding rules

Values as tag, length and contents, with lengths of definite form: one byte below 128, or a byte
that counts the bytes of the length. A length may be written with more bytes than it needs; the
contents of an integer may not.

* `Length`, `Tlv`: lengths, and values with a tag;
* `Contents`: the contents of an integer that is not negative;
* `OctetString`: a byte string, in one piece or made of others.
-/

namespace Ber

open Framing

/-- The bytes of a length, up to four after the first one. -/
inductive Length : ℕ → Bytes → Prop
  | short {n : ℕ} (h : n < 128) : Length n [UInt8.ofNat n]
  | long {n width : ℕ} (hwidth : 0 < width ∧ width ≤ 4) (h : n < 256 ^ width) :
      Length n (UInt8.ofNat (128 + width) :: bigEndian width n)

/-- The bytes are a value with the tag and the contents. -/
def Tlv (tag : UInt8) (contents bytes : Bytes) : Prop :=
  ∃ length, Length contents.length length ∧ bytes = tag :: (length ++ contents)

/-! ## Integers -/

/-- The sign bit is clear. -/
def NonNegative : Bytes → Prop
  | [] => False
  | b :: _ => b < 128

/-- The first nine bits are not all zero. -/
def Shortest : Bytes → Prop
  | 0 :: b :: _ => 128 ≤ b
  | _ => True

/-- The contents of a number, as two's complement has it. -/
structure Contents (n : ℕ) (bytes : Bytes) : Prop where
  value : fromBigEndian bytes = n
  sign : NonNegative bytes
  shortest : Shortest bytes

theorem fromBigEndian_cons (b : UInt8) (bytes : Bytes) :
    fromBigEndian (b :: bytes) = b.toNat * 256 ^ bytes.length + fromBigEndian bytes := by
  induction bytes using List.reverseRecOn with
  | nil => simp [fromBigEndian]
  | append_singleton bytes c ih =>
    rw [← List.cons_append, fromBigEndian_append, ih, fromBigEndian_append, List.length_append,
      List.length_singleton, pow_succ, Nat.add_mul, Nat.mul_assoc, Nat.add_assoc]

variable {bytes : Bytes}

/-- A number that is too short for its bytes is written with leading zeros. -/
theorem exists_contents (h : NonNegative bytes) :
    ∃ zeros least, bytes = List.replicate zeros 0 ++ least ∧
      Contents (fromBigEndian bytes) least := by
  induction bytes with
  | nil => cases h
  | cons b bytes ih =>
    by_cases hshort : Shortest (b :: bytes)
    · exact ⟨0, b :: bytes, rfl, rfl, h, hshort⟩
    · -- a zero that could be left out
      obtain ⟨rfl, c, rest, rfl, hc⟩ : b = 0 ∧ ∃ c rest, bytes = c :: rest ∧ c < 128 := by
        unfold Shortest at hshort
        split at hshort
        · next c rest heq =>
          obtain ⟨rfl, rfl⟩ := List.cons.inj heq
          exact ⟨rfl, c, rest, rfl, UInt8.not_le.mp hshort⟩
        · exact absurd trivial hshort
      obtain ⟨zeros, least, hbytes, hleast⟩ := ih hc
      refine ⟨zeros + 1, least, ?_, ?_⟩
      · rw [List.replicate_succ, List.cons_append, ← hbytes]
      · rwa [fromBigEndian_cons, UInt8.toNat_zero, Nat.zero_mul, Nat.zero_add]

/-- Four bytes with a clear sign bit hold the numbers below `2 ^ 31`. -/
theorem NonNegative.fromBigEndian_lt (h : NonNegative bytes) (hlength : bytes.length ≤ 4) :
    fromBigEndian bytes < 2 ^ 31 := by
  cases bytes with
  | nil => cases h
  | cons b bytes =>
    have hb : b.toNat < 128 := h
    have hrest := Framing.fromBigEndian_lt bytes
    have hpow : 256 ^ bytes.length ≤ 256 ^ 3 :=
      Nat.pow_le_pow_right (by decide) (Nat.le_of_succ_le_succ hlength)
    rw [fromBigEndian_cons]
    calc b.toNat * 256 ^ bytes.length + fromBigEndian bytes
        < b.toNat * 256 ^ bytes.length + 256 ^ bytes.length := Nat.add_lt_add_left hrest _
      _ = (b.toNat + 1) * 256 ^ bytes.length := (Nat.succ_mul _ _).symm
      _ ≤ 128 * 256 ^ 3 := Nat.mul_le_mul hb hpow

/-- A number below `2 ^ 31` needs no more than four bytes. -/
theorem Contents.length_le {n : ℕ} (h : Contents n bytes) (hn : n < 2 ^ 31) : bytes.length ≤ 4 := by
  by_contra hlong
  obtain ⟨b, c, rest, rfl⟩ : ∃ b c rest, bytes = b :: c :: rest := by
    rcases bytes with - | ⟨b, - | ⟨c, rest⟩⟩
    · exact absurd (Nat.zero_le 4) hlong
    · exact absurd (by decide : 1 ≤ 4) hlong
    · exact ⟨b, c, rest, rfl⟩
  have hpow : 256 ^ 3 ≤ 256 ^ rest.length :=
    Nat.pow_le_pow_right (by decide) (by simp only [List.length_cons] at hlong; omega)
  have hvalue := h.value
  rw [fromBigEndian_cons, fromBigEndian_cons, List.length_cons, pow_succ] at hvalue
  by_cases hb : b = 0
  · have hc : 128 ≤ c.toNat := by
      have hshort := h.shortest
      rw [hb] at hshort
      exact hshort
    have := Nat.mul_le_mul hc hpow
    omega
  · have hb' : 1 ≤ b.toNat := by
      rw [Nat.one_le_iff_ne_zero]
      exact fun hzero => hb (UInt8.toNat_inj.mp hzero)
    have := Nat.mul_le_mul hb' (Nat.mul_le_mul_right 256 hpow)
    omega

/-! ## Byte strings -/

/-- A byte string, in one piece or as a series of byte strings. -/
inductive OctetString : Bytes → Bytes → Prop
  | primitive {contents bytes : Bytes} (h : Tlv 0x04 contents bytes) : OctetString contents bytes
  | constructed {parts : List (Bytes × Bytes)} {bytes : Bytes}
      (hparts : ∀ part ∈ parts, OctetString part.1 part.2)
      (h : Tlv 0x24 (parts.flatMap Prod.snd) bytes) : OctetString (parts.flatMap Prod.fst) bytes

end Ber
