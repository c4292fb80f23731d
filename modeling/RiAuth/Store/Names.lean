import RiAuth.Store.Tx
import Mathlib.Logic.Equiv.List

/-!
# Record names

A record is named `bucket/key`. The part of a name before its first slash is its *root*; a bucket
without a slash owns exactly the names with its root.

* `splitRecordKey`      — bucket and key, read off a name.
* `padded_injective`    — zero-padded times can be read back from an index key.
-/

namespace RiAuth.Store

/-- The part of a name before its first slash. -/
def root (name : Text) : Text := name.takeWhile (· ≠ '/')

theorem root_append_slash {b : Text} (hb : '/' ∉ b) (k : Text) : root (b ++ '/' :: k) = b := by
  unfold root
  rw [List.takeWhile_append_of_pos]
  · simp
  · intro c hc
    simpa using fun h : c = '/' => hb (h ▸ hc)

theorem root_recordKey {b : Text} (hb : '/' ∉ b) (k : Text) : root (recordKey b k) = b :=
  root_append_slash hb k

/-- Bucket and key of a name, both nonempty. -/
def splitRecordKey (name : Text) : Result (Text × Text) :=
  match name.dropWhile (· ≠ '/') with
  | [] => .error (.bad "Invalid backup record key")
  | _ :: key =>
    if root name = [] ∨ key = [] then .error (.bad "Invalid backup record key")
    else .ok (root name, key)

theorem splitRecordKey_recordKey {b k : Text} (hb : '/' ∉ b) (hne : b ≠ []) (hk : k ≠ []) :
    splitRecordKey (recordKey b k) = .ok (b, k) := by
  have hdrop : (recordKey b k).dropWhile (· ≠ '/') = '/' :: k := by
    unfold recordKey
    rw [List.dropWhile_append_of_pos]
    · simp
    · intro c hc
      simpa using fun h : c = '/' => hb (h ▸ hc)
  unfold splitRecordKey
  rw [hdrop, root_recordKey hb]
  simp [hne, hk]

/-! ## Times in names -/

/-- `format!("\x7bat:020\x7d")`: decimal, padded with zeros to twenty digits. -/
def padded (n : ℕ) : Text :=
  List.replicate (20 - (Nat.toDigits 10 n).length) '0' ++ Nat.toDigits 10 n

theorem ofDigitChars_padded (n : ℕ) : Nat.ofDigitChars 10 (padded n) 0 = n := by
  rw [padded, Nat.ofDigitChars_append, Nat.ofDigitChars_replicate_zero, Nat.mul_zero,
    Nat.ofDigitChars_toDigits (by decide) (by decide)]

theorem padded_injective : Function.Injective padded :=
  Function.LeftInverse.injective ofDigitChars_padded

theorem slash_notMem_padded (n : ℕ) : '/' ∉ padded n := by
  intro h
  rcases List.mem_append.mp h with h | h
  · have := List.eq_of_mem_replicate h
    revert this
    decide
  · have := Nat.isDigit_of_mem_toDigits (by decide) (by decide) h
    revert this
    decide

/-- A digest that is easy to compute: the decimal code of the text. -/
def codeDigest (t : Text) : Text := padded (Encodable.encode (t.map Char.toNat))

theorem codeDigest_injective : Function.Injective codeDigest := by
  intro a b h
  have hmap := Encodable.encode_injective (padded_injective h)
  exact List.map_injective_iff.mpr (fun c d hcd => Char.toNat_inj.mp hcd) hmap

end RiAuth.Store
