import Mathlib.Algebra.Order.Ring.Nat
import Mathlib.Data.UInt

/-!
# Length-prefixed blocks

A byte stream of blocks, each a kind byte, the length of the payload as four big-endian bytes, and
the payload. Such a stream can be read in one way only.

* `fromBigEndian_bigEndian`: numbers are read back from their bytes;
* `encode_append_inj`: where one block ends, and what follows it, is fixed by the bytes;
* `not_initial`: a stream cut before its last block holds no complete block of another kind.
-/

namespace Framing

/-- A byte string. -/
abbrev Bytes := List UInt8

-- A check of all bytes of a text runs along the text, not along all bytes there are.
instance (priority := 2000) Bytes.decidableBAll (t : List UInt8) (p : UInt8 → Prop)
    [DecidablePred p] : Decidable (∀ b ∈ t, p b) := List.decidableBAll p t

/-! ## Numbers -/

/-- The last `width` base-256 digits, most significant first. -/
def bigEndian : ℕ → ℕ → Bytes
  | 0, _ => []
  | width + 1, n => bigEndian width (n / 256) ++ [UInt8.ofNat n]

/-- The number that bytes spell, highest first. -/
def fromBigEndian (bytes : Bytes) : ℕ := bytes.foldl (fun n b => n * 256 + b.toNat) 0

@[simp] theorem length_bigEndian (width n : ℕ) : (bigEndian width n).length = width := by
  induction width generalizing n with
  | zero => rfl
  | succ width ih => rw [bigEndian, List.length_append, ih, List.length_singleton]

theorem fromBigEndian_bigEndian {width n : ℕ} (h : n < 256 ^ width) :
    fromBigEndian (bigEndian width n) = n := by
  induction width generalizing n with
  | zero =>
    rw [pow_zero, Nat.lt_one_iff] at h
    rw [h]
    rfl
  | succ width ih =>
    have hdiv : n / 256 < 256 ^ width := by
      rw [Nat.div_lt_iff_lt_mul (by decide)]
      simpa [pow_succ] using h
    have hdigits := ih hdiv
    unfold fromBigEndian at hdigits ⊢
    rw [bigEndian, List.foldl_append, hdigits]
    change n / 256 * 256 + (UInt8.ofNat n).toNat = n
    rw [UInt8.toNat_ofNat']
    omega

theorem fromBigEndian_append (bytes : Bytes) (b : UInt8) :
    fromBigEndian (bytes ++ [b]) = fromBigEndian bytes * 256 + b.toNat := by
  unfold fromBigEndian
  rw [List.foldl_append]
  rfl

theorem bigEndian_fromBigEndian (bytes : Bytes) :
    bigEndian bytes.length (fromBigEndian bytes) = bytes := by
  induction bytes using List.reverseRecOn with
  | nil => rfl
  | append_singleton bytes b ih =>
    have hlt : b.toNat < 256 := UInt8.toNat_lt b
    have hlow : UInt8.ofNat (fromBigEndian bytes * 256 + b.toNat) = b := by
      rw [← UInt8.toNat_inj, UInt8.toNat_ofNat']
      omega
    rw [List.length_append, List.length_singleton, fromBigEndian_append, bigEndian, hlow,
      show (fromBigEndian bytes * 256 + b.toNat) / 256 = fromBigEndian bytes by omega, ih]

theorem fromBigEndian_lt (bytes : Bytes) : fromBigEndian bytes < 256 ^ bytes.length := by
  induction bytes using List.reverseRecOn with
  | nil => exact Nat.one_pos
  | append_singleton bytes b ih =>
    have hlt : b.toNat < 256 := UInt8.toNat_lt b
    rw [List.length_append, List.length_singleton, fromBigEndian_append, pow_succ]
    omega

theorem bigEndian_inj {width m n : ℕ} (hm : m < 256 ^ width) (hn : n < 256 ^ width)
    (h : bigEndian width m = bigEndian width n) : m = n := by
  rw [← fromBigEndian_bigEndian hm, h, fromBigEndian_bigEndian hn]

/-- The same digits, least significant first. -/
def littleEndian (width n : ℕ) : Bytes := (bigEndian width n).reverse

/-- The number that bytes spell, lowest first. -/
def fromLittleEndian (bytes : Bytes) : ℕ := fromBigEndian bytes.reverse

theorem fromLittleEndian_littleEndian {width n : ℕ} (h : n < 256 ^ width) :
    fromLittleEndian (littleEndian width n) = n := by
  rw [fromLittleEndian, littleEndian, List.reverse_reverse, fromBigEndian_bigEndian h]

theorem littleEndian_fromLittleEndian (bytes : Bytes) :
    littleEndian bytes.length (fromLittleEndian bytes) = bytes := by
  have h := bigEndian_fromBigEndian bytes.reverse
  rw [List.length_reverse] at h
  rw [littleEndian, fromLittleEndian, h, List.reverse_reverse]

/-! ## Blocks -/

/-- A block whose length fits its four bytes. -/
structure Block where
  kind : UInt8
  payload : Bytes
  bound : payload.length < 256 ^ 4

namespace Block

/-- The five bytes before the payload. -/
def head (b : Block) : Bytes := b.kind :: bigEndian 4 b.payload.length

/-- Head and payload. -/
def encode (b : Block) : Bytes := b.head ++ b.payload

@[simp] theorem length_head (b : Block) : b.head.length = 5 := by
  rw [head, List.length_cons, length_bigEndian]

theorem length_encode (b : Block) : b.encode.length = b.payload.length + 5 := by
  rw [encode, List.length_append, length_head, Nat.add_comm]

/-- **Where a block ends is fixed by its bytes.** -/
theorem encode_append_inj {a b : Block} {r t : Bytes} (h : a.encode ++ r = b.encode ++ t) :
    a = b ∧ r = t := by
  unfold encode at h
  rw [List.append_assoc, List.append_assoc] at h
  obtain ⟨hhead, hrest⟩ := List.append_inj h (by rw [length_head, length_head])
  unfold head at hhead
  obtain ⟨hkind, hlength⟩ := List.cons.inj hhead
  obtain ⟨hpayload, hrt⟩ := List.append_inj hrest (bigEndian_inj a.bound b.bound hlength)
  refine ⟨?_, hrt⟩
  cases a
  cases b
  cases hkind
  cases hpayload
  rfl

end Block

/-- Blocks one after the other. -/
def encodeAll (blocks : List Block) : Bytes := blocks.flatMap Block.encode

@[simp] theorem encodeAll_nil : encodeAll [] = [] := rfl

theorem encodeAll_cons (b : Block) (blocks : List Block) :
    encodeAll (b :: blocks) = b.encode ++ encodeAll blocks := List.flatMap_cons

theorem encodeAll_append (a b : List Block) : encodeAll (a ++ b) = encodeAll a ++ encodeAll b :=
  List.flatMap_append

theorem length_le_encodeAll (blocks : List Block) : blocks.length ≤ (encodeAll blocks).length := by
  induction blocks with
  | nil => exact Nat.le_refl _
  | cons b blocks ih =>
    rw [encodeAll_cons, List.length_append, b.length_encode, List.length_cons]
    omega

/-- The bytes are a block, cut somewhere before its end. -/
def Cut (part : Bytes) : Prop := ∃ b : Block, ∃ more, b.encode = part ++ more ∧ more ≠ []

theorem cut_nil : Cut [] := by
  refine ⟨⟨0, [], by decide⟩, _, rfl, ?_⟩
  exact List.cons_ne_nil _ _

/-- **A cut stream holds no complete block that was not written.** -/
theorem not_initial {P : Block → Prop} {xs ys : List Block} {part q : Bytes}
    (hxs : ∃ x ∈ xs, P x) (hys : ∀ y ∈ ys, ¬ P y) (hpart : Cut part)
    (h : encodeAll xs ++ q = encodeAll ys ++ part) : False := by
  induction xs generalizing ys with
  | nil =>
    obtain ⟨x, hx, -⟩ := hxs
    cases hx
  | cons x xs ih =>
    rw [encodeAll_cons, List.append_assoc] at h
    cases ys with
    | nil =>
      obtain ⟨b, more, hb, hmore⟩ := hpart
      have hwhole : x.encode ++ (encodeAll xs ++ q ++ more) = b.encode ++ [] := by
        rw [← List.append_assoc, h, hb, encodeAll_nil, List.nil_append, List.append_nil]
      obtain ⟨-, hnil⟩ := Block.encode_append_inj hwhole
      exact hmore (List.append_eq_nil_iff.mp hnil).2
    | cons y ys =>
      rw [encodeAll_cons, List.append_assoc] at h
      obtain ⟨rfl, hrest⟩ := Block.encode_append_inj h
      refine ih ?_ (fun z hz => hys z (List.mem_cons_of_mem _ hz)) hrest
      obtain ⟨z, hz, hPz⟩ := hxs
      rcases List.mem_cons.mp hz with rfl | hz
      · exact absurd hPz (hys z List.mem_cons_self)
      · exact ⟨z, hz, hPz⟩

end Framing
