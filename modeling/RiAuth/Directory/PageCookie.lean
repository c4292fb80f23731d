import RiAuth.Basic
import RiAuth.Lib.Ber
import RiAuth.Lib.Checks

/-!
# Page cookies

A directory answers a search page by page. Each page carries a control with an estimate of the size
of the result and a cookie that asks for the next page; the size is read over, the cookie is used.

* `tlv`: one value with the tag that is expected;
* `pageCookie`: the control;
* **`page_cookie_exact`**: what is accepted are exactly the encodings of a size and a cookie, with a
  cookie in one piece and a size that may have leading zeros.
-/

namespace RiAuth.Directory

open Checks Framing Ber

/-- The error of a failed directory operation. -/
def unavailable : Error := ⟨503, "directory_unavailable",
  "LDAP operation failed or did not return a complete result; " ++
    "verify bind credentials and paged-results support, then retry the complete snapshot"⟩

/-! ## The decoder -/

/-- The length after its first byte, and the input behind it. -/
def tlvLength (first : UInt8) (input : Bytes) : Result (ℕ × Bytes) :=
  if first < 128 then .ok (first.toNat, input)
  else do
    let n := (first &&& 127).toNat
    require (n ≠ 0 ∧ n ≤ 4 ∧ n ≤ input.length) unavailable
    .ok ((input.take n).foldl (fun a b => a <<< 8 ||| b.toNat) 0, input.drop n)

/-- A value with the tag, and the input behind it. -/
def tlv (tag : UInt8) : Bytes → Result (Bytes × Bytes)
  | found :: first :: input => do
    require (found = tag) unavailable
    let (length, input) ← tlvLength first input
    require (length ≤ input.length) unavailable
    .ok (input.take length, input.drop length)
  | _ => .error unavailable

/-- The cookie of a page control. -/
def pageCookie (bytes : Bytes) : Result Bytes := do
  require (bytes.length ≤ 4096) unavailable
  let (sequence, input) ← tlv 0x30 bytes
  require (input = []) unavailable
  let (size, sequence) ← tlv 0x02 sequence
  require (size ≠ [] ∧ size.length ≤ 4 ∧ size.head?.all (· &&& 128 = 0)) unavailable
  let (cookie, sequence) ← tlv 0x04 sequence
  require (sequence = [] ∧ cookie.length ≤ 2048) unavailable
  .ok cookie

/-! ## Lengths and values -/

theorem foldl_shift (bytes : Bytes) :
    bytes.foldl (fun a b => a <<< 8 ||| b.toNat) 0 = fromBigEndian bytes := by
  unfold fromBigEndian
  congr 1
  funext a b
  rw [← Nat.shiftLeft_add_eq_or_of_lt (UInt8.toNat_lt b), Nat.shiftLeft_eq]

theorem toNat_and_127 (b : UInt8) : (b &&& 127).toNat = b.toNat % 128 := by
  rw [UInt8.toNat_and]
  exact Nat.and_two_pow_sub_one_eq_mod b.toNat 7

theorem ofNat_128_add {b : UInt8} (h : ¬ b < 128) :
    UInt8.ofNat (128 + (b &&& 127).toNat) = b := by
  have hlow : 128 ≤ b.toNat := Nat.not_lt.mp h
  have hhigh := UInt8.toNat_lt b
  rw [← UInt8.toNat_inj, UInt8.toNat_ofNat', toNat_and_127]
  omega

theorem tlvLength_ok {first : UInt8} {input rest : Bytes} {n : ℕ} :
    tlvLength first input = .ok (n, rest) ↔
      ∃ length, Length n length ∧ first :: input = length ++ rest := by
  unfold tlvLength
  by_cases hshort : first < 128
  · rw [if_pos hshort]
    constructor
    · rintro ⟨⟩
      refine ⟨[first], ?_, rfl⟩
      have hlength := Length.short (n := first.toNat) hshort
      rwa [UInt8.ofNat_toNat] at hlength
    · rintro ⟨length, hlength, heq⟩
      cases hlength with
      | short h =>
        obtain ⟨rfl, rfl⟩ := List.cons.inj heq
        rw [UInt8.toNat_ofNat', Nat.mod_eq_of_lt (by omega)]
      | @long width hwidth h =>
        -- the first byte of a long length is not below 128
        have hfirst : first.toNat = 128 + width := by
          rw [(List.cons.inj heq).1, UInt8.toNat_ofNat', Nat.mod_eq_of_lt (by omega)]
        have : first.toNat < 128 := hshort
        omega
  · rw [if_neg hshort, seq_ok, require_ok, foldl_shift]
    constructor
    · rintro ⟨⟨hzero, hfour, hroom⟩, ⟨⟩⟩
      have htake : (input.take (first &&& 127).toNat).length = (first &&& 127).toNat :=
        List.length_take_of_le hroom
      refine ⟨first :: input.take (first &&& 127).toNat, ?_, ?_⟩
      · have hlength := Length.long ⟨Nat.pos_of_ne_zero hzero, hfour⟩
          (htake ▸ fromBigEndian_lt (input.take (first &&& 127).toNat))
        have hbytes := bigEndian_fromBigEndian (input.take (first &&& 127).toNat)
        rw [htake] at hbytes
        rwa [hbytes, ofNat_128_add hshort] at hlength
      · rw [List.cons_append, List.take_append_drop]
    · rintro ⟨length, hlength, heq⟩
      cases hlength with
      | short h =>
        have hfirst : first.toNat = n := by
          rw [(List.cons.inj heq).1, UInt8.toNat_ofNat', Nat.mod_eq_of_lt (by omega)]
        exact absurd (hfirst.trans_lt h : first.toNat < 128) hshort
      | @long width hwidth h =>
        rw [List.cons_append] at heq
        obtain ⟨rfl, rfl⟩ := List.cons.inj heq
        have hwidth' : (UInt8.ofNat (128 + width) &&& 127).toNat = width := by
          rw [toNat_and_127, UInt8.toNat_ofNat']
          omega
        rw [hwidth', List.take_left' (length_bigEndian width n),
          List.drop_left' (length_bigEndian width n), fromBigEndian_bigEndian h]
        refine ⟨⟨by omega, hwidth.2, ?_⟩, rfl⟩
        rw [List.length_append, length_bigEndian]
        omega

variable {contents bytes cookie : Bytes}

/-- **A value is read exactly where one stands.** -/
theorem tlv_ok {tag : UInt8} {input rest : Bytes} :
    tlv tag input = .ok (contents, rest) ↔
      ∃ bytes, Tlv tag contents bytes ∧ input = bytes ++ rest := by
  constructor
  · intro h
    unfold tlv at h
    split at h
    · next found first input =>
      obtain ⟨htag, h⟩ := seq_ok.mp h
      obtain ⟨⟨n, after⟩, hlength, h⟩ := bind_ok.mp h
      obtain ⟨hroom, h⟩ := seq_ok.mp h
      rw [require_ok] at htag hroom
      obtain ⟨length, hlength, heq⟩ := tlvLength_ok.mp hlength
      cases h
      refine ⟨found :: (length ++ after.take n), ⟨length, ?_, by rw [htag]⟩, ?_⟩
      · rwa [List.length_take_of_le hroom]
      · rw [heq, List.cons_append, List.append_assoc, List.take_append_drop]
    · cases h
  · rintro ⟨bytes, ⟨length, hlength, rfl⟩, rfl⟩
    obtain ⟨first, more, rfl⟩ : ∃ first more, length = first :: more := by
      cases hlength with
      | short h => exact ⟨_, _, rfl⟩
      | long hwidth h => exact ⟨_, _, rfl⟩
    have hread : tlvLength first (more ++ contents ++ rest) =
        .ok (contents.length, contents ++ rest) := by
      refine tlvLength_ok.mpr ⟨first :: more, hlength, ?_⟩
      rw [List.cons_append, List.append_assoc]
    refine seq_ok.mpr ⟨require_ok.mpr rfl, bind_ok.mpr ⟨_, hread, ?_⟩⟩
    refine seq_ok.mpr ⟨require_ok.mpr ?_, ?_⟩
    · rw [List.length_append]
      exact Nat.le_add_right _ _
    · rw [List.take_left, List.drop_left]

theorem tlv_append {tag : UInt8} (h : Tlv tag contents bytes) (rest : Bytes) :
    tlv tag (bytes ++ rest) = .ok (contents, rest) := tlv_ok.mpr ⟨bytes, h, rfl⟩

/-! ## The control -/

/-- A sequence of an integer with the contents, and a byte string with the encoding. -/
def Sequence (contents octets bytes : Bytes) : Prop :=
  ∃ size, Tlv 0x02 contents size ∧ Tlv 0x30 (size ++ octets) bytes

/-- The bytes encode the size and the cookie. -/
def Encodes (size : ℕ) (cookie bytes : Bytes) : Prop :=
  ∃ contents octets, Contents size contents ∧ OctetString cookie octets ∧
    Sequence contents octets bytes

/-- The bytes encode the size and the cookie, with the cookie in one piece, and with leading zeros
of the size that fill no more than four bytes. -/
def EncodesPadded (size : ℕ) (cookie bytes : Bytes) : Prop :=
  ∃ zeros contents octets, Contents size contents ∧ zeros + contents.length ≤ 4 ∧
    Tlv 0x04 cookie octets ∧ Sequence (List.replicate zeros 0 ++ contents) octets bytes

theorem and_128_eq_zero (b : UInt8) : b &&& 128 = 0 ↔ b < 128 := by
  have hbits : ∀ n : Fin 256, n.val &&& 128 = 0 ↔ n.val < 128 := by decide +kernel
  rw [← UInt8.toNat_inj, UInt8.toNat_and, UInt8.lt_iff_toNat_lt]
  exact hbits ⟨b.toNat, UInt8.toNat_lt b⟩

/-- The check of the size. -/
theorem size_check :
    (contents ≠ [] ∧ contents.length ≤ 4 ∧ contents.head?.all (· &&& 128 = 0)) ↔
      NonNegative contents ∧ contents.length ≤ 4 := by
  cases contents with
  | nil => simp [NonNegative]
  | cons b contents => simp [NonNegative, and_128_eq_zero, and_comm]

theorem pageCookie_ok :
    pageCookie bytes = .ok cookie ↔ bytes.length ≤ 4096 ∧ cookie.length ≤ 2048 ∧
      ∃ contents octets, NonNegative contents ∧ contents.length ≤ 4 ∧ Tlv 0x04 cookie octets ∧
        Sequence contents octets bytes := by
  constructor
  · intro h
    obtain ⟨htotal, h⟩ := seq_ok.mp h
    obtain ⟨⟨sequence, input⟩, hsequence, h⟩ := bind_ok.mp h
    obtain ⟨hend, h⟩ := seq_ok.mp h
    obtain ⟨⟨contents, octets⟩, hsize, h⟩ := bind_ok.mp h
    obtain ⟨hcheck, h⟩ := seq_ok.mp h
    obtain ⟨⟨found, rest⟩, hcookie, h⟩ := bind_ok.mp h
    obtain ⟨hlast, h⟩ := seq_ok.mp h
    rw [require_ok] at htotal hend hcheck hlast
    cases h
    obtain ⟨rfl, hshort⟩ := hlast
    cases hend
    obtain ⟨size, hinteger, rfl⟩ := tlv_ok.mp hsize
    obtain ⟨whole, hwhole, rfl⟩ := tlv_ok.mp hsequence
    obtain ⟨string, hstring, rfl⟩ := tlv_ok.mp hcookie
    obtain ⟨hsign, hfour⟩ := size_check.mp hcheck
    rw [List.append_nil] at htotal hwhole ⊢
    exact ⟨htotal, hshort, contents, string, hsign, hfour, hstring, size, hinteger, hwhole⟩
  · rintro ⟨htotal, hshort, contents, octets, hsign, hfour, hcookie, size, hsize, hsequence⟩
    have hwhole := tlv_append hsequence []
    have hoctets := tlv_append hcookie []
    rw [List.append_nil] at hwhole hoctets
    refine seq_ok.mpr ⟨require_ok.mpr htotal, bind_ok.mpr ⟨_, hwhole, ?_⟩⟩
    refine seq_ok.mpr ⟨require_ok.mpr rfl, bind_ok.mpr ⟨_, tlv_append hsize octets, ?_⟩⟩
    refine seq_ok.mpr ⟨require_ok.mpr (size_check.mpr ⟨hsign, hfour⟩), ?_⟩
    refine bind_ok.mpr ⟨_, hoctets, ?_⟩
    exact seq_ok.mpr ⟨require_ok.mpr ⟨rfl, hshort⟩, rfl⟩

theorem pageCookie_iff :
    pageCookie bytes = .ok cookie ↔ bytes.length ≤ 4096 ∧ cookie.length ≤ 2048 ∧
      ∃ size < 2 ^ 31, EncodesPadded size cookie bytes := by
  rw [pageCookie_ok]
  refine and_congr_right fun _ => and_congr_right fun _ => ⟨?_, ?_⟩
  · rintro ⟨contents, octets, hsign, hfour, hcookie, hsequence⟩
    obtain ⟨zeros, least, hcontents, hleast⟩ := exists_contents hsign
    refine ⟨fromBigEndian contents, hsign.fromBigEndian_lt hfour, zeros, least, octets, hleast, ?_,
      hcookie, hcontents ▸ hsequence⟩
    rwa [hcontents, List.length_append, List.length_replicate] at hfour
  · rintro ⟨size, -, zeros, least, octets, hleast, hfour, hcookie, hsequence⟩
    refine ⟨List.replicate zeros 0 ++ least, octets, ?_, ?_, hcookie, hsequence⟩
    · cases zeros with
      | zero => exact hleast.sign
      | succ zeros =>
        rw [List.replicate_succ]
        exact (by decide : (0 : UInt8) < 128)
    · rwa [List.length_append, List.length_replicate]

/-- No leading zeros. -/
theorem EncodesPadded.plain {size : ℕ} {octets : Bytes} (hsize : size < 2 ^ 31)
    (hcontents : Contents size contents) (hcookie : Tlv 0x04 cookie octets)
    (hsequence : Sequence contents octets bytes) : EncodesPadded size cookie bytes :=
  ⟨0, contents, octets, hcontents, (Nat.zero_add _).trans_le (hcontents.length_le hsize),
    hcookie, hsequence⟩

/-- No accepted control continues another one. -/
theorem pageCookie_whole {tail cookie' : Bytes} (h : pageCookie bytes = .ok cookie)
    (h' : pageCookie (bytes ++ tail) = .ok cookie') : tail = [] := by
  obtain ⟨-, -, _, octets, -, -, -, size, -, hwhole⟩ := pageCookie_ok.mp h
  obtain ⟨-, -, _, octets', -, -, -, size', -, hwhole'⟩ := pageCookie_ok.mp h'
  have hread := tlv_append hwhole tail
  have hread' := tlv_append hwhole' []
  rw [List.append_nil, hread] at hread'
  exact (Prod.ext_iff.mp (Except.ok.inj hread')).2

/-- **What is accepted is an encoding of a size and a cookie.** Every encoding of a size below
`2 ^ 31` and a cookie of at most 2048 bytes, in at most 4096 bytes and with the cookie in one piece,
gives the cookie. Nothing else is accepted but the same with a size that has leading zeros, up to
four bytes in all; and what is cut off, or goes on, is refused. -/
theorem page_cookie_exact :
    (∀ (size : ℕ) (cookie contents octets bytes : Bytes), size < 2 ^ 31 → cookie.length ≤ 2048 →
      bytes.length ≤ 4096 → Contents size contents → Tlv 0x04 cookie octets →
      Sequence contents octets bytes → pageCookie bytes = .ok cookie) ∧
    (∀ bytes cookie : Bytes, pageCookie bytes = .ok cookie ↔
      bytes.length ≤ 4096 ∧ cookie.length ≤ 2048 ∧
        ∃ size < 2 ^ 31, EncodesPadded size cookie bytes) ∧
    ∀ bytes tail cookie : Bytes, tail ≠ [] →
      (pageCookie bytes = .ok cookie → ∃ e, pageCookie (bytes ++ tail) = .error e) ∧
      (pageCookie (bytes ++ tail) = .ok cookie → ∃ e, pageCookie bytes = .error e) := by
  refine ⟨?_, fun bytes cookie => pageCookie_iff, ?_⟩
  · intro size cookie contents octets bytes hsize hshort htotal hcontents hcookie hsequence
    exact pageCookie_iff.mpr
      ⟨htotal, hshort, size, hsize, .plain hsize hcontents hcookie hsequence⟩
  · intro bytes tail cookie htail
    constructor
    · intro h
      cases hmore : pageCookie (bytes ++ tail) with
      | error e => exact ⟨e, rfl⟩
      | ok cookie' => exact absurd (pageCookie_whole h hmore) htail
    · intro h
      cases hless : pageCookie bytes with
      | error e => exact ⟨e, rfl⟩
      | ok cookie' => exact absurd (pageCookie_whole hless h) htail

def longCookie : Bytes := List.replicate 200 7

theorem length_longCookie : longCookie.length = 200 := List.length_replicate

/-- The size and the octets of the cookie. -/
theorem length_longContents :
    ([0x02, 0x02, 0x01, 0xF4] ++ 0x04 :: 0x81 :: 0xC8 :: longCookie).length = 207 := by
  simp [length_longCookie]

/-- A size of 500 and a cookie of 200 bytes. Its length takes two bytes, and that of the whole
three, one of them a zero that it could do without. -/
theorem page_cookie_exact_long :
    pageCookie ([0x30, 0x82, 0x00, 0xCF, 0x02, 0x02, 0x01, 0xF4, 0x04, 0x81, 0xC8] ++ longCookie) =
        .ok longCookie ∧
      ∃ e, pageCookie ([0x30, 0x82, 0x00, 0xCF, 0x02, 0x02, 0x01, 0xF4, 0x04, 0x81, 0xC8] ++
        longCookie ++ [0]) = .error e := by
  have h200 : Length 200 [0x81, 0xC8] := .long (show 0 < 1 ∧ 1 ≤ 4 by decide) (by decide)
  have h207 : Length 207 [0x82, 0x00, 0xCF] := .long (show 0 < 2 ∧ 2 ≤ 4 by decide) (by decide)
  have hcookie : Tlv 0x04 longCookie (0x04 :: 0x81 :: 0xC8 :: longCookie) :=
    ⟨_, length_longCookie ▸ h200, rfl⟩
  have hsequence : Sequence [0x01, 0xF4] (0x04 :: 0x81 :: 0xC8 :: longCookie)
      ([0x30, 0x82, 0x00, 0xCF, 0x02, 0x02, 0x01, 0xF4, 0x04, 0x81, 0xC8] ++ longCookie) :=
    ⟨[0x02, 0x02, 0x01, 0xF4], ⟨_, .short (by decide), rfl⟩, _, length_longContents ▸ h207, rfl⟩
  have hread := page_cookie_exact.1 500 longCookie [0x01, 0xF4] _ _ (by decide)
    (by rw [length_longCookie]; decide) (by simp [length_longCookie])
    ⟨rfl, (by decide : (1 : UInt8) < 128), trivial⟩ hcookie hsequence
  exact ⟨hread, (page_cookie_exact.2.2 _ [0] _ (List.cons_ne_nil _ _)).1 hread⟩

/-- A size with a leading zero is no encoding, but is accepted; a cookie in pieces is one, and is
refused. -/
theorem page_cookie_not_encoding :
    (pageCookie [0x30, 0x06, 0x02, 0x02, 0x00, 0x05, 0x04, 0x00] = .ok [] ∧
      ∀ (size : ℕ) (cookie : Bytes),
        ¬ Encodes size cookie [0x30, 0x06, 0x02, 0x02, 0x00, 0x05, 0x04, 0x00]) ∧
    Encodes 5 [] [0x30, 0x07, 0x02, 0x01, 0x05, 0x24, 0x02, 0x04, 0x00] ∧
      pageCookie [0x30, 0x07, 0x02, 0x01, 0x05, 0x24, 0x02, 0x04, 0x00] = .error unavailable := by
  refine ⟨⟨rfl, ?_⟩, ?_, rfl⟩
  · rintro size cookie ⟨contents, octets, hcontents, -, integer, hinteger, hwhole⟩
    have hread := tlv_append hwhole []
    have hbody : integer ++ octets = [0x02, 0x02, 0x00, 0x05, 0x04, 0x00] :=
      ((Prod.ext_iff.mp (Except.ok.inj hread)).1).symm
    have hsize := tlv_append hinteger octets
    rw [hbody] at hsize
    have hzero : contents = [0x00, 0x05] := ((Prod.ext_iff.mp (Except.ok.inj hsize)).1).symm
    have hshortest := hcontents.shortest
    rw [hzero] at hshortest
    exact absurd hshortest (by decide : ¬ (128 : UInt8) ≤ 5)
  · have hpart : OctetString [] [0x04, 0x00] := .primitive ⟨_, .short (by decide), rfl⟩
    have hcookie : OctetString [] [0x24, 0x02, 0x04, 0x00] := by
      have hparts : ∀ part ∈ [(([], [0x04, 0x00]) : Bytes × Bytes)], OctetString part.1 part.2 :=
        List.forall_mem_singleton.mpr hpart
      exact .constructed hparts ⟨_, .short (by decide), rfl⟩
    exact ⟨[5], _, ⟨rfl, (by decide : (5 : UInt8) < 128), trivial⟩, hcookie, [0x02, 0x01, 0x05],
      ⟨_, .short (by decide), rfl⟩, _, .short (by decide), rfl⟩

end RiAuth.Directory
