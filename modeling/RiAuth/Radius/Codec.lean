import Mathlib.Data.List.TakeWhile
import RiAuth.Basic
import RiAuth.Lib.Checks
import RiAuth.Lib.Framing

/-!
# RADIUS packets

An Access-Request is a header and attributes, each with its own length. Its Message-Authenticator is
mandatory. The password is hidden block by block under a digest of the block before.

* `decode`, `Packet.password`: what is read from a request;
* `Packet.response`: what is sent back;
* `encrypt`: how a password is hidden, as RFC 2865 says;
* **`radius_codec`**: passwords and attributes are read back as they were written.
-/

namespace RiAuth.Radius

open Checks Framing

/-- MD5 and HMAC-MD5, of which only the length of the result matters. -/
structure Hashes where
  md5 : Bytes → Bytes
  hmac : Bytes → Bytes → Bytes
  md5_length : ∀ m, (md5 m).length = 16
  hmac_length : ∀ k m, (hmac k m).length = 16

/-- A code and a value. -/
abbrev WireAttribute := UInt8 × Bytes

/-- A decoded request. -/
structure Packet where
  identifier : UInt8
  authenticator : Bytes
  attrs : List WireAttribute

/-! ## Requests -/

/-- Attributes that a request may carry once. -/
def singletons : List UInt8 := [1, 2, 3, 24, 80]

/-- The attributes from an offset on, and where the value of the Message-Authenticator begins. The
first number bounds the attributes. -/
def walk : ℕ → ℕ → List UInt8 → Option ℕ → Bytes → Result (List WireAttribute × Option ℕ)
  | _, _, _, ma, [] => .ok ([], ma)
  | 0, _, _, _, _ :: _ => .error (.bad "Truncated RADIUS attribute")
  | _ + 1, _, _, _, [_] => .error (.bad "Truncated RADIUS attribute")
  | fuel + 1, offset, seen, ma, code :: len :: rest => do
    require (code ≠ 0 ∧ 2 ≤ len.toNat ∧ len.toNat ≤ rest.length + 2)
      (.bad "Invalid RADIUS attribute length")
    require (code ∈ singletons → code ∉ seen) (.bad "Duplicate RADIUS credential or authenticator")
    require (code = 80 → len = 18) (.bad "Invalid Message-Authenticator")
    let later ← walk fuel (offset + len.toNat) (code :: seen)
      (if code = 80 then some (offset + 2) else ma) (rest.drop (len.toNat - 2))
    .ok ((code, rest.take (len.toNat - 2)) :: later.1, later.2)

/-- Sixteen bytes of a packet, replaced. -/
def fill (bytes : Bytes) (offset : ℕ) (value : Bytes) : Bytes :=
  bytes.take offset ++ value ++ bytes.drop (offset + 16)

/-- An empty authenticator. -/
def zeros : Bytes := List.replicate 16 0

theorem length_zeros : zeros.length = 16 := List.length_replicate

/-- A request, or nothing if it is malformed. -/
def decode (h : Hashes) (bytes secret : Bytes) : Result Packet := do
  require (20 ≤ bytes.length ∧ bytes.length ≤ 4096 ∧ bytes.take 1 = [1] ∧
    fromBigEndian ((bytes.drop 2).take 2) = bytes.length) (.bad "Invalid RADIUS packet")
  let walked ← walk bytes.length 20 [] none (bytes.drop 20)
  let ma ← okOr walked.2 (.bad "Message-Authenticator is mandatory")
  require (h.hmac secret (fill bytes ma zeros) = (bytes.drop ma).take 16) .forbidden
  .ok ⟨(bytes.drop 1).headD 0, (bytes.drop 4).take 16, walked.1⟩

namespace Packet

/-- The first attribute with a code. -/
def attr (p : Packet) (code : UInt8) : Option Bytes :=
  (p.attrs.find? fun a => a.1 = code).map Prod.snd

end Packet

/-! ## Passwords -/

def xorBytes (a b : Bytes) : Bytes := List.zipWith (· ^^^ ·) a b

/-- The blocks of a text, one after the other. The first number bounds them. -/
def decrypt (h : Hashes) (secret : Bytes) : ℕ → Bytes → Bytes → Bytes
  | 0, _, _ => []
  | blocks + 1, previous, text =>
    xorBytes (text.take 16) (h.md5 (secret ++ previous)) ++
      decrypt h secret blocks (text.take 16) (text.drop 16)

/-- The password of a request. `fromUtf8` reads its text. -/
def Packet.password (h : Hashes) (fromUtf8 : Bytes → Option Text) (p : Packet) (secret : Bytes) :
    Result Text := do
  let ciphertext ← okOr (p.attr 2) (.bad "PAP User-Password is required")
  require (ciphertext ≠ [] ∧ ciphertext.length ≤ 128 ∧ ciphertext.length % 16 = 0)
    (.bad "Invalid PAP password length")
  let plain := decrypt h secret (ciphertext.length / 16) p.authenticator ciphertext
  let password := plain.takeWhile (· ≠ 0)
  require (password ≠ [] ∧ ∀ b ∈ plain.drop password.length, b = 0)
    (.bad "Invalid PAP password padding")
  okOr (fromUtf8 password) (.bad "PAP passwords must be UTF-8")

/-- Blocks hidden as RFC 2865 says: each under a digest of the secret and the block before. -/
def encryptBlocks (h : Hashes) (secret : Bytes) : ℕ → Bytes → Bytes → Bytes
  | 0, _, _ => []
  | blocks + 1, previous, plain =>
    let block := xorBytes (plain.take 16) (h.md5 (secret ++ previous))
    block ++ encryptBlocks h secret blocks block (plain.drop 16)

/-- A password is filled up with zeros to whole blocks. -/
def padded (blocks : ℕ) (password : Bytes) : Bytes :=
  password ++ List.replicate (16 * blocks - password.length) 0

/-- A hidden password. -/
def encrypt (h : Hashes) (secret authenticator : Bytes) (blocks : ℕ) (password : Bytes) : Bytes :=
  encryptBlocks h secret blocks authenticator (padded blocks password)

/-! ## Responses -/

/-- Code, length and value. -/
def encodeAttribute (a : WireAttribute) : Bytes := a.1 :: UInt8.ofNat (a.2.length + 2) :: a.2

/-- Attributes one after the other. -/
def encodeAttributes (attrs : List WireAttribute) : Bytes := attrs.flatMap encodeAttribute

/-- The Proxy-State of a request goes back with the response. -/
def Packet.proxyState (p : Packet) : List WireAttribute := p.attrs.filter fun a => a.1 = 33

/-- A signed answer. -/
def Packet.response (h : Hashes) (p : Packet) (code : UInt8) (secret : Bytes)
    (attributes : List WireAttribute) : Result Bytes := do
  require (∀ a ∈ attributes ++ p.proxyState, a.2.length ≤ 253)
    (.bad "RADIUS response attribute is too long")
  let body := encodeAttributes (attributes ++ p.proxyState)
  require (38 + body.length ≤ 4096) (.bad "RADIUS response exceeds packet limit")
  let start := code :: p.identifier :: bigEndian 2 (38 + body.length)
  let mac := h.hmac secret (start ++ p.authenticator ++ (80 :: 18 :: zeros) ++ body)
  let signed := (80 :: 18 :: mac) ++ body
  .ok (start ++ h.md5 (start ++ p.authenticator ++ signed ++ secret) ++ signed)

/-! ## Attributes tile the packet -/

/-- Attributes that a request may carry after some codes. -/
def Legal : List UInt8 → List WireAttribute → Prop
  | _, [] => True
  | seen, a :: attrs => a.1 ≠ 0 ∧ a.2.length ≤ 253 ∧ (a.1 ∈ singletons → a.1 ∉ seen) ∧
      (a.1 = 80 → a.2.length = 16) ∧ Legal (a.1 :: seen) attrs

instance Legal.decidable : ∀ seen attrs, Decidable (Legal seen attrs)
  | _, [] => isTrue trivial
  | seen, a :: attrs =>
    have := Legal.decidable (a.1 :: seen) attrs
    inferInstanceAs (Decidable (_ ∧ _ ∧ _ ∧ _ ∧ _))

/-- Where the value of the Message-Authenticator begins. -/
def authenticatorAt : ℕ → Option ℕ → List WireAttribute → Option ℕ
  | _, ma, [] => ma
  | offset, ma, a :: attrs => authenticatorAt (offset + (a.2.length + 2))
      (if a.1 = 80 then some (offset + 2) else ma) attrs

theorem length_encodeAttribute (a : WireAttribute) :
    (encodeAttribute a).length = a.2.length + 2 := rfl

theorem toNat_ofNat_length {n : ℕ} (h : n ≤ 253) : (UInt8.ofNat (n + 2)).toNat = n + 2 := by
  rw [UInt8.toNat_ofNat']
  omega

variable {bytes password : Bytes} {blocks : ℕ} {p : Packet}

/-- What is read tiles the bytes. -/
theorem walk_ok {fuel offset : ℕ} {seen : List UInt8} {ma : Option ℕ}
    {r : List WireAttribute × Option ℕ} (h : walk fuel offset seen ma bytes = .ok r) :
    bytes = encodeAttributes r.1 ∧ Legal seen r.1 ∧ r.2 = authenticatorAt offset ma r.1 := by
  induction fuel generalizing offset seen ma bytes r with
  | zero =>
    cases bytes with
    | nil =>
      obtain rfl := Except.ok.inj h
      exact ⟨rfl, trivial, rfl⟩
    | cons => cases h
  | succ fuel ih =>
    rcases bytes with _ | ⟨code, _ | ⟨len, rest⟩⟩
    · obtain rfl := Except.ok.inj h
      exact ⟨rfl, trivial, rfl⟩
    · cases h
    · obtain ⟨hlength, h⟩ := seq_ok.1 h
      obtain ⟨hsingle, h⟩ := seq_ok.1 h
      obtain ⟨hma, h⟩ := seq_ok.1 h
      obtain ⟨later, hlater, h⟩ := bind_ok.1 h
      obtain rfl := Except.ok.inj h
      obtain ⟨hcode, htwo, hfits⟩ := require_ok.1 hlength
      obtain ⟨hrest, hlegal, hat⟩ := ih hlater
      have hlt := UInt8.toNat_lt len
      have htake : (rest.take (len.toNat - 2)).length = len.toNat - 2 := by
        rw [List.length_take]
        omega
      have hlen : UInt8.ofNat ((rest.take (len.toNat - 2)).length + 2) = len := by
        rw [htake, Nat.sub_add_cancel htwo, UInt8.ofNat_toNat]
      refine ⟨?_, ⟨hcode, ?_, require_ok.1 hsingle, fun h80 => ?_, hlegal⟩, ?_⟩
      · show _ = encodeAttribute _ ++ encodeAttributes later.1
        rw [← hrest, encodeAttribute, hlen, List.cons_append, List.cons_append,
          List.take_append_drop]
      · show (rest.take (len.toNat - 2)).length ≤ 253
        omega
      · rw [htake, require_ok.1 hma h80]
        rfl
      · rw [hat, authenticatorAt, htake, Nat.sub_add_cancel htwo]

/-- Legal attributes are read back. -/
theorem walk_encodeAttributes {fuel offset : ℕ} {seen : List UInt8} {ma : Option ℕ}
    {attrs : List WireAttribute} (hlegal : Legal seen attrs) (hfuel : attrs.length ≤ fuel) :
    walk fuel offset seen ma (encodeAttributes attrs) =
      .ok (attrs, authenticatorAt offset ma attrs) := by
  induction attrs generalizing fuel offset seen ma with
  | nil => cases fuel <;> rfl
  | cons a attrs ih =>
    obtain ⟨code, value⟩ := a
    obtain ⟨hcode, hvalue, hsingle, h80, hlegal⟩ := hlegal
    obtain ⟨fuel, rfl⟩ : ∃ n, fuel = n + 1 := ⟨fuel - 1, by simp at hfuel; omega⟩
    have hlen : (UInt8.ofNat (value.length + 2)).toNat = value.length + 2 :=
      toNat_ofNat_length hvalue
    have hrest : (value ++ encodeAttributes attrs).length + 2 =
        value.length + 2 + (encodeAttributes attrs).length := by
      rw [List.length_append]
      omega
    have h18 : code = 80 → UInt8.ofNat (value.length + 2) = 18 := fun h => by
      rw [show value.length = 16 from h80 h]
      rfl
    show walk (fuel + 1) offset seen ma
      (code :: UInt8.ofNat (value.length + 2) :: (value ++ encodeAttributes attrs)) = _
    rw [walk, require, if_pos ⟨hcode, by omega, by omega⟩, require, if_pos hsingle, require,
      if_pos h18, hlen, Nat.add_sub_cancel, List.drop_left, List.take_left]
    simp only [ih hlegal (Nat.le_of_succ_le_succ hfuel)]
    rfl

theorem length_le_encodeAttributes (attrs : List WireAttribute) :
    2 * attrs.length ≤ (encodeAttributes attrs).length := by
  induction attrs with
  | nil => exact Nat.zero_le _
  | cons a attrs ih =>
    show 2 * (attrs.length + 1) ≤ (encodeAttribute a ++ encodeAttributes attrs).length
    rw [List.length_append, length_encodeAttribute]
    omega

/-- The bytes of a request. -/
def requestBytes (p : Packet) : Bytes :=
  1 :: p.identifier :: (bigEndian 2 (20 + (encodeAttributes p.attrs).length) ++ p.authenticator ++
    encodeAttributes p.attrs)

/-- A request that is taken: it fits a packet, may carry its attributes, and is authentic. -/
structure Authentic (h : Hashes) (secret : Bytes) (p : Packet) : Prop where
  authenticator : p.authenticator.length = 16
  fits : 20 + (encodeAttributes p.attrs).length ≤ 4096
  legal : Legal [] p.attrs
  signed : ∃ ma, authenticatorAt 20 none p.attrs = some ma ∧
    h.hmac secret (fill (requestBytes p) ma zeros) = ((requestBytes p).drop ma).take 16

/-- The first twenty bytes of a packet are its header. -/
theorem requestBytes_of_header {attrs : Bytes} (hlength : 20 ≤ bytes.length)
    (hcode : bytes.take 1 = [1]) (hsize : fromBigEndian ((bytes.drop 2).take 2) = bytes.length)
    (hattrs : bytes.drop 20 = attrs) :
    bytes = 1 :: (bytes.drop 1).headD 0 :: (bigEndian 2 (20 + attrs.length) ++
      (bytes.drop 4).take 16 ++ attrs) := by
  rcases bytes with _ | ⟨a, _ | ⟨b, _ | ⟨c, _ | ⟨d, rest⟩⟩⟩⟩
  iterate 4 · simp at hlength
  obtain rfl : a = 1 := by simpa using hcode
  have hrest : rest.drop 16 = attrs := hattrs
  have htotal : 20 + attrs.length = fromBigEndian [c, d] := by
    rw [← hrest, List.length_drop]
    simp only [List.drop_succ_cons, List.drop_zero, List.take_succ_cons, List.take_zero,
      List.length_cons] at hsize hlength
    omega
  have hsize : bigEndian 2 (20 + attrs.length) = [c, d] := by
    rw [htotal]
    exact bigEndian_fromBigEndian [c, d]
  rw [hsize, ← hrest]
  simp

/-- **A packet is taken exactly if it is a request that is tiled by its attributes.** -/
theorem decode_ok_iff (h : Hashes) (secret bytes : Bytes) (p : Packet) :
    decode h bytes secret = .ok p ↔ bytes = requestBytes p ∧ Authentic h secret p := by
  constructor
  · intro hdecode
    obtain ⟨hheader, hdecode⟩ := seq_ok.1 hdecode
    obtain ⟨walked, hwalk, hdecode⟩ := bind_ok.1 hdecode
    obtain ⟨ma, hma, hdecode⟩ := bind_ok.1 hdecode
    obtain ⟨hmac, hdecode⟩ := seq_ok.1 hdecode
    obtain rfl := Except.ok.inj hdecode
    obtain ⟨hlong, hshort, hcode, hsize⟩ := require_ok.1 hheader
    obtain ⟨hattrs, hlegal, hat⟩ := walk_ok hwalk
    have hbytes := requestBytes_of_header hlong hcode hsize hattrs
    have htotal : 20 + (encodeAttributes walked.1).length = bytes.length := by
      rw [← hattrs, List.length_drop]
      omega
    refine ⟨hbytes, ⟨?_, by rw [htotal]; exact hshort, hlegal, ma, ?_, ?_⟩⟩
    · rw [List.length_take, List.length_drop]
      omega
    · rw [← hat]
      exact okOr_ok.1 hma
    · unfold requestBytes
      rw [← hbytes]
      exact require_ok.1 hmac
  · rintro ⟨rfl, hauth⟩
    obtain ⟨ma, hma, hsigned⟩ := hauth.signed
    let size := bigEndian 2 (20 + (encodeAttributes p.attrs).length)
    have hlength : (requestBytes p).length = 20 + (encodeAttributes p.attrs).length := by
      simp only [requestBytes, List.length_cons, List.length_append, length_bigEndian,
        hauth.authenticator]
      omega
    have hdrop : (requestBytes p).drop 20 = encodeAttributes p.attrs := by
      show ((size ++ p.authenticator) ++ encodeAttributes p.attrs).drop 18 = _
      rw [List.drop_left' (by simp [size, hauth.authenticator])]
    have hauthenticator : ((requestBytes p).drop 4).take 16 = p.authenticator := by
      show ((size ++ p.authenticator ++ encodeAttributes p.attrs).drop 2).take 16 = _
      rw [List.append_assoc, List.drop_left' (length_bigEndian 2 _),
        List.take_left' hauth.authenticator]
    have hsize : fromBigEndian (((requestBytes p).drop 2).take 2) = (requestBytes p).length := by
      show fromBigEndian ((size ++ p.authenticator ++ encodeAttributes p.attrs).take 2) = _
      rw [List.append_assoc, List.take_left' (length_bigEndian 2 _), hlength]
      exact fromBigEndian_bigEndian (lt_of_le_of_lt hauth.fits (by decide))
    have hwalk : walk (requestBytes p).length 20 [] none (encodeAttributes p.attrs) =
        .ok (p.attrs, some ma) := by
      rw [walk_encodeAttributes hauth.legal, hma]
      have := length_le_encodeAttributes p.attrs
      omega
    unfold decode
    rw [require, if_pos ⟨by omega, hlength ▸ hauth.fits, rfl, hsize⟩, hdrop, hwalk]
    show (do require _ _; _) = _
    rw [require, if_pos hsigned, hauthenticator]
    rfl

/-! ## Passwords are read back -/

theorem xorBytes_cancel {a k : Bytes} (h : a.length ≤ k.length) :
    xorBytes (xorBytes a k) k = a := by
  induction a generalizing k with
  | nil => cases k <;> rfl
  | cons x a ih =>
    cases k with
    | nil => simp at h
    | cons y k =>
      show ((x ^^^ y) ^^^ y) :: xorBytes (xorBytes a k) k = x :: a
      rw [ih (by simpa using h), UInt8.xor_assoc, UInt8.xor_self, UInt8.xor_zero]

theorem length_xorBytes {a k : Bytes} (h : a.length = k.length) :
    (xorBytes a k).length = a.length := by
  rw [xorBytes, List.length_zipWith, ← h, Nat.min_self]

section

variable (h : Hashes) (secret : Bytes)

variable {text previous : Bytes} {blocks : ℕ}

theorem length_block (previous : Bytes) (hlength : text.length = 16 * (blocks + 1)) :
    (text.take 16).length = (h.md5 (secret ++ previous)).length := by
  rw [h.md5_length, List.length_take]
  omega

theorem length_xor_block (previous : Bytes) (hlength : text.length = 16 * (blocks + 1)) :
    (xorBytes (text.take 16) (h.md5 (secret ++ previous))).length = 16 := by
  have hblock := length_block h secret previous hlength
  rw [length_xorBytes hblock, hblock, h.md5_length]

theorem length_encryptBlocks {plain : Bytes} (hlength : plain.length = 16 * blocks) :
    (encryptBlocks h secret blocks previous plain).length = 16 * blocks := by
  induction blocks generalizing previous plain with
  | zero => rfl
  | succ blocks ih =>
    have hrest : (plain.drop 16).length = 16 * blocks := by
      rw [List.length_drop]
      omega
    rw [encryptBlocks, List.length_append, ih hrest, length_xor_block h secret previous hlength]
    omega

/-- What was hidden block by block is found block by block. -/
theorem decrypt_encryptBlocks {plain : Bytes} (hlength : plain.length = 16 * blocks) :
    decrypt h secret blocks previous (encryptBlocks h secret blocks previous plain) = plain := by
  induction blocks generalizing previous plain with
  | zero => exact (List.length_eq_zero_iff.1 hlength).symm
  | succ blocks ih =>
    have hblock := length_block h secret previous hlength
    have hsixteen := length_xor_block h secret previous hlength
    rw [encryptBlocks, decrypt, List.take_left' hsixteen, List.drop_left' hsixteen,
      xorBytes_cancel hblock.le, ih, List.take_append_drop]
    rw [List.length_drop]
    omega

theorem encryptBlocks_decrypt (hlength : text.length = 16 * blocks) :
    encryptBlocks h secret blocks previous (decrypt h secret blocks previous text) = text := by
  induction blocks generalizing previous text with
  | zero => exact (List.length_eq_zero_iff.1 hlength).symm
  | succ blocks ih =>
    have hblock := length_block h secret previous hlength
    have hsixteen := length_xor_block h secret previous hlength
    rw [decrypt, encryptBlocks, List.take_left' hsixteen, List.drop_left' hsixteen,
      xorBytes_cancel hblock.le, ih, List.take_append_drop]
    rw [List.length_drop]
    omega

theorem length_decrypt (hlength : text.length = 16 * blocks) :
    (decrypt h secret blocks previous text).length = 16 * blocks := by
  induction blocks generalizing previous text with
  | zero => rfl
  | succ blocks ih =>
    have hrest : (text.drop 16).length = 16 * blocks := by
      rw [List.length_drop]
      omega
    rw [decrypt, List.length_append, ih hrest, length_xor_block h secret previous hlength]
    omega

end

theorem length_padded (h : password.length ≤ 16 * blocks) :
    (padded blocks password).length = 16 * blocks := by
  rw [padded, List.length_append, List.length_replicate]
  omega

theorem takeWhile_padded (h : (0 : UInt8) ∉ password) :
    (padded blocks password).takeWhile (· ≠ 0) = password := by
  rw [padded, List.takeWhile_append_of_pos]
  · cases 16 * blocks - password.length <;> simp [List.replicate_succ]
  · intro b hb
    exact decide_eq_true fun h0 => h (h0 ▸ hb)

/-- A password of a request, as it was hidden. -/
structure Hides (h : Hashes) (secret : Bytes) (p : Packet) (blocks : ℕ) (password : Bytes) :
    Prop where
  nonempty : password ≠ []
  whole : (0 : UInt8) ∉ password
  fits : password.length ≤ 16 * blocks
  bounded : blocks ≤ 8
  hidden : p.attr 2 = some (encrypt h secret p.authenticator blocks password)

/-- A hidden password is read back, if it is a text. -/
theorem password_of_hides {h : Hashes} {secret : Bytes} (fromUtf8 : Bytes → Option Text)
    (hp : Hides h secret p blocks password) :
    p.password h fromUtf8 secret =
      okOr (fromUtf8 password) (.bad "PAP passwords must be UTF-8") := by
  have hpadded := length_padded hp.fits
  have hlength : (encrypt h secret p.authenticator blocks password).length = 16 * blocks :=
    length_encryptBlocks h secret hpadded
  have hpos : 0 < blocks := by
    have := List.length_pos_iff.2 hp.nonempty
    have := hp.fits
    omega
  have hshape : encrypt h secret p.authenticator blocks password ≠ [] ∧
      (encrypt h secret p.authenticator blocks password).length ≤ 128 ∧
      (encrypt h secret p.authenticator blocks password).length % 16 = 0 := by
    have hbounded := hp.bounded
    refine ⟨List.length_pos_iff.1 (by omega), by omega, by omega⟩
  have hplain : decrypt h secret ((encrypt h secret p.authenticator blocks password).length / 16)
      p.authenticator (encrypt h secret p.authenticator blocks password) =
        padded blocks password := by
    rw [hlength, Nat.mul_div_cancel_left blocks (by decide)]
    exact decrypt_encryptBlocks h secret hpadded
  have hzeros : ∀ b ∈ (padded blocks password).drop password.length, b = 0 := by
    rw [padded, List.drop_left]
    exact fun b hb => List.eq_of_mem_replicate hb
  unfold Packet.password
  rw [hp.hidden]
  show (do require _ _; _) = _
  rw [require, if_pos hshape]
  show (do require _ _; _) = _
  rw [hplain, takeWhile_padded hp.whole, require, if_pos ⟨hp.nonempty, hzeros⟩]
  rfl

/-- Only a hidden password is accepted. -/
theorem hides_of_password {h : Hashes} {secret : Bytes} {fromUtf8 : Bytes → Option Text}
    {text : Text} (hp : p.password h fromUtf8 secret = .ok text) :
    ∃ blocks password, Hides h secret p blocks password ∧ fromUtf8 password = some text := by
  obtain ⟨ciphertext, hattr, hp⟩ := bind_ok.1 hp
  obtain ⟨hshape, hp⟩ := seq_ok.1 hp
  obtain ⟨hpadding, hp⟩ := seq_ok.1 hp
  obtain ⟨hne, hbound, hmod⟩ := require_ok.1 hshape
  have hlength : ciphertext.length = 16 * (ciphertext.length / 16) := by omega
  obtain ⟨hnonempty, hzeros⟩ := require_ok.1 hpadding
  generalize hplain : decrypt h secret (ciphertext.length / 16) p.authenticator ciphertext = plain
    at hnonempty hzeros hp
  have hplainLength : plain.length = 16 * (ciphertext.length / 16) := by
    rw [← hplain]
    exact length_decrypt h secret hlength
  have hsplit : plain.takeWhile (· ≠ 0) ++ plain.dropWhile (· ≠ 0) = plain :=
    List.takeWhile_append_dropWhile
  have hrest : (plain.takeWhile (· ≠ 0) ++ plain.dropWhile (· ≠ 0)).drop
      (plain.takeWhile (· ≠ 0)).length = plain.dropWhile (· ≠ 0) := List.drop_left
  rw [hsplit] at hrest
  have hcount : (plain.takeWhile (· ≠ 0)).length + (plain.dropWhile (· ≠ 0)).length =
      16 * (ciphertext.length / 16) := by
    rw [← List.length_append, hsplit, hplainLength]
  rw [hrest] at hzeros
  have hpadded : padded (ciphertext.length / 16) (plain.takeWhile (· ≠ 0)) = plain := by
    rw [padded, ← hcount, Nat.add_sub_cancel_left, ← List.eq_replicate_of_mem hzeros, hsplit]
  refine ⟨ciphertext.length / 16, plain.takeWhile (· ≠ 0), ⟨hnonempty, fun h0 => ?_, ?_, by omega,
    ?_⟩, okOr_ok.1 hp⟩
  · simpa using List.mem_takeWhile_imp h0
  · omega
  · rw [encrypt, hpadded, ← hplain, encryptBlocks_decrypt h secret hlength]
    exact okOr_ok.1 hattr

/-! ## Responses are read back -/

/-- The attributes of a response after its Message-Authenticator. -/
theorem response_attributes {h : Hashes} {code : UInt8} {secret : Bytes}
    {attributes : List WireAttribute} (hr : p.response h code secret attributes = .ok bytes) :
    ∃ mac, mac.length = 16 ∧ bytes.take 1 = [code] ∧
      bytes.drop 20 = encodeAttributes ((80, mac) :: (attributes ++ p.proxyState)) := by
  obtain ⟨-, hr⟩ := seq_ok.1 hr
  obtain ⟨-, hr⟩ := seq_ok.1 hr
  obtain rfl := Except.ok.inj hr
  generalize hmac : h.hmac secret _ = mac
  have hlength : mac.length = 16 := by
    rw [← hmac]
    exact h.hmac_length _ _
  refine ⟨mac, hlength, rfl, ?_⟩
  show _ = encodeAttribute (80, mac) ++ encodeAttributes (attributes ++ p.proxyState)
  rw [List.drop_left' (by simp [h.md5_length]), encodeAttribute, hlength]
  rfl

/-- **Passwords and attributes are read back as they were written.** Only requests are decoded; the
attributes of a response are read with the same walk. -/
theorem radius_codec (h : Hashes) (secret : Bytes) (p : Packet) :
    (∀ fromUtf8 blocks password, Hides h secret p blocks password →
      p.password h fromUtf8 secret =
        okOr (fromUtf8 password) (.bad "PAP passwords must be UTF-8")) ∧
    (∀ fromUtf8 text, p.password h fromUtf8 secret = .ok text →
      ∃ blocks password, Hides h secret p blocks password ∧ fromUtf8 password = some text) ∧
    (∀ bytes, decode h bytes secret = .ok p ↔ bytes = requestBytes p ∧ Authentic h secret p) ∧
    ∀ code attributes bytes, p.response h code secret attributes = .ok bytes →
      (code ≠ 1 → decode h bytes secret = .error (.bad "Invalid RADIUS packet")) ∧
      ∃ mac, mac.length = 16 ∧ (Legal [] ((80, mac) :: (attributes ++ p.proxyState)) →
        walk bytes.length 20 [] none (bytes.drop 20) =
          .ok ((80, mac) :: (attributes ++ p.proxyState),
            authenticatorAt 20 none ((80, mac) :: (attributes ++ p.proxyState)))) := by
  refine ⟨fun fromUtf8 blocks password hp => password_of_hides fromUtf8 hp,
    fun fromUtf8 text hp => hides_of_password hp, fun bytes => decode_ok_iff h secret bytes p,
    fun code attributes bytes hr => ?_⟩
  obtain ⟨mac, hmac, hcode, hattrs⟩ := response_attributes hr
  refine ⟨fun hne => ?_, mac, hmac, fun hlegal => ?_⟩
  · unfold decode
    rw [require, if_neg]
    · rfl
    · rintro ⟨-, -, hone, -⟩
      exact hne (List.cons.inj (hcode.symm.trans hone)).1
  · rw [hattrs]
    refine walk_encodeAttributes hlegal ?_
    have hlength := length_le_encodeAttributes ((80, mac) :: (attributes ++ p.proxyState))
    rw [← hattrs, List.length_drop] at hlength
    omega

/-- Digests that show the end of the message, or the key. -/
def shownHashes : Hashes where
  md5 m := (m.reverse ++ zeros).take 16
  hmac k _ := (k ++ zeros).take 16
  md5_length m := by simp [length_zeros]
  hmac_length k m := by simp [length_zeros]

/-- A password of twenty letters, which takes two blocks. -/
def twentyLetters : Bytes := (List.range 20).map fun i => UInt8.ofNat (97 + i)

/-- A signed request with that password and a Proxy-State. -/
def signedRequest : Packet where
  identifier := 7
  authenticator := zeros
  attrs := [(1, [97]), (2, encrypt shownHashes [115, 51] zeros 2 twentyLetters), (33, [9]),
    (80, ([115, 51] ++ zeros).take 16)]

/-- The password is read back from the bytes of the request, and the attributes from those of the
answer. -/
theorem radius_codec_signed :
    decode shownHashes (requestBytes signedRequest) [115, 51] = .ok signedRequest ∧
      signedRequest.password shownHashes (fun b => some (b.map (Char.ofNat ·.toNat))) [115, 51] =
        .ok "abcdefghijklmnopqrst".toList ∧
      ∃ bytes mac, signedRequest.response shownHashes 2 [115, 51] [(18, [65])] = .ok bytes ∧
        walk bytes.length 20 [] none (bytes.drop 20) =
          .ok ([(80, mac), (18, [65]), (33, [9])], some 22) := by
  obtain ⟨hpassword, -, hdecode, hresponse⟩ := radius_codec shownHashes [115, 51] signedRequest
  have hauthentic : Authentic shownHashes [115, 51] signedRequest :=
    ⟨rfl, by decide, by decide, _, rfl, rfl⟩
  have hhides : Hides shownHashes [115, 51] signedRequest 2 twentyLetters :=
    ⟨by decide, by decide, by decide, by decide, rfl⟩
  obtain ⟨-, mac, hmac, hwalk⟩ := hresponse 2 [(18, [65])] _ rfl
  have hlegal : Legal [] [(80, mac), (18, [65]), (33, [9])] :=
    ⟨(by decide : (80 : UInt8) ≠ 0), hmac ▸ by decide, fun _ => List.not_mem_nil, fun _ => hmac,
      (by decide : Legal [80] [(18, [65]), (33, [9])])⟩
  exact ⟨(hdecode _).mpr ⟨rfl, hauthentic⟩, hpassword _ 2 twentyLetters hhides, _, mac, rfl,
    hwalk hlegal⟩

/-- Digests that are all zero. -/
def zeroHashes : Hashes := ⟨fun _ => zeros, fun _ _ => zeros, fun _ => rfl, fun _ _ => rfl⟩

/-- The answer to a request is not decoded as it is no request, whatever its attributes. -/
theorem radius_response_not_decoded : ∃ p : Packet, ∃ bytes,
    p.response zeroHashes 2 [] [(18, [65])] = .ok bytes ∧
      ∀ q, decode zeroHashes bytes [] ≠ .ok q := by
  refine ⟨⟨7, zeros, []⟩, _, rfl, fun q hq => ?_⟩
  have hrequest := ((decode_ok_iff zeroHashes [] _ q).1 hq).1
  exact absurd (List.cons.inj hrequest).1 (by decide)

end RiAuth.Radius
