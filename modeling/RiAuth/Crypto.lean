import RiAuth.Basic
import RiAuth.Lib.Framing

/-!
# Sealed data

`crypto::seal` and `crypto::unseal` around an authenticated cipher. The cipher itself is a
parameter; `Aead.Lawful` is what is relied on of it, and a sealed text is its marker, its nonce and
the cipher's output.
-/

namespace RiAuth

open Framing

/-- Bytes of a fixed length. -/
abbrev Fixed (n : ℕ) := { bytes : Bytes // bytes.length = n }

/-- Bytes of an ASCII text. -/
def ascii (text : String) : Bytes := text.toList.map fun c => UInt8.ofNat c.toNat

/-- An authenticated cipher: key, nonce, context, then the text. -/
structure Aead where
  encrypt : Bytes → Bytes → Bytes → Bytes → Bytes
  decrypt : Bytes → Bytes → Bytes → Bytes → Option Bytes

/-- A 16-byte tag is appended, and what was sealed opens under the same nonce and context. -/
structure Aead.Lawful (a : Aead) : Prop where
  length_encrypt : ∀ key nonce context plaintext,
    (a.encrypt key nonce context plaintext).length = plaintext.length + 16
  decrypt_encrypt : ∀ key nonce context plaintext,
    a.decrypt key nonce context (a.encrypt key nonce context plaintext) = some plaintext

namespace Crypto

/-- The marker of sealed data. -/
def marker : Bytes := ascii "RIAUTH-AEAD1"

/-- Marker, nonce and ciphertext. -/
def sealBytes (a : Aead) (key : Bytes) (nonce : Fixed 12) (context plaintext : Bytes) : Bytes :=
  marker ++ (nonce.1 ++ a.encrypt key nonce.1 context plaintext)

/-- What `sealBytes` wrote. -/
def unsealBytes (a : Aead) (key context ciphertext : Bytes) : Result Bytes :=
  if ciphertext.take 12 = marker ∧ 28 ≤ (ciphertext.drop 12).length then
    match a.decrypt key ((ciphertext.drop 12).take 12) context ((ciphertext.drop 12).drop 12) with
    | some plaintext => .ok plaintext
    | none => .error (.bad "Encrypted data authentication failed: wrong key or damaged data")
  else .error (.bad "Invalid encrypted data format")

theorem length_marker : marker.length = 12 := by decide

variable {a : Aead} {key context plaintext : Bytes}

theorem length_sealed {nonce : Fixed 12}
    (h : (a.encrypt key nonce.1 context plaintext).length = plaintext.length + 16) :
    (sealBytes a key nonce context plaintext).length = plaintext.length + 40 := by
  unfold sealBytes
  rw [List.length_append, List.length_append, length_marker, nonce.2, h]
  omega

theorem unseal_of_decrypt {body : Bytes} {nonce : Fixed 12} (hlength : 16 ≤ body.length)
    (h : a.decrypt key nonce.1 context body = some plaintext) :
    unsealBytes a key context (marker ++ (nonce.1 ++ body)) = .ok plaintext := by
  have hmarker : (marker ++ (nonce.1 ++ body)).take 12 = marker := List.take_left' length_marker
  have hbody : (marker ++ (nonce.1 ++ body)).drop 12 = nonce.1 ++ body :=
    List.drop_left' length_marker
  unfold unsealBytes
  rw [hbody, List.take_left' nonce.2, List.drop_left' nonce.2, if_pos, h]
  refine ⟨hmarker, ?_⟩
  rw [List.length_append, nonce.2]
  omega

theorem unseal_sealed (h : a.Lawful) (key : Bytes) (nonce : Fixed 12) (context plaintext : Bytes) :
    unsealBytes a key context (sealBytes a key nonce context plaintext) = .ok plaintext :=
  unseal_of_decrypt (by rw [h.length_encrypt]; omega) (h.decrypt_encrypt _ _ _ _)

/-- What opens has the shape of sealed data, and the cipher opened its body. -/
theorem unseal_ok {ciphertext : Bytes} (h : unsealBytes a key context ciphertext = .ok plaintext) :
    ∃ nonce : Fixed 12, ∃ body, ciphertext = marker ++ (nonce.1 ++ body) ∧
      a.decrypt key nonce.1 context body = some plaintext := by
  unfold unsealBytes at h
  split at h
  · rename_i hshape
    obtain ⟨hmarker, hlength⟩ := hshape
    split at h
    · rename_i opened hopen
      cases h
      have hnonce : ((ciphertext.drop 12).take 12).length = 12 := by
        rw [List.length_take]
        omega
      refine ⟨⟨_, hnonce⟩, _, ?_, hopen⟩
      rw [List.take_append_drop, ← hmarker, List.take_append_drop]
    · cases h
  · cases h

end Crypto

end RiAuth
