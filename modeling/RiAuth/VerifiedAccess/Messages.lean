import RiAuth.Basic
import RiAuth.Lib.Base128
import RiAuth.Lib.Checks

/-!
# Verified Access messages

A challenge is a protobuf message of data and signature. A response is such a message too; its data
is a message that embeds the challenge.

* `parseSignedData`, `embeddedChallenge`: the parser;
* `Message`: the wire format, as a relation between fields and bytes;
* **`signed_data_parsed`**: the parser accepts the messages that have data and a signature, and
  nothing else; and a response is accepted if it embeds what was issued.
-/

namespace RiAuth.VerifiedAccess

open Checks Framing Base128

/-! ## The parser -/

/-- The highest field number. -/
def MAX_PROTO_FIELD : ℕ := 2 ^ 29 - 1

/-- What stands before a field. -/
structure ProtoTag where
  field : ℕ
  wire : ℕ

/-- A number below `2 ^ 64` in at most ten bytes. -/
def readVarint (input : Bytes) : Option (ℕ × Bytes) :=
  readFrom (fun b => 1 < b.toNat) 10 0 0 input

/-- Field number and wire type. -/
def nextTag (input : Bytes) : Option (ProtoTag × Bytes) := do
  let (tag, input) ← readVarint input
  if tag / 8 = 0 ∨ MAX_PROTO_FIELD < tag / 8 then none
  else some (⟨tag / 8, tag % 8⟩, input)

/-- So many bytes are passed over. -/
def skipExact (input : Bytes) (len : ℕ) : Option Bytes :=
  if input.length < len then none else some (input.drop len)

/-- A length and so many bytes. -/
def takeDelimited (input : Bytes) : Option (Bytes × Bytes) := do
  let (len, input) ← readVarint input
  if input.length < len then none else some (input.take len, input.drop len)

/-- A field is passed over. -/
def skipField (input : Bytes) (wire : ℕ) : Option Bytes :=
  match wire with
  | 0 => (readVarint input).map Prod.snd
  | 1 => skipExact input 8
  | 2 => (readVarint input).bind fun r => skipExact r.2 r.1
  | 5 => skipExact input 4
  | _ => none

/-- The loop over the fields, with the steps that it may still take. The wanted fields have to be
length-delimited, and the last one of a number counts; all others are skipped. -/
def scanFields (wanted : List ℕ) : ℕ → Bytes → (ℕ → Option Bytes) → Option (ℕ → Option Bytes)
  | _, [], found => some found
  | 0, _ :: _, _ => none
  | steps + 1, b :: rest, found => do
    let (tag, rest) ← nextTag (b :: rest)
    if tag.field ∈ wanted then
      if tag.wire = 2 then
        let (value, rest) ← takeDelimited rest
        scanFields wanted steps rest (Function.update found tag.field (some value))
      else none
    else
      let rest ← skipField rest tag.wire
      scanFields wanted steps rest found

/-- Data and signature of a message. -/
def parseSignedData (bytes : Bytes) : Option (Bytes × Bytes) := do
  let found ← scanFields [1, 2] bytes.length bytes fun _ => none
  let data ← found 1
  let signature ← found 2
  if data ≠ [] ∧ signature ≠ [] then some (data, signature) else none

/-- `ChallengeResponse.challenge` is the issued message. -/
def embeddedChallenge (payload : Bytes) : Option (Bytes × Bytes) := do
  let found ← scanFields [1] payload.length payload fun _ => none
  parseSignedData (← found 1)

/-! ## Responses -/

def MAX_BODY : ℕ := 65536

def MIN_CHALLENGE_BYTES : ℕ := 16

def MAX_CHALLENGE_BYTES : ℕ := 8192

def MIN_RESPONSE_BYTES : ℕ := 32

def MAX_RESPONSE_BYTES : ℕ := 12288

/-- The standard alphabet, with padding. -/
structure Base64 where
  encode : Bytes → Text
  decode : Text → Option Bytes

/-- `u8::is_ascii_whitespace`. -/
def isAsciiWhitespace (c : Char) : Bool := c.toNat ∈ [0x09, 0x0A, 0x0C, 0x0D, 0x20]

/-- A text that encodes just its bytes. -/
def canonicalBase64 (b64 : Base64) (value : Text) (min max : ℕ) : Result Text := do
  require (¬ (MAX_BODY < value.bytes ∨ value.any isAsciiWhitespace = true)) (.bad "invalid")
  let bytes ← okOr (b64.decode value) (.bad "invalid")
  require (min ≤ bytes.length ∧ bytes.length ≤ max) (.bad "invalid")
  let canonical := b64.encode bytes
  require (canonical = value) (.bad "invalid")
  .ok canonical

/-- The one answer to a bad response. -/
def invalidResponse : Error := .bad "Verified Access challenge response is invalid"

/-- The bytes of a text, within bounds. -/
def decodeBounded (b64 : Base64) (value : Text) (min max : ℕ) : Result Bytes := do
  let canonical ← (canonicalBase64 b64 value min max).mapError fun _ => invalidResponse
  okOr (b64.decode canonical) invalidResponse

/-- Refuse a response whose embedded message is not the issued challenge. -/
def responseAnswersChallenge (b64 : Base64) (challenge response : Text) : Result Unit := do
  let issuedBytes ← decodeBounded b64 challenge MIN_CHALLENGE_BYTES MAX_CHALLENGE_BYTES
  let responseBytes ← decodeBounded b64 response MIN_RESPONSE_BYTES MAX_RESPONSE_BYTES
  let issued ← okOr (parseSignedData issuedBytes) invalidResponse
  let outer ← okOr (parseSignedData responseBytes) invalidResponse
  let embedded ← okOr (embeddedChallenge outer.1) invalidResponse
  require (issued.1 = embedded.1 ∧ issued.2 = embedded.2)
    (.bad "Verified Access response does not answer this challenge")

/-! ## The wire format -/

/-- Bytes that spell a 64 bit number. -/
def Varint (bs : Bytes) (n : ℕ) : Prop := Spells bs n ∧ bs.length ≤ 10 ∧ n < 2 ^ 64

/-- A field of any type. -/
structure Field where
  number : ℕ
  wire : ℕ
  value : Bytes

/-- What stands after the tag of a field, by the type of the field. -/
inductive Body : ℕ → Bytes → Bytes → Prop
  | varint {bs : Bytes} {n : ℕ} : Varint bs n → Body 0 bs bs
  | fixed64 {bs : Bytes} : bs.length = 8 → Body 1 bs bs
  | delimited {len value : Bytes} : Varint len value.length → Body 2 value (len ++ value)
  | fixed32 {bs : Bytes} : bs.length = 4 → Body 5 bs bs

/-- The bytes of a field. -/
inductive Field.Encodes (f : Field) : Bytes → Prop
  | mk {tag body : Bytes} : 1 ≤ f.number → f.number ≤ MAX_PROTO_FIELD →
    Varint tag (8 * f.number + f.wire) → Body f.wire f.value body → Encodes f (tag ++ body)

/-- Fields one after another. -/
inductive Message : List Field → Bytes → Prop
  | nil : Message [] []
  | cons {f : Field} {fs : List Field} {b bs : Bytes} : f.Encodes b → Message fs bs →
    Message (f :: fs) (b ++ bs)

/-- The value of the last field of a number. -/
def last (number : ℕ) : List Field → Option Bytes
  | [] => none
  | f :: fs => (last number fs).or (if f.number = number then some f.value else none)

/-- Fields of these numbers are length-delimited. -/
def Plain (wanted : List ℕ) (fs : List Field) : Prop := ∀ f ∈ fs, f.number ∈ wanted → f.wire = 2

/-- The bytes are a message with this data and signature. -/
structure Signed (fs : List Field) (bytes data signature : Bytes) : Prop where
  message : Message fs bytes
  plain : Plain [1, 2] fs
  last_data : last 1 fs = some data
  last_signature : last 2 fs = some signature
  nonempty : data ≠ [] ∧ signature ≠ []

/-- The bytes are a message that embeds a challenge. -/
structure Embeds (fs : List Field) (payload challenge : Bytes) : Prop where
  message : Message fs payload
  plain : Plain [1] fs
  last_challenge : last 1 fs = some challenge

/-- The text is the base64 form of the bytes, which are of an allowed size. -/
structure Carries (b64 : Base64) (value : Text) (bytes : Bytes) (min max : ℕ) : Prop where
  short : value.bytes ≤ MAX_BODY
  solid : value.any isAsciiWhitespace = false
  decoded : b64.decode value = some bytes
  encoded : b64.encode bytes = value
  sized : min ≤ bytes.length ∧ bytes.length ≤ max

/-! ## Reading fields -/

variable {bs rest : Bytes} {fs : List Field} {steps : ℕ} {found out : ℕ → Option Bytes}

theorem readVarint_iff {n : ℕ} :
    readVarint bs = some (n, rest) ↔ ∃ pre, bs = pre ++ rest ∧ Varint pre n := by
  have hrefused : ∀ b : UInt8, b.toNat < 128 → (decide (1 < b.toNat) = true ↔ 1 < b.toNat) :=
    fun b _ => decide_eq_true_iff
  unfold readVarint
  exact readFrom_zero hrefused

theorem nextTag_iff {tag : ProtoTag} :
    nextTag bs = some (tag, rest) ↔ ∃ pre, bs = pre ++ rest ∧
      Varint pre (8 * tag.field + tag.wire) ∧ tag.wire < 8 ∧ 1 ≤ tag.field ∧
        tag.field ≤ MAX_PROTO_FIELD := by
  unfold nextTag
  constructor
  · intro h
    obtain ⟨⟨n, input⟩, hread, htag⟩ := Option.bind_eq_some_iff.mp h
    obtain ⟨pre, rfl, hvarint⟩ := readVarint_iff.mp hread
    dsimp only at htag
    split_ifs at htag with hfield
    obtain ⟨rfl, rfl⟩ := Prod.mk.inj (Option.some.inj htag)
    have hsplit : 8 * (n / 8) + n % 8 = n := Nat.div_add_mod n 8
    dsimp only
    rw [hsplit]
    exact ⟨pre, rfl, hvarint, Nat.mod_lt _ (by decide), by omega, by omega⟩
  · rintro ⟨pre, rfl, hvarint, hwire, hpos, hmax⟩
    refine Option.bind_eq_some_iff.mpr ⟨_, readVarint_iff.mpr ⟨pre, rfl, hvarint⟩, ?_⟩
    have hdiv : (8 * tag.field + tag.wire) / 8 = tag.field := by omega
    have hmod : (8 * tag.field + tag.wire) % 8 = tag.wire := by omega
    dsimp only
    rw [hdiv, hmod, if_neg (by omega)]

theorem skipExact_iff {len : ℕ} :
    skipExact bs len = some rest ↔ ∃ value : Bytes, bs = value ++ rest ∧ value.length = len := by
  unfold skipExact
  constructor
  · intro h
    split_ifs at h with hshort
    obtain rfl := Option.some.inj h
    exact ⟨bs.take len, (List.take_append_drop len bs).symm, List.length_take_of_le (by omega)⟩
  · rintro ⟨value, rfl, rfl⟩
    rw [if_neg (by simp), List.drop_left]

theorem takeDelimited_iff {value : Bytes} :
    takeDelimited bs = some (value, rest) ↔ ∃ body, bs = body ++ rest ∧ Body 2 value body := by
  unfold takeDelimited
  constructor
  · intro h
    obtain ⟨⟨len, input⟩, hread, htake⟩ := Option.bind_eq_some_iff.mp h
    obtain ⟨pre, rfl, hvarint⟩ := readVarint_iff.mp hread
    dsimp only at htake
    split_ifs at htake with hshort
    obtain ⟨rfl, rfl⟩ := Prod.mk.inj (Option.some.inj htake)
    have hlen : (input.take len).length = len := List.length_take_of_le (by omega)
    refine ⟨pre ++ input.take len, ?_, .delimited (by rwa [hlen])⟩
    rw [List.append_assoc, List.take_append_drop]
  · rintro ⟨body, rfl, hbody⟩
    cases hbody with
    | @delimited len _ hvarint =>
      refine Option.bind_eq_some_iff.mpr
        ⟨(value.length, value ++ rest), readVarint_iff.mpr ⟨len, by simp, hvarint⟩, ?_⟩
      dsimp only
      rw [if_neg (by simp), List.take_left, List.drop_left]

/-- A field is skipped over exactly what its type says stands there. -/
theorem skipField_iff {wire : ℕ} :
    skipField bs wire = some rest ↔ ∃ value body, bs = body ++ rest ∧ Body wire value body := by
  constructor
  · intro h
    unfold skipField at h
    split at h
    · obtain ⟨⟨n, input⟩, hread, rfl⟩ := Option.map_eq_some_iff.mp h
      obtain ⟨pre, rfl, hvarint⟩ := readVarint_iff.mp hread
      exact ⟨pre, pre, rfl, .varint hvarint⟩
    · obtain ⟨value, rfl, hlen⟩ := skipExact_iff.mp h
      exact ⟨value, value, rfl, .fixed64 hlen⟩
    · obtain ⟨⟨n, input⟩, hread, hskip⟩ := Option.bind_eq_some_iff.mp h
      obtain ⟨pre, rfl, hvarint⟩ := readVarint_iff.mp hread
      obtain ⟨value, rfl, rfl⟩ := skipExact_iff.mp hskip
      exact ⟨value, pre ++ value, by simp, .delimited hvarint⟩
    · obtain ⟨value, rfl, hlen⟩ := skipExact_iff.mp h
      exact ⟨value, value, rfl, .fixed32 hlen⟩
    · cases h
  · rintro ⟨value, body, rfl, hbody⟩
    cases hbody with
    | varint hvarint =>
      exact Option.map_eq_some_iff.mpr ⟨_, readVarint_iff.mpr ⟨_, rfl, hvarint⟩, rfl⟩
    | fixed64 hlen => exact skipExact_iff.mpr ⟨_, rfl, hlen⟩
    | @delimited len _ hvarint =>
      exact Option.bind_eq_some_iff.mpr ⟨(value.length, value ++ rest),
        readVarint_iff.mpr ⟨len, by simp, hvarint⟩, skipExact_iff.mpr ⟨value, rfl, rfl⟩⟩
    | fixed32 hlen => exact skipExact_iff.mpr ⟨_, rfl, hlen⟩

theorem Body.wire_lt {wire : ℕ} {value body : Bytes} (h : Body wire value body) : wire < 8 := by
  cases h <;> decide

theorem Field.Encodes.ne_nil {f : Field} {b : Bytes} (h : f.Encodes b) : b ≠ [] := by
  obtain ⟨-, -, htag, -⟩ := h
  exact List.append_ne_nil_of_left_ne_nil htag.1.ne_nil _

/-- The bytes have room for a step for each field. -/
theorem Message.length_le {bytes : Bytes} (h : Message fs bytes) : fs.length ≤ bytes.length := by
  induction h with
  | nil => exact le_rfl
  | cons hf _ ih =>
    have hpos := List.length_pos_iff.mpr hf.ne_nil
    rw [List.length_cons, List.length_append]
    omega

/-! ## The loop -/

/-- The values after a field. -/
def keep (wanted : List ℕ) (found : ℕ → Option Bytes) (f : Field) : ℕ → Option Bytes :=
  if f.number ∈ wanted then Function.update found f.number (some f.value) else found

/-- The values after all fields. -/
def collect (wanted : List ℕ) (found : ℕ → Option Bytes) (fs : List Field) : ℕ → Option Bytes :=
  fs.foldl (keep wanted) found

theorem collect_apply {wanted : List ℕ} {k : ℕ} (hk : k ∈ wanted) (fs : List Field) :
    ∀ found, collect wanted found fs k = (last k fs).or (found k) := by
  induction fs with
  | nil =>
    intro found
    rfl
  | cons f fs ih =>
    intro found
    change collect wanted (keep wanted found f) fs k = _
    rw [ih, last, Option.or_assoc]
    congr 1
    unfold keep
    by_cases hnumber : f.number = k
    · subst hnumber
      rw [if_pos hk, Function.update_self, if_pos rfl, Option.some_or]
    · rw [if_neg hnumber, Option.none_or]
      split_ifs
      · exact Function.update_of_ne (Ne.symm hnumber) _ _
      · rfl

variable {wanted : List ℕ}

/-- One step of the loop reads one field. -/
theorem scanFields_step {bytes : Bytes} (hbytes : bytes ≠ []) :
    scanFields wanted (steps + 1) bytes found = some out ↔
      ∃ f b rest, bytes = b ++ rest ∧ Field.Encodes f b ∧ (f.number ∈ wanted → f.wire = 2) ∧
        scanFields wanted steps rest (keep wanted found f) = some out := by
  obtain ⟨c, cs, rfl⟩ := List.exists_cons_of_ne_nil hbytes
  rw [scanFields]
  constructor
  · intro h
    obtain ⟨⟨tag, input⟩, htag, hstep⟩ := Option.bind_eq_some_iff.mp h
    obtain ⟨pre, hpre, hvarint, -, hpos, hmax⟩ := nextTag_iff.mp htag
    rw [hpre]
    dsimp only at hstep
    by_cases hwanted : tag.field ∈ wanted
    · rw [if_pos hwanted] at hstep
      by_cases hwire : tag.wire = 2
      · rw [if_pos hwire] at hstep
        obtain ⟨⟨value, rest⟩, htake, hrest⟩ := Option.bind_eq_some_iff.mp hstep
        obtain ⟨body, rfl, hbody⟩ := takeDelimited_iff.mp htake
        refine ⟨⟨tag.field, tag.wire, value⟩, pre ++ body, rest, by simp,
          .mk hpos hmax hvarint (hwire ▸ hbody), fun _ => hwire, ?_⟩
        unfold keep
        rwa [if_pos hwanted]
      · rw [if_neg hwire] at hstep
        cases hstep
    · rw [if_neg hwanted] at hstep
      obtain ⟨rest, hskip, hrest⟩ := Option.bind_eq_some_iff.mp hstep
      obtain ⟨value, body, rfl, hbody⟩ := skipField_iff.mp hskip
      refine ⟨⟨tag.field, tag.wire, value⟩, pre ++ body, rest, by simp,
        .mk hpos hmax hvarint hbody, fun hin => absurd hin hwanted, ?_⟩
      unfold keep
      rwa [if_neg hwanted]
  · rintro ⟨f, b, rest, hsplit, hf, hplain, hrest⟩
    rw [hsplit]
    cases hf with
    | @mk pre body hpos hmax hvarint hbody =>
      have htag : nextTag (pre ++ body ++ rest) = some (⟨f.number, f.wire⟩, body ++ rest) :=
        nextTag_iff.mpr ⟨pre, by simp, hvarint, hbody.wire_lt, hpos, hmax⟩
      refine Option.bind_eq_some_iff.mpr ⟨_, htag, ?_⟩
      unfold keep at hrest
      dsimp only
      by_cases hwanted : f.number ∈ wanted
      · rw [if_pos hwanted] at hrest ⊢
        rw [hplain hwanted] at hbody
        rw [if_pos (hplain hwanted)]
        exact Option.bind_eq_some_iff.mpr ⟨_, takeDelimited_iff.mpr ⟨body, rfl, hbody⟩, hrest⟩
      · rw [if_neg hwanted] at hrest ⊢
        exact Option.bind_eq_some_iff.mpr
          ⟨rest, skipField_iff.mpr ⟨f.value, body, rfl, hbody⟩, hrest⟩

theorem scanFields_nil : scanFields wanted steps [] found = some found := by
  cases steps <;> rfl

theorem message_nil_iff : Message fs [] ↔ fs = [] := by
  constructor
  · intro h
    exact List.length_eq_zero_iff.mp (Nat.le_zero.mp h.length_le)
  · rintro rfl
    exact .nil

/-- A whole run of the loop reads a message that has no more fields than there are steps. -/
theorem scanFields_iff {bytes : Bytes} :
    scanFields wanted steps bytes found = some out ↔
      ∃ fs, Message fs bytes ∧ fs.length ≤ steps ∧ Plain wanted fs ∧
        out = collect wanted found fs := by
  have hnil {steps found} : scanFields wanted steps [] found = some out ↔
      ∃ fs, Message fs [] ∧ fs.length ≤ steps ∧ Plain wanted fs ∧
        out = collect wanted found fs := by
    rw [scanFields_nil]
    constructor
    · intro h
      exact ⟨[], .nil, Nat.zero_le _, by simp [Plain], (Option.some.inj h).symm⟩
    · rintro ⟨fs, hmessage, -, -, rfl⟩
      obtain rfl := message_nil_iff.mp hmessage
      rfl
  induction steps generalizing bytes found with
  | zero =>
    cases bytes with
    | nil => exact hnil
    | cons b bs =>
      constructor
      · rintro ⟨⟩
      · rintro ⟨fs, hmessage, hlen, -⟩
        obtain rfl := List.length_eq_zero_iff.mp (Nat.le_zero.mp hlen)
        cases hmessage
  | succ steps ih =>
    by_cases hbytes : bytes = []
    · subst hbytes
      exact hnil
    · rw [scanFields_step hbytes]
      constructor
      · rintro ⟨f, b, rest, rfl, hf, hplain, hrest⟩
        obtain ⟨fs, hmessage, hlen, hfs, rfl⟩ := ih.mp hrest
        exact ⟨f :: fs, .cons hf hmessage, Nat.succ_le_succ hlen,
          List.forall_mem_cons.mpr ⟨hplain, hfs⟩, rfl⟩
      · rintro ⟨fs, hmessage, hlen, hplain, rfl⟩
        cases hmessage with
        | nil => exact absurd rfl hbytes
        | @cons f fs b rest hf hrest =>
          obtain ⟨hwire, hfs⟩ := List.forall_mem_cons.mp hplain
          exact ⟨f, b, rest, rfl, hf, hwire,
            ih.mpr ⟨fs, hrest, Nat.le_of_succ_le_succ hlen, hfs, rfl⟩⟩

/-- With a step for each byte the bound never stops the loop. -/
theorem scanFields_length_iff {bytes : Bytes} :
    scanFields wanted bytes.length bytes (fun _ => none) = some out ↔
      ∃ fs, Message fs bytes ∧ Plain wanted fs ∧ out = collect wanted (fun _ => none) fs := by
  rw [scanFields_iff]
  constructor
  · rintro ⟨fs, hmessage, -, hfs⟩
    exact ⟨fs, hmessage, hfs⟩
  · rintro ⟨fs, hmessage, hfs⟩
    exact ⟨fs, hmessage, hmessage.length_le, hfs⟩

theorem collect_none {k : ℕ} (hk : k ∈ wanted) (fs : List Field) :
    collect wanted (fun _ => none) fs k = last k fs := by
  rw [collect_apply hk, Option.or_none]

theorem parseSignedData_iff {bytes data signature : Bytes} :
    parseSignedData bytes = some (data, signature) ↔ ∃ fs, Signed fs bytes data signature := by
  have h1 := collect_none (show 1 ∈ [1, 2] by decide)
  have h2 := collect_none (show 2 ∈ [1, 2] by decide)
  unfold parseSignedData
  constructor
  · intro h
    obtain ⟨found, hscan, hfound⟩ := Option.bind_eq_some_iff.mp h
    obtain ⟨fs, hmessage, hplain, rfl⟩ := scanFields_length_iff.mp hscan
    obtain ⟨d, hd, hrest⟩ := Option.bind_eq_some_iff.mp hfound
    obtain ⟨s, hs, hlast⟩ := Option.bind_eq_some_iff.mp hrest
    rw [h1] at hd
    rw [h2] at hs
    split_ifs at hlast with hnonempty
    obtain ⟨rfl, rfl⟩ := Prod.mk.inj (Option.some.inj hlast)
    exact ⟨fs, hmessage, hplain, hd, hs, hnonempty⟩
  · rintro ⟨fs, hmessage, hplain, hd, hs, hnonempty⟩
    rw [← h1] at hd
    rw [← h2] at hs
    refine Option.bind_eq_some_iff.mpr
      ⟨_, scanFields_length_iff.mpr ⟨fs, hmessage, hplain, rfl⟩, ?_⟩
    refine Option.bind_eq_some_iff.mpr ⟨data, hd, ?_⟩
    refine Option.bind_eq_some_iff.mpr ⟨signature, hs, ?_⟩
    exact if_pos hnonempty

theorem embeddedChallenge_iff {payload : Bytes} {pair : Bytes × Bytes} :
    embeddedChallenge payload = some pair ↔
      ∃ fs challenge, Embeds fs payload challenge ∧ parseSignedData challenge = some pair := by
  have h1 := collect_none (show 1 ∈ [1] by decide)
  unfold embeddedChallenge
  constructor
  · intro h
    obtain ⟨found, hscan, hfound⟩ := Option.bind_eq_some_iff.mp h
    obtain ⟨fs, hmessage, hplain, rfl⟩ := scanFields_length_iff.mp hscan
    obtain ⟨challenge, hlast, hparse⟩ := Option.bind_eq_some_iff.mp hfound
    rw [h1] at hlast
    exact ⟨fs, challenge, ⟨hmessage, hplain, hlast⟩, hparse⟩
  · rintro ⟨fs, challenge, ⟨hmessage, hplain, hlast⟩, hparse⟩
    rw [← h1] at hlast
    refine Option.bind_eq_some_iff.mpr
      ⟨_, scanFields_length_iff.mpr ⟨fs, hmessage, hplain, rfl⟩, ?_⟩
    exact Option.bind_eq_some_iff.mpr ⟨challenge, hlast, hparse⟩

/-! ## Answers -/

section

variable {b64 : Base64} {value : Text} {bytes : Bytes} {min max : ℕ}

theorem canonicalBase64_ok {canonical : Text} :
    canonicalBase64 b64 value min max = .ok canonical ↔
      canonical = value ∧ ∃ bytes, Carries b64 value bytes min max := by
  unfold canonicalBase64
  rw [seq_ok, require_ok, bind_ok, not_or, Nat.not_lt, Bool.not_eq_true]
  constructor
  · rintro ⟨⟨hshort, hsolid⟩, bytes, hdecoded, h⟩
    rw [okOr_ok] at hdecoded
    rw [seq_ok, require_ok, seq_ok, require_ok] at h
    obtain ⟨hsized, hencoded, h⟩ := h
    cases h
    exact ⟨hencoded, bytes, hshort, hsolid, hdecoded, hencoded, hsized⟩
  · rintro ⟨rfl, bytes, h⟩
    refine ⟨⟨h.short, h.solid⟩, bytes, okOr_ok.mpr h.decoded, ?_⟩
    rw [seq_ok, require_ok, seq_ok, require_ok]
    exact ⟨h.sized, h.encoded, congrArg Except.ok h.encoded⟩

theorem decodeBounded_ok :
    decodeBounded b64 value min max = .ok bytes ↔ Carries b64 value bytes min max := by
  unfold decodeBounded
  rw [bind_ok]
  constructor
  · rintro ⟨canonical, hcanonical, hdecoded⟩
    obtain ⟨rfl, bytes', h⟩ := canonicalBase64_ok.mp (mapError_ok.mp hcanonical)
    cases h.decoded.symm.trans (okOr_ok.mp hdecoded)
    exact h
  · intro h
    exact ⟨value, mapError_ok.mpr (canonicalBase64_ok.mpr ⟨rfl, bytes, h⟩), okOr_ok.mpr h.decoded⟩

/-- Texts that carry messages are compared by what the messages embed. -/
theorem responseAnswersChallenge_ok {challenge response : Text} :
    responseAnswersChallenge b64 challenge response = .ok () ↔
      ∃ issuedBytes responseBytes issued outer,
        Carries b64 challenge issuedBytes MIN_CHALLENGE_BYTES MAX_CHALLENGE_BYTES ∧
        Carries b64 response responseBytes MIN_RESPONSE_BYTES MAX_RESPONSE_BYTES ∧
        parseSignedData issuedBytes = some issued ∧ parseSignedData responseBytes = some outer ∧
        embeddedChallenge outer.1 = some issued := by
  simp only [responseAnswersChallenge, bind_ok, decodeBounded_ok, okOr_ok, require_ok]
  constructor
  · rintro ⟨issuedBytes, hissued, responseBytes, hresponse, issued, hi, outer, ho, pair, hp, h⟩
    rw [← Prod.ext_iff] at h
    exact ⟨issuedBytes, responseBytes, issued, outer, hissued, hresponse, hi, ho, h ▸ hp⟩
  · rintro ⟨issuedBytes, responseBytes, issued, outer, hissued, hresponse, hi, ho, hp⟩
    exact ⟨issuedBytes, hissued, responseBytes, hresponse, issued, hi, outer, ho, issued, hp, rfl,
      rfl⟩

end

/-- A length-delimited field with one byte for the tag and one for the length. -/
def delimited (number : ℕ) (value : Bytes) : Bytes :=
  UInt8.ofNat (8 * number + 2) :: UInt8.ofNat value.length :: value

theorem varint_singleton {n : ℕ} (h : n < 128) : Varint [UInt8.ofNat n] n :=
  ⟨spells_singleton h, by simp, by omega⟩

theorem message_delimited {number : ℕ} {value : Bytes} (hpos : 1 ≤ number) (hnumber : number < 15)
    (hlen : value.length < 128) {bytes : Bytes} (h : Message fs bytes) :
    Message (⟨number, 2, value⟩ :: fs) (delimited number value ++ bytes) := by
  have hmax : number ≤ MAX_PROTO_FIELD := by
    rw [MAX_PROTO_FIELD]
    omega
  refine .cons ?_ h
  change Field.Encodes _ ([UInt8.ofNat (8 * number + 2)] ++ ([UInt8.ofNat value.length] ++ value))
  exact .mk hpos hmax (varint_singleton (by omega)) (.delimited (varint_singleton hlen))

/-- The parser accepts exactly the messages with data and a signature, and gives the last ones. A
payload that embeds a challenge gives the pair of the challenge, and a response that carries the
payload answers what was issued just when the pairs are equal. What is accepted are two texts that
carry such messages. -/
theorem signed_data_parsed :
    (∀ bytes data signature : Bytes,
      parseSignedData bytes = some (data, signature) ↔ ∃ fs, Signed fs bytes data signature) ∧
    (∀ (fs inner : List Field) (payload challenge data signature : Bytes),
      Embeds fs payload challenge → Signed inner challenge data signature →
        embeddedChallenge payload = some (data, signature)) ∧
    (∀ (b64 : Base64) (challenge response : Text)
      (issuedBytes responseBytes payload embedded : Bytes)
      (fs outer inner fs' : List Field) (data signature data' signature' signed : Bytes),
      Carries b64 challenge issuedBytes MIN_CHALLENGE_BYTES MAX_CHALLENGE_BYTES →
      Carries b64 response responseBytes MIN_RESPONSE_BYTES MAX_RESPONSE_BYTES →
      Signed fs issuedBytes data signature → Signed outer responseBytes payload signed →
      Embeds inner payload embedded → Signed fs' embedded data' signature' →
        (responseAnswersChallenge b64 challenge response = .ok () ↔
          (data', signature') = (data, signature))) ∧
    ∀ (b64 : Base64) (challenge response : Text),
      responseAnswersChallenge b64 challenge response = .ok () →
      ∃ (issuedBytes responseBytes payload embedded : Bytes) (fs outer inner fs' : List Field)
        (data signature signed : Bytes),
        Carries b64 challenge issuedBytes MIN_CHALLENGE_BYTES MAX_CHALLENGE_BYTES ∧
        Carries b64 response responseBytes MIN_RESPONSE_BYTES MAX_RESPONSE_BYTES ∧
        Signed fs issuedBytes data signature ∧ Signed outer responseBytes payload signed ∧
        Embeds inner payload embedded ∧ Signed fs' embedded data signature := by
  have hembedded {fs inner : List Field} {payload challenge data signature : Bytes}
      (hfs : Embeds fs payload challenge) (hinner : Signed inner challenge data signature) :
      embeddedChallenge payload = some (data, signature) :=
    embeddedChallenge_iff.mpr ⟨fs, challenge, hfs, parseSignedData_iff.mpr ⟨inner, hinner⟩⟩
  refine ⟨fun _ _ _ => parseSignedData_iff, fun _ _ _ _ _ _ => hembedded, ?_, ?_⟩
  · intro b64 challenge response issuedBytes responseBytes payload embedded fs outer inner fs' data
      signature data' signature' signed hissued hresponse hi ho hin hfs'
    have hi' := parseSignedData_iff.mpr ⟨fs, hi⟩
    have ho' := parseSignedData_iff.mpr ⟨outer, ho⟩
    have hp' := hembedded hin hfs'
    rw [responseAnswersChallenge_ok]
    constructor
    · rintro ⟨bytes, bytes', issued, outer', h, h', hi, ho, hp⟩
      cases hissued.decoded.symm.trans h.decoded
      cases hresponse.decoded.symm.trans h'.decoded
      cases hi'.symm.trans hi
      cases ho'.symm.trans ho
      exact Option.some.inj (hp'.symm.trans hp)
    · intro heq
      exact ⟨issuedBytes, responseBytes, _, _, hissued, hresponse, hi', ho', heq ▸ hp'⟩
  · intro b64 challenge response h
    obtain ⟨issuedBytes, responseBytes, ⟨data, signature⟩, ⟨payload, signed⟩, hissued, hresponse, hi,
      ho, hp⟩ := responseAnswersChallenge_ok.mp h
    obtain ⟨inner, embedded, hembeds, hpair⟩ := embeddedChallenge_iff.mp hp
    obtain ⟨fs, hi⟩ := parseSignedData_iff.mp hi
    obtain ⟨outer, ho⟩ := parseSignedData_iff.mp ho
    obtain ⟨fs', hpair⟩ := parseSignedData_iff.mp hpair
    exact ⟨issuedBytes, responseBytes, payload, embedded, fs, outer, inner, fs', data, signature,
      signed, hissued, hresponse, hi, ho, hembeds, hpair⟩

def sampleChallenge : Bytes :=
  delimited 1 (List.replicate 7 1) ++ delimited 2 (List.replicate 5 2)

def samplePayload : Bytes := delimited 1 sampleChallenge

def sampleResponse : Bytes := delimited 1 samplePayload ++ delimited 2 (List.replicate 10 3)

/-- The codec, on the two messages. -/
def sampleBase64 : Base64 where
  encode bytes :=
    if bytes = sampleChallenge then "CgcBAQEBAQEBEgUCAgICAg==".toList
    else if bytes = sampleResponse then "ChIKEAoHAQEBAQEBARIFAgICAgISCgMDAwMDAwMDAwM=".toList
    else []
  decode value :=
    if value = "CgcBAQEBAQEBEgUCAgICAg==".toList then some sampleChallenge
    else if value = "ChIKEAoHAQEBAQEBARIFAgICAgISCgMDAwMDAwMDAwM=".toList then some sampleResponse
    else none

theorem signed_data_parsed_sample :
    parseSignedData sampleChallenge = some (List.replicate 7 1, List.replicate 5 2) ∧
      responseAnswersChallenge sampleBase64 "CgcBAQEBAQEBEgUCAgICAg==".toList
        "ChIKEAoHAQEBAQEBARIFAgICAgISCgMDAwMDAwMDAwM=".toList = .ok () := by
  obtain ⟨hparse, -, hanswer, -⟩ := signed_data_parsed
  have hchallenge : Signed [⟨1, 2, List.replicate 7 1⟩, ⟨2, 2, List.replicate 5 2⟩] sampleChallenge
      (List.replicate 7 1) (List.replicate 5 2) :=
    ⟨message_delimited (by decide) (by decide) (by decide)
      (message_delimited (by decide) (by decide) (by decide) .nil),
      by simp [Plain], rfl, rfl, by decide⟩
  have hpayload : Embeds [⟨1, 2, sampleChallenge⟩] samplePayload sampleChallenge :=
    ⟨message_delimited (by decide) (by decide) (by decide) .nil, by simp [Plain], rfl⟩
  have hresponse : Signed [⟨1, 2, samplePayload⟩, ⟨2, 2, List.replicate 10 3⟩] sampleResponse
      samplePayload (List.replicate 10 3) :=
    ⟨message_delimited (by decide) (by decide) (by decide)
      (message_delimited (by decide) (by decide) (by decide) .nil),
      by simp [Plain], rfl, rfl, by decide⟩
  refine ⟨(hparse _ _ _).mpr ⟨_, hchallenge⟩, ?_⟩
  refine (hanswer sampleBase64 _ _ sampleChallenge sampleResponse samplePayload sampleChallenge
    _ _ _ _ _ _ _ _ _ ?_ ?_ hchallenge hresponse hpayload hchallenge).mpr rfl
  · exact ⟨by decide, by decide, by decide, by decide, by decide⟩
  · exact ⟨by decide, by decide, by decide, by decide, by decide⟩

/-- A challenge with empty data is a message too, but what embeds it is refused. -/
theorem empty_data_refused :
    Message [⟨1, 2, []⟩, ⟨2, 2, [5]⟩] (delimited 1 [] ++ delimited 2 [5]) ∧
      Embeds [⟨1, 2, delimited 1 [] ++ delimited 2 [5]⟩]
        (delimited 1 (delimited 1 [] ++ delimited 2 [5])) (delimited 1 [] ++ delimited 2 [5]) ∧
      embeddedChallenge (delimited 1 (delimited 1 [] ++ delimited 2 [5])) = none := by
  have hmessage : Message [⟨1, 2, []⟩, ⟨2, 2, [5]⟩] (delimited 1 [] ++ delimited 2 [5]) :=
    message_delimited (by decide) (by decide) (by decide)
      (message_delimited (by decide) (by decide) (by decide) .nil)
  exact ⟨hmessage, ⟨message_delimited (by decide) (by decide) (by decide) .nil,
    by simp [Plain], rfl⟩, by decide⟩

end RiAuth.VerifiedAccess
