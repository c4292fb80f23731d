import RiAuth.Workflow.Definition
import RiAuth.Workflow.GuestAdmission

/-!
# Requests to a guest

What the server writes to the process that runs a guest, and the facts that go with it.

* `encodeRequest`, `decodeRequest`: the request, as written and as read;
* `project`: the facts that the step asked for, as records in a frame;
* **`guest_requests_framed`**: requests are read back as they were written, nothing else is read,
  and the frame tells the granted facts and no others.
-/

namespace RiAuth.Workflow.Guest

open Checks Framing

/-! ## Requests -/

def MAX_CUSTOM_OUTPUTS : ℕ := 8

def MAX_FUEL : ℕ := 10000

def MAX_MEMORY_BYTES : ℕ := 65536

def MAX_MODULE_BYTES : ℕ := MAX_MEMORY_BYTES

def MAX_ROUTE_LABEL_BYTES : ℕ := 32

def INPUT_WINDOW : ℕ := 4096

/-- `RIAUTHXG` -/
def REQUEST_MAGIC : Bytes := [0x52, 0x49, 0x41, 0x55, 0x54, 0x48, 0x58, 0x47]

def REQUEST_VERSION : UInt8 := 1

def MODE_VALIDATE : UInt8 := 3

def REQUEST_HEADER_LEN : ℕ := 36

def MAX_GUEST_REQUEST_BYTES : ℕ :=
  REQUEST_HEADER_LEN + MAX_CUSTOM_OUTPUTS * (1 + MAX_ROUTE_LABEL_BYTES) + MAX_MODULE_BYTES +
    INPUT_WINDOW

/-- What a request asks the guest to run. -/
structure DecodedRequest where
  mode : UInt8
  timeoutTighter : Bool
  fuel : ℕ
  memoryBytes : ℕ
  outputCap : ℕ
  labels : List Bytes
  module : Bytes
  frame : Bytes
deriving DecidableEq

/-- The fixed part of a request. -/
structure Header where
  mode : UInt8
  tighter : UInt8
  fuel : ℕ
  memoryBytes : ℕ
  outputCap : ℕ
  labelCount : UInt8
  moduleLen : ℕ
  frameLen : ℕ

/-- The header on the wire. -/
def Header.bytes (h : Header) : Bytes :=
  REQUEST_MAGIC ++ REQUEST_VERSION :: h.mode :: h.tighter ::
    (littleEndian 8 h.fuel ++ (littleEndian 4 h.memoryBytes ++ (littleEndian 4 h.outputCap ++
      h.labelCount :: (littleEndian 4 h.moduleLen ++ littleEndian 4 h.frameLen))))

/-- Length and label. -/
def encodeLabel (label : Bytes) : Except Denial Bytes := do
  require (label.length < 256) .limit
  require (label ≠ []) .limit
  .ok (UInt8.ofNat label.length :: label)

/-- The header of a request. -/
def DecodedRequest.header (r : DecodedRequest) : Header :=
  ⟨r.mode, if r.timeoutTighter then 1 else 0, r.fuel, r.memoryBytes, r.outputCap,
    UInt8.ofNat r.labels.length, r.module.length, r.frame.length⟩

/-- The body of `encode_request`, on the bytes of the labels. -/
def DecodedRequest.encode (r : DecodedRequest) : Except Denial Bytes := do
  require (¬ (r.labels = [] ∨ MAX_CUSTOM_OUTPUTS < r.labels.length ∨ INPUT_WINDOW < r.frame.length ∨
    r.module = [] ∨ MAX_MODULE_BYTES < r.module.length ∨ r.outputCap = 0 ∨
    MAX_ROUTE_LABEL_BYTES < r.outputCap ∨ r.fuel = 0 ∨ MAX_FUEL < r.fuel)) .limit
  let labels ← r.labels.mapM encodeLabel
  let request := r.header.bytes ++ (labels.flatten ++ (r.module ++ r.frame))
  require (request.length ≤ MAX_GUEST_REQUEST_BYTES) .limit
  .ok request

/-- What a checked manifest tells a request. The other bounds of a manifest are checked again when
the request is written. -/
structure Checked where
  outputs : List Label
  memoryBytes : ℕ
  module : Bytes
  memory : memoryBytes = MAX_MEMORY_BYTES

/-- Labels and facts are in ASCII. -/
def asBytes (t : Text) : Bytes := t.map fun c => UInt8.ofNat c.toNat

/-- What the host writes. -/
def encodeRequest (mode : UInt8) (timeoutTighter : Bool) (fuel : ℕ) (checked : Checked)
    (outputCap : ℕ) (frame : Bytes) : Except Denial Bytes :=
  DecodedRequest.encode ⟨mode, timeoutTighter, fuel, checked.memoryBytes, outputCap,
    checked.outputs.map fun label => asBytes label.text, checked.module, frame⟩

/-- A number inside a buffer. -/
def readArray (bytes : Bytes) (start width : ℕ) : ℕ :=
  fromLittleEndian ((bytes.drop start).take width)

/-- The fields of the fixed part, where they stand. -/
def readHeader (bytes : Bytes) : Header where
  mode := bytes.getD 9 0
  tighter := bytes.getD 10 0
  fuel := readArray bytes 11 8
  memoryBytes := readArray bytes 19 4
  outputCap := readArray bytes 23 4
  labelCount := bytes.getD 27 0
  moduleLen := readArray bytes 28 4
  frameLen := readArray bytes 32 4

/-- So many labels. -/
def readLabels : ℕ → Bytes → Except Denial (List Bytes × Bytes)
  | 0, rest => .ok ([], rest)
  | _ + 1, [] => .error .failed
  | count + 1, len :: rest => do
    require (¬ (len.toNat = 0 ∨ MAX_ROUTE_LABEL_BYTES < len.toNat)) .failed
    require (len.toNat ≤ rest.length) .failed
    let (labels, tail) ← readLabels count (rest.drop len.toNat)
    .ok (rest.take len.toNat :: labels, tail)

/-- A byte as a flag. -/
def readFlag (flag : UInt8) : Except Denial Bool :=
  if flag = 0 then .ok false else if flag = 1 then .ok true else .error .failed

/-- What the guest reads. -/
def decodeRequest (bytes : Bytes) : Except Denial DecodedRequest := do
  require (REQUEST_HEADER_LEN ≤ bytes.length ∧ bytes.length ≤ MAX_GUEST_REQUEST_BYTES) .failed
  require (bytes.take 8 = REQUEST_MAGIC ∧ bytes.getD 8 0 = REQUEST_VERSION) .failed
  let h := readHeader bytes
  require (h.mode ≤ MODE_VALIDATE) .failed
  let timeoutTighter ← readFlag h.tighter
  require (¬ (h.labelCount.toNat = 0 ∨ MAX_CUSTOM_OUTPUTS < h.labelCount.toNat ∨ h.moduleLen = 0 ∨
    MAX_MODULE_BYTES < h.moduleLen ∨ INPUT_WINDOW < h.frameLen ∨ h.outputCap = 0 ∨
    MAX_ROUTE_LABEL_BYTES < h.outputCap ∨ h.memoryBytes ≠ MAX_MEMORY_BYTES ∨ h.fuel = 0 ∨
    MAX_FUEL < h.fuel)) .failed
  let (labels, rest) ← readLabels h.labelCount.toNat (bytes.drop REQUEST_HEADER_LEN)
  require (h.moduleLen + h.frameLen = rest.length) .failed
  .ok ⟨h.mode, timeoutTighter, h.fuel, h.memoryBytes, h.outputCap, labels,
    rest.take h.moduleLen, rest.drop h.moduleLen⟩

/-! ## Facts -/

def KIND_ACCOUNT : UInt8 := 1

def KIND_REQUEST : UInt8 := 2

def KIND_CLIENT : UInt8 := 3

def KIND_GROUP : UInt8 := 4

def MAX_GROUPS : ℕ := 32

/-- Identifiers that the executor holds. -/
structure GuestFacts where
  account : Option Text
  request : Option Text
  client : Option Text
  groups : List Text

/-- The facts a guest may see. -/
def validFact (value : Text) : Bool :=
  decide (1 ≤ value.bytes ∧ value.bytes ≤ 64) && value.head? != some '.' &&
    value.getLast? != some '.' && !decide (['.', '.'] <:+: value) &&
    value.all fun c => c.isLower || c.isDigit || c == '-' || c == '_' || c == '.'

/-- The bytes used so far, and the records. -/
abbrev Taken := ℕ × List (UInt8 × Bytes)

/-- One more fact, within the budget. -/
def takeFact (maxInputBytes : ℕ) (taken : Taken) (kind : UInt8) (value : Text) :
    Except Denial Taken := do
  require (validFact value) .inputLimit
  let used := taken.1 + value.bytes
  require (used < 2 ^ 32) .inputLimit
  require (used ≤ maxInputBytes) .inputLimit
  .ok (used, taken.2 ++ [(kind, asBytes value)])

/-- A fact that the step asked for has to be there. -/
def takeSome (maxInputBytes : ℕ) (taken : Taken) (kind : UInt8) (value : Option Text) :
    Except Denial Taken := do
  takeFact maxInputBytes taken kind (← okOr value .inputLimit)

/-- The groups, in order. -/
def takeGroups (maxInputBytes : ℕ) (taken : Taken) (groups : List Text) : Except Denial Taken := do
  require (groups.length ≤ MAX_GROUPS) .inputLimit
  (groups.insertionSort (· ≤ ·)).foldlM (fun t g => takeFact maxInputBytes t KIND_GROUP g) taken

/-- The records of permitted facts. -/
def projectRecords (facts : GuestFacts) (requested : Finset StagePermission) (maxInputBytes : ℕ) :
    Except Denial (List (UInt8 × Bytes)) := do
  let taken ← if .readProfile ∈ requested then
      takeSome maxInputBytes (0, []) KIND_ACCOUNT facts.account
    else .ok (0, [])
  let taken ← if .readRequest ∈ requested then do
      let taken ← takeSome maxInputBytes taken KIND_REQUEST facts.request
      takeSome maxInputBytes taken KIND_CLIENT facts.client
    else .ok taken
  let taken ← if .readGroups ∈ requested then takeGroups maxInputBytes taken facts.groups
    else .ok taken
  .ok taken.2

/-- Kind, length and value. -/
def encodeRecord (record : UInt8 × Bytes) : Except Denial Bytes := do
  require (record.2.length < 256) .inputLimit
  .ok (record.1 :: UInt8.ofNat record.2.length :: record.2)

/-- Count and records. -/
def frameRecords (records : List (UInt8 × Bytes)) : Except Denial Bytes := do
  require (records.length < 2 ^ 32) .inputLimit
  let parts ← records.mapM encodeRecord
  let frame := littleEndian 4 records.length ++ parts.flatten
  require (frame.length ≤ INPUT_WINDOW) .inputLimit
  .ok frame

/-- The facts that a stage may see. -/
def project (facts : GuestFacts) (requested granted : Finset StagePermission)
    (maxInputBytes : ℕ) : Except Denial Bytes := do
  require (.network ∉ requested ∧ requested ⊆ granted) .permission
  let records ← projectRecords facts requested maxInputBytes
  frameRecords records

/-! ## The fixed part -/

/-- The numbers fit their bytes. -/
structure Header.Fits (h : Header) : Prop where
  fuel : h.fuel < 256 ^ 8
  memoryBytes : h.memoryBytes < 256 ^ 4
  outputCap : h.outputCap < 256 ^ 4
  moduleLen : h.moduleLen < 256 ^ 4
  frameLen : h.frameLen < 256 ^ 4

theorem Header.length_bytes (h : Header) : h.bytes.length = REQUEST_HEADER_LEN := rfl

variable {bytes frame : Bytes} {r : DecodedRequest}

theorem readArray_eq {start width n : ℕ} (hn : n < 256 ^ width)
    (h : (bytes.drop start).take width = littleEndian width n) :
    readArray bytes start width = n := by
  rw [readArray, h, fromLittleEndian_littleEndian hn]

theorem readHeader_bytes {h : Header} (hfits : h.Fits) (rest : Bytes) :
    readHeader (h.bytes ++ rest) = h := by
  have hfuel : readArray (h.bytes ++ rest) 11 8 = h.fuel := readArray_eq hfits.fuel rfl
  have hmemory : readArray (h.bytes ++ rest) 19 4 = h.memoryBytes :=
    readArray_eq hfits.memoryBytes rfl
  have hcap : readArray (h.bytes ++ rest) 23 4 = h.outputCap := readArray_eq hfits.outputCap rfl
  have hmodule : readArray (h.bytes ++ rest) 28 4 = h.moduleLen := readArray_eq hfits.moduleLen rfl
  have hframe : readArray (h.bytes ++ rest) 32 4 = h.frameLen := readArray_eq hfits.frameLen rfl
  unfold readHeader
  rw [hfuel, hmemory, hcap, hmodule, hframe]
  rfl

theorem littleEndian_readArray {start width : ℕ} (h : start + width ≤ bytes.length) :
    littleEndian width (readArray bytes start width) ++ bytes.drop (start + width) =
      bytes.drop start := by
  have hlen : ((bytes.drop start).take width).length = width := by
    rw [List.length_take, List.length_drop]
    omega
  have hround := littleEndian_fromLittleEndian ((bytes.drop start).take width)
  rw [hlen] at hround
  rw [readArray, hround, ← List.drop_drop, List.take_append_drop]

theorem getD_cons_drop {i : ℕ} (h : i < bytes.length) :
    bytes.getD i 0 :: bytes.drop (i + 1) = bytes.drop i := by
  rw [List.drop_eq_getElem_cons h, List.getD_eq_getElem?_getD, List.getElem?_eq_getElem h,
    Option.getD_some]

/-- Bytes that are long enough and have the right start begin with the header read from them. -/
theorem bytes_readHeader (hlen : REQUEST_HEADER_LEN ≤ bytes.length)
    (hmagic : bytes.take 8 = REQUEST_MAGIC) (hversion : bytes.getD 8 0 = REQUEST_VERSION) :
    (readHeader bytes).bytes ++ bytes.drop REQUEST_HEADER_LEN = bytes := by
  rw [REQUEST_HEADER_LEN] at hlen
  simp only [Header.bytes, readHeader, REQUEST_HEADER_LEN, List.append_assoc, List.cons_append]
  rw [littleEndian_readArray (by omega), littleEndian_readArray (by omega),
    getD_cons_drop (by omega), littleEndian_readArray (by omega),
    littleEndian_readArray (by omega), littleEndian_readArray (by omega),
    getD_cons_drop (by omega), getD_cons_drop (by omega), ← hversion, getD_cons_drop (by omega),
    ← hmagic, List.take_append_drop]

/-! ## Labels -/

/-- A label with its length. -/
def spellLabel (label : Bytes) : Bytes := UInt8.ofNat label.length :: label

theorem toNat_ofNat_length {label : Bytes} (h : label.length < 256) :
    (UInt8.ofNat label.length).toNat = label.length := by
  rw [UInt8.toNat_ofNat', Nat.mod_eq_of_lt h]

theorem encodeLabel_ok {label : Bytes} :
    encodeLabel label = .ok bytes ↔
      (label.length < 256 ∧ label ≠ []) ∧ bytes = spellLabel label := by
  unfold encodeLabel
  rw [seq_ok, seq_ok, require_ok, require_ok, and_assoc]
  refine and_congr_right fun _ => and_congr_right fun _ => ?_
  exact ⟨fun h => (Except.ok.inj h).symm, fun h => congrArg Except.ok h.symm⟩

/-- A label the guest accepts. -/
def LabelFits (label : Bytes) : Prop := 1 ≤ label.length ∧ label.length ≤ MAX_ROUTE_LABEL_BYTES

theorem readLabels_iff {count : ℕ} {rest : Bytes} {labels : List Bytes} :
    readLabels count bytes = .ok (labels, rest) ↔
      labels.length = count ∧ (∀ l ∈ labels, LabelFits l) ∧
        bytes = labels.flatMap spellLabel ++ rest := by
  induction count generalizing bytes labels with
  | zero =>
    constructor
    · intro h
      obtain ⟨rfl, rfl⟩ := Prod.mk.inj (Except.ok.inj h)
      exact ⟨rfl, by simp, rfl⟩
    · rintro ⟨hlen, -, rfl⟩
      obtain rfl := List.length_eq_zero_iff.mp hlen
      rfl
  | succ count ih =>
    constructor
    · intro h
      cases bytes with
      | nil => cases h
      | cons len bytes =>
        obtain ⟨hlen, h₁⟩ := seq_ok.mp h
        obtain ⟨hroom, h₂⟩ := seq_ok.mp h₁
        obtain ⟨⟨ls, tail⟩, hread, h₃⟩ := bind_ok.mp h₂
        obtain ⟨rfl, rfl⟩ := Prod.mk.inj (Except.ok.inj h₃)
        obtain ⟨rfl, hfits, hdrop⟩ := ih.mp hread
        have hsize := require_ok.mp hlen
        have htake : (bytes.take len.toNat).length = len.toNat :=
          List.length_take_of_le (require_ok.mp hroom)
        refine ⟨rfl, List.forall_mem_cons.mpr ⟨⟨?_, ?_⟩, hfits⟩, ?_⟩
        · omega
        · omega
        · rw [List.flatMap_cons, List.append_assoc, ← hdrop, spellLabel, htake, UInt8.ofNat_toNat,
            List.cons_append, List.take_append_drop]
    · rintro ⟨hlen, hfits, rfl⟩
      cases labels with
      | nil => cases hlen
      | cons label labels =>
        obtain ⟨⟨hpos, hmax⟩, hrest⟩ := List.forall_mem_cons.mp hfits
        rw [MAX_ROUTE_LABEL_BYTES] at hmax
        have hread := ih.mpr ⟨Nat.succ.inj hlen, hrest, rfl⟩
        have hnat := toNat_ofNat_length (show label.length < 256 by omega)
        rw [List.flatMap_cons, List.append_assoc, spellLabel, List.cons_append, readLabels, hnat]
        refine seq_ok.mpr ⟨require_ok.mpr ?_, seq_ok.mpr ⟨require_ok.mpr ?_, ?_⟩⟩
        · rw [MAX_ROUTE_LABEL_BYTES]
          omega
        · simp
        · rw [List.drop_left, List.take_left, hread]
          rfl

/-! ## Whole requests -/

/-- The limits that writer and reader share. -/
structure DecodedRequest.Fits (r : DecodedRequest) : Prop where
  labels : r.labels ≠ [] ∧ r.labels.length ≤ MAX_CUSTOM_OUTPUTS
  frame : r.frame.length ≤ INPUT_WINDOW
  module : r.module ≠ [] ∧ r.module.length ≤ MAX_MODULE_BYTES
  outputCap : r.outputCap ≠ 0 ∧ r.outputCap ≤ MAX_ROUTE_LABEL_BYTES
  fuel : r.fuel ≠ 0 ∧ r.fuel ≤ MAX_FUEL

/-- A request on the wire. -/
def DecodedRequest.spell (r : DecodedRequest) : Bytes :=
  r.header.bytes ++ (r.labels.flatMap spellLabel ++ (r.module ++ r.frame))

theorem DecodedRequest.encode_ok :
    r.encode = .ok bytes ↔ r.Fits ∧ (∀ l ∈ r.labels, l.length < 256 ∧ l ≠ []) ∧
      bytes = r.spell ∧ bytes.length ≤ MAX_GUEST_REQUEST_BYTES := by
  have hlabels {parts : List Bytes} := mapM_ok_iff_map (fun l b => @encodeLabel_ok b l)
    (l := r.labels) (r := parts)
  unfold DecodedRequest.encode
  constructor
  · intro h
    obtain ⟨hfits, h₁⟩ := seq_ok.mp h
    obtain ⟨parts, hparts, h₂⟩ := bind_ok.mp h₁
    obtain ⟨hsize, h₃⟩ := seq_ok.mp h₂
    obtain ⟨hall, rfl⟩ := hlabels.mp hparts
    obtain rfl := Except.ok.inj h₃
    have hlimits := require_ok.mp hfits
    simp only [not_or, Nat.not_lt] at hlimits
    obtain ⟨hl, hl', hf, hm, hm', hc, hc', hu, hu'⟩ := hlimits
    exact ⟨⟨⟨hl, hl'⟩, hf, ⟨hm, hm'⟩, ⟨hc, hc'⟩, ⟨hu, hu'⟩⟩, hall,
      by rw [DecodedRequest.spell, List.flatMap], require_ok.mp hsize⟩
  · rintro ⟨hfits, hall, rfl, hsize⟩
    refine seq_ok.mpr ⟨require_ok.mpr ?_, bind_ok.mpr ⟨_, hlabels.mpr ⟨hall, rfl⟩, ?_⟩⟩
    · simp only [not_or, Nat.not_lt]
      exact ⟨hfits.labels.1, hfits.labels.2, hfits.frame, hfits.module.1, hfits.module.2,
        hfits.outputCap.1, hfits.outputCap.2, hfits.fuel.1, hfits.fuel.2⟩
    · exact seq_ok.mpr ⟨require_ok.mpr hsize, rfl⟩

theorem readFlag_ok {flag : UInt8} {b : Bool} :
    readFlag flag = .ok b ↔ flag = if b then 1 else 0 := by
  unfold readFlag
  cases b <;> split_ifs <;> simp_all

theorem DecodedRequest.Fits.header (h : r.Fits) (hmemory : r.memoryBytes = MAX_MEMORY_BYTES) :
    r.header.Fits := by
  obtain ⟨-, hframe, ⟨-, hmodule⟩, ⟨-, hcap⟩, ⟨-, hfuel⟩⟩ := h
  simp only [INPUT_WINDOW, MAX_MODULE_BYTES, MAX_MEMORY_BYTES, MAX_ROUTE_LABEL_BYTES,
    MAX_FUEL] at hframe hmodule hcap hfuel hmemory
  constructor <;> simp only [DecodedRequest.header] <;> omega

theorem DecodedRequest.Fits.labelCount (h : r.Fits) :
    r.header.labelCount.toNat = r.labels.length := by
  have hle := h.labels.2
  rw [MAX_CUSTOM_OUTPUTS] at hle
  exact (UInt8.toNat_ofNat').trans (Nat.mod_eq_of_lt (by omega))

/-- **What is read is what was written**: by a mode that is known, for the one size of memory, with
labels that are short enough. -/
theorem decodeRequest_iff :
    decodeRequest bytes = .ok r ↔ r.mode ≤ MODE_VALIDATE ∧ r.memoryBytes = MAX_MEMORY_BYTES ∧
      (∀ l ∈ r.labels, LabelFits l) ∧ r.encode = .ok bytes := by
  rw [DecodedRequest.encode_ok]
  constructor
  · intro h
    obtain ⟨hlen, h₁⟩ := seq_ok.mp h
    obtain ⟨hstart, h₂⟩ := seq_ok.mp h₁
    obtain ⟨hmode, h₃⟩ := seq_ok.mp h₂
    obtain ⟨tighter, hflag, h₄⟩ := bind_ok.mp h₃
    obtain ⟨hlimits, h₅⟩ := seq_ok.mp h₄
    obtain ⟨⟨labels, rest⟩, hread, h₆⟩ := bind_ok.mp h₅
    obtain ⟨hrest, h₇⟩ := seq_ok.mp h₆
    obtain rfl := Except.ok.inj h₇
    obtain ⟨hmin, hmax⟩ := require_ok.mp hlen
    obtain ⟨hmagic, hversion⟩ := require_ok.mp hstart
    obtain ⟨hcount, hfits, hdrop⟩ := readLabels_iff.mp hread
    have hbytes := bytes_readHeader hmin hmagic hversion
    have hsplit := require_ok.mp hrest
    have hlims := require_ok.mp hlimits
    generalize readHeader bytes = hd at *
    simp only [not_or, Nat.not_lt, not_not] at hlims
    obtain ⟨hl, hl', hm, hm', hf, hc, hc', hmem, hu, hu'⟩ := hlims
    have hmodule : (rest.take hd.moduleLen).length = hd.moduleLen :=
      List.length_take_of_le (by omega)
    have hframe : (rest.drop hd.moduleLen).length = hd.frameLen := by
      rw [List.length_drop]
      omega
    have hheader : DecodedRequest.header ⟨hd.mode, tighter, hd.fuel, hd.memoryBytes, hd.outputCap,
        labels, rest.take hd.moduleLen, rest.drop hd.moduleLen⟩ = hd := by
      simp only [DecodedRequest.header, hmodule, hframe, hcount, UInt8.ofNat_toNat,
        ← readFlag_ok.mp hflag]
    refine ⟨require_ok.mp hmode, hmem, hfits, ⟨⟨?_, hcount.trans_le hl'⟩, hframe.trans_le hf,
      ⟨?_, hmodule.trans_le hm'⟩, ⟨hc, hc'⟩, ⟨hu, hu'⟩⟩, ?_, ?_, hmax⟩
    · rintro rfl
      exact hl hcount.symm
    · intro hnil
      exact hm (hmodule.symm.trans (congrArg List.length hnil))
    · intro l hl
      obtain ⟨hpos, hle⟩ := hfits l hl
      rw [MAX_ROUTE_LABEL_BYTES] at hle
      exact ⟨by omega, List.length_pos_iff.mp hpos⟩
    · rw [DecodedRequest.spell, hheader, List.take_append_drop, ← hdrop, hbytes]
  · rintro ⟨hmode, hmem, hlabels, hfits, -, rfl, hsize⟩
    have hheader : readHeader r.spell = r.header := readHeader_bytes (hfits.header hmem) _
    have hread : readLabels r.header.labelCount.toNat (r.spell.drop REQUEST_HEADER_LEN) =
        .ok (r.labels, r.module ++ r.frame) :=
      readLabels_iff.mpr ⟨hfits.labelCount.symm, hlabels, rfl⟩
    have hlen : REQUEST_HEADER_LEN ≤ r.spell.length := by
      rw [DecodedRequest.spell, List.length_append, Header.length_bytes]
      omega
    unfold decodeRequest
    refine seq_ok.mpr ⟨require_ok.mpr ⟨hlen, hsize⟩, seq_ok.mpr ⟨require_ok.mpr ⟨rfl, rfl⟩, ?_⟩⟩
    rw [hheader]
    refine seq_ok.mpr ⟨require_ok.mpr hmode, bind_ok.mpr ⟨r.timeoutTighter, ?_, ?_⟩⟩
    · exact readFlag_ok.mpr rfl
    refine seq_ok.mpr ⟨require_ok.mpr ?_, bind_ok.mpr ⟨_, hread, ?_⟩⟩
    · simp only [not_or, Nat.not_lt, not_not, hfits.labelCount]
      exact ⟨fun hzero => hfits.labels.1 (List.length_eq_zero_iff.mp hzero), hfits.labels.2,
        fun hzero => hfits.module.1 (List.length_eq_zero_iff.mp hzero), hfits.module.2,
        hfits.frame, hfits.outputCap.1, hfits.outputCap.2, hmem, hfits.fuel.1, hfits.fuel.2⟩
    · refine seq_ok.mpr ⟨require_ok.mpr (List.length_append).symm, ?_⟩
      simp only [DecodedRequest.header, List.take_left, List.drop_left]

/-! ## Frames -/

/-- A record with its kind and its length. -/
def spellRecord (record : UInt8 × Bytes) : Bytes :=
  record.1 :: UInt8.ofNat record.2.length :: record.2

theorem encodeRecord_ok {record : UInt8 × Bytes} :
    encodeRecord record = .ok bytes ↔ record.2.length < 256 ∧ bytes = spellRecord record := by
  unfold encodeRecord
  rw [seq_ok, require_ok]
  refine and_congr_right fun _ => ?_
  exact ⟨fun h => (Except.ok.inj h).symm, fun h => congrArg Except.ok h.symm⟩

theorem spellRecord_append_inj {a b : UInt8 × Bytes} {r t : Bytes} (ha : a.2.length < 256)
    (hb : b.2.length < 256) (h : spellRecord a ++ r = spellRecord b ++ t) : a = b ∧ r = t := by
  obtain ⟨hkind, h₁⟩ := List.cons.inj h
  obtain ⟨hlen, h₂⟩ := List.cons.inj h₁
  have heq : a.2.length = b.2.length := by
    rw [← toNat_ofNat_length ha, hlen, toNat_ofNat_length hb]
  obtain ⟨hvalue, hrest⟩ := List.append_inj h₂ heq
  exact ⟨Prod.ext hkind hvalue, hrest⟩

theorem spellRecords_inj {as bs : List (UInt8 × Bytes)} (ha : ∀ a ∈ as, a.2.length < 256)
    (hb : ∀ b ∈ bs, b.2.length < 256) (h : as.flatMap spellRecord = bs.flatMap spellRecord) :
    as = bs := by
  induction as generalizing bs with
  | nil =>
    cases bs with
    | nil => rfl
    | cons b bs => cases h
  | cons a as ih =>
    cases bs with
    | nil => cases h
    | cons b bs =>
      obtain ⟨ha, has⟩ := List.forall_mem_cons.mp ha
      obtain ⟨hb, hbs⟩ := List.forall_mem_cons.mp hb
      rw [List.flatMap_cons, List.flatMap_cons] at h
      obtain ⟨rfl, hrest⟩ := spellRecord_append_inj ha hb h
      rw [ih has hbs hrest]

theorem frameRecords_ok {records : List (UInt8 × Bytes)} (h : frameRecords records = .ok frame) :
    (∀ a ∈ records, a.2.length < 256) ∧
      frame = littleEndian 4 records.length ++ records.flatMap spellRecord := by
  obtain ⟨-, h₁⟩ := seq_ok.mp h
  obtain ⟨parts, hparts, h₂⟩ := bind_ok.mp h₁
  obtain ⟨-, h₃⟩ := seq_ok.mp h₂
  obtain ⟨hall, rfl⟩ := (mapM_ok_iff_map (fun a b => @encodeRecord_ok b a)).mp hparts
  obtain rfl := Except.ok.inj h₃
  exact ⟨hall, by rw [List.flatMap]⟩

/-- Different records are framed differently. -/
theorem frameRecords_inj {as bs : List (UInt8 × Bytes)} (ha : frameRecords as = .ok frame)
    (hb : frameRecords bs = .ok frame) : as = bs := by
  obtain ⟨has, rfl⟩ := frameRecords_ok ha
  obtain ⟨hbs, heq⟩ := frameRecords_ok hb
  exact spellRecords_inj has hbs (List.append_inj heq rfl).2

/-- The facts are the same as far as the permissions name them. -/
structure Agree (requested : Finset StagePermission) (facts facts' : GuestFacts) : Prop where
  account : .readProfile ∈ requested → facts.account = facts'.account
  request : .readRequest ∈ requested → facts.request = facts'.request
  client : .readRequest ∈ requested → facts.client = facts'.client
  groups : .readGroups ∈ requested → facts.groups = facts'.groups

theorem project_eq_of_agree {requested : Finset StagePermission} {facts facts' : GuestFacts}
    (h : Agree requested facts facts') (granted : Finset StagePermission) (maxInputBytes : ℕ) :
    project facts requested granted maxInputBytes =
      project facts' requested granted maxInputBytes := by
  have hrecords : projectRecords facts requested maxInputBytes =
      projectRecords facts' requested maxInputBytes := by
    unfold projectRecords
    by_cases hp : .readProfile ∈ requested <;> by_cases hr : .readRequest ∈ requested <;>
      by_cases hg : .readGroups ∈ requested <;>
      simp only [hp, hr, hg, if_true, if_false, h.account, h.request, h.client, h.groups]
  unfold project
  rw [hrecords]

/-! ## Both together -/

theorem length_le_bytes (t : Text) : t.length ≤ t.bytes := by
  induction t with
  | nil => exact le_rfl
  | cons c t ih =>
    have hpos := Char.utf8Size_pos c
    rw [Text.bytes, List.map_cons, List.sum_cons, List.length_cons]
    change t.length + 1 ≤ c.utf8Size + Text.bytes t
    omega

theorem labelFits (label : Label) : LabelFits (asBytes label.text) := by
  obtain ⟨text, hvalid⟩ := label
  obtain ⟨hbytes, htext⟩ := Bool.and_eq_true_iff.mp hvalid
  have hle := (length_le_bytes text).trans (of_decide_eq_true hbytes)
  rw [LabelFits, asBytes, List.length_map]
  refine ⟨?_, hle⟩
  cases text with
  | nil => cases htext
  | cons c text => exact Nat.succ_pos _

theorem decodeRequest_encodeRequest {mode : UInt8} {timeoutTighter : Bool} {fuel : ℕ}
    {checked : Checked} {outputCap : ℕ} (hmode : mode ≤ MODE_VALIDATE)
    (h : encodeRequest mode timeoutTighter fuel checked outputCap frame = .ok bytes) :
    decodeRequest bytes = .ok ⟨mode, timeoutTighter, fuel, checked.memoryBytes, outputCap,
      checked.outputs.map fun label => asBytes label.text, checked.module, frame⟩ := by
  refine decodeRequest_iff.mpr ⟨hmode, checked.memory, ?_, h⟩
  intro l hl
  obtain ⟨label, -, rfl⟩ := List.mem_map.mp hl
  exact labelFits label

/-- Requests of a known mode are read back as they were written. What is read was written in this
way, though perhaps with labels that no manifest declares. The frame does not depend on facts that
were not asked for, and tells all records that it holds. -/
theorem guest_requests_framed :
    (∀ (mode : UInt8) (timeoutTighter : Bool) (fuel : ℕ) (checked : Checked) (outputCap : ℕ)
      (frame bytes : Bytes), mode ≤ MODE_VALIDATE →
      encodeRequest mode timeoutTighter fuel checked outputCap frame = .ok bytes →
        decodeRequest bytes = .ok ⟨mode, timeoutTighter, fuel, checked.memoryBytes, outputCap,
          checked.outputs.map fun label => asBytes label.text, checked.module, frame⟩) ∧
    (∀ (bytes : Bytes) (r : DecodedRequest), decodeRequest bytes = .ok r →
      r.mode ≤ MODE_VALIDATE ∧ r.memoryBytes = MAX_MEMORY_BYTES ∧ (∀ l ∈ r.labels, LabelFits l) ∧
        r.encode = .ok bytes) ∧
    (∀ (requested granted : Finset StagePermission) (facts facts' : GuestFacts)
      (maxInputBytes : ℕ), Agree requested facts facts' →
        project facts requested granted maxInputBytes =
          project facts' requested granted maxInputBytes) ∧
    ∀ (records records' : List (UInt8 × Bytes)) (frame frame' : Bytes), records ≠ records' →
      frameRecords records = .ok frame → frameRecords records' = .ok frame' → frame ≠ frame' := by
  refine ⟨?_, fun bytes r => decodeRequest_iff.mp, ?_, ?_⟩
  · intro mode timeoutTighter fuel checked outputCap frame bytes hmode h
    exact decodeRequest_encodeRequest hmode h
  · intro requested granted facts facts' maxInputBytes h
    exact project_eq_of_agree h granted maxInputBytes
  · rintro records records' frame frame' hne h h' rfl
    exact hne (frameRecords_inj h h')

/-- A guest that is admitted. -/
def sampleGuest : Bytes := sampleWasm [⟨7, 2 :: sampleExports.flatten⟩]

def sampleChecked : Checked where
  outputs := [⟨"staff".toList, by decide⟩]
  memoryBytes := 65536
  module := sampleGuest
  memory := rfl

/-- A request with the label, in this mode. -/
def sampleRequest (mode : UInt8) (label : Bytes) : DecodedRequest :=
  ⟨mode, false, 100, 65536, 32, [label], sampleGuest, []⟩

theorem guest_requests_framed_sample :
    decodeRequest (sampleRequest 0 (asBytes "staff".toList)).spell =
        .ok (sampleRequest 0 (asBytes "staff".toList)) ∧
      project ⟨some "ann".toList, none, none, []⟩ {.readProfile} {.readProfile} 64 =
        project ⟨some "ann".toList, none, none, ["staff".toList]⟩ {.readProfile} {.readProfile}
          64 := by
  obtain ⟨hround, -, hproject, -⟩ := guest_requests_framed
  refine ⟨hround 0 false 100 sampleChecked 32 [] _ (by decide) (by decide), ?_⟩
  exact hproject _ _ _ _ _ ⟨fun _ => rfl, by decide, by decide, by decide⟩

/-- A mode that is not known is written but not read; and labels are read that no manifest
declares. -/
theorem unknown_mode_written :
    (∃ bytes, encodeRequest 4 false 100 sampleChecked 32 [] = .ok bytes ∧
      decodeRequest bytes = .error .failed) ∧
    ∃ bytes r, decodeRequest bytes = .ok r ∧
      ∀ mode timeoutTighter fuel checked outputCap frame,
        encodeRequest mode timeoutTighter fuel checked outputCap frame ≠ .ok bytes := by
  refine ⟨⟨(sampleRequest 4 (asBytes "staff".toList)).spell, by decide,
    by decide⟩, (sampleRequest 0 [0xff]).spell, sampleRequest 0 [0xff],
    by decide, ?_⟩
  intro mode timeoutTighter fuel checked outputCap frame h
  have hread : decodeRequest (sampleRequest 0 [0xff]).spell = .ok (sampleRequest 0 [0xff]) := by
    decide
  have hspell := (DecodedRequest.encode_ok.mp h).2.2.1
  obtain rfl : 0 = mode := congrArg (fun bytes => bytes.getD 9 0) hspell
  have hdecoded := Except.ok.inj ((decodeRequest_encodeRequest (by decide) h).symm.trans hread)
  have hlabels : (checked.outputs.map fun label => asBytes label.text) = [[0xff]] :=
    congrArg DecodedRequest.labels hdecoded
  -- The label would start with a byte that no letter has.
  obtain ⟨⟨text, hvalid⟩, -, hlabel⟩ := List.mem_map.mp (hlabels ▸ List.mem_singleton_self _)
  cases text with
  | nil => cases hlabel
  | cons c text =>
    obtain ⟨-, htext⟩ := Bool.and_eq_true_iff.mp hvalid
    have hlower : c.toNat ≤ 122 :=
      (of_decide_eq_true (Bool.and_eq_true_iff.mp (Bool.and_eq_true_iff.mp htext).1).2)
    have hbyte : (UInt8.ofNat c.toNat).toNat = 0xff :=
      congrArg UInt8.toNat (List.cons.inj hlabel).1
    rw [UInt8.toNat_ofNat'] at hbyte
    omega

end RiAuth.Workflow.Guest
