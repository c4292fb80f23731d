import RiAuth.Crypto
import RiAuth.Store.Names
import RiAuth.Store.Snapshot

/-!
# Streaming archives

An archive is a magic, a stream identity and frames; frame 0 is the header, the last frame is the
trailer, and nothing follows it. Every frame is sealed with its archive, its position and its kind
as context. `backupStreamAs` writes an archive into a sink that may fail at any write; `scan` reads
one.

A step of the writer either goes on with a new writer or stops with an error and the writer as it
then stood: what was emitted before a failure stays emitted.
-/

namespace RiAuth.Operations

open Framing Store

def BACKUP_V3 : Text := "riauth.backup/v3".toList

def MAGIC : Bytes := ascii "RIAUTH-BACKUP/3" ++ [10]

def MAX_FRAME_BYTES : ℕ := 8 * 1024 * 1024

def MIN_FRAME_BYTES : ℕ := 4096

def MAX_ARCHIVE_BYTES : ℕ := 4 * 1024 * 1024 * 1024

/-- A records frame is sealed once it reaches this size. -/
def FLUSH_BYTES : ℕ := 256 * 1024

def SEAL_OVERHEAD : ℕ := 40

def HEADER : UInt8 := 1

def RECORDS : UInt8 := 2

def TRAILER : UInt8 := 3

/-- Byte quotas applied while writing and while reading an archive. -/
structure StreamLimits where
  maxArchiveBytes : ℕ
  maxFrameBytes : ℕ
deriving DecidableEq

/-- The limits a stream accepts. -/
def StreamLimits.validate (limits : StreamLimits) : Result Unit :=
  if MIN_FRAME_BYTES ≤ limits.maxFrameBytes ∧ limits.maxFrameBytes ≤ MAX_FRAME_BYTES ∧
      MAGIC.length + 16 ≤ limits.maxArchiveBytes ∧ limits.maxArchiveBytes ≤ MAX_ARCHIVE_BYTES then
    .ok ()
  else .error (.bad "Invalid backup stream limits")

/-- The caller gave up. -/
def cancelledError : Error := ⟨409, "cancelled", "Backup stream cancelled"⟩

/-- The one answer to a bad frame. -/
def invalid : Error := .bad "Backup payload is invalid"

/-- A record fits no frame. -/
def oversizedRecord : Error := .bad "Backup record exceeds the configured frame limit"

/-- The archive is full. -/
def quotaExceeded : Error := .bad "Backup archive exceeds the configured quota"

/-- The first frame. -/
structure HeaderFrame (C : Type) where
  kind : Text
  apiVersion : Text
  createdAt : ℕ
  config : C

/-- A frame of records. -/
structure RecordsFrame where
  kind : Text
  index : ℕ
  records : List (Text × Json)

/-- The last frame. -/
structure TrailerFrame where
  kind : Text
  recordCount : ℕ
  frames : ℕ
  transcript : Text

/-- The JSON texts of the frames, what becomes of a float that is printed and parsed, and the digest
of a transcript in its text form. -/
structure StreamCodec (C : Type) where
  header : HeaderFrame C → Bytes
  parseHeader : Bytes → Option (HeaderFrame C)
  /-- One record of a frame, `["name",value]`. -/
  entry : Text × Json → Bytes
  parseRecords : Bytes → Option RecordsFrame
  trailer : TrailerFrame → Bytes
  parseTrailer : Bytes → Option TrailerFrame
  /-- The float that is read from the text of a float; it may be another one. -/
  reread : ℕ → ℕ
  digest : Bytes → Text

/-- A record as it is read from its text. -/
def StreamCodec.back {C : Type} (s : StreamCodec C) (r : Text × Json) : Text × Json :=
  (r.1, r.2.mapFloats s.reread)

/-- The context a frame is sealed with. -/
def aad (streamId : Fixed 16) (index : ℕ) (kind : UInt8) : Bytes :=
  ascii "riauth.backup/v3" ++ (streamId.1 ++ (bigEndian 8 index ++ [kind]))

/-! ## Writing -/

/-- Where the archive goes. -/
structure Sink where
  /-- `write_all` of the data after all that was taken before: `none` takes it, `some k` fails after
  `k` bytes of it. -/
  write : Bytes → Bytes → Option ℕ
  flush : Bool

/-- What one export runs on. -/
structure Call (C : Type) where
  limits : StreamLimits
  /-- The decoded encryption key. -/
  key : Result Bytes
  /-- The permission check of the caller's token. -/
  management : Result Unit
  streamId : Fixed 16
  createdAt : ℕ
  config : C
  records : OrdMap Text Json
  /-- Stored bytes of a record. -/
  size : Text → Json → ℕ
  /-- Whether the `n`-th look at the flag finds it set. -/
  cancelled : ℕ → Bool
  /-- The `n`-th random nonce; drawing may fail. -/
  nonce : ℕ → Option (Fixed 12)
  sink : Sink

/-- A frame that was sealed, emitted or not. -/
structure SealedFrame where
  kind : UInt8
  index : ℕ
  nonce : Fixed 12
  /-- Output of the cipher. -/
  body : Bytes

/-- The state of an export. -/
structure FrameWriter where
  emitted : Bytes
  frames : ℕ
  records : ℕ
  bytes : ℕ
  /-- What the transcript digest has taken in. -/
  transcript : Bytes
  checks : ℕ
  draws : ℕ
  sealed : List SealedFrame

/-- A step of an export. -/
abbrev Step (α : Type) := Except (Error × FrameWriter) α

namespace FrameWriter

variable {C : Type} (x : Call C)

/-- Nothing written. -/
def start : FrameWriter := ⟨[], 0, 0, 0, [], 0, 0, []⟩

/-- Each look at the flag is counted. -/
def checkCancel (w : FrameWriter) : Step FrameWriter :=
  if x.cancelled w.checks then .error (cancelledError, { w with checks := w.checks + 1 })
  else .ok { w with checks := w.checks + 1 }

/-- A sink that fails because its reader went away reports the cancellation. -/
def sinkFailed (w : FrameWriter) : Error :=
  if x.cancelled w.checks then cancelledError else .internal

/-- Bytes go out. -/
def emit (w : FrameWriter) (data : Bytes) : Step FrameWriter :=
  match x.sink.write w.emitted data with
  | none => .ok { w with emitted := w.emitted ++ data, transcript := w.transcript ++ data,
                         bytes := w.bytes + data.length }
  -- `write_all` fails only while some of the data is left.
  | some k => .error (sinkFailed x w,
      { w with emitted := w.emitted ++ data.take (min k (data.length - 1)) })

/-- Room for so many bytes. -/
def reserve (w : FrameWriter) (len : ℕ) : Step Unit :=
  if x.limits.maxArchiveBytes < w.bytes + len then .error (quotaExceeded, w) else .ok ()

variable (a : Aead) (key : Bytes)

/-- Seal and emit one frame. -/
def frame (w : FrameWriter) (kind : UInt8) (plaintext : Bytes) : Step FrameWriter := do
  let w ← checkCancel x w
  match x.nonce w.draws with
  | none => .error (.internal, w)
  | some nonce => do
    let body := a.encrypt key nonce.1 (aad x.streamId w.frames kind) plaintext
    let sealed := Crypto.sealBytes a key nonce (aad x.streamId w.frames kind) plaintext
    let w := { w with draws := w.draws + 1,
                      sealed := w.sealed ++ [⟨kind, w.frames, nonce, body⟩] }
    if 256 ^ 4 ≤ sealed.length then .error (.internal, w)
    else do
      let head := kind :: bigEndian 4 sealed.length
      reserve x w (head.length + sealed.length)
      let w ← emit x w head
      let w ← emit x w sealed
      return { w with frames := w.frames + 1 }

end FrameWriter

/-- One records frame under construction. -/
structure Batch where
  body : Bytes
  count : ℕ

namespace Batch

/-- A batch without records. -/
def new (index : ℕ) : Batch :=
  ⟨ascii "\x7b\"kind\":\"records\",\"index\":" ++ ascii (toString index) ++
    ascii ",\"records\":[", 0⟩

/-- Whether an entry still fits. -/
def fits (b : Batch) (entry limit : ℕ) : Bool :=
  decide (b.body.length + (if 0 < b.count then 1 else 0) + entry + 2 ≤ limit)

/-- One more entry. -/
def push (b : Batch) (entry : Bytes) : Batch :=
  ⟨b.body ++ (if 0 < b.count then ascii "," else []) ++ entry, b.count + 1⟩

variable {C : Type} (x : Call C) (a : Aead) (key : Bytes)

/-- Close the frame and write it. -/
def finish (b : Batch) (w : FrameWriter) : Step FrameWriter :=
  FrameWriter.frame x a key { w with records := w.records + b.count } RECORDS
    (b.body ++ ascii "]\x7d")

end Batch

/-- What an export reports. -/
structure StreamSummary where
  createdAt : ℕ
  streamId : Fixed 16
  frames : ℕ
  records : ℕ
  bytes : ℕ
  transcript : Text

section Export

variable {C : Type} (x : Call C) (a : Aead) (s : StreamCodec C) (key : Bytes)

/-- Make room for an entry: a batch it does not fit is written first. -/
def makeRoom (entry : ℕ) (w : FrameWriter) (b : Batch) : Step (FrameWriter × Batch) :=
  if b.fits entry x.limits.maxFrameBytes then .ok (w, b)
  else if b.count = 0 then .error (oversizedRecord, w)
  else do
    let w' ← b.finish x a key w
    let b' := Batch.new (w.frames + 1)
    if b'.fits entry x.limits.maxFrameBytes then .ok (w', b')
    else .error (oversizedRecord, w')

/-- Add a record to the archive. -/
def addRecord (state : FrameWriter × Batch) (record : Text × Json) :
    Step (FrameWriter × Batch) :=
  let entry := s.entry record
  if x.limits.maxFrameBytes < entry.length then .error (oversizedRecord, state.1)
  else do
    let (w, b) ← makeRoom x a key entry.length state.1 state.2
    let b := b.push entry
    if min FLUSH_BYTES x.limits.maxFrameBytes ≤ b.body.length then do
      let w' ← b.finish x a key w
      return (w', Batch.new (w.frames + 1))
    else return (w, b)

/-- Add the records of the snapshot, page by page. -/
def addPages : ℕ → Option Text → FrameWriter × Batch → Step (FrameWriter × Batch)
  -- Not reached: every round adds a record.
  | 0, _, state => .error (.internal, state.1)
  | rounds + 1, after, (w, b) => do
    let w ← w.checkCancel x
    match snapshotPage x.size x.records after PAGE x.limits.maxFrameBytes with
    | .error e => .error (e, w)
    | .ok page =>
      match lastName page with
      | none => .ok (w, b)
      | some next =>
        if after.any fun previous => decide (next ≤ previous) then .error (.internal, w)
        else do
          let state ← page.foldlM (addRecord x a s key) (w, b)
          addPages rounds (some next) state

/-- The header frame, after magic and identity. -/
def writeHeader (w : FrameWriter) : Step FrameWriter := do
  let w ← w.checkCancel x
  w.reserve x (MAGIC.length + x.streamId.1.length)
  let w ← w.emit x MAGIC
  let w ← w.emit x x.streamId.1
  let header := s.header ⟨"header".toList, BACKUP_V3, x.createdAt, x.config⟩
  if x.limits.maxFrameBytes < header.length then
    .error (.bad "Backup configuration exceeds the configured frame limit", w)
  else w.frame x a key HEADER header

/-- The trailer frame. -/
def writeTrailer (w : FrameWriter) : Step (StreamSummary × FrameWriter) := do
  let transcript := s.digest w.transcript
  let w' ← w.frame x a key TRAILER (s.trailer ⟨"trailer".toList, w.records, w.frames, transcript⟩)
  return (⟨x.createdAt, x.streamId, w'.frames, w'.records, w'.bytes, transcript⟩, w')

/-- The whole archive, up to the flush of the sink. -/
def writeArchive : Step (StreamSummary × FrameWriter) := do
  match x.limits.validate, x.key, x.management with
  | .error e, _, _ => .error (e, .start)
  | _, .error e, _ => .error (e, .start)
  | _, _, .error e => .error (e, .start)
  | .ok (), .ok key, .ok () => do
    let w ← writeHeader x a s key .start
    let (w, b) ← addPages x a s key (x.records.entries.length + 1) none (w, Batch.new w.frames)
    let w ← if 0 < b.count then b.finish x a key w else .ok w
    writeTrailer x a s key w

/-- `Core::backup_stream_as`. -/
def backupStreamAs : Step (StreamSummary × FrameWriter) := do
  let (summary, w) ← writeArchive x a s
  if x.sink.flush then .ok (summary, w) else .error (w.sinkFailed x, w)

end Export

/-! ## Reading -/

/-- The state of a scan. -/
structure FrameReader where
  input : Bytes
  streamId : Fixed 16
  frames : ℕ
  bytes : ℕ
  transcript : Bytes

namespace FrameReader

variable (limits : StreamLimits)

/-- Room for so many bytes. -/
def reserve (r : FrameReader) (len : ℕ) : Result Unit :=
  if limits.maxArchiveBytes < r.bytes + len then .error quotaExceeded else .ok ()

/-- Read exactly this many bytes. -/
def fill (r : FrameReader) (len : ℕ) : Result (Fixed len × FrameReader) := do
  r.reserve limits len
  if h : len ≤ r.input.length then
    .ok (⟨r.input.take len, List.length_take_of_le h⟩,
      { r with input := r.input.drop len, bytes := r.bytes + len })
  else .error (.bad "Backup archive is truncated")

/-- `FrameReader::open`. -/
def start (input : Bytes) : Result FrameReader := do
  let (magic, r) ← fill limits ⟨input, ⟨List.replicate 16 0, rfl⟩, 0, 0, []⟩ 16
  if magic.1 ≠ MAGIC then .error (.bad "Unsupported backup format")
  else do
    let (streamId, r) ← fill limits r 16
    return { r with streamId := streamId, transcript := magic.1 ++ streamId.1 }

variable (a : Aead) (key : Bytes)

/-- Authenticate the next frame. -/
def next (r : FrameReader) : Result ((UInt8 × Bytes) × FrameReader) := do
  let (head, r) ← fill limits r 5
  let kind := head.1.headD 0
  let len := fromBigEndian head.1.tail
  if ¬ (kind = HEADER ∨ kind = RECORDS ∨ kind = TRAILER) ∨ len < SEAL_OVERHEAD then
    .error invalid
  else if limits.maxFrameBytes + SEAL_OVERHEAD < len then
    .error (.bad "Backup frame exceeds the configured limit")
  else do
    r.reserve limits len
    let (sealed, r) ← fill limits r len
    let plaintext ← Crypto.unsealBytes a key (aad r.streamId r.frames kind) sealed.1
    return ((kind, plaintext),
      { r with frames := r.frames + 1,
               transcript := if kind ≠ TRAILER then r.transcript ++ head.1 ++ sealed.1
                 else r.transcript })

/-- The trailer ends the archive. -/
def finish (r : FrameReader) : Result Unit :=
  if r.input = [] then .ok () else .error (.bad "Backup archive has data after its trailer")

end FrameReader

/-- What a scan reports. -/
structure Scanned (C : Type) where
  config : C
  createdAt : ℕ
  streamId : Fixed 16
  frames : ℕ
  records : ℕ
  bytes : ℕ
  transcript : Text
  schema : Option Json
  issuer : Option Json
  /-- The records handed to the visitor, in order. -/
  visited : List (Text × Json)

/-- What a scan has seen. -/
structure Seen where
  last : Option Text
  schema : Option Json
  issuer : Option Json
  visited : List (Text × Json)

section Scan

variable {C : Type} (a : Aead) (s : StreamCodec C) (limits : StreamLimits) (key : Bytes)
  (cancelled : ℕ → Bool) (visit : Text → Json → Result Unit)

/-- A look at the flag. -/
def checkFlag (n : ℕ) : Result Unit := if cancelled n then .error cancelledError else .ok ()

/-- One record: its name splits and comes after the last one. -/
def scanRecord (seen : Seen) (record : Text × Json) : Result Seen := do
  let _ ← splitRecordKey record.1
  if seen.last.any fun previous => decide (record.1 ≤ previous) then .error invalid
  else do
    visit record.1 record.2
    return {
      last := some record.1
      schema := if record.1 = "meta/schema".toList then some record.2 else seen.schema
      issuer := if record.1 = "meta/issuer".toList then some record.2 else seen.issuer
      visited := seen.visited ++ [record] }

/-- The trailer has to match what was seen. -/
def scanTrailer (header : HeaderFrame C) (seen : Seen) (checks index : ℕ) (r : FrameReader)
    (plaintext : Bytes) : Result (Scanned C) :=
  match s.parseTrailer plaintext with
  | none => .error invalid
  | some trailer =>
    let transcript := s.digest r.transcript
    if trailer.kind ≠ "trailer".toList ∨ trailer.recordCount ≠ seen.visited.length ∨
        trailer.frames ≠ index ∨ trailer.transcript ≠ transcript then .error invalid
    else do
      checkFlag cancelled checks
      r.finish
      checkFlag cancelled (checks + 1)
      return ⟨header.config, header.createdAt, r.streamId, r.frames, seen.visited.length, r.bytes,
        transcript, seen.schema, seen.issuer, seen.visited⟩

/-- All frames after the header. -/
def scanFrames (header : HeaderFrame C) : ℕ → ℕ → Seen → FrameReader → Result (Scanned C)
  -- Not reached: every frame takes bytes off the input.
  | 0, _, _, _ => .error .internal
  | rounds + 1, checks, seen, r => do
    checkFlag cancelled checks
    let ((kind, plaintext), r') ← r.next limits a key
    if kind = RECORDS then
      match s.parseRecords plaintext with
      | none => .error invalid
      | some frame =>
        if frame.kind ≠ "records".toList ∨ frame.index ≠ r.frames ∨ frame.records = [] then
          .error invalid
        else do
          let seen ← frame.records.foldlM (scanRecord visit) seen
          scanFrames header rounds (checks + 1) seen r'
    else if kind = TRAILER then
      scanTrailer s cancelled header seen (checks + 1) r.frames r' plaintext
    else .error invalid

/-- Authenticate a complete archive, handing each record to `visit` in order. -/
def scan (input : Bytes) : Result (Scanned C) := do
  checkFlag cancelled 0
  let r ← FrameReader.start limits input
  let ((kind, plaintext), r) ← r.next limits a key
  if kind ≠ HEADER then .error invalid
  else
    match s.parseHeader plaintext with
    | none => .error invalid
    | some header =>
      if header.kind ≠ "header".toList ∨ header.apiVersion ≠ BACKUP_V3 then
        .error (.bad "Unsupported backup format")
      else
        scanFrames a s limits key cancelled visit header (input.length + 1) 1
          ⟨none, none, none, []⟩ r

end Scan

end RiAuth.Operations
