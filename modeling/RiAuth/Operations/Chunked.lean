import RiAuth.Operations.Stream

/-!
# Chunked backups

The `riauth.backup/v2` document: the snapshot page by page, each page serialized, sealed and encoded
as one chunk, and a manifest sealed last that lists the digests of all chunks. `backup` writes the
document and `loadChunked` reads it.

The pages are bounded by the stored bytes of their records, the chunks by their serialized text, and
both bounds are `MAX_BACKUP_PAGE_BYTES`.
-/

namespace RiAuth.Operations

open Framing Store

def BACKUP_V2 : Text := "riauth.backup/v2".toList

def MANIFEST_AAD : Bytes := ascii "riauth.backup/v2/manifest"

/-- Stored bytes of one page. -/
def MAX_BACKUP_PAGE_BYTES : ℕ := 8 * 1024 * 1024

/-- Hard limit for the complete JSON archive. -/
def MAX_BACKUP_BYTES : ℕ := 64 * 1024 * 1024

/-- What binds a chunk to its place. -/
def recordChunkAad (index : ℕ) : Bytes := ascii "riauth.backup/v2/records/" ++ ascii (toString index)

/-- A chunk of records. -/
structure RecordsChunk where
  kind : Text
  index : ℕ
  records : OrdMap Text Json

/-- The chunk that lists the others. -/
structure ManifestChunk (C : Type) where
  kind : Text
  apiVersion : Text
  createdAt : ℕ
  config : C
  recordCount : ℕ
  digests : List Text

/-- The JSON texts of the chunks, their base64url form, and the digest of that form. -/
structure ChunkCodec (C : Type) where
  records : RecordsChunk → Bytes
  parseRecords : Bytes → Option RecordsChunk
  manifest : ManifestChunk C → Bytes
  parseManifest : Bytes → Option (ManifestChunk C)
  encode : Bytes → Text
  decode : Text → Option Bytes
  digest : Text → Text
  /-- The float that is read from the text of a float; it may be another one. -/
  reread : ℕ → ℕ
  /-- The issuer a configuration names. -/
  issuer : C → Text

/-- A record as it is read from its text. -/
def ChunkCodec.back {C : Type} (s : ChunkCodec C) (r : Text × Json) : Text × Json :=
  (r.1, r.2.mapFloats s.reread)

/-- What one backup runs on. -/
structure BackupCall (C : Type) where
  key : Result Bytes
  management : Result Unit
  createdAt : ℕ
  config : C
  records : OrdMap Text Json
  /-- Stored bytes of a record. -/
  size : Text → Json → ℕ
  /-- The `n`-th random nonce. -/
  nonce : ℕ → Fixed 12

/-! ## Writing -/

/-- Serialize within a limit. -/
def boundedBackupJson (text : Bytes) (limit : ℕ) : Result Bytes :=
  if limit < text.length then .error (.bad "Backup plaintext page exceeds 8 MiB") else .ok text

/-- The chunks written so far. -/
structure Chunks where
  chunks : List Text
  digests : List Text
  recordCount : ℕ
  archiveBytes : ℕ

/-- The archive is too long. -/
def archiveTooLarge : Error := .bad "Backup archive exceeds 64 MiB"

section Backup

variable {C : Type} (x : BackupCall C) (a : Aead) (s : ChunkCodec C) (key : Bytes)

/-- The chunk a page becomes at a position. -/
def chunkOf (page : List (Text × Json)) (index : ℕ) : RecordsChunk :=
  ⟨"records".toList, index, OrdMap.ofList page⟩

/-- A page, serialized, sealed and encoded. -/
def encodedChunk (page : List (Text × Json)) (index : ℕ) : Text :=
  s.encode (Crypto.sealBytes a key (x.nonce index) (recordChunkAad index)
    (s.records (chunkOf page index)))

/-- A chunk joins those before it. -/
def addChunk (c : Chunks) (page : List (Text × Json)) : Result Chunks := do
  let index := c.chunks.length
  let _ ← boundedBackupJson (s.records (chunkOf page index)) MAX_BACKUP_PAGE_BYTES
  let encoded := encodedChunk x a s key page index
  let archiveBytes := c.archiveBytes + (encoded.length + 4)
  if MAX_BACKUP_BYTES < archiveBytes then .error archiveTooLarge
  else .ok ⟨c.chunks ++ [encoded], c.digests ++ [s.digest encoded], c.recordCount + page.length,
    archiveBytes⟩

/-- Read the snapshot page by page. -/
def backupPages : ℕ → Option Text → Chunks → Result Chunks
  -- Not reached: every round takes a record.
  | 0, _, _ => .error .internal
  | rounds + 1, after, c => do
    let page ← snapshotPage x.size x.records after PAGE MAX_BACKUP_PAGE_BYTES
    match lastName page with
    | none => .ok c
    | some next =>
      if after.any fun previous => decide (next ≤ previous) then .error .internal
      else do
        let c ← addChunk x a s key c page
        backupPages rounds (some next) c

/-- The manifest of written chunks. -/
def manifestOf (c : Chunks) : ManifestChunk C :=
  ⟨"manifest".toList, BACKUP_V2, x.createdAt, x.config, c.recordCount, c.digests⟩

/-- The manifest, sealed and encoded, behind the chunks it lists. -/
def encodedManifest (c : Chunks) : Text :=
  s.encode (Crypto.sealBytes a key (x.nonce c.chunks.length) MANIFEST_AAD
    (s.manifest (manifestOf x c)))

/-- `Core::backup`. -/
def backup : Result Json := do
  let key ← x.key
  x.management
  let c ← backupPages x a s key (x.records.entries.length + 1) none ⟨[], [], 0, 512⟩
  let _ ← boundedBackupJson (s.manifest (manifestOf x c)) MAX_BACKUP_PAGE_BYTES
  let chunks := c.chunks ++ [encodedManifest x a s key c]
  if MAX_BACKUP_BYTES < 512 + (chunks.map fun chunk => chunk.length + 4).sum then
    .error archiveTooLarge
  else .ok (.obj [("api_version".toList, .str BACKUP_V2), ("chunks".toList, .arr (chunks.map .str)),
    ("created_at".toList, .int x.createdAt), ("encrypted".toList, .bool true)])

end Backup

/-! ## Reading -/

/-- What has been read of the records. -/
structure Loaded where
  schema : Option Json
  issuer : Option Json
  nameBytes : ℕ
  /-- The records, in the order the restore imports them. -/
  records : List (Text × Json)

/-- What a backup contains. -/
structure ChunkedBackup (C : Type) where
  config : C
  createdAt : ℕ
  recordCount : ℕ
  records : List (Text × Json)

/-- Schemas a restore takes. -/
def SCHEMA : ℕ := 3

/-- Whether this build can read the schema. -/
def schemaSupported (schema : Option Json) : Bool :=
  (schema.bind Json.asU64).any fun n => decide (1 ≤ n ∧ n ≤ SCHEMA)

section Load

variable {C : Type} (a : Aead) (s : ChunkCodec C) (key : Bytes)

/-- A record is checked and kept. -/
def loadRecord (l : Loaded) (record : Text × Json) : Result Loaded := do
  let _ ← splitRecordKey record.1
  if record.1 ∈ l.records.map Prod.fst then .error invalid
  else if MAX_BACKUP_BYTES < l.nameBytes + record.1.bytes then
    .error (.bad "Backup record names exceed 64 MiB")
  else .ok {
    schema := if record.1 = "meta/schema".toList then some record.2 else l.schema
    issuer := if record.1 = "meta/issuer".toList then some record.2 else l.issuer
    nameBytes := l.nameBytes + record.1.bytes
    records := l.records ++ [record] }

/-- A chunk of the document, with its listed digest and its position. -/
def loadChunk (l : Loaded) (listed : (Json × Text) × ℕ) : Result Loaded :=
  match listed.1.1.asStr with
  | none => .error (.bad "Invalid backup ciphertext")
  | some encoded =>
    if s.digest encoded ≠ listed.1.2 then .error invalid
    else
      match s.decode encoded with
      | none => .error (.bad "Invalid backup ciphertext")
      | some ciphertext => do
        let plaintext ← Crypto.unsealBytes a key (recordChunkAad listed.2) ciphertext
        match s.parseRecords plaintext with
        | none => .error invalid
        | some chunk =>
          if chunk.kind ≠ "records".toList ∨ chunk.index ≠ listed.2 then .error invalid
          else chunk.records.entries.foldlM loadRecord l

/-- The manifest, the last chunk of the document. -/
def loadManifest (encoded : Json) : Result (ManifestChunk C) :=
  match encoded.asStr with
  | none => .error (.bad "Invalid backup ciphertext")
  | some encoded =>
    match s.decode encoded with
    | none => .error (.bad "Invalid backup ciphertext")
    | some bytes => do
      let plaintext ← Crypto.unsealBytes a key MANIFEST_AAD bytes
      match s.parseManifest plaintext with
      | none => .error invalid
      | some manifest =>
        if manifest.kind ≠ "manifest".toList ∨ manifest.apiVersion ≠ BACKUP_V2 then
          .error (.bad "Unsupported backup format")
        else .ok manifest

/-- `load_chunked`. -/
def loadChunked (envelope : Json) : Result (ChunkedBackup C) :=
  match envelope.field "chunks".toList with
  | .arr listed =>
    match listed.getLast? with
    | none => .error (.bad "Unsupported backup format")
    | some last => do
      let manifest ← loadManifest a s key last
      if (envelope.field "created_at".toList).asU64 ≠ some manifest.createdAt ∨
          manifest.digests.length ≠ listed.dropLast.length then .error invalid
      else do
        let l ← (listed.dropLast.zip manifest.digests).zipIdx.foldlM (loadChunk a s key)
          ⟨none, none, 0, []⟩
        if l.records.length ≠ manifest.recordCount ∨ ¬ schemaSupported l.schema then
          .error (.bad "Unsupported backup schema")
        else if l.issuer ≠ some (.str (s.issuer manifest.config)) then
          .error (.bad "Backup issuer mismatch")
        else .ok ⟨manifest.config, manifest.createdAt, manifest.recordCount, l.records⟩
  | _ => .error (.bad "Unsupported backup format")

end Load

end RiAuth.Operations
