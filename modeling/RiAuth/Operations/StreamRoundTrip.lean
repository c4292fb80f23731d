import RiAuth.Operations.StreamWrite

/-!
# Reading an export back

The writer's half says what a complete archive is; here the reader is run over one.

* `Legible`: the reader's view of a complete archive, whose blocks open;
* `scan_complete`: **a complete archive is read back record by record**, as long as no value nests
  deeper than the parser of the frames goes;
* `scan_deep`: with a deeper value in it, the same archive is refused;
* **`backupStreamAs_roundTrips_iff`**: which stores and sinks an export keeps its promise for.
-/

namespace RiAuth.Operations

open Framing Store Checks Outcome

/-- The deepest value the parser takes inside a records frame: its 127 containers, less the frame,
the list and the pair around the value. -/
def MAX_VALUE_DEPTH : ℕ := 124

/-- What is relied on of the JSON texts of an export: each is read back, up to the depth the parser
goes to and to what becomes of a float, and a trailer is short. Positions and counts are those the
archive can reach. -/
structure Faithful {C : Type} (x : Call C) (s : StreamCodec C) : Prop where
  header : s.parseHeader (headerText x s) =
    some ⟨"header".toList, BACKUP_V3, x.createdAt, x.config⟩
  records : ∀ index group, index ≤ x.records.entries.length → group <:+: x.records.entries →
    group ≠ [] → (∀ r ∈ group, r.2.depth ≤ MAX_VALUE_DEPTH) →
    s.parseRecords (recordsText s index group) = some ⟨"records".toList, index, group.map s.back⟩
  deep : ∀ index group, index ≤ x.records.entries.length → group <:+: x.records.entries →
    (∃ r ∈ group, MAX_VALUE_DEPTH < r.2.depth) →
    s.parseRecords (recordsText s index group) = none
  trailer : ∀ frames bytes, frames ≤ x.records.entries.length + 1 →
    s.parseTrailer (s.trailer ⟨"trailer".toList, x.records.entries.length, frames, s.digest bytes⟩) =
        some ⟨"trailer".toList, x.records.entries.length, frames, s.digest bytes⟩ ∧
      (s.trailer ⟨"trailer".toList, x.records.entries.length, frames, s.digest bytes⟩).length ≤
        MIN_FRAME_BYTES

section RoundTrip

variable {C : Type} {x : Call C} {a : Aead} {s : StreamCodec C} {key : Bytes}

/-! ## Records -/

/-- One more record seen. -/
def Seen.add (seen : Seen) (r : Text × Json) : Seen where
  last := some r.1
  schema := if r.1 = "meta/schema".toList then some r.2 else seen.schema
  issuer := if r.1 = "meta/issuer".toList then some r.2 else seen.issuer
  visited := seen.visited ++ [r]

/-- What is seen of these records. -/
def Seen.of (records : List (Text × Json)) : Seen :=
  records.foldl Seen.add ⟨none, none, none, []⟩

theorem Seen.of_append (records : List (Text × Json)) (r : Text × Json) :
    Seen.of (records ++ [r]) = (Seen.of records).add r := List.foldl_append

theorem Seen.visited_of (records : List (Text × Json)) : (Seen.of records).visited = records := by
  induction records using List.reverseRecOn with
  | nil => rfl
  | append_singleton records r ih =>
    rw [Seen.of_append]
    exact congrArg (· ++ [r]) ih

theorem Seen.last_of (records : List (Text × Json)) :
    (Seen.of records).last = lastName records := by
  induction records using List.reverseRecOn with
  | nil => rfl
  | append_singleton records r ih =>
    rw [Seen.of_append, lastName_append (List.cons_ne_nil r [])]
    rfl

/-- A visitor that takes every record. -/
def acceptAll : Text → Json → Result Unit := fun _ _ => .ok ()

variable {done : List (Text × Json)} {limits : StreamLimits} {r r' : FrameReader} {b last : Block}
  {plaintext rest emitted : Bytes} {cancelled : ℕ → Bool} {visit : Text → Json → Result Unit}
  {header : HeaderFrame C} {rounds checks : ℕ} {seen : Seen} {groups : List (List (Text × Json))}
  {blocks : List Block}

theorem scanRecord_next {r : Text × Json} (hname : ∃ p, splitRecordKey r.1 = .ok p)
    (hlater : ∀ e ∈ done, e.1 < r.1) :
    scanRecord acceptAll (Seen.of done) r = .ok (Seen.of (done ++ [r])) := by
  obtain ⟨p, hp⟩ := hname
  unfold scanRecord
  refine bind_ok.mpr ⟨p, hp, ?_⟩
  have hnot : ¬ ((Seen.of done).last.any fun previous => decide (r.1 ≤ previous)) = true := by
    rw [Seen.last_of, lastName, Option.any_eq_true]
    rintro ⟨name, hname, hle⟩
    obtain ⟨e, he, rfl⟩ := Option.map_eq_some_iff.mp hname
    exact absurd (hlater e (List.mem_of_getLast? he)) (not_lt.mpr (of_decide_eq_true hle))
  rw [if_neg hnot, Seen.of_append]
  rfl

/-- The records of a frame, behind those of the frames before it. -/
theorem scanRecords_next {group : List (Text × Json)}
    (hnames : ∀ r ∈ group, ∃ p, splitRecordKey r.1 = .ok p)
    (hsorted : (done ++ group).Pairwise (fun e f => e.1 < f.1)) :
    group.foldlM (scanRecord acceptAll) (Seen.of done) = .ok (Seen.of (done ++ group)) := by
  induction group generalizing done with
  | nil =>
    rw [List.append_nil]
    rfl
  | cons r group ih =>
    obtain ⟨hr, hgroup⟩ := List.forall_mem_cons.mp hnames
    have hlater : ∀ e ∈ done, e.1 < r.1 :=
      fun e he => (List.pairwise_append.mp hsorted).2.2 e he r List.mem_cons_self
    rw [List.append_cons] at hsorted ⊢
    rw [List.foldlM_cons]
    exact bind_ok.mpr ⟨_, scanRecord_next hr hlater, ih hgroup hsorted⟩

/-! ## Frames -/

/-- A block is read as a frame with this plaintext. -/
structure ReadsAs (a : Aead) (key : Bytes) (id : Fixed 16) (k : UInt8) (plaintext : Bytes)
    (placed : Block × ℕ) : Prop where
  kind : placed.1.kind = k
  length : placed.1.payload.length = plaintext.length + SEAL_OVERHEAD
  opens : Crypto.unsealBytes a key (aad id placed.2 k) placed.1.payload = .ok plaintext

/-- The blocks are read as the frames that they are. -/
def Unlocks (a : Aead) (key : Bytes) (id : Fixed 16) (blocks : List Block) : Prop :=
  ∀ placed ∈ blocks.zipIdx, ∀ kind plaintext, FrameAt a key id kind plaintext placed →
    ReadsAs a key id kind plaintext placed

theorem unlocks_of_lawful (h : a.Lawful) (id : Fixed 16) (blocks : List Block) :
    Unlocks a key id blocks := by
  rintro placed - kind plaintext ⟨hkind, nonce, hpayload⟩
  refine ⟨hkind, ?_, ?_⟩
  · rw [hpayload, Crypto.length_sealed (h.length_encrypt _ _ _ _)]
    rfl
  · rw [hpayload]
    exact Crypto.unseal_sealed h _ _ _ _

/-- A block is read as a records frame that holds this group. -/
def GroupAt (x : Call C) (a : Aead) (s : StreamCodec C) (key : Bytes) (group : List (Text × Json))
    (placed : Block × ℕ) : Prop :=
  group ≠ [] ∧ (recordsText s placed.2 group).length ≤ x.limits.maxFrameBytes ∧
    ReadsAs a key x.streamId RECORDS (recordsText s placed.2 group) placed

theorem next_frame {kind : UInt8} (hframe : ReadsAs a key r.streamId kind plaintext (b, r.frames))
    (hkind : kind = HEADER ∨ kind = RECORDS ∨ kind = TRAILER)
    (hlength : plaintext.length ≤ limits.maxFrameBytes) (hinput : r.input = b.encode ++ rest)
    (hquota : r.bytes + b.encode.length ≤ limits.maxArchiveBytes) :
    r.next limits a key = .ok ((kind, plaintext), r.behind b rest) := by
  obtain ⟨hb, hpayload, hopens⟩ := hframe
  dsimp only at hb hpayload hopens
  subst hb
  exact FrameReader.next_encode hinput hkind (by omega) (by omega) hquota hopens

/-- Whatever the limits are, a block that is read is read as its frame. -/
theorem next_reads {kind kind' : UInt8} {plaintext' : Bytes}
    (hframe : ReadsAs a key r.streamId kind plaintext (b, r.frames))
    (hinput : r.input = b.encode ++ rest)
    (hnext : r.next limits a key = .ok ((kind', plaintext'), r')) :
    kind' = kind ∧ plaintext' = plaintext ∧ r' = r.behind b rest := by
  obtain ⟨b', hinput', hkind, hopens, hr', -⟩ := FrameReader.next_ok hnext
  obtain ⟨rfl, hrest⟩ := Block.encode_append_inj (hinput'.symm.trans hinput)
  obtain ⟨hkind', -, hopens'⟩ := hframe
  dsimp only at hkind' hopens'
  subst hkind hkind'
  rw [hopens'] at hopens
  cases hopens
  rw [← hrest]
  exact ⟨rfl, rfl, hr'⟩

/-- The reader behind several frames before the trailer. -/
def FrameReader.past (r : FrameReader) (blocks : List Block) (rest : Bytes) : FrameReader :=
  ⟨rest, r.streamId, r.frames + blocks.length, r.bytes + (encodeAll blocks).length,
    r.transcript ++ encodeAll blocks⟩

theorem FrameReader.past_behind (hkind : b.kind ≠ TRAILER) (blocks : List Block) (mid rest : Bytes) :
    (r.behind b mid).past blocks rest = r.past (b :: blocks) rest := by
  unfold behind past
  rw [if_pos hkind, encodeAll_cons, List.length_append, List.length_cons, List.append_assoc]
  simp only [Nat.add_assoc, Nat.add_comm 1]

/-- One records frame whose text is read. -/
theorem scanFrames_frame {frame : RecordsFrame} (hflag : cancelled checks = false)
    (hnext : r.next limits a key = .ok ((RECORDS, plaintext), r'))
    (hparse : s.parseRecords plaintext = some frame) (hkind : frame.kind = "records".toList)
    (hindex : frame.index = r.frames) (hne : frame.records ≠ []) :
    scanFrames a s limits key cancelled visit header (rounds + 1) checks seen r =
      (frame.records.foldlM (scanRecord visit) seen >>= fun seen =>
        scanFrames a s limits key cancelled visit header rounds (checks + 1) seen r') := by
  have hpass : checkFlag cancelled checks = .ok () := by
    rw [checkFlag, hflag]
    rfl
  rw [scanFrames, hnext, hpass]
  dsimp only [bind, Except.bind]
  rw [if_pos (rfl : RECORDS = RECORDS), hparse]
  dsimp only
  split
  · rename_i hbad
    rcases hbad with hbad | hbad | hbad
    · exact absurd hkind hbad
    · exact absurd hindex hbad
    · exact absurd hbad hne
  · rfl

/-- **The frames of the records** are read one by one. -/
theorem scanFrames_records (hs : Faithful x s)
    (hnames : ∀ r ∈ x.records.entries, ∃ p, splitRecordKey r.1 = .ok p)
    (hshallow : ∀ r ∈ x.records.entries, r.2.depth ≤ MAX_VALUE_DEPTH)
    (hgroups : List.Forall₂ (GroupAt x a s key) groups (blocks.zipIdx r.frames))
    (hsnapshot : x.records.entries = done ++ groups.flatten) (hframes : r.frames ≤ done.length + 1)
    (hid : r.streamId = x.streamId) (hinput : r.input = encodeAll blocks ++ rest)
    (hquota : r.bytes + (encodeAll blocks).length ≤ x.limits.maxArchiveBytes) :
    scanFrames a s x.limits key (fun _ => false) acceptAll header (rounds + blocks.length) checks
        (Seen.of (done.map s.back)) r =
      scanFrames a s x.limits key (fun _ => false) acceptAll header rounds (checks + blocks.length)
        (Seen.of (x.records.entries.map s.back)) (r.past blocks rest) := by
  induction blocks generalizing groups done r checks with
  | nil =>
    cases hgroups
    rw [List.flatten_nil, List.append_nil] at hsnapshot
    rw [hsnapshot]
    unfold FrameReader.past
    rw [encodeAll_nil, List.append_nil, List.length_nil, ← show r.input = rest from hinput]
    rfl
  | cons b blocks ih =>
    rw [List.zipIdx_cons] at hgroups
    cases hgroups with
    | @cons group _ groups _ hb hgroups =>
      obtain ⟨hne, hlength, hframe⟩ := hb
      rw [encodeAll_cons, List.append_assoc] at hinput
      rw [encodeAll_cons, List.length_append] at hquota
      rw [List.flatten_cons, ← List.append_assoc] at hsnapshot
      have hpart : group <:+: x.records.entries := ⟨done, groups.flatten, hsnapshot.symm⟩
      have hmem : ∀ e ∈ group, e ∈ x.records.entries := fun e he => hpart.subset he
      have hpos := List.length_pos_iff.mpr hne
      have hindex : r.frames ≤ x.records.entries.length := by
        rw [hsnapshot, List.length_append, List.length_append]
        omega
      have hkind : b.kind ≠ TRAILER := by rw [hframe.kind]; decide
      have hnext := next_frame (hid ▸ hframe) (.inr (.inl rfl)) hlength hinput (by omega)
      have hscan : (group.map s.back).foldlM (scanRecord acceptAll) (Seen.of (done.map s.back)) =
          .ok (Seen.of ((done ++ group).map s.back)) := by
        rw [List.map_append]
        refine scanRecords_next (fun e he => ?_) ?_
        · obtain ⟨r, hr, rfl⟩ := List.mem_map.mp he
          exact hnames r (hmem r hr)
        · rw [← List.map_append, List.pairwise_map]
          exact (List.pairwise_append.mp (hsnapshot ▸ x.records.sorted)).1
      have hstep : scanFrames a s x.limits key (fun _ => false) acceptAll header
          (rounds + blocks.length + 1) checks (Seen.of (done.map s.back)) r =
          scanFrames a s x.limits key (fun _ => false) acceptAll header (rounds + blocks.length)
            (checks + 1) (Seen.of ((done ++ group).map s.back))
            (r.behind b (encodeAll blocks ++ rest)) := by
        rw [scanFrames_frame rfl hnext
          (hs.records _ _ hindex hpart hne fun e he => hshallow e (hmem e he)) rfl rfl
          (mt List.map_eq_nil_iff.mp hne)]
        dsimp only
        rw [hscan]
        rfl
      have hrest := @ih (done ++ group) (r.behind b (encodeAll blocks ++ rest)) (checks + 1) groups
        hgroups hsnapshot (by rw [List.length_append]; change r.frames + 1 ≤ _; omega) hid rfl
        (by change r.bytes + b.encode.length + _ ≤ _; omega)
      rw [List.length_cons, ← Nat.add_assoc, hstep, hrest, FrameReader.past_behind hkind,
        Nat.add_assoc, Nat.add_comm 1]

/-- The trailer, when it says what was seen. -/
theorem scanFrames_trailer {t : TrailerFrame}
    (hnext : r.next limits a key = .ok ((TRAILER, plaintext), r'))
    (hparse : s.parseTrailer plaintext = some t) (hkind : t.kind = "trailer".toList)
    (hrecords : t.recordCount = seen.visited.length) (hframes : t.frames = r.frames)
    (htranscript : t.transcript = s.digest r'.transcript) (hend : r'.input = []) :
    scanFrames a s limits key (fun _ => false) acceptAll header (rounds + 1) checks seen r =
      .ok ⟨header.config, header.createdAt, r'.streamId, r'.frames, seen.visited.length, r'.bytes,
        s.digest r'.transcript, seen.schema, seen.issuer, seen.visited⟩ := by
  have hpass : ∀ n, checkFlag (fun _ => false) n = .ok () := fun _ => rfl
  have hfinish : r'.finish = .ok () := if_pos hend
  rw [scanFrames, hnext, hpass]
  dsimp only [bind, Except.bind]
  rw [if_neg (by decide : ¬ TRAILER = RECORDS), if_pos (rfl : TRAILER = TRAILER), scanTrailer,
    hparse]
  dsimp only
  split
  · rename_i hbad
    rcases hbad with hbad | hbad | hbad | hbad
    · exact absurd hkind hbad
    · exact absurd hrecords hbad
    · exact absurd hframes hbad
    · exact absurd htranscript hbad
  · rw [hpass, hfinish, hpass]
    rfl

/-- What a scan reports of a complete archive. -/
def Scanned.of (x : Call C) (s : StreamCodec C) (bytes : ℕ) (blocks : List Block) : Scanned C :=
  ⟨x.config, x.createdAt, x.streamId, blocks.length + 1, x.records.entries.length, bytes,
    s.digest (MAGIC ++ (x.streamId.1 ++ encodeAll blocks)),
    (Seen.of (x.records.entries.map s.back)).schema,
    (Seen.of (x.records.entries.map s.back)).issuer, x.records.entries.map s.back⟩

/-- The header, when it is read. -/
theorem scan_header {input : Bytes} (hflag : cancelled 0 = false)
    (hstart : FrameReader.start limits input = .ok r)
    (hnext : r.next limits a key = .ok ((HEADER, plaintext), r'))
    (hparse : s.parseHeader plaintext = some header) (hkind : header.kind = "header".toList)
    (hversion : header.apiVersion = BACKUP_V3) :
    scan a s limits key cancelled visit input =
      scanFrames a s limits key cancelled visit header (input.length + 1) 1 (Seen.of []) r' := by
  have hpass : checkFlag cancelled 0 = .ok () := by
    rw [checkFlag, hflag]
    rfl
  rw [scan, hpass, hstart]
  dsimp only [bind, Except.bind]
  rw [hnext]
  dsimp only
  rw [if_neg (not_not_intro rfl), hparse]
  dsimp only
  split
  · rename_i hbad
    rcases hbad with hbad | hbad
    · exact absurd hkind hbad
    · exact absurd hversion hbad
  · rfl

/-- The reader behind the header of an export. -/
def readerAt (x : Call C) (header : Block) (rest : Bytes) : FrameReader :=
  ⟨rest, x.streamId, 1, 32 + header.encode.length, MAGIC ++ x.streamId.1 ++ header.encode⟩

/-- The reader's view of a complete archive. -/
structure Legible (x : Call C) (a : Aead) (s : StreamCodec C) (key : Bytes) (emitted : Bytes)
    (first : Block) (rest : List Block) (last : Block) (groups : List (List (Text × Json))) :
    Prop where
  bytes : emitted = MAGIC ++ (x.streamId.1 ++ (first.encode ++ (encodeAll rest ++ last.encode)))
  quota : emitted.length ≤ x.limits.maxArchiveBytes
  header : ReadsAs a key x.streamId HEADER (headerText x s) (first, 0)
  headerFits : (headerText x s).length ≤ x.limits.maxFrameBytes
  parts : List.Forall₂ (GroupAt x a s key) groups (rest.zipIdx 1)
  records : groups.flatten = x.records.entries
  frames : rest.length ≤ x.records.entries.length
  trailer : ReadsAs a key x.streamId TRAILER
    (s.trailer (trailerOf s x.streamId x.records.entries.length (first :: rest)))
    (last, 1 + rest.length)

/-- A complete archive whose blocks open is legible. -/
theorem Complete.legible {summary : StreamSummary} {w : FrameWriter}
    (h : Complete x a s key summary w blocks last groups)
    (hunlocks : Unlocks a key x.streamId (blocks ++ [last])) :
    ∃ header rest, blocks = header :: rest ∧
      Legible x a s key w.emitted header rest last groups := by
  have hframes := h.parts.length_le
  have htrailer := h.trailer
  have hquota := h.wrote.quota
  rw [h.wrote.bytes] at hquota
  obtain ⟨header, rest, rfl, hheader, hfits, hgroups⟩ := h.parts
  rw [List.cons_append] at hunlocks
  have hrest : ∀ placed ∈ (rest ++ [last]).zipIdx 1, ∀ kind plaintext,
      FrameAt a key x.streamId kind plaintext placed →
        ReadsAs a key x.streamId kind plaintext placed := fun placed hplaced =>
    hunlocks placed (by rw [List.zipIdx_cons]; exact List.mem_cons_of_mem _ hplaced)
  rw [List.zipIdx_append] at hrest
  refine ⟨header, rest, rfl, ?_, hquota, hunlocks _ (by simp) _ _ hheader, hfits, ?_, h.records, ?_,
    ?_⟩
  · rw [h.wrote.emitted, encodeAll_append, encodeAll_cons, encodeAll_cons, encodeAll_nil,
      List.append_nil, List.append_assoc]
  · refine List.forall₂_imp_right hgroups ?_
    rintro group placed hplaced ⟨hne, hlength, hframe⟩
    exact ⟨hne, hlength, hrest placed (List.mem_append_left _ hplaced) _ _ hframe⟩
  · rw [h.records, List.length_cons] at hframes
    omega
  · rw [List.length_cons, Nat.add_comm] at htrailer
    exact hrest _ (List.mem_append_right _ (by simp)) _ _ htrailer

theorem Legible.length_emitted {header : Block} {rest : List Block}
    (h : Legible x a s key emitted header rest last groups) :
    emitted.length =
      32 + header.encode.length + ((encodeAll rest).length + last.encode.length) := by
  have hmagic : MAGIC.length = 16 := by decide
  rw [h.bytes]
  simp only [List.length_append, hmagic, x.streamId.2]
  omega

/-- **A complete archive is read back**, record by record and in order. -/
theorem scan_complete (hs : Faithful x s) (hlimits : x.limits.validate = .ok ())
    (hnames : ∀ r ∈ x.records.entries, ∃ p, splitRecordKey r.1 = .ok p)
    (hshallow : ∀ r ∈ x.records.entries, r.2.depth ≤ MAX_VALUE_DEPTH) {header : Block}
    {rest : List Block} (h : Legible x a s key emitted header rest last groups) :
    scan a s x.limits key (fun _ => false) acceptAll emitted =
      .ok (Scanned.of x s emitted.length (header :: rest)) := by
  have hbytes := h.length_emitted
  have hquota := h.quota
  have hblocks := length_le_encodeAll rest
  have hstart := @FrameReader.start_append x.limits
    (header.encode ++ (encodeAll rest ++ last.encode)) x.streamId
    (StreamLimits.validate_ok hlimits).2.2.1
  have hnext := @next_frame a key x.limits
    ⟨header.encode ++ (encodeAll rest ++ last.encode), x.streamId, 0, 32, MAGIC ++ x.streamId.1⟩
    header (headerText x s) (encodeAll rest ++ last.encode) HEADER h.header (.inl rfl) h.headerFits
    rfl (by dsimp only; omega)
  have hbehind : FrameReader.behind ⟨header.encode ++ (encodeAll rest ++ last.encode), x.streamId, 0,
      32, MAGIC ++ x.streamId.1⟩ header (encodeAll rest ++ last.encode) =
      readerAt x header (encodeAll rest ++ last.encode) := by
    unfold FrameReader.behind
    rw [if_pos (by rw [h.header.kind]; decide)]
    rfl
  rw [hbehind] at hnext
  rw [← h.bytes] at hstart
  obtain ⟨k, hk⟩ : ∃ k, emitted.length + 1 = k + 1 + rest.length :=
    ⟨emitted.length - rest.length, by omega⟩
  rw [scan_header rfl hstart hnext hs.header rfl rfl, hk]
  have hrecords := @scanFrames_records C x a s key []
    (readerAt x header (encodeAll rest ++ last.encode)) last.encode
    ⟨"header".toList, BACKUP_V3, x.createdAt, x.config⟩ (k + 1) 1 groups rest hs hnames hshallow
    h.parts h.records.symm (Nat.le_refl 1) rfl rfl (by unfold readerAt; dsimp only; omega)
  rw [List.map_nil] at hrecords
  rw [hrecords]
  have htranscript : ((readerAt x header (encodeAll rest ++ last.encode)).past rest
      last.encode).transcript = MAGIC ++ (x.streamId.1 ++ encodeAll (header :: rest)) := by
    unfold FrameReader.past readerAt
    dsimp only
    rw [encodeAll_cons, List.append_assoc, List.append_assoc]
  have hlaws := hs.trailer (header :: rest).length
    (MAGIC ++ (x.streamId.1 ++ encodeAll (header :: rest))) (Nat.succ_le_succ h.frames)
  have hshort : (s.trailer (trailerOf s x.streamId x.records.entries.length
      (header :: rest))).length ≤ x.limits.maxFrameBytes :=
    hlaws.2.trans (StreamLimits.validate_ok hlimits).1
  have hnext := @next_frame a key x.limits
    ((readerAt x header (encodeAll rest ++ last.encode)).past rest last.encode) last _ [] TRAILER
    h.trailer (.inr (.inr rfl)) hshort (List.append_nil _).symm (by
      unfold FrameReader.past readerAt
      dsimp only
      omega)
  have hbehind : ∀ r : FrameReader, (r.behind last []).transcript = r.transcript := fun r =>
    if_neg (not_not_intro h.trailer.kind)
  rw [scanFrames_trailer hnext hlaws.1 rfl (by rw [Seen.visited_of, List.length_map]) ?_ ?_ rfl,
    hbehind, htranscript, Seen.visited_of, List.length_map]
  · unfold Scanned.of FrameReader.behind FrameReader.past readerAt
    dsimp only
    rw [hbytes, List.length_cons, Nat.add_comm 1, Nat.add_assoc _ _ last.encode.length]
  · exact Nat.add_comm _ _
  · rw [hbehind, htranscript]

/-- Records that were read are no deeper than the parser goes. -/
theorem scanFrames_shallow (hs : Faithful x s) {scanned : Scanned C}
    (hgroups : List.Forall₂ (GroupAt x a s key) groups (blocks.zipIdx r.frames))
    (hsnapshot : x.records.entries = done ++ groups.flatten) (hframes : r.frames ≤ done.length + 1)
    (hid : r.streamId = x.streamId) (hinput : r.input = encodeAll blocks ++ rest)
    (h : scanFrames a s limits key cancelled visit header rounds checks seen r = .ok scanned) :
    ∀ e ∈ groups.flatten, e.2.depth ≤ MAX_VALUE_DEPTH := by
  induction blocks generalizing groups r seen done rounds checks with
  | nil =>
    cases hgroups
    exact fun e he => absurd he List.not_mem_nil
  | cons b blocks ih =>
    rw [List.zipIdx_cons] at hgroups
    cases hgroups with
    | @cons group _ groups _ hb hgroups =>
      obtain ⟨hne, -, hframe⟩ := hb
      rw [List.flatten_cons, ← List.append_assoc] at hsnapshot
      have hpart : group <:+: x.records.entries := ⟨done, groups.flatten, hsnapshot.symm⟩
      have hpos := List.length_pos_iff.mpr hne
      have hindex : r.frames ≤ x.records.entries.length := by
        rw [hsnapshot, List.length_append, List.length_append]
        omega
      rw [encodeAll_cons, List.append_assoc] at hinput
      cases rounds with
      | zero => cases h
      | succ rounds =>
        rw [scanFrames] at h
        obtain ⟨-, h⟩ := seq_ok.mp h
        obtain ⟨⟨⟨kind, plaintext⟩, r'⟩, hread, h⟩ := bind_ok.mp h
        obtain ⟨rfl, rfl, rfl⟩ := next_reads (hid ▸ hframe) hinput hread
        dsimp only at h
        rw [if_pos (rfl : RECORDS = RECORDS)] at h
        have hshallow : ∀ e ∈ group, e.2.depth ≤ MAX_VALUE_DEPTH := by
          by_contra hdeep
          push Not at hdeep
          rw [hs.deep _ _ hindex hpart hdeep] at h
          cases h
        rw [List.flatten_cons]
        refine List.forall_mem_append.mpr ⟨hshallow, ?_⟩
        split at h
        · cases h
        · split at h
          · cases h
          · obtain ⟨seen', -, h⟩ := bind_ok.mp h
            refine @ih (done ++ group) (r.behind b (encodeAll blocks ++ rest)) rounds _ seen' groups
              hgroups hsnapshot ?_ hid rfl h
            rw [List.length_append]
            change r.frames + 1 ≤ _
            omega

/-- **A value too deep makes the archive unreadable**, under any limits. -/
theorem scan_deep (hs : Faithful x s) {scanned : Scanned C} {header : Block} {rest : List Block}
    (h : Legible x a s key emitted header rest last groups)
    (hscan : scan a s limits key cancelled visit emitted = .ok scanned) :
    ∀ r ∈ x.records.entries, r.2.depth ≤ MAX_VALUE_DEPTH := by
  unfold scan at hscan
  obtain ⟨-, hscan⟩ := seq_ok.mp hscan
  obtain ⟨r, hstart, hscan⟩ := bind_ok.mp hscan
  obtain ⟨⟨⟨kind, plaintext⟩, r'⟩, hnext, hscan⟩ := bind_ok.mp hscan
  obtain ⟨id, hinput, hr⟩ := FrameReader.start_ok hstart
  rw [h.bytes] at hinput
  obtain ⟨hid, hblocks⟩ :=
    List.append_inj (List.append_cancel_left hinput) (by rw [id.2, x.streamId.2])
  cases Subtype.ext hid
  have hheader : ReadsAs a key r.streamId HEADER (headerText x s) (header, r.frames) := by
    rw [hr]
    exact h.header
  obtain ⟨rfl, rfl, rfl⟩ := next_reads hheader hblocks.symm hnext
  dsimp only at hscan
  rw [if_neg (not_not_intro rfl), hs.header] at hscan
  rw [← h.records]
  have hsnapshot : x.records.entries = [] ++ groups.flatten := h.records.symm
  have hgroups := h.parts
  split at hscan
  · cases hscan
  · split at hscan
    · cases hscan
    · refine scanFrames_shallow hs (r := r.behind header (encodeAll rest ++ last.encode)) ?_ hsnapshot
        ?_ ?_ rfl hscan
      · change List.Forall₂ _ _ (rest.zipIdx (r.frames + 1))
        rw [hr]
        exact hgroups
      · change r.frames + 1 ≤ _
        rw [hr]
        exact Nat.le_refl 1
      · change r.streamId = _
        rw [hr]

/-- Less its last byte, a complete archive is incomplete. -/
theorem Complete.incomplete {summary : StreamSummary} {w : FrameWriter}
    (h : Complete x a s key summary w blocks last groups) :
    ∃ init z, w.emitted = init ++ [z] ∧ Incomplete x.streamId init := by
  have hne : last.encode ≠ [] := List.cons_ne_nil _ _
  have hlast := List.dropLast_append_getLast hne
  refine ⟨MAGIC ++ (x.streamId.1 ++ (encodeAll blocks ++ last.encode.dropLast)),
    last.encode.getLast hne, ?_, .inr ⟨blocks, _, h.parts.kinds, ⟨last, _, hlast.symm, ?_⟩, rfl⟩⟩
  · rw [h.wrote.emitted, encodeAll_append, encodeAll_cons, encodeAll_nil, List.append_nil]
    simp only [List.append_assoc, hlast]
  · exact List.cons_ne_nil _ _

/-- What an export promises. One that succeeds is read back: its records in order, and the counts
and the transcript of its summary. Of one that fails, no initial part of what was emitted is
accepted. -/
def RoundTrips (x : Call C) (a : Aead) (s : StreamCodec C) (key : Bytes) : Prop :=
  match backupStreamAs x a s with
  | .ok (summary, w) =>
    ∃ scanned, scan a s x.limits key (fun _ => false) acceptAll w.emitted = .ok scanned ∧
      scanned.visited = x.records.entries ∧ scanned.records = summary.records ∧
      scanned.bytes = summary.bytes ∧ scanned.frames = summary.frames ∧
      scanned.transcript = summary.transcript
  | .error (_, w) =>
    ∀ part, part <+: w.emitted → ∀ cancelled visit scanned,
      scan a s x.limits key cancelled visit part ≠ .ok scanned

/-- The flush of the sink succeeds just when every value of the store can be read, and then every
float is read as it is. -/
structure Sound (x : Call C) (s : StreamCodec C) : Prop where
  flush : x.sink.flush = true ↔ ∀ e ∈ x.records.entries, e.2.depth ≤ MAX_VALUE_DEPTH
  floats : x.sink.flush = true → ∀ e ∈ x.records.entries, e.2.mapFloats s.reread = e.2

/-- An export that gets to its flush keeps its promise for sound inputs and for no others. -/
theorem roundTrips_iff_of_finished (hlaw : a.Lawful) (hs : Faithful x s)
    (hnames : ∀ r ∈ x.records.entries, ∃ p, splitRecordKey r.1 = .ok p)
    (hkey : x.key = .ok key) {r : StreamSummary × FrameWriter} (hwrite : writeArchive x a s = .ok r)
    (hfinished : Finished x a s r) : RoundTrips x a s key ↔ Sound x s := by
  obtain ⟨key', blocks, last, groups, hkey', hlimits, hcomplete⟩ := hfinished
  cases hkey.symm.trans hkey'
  obtain ⟨header, rest, rfl, hlegible⟩ := hcomplete.legible (unlocks_of_lawful hlaw _ _)
  obtain ⟨summary, w⟩ := r
  dsimp only at hcomplete hlegible
  unfold RoundTrips backupStreamAs
  rw [hwrite]
  cases hflush : x.sink.flush with
  | true =>
    change (∃ scanned, _) ↔ _
    constructor
    · rintro ⟨scanned, hscan, hvisited, -⟩
      have hshallow := scan_deep hs hlegible hscan
      rw [scan_complete hs hlimits hnames hshallow hlegible] at hscan
      cases hscan
      exact ⟨iff_of_true hflush hshallow, fun _ => Json.map_mapFloats_iff.mp hvisited⟩
    · intro h
      have hscan := scan_complete hs hlimits hnames (h.flush.mp hflush) hlegible
      refine ⟨_, hscan, Json.map_mapFloats_iff.mpr (h.floats hflush), ?_⟩
      rw [hcomplete.summary]
      exact ⟨rfl, rfl, rfl, rfl⟩
  | false =>
    change (∀ part, part <+: w.emitted → _) ↔ _
    have hfail : ¬ x.sink.flush = true := by rw [hflush]; exact Bool.false_ne_true
    constructor
    · intro h
      refine ⟨iff_of_false hfail fun hshallow => ?_, fun hset => absurd hset hfail⟩
      exact h _ List.prefix_rfl _ _ _ (scan_complete hs hlimits hnames hshallow hlegible)
    · intro h part hpart cancelled visit scanned hscan
      obtain ⟨init, z, hemitted, hinit⟩ := hcomplete.incomplete
      rw [hemitted, List.prefix_concat_iff, ← hemitted] at hpart
      rcases hpart with rfl | hpart
      · exact hfail (h.flush.mpr (scan_deep hs hlegible hscan))
      · exact hinit.rejected hpart hscan

/-- An undisturbed export keeps its promise for sound inputs and for no others. -/
theorem Smooth.roundTrips_iff (h : Smooth x a s) (hlaw : a.Lawful) (hs : Faithful x s)
    (hnames : ∀ r ∈ x.records.entries, ∃ p, splitRecordKey r.1 = .ok p)
    (hkey : x.key = .ok key) : RoundTrips x a s key ↔ Sound x s := by
  obtain ⟨r, hwrite, hfinished⟩ := h.finished
  exact roundTrips_iff_of_finished hlaw hs hnames hkey hwrite hfinished

/-- Whatever comes of it, an export of sound inputs keeps its promise. -/
theorem roundTrips_of_sound (hlaw : a.Lawful) (hs : Faithful x s)
    (hnames : ∀ r ∈ x.records.entries, ∃ p, splitRecordKey r.1 = .ok p)
    (hkey : x.key = .ok key) (h : Sound x s) : RoundTrips x a s key := by
  have hends := @writeArchive_ends C x a s
  cases hwrite : writeArchive x a s with
  | ok r =>
    rw [hwrite] at hends
    exact (roundTrips_iff_of_finished hlaw hs hnames hkey hwrite hends).mpr h
  | error e =>
    rw [hwrite] at hends
    unfold RoundTrips backupStreamAs
    rw [hwrite]
    exact fun part hpart _ _ _ => hends.incomplete.rejected hpart

/-- What may happen to an export: cancellations, random numbers, and writes that fail. -/
structure Course where
  cancelled : ℕ → Bool
  nonce : ℕ → Option (Fixed 12)
  write : Bytes → Bytes → Option ℕ

/-- The same call on another course. -/
def Call.under (x : Call C) (c : Course) : Call C :=
  { x with cancelled := c.cancelled, nonce := c.nonce, sink := ⟨c.write, x.sink.flush⟩ }

def plainNonce (n : ℕ) : Fixed 12 := ⟨List.replicate 12 (UInt8.ofNat n), List.length_replicate⟩

/-- A course on which nothing happens. -/
def calm : Course := ⟨fun _ => false, fun n => some (plainNonce n), fun _ _ => none⟩

/-- **When exports keep their promise.** For a store that the limits leave room for, exports do so
on every course, stopped anywhere or not at all, just when the flush of the sink succeeds and every
value is read back: none too deep for the parser, and every float the same. (A flush that always
fails does no harm to a store that cannot be read anyway.) -/
theorem backupStreamAs_roundTrips_iff (hlaw : a.Lawful) (hs : Faithful x s)
    (hnames : ∀ r ∈ x.records.entries, ∃ p, splitRecordKey r.1 = .ok p)
    (hkey : x.key = .ok key) (hroom : Roomy x s) :
    (∀ c, RoundTrips (x.under c) a s key) ↔ Sound x s := by
  have hfaithful : ∀ c, Faithful (x.under c) s := fun c =>
    ⟨hs.header, hs.records, hs.deep, hs.trailer⟩
  have hsound : ∀ c, Sound (x.under c) s ↔ Sound x s := fun c =>
    ⟨fun h => ⟨h.flush, h.floats⟩, fun h => ⟨h.flush, h.floats⟩⟩
  constructor
  · intro h
    have hsmooth : Smooth (x.under calm) a s :=
      ⟨⟨hroom.limits, hroom.key, hroom.allowed, hroom.header, hroom.stored, hroom.entry,
        hroom.quota⟩, fun _ => rfl, fun _ => Option.some_ne_none _, fun _ _ => rfl,
        hlaw.length_encrypt, fun frames bytes hframes => (hs.trailer frames bytes hframes).2⟩
    exact (hsound calm).mp ((hsmooth.roundTrips_iff hlaw (hfaithful calm) hnames hkey).mp (h calm))
  · exact fun h c => roundTrips_of_sound hlaw (hfaithful c) hnames hkey ((hsound c).mpr h)

end RoundTrip

/-! ## A store of one user -/

/-- A cipher that appends an empty tag. -/
def tagAead : Aead where
  encrypt _ _ _ plaintext := plaintext ++ List.replicate 16 0
  decrypt _ _ _ body := some (body.take (body.length - 16))

theorem tagAead_lawful : tagAead.Lawful where
  length_encrypt _ _ _ plaintext := by
    change (plaintext ++ List.replicate 16 0).length = _
    rw [List.length_append, List.length_replicate]
  decrypt_encrypt _ _ _ plaintext := by
    change some ((plaintext ++ List.replicate 16 0).take
      ((plaintext ++ List.replicate 16 0).length - 16)) = some plaintext
    rw [List.length_append, List.length_replicate, Nat.add_sub_cancel, List.take_left']
    rfl

def sampleKey : Bytes := List.replicate 32 7

/-- An attribute of a user, with its JSON text and the transcript digest of an export. -/
structure Sample where
  value : Json
  text : Bytes
  digest : Text

namespace Sample

/-- The stored user, as far as the attributes. -/
def record (v : Sample) : Text × Json :=
  ("users/u".toList, .obj [("attributes".toList, .obj [("x".toList, v.value)])])

def entry (v : Sample) : Bytes :=
  ascii "[\"users/u\",\x7b\"attributes\":\x7b\"x\":" ++ (v.text ++ ascii "\x7d\x7d]")

def records (v : Sample) (index : ℕ) : Bytes :=
  ((Batch.new index).push v.entry).body ++ ascii "]\x7d"

def trailer (v : Sample) (frames : ℕ) : Bytes :=
  ascii "\x7b\"kind\":\"trailer\",\"record_count\":1,\"frames\":" ++ (ascii (toString frames) ++
    (ascii ",\"transcript\":\"" ++ (v.digest.map (fun c => UInt8.ofNat c.toNat) ++
      ascii "\"\x7d")))

/-- `1e-30` is read as its neighbour below. -/
def reread (bits : ℕ) : ℕ := if bits = 4158027847206421152 then 4158027847206421151 else bits

/-- The texts of an export of that user. -/
def codec (v : Sample) : StreamCodec Unit where
  header _ := ascii ("\x7b\"kind\":\"header\",\"api_version\":\"riauth.backup/v3\"," ++
    "\"created_at\":0,\"config\":null\x7d")
  parseHeader _ := some ⟨"header".toList, BACKUP_V3, 0, ()⟩
  entry _ := v.entry
  parseRecords text :=
    let index := (text.getD 26 48).toNat - 48
    if text = v.records index ∧ v.record.2.depth ≤ MAX_VALUE_DEPTH then
      some ⟨"records".toList, index, [(v.record.1, v.record.2.mapFloats reread)]⟩
    else none
  trailer t := v.trailer t.frames
  parseTrailer text :=
    let frames := (text.getD 44 48).toNat - 48
    if text = v.trailer frames then some ⟨"trailer".toList, 1, frames, v.digest⟩ else none
  reread := reread
  digest _ := v.digest

/-- An export of that user; the flush at its end succeeds or fails. -/
def call (v : Sample) (flush : Bool) : Call Unit where
  limits := ⟨8192, 4096⟩
  key := .ok sampleKey
  management := .ok ()
  streamId := ⟨List.replicate 16 1, rfl⟩
  createdAt := 0
  config := ()
  records := OrdMap.ofList [v.record]
  size _ _ := v.entry.length
  cancelled _ := false
  nonce n := some (plainNonce n)
  sink := ⟨fun _ _ => none, flush⟩

end Sample

/-- Its text is short, and a digest has its 43 characters. -/
structure Sample.Short (v : Sample) : Prop where
  text : v.text.length ≤ 512
  digest : v.digest.length = 43

namespace Sample

variable {v : Sample} {flush : Bool}

theorem entries_call : (v.call flush).records.entries = [v.record] := rfl

theorem forall_entries {P : Text × Json → Prop} :
    (∀ r ∈ (v.call flush).records.entries, P r) ↔ P v.record := by
  rw [entries_call]
  exact List.forall_mem_singleton

theorem eq_of_part {group : List (Text × Json)} (h : group <:+: (v.call flush).records.entries)
    (hne : group ≠ []) : group = [v.record] := by
  rw [entries_call] at h
  exact (List.sublist_singleton.mp h.sublist).resolve_left hne

theorem digit_records {index : ℕ} (h : index ≤ 1) :
    ((v.records index).getD 26 48).toNat - 48 = index := by
  obtain rfl | rfl : index = 0 ∨ index = 1 := by omega
  · rfl
  · rfl

theorem digit_trailer {frames : ℕ} (h : frames ≤ 2) :
    ((v.trailer frames).getD 44 48).toNat - 48 = frames := by
  obtain rfl | rfl | rfl : frames = 0 ∨ frames = 1 ∨ frames = 2 := by omega
  · rfl
  · rfl
  · rfl

theorem length_entry (v : Sample) : v.entry.length = 30 + (v.text.length + 3) := by
  unfold entry
  rw [List.length_append, List.length_append]
  rfl

theorem length_trailer (h : v.Short) {frames : ℕ} (hframes : frames ≤ 2) :
    (v.trailer frames).length = 105 := by
  unfold trailer
  simp only [List.length_append, List.length_map, h.digest]
  obtain rfl | rfl | rfl : frames = 0 ∨ frames = 1 ∨ frames = 2 := by omega
  · rfl
  · rfl
  · rfl

theorem faithful (h : v.Short) : Faithful (v.call flush) v.codec where
  header := rfl
  records index group hindex hgroup hne hshallow := by
    rw [eq_of_part hgroup hne] at hshallow ⊢
    have hdepth := hshallow _ (List.mem_singleton.mpr rfl)
    change v.codec.parseRecords (v.records index) = _
    dsimp only [codec]
    rw [digit_records hindex, if_pos ⟨rfl, hdepth⟩]
    rfl
  deep index group _ hgroup hdeep := by
    obtain ⟨r, hr, hdepth⟩ := hdeep
    rw [eq_of_part hgroup (List.ne_nil_of_mem hr), List.mem_singleton] at hr
    subst hr
    exact if_neg fun hparsed => absurd hparsed.2 (not_le.mpr hdepth)
  trailer frames bytes hframes := by
    refine ⟨?_, (length_trailer h hframes).trans_le (by decide)⟩
    change v.codec.parseTrailer (v.trailer frames) = _
    dsimp only [codec]
    rw [digit_trailer hframes, if_pos rfl]
    rfl

theorem names : ∀ r ∈ (v.call flush).records.entries, ∃ p, splitRecordKey r.1 = .ok p :=
  forall_entries.mpr ⟨_, splitRecordKey_recordKey (b := "users".toList) (k := "u".toList)
    (by decide) (by decide) (by decide)⟩

theorem roomy (h : v.Short) : Roomy (v.call flush) v.codec := by
  have htext := h.text
  have hentry := length_entry v
  have hoverhead : RECORD_OVERHEAD = 128 := rfl
  have hheader : (headerText (v.call flush) v.codec).length = 79 := rfl
  have hcost : cost v.codec (v.call flush).records.entries = v.entry.length + RECORD_OVERHEAD := rfl
  have hlimits : StreamLimits.validate ⟨8192, 4096⟩ = .ok () := if_pos (by decide)
  refine ⟨hlimits, ⟨_, rfl⟩, rfl, ?_, forall_entries.mpr ?_, forall_entries.mpr ?_, ?_⟩
  · rw [hheader]
    change 79 ≤ 4096
    decide
  · change v.entry.length ≤ 4096
    omega
  · change v.entry.length + RECORD_OVERHEAD ≤ 4096
    omega
  · rw [hheader, hcost]
    change _ + (4096 + 45) ≤ 8192
    omega

theorem smooth (h : v.Short) : Smooth (v.call flush) tagAead v.codec :=
  ⟨roomy h, fun _ => rfl, fun _ => Option.some_ne_none _, fun _ _ => rfl,
    tagAead_lawful.length_encrypt, fun frames bytes hframes =>
      ((faithful h).trailer frames bytes hframes).2⟩

/-- What an export of the user comes to. -/
theorem roundTrips_iff (h : v.Short) :
    RoundTrips (v.call flush) tagAead v.codec sampleKey ↔ Sound (v.call flush) v.codec :=
  (smooth h).roundTrips_iff tagAead_lawful (faithful h) names rfl

/-- A list of lists, as deep as asked for. -/
def nested : ℕ → Json
  | 0 => .arr []
  | n + 1 => .arr [nested n]

theorem depth_nested (n : ℕ) : (nested n).depth = n + 1 := by
  induction n with
  | zero => rfl
  | succ n ih =>
    change max (nested n).depth 0 + 1 = _
    rw [ih, Nat.max_zero]

theorem depth_record (v : Sample) : v.record.2.depth = v.value.depth + 2 := by
  change max (max v.value.depth 0 + 1) 0 + 1 = _
  rw [Nat.max_zero, Nat.max_zero]

def one : Sample := ⟨.int 1, ascii "1", "eA0sJtKPqirp_nZjXbNW04EHvWiNUHFrQDG6f5mOn-c".toList⟩

def tiny : Sample :=
  ⟨.float 4158027847206421152, ascii "1e-30", "f4KJhojoB6NhxLes7--46dvqLrY5UIjBYg47yUIvzs8".toList⟩

def deep : Sample :=
  ⟨nested 122, List.replicate 123 91 ++ List.replicate 123 93,
    "M9sXQZkR3SnmgMobNs_cbH_Y6Wk6IgWX6IgQES8VcBc".toList⟩

theorem one_short : one.Short := ⟨by decide, rfl⟩

theorem tiny_short : tiny.Short := ⟨by decide, rfl⟩

theorem deep_short : deep.Short := by
  refine ⟨?_, rfl⟩
  unfold deep
  rw [List.length_append, List.length_replicate, List.length_replicate]
  decide

end Sample

/-- **Three ways an export breaks its promise**: its flush fails behind a complete archive, a float
is read back as another, and a value that was written is too deep to read. -/
theorem backupStreamAs_breaks :
    ¬ RoundTrips (Sample.one.call false) tagAead Sample.one.codec sampleKey ∧
    ¬ RoundTrips (Sample.tiny.call true) tagAead Sample.tiny.codec sampleKey ∧
    ¬ RoundTrips (Sample.deep.call true) tagAead Sample.deep.codec sampleKey := by
  rw [Sample.roundTrips_iff Sample.one_short, Sample.roundTrips_iff Sample.tiny_short,
    Sample.roundTrips_iff Sample.deep_short]
  refine ⟨fun h => ?_, fun h => ?_, fun h => ?_⟩
  · refine Bool.false_ne_true (h.flush.mpr (Sample.forall_entries.mpr ?_))
    rw [Sample.depth_record]
    decide
  · have hsame := Sample.forall_entries.mp (h.floats rfl)
    cases hsame
  · have hdepth := Sample.forall_entries.mp (h.flush.mp rfl)
    rw [Sample.depth_record, show Sample.deep.value = Sample.nested 122 from rfl,
      Sample.depth_nested] at hdepth
    exact absurd hdepth (by decide)

theorem backupStreamAs_roundTrips_one :
    (∃ r, backupStreamAs (Sample.one.call true) tagAead Sample.one.codec = .ok r) ∧
      ∀ c, RoundTrips ((Sample.one.call true).under c) tagAead Sample.one.codec sampleKey := by
  constructor
  · obtain ⟨r, hwrite, -⟩ := (@Sample.smooth Sample.one true Sample.one_short).finished
    refine ⟨r, ?_⟩
    unfold backupStreamAs
    rw [hwrite]
    rfl
  · refine (backupStreamAs_roundTrips_iff tagAead_lawful (Sample.faithful Sample.one_short)
      Sample.names rfl (Sample.roomy Sample.one_short)).mpr ⟨?_, fun _ => ?_⟩
    · refine iff_of_true rfl (Sample.forall_entries.mpr ?_)
      rw [Sample.depth_record]
      decide
    · exact Sample.forall_entries.mpr rfl

end RiAuth.Operations
