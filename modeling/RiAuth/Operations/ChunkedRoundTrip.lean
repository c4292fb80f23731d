import Mathlib.Algebra.Order.BigOperators.Group.List
import RiAuth.Lib.Lists
import RiAuth.Operations.Chunked
import RiAuth.Operations.StreamRoundTrip

/-!
# Writing and reading a chunked backup

The pages of a snapshot are fixed by the stored sizes of its records; `pages` lists them. A backup
succeeds when the text of each page's chunk keeps within its own bound.

* `backupPages_iff`: which chunks the loop writes, and when;
* `loadPages_ok`: the chunks are read back in order.
-/

namespace RiAuth.Operations

open Framing Store Checks

/-! ## Pages -/

/-- The next page of what is left. -/
def nextPage (size : Text → Json → ℕ) (rest : List (Text × Json)) : List (Text × Json) :=
  recordsWithin size MAX_BACKUP_PAGE_BYTES 0 (rest.take PAGE)

/-- The pages of what is left. -/
def pagesOf (size : Text → Json → ℕ) : ℕ → List (Text × Json) → List (List (Text × Json))
  | 0, _ => []
  | _ + 1, [] => []
  | rounds + 1, rest =>
    nextPage size rest :: pagesOf size rounds (rest.drop (nextPage size rest).length)

/-- The pages of the snapshot. -/
def pages {C : Type} (x : BackupCall C) : List (List (Text × Json)) :=
  pagesOf x.size x.records.entries.length x.records.entries

section Pages

variable {size : Text → Json → ℕ}

theorem nextPage_append (rest : List (Text × Json)) :
    nextPage size rest ++ rest.drop (nextPage size rest).length = rest := by
  obtain ⟨tail, htail⟩ := recordsWithin_initial size MAX_BACKUP_PAGE_BYTES 0 (rest.take PAGE)
  have hrest : rest = nextPage size rest ++ (tail ++ rest.drop PAGE) := by
    unfold nextPage
    rw [← List.append_assoc, ← htail, List.take_append_drop]
  have hdrop : rest.drop (nextPage size rest).length = tail ++ rest.drop PAGE := by
    conv_lhs => rw [hrest]
    exact List.drop_left' (by rw [← hrest])
  rw [hdrop, ← hrest]

theorem nextPage_ne_nil {rest : List (Text × Json)}
    (hfit : ∀ e ∈ rest, size e.1 e.2 ≤ MAX_BACKUP_PAGE_BYTES) (hne : rest ≠ []) :
    nextPage size rest ≠ [] :=
  recordsWithin_ne_nil (fun e he => hfit e (List.mem_of_head? he)) hne

/-- The pages hold what is left, in order. -/
theorem flatten_pagesOf {rounds : ℕ} {rest : List (Text × Json)}
    (hfit : ∀ e ∈ rest, size e.1 e.2 ≤ MAX_BACKUP_PAGE_BYTES) (hrounds : rest.length ≤ rounds) :
    (pagesOf size rounds rest).flatten = rest := by
  induction rounds generalizing rest with
  | zero =>
    rw [List.length_eq_zero_iff.mp (Nat.le_zero.mp hrounds)]
    rfl
  | succ rounds ih =>
    cases rest with
    | nil => rfl
    | cons e rest =>
      have happend := @nextPage_append size (e :: rest)
      have hpos := List.length_pos_iff.mpr (nextPage_ne_nil hfit (List.cons_ne_nil e rest))
      have hlength := congrArg List.length happend
      rw [List.length_append] at hlength
      rw [pagesOf, List.flatten_cons, ih, happend]
      · exact fun f hf => hfit f (List.mem_of_mem_drop hf)
      · omega
      · exact List.cons_ne_nil e rest

end Pages

/-! ## Writing -/

section Backup

variable {C : Type} {x : BackupCall C} {a : Aead} {s : ChunkCodec C} {key : Bytes}

/-- The chunks of these pages. -/
def chunksOf (x : BackupCall C) (a : Aead) (s : ChunkCodec C) (key : Bytes)
    (ps : List (List (Text × Json))) : Chunks :=
  let encoded := ps.zipIdx.map fun p => encodedChunk x a s key p.1 p.2
  ⟨encoded, encoded.map s.digest, ps.flatten.length,
    512 + (encoded.map fun chunk => chunk.length + 4).sum⟩

/-- The text of a page's chunk keeps within the bound. -/
def Fits (s : ChunkCodec C) (placed : List (Text × Json) × ℕ) : Prop :=
  (s.records (chunkOf placed.1 placed.2)).length ≤ MAX_BACKUP_PAGE_BYTES

theorem length_chunksOf (ps : List (List (Text × Json))) :
    (chunksOf x a s key ps).chunks.length = ps.length := by
  unfold chunksOf
  rw [List.length_map, List.length_zipIdx]

theorem chunksOf_append (ps : List (List (Text × Json))) (page : List (Text × Json)) :
    chunksOf x a s key (ps ++ [page]) =
      ⟨(chunksOf x a s key ps).chunks ++ [encodedChunk x a s key page ps.length],
        (chunksOf x a s key ps).digests ++ [s.digest (encodedChunk x a s key page ps.length)],
        (chunksOf x a s key ps).recordCount + page.length,
        (chunksOf x a s key ps).archiveBytes +
          ((encodedChunk x a s key page ps.length).length + 4)⟩ := by
  unfold chunksOf
  simp only [List.zipIdx_append, List.zipIdx_cons, List.zipIdx_nil, List.map_append, List.map_cons,
    List.map_nil, List.flatten_append, List.flatten_cons, List.flatten_nil, List.append_nil,
    List.length_append, List.sum_append, List.sum_cons, List.sum_nil, Nat.zero_add, Nat.add_zero,
    Nat.add_assoc]

theorem archiveBytes_le (ps qs : List (List (Text × Json))) :
    (chunksOf x a s key ps).archiveBytes ≤ (chunksOf x a s key (ps ++ qs)).archiveBytes := by
  unfold chunksOf
  dsimp only
  rw [List.zipIdx_append, List.map_append, List.map_append, List.sum_append]
  omega

theorem boundedBackupJson_ok {text plaintext : Bytes} {limit : ℕ} :
    boundedBackupJson text limit = .ok plaintext ↔ text.length ≤ limit ∧ plaintext = text := by
  unfold boundedBackupJson
  split
  · rename_i h
    exact ⟨fun h' => (nomatch h'), fun h' => absurd h (not_lt.mpr h'.1)⟩
  · rename_i h
    exact ⟨fun h' => ⟨not_lt.mp h, (Except.ok.inj h').symm⟩, fun h' => by rw [h'.2]⟩

/-- **One chunk.** -/
theorem addChunk_iff {ps : List (List (Text × Json))} {page : List (Text × Json)} {c : Chunks}
    (hquota : (chunksOf x a s key (ps ++ [page])).archiveBytes ≤ MAX_BACKUP_BYTES) :
    addChunk x a s key (chunksOf x a s key ps) page = .ok c ↔
      Fits s (page, ps.length) ∧ c = chunksOf x a s key (ps ++ [page]) := by
  rw [chunksOf_append] at hquota ⊢
  unfold addChunk Fits
  dsimp only
  rw [length_chunksOf, bind_ok]
  constructor
  · rintro ⟨plaintext, hbounded, h⟩
    refine ⟨(boundedBackupJson_ok.mp hbounded).1, ?_⟩
    rw [if_neg (not_lt.mpr hquota)] at h
    exact (Except.ok.inj h).symm
  · rintro ⟨hfits, rfl⟩
    refine ⟨_, boundedBackupJson_ok.mpr ⟨hfits, rfl⟩, ?_⟩
    rw [if_neg (not_lt.mpr hquota)]

/-- **The loop over the pages** writes the chunk of every page, as long as each fits. -/
theorem backupPages_iff {rounds n : ℕ} {ps : List (List (Text × Json))}
    {rest : List (Text × Json)} {c : Chunks}
    (hfit : ∀ e ∈ rest, x.size e.1 e.2 ≤ MAX_BACKUP_PAGE_BYTES)
    (hentries : x.records.entries = ps.flatten ++ rest) (hn : rest.length ≤ n)
    (hrounds : rest.length < rounds)
    (hquota : (chunksOf x a s key (ps ++ pagesOf x.size n rest)).archiveBytes ≤
      MAX_BACKUP_BYTES) :
    backupPages x a s key rounds (lastName ps.flatten) (chunksOf x a s key ps) = .ok c ↔
      (∀ p ∈ (pagesOf x.size n rest).zipIdx ps.length, Fits s p) ∧
        c = chunksOf x a s key (ps ++ pagesOf x.size n rest) := by
  induction rounds generalizing ps rest n with
  | zero => exact absurd hrounds (Nat.not_lt_zero _)
  | succ rounds ih =>
    have hpage : snapshotPage x.size x.records (lastName ps.flatten) PAGE MAX_BACKUP_PAGE_BYTES =
        .ok (nextPage x.size rest) :=
      snapshotPage_eq hentries (by decide) (by decide) fun e he => hfit e (List.mem_of_head? he)
    rw [backupPages, hpage]
    dsimp only [bind, Except.bind]
    by_cases hend : rest = []
    · subst hend
      have hnone : pagesOf x.size n [] = [] := by cases n <;> rfl
      rw [hnone, List.append_nil, List.zipIdx_nil]
      change (Except.ok _ = Except.ok c) ↔ _
      exact ⟨fun h => ⟨fun p hp => absurd hp List.not_mem_nil, (Except.ok.inj h).symm⟩,
        fun h => by rw [h.2]⟩
    · have hne := nextPage_ne_nil hfit hend
      have hpos := List.length_pos_iff.mpr hne
      have happend := @nextPage_append x.size rest
      have hlength := congrArg List.length happend
      rw [List.length_append] at hlength
      obtain ⟨m, rfl⟩ : ∃ m, n = m + 1 :=
        Nat.exists_eq_succ_of_ne_zero fun h => by
          have := List.length_pos_iff.mpr hend
          omega
      have hpages : pagesOf x.size (m + 1) rest =
          nextPage x.size rest :: pagesOf x.size m (rest.drop (nextPage x.size rest).length) := by
        cases rest with
        | nil => exact absurd rfl hend
        | cons e rest => rfl
      obtain ⟨next, hnext⟩ : ∃ next, lastName (nextPage x.size rest) = some next := by
        obtain ⟨e, he⟩ := List.getLast?_isSome.mpr hne |> Option.isSome_iff_exists.mp
        exact ⟨e.1, by rw [lastName, he]; rfl⟩
      have hentries' : x.records.entries = (ps ++ [nextPage x.size rest]).flatten ++
          rest.drop (nextPage x.size rest).length := by
        rw [hentries, List.flatten_append, List.flatten_cons, List.flatten_nil, List.append_nil,
          List.append_assoc, happend]
      have hmoves : ¬ ((lastName ps.flatten).any fun previous => decide (next ≤ previous)) = true :=
        lastName_lt (by rw [hentries, happend]) hnext
      rw [hpages, List.append_cons] at hquota
      rw [hnext]
      dsimp only
      rw [if_neg hmoves, hpages, List.append_cons, List.zipIdx_cons, List.forall_mem_cons]
      have hlast : lastName (ps ++ [nextPage x.size rest]).flatten = some next := by
        rw [List.flatten_append, List.flatten_cons, List.flatten_nil, List.append_nil,
          lastName_append hne, hnext]
      have hstep := fun c => @addChunk_iff C x a s key ps (nextPage x.size rest) c
        ((archiveBytes_le _ _).trans hquota)
      have hrest := @ih m (ps ++ [nextPage x.size rest])
        (rest.drop (nextPage x.size rest).length) (fun e he => hfit e (List.mem_of_mem_drop he))
        hentries' (by omega) (by omega) hquota
      rw [hlast, List.length_append, List.length_singleton] at hrest
      change (addChunk x a s key _ _ >>= fun c => backupPages x a s key rounds (some next) c) =
        Except.ok c ↔ _
      rw [bind_ok, and_assoc]
      constructor
      · rintro ⟨c', hadd, h⟩
        obtain ⟨hfits, rfl⟩ := (hstep c').mp hadd
        exact ⟨hfits, hrest.mp h⟩
      · rintro ⟨hfits, h⟩
        exact ⟨_, (hstep _).mpr ⟨hfits, rfl⟩, hrest.mpr h⟩

end Backup

/-! ## Reading -/

/-- The deepest value the parser takes inside a chunk: its 127 containers, less the chunk and the
map of the records. -/
def MAX_CHUNK_VALUE_DEPTH : ℕ := 125

/-- The value of a name, the last one listed. -/
def lastValue (name : Text) (records : List (Text × Json)) : Option Json :=
  records.foldl (fun found r => if r.1 = name then some r.2 else found) none

/-- What is read of these records. -/
def Loaded.of (records : List (Text × Json)) : Loaded :=
  ⟨lastValue "meta/schema".toList records, lastValue "meta/issuer".toList records,
    (records.map fun r => r.1.bytes).sum, records⟩

theorem lastValue_append (name : Text) (records : List (Text × Json)) (r : Text × Json) :
    lastValue name (records ++ [r]) = if r.1 = name then some r.2 else lastValue name records :=
  List.foldl_append

theorem lastValue_of_mem {name : Text} {value : Json} {records : List (Text × Json)}
    (hsorted : records.Pairwise (fun e f => e.1 < f.1)) (h : (name, value) ∈ records) :
    lastValue name records = some value := by
  induction records using List.reverseRecOn with
  | nil => exact absurd h List.not_mem_nil
  | append_singleton records r ih =>
    rw [lastValue_append]
    obtain ⟨hrecords, -, hlater⟩ := List.pairwise_append.mp hsorted
    rcases List.mem_append.mp h with h | h
    · have hne : r.1 ≠ name := (ne_of_lt (hlater _ h r List.mem_cons_self)).symm
      rw [if_neg hne, ih hrecords h]
    · rw [← List.mem_singleton.mp h, if_pos rfl]

theorem loadRecord_next {done : List (Text × Json)} {r : Text × Json}
    (hname : ∃ p, splitRecordKey r.1 = .ok p) (hnew : ∀ e ∈ done, e.1 < r.1)
    (hbytes : (Loaded.of (done ++ [r])).nameBytes ≤ MAX_BACKUP_BYTES) :
    loadRecord (Loaded.of done) r = .ok (Loaded.of (done ++ [r])) := by
  obtain ⟨p, hp⟩ := hname
  have hnotMem : r.1 ∉ (Loaded.of done).records.map Prod.fst := by
    intro hmem
    obtain ⟨e, he, heq⟩ := List.mem_map.mp hmem
    exact absurd (hnew e he) (heq ▸ lt_irrefl _)
  have hsum : (Loaded.of (done ++ [r])).nameBytes = (Loaded.of done).nameBytes + r.1.bytes := by
    unfold Loaded.of
    simp only [List.map_append, List.map_cons, List.map_nil, List.sum_append, List.sum_cons,
      List.sum_nil, Nat.add_zero]
  rw [hsum] at hbytes
  unfold loadRecord
  refine bind_ok.mpr ⟨p, hp, ?_⟩
  rw [if_neg hnotMem, if_neg (not_lt.mpr hbytes)]
  unfold Loaded.of at hsum ⊢
  rw [lastValue_append, lastValue_append, ← hsum]

theorem loadRecords_next {done page : List (Text × Json)}
    (hnames : ∀ r ∈ page, ∃ p, splitRecordKey r.1 = .ok p)
    (hsorted : (done ++ page).Pairwise (fun e f => e.1 < f.1))
    (hbytes : (Loaded.of (done ++ page)).nameBytes ≤ MAX_BACKUP_BYTES) :
    page.foldlM loadRecord (Loaded.of done) = .ok (Loaded.of (done ++ page)) := by
  induction page generalizing done with
  | nil =>
    rw [List.append_nil]
    rfl
  | cons r page ih =>
    obtain ⟨hr, hpage⟩ := List.forall_mem_cons.mp hnames
    have hnew : ∀ e ∈ done, e.1 < r.1 :=
      fun e he => (List.pairwise_append.mp hsorted).2.2 e he r List.mem_cons_self
    rw [List.append_cons] at hsorted hbytes ⊢
    rw [List.foldlM_cons]
    refine bind_ok.mpr ⟨_, loadRecord_next hr hnew ?_, ih hpage hsorted hbytes⟩
    refine le_trans ?_ hbytes
    unfold Loaded.of
    simp only [List.map_append, List.sum_append]
    omega

section Load

variable {C : Type} {x : BackupCall C} {a : Aead} {s : ChunkCodec C} {key : Bytes}

/-- A chunk as the document lists it. -/
def listedChunk (x : BackupCall C) (a : Aead) (s : ChunkCodec C) (key : Bytes)
    (placed : List (Text × Json) × ℕ) : (Json × Text) × ℕ :=
  ((.str (encodedChunk x a s key placed.1 placed.2),
    s.digest (encodedChunk x a s key placed.1 placed.2)), placed.2)

/-- A page as it is sealed. -/
def sealedChunk (x : BackupCall C) (a : Aead) (s : ChunkCodec C) (key : Bytes)
    (placed : List (Text × Json) × ℕ) : Bytes :=
  Crypto.sealBytes a key (x.nonce placed.2) (recordChunkAad placed.2)
    (s.records (chunkOf placed.1 placed.2))

/-- A listed chunk is decoded and opened; what is left is to parse it. -/
theorem loadChunk_listed (hlaw : a.Lawful) (l : Loaded) {placed : List (Text × Json) × ℕ}
    (hdecode : s.decode (s.encode (sealedChunk x a s key placed)) =
      some (sealedChunk x a s key placed)) :
    loadChunk a s key l (listedChunk x a s key placed) =
      match s.parseRecords (s.records (chunkOf placed.1 placed.2)) with
      | none => .error invalid
      | some chunk =>
        if chunk.kind ≠ "records".toList ∨ chunk.index ≠ placed.2 then .error invalid
        else chunk.records.entries.foldlM loadRecord l := by
  unfold loadChunk listedChunk
  dsimp only [Json.asStr]
  rw [if_neg (not_not_intro rfl), encodedChunk, ← sealedChunk, hdecode]
  dsimp only
  rw [sealedChunk, Crypto.unseal_sealed hlaw]
  rfl

/-- A chunk that was read was parsed. -/
theorem loadChunk_parsed (hlaw : a.Lawful) {l l' : Loaded} {placed : List (Text × Json) × ℕ}
    (hdecode : s.decode (s.encode (sealedChunk x a s key placed)) =
      some (sealedChunk x a s key placed))
    (h : loadChunk a s key l (listedChunk x a s key placed) = .ok l') :
    s.parseRecords (s.records (chunkOf placed.1 placed.2)) ≠ none := by
  intro hparse
  rw [loadChunk_listed hlaw l hdecode, hparse] at h
  cases h

/-- **The chunks of the pages** are read back in order. -/
theorem loadPages_ok (hlaw : a.Lawful) {ps : List (List (Text × Json))} {i : ℕ}
    {done : List (Text × Json)}
    (hdecode : ∀ p ∈ ps.zipIdx i, s.decode (s.encode (sealedChunk x a s key p)) =
      some (sealedChunk x a s key p))
    (hparse : ∀ p ∈ ps.zipIdx i,
      s.parseRecords (s.records (chunkOf p.1 p.2)) = some (chunkOf (p.1.map s.back) p.2))
    (hnames : ∀ r ∈ ps.flatten, ∃ p, splitRecordKey r.1 = .ok p)
    (hsorted : (done ++ ps.flatten.map s.back).Pairwise (fun e f => e.1 < f.1))
    (hbytes : (Loaded.of (done ++ ps.flatten.map s.back)).nameBytes ≤ MAX_BACKUP_BYTES) :
    ((ps.zipIdx i).map (listedChunk x a s key)).foldlM (loadChunk a s key) (Loaded.of done) =
      .ok (Loaded.of (done ++ ps.flatten.map s.back)) := by
  induction ps generalizing i done with
  | nil =>
    rw [List.flatten_nil, List.map_nil, List.append_nil]
    rfl
  | cons page ps ih =>
    rw [List.zipIdx_cons] at hparse hdecode
    obtain ⟨hpage, hps⟩ := List.forall_mem_cons.mp hparse
    obtain ⟨hdecodePage, hdecodeRest⟩ := List.forall_mem_cons.mp hdecode
    rw [List.flatten_cons] at hnames
    obtain ⟨hnamesPage, hnamesRest⟩ := List.forall_mem_append.mp hnames
    rw [List.flatten_cons, List.map_append, ← List.append_assoc] at hsorted hbytes ⊢
    have hsortedPage := (List.pairwise_append.mp hsorted).1
    have hentries : (OrdMap.ofList (page.map s.back)).entries = page.map s.back :=
      OrdMap.entries_ofList (List.pairwise_append.mp hsortedPage).2.1
    have hbytesPage : (Loaded.of (done ++ page.map s.back)).nameBytes ≤ MAX_BACKUP_BYTES := by
      refine le_trans ?_ hbytes
      unfold Loaded.of
      simp only [List.map_append, List.sum_append]
      omega
    have hnamesBack : ∀ r ∈ page.map s.back, ∃ p, splitRecordKey r.1 = .ok p := by
      intro r hr
      obtain ⟨e, he, rfl⟩ := List.mem_map.mp hr
      exact hnamesPage e he
    have hload : loadChunk a s key (Loaded.of done) (listedChunk x a s key (page, i)) =
        .ok (Loaded.of (done ++ page.map s.back)) := by
      rw [loadChunk_listed hlaw _ hdecodePage, hpage]
      dsimp only
      rw [if_neg (by simp [chunkOf])]
      change (OrdMap.ofList (page.map s.back)).entries.foldlM loadRecord _ = _
      rw [hentries]
      exact loadRecords_next hnamesBack hsortedPage hbytesPage
    rw [List.zipIdx_cons, List.map_cons, List.foldlM_cons]
    exact bind_ok.mpr ⟨_, hload, ih hdecodeRest hps hnamesRest hsorted hbytes⟩

/-! ## The whole document -/

/-- The document of a backup. -/
def document (x : BackupCall C) (a : Aead) (s : ChunkCodec C) (key : Bytes) : Json :=
  let c := chunksOf x a s key (pages x)
  .obj [("api_version".toList, .str BACKUP_V2),
    ("chunks".toList, .arr ((c.chunks ++ [encodedManifest x a s key c]).map .str)),
    ("created_at".toList, .int x.createdAt), ("encrypted".toList, .bool true)]

/-- The size a backup is measured by. -/
def archiveSize (x : BackupCall C) (a : Aead) (s : ChunkCodec C) (key : Bytes) : ℕ :=
  let c := chunksOf x a s key (pages x)
  512 + ((c.chunks ++ [encodedManifest x a s key c]).map fun chunk => chunk.length + 4).sum

/-- The text of the manifest keeps within the bound of a chunk. -/
def ManifestFits (x : BackupCall C) (a : Aead) (s : ChunkCodec C) (key : Bytes) : Prop :=
  (s.manifest (manifestOf x (chunksOf x a s key (pages x)))).length ≤ MAX_BACKUP_PAGE_BYTES

/-- **When a backup succeeds.** -/
theorem backup_iff (hkey : x.key = .ok key) (hmanagement : x.management = .ok ())
    (hfit : ∀ e ∈ x.records.entries, x.size e.1 e.2 ≤ MAX_BACKUP_PAGE_BYTES)
    (hquota : archiveSize x a s key ≤ MAX_BACKUP_BYTES) {envelope : Json} :
    backup x a s = .ok envelope ↔
      (∀ p ∈ (pages x).zipIdx, Fits s p) ∧ ManifestFits x a s key ∧
        envelope = document x a s key := by
  have hchunks : (chunksOf x a s key (pages x)).archiveBytes ≤ MAX_BACKUP_BYTES := by
    refine le_trans ?_ hquota
    unfold archiveSize
    dsimp only
    rw [List.map_append, List.sum_append]
    exact Nat.add_le_add_left (Nat.le_add_right _ _) 512
  have hloop : ∀ c, backupPages x a s key (x.records.entries.length + 1) none ⟨[], [], 0, 512⟩ =
      .ok c ↔ (∀ p ∈ (pages x).zipIdx, Fits s p) ∧ c = chunksOf x a s key (pages x) := fun c =>
    @backupPages_iff C x a s key (x.records.entries.length + 1) x.records.entries.length []
      x.records.entries c hfit rfl (Nat.le_refl _) (Nat.lt_succ_self _) hchunks
  have hnot : ¬ MAX_BACKUP_BYTES < 512 + (((chunksOf x a s key (pages x)).chunks ++
      [encodedManifest x a s key (chunksOf x a s key (pages x))]).map
        fun chunk => chunk.length + 4).sum := not_lt.mpr hquota
  unfold backup
  rw [hkey, hmanagement]
  change (backupPages x a s key _ none ⟨[], [], 0, 512⟩ >>= _) = _ ↔ _
  rw [bind_ok]
  constructor
  · rintro ⟨c, hpages, h⟩
    obtain ⟨hfits, rfl⟩ := (hloop c).mp hpages
    obtain ⟨text, hbounded, h⟩ := bind_ok.mp h
    dsimp only at h
    rw [if_neg hnot] at h
    exact ⟨hfits, (boundedBackupJson_ok.mp hbounded).1, (Except.ok.inj h).symm⟩
  · rintro ⟨hfits, hmanifest, rfl⟩
    refine ⟨_, (hloop _).mpr ⟨hfits, rfl⟩, ?_⟩
    exact bind_ok.mpr ⟨_, boundedBackupJson_ok.mpr ⟨hmanifest, rfl⟩, if_neg hnot⟩

/-- The manifest as it is sealed. -/
def sealedManifest (x : BackupCall C) (a : Aead) (s : ChunkCodec C) (key : Bytes) : Bytes :=
  let c := chunksOf x a s key (pages x)
  Crypto.sealBytes a key (x.nonce c.chunks.length) MANIFEST_AAD (s.manifest (manifestOf x c))

/-- What is relied on of the texts of a backup: each chunk is read back, up to the depth the parser
goes to and to what becomes of a float, and holds its names; the manifest is read back; base64url is
decoded and no shorter than what it encodes; and a stored record is no longer than a chunk that
holds it alone. -/
structure ChunkLaws (x : BackupCall C) (a : Aead) (s : ChunkCodec C) (key : Bytes) : Prop where
  records : ∀ p ∈ (pages x).zipIdx, (∀ r ∈ p.1, r.2.depth ≤ MAX_CHUNK_VALUE_DEPTH) →
    s.parseRecords (s.records (chunkOf p.1 p.2)) = some (chunkOf (p.1.map s.back) p.2)
  deep : ∀ p ∈ (pages x).zipIdx, (∃ r ∈ p.1, MAX_CHUNK_VALUE_DEPTH < r.2.depth) →
    s.parseRecords (s.records (chunkOf p.1 p.2)) = none
  names : ∀ p ∈ (pages x).zipIdx,
    (p.1.map fun r => r.1.bytes).sum ≤ (s.records (chunkOf p.1 p.2)).length
  manifest : s.parseManifest (s.manifest (manifestOf x (chunksOf x a s key (pages x)))) =
    some (manifestOf x (chunksOf x a s key (pages x)))
  decode : ∀ p ∈ (pages x).zipIdx,
    s.decode (s.encode (sealedChunk x a s key p)) = some (sealedChunk x a s key p)
  decodeManifest :
    s.decode (s.encode (sealedManifest x a s key)) = some (sealedManifest x a s key)
  length_encode : ∀ b, b.length ≤ (s.encode b).length
  stored : ∀ r ∈ x.records.entries, x.size r.1 r.2 ≤ (s.records (chunkOf [r] 0)).length

/-- A store as the service keeps it: names of a bucket and a key, a supported schema, and the issuer
of its configuration. -/
structure Ordinary (x : BackupCall C) (s : ChunkCodec C) : Prop where
  names : ∀ r ∈ x.records.entries, ∃ p, splitRecordKey r.1 = .ok p
  schema : schemaSupported (x.records.get? "meta/schema".toList) = true
  issuer : x.records.get? "meta/issuer".toList = some (.str (s.issuer x.config))

/-- The names of all pages are within the bound of the archive. -/
theorem nameBytes_le (hlaw : a.Lawful) (hlength : ∀ b, b.length ≤ (s.encode b).length)
    {ps : List (List (Text × Json))} {i : ℕ}
    (hnames : ∀ p ∈ ps.zipIdx i,
      (p.1.map fun r => r.1.bytes).sum ≤ (s.records (chunkOf p.1 p.2)).length) :
    (ps.flatten.map fun r => r.1.bytes).sum ≤
      ((ps.zipIdx i).map fun p => (encodedChunk x a s key p.1 p.2).length).sum := by
  induction ps generalizing i with
  | nil => exact Nat.le_refl _
  | cons page ps ih =>
    rw [List.zipIdx_cons] at hnames ⊢
    obtain ⟨hpage, hps⟩ := List.forall_mem_cons.mp hnames
    have hencoded := hlength (Crypto.sealBytes a key (x.nonce i) (recordChunkAad i)
      (s.records (chunkOf page i)))
    rw [Crypto.length_sealed (hlaw.length_encrypt _ _ _ _)] at hencoded
    rw [List.flatten_cons, List.map_append, List.sum_append, List.map_cons, List.sum_cons]
    refine Nat.add_le_add (hpage.trans ?_) (ih hps)
    unfold encodedChunk
    dsimp only
    omega

/-- The manifest is decoded, opened and parsed. -/
theorem loadManifest_encoded (hlaw : a.Lawful) {nonce : Fixed 12} {text : Bytes}
    {manifest : ManifestChunk C}
    (hdecode : s.decode (s.encode (Crypto.sealBytes a key nonce MANIFEST_AAD text)) =
      some (Crypto.sealBytes a key nonce MANIFEST_AAD text))
    (hparse : s.parseManifest text = some manifest) (hkind : manifest.kind = "manifest".toList)
    (hversion : manifest.apiVersion = BACKUP_V2) :
    loadManifest a s key (.str (s.encode (Crypto.sealBytes a key nonce MANIFEST_AAD text))) =
      .ok manifest := by
  unfold loadManifest
  dsimp only [Json.asStr]
  rw [hdecode]
  dsimp only
  rw [Crypto.unseal_sealed hlaw]
  dsimp only [bind, Except.bind]
  rw [hparse]
  dsimp only
  split
  · rename_i hbad
    rcases hbad with hbad | hbad
    · exact absurd hkind hbad
    · exact absurd hversion hbad
  · rfl

theorem listed_chunksOf (ps : List (List (Text × Json))) :
    (((chunksOf x a s key ps).chunks.map Json.str).zip (chunksOf x a s key ps).digests).zipIdx =
      ps.zipIdx.map (listedChunk x a s key) := by
  unfold chunksOf
  dsimp only
  rw [List.map_map, List.map_map, List.zip_map', List.zipIdx_map, List.zipIdx_zipIdx, List.map_map]
  rfl

/-- Reading a document: its manifest opens, and what is left is to read the chunks. -/
theorem loadChunked_document (hlaw : a.Lawful) (hs : ChunkLaws x a s key)
    (hcreated : x.createdAt ≤ u64Max) :
    loadChunked a s key (document x a s key) = (do
      let l ← ((pages x).zipIdx.map (listedChunk x a s key)).foldlM (loadChunk a s key)
        (Loaded.of [])
      if l.records.length ≠ (pages x).flatten.length ∨ ¬ schemaSupported l.schema then
        .error (.bad "Unsupported backup schema")
      else if l.issuer ≠ some (.str (s.issuer x.config)) then
        .error (.bad "Backup issuer mismatch")
      else .ok ⟨x.config, x.createdAt, (pages x).flatten.length, l.records⟩) := by
  have hfield : (document x a s key).field "chunks".toList =
      .arr (((chunksOf x a s key (pages x)).chunks ++
        [encodedManifest x a s key (chunksOf x a s key (pages x))]).map .str) := by
    unfold document
    rw [Json.field_cons_ne (by decide), Json.field_cons_self]
  have htime : ((document x a s key).field "created_at".toList).asU64 = some x.createdAt := by
    unfold document
    rw [Json.field_cons_ne (by decide), Json.field_cons_ne (by decide), Json.field_cons_self,
      Json.asU64_natCast hcreated]
  have hmanifest : loadManifest a s key
      (.str (encodedManifest x a s key (chunksOf x a s key (pages x)))) =
      .ok (manifestOf x (chunksOf x a s key (pages x))) :=
    loadManifest_encoded hlaw hs.decodeManifest hs.manifest rfl rfl
  have hlength : (chunksOf x a s key (pages x)).digests.length =
      ((chunksOf x a s key (pages x)).chunks.map Json.str).length := by
    unfold chunksOf
    simp only [List.length_map]
  unfold loadChunked
  rw [hfield, htime]
  dsimp only
  rw [List.map_append, List.map_cons, List.map_nil, List.getLast?_concat, List.dropLast_concat]
  dsimp only
  rw [hmanifest]
  dsimp only [bind, Except.bind]
  rw [if_neg]
  · rw [show (manifestOf x (chunksOf x a s key (pages x))).digests =
      (chunksOf x a s key (pages x)).digests from rfl, listed_chunksOf]
    rfl
  · rintro (hbad | hbad)
    · exact hbad rfl
    · exact hbad hlength

/-- A backup succeeds, and reading its document yields the records of the store, in order. -/
def ChunkedRoundTrips (x : BackupCall C) (a : Aead) (s : ChunkCodec C) (key : Bytes) : Prop :=
  ∃ envelope loaded, backup x a s = .ok envelope ∧ loadChunked a s key envelope = .ok loaded ∧
    loaded.records = x.records.entries

/-- The chunks of a store whose values the parser takes are read back, with the floats it makes. -/
theorem loadPages_document (hlaw : a.Lawful) (hs : ChunkLaws x a s key)
    (hnames : ∀ r ∈ x.records.entries, ∃ p, splitRecordKey r.1 = .ok p)
    (hflatten : (pages x).flatten = x.records.entries)
    (hwhole : archiveSize x a s key ≤ MAX_BACKUP_BYTES)
    (hshallow : ∀ r ∈ x.records.entries, r.2.depth ≤ MAX_CHUNK_VALUE_DEPTH) :
    ((pages x).zipIdx.map (listedChunk x a s key)).foldlM (loadChunk a s key) (Loaded.of []) =
      .ok (Loaded.of (x.records.entries.map s.back)) := by
  have hback : ∀ records : List (Text × Json),
      (records.map s.back).map (fun r => r.1.bytes) = records.map fun r => r.1.bytes := fun records =>
    List.map_map
  have hbytes : (Loaded.of ([] ++ (pages x).flatten.map s.back)).nameBytes ≤ MAX_BACKUP_BYTES := by
    have hpages := @nameBytes_le C x a s key hlaw hs.length_encode (pages x) 0 hs.names
    rw [List.nil_append]
    unfold Loaded.of
    dsimp only
    rw [hback]
    refine hpages.trans (le_trans ?_ hwhole)
    unfold archiveSize chunksOf
    dsimp only
    rw [List.map_append, List.sum_append, List.map_map]
    have hsum : ((pages x).zipIdx.map fun p => (encodedChunk x a s key p.1 p.2).length).sum ≤
        ((pages x).zipIdx.map ((fun chunk => chunk.length + 4) ∘
          fun p => encodedChunk x a s key p.1 p.2)).sum :=
      List.sum_le_sum fun p _ => Nat.le_add_right _ 4
    omega
  have hparse : ∀ p ∈ (pages x).zipIdx,
      s.parseRecords (s.records (chunkOf p.1 p.2)) = some (chunkOf (p.1.map s.back) p.2) := by
    intro p hp
    refine hs.records p hp fun r hr => hshallow r ?_
    rw [← hflatten]
    exact List.mem_flatten_of_mem (List.fst_mem_of_mem_zipIdx hp) hr
  have hsorted : ([] ++ (pages x).flatten.map s.back).Pairwise
      (fun e f : Text × Json => e.1 < f.1) := by
    rw [List.nil_append, hflatten, List.pairwise_map]
    exact x.records.sorted
  have hchunks := @loadPages_ok C x a s key hlaw (pages x) 0 [] hs.decode hparse
    (by rw [hflatten]; exact hnames) hsorted hbytes
  rw [List.nil_append, hflatten] at hchunks
  exact hchunks

/-- **When a chunked backup succeeds and is read back**: the text of every page, and of the
manifest, keeps within the bound of a chunk, no value is nested deeper than the parser goes, and
every float is read as it is. That each record fits a chunk alone does not give the first. -/
theorem backup_roundTrips_iff (hlaw : a.Lawful) (hs : ChunkLaws x a s key)
    (hkey : x.key = .ok key) (hmanagement : x.management = .ok ()) (hordinary : Ordinary x s)
    (hcreated : x.createdAt ≤ u64Max)
    (halone : ∀ r ∈ x.records.entries,
      (s.records (chunkOf [r] 0)).length ≤ MAX_BACKUP_PAGE_BYTES)
    (hwhole : archiveSize x a s key ≤ MAX_BACKUP_BYTES) :
    ChunkedRoundTrips x a s key ↔ (∀ p ∈ (pages x).zipIdx, Fits s p) ∧ ManifestFits x a s key ∧
      ∀ r ∈ x.records.entries,
        r.2.depth ≤ MAX_CHUNK_VALUE_DEPTH ∧ r.2.mapFloats s.reread = r.2 := by
  have hfit : ∀ e ∈ x.records.entries, x.size e.1 e.2 ≤ MAX_BACKUP_PAGE_BYTES :=
    fun e he => (hs.stored e he).trans (halone e he)
  have hflatten : (pages x).flatten = x.records.entries := flatten_pagesOf hfit (Nat.le_refl _)
  have hload := loadChunked_document hlaw hs hcreated
  have hpages := loadPages_document hlaw hs hordinary.names hflatten hwhole
  constructor
  · rintro ⟨envelope, loaded, hbackup, hread, hrecords⟩
    obtain ⟨hfits, hmanifest, rfl⟩ := (backup_iff hkey hmanagement hfit hwhole).mp hbackup
    rw [hload] at hread
    obtain ⟨l, hchunks, hread⟩ := bind_ok.mp hread
    have hshallow : ∀ r ∈ x.records.entries, r.2.depth ≤ MAX_CHUNK_VALUE_DEPTH := by
      intro r hr
      by_contra hdeep
      rw [← hflatten] at hr
      obtain ⟨page, hpage, hr⟩ := List.mem_flatten.mp hr
      obtain ⟨i, hi⟩ := List.mem_iff_getElem?.mp hpage
      have hplaced : (page, i) ∈ (pages x).zipIdx := List.mem_zipIdx_iff_getElem?.mpr hi
      obtain ⟨l', l'', hchunk⟩ := foldlM_ok hchunks _ (List.mem_map_of_mem hplaced)
      exact loadChunk_parsed hlaw (hs.decode _ hplaced) hchunk
        (hs.deep _ hplaced ⟨r, hr, not_le.mp hdeep⟩)
    rw [hpages hshallow] at hchunks
    cases hchunks
    have hback : x.records.entries.map s.back = x.records.entries := by
      split at hread
      · cases hread
      · split at hread
        · cases hread
        · cases hread
          exact hrecords
    exact ⟨hfits, hmanifest, fun r hr => ⟨hshallow r hr, Json.map_mapFloats_iff.mp hback r hr⟩⟩
  · rintro ⟨hfits, hmanifest, hvalues⟩
    have hback : x.records.entries.map s.back = x.records.entries :=
      Json.map_mapFloats_iff.mpr fun r hr => (hvalues r hr).2
    have hchunks := hpages fun r hr => (hvalues r hr).1
    rw [hback] at hchunks
    refine ⟨_, ⟨x.config, x.createdAt, x.records.entries.length, x.records.entries⟩,
      (backup_iff hkey hmanagement hfit hwhole).mpr ⟨hfits, hmanifest, rfl⟩, ?_, rfl⟩
    have hschema : (Loaded.of x.records.entries).schema =
        x.records.get? "meta/schema".toList := by
      have hsupported := hordinary.schema
      cases hget : x.records.get? "meta/schema".toList with
      | none =>
        rw [hget] at hsupported
        cases hsupported
      | some value => exact lastValue_of_mem x.records.sorted (OrdMap.mem_entries_iff.mpr hget)
    have hissuer : (Loaded.of x.records.entries).issuer = some (.str (s.issuer x.config)) :=
      lastValue_of_mem x.records.sorted (OrdMap.mem_entries_iff.mpr hordinary.issuer)
    rw [hload]
    refine bind_ok.mpr ⟨_, hchunks, ?_⟩
    rw [hflatten, if_neg, if_neg (not_not_intro hissuer)]
    · rfl
    · rintro (hbad | hbad)
      · exact hbad rfl
      · rw [hschema] at hbad
        exact hbad hordinary.schema

/-- The size of a backup of one page. -/
theorem archiveSize_one {page : List (Text × Json)} (h : pages x = [page]) :
    archiveSize x a s key = 512 + ((s.encode (sealedChunk x a s key (page, 0))).length + 4 +
      ((s.encode (sealedManifest x a s key)).length + 4)) := by
  unfold archiveSize sealedManifest
  rw [h]
  rfl

/-- The size of a backup of two pages. -/
theorem archiveSize_two {p q : List (Text × Json)} (h : pages x = [p, q]) :
    archiveSize x a s key = 512 + ((encodedChunk x a s key p 0).length + 4 +
      ((encodedChunk x a s key q 1).length + 4 +
        ((encodedManifest x a s key (chunksOf x a s key [p, q])).length + 4))) := by
  unfold archiveSize
  rw [h]
  rfl

end Load

/-! ## Two stores -/

/-- The texts of strings and numbers. -/
def plainText : Json → Bytes
  | .str t => ascii "\"" ++ (t.map fun c => UInt8.ofNat c.toNat) ++ ascii "\""
  | .int n => ascii (toString n)
  | _ => []

/-- A record as a member of its object. -/
def plainEntry (r : Text × Json) : Bytes := plainText (.str r.1) ++ ascii ":" ++ plainText r.2

/-- The text of a chunk. -/
def plainChunk (c : RecordsChunk) : Bytes :=
  ascii "\x7b\"kind\":\"records\",\"index\":" ++ ascii (toString c.index) ++
    ascii ",\"records\":\x7b" ++ (ascii ",").intercalate (c.records.entries.map plainEntry) ++
    ascii "\x7d\x7d"

/-- The digit of six bits. -/
def base64Digit (n : ℕ) : Char :=
  "ABCDEFGHIJKLMNOPQRSTUVWXYZabcdefghijklmnopqrstuvwxyz0123456789-_".toList.getD n 'A'

/-- base64url without padding. -/
def base64Url : Bytes → Text
  | [] => []
  | [a] => [base64Digit (a.toNat / 4), base64Digit (a.toNat % 4 * 16)]
  | [a, b] => [base64Digit (a.toNat / 4), base64Digit (a.toNat % 4 * 16 + b.toNat / 16),
      base64Digit (b.toNat % 16 * 4)]
  | a :: b :: c :: rest => base64Digit (a.toNat / 4) ::
      base64Digit (a.toNat % 4 * 16 + b.toNat / 16) ::
      base64Digit (b.toNat % 16 * 4 + c.toNat / 64) :: base64Digit (c.toNat % 64) :: base64Url rest

theorem length_base64Url (b : Bytes) : (base64Url b).length = (4 * b.length + 2) / 3 := by
  fun_induction base64Url b with
  | case1 => rfl
  | case2 => simp only [List.length_cons, List.length_nil]
  | case3 => simp only [List.length_cons, List.length_nil]
  | case4 a b c rest ih =>
    simp only [List.length_cons, ih]
    omega

/-- The issuer and the schema of a store. -/
def metaRecords : List (Text × Json) :=
  [("meta/issuer".toList, .str "i".toList), ("meta/schema".toList, .int 3)]

/-- The digest of the chunk of that store. -/
def metaDigest : Text := "CVIWtoERMEhWVrdyL9NQTA6x857vO2FMmUWQd8r7cfg".toList

/-- The text of a manifest; of the configuration only the issuer matters. -/
def plainManifest (m : ManifestChunk Text) : Bytes :=
  ascii "\x7b\"kind\":\"manifest\",\"api_version\":\"riauth.backup/v2\",\"created_at\":" ++
    ascii (toString m.createdAt) ++ ascii ",\"config\":\x7b\"issuer\":" ++ plainText (.str m.config) ++
    ascii "\x7d,\"record_count\":" ++ ascii (toString m.recordCount) ++ ascii ",\"digests\":[" ++
    (ascii ",").intercalate (m.digests.map fun d => plainText (.str d)) ++ ascii "]\x7d"

def metaManifest : ManifestChunk Text := ⟨"manifest".toList, BACKUP_V2, 0, "i".toList, 2, [metaDigest]⟩

def metaPage : Bytes := plainChunk (chunkOf metaRecords 0)

/-- What a backup of that store seals. -/
def metaSealed : Bytes :=
  Crypto.sealBytes tagAead sampleKey (plainNonce 0) (recordChunkAad 0) metaPage

def metaSealedManifest : Bytes :=
  Crypto.sealBytes tagAead sampleKey (plainNonce 1) MANIFEST_AAD (plainManifest metaManifest)

/-- Texts of a store that holds those two records. -/
def metaCodec : ChunkCodec Text where
  records := plainChunk
  parseRecords text := if text = metaPage then some (chunkOf metaRecords 0) else none
  manifest := plainManifest
  parseManifest text := if text = plainManifest metaManifest then some metaManifest else none
  encode := base64Url
  decode text :=
    if text = base64Url metaSealed then some metaSealed
    else if text = base64Url metaSealedManifest then some metaSealedManifest else none
  digest _ := metaDigest
  reread := id
  issuer issuer := issuer

/-- A backup of a store of these records. -/
def plainBackup (records : List (Text × Json)) (size : Text → Json → ℕ) : BackupCall Text where
  key := .ok sampleKey
  management := .ok ()
  createdAt := 0
  config := "i".toList
  records := OrdMap.ofList records
  size := size
  nonce := plainNonce

def metaBackup : BackupCall Text := plainBackup metaRecords fun _ _ => 20

theorem metaBackup_pages : pages metaBackup = [metaRecords] := rfl

theorem metaBackup_page {P : List (Text × Json) × ℕ → Prop} (h : P (metaRecords, 0)) :
    ∀ p ∈ (pages metaBackup).zipIdx, P p := by
  rw [metaBackup_pages]
  exact List.forall_mem_singleton.mpr h

theorem metaBackup_records {P : Text × Json → Prop} :
    (∀ r ∈ metaBackup.records.entries, P r) ↔
      P ("meta/issuer".toList, .str "i".toList) ∧ P ("meta/schema".toList, .int 3) := by
  have hentries : metaBackup.records.entries = metaRecords := rfl
  rw [hentries]
  unfold metaRecords
  rw [List.forall_mem_cons, List.forall_mem_singleton]

theorem manifestOf_meta :
    manifestOf metaBackup (chunksOf metaBackup tagAead metaCodec sampleKey (pages metaBackup)) =
      metaManifest := rfl

theorem length_metaPage : metaPage.length = 74 := by decide

set_option maxRecDepth 2000 in
theorem length_metaManifest : (plainManifest metaManifest).length = 166 := by decide

theorem sealedManifest_meta :
    sealedManifest metaBackup tagAead metaCodec sampleKey = metaSealedManifest := by
  unfold sealedManifest
  dsimp only
  rw [manifestOf_meta]
  rfl

theorem length_metaSealed : (base64Url metaSealed).length = 152 := by
  rw [length_base64Url, metaSealed, Crypto.length_sealed (tagAead_lawful.length_encrypt _ _ _ _),
    length_metaPage]

theorem length_metaSealedManifest : (base64Url metaSealedManifest).length = 275 := by
  rw [length_base64Url, metaSealedManifest,
    Crypto.length_sealed (tagAead_lawful.length_encrypt _ _ _ _), length_metaManifest]

theorem decode_metaSealed : metaCodec.decode (base64Url metaSealed) = some metaSealed := by
  simp only [metaCodec, if_true]

theorem decode_metaSealedManifest :
    metaCodec.decode (base64Url metaSealedManifest) = some metaSealedManifest := by
  have hne : base64Url metaSealedManifest ≠ base64Url metaSealed := by
    intro h
    have hlength := congrArg List.length h
    rw [length_metaSealed, length_metaSealedManifest] at hlength
    omega
  simp only [metaCodec, if_neg hne, if_true]

theorem metaBackup_size : archiveSize metaBackup tagAead metaCodec sampleKey ≤ MAX_BACKUP_BYTES := by
  have hsealed : sealedChunk metaBackup tagAead metaCodec sampleKey (metaRecords, 0) = metaSealed :=
    rfl
  rw [archiveSize_one metaBackup_pages, sealedManifest_meta, hsealed,
    show metaCodec.encode = base64Url from rfl, length_metaSealed, length_metaSealedManifest]
  decide

theorem metaCodec_laws : ChunkLaws metaBackup tagAead metaCodec sampleKey where
  records := by
    refine metaBackup_page fun _ => ?_
    change (if metaPage = metaPage then some (chunkOf metaRecords 0) else none) =
      some (chunkOf metaRecords 0)
    exact if_pos rfl
  deep := metaBackup_page fun hdeep => absurd hdeep (by decide)
  names := metaBackup_page (by decide)
  manifest := by
    rw [manifestOf_meta]
    simp only [metaCodec, if_true]
  decode := metaBackup_page decode_metaSealed
  decodeManifest := by
    rw [sealedManifest_meta]
    exact decode_metaSealedManifest
  length_encode b := by
    change b.length ≤ (base64Url b).length
    rw [length_base64Url]
    omega
  stored := metaBackup_records.mpr ⟨by decide, by decide⟩

theorem metaBackup_ordinary : Ordinary metaBackup metaCodec where
  names := metaBackup_records.mpr
    ⟨⟨_, splitRecordKey_recordKey (b := "meta".toList) (k := "issuer".toList) (by decide) (by decide)
        (by decide)⟩,
      ⟨_, splitRecordKey_recordKey (b := "meta".toList) (k := "schema".toList) (by decide) (by decide)
        (by decide)⟩⟩
  schema := by decide
  issuer := rfl

theorem backup_roundTrips_meta : ChunkedRoundTrips metaBackup tagAead metaCodec sampleKey := by
  refine (backup_roundTrips_iff tagAead_lawful metaCodec_laws rfl rfl metaBackup_ordinary
    (by decide) (metaBackup_records.mpr ⟨by decide, by decide⟩) metaBackup_size).mpr ⟨?_, ?_, ?_⟩
  · exact metaBackup_page (by unfold Fits; decide)
  · unfold ManifestFits
    rw [manifestOf_meta]
    change (plainManifest metaManifest).length ≤ _
    rw [length_metaManifest]
    decide
  · exact metaBackup_records.mpr ⟨⟨by decide, rfl⟩, ⟨by decide, rfl⟩⟩

/-- A value whose text takes 4 MiB less three bytes. -/
def largeValue : Json := .str (List.replicate 4194299 'x')

def largePage : List (Text × Json) := [("a/a".toList, largeValue), ("a/b".toList, largeValue)]

/-- Two records of 4 MiB each, name and value, in front of the issuer and the schema. -/
def largeBackup : BackupCall Text :=
  plainBackup (largePage ++ metaRecords) fun name _ => if root name = "a".toList then 4194304 else 20

theorem largeBackup_entries : largeBackup.records.entries = largePage ++ metaRecords := by
  refine OrdMap.entries_ofList ?_
  have hnames : ((largePage ++ metaRecords).map Prod.fst).Pairwise (· < ·) := by decide
  exact List.pairwise_map.mp hnames

theorem largeBackup_pages : pages largeBackup = [largePage, metaRecords] := by
  unfold pages
  rw [largeBackup_entries]
  rfl

theorem length_plainEntry (name : Text) :
    (plainEntry (name, largeValue)).length = name.length + 4194304 := by
  have hquote : (ascii "\"").length = 1 := by decide
  have hcolon : (ascii ":").length = 1 := by decide
  unfold plainEntry largeValue plainText
  simp only [List.length_append, List.length_map, List.length_replicate, hquote, hcolon]
  omega

/-- The length of a chunk text of these entries at position 0. -/
theorem length_plainChunk {l : List (Text × Json)} (hl : l.Pairwise (fun e f => e.1 < f.1)) :
    (plainChunk (chunkOf l 0)).length =
      41 + ((ascii ",").intercalate (l.map plainEntry)).length := by
  have hhead : (ascii "\x7b\"kind\":\"records\",\"index\":").length = 26 := by decide
  have hindex : (ascii (toString 0)).length = 1 := by decide
  have hrecords : (ascii ",\"records\":\x7b").length = 12 := by decide
  have hend : (ascii "\x7d\x7d").length = 2 := by decide
  unfold plainChunk chunkOf
  dsimp only
  rw [OrdMap.entries_ofList hl]
  simp only [List.length_append, hhead, hindex, hrecords, hend]
  omega

theorem length_largeChunk : (plainChunk (chunkOf largePage 0)).length = 8388656 := by
  have hsorted : largePage.Pairwise (fun e f => e.1 < f.1) := by
    have hnames : (largePage.map Prod.fst).Pairwise (· < ·) := by decide
    exact List.pairwise_map.mp hnames
  have hcomma : (ascii ",").length = 1 := by decide
  have hjoin : (ascii ",").intercalate (largePage.map plainEntry) =
      plainEntry ("a/a".toList, largeValue) ++
        (ascii "," ++ plainEntry ("a/b".toList, largeValue)) := by
    unfold List.intercalate largePage
    simp only [List.map_cons, List.map_nil, List.intersperse_cons_cons, List.intersperse_singleton,
      List.flatten_cons, List.flatten_nil, List.append_nil]
  rw [length_plainChunk hsorted, hjoin, List.length_append, List.length_append, length_plainEntry,
    length_plainEntry, hcomma]
  decide

theorem length_largeAlone (name : Text) :
    (plainChunk (chunkOf [(name, largeValue)] 0)).length = name.length + 4194345 := by
  rw [length_plainChunk (List.pairwise_singleton _ _), List.map_cons, List.map_nil,
    show (ascii ",").intercalate [plainEntry (name, largeValue)] = plainEntry (name, largeValue) by
      simp [List.intercalate], length_plainEntry]
  omega

theorem length_encodedChunk (x : BackupCall Text) (key : Bytes) (page : List (Text × Json)) (i : ℕ) :
    (encodedChunk x tagAead metaCodec key page i).length =
      (4 * ((plainChunk (chunkOf page i)).length + 40) + 2) / 3 := by
  change (base64Url _).length = _
  rw [length_base64Url, Crypto.length_sealed (tagAead_lawful.length_encrypt _ _ _ _)]
  rfl

set_option maxRecDepth 2000 in
theorem length_largeManifest : (plainManifest ⟨"manifest".toList, BACKUP_V2, 0, "i".toList, 4,
    [metaDigest, metaDigest]⟩).length = 212 := by decide

theorem largeBackup_size : archiveSize largeBackup tagAead metaCodec sampleKey ≤ MAX_BACKUP_BYTES := by
  have hmeta : (plainChunk (chunkOf metaRecords 1)).length = 74 := by decide
  have hmanifest : manifestOf largeBackup
      (chunksOf largeBackup tagAead metaCodec sampleKey [largePage, metaRecords]) =
      ⟨"manifest".toList, BACKUP_V2, 0, "i".toList, 4, [metaDigest, metaDigest]⟩ := rfl
  have hencoded : (encodedManifest largeBackup tagAead metaCodec sampleKey
      (chunksOf largeBackup tagAead metaCodec sampleKey [largePage, metaRecords])).length ≤ 400 := by
    change (base64Url _).length ≤ _
    rw [length_base64Url, Crypto.length_sealed (tagAead_lawful.length_encrypt _ _ _ _), hmanifest]
    rw [show metaCodec.manifest = plainManifest from rfl, length_largeManifest]
    decide
  have hbound : MAX_BACKUP_BYTES = 67108864 := rfl
  rw [archiveSize_two largeBackup_pages, length_encodedChunk, length_encodedChunk,
    length_largeChunk, hmeta]
  omega

theorem metaCodec_records : metaCodec.records = plainChunk := rfl

theorem largeBackup_get {name : Text} {value : Json} (h : (name, value) ∈ largePage ++ metaRecords) :
    largeBackup.records.get? name = some value := by
  rw [← OrdMap.mem_entries_iff, largeBackup_entries]
  exact h

/-- **Two records of 4 MiB fail**: each fits a chunk alone, the page holds both, and the text of the
page is beyond the bound. -/
theorem backup_fails_on_page :
    Ordinary largeBackup metaCodec ∧
      (∀ r ∈ largeBackup.records.entries,
        (metaCodec.records (chunkOf [r] 0)).length ≤ MAX_BACKUP_PAGE_BYTES) ∧
      archiveSize largeBackup tagAead metaCodec sampleKey ≤ MAX_BACKUP_BYTES ∧
      ¬ ChunkedRoundTrips largeBackup tagAead metaCodec sampleKey := by
  refine ⟨⟨?_, ?_, ?_⟩, ?_, largeBackup_size, ?_⟩
  · rw [largeBackup_entries]
    intro r hr
    rcases List.mem_append.mp hr with hr | hr
    · rcases List.mem_cons.mp hr with rfl | hr
      · exact ⟨_, splitRecordKey_recordKey (b := ['a']) (k := ['a']) (by decide) (by decide)
          (by decide)⟩
      · rw [List.mem_singleton.mp hr]
        exact ⟨_, splitRecordKey_recordKey (b := ['a']) (k := ['b']) (by decide) (by decide)
          (by decide)⟩
    · exact metaBackup_ordinary.names r hr
  · rw [largeBackup_get (List.mem_append_right _ (List.mem_cons_of_mem _ List.mem_cons_self))]
    decide
  · exact largeBackup_get (List.mem_append_right _ List.mem_cons_self)
  · rw [largeBackup_entries, metaCodec_records]
    intro r hr
    rcases List.mem_append.mp hr with hr | hr
    · rcases List.mem_cons.mp hr with rfl | hr
      · rw [length_largeAlone]
        decide
      · rw [List.mem_singleton.mp hr, length_largeAlone]
        decide
    · rcases List.mem_cons.mp hr with rfl | hr
      · decide
      · rw [List.mem_singleton.mp hr]
        decide
  · rintro ⟨envelope, loaded, hbackup, -⟩
    have hfit : ∀ e ∈ largeBackup.records.entries,
        largeBackup.size e.1 e.2 ≤ MAX_BACKUP_PAGE_BYTES := by
      intro e _
      change (if root e.1 = "a".toList then 4194304 else 20) ≤ MAX_BACKUP_PAGE_BYTES
      split <;> decide
    have hfits := ((backup_iff rfl rfl hfit largeBackup_size).mp hbackup).1 (largePage, 0)
      (by rw [largeBackup_pages]; exact List.mem_cons_self)
    unfold Fits at hfits
    rw [metaCodec_records, length_largeChunk] at hfits
    exact absurd hfits (by decide)

end RiAuth.Operations
