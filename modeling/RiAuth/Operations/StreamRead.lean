import RiAuth.Lib.Checks
import RiAuth.Operations.Stream

/-!
# What a reader accepts

`next` takes one block off the input and opens it under the context of its position. A scan that
succeeds has read a magic, an identity, and blocks up to the end of the input, of which only the
last is a trailer.

* `next_ok`, `next_encode`: the two directions for one frame;
* `scan_ok`: **the shape of everything a scan accepts.**
-/

namespace RiAuth.Operations

open Framing Store Checks

theorem StreamLimits.validate_ok {limits : StreamLimits} {u : Unit}
    (h : limits.validate = .ok u) :
    MIN_FRAME_BYTES ≤ limits.maxFrameBytes ∧ limits.maxFrameBytes ≤ MAX_FRAME_BYTES ∧
      MAGIC.length + 16 ≤ limits.maxArchiveBytes ∧
      limits.maxArchiveBytes ≤ MAX_ARCHIVE_BYTES := by
  unfold validate at h
  by_contra hnot
  rw [if_neg hnot] at h
  cases h

section Frames

variable {limits : StreamLimits} {a : Aead} {key : Bytes}

namespace FrameReader

variable {r : FrameReader} {len : ℕ} {rest : Bytes}

theorem reserve_ok {u : Unit} :
    r.reserve limits len = .ok u ↔ r.bytes + len ≤ limits.maxArchiveBytes := by
  unfold reserve
  split
  · rename_i h
    exact ⟨fun h' => (nomatch h'), fun h' => absurd h (not_lt.mpr h')⟩
  · rename_i h
    exact ⟨fun _ => not_lt.mp h, fun _ => rfl⟩

theorem fill_ok {r' : FrameReader} {got : Fixed len} (h : r.fill limits len = .ok (got, r')) :
    r.input = got.1 ++ r'.input ∧ r.bytes + len ≤ limits.maxArchiveBytes ∧
      r' = { r with input := r'.input, bytes := r.bytes + len } := by
  unfold fill at h
  obtain ⟨hreserve, h⟩ := seq_ok.mp h
  split at h
  · cases h
    exact ⟨(List.take_append_drop len r.input).symm, reserve_ok.mp hreserve, rfl⟩
  · cases h

theorem fill_append (got : Fixed len) (hinput : r.input = got.1 ++ rest)
    (hquota : r.bytes + len ≤ limits.maxArchiveBytes) :
    r.fill limits len = .ok (got, { r with input := rest, bytes := r.bytes + len }) := by
  unfold fill
  refine seq_ok.mpr ⟨reserve_ok.mpr hquota, ?_⟩
  have hle : len ≤ r.input.length := by
    rw [hinput, List.length_append, got.2]
    exact Nat.le_add_right _ _
  rw [dif_pos hle]
  have htake : r.input.take len = got.1 := by
    rw [hinput]
    exact List.take_left' got.2
  have hdrop : r.input.drop len = rest := by
    rw [hinput]
    exact List.drop_left' got.2
  congr 1
  exact Prod.ext (Subtype.ext htake) (by rw [hdrop])

/-- The reader behind a block. -/
def behind (r : FrameReader) (b : Block) (rest : Bytes) : FrameReader where
  input := rest
  streamId := r.streamId
  frames := r.frames + 1
  bytes := r.bytes + b.encode.length
  transcript := if b.kind ≠ TRAILER then r.transcript ++ b.encode else r.transcript

/-- **One frame read**: a block came off the input and opened. -/
theorem next_ok {r' : FrameReader} {kind : UInt8} {plaintext : Bytes}
    (h : r.next limits a key = .ok ((kind, plaintext), r')) :
    ∃ b : Block, r.input = b.encode ++ r'.input ∧ b.kind = kind ∧
      Crypto.unsealBytes a key (aad r.streamId r.frames kind) b.payload = .ok plaintext ∧
      r' = r.behind b r'.input ∧ r'.bytes ≤ limits.maxArchiveBytes := by
  unfold next at h
  obtain ⟨⟨head, r₁⟩, hhead, h⟩ := bind_ok.mp h
  dsimp only at h
  split at h
  · cases h
  · split at h
    · cases h
    · obtain ⟨-, h⟩ := seq_ok.mp h
      obtain ⟨⟨sealed, r₂⟩, hsealed, h⟩ := bind_ok.mp h
      obtain ⟨opened, hopen, h⟩ := bind_ok.mp h
      cases h
      obtain ⟨hinput₁, -, hr₁⟩ := fill_ok hhead
      obtain ⟨hinput₂, hquota, hr₂⟩ := fill_ok hsealed
      have htail : head.1.tail.length = 4 := by rw [List.length_tail, head.2]
      have hcons : head.1 = head.1.headD 0 :: head.1.tail := by
        cases hcase : head.1 with
        | nil => have := head.2; rw [hcase] at this; cases this
        | cons c l => rfl
      have hbound : sealed.1.length < 256 ^ 4 := by
        rw [sealed.2, ← htail]
        exact fromBigEndian_lt _
      have hhead' : (⟨head.1.headD 0, sealed.1, hbound⟩ : Block).head = head.1 := by
        unfold Block.head
        dsimp only
        rw [sealed.2, ← htail, bigEndian_fromBigEndian]
        exact hcons.symm
      refine ⟨⟨head.1.headD 0, sealed.1, hbound⟩, ?_, rfl, ?_, ?_, ?_⟩
      · dsimp only
        rw [Block.encode, hhead', hinput₁, hinput₂, List.append_assoc]
      · rw [hr₂, hr₁] at hopen
        exact hopen
      · unfold behind
        rw [hr₂, hr₁]
        dsimp only
        rw [Block.encode, hhead']
        simp [head.2, sealed.2, Nat.add_assoc]
      · rw [hr₂]
        exact hquota

/-- **One frame to read**: a block that opens is read. -/
theorem next_encode {b : Block} {plaintext : Bytes} (hinput : r.input = b.encode ++ rest)
    (hkind : b.kind = HEADER ∨ b.kind = RECORDS ∨ b.kind = TRAILER)
    (hmin : SEAL_OVERHEAD ≤ b.payload.length)
    (hmax : b.payload.length ≤ limits.maxFrameBytes + SEAL_OVERHEAD)
    (hquota : r.bytes + b.encode.length ≤ limits.maxArchiveBytes)
    (hopen : Crypto.unsealBytes a key (aad r.streamId r.frames b.kind) b.payload = .ok plaintext) :
    r.next limits a key = .ok ((b.kind, plaintext), r.behind b rest) := by
  rw [b.length_encode] at hquota
  have hlen : fromBigEndian b.head.tail = b.payload.length := fromBigEndian_bigEndian b.bound
  have hhead : r.fill limits 5 = .ok (⟨b.head, b.length_head⟩,
      { r with input := b.payload ++ rest, bytes := r.bytes + 5 }) := by
    refine fill_append ⟨b.head, b.length_head⟩ ?_ (by omega)
    rw [hinput, Block.encode, List.append_assoc]
  unfold next
  refine bind_ok.mpr ⟨_, hhead, ?_⟩
  dsimp only
  rw [hlen, show b.head.headD 0 = b.kind from rfl,
    if_neg (not_or_intro (not_not_intro hkind) (not_lt.mpr hmin)),
    if_neg (not_lt.mpr hmax)]
  refine seq_ok.mpr ⟨reserve_ok.mpr (by dsimp only; omega), ?_⟩
  refine bind_ok.mpr ⟨_, fill_append ⟨b.payload, rfl⟩ rfl (by dsimp only; omega), ?_⟩
  refine bind_ok.mpr ⟨plaintext, hopen, ?_⟩
  unfold behind
  rw [b.length_encode, show r.bytes + (b.payload.length + 5) = r.bytes + 5 + b.payload.length by
    omega, Block.encode, ← List.append_assoc]
  rfl

theorem start_ok {input : Bytes} (h : start limits input = .ok r) :
    ∃ id : Fixed 16, input = MAGIC ++ (id.1 ++ r.input) ∧
      r = ⟨r.input, id, 0, 32, MAGIC ++ id.1⟩ := by
  unfold start at h
  obtain ⟨⟨magic, r₁⟩, hmagic, h⟩ := bind_ok.mp h
  dsimp only at h
  split at h
  · cases h
  · rename_i heq
    obtain ⟨⟨id, r₂⟩, hid, h⟩ := bind_ok.mp h
    cases h
    obtain ⟨hinput, -, hr₁⟩ := fill_ok hmagic
    obtain ⟨hinput₁, -, hr₂⟩ := fill_ok hid
    refine ⟨id, ?_, ?_⟩
    · rw [← not_not.mp heq, ← hinput₁]
      exact hinput
    · rw [hr₂, hr₁, not_not.mp heq]

theorem start_append {id : Fixed 16} (h : 32 ≤ limits.maxArchiveBytes) :
    start limits (MAGIC ++ (id.1 ++ rest)) = .ok ⟨rest, id, 0, 32, MAGIC ++ id.1⟩ := by
  unfold start
  refine bind_ok.mpr ⟨_, fill_append ⟨MAGIC, by decide⟩ rfl (by dsimp only; omega), ?_⟩
  dsimp only
  rw [if_neg (not_not_intro rfl)]
  exact bind_ok.mpr ⟨_, fill_append id rfl (by dsimp only; omega), rfl⟩

end FrameReader

end Frames

/-! ## The shape of what is accepted -/

section Accepted

variable {C : Type} {a : Aead} {s : StreamCodec C} {limits : StreamLimits} {key : Bytes}
  {cancelled : ℕ → Bool} {visit : Text → Json → Result Unit} {header : HeaderFrame C}

/-- A block opens under the context of its position. -/
def Opens (a : Aead) (key : Bytes) (id : Fixed 16) (placed : Block × ℕ) : Prop :=
  ∃ plaintext, Crypto.unsealBytes a key (aad id placed.2 placed.1.kind) placed.1.payload =
    .ok plaintext

variable {scanned : Scanned C}

theorem scanTrailer_ok {seen : Seen} {checks index : ℕ} {r : FrameReader} {plaintext : Bytes}
    (h : scanTrailer s cancelled header seen checks index r plaintext = .ok scanned) :
    r.input = [] := by
  unfold scanTrailer at h
  split at h
  · cases h
  · dsimp only at h
    split at h
    · cases h
    · obtain ⟨-, h⟩ := seq_ok.mp h
      obtain ⟨hfinish, -⟩ := seq_ok.mp h
      unfold FrameReader.finish at hfinish
      split at hfinish
      · assumption
      · cases hfinish

/-- The frames behind the header: records, then the trailer, then nothing. -/
theorem scanFrames_ok {rounds checks : ℕ} {seen : Seen} {r : FrameReader}
    (h : scanFrames a s limits key cancelled visit header rounds checks seen r = .ok scanned) :
    ∃ blocks last, r.input = encodeAll (blocks ++ [last]) ∧ (∀ b ∈ blocks, b.kind = RECORDS) ∧
      last.kind = TRAILER ∧ (∀ p ∈ (blocks ++ [last]).zipIdx r.frames, Opens a key r.streamId p) ∧
      r.bytes + r.input.length ≤ limits.maxArchiveBytes := by
  induction rounds generalizing checks seen r with
  | zero => cases h
  | succ rounds ih =>
    rw [scanFrames] at h
    obtain ⟨-, h⟩ := seq_ok.mp h
    obtain ⟨⟨⟨kind, plaintext⟩, r'⟩, hnext, h⟩ := bind_ok.mp h
    obtain ⟨b, hinput, hkind, hopen, hr', hquota⟩ := FrameReader.next_ok hnext
    have hopens : Opens a key r.streamId (b, r.frames) := ⟨plaintext, by rw [hkind]; exact hopen⟩
    have hbytes : r'.bytes = r.bytes + b.encode.length := congrArg FrameReader.bytes hr'
    have hframes : r'.frames = r.frames + 1 := congrArg FrameReader.frames hr'
    have hid : r'.streamId = r.streamId := by rw [hr']; rfl
    dsimp only at h
    split at h
    · rename_i hrecords
      split at h
      · cases h
      · split at h
        · cases h
        · obtain ⟨seen', -, h⟩ := bind_ok.mp h
          obtain ⟨blocks, last, hrest, hkinds, hlast, hall, hle⟩ := ih h
          refine ⟨b :: blocks, last, ?_, ?_, hlast, ?_, ?_⟩
          · rw [hinput, hrest, List.cons_append, encodeAll_cons]
          · exact List.forall_mem_cons.mpr ⟨hkind.trans hrecords, hkinds⟩
          · rw [hframes, hid] at hall
            rw [List.cons_append, List.zipIdx_cons]
            exact List.forall_mem_cons.mpr ⟨hopens, hall⟩
          · rw [hinput, List.length_append]
            omega
    · split at h
      · rename_i htrailer
        have hend := scanTrailer_ok h
        refine ⟨[], b, ?_, fun b hb => absurd hb List.not_mem_nil, hkind.trans htrailer, ?_, ?_⟩
        · rw [hinput, hend, List.nil_append, encodeAll_cons, encodeAll_nil]
        · intro p hp
          rw [List.nil_append, List.zipIdx_cons, List.zipIdx_nil, List.mem_singleton] at hp
          rw [hp]
          exact hopens
        · rw [hinput, hend, List.append_nil]
          omega
      · cases h

/-- **Everything a scan accepts** is a magic, an identity and blocks that open at their positions,
the last and only the last a trailer. -/
theorem scan_ok {input : Bytes} (h : scan a s limits key cancelled visit input = .ok scanned) :
    ∃ id : Fixed 16, ∃ blocks last, input = MAGIC ++ (id.1 ++ encodeAll (blocks ++ [last])) ∧
      (∀ b ∈ blocks, b.kind ≠ TRAILER) ∧ last.kind = TRAILER ∧
      (∀ p ∈ (blocks ++ [last]).zipIdx, Opens a key id p) ∧
      input.length ≤ limits.maxArchiveBytes := by
  unfold scan at h
  obtain ⟨-, h⟩ := seq_ok.mp h
  obtain ⟨r, hstart, h⟩ := bind_ok.mp h
  obtain ⟨⟨⟨kind, plaintext⟩, r'⟩, hnext, h⟩ := bind_ok.mp h
  obtain ⟨id, hinput, hr⟩ := FrameReader.start_ok hstart
  obtain ⟨b, hb, hkind, hopen, hr', hquota⟩ := FrameReader.next_ok hnext
  rw [hr] at hopen
  have hframes : r'.frames = 1 := by rw [hr', hr]; rfl
  have hid : r'.streamId = id := by rw [hr', hr]; rfl
  have hbytes : r'.bytes = 32 + b.encode.length := by rw [hr', hr]; rfl
  dsimp only at h
  split at h
  · cases h
  · rename_i hheader
    split at h
    · cases h
    · split at h
      · cases h
      · obtain ⟨blocks, last, hrest, hkinds, hlast, hall, hle⟩ := scanFrames_ok h
        rw [hframes, hid] at hall
        refine ⟨id, b :: blocks, last, ?_, ?_, hlast, ?_, ?_⟩
        · rw [hinput, hb, hrest, List.cons_append, encodeAll_cons]
        · refine List.forall_mem_cons.mpr ⟨?_, fun b hb => ?_⟩
          · rw [hkind, not_not.mp hheader]
            decide
          · rw [hkinds b hb]
            decide
        · rw [List.cons_append, List.zipIdx_cons]
          exact List.forall_mem_cons.mpr ⟨⟨plaintext, by rw [hkind]; exact hopen⟩, hall⟩
        · have hmagic : MAGIC.length = 16 := by decide
          rw [hinput, List.length_append, List.length_append, hmagic, id.2, hb, List.length_append]
          omega

end Accepted

end RiAuth.Operations
