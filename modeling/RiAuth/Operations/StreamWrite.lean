import RiAuth.Lib.Lists
import RiAuth.Lib.Outcome
import RiAuth.Operations.StreamRead

/-!
# What a writer emits

At every moment of an export the sink holds the magic, the identity and the blocks of the frames
written so far. A step that stops leaves a block cut short at most, so that what was emitted before
the trailer was complete is `Incomplete`.

* `Smooth`: nothing disturbs an export, and its limits leave room for the store;
* `writeArchive_ends`: **an archive that is written holds the snapshot in order; one that is not was
  disturbed, and is incomplete**;
* `Incomplete.rejected`: no initial part of an incomplete archive is accepted.
-/

namespace RiAuth.Operations

open Framing Store Checks Outcome

/-- The bytes end before the trailer does. -/
def Incomplete (id : Fixed 16) (bytes : Bytes) : Prop :=
  (∃ more, more ≠ [] ∧ MAGIC ++ id.1 = bytes ++ more) ∨
  ∃ blocks part, (∀ b ∈ blocks, b.kind ≠ TRAILER) ∧ Cut part ∧
    bytes = MAGIC ++ (id.1 ++ (encodeAll blocks ++ part))

theorem incomplete_nil (id : Fixed 16) : Incomplete id [] :=
  .inl ⟨MAGIC ++ id.1, List.append_ne_nil_of_left_ne_nil (by decide) _, rfl⟩

/-- **Nothing incomplete is accepted**, under any limits, key, cancellation and visitor. -/
theorem Incomplete.rejected {C : Type} {id : Fixed 16} {bytes part : Bytes}
    (h : Incomplete id bytes) (hpart : part <+: bytes) {a : Aead} {s : StreamCodec C}
    {limits : StreamLimits} {key : Bytes} {cancelled : ℕ → Bool}
    {visit : Text → Json → Result Unit} {scanned : Scanned C} :
    scan a s limits key cancelled visit part ≠ .ok scanned := by
  intro hscan
  obtain ⟨id', blocks, last, hinput, -, hlast, -, -⟩ := scan_ok hscan
  obtain ⟨rest, hrest⟩ := hpart
  rw [hinput] at hrest
  rcases h with ⟨more, hmore, hbytes⟩ | ⟨ys, cut, hys, hcut, hbytes⟩
  · have hlength := congrArg List.length hbytes
    have hpos := List.length_pos_iff.mpr hmore
    rw [← hrest] at hlength
    simp only [List.length_append, id.2, id'.2] at hlength
    omega
  · rw [hbytes, List.append_assoc, List.append_assoc] at hrest
    have htail := List.append_cancel_left hrest
    obtain ⟨-, htail⟩ := List.append_inj htail (by rw [id.2, id'.2])
    exact not_initial (P := fun b => b.kind = TRAILER) ⟨last, by simp, hlast⟩ hys hcut htail

/-! ## Exports that nothing disturbs -/

/-- The plaintext of the header. -/
def headerText {C : Type} (x : Call C) (s : StreamCodec C) : Bytes :=
  s.header ⟨"header".toList, BACKUP_V3, x.createdAt, x.config⟩

/-- What a record may add to an archive besides its text: a frame of its own. -/
def RECORD_OVERHEAD : ℕ := 128

/-- What the records may take in an archive. -/
def cost {C : Type} (s : StreamCodec C) (records : List (Text × Json)) : ℕ :=
  (records.map fun r => (s.entry r).length + RECORD_OVERHEAD).sum

/-- The call is allowed, and its limits leave room for the store, be every record in a frame of its
own. -/
structure Roomy {C : Type} (x : Call C) (s : StreamCodec C) : Prop where
  limits : x.limits.validate = .ok ()
  key : ∃ key, x.key = .ok key
  allowed : x.management = .ok ()
  header : (headerText x s).length ≤ x.limits.maxFrameBytes
  stored : ∀ r ∈ x.records.entries, x.size r.1 r.2 ≤ x.limits.maxFrameBytes
  entry : ∀ r ∈ x.records.entries, (s.entry r).length + RECORD_OVERHEAD ≤ x.limits.maxFrameBytes
  quota : 32 + ((headerText x s).length + 45) + cost s x.records.entries +
    (MIN_FRAME_BYTES + 45) ≤ x.limits.maxArchiveBytes

/-- There is room, and neither the flag nor the nonces nor the sink stop the export; the cipher adds
a tag of 16 bytes, and a trailer is short. -/
structure Smooth {C : Type} (x : Call C) (a : Aead) (s : StreamCodec C) : Prop where
  room : Roomy x s
  cancelled : ∀ n, x.cancelled n = false
  nonce : ∀ n, x.nonce n ≠ none
  write : ∀ taken data, x.sink.write taken data = none
  tag : ∀ key nonce context plaintext,
    (a.encrypt key nonce context plaintext).length = plaintext.length + 16
  trailer : ∀ frames bytes, frames ≤ x.records.entries.length + 1 →
    (s.trailer ⟨"trailer".toList, x.records.entries.length, frames, s.digest bytes⟩).length ≤
      MIN_FRAME_BYTES

/-- How an export leaves its writer if it does not get to its flush. -/
structure Stopped {C : Type} (x : Call C) (a : Aead) (s : StreamCodec C) (w : FrameWriter) :
    Prop where
  incomplete : Incomplete x.streamId w.emitted
  /-- A trailer that was sealed was not emitted. -/
  trailer : ∀ f ∈ w.sealed, f.kind = TRAILER → w.frames ≤ f.index
  disturbed : ¬ Smooth x a s

theorem stopped_start {C : Type} {x : Call C} {a : Aead} {s : StreamCodec C} {w : FrameWriter}
    (hemitted : w.emitted = []) (hsealed : w.sealed = []) (hwhy : ¬ Smooth x a s) :
    Stopped x a s w :=
  ⟨hemitted ▸ incomplete_nil x.streamId, fun _ hf => absurd (hsealed ▸ hf) List.not_mem_nil, hwhy⟩

/-! ## One frame -/

section Frame

variable {C : Type} {x : Call C} {a : Aead} {s : StreamCodec C} {key : Bytes}

/-- A block carries a sealed frame. -/
def Carries (f : SealedFrame) (b : Block) : Prop :=
  b.kind = f.kind ∧ b.payload = Crypto.marker ++ (f.nonce.1 ++ f.body)

/-- The state of a writer between two frames. -/
structure Wrote (x : Call C) (w : FrameWriter) (blocks : List Block) : Prop where
  emitted : w.emitted = MAGIC ++ (x.streamId.1 ++ encodeAll blocks)
  transcript : w.transcript = w.emitted
  bytes : w.bytes = w.emitted.length
  frames : w.frames = blocks.length
  quota : w.bytes ≤ x.limits.maxArchiveBytes
  logged : List.Forall₂ Carries w.sealed blocks
  placed : ∀ p ∈ w.sealed.zipIdx, p.1.index = p.2

variable {w : FrameWriter} {blocks : List Block}

/-- A sealed frame stands at its position. -/
theorem Wrote.carried (h : Wrote x w blocks) {f : SealedFrame} (hf : f ∈ w.sealed) :
    ∃ b, blocks[f.index]? = some b ∧ Carries f b := by
  obtain ⟨i, hi, rfl⟩ := List.mem_iff_getElem.mp hf
  have hplaced : (w.sealed[i]).index = i :=
    h.placed (w.sealed[i], i) (List.mem_zipIdx_iff_getElem?.mpr (List.getElem?_eq_getElem hi))
  have hlength := h.logged.length_eq
  refine ⟨blocks[i], ?_, (List.forall₂_iff_get.mp h.logged).2 i hi (hlength ▸ hi)⟩
  rw [hplaced]
  exact List.getElem?_eq_getElem (hlength ▸ hi)

/-- A writer that stops in the frame behind these blocks. -/
theorem Wrote.stopped {w' : FrameWriter} (h : Wrote x w blocks)
    (hkinds : ∀ b ∈ blocks, b.kind ≠ TRAILER) (hwhy : ¬ Smooth x a s) {part : Bytes}
    (hcut : Cut part) (hemitted : w'.emitted = w.emitted ++ part) (hframes : w'.frames = w.frames)
    (hsealed : ∀ f ∈ w'.sealed, f ∈ w.sealed ∨ f.index = w.frames) : Stopped x a s w' := by
  refine ⟨.inr ⟨blocks, part, hkinds, hcut, ?_⟩, fun f hf hkind => ?_, hwhy⟩
  · rw [hemitted, h.emitted, List.append_assoc, List.append_assoc]
  · obtain hf | hindex := hsealed f hf
    · obtain ⟨b, hb, hcarries⟩ := h.carried hf
      exact absurd (hcarries.1.trans hkind) (hkinds b (List.mem_of_getElem? hb))
    · exact (hframes.trans hindex.symm).le

/-- A writer that stops between two frames. -/
theorem Wrote.stopped_here (h : Wrote x w blocks) (hkinds : ∀ b ∈ blocks, b.kind ≠ TRAILER)
    (hwhy : ¬ Smooth x a s) : Stopped x a s w :=
  h.stopped hkinds hwhy cut_nil (List.append_nil _).symm rfl fun _ hf => .inl hf

/-- The writer behind one more block. -/
theorem Wrote.add (h : Wrote x w blocks) {b : Block} (draws : ℕ) {f : SealedFrame}
    (hcarries : Carries f b) (hindex : f.index = w.frames)
    (hquota : w.bytes + b.encode.length ≤ x.limits.maxArchiveBytes) :
    Wrote x ⟨w.emitted ++ b.head ++ b.payload, w.frames + 1, w.records,
      w.bytes + b.head.length + b.payload.length, w.transcript ++ b.head ++ b.payload, w.checks,
      draws, w.sealed ++ [f]⟩ (blocks ++ [b]) where
  emitted := by
    dsimp only
    rw [h.emitted, encodeAll_append, encodeAll_cons, encodeAll_nil, Block.encode]
    simp only [List.append_assoc, List.append_nil]
  transcript := by dsimp only; rw [h.transcript]
  bytes := by
    dsimp only
    rw [h.bytes, List.length_append, List.length_append]
  frames := by
    dsimp only
    rw [h.frames, List.length_append, List.length_singleton]
  quota := by
    rw [Block.encode, List.length_append, ← Nat.add_assoc] at hquota
    exact hquota
  logged := List.rel_append h.logged (.cons hcarries .nil)
  placed := by
    intro p hp
    rw [List.zipIdx_append, List.mem_append] at hp
    rcases hp with hp | hp
    · exact h.placed p hp
    · rw [List.zipIdx_cons, List.zipIdx_nil, List.mem_singleton] at hp
      rw [hp, hindex, h.frames, h.logged.length_eq, Nat.zero_add]

/-- A block is a frame with this plaintext, sealed for its position. -/
def FrameAt (a : Aead) (key : Bytes) (id : Fixed 16) (kind : UInt8) (plaintext : Bytes)
    (placed : Block × ℕ) : Prop :=
  placed.1.kind = kind ∧
    ∃ nonce, placed.1.payload = Crypto.sealBytes a key nonce (aad id placed.2 kind) plaintext

/-- A write that fails leaves the data cut short. -/
theorem emit_ends (w : FrameWriter) {data : Bytes} (hdata : data ≠ []) :
    Ends (w.emit x data)
      (fun w' => w' = { w with emitted := w.emitted ++ data, transcript := w.transcript ++ data,
                               bytes := w.bytes + data.length })
      (fun e => x.sink.write w.emitted data ≠ none ∧ ∃ part more, data = part ++ more ∧
        more ≠ [] ∧ e.2 = { w with emitted := w.emitted ++ part }) := by
  unfold FrameWriter.emit
  cases hwrite : x.sink.write w.emitted data with
  | none => exact rfl
  | some k =>
    have hpos := List.length_pos_iff.mpr hdata
    refine ⟨hwrite ▸ Option.some_ne_none k, _, _, (List.take_append_drop _ _).symm, ?_, rfl⟩
    rw [ne_eq, List.drop_eq_nil_iff]
    omega

theorem checkCancel_ends (h : Wrote x w blocks) (hkinds : ∀ b ∈ blocks, b.kind ≠ TRAILER) :
    Ends (w.checkCancel x) (fun w' => Wrote x w' blocks ∧ w'.records = w.records)
      (fun e => Stopped x a s e.2) := by
  unfold FrameWriter.checkCancel
  split
  · rename_i hset
    refine h.stopped hkinds (fun hsmooth => ?_) cut_nil (List.append_nil _).symm rfl
      fun _ hf => .inl hf
    rw [hsmooth.cancelled] at hset
    cases hset
  · exact ⟨⟨h.emitted, h.transcript, h.bytes, h.frames, h.quota, h.logged, h.placed⟩, rfl⟩

theorem reserve_ends (w : FrameWriter) (len : ℕ) :
    Ends (w.reserve x len) (fun _ => w.bytes + len ≤ x.limits.maxArchiveBytes)
      (fun e => e.2 = w ∧ x.limits.maxArchiveBytes < w.bytes + len) := by
  unfold FrameWriter.reserve
  split
  · exact ⟨rfl, ‹_›⟩
  · exact not_lt.mp ‹_›

/-- There is room for a frame with this plaintext. -/
def RoomFor (x : Call C) (w : FrameWriter) (plaintext : Bytes) : Prop :=
  plaintext.length ≤ MAX_FRAME_BYTES ∧
    w.bytes + (plaintext.length + 45) ≤ x.limits.maxArchiveBytes

theorem Smooth.length_sealed (h : Smooth x a s) (key : Bytes) (nonce : Fixed 12)
    (context plaintext : Bytes) :
    (Crypto.sealBytes a key nonce context plaintext).length = plaintext.length + 40 :=
  Crypto.length_sealed (h.tag _ _ _ _)

/-- **One frame**: its block is added, or what is emitted stays incomplete. -/
theorem frame_ends (h : Wrote x w blocks) (hkinds : ∀ b ∈ blocks, b.kind ≠ TRAILER) (kind : UInt8)
    {plaintext : Bytes} (hroom : Smooth x a s → RoomFor x w plaintext) :
    Ends (w.frame x a key kind plaintext)
      (fun w' => ∃ b, FrameAt a key x.streamId kind plaintext (b, blocks.length) ∧
        Wrote x w' (blocks ++ [b]) ∧ w'.records = w.records)
      (fun e => Stopped x a s e.2) := by
  unfold FrameWriter.frame
  have hbytes := h.bytes
  refine (checkCancel_ends h hkinds).bind fun w₀ ⟨h, hrecords⟩ => ?_
  have hsame : w₀.bytes = w.bytes := by rw [h.bytes, h.emitted, hbytes, ‹Wrote x w blocks›.emitted]
  cases hnonce : x.nonce w₀.draws with
  | none => exact h.stopped_here hkinds fun hsmooth => hsmooth.nonce _ hnonce
  | some nonce =>
    dsimp only
    -- What was sealed last is logged under the next position.
    have hlast : ∀ {body : Bytes}, ∀ f ∈ w₀.sealed ++ [⟨kind, w₀.frames, nonce, body⟩],
        f ∈ w₀.sealed ∨ f.index = w₀.frames := fun f hf => by
      obtain hf | hf := List.mem_append.mp hf
      · exact .inl hf
      · rw [List.mem_singleton.mp hf]
        exact .inr rfl
    have hlong : ∀ hsmooth : Smooth x a s, (Crypto.sealBytes a key nonce
        (aad x.streamId w₀.frames kind) plaintext).length = plaintext.length + 40 :=
      fun hsmooth => hsmooth.length_sealed key nonce _ _
    split
    · rename_i hbig
      refine h.stopped hkinds (fun hsmooth => ?_) cut_nil (List.append_nil _).symm rfl hlast
      have hfits := (hroom hsmooth).1
      have hmax : MAX_FRAME_BYTES + 40 < 256 ^ 4 := by decide
      rw [hlong hsmooth] at hbig
      omega
    · rename_i hfits
      let b : Block := ⟨kind, _, not_le.mp hfits⟩
      refine ((reserve_ends _ _).mono (fun _ h => h) ?_).bind fun _ hquota => ?_
      · rintro e ⟨he, hover⟩
        rw [he]
        refine h.stopped hkinds (fun hsmooth => ?_) cut_nil (List.append_nil _).symm rfl hlast
        have hquota := (hroom hsmooth).2
        rw [List.length_cons, length_bigEndian, hlong hsmooth] at hover
        dsimp only at hover
        omega
      refine ((emit_ends _ (List.cons_ne_nil _ _)).mono (fun _ h => h) ?_).bind fun w₁ hw₁ => ?_
      · rintro e ⟨hfailed, part, more, hdata, hmore, he⟩
        rw [he]
        refine h.stopped hkinds (fun hsmooth => hfailed (hsmooth.write _ _))
          ⟨b, more ++ b.payload, ?_, by simp [hmore]⟩ rfl rfl hlast
        rw [Block.encode, ← List.append_assoc, ← hdata]
        rfl
      have hsealed : b.payload ≠ [] := by
        change Crypto.marker ++ _ ≠ []
        simp [← List.length_eq_zero_iff, Crypto.length_marker]
      refine ((emit_ends _ hsealed).mono (fun _ h => h) ?_).bind fun w₂ hw₂ => ?_
      · rintro e ⟨hfailed, part, more, hdata, hmore, he⟩
        rw [he, hw₁]
        refine h.stopped hkinds (fun hsmooth => hfailed (hsmooth.write _ _)) ⟨b, more, ?_, hmore⟩
          (List.append_assoc _ _ _) rfl hlast
        rw [Block.encode, hdata, ← List.append_assoc]
        rfl
      rw [hw₂, hw₁]
      refine ⟨b, ⟨rfl, nonce, ?_⟩, ?_, hrecords⟩
      · rw [← h.frames]
      · refine h.add (b := b) (f := ⟨kind, w₀.frames, nonce, _⟩) _ ⟨rfl, rfl⟩ rfl ?_
        rw [Block.encode, List.length_append]
        exact hquota

end Frame

/-! ## The snapshot -/

/-- A batch that holds these records. -/
def Batch.of {C : Type} (s : StreamCodec C) (index : ℕ) (group : List (Text × Json)) : Batch :=
  group.foldl (fun b r => b.push (s.entry r)) (Batch.new index)

/-- The plaintext of a records frame. -/
def recordsText {C : Type} (s : StreamCodec C) (index : ℕ) (group : List (Text × Json)) : Bytes :=
  (Batch.of s index group).body ++ ascii "]\x7d"

section Snapshot

variable {C : Type} {x : Call C} {a : Aead} {s : StreamCodec C} {key : Bytes}

theorem Batch.of_append (index : ℕ) (group : List (Text × Json)) (r : Text × Json) :
    Batch.of s index (group ++ [r]) = (Batch.of s index group).push (s.entry r) :=
  List.foldl_append

theorem Batch.count_of (index : ℕ) (group : List (Text × Json)) :
    (Batch.of s index group).count = group.length := by
  induction group using List.reverseRecOn with
  | nil => rfl
  | append_singleton group r ih =>
    rw [Batch.of_append, List.length_append, List.length_singleton, ← ih]
    rfl

theorem Batch.length_new {index : ℕ} (h : index < 10 ^ 20) : (Batch.new index).body.length ≤ 58 := by
  have hdigits : (ascii (toString index)).length ≤ 20 := by
    unfold ascii
    rw [List.length_map, Nat.toString_eq_repr, Nat.repr, String.toList_ofList]
    exact (Nat.length_toDigits_le_iff (by decide) (by decide)).mpr h
  have hstart : (ascii "\x7b\"kind\":\"records\",\"index\":").length = 26 := by decide
  have hlist : (ascii ",\"records\":[").length = 12 := by decide
  unfold Batch.new
  rw [List.length_append, List.length_append, hstart, hlist]
  omega

theorem cost_append (l m : List (Text × Json)) : cost s (l ++ m) = cost s l + cost s m := by
  unfold cost
  rw [List.map_append, List.sum_append]

theorem Batch.length_of (index : ℕ) (h : index < 10 ^ 20) (group : List (Text × Json)) :
    (Batch.of s index group).body.length + 127 * group.length ≤ 58 + cost s group := by
  induction group using List.reverseRecOn with
  | nil => exact Batch.length_new h
  | append_singleton group r ih =>
    have hcomma : (if 0 < (Batch.of s index group).count then ascii "," else []).length ≤ 1 := by
      split
      · exact Nat.le_refl 1
      · exact Nat.zero_le 1
    have hone : cost s [r] = (s.entry r).length + 128 := rfl
    rw [Batch.of_append, cost_append, hone]
    unfold Batch.push
    simp only [List.length_append, List.length_singleton]
    omega

variable {b : Batch} {groups : List (List (Text × Json))} {blocks : List Block}
  {state : FrameWriter × Batch} {pending done : List (Text × Json)} {w : FrameWriter}
  {r : Text × Json}

/-- An entry that fits leaves room for the end of the frame. -/
theorem Batch.length_push {entry : Bytes} {limit : ℕ} (h : b.fits entry.length limit = true) :
    (b.push entry).body.length + 2 ≤ limit := by
  unfold Batch.fits at h
  unfold Batch.push
  have hcomma : (if 0 < b.count then ascii "," else []).length = if 0 < b.count then 1 else 0 := by
    split <;> rfl
  rw [List.length_append, List.length_append, hcomma]
  exact of_decide_eq_true h

/-- A block is a records frame that holds this group. -/
def RecordsAt (x : Call C) (a : Aead) (s : StreamCodec C) (key : Bytes)
    (group : List (Text × Json)) (placed : Block × ℕ) : Prop :=
  group ≠ [] ∧ (recordsText s placed.2 group).length ≤ x.limits.maxFrameBytes ∧
    FrameAt a key x.streamId RECORDS (recordsText s placed.2 group) placed

/-- The blocks before the trailer: the header, then one frame for each group of records. -/
def Parts (x : Call C) (a : Aead) (s : StreamCodec C) (key : Bytes) (blocks : List Block)
    (groups : List (List (Text × Json))) : Prop :=
  ∃ header rest, blocks = header :: rest ∧
    FrameAt a key x.streamId HEADER (headerText x s) (header, 0) ∧
    (headerText x s).length ≤ x.limits.maxFrameBytes ∧
    List.Forall₂ (RecordsAt x a s key) groups (rest.zipIdx 1)

theorem kind_of_recordsAt {rest : List Block} {i : ℕ}
    (h : List.Forall₂ (RecordsAt x a s key) groups (rest.zipIdx i)) :
    ∀ b ∈ rest, b.kind = RECORDS := by
  induction rest generalizing groups i with
  | nil => exact fun b hb => absurd hb List.not_mem_nil
  | cons b rest ih =>
    rw [List.zipIdx_cons] at h
    cases h with
    | cons hb hrest => exact List.forall_mem_cons.mpr ⟨hb.2.2.1, ih hrest⟩

theorem Parts.kinds (h : Parts x a s key blocks groups) : ∀ b ∈ blocks, b.kind ≠ TRAILER := by
  obtain ⟨header, rest, rfl, hheader, -, hrest⟩ := h
  refine List.forall_mem_cons.mpr ⟨?_, fun b hb => ?_⟩
  · rw [hheader.1]
    decide
  · rw [kind_of_recordsAt hrest b hb]
    decide

/-- There are no more frames than records, and a header. -/
theorem Parts.length_le (h : Parts x a s key blocks groups) :
    blocks.length ≤ groups.flatten.length + 1 := by
  obtain ⟨header, rest, rfl, -, -, hrest⟩ := h
  have hlength := hrest.length_eq
  rw [List.length_zipIdx] at hlength
  rw [List.length_cons, ← hlength]
  refine Nat.succ_le_succ (List.length_le_flatten fun group hgroup => ?_)
  obtain ⟨placed, -, hat⟩ := List.forall₂_mem_left hrest hgroup
  exact hat.1

theorem Parts.add (h : Parts x a s key blocks groups) {group : List (Text × Json)} {b : Block}
    (hb : RecordsAt x a s key group (b, blocks.length)) :
    Parts x a s key (blocks ++ [b]) (groups ++ [group]) := by
  obtain ⟨header, rest, rfl, hheader, hlength, hrest⟩ := h
  refine ⟨header, rest ++ [b], rfl, hheader, hlength, ?_⟩
  rw [List.zipIdx_append]
  refine List.rel_append hrest (.cons ?_ .nil)
  rw [Nat.add_comm]
  exact hb

/-- The frames of the records take no more than the records may. -/
theorem length_encodeAll_le (hsmooth : Smooth x a s) {rest : List Block} {i : ℕ}
    (hi : i + rest.length ≤ 10 ^ 20) (h : List.Forall₂ (RecordsAt x a s key) groups (rest.zipIdx i)) :
    (encodeAll rest).length ≤ cost s groups.flatten := by
  induction rest generalizing groups i with
  | nil => exact Nat.zero_le _
  | cons b rest ih =>
    rw [List.zipIdx_cons] at h
    rw [List.length_cons] at hi
    cases h with
    | @cons group _ groups _ hb hrest =>
      have hbytes := ih (by omega) hrest
      obtain ⟨hne, -, -, nonce, hpayload⟩ := hb
      have hpos := List.length_pos_iff.mpr hne
      have hbatch := Batch.length_of (s := s) i (by omega) group
      have hlength := hsmooth.length_sealed key nonce (aad x.streamId i RECORDS)
        (recordsText s i group)
      have hend : (ascii "]\x7d").length = 2 := by decide
      rw [← hpayload, recordsText, List.length_append, hend] at hlength
      rw [encodeAll_cons, List.length_append, b.length_encode, List.flatten_cons, cost_append]
      dsimp only at hlength
      omega

/-- The state of an export between two records: groups already written, and a batch. -/
structure Filled (x : Call C) (a : Aead) (s : StreamCodec C) (key : Bytes)
    (state : FrameWriter × Batch) (blocks : List Block) (groups : List (List (Text × Json)))
    (pending : List (Text × Json)) : Prop where
  wrote : Wrote x state.1 blocks
  parts : Parts x a s key blocks groups
  records : state.1.records = groups.flatten.length
  batch : state.2 = Batch.of s blocks.length pending
  fits : pending ≠ [] → state.2.body.length + 2 ≤ x.limits.maxFrameBytes

/-- These records were added. -/
def Added (x : Call C) (a : Aead) (s : StreamCodec C) (key : Bytes) (done : List (Text × Json))
    (state : FrameWriter × Batch) : Prop :=
  ∃ blocks groups pending, Filled x a s key state blocks groups pending ∧
    done = groups.flatten ++ pending

theorem Filled.stopped (h : Filled x a s key state blocks groups pending) (hwhy : ¬ Smooth x a s) :
    Stopped x a s state.1 :=
  h.wrote.stopped_here h.parts.kinds hwhy

theorem Added.stopped (h : Added x a s key done state) (hwhy : ¬ Smooth x a s) :
    Stopped x a s state.1 := by
  obtain ⟨blocks, groups, pending, hfilled, -⟩ := h
  exact hfilled.stopped hwhy

/-- Positions stay small, as every frame takes bytes of the quota. -/
theorem Filled.frames_lt (hsmooth : Smooth x a s) (h : Filled x a s key state blocks groups pending) :
    blocks.length + 1 < 10 ^ 20 := by
  have hquota := h.wrote.quota
  have hblocks := length_le_encodeAll blocks
  have hmax := (StreamLimits.validate_ok hsmooth.room.limits).2.2.2
  have hsmall : MAX_ARCHIVE_BYTES + 1 < 10 ^ 20 := by decide
  rw [h.wrote.bytes, h.wrote.emitted, List.length_append, List.length_append] at hquota
  omega

/-- **What was written so far** and the batch take no more than the header and the records may. -/
theorem Filled.bytes_le (hsmooth : Smooth x a s) (h : Filled x a s key state blocks groups pending) :
    state.1.bytes + cost s pending ≤
      32 + ((headerText x s).length + 45) + cost s (groups.flatten ++ pending) := by
  have hsmall := h.frames_lt hsmooth
  have hbytes := h.wrote.bytes
  have hemitted := h.wrote.emitted
  obtain ⟨header, rest, rfl, ⟨-, nonce, hpayload⟩, -, hrest⟩ := h.parts
  rw [List.length_cons] at hsmall
  have hrecords := length_encodeAll_le hsmooth (by omega) hrest
  have hheader := hsmooth.length_sealed key nonce (aad x.streamId 0 HEADER) (headerText x s)
  have hmagic : MAGIC.length = 16 := by decide
  rw [← hpayload] at hheader
  rw [hbytes, hemitted, List.length_append, List.length_append, hmagic, x.streamId.2, encodeAll_cons,
    List.length_append, header.length_encode, cost_append]
  dsimp only at hheader
  omega

theorem cost_le_of_prefix {l m : List (Text × Json)} (h : l <+: m) : cost s l ≤ cost s m := by
  obtain ⟨rest, rfl⟩ := h
  rw [cost_append]
  exact Nat.le_add_right _ _

/-- A batch is written, and a new one starts. -/
theorem finish_ends (h : Filled x a s key (w, b) blocks groups pending) (hpending : pending ≠ [])
    (hpart : groups.flatten ++ pending <+: x.records.entries) :
    Ends (b.finish x a key w)
      (fun w' => ∃ block, Filled x a s key (w', Batch.new (w.frames + 1)) (blocks ++ [block])
        (groups ++ [pending]) [])
      (fun e => Stopped x a s e.2) := by
  have hw := h.wrote
  have hcounted : Wrote x { w with records := w.records + b.count } blocks :=
    ⟨hw.emitted, hw.transcript, hw.bytes, hw.frames, hw.quota, hw.logged, hw.placed⟩
  have hbatch : b = Batch.of s blocks.length pending := h.batch
  have hroom : Smooth x a s →
      RoomFor x { w with records := w.records + b.count } (b.body ++ ascii "]\x7d") := by
    intro hsmooth
    have hfits := h.fits hpending
    have hbytes := h.bytes_le hsmooth
    have hlength := Batch.length_of (s := s) blocks.length
      (by have := h.frames_lt hsmooth; omega) pending
    have hpos := List.length_pos_iff.mpr hpending
    have hcost := cost_le_of_prefix (s := s) hpart
    have hmax := (StreamLimits.validate_ok hsmooth.room.limits).2.1
    have hquota := hsmooth.room.quota
    have hend : (ascii "]\x7d").length = 2 := by decide
    rw [← hbatch] at hlength
    unfold RoomFor
    rw [List.length_append, hend]
    dsimp only at hfits hbytes ⊢
    omega
  refine (frame_ends hcounted h.parts.kinds RECORDS hroom).mono ?_ (fun _ he => he)
  rintro w' ⟨block, hframe, hwrote, hrecords⟩
  refine ⟨block, hwrote, h.parts.add ⟨hpending, ?_, ?_⟩, ?_, ?_, fun hne => absurd rfl hne⟩
  · have hfits := h.fits hpending
    unfold recordsText
    rw [← hbatch, List.length_append]
    exact hfits
  · unfold recordsText
    rw [← hbatch]
    exact hframe
  · have hcount : b.count = pending.length := by rw [hbatch, Batch.count_of]
    have hbefore : w.records = groups.flatten.length := h.records
    simp only [hrecords, hcount, hbefore, List.flatten_append, List.length_append,
      List.flatten_cons, List.flatten_nil, List.append_nil]
  · rw [List.length_append, List.length_singleton, ← hw.frames]
    rfl

/-- An entry of the store fits a new batch. -/
theorem Smooth.fits_new (hsmooth : Smooth x a s) (hr : r ∈ x.records.entries) {index : ℕ}
    (hindex : index < 10 ^ 20) :
    (Batch.new index).fits (s.entry r).length x.limits.maxFrameBytes = true := by
  have hnew := Batch.length_new hindex
  have hentry := hsmooth.room.entry r hr
  have hcount : (if 0 < (Batch.new index).count then 1 else 0) = 0 := rfl
  unfold RECORD_OVERHEAD at hentry
  unfold Batch.fits
  rw [hcount]
  exact decide_eq_true (by omega)

theorem makeRoom_ends (hpart : done ++ [r] <+: x.records.entries) (h : Added x a s key done (w, b)) :
    Ends (makeRoom x a key (s.entry r).length w b)
      (fun state => Added x a s key done state ∧
        state.2.fits (s.entry r).length x.limits.maxFrameBytes = true)
      (fun e => Stopped x a s e.2) := by
  have hr : r ∈ x.records.entries := hpart.subset (by simp)
  unfold makeRoom
  split
  · exact ⟨h, ‹_›⟩
  · rename_i hfull
    obtain ⟨blocks, groups, pending, hfilled, rfl⟩ := h
    have hbatch : b = Batch.of s blocks.length pending := hfilled.batch
    split
    · rename_i hcount
      refine hfilled.stopped fun hsmooth => hfull ?_
      rw [hbatch, Batch.count_of, List.length_eq_zero_iff] at hcount
      rw [hbatch, hcount]
      exact hsmooth.fits_new hr (by have := hfilled.frames_lt hsmooth; omega)
    · rename_i hcount
      have hpending : pending ≠ [] := by
        rintro rfl
        rw [hbatch, Batch.count_of] at hcount
        exact hcount rfl
      refine (finish_ends hfilled hpending ((List.prefix_append _ _).trans hpart)).bind ?_
      rintro w' ⟨block, hnext⟩
      dsimp only
      split
      · refine ⟨⟨_, _, _, hnext, ?_⟩, ‹_›⟩
        simp
      · rename_i hfull'
        refine hnext.stopped fun hsmooth => hfull' (hsmooth.fits_new hr ?_)
        have hframes : w.frames = blocks.length := hfilled.wrote.frames
        have := hfilled.frames_lt hsmooth
        omega

/-- **One record**: it is added, or what is emitted stays incomplete. -/
theorem addRecord_ends (hpart : done ++ [r] <+: x.records.entries) (h : Added x a s key done state) :
    Ends (addRecord x a s key state r) (Added x a s key (done ++ [r]))
      (fun e => Stopped x a s e.2) := by
  unfold addRecord
  dsimp only
  split
  · rename_i hlong
    refine h.stopped fun hsmooth => ?_
    have hentry := hsmooth.room.entry r (hpart.subset (by simp))
    omega
  · refine (makeRoom_ends hpart h).bind ?_
    rintro ⟨w, b⟩ ⟨⟨blocks, groups, pending, hfilled, rfl⟩, hfits⟩
    have hbatch : b = Batch.of s blocks.length pending := hfilled.batch
    have hpushed : Filled x a s key (w, b.push (s.entry r)) blocks groups (pending ++ [r]) := by
      refine ⟨hfilled.wrote, hfilled.parts, hfilled.records, ?_, fun _ => Batch.length_push hfits⟩
      rw [Batch.of_append, ← hbatch]
    dsimp only
    split
    · rw [List.append_assoc] at hpart
      refine (finish_ends hpushed (List.concat_ne_nil r pending) hpart).bind ?_
      rintro w' ⟨block, hnext⟩
      refine ⟨_, _, _, hnext, ?_⟩
      simp
    · refine ⟨_, _, _, hpushed, ?_⟩
      rw [List.append_assoc]

/-- **All records**: the walk over the pages adds the snapshot in order. -/
theorem addPages_ends (hlimit : x.limits.maxFrameBytes ≠ 0) {rounds : ℕ} {rest : List (Text × Json)}
    (h : Added x a s key done state) (hentries : x.records.entries = done ++ rest)
    (hrounds : rest.length < rounds) :
    Ends (addPages x a s key rounds (lastName done) state) (Added x a s key x.records.entries)
      (fun e => Stopped x a s e.2) := by
  induction rounds generalizing done rest state with
  | zero => exact absurd hrounds (Nat.not_lt_zero _)
  | succ rounds ih =>
    obtain ⟨w, b⟩ := state
    rw [addPages]
    obtain ⟨blocks, groups, pending, hfilled, hdone⟩ := h
    refine (checkCancel_ends hfilled.wrote hfilled.parts.kinds).bind ?_
    rintro w' ⟨hwrote, hrecords⟩
    have hadded : Added x a s key done (w', b) :=
      ⟨blocks, groups, pending, ⟨hwrote, hfilled.parts, hrecords.trans hfilled.records,
        hfilled.batch, hfilled.fits⟩, hdone⟩
    cases hpage : snapshotPage x.size x.records (lastName done) PAGE x.limits.maxFrameBytes with
    | error e =>
      refine hadded.stopped fun hsmooth => ?_
      have hfit : ∀ e ∈ rest.head?, x.size e.1 e.2 ≤ x.limits.maxFrameBytes := fun e he =>
        hsmooth.room.stored e (hentries ▸ List.mem_append_right _ (List.mem_of_mem_head? he))
      obtain ⟨_, _, hok, -⟩ := snapshotPage_ok hentries (by decide : PAGE ≠ 0) hlimit hfit
      rw [hpage] at hok
      cases hok
    | ok page =>
      obtain ⟨rest', hrest, hne⟩ := snapshotPage_eq_ok hentries (by decide) hlimit hpage
      dsimp only
      cases hlast : lastName page with
      | none =>
        have hnil : page = [] := by
          rw [lastName, Option.map_eq_none_iff] at hlast
          exact List.getLast?_eq_none_iff.mp hlast
        have hend : rest = [] := by
          by_contra hrest'
          exact hne hrest' hnil
        rw [hend, List.append_nil] at hentries
        rw [hentries]
        exact hadded
      | some next =>
        have hpage : page ≠ [] := by
          rintro rfl
          cases hlast
        have hpos := List.length_pos_iff.mpr hpage
        dsimp only
        split
        · -- The page is behind the cursor.
          rename_i hback
          rw [hrest] at hentries
          exact hadded.stopped fun _ => lastName_lt hentries hlast hback
        · have hentries' : x.records.entries = done ++ page ++ rest' := by
            rw [hentries, hrest, List.append_assoc]
          have hpart : done ++ page <+: x.records.entries := ⟨rest', hentries'.symm⟩
          refine (Ends.foldlM (fun _ _ _ hpart h => addRecord_ends hpart h) page hpart hadded).bind ?_
          intro state hstate
          rw [← hlast, ← lastName_append hpage]
          refine ih hstate hentries' ?_
          rw [hrest, List.length_append] at hrounds
          omega

/-- Magic and identity, then the header frame. -/
theorem writeHeader_ends :
    Ends (writeHeader x a s key .start)
      (fun w => ∃ blocks, Parts x a s key blocks [] ∧ Wrote x w blocks ∧ w.records = 0)
      (fun e => Stopped x a s e.2) := by
  have hmagic : MAGIC ≠ [] := by decide
  have hid : x.streamId.1 ≠ [] := by
    intro hnil
    have hlength := x.streamId.2
    rw [hnil] at hlength
    cases hlength
  unfold writeHeader FrameWriter.checkCancel
  split
  · rename_i hset
    refine stopped_start rfl rfl fun hsmooth => ?_
    rw [hsmooth.cancelled] at hset
    cases hset
  · refine ((reserve_ends _ _).mono (fun _ h => h) ?_).bind fun _ hquota => ?_
    · rintro e ⟨he, hover⟩
      rw [he]
      refine stopped_start rfl rfl fun hsmooth => ?_
      have hmin := (StreamLimits.validate_ok hsmooth.room.limits).2.2.1
      rw [x.streamId.2] at hover
      change _ < 0 + _ at hover
      omega
    refine ((emit_ends _ hmagic).mono (fun _ h => h) ?_).bind fun w₁ hw₁ => ?_
    · rintro e ⟨hfailed, part, more, hdata, hmore, he⟩
      rw [he]
      refine ⟨.inl ⟨more ++ x.streamId.1, by simp [hmore], ?_⟩, nofun,
        fun hsmooth => hfailed (hsmooth.write _ _)⟩
      rw [hdata, List.append_assoc]
      rfl
    refine ((emit_ends _ hid).mono (fun _ h => h) ?_).bind fun w₂ hw₂ => ?_
    · rintro e ⟨hfailed, part, more, hdata, hmore, he⟩
      rw [he, hw₁]
      refine ⟨.inl ⟨more, hmore, ?_⟩, nofun, fun hsmooth => hfailed (hsmooth.write _ _)⟩
      rw [hdata, ← List.append_assoc]
      rfl
    have hwrote : Wrote x w₂ [] := by
      rw [hw₂, hw₁]
      refine ⟨?_, rfl, ?_, rfl, ?_, .nil, fun p hp => absurd hp List.not_mem_nil⟩
      · dsimp only
        rw [encodeAll_nil, List.append_nil]
        rfl
      · dsimp only
        rw [List.length_append, List.length_append]
        rfl
      · dsimp only
        rw [Nat.add_assoc]
        exact hquota
    have hnone : ∀ b ∈ ([] : List Block), b.kind ≠ TRAILER :=
      fun b hb => absurd hb List.not_mem_nil
    have hrecords : w₂.records = 0 := by rw [hw₂, hw₁]; rfl
    have hbytes : w₂.bytes = 32 := by
      rw [hwrote.bytes, hwrote.emitted, encodeAll_nil, List.append_nil, List.length_append,
        x.streamId.2]
      decide
    dsimp only
    split
    · rename_i hlong
      exact hwrote.stopped_here hnone fun hsmooth => absurd hsmooth.room.header (not_le.mpr hlong)
    · rename_i hlength
      have hroom : Smooth x a s → RoomFor x w₂ (headerText x s) := by
        intro hsmooth
        have hheader := hsmooth.room.header
        have hmax := (StreamLimits.validate_ok hsmooth.room.limits).2.1
        have hquota := hsmooth.room.quota
        unfold RoomFor
        omega
      refine (frame_ends hwrote hnone HEADER hroom).mono ?_ (fun _ he => he)
      rintro w ⟨b, hframe, hwrote', hrecords'⟩
      exact ⟨[b], ⟨b, [], rfl, hframe, not_lt.mp hlength, .nil⟩, hwrote',
        hrecords'.trans hrecords⟩

/-- The trailer of an archive whose other blocks are these. -/
def trailerOf (s : StreamCodec C) (id : Fixed 16) (records : ℕ) (blocks : List Block) :
    TrailerFrame :=
  ⟨"trailer".toList, records, blocks.length, s.digest (MAGIC ++ (id.1 ++ encodeAll blocks))⟩

/-- A complete archive of the snapshot, and the summary of its export. -/
structure Complete (x : Call C) (a : Aead) (s : StreamCodec C) (key : Bytes)
    (summary : StreamSummary) (w : FrameWriter) (blocks : List Block) (last : Block)
    (groups : List (List (Text × Json))) : Prop where
  wrote : Wrote x w (blocks ++ [last])
  parts : Parts x a s key blocks groups
  records : groups.flatten = x.records.entries
  trailer : FrameAt a key x.streamId TRAILER
    (s.trailer (trailerOf s x.streamId x.records.entries.length blocks)) (last, blocks.length)
  summary : summary = ⟨x.createdAt, x.streamId, blocks.length + 1, x.records.entries.length,
    w.emitted.length, s.digest (MAGIC ++ (x.streamId.1 ++ encodeAll blocks))⟩

theorem writeTrailer_ends (h : Filled x a s key (w, b) blocks groups [])
    (hflatten : groups.flatten = x.records.entries) :
    Ends (writeTrailer x a s key w)
      (fun r => ∃ last, Complete x a s key r.1 r.2 blocks last groups)
      (fun e => Stopped x a s e.2) := by
  have hwrote : Wrote x w blocks := h.wrote
  have hrecords : w.records = groups.flatten.length := h.records
  have hroom : Smooth x a s → RoomFor x w
      (s.trailer ⟨"trailer".toList, w.records, w.frames, s.digest w.transcript⟩) := by
    intro hsmooth
    have hbytes := h.bytes_le hsmooth
    have hframes := h.parts.length_le
    rw [List.append_nil, hflatten] at hbytes
    rw [hflatten, ← hwrote.frames] at hframes
    have hshort := hsmooth.trailer w.frames w.transcript hframes
    have hquota := hsmooth.room.quota
    have hmin : MIN_FRAME_BYTES ≤ MAX_FRAME_BYTES := by decide
    rw [hrecords, hflatten]
    unfold RoomFor
    dsimp only at hbytes
    omega
  unfold writeTrailer
  refine (frame_ends hwrote h.parts.kinds TRAILER hroom).bind ?_
  rintro w' ⟨last, hframe, hwrote', hrecords'⟩
  rw [hwrote.transcript, hwrote.emitted, hwrote.frames, hrecords, hflatten] at hframe
  refine ⟨last, hwrote', h.parts, hflatten, hframe, ?_⟩
  rw [hwrote'.frames, hwrote'.bytes, hrecords', hrecords, hflatten, hwrote.transcript,
    hwrote.emitted, List.length_append, List.length_singleton]

/-- The export reached its flush with a complete archive. -/
def Finished (x : Call C) (a : Aead) (s : StreamCodec C) (r : StreamSummary × FrameWriter) : Prop :=
  ∃ key blocks last groups, x.key = .ok key ∧ x.limits.validate = .ok () ∧
    Complete x a s key r.1 r.2 blocks last groups

/-- **The whole archive**: written, it is complete; stopped, it is incomplete. -/
theorem writeArchive_ends :
    Ends (writeArchive x a s) (Finished x a s) (fun e => Stopped x a s e.2) := by
  unfold writeArchive
  cases hlimits : x.limits.validate with
  | error e =>
    refine stopped_start rfl rfl fun hsmooth => ?_
    rw [hsmooth.room.limits] at hlimits
    cases hlimits
  | ok u =>
    cases hkey : x.key with
    | error e =>
      refine stopped_start rfl rfl fun hsmooth => ?_
      obtain ⟨key, hok⟩ := hsmooth.room.key
      rw [hok] at hkey
      cases hkey
    | ok key =>
      cases hallowed : x.management with
      | error e =>
        refine stopped_start rfl rfl fun hsmooth => ?_
        rw [hsmooth.room.allowed] at hallowed
        cases hallowed
      | ok v =>
        have hlimit : x.limits.maxFrameBytes ≠ 0 :=
          Nat.ne_of_gt (Nat.lt_of_lt_of_le (by decide) (StreamLimits.validate_ok hlimits).1)
        refine writeHeader_ends.bind ?_
        rintro w ⟨blocks, hparts, hwrote, hrecords⟩
        have hstart : Added x a s key [] (w, Batch.new w.frames) :=
          ⟨blocks, [], [], ⟨hwrote, hparts, hrecords, by rw [hwrote.frames]; rfl,
            fun hne => absurd rfl hne⟩, rfl⟩
        refine (addPages_ends hlimit hstart rfl (Nat.lt_succ_self _)).bind ?_
        rintro ⟨w, b⟩ ⟨blocks, groups, pending, hfilled, hdone⟩
        have hbatch : b = Batch.of s blocks.length pending := hfilled.batch
        have hcount : b.count = pending.length := by rw [hbatch, Batch.count_of]
        have htrailer : ∀ {w b blocks groups}, Filled x a s key (w, b) blocks groups [] →
            groups.flatten = x.records.entries →
            Ends (writeTrailer x a s key w) (Finished x a s) (fun e => Stopped x a s e.2) := by
          intro w b blocks groups hfilled hflatten
          refine (writeTrailer_ends hfilled hflatten).mono ?_ fun _ he => he
          rintro r ⟨last, hcomplete⟩
          exact ⟨key, blocks, last, groups, hkey, hlimits, hcomplete⟩
        dsimp only
        split
        · refine (finish_ends hfilled (List.length_pos_iff.mp (by omega))
            (hdone ▸ List.prefix_rfl)).bind ?_
          rintro w' ⟨block, hnext⟩
          exact htrailer hnext (by rw [hdone]; simp)
        · have hnil : pending = [] := List.length_eq_zero_iff.mp (by omega)
          subst hnil
          exact htrailer hfilled (by rw [hdone, List.append_nil])

/-- An export that nothing disturbs gets to its flush. -/
theorem Smooth.finished (h : Smooth x a s) :
    ∃ r, writeArchive x a s = .ok r ∧ Finished x a s r := by
  have hends := @writeArchive_ends C x a s
  cases hwrite : writeArchive x a s with
  | error e =>
    rw [hwrite] at hends
    exact absurd h hends.disturbed
  | ok r =>
    rw [hwrite] at hends
    exact ⟨r, rfl, hends⟩

end Snapshot

end RiAuth.Operations
