import RiAuth.Operations.StreamRoundTrip

/-!
# What an adversary can make of archives

Several exports run under one key, each with its own stream identity. The cipher is ideal: it opens
what the exports sealed, under the nonce and the context it was sealed with, and nothing else. The
context fixes archive, position and kind of a frame, so a byte string a scan accepts is one archive,
frame for frame.

* `aad_inj`: the context fixes identity, position and kind;
* `Ideal.archive`: what a scan accepts is the archive whose trailer it ends with;
* `scan_authentic_iff`: **what is accepted was emitted by one export that succeeded**, just when no
  export fails in its flush, behind a whole archive that can be read.
-/

namespace RiAuth.Operations

open Framing Store Checks Outcome

theorem aad_inj {id id' : Fixed 16} {i j : ℕ} {kind kind' : UInt8}
    (h : aad id i kind = aad id' j kind') :
    id = id' ∧ bigEndian 8 i = bigEndian 8 j ∧ kind = kind' := by
  unfold aad at h
  obtain ⟨hid, h⟩ := List.append_inj (List.append_cancel_left h) (by rw [id.2, id'.2])
  obtain ⟨hindex, hkind⟩ := List.append_inj h (by rw [length_bigEndian, length_bigEndian])
  exact ⟨Subtype.ext hid, hindex, List.head_eq_of_cons_eq hkind⟩

section Auth

variable {ι C : Type} {a : Aead} {s : StreamCodec C} {key : Bytes}

/-- The writer as an export leaves it. -/
def finalWriter (x : Call C) (a : Aead) (s : StreamCodec C) : FrameWriter :=
  match writeArchive x a s with
  | .ok (_, w) => w
  | .error (_, w) => w

/-- What a sealed frame puts into an archive behind its head. -/
def SealedFrame.payload (f : SealedFrame) : Bytes := Crypto.marker ++ (f.nonce.1 ++ f.body)

/-- The cipher is ideal for these exports. -/
structure Ideal (x : ι → Call C) (a : Aead) (s : StreamCodec C) (key : Bytes) : Prop where
  tag : ∀ nonce context plaintext,
    (a.encrypt key nonce context plaintext).length = plaintext.length + 16
  /-- Only what one of the exports sealed is opened. -/
  opened : ∀ nonce context body plaintext, a.decrypt key nonce context body = some plaintext →
    ∃ i, ∃ f ∈ (finalWriter (x i) a s).sealed,
      nonce = f.nonce.1 ∧ body = f.body ∧ context = aad (x i).streamId f.index f.kind
  /-- And that is opened. -/
  opens : ∀ i, ∀ f ∈ (finalWriter (x i) a s).sealed, ∀ plaintext,
    f.body = a.encrypt key f.nonce.1 (aad (x i).streamId f.index f.kind) plaintext →
    a.decrypt key f.nonce.1 (aad (x i).streamId f.index f.kind) f.body = some plaintext
  /-- A frame that was sealed and not emitted does not stand in an archive by chance. -/
  fresh : ∀ i, ∀ f ∈ (finalWriter (x i) a s).sealed, ∀ j,
    f.payload <:+: (finalWriter (x j) a s).emitted → f.index < (finalWriter (x i) a s).frames

/-- Put together from what the exports emitted: no sealed frame stands in it that was never seen. -/
def Assembled (x : ι → Call C) (a : Aead) (s : StreamCodec C) (input : Bytes) : Prop :=
  ∀ i, ∀ f ∈ (finalWriter (x i) a s).sealed, f.payload <:+: input →
    ∃ j, f.payload <:+: (finalWriter (x j) a s).emitted

/-- Whatever a scan accepts was emitted, byte for byte, by one export that succeeded. -/
def Authentic (x : ι → Call C) (a : Aead) (s : StreamCodec C) (key : Bytes) : Prop :=
  ∀ limits : StreamLimits, limits.validate = .ok () → ∀ cancelled visit input scanned,
    Assembled x a s input → scan a s limits key cancelled visit input = .ok scanned →
    ∃ i summary w, backupStreamAs (x i) a s = .ok (summary, w) ∧ w.emitted = input

/-- Behind a whole archive the flush succeeds, or the archive cannot be read. -/
def Settled (x : Call C) (a : Aead) (s : StreamCodec C) : Prop :=
  ∀ r, writeArchive x a s = .ok r →
    x.sink.flush = true ∨ ∃ e ∈ x.records.entries, MAX_VALUE_DEPTH < e.2.depth

variable {r : StreamSummary × FrameWriter} {b : Block} {blocks : List Block} {x : ι → Call C}

theorem finalWriter_ok {x : Call C} (h : writeArchive x a s = .ok r) : finalWriter x a s = r.2 := by
  unfold finalWriter
  rw [h]

theorem Carries.unique {f : SealedFrame} {b' : Block} (h : Carries f b) (h' : Carries f b') :
    b = b' := by
  obtain ⟨hkind, hpayload⟩ := h
  obtain ⟨hkind', hpayload'⟩ := h'
  cases b
  cases b'
  cases hkind.trans hkind'.symm
  cases hpayload.trans hpayload'.symm
  rfl

/-- The frame that a block carries. -/
theorem Wrote.carrier {x : Call C} {w : FrameWriter} (h : Wrote x w blocks) {placed : Block × ℕ}
    (hplaced : placed ∈ blocks.zipIdx) :
    ∃ f ∈ w.sealed, f.index = placed.2 ∧ Carries f placed.1 := by
  have hb := List.mem_zipIdx_iff_getElem?.mp hplaced
  have hlt : placed.2 < w.sealed.length :=
    h.logged.length_eq ▸ (List.getElem?_eq_some_iff.mp hb).1
  have hmem := List.getElem_mem hlt
  have hindex := h.placed (w.sealed[placed.2], placed.2)
    (List.mem_zipIdx_iff_getElem?.mpr (List.getElem?_eq_getElem hlt))
  obtain ⟨b, hb', hcarries⟩ := h.carried hmem
  rw [hindex, hb] at hb'
  cases hb'
  exact ⟨_, hmem, hindex, hcarries⟩

/-- What an export wrote opens. -/
theorem Ideal.unlocks (h : Ideal x a s key) {i : ι}
    (hwrote : Wrote (x i) (finalWriter (x i) a s) blocks) :
    Unlocks a key (x i).streamId blocks := by
  rintro placed hplaced kind plaintext ⟨hkind, nonce, hpayload⟩
  obtain ⟨f, hf, hindex, hfkind, hfpayload⟩ := hwrote.carrier hplaced
  have hbody := List.append_cancel_left (hfpayload.symm.trans hpayload)
  obtain ⟨hnonce, hbody⟩ := List.append_inj hbody (by rw [f.nonce.2, nonce.2])
  cases Subtype.ext hnonce
  rw [hfkind] at hkind
  subst hkind
  rw [← hindex] at hbody
  have hopens := h.opens i f hf plaintext hbody
  have hlength := h.tag f.nonce.1 (aad (x i).streamId f.index f.kind) plaintext
  refine ⟨hfkind, ?_, ?_⟩
  · rw [hpayload, Crypto.length_sealed (h.tag _ _ _)]
    rfl
  · rw [hfpayload, ← hindex]
    exact Crypto.unseal_of_decrypt (by rw [hbody, hlength]; omega) hopens

/-- A block that opens is a frame some export sealed. -/
theorem Ideal.carries (h : Ideal x a s key) {id : Fixed 16} {i : ℕ} (hopen : Opens a key id (b, i)) :
    ∃ j, ∃ f ∈ (finalWriter (x j) a s).sealed,
      aad id i b.kind = aad (x j).streamId f.index f.kind ∧ b.payload = f.payload := by
  obtain ⟨plaintext, hplain⟩ := hopen
  obtain ⟨nonce, body, hpayload, hdecrypt⟩ := Crypto.unseal_ok hplain
  obtain ⟨j, f, hf, hnonce, hbody, hcontext⟩ := h.opened _ _ _ _ hdecrypt
  refine ⟨j, f, hf, hcontext, ?_⟩
  rw [hpayload, hnonce, hbody]
  rfl

/-- Positions within a quota fit the eight bytes of the context. -/
theorem length_lt_of_quota {limits : StreamLimits} {n : ℕ} (hlimits : limits.validate = .ok ())
    (h : (encodeAll blocks).length ≤ n) (hn : n ≤ limits.maxArchiveBytes) :
    blocks.length < 256 ^ 8 := by
  have hmax : MAX_ARCHIVE_BYTES < 256 ^ 8 := by decide
  have hle := (StreamLimits.validate_ok hlimits).2.2.2
  have hblocks := length_le_encodeAll blocks
  omega

theorem payload_infix (h : b ∈ blocks) (front : Bytes) :
    b.payload <:+: front ++ encodeAll blocks := by
  obtain ⟨before, after, rfl⟩ := List.append_of_mem h
  refine ⟨front ++ (encodeAll before ++ b.head), encodeAll after, ?_⟩
  rw [encodeAll_append, encodeAll_cons, Block.encode]
  simp only [List.append_assoc]

/-- **The archive that a scan ends with**: its trailer was emitted by an export, and what the scan
accepts is the archive of that export. -/
theorem Ideal.archive (hideal : Ideal x a s key)
    (hunique : ∀ i j, (x i).streamId = (x j).streamId → i = j) {limits : StreamLimits}
    (hlimits : limits.validate = .ok ()) {cancelled : ℕ → Bool} {visit : Text → Json → Result Unit}
    {input : Bytes} {scanned : Scanned C} (hinput : Assembled x a s input)
    (hscan : scan a s limits key cancelled visit input = .ok scanned) :
    ∃ j r, writeArchive (x j) a s = .ok r ∧ Finished (x j) a s r ∧ r.2.emitted = input := by
  obtain ⟨id, blocks, last, hbytes, hkinds, hlast, hopen, hquota⟩ := scan_ok hscan
  -- The last block is the trailer of an export, and that export emitted it.
  obtain ⟨j, f, hf, haad, hpayload⟩ := hideal.carries (b := last) (i := blocks.length)
    (hopen (last, blocks.length) (by rw [List.zipIdx_append]; simp))
  obtain ⟨hid, hindex, hkind⟩ := aad_inj haad
  rw [hlast] at hkind
  have hseen : f.payload <:+: input := by
    rw [hbytes, ← List.append_assoc, ← hpayload]
    exact payload_infix (by simp) _
  obtain ⟨k, hk⟩ := hinput j f hf hseen
  have hemitted := hideal.fresh j f hf k hk
  have hends := @writeArchive_ends C (x j) a s
  cases hwrite : writeArchive (x j) a s with
  | error e =>
    rw [hwrite] at hends
    unfold finalWriter at hf hemitted
    rw [hwrite] at hf hemitted
    exact absurd hemitted (not_lt.mpr (hends.trailer f hf hkind.symm))
  | ok r =>
    rw [hwrite] at hends
    refine ⟨j, r, hwrite, hends, ?_⟩
    obtain ⟨_, written, trailer, _, -, hvalid, hcomplete⟩ := hends
    have hfinal := finalWriter_ok hwrite
    have hwrote := hcomplete.wrote
    have hread : (blocks ++ [last]).length < 256 ^ 8 := by
      refine length_lt_of_quota hlimits ?_ hquota
      rw [hbytes, List.length_append, List.length_append]
      omega
    have hlength : (written ++ [trailer]).length < 256 ^ 8 := by
      refine length_lt_of_quota hvalid ?_ hwrote.quota
      rw [hwrote.bytes, hwrote.emitted, List.length_append, List.length_append]
      omega
    -- Every block that opens at a position is the block the export wrote there.
    have hsame : ∀ (i : ℕ) b, (blocks ++ [last])[i]? = some b →
        (written ++ [trailer])[i]? = some b := by
      intro i b hb
      obtain ⟨k, g, hg, hcontext, hpayload⟩ := hideal.carries
        (hopen (b, i) (List.mem_zipIdx_iff_getElem?.mpr hb))
      obtain ⟨hid', hi, hkind'⟩ := aad_inj hcontext
      cases hunique j k (hid.symm.trans hid')
      rw [hfinal] at hg
      obtain ⟨b', hb', hcarries⟩ := hwrote.carried hg
      have hpos := (List.getElem?_eq_some_iff.mp hb).1
      have hpos' := (List.getElem?_eq_some_iff.mp hb').1
      have hplace : i = g.index := bigEndian_inj (hpos.trans hread) (hpos'.trans hlength) hi
      rw [hplace, hb', hcarries.unique ⟨hkind', hpayload⟩]
    -- The trailer stands at the end of both.
    have hend : blocks.length = written.length := by
      have hat := hsame blocks.length last (by simp)
      have hle : ¬ blocks.length < written.length := by
        intro hlt
        rw [List.getElem?_append_left hlt] at hat
        exact hcomplete.parts.kinds last (List.mem_of_getElem? hat) hlast
      have hlt := (List.getElem?_eq_some_iff.mp hat).1
      rw [List.length_append, List.length_singleton] at hlt
      omega
    have hblocks : written ++ [trailer] = blocks ++ [last] := by
      refine List.ext_getElem? fun i => ?_
      cases hb : (blocks ++ [last])[i]? with
      | some b => exact hsame i b hb
      | none =>
        rw [List.getElem?_eq_none_iff, List.length_append] at hb ⊢
        rw [← hend]
        exact hb
    rw [hwrote.emitted, hbytes, hblocks, hid]

/-- The reader's view of what an export wrote. -/
theorem Ideal.legible (h : Ideal x a s key) (hkey : ∀ i, (x i).key = .ok key) {i : ι}
    (hwrite : writeArchive (x i) a s = .ok r) (hfinished : Finished (x i) a s r) :
    (x i).limits.validate = .ok () ∧ ∃ header rest last groups,
      r.2.emitted = MAGIC ++ ((x i).streamId.1 ++ encodeAll (header :: (rest ++ [last]))) ∧
      Legible (x i) a s key r.2.emitted header rest last groups := by
  obtain ⟨key', blocks, last, groups, hkey', hlimits, hcomplete⟩ := hfinished
  cases (hkey i).symm.trans hkey'
  have hwrote := hcomplete.wrote
  obtain ⟨header, rest, rfl, hlegible⟩ :=
    hcomplete.legible (h.unlocks ((finalWriter_ok hwrite).symm ▸ hwrote))
  exact ⟨hlimits, header, rest, last, groups, hwrote.emitted, hlegible⟩

theorem backupStreamAs_ok_iff {x : Call C} :
    backupStreamAs x a s = .ok r ↔ writeArchive x a s = .ok r ∧ x.sink.flush = true := by
  unfold backupStreamAs
  rw [bind_ok]
  constructor
  · rintro ⟨r', hwrite, h⟩
    dsimp only at h
    split at h
    · rename_i hflush
      cases h
      exact ⟨hwrite, hflush⟩
    · cases h
  · rintro ⟨hwrite, hflush⟩
    exact ⟨r, hwrite, if_pos hflush⟩

/-- An export that fails behind a readable archive is accepted like one that succeeded. -/
theorem Authentic.settled (h : Authentic x a s key) (hideal : Ideal x a s key)
    (hunique : ∀ i j, (x i).streamId = (x j).streamId → i = j) (hs : ∀ i, Faithful (x i) s)
    (hnames : ∀ i, ∀ r ∈ (x i).records.entries, ∃ p, splitRecordKey r.1 = .ok p)
    (hkey : ∀ i, (x i).key = .ok key) (i : ι) : Settled (x i) a s := by
  intro r hwrite
  by_contra hnot
  push Not at hnot
  have hfinished := (@writeArchive_ends C (x i) a s).ok_of hwrite
  obtain ⟨hlimits, header, rest, last, groups, hemitted, hlegible⟩ :=
    hideal.legible hkey hwrite hfinished
  have hscan := scan_complete (hs i) hlimits (hnames i) hnot.2 hlegible
  have hassembled : Assembled x a s r.2.emitted := fun _ f _ hf =>
    ⟨i, (finalWriter_ok hwrite).symm ▸ hf⟩
  obtain ⟨k, summary, w, hok, hsame⟩ := h _ hlimits _ _ _ _ hassembled hscan
  obtain ⟨hwrite', hflush⟩ := backupStreamAs_ok_iff.mp hok
  have hfinished' := (@writeArchive_ends C (x k) a s).ok_of hwrite'
  obtain ⟨-, _, _, _, _, hemitted', -⟩ := hideal.legible hkey hwrite' hfinished'
  -- The bytes name the export.
  have hid : (x k).streamId = (x i).streamId := by
    have hbytes := List.append_cancel_left (hemitted'.symm.trans (hsame.trans hemitted))
    exact Subtype.ext (List.append_inj hbytes (by rw [(x k).streamId.2, (x i).streamId.2])).1
  cases hunique k i hid
  exact hnot.1 hflush

/-- **What a scan accepts is one archive of an export that succeeded**, just when no export of the
set fails in its flush behind a whole archive that can be read. -/
theorem scan_authentic_iff (x : ι → Call C) (hideal : Ideal x a s key)
    (hunique : ∀ i j, (x i).streamId = (x j).streamId → i = j) (hs : ∀ i, Faithful (x i) s)
    (hnames : ∀ i, ∀ r ∈ (x i).records.entries, ∃ p, splitRecordKey r.1 = .ok p)
    (hkey : ∀ i, (x i).key = .ok key) :
    Authentic x a s key ↔ ∀ i, Settled (x i) a s := by
  refine ⟨fun h => h.settled hideal hunique hs hnames hkey, fun h => ?_⟩
  intro limits hlimits cancelled visit input scanned hinput hscan
  obtain ⟨j, r, hwrite, hfinished, rfl⟩ := hideal.archive hunique hlimits hinput hscan
  obtain ⟨-, header, rest, last, groups, -, hlegible⟩ := hideal.legible hkey hwrite hfinished
  rcases h j r hwrite with hflush | ⟨e, he, hdeep⟩
  · exact ⟨j, r.1, r.2, backupStreamAs_ok_iff.mpr ⟨hwrite, hflush⟩, rfl⟩
  · exact absurd (scan_deep (hs j) hlegible hscan e he) (not_le.mpr hdeep)

end Auth

/-! ## Two exports -/

/-- An export of the same user that stops in its trailer: the head of the frame is written, the rest
is not. -/
def strayCall : Call Unit :=
  { Sample.one.call true with
    streamId := ⟨List.replicate 16 2, rfl⟩
    nonce := fun n => some (plainNonce (n + 200))
    sink := ⟨fun taken _ => if taken.length = 281 then some 0 else none, true⟩ }

/-- One export that gets to its flush, and the one that does not. -/
def twoCalls (flush : Bool) : Bool → Call Unit
  | true => Sample.one.call flush
  | false => strayCall

/-- One of these exports sealed this. -/
def twoSealed (nonce context body : Bytes) : Bool :=
  [true, false].any fun i =>
    (finalWriter (twoCalls true i) tagAead Sample.one.codec).sealed.any fun f =>
      decide (nonce = f.nonce.1 ∧ body = f.body ∧
        context = aad (twoCalls true i).streamId f.index f.kind)

/-- A cipher that opens nothing but the frames of these exports. -/
def twoAead : Aead where
  encrypt := tagAead.encrypt
  decrypt key nonce context body :=
    if twoSealed nonce context body then tagAead.decrypt key nonce context body else none

theorem decrypt_twoAead (key nonce context body : Bytes) :
    twoAead.decrypt key nonce context body =
      if twoSealed nonce context body then tagAead.decrypt key nonce context body else none := by
  simp only [twoAead]

set_option maxRecDepth 10000 in
theorem finalWriter_twoCalls (flush i : Bool) :
    finalWriter (twoCalls flush i) twoAead Sample.one.codec =
      finalWriter (twoCalls true i) tagAead Sample.one.codec := by
  cases i <;> cases flush <;> rfl

set_option maxRecDepth 10000 in
/-- The one frame that was not emitted has a nonce of its own. -/
theorem emitted_or_fresh (i : Bool) :
    ∀ f ∈ (finalWriter (twoCalls true i) tagAead Sample.one.codec).sealed,
      f.index < (finalWriter (twoCalls true i) tagAead Sample.one.codec).frames ∨
        202 ∈ f.nonce.1 := by
  cases i
  · decide
  · decide

set_option maxRecDepth 10000 in
theorem fresh_not_emitted (i : Bool) :
    202 ∉ (finalWriter (twoCalls true i) tagAead Sample.one.codec).emitted := by
  cases i
  · decide
  · decide

theorem streamId_twoCalls (flush i : Bool) :
    (twoCalls flush i).streamId = (twoCalls true i).streamId := by
  cases i <;> rfl

theorem twoAead_ideal (flush : Bool) :
    Ideal (twoCalls flush) twoAead Sample.one.codec sampleKey where
  tag := tagAead_lawful.length_encrypt sampleKey
  opened nonce context body plaintext h := by
    rw [decrypt_twoAead] at h
    split at h
    · rename_i hany
      unfold twoSealed at hany
      obtain ⟨i, -, hany⟩ := List.any_eq_true.mp hany
      obtain ⟨f, hf, hopened⟩ := List.any_eq_true.mp hany
      refine ⟨i, f, ?_, ?_⟩
      · rw [finalWriter_twoCalls]
        exact hf
      · rw [streamId_twoCalls]
        exact of_decide_eq_true hopened
    · cases h
  opens i f hf plaintext hbody := by
    rw [finalWriter_twoCalls] at hf
    have hseal : twoAead.encrypt = tagAead.encrypt := by simp only [twoAead]
    rw [decrypt_twoAead, if_pos, hbody, hseal]
    · exact tagAead_lawful.decrypt_encrypt _ _ _ _
    · unfold twoSealed
      refine List.any_eq_true.mpr ⟨i, by cases i <;> decide, List.any_eq_true.mpr ⟨f, hf, ?_⟩⟩
      rw [streamId_twoCalls]
      exact decide_eq_true ⟨rfl, rfl, rfl⟩
  fresh i f hf j hj := by
    rw [finalWriter_twoCalls] at hf hj ⊢
    refine (emitted_or_fresh i f hf).resolve_right fun hnonce => fresh_not_emitted j ?_
    exact hj.subset (List.mem_append_right _ (List.mem_append_left _ hnonce))

theorem twoCalls_unique (flush : Bool) (i j : Bool)
    (h : (twoCalls flush i).streamId = (twoCalls flush j).streamId) : i = j := by
  rw [streamId_twoCalls, streamId_twoCalls flush j] at h
  revert h
  cases i <;> cases j <;> decide

theorem twoCalls_faithful (flush i : Bool) : Faithful (twoCalls flush i) Sample.one.codec := by
  have h := @Sample.faithful Sample.one true Sample.one_short
  cases i
  · exact ⟨h.header, h.records, h.deep, h.trailer⟩
  · exact ⟨h.header, h.records, h.deep, h.trailer⟩

theorem twoCalls_names (flush i : Bool) :
    ∀ r ∈ (twoCalls flush i).records.entries, ∃ p, splitRecordKey r.1 = .ok p := by
  have h := @Sample.names Sample.one true
  cases i
  · exact h
  · exact h

theorem twoCalls_key (flush i : Bool) : (twoCalls flush i).key = .ok sampleKey := by
  cases i <;> rfl

theorem twoCalls_smooth (flush : Bool) : Smooth (twoCalls flush true) twoAead Sample.one.codec :=
  have h := @Sample.smooth Sample.one flush Sample.one_short
  ⟨h.room, h.cancelled, h.nonce, h.write, h.tag, h.trailer⟩

set_option maxRecDepth 10000 in
theorem stray_stops : (finalWriter strayCall twoAead Sample.one.codec).frames <
    (finalWriter strayCall twoAead Sample.one.codec).sealed.length := by
  decide

/-- **An export that fails in its flush** leaves an archive that is accepted although no export
succeeded. -/
theorem scan_accepts_failed_export :
    Ideal (twoCalls false) twoAead Sample.one.codec sampleKey ∧
      ¬ Authentic (twoCalls false) twoAead Sample.one.codec sampleKey := by
  refine ⟨twoAead_ideal false, fun h => ?_⟩
  have hsettled := h.settled (twoAead_ideal false) (twoCalls_unique false)
    (twoCalls_faithful false) (twoCalls_names false) (twoCalls_key false) true
  obtain ⟨r, hwrite, -⟩ := (twoCalls_smooth false).finished
  rcases hsettled r hwrite with hflush | ⟨e, he, hdeep⟩
  · cases hflush
  · cases List.mem_singleton.mp he
    rw [Sample.depth_record] at hdeep
    exact absurd hdeep (by decide)

/-- With a flush that succeeds, the export that sealed a trailer and did not emit it does no
harm. -/
theorem scan_authentic_two :
    (finalWriter strayCall twoAead Sample.one.codec).frames <
        (finalWriter strayCall twoAead Sample.one.codec).sealed.length ∧
      (∃ r, backupStreamAs (twoCalls true true) twoAead Sample.one.codec = .ok r) ∧
      Authentic (twoCalls true) twoAead Sample.one.codec sampleKey := by
  refine ⟨?_, ?_, (scan_authentic_iff _ (twoAead_ideal true) (twoCalls_unique true)
    (twoCalls_faithful true) (twoCalls_names true) (twoCalls_key true)).mpr ?_⟩
  · exact stray_stops
  · obtain ⟨r, hwrite, -⟩ := (twoCalls_smooth true).finished
    exact ⟨r, backupStreamAs_ok_iff.mpr ⟨hwrite, rfl⟩⟩
  · intro i r _
    refine .inl ?_
    cases i
    · rfl
    · rfl

end RiAuth.Operations
