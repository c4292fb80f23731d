import RiAuth.Radius.Codec

/-!
# EAP-TLS fragments

An EAP-TLS conversation carries TLS messages in packets of bounded size. Who sends a message waits
for an empty acknowledgement after each fragment but the last. Who receives one hands it to TLS when
its last fragment is there.

* `Conversation.flight`: a message is cut into fragments, the first of which is sent;
* `receive`: one fragment joins those before it;
* `Conversation.front`: what a conversation does with an input before TLS sees any of it;
* `Conversation.step`: the whole step;
* `reassemble_fragments`: fragments are put together as they were cut.

A step that fails ends the conversation: the engine takes it out before the step and puts it back
with a challenge only.
-/

namespace RiAuth.Radius

open Checks Framing

/-! ## Packets -/

/-- Whether all EAP-Message attributes stand together. -/
def consecutive : Bool → Bool → List WireAttribute → Bool
  | _, _, [] => true
  | seen, ended, a :: rest =>
    if a.1 = 79 then !ended && consecutive true ended rest
    else consecutive seen (ended || seen) rest

/-- The EAP response that a request carries. -/
def message (p : Packet) : Result Bytes := do
  require (consecutive false false p.attrs) (.bad "EAP-Message attributes must be consecutive")
  let bytes := (p.attrs.filter fun a => a.1 = 79).flatMap Prod.snd
  require (5 ≤ bytes.length ∧ bytes.take 1 = [2] ∧
    fromBigEndian ((bytes.drop 2).take 2) = bytes.length) (.bad "Invalid EAP Response")
  .ok bytes

/-- An EAP packet. -/
def packet (code id : UInt8) (method : Option UInt8) (data : Bytes) : Bytes :=
  let body := method.toList ++ data
  code :: id :: (bigEndian 2 (4 + body.length) ++ body)

/-- Pieces of a given size, of which the last may be shorter. The first number bounds them. -/
def chunks (size : ℕ) : ℕ → Bytes → List Bytes
  | 0, _ => []
  | fuel + 1, bytes =>
    if bytes = [] then [] else bytes.take size :: chunks size fuel (bytes.drop size)

/-- What the packets of a message carry. All but the last announce another one, and the first of
several announces the length of the message. -/
def fragments (size : ℕ) (bytes : Bytes) : List Bytes :=
  let parts := chunks size bytes.length bytes
  parts.mapIdx fun i chunk =>
    let more : UInt8 := if i + 1 < parts.length then 0x40 else 0
    if size < bytes.length ∧ i = 0 then (more ||| 0x80) :: (bigEndian 4 bytes.length ++ chunk)
    else more :: chunk

/-! ## Input -/

/-- What an input carries after its header. -/
structure Fragment where
  flags : UInt8
  data : Bytes

namespace Fragment

/-- Flags and data of an EAP-TLS packet. -/
def ofInput (input : Bytes) : Fragment := ⟨(input.drop 5).headD 0, input.drop 6⟩

/-- Another fragment follows. -/
def More (f : Fragment) : Prop := f.flags &&& 0x40 ≠ 0

/-- The fragment begins with a length. -/
def Announces (f : Fragment) : Prop := f.flags &&& 0x80 ≠ 0

instance (f : Fragment) : Decidable f.More := inferInstanceAs (Decidable (_ ≠ _))

instance (f : Fragment) : Decidable f.Announces := inferInstanceAs (Decidable (_ ≠ _))

/-- The announced length. -/
def length (f : Fragment) : ℕ := fromBigEndian (f.data.take 4)

/-- The data after the length, if any. -/
def payload (f : Fragment) : Bytes := if f.Announces then f.data.drop 4 else f.data

/-- No flags and no data: an acknowledgement. -/
def Empty (f : Fragment) : Prop := f.flags = 0 ∧ f.data = []

instance (f : Fragment) : Decidable f.Empty := inferInstanceAs (Decidable (_ ∧ _))

end Fragment

/-- A message of which more is to come, or a whole one. -/
inductive Receipt where
  | more (received : Bytes) (total : Option ℕ)
  | message (bytes : Bytes)

/-- The length of the message, as far as it is known with this fragment. -/
def announce (received : Bytes) (total : Option ℕ) (f : Fragment) : Result (Option ℕ) :=
  if f.Announces then do
    require (4 ≤ f.data.length ∧ total = none ∧ received = [])
      (.bad "Invalid EAP-TLS fragment length field")
    require (f.length ≠ 0 ∧ f.length ≤ 65536) (.bad "EAP-TLS flight exceeds 64 KiB")
    .ok (some f.length)
  else .ok total

/-- A fragment joins what was received. -/
def receive (received : Bytes) (total : Option ℕ) (f : Fragment) : Result Receipt := do
  let total ← announce received total f
  require (f.payload ≠ [] ∧ received.length + f.payload.length ≤ 65536)
    (.bad "Empty or oversized EAP-TLS input")
  let received := received ++ f.payload
  if f.More then do
    require (∃ length ∈ total, received.length < length) (.bad "Invalid fragmented EAP-TLS input")
    .ok (.more received total)
  else do
    require (∀ length ∈ total, received.length = length) (.bad "Incomplete EAP-TLS flight")
    .ok (.message received)

/-! ## Conversations -/

/-- The TLS connection of a conversation: what it does with a message, whether it still shakes
hands, the identity of its certificate, the byte written at the end of a handshake, what each of its
writes gives, and the keys it agreed on. -/
structure Tls (σ I : Type) where
  read : σ → Bytes → Result σ
  isHandshaking : σ → Bool
  createIdentity : σ → Result I
  finish : σ → Result σ
  writes : σ → σ × List (Result Bytes)
  material : σ → Result Bytes

/-- The state of a conversation. -/
structure Conversation (σ I : Type) where
  tls : σ
  expected : UInt8
  rounds : ℕ
  received : Bytes
  total : Option ℕ
  outbound : List Bytes
  identity : Option I
  awaitSuccess : Bool
  fragmentSize : ℕ

/-- What a step answers. -/
inductive Step (I : Type) where
  | challenge (packet : Bytes)
  | accept (identity : I) (material : Bytes)

/-- What comes out before TLS is asked. -/
inductive Front (σ I : Type) where
  /-- The next of the own fragments is sent. -/
  | release (packet : Bytes) (c : Conversation σ I)
  /-- The next fragment is asked for. -/
  | more (packet : Bytes) (c : Conversation σ I)
  | success (identity : I) (c : Conversation σ I)
  | feed (message : Bytes) (c : Conversation σ I)

namespace Conversation

variable {σ I : Type}

/-- The next request. -/
def request (c : Conversation σ I) (data : Bytes) : Bytes × Conversation σ I :=
  (packet 1 (c.expected + 1) (some 13) data, { c with expected := c.expected + 1 })

/-- How the engine begins, with the identifier of the identity response. -/
def start (tls : σ) (identifier : UInt8) (fragmentSize : ℕ) : Bytes × Conversation σ I :=
  request ⟨tls, identifier, 0, [], none, [], none, false, fragmentSize⟩ [0x20]

/-- A message is queued, and its first packet sent. -/
def flight (c : Conversation σ I) (bytes : Bytes) : Result (Bytes × Conversation σ I) := do
  require (bytes ≠ [] ∧ bytes.length ≤ 65536) (.bad "Invalid EAP-TLS flight length")
  match c.outbound ++ fragments c.fragmentSize bytes with
  -- the source unwraps: without a fragment it would not get here
  | [] => .error .internal
  | next :: outbound => .ok (request { c with outbound } next)

/-- A step up to the point where TLS is fed. -/
def front (c : Conversation σ I) (input : Bytes) : Result (Front σ I) := do
  let c := { c with rounds := c.rounds + 1 }
  require (c.rounds ≤ 256 ∧ input[1]? = some c.expected ∧ input[4]? = some 13 ∧ 6 ≤ input.length)
    (.bad "Unexpected EAP-TLS response or sequence")
  let f := Fragment.ofInput input
  require (f.flags &&& 0x3f = 0) (.bad "Unsupported EAP-TLS flags")
  match c.outbound with
  | next :: outbound => do
    require f.Empty (.bad "EAP-TLS fragment acknowledgement must be empty")
    let sent := request { c with outbound } next
    .ok (.release sent.1 sent.2)
  | [] =>
    if c.awaitSuccess then do
      require f.Empty (.bad "EAP-TLS success acknowledgement must be empty")
      let identity ← okOr c.identity .forbidden
      .ok (.success identity c)
    else do
      let receipt ← receive c.received c.total f
      match receipt with
      | .more received total =>
        let sent := request { c with received, total } [0]
        .ok (.more sent.1 sent.2)
      | .message bytes => .ok (.feed bytes { c with received := [], total := none })

/-- What TLS writes, up to 64 KiB. -/
def output (writes : List (Result Bytes)) : Result Bytes :=
  writes.foldlM (fun outbound write => do
    let bytes ← write
    require ((outbound ++ bytes).length ≤ 65536) (.bad "EAP-TLS output flight exceeds 64 KiB")
    .ok (outbound ++ bytes)) []

/-- TLS is fed with a message, and what it has to say is sent. -/
def answer (tls : Tls σ I) (c : Conversation σ I) (message : Bytes) :
    Result (Step I × Conversation σ I) := do
  let state ← tls.read c.tls message
  let c ← (if tls.isHandshaking state then .ok { c with tls := state }
    else do
      let identity ← tls.createIdentity state
      let state ← tls.finish state
      .ok { c with tls := state, identity := some identity, awaitSuccess := true } :
    Result (Conversation σ I))
  let written := tls.writes c.tls
  let outbound ← output written.2
  let c := { c with tls := written.1 }
  if outbound = [] then .ok (.challenge (c.request [0]).1, (c.request [0]).2)
  else do
    let sent ← c.flight outbound
    .ok (.challenge sent.1, sent.2)

/-- The answer to an input. -/
def step (tls : Tls σ I) (c : Conversation σ I) (input : Bytes) :
    Result (Step I × Conversation σ I) := do
  let front ← c.front input
  match front with
  | .release packet c => .ok (.challenge packet, c)
  | .more packet c => .ok (.challenge packet, c)
  | .success identity c => do
    let material ← tls.material c.tls
    .ok (.accept identity material, c)
  | .feed message c => answer tls c message

end Conversation

/-! ## Cutting -/

theorem flatten_chunks {size : ℕ} (hsize : 0 < size) :
    ∀ {fuel : ℕ} {bytes : Bytes}, bytes.length ≤ fuel → (chunks size fuel bytes).flatten = bytes
  | 0, bytes, h => (List.eq_nil_of_length_eq_zero (Nat.le_zero.mp h)).symm
  | fuel + 1, bytes, h => by
    rw [chunks]
    split
    · rename_i hnil
      rw [hnil, List.flatten_nil]
    · rename_i hne
      have hpos := List.length_pos_iff.mpr hne
      have hrest : (bytes.drop size).length ≤ fuel := by
        rw [List.length_drop]
        omega
      rw [List.flatten_cons, flatten_chunks hsize hrest, List.take_append_drop]

theorem length_chunks {size : ℕ} (hsize : 0 < size) :
    ∀ {fuel : ℕ} {bytes : Bytes}, bytes.length ≤ fuel →
      (chunks size fuel bytes).length = (bytes.length + size - 1) / size
  | 0, bytes, h => by
    rw [Nat.le_zero.mp h, Nat.zero_add, Nat.div_eq_of_lt (Nat.sub_lt hsize Nat.one_pos)]
    rfl
  | fuel + 1, bytes, h => by
    rw [chunks]
    split
    · rename_i hnil
      rw [hnil, List.length_nil, List.length_nil, Nat.zero_add,
        Nat.div_eq_of_lt (Nat.sub_lt hsize Nat.one_pos)]
    · rename_i hne
      have hpos := List.length_pos_iff.mpr hne
      have hrest : (bytes.drop size).length ≤ fuel := by
        rw [List.length_drop]
        omega
      rw [List.length_cons, length_chunks hsize hrest, List.length_drop]
      rcases Nat.lt_or_ge bytes.length size with hlt | hge
      · rw [Nat.sub_eq_zero_of_le (Nat.le_of_lt hlt), Nat.zero_add,
          Nat.div_eq_of_lt (Nat.sub_lt hsize Nat.one_pos), Nat.zero_add,
          show bytes.length + size - 1 = bytes.length - 1 + size by omega,
          Nat.add_div_right _ hsize, Nat.div_eq_of_lt (by omega)]
      · rw [show bytes.length + size - 1 = bytes.length - size + size - 1 + size by omega,
          Nat.add_div_right _ hsize]

theorem ne_nil_of_mem_chunks {size : ℕ} (hsize : 0 < size) :
    ∀ {fuel : ℕ} {bytes chunk : Bytes}, chunk ∈ chunks size fuel bytes → chunk ≠ []
  | 0, _, _, h => absurd h List.not_mem_nil
  | fuel + 1, bytes, chunk, h => by
    rw [chunks] at h
    split at h
    · exact absurd h List.not_mem_nil
    · rename_i hne
      rcases List.mem_cons.mp h with rfl | h
      · intro hnil
        rcases List.take_eq_nil_iff.mp hnil with h | h
        · omega
        · exact hne h
      · exact ne_nil_of_mem_chunks hsize h

/-- Chunks with their flags, as those after the first fragment carry them. -/
def marked : List Bytes → List Bytes
  | [] => []
  | [chunk] => [0 :: chunk]
  | chunk :: next :: rest => (0x40 :: chunk) :: marked (next :: rest)

theorem mapIdx_eq_marked (parts : List Bytes) :
    (parts.mapIdx fun i chunk => (if i + 1 < parts.length then 0x40 else 0 : UInt8) :: chunk) =
      marked parts := by
  induction parts with
  | nil => rfl
  | cons chunk rest ih =>
    cases rest with
    | nil => rfl
    | cons next rest =>
      rw [marked, ← ih, List.mapIdx_cons]
      simp only [List.length_cons, Nat.zero_add, Nat.add_lt_add_iff_right,
        Nat.lt_add_left_iff_pos, Nat.zero_lt_succ, if_true]

variable {bytes received chunk : Bytes} {total t : Option ℕ} {f : Fragment}

theorem fragments_single {size : ℕ} (hne : bytes ≠ []) (h : bytes.length ≤ size) :
    fragments size bytes = [0 :: bytes] := by
  have hparts : chunks size bytes.length bytes = [bytes] := by
    obtain ⟨n, hn⟩ := Nat.exists_eq_succ_of_ne_zero (mt List.eq_nil_of_length_eq_zero hne)
    rw [hn, chunks, if_neg hne, List.take_of_length_le h, List.drop_of_length_le h]
    cases n <;> rfl
  simp only [fragments, hparts, List.mapIdx_cons, List.mapIdx_nil, List.length_singleton,
    Nat.not_lt.mpr h, false_and, if_false, Nat.zero_add, Nat.lt_irrefl]

/-- The chunks after the first. -/
def laterChunks (size : ℕ) (bytes : Bytes) : List Bytes :=
  chunks size (bytes.length - 1) (bytes.drop size)

theorem fragments_several {size : ℕ} (hsize : 0 < size) (h : size < bytes.length) :
    fragments size bytes = (0xC0 :: (bigEndian 4 bytes.length ++ bytes.take size)) ::
      marked (laterChunks size bytes) := by
  have hne : bytes ≠ [] := List.length_pos_iff.mp (by omega)
  have hparts : chunks size bytes.length bytes = bytes.take size :: laterChunks size bytes := by
    obtain ⟨n, hn⟩ := Nat.exists_eq_succ_of_ne_zero (mt List.eq_nil_of_length_eq_zero hne)
    rw [laterChunks, hn, chunks, if_neg hne, Nat.succ_sub_one]
  have hlater : 0 < (laterChunks size bytes).length := by
    rw [laterChunks, length_chunks hsize (by rw [List.length_drop]; omega), List.length_drop]
    exact Nat.div_pos (by omega) hsize
  simp only [fragments, hparts, List.mapIdx_cons, List.length_cons, h, true_and, if_true,
    hlater, Nat.add_one_ne_zero, if_false, Nat.add_lt_add_iff_right, mapIdx_eq_marked]
  rfl

theorem length_fragments {size : ℕ} (hsize : 0 < size) (bytes : Bytes) :
    (fragments size bytes).length = (bytes.length + size - 1) / size := by
  rw [fragments, List.length_mapIdx, length_chunks hsize (Nat.le_refl _)]

/-! ## Putting together -/

/-- What a packet carries, as a fragment. -/
def Fragment.ofData (data : Bytes) : Fragment := ⟨data.headD 0, data.tail⟩

theorem ofInput_packet (code id method : UInt8) (data : Bytes) :
    Fragment.ofInput (packet code id (some method) data) = Fragment.ofData data := by
  have hsize : ∀ n, ∃ a b, bigEndian 2 n = [a, b] := fun n => ⟨_, _, rfl⟩
  obtain ⟨a, b, hab⟩ := hsize (4 + ((some method).toList ++ data).length)
  rw [packet, hab, Fragment.ofInput, Fragment.ofData, ← List.drop_one]
  rfl

theorem announce_ok :
    announce received total f = .ok t ↔
      (f.Announces ∧ 4 ≤ f.data.length ∧ total = none ∧ received = [] ∧ f.length ≠ 0 ∧
        f.length ≤ 65536 ∧ t = some f.length) ∨ ¬f.Announces ∧ t = total := by
  unfold announce
  split
  · rename_i h
    simp only [seq_ok, require_ok, h, not_true, false_and, or_false, true_and, Except.ok.injEq,
      and_assoc, eq_comm (b := t)]
  · rename_i h
    simp only [h, false_and, false_or, not_false_iff, true_and, Except.ok.injEq, eq_comm (b := t)]

theorem receive_message_iff {m : Bytes} :
    receive received total f = .ok (.message m) ↔ ∃ t, announce received total f = .ok t ∧
      f.payload ≠ [] ∧ received.length + f.payload.length ≤ 65536 ∧ ¬f.More ∧
      (∀ length ∈ t, (received ++ f.payload).length = length) ∧ m = received ++ f.payload := by
  unfold receive
  rw [bind_ok]
  refine exists_congr fun t => and_congr_right fun _ => ?_
  rw [seq_ok, require_ok, and_assoc]
  refine and_congr_right fun _ => and_congr_right fun _ => ?_
  split
  · rename_i h
    simp only [seq_ok, h, not_true, false_and, iff_false, not_and, Except.ok.injEq, reduceCtorEq,
      not_false_iff, implies_true]
  · rename_i h
    simp only [seq_ok, require_ok, h, not_false_iff, true_and, Except.ok.injEq,
      Receipt.message.injEq, eq_comm (b := m)]

theorem receive_more_iff {r : Bytes} :
    receive received total f = .ok (.more r t) ↔ announce received total f = .ok t ∧
      f.payload ≠ [] ∧ received.length + f.payload.length ≤ 65536 ∧ f.More ∧
      (∃ length ∈ t, (received ++ f.payload).length < length) ∧ r = received ++ f.payload := by
  unfold receive
  rw [bind_ok]
  constructor
  · rintro ⟨t', ht', h⟩
    rw [seq_ok, require_ok] at h
    obtain ⟨hfits, h⟩ := h
    split at h
    · rename_i hmore
      rw [seq_ok, require_ok] at h
      obtain ⟨hlength, h⟩ := h
      cases h
      exact ⟨ht', hfits.1, hfits.2, hmore, hlength, rfl⟩
    · rw [seq_ok] at h
      cases h.2
  · rintro ⟨ht, hne, hfits, hmore, hlength, rfl⟩
    refine ⟨t, ht, ?_⟩
    rw [seq_ok, require_ok, if_pos hmore, seq_ok, require_ok]
    exact ⟨⟨hne, hfits⟩, hlength, rfl⟩

/-- Fragments received one after the other, up to a whole message. -/
def reassemble : Bytes → Option ℕ → List Fragment → Result Bytes
  | _, _, [] => .error (.bad "Incomplete EAP-TLS flight")
  | received, total, f :: rest => do
    let receipt ← receive received total f
    match receipt with
    | .more received total => reassemble received total rest
    | .message bytes => if rest = [] then .ok bytes else .error (.bad "Incomplete EAP-TLS flight")

theorem reassemble_more {r : Bytes} (h : receive received total f = .ok (.more r t))
    (rest : List Fragment) : reassemble received total (f :: rest) = reassemble r t rest := by
  rw [reassemble, h]
  rfl

theorem reassemble_message {m : Bytes} (h : receive received total f = .ok (.message m)) :
    reassemble received total [f] = .ok m := by
  rw [reassemble, h]
  rfl

/-- A last fragment, which announces nothing. -/
theorem receive_last (hne : chunk ≠ []) (hfits : (received ++ chunk).length ≤ 65536)
    (htotal : ∀ length ∈ total, (received ++ chunk).length = length) :
    receive received total ⟨0, chunk⟩ = .ok (.message (received ++ chunk)) := by
  have hzero : ∀ mask : UInt8, 0 &&& mask = 0 := fun _ => UInt8.zero_and
  have hplain : ¬(⟨0, chunk⟩ : Fragment).Announces := not_not.mpr (hzero _)
  have hpayload : (⟨0, chunk⟩ : Fragment).payload = chunk := if_neg hplain
  rw [receive_message_iff, hpayload]
  rw [List.length_append] at hfits
  exact ⟨total, announce_ok.mpr (.inr ⟨hplain, rfl⟩), hne, hfits, not_not.mpr (hzero _), htotal,
    rfl⟩

/-- A fragment in the middle. -/
theorem receive_middle {length : ℕ} (hne : chunk ≠ []) (hlength : length ≤ 65536)
    (hlt : (received ++ chunk).length < length) :
    receive received (some length) ⟨0x40, chunk⟩ =
      .ok (.more (received ++ chunk) (some length)) := by
  have hflag : (0x40 : UInt8) &&& 0x80 = 0 := by decide
  have hplain : ¬(⟨0x40, chunk⟩ : Fragment).Announces := not_not.mpr hflag
  have hmore : (0x40 : UInt8) &&& 0x40 ≠ 0 := by decide
  have hpayload : (⟨0x40, chunk⟩ : Fragment).payload = chunk := if_neg hplain
  rw [receive_more_iff, hpayload]
  refine ⟨announce_ok.mpr (.inr ⟨hplain, rfl⟩), hne, ?_, hmore, ⟨length, rfl, hlt⟩, rfl⟩
  rw [List.length_append] at hlt
  omega

/-- A first fragment of several, which announces the length. -/
theorem receive_first {length : ℕ} (hne : chunk ≠ []) (hlength : length ≤ 65536)
    (hlt : chunk.length < length) :
    receive [] none ⟨0xC0, bigEndian 4 length ++ chunk⟩ = .ok (.more chunk (some length)) := by
  let first : Fragment := ⟨0xC0, bigEndian 4 length ++ chunk⟩
  have hannounces : (0xC0 : UInt8) &&& 0x80 ≠ 0 := by decide
  have hmore : (0xC0 : UInt8) &&& 0x40 ≠ 0 := by decide
  have hpayload : first.payload = chunk :=
    (if_pos hannounces).trans (List.drop_left' (length_bigEndian 4 _))
  have hfirst : first.length = length := by
    rw [Fragment.length, List.take_left' (length_bigEndian 4 _),
      fromBigEndian_bigEndian (by omega)]
  have hdata : 4 ≤ first.data.length := by
    rw [List.length_append, length_bigEndian]
    omega
  have hannounce : announce [] none first = .ok (some length) :=
    announce_ok.mpr (.inl ⟨hannounces, hdata, rfl, rfl, by omega, by omega, by rw [hfirst]⟩)
  refine receive_more_iff.mpr ⟨hannounce, ?_, ?_, hmore, ⟨length, rfl, ?_⟩, ?_⟩
  · rwa [hpayload]
  · rw [hpayload, List.length_nil]
    omega
  · rwa [hpayload]
  · rw [hpayload, List.nil_append]

theorem reassemble_marked {length : ℕ} (hlength : length ≤ 65536) :
    ∀ {parts : List Bytes} {received : Bytes}, parts ≠ [] → (∀ chunk ∈ parts, chunk ≠ []) →
      (received ++ parts.flatten).length = length →
      reassemble received (some length) ((marked parts).map Fragment.ofData) =
        .ok (received ++ parts.flatten)
  | [], _, hne, _, _ => absurd rfl hne
  | [chunk], received, _, hchunk, htotal => by
    rw [List.flatten_cons, List.flatten_nil, List.append_nil] at htotal ⊢
    refine reassemble_message (receive_last (hchunk chunk List.mem_cons_self) ?_ ?_)
    · exact htotal.trans_le hlength
    · rintro _ ⟨⟩
      exact htotal
  | chunk :: next :: rest, received, _, hchunk, htotal => by
    have hnext := List.length_pos_iff.mpr (hchunk next (List.mem_cons_of_mem _ List.mem_cons_self))
    have hlt : (received ++ chunk).length < length := by
      rw [← htotal]
      simp only [List.flatten_cons, List.length_append]
      omega
    have hreceive := receive_middle (hchunk chunk List.mem_cons_self) hlength hlt
    rw [marked, List.map_cons, List.flatten_cons, ← List.append_assoc]
    refine (reassemble_more hreceive _).trans (reassemble_marked hlength (List.cons_ne_nil _ _)
      (fun c hc => hchunk c (List.mem_cons_of_mem _ hc)) ?_)
    rw [List.append_assoc]
    exact htotal

/-- What was cut is put together again. -/
theorem reassemble_fragments {size : ℕ} (hsize : 0 < size) (hne : bytes ≠ [])
    (hbytes : bytes.length ≤ 65536) :
    reassemble [] none ((fragments size bytes).map Fragment.ofData) = .ok bytes := by
  rcases Nat.lt_or_ge size bytes.length with h | h
  · have hlater : (laterChunks size bytes).flatten = bytes.drop size :=
      flatten_chunks hsize (by rw [List.length_drop]; omega)
    have hdrop : 0 < (bytes.drop size).length := by
      rw [List.length_drop]
      omega
    have htake : (bytes.take size).length = size := List.length_take_of_le (Nat.le_of_lt h)
    have htakene : bytes.take size ≠ [] := List.length_pos_iff.mp (by omega)
    have hreceive := receive_first htakene hbytes (by omega)
    rw [fragments_several hsize h, List.map_cons]
    refine (reassemble_more hreceive _).trans ?_
    rw [reassemble_marked hbytes, hlater, List.take_append_drop]
    · intro hnil
      rw [hnil] at hlater
      rw [← hlater] at hdrop
      exact absurd hdrop (Nat.lt_irrefl 0)
    · exact fun chunk hchunk => ne_nil_of_mem_chunks hsize hchunk
    · rw [hlater, List.take_append_drop]
  · rw [fragments_single hne h]
    exact reassemble_message (receive_last hne hbytes nofun)

end RiAuth.Radius
