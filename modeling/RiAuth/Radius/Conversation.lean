import RiAuth.Radius.Fragments

/-!
# EAP-TLS conversations

What one step can do, and what follows for all that is sent and received.

* `front_ok`: all that can come out of a step before TLS is asked;
* `release_ok`: a message leaves in one packet per acknowledgement;
* `Whole`: the fragments of one message;
* `Run.holds`: what a conversation keeps is what the open fragments carry;
* **`eap_fragments`**: fragments are put together as they were cut, and TLS is fed whole messages.
-/

namespace RiAuth.Radius

open Checks Framing

/-! ## One step -/

namespace Conversation

variable {σ I : Type} {tls : Tls σ I} {c : Conversation σ I} {input : Bytes}

/-- The header that a conversation waits for, in a round that it still has. -/
structure Sequenced (c : Conversation σ I) (input : Bytes) : Prop where
  rounds : c.rounds < 256
  expected : input[1]? = some c.expected
  method : input[4]? = some 13
  length : 6 ≤ input.length
  flags : (Fragment.ofInput input).flags &&& 0x3f = 0

/-- Nothing of the own is left to send, and the handshake goes on. -/
structure Listens (c : Conversation σ I) : Prop where
  outbound : c.outbound = []
  awaitSuccess : c.awaitSuccess = false

/-- One more round. -/
def round (c : Conversation σ I) : Conversation σ I := { c with rounds := c.rounds + 1 }

/-- All that can come out of the first part of a step. -/
inductive Fronts (c : Conversation σ I) (input : Bytes) : Front σ I → Prop
  | release {next : Bytes} {outbound : List Bytes} (houtbound : c.outbound = next :: outbound)
      (hempty : (Fragment.ofInput input).Empty) :
      Fronts c input (.release (request { c.round with outbound } next).1
        (request { c.round with outbound } next).2)
  | more {received : Bytes} {total : Option ℕ} (hlistens : c.Listens)
      (hreceive : receive c.received c.total (.ofInput input) = .ok (.more received total)) :
      Fronts c input (.more (request { c.round with received, total } [0]).1
        (request { c.round with received, total } [0]).2)
  | success {identity : I} (houtbound : c.outbound = []) (hawait : c.awaitSuccess = true)
      (hempty : (Fragment.ofInput input).Empty) : Fronts c input (.success identity c.round)
  | feed {bytes : Bytes} (hlistens : c.Listens)
      (hreceive : receive c.received c.total (.ofInput input) = .ok (.message bytes)) :
      Fronts c input (.feed bytes { c.round with received := [], total := none })

theorem front_ok {front : Front σ I} (h : c.front input = .ok front) :
    c.Sequenced input ∧ Fronts c input front := by
  unfold Conversation.front at h
  rw [seq_ok, require_ok, seq_ok, require_ok] at h
  obtain ⟨⟨hrounds, hexpected, hmethod, hlength⟩, hflags, h⟩ := h
  refine ⟨⟨hrounds, hexpected, hmethod, hlength, hflags⟩, ?_⟩
  split at h
  · rename_i houtbound
    rw [seq_ok, require_ok] at h
    obtain ⟨hempty, h⟩ := h
    cases h
    exact .release houtbound hempty
  · rename_i houtbound
    split at h
    · rename_i hawait
      rw [seq_ok, require_ok, bind_ok] at h
      obtain ⟨hempty, identity, -, h⟩ := h
      cases h
      exact .success houtbound hawait hempty
    · rename_i hawait
      have hlistens : c.Listens := ⟨houtbound, Bool.eq_false_of_not_eq_true hawait⟩
      rw [bind_ok] at h
      obtain ⟨receipt, hreceive, h⟩ := h
      cases receipt with
      | more received total =>
        cases h
        exact .more hlistens hreceive
      | message bytes =>
        cases h
        exact .feed hlistens hreceive

theorem front_feed (hseq : c.Sequenced input) (hlistens : c.Listens) {bytes : Bytes}
    (hreceive : receive c.received c.total (.ofInput input) = .ok (.message bytes)) :
    c.front input = .ok (.feed bytes { c.round with received := [], total := none }) := by
  unfold Conversation.front
  rw [seq_ok, require_ok, seq_ok, require_ok]
  refine ⟨⟨hseq.rounds, hseq.expected, hseq.method, hseq.length⟩, hseq.flags, ?_⟩
  split
  · rename_i houtbound
    exact absurd (hlistens.outbound.symm.trans houtbound) (List.cons_ne_nil _ _).symm
  · split
    · rename_i hawait
      exact absurd (hlistens.awaitSuccess.symm.trans hawait) Bool.false_ne_true
    · rw [bind_ok]
      exact ⟨_, hreceive, rfl⟩

theorem front_release (hseq : c.Sequenced input) (hempty : (Fragment.ofInput input).Empty)
    {next : Bytes} {outbound : List Bytes} (houtbound : c.outbound = next :: outbound) :
    c.front input = .ok (.release (request { c.round with outbound } next).1
      (request { c.round with outbound } next).2) := by
  unfold Conversation.front
  rw [seq_ok, require_ok, seq_ok, require_ok]
  refine ⟨⟨hseq.rounds, hseq.expected, hseq.method, hseq.length⟩, hseq.flags, ?_⟩
  split
  · rename_i hcons
    cases houtbound.symm.trans hcons
    rw [seq_ok, require_ok]
    exact ⟨hempty, rfl⟩
  · rename_i hnil
    exact absurd (houtbound.symm.trans hnil) (List.cons_ne_nil _ _)

/-- What fails here fails before TLS is asked, whatever TLS would say. -/
theorem step_error (h : ∀ front, c.front input ≠ .ok front) :
    ∃ e, ∀ tls : Tls σ I, step tls c input = .error e := by
  cases hfront : c.front input with
  | ok front => exact absurd hfront (h front)
  | error e =>
    refine ⟨e, fun tls => ?_⟩
    rw [step, hfront]
    rfl

/-! ## Sending -/

/-- The response that acknowledges a fragment. -/
def acknowledgement (c : Conversation σ I) : Bytes := packet 2 c.expected (some 13) [0]

theorem sequenced_acknowledgement (h : c.rounds < 256) : c.Sequenced c.acknowledgement :=
  ⟨h, rfl, rfl, by simp [acknowledgement, packet], UInt8.zero_and⟩

/-- The packets that so many acknowledgements give. -/
def release (tls : Tls σ I) : ℕ → Conversation σ I → Result (List Bytes × Conversation σ I)
  | 0, c => .ok ([], c)
  | n + 1, c => do
    let sent ← step tls c c.acknowledgement
    match sent.1 with
    | .challenge packet => do
      let later ← release tls n sent.2
      .ok (packet :: later.1, later.2)
    | .accept _ _ => .error .internal

theorem release_challenge {p : Bytes} {c' : Conversation σ I}
    (h : step tls c c.acknowledgement = .ok (.challenge p, c')) (n : ℕ) :
    release tls (n + 1) c =
      (release tls n c').map fun later => (p :: later.1, later.2) := by
  rw [release, h]
  change (do let later ← release tls n c'; .ok (p :: later.1, later.2)) = _
  cases release tls n c' <;> rfl

theorem step_acknowledgement (tls : Tls σ I) (h : c.rounds < 256) {next : Bytes}
    {outbound : List Bytes} (houtbound : c.outbound = next :: outbound) :
    step tls c c.acknowledgement = .ok (.challenge (request { c.round with outbound } next).1,
      (request { c.round with outbound } next).2) := by
  rw [step, front_release (sequenced_acknowledgement h) ⟨rfl, rfl⟩ houtbound]
  rfl

theorem release_ok (tls : Tls σ I) : ∀ {outbound : List Bytes} {c : Conversation σ I},
    c.outbound = outbound → c.rounds + outbound.length ≤ 256 →
    ∃ packets c', release tls outbound.length c = .ok (packets, c') ∧ c'.outbound = [] ∧
      packets.map Fragment.ofInput = outbound.map Fragment.ofData
  | [], c, houtbound, _ => ⟨[], c, rfl, houtbound, rfl⟩
  | next :: outbound, c, houtbound, hrounds => by
    rw [List.length_cons] at hrounds
    have hstep := step_acknowledgement tls (by omega) houtbound
    have hrest : (request { c.round with outbound } next).2.rounds + outbound.length ≤ 256 := by
      change c.rounds + 1 + outbound.length ≤ 256
      omega
    obtain ⟨packets, c', hrelease, hnil, hpackets⟩ := release_ok tls rfl hrest
    refine ⟨(request { c.round with outbound } next).1 :: packets, c', ?_, hnil, ?_⟩
    · exact (release_challenge hstep _).trans (congrArg _ hrelease)
    · rw [List.map_cons, List.map_cons, hpackets, request, ofInput_packet]

/-- Each acknowledgement takes a round, and there are 256 of them. -/
theorem release_error (tls : Tls σ I) : ∀ {outbound : List Bytes} {c : Conversation σ I},
    c.outbound = outbound → c.rounds ≤ 256 → 256 < c.rounds + outbound.length →
    ∃ e, release tls outbound.length c = .error e
  | [], c, _, hle, hrounds => absurd hrounds (Nat.not_lt.mpr hle)
  | next :: outbound, c, houtbound, hle, hrounds => by
    rw [List.length_cons] at hrounds
    rcases Nat.lt_or_ge c.rounds 256 with hlt | hge
    · have hstep := step_acknowledgement tls hlt houtbound
      have hrest : 256 < (request { c.round with outbound } next).2.rounds + outbound.length := by
        change 256 < c.rounds + 1 + outbound.length
        omega
      obtain ⟨e, he⟩ := release_error tls (c := (request { c.round with outbound } next).2) rfl
        hlt hrest
      exact ⟨e, (release_challenge hstep _).trans (congrArg _ he)⟩
    · have hlate : ∀ front, c.front c.acknowledgement ≠ .ok front :=
        fun front hfront => Nat.not_lt.mpr hge (front_ok hfront).1.rounds
      obtain ⟨e, he⟩ := step_error hlate
      refine ⟨e, ?_⟩
      rw [List.length_cons, release, he tls]
      rfl

theorem flight_ok {bytes : Bytes} (hsize : 0 < c.fragmentSize) (hne : bytes ≠ [])
    (hbytes : bytes.length ≤ 65536) (houtbound : c.outbound = []) :
    ∃ next outbound, fragments c.fragmentSize bytes = next :: outbound ∧
      c.flight bytes = .ok (request { c with outbound } next) := by
  have hpos : 0 < (fragments c.fragmentSize bytes).length := by
    have := List.length_pos_iff.mpr hne
    rw [length_fragments hsize]
    exact Nat.div_pos (by omega) hsize
  obtain ⟨next, outbound, hfragments⟩ := List.exists_cons_of_length_pos hpos
  refine ⟨next, outbound, hfragments, ?_⟩
  unfold flight
  rw [seq_ok, require_ok, houtbound, List.nil_append, hfragments]
  exact ⟨⟨hne, hbytes⟩, rfl⟩

end Conversation

/-! ## Messages -/

/-- The length that a message announces with its first fragment. -/
def announcedBy (fs : List Fragment) : Option ℕ :=
  fs.head?.bind fun f => if f.Announces then some f.length else none

/-- What fragments carry together. -/
def joined (fs : List Fragment) : Bytes := fs.flatMap Fragment.payload

theorem joined_append (fs : List Fragment) (f : Fragment) :
    joined (fs ++ [f]) = joined fs ++ f.payload := by
  rw [joined, List.flatMap_append, List.flatMap_singleton]
  rfl

/-- Fragments of one message: none is empty, and only the first may announce a length. -/
structure Consistent (fs : List Fragment) : Prop where
  payload : ∀ f ∈ fs, f.payload ≠ []
  first : ∀ f ∈ fs.tail, ¬f.Announces
  size : (joined fs).length ≤ 65536
  announced : ∀ f ∈ fs, f.Announces → 4 ≤ f.data.length ∧ f.length ≤ 65536

/-- The beginning of a message, which announced more than there is so far. -/
structure Parts (fs : List Fragment) : Prop extends Consistent fs where
  more : ∀ f ∈ fs, f.More
  short : fs ≠ [] → ∃ length ∈ announcedBy fs, (joined fs).length < length

/-- A whole message, with a last fragment and of the length that it announced. -/
structure Whole (fs : List Fragment) (bytes : Bytes) : Prop extends Consistent fs where
  bytes_eq : bytes = joined fs
  last : ∃ init f, fs = init ++ [f] ∧ Parts init ∧ ¬f.More
  length_eq : ∀ length ∈ announcedBy fs, bytes.length = length

variable {fs : List Fragment} {f : Fragment}

theorem joined_eq_nil_iff (h : Parts fs) : joined fs = [] ↔ fs = [] := by
  constructor
  · intro hnil
    cases fs with
    | nil => rfl
    | cons f fs =>
      rw [joined, List.flatMap_cons, List.append_eq_nil_iff] at hnil
      exact absurd hnil.1 (h.payload f List.mem_cons_self)
  · rintro rfl
    rfl

/-- What is known of the length after one more fragment. -/
theorem Parts.announce_ok (h : Parts fs) {t : Option ℕ} :
    announce (joined fs) (announcedBy fs) f = .ok t ↔
      t = announcedBy (fs ++ [f]) ∧ (f.Announces → fs = [] ∧ 4 ≤ f.data.length ∧ f.length ≠ 0 ∧
        f.length ≤ 65536) := by
  rw [Radius.announce_ok, joined_eq_nil_iff h]
  constructor
  · rintro (⟨hf, hdata, -, rfl, hzero, hlength, rfl⟩ | ⟨hf, rfl⟩)
    · refine ⟨?_, fun _ => ⟨rfl, hdata, hzero, hlength⟩⟩
      exact (if_pos hf).symm
    · refine ⟨?_, fun h => absurd h hf⟩
      cases fs with
      | nil => exact (if_neg hf).symm
      | cons g gs => rfl
  · rintro ⟨rfl, hf⟩
    by_cases hannounces : f.Announces
    · obtain ⟨rfl, hdata, hzero, hlength⟩ := hf hannounces
      exact .inl ⟨hannounces, hdata, rfl, rfl, hzero, hlength, if_pos hannounces⟩
    · refine .inr ⟨hannounces, ?_⟩
      cases fs with
      | nil => exact if_neg hannounces
      | cons g gs => rfl

theorem Parts.consistent_append (h : Parts fs) (hpayload : f.payload ≠ [])
    (hsize : (joined fs).length + f.payload.length ≤ 65536)
    (hf : f.Announces → fs = [] ∧ 4 ≤ f.data.length ∧ f.length ≠ 0 ∧ f.length ≤ 65536) :
    Consistent (fs ++ [f]) := by
  refine ⟨?_, ?_, ?_, ?_⟩
  · intro g hg
    rcases List.mem_append.mp hg with hg | hg
    · exact h.payload g hg
    · rwa [List.mem_singleton.mp hg]
  · intro g hg hannounces
    cases fs with
    | nil => exact absurd hg List.not_mem_nil
    | cons g' gs =>
      rcases List.mem_append.mp hg with hg | hg
      · exact h.first g hg hannounces
      · rw [List.mem_singleton.mp hg] at hannounces
        exact absurd (hf hannounces).1 (List.cons_ne_nil _ _)
  · rw [joined_append, List.length_append]
    exact hsize
  · intro g hg hannounces
    rcases List.mem_append.mp hg with hg | hg
    · exact h.announced g hg hannounces
    · rw [List.mem_singleton.mp hg] at hannounces ⊢
      exact ⟨(hf hannounces).2.1, (hf hannounces).2.2.2⟩

theorem Parts.receive_more (h : Parts fs) {r : Bytes} {t : Option ℕ}
    (hreceive : receive (joined fs) (announcedBy fs) f = .ok (.more r t)) :
    r = joined (fs ++ [f]) ∧ t = announcedBy (fs ++ [f]) ∧ Parts (fs ++ [f]) := by
  obtain ⟨hannounce, hpayload, hsize, hmore, hlt, rfl⟩ := receive_more_iff.mp hreceive
  obtain ⟨rfl, hf⟩ := h.announce_ok.mp hannounce
  rw [← joined_append] at hlt
  refine ⟨(joined_append fs f).symm, rfl, h.consistent_append hpayload hsize hf, ?_, fun _ => hlt⟩
  intro g hg
  rcases List.mem_append.mp hg with hg | hg
  · exact h.more g hg
  · rwa [List.mem_singleton.mp hg]

/-- A message is whole exactly when its last fragment is taken. -/
theorem Parts.receive_message (h : Parts fs) {m : Bytes} :
    receive (joined fs) (announcedBy fs) f = .ok (.message m) ↔ Whole (fs ++ [f]) m := by
  rw [receive_message_iff]
  constructor
  · rintro ⟨t, hannounce, hpayload, hsize, hlast, hlength, rfl⟩
    obtain ⟨rfl, hf⟩ := h.announce_ok.mp hannounce
    exact ⟨h.consistent_append hpayload hsize hf, (joined_append fs f).symm,
      ⟨fs, f, rfl, h, hlast⟩, hlength⟩
  · rintro ⟨hconsistent, rfl, ⟨init, g, heq, -, hlast⟩, hlength⟩
    obtain ⟨rfl, hg⟩ := List.append_inj' heq rfl
    cases hg
    have hmem : f ∈ fs ++ [f] := List.mem_append_right _ List.mem_cons_self
    have hpayload := hconsistent.payload f hmem
    have hsize := hconsistent.size
    rw [joined_append] at hlength hsize ⊢
    refine ⟨announcedBy (fs ++ [f]), h.announce_ok.mpr ⟨rfl, fun hannounces => ?_⟩, hpayload,
      by rwa [← List.length_append], hlast, hlength, rfl⟩
    have hnil : fs = [] := by
      by_contra hne
      obtain ⟨g, gs, rfl⟩ := List.exists_cons_of_ne_nil hne
      exact hconsistent.first f (List.mem_append_right _ List.mem_cons_self) hannounces
    subst hnil
    have hpos := List.length_pos_iff.mpr hpayload
    have heq : f.payload.length = f.length := hlength f.length (if_pos hannounces)
    exact ⟨rfl, (hconsistent.announced f hmem hannounces).1, by omega,
      (hconsistent.announced f hmem hannounces).2⟩

/-! ## Runs -/

namespace Conversation

variable {σ I : Type} {tls : Tls σ I} {c : Conversation σ I} {input : Bytes}

/-- The open fragments after an input. -/
def opened (opens : List Fragment) (input : Bytes) : Front σ I → List Fragment
  | .release _ _ => opens
  | .more _ _ => opens ++ [.ofInput input]
  | .success _ _ => opens
  | .feed _ _ => []

/-- The messages that TLS was fed after an input, each with its fragments. -/
def fed (opens : List Fragment) (input : Bytes) (before : List (List Fragment × Bytes)) :
    Front σ I → List (List Fragment × Bytes)
  | .feed message _ => (opens ++ [.ofInput input], message) :: before
  | _ => before

/-- A conversation that got as far as this by challenges, with its open fragments and with the
messages that TLS was fed, newest first. -/
inductive Run (tls : Tls σ I) :
    Conversation σ I → List Fragment → List (List Fragment × Bytes) → Prop
  | start (state : σ) (identifier : UInt8) (fragmentSize : ℕ) :
      Run tls (start state identifier fragmentSize).2 [] []
  | next {c c' : Conversation σ I} {opens : List Fragment} {before : List (List Fragment × Bytes)}
      {input p : Bytes} {front : Front σ I} (hrun : Run tls c opens before)
      (hfront : c.front input = .ok front) (hstep : step tls c input = .ok (.challenge p, c')) :
      Run tls c' (opened opens input front) (fed opens input before front)

/-- What a conversation keeps of a message is what the open fragments carry. While there are any, it
listens. -/
structure Holds (c : Conversation σ I) (opens : List Fragment) : Prop where
  parts : Parts opens
  received : c.received = joined opens
  total : c.total = announcedBy opens
  listens : opens ≠ [] → c.Listens

variable {c' : Conversation σ I} {opens : List Fragment}

theorem flight_keeps {bytes p : Bytes} (h : c.flight bytes = .ok (p, c')) :
    c'.received = c.received ∧ c'.total = c.total := by
  unfold flight at h
  rw [seq_ok] at h
  obtain ⟨-, h⟩ := h
  split at h
  · cases h
  · cases h
    exact ⟨rfl, rfl⟩

theorem answer_keeps {message : Bytes} {s : Step I} (h : answer tls c message = .ok (s, c')) :
    c'.received = c.received ∧ c'.total = c.total := by
  unfold answer at h
  rw [bind_ok] at h
  obtain ⟨state, -, h⟩ := h
  rw [bind_ok] at h
  obtain ⟨c₁, hc₁, h⟩ := h
  have hkeeps : c₁.received = c.received ∧ c₁.total = c.total := by
    split at hc₁
    · cases hc₁
      exact ⟨rfl, rfl⟩
    · simp only [bind_ok] at hc₁
      obtain ⟨identity, -, state, -, hc₁⟩ := hc₁
      cases hc₁
      exact ⟨rfl, rfl⟩
  rw [bind_ok] at h
  obtain ⟨outbound, -, h⟩ := h
  split at h
  · cases h
    exact hkeeps
  · rw [bind_ok] at h
    obtain ⟨⟨p, c₂⟩, hflight, h⟩ := h
    cases h
    have := flight_keeps hflight
    exact ⟨this.1.trans hkeeps.1, this.2.trans hkeeps.2⟩

theorem holds_nil (hreceived : c.received = []) (htotal : c.total = none) : c.Holds [] :=
  ⟨⟨⟨nofun, nofun, Nat.zero_le _, nofun⟩, nofun, fun h => absurd rfl h⟩, hreceived, htotal,
    fun h => absurd rfl h⟩

/-- TLS is fed exactly when the last fragment of a message arrives. -/
theorem Holds.front_feed_iff (h : c.Holds opens) {m : Bytes} :
    (∃ c', c.front input = .ok (.feed m c')) ↔
      c.Sequenced input ∧ c.Listens ∧ Whole (opens ++ [.ofInput input]) m := by
  constructor
  · rintro ⟨c', hfront⟩
    obtain ⟨hseq, hfronts⟩ := front_ok hfront
    cases hfronts with
    | feed hlistens hreceive =>
      rw [h.received, h.total, h.parts.receive_message] at hreceive
      exact ⟨hseq, hlistens, hreceive⟩
  · rintro ⟨hseq, hlistens, hwhole⟩
    rw [← h.parts.receive_message, ← h.received, ← h.total] at hwhole
    exact ⟨_, front_feed hseq hlistens hwhole⟩

theorem Holds.step (h : c.Holds opens) {p : Bytes} {front : Front σ I}
    (hfront : c.front input = .ok front) (hstep : step tls c input = .ok (.challenge p, c')) :
    c'.Holds (opened opens input front) := by
  rw [Conversation.step, hfront] at hstep
  cases (front_ok hfront).2 with
  | release houtbound hempty =>
    cases hstep
    refine ⟨h.parts, h.received, h.total, fun hne => ?_⟩
    exact absurd ((h.listens hne).outbound.symm.trans houtbound) (List.cons_ne_nil _ _).symm
  | more hlistens hreceive =>
    cases hstep
    rw [h.received, h.total] at hreceive
    obtain ⟨hr, ht, hparts⟩ := h.parts.receive_more hreceive
    exact ⟨hparts, hr, ht, fun _ => ⟨hlistens.outbound, hlistens.awaitSuccess⟩⟩
  | success houtbound hawait hempty =>
    change (do let material ← tls.material c.tls; .ok (_, _)) = _ at hstep
    rw [bind_ok] at hstep
    obtain ⟨material, -, hstep⟩ := hstep
    cases hstep
  | feed hlistens hreceive =>
    have hkeeps := answer_keeps hstep
    exact holds_nil hkeeps.1 hkeeps.2

theorem Run.holds {before : List (List Fragment × Bytes)} (h : Run tls c opens before) :
    c.Holds opens ∧ ∀ e ∈ before, Whole e.1 e.2 := by
  induction h with
  | start => exact ⟨holds_nil rfl rfl, nofun⟩
  | next hrun hfront hstep ih =>
    refine ⟨ih.1.step hfront hstep, ?_⟩
    rename_i front
    cases front with
    | release => exact ih.2
    | more => exact ih.2
    | success => exact ih.2
    | feed m c₁ =>
      intro e he
      rcases List.mem_cons.mp he with rfl | he
      · exact (ih.1.front_feed_iff.mp ⟨_, hfront⟩).2.2
      · exact ih.2 e he

/-- Inputs that a conversation refuses. -/
inductive Refused (c : Conversation σ I) (opens : List Fragment) (input : Bytes) : Prop
  | identifier (h : input[1]? ≠ some c.expected)
  | round (h : 256 ≤ c.rounds)
  | acknowledgement (h : c.outbound ≠ [] ∨ c.awaitSuccess = true)
      (hne : ¬(Fragment.ofInput input).Empty)
  | repeated (hne : opens ≠ []) (h : (Fragment.ofInput input).Announces)
  | announced (hlistens : c.Listens) (h : (Fragment.ofInput input).Announces)
      (hlength : (Fragment.ofInput input).length = 0 ∨ 65536 < (Fragment.ofInput input).length)
  /-- A last fragment that does not complete the announced length. -/
  | incomplete {length : ℕ} (hlistens : c.Listens) (hlast : ¬(Fragment.ofInput input).More)
      (h : announcedBy (opens ++ [.ofInput input]) = some length)
      (hne : (joined (opens ++ [.ofInput input])).length ≠ length)
  /-- Another fragment is promised, and the announced length is there or none was announced. -/
  | excessive (hlistens : c.Listens) (hmore : (Fragment.ofInput input).More)
      (h : ∀ length ∈ announcedBy (opens ++ [.ofInput input]),
        length ≤ (joined (opens ++ [.ofInput input])).length)

/-- A conversation that listens takes the next fragment of its message, or the last one. -/
theorem Holds.taken (h : c.Holds opens) (hlistens : c.Listens) {front : Front σ I}
    (hfronts : Fronts c input front) :
    ((Fragment.ofInput input).Announces → opens = [] ∧ 4 ≤ (Fragment.ofInput input).data.length ∧
      (Fragment.ofInput input).length ≠ 0 ∧ (Fragment.ofInput input).length ≤ 65536) ∧
    ((Fragment.ofInput input).More ∧ Parts (opens ++ [.ofInput input]) ∨
      ¬(Fragment.ofInput input).More ∧ ∃ m, Whole (opens ++ [.ofInput input]) m) := by
  cases hfronts with
  | release houtbound hempty =>
    exact absurd (hlistens.outbound.symm.trans houtbound) (List.cons_ne_nil _ _).symm
  | success houtbound hawait hempty =>
    exact absurd (hlistens.awaitSuccess.symm.trans hawait) Bool.false_ne_true
  | more _ hreceive =>
    rw [h.received, h.total] at hreceive
    have hmore := receive_more_iff.mp hreceive
    exact ⟨(h.parts.announce_ok.mp hmore.1).2,
      .inl ⟨hmore.2.2.2.1, (h.parts.receive_more hreceive).2.2⟩⟩
  | feed _ hreceive =>
    rw [h.received, h.total] at hreceive
    obtain ⟨t, hannounce, -, -, hlast, -⟩ := receive_message_iff.mp hreceive
    exact ⟨(h.parts.announce_ok.mp hannounce).2,
      .inr ⟨hlast, _, h.parts.receive_message.mp hreceive⟩⟩

theorem Holds.not_refused (h : c.Holds opens) {front : Front σ I}
    (hfront : c.front input = .ok front) : ¬c.Refused opens input := by
  obtain ⟨hseq, hfronts⟩ := front_ok hfront
  intro hrefused
  cases hrefused with
  | identifier hid => exact hid hseq.expected
  | round hround => exact Nat.not_lt.mpr hround hseq.rounds
  | acknowledgement hbusy hne =>
    have hbusy' : ¬c.Listens := by
      rintro ⟨houtbound, hawait⟩
      rcases hbusy with hbusy | hbusy
      · exact hbusy houtbound
      · exact Bool.false_ne_true (hawait.symm.trans hbusy)
    cases hfronts with
    | release _ hempty => exact hne hempty
    | success _ _ hempty => exact hne hempty
    | more hlistens _ => exact hbusy' hlistens
    | feed hlistens _ => exact hbusy' hlistens
  | repeated hne hannounces =>
    exact hne ((h.taken (h.listens hne) hfronts).1 hannounces).1
  | announced hlistens hannounces hlength =>
    have := (h.taken hlistens hfronts).1 hannounces
    omega
  | incomplete hlistens hlast hlength hne =>
    rcases (h.taken hlistens hfronts).2 with ⟨hmore, -⟩ | ⟨-, m, hwhole⟩
    · exact hlast hmore
    · rw [← hwhole.bytes_eq] at hne
      exact hne (hwhole.length_eq _ hlength)
  | excessive hlistens hmore hlength =>
    rcases (h.taken hlistens hfronts).2 with ⟨-, hparts⟩ | ⟨hlast, -⟩
    · obtain ⟨length, hmem, hlt⟩ := hparts.short (List.append_ne_nil_of_right_ne_nil _
        (List.cons_ne_nil _ _))
      exact Nat.not_lt.mpr (hlength length hmem) hlt
    · exact hlast hmore

/-- Where no message is handed over, TLS reads nothing. -/
theorem step_read (h : ∀ m c', c.front input ≠ .ok (.feed m c')) (read : σ → Bytes → Result σ) :
    step { tls with read } c input = step tls c input := by
  unfold step
  cases hfront : c.front input with
  | error e => rfl
  | ok front =>
    cases front with
    | release => rfl
    | more => rfl
    | success => rfl
    | feed m c' => exact absurd hfront (h m c')

/-- A message is sent in so many packets as it has pieces, as long as there is a round for each
acknowledgement, and put together from them. Whatever comes in, TLS is fed a message when its last
fragment is there and not otherwise. An input that is refused fails before TLS is asked. -/
theorem eap_fragments (tls : Tls σ I) :
    (∀ (c : Conversation σ I) (bytes : Bytes), 0 < c.fragmentSize → bytes ≠ [] →
      bytes.length ≤ 65536 → c.outbound = [] →
      ∃ first c₁, c.flight bytes = .ok (first, c₁) ∧
        c₁.outbound.length + 1 = (bytes.length + c.fragmentSize - 1) / c.fragmentSize ∧
        (c.rounds + c₁.outbound.length ≤ 256 →
          ∃ later c₂, release tls c₁.outbound.length c₁ = .ok (later, c₂) ∧ c₂.outbound = [] ∧
            later.length = c₁.outbound.length ∧
            reassemble [] none ((first :: later).map Fragment.ofInput) = .ok bytes)) ∧
    (∀ (c : Conversation σ I) (opens : List Fragment) (before : List (List Fragment × Bytes)),
      Run tls c opens before →
      (∀ e ∈ before, Whole e.1 e.2) ∧
      ∀ input, (∀ m, (∃ c', c.front input = .ok (.feed m c')) ↔
          c.Sequenced input ∧ c.Listens ∧ Whole (opens ++ [.ofInput input]) m) ∧
        (∀ m c', c.front input = .ok (.feed m c') → step tls c input = answer tls c' m) ∧
        ((∀ m c', c.front input ≠ .ok (.feed m c')) →
          ∀ read, step { tls with read } c input = step tls c input) ∧
        (c.Refused opens input → (∀ m c', c.front input ≠ .ok (.feed m c')) ∧
          ∃ e, ∀ tls : Tls σ I, step tls c input = .error e)) := by
  constructor
  · intro c bytes hsize hne hbytes houtbound
    obtain ⟨next, outbound, hfragments, hflight⟩ := flight_ok hsize hne hbytes houtbound
    refine ⟨_, _, hflight, ?_, fun hrounds => ?_⟩
    · rw [← length_fragments hsize, hfragments]
      rfl
    · let c₁ := (request { c with outbound } next).2
      have hc₁ : c₁.outbound = outbound := rfl
      obtain ⟨later, c₂, hrelease, hnil, hlater⟩ := release_ok tls hc₁ hrounds
      refine ⟨later, c₂, hrelease, hnil, ?_, ?_⟩
      · have := congrArg List.length hlater
        rwa [List.length_map, List.length_map] at this
      · have hfirst := ofInput_packet 1 (c.expected + 1) 13 next
        rw [← reassemble_fragments hsize hne hbytes, hfragments, List.map_cons, List.map_cons,
          hlater, ← hfirst]
  · intro c opens before hrun
    obtain ⟨hholds, hwhole⟩ := hrun.holds
    refine ⟨hwhole, fun input => ⟨fun m => hholds.front_feed_iff, ?_, step_read, ?_⟩⟩
    · intro m c' hfront
      rw [step, hfront]
      rfl
    · intro hrefused
      have hnone : ∀ front, c.front input ≠ .ok front :=
        fun front hfront => hholds.not_refused hfront hrefused
      exact ⟨fun m c' => hnone _, step_error hnone⟩

/-- A TLS connection that waits for the rest of a record. -/
def waiting : Tls Unit Unit :=
  ⟨fun s _ => .ok s, fun _ => true, fun _ => .error .forbidden, .ok, fun s => (s, []),
    fun _ => .error .internal⟩

/-- A conversation in fragments of 256 bytes after so many rounds. -/
def after (expected : UInt8) (rounds : ℕ) : Conversation Unit Unit :=
  ⟨(), expected, rounds, [], none, [], none, false, 256⟩

/-- The header of a TLS record comes in two fragments. -/
def headerParts : Bytes × Bytes :=
  (packet 2 8 (some 13) (0xC0 :: (bigEndian 4 5 ++ [22, 3, 1])), packet 2 9 (some 13) [0, 0, 200])

/-- A flight of 600 bytes leaves in three packets. The header of a record is fed when its second
fragment is there, in whose place the first is not taken again. -/
theorem eap_fragments_of_header :
    (∃ first c₁ later c₂, (after 8 0).flight (List.replicate 600 22) = .ok (first, c₁) ∧
      c₁.outbound.length + 1 = 3 ∧ release waiting c₁.outbound.length c₁ = .ok (later, c₂) ∧
      reassemble [] none ((first :: later).map Fragment.ofInput) = .ok (List.replicate 600 22)) ∧
    ∃ p c c', step waiting (after 8 0) headerParts.1 = .ok (.challenge p, c) ∧
      c.front headerParts.2 = .ok (.feed [22, 3, 1, 0, 200] c') ∧
      step waiting c headerParts.2 = answer waiting c' [22, 3, 1, 0, 200] ∧
      ∃ e, ∀ tls : Tls Unit Unit, step tls c headerParts.1 = .error e := by
  obtain ⟨hsent, hfed⟩ := eap_fragments waiting
  constructor
  · have hlength : (List.replicate 600 22 : Bytes).length = 600 := List.length_replicate
    obtain ⟨first, c₁, hflight, hcount, hreleased⟩ := hsent (after 8 0) (List.replicate 600 22)
      (by decide) (List.length_pos_iff.mp (by omega)) (by omega) rfl
    have hthree : c₁.outbound.length + 1 = 3 := by
      rw [hcount, hlength]
      rfl
    obtain ⟨later, c₂, hrelease, -, -, hwhole⟩ := hreleased (by
      change 0 + _ ≤ _
      omega)
    exact ⟨first, c₁, later, c₂, hflight, hthree, hrelease, hwhole⟩
  · let c : Conversation Unit Unit := { after 9 1 with received := [22, 3, 1], total := some 5 }
    have hstep : step waiting (after 8 0) headerParts.1 =
      .ok (.challenge (packet 1 9 (some 13) [0]), c) := rfl
    have hmore : (after 8 0).front headerParts.1 =
      .ok (.more (packet 1 9 (some 13) [0]) c) := rfl
    have hrun : Run waiting c [.ofInput headerParts.1] [] := .next (.start () 7 256) hmore hstep
    obtain ⟨-, hinput⟩ := hfed _ _ _ hrun
    have hfront : c.front headerParts.2 = .ok (.feed [22, 3, 1, 0, 200] (after 9 2)) := rfl
    refine ⟨_, c, _, hstep, hfront, (hinput headerParts.2).2.1 _ _ hfront, ?_⟩
    exact ((hinput headerParts.1).2.2.2 (.identifier (by decide))).2

/-- One byte of a record takes one round. -/
theorem exists_run_after : ∀ rounds : ℕ, rounds ≤ 256 →
    ∃ expected before, Run waiting (after expected rounds) [] before
  | 0, _ => ⟨8, [], .start () 7 256⟩
  | rounds + 1, hle => by
    obtain ⟨expected, before, hrun⟩ := exists_run_after rounds (Nat.le_of_succ_le hle)
    let input := packet 2 expected (some 13) [0, 22]
    have hseq : (after expected rounds).Sequenced input :=
      ⟨hle, rfl, rfl, by simp [input, packet], UInt8.zero_and⟩
    have hreceive : receive [] none (.ofInput input) = .ok (.message [22]) := by
      rw [ofInput_packet]
      rfl
    have hfront := front_feed hseq ⟨rfl, rfl⟩ hreceive
    refine ⟨expected + 1, _, .next (p := packet 1 (expected + 1) (some 13) [0]) hrun hfront ?_⟩
    rw [step, hfront]
    rfl

/-- After 250 rounds, a flight of 2560 bytes takes nine acknowledgements where six are left. -/
theorem eap_flight_out_of_rounds :
    ∃ (tls : Tls Unit Unit) (c c₁ : Conversation Unit Unit) (bytes first : Bytes),
      (∃ before, Run tls c [] before) ∧ c.fragmentSize = 256 ∧
      bytes ≠ [] ∧ bytes.length ≤ 65536 ∧ c.outbound = [] ∧
      c.flight bytes = .ok (first, c₁) ∧
      ∃ e, release tls c₁.outbound.length c₁ = .error e := by
  obtain ⟨expected, before, hrun⟩ := exists_run_after 250 (by decide)
  let bytes : Bytes := List.replicate 2560 0
  have hlength : bytes.length = 2560 := List.length_replicate
  have hne : bytes ≠ [] := List.length_pos_iff.mp (by omega)
  have hsize : 0 < (after expected 250).fragmentSize := Nat.succ_pos 255
  obtain ⟨next, outbound, hfragments, hflight⟩ := flight_ok hsize hne (by omega) rfl
  have hcount : outbound.length = 9 := by
    have := length_fragments hsize bytes
    rw [hfragments, List.length_cons, hlength] at this
    change _ = (2560 + 256 - 1) / 256 at this
    omega
  refine ⟨waiting, _, _, bytes, _, ⟨before, hrun⟩, rfl, hne, by omega, rfl, hflight, ?_⟩
  have hleft : 250 ≤ 256 := by decide
  refine release_error waiting rfl hleft ?_
  change 256 < 250 + outbound.length
  omega

end Conversation

end RiAuth.Radius
