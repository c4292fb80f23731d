import RiAuth.Basic
import RiAuth.Lib.Checks

/-!
# SAML single logout

After a session is revoked, its participants are told one after the other through the browser. A
flow keeps the targets, the position it has come to, the request that waits for an answer, and how
many targets confirmed or failed.

* `start`: the flow of some sessions;
* `next`: skips what cannot be told and sends the request of the current target;
* `responseIn`: takes the answer to the pending request;
* `finishReply`: what the browser sees in the end;
* `advance_ok`, `responseIn_ok`: what a call does to the counts.
-/

namespace RiAuth.Saml

open Checks

/-! ## Flows -/

/-- The other side of a message. -/
inductive Peer where
  | client (id fingerprint : Text)
  | source (id fingerprint : Text)
deriving DecidableEq

/-- The same client or source. -/
def Peer.sameEntity : Peer → Peer → Bool
  | .client id _, .client id' _ => id = id'
  | .source id _, .source id' _ => id = id'
  | _, _ => false

/-- A session elsewhere that has to end. -/
structure Target where
  peer : Peer
  nameId : Text
  format : Text
  index : Text
deriving DecidableEq

/-- A request without a response yet. -/
structure Pending where
  id : Text
  xml : Text
  post : Bool
  deadline : ℕ

/-- The logout request of a participant that is answered in the end. -/
structure ReturnResponse where
  peer : Peer
  request : Text
  relayState : Option Text
  post : Bool

/-- A registered place to return to. -/
structure ReturnBinding where
  renderedUri : Text
  clientId : Text

/-- What the user gets at the end. -/
structure Finish where
  redirect : Option Text
  returnBinding : Option ReturnBinding
  response : Option ReturnResponse
  frontchannelUrls : List Text

/-- A logout under way. -/
structure Flow where
  id : Text
  expiresAt : ℕ
  targets : List Target
  position : ℕ
  pending : Option Pending
  confirmed : ℕ
  failed : ℕ
  finish : Finish

/-- What `Flow::status` shows. -/
structure Status where
  status : String
  confirmed : ℕ
  failed : ℕ
  remaining : ℕ
  expiresAt : ℕ
  resume : Text
  retryAfter : Option ℕ

/-- How far the logout is. -/
def Flow.report (flow : Flow) (now : ℕ) : Status where
  status :=
    if flow.position = flow.targets.length then
      if flow.failed = 0 then "complete" else "partial_logout"
    else if flow.expiresAt ≤ now then "expired"
    else "pending"
  confirmed := flow.confirmed
  failed := flow.failed
  remaining := flow.targets.length - flow.position
  expiresAt := flow.expiresAt
  resume := flow.id
  retryAfter := flow.pending.map fun p => p.deadline - now

/-- What a call answers. -/
inductive Reply where
  | logoutRequest (xml relayState : Text)
  | logoutResponse (inResponseTo : Text) (partialLogout : Bool)
  | redirect (uri : Text)
  | page (status : Status)
  /-- The address of a flow, with the pages to be loaded beside it. -/
  | resume (flow : Text) (frontchannelUrls : List Text)

/-- The endpoints and keys of a peer. -/
structure Current (K : Type) where
  redirect : Option Text
  post : Option Text
  keys : K

/-- The address for a binding. -/
def Current.endpoint {K : Type} (c : Current K) (post : Bool) : Result Text :=
  okOr (if post then c.post else c.redirect) (.bad "SAML logout binding is not registered")

/-- A session at a client. -/
structure RpSession where
  sessionId : Text
  clientId : Text
  fingerprint : Text
  expiresAt : ℕ
  nameId : Text
  format : Text
  index : Option Text

/-- A session at a source. -/
structure UpstreamSession where
  expiresAt : Option ℕ
  subject : Option Text
  index : Text

/-- The row of a session. -/
structure SessionRecord where
  revoked : Bool
  /-- The source of an identity, with its fingerprint. -/
  source : Option (Text × Text)

/-- A verified logout response. -/
structure LogoutResponse where
  relayState : Text
  request : Text
  success : Bool

/-- What a transaction reads, and the XML, signature and encoding of messages. -/
structure Port (W K : Type) where
  sessionRecord : W → Text → Option SessionRecord
  rpSessions : W → List RpSession
  upstreamSession : W → Text → Option UpstreamSession
  /-- The name format of a source, if it has SAML settings. -/
  sourceFormat : W → Text → Option Text
  /-- How many flows there are after cleanup. -/
  flows : W → ℕ → ℕ
  current : W → Peer → Result (Current K)
  requestXml : Current K → Target → Text → Text → ℕ → ℕ → Result Text
  encode : Current K → Text → Text → Bool → String → Result Unit
  responseXml : Current K → Text → ReturnResponse → Bool → ℕ → Result Text
  allowed : W → ReturnBinding → Bool
  receive : Current K → Text → Bool → Result LogoutResponse

variable {W K : Type} (port : Port W K) (w : W) (now : ℕ)

/-- A message can be sent if its binding is registered and it can be signed. -/
def Current.message (current : Current K) (xml : Text) (post : Bool) (field : String) :
    Result Unit := do
  let endpoint ← current.endpoint post
  port.encode current endpoint xml post field

/-- The answer to who began the logout. -/
def finishReply (flow : Flow) : Result Reply :=
  match flow.finish.response with
  | some last => do
    let current ← port.current w last.peer
    let target ← current.endpoint last.post
    let xml ← port.responseXml current target last (decide (0 < flow.failed)) now
    current.message port xml last.post "SAMLResponse"
    .ok (.logoutResponse last.request (decide (0 < flow.failed)))
  | none =>
    match flow.finish.returnBinding.filter fun binding =>
      flow.finish.redirect = some binding.renderedUri ∧ port.allowed w binding with
    | some binding => .ok (.redirect binding.renderedUri)
    | none => .ok (.page (flow.report now))

/-! ## The start -/

/-- The clients of some sessions, of which those without an index cannot be told. -/
def rpParticipants (sessionIds : List Text) (excluded : Option Peer) : List (Option Target) :=
  (port.rpSessions w).filterMap fun rp =>
    let peer := Peer.client rp.clientId rp.fingerprint
    if rp.sessionId ∉ sessionIds ∨ rp.expiresAt ≤ now then none
    else if ∃ p ∈ excluded, p.sameEntity peer then none
    else some (rp.index.map fun index => ⟨peer, rp.nameId, rp.format, index⟩)

/-- The sources of some sessions. -/
def sourceParticipants (sessionIds : List Text) (excluded : Option Peer) : List (Option Target) :=
  sessionIds.filterMap fun sid => do
    let session ← port.sessionRecord w sid
    let context ← session.source
    let upstream ← port.upstreamSession w sid
    let peer := Peer.source context.1 context.2
    if ∃ expiry ∈ upstream.expiresAt, expiry ≤ now then none
    else if ∃ p ∈ excluded, p.sameEntity peer then none
    else some (do
      let subject ← upstream.subject
      let format ← port.sourceFormat w context.1
      some ⟨peer, subject, format, upstream.index⟩)

/-- All participants but the one that asked, with those that cannot be told as `none`. -/
def participants (sessionIds : List Text) (finish : Finish) : List (Option Target) :=
  let excluded := finish.response.map ReturnResponse.peer
  rpParticipants port w now sessionIds excluded ++ sourceParticipants port w now sessionIds excluded

/-- The first of equal targets. -/
def deduplicate : List Target → List Target → List Target
  | _, [] => []
  | unique, t :: rest =>
    if t ∈ unique then deduplicate unique rest else t :: deduplicate (t :: unique) rest

/-- A flow that nobody has been told of. -/
def newFlow (id : Text) (participants : List (Option Target)) (finish : Finish) : Flow :=
  let targets := deduplicate [] participants.reduceOption
  ⟨id, now + 600, targets.take 64, 0, none, 0,
    participants.count none + (targets.length - 64), finish⟩

/-- `begin`: a reply, and the flow if it is stored. -/
def start (id : Text) (sessionIds : List Text) (finish : Finish) :
    Result (Reply × Option Flow) := do
  require (∀ sid ∈ sessionIds, ∀ s ∈ port.sessionRecord w sid, s.revoked = true) .internal
  let flow := newFlow now id (participants port w now sessionIds finish) finish
  if flow.targets = [] ∧ finish.frontchannelUrls = [] then do
    let reply ← finishReply port w now flow
    .ok (reply, none)
  else if 5000 ≤ port.flows w now then do
    let reply ← finishReply port w now
      { flow with failed := flow.failed + flow.targets.length, position := flow.targets.length }
    .ok (reply, none)
  else .ok (.resume id finish.frontchannelUrls, some flow)

/-! ## One target after the other -/

namespace Flow

/-- The current target failed. -/
def skip (flow : Flow) : Flow :=
  { flow with failed := flow.failed + 1, position := flow.position + 1, pending := none }

/-- All targets that are left failed. -/
def expire (flow : Flow) : Flow :=
  { flow with failed := flow.failed + (flow.targets.length - flow.position),
              position := flow.targets.length, pending := none }

end Flow

/-- The request of the current target: the one that is pending, or a new one with the next
identifier. There is none if the peer has no endpoint. -/
def pendingFor (fresh : ℕ → Text) (flow : Flow) (target : Target) (current : Current K) :
    Result (Option Pending) :=
  match flow.pending with
  | some pending => .ok (some pending)
  | none =>
    let post := current.redirect.isNone
    match current.endpoint post with
    | .error _ => .ok none
    | .ok endpoint => do
      let id := '_' :: fresh flow.position
      let xml ← port.requestXml current target endpoint id now (min (now + 300) flow.expiresAt)
      .ok (some ⟨id, xml, post, min (now + 30) flow.expiresAt⟩)

/-- The loop of `next`. The number bounds the targets that are left. -/
def advance (fresh : ℕ → Text) : ℕ → Flow → Result (Flow × Option Pending)
  | 0, flow => .ok (flow, none)
  | fuel + 1, flow =>
    match flow.targets[flow.position]? with
    | none => .ok (flow, none)
    | some target =>
      if flow.expiresAt ≤ now then .ok (flow.expire, none)
      else
        match port.current w target.peer with
        | .error _ => advance fresh fuel flow.skip
        | .ok current =>
          if ∃ p ∈ flow.pending, p.deadline ≤ now then advance fresh fuel flow.skip
          else do
            let pending ← pendingFor port now fresh flow target current
            match pending with
            | none => advance fresh fuel flow.skip
            | some pending =>
              match current.message port pending.xml pending.post "SAMLRequest" with
              | .error _ => advance fresh fuel flow.skip
              | .ok _ => .ok ({ flow with pending := some pending }, some pending)

/-- The flow of a ticket, given what is stored under its digest. -/
def lookup (ticket : Text) (record : Option Flow) : Result Flow := do
  require (Text.bytes ticket = 43 ∧ ∀ c ∈ ticket, c.isAlphanum ∨ c ∈ ['_', '-'])
    (.missing "SAML logout not found")
  okOr (record.filter fun f => now < f.expiresAt + 86400) (.missing "SAML logout expired")

/-- The flow after the call, with the request that goes out or with the last reply. -/
def next (fresh : ℕ → Text) (ticket : Text) (record : Option Flow) :
    Result (Flow × Reply × Option Pending) := do
  let flow ← lookup now ticket record
  let advanced ← advance port w now fresh (flow.targets.length - flow.position) flow
  let reply ← advanced.2.elim (finishReply port w now advanced.1) fun pending =>
    .ok (.logoutRequest pending.xml advanced.1.id)
  .ok (advanced.1, reply, advanced.2)

/-- A response to the pending request. -/
def responseIn (record : Option Flow) (peer : Peer) (raw : Text) (post : Bool) :
    Result (Flow × LogoutResponse) := do
  let current ← port.current w peer
  let response ← port.receive current raw post
  let flow ← lookup now response.relayState record
  let pending ← okOr flow.pending (.conflict "SAML logout response already consumed")
  require (now < flow.expiresAt ∧ now < pending.deadline ∧ pending.id = response.request ∧
    ∃ t ∈ flow.targets[flow.position]?, t.peer = peer) .forbidden
  .ok ({ flow with
    confirmed := flow.confirmed + (if response.success then 1 else 0),
    failed := flow.failed + (if response.success then 0 else 1),
    position := flow.position + 1, pending := none }, response)

/-! ## One call -/

section

variable {port w now}

variable {flow flow' : Flow} {fresh : ℕ → Text}

theorem lookup_ok {ticket : Text} {found : Flow} (h : lookup now ticket (some flow) = .ok found) :
    found = flow := by
  unfold lookup at h
  rw [seq_ok, okOr_ok, Option.filter_eq_some_iff] at h
  exact (Option.some.inj h.2.1).symm

/-- How far the loop takes a flow: every target that it passes has failed. -/
structure Advanced (fresh : ℕ → Text) (flow flow' : Flow) (sent : Option Pending) : Prop where
  targets : flow'.targets = flow.targets
  confirmed : flow'.confirmed = flow.confirmed
  position : flow.position ≤ flow'.position
  failed : flow'.failed + flow.position = flow.failed + flow'.position
  /-- The request that goes out is the one that was pending, or it has a new identifier. -/
  request : ∀ pending ∈ sent, flow'.pending = some pending ∧ flow'.position < flow.targets.length ∧
    (flow'.position = flow.position ∧ flow.pending = some pending ∨
      (flow'.position = flow.position → flow.pending = none) ∧
        pending.id = '_' :: fresh flow'.position)
  finished : sent = none → flow'.position = flow.targets.length ∧
    (flow'.pending = none ∨ flow' = flow)

theorem advanced_skip {sent : Option Pending} (h : Advanced fresh flow.skip flow' sent) :
    Advanced fresh flow flow' sent := by
  have hposition : flow.position + 1 ≤ flow'.position := h.position
  have hfailed : flow'.failed + (flow.position + 1) = flow.failed + 1 + flow'.position := h.failed
  refine ⟨h.targets, h.confirmed, by omega, by omega, fun pending hsent => ?_, fun hnone => ?_⟩
  · obtain ⟨hpending, hlt, hcases⟩ := h.request pending hsent
    refine ⟨hpending, hlt, .inr ⟨fun heq => by omega, ?_⟩⟩
    rcases hcases with ⟨-, hskip⟩ | ⟨-, hid⟩
    · cases hskip
    · exact hid
  · obtain ⟨hend, hpending⟩ := h.finished hnone
    refine ⟨hend, .inl ?_⟩
    rcases hpending with hpending | rfl
    · exact hpending
    · rfl

theorem pendingFor_ok {target : Target} {current : Current K} {pending : Pending}
    (h : pendingFor port now fresh flow target current = .ok (some pending)) :
    flow.pending = some pending ∨
      flow.pending = none ∧ pending.id = '_' :: fresh flow.position := by
  unfold pendingFor at h
  split at h
  · rename_i hpending
    cases h
    exact .inl hpending
  · rename_i hpending
    dsimp only at h
    split at h
    · cases h
    · rw [bind_ok] at h
      obtain ⟨xml, -, h⟩ := h
      cases h
      exact .inr ⟨hpending, rfl⟩

theorem advance_ok : ∀ {fuel : ℕ} {flow flow' : Flow} {sent : Option Pending},
    flow.targets.length = flow.position + fuel →
    advance port w now fresh fuel flow = .ok (flow', sent) → Advanced fresh flow flow' sent
  | 0, flow, flow', sent, hfuel, h => by
    cases h
    exact ⟨rfl, rfl, le_rfl, rfl, nofun, fun _ => ⟨hfuel.symm, .inr rfl⟩⟩
  | fuel + 1, flow, flow', sent, hfuel, h => by
    have hskipped : flow.skip.targets.length = flow.skip.position + fuel := by
      change flow.targets.length = flow.position + 1 + fuel
      omega
    have hskip : ∀ {r : Flow × Option Pending}, advance port w now fresh fuel flow.skip = .ok r →
        Advanced fresh flow r.1 r.2 := fun hr =>
      advanced_skip (advance_ok hskipped hr)
    have hlt : flow.position < flow.targets.length := by omega
    rw [advance, List.getElem?_eq_getElem hlt] at h
    dsimp only at h
    split at h
    · cases h
      refine ⟨rfl, rfl, hlt.le, ?_, nofun, fun _ => ⟨rfl, .inl rfl⟩⟩
      change flow.failed + (flow.targets.length - flow.position) + flow.position =
        flow.failed + flow.targets.length
      omega
    · split at h
      · exact hskip h
      · split at h
        · exact hskip h
        · rw [bind_ok] at h
          obtain ⟨pending, hpending, h⟩ := h
          split at h
          · exact hskip h
          · split at h
            · exact hskip h
            · cases h
              refine ⟨rfl, rfl, le_rfl, rfl, ?_, nofun⟩
              rintro pd ⟨⟩
              exact ⟨rfl, hlt, (pendingFor_ok hpending).imp (fun hold => ⟨rfl, hold⟩)
                fun hnew => ⟨fun _ => hnew.1, hnew.2⟩⟩

theorem next_ok {ticket : Text} {reply : Reply} {sent : Option Pending}
    (hle : flow.position ≤ flow.targets.length)
    (h : next port w now fresh ticket (some flow) = .ok (flow', reply, sent)) :
    Advanced fresh flow flow' sent ∧ (sent = none → finishReply port w now flow' = .ok reply) := by
  unfold next at h
  rw [bind_ok] at h
  obtain ⟨found, hfound, h⟩ := h
  cases lookup_ok hfound
  rw [bind_ok] at h
  obtain ⟨⟨flow₁, sent₁⟩, hadvance, h⟩ := h
  rw [bind_ok] at h
  obtain ⟨reply₁, hreply, h⟩ := h
  cases h
  refine ⟨advance_ok (by omega) hadvance, ?_⟩
  rintro rfl
  exact hreply

/-- What a response that is taken says, and what becomes of the flow. -/
theorem responseIn_ok {peer : Peer} {raw : Text} {post : Bool} {response : LogoutResponse}
    (h : responseIn port w now (some flow) peer raw post = .ok (flow', response)) :
    (∃ pending ∈ flow.pending, pending.id = response.request ∧ now < pending.deadline) ∧
    (∃ t ∈ flow.targets[flow.position]?, t.peer = peer) ∧
    flow'.targets = flow.targets ∧ flow'.position = flow.position + 1 ∧ flow'.pending = none ∧
    flow'.confirmed + flow'.failed = flow.confirmed + flow.failed + 1 ∧
    flow'.confirmed ≤ flow.confirmed + 1 := by
  unfold responseIn at h
  simp only [bind_ok, require_ok, okOr_ok] at h
  obtain ⟨current, -, received, -, found, hfound, pending, hpending, -, hchecks, h⟩ := h
  cases lookup_ok hfound
  cases h
  refine ⟨⟨pending, hpending, hchecks.2.2.1, hchecks.2.1⟩, hchecks.2.2.2, rfl, rfl, rfl, ?_⟩
  change flow.confirmed + _ + (flow.failed + _) = _ ∧ flow.confirmed + _ ≤ _
  split <;> omega

theorem mem_deduplicate {t : Target} : ∀ {l unique : List Target},
    t ∈ deduplicate unique l → t ∉ unique
  | [], _, h => absurd h List.not_mem_nil
  | a :: l, unique, h => by
    rw [deduplicate] at h
    split at h
    · exact mem_deduplicate h
    · rename_i ha
      rcases List.mem_cons.mp h with rfl | h
      · exact ha
      · exact fun hmem => mem_deduplicate h (List.mem_cons_of_mem _ hmem)

theorem nodup_deduplicate : ∀ (l unique : List Target), (deduplicate unique l).Nodup
  | [], _ => List.nodup_nil
  | a :: l, unique => by
    rw [deduplicate]
    split
    · exact nodup_deduplicate l unique
    · refine List.nodup_cons.mpr ⟨fun hmem => ?_, nodup_deduplicate l _⟩
      exact mem_deduplicate hmem List.mem_cons_self

/-- A flow that is stored has come nowhere yet, and its targets are different. -/
theorem start_ok {id : Text} {sessionIds : List Text} {finish : Finish} {reply : Reply}
    (h : start port w now id sessionIds finish = .ok (reply, some flow)) :
    flow.position = 0 ∧ flow.confirmed = 0 ∧ flow.pending = none ∧ flow.targets.Nodup ∧
      flow.targets.length ≤ 64 := by
  unfold start at h
  rw [seq_ok] at h
  replace h := h.2
  dsimp only at h
  split at h
  · rw [bind_ok] at h
    obtain ⟨r, -, h⟩ := h
    cases h
  · split at h
    · rw [bind_ok] at h
      obtain ⟨r, -, h⟩ := h
      cases h
    · cases h
      exact ⟨rfl, rfl, rfl, (nodup_deduplicate _ _).sublist (List.take_sublist _ _),
        List.length_take_le _ _⟩

end

end RiAuth.Saml
