import RiAuth.Lib.History
import RiAuth.Workflow.Evidence

/-!
# Delivery of security signals

A delivery is claimed by a worker under a lease, pinned in a second transaction just before it is
sent, and finished in a third one. Streams are created, changed and removed by others meanwhile, and
workers get lost.

* `claimDeliveries`, `beginDispatch`, `finishDelivery`, `cancelPending`, `cleanup`: the
  transactions;
* `Event.after`: one of them, or a change of a stream, in the store;
* the fields `created` and `dispatched` of the store are a record of the run that no transaction
  reads: the ids given to deliveries, and the attempts for which a worker was told to send.
-/

namespace RiAuth.Signals

open History Workflow

/-! ## Records -/

/-- Delivery by push. -/
def PUSH : Text := "urn:ietf:rfc:8935".toList

/-- The most attempts. -/
def MAX_ATTEMPTS : ℕ := 5

/-- How long a worker owns a row. -/
def LEASE_SECONDS : ℕ := 60

/-- The row of a stream. -/
structure Stream where
  audience : Text
  events : List Text
  deliveryMethod : Text
  endpointUrl : Text
  authorizationHeader : Option Text
  /-- External subjects and the users they stand for. -/
  subjects : List (Text × Text)
  standard : Bool
deriving DecidableEq

/-- The row of a delivery. -/
structure Delivery where
  streamId : Text
  uri : Text
  event : Text
  subject : Text
  audience : Text
  credentialType : Text
  createdAt : ℕ
  nextAttempt : ℕ
  attempts : ℕ
  deliveredAt : Option ℕ
  lastStatus : Option ℕ
  lastFailed : Bool
  stopped : Bool
  lease : Option Text
  dispatchStarted : Option Bool
deriving DecidableEq

/-- The delivery is over: delivered or stopped. -/
def Delivery.ended (d : Delivery) : Bool := d.deliveredAt.isSome || d.stopped

/-- The store, with the record of the run. -/
structure Tables where
  streams : Text → Option Stream
  deliveries : Text → Option Delivery
  created : List Text
  dispatched : List (Text × ℕ)

namespace Tables

def empty : Tables := ⟨fun _ => none, fun _ => none, [], []⟩

/-- A row is written. -/
def putDelivery (t : Tables) (id : Text) (d : Delivery) : Tables :=
  { t with deliveries := Function.update t.deliveries id (some d) }

/-- A stream is written or removed. -/
def putStream (t : Tables) (id : Text) (stream : Option Stream) : Tables :=
  { t with streams := Function.update t.streams id stream }

end Tables

/-- The checks of a destination: any push URL, and one that a receiver chose for itself. -/
structure Destinations where
  pushUrl : Text → Bool
  receiverPushUrl : Text → Bool

/-! ## Transactions -/

/-- The part of `enqueue` that adds one delivery: the stream wants the event, and the subject is the
user. -/
def enqueue (streamId subject userId event credentialType id : Text) (now : ℕ) (t : Tables) :
    Tables :=
  match t.streams streamId with
  | none => t
  | some stream =>
    if stream.deliveryMethod = PUSH ∧ event ∈ stream.events ∧ (subject, userId) ∈ stream.subjects then
      { t.putDelivery id ⟨streamId, stream.endpointUrl, event, subject, stream.audience,
          credentialType, now, now, 0, none, none, false, false, none, none⟩ with
        created := id :: t.created }
    else t

/-- No worker owns the row. -/
def clearOwner (d : Delivery) : Delivery := { d with lease := none, dispatchStarted := none }

/-- What `claim_deliveries` does to one due delivery: nothing, a row to write, or a row to write and
to send. -/
def claimRow (x : Destinations) (t : Tables) (now : ℕ) (lease : Text) (d : Delivery) :
    Option (Delivery × Bool) :=
  if d.deliveredAt.isSome = true ∨ d.stopped = true ∨ now < d.nextAttempt then none
  else if MAX_ATTEMPTS ≤ d.attempts ∨ saturatingAdd d.createdAt 86400 < now then
    some (clearOwner { d with stopped := true, lastFailed := true }, false)
  else if x.pushUrl d.uri = false then
    some (clearOwner { d with stopped := true, lastFailed := true, attempts := d.attempts + 1 }, false)
  else
    match t.streams d.streamId with
    | none => some (clearOwner { d with stopped := true }, false)
    | some stream =>
      if stream.endpointUrl ≠ d.uri then some (clearOwner { d with stopped := true }, false)
      else if stream.standard = true ∧ x.receiverPushUrl d.uri = false then
        some (clearOwner { d with stopped := true, lastFailed := true, attempts := d.attempts + 1 },
          false)
      else
        some ({ d with
          attempts := d.attempts + 1
          nextAttempt := saturatingAdd now LEASE_SECONDS
          lease := some lease
          dispatchStarted := none }, true)

/-- The loop of `claim_deliveries` over the due deliveries, each with the lease it would get. -/
def claimFrom (x : Destinations) (excluded : List Text) (now : ℕ) :
    ℕ → List (Text × Text) → Tables → Tables × List (Text × Delivery)
  | _, [], t => (t, [])
  | room, (id, lease) :: due, t =>
    if room = 0 then (t, [])
    else if id ∈ excluded then claimFrom x excluded now room due t
    else
      match (t.deliveries id).bind (claimRow x t now lease) with
      | none => claimFrom x excluded now room due t
      | some (d, false) => claimFrom x excluded now room due (t.putDelivery id d)
      | some (d, true) =>
        let (t, ready) := claimFrom x excluded now (room - 1) due (t.putDelivery id d)
        (t, (id, d) :: ready)

/-- A worker takes due rows. -/
def claimDeliveries (x : Destinations) (limit : ℕ) (excluded : List Text) (due : List (Text × Text))
    (now : ℕ) (t : Tables) : Tables × List (Text × Delivery) :=
  claimFrom x excluded now (min limit 16) (due.take 32) t

/-- The stream of the delivery is there and still has its destination. -/
def Tables.current (t : Tables) (d : Delivery) : Bool :=
  (t.streams d.streamId).any fun stream => stream.endpointUrl = d.uri

/-- The last look before sending. -/
def beginDispatch (id lease : Text) (now : ℕ) (t : Tables) : Tables × Bool :=
  if lease = [] then (t, false)
  else
    match t.deliveries id with
    | none => (t, false)
    | some d =>
      if d.deliveredAt.isSome = true ∨ d.lease ≠ some lease then (t, false)
      else if d.stopped then (t.putDelivery id (clearOwner d), false)
      else if d.dispatchStarted = some true ∨ d.nextAttempt ≤ now then (t, false)
      else if t.current d = false then
        (t.putDelivery id (clearOwner { d with stopped := true }), false)
      else (t.putDelivery id { d with dispatchStarted := some true }, true)

/-- The receiver took it. -/
def isSuccess (status : Option ℕ) : Bool := status.any fun code => 200 ≤ code && code < 300

/-- It is worth another attempt. -/
def isRetry : Option ℕ → Bool
  | none => true
  | some code => code = 429 || 500 ≤ code && code < 600

/-- The row after a response. -/
def finishRow (attempt : ℕ) (status : Option ℕ) (now : ℕ) (d : Delivery) : Option Delivery :=
  if d.attempts ≠ attempt ∨ d.deliveredAt.isSome = true ∨ d.stopped = true then none
  else
    let d := clearOwner { d with lastStatus := status }
    if isSuccess status then some { d with deliveredAt := some now, lastFailed := false }
    else if isRetry status = false ∨ MAX_ATTEMPTS ≤ d.attempts then
      some { d with lastFailed := true, stopped := true }
    else
      some { d with
        lastFailed := true
        nextAttempt := saturatingAdd now (min (2 ^ min d.attempts 12) 3600) }

/-- What the response makes of a row. -/
def finishDelivery (id : Text) (attempt : ℕ) (status : Option ℕ) (now : ℕ) (t : Tables) : Tables :=
  match (t.deliveries id).bind (finishRow attempt status now) with
  | none => t
  | some d => t.putDelivery id d

/-- What is pending for a stream is stopped. -/
def cancelPending (streamId : Text) (t : Tables) : Tables :=
  { t with
    deliveries := fun id => (t.deliveries id).map fun d =>
      if d.streamId = streamId ∧ d.deliveredAt = none ∧ d.stopped = false then
        { d with stopped := true }
      else d }

/-- `cleanup`, over the page that is due. -/
def cleanup (page : List Text) (now : ℕ) (t : Tables) : Tables :=
  { t with
    deliveries := fun id => (t.deliveries id).filter fun d =>
      ¬ (id ∈ page ∧ saturatingAdd d.createdAt (7 * 86400) < now) }

/-! ## Streams -/

/-- A stream is created, by an administrator, a manifest or a receiver. -/
def createStream (id : Text) (stream : Stream) (t : Tables) : Tables :=
  match t.streams id with
  | none => t.putStream id (some stream)
  | some _ => t

/-- `delete_admin` and `delete_receiver`. -/
def deleteStream (id : Text) (t : Tables) : Tables := (cancelPending id t).putStream id none

/-- `update_receiver`: pending deliveries are cancelled where anything changes that they rest on. -/
def updateReceiver (id : Text) (events : List Text) (method endpoint : Text)
    (authorization : Option Text) (t : Tables) : Tables :=
  match t.streams id with
  | none => t
  | some stream =>
    let next := { stream with
      events := events, deliveryMethod := method, endpointUrl := endpoint
      authorizationHeader := authorization }
    if events ≠ stream.events ∨ endpoint ≠ stream.endpointUrl ∨
        authorization ≠ stream.authorizationHeader then
      (cancelPending id t).putStream id (some next)
    else t.putStream id (some next)

/-- `persist_subject_replacement`. -/
def bindSubjects (id : Text) (subjects : List (Text × Text)) (t : Tables) : Tables :=
  match t.streams id with
  | none => t
  | some stream =>
    if stream.subjects = subjects then t
    else (cancelPending id t).putStream id (some { stream with subjects := subjects })

/-! ## Runs -/

/-- A transaction, or a worker's step. -/
inductive Event where
  | enqueue (streamId subject userId event credentialType id : Text) (now : ℕ)
  | claim (limit : ℕ) (excluded : List Text) (due : List (Text × Text)) (now : ℕ)
  | begin_ (id lease : Text) (now : ℕ)
  | finish (id : Text) (attempt : ℕ) (status : Option ℕ) (now : ℕ)
  | cancel (streamId : Text)
  | createStream (id : Text) (stream : Stream)
  | deleteStream (id : Text)
  | updateReceiver (id : Text) (events : List Text) (method endpoint : Text)
      (authorization : Option Text)
  | bindSubjects (id : Text) (subjects : List (Text × Text))
  | cleanup (page : List Text) (now : ℕ)

/-- A worker was told to send: the attempt is put on record. -/
def recordDispatch (id : Text) (t : Tables) : Tables × Bool → Tables
  | (t', true) => { t' with
      dispatched := (t.deliveries id).elim t.dispatched fun d => (id, d.attempts) :: t.dispatched }
  | (t', false) => t'

/-- The tables after an event. -/
def Event.after (x : Destinations) (t : Tables) : Event → Tables
  | .enqueue streamId subject userId event credentialType id now =>
    Signals.enqueue streamId subject userId event credentialType id now t
  | .claim limit excluded due now => (claimDeliveries x limit excluded due now t).1
  | .begin_ id lease now => recordDispatch id t (beginDispatch id lease now t)
  | .finish id attempt status now => finishDelivery id attempt status now t
  | .cancel streamId => cancelPending streamId t
  | .createStream id stream => Signals.createStream id stream t
  | .deleteStream id => Signals.deleteStream id t
  | .updateReceiver id events method endpoint authorization =>
    Signals.updateReceiver id events method endpoint authorization t
  | .bindSubjects id subjects => Signals.bindSubjects id subjects t
  | .cleanup page now => Signals.cleanup page now t

/-- The id of a new delivery is a new one. -/
def Event.fresh (t : Tables) : Event → Bool
  | .enqueue _ _ _ _ _ id _ => id ∉ t.created
  | _ => true

/-- One event, with fresh ids. -/
def Step (x : Destinations) (t : Tables) (e : Event) (t' : Tables) : Prop :=
  e.fresh t = true ∧ t' = e.after x t

end RiAuth.Signals
