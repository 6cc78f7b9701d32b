import InstrumentBus.Bus.State

/-!
How the requests of clients become envelopes, and how envelopes are submitted.

A request that waits for its answer gets a slot, and its envelope carries the waiting call. The
dispatcher itself must never wait: there such a request is refused.
-/

namespace InstrumentBus

/-- A call that was submitted and waits for its answer. -/
structure Ticket where
  slot : SlotId
  topic : String
  deadline : Nat
  deriving DecidableEq, Repr

namespace Bus

/-- Reads a topic, or fails with what is wrong with it. -/
def parseTopic (s : String) : Except Failure Topic := (Topic.parse s).mapError .ofTopic

/-- Submits an envelope. Without time to wait it is only put into the queue; else the call that
waits for it goes along. -/
def submit (b : Bus) (e : Envelope) (timeout : Nat) (inside : Bool) :
    Except Failure (Option Ticket) × Bus :=
  if b.closed then (.error (.ofBus .closed), b)
  else
    match b.checkPayload e with
    | .error f => (.error f, b)
    | .ok () =>
      if timeout = 0 then
        match b.pushCommand? e with
        | some b => (.ok none, b)
        | none => (.error (.ofBus .closed), b)
      else if inside then (.error (.ofBus (.invalidContext e.topic.text)), b)
      else
        let deadline := b.clock + timeout
        let (call, calls) := b.calls.create (e.topic.withSuffix .returnCode).text deadline
        let b := { b with calls }
        match b.pushCommand? { e with call := some call } with
        | some b => (.ok (some ⟨call.slot, e.topic.text, deadline⟩), b)
        | none => (.error (.ofBus .closed), { b with calls := b.calls.drop call })

/-- A command to the bus about a topic. -/
def commandEnvelope (b : Bus) (command : Topic) (text : String) (control : Control) : Envelope :=
  { b.textEnvelope command text with control := some control }

/-- The topic of a query, which is not the root. -/
def queryTopic (s : String) : Except Failure Topic :=
  match parseTopic s with
  | .error f => .error f
  | .ok topic =>
    if topic.path = "" then
      .error (.ofStatus .parameterInvalid "cannot query the root topic")
    else .ok topic

def queryEnvelope (b : Bus) (topic : String) : Except Failure Envelope :=
  (queryTopic topic).map fun t => b.commandEnvelope .query t.text (.query t)

/-- How long a query waits. -/
def queryTime (b : Bus) (timeout : Nat) : Nat :=
  if timeout = 0 then b.config.queryTimeout else timeout

/-- The envelope of what is published. -/
def publicationEnvelope (b : Bus) (p : Publication) : Except Failure Envelope :=
  (parseTopic p.topic).map fun t => { b.envelope t p.value p.flags with op := p.op, app := p.app }

/-- The envelope of a request and how long the client waits for its answer. -/
def envelopeOf (b : Bus) : Request → Except Failure (Envelope × Nat)
  | .publish p timeout => (b.publicationEnvelope p).map fun e => (e, timeout)
  | .query topic timeout | .queryInto topic _ timeout =>
    (b.queryEnvelope topic).map fun e => (e, b.queryTime timeout)
  | .subscribe topic listener flags timeout =>
    (parseTopic topic).map fun t =>
      (b.commandEnvelope .subscribe t.text (.subscribe t ⟨b.audience.identity listener, flags⟩),
        timeout)
  | .unsubscribe topic listener timeout =>
    (parseTopic topic).map fun t =>
      (b.commandEnvelope .unsubscribe t.text (.unsubscribe t (b.audience.identity listener)),
        timeout)
  | .unsubscribeAll listener timeout =>
    .ok ({ b.envelope .unsubscribeAll Value.null {} with
      control := some (.unsubscribeAll (b.audience.identity listener)) }, timeout)
  | .shutdown => .error (.ofBus (.invalidContext Topic.finalize.text))

/-- A request made by a listener while it is called. It is never waited for, so all that is left to
answer is whether it was taken. -/
def requestInside (b : Bus) (r : Request) : Answer × Bus :=
  match b.envelopeOf r with
  | .error f => (r.answer (.error f), b)
  | .ok (e, timeout) =>
    let (result, b) := b.submit e timeout true
    (r.answer (result.map fun _ => none), b)

/-- The requests of a listener, one after the other, with a note of each answer. -/
def requestsInside (listener : Nat) : Nat → List Request → Bus → Bus
  | _, [], b => b
  | index, r :: rs, b =>
    let (answer, b) := b.requestInside r
    requestsInside listener (index + 1) rs
      { b with audience := b.audience.note (.answered listener index answer) }

end Bus
end InstrumentBus
