import InstrumentBus.Bus.Loop

/-!
What clients and backends see: requests that wait for their answers, and devices that answer.

While a client waits, the dispatcher works until it has nothing left to do. If the answer is still
missing then, nobody is going to give it, so the clock moves to the end of the client's time.
-/

namespace InstrumentBus

/-- How a device answers each command: by publications, and then by a return code, if any. -/
structure DeviceScript where
  updates : List Publication := []
  code : Option Int32 := none

namespace Bus

/-! ### Clients -/

/-- What a client is told of the outcome of its call. -/
def outcomeOf (topic : String) (o : CallOutcome) : Except Failure (Option Value) :=
  match StatusCode.ofCode? o.code with
  | some .timedOut => .error (.ofBus (.timedOut topic))
  | some .aborted => .error (.ofBus (.aborted topic))
  | _ => (checkReturnCode topic o.code).map fun _ => o.value

/-- Moves the clock on and lets the dispatcher look at the calls that wait. -/
def passTime (b : Bus) (time : Nat) : Bus :=
  let b := { b with clock := max b.clock time }
  if b.finished then b else b.round.settle

/-- Waits for the answer to a call. -/
def await (b : Bus) (t : Ticket) : Except Failure (Option Value) × Bus :=
  let b := b.settle
  let b := match b.calls.slots.outcome? t.slot with
    | some _ => b
    | none => b.passTime t.deadline
  match b.calls.slots.outcome? t.slot with
  | some o => (outcomeOf t.topic o, b)
  | none => (.error (.ofBus (.timedOut t.topic)), b)

/-- Waits for the answer to what was submitted, if there is one to come. -/
def complete (b : Bus) : Except Failure (Option Ticket) → Except Failure (Option Value) × Bus
  | .error f => (.error f, b)
  | .ok none => (.ok none, b)
  | .ok (some ticket) => b.await ticket

/-- Ends the bus. The second time nothing happens. -/
def shutdown (b : Bus) : Bus :=
  if b.closed then b
  else
    let b := { b with closed := true }
    ((b.pushCommand? (b.envelope .finalize Value.null {})).getD b).settle

/-- Carries out a request of a client. -/
def request (b : Bus) (r : Request) : Answer × Bus :=
  match r with
  | .shutdown => (.done (.ok ()), b.shutdown)
  | r =>
    match b.envelopeOf r with
    | .error f => (r.answer (.error f), b)
    | .ok (e, timeout) =>
      let (submitted, b) := b.submit e timeout false
      let (outcome, b) := b.complete submitted
      (r.answer outcome, b.settle)

/-! ### Backends -/

/-- Sends an envelope as a backend. -/
def send (b : Bus) (e : Envelope) : Except Failure Unit × Bus :=
  if b.closed then (.error (.ofBus .closed), b)
  else
    match b.checkPayload e with
    | .error f => (.error f, b)
    | .ok () =>
      match b.pushBackend? e with
      | some b => (.ok (), b)
      | none => (.error (.ofBus .closed), b)

/-- Asks to register a device; its inbox is handed out at once. -/
def registerDevice (b : Bus) (name : String) : Except Failure (Topic × InboxId) × Bus :=
  match Device.parsePrefix name with
  | .error f => (.error f, b)
  | .ok topic =>
    let p := b.inboxes.length
    let b := { b with inboxes := b.inboxes ++ [({} : Queue)] }
    let e := { b.textEnvelope .deviceAdd topic.text with control := some (.deviceAdd topic p) }
    let (result, b) := b.send e
    (result.map fun _ => (topic, p), b)

/-- Asks to end the registration of a device. -/
def unregisterDevice (b : Bus) (name : String) : Except Failure Unit × Bus :=
  match Device.parsePrefix name with
  | .error f => (.error f, b)
  | .ok topic => b.send (b.textEnvelope .deviceRemove topic.text)

/-- Publishes a value as a backend. -/
def publishAsBackend (b : Bus) (p : Publication) : Except Failure Unit × Bus :=
  match b.publicationEnvelope p with
  | .error f => (.error f, b)
  | .ok e => b.send e

/-- Answers a command by a return code for its topic. -/
def answerCommand (b : Bus) (t : Topic) (code : Int32) : Except Failure Unit × Bus :=
  b.send (b.envelope (t.withSuffix .returnCode) (Value.i32 code) {})

/-- All commands that have come to an inbox. -/
def receiveAll (b : Bus) (p : InboxId) : List Envelope × Bus :=
  let (es, q) := (b.inbox p).drain
  (es, b.setInbox p q)

/-! ### Devices that answer -/

/-- Answers one command. The dispatcher works off what came in before the device goes on. -/
def answerWith (script : DeviceScript) (command : Envelope) (b : Bus) : Bus :=
  let b := script.updates.foldl (fun b u => (b.publishAsBackend u).2.settle) b
  match script.code with
  | some code => (b.answerCommand command.topic code).2.settle
  | none => b

/-- Answers the commands that come to an inbox, at most so many; gives them in their order. -/
def serve (script : DeviceScript) (p : InboxId) : Nat → Bus → List Envelope × Bus
  | 0, b => ([], b)
  | fuel + 1, b =>
    match (b.inbox p).pop with
    | (none, _) => ([], b)
    | (some command, q) =>
      let b := answerWith script command (b.setInbox p q)
      let (commands, b) := serve script p fuel b
      (command :: commands, b)

/-- Publishes a value as a client while a device answers what comes to its inbox from then on. -/
def requestServed (b : Bus) (r : Request) (p : InboxId) (script : DeviceScript) :
    Answer × List Envelope × Bus :=
  match b.envelopeOf r with
  | .error f => (r.answer (.error f), [], b)
  | .ok (e, timeout) =>
    let (before, b) := b.receiveAll p
    let (submitted, b) := b.submit e timeout false
    let (commands, b) := serve script p patience b.settle
    let (outcome, b) := b.complete submitted
    let b := b.settle
    let after := (b.inbox p).items
    (r.answer outcome, commands, b.setInbox p { b.inbox p with items := before ++ after })

/-- Submits a request and leaves its answer for later. -/
def requestLater (b : Bus) (r : Request) : Except Failure (Option Ticket) × Bus :=
  match b.envelopeOf r with
  | .error f => (.error f, b)
  | .ok (e, timeout) =>
    let (submitted, b) := b.submit e timeout false
    (submitted, b.settle)

end Bus
end InstrumentBus
