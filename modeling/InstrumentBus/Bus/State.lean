import InstrumentBus.Bus.Topics
import InstrumentBus.Bus.Devices
import InstrumentBus.Bus.Listener
import InstrumentBus.Config.Bus
import InstrumentBus.Envelope.Queue

/-!
The state of a bus.

One dispatcher owns the tree, the waiting calls and the devices; clients and backends put envelopes
into its two queues, which share a signal. Time is a clock that moves when a client waits for an
answer that does not come.
-/

namespace InstrumentBus

structure Bus where
  config : BusConfig
  signal : Signal := {}
  /-- What clients sent. -/
  commands : Queue := {}
  /-- What backends sent. -/
  backend : Queue := {}
  tree : Tree := {}
  calls : CallTable := {}
  devices : Devices := {}
  /-- All inboxes that were ever handed out. -/
  inboxes : List Queue := []
  audience : Audience := {}
  /-- Milliseconds since the start. -/
  clock : Nat := 0
  /-- Clients and backends are refused. -/
  closed : Bool := false
  /-- The dispatcher has ended. -/
  finished : Bool := false
  /-- The buffers of dropped envelopes are given up. -/
  poolClosed : Bool := false

namespace Bus

def sizes (b : Bus) : BufferSizes := b.config.bufferSizes

/-- An envelope with a value and flags. -/
def envelope (b : Bus) (topic : Topic) (v : Stored) (flags : ValueFlags) : Envelope :=
  .make b.sizes topic v flags

/-- An envelope with a text and nothing else. -/
def textEnvelope (b : Bus) (topic : Topic) (text : String) : Envelope :=
  b.envelope topic (Value.str text) {}

/-- Puts an envelope into the queue of commands and wakes the dispatcher; a closed queue takes
none. -/
def pushCommand? (b : Bus) (e : Envelope) : Option Bus :=
  (b.commands.push? e).map fun commands => { b with commands, signal := b.signal.notify }

/-- The same for the queue of backends. -/
def pushBackend? (b : Bus) (e : Envelope) : Option Bus :=
  (b.backend.push? e).map fun backend => { b with backend, signal := b.signal.notify }

/-- The queue of an inbox. -/
def inbox (b : Bus) (p : InboxId) : Queue := (b.inboxes[p]?).getD {}

def setInbox (b : Bus) (p : InboxId) (q : Queue) : Bus := { b with inboxes := b.inboxes.set p q }

/-- Closes an inbox to further commands. -/
def closeInbox (b : Bus) (p : InboxId) : Bus := b.setInbox p (b.inbox p).close

/-- An envelope with more bytes than any buffer holds is refused. -/
def checkPayload (b : Bus) (e : Envelope) : Except Failure Unit :=
  let length := e.value.byteLength
  if b.config.streamPayloadSize < length then
    .error (.ofBus (.payloadTooBig e.topic.text length b.config.streamPayloadSize))
  else .ok ()

end Bus
end InstrumentBus
