import InstrumentBus.Bus.Dispatch

/-!
The dispatcher's loop.

A round takes everything from the queue of the backends, then everything from the queue of the
clients, and then ends the calls whose time is over. The command to end is the last one that is
handled: what was taken with it, what is still in the queues and all calls that wait are aborted,
and nothing is left behind.
-/

namespace InstrumentBus

namespace Bus

/-- The version of the driver: major, minor and patch numbers in eight, eight and sixteen bits. -/
def driverVersion : UInt32 := 0x00010000

/-- A bus with a dispatcher that has made its first announcements. -/
def start (config : BusConfig) : Bus :=
  let b : Bus := { config }
  let b := (b.process (b.envelope .driverVersion (Value.u32 driverVersion) .retained)).2
  b.publishDeviceList

/-- A bus with the given settings, if nothing is wrong with them. -/
def create (config : BusConfig) : Except Failure Bus :=
  match config.validate with
  | .error fault => .error (.ofStatus .parameterInvalid fault.message)
  | .ok () => .ok (start config)

def takeBackend (b : Bus) : List Envelope × Bus :=
  let (es, backend) := b.backend.drain
  (es, { b with backend })

def takeCommands (b : Bus) : List Envelope × Bus :=
  let (es, commands) := b.commands.drain
  (es, { b with commands })

/-- Handles envelopes of backends in their order. -/
def handleBackends (b : Bus) (es : List Envelope) : Bus := es.foldl handleBackend b

/-- Handles commands in their order up to the command to end; gives what comes with and after it,
if it came. -/
def handleCommands (b : Bus) : List Envelope → Option (List Envelope) × Bus
  | [] => (none, b)
  | e :: es =>
    if e.topic = .finalize then (some (e :: es), b) else (b.handleCommand e).handleCommands es

/-- Drops envelopes: the calls that they carry are aborted. -/
def dropEnvelopes (b : Bus) (es : List Envelope) : Bus :=
  { b with calls := (es.filterMap Envelope.call).foldl CallTable.drop b.calls }

/-- Ends the calls whose time is over. -/
def expireCalls (b : Bus) : Bus := { b with calls := (b.calls.expireDue b.clock).2 }

/-- Takes everything down: inboxes and queues take no more envelopes, what is still in the queues is
dropped, and all calls that wait are aborted. -/
def finish (b : Bus) : Bus :=
  let b := b.devices.list.foldl (fun b d => b.closeInbox d.inbox) b
  let b := { b with devices := {}, commands := b.commands.close, backend := b.backend.close }
  let (commands, b) := b.takeCommands
  let (backend, b) := b.takeBackend
  let b := (b.dropEnvelopes commands).dropEnvelopes backend
  { b with
    calls := b.calls.abortAll.2
    tree := b.tree.finalize
    poolClosed := true
    finished := true }

/-- One round of the dispatcher, at the end of which it waits for the signal. -/
def round (b : Bus) : Bus :=
  let (es, b) := b.takeBackend
  let b := b.handleBackends es
  let (es, b) := b.takeCommands
  let (ending, b) := b.handleCommands es
  match ending with
  | some rest => ((b.dropEnvelopes rest).expireCalls).finish
  | none =>
    let b := b.expireCalls
    { b with
      calls := b.calls.nextDeadline.2
      signal := b.signal.wait.2 }

/-- There is something in the queues for the dispatcher to do. -/
def isBusy (b : Bus) : Bool :=
  !b.finished && !(b.commands.items.isEmpty && b.backend.items.isEmpty)

/-- Lets the dispatcher work until its queues are empty, at most so many rounds. -/
def settleWithin : Nat → Bus → Bus
  | 0, b => b
  | rounds + 1, b => if b.isBusy then settleWithin rounds b.round else b

/-- The rounds after which a bus that keeps itself busy is left alone. -/
def patience : Nat := 100000

/-- Lets the dispatcher work until its queues are empty. -/
def settle (b : Bus) : Bus := settleWithin patience b

end Bus
end InstrumentBus
