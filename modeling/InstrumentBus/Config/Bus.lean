import InstrumentBus.Envelope.Basic

/-!
The settings of a bus: how long to wait, how large buffers are, and what its dispatcher is called.
-/

namespace InstrumentBus

/-- Settings of a bus. Times are milliseconds and sizes are bytes. -/
structure BusConfig where
  defaultTimeout : Nat := 1000
  /-- How long a query waits that names no time. -/
  queryTimeout : Nat := 1000
  /-- The longest sleep of the dispatcher. -/
  maxPollInterval : Nat := 1000
  controlPayloadSize : Nat := 1024
  streamPayloadSize : Nat := 65584
  /-- How many buffers are made beforehand. -/
  preallocControl : Nat := 16
  preallocStream : Nat := 0
  threadName : String := "gaugebus-dispatch"
  shutdownTimeout : Nat := 5000
  deriving DecidableEq, Repr

/-- What is wrong with settings. -/
inductive ConfigFault
  | zero (field : String)
  | streamBelowControl
  | threadNameEmpty
  deriving DecidableEq, Repr

def ConfigFault.message : ConfigFault → String
  | zero field => field ++ " must be greater than zero"
  | streamBelowControl => "stream_payload_size must not be smaller than control_payload_size"
  | threadNameEmpty => "thread_name must not be empty"

namespace BusConfig

/-- The fields that may not be zero, in the order in which they are looked at. -/
def positiveFields (c : BusConfig) : List (String × Nat) :=
  [("default_timeout_ms", c.defaultTimeout), ("query_timeout_ms", c.queryTimeout),
    ("max_poll_interval_ms", c.maxPollInterval), ("control_payload_size", c.controlPayloadSize),
    ("stream_payload_size", c.streamPayloadSize), ("shutdown_timeout_ms", c.shutdownTimeout)]

/-- The first fault of the settings. -/
def validate (c : BusConfig) : Except ConfigFault Unit :=
  match c.positiveFields.find? (·.2 == 0) with
  | some (field, _) => .error (.zero field)
  | none =>
    if c.streamPayloadSize < c.controlPayloadSize then .error .streamBelowControl
    else if c.threadName = "" then .error .threadNameEmpty
    else .ok ()

/-- The times in the settings: for calls, for queries, between looks at the queues, and for the
dispatcher to end. -/
def durations (c : BusConfig) : List Nat :=
  [c.defaultTimeout, c.queryTimeout, c.maxPollInterval, c.shutdownTimeout]

def bufferSizes (c : BusConfig) : BufferSizes := ⟨c.controlPayloadSize, c.streamPayloadSize⟩

end BusConfig
end InstrumentBus
