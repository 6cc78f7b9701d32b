import InstrumentBus.Value.Basic
import InstrumentBus.Subscription
import InstrumentBus.Failure

/-!
What clients ask of the bus, and what they are answered.
-/

namespace InstrumentBus

/-- A value for a topic, with the flags and tags that its sender chose. -/
structure Publication where
  topic : String
  value : Stored
  flags : ValueFlags
  op : UInt8 := 0
  app : UInt8 := 0

/-- What a client asks. Times are milliseconds; a request with no time to wait is only submitted,
except that a query then waits as long as the settings of the bus allow. Listeners go by name. -/
inductive Request
  | publish (p : Publication) (timeout : Nat)
  /-- Read the value kept at a topic. -/
  | query (topic : String) (timeout : Nat)
  /-- Read it into a buffer of the client. -/
  | queryInto (topic : String) (capacity : Option Nat) (timeout : Nat)
  | subscribe (topic : String) (listener : String) (flags : SubscribeFlags) (timeout : Nat)
  | unsubscribe (topic : String) (listener : String) (timeout : Nat)
  | unsubscribeAll (listener : String) (timeout : Nat)
  | shutdown

/-- A buffer for the answer to a query: for a number, or for so many bytes. -/
structure QueryBuffer where
  capacity : Option Nat
  value : Value := .null

/-- Puts a value into the buffer, if it is large enough and of the right kind. -/
def QueryBuffer.fill (b : QueryBuffer) (v : Value) : Except StatusCode QueryBuffer :=
  match b.capacity, v.bytes? with
  | none, some _ => .error .syntaxError
  | some capacity, some bytes =>
    if capacity < bytes.size then .error .tooSmall else .ok { b with value := v }
  | _, none => .ok { b with value := v }

/-- What a client is answered. -/
inductive Answer
  | done (result : Except Failure Unit)
  | value (result : Except Failure Value)
  | filled (result : Except Failure Unit) (buffer : QueryBuffer)

/-- The answer to a request whose envelope was answered, or failed. -/
def Request.answer (r : Request) (outcome : Except Failure (Option Value)) : Answer :=
  match r with
  | query _ _ => .value (outcome.map (·.getD .null))
  | queryInto topic capacity _ =>
    let buffer : QueryBuffer := { capacity }
    match outcome with
    | .error e => .filled (.error e) buffer
    | .ok v =>
      match buffer.fill (v.getD .null) with
      | .ok filled => .filled (.ok ()) filled
      | .error status =>
        .filled (.error (.ofStatus status ("query buffer cannot hold value of " ++ topic))) buffer
  | _ => .done (outcome.map fun _ => ())

end InstrumentBus
