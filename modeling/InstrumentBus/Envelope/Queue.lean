import InstrumentBus.Envelope.Basic

/-!
Queues of envelopes, and the signal that wakes whoever waits on one.

Several queues may share a signal. A notification is remembered until the next wait, so one that
comes before the wait is not lost.
-/

namespace InstrumentBus

/-- A signal that remembers whether it was notified. -/
structure Signal where
  pending : Bool := false
  deriving DecidableEq, Repr

namespace Signal

def notify (_ : Signal) : Signal := ⟨true⟩

/-- Waits while no one notifies: says whether a notification was remembered, and forgets it. -/
def wait (s : Signal) : Bool × Signal := (s.pending, ⟨false⟩)

end Signal

/-- A queue, the oldest envelope first. -/
structure Queue where
  items : List Envelope := []
  closed : Bool := false

namespace Queue

/-- Appends an envelope; a closed queue takes none. -/
def push? (q : Queue) (e : Envelope) : Option Queue :=
  if q.closed then none else some { q with items := q.items ++ [e] }

/-- Takes out the oldest envelope. -/
def pop (q : Queue) : Option Envelope × Queue :=
  match q.items with
  | [] => (none, q)
  | e :: es => (some e, { q with items := es })

/-- Takes out everything at once. -/
def drain (q : Queue) : List Envelope × Queue := (q.items, { q with items := [] })

/-- Takes no more envelopes; what is in the queue stays. -/
def close (q : Queue) : Queue := { q with closed := true }

/-- Waits for an envelope while no one else acts. An open empty queue is waited on, so that a
remembered notification is used up, unless there is no time to wait. -/
def popWithin (q : Queue) (s : Signal) (ms : Nat) : Option Envelope × Queue × Signal :=
  match q.items with
  | e :: es => (some e, { q with items := es }, s)
  | [] => if q.closed ∨ ms = 0 then (none, q, s) else (none, q, s.wait.2)

end Queue
end InstrumentBus
