import InstrumentBus.Bus.Request
import InstrumentBus.Tree.Delivery

/-!
Listeners: the subscribers of clients, and the record of what they heard.

A listener reacts to each envelope by a status and by requests of its own. How it reacts depends on
how many envelopes it has heard before, which covers every behaviour that it can show in one run.
-/

namespace InstrumentBus

/-- How a listener is called: with whole envelopes, or with topics and values only. -/
inductive ListenerKind
  | internal
  | external
  deriving DecidableEq, Repr

/-- What a listener does when it hears an envelope. -/
structure Reaction where
  status : Option StatusCode := none
  requests : List Request := []

/-- A listener with the number of envelopes it has heard. -/
structure Listener where
  name : String
  kind : ListenerKind
  react : Nat → Reaction
  heard : Nat := 0

/-- The reaction to the next envelope. Only a listener that gets whole envelopes can refuse one. -/
def Listener.next (l : Listener) : Reaction :=
  let r := l.react l.heard
  match l.kind with
  | .internal => r
  | .external => { r with status := none }

/-- What happened at a listener, by its number. -/
inductive Event
  | heard (listener : Nat) (envelope : Envelope)
  /-- The answer to one of the requests that it made at once. -/
  | answered (listener : Nat) (index : Nat) (answer : Answer)

/-- The listeners by number, and what happened at them, the latest first. -/
structure Audience where
  listeners : List Listener := []
  record : List Event := []

namespace Audience

/-- Adds a listener. -/
def add (a : Audience) (l : Listener) : Audience := { a with listeners := a.listeners ++ [l] }

/-- The newest listener with a name. -/
def named? (a : Audience) (name : String) : Option Nat :=
  (a.listeners.zipIdx.findRev? (·.1.name == name)).map (·.2)

/-- The identity of the newest listener with a name; a name that no one has yet means the next one
to come. -/
def identity (a : Audience) (name : String) : SubscriberId :=
  .client ((a.named? name).getD a.listeners.length)

/-- Tells a listener of an envelope. -/
def hear (a : Audience) (n : Nat) (e : Envelope) : Reaction × Audience :=
  match a.listeners[n]? with
  | none => ({}, a)
  | some l =>
    (l.next, {
      listeners := a.listeners.set n { l with heard := l.heard + 1 }
      record := .heard n e :: a.record })

/-- Delivery to listeners alone, where the requests that they make are left out. -/
def receive : Receive Audience
  | .client n, e, a =>
    let (reaction, a) := a.hear n e
    (reaction.status, a)
  | .forwarder _, _, a => (none, a)

def note (a : Audience) (e : Event) : Audience := { a with record := e :: a.record }

/-- What happened since the last look, in its order. -/
def takeRecord (a : Audience) : List Event × Audience := (a.record.reverse, { a with record := [] })

end Audience
end InstrumentBus
