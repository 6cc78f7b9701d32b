import InstrumentBus.Value.Basic

/-!
Calls that wait for an answer.

A caller waits on a slot, which keeps the first outcome it is given. `PendingCalls` holds the calls
whose answer is still to come, by number, with two indices: the deadlines in ascending order, and
the numbers of the calls that wait on each topic. A call that was answered leaves its deadline
behind in the first index, where it is passed over later.
-/

namespace InstrumentBus

/-- How a call ended. -/
structure CallOutcome where
  code : Int32
  value : Option Value := none
  deriving DecidableEq

namespace CallOutcome

def ofStatus (s : StatusCode) : CallOutcome := ⟨s.code, none⟩

def ofValue (v : Value) : CallOutcome := ⟨0, some v⟩

end CallOutcome

/-- The name of a slot on which a caller waits. -/
abbrev SlotId := Nat

/-- The outcomes of all calls made so far, by slot. -/
structure CallSlots where
  outcomes : List (Option CallOutcome) := []

namespace CallSlots

/-- A fresh slot without an outcome. -/
def create (s : CallSlots) : SlotId × CallSlots := (s.outcomes.length, ⟨s.outcomes ++ [none]⟩)

/-- The outcome in a slot, if there is one yet. -/
def outcome? (s : CallSlots) (slot : SlotId) : Option CallOutcome := (s.outcomes[slot]?).join

/-- Writes an outcome into a slot that has none; says whether it was written. -/
def resolve (s : CallSlots) (slot : SlotId) (outcome : CallOutcome) : Bool × CallSlots :=
  match s.outcomes[slot]? with
  | some none => (true, ⟨s.outcomes.set slot (some outcome)⟩)
  | _ => (false, s)

/-- Writes one outcome into several slots. -/
def resolveAll (s : CallSlots) (slots : List SlotId) (outcome : CallOutcome) : CallSlots :=
  slots.foldl (fun s slot => (s.resolve slot outcome).2) s

end CallSlots

/-- A call that waits for an envelope on a topic. Times are milliseconds. -/
structure PendingCall where
  topic : String
  deadline : Nat
  slot : SlotId
  deriving DecidableEq, Repr

/-- The calls that wait for an answer. -/
structure PendingCalls where
  /-- The number of the last call. -/
  last : Nat := 0
  /-- The calls by number, in the order of their registration. -/
  calls : List (Nat × PendingCall) := []
  /-- Deadlines and numbers of calls in ascending order, some of them of calls that are gone. -/
  deadlines : List (Nat × Nat) := []
  /-- The numbers of the calls on each topic. -/
  topics : List (String × List Nat) := []

namespace PendingCalls

/-- The order of deadlines: of two equal ones the call that came first. -/
def before (a b : Nat × Nat) : Bool := a.1 < b.1 || (a.1 == b.1 && a.2 ≤ b.2)

/-- Puts a deadline in its place. -/
def insertDeadline (d : Nat × Nat) : List (Nat × Nat) → List (Nat × Nat)
  | [] => [d]
  | e :: ds => if before d e then d :: e :: ds else e :: insertDeadline d ds

/-- Adds a number to those of a topic. -/
def insertTopic (topic : String) (id : Nat) : List (String × List Nat) → List (String × List Nat)
  | [] => [(topic, [id])]
  | (t, ids) :: ts =>
    if t = topic then (t, ids ++ [id]) :: ts else (t, ids) :: insertTopic topic id ts

/-- Takes a number from those of a topic; a topic without numbers is dropped. -/
def eraseTopic (topic : String) (id : Nat) (ts : List (String × List Nat)) :
    List (String × List Nat) :=
  (ts.map fun (t, ids) => if t = topic then (t, ids.erase id) else (t, ids)).filter (·.2 ≠ [])

def call? (p : PendingCalls) (id : Nat) : Option PendingCall := p.calls.lookup id

/-- The numbers of the calls on a topic. -/
def idsOf (p : PendingCalls) (topic : String) : List Nat := (p.topics.lookup topic).getD []

/-- Adds a call. -/
def register (p : PendingCalls) (call : PendingCall) : PendingCalls :=
  let id := p.last + 1
  { last := id
    calls := p.calls ++ [(id, call)]
    deadlines := insertDeadline (call.deadline, id) p.deadlines
    topics := insertTopic call.topic id p.topics }

/-- Of some numbers the one with the earliest deadline, the first of several. -/
def earliest (p : PendingCalls) : List Nat → Option (Nat × PendingCall)
  | [] => none
  | id :: ids =>
    match p.call? id, earliest p ids with
    | none, best => best
    | some call, none => some (id, call)
    | some call, some (other, best) =>
      if call.deadline ≤ best.deadline then some (id, call) else some (other, best)

/-- Takes a call out of the table and of the topics; its deadline stays behind. -/
def remove (p : PendingCalls) (id : Nat) (topic : String) : PendingCalls :=
  { p with calls := p.calls.filter (·.1 ≠ id), topics := eraseTopic topic id p.topics }

/-- Takes out the call on a topic with the earliest deadline. -/
def take? (p : PendingCalls) (topic : String) : Option (PendingCall × PendingCalls) :=
  (p.earliest (p.idsOf topic)).map fun (id, call) => (call, p.remove id topic)

/-- Takes out the calls of the deadlines up to `now`; a deadline of a call that is gone is only
dropped. -/
def takeDueFrom (now : Nat) : List (Nat × Nat) → PendingCalls → List PendingCall × PendingCalls
  | [], p => ([], { p with deadlines := [] })
  | (deadline, id) :: ds, p =>
    if now < deadline then ([], { p with deadlines := (deadline, id) :: ds })
    else
      match p.call? id with
      | none => takeDueFrom now ds p
      | some call =>
        let (due, p) := takeDueFrom now ds (p.remove id call.topic)
        (call :: due, p)

/-- Takes out all calls whose deadline is not after `now`. -/
def takeDue (p : PendingCalls) (now : Nat) : List PendingCall × PendingCalls :=
  takeDueFrom now p.deadlines p

/-- Takes out all calls. -/
def takeAll (p : PendingCalls) : List PendingCall × PendingCalls :=
  (p.calls.map (·.2), { last := p.last })

/-- The earliest deadline of a call, after the deadlines of calls that are gone were dropped. -/
def nextDeadline (p : PendingCalls) : Option Nat × PendingCalls :=
  let ds := p.deadlines.dropWhile fun (_, id) => (p.call? id).isNone
  (ds.head?.map (·.1), { p with deadlines := ds })

def size (p : PendingCalls) : Nat := p.calls.length

def isEmpty (p : PendingCalls) : Bool := p.calls.isEmpty

end PendingCalls

/-- The waiting calls together with the slots of all calls. -/
structure CallTable where
  pending : PendingCalls := {}
  slots : CallSlots := {}

namespace CallTable

/-- Makes a call with a slot of its own, which no one holds yet. -/
def create (t : CallTable) (topic : String) (deadline : Nat) : PendingCall × CallTable :=
  let (slot, slots) := t.slots.create
  (⟨topic, deadline, slot⟩, { t with slots })

def register (t : CallTable) (call : PendingCall) : CallTable :=
  { t with pending := t.pending.register call }

/-- Ends a call that is held outside of the table. -/
def resolve (t : CallTable) (call : PendingCall) (outcome : CallOutcome) : CallTable :=
  { t with slots := (t.slots.resolve call.slot outcome).2 }

/-- Drops a call that is held outside of the table: whoever waits for it is told that it was
aborted. -/
def drop (t : CallTable) (call : PendingCall) : CallTable := t.resolve call (.ofStatus .aborted)

/-- Ends the call on a topic with the earliest deadline; says whether there was one. -/
def complete (t : CallTable) (topic : String) (outcome : CallOutcome) : Bool × CallTable :=
  match t.pending.take? topic with
  | none => (false, t)
  | some (call, pending) => (true, { t with pending }.resolve call outcome)

/-- Ends several calls that were taken out. -/
def resolveAll (t : CallTable) (calls : List PendingCall) (outcome : CallOutcome) : CallTable :=
  { t with slots := t.slots.resolveAll (calls.map (·.slot)) outcome }

/-- Ends the calls whose deadline is not after `now`, and counts them. -/
def expireDue (t : CallTable) (now : Nat) : Nat × CallTable :=
  let (due, pending) := t.pending.takeDue now
  (due.length, { t with pending }.resolveAll due (.ofStatus .timedOut))

/-- Ends all calls in the table, and counts them. -/
def abortAll (t : CallTable) : Nat × CallTable :=
  let (calls, pending) := t.pending.takeAll
  (calls.length, { t with pending }.resolveAll calls (.ofStatus .aborted))

def nextDeadline (t : CallTable) : Option Nat × CallTable :=
  let (deadline, pending) := t.pending.nextDeadline
  (deadline, { t with pending })

/-- Starts over with an empty table; the calls of the old one are dropped. -/
def reset (t : CallTable) : CallTable :=
  { slots := (t.abortAll).2.slots }

end CallTable
end InstrumentBus
