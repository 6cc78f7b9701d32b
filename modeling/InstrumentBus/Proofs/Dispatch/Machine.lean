import Mathlib
import InstrumentBus.Bus.Session

/-!
# The dispatcher among clients and backends

`Bus.round` is one round of the dispatcher with no one else about. Here the round is cut into its
steps, one envelope each, and between any two of them clients and backends may do what they like and
the clock may show any time:

* `Phase`, where the dispatcher is in its round and what it still has in its hands;
* `Dispatcher.advance`, its next step, and `exists_iterate_advance_eq_round`, that these steps are
  those of `Bus.round`;
* `Submission` and `Bus.accept`, what can come from outside;
* `Dispatcher.run`, any sequence of all this from the start of a bus.
-/

namespace InstrumentBus

/-- Where the dispatcher is in its round. -/
inductive Phase
  | awake
  /-- Envelopes of backends were taken; these are left. -/
  | backends (es : List Envelope)
  /-- Commands were taken; these are left. -/
  | commands (es : List Envelope)
  | resting
  /-- The command to end was found; first calls expire as ever, -/
  | ending
  /-- then everything is taken down. -/
  | closing
  | ended

/-- A bus and the place of its dispatcher in the round. -/
structure Dispatcher where
  bus : Bus
  phase : Phase := .awake

namespace Dispatcher

/-! ## Steps of a round -/

/-- The next step of the dispatcher. -/
def advance : Dispatcher → Dispatcher
  | ⟨b, .awake⟩ => ⟨b.takeBackend.2, .backends b.takeBackend.1⟩
  | ⟨b, .backends []⟩ => ⟨b.takeCommands.2, .commands b.takeCommands.1⟩
  | ⟨b, .backends (e :: es)⟩ => ⟨b.handleBackend e, .backends es⟩
  | ⟨b, .commands []⟩ => ⟨b.expireCalls, .resting⟩
  | ⟨b, .commands (e :: es)⟩ =>
    if e.topic = .finalize then ⟨b.dropEnvelopes (e :: es), .ending⟩
    else ⟨b.handleCommand e, .commands es⟩
  | ⟨b, .resting⟩ => ⟨{ b with calls := b.calls.nextDeadline.2, signal := b.signal.wait.2 }, .awake⟩
  | ⟨b, .ending⟩ => ⟨b.expireCalls, .closing⟩
  | ⟨b, .closing⟩ => ⟨b.finish, .ended⟩
  | ⟨b, .ended⟩ => ⟨b, .ended⟩

theorem advance_of_commands {d : Dispatcher} {e : Envelope} {es : List Envelope}
    (h : d.phase = .commands (e :: es)) (he : e.topic ≠ .finalize) :
    d.advance = ⟨d.bus.handleCommand e, .commands es⟩ := by
  obtain ⟨b, phase⟩ := d
  obtain rfl : phase = .commands (e :: es) := h
  simp only [advance, if_neg he]

theorem advance_of_finalize {d : Dispatcher} {e : Envelope} {es : List Envelope}
    (h : d.phase = .commands (e :: es)) (he : e.topic = .finalize) :
    d.advance = ⟨d.bus.dropEnvelopes (e :: es), .ending⟩ := by
  obtain ⟨b, phase⟩ := d
  obtain rfl : phase = .commands (e :: es) := h
  simp only [advance, if_pos he]

theorem iterate_advance_backends (b : Bus) (es : List Envelope) :
    advance^[es.length] ⟨b, .backends es⟩ = ⟨b.handleBackends es, .backends []⟩ := by
  induction es generalizing b with
  | nil => rfl
  | cons e es ih =>
    rw [List.length_cons, Function.iterate_succ_apply]
    exact ih (b.handleBackend e)

/-- Commands are handled up to the command to end, which may not be among them. -/
theorem exists_iterate_advance_commands (b : Bus) (es : List Envelope) :
    ∃ n, advance^[n] ⟨b, .commands es⟩ =
      match b.handleCommands es with
      | (some rest, b) => ⟨b.dropEnvelopes rest, .ending⟩
      | (none, b) => ⟨b, .commands []⟩ := by
  induction es generalizing b with
  | nil => exact ⟨0, rfl⟩
  | cons e es ih =>
    unfold Bus.handleCommands
    by_cases he : e.topic = .finalize
    · refine ⟨1, ?_⟩
      rw [if_pos he, Function.iterate_one]
      simp [advance, he]
    · obtain ⟨n, hn⟩ := ih (b.handleCommand e)
      refine ⟨n + 1, ?_⟩
      rw [if_neg he, Function.iterate_succ_apply, ← hn]
      simp [advance, he]

/-- How a round goes on once the envelopes of backends are handled, which leaves `b'`. -/
theorem round_eq (b b' : Bus) (h : b' = b.takeBackend.2.handleBackends b.takeBackend.1) :
    b.round = match b'.takeCommands.2.handleCommands b'.takeCommands.1 with
      | (ending, b) => match ending with
        | some rest => ((b.dropEnvelopes rest).expireCalls).finish
        | none =>
          let b := b.expireCalls
          { b with calls := b.calls.nextDeadline.2, signal := b.signal.wait.2 } := by
  subst h
  rfl

/-- Left alone, the dispatcher comes to the end of the round. -/
theorem exists_iterate_advance_eq_round (b : Bus) :
    ∃ n phase, advance^[n] ⟨b, .awake⟩ = ⟨b.round, phase⟩ ∧
      (phase = .awake ∨ phase = .ended ∧ b.round.finished = true) := by
  have hbackends := iterate_advance_backends b.takeBackend.2 b.takeBackend.1
  set b' := b.takeBackend.2.handleBackends b.takeBackend.1
  obtain ⟨n, hn⟩ := exists_iterate_advance_commands b'.takeCommands.2 b'.takeCommands.1
  -- the envelopes of backends, one step to take the commands, and then these
  have hstart : advance^[n + (1 + (b.takeBackend.1.length + 1))] ⟨b, .awake⟩ =
      advance^[n] ⟨b'.takeCommands.2, .commands b'.takeCommands.1⟩ := by
    rw [Function.iterate_add_apply, Function.iterate_add_apply, Function.iterate_add_apply,
      Function.iterate_one]
    show advance^[n] (advance (advance^[_] ⟨b.takeBackend.2, .backends b.takeBackend.1⟩)) = _
    rw [hbackends]
    rfl
  rw [round_eq b b' rfl]
  cases hcommands : b'.takeCommands.2.handleCommands b'.takeCommands.1 with
  | mk ending b'' =>
    rw [hcommands] at hn
    cases ending with
    | some rest =>
      refine ⟨2 + (n + (1 + (b.takeBackend.1.length + 1))), .ended, ?_, Or.inr ⟨rfl, rfl⟩⟩
      rw [Function.iterate_add_apply, hstart, hn]
      rfl
    | none =>
      refine ⟨2 + (n + (1 + (b.takeBackend.1.length + 1))), .awake, ?_, Or.inl rfl⟩
      rw [Function.iterate_add_apply, hstart, hn]
      rfl

end Dispatcher

/-! ## What comes from outside -/

/-- The command to end, unless the bus was closed before; no one waits for it here. -/
def Bus.requestEnd (b : Bus) : Bus :=
  if b.closed then b
  else
    let b := { b with closed := true }
    (b.pushCommand? (b.envelope .finalize Value.null {})).getD b

theorem Bus.shutdown_eq (b : Bus) :
    b.shutdown = if b.closed then b else b.requestEnd.settle := by
  unfold shutdown requestEnd
  split <;> rfl

/-- What clients and backends hand over. Whether a client waits for its answer is up to the time
that it gives. -/
inductive Submission
  | request (r : Request)
  | shutdown
  /-- An envelope made by a client. -/
  | command (e : Envelope) (timeout : Nat)
  /-- An envelope made by a backend. -/
  | send (e : Envelope)
  | registerDevice (name : String)
  | unregisterDevice (name : String)

/-- An envelope as others than the bus can make it: without a call and without a control. -/
def Envelope.bare (e : Envelope) : Envelope := { e with call := none, control := none }

/-- The bus after a request of a client that becomes an envelope; all but the one to end do. -/
def Bus.acceptRequest (b : Bus) (r : Request) : Bus :=
  match b.envelopeOf r with
  | .error _ => b
  | .ok (e, timeout) => (b.submit e timeout false).2

/-- The bus after a submission, before the dispatcher has seen it. -/
def Bus.accept (b : Bus) : Submission → Bus
  | .request r => b.acceptRequest r
  | .shutdown => b.requestEnd
  | .command e timeout => (b.submit e.bare timeout false).2
  | .send e => (b.send e.bare).2
  | .registerDevice name => (b.registerDevice name).2
  | .unregisterDevice name => (b.unregisterDevice name).2

/-- A submission that found the bus open, and goes on after someone else has closed it. -/
def Bus.acceptLate (b : Bus) (s : Submission) : Bus :=
  if b.closed then { ({ b with closed := false } : Bus).accept s with closed := true } else b.accept s

/-- What may happen next. -/
inductive Action
  | advance
  | submit (s : Submission)
  | submitLate (s : Submission)
  /-- A device takes the oldest command from its inbox. -/
  | collect (p : InboxId)
  | addListener (l : Listener)
  | setClock (time : Nat)

namespace Dispatcher

def act (d : Dispatcher) : Action → Dispatcher
  | .advance => d.advance
  | .submit s => { d with bus := d.bus.accept s }
  | .submitLate s => { d with bus := d.bus.acceptLate s }
  | .collect p => { d with bus := d.bus.setInbox p (d.bus.inbox p).pop.2 }
  | .addListener l => { d with bus := { d.bus with audience := d.bus.audience.add l } }
  | .setClock time => { d with bus := { d.bus with clock := time } }

def runFrom (d : Dispatcher) (as : List Action) : Dispatcher := as.foldl act d

/-- Everything that can be reached from the start of a bus. -/
def run (config : BusConfig) (as : List Action) : Dispatcher := runFrom ⟨Bus.start config, .awake⟩ as

/-- Nothing but steps of the dispatcher. -/
theorem runFrom_replicate_advance (d : Dispatcher) (n : Nat) :
    d.runFrom (List.replicate n .advance) = advance^[n] d := by
  induction n generalizing d with
  | zero => rfl
  | succ n ih =>
    rw [List.replicate_succ, Function.iterate_succ_apply, ← ih]
    rfl

theorem run_append (config : BusConfig) (as bs : List Action) :
    run config (as ++ bs) = (run config as).runFrom bs := List.foldl_append

end Dispatcher
end InstrumentBus
