import Mathlib
import InstrumentBus.Proofs.Dispatch.Registrations

/-!
# What comes in and what is handled

A submission puts at most one envelope into one of the two queues, behind all that is there:
`Bus.commandOf?` and `Bus.messageOf?` say which, and `received_accept` that this is so.

For a run there are four logs, of what came into each queue and what was handled of it. `Accounted`
says how they hang together: what came in is what was handled, then what the dispatcher has in its
hands, and then what lies in the queue. So each envelope is handled at most once and in its turn, up
to the command to end. `accounted_run` is the invariant of all runs.
-/

namespace InstrumentBus

/-! ## What a submission puts into a queue -/

/-- No slot got an outcome but that of a call that is dropped. -/
def CallSlots.OnlyAborts (s s' : CallSlots) : Prop :=
  ∀ slot, s'.outcome? slot = s.outcome? slot ∨ s'.outcome? slot = some (.ofStatus .aborted)

namespace CallSlots

variable {s s' s'' : CallSlots}

theorem OnlyAborts.refl (s : CallSlots) : s.OnlyAborts s := fun _ => Or.inl rfl

theorem OnlyAborts.trans (h : s.OnlyAborts s') (h' : s'.OnlyAborts s'') : s.OnlyAborts s'' := by
  intro slot
  rcases h' slot with hsame | haborted
  · rw [hsame]
    exact h slot
  · exact Or.inr haborted

/-- A new slot has no outcome. -/
theorem onlyAborts_create (s : CallSlots) : s.OnlyAborts s.create.2 := by
  intro slot
  left
  unfold outcome?
  rw [getElem?_create]
  split
  · rename_i hnew
    rw [hnew, show s.create.1 = s.outcomes.length from rfl, List.getElem?_eq_none (Nat.le_refl _)]
    rfl
  · rfl

theorem onlyAborts_resolve (s : CallSlots) (slot : SlotId) :
    s.OnlyAborts (s.resolve slot (.ofStatus .aborted)).2 := by
  intro other
  unfold outcome?
  rw [getElem?_resolve]
  split
  · exact Or.inr rfl
  · exact Or.inl rfl

end CallSlots

namespace Bus

variable {b b' : Bus} {e : Envelope} {command message : Option Envelope}

/-- An envelope is taken into a queue: the bus and the queue are open, and it is not too big. -/
def admits (b : Bus) (q : Queue) (e : Envelope) : Bool :=
  !b.closed && !q.closed && (b.checkPayload e).isOk

/-- The envelope of a client as it is put into the queue, if it is: the call of a client that waits
goes along. -/
def queued? (b : Bus) (e : Envelope) (timeout : Nat) : Option Envelope :=
  if !b.admits b.commands e then none
  else if timeout = 0 then some e
  else
    let call := (b.calls.create (e.topic.withSuffix .returnCode).text (b.clock + timeout)).1
    some { e with call := some call }

/-- What a client hands over, and how long it waits for an answer. -/
def envelopeFor? (b : Bus) : Submission → Option (Envelope × Nat)
  | .request r => (b.envelopeOf r).toOption
  | .command e timeout => some (e.bare, timeout)
  | _ => none

/-- The command that a submission puts into the queue, if any. -/
def commandOf? (b : Bus) : Submission → Option Envelope
  | .shutdown =>
    if b.closed || b.commands.closed then none else some (b.envelope .finalize Value.null {})
  | s => (b.envelopeFor? s).bind fun x => b.queued? x.1 x.2

/-- An envelope of a backend, unless it is refused. -/
def passed? (b : Bus) (e : Envelope) : Option Envelope :=
  if b.admits b.backend e then some e else none

/-- The envelope that a submission puts into the queue of the backends, if any. -/
def messageOf? (b : Bus) : Submission → Option Envelope
  | .send e => b.passed? e.bare
  | .registerDevice name =>
    (Device.parsePrefix name).toOption.bind fun topic => b.passed? { b.textEnvelope .deviceAdd topic.text
      with control := some (.deviceAdd topic b.inboxes.length) }
  | .unregisterDevice name =>
    (Device.parsePrefix name).toOption.bind fun topic =>
      b.passed? (b.textEnvelope .deviceRemove topic.text)
  | _ => none

/-- The second bus comes from the first by putting these envelopes into the queues. -/
structure Received (command message : Option Envelope) (b b' : Bus) : Prop where
  commands_eq : b'.commands = { b.commands with items := b.commands.items ++ command.toList }
  backend_eq : b'.backend = { b.backend with items := b.backend.items ++ message.toList }
  poolClosed_eq : b'.poolClosed = b.poolClosed
  slots : b.calls.slots.OnlyAborts b'.calls.slots

theorem received_none (hcommands : b'.commands = b.commands) (hbackend : b'.backend = b.backend)
    (hpool : b'.poolClosed = b.poolClosed) (hslots : b.calls.slots.OnlyAborts b'.calls.slots) :
    b.Received none none b' := by
  refine ⟨?_, ?_, hpool, hslots⟩
  · rw [hcommands, Option.toList_none, List.append_nil]
  · rw [hbackend, Option.toList_none, List.append_nil]

theorem Received.refl (b : Bus) : b.Received none none b :=
  received_none rfl rfl rfl (CallSlots.OnlyAborts.refl _)

theorem pushCommand?_eq_none (h : b.pushCommand? e = none) : b.commands.closed = true := by
  have hpush : b.commands.push? e = none := Option.map_eq_none_iff.mp h
  unfold Queue.push? at hpush
  split at hpush
  · assumption
  · cases hpush

theorem received_submit (b : Bus) (e : Envelope) (timeout : Nat) :
    b.Received (b.queued? e timeout) none (b.submit e timeout false).2 := by
  have hrefused : b.admits b.commands e = false → b.queued? e timeout = none := by
    intro hadmits
    unfold queued?
    rw [hadmits]
    rfl
  have htaken : b.closed = false → b.checkPayload e = .ok () → b.commands.closed = false →
      b.admits b.commands e = true := by
    intro hopen hpayload hqueue
    unfold admits
    rw [hopen, hpayload, hqueue]
    rfl
  unfold submit
  split
  · rename_i hclosed
    rw [hrefused (by simp [admits, hclosed])]
    exact Received.refl b
  rename_i hopen
  split
  · rename_i hpayload
    rw [hrefused (by simp [admits, hpayload, Except.isOk, Except.toBool])]
    exact Received.refl b
  rename_i hpayload
  have hopen : b.closed = false := by simpa using hopen
  split
  · rename_i htime
    cases hpush : b.pushCommand? e with
    | none =>
      rw [hrefused (by simp [admits, pushCommand?_eq_none hpush])]
      exact Received.refl b
    | some b' =>
      obtain ⟨hqueue, rfl⟩ := pushCommand?_eq_some hpush
      have hqueued : b.queued? e timeout = some e := by
        unfold queued?
        rw [htaken hopen hpayload hqueue, htime]
        rfl
      rw [hqueued]
      exact ⟨rfl, (List.append_nil _).symm ▸ rfl, rfl, CallSlots.OnlyAborts.refl _⟩
  · rename_i htime
    simp only [Bool.false_eq_true, if_false]
    split
    · rename_i b' hpush
      obtain ⟨hqueue, rfl⟩ := pushCommand?_eq_some hpush
      unfold queued?
      rw [htaken hopen hpayload hqueue, if_neg (by decide), if_neg htime]
      exact ⟨rfl, (List.append_nil _).symm ▸ rfl, rfl, CallSlots.onlyAborts_create _⟩
    · -- the slot was made before the queue refused the envelope
      rename_i hpush
      have hqueue := pushCommand?_eq_none hpush
      have hqueue : b.commands.closed = true := hqueue
      rw [hrefused (by simp [admits, hqueue])]
      exact received_none rfl rfl rfl
        ((CallSlots.onlyAborts_create _).trans (CallSlots.onlyAborts_resolve _ _))

theorem received_send (b : Bus) (e : Envelope) :
    b.Received none (b.passed? e) (b.send e).2 := by
  have hrefused : b.admits b.backend e = false → b.passed? e = none := by
    intro hadmits
    unfold passed?
    rw [hadmits]
    rfl
  unfold send
  split
  · rename_i hclosed
    rw [hrefused (by simp [admits, hclosed])]
    exact Received.refl b
  rename_i hopen
  split
  · rename_i hpayload
    rw [hrefused (by simp [admits, hpayload, Except.isOk, Except.toBool])]
    exact Received.refl b
  rename_i hpayload
  unfold pushBackend? Queue.push?
  by_cases hqueue : b.backend.closed
  · rw [hrefused (by simp [admits, hqueue]), if_pos hqueue]
    exact Received.refl b
  · have hpassed : b.passed? e = some e := by
      simp [passed?, admits, hopen, hpayload, hqueue, Except.isOk, Except.toBool]
    rw [hpassed, if_neg hqueue]
    exact ⟨(List.append_nil _).symm ▸ rfl, rfl, rfl, CallSlots.OnlyAborts.refl _⟩

theorem received_requestEnd (b : Bus) :
    b.Received (b.commandOf? .shutdown) none b.requestEnd := by
  unfold requestEnd
  split
  · rename_i hclosed
    have hnone : b.commandOf? .shutdown = none := by simp [commandOf?, hclosed]
    rw [hnone]
    exact Received.refl b
  · rename_i hopen
    simp only
    cases hpush : pushCommand? { b with closed := true } _ with
    | none =>
      have hqueue := pushCommand?_eq_none hpush
      have hqueue : b.commands.closed = true := hqueue
      have hnone : b.commandOf? .shutdown = none := by simp [commandOf?, hqueue]
      rw [hnone]
      exact received_none rfl rfl rfl (CallSlots.OnlyAborts.refl _)
    | some b' =>
      obtain ⟨hqueue, rfl⟩ := pushCommand?_eq_some hpush
      have hsome : b.commandOf? .shutdown = some (b.envelope .finalize Value.null {}) := by
        have hqueue : b.commands.closed = false := hqueue
        simp [commandOf?, hopen, hqueue]
      rw [hsome]
      exact ⟨rfl, (List.append_nil _).symm ▸ rfl, rfl, CallSlots.OnlyAborts.refl _⟩

/-- What is handed over goes into its queue, behind all that is there. -/
theorem received_accept (b : Bus) (s : Submission) :
    b.Received (b.commandOf? s) (b.messageOf? s) (b.accept s) := by
  cases s with
  | request r =>
    show b.Received ((b.envelopeOf r).toOption.bind _) none (b.acceptRequest r)
    unfold acceptRequest
    cases b.envelopeOf r with
    | error f => exact Received.refl b
    | ok x => exact received_submit b x.1 x.2
  | shutdown => exact received_requestEnd b
  | command e timeout => exact received_submit b e.bare timeout
  | send e => exact received_send b e.bare
  | registerDevice name =>
    show b.Received none ((Device.parsePrefix name).toOption.bind _) (b.registerDevice name).2
    unfold registerDevice
    cases Device.parsePrefix name with
    | error f => exact Received.refl b
    | ok topic =>
      -- the new inbox is no part of this
      obtain ⟨hcommands, hbackend, hpool, hslots⟩ := received_send
        { b with inboxes := b.inboxes ++ [({} : Queue)] } { b.textEnvelope .deviceAdd topic.text with
          control := some (.deviceAdd topic b.inboxes.length) }
      exact ⟨hcommands, hbackend, hpool, hslots⟩
  | unregisterDevice name =>
    show b.Received none ((Device.parsePrefix name).toOption.bind _) (b.unregisterDevice name).2
    unfold unregisterDevice
    cases Device.parsePrefix name with
    | error f => exact Received.refl b
    | ok topic => exact received_send b _

/-- What is late is handed over as if the bus were open. -/
theorem received_acceptLate (b : Bus) (s : Submission) :
    b.Received (({ b with closed := false } : Bus).commandOf? s)
      (({ b with closed := false } : Bus).messageOf? s) (b.acceptLate s) := by
  unfold acceptLate
  by_cases hclosed : b.closed
  · rw [if_pos hclosed]
    obtain ⟨hcommands, hbackend, hpool, hslots⟩ := received_accept { b with closed := false } s
    exact ⟨hcommands, hbackend, hpool, hslots⟩
  · have hopen : b.closed = false := by simpa using hclosed
    have hsame : ({ b with closed := false } : Bus) = b := by rw [← hopen]
    rw [if_neg hclosed, hsame]
    exact received_accept b s

/-! ## What handling does to the queues -/

theorem Posted.queues {b b' : Bus} {posts : List Post} (h : b.Posted posts b') :
    (∃ es, b'.commands.items = b.commands.items ++ es) ∧ b'.backend = b.backend := by
  obtain ⟨es, -, hitems⟩ := h.commands_eq
  exact ⟨⟨es, hitems⟩, h.backend_eq⟩

/-- Listeners may ask for more while a command is handled. -/
theorem queues_handleCommand (h : b.tree.Rooted) (e : Envelope) :
    (∃ es, (b.handleCommand e).commands.items = b.commands.items ++ es) ∧
      (b.handleCommand e).backend = b.backend := by
  obtain ⟨calls, hcalls⟩ := b.handleCommand_eq e
  obtain ⟨posts, hposted⟩ := exists_posted_commandPlan h e
  rw [hcalls]
  exact hposted.queues

theorem queues_backendPlan (b : Bus) (e : Envelope) :
    (b.backendPlan e).bus.commands = b.commands ∧ (b.backendPlan e).bus.backend = b.backend := by
  unfold backendPlan
  split
  · split
    · split
      · unfold addPlan
        split <;> exact ⟨rfl, rfl⟩
      · exact ⟨rfl, rfl⟩
    · split
      · split
        · unfold removePlan
          split <;> exact ⟨rfl, rfl⟩
        · exact ⟨rfl, rfl⟩
      · exact ⟨rfl, rfl⟩
  · exact ⟨rfl, rfl⟩

theorem queues_handleBackend (h : b.tree.Rooted) (e : Envelope) :
    (∃ es, (b.handleBackend e).commands.items = b.commands.items ++ es) ∧
      (b.handleBackend e).backend = b.backend := by
  obtain ⟨hcommands, hbackend⟩ := b.queues_backendPlan e
  obtain ⟨posts, hposted⟩ :=
    exists_posted_performAll ((untold_backendPlan b e).rooted h) (b.backendPlan e).deeds
  have hqueues := hposted.queues
  rw [hcommands, hbackend] at hqueues
  rw [handleBackend_eq h]
  exact hqueues

end Bus

/-! ## Logs -/

/-- The command to end was taken. -/
def Phase.isOver : Phase → Bool
  | .ending | .closing | .ended => true
  | _ => false

namespace Dispatcher

variable {d : Dispatcher} {a : Action} {arrived handled sent heeded : List Envelope}

/-- The command that is handled by what happens next, if any. The command to end is not handled. -/
def commandsHandled (d : Dispatcher) : Action → List Envelope
  | .advance =>
    match d.phase.commandsLeft with
    | e :: _ => if e.topic = .finalize then [] else [e]
    | [] => []
  | _ => []

/-- The envelope of a backend that is handled by what happens next, if any. -/
def messagesHandled (d : Dispatcher) : Action → List Envelope
  | .advance => d.phase.backendsLeft.take 1
  | _ => []

theorem commandsHandled_of_commands {e : Envelope} {es : List Envelope}
    (h : d.phase = .commands (e :: es)) (he : e.topic ≠ .finalize) :
    d.commandsHandled .advance = [e] := by
  obtain ⟨b, phase⟩ := d
  obtain rfl : phase = .commands (e :: es) := h
  exact if_neg he

theorem phase_of_mem_commandsHandled {e : Envelope} (he : e ∈ d.commandsHandled .advance) :
    e.topic ≠ .finalize ∧ ∃ es, d.phase = .commands (e :: es) := by
  simp only [commandsHandled] at he
  split at he
  · rename_i next es hleft
    split at he
    · exact absurd he List.not_mem_nil
    · rename_i hnext
      obtain rfl : e = next := List.mem_singleton.mp he
      exact ⟨hnext, es, phase_of_commandsLeft hleft⟩
  · exact absurd he List.not_mem_nil

theorem phase_of_mem_messagesHandled {e : Envelope} (he : e ∈ d.messagesHandled .advance) :
    ∃ es, d.phase = .backends (e :: es) := by
  obtain ⟨b, phase⟩ := d
  cases phase with
  | backends es =>
    cases es with
    | nil => exact absurd he List.not_mem_nil
    | cons next es =>
      obtain rfl : e = next := List.mem_singleton.mp he
      exact ⟨es, rfl⟩
  | _ => exact absurd he List.not_mem_nil

/-- What comes into the queue of commands by what happens next: a client hands it over, or listeners
ask for it while they are called. -/
def commandsIn (d : Dispatcher) : Action → List Envelope
  | .advance => d.advance.bus.commands.items.drop d.bus.commands.items.length
  | .submit s => (d.bus.commandOf? s).toList
  | .submitLate s => (({ d.bus with closed := false } : Bus).commandOf? s).toList
  | _ => []

/-- What comes into the queue of the backends by what happens next. -/
def messagesIn (d : Dispatcher) : Action → List Envelope
  | .submit s => (d.bus.messageOf? s).toList
  | .submitLate s => (({ d.bus with closed := false } : Bus).messageOf? s).toList
  | _ => []

/-- What all that happens from some moment on adds to a log. -/
def logFrom {α : Type} (f : Dispatcher → Action → List α) : Dispatcher → List Action → List α
  | _, [] => []
  | d, a :: as => f d a ++ logFrom f (d.act a) as

theorem logFrom_append {α : Type} (f : Dispatcher → Action → List α) (d : Dispatcher)
    (as bs : List Action) :
    logFrom f d (as ++ bs) = logFrom f d as ++ logFrom f (d.runFrom as) bs := by
  induction as generalizing d with
  | nil => rfl
  | cons a as ih =>
    rw [List.cons_append, logFrom, logFrom, ih, List.append_assoc]
    rfl

theorem logFrom_concat {α : Type} (f : Dispatcher → Action → List α) (d : Dispatcher)
    (as : List Action) (a : Action) :
    logFrom f d (as ++ [a]) = logFrom f d as ++ f (d.runFrom as) a := by
  rw [logFrom_append]
  exact congrArg _ (List.append_nil _)

/-- What is so of everything that may be added is so of all that was added. -/
theorem forall_mem_logFrom {α : Type} {f : Dispatcher → Action → List α} {P : α → Prop}
    (h : ∀ d a, ∀ x ∈ f d a, P x) (d : Dispatcher) (as : List Action) : ∀ x ∈ logFrom f d as, P x := by
  induction as generalizing d with
  | nil => exact List.forall_mem_nil _
  | cons a as ih => exact List.forall_mem_append.mpr ⟨h d a, ih (d.act a)⟩

/-- All commands that came in, those at the start first. -/
def allCommands (config : BusConfig) (as : List Action) : List Envelope :=
  (Bus.start config).commands.items ++ logFrom commandsIn ⟨.start config, .awake⟩ as

/-- All commands that were handled. -/
def handledCommands (config : BusConfig) (as : List Action) : List Envelope :=
  logFrom commandsHandled ⟨.start config, .awake⟩ as

/-- All envelopes of backends that came in, those at the start first. -/
def allMessages (config : BusConfig) (as : List Action) : List Envelope :=
  (Bus.start config).backend.items ++ logFrom messagesIn ⟨.start config, .awake⟩ as

/-- All envelopes of backends that were handled. -/
def handledMessages (config : BusConfig) (as : List Action) : List Envelope :=
  logFrom messagesHandled ⟨.start config, .awake⟩ as

/-! ## Accounts -/

/-- What is left of the commands that came in, in their order. -/
def commandsAhead (d : Dispatcher) : List Envelope := d.phase.commandsLeft ++ d.bus.commands.items

/-- What is left of the envelopes of backends. -/
def messagesAhead (d : Dispatcher) : List Envelope := d.phase.backendsLeft ++ d.bus.backend.items

/-- As long as the dispatcher works, what is ahead loses what is handled at its front and gains what
comes in at its end. -/
theorem commandsAhead_advance (h : d.bus.tree.Rooted) (hover : d.advance.phase.isOver = false) :
    d.commandsHandled .advance ++ d.advance.commandsAhead =
      d.commandsAhead ++ d.commandsIn .advance := by
  obtain ⟨b, phase⟩ := d
  unfold commandsAhead commandsIn commandsHandled
  cases phase with
  | awake | resting => simp [advance, Phase.commandsLeft, Bus.takeBackend]
  | ending | closing | ended => cases hover
  | backends es =>
    cases es with
    | nil => simp [advance, Phase.commandsLeft, Bus.takeCommands, Queue.drain]
    | cons e es =>
      obtain ⟨⟨new, hitems⟩, -⟩ := Bus.queues_handleBackend h e
      simp [advance, Phase.commandsLeft, hitems]
  | commands es =>
    cases es with
    | nil => simp [advance, Phase.commandsLeft, Bus.expireCalls]
    | cons e es =>
      by_cases he : e.topic = .finalize
      · simp [advance, he, Phase.isOver] at hover
      · obtain ⟨⟨new, hitems⟩, -⟩ := Bus.queues_handleCommand h e
        simp [advance, Phase.commandsLeft, he, hitems]

theorem messagesAhead_advance (h : d.bus.tree.Rooted) (hended : d.advance.phase ≠ .ended) :
    d.messagesHandled .advance ++ d.advance.messagesAhead = d.messagesAhead := by
  obtain ⟨b, phase⟩ := d
  unfold messagesAhead messagesHandled
  cases phase with
  | awake => simp [advance, Phase.backendsLeft, Bus.takeBackend, Queue.drain]
  | resting | ending => simp [advance, Phase.backendsLeft, Bus.expireCalls]
  | closing | ended => exact absurd rfl hended
  | backends es =>
    cases es with
    | nil => simp [advance, Phase.backendsLeft, Bus.takeCommands]
    | cons e es =>
      have hqueue := (Bus.queues_handleBackend h e).2
      simp [advance, Phase.backendsLeft, hqueue]
  | commands es =>
    cases es with
    | nil => simp [advance, Phase.backendsLeft, Bus.expireCalls]
    | cons e es =>
      by_cases he : e.topic = .finalize
      · simp [advance, Phase.backendsLeft, he, Bus.dropEnvelopes]
      · have hqueue := (Bus.queues_handleCommand h e).2
        simp [advance, Phase.backendsLeft, he, hqueue]

/-- Only the dispatcher goes on in its round. -/
theorem phase_act (ha : a ≠ .advance) : (d.act a).phase = d.phase := by
  cases a with
  | advance => exact absurd rfl ha
  | _ => rfl

theorem commandsAhead_act (h : d.bus.tree.Rooted) (hover : (d.act a).phase.isOver = false) :
    d.commandsHandled a ++ (d.act a).commandsAhead = d.commandsAhead ++ d.commandsIn a := by
  have hreceived : ∀ {command message : Option Envelope} {b' : Bus},
      d.bus.Received command message b' →
      (⟨b', d.phase⟩ : Dispatcher).commandsAhead = d.commandsAhead ++ command.toList := by
    intro command message b' hreceived
    unfold commandsAhead
    rw [hreceived.commands_eq, List.append_assoc]
  cases a with
  | advance => exact commandsAhead_advance h hover
  | submit s => exact hreceived (Bus.received_accept d.bus s)
  | submitLate s => exact hreceived (Bus.received_acceptLate d.bus s)
  | collect p => exact (List.append_nil _).symm
  | addListener l => exact (List.append_nil _).symm
  | setClock time => exact (List.append_nil _).symm

theorem messagesAhead_act (h : d.bus.tree.Rooted) (hended : (d.act a).phase ≠ .ended) :
    d.messagesHandled a ++ (d.act a).messagesAhead = d.messagesAhead ++ d.messagesIn a := by
  have hreceived : ∀ {command message : Option Envelope} {b' : Bus},
      d.bus.Received command message b' →
      (⟨b', d.phase⟩ : Dispatcher).messagesAhead = d.messagesAhead ++ message.toList := by
    intro command message b' hreceived
    unfold messagesAhead
    rw [hreceived.backend_eq, List.append_assoc]
  cases a with
  | advance => exact (messagesAhead_advance h hended).trans (List.append_nil _).symm
  | submit s => exact hreceived (Bus.received_accept d.bus s)
  | submitLate s => exact hreceived (Bus.received_acceptLate d.bus s)
  | collect p => exact (List.append_nil _).symm
  | addListener l => exact (List.append_nil _).symm
  | setClock time => exact (List.append_nil _).symm

/-- Whatever is over stays so, -/
theorem isOver_act_of_isOver (hover : d.phase.isOver = true) : (d.act a).phase.isOver = true := by
  by_cases ha : a = .advance
  · subst ha
    obtain ⟨b, phase⟩ := d
    cases phase with
    | ending | closing | ended => rfl
    | _ => cases hover
  · rw [phase_act ha]
    exact hover

/-- and so does what is taken down. -/
theorem ended_act (hended : d.phase = .ended) : (d.act a).phase = .ended := by
  by_cases ha : a = .advance
  · subst ha
    obtain ⟨b, phase⟩ := d
    obtain rfl : phase = .ended := hended
    rfl
  · rw [phase_act ha]
    exact hended

/-- The dispatcher comes to its end when the command to end is the next one, and from then on it
handles nothing. -/
theorem isOver_act (hover : (d.act a).phase.isOver = true) :
    d.commandsHandled a = [] ∧ d.messagesHandled a = [] ∧
      (d.phase.isOver = true ∨ d.phase.isOver = false ∧
        ∃ e rest, d.commandsAhead = e :: rest ∧ e.topic = .finalize) := by
  by_cases ha : a = .advance
  · subst ha
    obtain ⟨b, phase⟩ := d
    cases phase with
    | ending | closing | ended => exact ⟨rfl, rfl, Or.inl rfl⟩
    | awake | resting => cases hover
    | backends es => cases es <;> cases hover
    | commands es =>
      cases es with
      | nil => cases hover
      | cons e es =>
        by_cases he : e.topic = .finalize
        · exact ⟨if_pos he, rfl, Or.inr ⟨rfl, e, es ++ b.commands.items, rfl, he⟩⟩
        · simp [act, advance, he, Phase.isOver] at hover
  · rw [phase_act ha] at hover
    cases a with
    | advance => exact absurd rfl ha
    | _ => exact ⟨rfl, rfl, Or.inl hover⟩

theorem commandsHandled_ne_finalize (d : Dispatcher) (a : Action) :
    ∀ e ∈ d.commandsHandled a, e.topic ≠ .finalize := by
  unfold commandsHandled
  split
  · split
    · split
      · exact List.forall_mem_nil _
      · rename_i he
        exact List.forall_mem_singleton.mpr he
    · exact List.forall_mem_nil _
  · exact List.forall_mem_nil _

/-- How the logs of a run hang together: what came in is what was handled and what is ahead. Once it is
over, the commands that were handled are those before the first command to end, and once all is taken
down, what was in the queue of the backends is lost. -/
structure Accounted (arrived handled sent heeded : List Envelope) (d : Dispatcher) : Prop where
  arrived_eq : d.phase.isOver = false → arrived = handled ++ d.commandsAhead
  arrived_over : d.phase.isOver = true →
    ∃ e rest, arrived = handled ++ e :: rest ∧ e.topic = .finalize
  ne_finalize : ∀ e ∈ handled, e.topic ≠ .finalize
  sent_eq : d.phase ≠ .ended → sent = heeded ++ d.messagesAhead
  isPrefix_sent : heeded <+: sent

theorem Accounted.act (h : d.Accounted arrived handled sent heeded) (hrooted : d.bus.tree.Rooted)
    (a : Action) :
    (d.act a).Accounted (arrived ++ d.commandsIn a) (handled ++ d.commandsHandled a)
      (sent ++ d.messagesIn a) (heeded ++ d.messagesHandled a) := by
  have hsent : (d.act a).phase ≠ .ended → sent ++ d.messagesIn a =
      heeded ++ d.messagesHandled a ++ (d.act a).messagesAhead := by
    intro hended
    rw [h.sent_eq fun hwas => hended (ended_act hwas), List.append_assoc, List.append_assoc,
      messagesAhead_act hrooted hended]
  refine ⟨fun hover => ?_, fun hover => ?_, ?_, hsent, ?_⟩
  · have hwas : d.phase.isOver = false := by
      by_contra hwas
      rw [isOver_act_of_isOver (by simpa using hwas)] at hover
      cases hover
    rw [h.arrived_eq hwas, List.append_assoc, List.append_assoc, commandsAhead_act hrooted hover]
  · obtain ⟨hnone, -, hwas⟩ := isOver_act hover
    -- the command to end came in before, or is the next of those that are ahead
    have hlast : ∃ e rest, arrived = handled ++ e :: rest ∧ e.topic = .finalize := by
      rcases hwas with hwas | ⟨hwas, e, rest, hahead, he⟩
      · exact h.arrived_over hwas
      · refine ⟨e, rest, ?_, he⟩
        rw [h.arrived_eq hwas, hahead]
    obtain ⟨e, rest, harrived, he⟩ := hlast
    refine ⟨e, rest ++ d.commandsIn a, ?_, he⟩
    rw [harrived, hnone, List.append_nil, List.append_assoc, List.cons_append]
  · exact List.forall_mem_append.mpr ⟨h.ne_finalize, d.commandsHandled_ne_finalize a⟩
  · by_cases hended : (d.act a).phase = .ended
    · have hnone := (isOver_act (d := d) (a := a) (by rw [hended]; rfl)).2.1
      rw [hnone, List.append_nil]
      exact h.isPrefix_sent.trans (List.prefix_append _ _)
    · rw [hsent hended]
      exact List.prefix_append _ _

theorem accounted_awake (b : Bus) :
    (⟨b, .awake⟩ : Dispatcher).Accounted b.commands.items [] b.backend.items [] :=
  ⟨fun _ => rfl, nofun, List.forall_mem_nil _, fun _ => rfl, List.nil_prefix⟩

theorem accounted_run (config : BusConfig) (as : List Action) :
    (run config as).Accounted (allCommands config as) (handledCommands config as)
      (allMessages config as) (handledMessages config as) := by
  induction as using List.reverseRecOn with
  | nil =>
    unfold allCommands handledCommands allMessages handledMessages logFrom
    rw [List.append_nil, List.append_nil]
    exact accounted_awake (.start config)
  | append_singleton as a ih =>
    have hstep := ih.act (run_contents config as).1 a
    unfold allCommands handledCommands allMessages handledMessages at hstep ⊢
    rw [logFrom_concat, logFrom_concat, logFrom_concat, logFrom_concat, run_append,
      ← List.append_assoc, ← List.append_assoc]
    exact hstep

end Dispatcher
end InstrumentBus
