import Mathlib
import InstrumentBus.Proofs.Topic.Grammar
import InstrumentBus.Proofs.Dispatch.Ending
import InstrumentBus.Proofs.Dispatch.Census

/-!
# The limit on what an envelope carries

The bus refuses an envelope whose value has more bytes than its larger buffers hold. A command about
a topic has the text of this topic as its value, and so has a request to register a device, so that
the limit is one on topics as well (`handOver_lacksMemory_iff`). Settings may set it below the length
that topics may have.

What is taken is answered by the bus itself. `BusAnswers` is what holds of such a call from then on,
whatever else happens, and `told_not_lacksMemory` that this failure is not among the answers.
-/

namespace InstrumentBus

/-- What comes back is a failure for lack of memory. -/
def LacksMemory {α : Type} (result : Except Failure α) : Prop :=
  ∃ f, result = .error f ∧ f.status = .notEnoughMemory

section LacksMemory

variable {α β : Type} {f : Failure}

@[simp] theorem not_lacksMemory_ok (x : α) : ¬ LacksMemory (.ok x : Except Failure α) := nofun

@[simp] theorem lacksMemory_error :
    LacksMemory (.error f : Except Failure α) ↔ f.status = .notEnoughMemory := by
  constructor
  · rintro ⟨f', hf, hstatus⟩
    rw [Except.error.inj hf]
    exact hstatus
  · exact fun hstatus => ⟨f, rfl, hstatus⟩

@[simp] theorem lacksMemory_map (g : α → β) (result : Except Failure α) :
    LacksMemory (result.map g) ↔ LacksMemory result := by
  cases result with
  | error f => exact lacksMemory_error.trans lacksMemory_error.symm
  | ok x => exact iff_of_false (not_lacksMemory_ok (g x)) (not_lacksMemory_ok x)

end LacksMemory

/-- The topic that the bus, or its driver, is asked about. -/
def Submission.about? : Submission → Option Topic
  | .request (.query name _) | .request (.queryInto name _ _) | .request (.subscribe name _ _ _)
  | .request (.unsubscribe name _ _) => (Topic.parse name).toOption
  | .registerDevice name | .unregisterDevice name => (Device.parsePrefix name).toOption
  | _ => none

/-! ## How long topics are -/

namespace Topic

theorem utf8ByteSize_text_le (t : Topic) : t.text.utf8ByteSize ≤ t.path.utf8ByteSize + 1 := by
  have hsplit := byteLength_splitSuffix t.chars
  rw [← Text.utf8ByteSize_ofList, ← Text.utf8ByteSize_ofList, chars, String.ofList_toList] at hsplit
  exact hsplit

/-- There is room for 63 bytes in any case. -/
theorem utf8ByteSize_text (t : Topic) : t.text.utf8ByteSize ≤ maxLength :=
  t.utf8ByteSize_text_le.trans (Nat.succ_le_succ t.utf8ByteSize_path)

end Topic

/-- Settings that pass the check leave room for something. -/
theorem BusConfig.streamPayloadSize_pos {c : BusConfig} (h : c.validate = .ok ()) :
    0 < c.streamPayloadSize := by
  by_contra hzero
  unfold validate at h
  split at h
  · cases h
  · rename_i hnone
    have hstream := List.find?_eq_none.mp hnone ("stream_payload_size", c.streamPayloadSize)
      (by simp [positiveFields])
    simp only [beq_iff_eq] at hstream
    omega

namespace Bus

variable {b : Bus} {e : Envelope} {s : Submission} {t : Topic} {timeout : Nat} {inside : Bool}
  {ticket : Ticket}

/-! ## At once -/

/-- What comes back at once to whoever hands something over, and does so from inside of a listener or
not: the reason of a refusal, or a ticket for an answer, if there is one to wait for. -/
def handOver (b : Bus) (inside : Bool) : Submission → Except Failure (Option Ticket)
  | .request r =>
    match b.envelopeOf r with
    | .error f => .error f
    | .ok (e, timeout) => (b.submit e timeout inside).1
  | .shutdown => .ok none
  | .command e timeout => (b.submit e.bare timeout inside).1
  | .send e => (b.send e.bare).1.map fun _ => none
  | .registerDevice name => (b.registerDevice name).1.map fun _ => none
  | .unregisterDevice name => (b.unregisterDevice name).1.map fun _ => none

theorem not_lacksMemory_closed {α : Type} :
    ¬ LacksMemory (.error (.ofBus .closed) : Except Failure α) :=
  fun h => StatusCode.noConfusion (lacksMemory_error.mp h)

/-- Of the reasons to refuse an envelope only its size is one of memory. -/
theorem submit_lacksMemory_iff (hopen : b.closed = false) :
    LacksMemory (b.submit e timeout inside).1 ↔ b.config.streamPayloadSize < e.value.byteLength := by
  unfold submit
  rw [if_neg (by simp [hopen])]
  by_cases hbig : b.config.streamPayloadSize < e.value.byteLength
  · rw [show b.checkPayload e = .error _ from if_pos hbig]
    exact iff_of_true (lacksMemory_error.mpr rfl) hbig
  · rw [show b.checkPayload e = .ok () from if_neg hbig]
    refine iff_of_false ?_ hbig
    simp only
    split
    · split
      · exact not_lacksMemory_ok _
      · exact not_lacksMemory_closed
    · split
      · exact fun h => StatusCode.noConfusion (lacksMemory_error.mp h)
      · split
        · exact not_lacksMemory_ok _
        · exact not_lacksMemory_closed

theorem send_lacksMemory_iff (hopen : b.closed = false) :
    LacksMemory (b.send e).1 ↔ b.config.streamPayloadSize < e.value.byteLength := by
  unfold send
  rw [if_neg (by simp [hopen])]
  by_cases hbig : b.config.streamPayloadSize < e.value.byteLength
  · rw [show b.checkPayload e = .error _ from if_pos hbig]
    exact iff_of_true (lacksMemory_error.mpr rfl) hbig
  · rw [show b.checkPayload e = .ok () from if_neg hbig]
    refine iff_of_false ?_ hbig
    simp only
    split
    · exact not_lacksMemory_ok _
    · exact not_lacksMemory_closed

theorem toOption_eq_some_iff {ε α : Type} {result : Except ε α} {x : α} :
    result.toOption = some x ↔ result = .ok x := by
  cases result <;> simp [Except.toOption]

theorem parseTopic_of_about {name : String} (h : (Topic.parse name).toOption = some t) :
    parseTopic name = .ok t := by
  unfold parseTopic
  rw [toOption_eq_some_iff.mp h]
  rfl

/-- A request of a client about a topic becomes a command to the bus with the text of the topic, but
nobody may ask for the root. -/
theorem envelopeOf_of_about {r : Request} (habout : (Submission.request r).about? = some t) :
    (t.path = "" ∧ ∃ f, b.envelopeOf r = .error f ∧ f.status = .parameterInvalid) ∨
      ∃ command control timeout, command.isLocal = true ∧
        b.envelopeOf r = .ok (b.commandEnvelope command t.text control, timeout) := by
  have hquery : ∀ {name : String} (timeout : Nat), parseTopic name = .ok t →
      b.envelopeOf r = (b.queryEnvelope name).map (fun e => (e, timeout)) →
      (t.path = "" ∧ ∃ f, b.envelopeOf r = .error f ∧ f.status = .parameterInvalid) ∨
        ∃ command control timeout, command.isLocal = true ∧
          b.envelopeOf r = .ok (b.commandEnvelope command t.text control, timeout) := by
    intro name timeout hparse hr
    rw [hr]
    unfold queryEnvelope queryTopic
    rw [hparse]
    simp only
    by_cases hroot : t.path = ""
    · rw [if_pos hroot]
      exact Or.inl ⟨hroot, _, rfl, rfl⟩
    · rw [if_neg hroot]
      exact Or.inr ⟨.query, .query t, timeout, by decide, rfl⟩
  cases r with
  | query name timeout | queryInto name capacity timeout =>
    exact hquery (b.queryTime timeout) (parseTopic_of_about habout) rfl
  | subscribe name listener flags timeout =>
    exact Or.inr ⟨.subscribe, .subscribe t ⟨b.audience.identity listener, flags⟩, timeout, by decide,
      map_eq_ok_iff.mpr ⟨t, parseTopic_of_about habout, rfl⟩⟩
  | unsubscribe name listener timeout =>
    exact Or.inr ⟨.unsubscribe, .unsubscribe t (b.audience.identity listener), timeout, by decide,
      map_eq_ok_iff.mpr ⟨t, parseTopic_of_about habout, rfl⟩⟩
  | _ => cases habout

theorem value_commandEnvelope (b : Bus) (command : Topic) (text : String) (control : Control) :
    (b.commandEnvelope command text control).value = .str text := textEnvelope_value ..

/-- A command about a topic, or a request to the driver, is refused for lack of memory just if the
text of the topic is over the limit. -/
theorem handOver_lacksMemory_iff (hvalid : b.config.validate = .ok ()) (hopen : b.closed = false)
    (habout : s.about? = some t) :
    LacksMemory (b.handOver inside s) ↔ b.config.streamPayloadSize < t.text.utf8ByteSize := by
  cases s with
  | request r =>
    show LacksMemory (match b.envelopeOf r with
      | .error f => .error f
      | .ok (e, timeout) => (b.submit e timeout inside).1) ↔ _
    rcases b.envelopeOf_of_about habout with ⟨hroot, f, hr, hstatus⟩ | ⟨command, control, _, -, hr⟩
    · rw [hr, lacksMemory_error, hstatus]
      -- the name of the root takes one byte at most
      have hlength := t.utf8ByteSize_text_le
      rw [hroot] at hlength
      have hpos := BusConfig.streamPayloadSize_pos hvalid
      exact iff_of_false StatusCode.noConfusion (Nat.not_lt.mpr (hlength.trans hpos))
    · rw [hr]
      simp only
      rw [submit_lacksMemory_iff hopen, value_commandEnvelope]
      exact Iff.rfl
  | registerDevice name =>
    show LacksMemory ((b.registerDevice name).1.map _) ↔ _
    unfold registerDevice
    rw [toOption_eq_some_iff.mp habout, lacksMemory_map, lacksMemory_map]
    -- the inbox that is made first is no part of this
    have hready : ({ b with inboxes := b.inboxes ++ [({} : Queue)] } : Bus).closed = false := hopen
    refine (send_lacksMemory_iff hready).trans ?_
    show _ < (b.textEnvelope .deviceAdd t.text).value.byteLength ↔ _
    rw [textEnvelope_value]
    exact Iff.rfl
  | unregisterDevice name =>
    show LacksMemory ((b.unregisterDevice name).1.map _) ↔ _
    unfold unregisterDevice
    rw [toOption_eq_some_iff.mp habout, lacksMemory_map, send_lacksMemory_iff hopen,
      textEnvelope_value]
    exact Iff.rfl
  | _ => cases habout

/-! ## Later -/

theorem startSubscription_outcome (b : Bus) (t : Topic) (sub : Subscription) :
    (b.startSubscription t sub).1 = none ∨
      (b.startSubscription t sub).1 = some .parameterInvalid := by
  unfold startSubscription
  split
  · exact Or.inr rfl
  · simp only
    split
    · exact Or.inl rfl
    · exact Or.inl rfl

theorem lookup_eq_error {status : StatusCode} (h : b.lookup t = .error status) :
    status = .notFound := by
  unfold lookup at h
  split at h
  · exact (Except.error.inj h).symm
  · cases h

/-- What the bus may answer to a command. -/
def localStatuses : List StatusCode := [.success, .parameterInvalid, .notFound, .notSupported]

theorem exists_code_localCommand (b : Bus) (e : Envelope) :
    ∃ status ∈ localStatuses, (b.localCommand e).1.code = status.code := by
  have hfailure : ∀ status ∈ localStatuses, ∀ b' : Bus, ∃ status' ∈ localStatuses,
      (CallOutcome.ofStatus status, b').1.code = status'.code :=
    fun status hstatus _ => ⟨status, hstatus, rfl⟩
  have hwrong := hfailure .parameterInvalid (by decide) b
  unfold localCommand
  simp only
  split
  · split
    · rename_i sub hcontrol
      simp only
      rcases b.startSubscription_outcome _ sub with hnone | hsome
      · rw [hnone]
        exact ⟨.success, by decide, rfl⟩
      · rw [hsome]
        exact ⟨.parameterInvalid, by decide, rfl⟩
    · exact hwrong
  split
  · split
    · rename_i who hcontrol
      simp only
      rcases b.endSubscription_outcome _ who with hnone | hsome
      · rw [hnone]
        exact ⟨.success, by decide, rfl⟩
      · rw [hsome]
        exact ⟨.notFound, by decide, rfl⟩
    · exact hwrong
  split
  · split
    · exact ⟨.success, by decide, rfl⟩
    · exact hwrong
  split
  · split
    · split
      · exact ⟨.success, by decide, rfl⟩
      · rename_i status hlookup
        rw [lookup_eq_error hlookup]
        exact hfailure .notFound (by decide) b
    · exact hwrong
  · exact hfailure .notSupported (by decide) b

/-- The bus never answers that memory is lacking. -/
theorem code_localCommand_ne (b : Bus) (e : Envelope) :
    (b.localCommand e).1.code ≠ StatusCode.notEnoughMemory.code := by
  have hothers : ∀ status ∈ localStatuses, status.code ≠ StatusCode.notEnoughMemory.code := by
    decide
  obtain ⟨status, hstatus, hcode⟩ := b.exists_code_localCommand e
  rw [hcode]
  exact hothers status hstatus

theorem lacksMemory_outcomeOf {topic : String} {o : CallOutcome}
    (h : LacksMemory (outcomeOf topic o)) : o.code = StatusCode.notEnoughMemory.code := by
  unfold outcomeOf at h
  split at h
  · exact StatusCode.noConfusion (lacksMemory_error.mp h)
  · exact StatusCode.noConfusion (lacksMemory_error.mp h)
  · rw [lacksMemory_map] at h
    unfold checkReturnCode at h
    split at h
    · exact absurd h (not_lacksMemory_ok _)
    · have hcode : StatusCode.ofCode o.code = .notEnoughMemory := lacksMemory_error.mp h
      unfold StatusCode.ofCode at hcode
      cases hfound : StatusCode.ofCode? o.code with
      | none =>
        rw [hfound] at hcode
        cases hcode
      | some s =>
        rw [hfound] at hcode
        have hs := List.find?_some hfound
        rw [show s = .notEnoughMemory from hcode] at hs
        exact (beq_iff_eq.mp hs).symm

/-- Whoever waits is told that memory is lacking only by an outcome that says so. -/
theorem told_lacksMemory (h : LacksMemory (b.told (.ok (some ticket)))) :
    ∃ o, b.calls.slots.outcome? ticket.slot = some o ∧ o.code = StatusCode.notEnoughMemory.code := by
  unfold told at h
  simp only at h
  cases ho : b.calls.slots.outcome? ticket.slot with
  | none =>
    rw [ho] at h
    exact StatusCode.noConfusion (lacksMemory_error.mp h)
  | some o =>
    rw [ho] at h
    exact ⟨o, rfl, lacksMemory_outcomeOf h⟩

/-- Whoever has a ticket has an envelope in the queue that goes with it. -/
theorem submit_of_ticket (h : (b.submit e timeout false).1 = .ok (some ticket)) :
    ∃ call, call.slot = ticket.slot ∧
      { e with call := some call } ∈ (b.submit e timeout false).2.commands.items := by
  unfold submit at h ⊢
  by_cases hclosed : b.closed
  · rw [if_pos hclosed] at h
    cases h
  rw [if_neg hclosed] at h ⊢
  cases hpayload : b.checkPayload e with
  | error f =>
    rw [hpayload] at h
    cases h
  | ok _ =>
    rw [hpayload] at h
    simp only [Bool.false_eq_true, if_false] at h ⊢
    by_cases htime : timeout = 0
    · rw [if_pos htime] at h
      split at h <;> cases h
    · rw [if_neg htime] at h ⊢
      split at h
      · rename_i b' hpush
        obtain ⟨-, rfl⟩ := pushCommand?_eq_some hpush
        cases h
        exact ⟨_, rfl, List.mem_append_right _ (List.mem_singleton_self _)⟩
      · cases h

end Bus

namespace Dispatcher

variable {base : CallSlots} {d : Dispatcher} {a : Action} {s : Submission} {b : Bus} {t : Topic}
  {slot : SlotId} {ticket : Ticket}

/-- The bus itself answers the call of a slot: it has done so, or the call travels with a command to
the bus, or the bus ends and the call can only be aborted. -/
inductive BusAnswers (d : Dispatcher) (slot : SlotId) : Prop
  | answered {o : CallOutcome} (houtcome : d.outcome? slot = some o)
    (hcode : o.code ≠ StatusCode.notEnoughMemory.code)
  | travels {e : Envelope} {call : PendingCall} (he : e ∈ d.commandsAhead)
    (hlocal : e.topic.isLocal = true) (hcall : e.call = some call) (hslot : call.slot = slot)
  | forsaken (hstops : d.phase.stops = true) (h : d.Forsaken slot)

theorem travelling_ne_zero {e : Envelope} {call : PendingCall} (he : e ∈ d.commandsAhead)
    (hcall : e.call = some call) : d.travelling call.slot ≠ 0 := by
  have hmem : call.slot ∈ (d.commandsAhead.filterMap Envelope.call).map (·.slot) :=
    List.mem_map.mpr ⟨call, List.mem_filterMap.mpr ⟨e, he, hcall⟩, rfl⟩
  exact Nat.ne_of_gt (List.count_pos_iff.mpr hmem)

/-- The dispatcher comes to its end by the command to end. -/
theorem isOver_act_of_not_stops (h : ¬ d.phase.stops = true) (a : Action) :
    (d.act a).phase.isOver = false := by
  by_cases ha : a = .advance
  · subst ha
    obtain ⟨b, phase⟩ := d
    cases phase with
    | awake | resting => rfl
    | backends es => cases es <;> rfl
    | commands es =>
      cases es with
      | nil => rfl
      | cons e es =>
        have he : e.topic ≠ .finalize := fun he => h (decide_eq_true he)
        show (Dispatcher.advance _).phase.isOver = false
        rw [advance_of_commands rfl he]
        rfl
    | ending | closing | ended => exact absurd rfl h
  · rw [phase_act ha]
    exact Bool.eq_false_of_not_eq_true fun hover => h (stops_of_isOver hover)

/-- The answer to a call of the bus is never that memory is lacking. -/
theorem BusAnswers.code_ne (h : d.BusAnswers slot) (hsound : d.Sound base) {o : CallOutcome}
    (ho : d.outcome? slot = some o) : o.code ≠ StatusCode.notEnoughMemory.code := by
  have hforsaken : d.Forsaken slot → o.code ≠ StatusCode.notEnoughMemory.code := by
    intro hforsaken
    rw [hforsaken.aborted o ho]
    decide
  cases h with
  | answered houtcome hcode =>
    rw [houtcome] at ho
    rwa [← Option.some.inj ho]
  | travels he hlocal hcall hslot =>
    exact hforsaken (hsound.forsaken (Or.inl (hslot ▸ travelling_ne_zero he hcall)))
  | forsaken hstops h => exact hforsaken h

/-- Whatever happens next, the call stays one that the bus answers. -/
theorem BusAnswers.act (h : d.BusAnswers slot) (hsound : d.Sound base) (hrooted : d.bus.tree.Rooted)
    (a : Action) : (d.act a).BusAnswers slot := by
  cases h with
  | answered houtcome hcode =>
    exact .answered ((hsound.rebase.act a).bus.calls.kept.outcome?_eq _ _ houtcome) hcode
  | forsaken hstops h => exact .forsaken (stops_act hstops a) (h.act hsound hstops a)
  | travels he hlocal hcall hslot =>
    rename_i e call
    by_cases hstops : d.phase.stops = true
    · have hforsaken := hsound.forsaken (Or.inl (hslot ▸ travelling_ne_zero he hcall))
      exact .forsaken (stops_act hstops a) (hforsaken.act hsound hstops a)
    -- what is ahead is handled now or stays ahead
    have hahead := commandsAhead_act (a := a) hrooted (isOver_act_of_not_stops hstops a)
    have hmem : e ∈ d.commandsHandled a ++ (d.act a).commandsAhead := by
      rw [hahead]
      exact List.mem_append_left _ he
    rcases List.mem_append.mp hmem with hnow | hlater
    · cases a with
      | advance =>
        obtain ⟨hne, es, hphase⟩ := phase_of_mem_commandsHandled hnow
        have hbus : d.bus.Sound base (e :: es) := by
          have hbus := hsound.bus
          rw [hphase] at hbus
          exact hbus
        refine .answered (o := (d.bus.localCommand { e with call := none }).1) ?_
          (d.bus.code_localCommand_ne _)
        show d.advance.outcome? slot = _
        rw [advance_of_commands hphase hne, ← hslot]
        exact hbus.outcome?_of_isLocal hcall hlocal
      | _ => cases hnow
    · exact .travels hlater hlocal hcall hslot

theorem BusAnswers.run {config : BusConfig} {as : List Action}
    (h : (run config as).BusAnswers slot) (bs : List Action) :
    (Dispatcher.run config (as ++ bs)).BusAnswers slot := by
  induction bs using List.reverseRecOn with
  | nil =>
    rw [List.append_nil]
    exact h
  | append_singleton bs a ih =>
    rw [← List.append_assoc, run_append]
    exact ih.act (sound_run config _) (run_contents config _).1 a

/-- A command about a topic that is taken with a ticket is one that the bus answers. -/
theorem busAnswers_of_ticket (hfinds : d.finds? a = some (s, b)) (habout : s.about? = some t)
    (hticket : b.handOver false s = .ok (some ticket)) : (d.act a).BusAnswers ticket.slot := by
  have hnone : ∀ {α : Type} (result : Except Failure α),
      result.map (fun _ => none) ≠ .ok (some ticket) := by
    intro α result
    cases result <;> nofun
  cases s with
  | request r =>
    have hgiven : (match b.envelopeOf r with
      | .error f => (.error f : Except Failure (Option Ticket))
      | .ok (e, timeout) => (b.submit e timeout false).1) = .ok (some ticket) := hticket
    rcases b.envelopeOf_of_about habout with ⟨-, f, hr, -⟩ | ⟨command, control, timeout, hlocal, hr⟩
    · rw [hr] at hgiven
      cases hgiven
    · rw [hr] at hgiven
      obtain ⟨call, hslot, hmem⟩ := Bus.submit_of_ticket hgiven
      have he : b.envelopeFor? (.request r) =
          some (b.commandEnvelope command t.text control, timeout) := by
        show (b.envelopeOf r).toOption = _
        rw [hr]
        rfl
      rw [← (act_of_finds hfinds he).1] at hmem
      refine .travels (List.mem_append_right _ hmem) ?_ rfl hslot
      show (b.commandEnvelope command t.text control).topic.isLocal = true
      rw [show (b.commandEnvelope command t.text control).topic = command from
        b.envelope_topic command (Value.str t.text) {}]
      exact hlocal
  | registerDevice name => exact absurd hticket (hnone _)
  | unregisterDevice name => exact absurd hticket (hnone _)
  | _ => cases habout

/-- Who was not refused at once is never told later that memory is lacking, whatever else happens. -/
theorem told_not_lacksMemory {config : BusConfig} {as : List Action} {ticket? : Option Ticket}
    (hfinds : (run config as).finds? a = some (s, b)) (habout : s.about? = some t)
    (hgiven : b.handOver false s = .ok ticket?) (bs : List Action) :
    ¬ LacksMemory ((((run config as).act a).runFrom bs).bus.told (.ok ticket?)) := by
  intro hlacks
  cases ticket? with
  | none => exact not_lacksMemory_ok none hlacks
  | some ticket =>
    obtain ⟨o, ho, hcode⟩ := Bus.told_lacksMemory hlacks
    have hact : (run config (as ++ [a])).BusAnswers ticket.slot := by
      rw [run_append]
      exact busAnswers_of_ticket hfinds habout hgiven
    have hlast := hact.run bs
    rw [run_append, run_append] at hlast
    exact hlast.code_ne (((sound_run config as).act a).runFrom bs) ho hcode

/-- Settings that pass the check may make it impossible to ask for a topic, or to register a device:
on an open bus this is refused for lack of memory just if the text of the topic has more bytes than
the larger buffers hold, be it from inside of a listener or not. This cannot happen where they hold
63 bytes. And if this is a bus that a client finds in some run, and the client is not refused, it is
never told later that memory is lacking. -/
theorem lacksMemory_iff_over_limit (inside : Bool) (hvalid : b.config.validate = .ok ())
    (hopen : b.closed = false) (habout : s.about? = some t) :
    (LacksMemory (b.handOver inside s) ↔ b.config.streamPayloadSize < t.text.utf8ByteSize) ∧
      t.text.utf8ByteSize ≤ 63 ∧
      ∀ (config : BusConfig) (as : List Action) (a : Action) (ticket? : Option Ticket)
        (bs : List Action), (run config as).finds? a = some (s, b) →
        b.handOver false s = .ok ticket? →
          ¬ LacksMemory ((((run config as).act a).runFrom bs).bus.told (.ok ticket?)) := by
  refine ⟨Bus.handOver_lacksMemory_iff hvalid hopen habout, t.utf8ByteSize_text, ?_⟩
  intro config as a ticket? bs hfinds hgiven
  exact told_not_lacksMemory hfinds habout hgiven bs

/-! ### Buffers of 16 bytes -/

/-- Settings that pass the check, with room for the prefix of a device but not for its topics. -/
def smallBuffers : BusConfig := { controlPayloadSize := 16, streamPayloadSize := 16 }

def rangeOfDevice : Topic := ⟨"u/js220/0001/s/i/range", rfl⟩

/-- A client subscribes to a setting of a device. -/
def subscribesToRange : Submission := .request (.subscribe "u/js220/0001/s/i/range" "s" {} 100)

/-- A client asks what is kept at the topic of the device itself. -/
def asksForDevice : Submission := .request (.query "u/js220/0001" 100)

theorem smallBuffers_refuse :
    (smallBuffers.validate = .ok () ∧
      LacksMemory ((run smallBuffers []).bus.handOver false subscribesToRange)) ∧
    ¬ LacksMemory ((run smallBuffers []).bus.handOver false (.registerDevice "u/js220/0001")) ∧
    ¬ LacksMemory ((((run smallBuffers []).act (.submit asksForDevice)).runFrom
      (List.replicate 6 .advance)).bus.told (.ok (some ⟨0, "_/!query", 100⟩))) := by
  have hvalid : (run smallBuffers []).bus.config.validate = .ok () := by decide +kernel
  have hopen : (run smallBuffers []).bus.closed = false := by decide +kernel
  have hticket : (run smallBuffers []).bus.handOver false asksForDevice =
      .ok (some ⟨0, "_/!query", 100⟩) := by decide +kernel
  have hrange := lacksMemory_iff_over_limit (t := rangeOfDevice) (s := subscribesToRange) false
    hvalid hopen rfl
  have hdevice := lacksMemory_iff_over_limit (t := ⟨"u/js220/0001", rfl⟩)
    (s := .registerDevice "u/js220/0001") false hvalid hopen rfl
  have hquery := lacksMemory_iff_over_limit (t := ⟨"u/js220/0001", rfl⟩) (s := asksForDevice) false
    hvalid hopen rfl
  refine ⟨⟨rfl, hrange.1.mpr (by decide +kernel)⟩, fun h => ?_, ?_⟩
  · exact absurd (hdevice.1.mp h) (by decide +kernel)
  · exact hquery.2.2 smallBuffers [] (.submit asksForDevice) _ _ rfl hticket

/-- So it is not true that the limit concerns the values of users only. -/
theorem not_always_room_for_topics :
    ¬ ∀ (config : BusConfig) (as : List Action) (s : Submission) (t : Topic) (inside : Bool),
      config.validate = .ok () → (run config as).bus.closed = false → s.about? = some t →
        ¬ LacksMemory ((run config as).bus.handOver inside s) := by
  intro h
  refine h smallBuffers [] subscribesToRange rangeOfDevice false rfl (by decide +kernel) rfl ?_
  exact ⟨.ofBus (.payloadTooBig "_/!sub" 22 16), by decide +kernel, rfl⟩

end Dispatcher
end InstrumentBus
