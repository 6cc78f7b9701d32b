import Mathlib
import InstrumentBus.Proofs.Dispatch.Forwarding
import InstrumentBus.Proofs.Dispatch.Queues

/-!
# The end of a bus

`Phase.stops` says that the command to end is the next one or was taken. From then on the dispatcher
handles nothing and calls no one (`handled_act_of_stops`, `Silent`), and three more steps of it bring
the bus down (`stepsLeft_runFrom`), to a state that nothing changes any more (`takenDown_run`).

A call that travels then, or that is made later, can only be aborted: `Forsaken`.
-/

namespace InstrumentBus

/-! ## Slots that are only aborted -/

namespace CallSlots

variable {s : CallSlots} {slot : SlotId} {slots : List SlotId}

theorem onlyAborts_resolveAll (s : CallSlots) (slots : List SlotId) :
    s.OnlyAborts (s.resolveAll slots (.ofStatus .aborted)) := by
  induction slots generalizing s with
  | nil => exact OnlyAborts.refl s
  | cons slot slots ih => exact (onlyAborts_resolve s slot).trans (ih _)

theorem outcome?_resolveAll_of_notMem (h : slot ∉ slots) (o : CallOutcome) :
    (s.resolveAll slots o).outcome? slot = s.outcome? slot := by
  induction slots generalizing s with
  | nil => rfl
  | cons other slots ih =>
    obtain ⟨hne, hrest⟩ := not_or.mp (fun hmem => h (List.mem_cons.mpr hmem))
    rw [resolveAll_cons, ih hrest, outcome?_resolve_of_ne hne]

end CallSlots

theorem CallTable.onlyAborts_dropAll (calls : List PendingCall) (t : CallTable) :
    t.slots.OnlyAborts (calls.foldl drop t).slots := by
  induction calls generalizing t with
  | nil => exact CallSlots.OnlyAborts.refl _
  | cons call calls ih => exact (CallSlots.onlyAborts_resolve _ call.slot).trans (ih (t.drop call))

/-- Whoever does not wait in the table does not see that others come to their deadline. -/
theorem CallTable.outcome?_expireDue {t : CallTable} (h : t.pending.Indexed) (now : Nat)
    {slot : SlotId} (hslot : ∀ call ∈ t.pending.waiting, call.slot ≠ slot) :
    (t.expireDue now).2.slots.outcome? slot = t.slots.outcome? slot := by
  have hslots : (t.expireDue now).2.slots =
      t.slots.resolveAll ((t.pending.waiting.filter (·.deadline ≤ now)).map (·.slot))
        (.ofStatus .timedOut) := congrArg PlainCalls.slots (expireDue_eq_plain h now).2.2
  rw [hslots]
  apply CallSlots.outcome?_resolveAll_of_notMem
  intro hmem
  obtain ⟨call, hcall, heq⟩ := List.mem_map.mp hmem
  exact hslot call (List.mem_of_mem_filter hcall) heq

/-! ## The bus at its end -/

namespace Bus

/-- What is left of a bus that was taken down. -/
structure TakenDown (b : Bus) : Prop where
  commands_eq : b.commands = { closed := true }
  backend_eq : b.backend = { closed := true }
  pending_eq : b.calls.pending = { last := b.calls.pending.last }
  devices_eq : b.devices = {}
  tree_eq : b.tree = {}
  poolClosed : b.poolClosed = true
  finished : b.finished = true

theorem closeInboxes_eq (ds : List Device) (b : Bus) :
    ∃ inboxes, ds.foldl (fun b d => b.closeInbox d.inbox) b = { b with inboxes } := by
  induction ds generalizing b with
  | nil => exact ⟨b.inboxes, rfl⟩
  | cons d ds ih =>
    obtain ⟨inboxes, hinboxes⟩ := ih (b.closeInbox d.inbox)
    exact ⟨inboxes, hinboxes⟩

theorem takenDown_finish (b : Bus) : b.finish.TakenDown := by
  unfold finish
  obtain ⟨inboxes, hinboxes⟩ := closeInboxes_eq b.devices.list b
  rw [hinboxes]
  exact ⟨rfl, rfl, rfl, rfl, rfl, rfl, rfl⟩

theorem onlyAborts_finish (b : Bus) : b.calls.slots.OnlyAborts b.finish.calls.slots := by
  unfold finish
  obtain ⟨inboxes, hinboxes⟩ := closeInboxes_eq b.devices.list b
  rw [hinboxes]
  have hcommands := CallTable.onlyAborts_dropAll (b.commands.items.filterMap Envelope.call) b.calls
  have hbackend := CallTable.onlyAborts_dropAll (b.backend.items.filterMap Envelope.call)
    ((b.commands.items.filterMap Envelope.call).foldl CallTable.drop b.calls)
  exact (hcommands.trans hbackend).trans (CallSlots.onlyAborts_resolveAll _ _)

/-- What comes in leaves a bus as it is that was taken down. -/
theorem TakenDown.received {b b' : Bus} {command message : Option Envelope} (h : b.TakenDown)
    (hhanded : b.Handed b') (hreceived : b.Received command message b') (hmessage : message = none) :
    b'.TakenDown := by
  refine ⟨?_, ?_, ?_, ?_, ?_, ?_, ?_⟩
  · rw [hhanded.commands_eq (by rw [h.commands_eq])]
    exact h.commands_eq
  · rw [hreceived.backend_eq, hmessage, Option.toList_none, List.append_nil]
    exact h.backend_eq
  · rw [hhanded.pending_eq]
    exact h.pending_eq
  · rw [hhanded.devices_eq]
    exact h.devices_eq
  · rw [hhanded.tree_eq]
    exact h.tree_eq
  · rw [hreceived.poolClosed_eq]
    exact h.poolClosed
  · rw [hhanded.finished_eq]
    exact h.finished

/-- A closed queue of the backends takes nothing. -/
theorem messageOf?_eq_none {b : Bus} (hclosed : b.backend.closed = true) (s : Submission) :
    b.messageOf? s = none := by
  have hpassed : ∀ e, b.passed? e = none := by
    intro e
    unfold passed? admits
    rw [hclosed]
    simp
  cases s with
  | send e => exact hpassed _
  | registerDevice name =>
    exact Option.bind_eq_none_iff.mpr fun topic _ => hpassed _
  | unregisterDevice name =>
    exact Option.bind_eq_none_iff.mpr fun topic _ => hpassed _
  | _ => rfl

end Bus

/-! ## Steps -/

/-- The command to end is the next one, or it was taken. -/
def Phase.stops : Phase → Bool
  | .commands (e :: _) => e.topic = .finalize
  | phase => phase.isOver

/-- How many steps it takes at most until the bus is down, once the command to end is the next. -/
def Phase.stepsLeft : Phase → Nat
  | .ended => 0
  | .closing => 1
  | .ending => 2
  | _ => 3

def Action.isAdvance : Action → Bool
  | .advance => true
  | _ => false

namespace Dispatcher

variable {base : CallSlots} {d : Dispatcher} {a : Action} {as : List Action} {slot : SlotId}

/-- Either the command to end is next, or it is over. -/
theorem stops_cases (h : d.phase.stops = true) :
    (∃ e es, d.phase = .commands (e :: es) ∧ e.topic = .finalize) ∨ d.phase.isOver = true := by
  obtain ⟨b, phase⟩ := d
  cases phase with
  | commands es =>
    cases es with
    | nil => cases h
    | cons e es => exact Or.inl ⟨e, es, rfl, of_decide_eq_true h⟩
  | _ => exact Or.inr h

theorem stops_of_isOver (h : d.phase.isOver = true) : d.phase.stops = true := by
  obtain ⟨b, phase⟩ := d
  cases phase with
  | commands es => cases h
  | _ => exact h

theorem isOver_advance_of_stops (h : d.phase.stops = true) : d.advance.phase.isOver = true := by
  rcases stops_cases h with ⟨e, es, hphase, he⟩ | hover
  · rw [advance_of_finalize hphase he]
    rfl
  · exact isOver_act_of_isOver (a := .advance) hover

theorem stops_act (h : d.phase.stops = true) (a : Action) : (d.act a).phase.stops = true := by
  by_cases ha : a = .advance
  · subst ha
    exact stops_of_isOver (isOver_advance_of_stops h)
  · rw [phase_act ha]
    exact h

/-- Nothing is handled any more. -/
theorem handled_act_of_stops (h : d.phase.stops = true) (a : Action) :
    d.commandsHandled a = [] ∧ d.messagesHandled a = [] := by
  by_cases ha : a = .advance
  · subst ha
    obtain ⟨hcommands, hmessages, -⟩ := isOver_act (a := .advance) (isOver_advance_of_stops h)
    exact ⟨hcommands, hmessages⟩
  · cases a with
    | advance => exact absurd rfl ha
    | _ => exact ⟨rfl, rfl⟩

theorem handled_runFrom_of_stops (h : d.phase.stops = true) (as : List Action) :
    logFrom commandsHandled d as = [] ∧ logFrom messagesHandled d as = [] := by
  induction as generalizing d with
  | nil => exact ⟨rfl, rfl⟩
  | cons a as ih =>
    obtain ⟨hcommands, hmessages⟩ := handled_act_of_stops h a
    obtain ⟨hcommands', hmessages'⟩ := ih (stops_act h a)
    refine ⟨?_, ?_⟩
    · rw [logFrom, hcommands, hcommands', List.append_nil]
    · rw [logFrom, hmessages, hmessages', List.append_nil]

theorem stepsLeft_advance (h : d.phase.stops = true) :
    d.advance.phase.stepsLeft = d.phase.stepsLeft - 1 := by
  rcases stops_cases h with ⟨e, es, hphase, he⟩ | hover
  · rw [advance_of_finalize hphase he, hphase]
    rfl
  · obtain ⟨b, phase⟩ := d
    cases phase with
    | ending | closing | ended => rfl
    | _ => cases hover

/-- Each step of the dispatcher brings it nearer to the end, whatever the others do. -/
theorem stepsLeft_runFrom (h : d.phase.stops = true) (as : List Action) :
    (d.runFrom as).phase.stepsLeft = d.phase.stepsLeft - as.countP Action.isAdvance := by
  induction as generalizing d with
  | nil => rfl
  | cons a as ih =>
    have hrest := ih (stops_act h a)
    show ((d.act a).runFrom as).phase.stepsLeft = _
    rw [hrest, List.countP_cons]
    by_cases ha : a = .advance
    · subst ha
      rw [show (d.act .advance).phase.stepsLeft = _ from stepsLeft_advance h,
        if_pos (show Action.isAdvance .advance = true from rfl)]
      omega
    · have hno : ¬ a.isAdvance = true := by
        cases a with
        | advance => exact absurd rfl ha
        | _ => exact Bool.false_ne_true
      rw [phase_act ha, if_neg hno, Nat.add_zero]

theorem ended_of_stepsLeft (h : d.phase.stepsLeft = 0) : d.phase = .ended := by
  obtain ⟨b, phase⟩ := d
  cases phase with
  | ended => rfl
  | _ => cases h

theorem ended_runFrom (h : d.phase = .ended) (as : List Action) : (d.runFrom as).phase = .ended := by
  induction as generalizing d with
  | nil => exact h
  | cons a as ih => exact ih (ended_act h)

/-! ## Silence -/

/-- No listener heard anything, and no inbox was given anything. -/
structure Silent (d d' : Dispatcher) : Prop where
  record_eq : d'.bus.audience.record = d.bus.audience.record
  items_suffix : ∀ p, (d'.bus.inbox p).items <:+ (d.bus.inbox p).items

theorem Silent.refl (d : Dispatcher) : d.Silent d := ⟨rfl, fun _ => List.suffix_rfl⟩

theorem Silent.trans {d' d'' : Dispatcher} (h : d.Silent d') (h' : d'.Silent d'') : d.Silent d'' :=
  ⟨h'.record_eq.trans h.record_eq, fun p => (h'.items_suffix p).trans (h.items_suffix p)⟩

theorem silent_advance (h : d.phase.stops = true) : d.Silent d.advance := by
  rcases stops_cases h with ⟨e, es, hphase, he⟩ | hover
  · rw [advance_of_finalize hphase he]
    exact ⟨rfl, fun _ => List.suffix_rfl⟩
  · obtain ⟨b, phase⟩ := d
    cases phase with
    | ending | ended => exact ⟨rfl, fun _ => List.suffix_rfl⟩
    | closing =>
      refine ⟨congrArg Audience.record (Bus.audience_closeInboxes b.devices.list b), fun p => ?_⟩
      show (b.finish.inbox p).items <:+ _
      rw [Bus.items_finish]
    | _ => cases hover

theorem silent_act (h : d.phase.stops = true) (a : Action) : d.Silent (d.act a) := by
  have hadmits : ∀ b', d.bus.Untold b' → d.bus.Admits b' → d.Silent ⟨b', d.phase⟩ := by
    intro b' huntold hadmits
    refine ⟨huntold.record_eq, fun p => ?_⟩
    rw [show (⟨b', d.phase⟩ : Dispatcher).bus.inbox p = d.bus.inbox p from hadmits.inbox_eq p]
  cases a with
  | advance => exact silent_advance h
  | submit s => exact hadmits _ (Bus.untold_accept d.bus s) (Bus.admits_accept d.bus s)
  | submitLate s => exact hadmits _ (Bus.untold_acceptLate d.bus s) (Bus.admits_acceptLate d.bus s)
  | collect p =>
    refine ⟨rfl, fun p' => ?_⟩
    by_cases hp : p' = p
    · subst hp
      exact ⟨_, d.bus.pop_append_items p'⟩
    · show ((d.bus.setInbox p _).inbox p').items <:+ _
      rw [d.bus.inbox_setInbox_of_ne _ (Ne.symm hp)]
  | addListener l =>
    exact ⟨(untold_act (d := d) (a := .addListener l) nofun).record_eq, fun _ => List.suffix_rfl⟩
  | setClock time => exact ⟨rfl, fun _ => List.suffix_rfl⟩

theorem silent_runFrom (h : d.phase.stops = true) (as : List Action) : d.Silent (d.runFrom as) := by
  induction as generalizing d with
  | nil => exact Silent.refl d
  | cons a as ih => exact (silent_act h a).trans (ih (stops_act h a))

/-! ## Calls that no one answers -/

/-- From any moment on what there is then is kept. -/
theorem Sound.rebase (h : d.Sound base) : d.Sound d.bus.calls.slots :=
  ⟨⟨h.bus.calls.rebase, h.bus.addressed, h.bus.device, h.bus.backend, h.bus.held⟩, h.backends,
    h.ended⟩

/-- Nobody can answer the call of a slot any more: it is not in the table, and it has no outcome or was
aborted. -/
structure Forsaken (d : Dispatcher) (slot : SlotId) : Prop where
  notWaiting : ∀ call ∈ d.bus.calls.pending.waiting, call.slot ≠ slot
  aborted : ∀ o, d.outcome? slot = some o → o = .ofStatus .aborted

/-- The call of a slot is on its way, or the slot is yet to be handed out. -/
theorem Sound.forsaken (h : d.Sound base) (hslot : d.travelling slot ≠ 0 ∨ d.slotCount ≤ slot) :
    d.Forsaken slot := by
  have hcount := h.records_eq slot
  have hnone : d.waiting slot = 0 ∧ d.outcome? slot = none := by
    rcases hslot with htravelling | hnew
    -- the one record of the slot travels, so none is left for the table
    · by_cases hopen : d.bus.calls.slots.IsOpen slot
      · rw [if_pos hopen] at hcount
        exact ⟨by omega, (CallSlots.isOpen_iff.mp hopen).2⟩
      · rw [if_neg hopen] at hcount
        exact absurd hcount (by omega)
    · have hopen : ¬ d.bus.calls.slots.IsOpen slot := fun hopen =>
        absurd (CallSlots.isOpen_iff.mp hopen).1 (Nat.not_lt.mpr hnew)
      rw [if_neg hopen] at hcount
      refine ⟨by omega, ?_⟩
      show (d.bus.calls.slots.outcomes[slot]?).join = none
      rw [List.getElem?_eq_none hnew]
      rfl
  refine ⟨fun call hcall heq => ?_, fun o ho => ?_⟩
  · exact List.count_eq_zero.mp hnone.1 (List.mem_map.mpr ⟨call, hcall, heq⟩)
  · rw [hnone.2] at ho
    cases ho

theorem Forsaken.of_onlyAborts {d' : Dispatcher} (h : d.Forsaken slot)
    (hwaiting : d'.bus.calls.pending.waiting ⊆ d.bus.calls.pending.waiting)
    (hslots : d.bus.calls.slots.OnlyAborts d'.bus.calls.slots) : d'.Forsaken slot := by
  refine ⟨fun call hcall => h.notWaiting call (hwaiting hcall), fun o ho => ?_⟩
  rcases hslots slot with hsame | haborted
  · exact h.aborted o (hsame.symm.trans ho)
  · exact Option.some.inj (ho.symm.trans haborted)

theorem Forsaken.advance (h : d.Forsaken slot) (hsound : d.Sound base)
    (hstops : d.phase.stops = true) : d.advance.Forsaken slot := by
  rcases stops_cases hstops with ⟨e, es, hphase, he⟩ | hover
  · rw [advance_of_finalize hphase he]
    refine h.of_onlyAborts ?_ (CallTable.onlyAborts_dropAll _ _)
    show ((_ : List PendingCall).foldl CallTable.drop d.bus.calls).pending.waiting ⊆ _
    rw [CallTable.dropAll_pending]
    exact List.Subset.refl _
  · obtain ⟨b, phase⟩ := d
    have hindexed := hsound.bus.calls.indexed
    cases phase with
    | ending =>
      -- deadlines are looked at once more, which gives outcomes to calls in the table only
      have hwaiting := CallTable.expireDue_waiting_subset hindexed b.clock
      refine ⟨fun call hcall => h.notWaiting call (hwaiting hcall), fun o ho => h.aborted o ?_⟩
      exact (CallTable.outcome?_expireDue hindexed b.clock h.notWaiting).symm.trans ho
    | closing =>
      refine h.of_onlyAborts ?_ (Bus.onlyAborts_finish b)
      show b.finish.calls.pending.waiting ⊆ _
      rw [(Bus.takenDown_finish b).pending_eq]
      exact List.nil_subset _
    | ended => exact h
    | _ => cases hover

theorem Forsaken.act (h : d.Forsaken slot) (hsound : d.Sound base) (hstops : d.phase.stops = true)
    (a : Action) : (d.act a).Forsaken slot := by
  have hreceived : ∀ {command message : Option Envelope} {b' : Bus}, d.bus.Handed b' →
      d.bus.Received command message b' → (⟨b', d.phase⟩ : Dispatcher).Forsaken slot := by
    intro command message b' hhanded hreceived
    refine h.of_onlyAborts ?_ hreceived.slots
    show b'.calls.pending.waiting ⊆ _
    rw [hhanded.pending_eq]
    exact List.Subset.refl _
  cases a with
  | advance => exact h.advance hsound hstops
  | submit s => exact hreceived (Bus.handed_accept d.bus s) (Bus.received_accept d.bus s)
  | submitLate s => exact hreceived (Bus.handed_acceptLate d.bus s) (Bus.received_acceptLate d.bus s)
  | collect p => exact ⟨h.notWaiting, h.aborted⟩
  | addListener l => exact ⟨h.notWaiting, h.aborted⟩
  | setClock time => exact ⟨h.notWaiting, h.aborted⟩

theorem Forsaken.runFrom (h : d.Forsaken slot) (hsound : d.Sound base)
    (hstops : d.phase.stops = true) (as : List Action) : (d.runFrom as).Forsaken slot := by
  induction as generalizing d with
  | nil => exact h
  | cons a as ih => exact ih (h.act hsound hstops a) (hsound.act a) (stops_act hstops a)

theorem Sound.lt_slotCount_of_travelling (h : d.Sound base) (hslot : d.travelling slot ≠ 0) :
    slot < d.slotCount := by
  have hcount := h.records_eq slot
  by_contra hlt
  rw [if_neg fun hopen => hlt (CallSlots.isOpen_iff.mp hopen).1] at hcount
  omega

/-- When all is over, it was aborted. -/
theorem Forsaken.outcome?_eq (h : d.Forsaken slot) (hsound : d.Sound base)
    (hended : d.phase = .ended) (hslot : slot < d.slotCount) :
    d.outcome? slot = some (.ofStatus .aborted) := by
  have hcount := hsound.travelling_add_waiting hslot
  obtain ⟨hcommands, hwaiting⟩ := hsound.ended hended
  -- there is no record of the slot any more, so it has an outcome
  have hnone : d.travelling slot + d.waiting slot = 0 := by
    rw [travelling, Dispatcher.waiting, hcommands, hwaiting, hended]
    rfl
  rw [hnone] at hcount
  cases houtcome : d.outcome? slot with
  | none =>
    rw [if_pos houtcome] at hcount
    cases hcount
  | some o => rw [h.aborted o houtcome]

/-! ## What is left -/

theorem takenDown_act (h : d.phase = .ended → d.bus.TakenDown) (hended : (d.act a).phase = .ended) :
    (d.act a).bus.TakenDown := by
  by_cases ha : a = .advance
  · subst ha
    obtain ⟨b, phase⟩ := d
    cases phase with
    | closing => exact Bus.takenDown_finish b
    | ended => exact h rfl
    | awake | resting | ending => cases hended
    | backends es => cases es <;> cases hended
    | commands es =>
      cases es with
      | nil => cases hended
      | cons e es =>
        -- not even the command to end is the last step
        exfalso
        by_cases he : e.topic = .finalize
        · have hended : (Dispatcher.advance _).phase = .ended := hended
          rw [advance_of_finalize rfl he] at hended
          cases hended
        · have hended : (Dispatcher.advance _).phase = .ended := hended
          rw [advance_of_commands rfl he] at hended
          cases hended
  · rw [phase_act ha] at hended
    have hdown := h hended
    have hclosed : d.bus.backend.closed = true := by rw [hdown.backend_eq]
    cases a with
    | advance => exact absurd rfl ha
    | submit s =>
      exact hdown.received (Bus.handed_accept d.bus s) (Bus.received_accept d.bus s)
        (Bus.messageOf?_eq_none hclosed s)
    | submitLate s =>
      exact hdown.received (Bus.handed_acceptLate d.bus s) (Bus.received_acceptLate d.bus s)
        (Bus.messageOf?_eq_none (b := { d.bus with closed := false }) hclosed s)
    | _ =>
      obtain ⟨hcommands, hbackend, hpending, hdevices, htree, hpool, hfinished⟩ := hdown
      exact ⟨hcommands, hbackend, hpending, hdevices, htree, hpool, hfinished⟩

theorem takenDown_run (config : BusConfig) (as : List Action) :
    (run config as).phase = .ended → (run config as).bus.TakenDown := by
  induction as using List.reverseRecOn with
  | nil => exact nofun
  | append_singleton as a ih =>
    rw [run_append]
    exact takenDown_act ih

end Dispatcher

/-! ## What clients are told -/

namespace Bus

/-- What a client is told of what it handed over, when it looks at its slot. -/
def told (b : Bus) : Except Failure (Option Ticket) → Except Failure (Option Value)
  | .error f => .error f
  | .ok none => .ok none
  | .ok (some ticket) =>
    match b.calls.slots.outcome? ticket.slot with
    | some o => outcomeOf ticket.topic o
    | none => .error (.ofBus (.timedOut ticket.topic))

/-- That is what a client gets which waits while the dispatcher works. -/
theorem complete_eq_told (b : Bus) (r : Except Failure (Option Ticket)) :
    (b.complete r).1 = (b.complete r).2.told r := by
  cases r with
  | error f => rfl
  | ok ticket? =>
    cases ticket? with
    | none => rfl
    | some ticket =>
      show (b.await ticket).1 = (b.await ticket).2.told (.ok (some ticket))
      unfold await told
      simp only
      cases hfirst : b.settle.calls.slots.outcome? ticket.slot with
      | some o => simp only [hfirst]
      | none =>
        simp only
        cases hlast : (b.settle.passTime ticket.deadline).calls.slots.outcome? ticket.slot with
        | some o => simp only [hlast]
        | none => simp only [hlast]

theorem told_of_aborted {b : Bus} {ticket : Ticket}
    (h : b.calls.slots.outcome? ticket.slot = some (.ofStatus .aborted)) :
    b.told (.ok (some ticket)) = .error (.ofBus (.aborted ticket.topic)) := by
  unfold told
  simp only [h]
  rfl

/-- A client that waits is refused, or gets a slot of its own. -/
theorem submit_of_pos (b : Bus) {e : Envelope} {timeout : Nat} (htime : 0 < timeout)
    (hpayload : b.checkPayload e = .ok ()) :
    (b.submit e timeout false).1 = .error (.ofBus .closed) ∨
      (∃ deadline, (b.submit e timeout false).1 =
        .ok (some ⟨b.calls.slots.outcomes.length, e.topic.text, deadline⟩)) ∧
      b.calls.slots.outcomes.length < (b.submit e timeout false).2.calls.slots.outcomes.length := by
  have hne : timeout ≠ 0 := by omega
  unfold submit
  split
  · exact Or.inl rfl
  rw [hpayload]
  simp only [Bool.false_eq_true, if_false]
  split
  · rename_i b' hpush
    obtain ⟨-, rfl⟩ := pushCommand?_eq_some hpush
    refine Or.inr ⟨⟨_, rfl⟩, ?_⟩
    show _ < (b.calls.slots.outcomes ++ [none]).length
    rw [List.length_append, List.length_singleton]
    omega
  · exact Or.inl rfl

end Bus

/-! ## Calls of clients that come too late -/

namespace Dispatcher

variable {base : CallSlots} {d : Dispatcher} {a : Action} {s : Submission} {b : Bus} {e : Envelope}
  {timeout : Nat}

/-- The bus as a client finds it that hands something over: as it is, or as it was before someone else
closed it. -/
def finds? (d : Dispatcher) : Action → Option (Submission × Bus)
  | .submit s => some (s, d.bus)
  | .submitLate s => some (s, { d.bus with closed := false })
  | _ => none

theorem accept_of_envelopeFor (he : b.envelopeFor? s = some (e, timeout)) :
    b.accept s = (b.submit e timeout false).2 := by
  cases s with
  | request r =>
    have hok : b.envelopeOf r = .ok (e, timeout) := by
      cases hr : b.envelopeOf r with
      | error f => simp [Bus.envelopeFor?, hr, Except.toOption] at he
      | ok x => simpa [Bus.envelopeFor?, hr, Except.toOption] using he
    show b.acceptRequest r = _
    unfold Bus.acceptRequest
    rw [hok]
  | command e' timeout' =>
    obtain ⟨rfl, rfl⟩ := Prod.mk.inj (Option.some.inj he)
    rfl
  | _ => cases he

/-- What a client finds is what it hands something over to, whoever closes the bus meanwhile. -/
theorem bus_act_of_finds (hfinds : d.finds? a = some (s, b)) :
    (∃ closed, (d.act a).bus = { b.accept s with closed }) ∧ b.calls = d.bus.calls := by
  cases a with
  | submit s' =>
    obtain ⟨rfl, rfl⟩ := Prod.mk.inj (Option.some.inj hfinds)
    exact ⟨⟨(d.bus.accept s').closed, rfl⟩, rfl⟩
  | submitLate s' =>
    obtain ⟨rfl, rfl⟩ := Prod.mk.inj (Option.some.inj hfinds)
    refine ⟨?_, rfl⟩
    show ∃ closed, d.bus.acceptLate s' = _
    unfold Bus.acceptLate
    split
    · exact ⟨true, rfl⟩
    · rename_i hopen
      have hsame : ({ d.bus with closed := false } : Bus) = d.bus := by
        rw [← Bool.eq_false_of_not_eq_true hopen]
      rw [hsame]
      exact ⟨(d.bus.accept s').closed, rfl⟩
  | _ => cases hfinds

theorem act_of_finds (hfinds : d.finds? a = some (s, b)) (he : b.envelopeFor? s = some (e, timeout)) :
    (d.act a).bus.commands = (b.submit e timeout false).2.commands ∧
      (d.act a).bus.calls = (b.submit e timeout false).2.calls ∧ b.calls = d.bus.calls := by
  obtain ⟨⟨closed, hbus⟩, hcalls⟩ := bus_act_of_finds hfinds
  rw [hbus, ← accept_of_envelopeFor he]
  exact ⟨rfl, rfl, hcalls⟩

/-- A call of a client that comes when the command to end is the next one, or later, is refused or
aborted. -/
theorem Sound.told_of_stops (h : d.Sound base) (hstops : d.phase.stops = true)
    (hfinds : d.finds? a = some (s, b)) (he : b.envelopeFor? s = some (e, timeout))
    (htime : 0 < timeout) (hpayload : b.checkPayload e = .ok ()) (as : List Action)
    (hended : ((d.act a).runFrom as).phase = .ended) :
    let last := (d.act a).runFrom as
    last.bus.told (b.submit e timeout false).1 = .error (.ofBus .closed) ∨
      last.bus.told (b.submit e timeout false).1 = .error (.ofBus (.aborted e.topic.text)) := by
  intro last
  obtain ⟨-, hcalls, hsame⟩ := act_of_finds hfinds he
  rcases b.submit_of_pos htime hpayload with hclosed | ⟨⟨deadline, hticket⟩, hnew⟩
  · left
    rw [hclosed]
    rfl
  · right
    rw [hticket]
    have hact := (h.act a).rebase
    have hslot : b.calls.slots.outcomes.length < last.slotCount := by
      rw [← hcalls] at hnew
      exact lt_of_lt_of_le hnew (hact.runFrom as).bus.calls.kept.length_le
    have hforsaken : d.Forsaken b.calls.slots.outcomes.length :=
      h.forsaken (Or.inr (le_of_eq (by rw [hsame]; rfl)))
    have hlast : last.Forsaken b.calls.slots.outcomes.length :=
      (hforsaken.act h hstops a).runFrom hact (stops_act hstops a) as
    exact Bus.told_of_aborted (hlast.outcome?_eq (hact.runFrom as) hended hslot)

end Dispatcher
end InstrumentBus
