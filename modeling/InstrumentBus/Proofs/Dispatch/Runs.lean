import Mathlib
import InstrumentBus.Proofs.Dispatch.Submissions

/-!
# Every call of a run is answered once

`Dispatcher.Sound` is kept by every step of the dispatcher and by everything that clients and
backends may do in between (`Sound.act`), hence by every run (`sound_run`). The last theorem says
what this means for the slots of a run.
-/

namespace InstrumentBus

variable {base : CallSlots} {b' : Bus}

/-! ## The invariant -/

/-- The commands that the dispatcher has in its hands. -/
def Phase.commandsLeft : Phase → List Envelope
  | .commands es => es
  | _ => []

/-- The envelopes of backends that the dispatcher has in its hands. -/
def Phase.backendsLeft : Phase → List Envelope
  | .backends es => es
  | _ => []

namespace Dispatcher

variable {d : Dispatcher}

theorem phase_of_commandsLeft {e : Envelope} {es : List Envelope}
    (h : d.phase.commandsLeft = e :: es) : d.phase = .commands (e :: es) := by
  cases hphase : d.phase with
  | commands left =>
    rw [hphase] at h
    exact congrArg Phase.commands h
  | _ =>
    rw [hphase] at h
    cases h

/-- Between any two envelopes, the bus is sound for the commands that are taken but not handled yet,
and once it has ended nothing is left. -/
structure Sound (base : CallSlots) (d : Dispatcher) : Prop where
  bus : d.bus.Sound base d.phase.commandsLeft
  backends : CallFree d.phase.backendsLeft
  ended : d.phase = .ended → d.bus.commands = { closed := true } ∧ d.bus.calls.pending.waiting = []

/-- Before its end, the dispatcher owes nothing but a sound bus. -/
theorem sound_of_phase_ne {b : Bus} {phase : Phase} (hbus : b.Sound base phase.commandsLeft)
    (hbackends : CallFree phase.backendsLeft) (hphase : phase ≠ .ended) :
    (⟨b, phase⟩ : Dispatcher).Sound base :=
  ⟨hbus, hbackends, fun hended => absurd hended hphase⟩

theorem Sound.advance (h : d.Sound base) : d.advance.Sound base := by
  obtain ⟨b, phase⟩ := d
  obtain ⟨hbus, hbackends, hended⟩ := h
  cases phase with
  | awake =>
    obtain ⟨htaken, hfree⟩ := Bus.Sound.takeBackend hbus
    exact sound_of_phase_ne htaken hfree (by simp)
  | backends es =>
    cases es with
    | nil => exact sound_of_phase_ne (Bus.Sound.takeCommands hbus) callFree_nil (by simp)
    | cons e es =>
      obtain ⟨he, hes⟩ := callFree_cons.mp hbackends
      exact sound_of_phase_ne (Bus.Sound.handleBackend hbus he) hes (by simp)
  | commands es =>
    cases es with
    | nil => exact sound_of_phase_ne (Bus.Sound.expireCalls hbus) callFree_nil (by simp)
    | cons e es =>
      simp only [Dispatcher.advance]
      split
      · exact sound_of_phase_ne (Bus.Sound.dropEnvelopes hbus) callFree_nil (by simp)
      · exact sound_of_phase_ne (Bus.Sound.handleCommand hbus) callFree_nil (by simp)
  | resting => exact sound_of_phase_ne (Bus.Sound.rest hbus) callFree_nil (by simp)
  | ending => exact sound_of_phase_ne (Bus.Sound.expireCalls hbus) callFree_nil (by simp)
  | closing =>
    obtain ⟨hfinish, hcommands, hwaiting⟩ := Bus.Sound.finish hbus
    exact ⟨hfinish, callFree_nil, fun _ => ⟨hcommands, hwaiting⟩⟩
  | ended => exact ⟨hbus, hbackends, hended⟩

/-- What comes after the end finds the queue of commands closed. -/
theorem Sound.ended_of_handed (h : d.Sound base) (hphase : d.phase = .ended) (hb : d.bus.Handed b') :
    b'.commands = { closed := true } ∧ b'.calls.pending.waiting = [] := by
  obtain ⟨hcommands, hwaiting⟩ := h.ended hphase
  have hsame : b'.commands = d.bus.commands := hb.commands_eq (by rw [hcommands])
  rw [hsame, hb.pending_eq]
  exact ⟨hcommands, hwaiting⟩

theorem Sound.act (h : d.Sound base) (a : Action) : (d.act a).Sound base := by
  cases a with
  | advance => exact h.advance
  | submit s =>
    refine ⟨h.bus.accept s, h.backends, fun hphase => ?_⟩
    exact h.ended_of_handed hphase (Bus.handed_accept d.bus s)
  | submitLate s =>
    refine ⟨h.bus.acceptLate s, h.backends, fun hphase => ?_⟩
    exact h.ended_of_handed hphase (Bus.handed_acceptLate d.bus s)
  | collect p =>
    refine ⟨⟨h.bus.calls, h.bus.addressed, h.bus.device, h.bus.backend, ?_⟩, h.backends, h.ended⟩
    refine Bus.callFree_held_setInbox h.bus.held p ?_
    have hitems := Bus.callFree_inbox h.bus.held p
    unfold Queue.pop
    split
    · exact hitems
    · rename_i e es hes
      rw [hes] at hitems
      exact (callFree_cons.mp hitems).2
  | addListener l =>
    exact ⟨⟨h.bus.calls, h.bus.addressed, h.bus.device, h.bus.backend, h.bus.held⟩, h.backends,
      h.ended⟩
  | setClock time =>
    exact ⟨⟨h.bus.calls, h.bus.addressed, h.bus.device, h.bus.backend, h.bus.held⟩, h.backends,
      h.ended⟩

theorem Sound.runFrom (h : d.Sound base) (as : List Action) : (d.runFrom as).Sound base := by
  induction as generalizing d with
  | nil => exact h
  | cons a as ih => exact ih (h.act a)

theorem sound_run (config : BusConfig) (as : List Action) : (run config as).Sound {} := by
  have hstart : (⟨.start config, .awake⟩ : Dispatcher).Sound {} :=
    sound_of_phase_ne (Bus.sound_start config) callFree_nil (by simp)
  exact hstart.runFrom as

/-- From any moment of a run on, what its slots hold then is kept. -/
theorem sound_runFrom_run (config : BusConfig) (as bs : List Action) :
    ((run config as).runFrom bs).Sound (run config as).bus.calls.slots := by
  obtain ⟨hbus, hbackends, hended⟩ := sound_run config as
  exact Sound.runFrom
    ⟨⟨hbus.calls.rebase, hbus.addressed, hbus.device, hbus.backend, hbus.held⟩, hbackends, hended⟩ bs

/-! ## The slots of a run -/

/-- The outcome in a slot, if there is one yet. -/
def outcome? (d : Dispatcher) (slot : SlotId) : Option CallOutcome := d.bus.calls.slots.outcome? slot

/-- How many slots were handed out. -/
def slotCount (d : Dispatcher) : Nat := d.bus.calls.slots.outcomes.length

/-- The records of a slot that travel with commands, taken or in the queue. -/
def travelling (d : Dispatcher) (slot : SlotId) : Nat :=
  (((d.phase.commandsLeft ++ d.bus.commands.items).filterMap Envelope.call).map (·.slot)).count slot

/-- The records of a slot in the table. -/
def waiting (d : Dispatcher) (slot : SlotId) : Nat :=
  (d.bus.calls.pending.waiting.map (·.slot)).count slot

/-- There is one record of a slot that is open, and none of any other. -/
theorem Sound.records_eq (h : d.Sound base) (slot : SlotId) :
    d.travelling slot + d.waiting slot = if d.bus.calls.slots.IsOpen slot then 1 else 0 := by
  have howned := h.bus.calls.owned slot
  rw [List.map_append, List.count_append] at howned
  exact howned

theorem Sound.travelling_add_waiting (h : d.Sound base) {slot : SlotId} (hslot : slot < d.slotCount) :
    d.travelling slot + d.waiting slot = if d.outcome? slot = none then 1 else 0 := by
  have hrecords := h.records_eq slot
  have hopen : d.bus.calls.slots.IsOpen slot ↔ d.outcome? slot = none := by
    rw [CallSlots.isOpen_iff]
    exact and_iff_right hslot
  simp only [hopen] at hrecords
  exact hrecords

/-- Whatever clients, backends, listeners and the clock do between the steps of the dispatcher:

* slots are never taken back and an outcome, once there, stays;
* a slot has no outcome if and only if there is one record of it, with a command or in the table;
  a slot with an outcome has no record;
* no envelope of a backend and none in the tree or in an inbox carries a call;
* when the dispatcher has ended, every slot has an outcome. -/
theorem run_slots (config : BusConfig) (as bs : List Action) :
    let d := run config as
    let later := d.runFrom bs
    d.slotCount ≤ later.slotCount ∧
    (∀ slot o, d.outcome? slot = some o → later.outcome? slot = some o) ∧
    (∀ slot < d.slotCount,
      (d.outcome? slot = none ↔ d.travelling slot + d.waiting slot = 1) ∧
      (d.outcome? slot ≠ none ↔ d.travelling slot + d.waiting slot = 0)) ∧
    CallFree (d.phase.backendsLeft ++ d.bus.backend.items ++ d.bus.held) ∧
    (d.phase = .ended → ∀ slot < d.slotCount, d.outcome? slot ≠ none) := by
  intro d later
  have hsound := sound_run config as
  have hkept := (sound_runFrom_run config as bs).bus.calls.kept
  refine ⟨hkept.length_le, hkept.outcome?_eq, ?_, ?_, ?_⟩
  · intro slot hslot
    have hcount : d.travelling slot + d.waiting slot = if d.outcome? slot = none then 1 else 0 :=
      hsound.travelling_add_waiting hslot
    by_cases hnone : d.outcome? slot = none
    · rw [if_pos hnone] at hcount
      exact ⟨iff_of_true hnone hcount, iff_of_false (not_not_intro hnone) (by omega)⟩
    · rw [if_neg hnone] at hcount
      exact ⟨iff_of_false hnone (by omega), iff_of_true hnone hcount⟩
  · exact callFree_append.mpr
      ⟨callFree_append.mpr ⟨hsound.backends, hsound.bus.backend⟩, hsound.bus.held⟩
  · intro hended slot hslot hnone
    obtain ⟨hcommands, hwaiting⟩ := hsound.ended hended
    have hcount := hsound.travelling_add_waiting hslot
    -- no place is left where the record of an open slot could be
    have hphase : (run config as).phase.commandsLeft = [] := by rw [hended]; rfl
    rw [if_pos hnone, travelling, Dispatcher.waiting, hcommands, hwaiting, hphase] at hcount
    exact absurd hcount (by simp)

end Dispatcher
end InstrumentBus
