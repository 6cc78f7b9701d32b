import Mathlib
import InstrumentBus.Proofs.Dispatch.Runs

/-!
# Sessions are runs

In a session one client acts at a time, and the dispatcher works until it has nothing left to do
before anyone goes on. `Bus.Reached` says that a bus comes out of a run, where all this may be
otherwise; every operation of a session leads from one such bus to another. So what holds in every
run holds in every session, `Reached.sound` first of all.
-/

namespace InstrumentBus.Bus

open Dispatcher

variable {config : BusConfig} {b b' : Bus}

/-- The bus comes out of some run, and its dispatcher is between two rounds or has ended. -/
def Reached (config : BusConfig) (b : Bus) : Prop :=
  ∃ as phase, run config as = ⟨b, phase⟩ ∧ (phase = .awake ∨ phase = .ended ∧ b.finished = true)

theorem reached_start (config : BusConfig) : (start config).Reached config :=
  ⟨[], .awake, rfl, Or.inl rfl⟩

/-- Between two rounds the dispatcher has no commands in its hands. -/
theorem Reached.sound (h : b.Reached config) : b.Sound {} [] := by
  obtain ⟨as, phase, hrun, hphase⟩ := h
  have hbus := (sound_run config as).bus
  have hnone : phase.commandsLeft = [] := by
    rcases hphase with rfl | ⟨rfl, -⟩ <;> rfl
  rw [hrun] at hbus
  rw [← hnone]
  exact hbus

/-! ## The dispatcher at work -/

/-- An action of anyone but the dispatcher. -/
theorem Reached.act (h : b.Reached config) (a : Action)
    (hact : ∀ phase, Dispatcher.act ⟨b, phase⟩ a = ⟨b', phase⟩)
    (hfinished : b'.finished = b.finished) : b'.Reached config := by
  obtain ⟨as, phase, hrun, hphase⟩ := h
  refine ⟨as ++ [a], phase, ?_, ?_⟩
  · rw [run_append, hrun]
    exact hact phase
  · rw [hfinished]
    exact hphase

theorem Reached.round (h : b.Reached config) (hfinished : b.finished = false) :
    b.round.Reached config := by
  obtain ⟨as, phase, hrun, hphase⟩ := h
  obtain ⟨n, phase', hround, hphase'⟩ := exists_iterate_advance_eq_round b
  have hawake : phase = .awake := by
    rcases hphase with hawake | ⟨-, hended⟩
    · exact hawake
    · rw [hfinished] at hended
      cases hended
  refine ⟨as ++ List.replicate n .advance, phase', ?_, hphase'⟩
  rw [run_append, hrun, hawake, runFrom_replicate_advance]
  exact hround

theorem Reached.settleWithin (rounds : Nat) (h : b.Reached config) :
    (settleWithin rounds b).Reached config := by
  induction rounds generalizing b with
  | zero => exact h
  | succ rounds ih =>
    unfold Bus.settleWithin
    split
    · rename_i hbusy
      have hfinished : b.finished = false := by
        unfold isBusy at hbusy
        simp only [Bool.and_eq_true, Bool.not_eq_true'] at hbusy
        exact hbusy.1
      exact ih (h.round hfinished)
    · exact h

theorem Reached.settle (h : b.Reached config) : b.settle.Reached config := h.settleWithin _

theorem Reached.passTime (h : b.Reached config) (time : Nat) : (b.passTime time).Reached config := by
  have hclock : ({ b with clock := max b.clock time } : Bus).Reached config :=
    h.act (.setClock (max b.clock time)) (fun _ => rfl) rfl
  unfold Bus.passTime
  simp only
  split
  · exact hclock
  · rename_i hfinished
    exact (hclock.round (by simpa using hfinished)).settle

/-! ## Clients -/

theorem Reached.accept (h : b.Reached config) (s : Submission) : (b.accept s).Reached config :=
  h.act (.submit s) (fun _ => rfl) (handed_accept b s).finished_eq

theorem Reached.await (h : b.Reached config) (t : Ticket) : (b.await t).2.Reached config := by
  unfold Bus.await
  simp only
  cases houtcome : b.settle.calls.slots.outcome? t.slot with
  | some _ =>
    simp only [houtcome]
    exact h.settle
  | none =>
    simp only
    split <;> exact h.settle.passTime t.deadline

theorem Reached.complete (h : b.Reached config) (submitted : Except Failure (Option Ticket)) :
    (b.complete submitted).2.Reached config := by
  unfold Bus.complete
  split
  · exact h
  · exact h
  · rename_i ticket
    exact h.await ticket

theorem Reached.shutdown (h : b.Reached config) : b.shutdown.Reached config := by
  rw [shutdown_eq]
  split
  · exact h
  · exact (h.accept .shutdown).settle

/-- The envelope of a request, submitted and not waited for. -/
theorem Reached.submit_request (h : b.Reached config) {r : Request} {e : Envelope} {timeout : Nat}
    (hr : b.envelopeOf r = .ok (e, timeout)) : (b.submit e timeout false).2.Reached config := by
  have haccepted := h.accept (.request r)
  have hsame : b.accept (.request r) = (b.submit e timeout false).2 := by
    show b.acceptRequest r = _
    unfold acceptRequest
    rw [hr]
  rw [hsame] at haccepted
  exact haccepted

/-- A request of a client, with all the time that it waits. -/
theorem Reached.request (h : b.Reached config) (r : Request) : (b.request r).2.Reached config := by
  unfold Bus.request
  split
  · exact h.shutdown
  · split
    · exact h
    · rename_i hr
      exact ((h.submit_request hr).complete _).settle

theorem Reached.requestLater (h : b.Reached config) (r : Request) :
    (b.requestLater r).2.Reached config := by
  unfold Bus.requestLater
  split
  · exact h
  · rename_i hr
    exact (h.submit_request hr).settle

/-! ## Backends -/

theorem Reached.registerDevice (h : b.Reached config) (name : String) :
    (b.registerDevice name).2.Reached config := h.accept (.registerDevice name)

theorem Reached.unregisterDevice (h : b.Reached config) (name : String) :
    (b.unregisterDevice name).2.Reached config := h.accept (.unregisterDevice name)

/-- Backends make their envelopes without calls and controls. -/
theorem Reached.send (h : b.Reached config) {e : Envelope} (hcall : e.call = none)
    (hcontrol : e.control = none) : (b.send e).2.Reached config := by
  have hbare : e.bare = e := by
    unfold Envelope.bare
    rw [← hcall, ← hcontrol]
  have haccepted := h.accept (.send e)
  rw [show b.accept (.send e) = (b.send e.bare).2 from rfl, hbare] at haccepted
  exact haccepted

theorem Reached.publishAsBackend (h : b.Reached config) (p : Publication) :
    (b.publishAsBackend p).2.Reached config := by
  unfold Bus.publishAsBackend
  split
  · exact h
  · rename_i e he
    obtain ⟨t, -, rfl⟩ := map_eq_ok_iff.mp he
    exact h.send (envelope_call b t p.value p.flags)
      (Envelope.make_control b.sizes t p.value p.flags)

theorem Reached.answerCommand (h : b.Reached config) (t : Topic) (code : Int32) :
    (b.answerCommand t code).2.Reached config :=
  h.send (envelope_call ..) (Envelope.make_control ..)

end InstrumentBus.Bus
