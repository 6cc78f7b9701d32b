import Mathlib
import InstrumentBus.Proofs.Dispatch.Verdicts
import InstrumentBus.Proofs.Dispatch.Queues

/-!
# Return codes before deadlines

Deadlines are looked at when all that was taken is handled, and nowhere else. Until then a call that
waits goes on waiting, whatever the clock shows, unless an envelope is handled whose return code it
waits for (`Sound.mem_waiting_runFrom`); and if it is the only one that waits for it, a return code
from outside is its outcome (`Sound.outcome?_advance`).
-/

namespace InstrumentBus

variable {base : CallSlots} {others : List PendingCall} {t : CallTable} {b : Bus} {e : Envelope}
  {es : List Envelope} {call : PendingCall} {code : Int32}

/-! ## One announcement -/

namespace CallTable

/-- An announcement ends no call on another topic. -/
theorem mem_waiting_announce (h : t.pending.Indexed) {topic : Topic} (code? : Option Int32)
    (hcall : call ∈ t.pending.waiting) (htopic : call.topic ≠ (topic.withSuffix .returnCode).text) :
    call ∈ (t.announce topic code?).pending.waiting := by
  cases code? with
  | none => exact hcall
  | some code =>
    show call ∈ (t.complete _ _).2.pending.waiting
    cases hsoonest : PendingCall.soonest? (topic.withSuffix .returnCode).text t.pending.waiting with
    | none =>
      rw [complete_of_none h hsoonest]
      exact hcall
    | some soonest =>
      rw [(complete_of_some h hsoonest _).1]
      have hne : call ≠ soonest := by
        intro heq
        rw [heq] at htopic
        exact htopic (PendingCall.mem_of_soonest? hsoonest).2
      exact (List.mem_erase_of_ne hne).mpr hcall

/-- The only call on a topic is the one that hears an announcement. -/
theorem Sound.outcome?_announce (h : t.Sound base others) {topic : Topic}
    (hcall : call ∈ t.pending.waiting) (htopic : call.topic = (topic.withSuffix .returnCode).text)
    (halone : ∀ other ∈ t.pending.waiting, other.topic = call.topic → other = call) :
    (t.announce topic (some code)).slots.outcome? call.slot = some ⟨code, none⟩ := by
  have hopen : t.slots.IsOpen call.slot := h.owned.isOpen (List.mem_append_right _ hcall)
  show (t.complete _ _).2.slots.outcome? call.slot = _
  cases hsoonest : PendingCall.soonest? (topic.withSuffix .returnCode).text t.pending.waiting with
  | none => exact absurd htopic (PendingCall.soonest?_eq_none_iff.mp hsoonest call hcall)
  | some soonest =>
    obtain ⟨hmem, hsame⟩ := PendingCall.mem_of_soonest? hsoonest
    rw [(complete_of_some h.indexed hsoonest _).2, halone soonest hmem (hsame.trans htopic.symm)]
    exact CallSlots.outcome?_resolve_self hopen

end CallTable

namespace Bus

/-! ## One envelope -/

/-- A command with a call that no device answers: some code is announced, and then the call that came
with it is ended. -/
theorem handleCommand_calls_of_call (b : Bus) {own : PendingCall} (hown : e.call = some own)
    (hanswers : ¬ b.deviceAnswers e.topic) :
    ∃ code? o, (b.handleCommand e).calls = (b.calls.announce e.topic code?).resolve own o ∧
      (¬ e.topic.isLocal → code? = b.verdict { e with call := none }) := by
  have hprocess := process_calls b (e := { e with call := none }) rfl
  unfold handleCommand
  simp only
  split
  · rename_i hlocal
    have hquiet := (quiet_localCommand b { e with call := none }).calls_eq
    refine ⟨some (b.localCommand { e with call := none }).1.code,
      (b.localCommand { e with call := none }).1, ?_, fun hno => absurd hlocal hno⟩
    rw [hown, ← hquiet, ← emitReturnCode_calls]
    rfl
  · rw [hown]
    refine ⟨b.verdict { e with call := none },
      ⟨Outcome.code (b.process { e with call := none }).1, none⟩, ?_, fun _ => rfl⟩
    rw [← hprocess]
    rfl

/-- A call goes on waiting when a command is handled that is for another topic. -/
theorem Sound.mem_waiting_handleCommand (h : b.Sound base (e :: es))
    (hcall : call ∈ b.calls.pending.waiting)
    (htopic : call.topic ≠ (e.topic.withSuffix .returnCode).text) :
    call ∈ (b.handleCommand e).calls.pending.waiting := by
  cases hown : e.call with
  | none =>
    rw [h.handleCommand_calls hown]
    exact CallTable.mem_waiting_announce h.calls.indexed _ hcall htopic
  | some own =>
    by_cases hanswers : b.deviceAnswers e.topic
    · rw [handleCommand_calls_of_deviceAnswers b hown hanswers]
      refine CallTable.mem_waiting_announce (h.calls.indexed.register own) _ ?_ htopic
      show call ∈ (b.calls.pending.register own).waiting
      rw [PendingCalls.register_waiting]
      exact List.mem_append_left _ hcall
    · obtain ⟨code?, o, hcalls, -⟩ := handleCommand_calls_of_call b hown hanswers
      rw [hcalls]
      exact CallTable.mem_waiting_announce h.calls.indexed code? hcall htopic

theorem Sound.mem_waiting_handleBackend (h : b.Sound base es) (he : e.call = none)
    (hcall : call ∈ b.calls.pending.waiting)
    (htopic : call.topic ≠ (e.topic.withSuffix .returnCode).text) :
    call ∈ (b.handleBackend e).calls.pending.waiting := by
  rw [h.handleBackend_calls he]
  exact CallTable.mem_waiting_announce h.calls.indexed _ hcall htopic

/-- A return code that a call waits for is for the topic of a device. -/
theorem Sound.returnCode_of_waiting (h : b.Sound base es) (hcall : call ∈ b.calls.pending.waiting)
    (htopic : e.topic.text = call.topic) :
    e.topic.suffix = some .returnCode ∧ (e.topic.withSuffix .returnCode).text = call.topic ∧
      e.topic.path ≠ "" ∧ ¬ e.topic.isLocal := by
  obtain ⟨t, ht, hreturn⟩ := h.device call hcall
  have htext : e.topic.text = (t.withSuffix .returnCode).text := htopic.trans hreturn
  have hsuffix : e.topic.suffix = some .returnCode := by
    show (Topic.splitSuffix e.topic.text.toList).2 = _
    rw [htext]
    exact Topic.suffix_withSuffix t .returnCode
  have hpath : e.topic.pathChars = t.pathChars := by
    show (Topic.splitSuffix e.topic.text.toList).1 = _
    rw [htext]
    exact Topic.pathChars_withSuffix t .returnCode
  have hsame : (e.topic.withSuffix .returnCode).text = call.topic := by
    rw [Topic.withSuffix_of_suffix hsuffix, htopic]
  refine ⟨hsuffix, hsame, ?_, fun hlocal => ?_⟩
  · rw [ne_eq, Topic.path_eq_empty_iff, hpath]
    exact Topic.pathChars_ne_nil ht
  · exact Topic.returnCode_ne_of_devicePrefix ht (Or.inl hlocal) (hreturn.symm.trans hsame.symm)

/-- The verdict on a return code is the code that it brings. -/
theorem verdict_of_returnCode (h : b.tree.Rooted) (hsuffix : e.topic.suffix = some .returnCode)
    (hroot : e.topic.path ≠ "") (hvalue : e.value = .i32 code) : b.verdict e = some code := by
  obtain ⟨node, tree, hnode, -⟩ := exists_nodeOf h e.topic
  unfold verdict
  rw [if_neg hroot, hnode]
  simp only [hsuffix, hvalue]
  rfl

/-- A return code from a client ends the call that waits for it alone. -/
theorem Sound.outcome?_handleCommand (h : b.Sound base (e :: es)) (hrooted : b.tree.Rooted)
    (hcall : call ∈ b.calls.pending.waiting) (htopic : e.topic.text = call.topic)
    (hvalue : e.value = .i32 code)
    (halone : ∀ other ∈ b.calls.pending.waiting, other.topic = call.topic → other = call) :
    (b.handleCommand e).calls.slots.outcome? call.slot = some ⟨code, none⟩ := by
  obtain ⟨hsuffix, hsame, hroot, hlocal⟩ := h.returnCode_of_waiting hcall htopic
  have hannounced :
      (b.calls.announce e.topic (some code)).slots.outcome? call.slot = some ⟨code, none⟩ :=
    h.calls.outcome?_announce hcall hsame.symm halone
  cases hown : e.call with
  | none =>
    rw [h.handleCommand_calls hown, verdict_of_returnCode hrooted hsuffix hroot hvalue]
    exact hannounced
  | some own =>
    have hanswers : ¬ b.deviceAnswers e.topic := by
      unfold deviceAnswers
      simp [hsuffix]
    obtain ⟨code?, o, hcalls, hverdict⟩ := handleCommand_calls_of_call b hown hanswers
    have hcode : code? = some code := by
      rw [hverdict hlocal]
      exact verdict_of_returnCode (e := { e with call := none }) hrooted hsuffix hroot hvalue
    -- the command may come with a call of its own, which has another slot
    have hslot : own.slot ≠ call.slot := by
      intro heq
      refine (h.records_cons hown).owned.notMem_tail (List.mem_map.mpr ⟨call, ?_, heq.symm⟩)
      exact List.mem_append_right _ hcall
    rw [hcalls, hcode]
    show ((CallSlots.resolve _ own.slot o).2.outcome? call.slot) = _
    rw [CallSlots.outcome?_resolve_of_ne hslot.symm]
    exact hannounced

/-- So does one from a backend. -/
theorem Sound.outcome?_handleBackend (h : b.Sound base es) (hrooted : b.tree.Rooted)
    (he : e.call = none) (hcall : call ∈ b.calls.pending.waiting)
    (htopic : e.topic.text = call.topic) (hvalue : e.value = .i32 code)
    (halone : ∀ other ∈ b.calls.pending.waiting, other.topic = call.topic → other = call) :
    (b.handleBackend e).calls.slots.outcome? call.slot = some ⟨code, none⟩ := by
  obtain ⟨hsuffix, hsame, hroot, -⟩ := h.returnCode_of_waiting hcall htopic
  rw [h.handleBackend_calls he,
    verdict_of_returnCode (e := b.received e) hrooted hsuffix hroot hvalue]
  exact h.calls.outcome?_announce hcall hsame.symm halone

end Bus

/-! ## Steps and runs -/

namespace Dispatcher

variable {d : Dispatcher} {a : Action} {as : List Action}

/-- What the clock shows if deadlines are looked at next. -/
def deadlineChecks (d : Dispatcher) : Action → List Nat
  | .advance =>
    match d.phase with
    | .commands [] | .ending => [d.bus.clock]
    | _ => []
  | _ => []

/-- The envelope that is handled by what happens next, if any, from whatever side it came. -/
def handles (d : Dispatcher) (a : Action) : List Envelope :=
  d.commandsHandled a ++ d.messagesHandled a

/-- No deadline is looked at as long as anything is left of what was taken. -/
theorem deadlineChecks_eq_nil (hleft : d.phase.commandsLeft ++ d.phase.backendsLeft ≠ []) :
    d.deadlineChecks a = [] := by
  obtain ⟨b, phase⟩ := d
  cases a with
  | advance =>
    cases phase with
    | commands es =>
      cases es with
      | nil => exact absurd rfl hleft
      | cons e es => rfl
    | ending => exact absurd rfl hleft
    | _ => rfl
  | _ => rfl

theorem Sound.mem_waiting_act (h : d.Sound base) (hcall : call ∈ d.bus.calls.pending.waiting)
    (hover : (d.act a).phase.isOver = false) (hchecks : d.deadlineChecks a = [])
    (hothers : ∀ e ∈ d.handles a, call.topic ≠ (e.topic.withSuffix .returnCode).text) :
    call ∈ (d.act a).bus.calls.pending.waiting := by
  cases a with
  | advance =>
    obtain ⟨b, phase⟩ := d
    cases phase with
    | awake | resting => exact hcall
    | ending | closing | ended => cases hover
    | backends es =>
      cases es with
      | nil => exact hcall
      | cons e es =>
        obtain ⟨he, -⟩ := callFree_cons.mp h.backends
        exact h.bus.mem_waiting_handleBackend he hcall (hothers e (List.mem_singleton_self e))
    | commands es =>
      cases es with
      | nil => cases hchecks
      | cons e es =>
        by_cases he : e.topic = .finalize
        · have hover : (Dispatcher.advance _).phase.isOver = false := hover
          rw [advance_of_finalize rfl he] at hover
          cases hover
        · have hhandled : e ∈ (⟨b, .commands (e :: es)⟩ : Dispatcher).handles .advance := by
            simp [handles, commandsHandled, Phase.commandsLeft, he]
          show call ∈ (Dispatcher.advance _).bus.calls.pending.waiting
          rw [advance_of_commands rfl he]
          exact Bus.Sound.mem_waiting_handleCommand h.bus hcall (hothers e hhandled)
  | submit s =>
    show call ∈ (d.bus.accept s).calls.pending.waiting
    rw [(Bus.handed_accept d.bus s).pending_eq]
    exact hcall
  | submitLate s =>
    show call ∈ (d.bus.acceptLate s).calls.pending.waiting
    rw [(Bus.handed_acceptLate d.bus s).pending_eq]
    exact hcall
  | _ => exact hcall

theorem isOver_runFrom (hover : d.phase.isOver = true) (as : List Action) :
    (d.runFrom as).phase.isOver = true := by
  induction as generalizing d with
  | nil => exact hover
  | cons a as ih => exact ih (isOver_act_of_isOver hover)

/-- A call goes on waiting until deadlines are looked at or an envelope for its topic is handled. -/
theorem Sound.mem_waiting_runFrom (h : d.Sound base) (hcall : call ∈ d.bus.calls.pending.waiting)
    (hover : (d.runFrom as).phase.isOver = false) (hchecks : logFrom deadlineChecks d as = [])
    (hothers : ∀ e ∈ logFrom handles d as, call.topic ≠ (e.topic.withSuffix .returnCode).text) :
    call ∈ (d.runFrom as).bus.calls.pending.waiting := by
  induction as generalizing d with
  | nil => exact hcall
  | cons a as ih =>
    obtain ⟨hfirst, hrest⟩ := List.append_eq_nil_iff.mp hchecks
    obtain ⟨hnow, hlater⟩ := List.forall_mem_append.mp hothers
    have hact : (d.act a).phase.isOver = false := by
      by_contra hact
      have hlast := isOver_runFrom (Bool.eq_true_of_not_eq_false hact) as
      rw [show d.runFrom (a :: as) = (d.act a).runFrom as from rfl, hlast] at hover
      cases hover
    exact ih (h.act a) (h.mem_waiting_act hcall hact hfirst hnow) hover hrest hlater

/-- The only call that waits for a return code has it as its outcome once it is handled. -/
theorem Sound.outcome?_advance (h : d.Sound base) (hrooted : d.bus.tree.Rooted)
    (hcall : call ∈ d.bus.calls.pending.waiting) (he : e ∈ d.handles .advance)
    (htopic : e.topic.text = call.topic) (hvalue : e.value = .i32 code)
    (halone : ∀ other ∈ d.bus.calls.pending.waiting, other.topic = call.topic → other = call) :
    d.advance.outcome? call.slot = some ⟨code, none⟩ := by
  unfold outcome?
  rcases List.mem_append.mp he with he | he
  · obtain ⟨hne, es, hphase⟩ := phase_of_mem_commandsHandled he
    have hbus : d.bus.Sound base (e :: es) := by
      have hbus := h.bus
      rw [hphase] at hbus
      exact hbus
    rw [advance_of_commands hphase hne]
    exact hbus.outcome?_handleCommand hrooted hcall htopic hvalue halone
  · obtain ⟨es, hphase⟩ := phase_of_mem_messagesHandled he
    have hbackends := h.backends
    obtain ⟨b, phase⟩ := d
    obtain rfl : phase = .backends (e :: es) := hphase
    obtain ⟨hfree, -⟩ := callFree_cons.mp hbackends
    exact h.bus.outcome?_handleBackend hrooted hfree hcall htopic hvalue halone

end Dispatcher
end InstrumentBus
