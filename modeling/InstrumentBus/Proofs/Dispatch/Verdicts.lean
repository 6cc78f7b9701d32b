import Mathlib
import InstrumentBus.Proofs.Dispatch.Runs

/-!
# Whose call a verdict ends

A verdict is announced by topic, so it ends the soonest call that waits on the topic of its
envelope. That need not be the call that came with the envelope, and an envelope that came without a
call may end one all the same. The two main theorems say, for every state of every run, when neither
happens; each is followed by a run in which it does.
-/

namespace InstrumentBus

variable {base : CallSlots} {others taken : List PendingCall} {t : CallTable} {b : Bus} {e : Envelope}

/-! ## One announcement -/

theorem CallTable.announce_eq_self (h : t.pending.Indexed) {topic : Topic}
    (hnone : ∀ call ∈ t.pending.waiting, call.topic ≠ (topic.withSuffix .returnCode).text)
    (code : Option Int32) : t.announce topic code = t := by
  cases code with
  | none => rfl
  | some code =>
    show (t.complete _ _).2 = t
    rw [complete_of_none h (PendingCall.soonest?_eq_none_iff.mpr hnone)]

/-- An announcement changes a slot if there is something to announce and someone to hear it. -/
theorem CallTable.Sound.announce_slots_eq_iff (h : t.Sound base others) (topic : Topic)
    (code : Option Int32) :
    (t.announce topic code).slots = t.slots ↔
      ¬ (code ≠ none ∧
        ∃ call ∈ t.pending.waiting, call.topic = (topic.withSuffix .returnCode).text) := by
  cases code with
  | none => exact iff_of_true rfl (by simp)
  | some code =>
    cases hsoonest : PendingCall.soonest? (topic.withSuffix .returnCode).text t.pending.waiting with
    | none =>
      have hnone := PendingCall.soonest?_eq_none_iff.mp hsoonest
      refine iff_of_true (congrArg slots (announce_eq_self h.indexed hnone _)) ?_
      rintro ⟨-, call, hcall, htopic⟩
      exact hnone call hcall htopic
    | some call =>
      obtain ⟨hmem, htopic⟩ := PendingCall.mem_of_soonest? hsoonest
      refine iff_of_false (fun heq => ?_) fun hno => hno ⟨by simp, call, hmem, htopic⟩
      have hopen : t.slots.IsOpen call.slot := h.owned.isOpen (List.mem_append_right _ hmem)
      have hslots : (t.announce topic (some code)).slots = (t.slots.resolve call.slot _).2 :=
        (complete_of_some h.indexed hsoonest _).2
      rw [hslots] at heq
      have houtcome := CallSlots.outcome?_resolve_self (o := ⟨code, none⟩) hopen
      rw [heq, (CallSlots.isOpen_iff.mp hopen).2] at houtcome
      cases houtcome

/-- A call that is registered just before an announcement for its topic is the one that hears it,
and no one else, exactly if all others on the topic have later deadlines. -/
theorem CallTable.Sound.register_complete_iff {call : PendingCall} (h : t.Sound base (call :: others))
    (o : CallOutcome) :
    ((((t.register call).complete call.topic o).2.slots.outcome? call.slot = some o) ∧
      ∀ slot, slot ≠ call.slot →
        ((t.register call).complete call.topic o).2.slots.outcome? slot = t.slots.outcome? slot) ↔
      ∀ other ∈ t.pending.waiting, other.topic = call.topic → call.deadline < other.deadline := by
  have hslot : call.slot ∉ (others ++ t.pending.waiting).map (·.slot) := h.owned.notMem_tail
  have hother : ∀ other ∈ t.pending.waiting, other.slot ≠ call.slot := by
    intro other hmem heq
    exact hslot (List.mem_map.mpr ⟨other, List.mem_append_right _ hmem, heq⟩)
  have hopen : t.slots.IsOpen call.slot := h.owned.isOpen List.mem_cons_self
  have hwaiting : (t.register call).pending.waiting = t.pending.waiting ++ [call] :=
    PendingCalls.register_waiting _ _
  have hiff := PendingCall.soonest?_concat_eq_iff fun hmem => hother call hmem rfl
  rw [← hwaiting] at hiff
  rw [← hiff]
  cases hsoonest : PendingCall.soonest? call.topic (t.register call).pending.waiting with
  | none =>
    have hmem : call ∈ (t.register call).pending.waiting := by simp [hwaiting]
    exact absurd rfl (PendingCall.soonest?_eq_none_iff.mp hsoonest call hmem)
  | some soonest =>
    have hslots := (complete_of_some h.register.indexed hsoonest o).2
    rw [hslots]
    constructor
    · rintro ⟨hown, -⟩
      by_contra hne
      -- the outcome went to a call that was there before
      have hmem : soonest ∈ t.pending.waiting := by
        have hmem := (PendingCall.mem_of_soonest? hsoonest).1
        rw [hwaiting] at hmem
        rcases List.mem_append.mp hmem with hmem | hmem
        · exact hmem
        · exact absurd (congrArg some (List.mem_singleton.mp hmem)) hne
      rw [CallSlots.outcome?_resolve_of_ne (hother soonest hmem).symm] at hown
      have hnone : (t.register call).slots.outcome? call.slot = none :=
        (CallSlots.isOpen_iff.mp hopen).2
      rw [hnone] at hown
      cases hown
    · intro heq
      rw [Option.some.inj heq]
      exact ⟨CallSlots.outcome?_resolve_self hopen, fun slot hne =>
        CallSlots.outcome?_resolve_of_ne hne⟩

namespace Bus

/-! ## Envelopes without calls -/

section Special

variable {commands : List Envelope}

theorem Sound.announce_of_special (h : b.Sound base commands) {topic : Topic}
    (hspecial : topic.isLocal ∨ topic.isDriver) (code : Option Int32) :
    b.calls.announce topic code = b.calls := by
  refine CallTable.announce_eq_self h.calls.indexed (fun call hcall htopic => ?_) code
  obtain ⟨t, ht, hcallTopic⟩ := h.device call hcall
  exact Topic.returnCode_ne_of_devicePrefix ht hspecial (hcallTopic.symm.trans htopic)

theorem Sound.process_calls_of_special (h : b.Sound base commands) (he : e.call = none)
    (hspecial : e.topic.isLocal ∨ e.topic.isDriver) : (b.process e).2.calls = b.calls := by
  rw [process_calls b he, h.announce_of_special hspecial]

theorem Sound.publishDeviceList_calls (h : b.Sound base commands) :
    b.publishDeviceList.calls = b.calls := by
  unfold Bus.publishDeviceList
  refine h.process_calls_of_special (envelope_call ..) (Or.inr ?_)
  rw [envelope_topic]
  decide

/-- A command without a call announces its verdict. One to the bus itself has an answer of its own,
which no call waits for. -/
theorem Sound.handleCommand_calls (h : b.Sound base commands) (he : e.call = none) :
    (b.handleCommand e).calls = b.calls.announce e.topic (b.verdict e) := by
  have hself : ({ e with call := none } : Envelope) = e := by rw [← he]
  unfold Bus.handleCommand
  simp only [he, hself]
  split
  · rename_i hlocal
    have hquiet := quiet_localCommand b e
    rw [h.announce_of_special (Or.inl hlocal), ← hquiet.calls_eq]
    rw [resolveCall_none, emitReturnCode_calls]
    exact (h.quiet hquiet).announce_of_special (Or.inl hlocal) _
  · exact process_calls b he

theorem Sound.handleBackend_calls (h : b.Sound base commands) (he : e.call = none) :
    (b.handleBackend e).calls = b.calls.announce e.topic (b.verdict (b.received e)) := by
  by_cases hdriver : e.topic.isDriver
  · rw [h.announce_of_special (Or.inr hdriver)]
    rcases h.told_handleBackend hdriver with hsame | ⟨b', e', h', hcalls, hcall, htopic, hafter⟩
    · rw [hsame]
    · have he' : e'.call = none := hcall.trans he
      have hdriver' : e'.topic.isDriver := by rw [htopic]; exact hdriver
      rw [hafter, (h'.process he').publishDeviceList_calls,
        h'.process_calls_of_special he' (Or.inr hdriver'), hcalls]
  · rw [handleBackend_of_not_isDriver b hdriver]
    exact process_calls (e := b.received e) b he

end Special

/-! ## Commands with calls -/

/-- The verdict on a command for a device, whose call is in the table by then. -/
def registeredVerdict (b : Bus) (call : PendingCall) (e : Envelope) : Option Int32 :=
  ({ b with calls := b.calls.register call } : Bus).verdict { e with call := none }

/-- A command that a device answers: its call goes into the table, and only then its verdict is
announced. -/
theorem handleCommand_calls_of_deviceAnswers (b : Bus) {call : PendingCall}
    (hcall : e.call = some call) (hanswers : b.deviceAnswers e.topic) :
    (b.handleCommand e).calls =
      (b.calls.register call).announce e.topic (b.registeredVerdict call e) := by
  have hlocal : ¬ e.topic.isLocal := by
    intro hlocal
    have howned := devicePrefix_of_deviceAnswers hanswers
    unfold Topic.devicePrefix at howned
    simp [hlocal] at howned
  unfold handleCommand
  simp only [hcall, hanswers, if_true, if_neg hlocal]
  exact process_calls _ rfl

end Bus

namespace Dispatcher

/-- In every state of every run, let the next command be a plain value for a topic that a device
owns, with a call. If its verdict is announced at once, the call is ended by it and nobody else is,
exactly if every other call that waits on the topic has a later deadline. -/
theorem own_call_ended_iff (config : BusConfig) (as : List Action) {es : List Envelope}
    {call : PendingCall} {code : Int32}
    (hnext : (run config as).phase.commandsLeft = e :: es)
    (hcall : e.call = some call) (hplain : e.topic.suffix = none)
    (howner : ((run config as).bus.devices.owner? e.topic).isSome)
    (hverdict : (run config as).bus.registeredVerdict call e = some code) :
    let d := run config as
    (d.advance.outcome? call.slot = some ⟨code, none⟩ ∧
      ∀ slot, slot ≠ call.slot → d.advance.outcome? slot = d.outcome? slot) ↔
    ∀ other ∈ d.bus.calls.pending.waiting, other.topic = call.topic →
      call.deadline < other.deadline := by
  intro d
  have hphase : d.phase = .commands (e :: es) := phase_of_commandsLeft hnext
  have hsound : d.bus.Sound {} (e :: es) := by
    have hbus := (sound_run config as).bus
    rw [hnext] at hbus
    exact hbus
  have hanswers : d.bus.deviceAnswers e.topic := by
    unfold Bus.deviceAnswers
    rw [hplain]
    exact howner
  have hfinalize : e.topic ≠ .finalize := by
    intro he
    have howned := Bus.devicePrefix_of_deviceAnswers hanswers
    rw [he] at howned
    exact absurd howned (by decide)
  have hadvance : d.advance.bus = d.bus.handleCommand e := by
    rw [advance_of_commands hphase hfinalize]
  -- by the time of the verdict the call is in the table, behind those that wait already
  have hcalls := Bus.handleCommand_calls_of_deviceAnswers d.bus hcall hanswers
  rw [show d.bus.registeredVerdict call e = some code from hverdict] at hcalls
  have htopic : call.topic = (e.topic.withSuffix .returnCode).text :=
    hsound.addressed e List.mem_cons_self call hcall
  have hiff := (hsound.records_cons hcall).register_complete_iff ⟨code, none⟩
  unfold outcome?
  rw [hadvance, hcalls]
  unfold CallTable.announce
  rw [← htopic]
  exact hiff

/-! ### Two clients that ask for the same -/

/-- A client sets a value of a device and waits. -/
def setAndWait (timeout : Nat) : Action :=
  .submit (.request (.publish ⟨"u/js220/0001/x", Value.u8 1, .retained, 0, 0⟩ timeout))

/-- A device is registered, and a client waits for it to answer. -/
def oneWaits : List Action :=
  [.submit (.registerDevice "u/js220/0001"), .advance, .advance, .advance, .advance, .advance,
    setAndWait 400, .advance, .advance, .advance, .advance, .advance]

/-- Then the command of another client, which has more time, is the next one. -/
def anotherAsks : List Action := oneWaits ++ [setAndWait 800, .advance, .advance]

/-- The command of the other client. -/
def anotherCommand : Envelope :=
  (run {} anotherAsks).phase.commandsLeft.head (by decide +kernel)

/-- The call of the other client. -/
def anotherCall : PendingCall := ⟨"u/js220/0001/x#", 800, 1⟩

theorem anotherAsks_commandsLeft :
    (run {} anotherAsks).phase.commandsLeft =
      anotherCommand :: (run {} anotherAsks).phase.commandsLeft.tail :=
  (List.cons_head_tail _).symm

/-- It sets the value that is there already. -/
theorem anotherCommand_spec :
    anotherCommand.call = some anotherCall ∧ anotherCommand.topic.suffix = none ∧
      ((run {} anotherAsks).bus.devices.owner? anotherCommand.topic).isSome ∧
      (run {} anotherAsks).bus.registeredVerdict anotherCall anotherCommand = some 0 := by
  decide +kernel

theorem anotherCall_not_ended :
    ¬ ((run {} anotherAsks).advance.outcome? anotherCall.slot = some ⟨0, none⟩ ∧
      ∀ slot, slot ≠ anotherCall.slot →
        (run {} anotherAsks).advance.outcome? slot = (run {} anotherAsks).outcome? slot) := by
  obtain ⟨hcall, hplain, howner, hverdict⟩ := anotherCommand_spec
  have hiff := own_call_ended_iff {} anotherAsks anotherAsks_commandsLeft hcall hplain howner hverdict
  -- the call that waits already has less time
  exact fun hended => absurd (hiff.mp hended) (by decide +kernel)

/-- So it is not true that a verdict always ends the call that came with the command. -/
theorem not_own_call_always_ended :
    ¬ ∀ (config : BusConfig) (as : List Action) (e : Envelope) (es : List Envelope)
        (call : PendingCall) (code : Int32),
      (run config as).phase.commandsLeft = e :: es → e.call = some call → e.topic.suffix = none →
      ((run config as).bus.devices.owner? e.topic).isSome →
      (run config as).bus.registeredVerdict call e = some code →
      (run config as).advance.outcome? call.slot = some ⟨code, none⟩ ∧
        ∀ slot, slot ≠ call.slot →
          (run config as).advance.outcome? slot = (run config as).outcome? slot := by
  intro h
  obtain ⟨hcall, hplain, howner, hverdict⟩ := anotherCommand_spec
  have hended :=
    (h {} anotherAsks anotherCommand _ anotherCall 0 anotherAsks_commandsLeft hcall hplain howner
      hverdict).1
  exact absurd hended (by decide +kernel)

/-! ## Slots that no one else may touch -/

/-- In every state of every run, an envelope without a call, from a client or from a backend, leaves
the slots of all calls alone, exactly if it has no verdict or no call waits on its topic. -/
theorem slots_unchanged_iff (config : BusConfig) (as : List Action) (he : e.call = none) :
    let b := (run config as).bus
    ((b.handleCommand e).calls.slots = b.calls.slots ↔
      ¬ (b.verdict e ≠ none ∧
        ∃ call ∈ b.calls.pending.waiting, call.topic = (e.topic.withSuffix .returnCode).text)) ∧
    ((b.handleBackend e).calls.slots = b.calls.slots ↔
      ¬ (b.verdict (b.received e) ≠ none ∧
        ∃ call ∈ b.calls.pending.waiting, call.topic = (e.topic.withSuffix .returnCode).text)) := by
  intro b
  have hsound := (sound_run config as).bus
  constructor
  · rw [hsound.handleCommand_calls he]
    exact hsound.calls.announce_slots_eq_iff _ _
  · rw [hsound.handleBackend_calls he]
    exact hsound.calls.announce_slots_eq_iff _ _

/-! ### A device that says what it was just told -/

/-- While a client waits for a device, the device publishes the value that the client had set. -/
def deviceEchoes : List Action :=
  oneWaits ++
    [.submit (.send (.make {} ⟨"u/js220/0001/x", by decide⟩ (Value.u8 1) .retained)), .advance]

/-- The envelope of the device, which is the next one. -/
def echo : Envelope := (run {} deviceEchoes).phase.backendsLeft.head (by decide +kernel)

theorem echo_spec : echo.call = none ∧ echo.topic.suffix ≠ some .returnCode := by decide +kernel

theorem slots_changed_by_echo :
    ((run {} deviceEchoes).bus.handleBackend echo).calls.slots ≠
      (run {} deviceEchoes).bus.calls.slots := by
  have hiff := (slots_unchanged_iff (e := echo) {} deviceEchoes echo_spec.1).2
  exact fun heq => hiff.mp heq (by decide +kernel)

/-- So it is not true that only return codes from outside end the calls of others. -/
theorem not_slots_always_unchanged :
    ¬ ∀ (config : BusConfig) (as : List Action) (e : Envelope), e.call = none →
      e.topic.suffix ≠ some .returnCode →
      ((run config as).bus.handleBackend e).calls.slots = (run config as).bus.calls.slots := by
  intro h
  have heq := h {} deviceEchoes echo echo_spec.1 echo_spec.2
  have houtcomes := congrArg (fun slots => slots.outcome? 0) heq
  exact absurd houtcomes (by decide +kernel)

end Dispatcher
end InstrumentBus
