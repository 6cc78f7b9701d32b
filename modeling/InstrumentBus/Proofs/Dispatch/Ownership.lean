import Mathlib
import InstrumentBus.Bus.Session
import InstrumentBus.Proofs.Dispatch.ReturnCodes

/-!
# Who holds the calls of a bus

`Bus.Sound` is what holds between any two envelopes, while the dispatcher has some commands in its
hands: the records of the open slots travel with these commands, with those in the queue, or are in
the table, one for each slot; nothing else on the bus carries a call; and the table holds calls to
devices only.

There is a lemma for each thing that the dispatcher does, and for what clients and backends submit.
-/

namespace InstrumentBus.Bus

variable {base : CallSlots} {taken es : List Envelope} {b b' : Bus} {e : Envelope}

/-- The state of the calls while the dispatcher holds the commands `taken`. -/
structure Sound (base : CallSlots) (taken : List Envelope) (b : Bus) : Prop where
  calls : b.calls.Sound base ((taken ++ b.commands.items).filterMap Envelope.call)
  /-- A call that travels waits for the return code of the topic of its envelope, -/
  addressed : ∀ e ∈ taken ++ b.commands.items, ∀ call, e.call = some call →
    call.topic = (e.topic.withSuffix .returnCode).text
  /-- and one in the table for that of a topic of a device. -/
  device : ∀ call ∈ b.calls.pending.waiting, ∃ t : Topic,
    t.devicePrefix.isSome ∧ call.topic = (t.withSuffix .returnCode).text
  backend : CallFree b.backend.items
  held : CallFree b.held

/-! ## Processing -/

theorem Sound.quiet (h : b.Sound base taken) (hquiet : b.Quiet b') : b'.Sound base taken := by
  obtain ⟨new, hnew, hcommands⟩ := hquiet.commands_eq
  have hitems : taken ++ b'.commands.items = taken ++ b.commands.items ++ new := by
    rw [hcommands, List.append_assoc]
  refine ⟨?_, ?_, ?_, ?_, hquiet.held_callFree h.held⟩
  · rw [hitems, List.filterMap_append, hnew.filterMap_call, List.append_nil, hquiet.calls_eq]
    exact h.calls
  · intro e he call hcall
    rw [hitems] at he
    rcases List.mem_append.mp he with he | he
    · exact h.addressed e he call hcall
    · rw [hnew e he] at hcall
      cases hcall
  · rw [hquiet.calls_eq]
    exact h.device
  · rw [hquiet.backend_eq]
    exact h.backend

theorem Sound.setCalls (h : b.Sound base taken) {calls : CallTable}
    (hcalls : calls.Sound base ((taken ++ b.commands.items).filterMap Envelope.call))
    (hsubset : calls.pending.waiting ⊆ b.calls.pending.waiting) :
    ({ b with calls } : Bus).Sound base taken :=
  ⟨hcalls, h.addressed, fun call hcall => h.device call (hsubset hcall), h.backend, h.held⟩

theorem Sound.setDevices (h : b.Sound base taken) (devices : Devices) :
    ({ b with devices } : Bus).Sound base taken :=
  ⟨h.calls, h.addressed, h.device, h.backend, h.held⟩

theorem Sound.announce (h : b.Sound base taken) (topic : Topic) (code : Option Int32) :
    ({ b with calls := b.calls.announce topic code } : Bus).Sound base taken :=
  h.setCalls (h.calls.announce topic code) (CallTable.announce_waiting_subset h.calls.indexed _ _)

theorem Sound.process (h : b.Sound base taken) (he : e.call = none) :
    (b.process e).2.Sound base taken := (h.announce _ _).quiet (quiet_process b he)

theorem Sound.emitReturnCode (h : b.Sound base taken) (t : Topic) (code : Int32) :
    (b.emitReturnCode t code).Sound base taken :=
  (h.announce t (some code)).quiet (quiet_emitReturnCode b t code)

theorem Sound.publishDeviceList (h : b.Sound base taken) : b.publishDeviceList.Sound base taken :=
  h.process (envelope_call ..)

/-! ## Commands -/

/-- A command without a call may be forgotten. -/
theorem Sound.forget (h : b.Sound base (e :: es)) (he : e.call = none) : b.Sound base es where
  calls := by
    have hcalls := h.calls
    rw [List.cons_append, List.filterMap_cons_none he] at hcalls
    exact hcalls
  addressed e' he' := h.addressed e' (List.mem_cons_of_mem e he')
  device := h.device
  backend := h.backend
  held := h.held

theorem Sound.records_cons (h : b.Sound base (e :: es)) {call : PendingCall}
    (he : e.call = some call) :
    b.calls.Sound base (call :: (es ++ b.commands.items).filterMap Envelope.call) := by
  have hcalls := h.calls
  rw [List.cons_append, List.filterMap_cons_some he] at hcalls
  exact hcalls

theorem resolveCall_none (b : Bus) (o : CallOutcome) : b.resolveCall none o = b := rfl

theorem Sound.resolveCall (h : b.Sound base (e :: es)) (o : CallOutcome) :
    (b.resolveCall e.call o).Sound base es := by
  cases he : e.call with
  | none => exact h.forget he
  | some call =>
    exact ⟨(h.records_cons he).resolve o, fun e' he' => h.addressed e' (List.mem_cons_of_mem e he'),
      h.device, h.backend, h.held⟩

theorem Sound.register (h : b.Sound base (e :: es)) {call : PendingCall} (he : e.call = some call)
    (hdevice : e.topic.devicePrefix.isSome) :
    ({ b with calls := b.calls.register call } : Bus).Sound base es where
  calls := (h.records_cons he).register
  addressed e' he' := h.addressed e' (List.mem_cons_of_mem e he')
  device := by
    intro c hc
    have hwaiting : (b.calls.register call).pending.waiting = b.calls.pending.waiting ++ [call] :=
      PendingCalls.register_waiting _ _
    rw [hwaiting] at hc
    rcases List.mem_append.mp hc with hc | hc
    · exact h.device c hc
    · rw [List.mem_singleton.mp hc]
      exact ⟨e.topic, hdevice, h.addressed e List.mem_cons_self call he⟩
  backend := h.backend
  held := h.held

theorem devicePrefix_of_deviceAnswers {t : Topic} (h : b.deviceAnswers t) :
    t.devicePrefix.isSome := by
  unfold deviceAnswers Devices.owner? at h
  cases howned : t.devicePrefix with
  | none => simp [howned] at h
  | some name => rfl

/-- One command: its record is used up at the end, or goes into the table at the start. -/
theorem Sound.handleCommand (h : b.Sound base (e :: es)) : (b.handleCommand e).Sound base es := by
  unfold Bus.handleCommand
  simp only
  split
  · -- the bus answers itself
    have hlocal := h.quiet (quiet_localCommand b { e with call := none })
    exact (hlocal.emitReturnCode _ _).resolveCall _
  · split
    · rename_i hcall
      exact (h.forget hcall).process rfl
    · rename_i call hcall
      split
      · rename_i hanswers
        exact (h.register hcall (devicePrefix_of_deviceAnswers hanswers)).process rfl
      · -- no device answers, so what processing says is the answer
        have hprocessed := h.process (e := { e with call := none }) rfl
        rw [← hcall]
        exact hprocessed.resolveCall _

/-- A command to the bus itself is answered by what comes of it, -/
theorem Sound.outcome?_of_isLocal (h : b.Sound base (e :: es)) {call : PendingCall}
    (hcall : e.call = some call) (hlocal : e.topic.isLocal) :
    (b.handleCommand e).calls.slots.outcome? call.slot =
      some (b.localCommand { e with call := none }).1 := by
  -- the record of the call travels with the command until it is resolved
  have hquiet := h.quiet (quiet_localCommand b { e with call := none })
  unfold Bus.handleCommand
  simp only
  rw [if_pos hlocal, hcall]
  generalize b.localCommand { e with call := none } = answered at hquiet ⊢
  obtain ⟨outcome, b'⟩ := answered
  have hheld := (hquiet.emitReturnCode e.topic outcome.code).records_cons hcall
  have hopen := hheld.owned.isOpen List.mem_cons_self
  simp only at hopen ⊢
  generalize b'.emitReturnCode e.topic outcome.code = announced at hopen ⊢
  exact CallSlots.outcome?_resolve_self hopen

/-- and what no device answers, by what comes of processing it. -/
theorem Sound.outcome?_of_processed (h : b.Sound base (e :: es)) {call : PendingCall}
    (hcall : e.call = some call) (hlocal : ¬ e.topic.isLocal) (hanswers : ¬ b.deviceAnswers e.topic) :
    (b.handleCommand e).calls.slots.outcome? call.slot =
      some ⟨Outcome.code (b.process { e with call := none }).1, none⟩ := by
  have hprocessed := h.process (e := { e with call := none }) rfl
  have hopen := (hprocessed.records_cons hcall).owned.isOpen List.mem_cons_self
  unfold Bus.handleCommand
  simp only [hcall]
  rw [if_neg hlocal, if_neg hanswers]
  exact CallSlots.outcome?_resolve_self hopen

/-! ## Backends -/

theorem Sound.closeInbox (h : b.Sound base taken) (p : InboxId) :
    (b.closeInbox p).Sound base taken :=
  ⟨h.calls, h.addressed, h.device, h.backend,
    callFree_held_setInbox h.held p (callFree_inbox h.held p)⟩

/-- What comes of a change of the devices: none was made, or the bus tells everyone, first with the
envelope that asked for it, then with the list of devices. -/
def Told (base : CallSlots) (taken : List Envelope) (b : Bus) (e : Envelope) (after : Bus) : Prop :=
  after = b ∨ ∃ (b' : Bus) (e' : Envelope), b'.Sound base taken ∧ b'.calls = b.calls ∧
    e'.call = e.call ∧ e'.topic = e.topic ∧ after = (b'.process e').2.publishDeviceList

theorem Sound.told_addDevice (h : b.Sound base taken) (e : Envelope) :
    Told base taken b e (b.addDevice e) := by
  unfold Bus.addDevice
  split
  · split
    · exact Or.inl rfl
    · rename_i topic p device devices _
      have hdevices := h.setDevices devices
      simp only
      split
      · rename_i node b' hnode
        have hquiet := (quiet_nodeOf hnode).trans
          (quiet_tree (b'.tree.addSubscription node ⟨device.forwarder, .forwarding⟩)
            fun hkept => Tree.callFree_addSubscription hkept node _)
        refine Or.inr ⟨_, ({ e with control := none } : Envelope).setFlags {}, ?_, ?_, rfl, rfl, rfl⟩
        · exact hdevices.quiet hquiet
        · exact hquiet.calls_eq
      · exact Or.inr ⟨_, ({ e with control := none } : Envelope).setFlags {}, hdevices, rfl, rfl, rfl,
          rfl⟩
  · exact Or.inl rfl

theorem Sound.told_removeDevice (h : b.Sound base taken) (e : Envelope) :
    Told base taken b e (b.removeDevice e) := by
  unfold Bus.removeDevice
  split
  · split
    · exact Or.inl rfl
    · rename_i device devices _
      have hclosed := (h.setDevices devices).closeInbox device.inbox
      simp only
      split
      · rename_i node _
        have hquiet := quiet_tree (b := ({ b with devices } : Bus).closeInbox device.inbox)
          (Tree.remove _ node device.forwarder).2 fun hkept => Tree.callFree_remove hkept node _
        exact Or.inr ⟨_, e, hclosed.quiet hquiet, rfl, rfl, rfl, rfl⟩
      · exact Or.inr ⟨_, e, hclosed, rfl, rfl, rfl, rfl⟩
  · exact Or.inl rfl

/-- Envelopes for the driver change the devices, if they do anything. -/
theorem Sound.told_handleBackend (h : b.Sound base taken) (hdriver : e.topic.isDriver) :
    Told base taken b e (b.handleBackend e) := by
  unfold Bus.handleBackend
  rw [if_pos hdriver]
  split
  · exact h.told_addDevice e
  · split
    · exact h.told_removeDevice e
    · exact Or.inl rfl

/-- What the dispatcher processes for an envelope of a backend: a device does not get back what it
sent. -/
def received (b : Bus) (e : Envelope) : Envelope :=
  { e with
    origin := match b.devices.owner? e.topic with
      | some device => some device.forwarder
      | none => e.origin }

theorem handleBackend_of_not_isDriver (b : Bus) (hdriver : ¬ e.topic.isDriver) :
    b.handleBackend e = (b.process (b.received e)).2 := by
  unfold Bus.handleBackend
  rw [if_neg hdriver]
  rfl

theorem Sound.handleBackend (h : b.Sound base taken) (he : e.call = none) :
    (b.handleBackend e).Sound base taken := by
  by_cases hdriver : e.topic.isDriver
  · rcases h.told_handleBackend hdriver with hsame | ⟨b', e', h', -, hcall, -, hafter⟩
    · rw [hsame]
      exact h
    · rw [hafter]
      exact (h'.process (hcall.trans he)).publishDeviceList
  · rw [handleBackend_of_not_isDriver b hdriver]
    exact h.process (e := b.received e) he

/-! ## Rounds -/

theorem Sound.takeCommands (h : b.Sound base []) : b.takeCommands.2.Sound base b.takeCommands.1 := by
  have hitems : b.takeCommands.1 ++ b.takeCommands.2.commands.items = [] ++ b.commands.items :=
    List.append_nil _
  refine ⟨?_, ?_, h.device, h.backend, h.held⟩
  · rw [hitems]
    exact h.calls
  · rw [hitems]
    exact h.addressed

theorem Sound.takeBackend (h : b.Sound base taken) :
    b.takeBackend.2.Sound base taken ∧ CallFree b.takeBackend.1 :=
  ⟨⟨h.calls, h.addressed, h.device, callFree_nil, h.held⟩, h.backend⟩

theorem Sound.dropEnvelopes (h : b.Sound base es) : (b.dropEnvelopes es).Sound base [] where
  calls := by
    have hcalls := h.calls
    rw [List.filterMap_append] at hcalls
    exact hcalls.dropAll
  addressed e he := h.addressed e (List.mem_append_right _ he)
  device := by
    intro call hcall
    unfold Bus.dropEnvelopes at hcall
    rw [CallTable.dropAll_pending] at hcall
    exact h.device call hcall
  backend := h.backend
  held := h.held

theorem Sound.expireCalls (h : b.Sound base taken) : b.expireCalls.Sound base taken :=
  h.setCalls (h.calls.expireDue b.clock) (CallTable.expireDue_waiting_subset h.calls.indexed _)

theorem Sound.rest (h : b.Sound base taken) :
    ({ b with calls := b.calls.nextDeadline.2, signal := b.signal.wait.2 } : Bus).Sound base taken :=
  ⟨h.calls.nextDeadline, h.addressed, h.device, h.backend, h.held⟩

theorem dropEnvelopes_of_callFree (h : CallFree es) (b : Bus) : b.dropEnvelopes es = b := by
  unfold Bus.dropEnvelopes
  rw [h.filterMap_call]
  rfl

theorem Sound.closeInboxes (h : b.Sound base taken) (ds : List Device) :
    (ds.foldl (fun b d => b.closeInbox d.inbox) b).Sound base taken := by
  induction ds generalizing b with
  | nil => exact h
  | cons d ds ih => exact ih (h.closeInbox d.inbox)

/-- At the end no command, and no call in the table, is left. -/
theorem Sound.finish (h : b.Sound base []) :
    b.finish.Sound base [] ∧ b.finish.commands = { closed := true } ∧
      b.finish.calls.pending.waiting = [] := by
  have hinboxes := h.closeInboxes b.devices.list
  set b₁ := b.devices.list.foldl (fun b d => b.closeInbox d.inbox) b
  set b₂ : Bus :=
    { b₁ with devices := {}, commands := b₁.commands.close, backend := b₁.backend.close }
  have hclosed : b₂.Sound base [] :=
    ⟨hinboxes.calls, hinboxes.addressed, hinboxes.device, hinboxes.backend, hinboxes.held⟩
  -- of what is left in the queues only the commands carry calls
  obtain ⟨htaken, hbackend⟩ := hclosed.takeCommands.takeBackend
  have hdropped := htaken.dropEnvelopes
  rw [← dropEnvelopes_of_callFree hbackend (Bus.dropEnvelopes _ _)] at hdropped
  refine ⟨⟨hdropped.calls.abortAll, hdropped.addressed, ?_, hdropped.backend, ?_⟩, rfl, rfl⟩
  · intro call hcall
    cases hcall
  · have hheld := (callFree_append.mp hdropped.held).2
    exact callFree_append.mpr ⟨Tree.callFree_empty, hheld⟩

/-! ## The start -/

theorem sound_start (config : BusConfig) : (start config).Sound {} [] := by
  have hempty : ({ config } : Bus).Sound {} [] :=
    ⟨CallTable.sound_empty, by simp, by simp [PendingCalls.waiting], callFree_nil,
      callFree_append.mpr ⟨Tree.callFree_empty, callFree_nil⟩⟩
  exact (hempty.process (envelope_call ..)).publishDeviceList

end InstrumentBus.Bus
