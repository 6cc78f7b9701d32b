import Mathlib
import InstrumentBus.Proofs.Dispatch.Alike
import InstrumentBus.Proofs.Dispatch.Ending
import InstrumentBus.Proofs.Dispatch.Forwarding

/-!
# What listeners answer does not spread

Two runs in which the same happens, but for the statuses with which listeners answer what they hear:
`Action.Alike`. After each step the two buses are alike, with all that they keep, know and have in
their queues (`Alike.advance`, `Alike.act`), and `run_statuses` says this of whole runs.
-/

namespace InstrumentBus

/-! ## Handling an envelope -/

theorem Deed.discreet_of_sparesDevices {deed : Deed} (h : deed.sparesDevices) : deed.Discreet := by
  cases deed with
  | enlist t s => exact fun _ => h
  | _ => trivial

namespace Bus

variable {b b' : Bus} {e : Envelope}

/-- No envelope of a backend lets a device take return codes. -/
theorem discreet_backendPlan (b : Bus) (e : Envelope) :
    ∀ deed ∈ (b.backendPlan e).deeds, deed.Discreet := by
  rcases deeds_backendPlan b e with hnone | ⟨first, e₁, e₂, hdeeds, hfirst, -⟩ | ⟨hdeeds, -⟩
  · rw [hnone]
    exact List.forall_mem_nil _
  · rw [hdeeds]
    refine List.forall_mem_cons.mpr ⟨?_, List.forall_mem_cons.mpr ⟨trivial,
      List.forall_mem_singleton.mpr trivial⟩⟩
    rcases hfirst with ⟨t, who, rfl⟩ | ⟨t, who, rfl⟩
    · exact fun hcodes => by cases hcodes
    · trivial
  · rw [hdeeds]
    exact List.forall_mem_singleton.mpr trivial

namespace Alike

/-- A call that the dispatcher holds may end in any way. -/
theorem resolveCall (h : b.Alike b') (call : Option PendingCall) (o o' : CallOutcome) :
    (b.resolveCall call o).Alike (b'.resolveCall call o') := by
  cases call with
  | none => exact h
  | some call => exact h.endCalls (CallTable.made_resolve ..) (CallTable.made_resolve ..)

theorem handleCommand (h : b.Alike b') (hdiscreet : b.tree.Discreet) (he : e.fromClient) :
    (b.handleCommand e).Alike (b'.handleCommand e) := by
  unfold Bus.handleCommand
  simp only
  by_cases hlocal : e.topic.isLocal
  · rw [if_pos hlocal, if_pos hlocal]
    have hdeeds : ∀ deed ∈ ({ e with call := none } : Envelope).localDeeds, deed.Discreet :=
      fun deed hdeed => Deed.discreet_of_sparesDevices (sparesDevices_localDeeds he deed hdeed).1
    have hdone := h.performAll hdiscreet hdeeds
    have hdiscreet' := hdiscreet.performAll hdeeds
    rw [← localCommand_eq, ← localCommand_eq] at hdone
    rw [← localCommand_eq] at hdiscreet'
    exact (hdone.emitReturnCode hdiscreet' _ _ _).resolveCall ..
  · rw [if_neg hlocal, if_neg hlocal]
    cases e.call with
    | none => exact h.process hdiscreet _
    | some call =>
      have hanswers : b'.deviceAnswers e.topic = b.deviceAnswers e.topic := by
        obtain ⟨calls, audience, rfl, -⟩ := h
        rfl
      simp only
      rw [hanswers]
      by_cases hdevice : b.deviceAnswers e.topic
      · rw [if_pos hdevice, if_pos hdevice]
        have hheld : ({ b with calls := b.calls.register call } : Bus).Alike
            { b' with calls := b'.calls.register call } := h.endCalls rfl rfl
        exact hheld.process hdiscreet _
      · rw [if_neg hdevice, if_neg hdevice]
        exact (h.process hdiscreet _).resolveCall ..

/-- The plans for an envelope of a backend are the same. -/
theorem backendPlan (h : b.Alike b') (e : Envelope) :
    (b'.backendPlan e).deeds = (b.backendPlan e).deeds ∧
      (b.backendPlan e).bus.Alike (b'.backendPlan e).bus := by
  obtain ⟨calls, audience, rfl, hmade, haudience⟩ := h
  have hself : b.Alike { b with calls, audience } := ⟨calls, audience, rfl, hmade, haudience⟩
  unfold Bus.backendPlan
  split
  · split
    · split
      · unfold addPlan
        simp only
        split
        · exact ⟨rfl, hself⟩
        · exact ⟨rfl, calls, audience, rfl, hmade, haudience⟩
      · exact ⟨rfl, hself⟩
    · split
      · split
        · unfold removePlan
          simp only
          split
          · exact ⟨rfl, hself⟩
          · exact ⟨rfl, calls, audience, rfl, hmade, haudience⟩
        · exact ⟨rfl, hself⟩
      · exact ⟨rfl, hself⟩
  · exact ⟨rfl, hself⟩

theorem handleBackend (h : b.Alike b') (hdiscreet : b.tree.Discreet) (e : Envelope) :
    (b.handleBackend e).Alike (b'.handleBackend e) := by
  obtain ⟨hdeeds, hbus⟩ := h.backendPlan e
  have hrooted : b'.tree.Rooted := by
    rw [h.tree_eq]
    exact hdiscreet.1
  have hplan : (b.backendPlan e).bus.tree.Discreet := by
    rw [(untold_backendPlan b e).tree_eq]
    exact hdiscreet
  rw [handleBackend_eq hdiscreet.1, handleBackend_eq hrooted]
  unfold Plan.done
  rw [hdeeds]
  exact hbus.performAll hplan (b.discreet_backendPlan e)

/-! ## Ending -/

theorem dropEnvelopes (h : b.Alike b') (es es' : List Envelope) :
    (b.dropEnvelopes es).Alike (b'.dropEnvelopes es') :=
  h.endCalls (CallTable.made_foldl_drop ..) (CallTable.made_foldl_drop ..)

theorem expireCalls (h : b.Alike b') : b.expireCalls.Alike b'.expireCalls :=
  h.endCalls (CallTable.made_expireDue ..) (CallTable.made_expireDue ..)

/-- A change of what is the same on both buses, which does not look at anything else. -/
theorem map (h : b.Alike b') {f : Bus → Bus}
    (hf : ∀ b calls audience, f { b with calls, audience } = { f b with calls, audience }) :
    (f b).Alike (f b') := by
  obtain ⟨calls, audience, rfl, hmade, haudience⟩ := h
  have hself : f b = { f b with calls := b.calls, audience := b.audience } := hf b b.calls b.audience
  refine ⟨calls, audience, hf b calls audience, ?_, ?_⟩
  · rw [hself]
    exact hmade
  · rw [hself]
    exact haudience

/-- What does not look at anything else is the same on both buses. -/
theorem congr {α : Type} (h : b.Alike b') {f : Bus → α}
    (hf : ∀ b calls audience, f { b with calls, audience } = f b) : f b' = f b := by
  obtain ⟨calls, audience, rfl, -⟩ := h
  exact hf b calls audience

theorem closeInboxes (h : b.Alike b') (ds : List Device) :
    (ds.foldl (fun b d => b.closeInbox d.inbox) b).Alike
      (ds.foldl (fun b d => b.closeInbox d.inbox) b') := by
  induction ds generalizing b b' with
  | nil => exact h
  | cons d ds ih => exact ih (h.map (f := fun b => b.closeInbox d.inbox) fun _ _ _ => rfl)

theorem takeCommands (h : b.Alike b') :
    b'.takeCommands.1 = b.takeCommands.1 ∧ b.takeCommands.2.Alike b'.takeCommands.2 :=
  ⟨h.congr (f := fun b => b.takeCommands.1) fun _ _ _ => rfl,
    h.map (f := fun b => b.takeCommands.2) fun _ _ _ => rfl⟩

theorem takeBackend (h : b.Alike b') :
    b'.takeBackend.1 = b.takeBackend.1 ∧ b.takeBackend.2.Alike b'.takeBackend.2 :=
  ⟨h.congr (f := fun b => b.takeBackend.1) fun _ _ _ => rfl,
    h.map (f := fun b => b.takeBackend.2) fun _ _ _ => rfl⟩

end Alike

/-- What is left of a bus at its end, but for the calls. -/
def emptied (b : Bus) : Bus :=
  { b.devices.list.foldl (fun b d => b.closeInbox d.inbox) b with
    devices := {}
    commands := { closed := true }
    backend := { closed := true }
    tree := {}
    poolClosed := true
    finished := true }

theorem finish_eq (b : Bus) : ∃ calls, b.finish = { b.emptied with calls } ∧
    calls.made = b.emptied.calls.made := by
  obtain ⟨inboxes, hinboxes⟩ := closeInboxes_eq b.devices.list b
  unfold finish emptied
  rw [hinboxes]
  refine ⟨_, rfl, ?_⟩
  rw [CallTable.made_abortAll]
  exact (CallTable.made_foldl_drop ..).trans (CallTable.made_foldl_drop ..)

theorem Alike.finish (h : b.Alike b') : b.finish.Alike b'.finish := by
  have hdevices : b'.devices = b.devices := h.congr fun _ _ _ => rfl
  have hemptied : b.emptied.Alike b'.emptied := by
    unfold emptied
    rw [hdevices]
    exact (h.closeInboxes b.devices.list).map (f := fun b => { b with
      devices := {}, commands := { closed := true }, backend := { closed := true }, tree := {}
      poolClosed := true, finished := true }) fun _ _ _ => rfl
  obtain ⟨calls, hcalls, hmade⟩ := b.finish_eq
  obtain ⟨calls', hcalls', hmade'⟩ := b'.finish_eq
  rw [hcalls, hcalls']
  exact hemptied.endCalls hmade hmade'

/-! ## What comes in -/

namespace Alike

theorem pushCommand? (h : b.Alike b') (e : Envelope) :
    Option.Rel Bus.Alike (b.pushCommand? e) (b'.pushCommand? e) := by
  have hcommands : b'.commands = b.commands := h.congr fun _ _ _ => rfl
  unfold Bus.pushCommand?
  rw [hcommands]
  cases b.commands.push? e with
  | none => exact .none
  | some commands =>
    exact .some (h.map (f := fun b => { b with commands, signal := b.signal.notify }) fun _ _ _ => rfl)

theorem pushBackend? (h : b.Alike b') (e : Envelope) :
    Option.Rel Bus.Alike (b.pushBackend? e) (b'.pushBackend? e) := by
  have hbackend : b'.backend = b.backend := h.congr fun _ _ _ => rfl
  unfold Bus.pushBackend?
  rw [hbackend]
  cases b.backend.push? e with
  | none => exact .none
  | some backend =>
    exact .some (h.map (f := fun b => { b with backend, signal := b.signal.notify }) fun _ _ _ => rfl)

theorem submit (h : b.Alike b') (e : Envelope) (timeout : Nat) (inside : Bool) :
    (b.submit e timeout inside).2.Alike (b'.submit e timeout inside).2 := by
  obtain ⟨calls, audience, rfl, hmade, haudience⟩ := h
  have hself : b.Alike { b with calls, audience } := ⟨calls, audience, rfl, hmade, haudience⟩
  have hcheck : ({ b with calls, audience } : Bus).checkPayload e = b.checkPayload e := rfl
  unfold Bus.submit
  rw [hcheck]
  simp only
  by_cases hclosed : b.closed
  · rw [if_pos hclosed, if_pos hclosed]
    exact hself
  rw [if_neg hclosed, if_neg hclosed]
  cases b.checkPayload e with
  | error f => exact hself
  | ok _ =>
    simp only
    by_cases htimeout : timeout = 0
    · rw [if_pos htimeout, if_pos htimeout]
      have hpush := hself.pushCommand? e
      generalize b.pushCommand? e = pushed at hpush ⊢
      generalize Bus.pushCommand? { b with calls, audience } e = pushed' at hpush ⊢
      cases hpush with
      | none => exact hself
      | some hpushed => exact hpushed
    rw [if_neg htimeout, if_neg htimeout]
    by_cases hinside : inside
    · rw [if_pos hinside, if_pos hinside]
      exact hself
    rw [if_neg hinside, if_neg hinside]
    -- the call that goes along is the same, as calls are told apart by their number
    obtain ⟨hcall, hcreated⟩ := CallTable.create_of_made_eq hmade
      (e.topic.withSuffix .returnCode).text (b.clock + timeout)
    rw [hcall]
    generalize b.calls.create _ _ = created at hcreated ⊢
    generalize calls.create _ _ = created' at hcreated ⊢
    have hpush := (hself.setCalls hcreated).pushCommand? { e with call := some created.1 }
    simp only at hpush
    generalize Bus.pushCommand? { b with calls := created.2 } _ = pushed at hpush ⊢
    generalize Bus.pushCommand? { b with calls := created'.2, audience } _ = pushed' at hpush ⊢
    cases hpush with
    | none =>
      refine hself.setCalls ?_
      rw [CallTable.drop, CallTable.drop, CallTable.made_resolve, CallTable.made_resolve, hcreated]
    | some hpushed => exact hpushed

theorem send (h : b.Alike b') (e : Envelope) : (b.send e).2.Alike (b'.send e).2 := by
  have hclosed : b'.closed = b.closed := h.congr fun _ _ _ => rfl
  have hcheck : b'.checkPayload e = b.checkPayload e :=
    h.congr (f := fun b => b.checkPayload e) fun _ _ _ => rfl
  unfold Bus.send
  rw [hclosed, hcheck]
  split
  · exact h
  split
  · exact h
  · have hpush := h.pushBackend? e
    generalize b.pushBackend? e = pushed at hpush ⊢
    generalize b'.pushBackend? e = pushed' at hpush ⊢
    cases hpush with
    | none => exact h
    | some hpushed => exact hpushed

/-- A request becomes the same envelope. -/
theorem envelopeOf_eq (h : b.Alike b') (r : Request) : b'.envelopeOf r = b.envelopeOf r := by
  obtain ⟨calls, audience, rfl, -, haudience⟩ := h
  cases r with
  | publish p timeout | query topic timeout | queryInto topic capacity timeout | shutdown => rfl
  | subscribe topic listener flags timeout | unsubscribe topic listener timeout
  | unsubscribeAll listener timeout =>
    simp only [envelopeOf, haudience.identity_eq]
    rfl

theorem requestEnd (h : b.Alike b') : b.requestEnd.Alike b'.requestEnd := by
  obtain ⟨calls, audience, rfl, hmade, haudience⟩ := h
  have hself : b.Alike { b with calls, audience } := ⟨calls, audience, rfl, hmade, haudience⟩
  have hclosing := hself.map (f := fun b => { b with closed := true }) fun _ _ _ => rfl
  have hpush := hclosing.pushCommand? (b.envelope .finalize Value.null {})
  unfold Bus.requestEnd
  simp only
  by_cases hclosed : b.closed
  · rw [if_pos hclosed, if_pos hclosed]
    exact hself
  · rw [if_neg hclosed, if_neg hclosed]
    have henvelope : ∀ calls audience, ({ b with calls, audience, closed := true } : Bus).envelope
        .finalize Value.null {} = b.envelope .finalize Value.null {} := fun _ _ => rfl
    rw [henvelope b.calls b.audience, henvelope calls audience]
    generalize Bus.pushCommand? { b with closed := true } _ = pushed at hpush ⊢
    generalize Bus.pushCommand? { b with calls, audience, closed := true } _ = pushed' at hpush ⊢
    cases hpush with
    | none => exact hclosing
    | some hpushed => exact hpushed

theorem accept (h : b.Alike b') (s : Submission) : (b.accept s).Alike (b'.accept s) := by
  cases s with
  | request r =>
    show (b.acceptRequest r).Alike (b'.acceptRequest r)
    unfold acceptRequest
    rw [h.envelopeOf_eq]
    split
    · exact h
    · exact h.submit ..
  | shutdown => exact h.requestEnd
  | command e timeout => exact h.submit e.bare timeout false
  | send e => exact h.send e.bare
  | registerDevice name =>
    show (b.registerDevice name).2.Alike (b'.registerDevice name).2
    unfold registerDevice
    split
    · exact h
    · obtain ⟨calls, audience, rfl, hmade, haudience⟩ := h
      have hself : b.Alike { b with calls, audience } := ⟨calls, audience, rfl, hmade, haudience⟩
      exact (hself.map (f := fun b => { b with inboxes := b.inboxes ++ [{}] }) fun _ _ _ => rfl).send _
  | unregisterDevice name =>
    show (b.unregisterDevice name).2.Alike (b'.unregisterDevice name).2
    unfold unregisterDevice
    split
    · exact h
    · obtain ⟨calls, audience, rfl, hmade, haudience⟩ := h
      have hself : b.Alike { b with calls, audience } := ⟨calls, audience, rfl, hmade, haudience⟩
      exact hself.send _

theorem acceptLate (h : b.Alike b') (s : Submission) : (b.acceptLate s).Alike (b'.acceptLate s) := by
  have hclosed : b'.closed = b.closed := h.congr fun _ _ _ => rfl
  have hopen := (h.map (f := fun b => { b with closed := false }) fun _ _ _ => rfl).accept s
  unfold Bus.acceptLate
  rw [hclosed]
  split
  · exact hopen.map (f := fun b => { b with closed := true }) fun _ _ _ => rfl
  · exact h.accept s

theorem addListener (h : b.Alike b') {l l' : Listener} (hname : l'.name = l.name) (hl : l.Silent)
    (hl' : l'.Silent) : ({ b with audience := b.audience.add l } : Bus).Alike
      { b' with audience := b'.audience.add l' } := by
  obtain ⟨calls, audience, rfl, hmade, haudience⟩ := h
  exact ⟨calls, audience.add l', rfl, hmade, haudience.add hname hl hl'⟩

end Alike

end Bus

/-! ## Runs -/

/-- The same happens, but what a new listener answers may differ. It makes no requests. -/
inductive Action.Alike : Action → Action → Prop
  | refl (a : Action) (ha : ∀ l, a ≠ .addListener l) : Alike a a
  | addListener {l l' : Listener} (name_eq : l'.name = l.name) (silent : l.Silent)
      (silent' : l'.Silent) : Alike (.addListener l) (.addListener l')

namespace Dispatcher

variable {d d' : Dispatcher}

/-- The dispatchers are at one place of their rounds, on buses that are alike. -/
structure Alike (d d' : Dispatcher) : Prop where
  bus : d.bus.Alike d'.bus
  phase_eq : d'.phase = d.phase

theorem alike_of_bus {b b' : Bus} (h : b.Alike b') (phase : Phase) :
    (⟨b, phase⟩ : Dispatcher).Alike ⟨b', phase⟩ := ⟨h, rfl⟩

theorem Alike.advance (h : d.Alike d') (hdiscreet : d.bus.tree.Discreet)
    (hclients : ∀ e ∈ d.phase.commandsLeft, e.fromClient) : d.advance.Alike d'.advance := by
  obtain ⟨b, phase⟩ := d
  obtain ⟨b', phase'⟩ := d'
  obtain ⟨hbus, hphase⟩ := h
  obtain rfl : phase' = phase := hphase
  cases phase' with
  | awake =>
    obtain ⟨hes, htaken⟩ := hbus.takeBackend
    exact ⟨htaken, congrArg Phase.backends hes⟩
  | backends es =>
    cases es with
    | nil =>
      obtain ⟨hes, htaken⟩ := hbus.takeCommands
      exact ⟨htaken, congrArg Phase.commands hes⟩
    | cons e es => exact alike_of_bus (hbus.handleBackend hdiscreet e) _
  | commands es =>
    cases es with
    | nil => exact alike_of_bus hbus.expireCalls _
    | cons e es =>
      simp only [Dispatcher.advance]
      by_cases hfinalize : e.topic = .finalize
      · rw [if_pos hfinalize, if_pos hfinalize]
        exact alike_of_bus (hbus.dropEnvelopes ..) _
      · rw [if_neg hfinalize, if_neg hfinalize]
        exact alike_of_bus (hbus.handleCommand hdiscreet (hclients e List.mem_cons_self)) _
  | resting =>
    have hrested := hbus.map (f := fun b => { b with signal := b.signal.wait.2 }) fun _ _ _ => rfl
    exact alike_of_bus (hrested.endCalls (CallTable.made_nextDeadline b.calls)
      (CallTable.made_nextDeadline b'.calls)) _
  | ending => exact alike_of_bus hbus.expireCalls _
  | closing => exact alike_of_bus hbus.finish _
  | ended => exact alike_of_bus hbus _

theorem Alike.act {a a' : Action} (h : d.Alike d') (ha : a.Alike a') (hdiscreet : d.bus.tree.Discreet)
    (hclients : ∀ e ∈ d.phase.commandsLeft, e.fromClient) : (d.act a).Alike (d'.act a') := by
  cases ha with
  | addListener name_eq silent silent' => exact ⟨h.bus.addListener name_eq silent silent', h.phase_eq⟩
  | refl _ ha =>
    cases a with
    | advance => exact h.advance hdiscreet hclients
    | submit s => exact ⟨h.bus.accept s, h.phase_eq⟩
    | submitLate s => exact ⟨h.bus.acceptLate s, h.phase_eq⟩
    | collect p =>
      exact ⟨h.bus.map (f := fun b => b.setInbox p (b.inbox p).pop.2) fun _ _ _ => rfl, h.phase_eq⟩
    | addListener l => exact absurd rfl (ha l)
    | setClock time =>
      exact ⟨h.bus.map (f := fun b => { b with clock := time }) fun _ _ _ => rfl, h.phase_eq⟩

/-- In every state of every run, nobody but listeners takes return codes. -/
theorem run_discreet (config : BusConfig) (as : List Action) : (run config as).bus.tree.Discreet := by
  refine ⟨(run_contents config as).1, _, run_enrolled config as, fun n hn hcodes => ?_⟩
  by_contra hdevice
  -- who is no listener is the forwarder of a device, which does not take them
  have hforwarder : n ∈ (Roster.of (history config as)).forwarders :=
    List.mem_filter.mpr ⟨hn, by simpa using hdevice⟩
  rw [(run_registered config as).forwarders] at hforwarder
  obtain ⟨device, -, rfl⟩ := List.mem_map.mp hforwarder
  cases hcodes

theorem alike_runFrom {config : BusConfig} (as : List Action) {bs bs' : List Action}
    (h : (run config as).Alike d') (hbs : List.Forall₂ Action.Alike bs bs') :
    ((run config as).runFrom bs).Alike (d'.runFrom bs') := by
  induction hbs generalizing as d' with
  | nil =>
    unfold runFrom
    rw [List.foldl_nil, List.foldl_nil]
    exact h
  | @cons a a' bs bs' ha hbs ih =>
    have hclients : ∀ e ∈ (run config as).phase.commandsLeft, e.fromClient := fun e he =>
      (run_registered config as).clients e (List.mem_append_left _ he)
    have hact := h.act ha (run_discreet config as) hclients
    have happend : (run config as).act a = run config (as ++ [a]) := (run_append config as [a]).symm
    rw [happend] at hact
    have hrest := ih (as ++ [a]) hact
    rw [← happend] at hrest
    exact hrest

/-- At the start there are no listeners. -/
theorem listeners_start (config : BusConfig) : (Bus.start config).audience.listeners = [] := by
  obtain ⟨posts, hposted⟩ :=
    Bus.exists_posted_performAll (b := { config }) Tree.rooted_empty (opening config)
  have hlength := hposted.listeners_eq
  rw [← start_eq] at hlength
  exact List.length_eq_zero_iff.mp hlength

/-- Two runs in which the same happens, while listeners make no requests and may answer what they hear
by any statuses. After each step the dispatchers are at one place with the same envelopes in their
hands, and the buses are the same but for calls and listeners: the trees with their nodes in the order
of their creation, all values and metadata that are kept and all subscriptions, the devices, and the
queues and inboxes with all that lies in them. Listeners were told the same in the same order, but for
return codes, and so was each of them. -/
theorem run_statuses (config : BusConfig) {as as' : List Action}
    (h : List.Forall₂ Action.Alike as as') (n : Nat) :
    let d := run config (as.take n)
    let d' := run config (as'.take n)
    d'.phase = d.phase ∧
    d'.bus = { d.bus with calls := d'.bus.calls, audience := d'.bus.audience } ∧
    d'.bus.audience.apartFromCodes = d.bus.audience.apartFromCodes ∧
    ∀ l, (d'.bus.audience.heardBy l).filter (!·.isReturnCode) =
      (d.bus.audience.heardBy l).filter (!·.isReturnCode) := by
  intro d d'
  have hsilent : (Bus.start config).audience.Silent := by
    unfold Audience.Silent
    rw [listeners_start]
    exact List.forall_mem_nil _
  have hstart := alike_of_bus (Bus.Alike.refl hsilent) .awake
  have halike : d.Alike d' := alike_runFrom [] hstart (List.forall₂_take n h)
  have hphase := halike.phase_eq
  obtain ⟨calls, audience, hbus, -, haudience⟩ := halike.bus
  rw [hbus]
  refine ⟨hphase, rfl, haudience.record_eq, fun l => ?_⟩
  rw [Audience.filter_heardBy, Audience.filter_heardBy, haudience.record_eq]
  rfl

/-! ### A listener that refuses -/

/-- A listener that answers everything by one status. -/
def answering (status : Option StatusCode) : Listener :=
  ⟨"listener", .internal, fun _ => ⟨status, []⟩, 0⟩

/-- It listens to a value and to return codes, and a client sets the value and waits. -/
def setHeard (status : Option StatusCode) : List Action :=
  [.addListener (answering status),
    .submit (.request (.subscribe "a" "listener" { publish := true, returnCode := true } 0)),
    .submit (.request (.publish ⟨"a/x", Value.u8 1, .retained, 0, 0⟩ 400)),
    .advance, .advance, .advance, .advance]

theorem alike_setHeard (status status' : Option StatusCode) :
    List.Forall₂ Action.Alike (setHeard status) (setHeard status') := by
  refine .cons (.addListener rfl (fun _ => rfl) fun _ => rfl) ?_
  refine List.forall₂_same.mpr fun a ha => .refl a fun l hl => ?_
  rw [hl] at ha
  simp at ha

/-- The client is told of a refusal, but the value is kept and heard all the same. -/
theorem refusal_apart :
    (run {} (setHeard (some .busy))).outcome? 0 = some (.ofStatus .busy) ∧
      (run {} (setHeard none)).outcome? 0 = some ⟨0, none⟩ ∧
      (run {} (setHeard (some .busy))).bus.tree = (run {} (setHeard none)).bus.tree ∧
      ((run {} (setHeard (some .busy))).bus.audience.heardBy 0).filter (!·.isReturnCode) =
        ((run {} (setHeard none)).bus.audience.heardBy 0).filter (!·.isReturnCode) := by
  have hstatuses := run_statuses {} (alike_setHeard none (some .busy)) 7
  have htake : ∀ status, (setHeard status).take 7 = setHeard status := fun _ => rfl
  simp only [htake] at hstatuses
  obtain ⟨-, hbus, -, hheard⟩ := hstatuses
  refine ⟨by decide +kernel, by decide +kernel, ?_, hheard 0⟩
  rw [hbus]

end Dispatcher
end InstrumentBus
