import Mathlib
import InstrumentBus.Proofs.Dispatch.Alike
import InstrumentBus.Proofs.Dispatch.Mirror

/-!
# The dispatcher sleeps on empty queues only

Both queues of the dispatcher share one signal, which remembers that it was notified, but neither how
often nor for which queue. A round takes what is in the queue of the backends and then what is in the
queue of the commands, and more may come in at any time: between the two, while envelopes are
handled, or just before the wait. `Bus.Notified` says of two buses, one after the other, that
whatever came into a queue left a notification behind. So at each place in the round, a notification
is remembered or the queues that are taken no more before the wait are empty: `Dispatcher.Alert`.
-/

namespace InstrumentBus

namespace Bus

variable {b b' b'' : Bus} {e : Envelope}

/-! ## Nothing comes in unnoticed -/

/-- Both queues and the signal are as before, or a notification is remembered. -/
def Notified (b b' : Bus) : Prop :=
  b'.signal.pending = true ∨
    b'.signal = b.signal ∧ b'.commands.items = b.commands.items ∧ b'.backend.items = b.backend.items

theorem Notified.refl (b : Bus) : b.Notified b := .inr ⟨rfl, rfl, rfl⟩

theorem Notified.trans (h : b.Notified b') (h' : b'.Notified b'') : b.Notified b'' := by
  rcases h' with hpending | ⟨hsignal, hcommands, hbackend⟩
  · exact .inl hpending
  · rcases h with hpending | ⟨hsignal', hcommands', hbackend'⟩
    · exact .inl (hsignal ▸ hpending)
    · exact .inr ⟨hsignal.trans hsignal', hcommands.trans hcommands', hbackend.trans hbackend'⟩

theorem notified_pushCommand (h : b.pushCommand? e = some b') : b.Notified b' := by
  obtain ⟨-, rfl⟩ := pushCommand?_eq_some h
  exact .inl rfl

theorem notified_pushBackend (h : b.pushBackend? e = some b') : b.Notified b' := by
  obtain ⟨backend, -, rfl⟩ := Option.map_eq_some_iff.mp h
  exact .inl rfl

/-! ## What comes from outside -/

/-- The slot that is made for a call is beside the queues. -/
theorem notified_submit (b : Bus) (e : Envelope) (timeout : Nat) (inside : Bool) :
    b.Notified (b.submit e timeout inside).2 := by
  unfold submit
  split
  · exact Notified.refl b
  split
  · exact Notified.refl b
  split
  · cases hpush : b.pushCommand? e with
    | none => exact Notified.refl b
    | some b' => exact notified_pushCommand hpush
  split
  · exact Notified.refl b
  · simp only
    split
    · rename_i b' hpush
      exact (notified_pushCommand hpush :)
    · exact .inr ⟨rfl, rfl, rfl⟩

theorem notified_send (b : Bus) (e : Envelope) : b.Notified (b.send e).2 := by
  unfold send
  split
  · exact Notified.refl b
  split
  · exact Notified.refl b
  · cases hpush : b.pushBackend? e with
    | none => exact Notified.refl b
    | some b' => exact notified_pushBackend hpush

theorem notified_requestEnd (b : Bus) : b.Notified b.requestEnd := by
  unfold requestEnd
  split
  · exact Notified.refl b
  · simp only
    cases hpush : pushCommand? { b with closed := true } _ with
    | none => exact .inr ⟨rfl, rfl, rfl⟩
    | some b' =>
      obtain ⟨-, rfl⟩ := pushCommand?_eq_some hpush
      exact .inl rfl

theorem notified_accept (b : Bus) (s : Submission) : b.Notified (b.accept s) := by
  cases s with
  | request r =>
    show b.Notified (b.acceptRequest r)
    unfold acceptRequest
    split
    · exact Notified.refl b
    · exact notified_submit b _ _ false
  | shutdown => exact notified_requestEnd b
  | command e timeout => exact notified_submit b e.bare timeout false
  | send e => exact notified_send b e.bare
  | registerDevice name =>
    show b.Notified (b.registerDevice name).2
    unfold registerDevice
    split
    · exact Notified.refl b
    · -- so is the new inbox
      exact notified_send { b with inboxes := b.inboxes ++ [({} : Queue)] } _
  | unregisterDevice name =>
    show b.Notified (b.unregisterDevice name).2
    unfold unregisterDevice
    split
    · exact Notified.refl b
    · exact notified_send b _

theorem notified_acceptLate (b : Bus) (s : Submission) : b.Notified (b.acceptLate s) := by
  unfold acceptLate
  split
  · exact notified_accept { b with closed := false } s
  · exact notified_accept b s

/-! ## What the dispatcher does -/

theorem notified_requestsInside (listener : Nat) (rs : List Request) (index : Nat) (b : Bus) :
    b.Notified (requestsInside listener index rs b) := by
  induction rs generalizing index b with
  | nil => exact Notified.refl b
  | cons r rs ih =>
    have hrequest : b.Notified (b.requestInside r).2 := by
      unfold requestInside
      split
      · exact Notified.refl b
      · exact notified_submit b _ _ true
    unfold requestsInside
    -- the note of the answer is beside the queues
    exact hrequest.trans (ih (index + 1) { (b.requestInside r).2 with audience := _ })

/-- A listener that hears an envelope may put commands into the queue of its own dispatcher. -/
theorem notified_receive (who : SubscriberId) (e : Envelope) (b : Bus) :
    b.Notified (receive who e b).2 := by
  cases who with
  | client n =>
    exact notified_requestsInside n _ 0 { b with audience := (b.audience.hear n e).2 }
  | forwarder p =>
    show b.Notified (forward p e b).2
    unfold forward
    split
    · exact .inr ⟨rfl, rfl, rfl⟩
    · exact Notified.refl b

theorem notified_deliverTo (e : Envelope) (whos : List SubscriberId) (b : Bus) :
    b.Notified (deliverTo receive e whos b).2 := by
  induction whos generalizing b with
  | nil => exact Notified.refl b
  | cons who others ih => exact (notified_receive who e b).trans (ih _)

theorem notified_deliverEach (who : SubscriberId) (es : List Envelope) (b : Bus) :
    b.Notified (deliverEach receive who es b) := by
  induction es generalizing b with
  | nil => exact Notified.refl b
  | cons e es ih => exact (notified_receive who e b).trans (ih _)

theorem notified_deliver (b : Bus) (node : NodeId) (e : Envelope) (k : DeliveryClass) :
    b.Notified (b.deliver node e k).2 :=
  notified_deliverTo e (b.tree.recipients node k e.origin) b

/-- Topics are made known, envelopes kept and calls ended beside the queues. -/
theorem notified_tree_calls (b : Bus) (tree : Tree) (calls : CallTable) :
    b.Notified { b with tree, calls } :=
  .inr ⟨rfl, rfl, rfl⟩

theorem notified_emitReturnCode (b : Bus) (t : Topic) (code : Int32) :
    b.Notified (b.emitReturnCode t code) := by
  unfold emitReturnCode
  simp only
  generalize (b.calls.complete _ _).2 = calls
  rw [nodeOf_eq]
  have hended : b.Notified (({ b with calls } : Bus).makeKnown t) :=
    notified_tree_calls b _ calls
  exact hended.trans (notified_deliver _ _ _ .returnCode)

theorem notified_publishValue (b : Bus) (node : NodeId) (e : Envelope) :
    b.Notified (b.publishValue node e).2 := by
  unfold publishValue
  cases b.validate node e with
  | error s =>
    simp only
    exact notified_emitReturnCode b e.topic s.code
  | ok e' =>
    simp only
    split
    · simp only
      exact notified_emitReturnCode b e'.topic 0
    · have hkept : b.Notified { b with tree := b.tree.setRetained node e' } :=
        notified_tree_calls b _ b.calls
      have hdeliver := hkept.trans (notified_deliver _ node e' .publish)
      generalize ({ b with tree := b.tree.setRetained node e' } : Bus).deliver node e' .publish =
        delivered at hdeliver ⊢
      obtain ⟨outcome, b'⟩ := delivered
      cases outcome with
      | none => exact hdeliver
      | some s =>
        simp only at hdeliver ⊢
        exact hdeliver.trans (notified_emitReturnCode b' e'.topic s.code)

theorem notified_publishMetadata (b : Bus) (node : NodeId) (e : Envelope) :
    b.Notified (b.publishMetadata node e).2 := by
  rw [publishMetadata_eq]
  split
  · have hkept : b.Notified { b with tree := b.tree.setMetadata node e } :=
      notified_tree_calls b _ b.calls
    exact hkept.trans (notified_deliver _ node e .metadata)
  · exact Notified.refl b

theorem notified_publishReturnCode (b : Bus) (node : NodeId) (e : Envelope) :
    b.Notified (b.publishReturnCode node e).2 := by
  unfold publishReturnCode
  simp only
  cases e.value.returnCode? with
  | none => exact notified_deliver b node e .returnCode
  | some code =>
    have hended : b.Notified { b with calls := (b.calls.complete e.topic.text ⟨code, none⟩).2 } :=
      notified_tree_calls b b.tree _
    exact hended.trans (notified_deliver _ node e .returnCode)

theorem notified_process (b : Bus) (e : Envelope) : b.Notified (b.process e).2 := by
  unfold process
  split
  · exact Notified.refl b
  rw [nodeOf_eq]
  simp only
  set node := (b.tree.makeLevels Tree.root e.topic.segments).1
  have hknown : b.Notified (b.makeKnown e.topic) := notified_tree_calls b _ b.calls
  generalize b.makeKnown e.topic = known at hknown ⊢
  refine hknown.trans ?_
  cases e.topic.suffix with
  | none => exact notified_publishValue known node e
  | some s =>
    cases s with
    | metadataRsp => exact notified_publishMetadata known node e
    | returnCode => exact notified_publishReturnCode known node e
    | metadataReq => exact notified_deliver known node e .metadataReq
    | queryReq => exact notified_deliver known node e .queryReq
    | queryRsp => exact notified_deliver known node e .queryRsp

theorem notified_startSubscription (b : Bus) (t : Topic) (s : Subscription) :
    b.Notified (b.startSubscription t s).2 := by
  unfold startSubscription
  rw [nodeOf_eq]
  simp only
  generalize (b.makeKnown t).tree.addSubscription _ s = tree
  have hadded : b.Notified { b.makeKnown t with tree } := .inr ⟨rfl, rfl, rfl⟩
  split
  · exact (hadded.trans (notified_deliverEach _ _ _)).trans (notified_deliverEach _ _ _)
  · exact hadded

/-- Whatever a deed puts into a queue is noticed. -/
theorem notified_perform (b : Bus) (d : Deed) : b.Notified (b.perform d) := by
  cases d with
  | publish e => exact notified_process b e
  | announce t code => exact notified_emitReturnCode b t code
  | enlist t s => exact notified_startSubscription b t s
  | dismiss t who =>
    show b.Notified (b.endSubscription t who).2
    unfold endSubscription
    split <;> exact .inr ⟨rfl, rfl, rfl⟩
  | dismissAll who => exact .inr ⟨rfl, rfl, rfl⟩
  | clear => exact .inr ⟨rfl, rfl, rfl⟩

theorem notified_performAll (b : Bus) (ds : List Deed) : b.Notified (b.performAll ds) := by
  induction ds generalizing b with
  | nil => exact Notified.refl b
  | cons d ds ih => exact (notified_perform b d).trans (ih _)

theorem notified_handleCommand (b : Bus) (e : Envelope) : b.Notified (b.handleCommand e) := by
  obtain ⟨calls, hhandled⟩ := handleCommand_eq b e
  obtain ⟨calls', hbus⟩ := bus_commandPlan b e
  rw [hhandled, Plan.done, hbus]
  exact notified_performAll { b with calls := calls' } _

/-- Before its deeds are done, an envelope of a backend changes devices and their inboxes only. -/
theorem notified_backendPlan (b : Bus) (e : Envelope) : b.Notified (b.backendPlan e).bus := by
  have hadd : ∀ topic p, b.Notified (b.addPlan e topic p).bus := by
    intro topic p
    unfold addPlan
    split
    · exact Notified.refl b
    · exact .inr ⟨rfl, rfl, rfl⟩
  have hremove : ∀ name, b.Notified (b.removePlan e name).bus := by
    intro name
    unfold removePlan
    split
    · exact Notified.refl b
    · exact .inr ⟨rfl, rfl, rfl⟩
  unfold backendPlan
  split
  · split
    · split
      · exact hadd _ _
      · exact Notified.refl b
    split
    · split
      · exact hremove _
      · exact Notified.refl b
    · exact Notified.refl b
  · exact Notified.refl b

theorem notified_handleBackend (h : b.tree.Rooted) (e : Envelope) :
    b.Notified (b.handleBackend e) := by
  rw [handleBackend_eq h]
  exact (notified_backendPlan b e).trans (notified_performAll _ _)

end Bus

/-! ## The places in the round -/

/-- The queue of the backends will be taken before the dispatcher waits. -/
def Phase.takesBackend : Phase → Bool
  | .awake => true
  | _ => false

/-- So will the queue of the commands. -/
def Phase.takesCommands : Phase → Bool
  | .awake | .backends _ => true
  | _ => false

namespace Dispatcher

variable {d : Dispatcher} {b' : Bus} {phase : Phase}

/-- A notification is remembered, or a queue that holds something is taken before the dispatcher
waits. -/
def Alert (d : Dispatcher) : Prop :=
  d.bus.signal.pending = true ∨
    (d.phase.takesCommands = true ∨ d.bus.commands.items = []) ∧
      (d.phase.takesBackend = true ∨ d.bus.backend.items = [])

/-- It is so after whatever is noticed, if the queues that were to be taken still are. -/
theorem Alert.of_notified (h : d.Alert) (hb : d.bus.Notified b')
    (hcommands : d.phase.takesCommands = true → phase.takesCommands = true)
    (hbackend : d.phase.takesBackend = true → phase.takesBackend = true) :
    (⟨b', phase⟩ : Dispatcher).Alert := by
  rcases hb with hpending | ⟨hsignal, hcommandsEq, hbackendEq⟩
  · exact .inl hpending
  · unfold Alert
    rw [hsignal, hcommandsEq, hbackendEq]
    exact h.imp id fun hqueues => hqueues.imp (Or.imp hcommands id) (Or.imp hbackend id)

/-- A step that is made in one place of the round. -/
theorem Alert.stay (h : d.Alert) (hb : d.bus.Notified b') : (⟨b', d.phase⟩ : Dispatcher).Alert :=
  h.of_notified hb id id

/-- Whatever the next step of the dispatcher is. -/
theorem Alert.advance (h : d.Alert) (hrooted : d.bus.tree.Rooted) : d.advance.Alert := by
  obtain ⟨b, phase⟩ := d
  cases phase with
  | awake =>
    -- the queue of the backends was emptied, that of the commands is next
    exact .inr ⟨.inl rfl, .inr rfl⟩
  | backends es =>
    cases es with
    | nil =>
      -- the queue of the commands is taken now, that of the backends was
      exact h.imp id fun hqueues => ⟨.inr rfl, hqueues.2.imp nofun id⟩
    | cons e es => exact h.of_notified (Bus.notified_handleBackend hrooted e) id id
  | commands es =>
    cases es with
    | nil => exact h.of_notified (.inr ⟨rfl, rfl, rfl⟩) id id
    | cons e es =>
      simp only [Dispatcher.advance]
      split
      · exact h.of_notified (.inr ⟨rfl, rfl, rfl⟩) id id
      · exact h.of_notified (Bus.notified_handleCommand b e) id id
  | resting =>
    -- the notification is forgotten, but the next round takes both queues
    exact .inr ⟨.inl rfl, .inl rfl⟩
  | ending => exact h.of_notified (.inr ⟨rfl, rfl, rfl⟩) id id
  | closing => exact .inr ⟨.inr rfl, .inr rfl⟩
  | ended => exact h

theorem Alert.act (h : d.Alert) (hrooted : d.bus.tree.Rooted) (a : Action) : (d.act a).Alert := by
  cases a with
  | advance => exact h.advance hrooted
  | submit s => exact h.stay (Bus.notified_accept d.bus s)
  | submitLate s => exact h.stay (Bus.notified_acceptLate d.bus s)
  | collect p => exact h.stay (.inr ⟨rfl, rfl, rfl⟩)
  | addListener l => exact h.stay (.inr ⟨rfl, rfl, rfl⟩)
  | setClock time => exact h.stay (.inr ⟨rfl, rfl, rfl⟩)

/-- It is so in every state of every run. -/
theorem run_alert (config : BusConfig) (as : List Action) : (run config as).Alert := by
  -- what the backends do needs a tree with a root, which every run has
  induction as using List.reverseRecOn with
  | nil => exact .inr ⟨.inl rfl, .inl rfl⟩
  | append_singleton as a ih =>
    rw [run_append]
    exact ih.act (run_contents config as).1 a

/-- The dispatcher has come to the end of its round, and waiting for the signal it would find no
notification. -/
def sleeps (d : Dispatcher) : Bool :=
  match d.phase with
  | .resting => !d.bus.signal.wait.1
  | _ => false

theorem sleeps_iff : d.sleeps = true ↔ d.phase = .resting ∧ d.bus.signal.wait.1 = false := by
  unfold sleeps
  cases d.phase with
  | resting => simp
  | _ => simp

/-- Whatever clients, backends and listeners put into the two queues, and whenever they do: if the
dispatcher comes to wait for the signal and finds no notification, both queues are empty. -/
theorem run_sleeps_drained (config : BusConfig) (as : List Action)
    (hsleeps : (run config as).sleeps = true) :
    (run config as).bus.commands.items = [] ∧ (run config as).bus.backend.items = [] := by
  obtain ⟨hresting, hsignal⟩ := sleeps_iff.mp hsleeps
  rcases run_alert config as with hpending | ⟨hcommands, hbackend⟩
  · exact absurd (hsignal.symm.trans hpending) Bool.false_ne_true
  · rw [hresting] at hcommands hbackend
    exact ⟨hcommands.resolve_left nofun, hbackend.resolve_left nofun⟩

/-- A backend publishes after its queue was taken and a client before the dispatcher waits; both are
noticed, and one more round is made. -/
def pushesBetween : List Action :=
  [.advance, .submit (.send (.make {} ⟨"a/b", by decide⟩ (Value.u8 1) {})), .advance, .advance,
    .submit (.request (.publish ⟨"a/c", Value.u8 2, {}, 0, 0⟩ 0)), .advance, .advance, .advance,
    .advance, .advance, .advance]

theorem sleeps_after_pushesBetween :
    (run {} pushesBetween).sleeps = true ∧
      (run {} pushesBetween).bus.commands.items = [] ∧
      (run {} pushesBetween).bus.backend.items = [] ∧
      ((run {} pushesBetween).bus.tree.find? "a/b").isSome = true ∧
      ((run {} pushesBetween).bus.tree.find? "a/c").isSome = true := by
  have hsleeps : (run {} pushesBetween).sleeps = true := by decide +kernel
  obtain ⟨hcommands, hbackend⟩ := run_sleeps_drained {} pushesBetween hsleeps
  exact ⟨hsleeps, hcommands, hbackend, by decide +kernel, by decide +kernel⟩

end Dispatcher
end InstrumentBus
