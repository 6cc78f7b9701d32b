import Mathlib
import InstrumentBus.Bus.Dispatch
import InstrumentBus.Proofs.Dispatch.CallFree

/-!
# What delivery leaves alone

Delivering an envelope calls listeners, which make requests of their own, and fills the inboxes of
devices; publishing makes nodes and puts envelopes into them. `Bus.Quiet` is all that these have in
common: the waiting calls, the devices, the queue of backends and the clock are as before, commands
were only added, and no call went along with any of them or to anywhere else.

`quiet_deliver`, `quiet_nodeOf` and `quiet_localCommand` are the ways to come by it.
-/

namespace InstrumentBus.Bus

/-- All envelopes outside of the queues of the dispatcher. -/
def held (b : Bus) : List Envelope := b.tree.kept ++ b.inboxes.flatMap Queue.items

/-- The second bus comes from the first without a word about calls. -/
structure Quiet (b b' : Bus) : Prop where
  calls_eq : b'.calls = b.calls
  backend_eq : b'.backend = b.backend
  devices_eq : b'.devices = b.devices
  clock_eq : b'.clock = b.clock
  closed_eq : b'.closed = b.closed
  finished_eq : b'.finished = b.finished
  /-- Commands were added to a queue that is as open as it was. -/
  commands_eq : ∃ es, CallFree es ∧
    b'.commands = { b.commands with items := b.commands.items ++ es }
  held_callFree : CallFree b.held → CallFree b'.held

variable {b b' b'' : Bus}

theorem Quiet.refl (b : Bus) : b.Quiet b :=
  ⟨rfl, rfl, rfl, rfl, rfl, rfl, ⟨[], callFree_nil, by rw [List.append_nil]⟩, id⟩

theorem Quiet.trans (h : b.Quiet b') (h' : b'.Quiet b'') : b.Quiet b'' where
  calls_eq := h'.calls_eq.trans h.calls_eq
  backend_eq := h'.backend_eq.trans h.backend_eq
  devices_eq := h'.devices_eq.trans h.devices_eq
  clock_eq := h'.clock_eq.trans h.clock_eq
  closed_eq := h'.closed_eq.trans h.closed_eq
  finished_eq := h'.finished_eq.trans h.finished_eq
  commands_eq := by
    obtain ⟨es, hes, hcommands⟩ := h.commands_eq
    obtain ⟨es', hes', hcommands'⟩ := h'.commands_eq
    refine ⟨es ++ es', callFree_append.mpr ⟨hes, hes'⟩, ?_⟩
    rw [hcommands', hcommands, List.append_assoc]
  held_callFree := h'.held_callFree ∘ h.held_callFree

/-- What is quiet does not look at the calls. -/
theorem Quiet.setCalls (h : b.Quiet b') (calls : CallTable) :
    ({ b with calls } : Bus).Quiet { b' with calls } :=
  ⟨rfl, h.backend_eq, h.devices_eq, h.clock_eq, h.closed_eq, h.finished_eq, h.commands_eq,
    h.held_callFree⟩

theorem quiet_audience (b : Bus) (audience : Audience) : b.Quiet { b with audience } :=
  ⟨rfl, rfl, rfl, rfl, rfl, rfl, ⟨[], callFree_nil, by rw [List.append_nil]⟩, id⟩

theorem quiet_tree (tree : Tree) (h : CallFree b.tree.kept → CallFree tree.kept) :
    b.Quiet { b with tree } :=
  ⟨rfl, rfl, rfl, rfl, rfl, rfl, ⟨[], callFree_nil, by rw [List.append_nil]⟩, fun hheld =>
    callFree_append.mpr ⟨h (callFree_append.mp hheld).1, (callFree_append.mp hheld).2⟩⟩

/-! ## Requests of listeners -/

theorem pushCommand?_eq_some {e : Envelope} (h : b.pushCommand? e = some b') :
    b.commands.closed = false ∧
      b' = { b with
        commands := { b.commands with items := b.commands.items ++ [e] }
        signal := b.signal.notify } := by
  obtain ⟨commands, hpush, rfl⟩ := Option.map_eq_some_iff.mp h
  obtain ⟨hopen, rfl⟩ := Queue.push?_eq_some hpush
  exact ⟨hopen, rfl⟩

theorem quiet_pushCommand {e : Envelope} (h : b.pushCommand? e = some b') (he : e.call = none) :
    b.Quiet b' := by
  obtain ⟨-, rfl⟩ := pushCommand?_eq_some h
  exact ⟨rfl, rfl, rfl, rfl, rfl, rfl, ⟨[e], callFree_cons.mpr ⟨he, callFree_nil⟩, rfl⟩, id⟩

/-- The dispatcher itself never gets to wait for an answer. -/
theorem quiet_submit_inside (b : Bus) {e : Envelope} (he : e.call = none) (timeout : Nat) :
    b.Quiet (b.submit e timeout true).2 := by
  unfold submit
  split
  · exact Quiet.refl b
  · split
    · exact Quiet.refl b
    · split
      · cases hpush : b.pushCommand? e with
        | none => exact Quiet.refl b
        | some b' => exact quiet_pushCommand hpush he
      · -- waiting inside is refused before a slot is made
        exact Quiet.refl b

theorem quiet_requestInside (b : Bus) (r : Request) : b.Quiet (b.requestInside r).2 := by
  unfold requestInside
  split
  · exact Quiet.refl b
  · rename_i e timeout hr
    exact quiet_submit_inside b (envelopeOf_call hr) timeout

theorem quiet_requestsInside (listener : Nat) (rs : List Request) (index : Nat) (b : Bus) :
    b.Quiet (requestsInside listener index rs b) := by
  induction rs generalizing index b with
  | nil => exact Quiet.refl b
  | cons r rs ih =>
    unfold requestsInside
    exact ((quiet_requestInside b r).trans (quiet_audience _ _)).trans (ih _ _)

/-! ## Delivery -/

theorem callFree_flatMap_set {inboxes : List Queue} (h : CallFree (inboxes.flatMap Queue.items))
    (p : InboxId) {q : Queue} (hq : CallFree q.items) :
    CallFree ((inboxes.set p q).flatMap Queue.items) := by
  intro e he
  obtain ⟨q', hq', he⟩ := List.mem_flatMap.mp he
  rcases List.mem_or_eq_of_mem_set hq' with hmem | heq
  · exact h e (List.mem_flatMap.mpr ⟨q', hmem, he⟩)
  · rw [heq] at he
    exact hq e he

theorem callFree_inbox (h : CallFree b.held) (p : InboxId) : CallFree (b.inbox p).items := by
  unfold inbox
  cases hp : b.inboxes[p]? with
  | none => exact callFree_nil
  | some q =>
    intro e he
    exact h e (List.mem_append_right _ (List.mem_flatMap.mpr ⟨q, List.mem_of_getElem? hp, he⟩))

theorem callFree_held_setInbox (h : CallFree b.held) (p : InboxId) {q : Queue}
    (hq : CallFree q.items) : CallFree (b.setInbox p q).held :=
  callFree_append.mpr ⟨(callFree_append.mp h).1, callFree_flatMap_set (callFree_append.mp h).2 p hq⟩

/-- What goes into the inbox of a device is a copy. -/
theorem quiet_forward (p : InboxId) (e : Envelope) (b : Bus) : b.Quiet (forward p e b).2 := by
  unfold forward
  cases hpush : (b.inbox p).push? e.clone with
  | none => exact Quiet.refl b
  | some q =>
    refine ⟨rfl, rfl, rfl, rfl, rfl, rfl, ⟨[], callFree_nil, by rw [List.append_nil]; rfl⟩, ?_⟩
    intro hheld
    exact callFree_held_setInbox hheld p ((callFree_inbox hheld p).push e.clone_call hpush)

theorem quiet_receive (who : SubscriberId) (e : Envelope) (b : Bus) :
    b.Quiet (receive who e b).2 := by
  cases who with
  | client n => exact (quiet_audience b _).trans (quiet_requestsInside _ _ _ _)
  | forwarder p => exact quiet_forward p e b

theorem quiet_deliverTo (e : Envelope) (whos : List SubscriberId) (b : Bus) :
    b.Quiet (deliverTo receive e whos b).2 := by
  induction whos generalizing b with
  | nil => exact Quiet.refl b
  | cons who others ih => exact (quiet_receive who e b).trans (ih _)

theorem quiet_deliverEach (who : SubscriberId) (es : List Envelope) (b : Bus) :
    b.Quiet (deliverEach receive who es b) := by
  induction es generalizing b with
  | nil => exact Quiet.refl b
  | cons e es ih => exact (quiet_receive who e b).trans (ih _)

theorem quiet_deliver (b : Bus) (node : NodeId) (e : Envelope) (c : DeliveryClass) :
    b.Quiet (b.deliver node e c).2 := quiet_deliverTo e _ b

/-! ## The tree and local commands -/

theorem quiet_nodeOf {t : Topic} {node : NodeId} (h : b.nodeOf t = .ok (node, b')) : b.Quiet b' := by
  obtain ⟨⟨found, tree⟩, htree, heq⟩ := map_eq_ok_iff.mp h
  cases heq
  obtain ⟨topic, -, hlevels⟩ := map_eq_ok_iff.mp htree
  refine quiet_tree _ fun hkept => ?_
  rw [show tree = _ from (congrArg (·.2) hlevels).symm]
  exact Tree.callFree_makeLevels _ hkept _

theorem quiet_startSubscription (b : Bus) (t : Topic) (s : Subscription) :
    b.Quiet (b.startSubscription t s).2 := by
  unfold startSubscription
  split
  · exact Quiet.refl b
  · rename_i node b' hnode
    have hadded : b.Quiet { b' with tree := b'.tree.addSubscription node s } :=
      (quiet_nodeOf hnode).trans (quiet_tree _ fun h => Tree.callFree_addSubscription h node s)
    simp only
    split
    · exact (hadded.trans (quiet_deliverEach _ _ _)).trans (quiet_deliverEach _ _ _)
    · exact hadded

theorem quiet_endSubscription (b : Bus) (t : Topic) (who : SubscriberId) :
    b.Quiet (b.endSubscription t who).2 := by
  unfold endSubscription
  split
  · exact Quiet.refl b
  · rename_i node _
    exact quiet_tree _ fun h => Tree.callFree_remove h node who

theorem quiet_localCommand (b : Bus) (e : Envelope) : b.Quiet (b.localCommand e).2 := by
  unfold localCommand
  simp only
  split
  · split
    · simp only
      exact quiet_startSubscription b _ _
    · exact Quiet.refl b
  split
  · split
    · simp only
      exact quiet_endSubscription b _ _
    · exact Quiet.refl b
  split
  · split
    · exact quiet_tree _ fun h => Tree.callFree_removeAt _ h _
    · exact Quiet.refl b
  split
  · split
    · split <;> exact Quiet.refl b
    · exact Quiet.refl b
  · exact Quiet.refl b

end InstrumentBus.Bus
