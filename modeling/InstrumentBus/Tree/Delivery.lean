import InstrumentBus.Tree.Basic

/-!
Who receives an envelope that reaches a node, and what a new subscription is told first.

An envelope goes to the subscriptions at its node and then, level by level, at the nodes above. Each
of them receives it, whatever the others answer; the first error answered is the result.
-/

namespace InstrumentBus

namespace Tree

/-- The subscribers that an envelope of a class goes to, in the order in which they receive it. A
subscription by the sender is left out. -/
def recipients (t : Tree) (id : NodeId) (c : DeliveryClass) (origin : Option SubscriberId) :
    List SubscriberId :=
  ((t.ancestors id).flatMap t.subscriptions).filterMap fun s =>
    if s.accepts c && some s.subscriber != origin then some s.subscriber else none

/-- The envelopes kept at and below a node that a subscription is told of: metadata before
values. -/
def replayed (t : Tree) (id : NodeId) (flags : SubscribeFlags) : List Envelope :=
  if flags.retain then
    (t.subtree id).flatMap fun n =>
      (if flags.metadataRsp then (t.metadata? n).toList else [])
        ++ (if flags.publish then (t.value? n).toList else [])
  else []

end Tree

/-- What a receiver does with an envelope: it may fail, and it changes the state it lives in. -/
abbrev Receive (σ : Type) := SubscriberId → Envelope → σ → Option StatusCode × σ

/-- Gives an envelope to several subscribers in turn; the result is the first error. -/
def deliverTo {σ : Type} (receive : Receive σ) (e : Envelope) :
    List SubscriberId → σ → Option StatusCode × σ
  | [], s => (none, s)
  | who :: others, s =>
    let (error, s) := receive who e s
    let (later, s) := deliverTo receive e others s
    (error.or later, s)

/-- Gives several envelopes to one subscriber; what it answers has no effect. -/
def deliverEach {σ : Type} (receive : Receive σ) (who : SubscriberId) (es : List Envelope) (s : σ) :
    σ :=
  es.foldl (fun s e => (receive who e s).2) s

/-- Delivers an envelope that has reached a node. -/
def Tree.deliver {σ : Type} (receive : Receive σ) (t : Tree) (id : NodeId) (e : Envelope)
    (c : DeliveryClass) (s : σ) : Option StatusCode × σ :=
  deliverTo receive e (t.recipients id c e.origin) s

/-- Tells a new subscription at a node what is kept there and below. -/
def Tree.replay {σ : Type} (receive : Receive σ) (t : Tree) (id : NodeId) (sub : Subscription)
    (s : σ) : σ :=
  deliverEach receive sub.subscriber (t.replayed id sub.flags) s

end InstrumentBus
