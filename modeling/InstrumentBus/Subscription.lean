/-!
Who listens to what: identities of subscribers, the classes of messages, and the flags that say
which classes a subscription takes.
-/

namespace InstrumentBus

/-- The number of the inbox in which a device receives its commands. -/
abbrev InboxId := Nat

/-- Who receives envelopes: a client's subscriber, or the one that forwards to a device's inbox. -/
inductive SubscriberId
  | client (n : Nat)
  | forwarder (inbox : InboxId)
  deriving DecidableEq, Repr

/-- What a subscription asks for. -/
structure SubscribeFlags where
  /-- Kept values and metadata are delivered when the subscription starts. -/
  retain : Bool := false
  publish : Bool := false
  metadataReq : Bool := false
  metadataRsp : Bool := false
  queryReq : Bool := false
  queryRsp : Bool := false
  returnCode : Bool := false
  deriving DecidableEq, Repr

namespace SubscribeFlags

/-- The flags of a subscription, lowest bit first. -/
def toList (f : SubscribeFlags) : List Bool :=
  [f.retain, f.publish, f.metadataReq, f.metadataRsp, f.queryReq, f.queryRsp, f.returnCode]

def bits (f : SubscribeFlags) : Nat := f.toList.foldr (fun b n => b.toNat + 2 * n) 0

/-- The flags that a number has bits for; other bits are left out. -/
def ofBits (n : Nat) : SubscribeFlags where
  retain := n.testBit 0
  publish := n.testBit 1
  metadataReq := n.testBit 2
  metadataRsp := n.testBit 3
  queryReq := n.testBit 4
  queryRsp := n.testBit 5
  returnCode := n.testBit 6

/-- What a device takes from its topics: values and both kinds of requests. -/
def forwarding : SubscribeFlags := { publish := true, metadataReq := true, queryReq := true }

end SubscribeFlags

/-- The classes in which envelopes are delivered. -/
inductive DeliveryClass
  | publish
  | metadataReq
  | metadata
  | queryReq
  | queryRsp
  | returnCode
  deriving DecidableEq, Repr

/-- A subscription at a node of the topic tree. -/
structure Subscription where
  subscriber : SubscriberId
  flags : SubscribeFlags
  deriving DecidableEq, Repr

/-- The subscription takes envelopes of a class. -/
def Subscription.accepts (s : Subscription) : DeliveryClass → Bool
  | .publish => s.flags.publish
  | .metadataReq => s.flags.metadataReq
  | .metadata => s.flags.metadataRsp
  | .queryReq => s.flags.queryReq
  | .queryRsp => s.flags.queryRsp
  | .returnCode => s.flags.returnCode

end InstrumentBus
