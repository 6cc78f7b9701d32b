import InstrumentBus.Bus.Client
import InstrumentBus.Metadata.Validation

/-!
What the dispatcher does with one envelope.

`Bus.process` publishes an envelope by the suffix of its topic. A plain value is checked by the
metadata of its topic, dropped if it equals the value kept there, else kept and delivered. Commands
of clients are answered here, or by the device that a topic belongs to; envelopes of backends
register devices and publish what devices say.
-/

namespace InstrumentBus

/-- The result of an operation inside the bus: none, or the status of its failure. -/
abbrev Outcome := Option StatusCode

/-- The number that a return code envelope carries for an outcome. -/
def Outcome.code (o : Outcome) : Int32 := (o.map StatusCode.code).getD 0

namespace Bus

/-! ### Delivery -/

/-- Calls a listener, which answers and may make requests at once. -/
def callListener (n : Nat) (e : Envelope) (b : Bus) : Outcome × Bus :=
  let (reaction, audience) := b.audience.hear n e
  (reaction.status, requestsInside n 0 reaction.requests { b with audience })

/-- Copies an envelope into an inbox. -/
def forward (p : InboxId) (e : Envelope) (b : Bus) : Outcome × Bus :=
  match (b.inbox p).push? e.clone with
  | some q => (none, b.setInbox p q)
  | none => (some .closed, b)

/-- How a subscriber receives an envelope. -/
def receive : Receive Bus
  | .client n, e, b => callListener n e b
  | .forwarder p, e, b => forward p e b

/-- Delivers an envelope that has reached a node of the tree. -/
def deliver (b : Bus) (node : NodeId) (e : Envelope) (c : DeliveryClass) : Outcome × Bus :=
  b.tree.deliver receive node e c b

/-- The node of a topic, made if it is missing. -/
def nodeOf (b : Bus) (t : Topic) : Except TopicError (NodeId × Bus) :=
  (b.tree.findOrCreate t.path).map fun (node, tree) => (node, { b with tree })

/-! ### Publishing -/

/-- Announces the return code of a topic: the call that waits for it ends, and whoever listens for
return codes is told. -/
def emitReturnCode (b : Bus) (t : Topic) (code : Int32) : Bus :=
  let answer := t.withSuffix .returnCode
  let b := { b with calls := (b.calls.complete answer.text ⟨code, none⟩).2 }
  match b.nodeOf t with
  | .error _ => b
  | .ok (node, b) =>
    (b.deliver node (b.envelope answer (Value.i32 code) {}) .returnCode).2

/-- Keeps a metadata document and delivers it. -/
def publishMetadata (b : Bus) (node : NodeId) (e : Envelope) : Outcome × Bus :=
  match e.value with
  | .str text | .json text =>
    match Metadata.syntaxCheck text with
    | .error s => (some s, b)
    | .ok () => { b with tree := b.tree.setMetadata node e }.deliver node e .metadata
  | _ => (some .parameterInvalid, b)

/-- A return code from outside: the call that waits for it ends, and it is delivered. Its own
outcome is success whatever is answered. -/
def publishReturnCode (b : Bus) (node : NodeId) (e : Envelope) : Outcome × Bus :=
  let b := match e.value.returnCode? with
    | some code => { b with calls := (b.calls.complete e.topic.text ⟨code, none⟩).2 }
    | none => b
  (none, (b.deliver node e .returnCode).2)

/-- What the metadata of a node make of an envelope: its value may be refused or adjusted. -/
def validate (b : Bus) (node : NodeId) (e : Envelope) : Except StatusCode Envelope :=
  match (b.tree.metadata? node).map Envelope.value with
  | some (.str text) | some (.json text) =>
    match Metadata.validate text e.value with
    | .error s => .error s
    | .ok none => .ok e
    | .ok (some v) => .ok (e.setValue v)
  | _ => .ok e

/-- The value equals the one that the node keeps. -/
def isDuplicate (b : Bus) (node : NodeId) (e : Envelope) : Bool :=
  match b.tree.value? node with
  | some kept => kept.value == e.value
  | none => false

/-- Publishes a value: it is checked, dropped if nothing changes, kept if it asks for it, and
delivered. -/
def publishValue (b : Bus) (node : NodeId) (e : Envelope) : Outcome × Bus :=
  match b.validate node e with
  | .error s => (some s, b.emitReturnCode e.topic s.code)
  | .ok e =>
    if b.isDuplicate node e then (none, b.emitReturnCode e.topic 0)
    else
      let (outcome, b) := { b with tree := b.tree.setRetained node e }.deliver node e .publish
      match outcome with
      | some s => (some s, b.emitReturnCode e.topic s.code)
      | none => (none, b)

/-- Publishes an envelope. Nothing is published to the root. -/
def process (b : Bus) (e : Envelope) : Outcome × Bus :=
  if e.topic.path = "" then (some .notSupported, b)
  else
    match b.nodeOf e.topic with
    | .error _ => (some .parameterInvalid, b)
    | .ok (node, b) =>
      match e.topic.suffix with
      | some .metadataRsp => b.publishMetadata node e
      | some .returnCode => b.publishReturnCode node e
      | some .metadataReq => b.deliver node e .metadataReq
      | some .queryReq => b.deliver node e .queryReq
      | some .queryRsp => b.deliver node e .queryRsp
      | none => b.publishValue node e

/-! ### Commands to the bus -/

/-- The topics whose subscribers are told of the devices that are there. -/
def hearsDevices (t : Topic) : Bool :=
  t.path == "" || t.path == "@" || t.path == Topic.deviceAdd.text

/-- The announcements of the devices that are there. -/
def deviceAnnouncements (b : Bus) : List Envelope :=
  b.devices.list.map fun d => b.textEnvelope .deviceAdd d.topic.text

/-- Starts a subscription. One that asks for what is kept is told of it at once. -/
def startSubscription (b : Bus) (t : Topic) (s : Subscription) : Outcome × Bus :=
  match b.nodeOf t with
  | .error _ => (some .parameterInvalid, b)
  | .ok (node, b) =>
    let b := { b with tree := b.tree.addSubscription node s }
    if s.flags.retain then
      let announced := if hearsDevices t then b.deviceAnnouncements else []
      let b := deliverEach receive s.subscriber announced b
      (none, b.tree.replay receive node s b)
    else (none, b)

/-- Ends the subscriptions of a subscriber to a topic; there must be one. -/
def endSubscription (b : Bus) (t : Topic) (who : SubscriberId) : Outcome × Bus :=
  match b.tree.find? t.path with
  | none => (some .notFound, b)
  | some node =>
    let (count, tree) := b.tree.remove node who
    (if count = 0 then some .notFound else none, { b with tree })

/-- What is kept at a topic: metadata for the suffixes that speak of them, else the value. -/
def lookup (b : Bus) (t : Topic) : Except StatusCode Value :=
  match b.tree.find? t.path with
  | none => .error .notFound
  | some node =>
    let kept := match t.suffix with
      | some .metadataReq | some .metadataRsp => b.tree.metadata? node
      | _ => b.tree.value? node
    .ok ((kept.map Envelope.value).getD .null)

/-- Carries out a command to the bus. -/
def localCommand (b : Bus) (e : Envelope) : CallOutcome × Bus :=
  let answer (r : Outcome × Bus) : CallOutcome × Bus := (⟨r.1.code, none⟩, r.2)
  if e.topic = .subscribe then
    match e.control with
    | some (.subscribe t s) => answer (b.startSubscription t s)
    | _ => (.ofStatus .parameterInvalid, b)
  else if e.topic = .unsubscribe then
    match e.control with
    | some (.unsubscribe t who) => answer (b.endSubscription t who)
    | _ => (.ofStatus .parameterInvalid, b)
  else if e.topic = .unsubscribeAll then
    match e.control with
    | some (.unsubscribeAll who) =>
      (⟨0, none⟩, { b with tree := (b.tree.removeSubtree Tree.root who).2 })
    | _ => (.ofStatus .parameterInvalid, b)
  else if e.topic = .query then
    match e.control with
    | some (.query t) =>
      match b.lookup t with
      | .ok v => (.ofValue v, b)
      | .error s => (.ofStatus s, b)
    | _ => (.ofStatus .parameterInvalid, b)
  else (.ofStatus .notSupported, b)

/-- The device that a topic belongs to answers it: plain values and both kinds of requests reach
the device, all else is answered by the bus. -/
def deviceAnswers (b : Bus) (t : Topic) : Bool :=
  let forwarded := match t.suffix with
    | none | some .metadataReq | some .queryReq => true
    | _ => false
  forwarded && (b.devices.owner? t).isSome

/-- Ends a call that the dispatcher holds. -/
def resolveCall (b : Bus) (call : Option PendingCall) (outcome : CallOutcome) : Bus :=
  match call with
  | some call => { b with calls := b.calls.resolve call outcome }
  | none => b

/-- Handles an envelope of a client, which is not the command to end. -/
def handleCommand (b : Bus) (e : Envelope) : Bus :=
  let call := e.call
  let e := { e with call := none }
  if e.topic.isLocal then
    let (outcome, b) := b.localCommand e
    (b.emitReturnCode e.topic outcome.code).resolveCall call outcome
  else
    match call with
    | none => (b.process e).2
    | some call =>
      if b.deviceAnswers e.topic then
        ({ b with calls := b.calls.register call }.process e).2
      else
        let (outcome, b) := b.process e
        b.resolveCall call ⟨outcome.code, none⟩

/-! ### Devices -/

def publishDeviceList (b : Bus) : Bus :=
  (b.process (b.envelope .deviceList (Value.str b.devices.names) .retained)).2

/-- Registers a device: its topics are forwarded to its inbox, and it is announced. -/
def addDevice (b : Bus) (e : Envelope) : Bus :=
  match e.control with
  | some (.deviceAdd topic p) =>
    match b.devices.add? topic p with
    | none => b
    | some (device, devices) =>
      let b := { b with devices }
      let b := match b.nodeOf topic with
        | .ok (node, b) =>
          { b with tree := b.tree.addSubscription node ⟨device.forwarder, .forwarding⟩ }
        | .error _ => b
      let e := ({ e with control := none } : Envelope).setFlags {}
      (b.process e).2.publishDeviceList
  | _ => b

/-- Ends the registration of a device: its inbox takes no more commands, and all are told. -/
def removeDevice (b : Bus) (e : Envelope) : Bus :=
  match e.value with
  | .str name =>
    match b.devices.remove? name with
    | none => b
    | some (device, devices) =>
      let b := { b with devices }.closeInbox device.inbox
      let b := match b.tree.find? device.topic.path with
        | some node => { b with tree := (b.tree.remove node device.forwarder).2 }
        | none => b
      (b.process e).2.publishDeviceList
  | _ => b

/-- Handles an envelope of a backend. What a device publishes is not sent back to it. -/
def handleBackend (b : Bus) (e : Envelope) : Bus :=
  if e.topic.isDriver then
    if e.topic = .deviceAdd then b.addDevice e
    else if e.topic = .deviceRemove then b.removeDevice e
    else b
  else
    let origin := match b.devices.owner? e.topic with
      | some device => some device.forwarder
      | none => e.origin
    (b.process { e with origin }).2

end Bus
end InstrumentBus
