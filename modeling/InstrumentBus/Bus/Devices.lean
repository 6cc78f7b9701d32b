import InstrumentBus.Topic
import InstrumentBus.Subscription
import InstrumentBus.Failure

/-!
The devices that the bus knows, in the order of their registration, each with the inbox in which
it receives its commands.
-/

namespace InstrumentBus

/-- A device: the topic that all its topics lie under, and its inbox. -/
structure Device where
  topic : Topic
  inbox : InboxId
  deriving DecidableEq

/-- The subscriber that passes envelopes on to the device. -/
def Device.forwarder (d : Device) : SubscriberId := .forwarder d.inbox

/-- The registered devices. -/
structure Devices where
  list : List Device := []

namespace Devices

/-- The device with a prefix. -/
def get? (d : Devices) (name : String) : Option Device := d.list.find? (·.topic.text == name)

/-- Registers a device, unless its prefix is taken. -/
def add? (d : Devices) (topic : Topic) (inbox : InboxId) : Option (Device × Devices) :=
  match d.get? topic.text with
  | some _ => none
  | none => some (⟨topic, inbox⟩, ⟨d.list ++ [⟨topic, inbox⟩]⟩)

/-- Ends the registration of the device with a prefix. -/
def remove? (d : Devices) (name : String) : Option (Device × Devices) :=
  (d.get? name).map fun device => (device, ⟨d.list.eraseP (·.topic.text == name)⟩)

/-- The device that a topic belongs to. -/
def owner? (d : Devices) (topic : Topic) : Option Device := topic.devicePrefix.bind d.get?

/-- The prefixes with commas between them. -/
def names (d : Devices) : String := String.intercalate "," (d.list.map (·.topic.text))

end Devices

/-- Reads the prefix of a device: a topic of three levels, without a suffix, that is no command. -/
def Device.parsePrefix (name : String) : Except Failure Topic :=
  match Topic.parse name with
  | .error e => .error (.ofTopic e)
  | .ok topic =>
    if topic.suffix.isNone ∧ topic.devicePrefix = some topic.path then .ok topic
    else .error (.ofStatus .parameterInvalid ("not a device prefix: " ++ name))

end InstrumentBus
