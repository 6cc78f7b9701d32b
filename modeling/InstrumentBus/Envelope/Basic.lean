import InstrumentBus.Topic
import InstrumentBus.PendingCalls
import InstrumentBus.Subscription

/-!
Envelopes: what travels on the bus.

An envelope owns a buffer of a size class. Text, documents and bytes that fit the buffer are copied
into it; larger ones stay in memory of their own, and constants of the program are only referred to.
Wherever the bytes lie, `Envelope.value` is the value that was put in last.
-/

namespace InstrumentBus

/-- The size classes of buffers. -/
inductive SizeClass
  | control
  | stream
  deriving DecidableEq, Repr

/-- The name of a size class. -/
def SizeClass.name : SizeClass → String
  | control => "Control"
  | stream => "Stream"

/-- A buffer: its size class, how many bytes fit, and the bytes in it. -/
structure Buffer where
  sizeClass : SizeClass
  limit : Nat
  bytes : ByteArray := .empty

/-- What a buffer may hold. -/
inductive InlineKind
  | str
  | json
  | bin
  deriving DecidableEq, Repr

/-- Where the value of an envelope is. -/
inductive Payload
  | stored (v : Stored)
  | inline (kind : InlineKind) (length : Nat)

/-- What a command to the bus carries besides its value. -/
inductive Control
  | subscribe (topic : Topic) (subscription : Subscription)
  | unsubscribe (topic : Topic) (subscriber : SubscriberId)
  | unsubscribeAll (subscriber : SubscriberId)
  | query (topic : Topic)
  | deviceAdd (device : Topic) (inbox : InboxId)

/-- An envelope. `op` and `app` are the client's own tags. -/
structure Envelope where
  topic : Topic
  payload : Payload
  flags : ValueFlags
  op : UInt8
  app : UInt8
  /-- Who sent the envelope, and does not receive it. -/
  origin : Option SubscriberId
  call : Option PendingCall
  control : Option Control
  buffer : Buffer

/-- The text that bytes spell; bytes that spell none give the empty text. -/
def textOfBytes (b : ByteArray) : String := (String.fromUTF8? b).getD ""

/-- The value of a kind that bytes are the content of. -/
def InlineKind.value (kind : InlineKind) (b : ByteArray) : Value :=
  match kind with
  | str => .str (textOfBytes b)
  | json => .json (textOfBytes b)
  | bin => .bin b

/-- The kind and the bytes of a value that a buffer may hold. -/
def Value.inline? : Value → Option (InlineKind × ByteArray)
  | .str s => some (.str, s.toUTF8)
  | .json s => some (.json, s.toUTF8)
  | .bin b => some (.bin, b)
  | _ => none

namespace Envelope

/-- An envelope without a value, around a buffer. -/
def ofBuffer (topic : Topic) (buffer : Buffer) : Envelope where
  topic := topic
  payload := .stored Value.null
  flags := {}
  op := 0
  app := 0
  origin := none
  call := none
  control := none
  buffer := buffer

/-- The value in the envelope. -/
def value (e : Envelope) : Value :=
  match e.payload with
  | .stored v => v.value
  | .inline kind length => kind.value (e.buffer.bytes.extract 0 length)

/-- Copies a value into the buffer, if it is of a kind that goes there and fits. -/
def storeInline? (e : Envelope) (v : Value) : Option Envelope :=
  match v.inline? with
  | none => none
  | some (kind, bytes) =>
    if e.buffer.limit < bytes.size then none
    else some { e with
      buffer := { e.buffer with bytes := bytes }
      payload := .inline kind bytes.size }

/-- Says whether the value is a constant. -/
def setConst (e : Envelope) (const : Bool) : Envelope :=
  { e with flags := { e.flags with const := const } }

/-- Puts a value into the envelope. -/
def setValue (e : Envelope) (v : Stored) : Envelope :=
  if v.isConst then { e.setConst true with payload := .stored v }
  else
    let e := e.setConst false
    (e.storeInline? v.value).getD { e with payload := .stored v }

/-- Puts a copy of a value into the envelope. -/
def copyValue (e : Envelope) (v : Value) : Envelope := e.setValue ⟨v, .owned⟩

/-- Takes the value out; a constant stays one. -/
def takeValue (e : Envelope) : Stored × Envelope :=
  let v : Stored := match e.payload with
    | .stored v => v
    | .inline _ _ => e.value
  (v, { e.setConst false with
    payload := .stored Value.null
    buffer := { e.buffer with bytes := .empty } })

/-- The value lies in the buffer. -/
def isInline (e : Envelope) : Bool :=
  match e.payload with
  | .inline _ _ => true
  | .stored _ => false

/-- Sets the flags that the sender may choose. -/
def setFlags (e : Envelope) (f : ValueFlags) : Envelope :=
  { e with flags := { f with const := e.flags.const } }

/-- The value is to be kept in the tree. -/
def isRetained (e : Envelope) : Bool := e.flags.retain

def sizeClass (e : Envelope) : SizeClass := e.buffer.sizeClass

/-- A copy around another buffer. Sender, call and command stay with the one that was copied. -/
def cloneInto (e : Envelope) (buffer : Buffer) : Envelope :=
  let copy := { ofBuffer e.topic buffer with op := e.op, app := e.app }
  let copy := match e.payload with
    | .stored v => { copy with payload := .stored v }
    | .inline _ _ => copy.copyValue e.value
  { copy with flags := e.flags }

/-- An empty buffer like the envelope's own. -/
def siblingBuffer (e : Envelope) : Buffer := { e.buffer with bytes := .empty }

/-- A copy around a buffer like the envelope's own. -/
def clone (e : Envelope) : Envelope := e.cloneInto e.siblingBuffer

/-- Kind, flags and value in a few words, such as `u32.R  5`. -/
def describe (e : Envelope) : String :=
  e.value.type.name ++ e.flags.label ++ " " ++ e.value.display

end Envelope

/-- How many bytes the buffers of each size class hold. -/
structure BufferSizes where
  control : Nat := 1024
  stream : Nat := 65584
  deriving DecidableEq, Repr

namespace BufferSizes

def limit (s : BufferSizes) : SizeClass → Nat
  | .control => s.control
  | .stream => s.stream

/-- The class of buffer for a number of bytes. Bytes that fit no buffer get a small one, as they
stay in memory of their own. -/
def classFor (s : BufferSizes) (length : Nat) : SizeClass :=
  if s.control < length ∧ length ≤ s.stream then .stream else .control

def buffer (s : BufferSizes) (c : SizeClass) : Buffer := ⟨c, s.limit c, .empty⟩

end BufferSizes

namespace Envelope

/-- An envelope with a value and flags. -/
def make (sizes : BufferSizes) (topic : Topic) (v : Stored) (flags : ValueFlags) : Envelope :=
  let buffer := sizes.buffer (sizes.classFor v.value.byteLength)
  ((ofBuffer topic buffer).setValue v).setFlags flags

end Envelope
end InstrumentBus
