import InstrumentBus.Envelope.Basic
import InstrumentBus.Text.Quoted

/-!
The pool that lends buffers to envelopes and counts what it lends.

For each size class the pool keeps a number of free buffers. A buffer that comes back is free again
until the pool is closed; from then on it is given up, and no buffer is free.
-/

namespace InstrumentBus

/-- The free buffers of one size class, and how often buffers were made, lent again and given
back. -/
structure FreeList where
  capacity : Nat
  free : Nat
  allocated : Nat := 0
  reused : Nat := 0
  released : Nat := 0
  deriving DecidableEq, Repr

namespace FreeList

/-- Lends a buffer. -/
def take (l : FreeList) : FreeList :=
  if 0 < l.free then { l with free := l.free - 1, reused := l.reused + 1 }
  else { l with allocated := l.allocated + 1 }

/-- Takes a buffer back. -/
def release (closed : Bool) (l : FreeList) : FreeList :=
  { l with released := l.released + 1, free := if closed then l.free else l.free + 1 }

end FreeList

/-- A pool of buffers. -/
structure Pool where
  control : FreeList
  stream : FreeList
  closed : Bool := false
  deriving DecidableEq, Repr

namespace Pool

/-- An open pool whose first buffers were made beforehand. -/
def ofSizes (sizes : BufferSizes) (control stream : Nat) : Pool where
  control := { capacity := sizes.control, free := control }
  stream := { capacity := sizes.stream, free := stream }

/-- A pool with the usual sizes. -/
def standard : Pool := ofSizes {} 0 0

def sizes (p : Pool) : BufferSizes := ⟨p.control.capacity, p.stream.capacity⟩

def list (p : Pool) : SizeClass → FreeList
  | .control => p.control
  | .stream => p.stream

/-- Changes the list of one size class. -/
def modify (p : Pool) (c : SizeClass) (f : FreeList → FreeList) : Pool :=
  match c with
  | .control => { p with control := f p.control }
  | .stream => { p with stream := f p.stream }

/-- Lends a buffer of a size class. -/
def take (p : Pool) (c : SizeClass) : Buffer × Pool := (p.sizes.buffer c, p.modify c .take)

/-- Takes back the buffer of an envelope that is dropped. -/
def release (p : Pool) (e : Envelope) : Pool := p.modify e.sizeClass (.release p.closed)

/-- Takes back the buffers of several envelopes. -/
def releaseAll (p : Pool) (es : List Envelope) : Pool := es.foldl release p

/-- Gives up all free buffers, now and from now on. -/
def close (p : Pool) : Pool :=
  { control := { p.control with free := 0 }
    stream := { p.stream with free := 0 }
    closed := true }

/-- An empty envelope around a buffer of a size class. -/
def allocIn (p : Pool) (topic : Topic) (c : SizeClass) : Envelope × Pool :=
  let (buffer, p) := p.take c
  (.ofBuffer topic buffer, p)

/-- An empty envelope around a small buffer. -/
def alloc (p : Pool) : Envelope × Pool := p.allocIn .root .control

/-- An empty envelope around a large buffer. -/
def allocStream (p : Pool) (topic : Topic) : Envelope × Pool := p.allocIn topic .stream

/-- An empty envelope around a buffer for a number of bytes. -/
def allocFor (p : Pool) (topic : Topic) (length : Nat) : Envelope × Pool :=
  p.allocIn topic (p.sizes.classFor length)

/-- An envelope with a value and flags. -/
def envelope (p : Pool) (topic : Topic) (v : Stored) (flags : ValueFlags) : Envelope × Pool :=
  let (e, p) := p.allocFor topic v.value.byteLength
  ((e.setValue v).setFlags flags, p)

/-- A copy of an envelope around a buffer of its own. -/
def clone (p : Pool) (e : Envelope) : Envelope × Pool :=
  let (buffer, p) := p.take e.sizeClass
  (e.cloneInto buffer, p)

end Pool

/-! ### Texts for developers -/

/-- The counters of a size class spelled out. -/
def FreeList.debugText (l : FreeList) : String :=
  "ClassStats \x7b allocated: " ++ toString l.allocated ++ ", reused: " ++ toString l.reused
    ++ ", released: " ++ toString l.released ++ ", free: " ++ toString l.free ++ " \x7d"

/-- The counters of a pool spelled out. -/
def Pool.debugText (p : Pool) : String :=
  "EnvelopePool \x7b stats: PoolStats \x7b control: " ++ p.control.debugText ++ ", stream: "
    ++ p.stream.debugText ++ " \x7d, closed: " ++ toString p.closed ++ " \x7d"

/-- An envelope spelled out. -/
def Envelope.debugText (e : Envelope) : String :=
  "Envelope \x7b topic: " ++ Text.quote e.topic.text ++ ", value: " ++ Text.quote e.describe
    ++ ", class: " ++ e.sizeClass.name ++ " \x7d"

end InstrumentBus
