import InstrumentBus.StatusCode
import InstrumentBus.Topic.Basic

/-!
What the operations of the bus fail with: a cause, which fixes the status code, and the contexts
that were added on the way to the caller, the innermost first.
-/

namespace InstrumentBus

/-- Failures of the calls that a client makes. -/
inductive BusError
  | closed
  | timedOut (topic : String)
  | aborted (topic : String)
  | returnCode (topic : String) (code : Int32)
  | invalidContext (topic : String)
  | payloadTooBig (topic : String) (length max : Nat)
  deriving DecidableEq, Repr

namespace BusError

def message : BusError → String
  | closed => "bus is closed"
  | timedOut topic => s!"timed out waiting for {topic}"
  | aborted topic => s!"wait for {topic} aborted by shutdown"
  | returnCode topic code => s!"{topic} returned {code.toInt}"
  | invalidContext topic => s!"blocking call on {topic} from the dispatch thread"
  | payloadTooBig topic length max => s!"payload of {topic} is {length} bytes, limit {max}"

/-- The topic that the call was about. -/
def topic? : BusError → Option String
  | closed => none
  | timedOut topic | aborted topic | returnCode topic _ | invalidContext topic
  | payloadTooBig topic _ _ => some topic

def status : BusError → StatusCode
  | closed => .closed
  | timedOut _ => .timedOut
  | aborted _ => .aborted
  | returnCode _ code => .ofCode code
  | invalidContext _ => .invalidContext
  | payloadTooBig _ _ _ => .notEnoughMemory

end BusError

/-- The kinds of input and output failures that an operating system reports. -/
inductive IoFault
  | notFound
  | permissionDenied
  | alreadyExists
  | timedOut
  | wouldBlock
  | invalidInput
  | invalidData
  | unexpectedEof
  | brokenPipe
  | connectionReset
  | connectionAborted
  | outOfMemory
  | other
  deriving DecidableEq, Repr

def IoFault.status : IoFault → StatusCode
  | notFound => .notFound
  | permissionDenied => .permissions
  | alreadyExists => .alreadyExists
  | timedOut | wouldBlock => .timedOut
  | invalidInput | invalidData => .parameterInvalid
  | unexpectedEof => .invalidMessageLength
  | brokenPipe | connectionReset | connectionAborted => .closed
  | outOfMemory => .notEnoughMemory
  | other => .io

/-- Why an operation failed. -/
inductive Cause
  | bus (error : BusError)
  | topic (error : TopicError)
  | other (status : StatusCode) (message : String)
  deriving DecidableEq, Repr

namespace Cause

def message : Cause → String
  | bus e => e.message
  | topic e => e.message
  | other _ message => message

def status : Cause → StatusCode
  | bus e => e.status
  | topic _ => .parameterInvalid
  | other status _ => status

/-- The names and values under which metrics count a failure, in a fixed order. -/
def tags : Cause → List (String × String)
  | bus e =>
    [("error_type", "bus"), ("status_code", e.status.name)]
      ++ (e.topic?.map ("topic", ·)).toList
      ++ match e with
        | .returnCode _ code => [("return_code", toString code.toInt)]
        | _ => []
  | topic e =>
    [("error_type", "topic"), ("status_code", StatusCode.parameterInvalid.name)]
      ++ match e with
        | .tooLong _ length _ | .segmentTooLong _ length _ => [("length", toString length)]
        | .reservedChar _ char => [("char", toString char)]
        | .emptySegment _ => []
  | other status _ =>
    [("status_code", status.name), ("return_code", toString status.code.toInt)]

end Cause

/-- A cause with the contexts added to it, the innermost first. -/
structure Failure where
  cause : Cause
  contexts : List String := []
  deriving DecidableEq, Repr

namespace Failure

def ofBus (e : BusError) : Failure := ⟨.bus e, []⟩

def ofTopic (e : TopicError) : Failure := ⟨.topic e, []⟩

def ofStatus (status : StatusCode) (message : String) : Failure := ⟨.other status message, []⟩

/-- A failure of input or output keeps its text and takes the code of its kind. -/
def ofIo (fault : IoFault) (message : String) : Failure := ofStatus fault.status message

/-- Adds a context around those that are there. -/
def context (f : Failure) (message : String) : Failure :=
  { f with contexts := f.contexts ++ [message] }

def status (f : Failure) : StatusCode := f.cause.status

/-- The outermost context comes first and the cause last. -/
def message (f : Failure) : String :=
  f.contexts.foldl (fun text context => context ++ ": " ++ text) f.cause.message

/-- What a client is shown: a cause without a known code is not described any further. -/
def clientMessage (f : Failure) : String :=
  if f.status = .unspecified then StatusCode.unspecified.description else f.cause.message

/-- The failure spelled out for developers. Contexts stand in it with the place where they were
added, so only a failure without contexts has one fixed text. -/
def debugText? (f : Failure) : Option String :=
  if f.contexts = [] then
    some ("StackError \x7b status: " ++ f.status.variantName
      ++ ", source: " ++ f.cause.message ++ ", frames: [] \x7d")
  else none

end Failure

/-- The outcome of a call that was answered with a number: zero is success. -/
def checkReturnCode (topic : String) (code : Int32) : Except Failure Unit :=
  if StatusCode.isSuccess code then .ok () else .error (.ofBus (.returnCode topic code))

end InstrumentBus
