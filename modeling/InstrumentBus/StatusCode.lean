/-!
The closed list of status codes: what every operation, device answer and subscriber reply comes
down to. The numbers are stable and travel in return-code envelopes; zero is success.
-/

namespace InstrumentBus

/-- How loudly an outcome should be logged. -/
inductive LogLevel
  | trace
  | debug
  | info
  | warn
  | error
  deriving DecidableEq, Repr

inductive StatusCode
  | success
  | unspecified
  | notEnoughMemory
  | notSupported
  | io
  | parameterInvalid
  | invalidReturnCondition
  | invalidContext
  | invalidMessageLength
  | messageIntegrity
  | syntaxError
  | timedOut
  | full
  | empty
  | tooSmall
  | tooBig
  | notFound
  | alreadyExists
  | permissions
  | busy
  | unavailable
  | inUse
  | closed
  | sequence
  | aborted
  | synchronization
  deriving DecidableEq, Repr

namespace StatusCode

/-- All codes, in the order of their numbers. -/
def all : List StatusCode :=
  [success, unspecified, notEnoughMemory, notSupported, io, parameterInvalid,
    invalidReturnCondition, invalidContext, invalidMessageLength, messageIntegrity, syntaxError,
    timedOut, full, empty, tooSmall, tooBig, notFound, alreadyExists, permissions, busy,
    unavailable, inUse, closed, sequence, aborted, synchronization]

/-- The number of a code. -/
def code : StatusCode → Int32
  | success => 0
  | unspecified => 1
  | notEnoughMemory => 2
  | notSupported => 3
  | io => 4
  | parameterInvalid => 5
  | invalidReturnCondition => 6
  | invalidContext => 7
  | invalidMessageLength => 8
  | messageIntegrity => 9
  | syntaxError => 10
  | timedOut => 11
  | full => 12
  | empty => 13
  | tooSmall => 14
  | tooBig => 15
  | notFound => 16
  | alreadyExists => 17
  | permissions => 18
  | busy => 19
  | unavailable => 20
  | inUse => 21
  | closed => 22
  | sequence => 23
  | aborted => 24
  | synchronization => 25

/-- The code with a number, if there is one. -/
def ofCode? (n : Int32) : Option StatusCode :=
  all.find? (·.code == n)

/-- The code with a number; a number of no code counts as unspecified. -/
def ofCode (n : Int32) : StatusCode :=
  (ofCode? n).getD unspecified

@[simp] theorem ofCode?_code (s : StatusCode) : ofCode? s.code = some s := by
  cases s <;> decide

@[simp] theorem ofCode_code (s : StatusCode) : ofCode s.code = s := by
  simp [ofCode]

def isSuccess (n : Int32) : Bool := n == success.code

/-- The name in one word. -/
def variantName : StatusCode → String
  | success => "Success"
  | unspecified => "Unspecified"
  | notEnoughMemory => "NotEnoughMemory"
  | notSupported => "NotSupported"
  | io => "Io"
  | parameterInvalid => "ParameterInvalid"
  | invalidReturnCondition => "InvalidReturnCondition"
  | invalidContext => "InvalidContext"
  | invalidMessageLength => "InvalidMessageLength"
  | messageIntegrity => "MessageIntegrity"
  | syntaxError => "SyntaxError"
  | timedOut => "TimedOut"
  | full => "Full"
  | empty => "Empty"
  | tooSmall => "TooSmall"
  | tooBig => "TooBig"
  | notFound => "NotFound"
  | alreadyExists => "AlreadyExists"
  | permissions => "Permissions"
  | busy => "Busy"
  | unavailable => "Unavailable"
  | inUse => "InUse"
  | closed => "Closed"
  | sequence => "Sequence"
  | aborted => "Aborted"
  | synchronization => "Synchronization"

/-- The name in capitals, as metrics and logs use it. -/
def name : StatusCode → String
  | success => "SUCCESS"
  | unspecified => "UNSPECIFIED"
  | notEnoughMemory => "NOT_ENOUGH_MEMORY"
  | notSupported => "NOT_SUPPORTED"
  | io => "IO"
  | parameterInvalid => "PARAMETER_INVALID"
  | invalidReturnCondition => "INVALID_RETURN_CONDITION"
  | invalidContext => "INVALID_CONTEXT"
  | invalidMessageLength => "INVALID_MESSAGE_LENGTH"
  | messageIntegrity => "MESSAGE_INTEGRITY"
  | syntaxError => "SYNTAX_ERROR"
  | timedOut => "TIMED_OUT"
  | full => "FULL"
  | empty => "EMPTY"
  | tooSmall => "TOO_SMALL"
  | tooBig => "TOO_BIG"
  | notFound => "NOT_FOUND"
  | alreadyExists => "ALREADY_EXISTS"
  | permissions => "PERMISSIONS"
  | busy => "BUSY"
  | unavailable => "UNAVAILABLE"
  | inUse => "IN_USE"
  | closed => "CLOSED"
  | sequence => "SEQUENCE"
  | aborted => "ABORTED"
  | synchronization => "SYNCHRONIZATION"

/-- What a code means, for people. -/
def description : StatusCode → String
  | success => "Success (no error)"
  | unspecified => "Unspecified error"
  | notEnoughMemory => "Insufficient memory to complete the operation"
  | notSupported => "Operation is not supported"
  | io => "Input/output error"
  | parameterInvalid => "The parameter value is invalid"
  | invalidReturnCondition => "The function return condition is invalid"
  | invalidContext => "The context is invalid"
  | invalidMessageLength => "The message length is invalid"
  | messageIntegrity => "The message integrity check failed"
  | syntaxError => "A syntax error was detected"
  | timedOut => "The operation did not complete in time"
  | full => "The target of the operation is full"
  | empty => "The target of the operation is empty"
  | tooSmall => "The target of the operation is too small"
  | tooBig => "The target of the operation is too big"
  | notFound => "The requested resource was not found"
  | alreadyExists => "The requested resource already exists"
  | permissions => "Insufficient permissions to perform the operation"
  | busy => "The requested resource is currently busy"
  | unavailable => "The requested resource is currently unavailable"
  | inUse => "The requested resource is currently in use"
  | closed => "The requested resource is currently closed"
  | sequence => "The requested operation was out of sequence"
  | aborted => "The requested operation was previously aborted"
  | synchronization => "The target is not synchronized with the originator"

/-- Trying again later may help. -/
def isRetryable : StatusCode → Bool
  | timedOut | busy | unavailable | inUse | full => true
  | _ => false

/-- The bus or the device can no longer be trusted. -/
def isCritical : StatusCode → Bool
  | notEnoughMemory | messageIntegrity | synchronization => true
  | _ => false

def logLevel : StatusCode → LogLevel
  | success => .trace
  | notFound | alreadyExists | empty => .debug
  | parameterInvalid | syntaxError | tooSmall | tooBig | notSupported | closed => .info
  | notEnoughMemory | messageIntegrity | synchronization => .error
  | _ => .warn

/-- The name with the number, such as `NotFound (16)`. -/
def display (s : StatusCode) : String :=
  s!"{s.variantName} ({s.code.toInt})"

end StatusCode

/-- The name of a log level. -/
def LogLevel.name : LogLevel → String
  | trace => "Trace"
  | debug => "Debug"
  | info => "Info"
  | warn => "Warn"
  | error => "Error"

end InstrumentBus
