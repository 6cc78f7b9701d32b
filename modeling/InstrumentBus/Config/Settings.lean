import InstrumentBus.Config.Bus
import InstrumentBus.Config.Logging
import InstrumentBus.Toml.Document

/-!
The settings of a whole process, from a document and from the environment.

What the environment gives goes before what the document gives, and whatever neither gives has its
default. Names that no field has are passed over.
-/

namespace InstrumentBus

/-- Variables of the environment with their values; of one name the last counts. -/
abbrev Environment := List (String × String)

namespace Environment

def get? (env : Environment) (name : String) : Option String := env.reverse.lookup name

/-- What the names of all variables for settings start with, in any letter case. -/
def mark : String := "gaugebus_"

/-- Doubled bars of a name divide the levels of a path. -/
def dotted : List Char → List Char
  | '_' :: '_' :: cs => '.' :: dotted cs
  | c :: cs => c :: dotted cs
  | [] => []

/-- The path of the setting that a variable is for, if it is for one. -/
def path? (name : String) : Option (List Setting.Step) :=
  let cs := (Text.lowerAscii name).toList
  if mark.toList.isPrefixOf cs then
    some (Setting.pathOf (.ofList (dotted (cs.drop mark.length))))
  else none

/-- The value of a variable: a truth value or a number, if it spells one, else a text. -/
def settingOf (s : String) : Setting :=
  match Text.lowerAscii s with
  | "true" => .bool true
  | "false" => .bool false
  | _ =>
    match (Number.readInt 10 s.toList).filter Number.fits64 with
    | some n => .integer n
    | none =>
      match Number.readDouble s.toList with
      | some x => .number x
      | none => .text s

/-- Puts the variables in their places. -/
def overlay (env : Environment) (s : Setting) : Setting :=
  env.foldl (fun s (name, value) =>
    match path? name with
    | some path => (settingOf value).put path s
    | none => s) s

end Environment

structure Settings where
  bus : BusConfig := {}
  logging : LoggingConfig := {}
  deriving DecidableEq, Repr

/-- Why settings cannot be had. -/
inductive SettingsFault
  /-- The document is none, or a setting is of the wrong kind. -/
  | unreadable
  | invalid (fault : ConfigFault)
  deriving DecidableEq, Repr

/-- The settings of a bus that a table gives, or a list in the order of the fields. -/
def BusConfig.read (r : Setting.Reading) (s : Setting) : Option BusConfig := do
  let fields ← s.fields? r
    ["default_timeout_ms", "query_timeout_ms", "max_poll_interval_ms", "control_payload_size",
      "stream_payload_size", "pool_prealloc_control", "pool_prealloc_stream", "thread_name",
      "shutdown_timeout_ms"]
  let default : BusConfig := {}
  let nat (name : String) (default : Nat) := Setting.field name Setting.toNat? default fields
  return {
    defaultTimeout := ← nat "default_timeout_ms" default.defaultTimeout
    queryTimeout := ← nat "query_timeout_ms" default.queryTimeout
    maxPollInterval := ← nat "max_poll_interval_ms" default.maxPollInterval
    controlPayloadSize := ← nat "control_payload_size" default.controlPayloadSize
    streamPayloadSize := ← nat "stream_payload_size" default.streamPayloadSize
    preallocControl := ← nat "pool_prealloc_control" default.preallocControl
    preallocStream := ← nat "pool_prealloc_stream" default.preallocStream
    threadName := ← Setting.field "thread_name" r.toText default.threadName fields
    shutdownTimeout := ← nat "shutdown_timeout_ms" default.shutdownTimeout }

namespace Settings

def read (r : Setting.Reading) (s : Setting) : Option Settings := do
  let fields ← s.fields? r ["bus", "logging"]
  return {
    bus := ← Setting.field "bus" (BusConfig.read r) {} fields
    logging := ← Setting.field "logging" (LoggingConfig.read r) {} fields }

/-- The settings that a document gives, if there is one. The keys at its top are paths. -/
def ofDocument : Option String → Option Setting
  | none => some (.table [])
  | some document =>
    (Toml.read document).map fun members =>
      members.foldl (fun s (key, v) => v.put (Setting.pathOf key) s) (.table [])

/-- The settings of a process. -/
def load (document : Option String) (env : Environment) : Except SettingsFault Settings :=
  match (ofDocument document).bind fun s => read Setting.lenient (env.overlay s) with
  | none => .error .unreadable
  | some settings =>
    match settings.bus.validate with
    | .error fault => .error (.invalid fault)
    | .ok () => .ok settings

end Settings
end InstrumentBus
