import InstrumentBus.Config.Setting

/-!
The settings of the log: its level, its format, and where it goes.
-/

namespace InstrumentBus

/-- How events are written. -/
inductive LogFormat
  | json
  | pretty
  | compact
  deriving DecidableEq, Repr

/-- What is wrong with settings of the log. -/
inductive LoggingFault
  | invalidLevel (level : String)
  | invalidFormat (format : String)
  | emptyFilePrefix
  deriving DecidableEq, Repr

def LoggingFault.message : LoggingFault → String
  | invalidLevel level => "invalid log level: " ++ level
  | invalidFormat format => "invalid log format: " ++ format
  | emptyFilePrefix => "log file prefix must not be empty"

namespace LogFormat

def name : LogFormat → String
  | json => "json"
  | pretty => "pretty"
  | compact => "compact"

def ofName? : String → Option LogFormat
  | "json" => some json
  | "pretty" => some pretty
  | "compact" => some compact
  | _ => none

/-- The format of a name in any letter case. -/
def parse (s : String) : Except LoggingFault LogFormat :=
  let s := Text.lowerAscii s
  match ofName? s with
  | some format => .ok format
  | none => .error (.invalidFormat s)

end LogFormat

structure ConsoleConfig where
  enabled : Bool := true
  withAnsi : Bool := true
  withTarget : Bool := true
  withThreadNames : Bool := true
  withLineNumbers : Bool := false
  deriving DecidableEq, Repr

/-- The log file: its directory, and what its name starts with. -/
structure FileConfig where
  enabled : Bool := false
  dir : String := "logs"
  stem : String := "gaugebus.log"
  format : LogFormat := .json
  deriving DecidableEq, Repr

structure LoggingConfig where
  level : String := "info"
  format : LogFormat := .compact
  /-- Filters besides the level. -/
  directives : List String := []
  console : ConsoleConfig := {}
  file : FileConfig := {}
  deriving DecidableEq, Repr

namespace LoggingConfig

/-! ### Reading -/

def readFormat (r : Setting.Reading) (s : Setting) : Option LogFormat :=
  (r.toChoice s).bind LogFormat.ofName?

def readConsole (r : Setting.Reading) (s : Setting) : Option ConsoleConfig := do
  let fields ← s.fields? r
    ["enabled", "with_ansi", "with_target", "with_thread_names", "with_line_numbers"]
  let flag (name : String) (default : Bool) := Setting.field name r.toBool default fields
  return {
    enabled := ← flag "enabled" true
    withAnsi := ← flag "with_ansi" true
    withTarget := ← flag "with_target" true
    withThreadNames := ← flag "with_thread_names" true
    withLineNumbers := ← flag "with_line_numbers" false }

def readFile (r : Setting.Reading) (s : Setting) : Option FileConfig := do
  let fields ← s.fields? r ["enabled", "dir", "prefix", "format"]
  let default : FileConfig := {}
  return {
    enabled := ← Setting.field "enabled" r.toBool default.enabled fields
    dir := ← Setting.field "dir" r.toText default.dir fields
    stem := ← Setting.field "prefix" r.toText default.stem fields
    format := ← Setting.field "format" (readFormat r) default.format fields }

/-- The settings that a table gives, or a list in the order of the fields. -/
def read (r : Setting.Reading) (s : Setting) : Option LoggingConfig := do
  let fields ← s.fields? r ["level", "format", "directives", "console", "file"]
  let default : LoggingConfig := {}
  return {
    level := ← Setting.field "level" r.toText default.level fields
    format := ← Setting.field "format" (readFormat r) default.format fields
    directives := ← Setting.field "directives" (Setting.toTexts r) default.directives fields
    console := ← Setting.field "console" (readConsole r) default.console fields
    file := ← Setting.field "file" (readFile r) default.file fields }

/-- The settings that a JSON value gives. -/
def ofJson? (j : Json) : Option LoggingConfig := read Setting.exact (.ofJson j)

/-! ### Use -/

/-- The settings after variables of the environment have changed them: a level, a format, and a
directory, which also turns the file on. A format that there is not is passed over. -/
def applyOverrides (c : LoggingConfig) (lookup : String → Option String) : LoggingConfig :=
  let c := match lookup "GAUGEBUS_LOG_LEVEL" with
    | some level => { c with level }
    | none => c
  let c := match (lookup "GAUGEBUS_LOG_FORMAT").map LogFormat.parse with
    | some (.ok format) => { c with format }
    | _ => c
  match lookup "GAUGEBUS_LOG_DIR" with
  | some dir => { c with file := { c.file with dir, enabled := true } }
  | none => c

/-- A level is one of five names in any letter case, or a number from one to five. -/
def isLevel (s : String) : Bool :=
  match Number.readInt 10 s.toList with
  | some n => 1 ≤ n && n ≤ 5
  | none => ["trace", "debug", "info", "warn", "error"].contains (Text.lowerAscii s)

/-- The first fault of the settings. -/
def validate (c : LoggingConfig) : Except LoggingFault Unit :=
  if !isLevel c.level then .error (.invalidLevel c.level)
  else if c.file.enabled && c.file.stem == "" then .error .emptyFilePrefix
  else .ok ()

/-- The level and the other filters, with commas between them. -/
def filterDirective (c : LoggingConfig) : String :=
  String.intercalate "," (Text.lowerAscii c.level :: c.directives)

end LoggingConfig
end InstrumentBus
