import InstrumentBus.Metadata.Document

/-!
Checking and adjusting a value by a metadata document.

`Metadata.validate` answers that a value is taken as it is, is taken as another value, or is
refused. If the document lists options, a value stands for the first name of the first option that
it matches; then it is brought to the document's kind; then, if it is a number, it must lie in the
document's range.
-/

namespace InstrumentBus

open Number

namespace Metadata

/-- A value brought to a named kind. Any value has a kind that no value is of. -/
def coerce (dtype : String) (v : Value) : Except StatusCode Value :=
  if dtype = "bool" then v.toBool.map fun b => .u8 (if b then 1 else 0)
  else
    match ValueType.ofName? dtype with
    | some type => v.asType type
    | none => .ok v

/-- The names of each option, the first of which is the canonical one. An option without names is
left out. -/
def optionEntries (doc : Metadata) : List (List Value) :=
  ((doc.options.getD []).map fun
    | .array items => items.map Value.ofJson
    | single => [Value.ofJson single]).filter (· ≠ [])

/-- A value is an option's name. -/
def isOption (candidate option : Value) : Bool :=
  match candidate, option with
  | .str s, .str t => s == t
  | v, w => v.equiv w

/-- The canonical name of the first option that a value matches. -/
def lookupOption (entries : List (List Value)) (candidate : Value) : Option Value :=
  (entries.find? (·.any (isOption candidate))).bind List.head?

/-- The canonical name of the option that a value stands for, as it is or brought to its kind. -/
def canonical (dtype : String) (entries : List (List Value)) (v : Value) :
    Except StatusCode Value :=
  match lookupOption entries v with
  | some w => .ok w
  | none =>
    match coerce dtype v with
    | .error e => .error e
    | .ok coerced =>
      match lookupOption entries coerced with
      | some w => .ok w
      | none => .error .parameterInvalid

/-- A number lies outside of the range; what is no number lies in every range. -/
def outOfRange (range : Option (List Double)) (v : Value) : Bool :=
  match range, v.number? with
  | some (low :: high :: _), some x => x.datum.less low.datum || high.datum.less x.datum
  | _, _ => false

/-- The value that a document makes of a value, before its range is looked at. -/
def adjust (doc : Metadata) (v : Value) : Except StatusCode Value :=
  let dtype := doc.dtype.getD ""
  match doc.optionEntries with
  | [] => coerce dtype v
  | entries =>
    match canonical dtype entries v with
    | .error e => .error e
    | .ok w => coerce dtype w

/-- Checks a value by a document that was read before. -/
def check (doc : Metadata) (v : Value) : Except StatusCode (Option Value) :=
  match doc.adjust v with
  | .error e => .error e
  | .ok w =>
    if outOfRange doc.range w then .error .parameterInvalid
    else if w == v then .ok none
    else .ok (some w)

/-- Checks a value by the text of a document: `none` takes it as it is, `some` takes another value
in its place. -/
def validate (text : String) (v : Value) : Except StatusCode (Option Value) :=
  match read text with
  | .error e => .error e
  | .ok doc => doc.check v

/-- The value that a topic starts with. -/
def defaultValue (text : String) : Except StatusCode (Option Value) :=
  match read text with
  | .error e => .error e
  | .ok doc =>
    match doc.default with
    | none => .ok none
    | some document =>
      match doc.dtype with
      | some dtype => (coerce dtype (.ofJson document)).map some
      | none => .ok (some (.ofJson document))

end Metadata
end InstrumentBus
