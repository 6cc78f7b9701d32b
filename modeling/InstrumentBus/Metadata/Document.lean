import InstrumentBus.Value.Conversion

/-!
Metadata documents: what a topic says about the values it takes.

A document is a JSON object with four fields that matter here, each of which may be missing or
null. Other fields are passed over: they must be well formed and may hold anything. A document may
also be written as an array of the four fields in their order.
-/

namespace InstrumentBus

open Json Number

/-- What a metadata document demands of values. -/
structure Metadata where
  /-- The name of the kind of values. -/
  dtype : Option String := none
  default : Option Json := none
  /-- The permitted values, each alone or as a list with its other names. -/
  options : Option (List Json) := none
  /-- The least and the greatest number, both permitted. -/
  range : Option (List Double) := none

namespace Metadata

/-- A field whose text is null counts as missing. -/
def field? {α : Type} (read : Syntax → Option α) : Syntax → Option (Option α)
  | .null => some none
  | text => (read text).map some

def name? : Syntax → Option String
  | .string parts => string? parts
  | _ => none

/-- How deep a field may nest: the document is a level by itself. -/
def fieldDepth : Nat := maxDepth - 1

def options? : Syntax → Option (List Json)
  | .array items => ofItems? (fieldDepth - 1) items
  | _ => none

def bound? : Syntax → Option Double
  | .number n => (Numeric.ofText? n).map Numeric.toDouble
  | _ => none

def range? : Syntax → Option (List Double)
  | .array items => items.mapM bound?
  | _ => none

/-- The fields in the order in which an array gives them. -/
inductive Field
  | dtype
  | default
  | options
  | range
  deriving DecidableEq, Repr

namespace Field

def all : List Field := [dtype, default, options, range]

def ofName? (name : String) : Option Field :=
  match name with
  | "dtype" => some dtype
  | "default" => some default
  | "options" => some options
  | "range" => some range
  | _ => none

/-- Sets one field of a document from its text. -/
def set (doc : Metadata) (text : Syntax) : Field → Option Metadata
  | dtype => (field? name? text).map fun v => { doc with dtype := v }
  | default => (field? (ofSyntax? fieldDepth) text).map fun v => { doc with default := v }
  | options => (field? options? text).map fun v => { doc with options := v }
  | range => (field? range? text).map fun v => { doc with range := v }

end Field

/-- Sets the fields of an object one after the other; no field may come twice. -/
def ofMembers? (doc : Metadata) (seen : List Field) :
    List (List StringPart × Syntax) → Option Metadata
  | [] => some doc
  | (key, text) :: members => do
    match Field.ofName? (← string? key) with
    | none => ofMembers? doc seen members
    | some field =>
      if field ∈ seen then none
      else ofMembers? (← field.set doc text) (field :: seen) members

/-- Sets the fields of an array by their places; there may be fewer items than fields. -/
def ofItems? (doc : Metadata) : List Field → List Syntax → Option Metadata
  | _, [] => some doc
  | [], _ :: _ => none
  | field :: fields, text :: items => do ofItems? (← field.set doc text) fields items

def ofSyntax? : Syntax → Option Metadata
  | .object members => ofMembers? {} [] members
  | .array items => ofItems? {} Field.all items
  | _ => none

/-- Reads a metadata document. -/
def read (text : String) : Except StatusCode Metadata :=
  match (Syntax.read text).bind ofSyntax? with
  | some doc => .ok doc
  | none => .error .parameterInvalid

/-- The text is a metadata document. -/
def syntaxCheck (text : String) : Except StatusCode Unit := (read text).map fun _ => ()

/-- The kind of values that a document names, if it is one that values have. -/
def valueType (text : String) : Except StatusCode (Option ValueType) :=
  (read text).map fun doc => doc.dtype.bind ValueType.ofName?

end Metadata
end InstrumentBus
