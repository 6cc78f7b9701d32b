import InstrumentBus.Json.Document
import InstrumentBus.Text.Blank

/-!
Settings as documents and variables give them, before anyone knows what they are for.

A setting has a place, which a path names, and putting a table in the place of a table merges the
two. How a setting is taken for a truth value, a number or a text is a `Reading`: the exact one
demands the right kind, the lenient one also takes scalars of other kinds.
-/

namespace InstrumentBus

open Number

inductive Setting
  | null
  | bool (b : Bool)
  | integer (n : Int)
  | number (x : Double)
  | text (s : String)
  | list (items : List Setting)
  | table (members : List (String × Setting))
  deriving Repr

namespace Setting

/-- The members of a table; other settings have none. -/
def members : Setting → List (String × Setting)
  | table ms => ms
  | _ => []

/-- The items of a list; other settings have none. -/
def items : Setting → List Setting
  | list is => is
  | _ => []

/-! ### Places -/

/-- Changes the member of a name, or makes it. -/
def update (name : String) (f : Setting → Setting) :
    List (String × Setting) → List (String × Setting)
  | [] => [(name, f null)]
  | (k, v) :: ms => if k = name then (k, f v) :: ms else (k, v) :: update name f ms

mutual

/-- A setting in the place of another one. Tables are merged member by member. -/
def merge : Setting → Setting → Setting
  | table ms, old => table (mergeMembers ms old.members)
  | v, _ => v

def mergeMembers : List (String × Setting) → List (String × Setting) → List (String × Setting)
  | [], old => old
  | (k, v) :: ms, old => mergeMembers ms (update k (fun o => merge v o) old)

end

/-- One step of a path: to a member of a table, or to an item of a list, which a negative number
counts from the end. -/
inductive Step
  | member (name : String)
  | item (index : Int)
  deriving DecidableEq, Repr

/-- Changes the item at an index. A list that is too short is made longer, at the end that the index
counts to. -/
def updateItem (index : Int) (f : Setting → Setting) (is : List Setting) : List Setting :=
  if 0 ≤ index then
    let padded := is ++ List.replicate (index.toNat + 1 - is.length) null
    padded.modify index.toNat f
  else
    let padded := List.replicate (index.natAbs - is.length) null ++ is
    padded.modify (padded.length - index.natAbs) f

/-- Puts a setting in the place that a path leads to. What lies on the way and is no table or list
as the path demands gives way to an empty one. -/
def put (v : Setting) : List Step → Setting → Setting
  | [], old => merge v old
  | .member name :: path, old => table (update name (put v path) old.members)
  | .item index :: path, old => list (updateItem index (put v path) old.items)

/-! ### Paths -/

def isNameChar (c : Char) : Bool := c.isAlphanum || c == '_' || c == '-'

/-- The name at the front of a path. -/
def readName (cs : List Char) : Option (String × List Char) :=
  match cs.takeWhile isNameChar with
  | [] => none
  | name => some (.ofList name, cs.dropWhile isNameChar)

def skipSpaces (cs : List Char) : List Char := cs.dropWhile fun c => c == ' ' || c == '\t'

/-- An index of 64 bits up to its closing bracket, with blanks around it. -/
def readIndex (cs : List Char) : Option (Int × List Char) := do
  let (negative, cs) := match skipSpaces cs with
    | '-' :: cs => (true, cs)
    | cs => (false, cs)
  let n ← readNat 10 (cs.takeWhile isDigit)
  let index : Int := if negative then -n else n
  match skipSpaces (cs.dropWhile isDigit) with
  | ']' :: cs => if fits64 index then some (index, cs) else none
  | _ => none

/-- The steps behind the first name. The fuel bounds their number. -/
def readSteps : Nat → List Char → Option (List Step)
  | _, [] => some []
  | 0, _ => none
  | fuel + 1, '.' :: cs => do
    let (name, cs) ← readName cs
    return .member name :: (← readSteps fuel cs)
  | fuel + 1, '[' :: cs => do
    let (index, cs) ← readIndex cs
    return .item index :: (← readSteps fuel cs)
  | _, _ => none

/-- The path that a text spells: names with points between them, and indices in brackets. Any other
text is a single name. -/
def pathOf (s : String) : List Step :=
  let cs := s.toList
  let path : Option (List Step) := do
    let (name, cs) ← readName cs
    return .member name :: (← readSteps cs.length cs)
  path.getD [.member s]

/-! ### What a setting is taken for -/

/-- How a setting is taken for a value of a known kind. -/
structure Reading where
  toBool : Setting → Option Bool
  toText : Setting → Option String
  /-- The name of one of several choices. -/
  toChoice : Setting → Option String
  /-- A list may give more items than there are fields. -/
  allowsMore : Bool

/-- A text as a truth value. -/
def truthOf? (s : String) : Option Bool :=
  match Text.lowerAscii s with
  | "true" | "on" | "yes" => some true
  | "false" | "off" | "no" => some false
  | _ => none

/-- The largest number of 64 bits. -/
def maxNat : Nat := 0xffffffffffffffff

/-- The number of 64 bits that is nearest to a double; what is no number gives zero. -/
def natOfDouble (x : Double) : Nat :=
  match x.datum with
  | .nan => 0
  | .infinite negative => if negative then 0 else maxNat
  | .finite .. => min ((x.toInt?).getD 0).toNat maxNat

/-- A setting as a number of 64 bits: scalars of all kinds have one, except texts that spell none
and numbers below zero. -/
def toNat? : Setting → Option Nat
  | integer n => if 0 ≤ n then some n.toNat else none
  | bool b => some b.toNat
  | number x => some (natOfDouble x)
  | text s =>
    match truthOf? s with
    | some b => some b.toNat
    | none => (readUnsigned s.toList).filter (· ≤ maxNat)
  | null | list _ | table _ => none
where
  /-- Digits after an optional plus sign. -/
  readUnsigned : List Char → Option Nat
    | '+' :: cs => readNat 10 cs
    | cs => readNat 10 cs

/-- A scalar is read as any kind that it can spell. -/
def lenient : Reading where
  toBool
    | bool b => some b
    | integer n => some (n != 0)
    | number x => some !x.isZero
    | text s => if s = "1" then some true else if s = "0" then some false else truthOf? s
    | null | list _ | table _ => none
  toText
    | text s => some s
    | bool b => some (if b then "true" else "false")
    | integer n => some (toString n)
    | number x => some x.display
    | null | list _ | table _ => none
  toChoice
    | text s => some s
    | table [(name, _)] => some name
    | _ => none
  allowsMore := true

/-- A setting is of the kind that is asked for, or it is refused. -/
def exact : Reading where
  toBool
    | bool b => some b
    | _ => none
  toText
    | text s => some s
    | _ => none
  toChoice
    | text s => some s
    | table [(name, null)] => some name
    | _ => none
  allowsMore := false

/-! ### Records -/

/-- The settings of a record's fields by name. A list gives the fields in their order. -/
def fields? (r : Reading) (names : List String) : Setting → Option (List (String × Setting))
  | table ms => some ms
  | list is => if !r.allowsMore && names.length < is.length then none else some (names.zip is)
  | _ => none

/-- One field of a record; a missing one has its default. -/
def field {α : Type} (name : String) (read : Setting → Option α) (default : α)
    (fields : List (String × Setting)) : Option α :=
  match fields.lookup name with
  | some v => read v
  | none => some default

/-- A list of texts. -/
def toTexts (r : Reading) : Setting → Option (List String)
  | list is => is.mapM r.toText
  | _ => none

mutual

/-- A JSON value as a setting. -/
def ofJson : Json → Setting
  | .null => null
  | .bool b => bool b
  | .number n => number n.toDouble
  | .string s => text s
  | .array items => list (ofItems items)
  | .object members => table (ofMembers members)

def ofItems : List Json → List Setting
  | [] => []
  | j :: js => ofJson j :: ofItems js

def ofMembers : List (String × Json) → List (String × Setting)
  | [] => []
  | (k, j) :: js => (k, ofJson j) :: ofMembers js

end

end Setting
end InstrumentBus
