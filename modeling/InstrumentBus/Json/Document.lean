import InstrumentBus.Json.Numeric

/-!
JSON values, how a text is read as one, and how one is written.

Reading refuses what the grammar allows but no value has: a number beyond the largest double, an
escape for half a pair of units, nesting beyond `maxDepth`. Of two members with one name the last
counts; members are kept in the order of their names. Writing uses no white space.
-/

namespace InstrumentBus

open Number

inductive Json
  | null
  | bool (b : Bool)
  | number (n : Json.Numeric)
  | string (s : String)
  | array (items : List Json)
  | object (members : List (String × Json))
  deriving Repr

namespace Json

/-- How many arrays and objects may stand one inside the other. -/
def maxDepth : Nat := 127

/-- The characters of a string; two units that form a pair give one of them. -/
def characters? : List StringPart → Option (List Char)
  | [] => some []
  | .char c :: parts => (characters? parts).map (c :: ·)
  | .unit n :: parts =>
    if n < 0xD800 ∨ 0xDFFF < n then (characters? parts).map (Char.ofNat n :: ·)
    else if 0xDC00 ≤ n then none
    else match parts with
      | .unit m :: parts =>
        if 0xDC00 ≤ m ∧ m ≤ 0xDFFF then
          (characters? parts).map
            (Char.ofNat (0x10000 + (n - 0xD800) * 0x400 + (m - 0xDC00)) :: ·)
        else none
      | _ => none

def string? (parts : List StringPart) : Option String := (characters? parts).map .ofList

/-- Puts a member in the place of its name; a member of the same name gives way. -/
def insertMember (key : String) (value : Json) : List (String × Json) → List (String × Json)
  | [] => [(key, value)]
  | (k, v) :: members =>
    if key = k then (key, value) :: members
    else if key < k then (key, value) :: (k, v) :: members
    else (k, v) :: insertMember key value members

mutual

/-- The value of a text inside which `depth` more levels may be opened. -/
def ofSyntax? (depth : Nat) : Syntax → Option Json
  | .null => some .null
  | .bool b => some (.bool b)
  | .number n => (Numeric.ofText? n).map .number
  | .string parts => (string? parts).map .string
  | .array items => if depth = 0 then none else (ofItems? (depth - 1) items).map .array
  | .object members =>
    if depth = 0 then none else (ofMembers? (depth - 1) members []).map .object

def ofItems? (depth : Nat) : List Syntax → Option (List Json)
  | [] => some []
  | item :: items => do
    let item ← ofSyntax? depth item
    let items ← ofItems? depth items
    return item :: items

def ofMembers? (depth : Nat) :
    List (List StringPart × Syntax) → List (String × Json) → Option (List (String × Json))
  | [], found => some found
  | (key, value) :: members, found => do
    let key ← string? key
    let value ← ofSyntax? depth value
    ofMembers? depth members (insertMember key value found)

end

/-- Reads a text as a value. -/
def read (s : String) : Option Json := (Syntax.read s).bind (ofSyntax? maxDepth)

/-! ### Writing -/

/-- A double: the shortest digits that read back, of two such the even one. The first digit's place
decides the form: ten to the fifteen or less and ten to the minus five or more need no power. -/
def writeDouble (x : Double) : String :=
  match x.datum with
  | .nan | .infinite _ => "null"
  | .finite negative units =>
    let sign := if negative then "-" else ""
    if units = 0 then sign ++ "0.0"
    else
      let d := Format.double.shortest false units
      let place : Int := d.exponent + ((toString d.digits).length - 1 : Nat)
      sign ++ if -5 ≤ place ∧ place ≤ 15 then d.positional ".0" else d.scientific

def writeNumeric : Numeric → String
  | .unsigned n => toString n.toNat
  | .negative n => toString n.toInt
  | .float x => writeDouble x

def hexDigit (n : Nat) : Char := Nat.digitChar n

/-- The text of one character inside a string. -/
def escape (c : Char) : List Char :=
  match c with
  | '"' => ['\\', '"']
  | '\\' => ['\\', '\\']
  | '\x08' => ['\\', 'b']
  | '\x0c' => ['\\', 'f']
  | '\n' => ['\\', 'n']
  | '\r' => ['\\', 'r']
  | '\t' => ['\\', 't']
  | c =>
    if c.toNat < 0x20 then
      ['\\', 'u', '0', '0', hexDigit (c.toNat / 16), hexDigit (c.toNat % 16)]
    else [c]

def writeString (s : String) : String := "\"" ++ .ofList (s.toList.flatMap escape) ++ "\""

mutual

/-- The text of a value, without white space. -/
def write : Json → String
  | .null => "null"
  | .bool b => if b then "true" else "false"
  | .number n => writeNumeric n
  | .string s => writeString s
  | .array items => "[" ++ String.intercalate "," (writeItems items) ++ "]"
  | .object members => "\x7b" ++ String.intercalate "," (writeMembers members) ++ "\x7d"

def writeItems : List Json → List String
  | [] => []
  | item :: items => write item :: writeItems items

def writeMembers : List (String × Json) → List String
  | [] => []
  | (key, value) :: members => (writeString key ++ ":" ++ write value) :: writeMembers members

end

end Json
end InstrumentBus
