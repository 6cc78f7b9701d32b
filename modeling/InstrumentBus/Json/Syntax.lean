import InstrumentBus.Number.Numeral

/-!
The grammar of JSON texts, apart from what the texts mean.

`Json.Syntax.read` accepts every text of the grammar, however deep its nesting, and keeps numbers
and string escapes as they were written. Which of them have a value is decided later, so a reader
that skips part of a document demands no more of that part than its grammar.
-/

namespace InstrumentBus.Json

/-- One piece of a string: a character, or an escape that gives a 16-bit unit. -/
inductive StringPart
  | char (c : Char)
  | unit (n : Nat)
  deriving DecidableEq, Repr

/-- A number as written: digits, the digits behind a point, and an exponent. -/
structure NumberText where
  negative : Bool
  whole : List Char
  fraction : Option (List Char)
  exponent : Option (Bool × List Char)
  deriving DecidableEq, Repr

inductive Syntax
  | null
  | bool (b : Bool)
  | number (n : NumberText)
  | string (parts : List StringPart)
  | array (items : List Syntax)
  | object (members : List (List StringPart × Syntax))
  deriving Repr

namespace Syntax

def isSpace (c : Char) : Bool := c == ' ' || c == '\t' || c == '\n' || c == '\r'

def skipSpaces (cs : List Char) : List Char := cs.dropWhile isSpace

/-- What the character behind a backslash stands for. -/
def simpleEscape (c : Char) : Option Char :=
  match c with
  | '"' => some '"'
  | '\\' => some '\\'
  | '/' => some '/'
  | 'b' => some '\x08'
  | 'f' => some '\x0c'
  | 'n' => some '\n'
  | 'r' => some '\r'
  | 't' => some '\t'
  | _ => none

/-- The parts of a string up to its closing quote. A unit has four digits in base sixteen. -/
def readString : List Char → Option (List StringPart × List Char)
  | [] => none
  | '"' :: cs => some ([], cs)
  | '\\' :: 'u' :: a :: b :: c :: d :: cs => do
    let n ← Number.readNat 16 [a, b, c, d]
    let (parts, cs) ← readString cs
    return (.unit n :: parts, cs)
  | '\\' :: c :: cs => do
    let c ← simpleEscape c
    let (parts, cs) ← readString cs
    return (.char c :: parts, cs)
  | c :: cs =>
    if c.toNat < 0x20 || c == '\\' then none
    else do
      let (parts, cs) ← readString cs
      return (.char c :: parts, cs)

/-- Digits, one at least. -/
def readDigits (cs : List Char) : Option (List Char × List Char) :=
  match cs.takeWhile Number.isDigit with
  | [] => none
  | digits => some (digits, cs.dropWhile Number.isDigit)

/-- The whole part of a number: no zero stands in front of another digit. -/
def readWhole (cs : List Char) : Option (List Char × List Char) := do
  let (digits, rest) ← readDigits cs
  match digits with
  | '0' :: _ :: _ => none
  | _ => some (digits, rest)

def readFraction : List Char → Option (Option (List Char) × List Char)
  | '.' :: cs => (readDigits cs).map fun (digits, rest) => (some digits, rest)
  | cs => some (none, cs)

def readExponent (cs : List Char) : Option (Option (Bool × List Char) × List Char) :=
  let digits (negative : Bool) (cs : List Char) :=
    (readDigits cs).map fun (digits, rest) => (some (negative, digits), rest)
  match cs with
  | 'e' :: '-' :: cs | 'E' :: '-' :: cs => digits true cs
  | 'e' :: '+' :: cs | 'E' :: '+' :: cs => digits false cs
  | 'e' :: cs | 'E' :: cs => digits false cs
  | cs => some (none, cs)

/-- A number behind its sign. -/
def readNumber (negative : Bool) (cs : List Char) : Option (Syntax × List Char) := do
  let (whole, cs) ← readWhole cs
  let (fraction, cs) ← readFraction cs
  let (exponent, cs) ← readExponent cs
  return (.number { negative, whole, fraction, exponent }, cs)

/-- A given word. -/
def readWord (word : List Char) (value : Syntax) (cs : List Char) : Option (Syntax × List Char) :=
  if word.isPrefixOf cs then some (value, cs.drop word.length) else none

mutual

/-- One value. The fuel bounds the number of steps; twice the length of the text is enough. -/
def readValue : Nat → List Char → Option (Syntax × List Char)
  | 0, _ => none
  | fuel + 1, cs =>
    match skipSpaces cs with
    | '"' :: cs => (readString cs).map fun (parts, rest) => (.string parts, rest)
    | '[' :: cs =>
      match skipSpaces cs with
      | ']' :: cs => some (.array [], cs)
      | cs => (readItems fuel cs).map fun (items, rest) => (.array items, rest)
    | '{' :: cs =>
      match skipSpaces cs with
      | '}' :: cs => some (.object [], cs)
      | cs => (readMembers fuel cs).map fun (members, rest) => (.object members, rest)
    | '-' :: cs => readNumber true cs
    | 'n' :: cs => readWord ['u', 'l', 'l'] .null cs
    | 't' :: cs => readWord ['r', 'u', 'e'] (.bool true) cs
    | 'f' :: cs => readWord ['a', 'l', 's', 'e'] (.bool false) cs
    | cs => readNumber false cs

/-- The items of an array up to its closing bracket, one at least. -/
def readItems : Nat → List Char → Option (List Syntax × List Char)
  | 0, _ => none
  | fuel + 1, cs => do
    let (item, cs) ← readValue fuel cs
    match skipSpaces cs with
    | ',' :: cs =>
      let (items, cs) ← readItems fuel cs
      return (item :: items, cs)
    | ']' :: cs => return ([item], cs)
    | _ => none

/-- The members of an object up to its closing brace, one at least. -/
def readMembers : Nat → List Char → Option (List (List StringPart × Syntax) × List Char)
  | 0, _ => none
  | fuel + 1, cs =>
    match skipSpaces cs with
    | '"' :: cs => do
      let (key, cs) ← readString cs
      match skipSpaces cs with
      | ':' :: cs =>
        let (value, cs) ← readValue fuel cs
        match skipSpaces cs with
        | ',' :: cs =>
          let (members, cs) ← readMembers fuel cs
          return ((key, value) :: members, cs)
        | '}' :: cs => return ([(key, value)], cs)
        | _ => none
      | _ => none
    | _ => none

end

/-- Reads a text that holds one value and nothing else but white space. -/
def read (s : String) : Option Syntax :=
  let cs := s.toList
  match readValue (2 * cs.length + 2) cs with
  | some (value, rest) => if skipSpaces rest = [] then some value else none
  | none => none

end Syntax
end InstrumentBus.Json
