import InstrumentBus.Toml.Scalar
import InstrumentBus.Toml.Table

/-!
The grammar of TOML documents.

A document is read line by line: keys with values, and the headers of tables. Strings, lists and
tables in braces are read from their opening mark on; all other values are words. Inside of brackets
and braces lines may end between any two words.
-/

namespace InstrumentBus.Toml

open Number

/-- How many lists and tables may stand in each other, and how many parts a key may have. -/
def maxDepth : Nat := 80

/-! ### Characters and lines -/

/-- What may stand in comments and on one line of a string. -/
def isText (c : Char) : Bool := c == '\t' || (0x20 ≤ c.toNat && c.toNat != 0x7F)

def skipSpaces (cs : List Char) : List Char := cs.dropWhile fun c => c == ' ' || c == '\t'

/-- What follows a line break, if there is one. -/
def afterBreak : List Char → Option (List Char)
  | '\n' :: cs => some cs
  | '\r' :: '\n' :: cs => some cs
  | _ => none

def skipComment : List Char → List Char
  | '#' :: cs => cs.dropWhile isText
  | cs => cs

/-- The lines behind this one, on which only white space and a comment are left. -/
def endLine (cs : List Char) : Option (List Char) :=
  match skipComment (skipSpaces cs) with
  | [] => some []
  | cs => afterBreak cs

/-- Passes over white space, comments and line breaks; the flag says whether a comment has begun. -/
def skipLinesFrom : Bool → List Char → List Char
  | _, [] => []
  | _, '\r' :: '\n' :: cs => skipLinesFrom false cs
  | _, '\n' :: cs => skipLinesFrom false cs
  | true, c :: cs => if isText c then skipLinesFrom true cs else c :: cs
  | false, c :: cs =>
    if c == ' ' || c == '\t' then skipLinesFrom false cs
    else if c == '#' then skipLinesFrom true cs
    else c :: cs

/-- Passes over white space, comments and line breaks. -/
def skipLines : List Char → List Char := skipLinesFrom false

/-- Passes over white space and line breaks. -/
def skipBreaks : List Char → List Char
  | [] => []
  | '\r' :: '\n' :: cs => skipBreaks cs
  | c :: cs => if c == ' ' || c == '\t' || c == '\n' then skipBreaks cs else c :: cs

/-! ### Strings -/

/-- The character of a number in base sixteen, of so many digits. -/
def readCode (count : Nat) (cs : List Char) : Option (Char × List Char) := do
  let digits := cs.take count
  if digits.length < count then none
  else
    let n ← readNat 16 digits
    if n.isValidChar then some (Char.ofNat n, cs.drop count) else none

/-- The character of an escape, behind its backslash. -/
def readEscape : List Char → Option (Char × List Char)
  | 'b' :: cs => some ('\x08', cs)
  | 't' :: cs => some ('\t', cs)
  | 'n' :: cs => some ('\n', cs)
  | 'f' :: cs => some ('\x0c', cs)
  | 'r' :: cs => some ('\r', cs)
  | 'e' :: cs => some ('\x1b', cs)
  | '"' :: cs => some ('"', cs)
  | '\\' :: cs => some ('\\', cs)
  | 'x' :: cs => readCode 2 cs
  | 'u' :: cs => readCode 4 cs
  | 'U' :: cs => readCode 8 cs
  | _ => none

/-- A string on one line as it is written, up to its closing quote. What follows a backslash never
closes it. -/
def splitBasic : List Char → Option (List Char × List Char)
  | [] => none
  | '"' :: cs => some ([], cs)
  | '\\' :: c :: cs => (splitBasic cs).map fun (raw, rest) => ('\\' :: c :: raw, rest)
  | c :: cs => (splitBasic cs).map fun (raw, rest) => (c :: raw, rest)

/-- What follows the three closing quotes of a string, and the one or two quotes before them that
still belong to it. -/
def closing (quote : Char) : List Char → Option (List Char × List Char)
  | a :: b :: c :: cs =>
    if a = quote ∧ b = quote ∧ c = quote then
      let more := (cs.take 2).takeWhile (· == quote)
      some (more, cs.drop more.length)
    else none
  | _ => none

/-- A string on several lines as it is written, up to its closing quotes. What follows a backslash
never closes one in double quotes. -/
def splitLong (quote : Char) : List Char → Option (List Char × List Char)
  | [] => none
  | c :: cs =>
    match closing quote (c :: cs) with
    | some closed => some closed
    | none =>
      match cs with
      | d :: ds =>
        if c == '\\' && quote == '"' then
          (splitLong quote ds).map fun (raw, rest) => (c :: d :: raw, rest)
        else (splitLong quote (d :: ds)).map fun (raw, rest) => (c :: raw, rest)
      | [] => none

/-- The characters of a text on several lines. Breaks are kept as they are written. -/
def isLines : List Char → Bool
  | [] => true
  | '\r' :: '\n' :: cs => isLines cs
  | c :: cs => (isText c || c == '\n') && isLines cs

/-- A backslash at the end of a line hides the break and the white space behind it. -/
def afterHiddenBreak (cs : List Char) : Option (List Char) :=
  (afterBreak (skipSpaces cs)).map skipBreaks

/-- A text with escapes, on one line or on several. Each step uses up a character. -/
def unescape (long : Bool) : Nat → List Char → Option (List Char)
  | _, [] => some []
  | 0, _ => none
  | fuel + 1, '\\' :: cs =>
    match if long then afterHiddenBreak cs else none with
    | some cs => unescape long fuel cs
    | none => do
      let (c, cs) ← readEscape cs
      return c :: (← unescape long fuel cs)
  | fuel + 1, '\r' :: '\n' :: cs =>
    if long then (unescape long fuel cs).map fun text => '\r' :: '\n' :: text else none
  | fuel + 1, c :: cs =>
    if isText c || (long && c == '\n') then (unescape long fuel cs).map (c :: ·) else none

/-- A string on one line, up to its closing quote. -/
def readBasic (cs : List Char) : Option (List Char × List Char) := do
  let (raw, rest) ← splitBasic cs
  return (← unescape false raw.length raw, rest)

/-- A string on one line without escapes, up to its closing quote. -/
def readLiteral (cs : List Char) : Option (List Char × List Char) :=
  let isContent (c : Char) : Bool := isText c && c != '\''
  match cs.dropWhile isContent with
  | '\'' :: rest => some (cs.takeWhile isContent, rest)
  | _ => none

/-- A string on several lines. A break right behind the opening quotes is left out, and single
quotes know no escapes. -/
def readLong (quote : Char) (cs : List Char) : Option (List Char × List Char) := do
  let (raw, rest) ← splitLong quote ((afterBreak cs).getD cs)
  if quote = '"' then return (← unescape true raw.length raw, rest)
  else if isLines raw then return (raw, rest)
  else none

/-- A string on one line, in either kind of quotes. -/
def readShort : List Char → Option (String × List Char)
  | '"' :: cs => (readBasic cs).map fun (text, cs) => (.ofList text, cs)
  | '\'' :: cs => (readLiteral cs).map fun (text, cs) => (.ofList text, cs)
  | _ => none

/-- A string. -/
def readString : List Char → Option (String × List Char)
  | '"' :: '"' :: '"' :: cs => (readLong '"' cs).map fun (text, cs) => (.ofList text, cs)
  | '\'' :: '\'' :: '\'' :: cs => (readLong '\'' cs).map fun (text, cs) => (.ofList text, cs)
  | cs => readShort cs

/-! ### Keys -/

def isBareChar (c : Char) : Bool := c.isAlphanum || c == '_' || c == '-'

/-- One part of a key. -/
def readKeyPart (cs : List Char) : Option (String × List Char) :=
  match cs.takeWhile isBareChar with
  | [] => readShort cs
  | name => some (.ofList name, cs.dropWhile isBareChar)

/-- Parts with points between them, so many at most. -/
def readKeyParts : Nat → List Char → Option (List String × List Char)
  | 0, _ => none
  | count + 1, cs => do
    let (part, cs) ← readKeyPart (skipSpaces cs)
    match skipSpaces cs with
    | '.' :: cs =>
      let (parts, cs) ← readKeyParts count cs
      return (part :: parts, cs)
    | cs => return ([part], cs)

/-- A key, and what follows it behind white space. -/
def readKey : List Char → Option (List String × List Char) := readKeyParts maxDepth

/-! ### Values -/

def isWordChar (c : Char) : Bool :=
  c.isAlphanum || c == '+' || c == '-' || c == '_' || c == '.' || c == ':'

/-- A word. A date may have a time behind a space. -/
def readWord (cs : List Char) : Option (Setting × List Char) :=
  let word := cs.takeWhile isWordChar
  let rest := cs.dropWhile isWordChar
  let (word, rest) := match (readDate word).map (·.2), rest with
    | some [], ' ' :: c :: more =>
      if isDigit c then
        (word ++ ' ' :: (c :: more).takeWhile isWordChar, (c :: more).dropWhile isWordChar)
      else (word, rest)
    | _, _ => (word, rest)
  (readScalar word).map (·, rest)

mutual

/-- One value, in which so many levels of lists and tables may stand. The fuel bounds the number of
steps; twice the length of the text is enough. -/
def readValue : Nat → Nat → List Char → Option (Setting × List Char)
  | 0, _, _ => none
  | fuel + 1, depth, cs =>
    match cs, depth with
    | '"' :: _, _ | '\'' :: _, _ => (readString cs).map fun (s, cs) => (.text s, cs)
    | '[' :: cs, depth + 1 => (readItems fuel depth cs).map fun (items, cs) => (.list items, cs)
    | '{' :: cs, depth + 1 => do
      let (values, cs) ← readMembers fuel depth cs
      let members ← addValues values []
      return (.table (settings members), cs)
    | '[' :: _, 0 | '{' :: _, 0 => none
    | cs, _ => readWord cs

/-- The items of a list up to its closing bracket. -/
def readItems : Nat → Nat → List Char → Option (List Setting × List Char)
  | 0, _, _ => none
  | fuel + 1, depth, cs =>
    match skipLines cs with
    | ']' :: cs => some ([], cs)
    | cs => do
      let (item, cs) ← readValue fuel depth cs
      match skipLines cs with
      | ',' :: cs =>
        let (items, cs) ← readItems fuel depth cs
        return (item :: items, cs)
      | ']' :: cs => return ([item], cs)
      | _ => none

/-- The members of a table in braces up to its closing brace. -/
def readMembers : Nat → Nat → List Char → Option (List (List String × Setting) × List Char)
  | 0, _, _ => none
  | fuel + 1, depth, cs =>
    match skipLines cs with
    | '}' :: cs => some ([], cs)
    | cs => do
      let (key, cs) ← readKey cs
      match skipLines cs with
      | '=' :: cs =>
        let (value, cs) ← readValue fuel depth (skipLines cs)
        match skipLines cs with
        | ',' :: cs =>
          let (members, cs) ← readMembers fuel depth cs
          return ((key, value) :: members, cs)
        | '}' :: cs => return ([(key, value)], cs)
        | _ => none
      | _ => none

end

/-! ### Documents -/

/-- A line of a document that says something. -/
inductive Line
  | value (key : List String) (v : Setting)
  | header (key : List String)
  | listHeader (key : List String)

/-- A line from its first character on. The fuel is for its value. -/
def readLine (fuel : Nat) : List Char → Option (Line × List Char)
  | '[' :: '[' :: cs => do
    let (key, cs) ← readKey cs
    match cs with
    | ']' :: ']' :: cs => return (.listHeader key, ← endLine cs)
    | _ => none
  | '[' :: cs => do
    let (key, cs) ← readKey cs
    match cs with
    | ']' :: cs => return (.header key, ← endLine cs)
    | _ => none
  | cs => do
    let (key, cs) ← readKey cs
    match cs with
    | '=' :: cs =>
      let (v, cs) ← readValue fuel maxDepth (skipSpaces cs)
      return (.value key v, ← endLine cs)
    | _ => none

/-- All lines, so many at most. The fuel is for the value of each of them. -/
def linesOf (fuel : Nat) : Nat → List Char → Option (List Line)
  | 0, _ => none
  | count + 1, cs =>
    match skipLines cs with
    | [] => some []
    | cs => do
      let (line, cs) ← readLine fuel cs
      return line :: (← linesOf fuel count cs)

/-- The values up to the next header, and the lines from there on. -/
def splitValues : List Line → List (List String × Setting) × List Line
  | .value key v :: lines =>
    let (values, lines) := splitValues lines
    ((key, v) :: values, lines)
  | lines => ([], lines)

/-- Adds the tables of the headers with all that stands under them. The fuel bounds their number. -/
def addSections : Nat → List Line → Members → Option Members
  | 0, _, ms => some ms
  | fuel + 1, lines, ms =>
    match lines with
    | .header key :: lines =>
      let (values, lines) := splitValues lines
      (descend (openTable values) key ms).bind (addSections fuel lines)
    | .listHeader key :: lines =>
      let (values, lines) := splitValues lines
      (descend (appendTable values) key ms).bind (addSections fuel lines)
    | _ => some ms

/-- A mark of byte order at the front says nothing. -/
def skipMark : List Char → List Char
  | '\ufeff' :: cs => cs
  | cs => cs

/-- Reads a document as its members. It may have two marks of byte order in front, one for the file
and one for the text in it. -/
def read (s : String) : Option (List (String × Setting)) := do
  let cs := skipMark (skipMark s.toList)
  let length := cs.length
  let lines ← linesOf (2 * length + 2) (length + 1) cs
  let (values, rest) := splitValues lines
  let members ← addValues values []
  return settings (← addSections rest.length rest members)

end InstrumentBus.Toml
