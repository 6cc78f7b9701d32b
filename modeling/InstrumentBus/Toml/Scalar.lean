import InstrumentBus.Config.Setting

/-!
The scalars of TOML that stand without quotes: truth values, integers, decimals, dates and times.

A date or time is checked and kept as text in its normal form.
-/

namespace InstrumentBus.Toml

open Number

/-! ### Numbers -/

/-- Digits with single underscores between them, without the underscores. -/
def withoutBars (isDigit : Char → Bool) : List Char → Option (List Char)
  | [] => none
  | [c] => if isDigit c then some [c] else none
  | c :: '_' :: cs => if isDigit c then (withoutBars isDigit cs).map (c :: ·) else none
  | c :: cs => if isDigit c then (withoutBars isDigit cs).map (c :: ·) else none

/-- Digits of a base. -/
def readBase (base : Nat) (cs : List Char) : Option Nat :=
  let isDigit (c : Char) : Bool := (digitValue c).any (· < base)
  (withoutBars isDigit cs).bind (readNat base)

/-- A number in base ten: no zero stands in front of another digit. -/
def readWhole (cs : List Char) : Option (List Char) :=
  match withoutBars isDigit cs with
  | some ('0' :: _ :: _) => none
  | digits => digits

/-- A sign and what follows it. -/
def splitSign : List Char → Bool × List Char
  | '-' :: cs => (true, cs)
  | '+' :: cs => (false, cs)
  | cs => (false, cs)

def readInteger (cs : List Char) : Option Int :=
  let n : Option Int := match cs with
    | '0' :: 'x' :: cs => (readBase 16 cs).map Int.ofNat
    | '0' :: 'o' :: cs => (readBase 8 cs).map Int.ofNat
    | '0' :: 'b' :: cs => (readBase 2 cs).map Int.ofNat
    | cs =>
      let (negative, cs) := splitSign cs
      (readWhole cs).map fun digits =>
        if negative then -(digitsToNat digits : Int) else digitsToNat digits
  n.filter fits64

/-- The power of a decimal, behind its `e`. -/
def readPower (cs : List Char) : Option Int :=
  let (negative, cs) := splitSign cs
  (withoutBars isDigit cs).map fun digits =>
    if negative then -(powerOfDigits digits : Int) else powerOfDigits digits

def isDigitOrBar (c : Char) : Bool := isDigit c || c == '_'

/-- A decimal has digits behind a point, or a power, or both. -/
def readDecimal (cs : List Char) : Option Decimal := do
  let whole ← readWhole (cs.takeWhile isDigitOrBar)
  let (fraction, rest) ← match cs.dropWhile isDigitOrBar with
    | '.' :: rest =>
      (withoutBars isDigit (rest.takeWhile isDigitOrBar)).map fun digits =>
        (digits, rest.dropWhile isDigitOrBar)
    | 'e' :: rest => some ([], 'e' :: rest)
    | 'E' :: rest => some ([], 'E' :: rest)
    | _ => none
  let power ← match rest with
    | [] => some 0
    | c :: rest => if c == 'e' || c == 'E' then readPower rest else none
  return ⟨digitsToNat (whole ++ fraction), power - fraction.length⟩

/-- A number with a fraction. One beyond the largest double is refused. -/
def readNumber (cs : List Char) : Option Double :=
  let (negative, cs) := splitSign cs
  match String.ofList cs with
  | "inf" => some (.infinity negative)
  | "nan" => some .nan
  | _ => ((readDecimal cs).map (Double.ofDecimal negative)).filter (!·.isInfinite)

/-! ### Dates and times -/

/-- So many digits. -/
def readFixed (count : Nat) (cs : List Char) : Option (Nat × List Char) :=
  let digits := cs.take count
  if digits.length = count ∧ digits.all isDigit then some (digitsToNat digits, cs.drop count)
  else none

/-- A number in so many digits. -/
def showFixed (count n : Nat) : String :=
  let digits := Nat.toDigits 10 n
  .ofList (List.replicate (count - digits.length) '0' ++ digits)

def isLeapYear (year : Nat) : Bool := (year % 4 == 0 && year % 100 != 0) || year % 400 == 0

def daysIn (year month : Nat) : Nat :=
  if month = 2 then if isLeapYear year then 29 else 28
  else if month = 4 ∨ month = 6 ∨ month = 9 ∨ month = 11 then 30
  else 31

/-- A character that has to come next. -/
def expect (c : Char) : List Char → Option (List Char)
  | d :: cs => if d = c then some cs else none
  | [] => none

/-- A date, such as `1979-05-27`. -/
def readDate (cs : List Char) : Option (String × List Char) := do
  let (year, cs) ← readFixed 4 cs
  let (month, cs) ← readFixed 2 (← expect '-' cs)
  let (day, cs) ← readFixed 2 (← expect '-' cs)
  if 1 ≤ month ∧ month ≤ 12 ∧ 1 ≤ day ∧ day ≤ daysIn year month then
    return (showFixed 4 year ++ "-" ++ showFixed 2 month ++ "-" ++ showFixed 2 day, cs)
  else none

/-- The digits of a fraction: the first nine, without zeros at the end except for a first one. -/
def trimFraction (digits : List Char) : List Char :=
  match ((digits.take 9).reverse.dropWhile (· == '0')).reverse with
  | [] => ['0']
  | kept => kept

/-- The fraction of a second behind a point, if one is given. -/
def readFraction : List Char → Option (String × List Char)
  | '.' :: cs =>
    match cs.takeWhile isDigit with
    | [] => none
    | digits => some (.ofList ('.' :: trimFraction digits), cs.dropWhile isDigit)
  | cs => some ("", cs)

/-- The seconds behind a colon, if they are given. The last minute of a day may have sixty-one. -/
def readSeconds : List Char → Option (String × List Char)
  | ':' :: cs => do
    let (second, cs) ← readFixed 2 cs
    let (fraction, cs) ← readFraction cs
    if second ≤ 60 then return (":" ++ showFixed 2 second ++ fraction, cs) else none
  | cs => some ("", cs)

/-- A time of day, such as `07:32` or `07:32:00.5`. -/
def readTime (cs : List Char) : Option (String × List Char) := do
  let (hour, cs) ← readFixed 2 cs
  let (minute, cs) ← readFixed 2 (← expect ':' cs)
  let (seconds, cs) ← readSeconds cs
  if hour ≤ 23 ∧ minute ≤ 59 then
    return (showFixed 2 hour ++ ":" ++ showFixed 2 minute ++ seconds, cs)
  else none

/-- The distance from universal time, if one is given. -/
def readOffset : List Char → Option String
  | [] => some ""
  | ['Z'] | ['z'] => some "Z"
  | sign :: cs => do
    if sign != '+' && sign != '-' then none
    else
      let (hour, cs) ← readFixed 2 cs
      let (minute, cs) ← readFixed 2 (← expect ':' cs)
      if hour ≤ 23 ∧ minute ≤ 59 ∧ cs = [] then
        let sign := if hour = 0 ∧ minute = 0 then '+' else sign
        return String.ofList [sign] ++ showFixed 2 hour ++ ":" ++ showFixed 2 minute
      else none

/-- A time, or a date, or both, and then perhaps an offset. -/
def readMoment (cs : List Char) : Option String :=
  match readTime cs with
  | some (time, []) => some time
  | _ =>
    match readDate cs with
    | none => none
    | some (date, []) => some date
    | some (date, c :: cs) =>
      if c = 'T' ∨ c = 't' ∨ c = ' ' then do
        let (time, cs) ← readTime cs
        let offset ← readOffset cs
        return date ++ "T" ++ time ++ offset
      else none

/-! ### All of them -/

/-- The scalar that a word spells. -/
def readScalar (cs : List Char) : Option Setting :=
  match String.ofList cs with
  | "true" => some (.bool true)
  | "false" => some (.bool false)
  | _ =>
    match readInteger cs with
    | some n => some (.integer n)
    | none =>
      match readNumber cs with
      | some x => some (.number x)
      | none => (readMoment cs).map .text

end InstrumentBus.Toml
