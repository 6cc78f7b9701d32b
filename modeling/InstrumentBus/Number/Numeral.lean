import InstrumentBus.Number.Digits
import InstrumentBus.Number.Shortest

/-!
Numbers written as text: integers in base ten or sixteen, and decimals with a point and a power.
-/

namespace InstrumentBus.Number

/-- The value of a digit in bases up to sixteen. -/
def digitValue (c : Char) : Option Nat :=
  if '0' ≤ c ∧ c ≤ '9' then some (c.toNat - '0'.toNat)
  else if 'a' ≤ c ∧ c ≤ 'f' then some (c.toNat - 'a'.toNat + 10)
  else if 'A' ≤ c ∧ c ≤ 'F' then some (c.toNat - 'A'.toNat + 10)
  else none

/-- The value of a digit of a base. -/
def digitOf? (base : Nat) (c : Char) : Option Nat := (digitValue c).filter (· < base)

/-- A number of one digit or more. -/
def readNat (base : Nat) (cs : List Char) : Option Nat :=
  if cs = [] then none else (cs.mapM (digitOf? base)).map (fromDigits base)

/-- Digits after an optional sign. -/
def readInt (base : Nat) : List Char → Option Int
  | '+' :: cs => (readNat base cs).map Int.ofNat
  | '-' :: cs => (readNat base cs).map fun n => -(n : Int)
  | cs => (readNat base cs).map Int.ofNat

/-- The integers of 64 bits. -/
def fits64 (n : Int) : Bool := -0x8000000000000000 ≤ n && n < 0x8000000000000000

/-- The first integer that 128 bits do not hold. -/
def limit128 : Int := 0x80000000000000000000000000000000

/-- The integers of 128 bits. -/
def fits128 (n : Int) : Bool := -limit128 ≤ n && n < limit128

/-- An integer of 128 bits, in base sixteen behind `0x`. -/
def readInteger (cs : List Char) : Option Int :=
  let n := match cs with
    | '0' :: 'x' :: digits | '0' :: 'X' :: digits => readInt 16 digits
    | digits => readInt 10 digits
  n.filter fits128

def isDigit (c : Char) : Bool := '0' ≤ c && c ≤ '9'

/-- The number that digits in base ten stand for. -/
def digitsToNat (cs : List Char) : Nat := fromDigits 10 (cs.map fun c => c.toNat - '0'.toNat)

/-- The number that the digits of a power stand for, up to the digit with which it reaches 0x10000.
What follows is left out: with fewer than 0x10000 digits a decimal is out of range either way. -/
def powerOfDigits (cs : List Char) : Nat :=
  cs.foldl (fun n c => if n < 0x10000 then n * 10 + (c.toNat - '0'.toNat) else n) 0

/-- The number nearest to a decimal. Decimals far beyond either end of the format are decided by
their power alone. -/
def Double.ofDecimal (negative : Bool) (d : Decimal) : Double :=
  if d.digits = 0 then zero negative
  else if 400 < d.exponent then infinity negative
  else if d.exponent < -(400 + d.digits.log2 : Int) then zero negative
  else ofQuotient negative (d.digits * Nat.pow 10 d.exponent.toNat)
    (Nat.pow 10 (-d.exponent).toNat)

/-- A power with its sign, if there is one. -/
def readSignedPower (cs : List Char) : Option Int :=
  let (negative, cs) := match cs with
    | '-' :: cs => (true, cs)
    | '+' :: cs => (false, cs)
    | cs => (false, cs)
  if cs = [] ∨ !cs.all isDigit then none
  else some (if negative then -(powerOfDigits cs : Int) else powerOfDigits cs)

/-- The power behind the digits of a decimal: nothing, or `e` and an integer. -/
def readPower : List Char → Option Int
  | [] => some 0
  | c :: cs => if c = 'e' ∨ c = 'E' then readSignedPower cs else none

/-- Digits with at most one point among them, and a power. -/
def readDecimal (cs : List Char) : Option Decimal :=
  let whole := cs.takeWhile isDigit
  let rest := cs.dropWhile isDigit
  let (part, rest) := match rest with
    | '.' :: rest => (rest.takeWhile isDigit, rest.dropWhile isDigit)
    | rest => ([], rest)
  if whole = [] ∧ part = [] then none
  else (readPower rest).map fun power =>
    ⟨digitsToNat (whole ++ part), power - part.length⟩

/-- A decimal, `inf`, `infinity` or `nan`, after an optional sign. -/
def readDouble (cs : List Char) : Option Double :=
  let (negative, cs) := match cs with
    | '-' :: cs => (true, cs)
    | '+' :: cs => (false, cs)
    | cs => (false, cs)
  let word := String.ofList (cs.map Char.toLower)
  if word = "inf" ∨ word = "infinity" then some (.infinity negative)
  else if word = "nan" then some .nan
  else (readDecimal cs).map (Double.ofDecimal negative)

/-- A number of a format as people read it: the shortest digits that read back, never with a power,
and a number halfway between two such texts takes the upper one. -/
def Format.display (f : Format) : Datum → String
  | .nan => "NaN"
  | .infinite negative => if negative then "-inf" else "inf"
  | .finite negative units =>
    (if negative then "-" else "") ++
      if units = 0 then "0" else (f.shortest true units).positional ""

def Double.display (x : Double) : String := Format.double.display x.datum

def Single.display (x : Single) : String := Format.single.display x.datum

end InstrumentBus.Number
