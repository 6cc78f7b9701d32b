import InstrumentBus.Number.Binary

/-!
The fewest decimal digits that read back as a given floating-point number.

The reals that round to a number form an interval; its ends belong to it if the number's last bit
is zero. For one, two, … digits the two neighbours of the number on that decimal grid are tried:
the first grid with a point in the interval wins, of two such points the nearer one.
-/

namespace InstrumentBus.Number

/-- The decimal `digits · 10 ^ exponent`. -/
structure Decimal where
  digits : Nat
  exponent : Int
  deriving DecidableEq, Repr

namespace Decimal

/-- Drops trailing zeros, at most `fuel` of them. -/
def trim : Nat → Decimal → Decimal
  | 0, d => d
  | fuel + 1, d =>
    if d.digits ≠ 0 ∧ d.digits % 10 = 0 then trim fuel ⟨d.digits / 10, d.exponent + 1⟩ else d

end Decimal

/-- The number of decimal digits of a natural number, counted up to `fuel`. -/
def decimalLength : Nat → Nat → Nat
  | 0, _ => 0
  | fuel + 1, n => if n = 0 then 0 else decimalLength fuel (n / 10) + 1

/-- The reals that round to a number, over one denominator. -/
structure Interval where
  low : Nat
  value : Nat
  high : Nat
  den : Nat
  closed : Bool

/-- The interval of the number of a format with `units` units, which are not zero. -/
def Format.interval (f : Format) (units : Nat) : Interval :=
  let gap := Nat.pow 2 (units.log2 - f.fractionBits)
  let below := if units = Nat.pow 2 f.fractionBits * gap ∧ 1 < gap then gap / 2 else gap
  { low := 4 * units - 2 * below
    value := 4 * units
    high := 4 * units + 2 * gap
    den := 4 * Nat.pow 2 f.unitBits
    closed := units / gap % 2 = 0 }

namespace Interval

variable (i : Interval)

/-- `digits · 10 ^ exponent` lies in the interval. -/
def contains (d : Decimal) : Bool :=
  let point := d.digits * Nat.pow 10 d.exponent.toNat * i.den
  let scale := Nat.pow 10 (-d.exponent).toNat
  if i.closed then i.low * scale ≤ point && point ≤ i.high * scale
  else i.low * scale < point && point < i.high * scale

/-- The grid point at or below the value for one power of ten. -/
def floor (exponent : Int) : Nat :=
  i.value * Nat.pow 10 (-exponent).toNat / (i.den * Nat.pow 10 exponent.toNat)

/-- The power of ten of the value's first digit. -/
def magnitude : Int :=
  if i.den ≤ i.value then (decimalLength 400 (i.value / i.den) : Int) - 1
  else
    -- the least power of ten by which the value becomes one or more
    Int.negOfNat (decimalLength 400 ((i.den - 1) / i.value))

/-- The better of the two neighbours of the value on the grid of `10 ^ exponent`. -/
def onGrid? (tieUp : Bool) (exponent : Int) : Option Decimal :=
  let below : Decimal := ⟨i.floor exponent, exponent⟩
  let above : Decimal := ⟨i.floor exponent + 1, exponent⟩
  match i.contains below && below.digits != 0, i.contains above with
  | false, false => none
  | true, false => some below
  | false, true => some above
  | true, true =>
    let twice := 2 * i.value * Nat.pow 10 (-exponent).toNat
    let middle := (below.digits + above.digits) * (i.den * Nat.pow 10 exponent.toNat)
    if twice < middle then some below
    else if middle < twice then some above
    else if tieUp then some above
    else some (if below.digits % 2 = 0 then below else above)

/-- Tries grids of more and more digits. -/
def search (tieUp : Bool) : Nat → Int → Decimal
  | 0, exponent => ⟨i.floor exponent, exponent⟩
  | fuel + 1, exponent => (i.onGrid? tieUp exponent).getD (search tieUp fuel (exponent - 1))

end Interval

/-- The shortest decimal that rounds to a positive number, without trailing zeros. A number halfway
between two shortest decimals takes the upper one if `tieUp`, else the even one. -/
def Format.shortest (f : Format) (tieUp : Bool) (units : Nat) : Decimal :=
  let i := f.interval units
  (i.search tieUp 17 i.magnitude).trim 20

/-- A decimal in positional notation. -/
def Decimal.positional (d : Decimal) (integerTail : String) : String :=
  let text := (toString d.digits).toList
  if 0 ≤ d.exponent then
    .ofList (text ++ List.replicate d.exponent.toNat '0') ++ integerTail
  else
    let places := (-d.exponent).toNat
    let padded := List.replicate (places + 1 - text.length) '0' ++ text
    .ofList (padded.take (padded.length - places) ++ '.' :: padded.drop (padded.length - places))

/-- A decimal with one digit before the point and a signed exponent. -/
def Decimal.scientific (d : Decimal) : String :=
  let text := (toString d.digits).toList
  let power : Int := d.exponent + (text.length - 1 : Nat)
  let mantissa := match text with
    | first :: [] => [first]
    | first :: rest => first :: '.' :: rest
    | [] => []
  .ofList mantissa ++ (if power < 0 then "e-" else "e+") ++ toString power.natAbs

end InstrumentBus.Number
