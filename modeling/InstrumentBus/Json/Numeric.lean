import InstrumentBus.Json.Syntax

/-!
What the numbers of a JSON text are worth.

An integer keeps its exact value while it fits 64 bits. Any other number is a double: its digits are
gathered in 64 bits, digits that no longer fit are dropped, and the double nearest to the gathered
digits is scaled by the double nearest to a power of ten. A number beyond the largest double has no
value.
-/

namespace InstrumentBus.Json

open Number

inductive Numeric
  | unsigned (n : UInt64)
  | negative (n : Int64)
  | float (x : Double)
  deriving DecidableEq, Repr

namespace Numeric

/-- Gathers digits as long as the result fits 64 bits, and gives the digits that are left. -/
def gather : Nat → List Char → Nat × List Char
  | n, [] => (n, [])
  | n, c :: cs =>
    let next := n * 10 + (c.toNat - '0'.toNat)
    if next < UInt64.size then gather next cs else (n, c :: cs)

/-- The largest power of ten by which a number is scaled at once. -/
def maxPower : Nat := 308

def powerOfTen (n : Nat) : Double := .ofQuotient false (Nat.pow 10 n) 1

/-- Scales by a power of ten. A number that is scaled down by more than the largest power vanishes
within four steps. -/
def scale : Nat → Double → Int → Option Double
  | 0, x, _ => some x
  | fuel + 1, x, power =>
    if power.natAbs ≤ maxPower then
      if 0 ≤ power then
        let y := x.mul (powerOfTen power.natAbs)
        if y.isInfinite then none else some y
      else some (x.div (powerOfTen power.natAbs))
    else if x.isZero then some x
    else if 0 ≤ power then none
    else scale fuel (x.div (powerOfTen maxPower)) (power + maxPower)

/-- The largest exponent that is read to its last digit. -/
def maxExponent : Nat := 0x7fffffff

/-- The value of a number with a point, a power or more digits than 64 bits hold. -/
def float? (n : NumberText) : Option Double :=
  let (digits, dropped) := gather 0 n.whole
  let fraction := n.fraction.getD []
  let (digits, unused) := gather digits fraction
  let start : Int := dropped.length - (fraction.length - unused.length : Nat)
  let unsigned := match n.exponent with
    | none => scale 4 (.ofInt digits) start
    | some (down, power) =>
      let power := digitsToNat power
      if power ≤ maxExponent then
        scale 4 (.ofInt digits) (if down then start - power else start + power)
      else if digits ≠ 0 ∧ ¬ down then none
      else some (.zero false)
  unsigned.map fun x => if n.negative then x.neg else x

/-- The value of a number. Minus zero is a double. -/
def ofText? (n : NumberText) : Option Numeric :=
  match n.fraction, n.exponent with
  | none, none =>
    let value := digitsToNat n.whole
    if ¬ n.negative then
      if value < UInt64.size then some (.unsigned (.ofNat value)) else (float? n).map .float
    else if value ≠ 0 ∧ value ≤ 0x8000000000000000 then some (.negative (.ofInt (-value)))
    else (float? n).map .float
  | _, _ => (float? n).map .float

/-- The number as a double. -/
def toDouble : Numeric → Double
  | unsigned n => .ofInt n.toNat
  | negative n => .ofInt n.toInt
  | float x => x

end Numeric
end InstrumentBus.Json
