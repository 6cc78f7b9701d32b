/-!
Binary floating point in the two interchange formats, as data.

A finite number is a sign and a count of the format's smallest positive number, its unit, so that
comparing, rounding and converting are arithmetic on natural numbers. `Format.round` takes the
exact value of a quotient to the nearest number of a format, a tie to the even neighbour and what
lies beyond the largest number to infinity.
-/

namespace InstrumentBus.Number

/-- A binary interchange format, by the widths of its fields. -/
structure Format where
  exponentBits : Nat
  fractionBits : Nat
  deriving DecidableEq, Repr

namespace Format

def single : Format := ⟨8, 23⟩

def double : Format := ⟨11, 52⟩

variable (f : Format)

/-- The exponent field of infinity and of what is not a number. -/
def topExponent : Nat := Nat.pow 2 f.exponentBits - 1

/-- The smallest positive number is two to the minus this. -/
def unitBits : Nat := Nat.pow 2 (f.exponentBits - 1) - 2 + f.fractionBits

/-- The bits of positive infinity. -/
def infinityBits : Nat := f.topExponent * Nat.pow 2 f.fractionBits

/-- The weight of the sign bit. -/
def signBit : Nat := Nat.pow 2 (f.exponentBits + f.fractionBits)

end Format

/-- What the bits of a floating-point number mean. -/
inductive Datum
  | nan
  | infinite (negative : Bool)
  | finite (negative : Bool) (units : Nat)
  deriving DecidableEq, Repr

/-- The value of a bit pattern, a finite one in units of the format. -/
def Format.decode (f : Format) (bits : Nat) : Datum :=
  let fraction := bits % Nat.pow 2 f.fractionBits
  let exponent := bits / Nat.pow 2 f.fractionBits % Nat.pow 2 f.exponentBits
  let negative := f.signBit ≤ bits
  if exponent = f.topExponent then
    if fraction = 0 then .infinite negative else .nan
  else if exponent = 0 then .finite negative fraction
  else .finite negative ((Nat.pow 2 f.fractionBits + fraction) * Nat.pow 2 (exponent - 1))

/-- The quotient rounded to the nearest integer, a tie to the even one. -/
def roundHalfEven (num den : Nat) : Nat :=
  let q := num / den
  let r := num % den
  if 2 * r < den then q
  else if den < 2 * r then q + 1
  else if q % 2 = 0 then q else q + 1

/-- The bits of the number nearest to `num / den` units. -/
def Format.roundUnits (f : Format) (num den : Nat) : Nat :=
  let shift := (num / den).log2 - f.fractionBits
  min f.infinityBits (shift * Nat.pow 2 f.fractionBits + roundHalfEven num (den * Nat.pow 2 shift))

/-- The bits of the number nearest to `num / den`, with a sign. -/
def Format.round (f : Format) (negative : Bool) (num den : Nat) : Nat :=
  f.roundUnits (num * Nat.pow 2 f.unitBits) den + if negative then f.signBit else 0

namespace Datum

/-- A count of units with its sign. -/
def signed (negative : Bool) (units : Nat) : Int :=
  if negative then -(units : Int) else units

/-- How two numbers of one format compare; a value that is not a number compares with none. Zeros
are equal whatever their sign. -/
def compare : Datum → Datum → Option Ordering
  | nan, _ | _, nan => none
  | infinite s, infinite t => some (if s = t then .eq else if s then .lt else .gt)
  | infinite s, finite _ _ => some (if s then .lt else .gt)
  | finite _ _, infinite t => some (if t then .gt else .lt)
  | finite s m, finite t n => some (Ord.compare (signed s m) (signed t n))

def equal (a b : Datum) : Bool := a.compare b == some .eq

def less (a b : Datum) : Bool := a.compare b == some .lt

def isZero : Datum → Bool
  | finite _ units => units == 0
  | _ => false

/-- The nearest integer of a finite number whose unit is two to the minus `unitBits`; a half goes
away from zero. -/
def toInt? (unitBits : Nat) : Datum → Option Int
  | finite negative units =>
    some (signed negative ((2 * units + Nat.pow 2 unitBits) / (2 * Nat.pow 2 unitBits)))
  | _ => none

end Datum

/-- The number of another format nearest to a datum. -/
def Format.convert (target source : Format) : Datum → Nat
  | .nan => target.infinityBits + Nat.pow 2 (target.fractionBits - 1)
  | .infinite negative => target.infinityBits + if negative then target.signBit else 0
  | .finite negative units => target.round negative units (Nat.pow 2 source.unitBits)

/-- A 32-bit floating-point number. -/
structure Single where
  bits : UInt32
  deriving DecidableEq, Repr

/-- A 64-bit floating-point number. -/
structure Double where
  bits : UInt64
  deriving DecidableEq, Repr

namespace Single

def datum (x : Single) : Datum := Format.single.decode x.bits.toNat

def isNaN (x : Single) : Bool := x.datum == .nan

/-- The same number with 64 bits. -/
def toDouble (x : Single) : Double := ⟨.ofNat (Format.double.convert Format.single x.datum)⟩

end Single

namespace Double

def datum (x : Double) : Datum := Format.double.decode x.bits.toNat

def isNaN (x : Double) : Bool := x.datum == .nan

/-- The nearest number with 32 bits. -/
def toSingle (x : Double) : Single := ⟨.ofNat (Format.single.convert Format.double x.datum)⟩

/-- The number nearest to `num / den`. -/
def ofQuotient (negative : Bool) (num den : Nat) : Double :=
  ⟨.ofNat (Format.double.round negative num den)⟩

/-- The number nearest to an integer. -/
def ofInt (n : Int) : Double := ofQuotient (decide (n < 0)) n.natAbs 1

def infinity (negative : Bool) : Double :=
  ⟨.ofNat (Format.double.convert Format.double (.infinite negative))⟩

def nan : Double := ⟨.ofNat (Format.double.convert Format.double .nan)⟩

def zero (negative : Bool) : Double := ofQuotient negative 0 1

/-- The nearest integer of a finite number, a half away from zero. -/
def toInt? (x : Double) : Option Int := x.datum.toInt? Format.double.unitBits

/-- The product of two finite numbers, rounded. -/
def mul (x y : Double) : Double :=
  match x.datum, y.datum with
  | .finite s m, .finite t n =>
    ⟨.ofNat (Format.double.round (s != t) (m * n) (Nat.pow 2 (2 * Format.double.unitBits)))⟩
  | _, _ => nan

/-- The quotient of two finite numbers, rounded; the divisor is not zero. -/
def div (x y : Double) : Double :=
  match x.datum, y.datum with
  | .finite s m, .finite t n => ofQuotient (s != t) m n
  | _, _ => nan

def isInfinite (x : Double) : Bool :=
  match x.datum with
  | .infinite _ => true
  | _ => false

def isZero (x : Double) : Bool := x.datum.isZero

/-- The number with the other sign. -/
def neg (x : Double) : Double :=
  match x.datum with
  | .nan => x
  | .infinite negative => infinity !negative
  | .finite negative units => ofQuotient (!negative) units (Nat.pow 2 Format.double.unitBits)

end Double
end InstrumentBus.Number
