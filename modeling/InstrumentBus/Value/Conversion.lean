import InstrumentBus.Value.Basic
import InstrumentBus.Text.Blank
import InstrumentBus.Json.Document

/-!
Reading a value as another kind.

`Value.asType` gives a value of the wanted kind or fails. Numerals in text are read, fractions are
rounded to integers with a half away from zero, and an integer must fit its kind.
-/

namespace InstrumentBus

open Number

namespace Value

/-- The words for true and false, in small letters. -/
def truthOfWord? (word : String) : Option Bool :=
  match word with
  | "1" | "true" | "on" | "yes" | "enable" | "enabled" => some true
  | "0" | "false" | "off" | "no" | "disable" | "disabled" => some false
  | _ => none

/-- A text as a truth value: one of the words in any letter case, white space around it left out. -/
def truthOfText? (s : String) : Option Bool :=
  truthOfWord? (.ofList ((Text.trim s.toList).map Char.toLower))

/-- The value as a truth value; a number is true if it is not zero. -/
def toBool : Value → Except StatusCode Bool
  | str s | json s =>
    match truthOfText? s with
    | some b => .ok b
    | none => .error .parameterInvalid
  | f32 x => .ok !x.datum.isZero
  | f64 x => .ok !x.datum.isZero
  | null | bin _ => .error .parameterInvalid
  | v => .ok (v.integer? != some 0)

/-- The integer of 128 bits that is nearest to an integer. -/
def clamp128 (n : Int) : Int := max (-limit128) (min n (limit128 - 1))

/-- The integer nearest to a finite number. -/
def roundDouble (x : Double) : Except StatusCode Int :=
  match x.toInt? with
  | some n => .ok (clamp128 n)
  | none => .error .parameterInvalid

/-- The integer that a value comes nearest to. -/
def toInteger (v : Value) : Except StatusCode Int :=
  match v.integer? with
  | some n => .ok n
  | none =>
    match v with
    | str s =>
      let text := Text.trim s.toList
      match readInteger text with
      | some n => .ok n
      | none =>
        match readDouble text with
        | some x => roundDouble x
        | none => .error .parameterInvalid
    | f32 x => roundDouble x.toDouble
    | f64 x => roundDouble x
    | _ => .error .parameterInvalid

/-- The double that a value comes nearest to. -/
def toDouble (v : Value) : Except StatusCode Double :=
  match v with
  | f32 x => .ok x.toDouble
  | f64 x => .ok x
  | str s =>
    match readDouble (Text.trim s.toList) with
    | some x => .ok x
    | none => .error .parameterInvalid
  | v =>
    match v.integer? with
    | some n => .ok (.ofInt n)
    | none => .error .parameterInvalid

/-- The double nearest to a number; other values are no numbers. -/
def number? : Value → Option Double
  | f32 x => some x.toDouble
  | f64 x => some x
  | v => v.integer?.map Double.ofInt

/-- The value of an integer kind that denotes `n`. -/
def ofInteger? (type : ValueType) (n : Int) : Option Value :=
  match type with
  | .u8 => if 0 ≤ n ∧ n < 0x100 then some (u8 (.ofNat n.toNat)) else none
  | .u16 => if 0 ≤ n ∧ n < 0x10000 then some (u16 (.ofNat n.toNat)) else none
  | .u32 => if 0 ≤ n ∧ n < 0x100000000 then some (u32 (.ofNat n.toNat)) else none
  | .u64 => if 0 ≤ n ∧ n < 0x10000000000000000 then some (u64 (.ofNat n.toNat)) else none
  | .i8 => if -0x80 ≤ n ∧ n < 0x80 then some (i8 (.ofInt n)) else none
  | .i16 => if -0x8000 ≤ n ∧ n < 0x8000 then some (i16 (.ofInt n)) else none
  | .i32 => if -0x80000000 ≤ n ∧ n < 0x80000000 then some (i32 (.ofInt n)) else none
  | .i64 => if -0x8000000000000000 ≤ n ∧ n < 0x8000000000000000 then some (i64 (.ofInt n)) else none
  | _ => none

/-- The value as a value of a kind. -/
def asType (v : Value) (type : ValueType) : Except StatusCode Value :=
  if v.type = type then .ok v
  else
    match type with
    | .null | .bin => .error .parameterInvalid
    | .str =>
      match v with
      | json s => .ok (str s)
      | _ => .error .parameterInvalid
    | .json =>
      match v with
      | str s => .ok (json s)
      | _ => .error .parameterInvalid
    | .f32 => v.toDouble.map fun x => f32 x.toSingle
    | .f64 => v.toDouble.map f64
    | type =>
      match v.toInteger with
      | .error e => .error e
      | .ok n =>
        match ofInteger? type n with
        | some w => .ok w
        | none => .error .parameterInvalid

/-- The value of a JSON scalar; an array or an object stays a document. -/
def ofJson : Json → Value
  | .null => null
  | .bool b => u8 (if b then 1 else 0)
  | .number (.unsigned n) => u64 n
  | .number (.negative n) => i64 n
  | .number (.float x) => f64 x
  | .string s => str s
  | document => json document.write

end Value
end InstrumentBus
