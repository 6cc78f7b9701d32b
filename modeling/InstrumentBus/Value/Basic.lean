import InstrumentBus.Number.Numeral
import InstrumentBus.StatusCode
import InstrumentBus.Text.Pieces

/-!
The values that topics hold: nothing, text, a JSON document, bytes, or a number of one of ten kinds.

`Value.equiv` compares values by what they denote: numbers after widening to 64 bits, integers of
either sign as integers. `==` compares kind and content; two floating-point numbers are equal as
numbers, so a value that is not a number differs from itself.
-/

namespace InstrumentBus

open Number

/-- The kinds of values. -/
inductive ValueType
  | null
  | str
  | json
  | bin
  | f32
  | f64
  | u8
  | u16
  | u32
  | u64
  | i8
  | i16
  | i32
  | i64
  deriving DecidableEq, Repr

namespace ValueType

/-- The name in three characters. -/
def name : ValueType → String
  | null => "nul"
  | str => "str"
  | json => "jsn"
  | bin => "bin"
  | f32 => "f32"
  | f64 => "f64"
  | u8 => " u8"
  | u16 => "u16"
  | u32 => "u32"
  | u64 => "u64"
  | i8 => " i8"
  | i16 => "i16"
  | i32 => "i32"
  | i64 => "i64"

/-- Text, a document or bytes: what may lie in a buffer. -/
def isPointer : ValueType → Bool
  | str | json | bin => true
  | _ => false

def isInteger : ValueType → Bool
  | u8 | u16 | u32 | u64 | i8 | i16 | i32 | i64 => true
  | _ => false

def isFloat : ValueType → Bool
  | f32 | f64 => true
  | _ => false

/-- The kind that a metadata document names. A truth value is kept as `u8`. -/
def ofName? (dtype : String) : Option ValueType :=
  match dtype with
  | "u8" | "bool" => some u8
  | "u16" => some u16
  | "u32" => some u32
  | "u64" => some u64
  | "i8" => some i8
  | "i16" => some i16
  | "i32" => some i32
  | "i64" => some i64
  | "f32" => some f32
  | "f64" => some f64
  | "str" => some str
  | "json" => some json
  | "bin" => some bin
  | _ => none

end ValueType

/-- Bytes are compared as arrays. -/
local instance decidableEqBytes : DecidableEq ByteArray := ByteArray.instDecidableEq

/-- A value. -/
inductive Value
  | null
  | str (s : String)
  | json (s : String)
  | bin (b : ByteArray)
  | f32 (x : Single)
  | f64 (x : Double)
  | u8 (n : UInt8)
  | u16 (n : UInt16)
  | u32 (n : UInt32)
  | u64 (n : UInt64)
  | i8 (n : Int8)
  | i16 (n : Int16)
  | i32 (n : Int32)
  | i64 (n : Int64)
  deriving DecidableEq

namespace Value

instance : Inhabited Value := ⟨null⟩

def type : Value → ValueType
  | null => .null
  | str _ => .str
  | json _ => .json
  | bin _ => .bin
  | f32 _ => .f32
  | f64 _ => .f64
  | u8 _ => .u8
  | u16 _ => .u16
  | u32 _ => .u32
  | u64 _ => .u64
  | i8 _ => .i8
  | i16 _ => .i16
  | i32 _ => .i32
  | i64 _ => .i64

/-- The bytes of text, a document or bytes. -/
def bytes? : Value → Option ByteArray
  | str s | json s => some s.toUTF8
  | bin b => some b
  | _ => none

/-- How many bytes the value needs outside of its envelope's fixed part. -/
def byteLength (v : Value) : Nat := (v.bytes?.map ByteArray.size).getD 0

/-- The integer that an integer value denotes. -/
def integer? : Value → Option Int
  | u8 n => some n.toNat
  | u16 n => some n.toNat
  | u32 n => some n.toNat
  | u64 n => some n.toNat
  | i8 n => some n.toInt
  | i16 n => some n.toInt
  | i32 n => some n.toInt
  | i64 n => some n.toInt
  | _ => none

/-- The same value with 64 bits: unsigned stays unsigned and signed stays signed. -/
def widen : Value → Value
  | u8 n => u64 n.toUInt64
  | u16 n => u64 n.toUInt64
  | u32 n => u64 n.toUInt64
  | i8 n => i64 n.toInt64
  | i16 n => i64 n.toInt64
  | i32 n => i64 n.toInt64
  | f32 x => f64 x.toDouble
  | v => v

/-- Equal in kind and content; floating-point numbers as numbers. -/
def same : Value → Value → Bool
  | f32 x, f32 y => x.datum.equal y.datum
  | f64 x, f64 y => x.datum.equal y.datum
  | v, w => decide (v = w)

instance : BEq Value := ⟨same⟩

/-- Equal after widening; an unsigned and a signed integer are equal if they are one integer. -/
def equiv (v w : Value) : Bool :=
  match v.widen, w.widen with
  | u64 m, i64 n | i64 n, u64 m => 0 ≤ n && m == n.toUInt64
  | v, w => v == w

/-- The number that comes back in a return-code envelope. -/
def returnCode? : Value → Option Int32
  | i32 n => some n
  | _ => none

/-- The value as people read it. -/
def display : Value → String
  | null => "null"
  | str s | json s => s
  | bin b => s!"<{b.size} bytes>"
  | f32 x => x.display
  | f64 x => x.display
  | u8 n => toString n.toNat
  | u16 n => toString n.toNat
  | u32 n => toString n.toNat
  | u64 n => toString n.toNat
  | i8 n => toString n.toInt
  | i16 n => toString n.toInt
  | i32 n => toString n.toInt
  | i64 n => toString n.toInt

end Value

/-- Where the bytes of a value live: in memory of its own, or in a constant of the program. -/
inductive Storage
  | owned
  | static
  deriving DecidableEq, Repr

/-- A value together with where it lives; only text, documents and bytes can be constants. -/
structure Stored where
  value : Value
  storage : Storage := .owned
  deriving DecidableEq

namespace Stored

/-- The value is a constant of the program. -/
def isConst (s : Stored) : Bool := s.storage == .static && s.value.type.isPointer

instance : Coe Value Stored := ⟨fun v => ⟨v, .owned⟩⟩

end Stored

/-- What an envelope says about its value: to be kept in the tree, and a constant of the program. -/
structure ValueFlags where
  retain : Bool := false
  const : Bool := false
  deriving DecidableEq, Repr

namespace ValueFlags

def empty : ValueFlags := {}

/-- The value is kept in the tree. -/
def retained : ValueFlags := ⟨true, false⟩

def bits (f : ValueFlags) : Nat := f.retain.toNat + 2 * f.const.toNat

/-- The flags with these bits, if no other bit is set. -/
def ofBits? (n : Nat) : Option ValueFlags :=
  if n < 4 then some ⟨n % 2 = 1, n / 2 % 2 = 1⟩ else none

/-- The flags in three characters. -/
def label (f : ValueFlags) : String :=
  match f.retain, f.const with
  | false, false => "   "
  | true, false => ".R "
  | false, true => ".C "
  | true, true => ".RC"

end ValueFlags

end InstrumentBus
