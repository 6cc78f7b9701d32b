/-!
White space as the character property of that name defines it, and trimming by it.
-/

namespace InstrumentBus.Text

/-- The characters with the property `White_Space`. -/
def isBlank (c : Char) : Bool :=
  let n := c.toNat
  (9 ≤ n && n ≤ 13) || n == 0x20 || n == 0x85 || n == 0xA0 || n == 0x1680
    || (0x2000 ≤ n && n ≤ 0x200A) || n == 0x2028 || n == 0x2029 || n == 0x202F || n == 0x205F
    || n == 0x3000

/-- A text without the white space at its ends. -/
def trim (cs : List Char) : List Char :=
  ((cs.dropWhile isBlank).reverse.dropWhile isBlank).reverse

/-- Letters of the Latin alphabet in small form; all else stays. -/
def lowerAscii (s : String) : String := .ofList (s.toList.map Char.toLower)

end InstrumentBus.Text
