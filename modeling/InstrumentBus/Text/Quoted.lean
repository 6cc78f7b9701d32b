import InstrumentBus.Text.Unprintable

/-!
Text in double quotes, spelled so that every character can be seen.
-/

namespace InstrumentBus.Text

/-- One character between quotes. -/
def quoteChar (c : Char) : List Char :=
  match c with
  | '\x00' => ['\\', '0']
  | '\t' => ['\\', 't']
  | '\n' => ['\\', 'n']
  | '\r' => ['\\', 'r']
  | '"' => ['\\', '"']
  | '\\' => ['\\', '\\']
  | c =>
    if isUnprintable c then
      ['\\', 'u', '\x7b'] ++ Nat.toDigits 16 c.toNat ++ ['\x7d']
    else [c]

/-- A text in quotes. -/
def quote (s : String) : String := "\"" ++ .ofList (s.toList.flatMap quoteChar) ++ "\""

end InstrumentBus.Text
