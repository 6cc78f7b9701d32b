import InstrumentBus.Failure

/-!
Reading bytes as UTF-8.

A sequence that breaks off at the end of the bytes is told apart from one that holds a wrong byte;
of the latter the number of bytes is given that can only be skipped together.
-/

namespace InstrumentBus.Text

/-- Bytes from `index` on are not UTF-8. -/
inductive Utf8Error
  /-- So many bytes form no character. -/
  | invalid (length index : Nat)
  /-- The bytes end within a character. -/
  | incomplete (index : Nat)
  deriving DecidableEq, Repr

def Utf8Error.message : Utf8Error → String
  | invalid length index => s!"invalid utf-8 sequence of {length} bytes from index {index}"
  | incomplete index => s!"incomplete utf-8 byte sequence from index {index}"

/-- Bytes that should have been text. -/
def Utf8Error.toFailure (e : Utf8Error) : Failure :=
  .ofStatus .syntaxError ("payload is not UTF-8: " ++ e.message)

/-- What a first byte announces: its share of the code point, how many bytes follow, and the bounds
of the next one, which leave out spellings that are too long, surrogates and what lies beyond the
last code point. -/
def utf8Lead (b : UInt8) : Option (Nat × Nat × UInt8 × UInt8) :=
  if b < 0x80 then some (b.toNat, 0, 0x80, 0xBF)
  else if b < 0xC2 then none
  else if b < 0xE0 then some (b.toNat - 0xC0, 1, 0x80, 0xBF)
  else if b == 0xE0 then some (0, 2, 0xA0, 0xBF)
  else if b == 0xED then some (0xD, 2, 0x80, 0x9F)
  else if b < 0xF0 then some (b.toNat - 0xE0, 2, 0x80, 0xBF)
  else if b == 0xF0 then some (0, 3, 0x90, 0xBF)
  else if b < 0xF4 then some (b.toNat - 0xF0, 3, 0x80, 0xBF)
  else if b == 0xF4 then some (4, 3, 0x80, 0x8F)
  else none

/-- The bytes behind the first one: the code point and the bytes after it, or the number of bytes
that are wrong together, none if the bytes ended. -/
def utf8Tail (code : Nat) (taken : Nat) (low high : UInt8) :
    Nat → List UInt8 → Except (Option Nat) (Nat × List UInt8)
  | 0, bytes => .ok (code, bytes)
  | _ + 1, [] => .error none
  | n + 1, b :: bytes =>
    if low ≤ b ∧ b ≤ high then
      utf8Tail (code * 64 + b.toNat % 64) (taken + 1) 0x80 0xBF n bytes
    else .error (some taken)

theorem length_of_utf8Tail {code taken n code' : Nat} {low high : UInt8}
    {bytes rest : List UInt8} (h : utf8Tail code taken low high n bytes = .ok (code', rest)) :
    rest.length ≤ bytes.length := by
  induction n generalizing code taken low high bytes with
  | zero =>
    simp only [utf8Tail, Except.ok.injEq, Prod.mk.injEq] at h
    simp [h.2]
  | succ n ih =>
    cases bytes with
    | nil => simp [utf8Tail] at h
    | cons b bytes =>
      unfold utf8Tail at h
      split at h
      · exact Nat.le_succ_of_le (ih h)
      · simp at h

/-- The characters of bytes that start at an index. -/
def decodeUtf8From (index : Nat) (bytes : List UInt8) : Except Utf8Error (List Char) :=
  match bytes with
  | [] => .ok []
  | b :: rest =>
    match utf8Lead b with
    | none => .error (.invalid 1 index)
    | some (code, follow, low, high) =>
      match h : utf8Tail code 1 low high follow rest with
      | .error none => .error (.incomplete index)
      | .error (some length) => .error (.invalid length index)
      | .ok (code, rest') =>
        have : rest'.length < rest.length + 1 := Nat.lt_succ_of_le (length_of_utf8Tail h)
        (decodeUtf8From (index + follow + 1) rest').map (Char.ofNat code :: ·)
  termination_by bytes.length

/-- The text that bytes spell in UTF-8. -/
def decodeUtf8 (bytes : List UInt8) : Except Utf8Error String :=
  (decodeUtf8From 0 bytes).map .ofList

end InstrumentBus.Text
